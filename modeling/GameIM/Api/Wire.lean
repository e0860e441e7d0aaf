import GameIM.Lib.Wire
import GameIM.Api.Proto

/-! The wire format of the messages that reach a client. A field with its default value is left
out. All field numbers are below 16, so a tag is one byte. -/
namespace GameIM.Api
open Lib

def uintField (tag : UInt8) (n : Nat) : Bytes := if n = 0 then [] else tag :: varint n

def intField (tag : UInt8) (n : Int) : Bytes := uintField tag (n % 18446744073709551616).toNat

def bytesField (tag : UInt8) (data : Bytes) : Bytes := if data = [] then [] else tag :: sized data

def utf8 (s : String) : Bytes := s.toUTF8.data.toList

def stringField (tag : UInt8) (s : String) : Bytes := bytesField tag (utf8 s)

def marshalFrame (f : Frame) : Bytes :=
  uintField 0x08 f.cmdId.toNat ++ uintField 0x10 f.seq.toNat ++ bytesField 0x1A f.payload

def marshalSender (s : SenderInfo) : Bytes :=
  intField 0x08 s.senderId ++ stringField 0x12 s.senderName ++ stringField 0x1A s.senderHeadImage ++
    intField 0x20 s.senderRank ++ stringField 0x2A s.allianceName

/- proto.Marshal of a message in which one string may not be UTF-8. -/
def marshalImMessage (m : ImMessage) : Option Bytes :=
  if ByteArray.validateUTF8 ⟨m.content.toArray⟩ then
    some (intField 0x08 m.msgId ++ stringField 0x12 m.channelId ++ intField 0x18 m.channelType.number ++
      (match m.sender with
        | none => []
        | some s => 0x22 :: sized (marshalSender s)) ++
      bytesField 0x2A m.content ++ intField 0x30 m.msgType.number ++
      m.msgParam.flatMap (fun p => 0x3A :: sized (utf8 p)) ++
      intField 0x40 m.sendTime ++ stringField 0x4A m.clientMsgId)
  else none

/- Marshal and Unmarshal for the messages of a list, the latter by looking the bytes up. -/
def listed (known : List ImMessage) (distinct : ∀ a ∈ known, ∀ b ∈ known,
    marshalImMessage a = marshalImMessage b → a = b) : Proto ImMessage where
  marshal m := if m ∈ known then marshalImMessage m else none
  unmarshal data := known.find? fun m => marshalImMessage m = some data
  undoes := by
    intro m data marshalled
    split at marshalled
    · rename_i here
      obtain ⟨found, lookup⟩ : ∃ n, known.find? (fun m => marshalImMessage m = some data) = some n :=
        Option.isSome_iff_exists.mp (List.find?_isSome.mpr ⟨m, here, by simpa using marshalled⟩)
      have bytes : marshalImMessage found = some data := by simpa using List.find?_some lookup
      have same := distinct found (List.mem_of_find?_eq_some lookup) m here (bytes.trans marshalled.symm)
      rw [lookup, same]
    · contradiction

def marshalPushNewMessage (m : ImMessage) : Option Bytes :=
  (marshalImMessage m).map fun data => 0x0A :: sized data

def marshalWorldNotify (channelId : String) (latestSeq : Int) : Option Bytes :=
  some (stringField 0x0A channelId ++ intField 0x10 latestSeq)

end GameIM.Api
