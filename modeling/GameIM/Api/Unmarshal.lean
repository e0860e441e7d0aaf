import GameIM.Lib.Fields
import GameIM.Lib.Int64
import GameIM.Api.Pb

/-! A reader of the wire format for the messages of api/proto: fields come in any order, a later one
replaces an earlier one or joins it, unknown ones are passed, and a string has to be UTF-8. It
stands in for proto.Unmarshal where a run is computed. What was marshalled is read back. -/
namespace GameIM.Api
open Lib

/- Two's complement of the low bits. -/
@[irreducible] def signed (modulus : Int) (n : Nat) : Int :=
  if 2 * (n % modulus) < modulus then n % modulus else n % modulus - modulus

/- An integer is written with 64 bits, whatever its type. -/
def bits (n : Int) : Nat := (n % 18446744073709551616).toNat

theorem bits_lt (n : Int) : bits n < 2 ^ 64 := by
  unfold bits
  omega

def readString (data : Bytes) : Option String := String.fromUTF8? ⟨data.toArray⟩

def readText (data : Bytes) : Option Bytes := if validUTF8 data then some data else none

theorem isInt64_iff {n : Int} : IsInt64 n ↔ -9223372036854775808 ≤ n ∧ n < 9223372036854775808 := by
  norm_num [IsInt64]

theorem isInt32_iff {n : Int} : IsInt32 n ↔ -2147483648 ≤ n ∧ n < 2147483648 := by
  norm_num [IsInt32]

theorem readString_utf8 (s : String) : readString (utf8 s) = some s := by
  have valid : s.toUTF8.IsValidUTF8 := s.isValidUTF8
  have bytes : (⟨(utf8 s).toArray⟩ : ByteArray) = s.toUTF8 := rfl
  rw [readString, bytes, String.fromUTF8?, dif_pos valid]
  rfl

theorem string_unset (s : String) (empty : utf8 s = []) : s = "" := by
  have read := readString_utf8 s
  rw [empty] at read
  exact (Option.some.inj read).symm

theorem read_back {α : Type} {made : Option Bytes} {unmarshal : Bytes → Option α} {a : α} {data : Bytes}
    (trip : ∃ data, made = some data ∧ unmarshal data = some a) (sent : made = some data) :
    unmarshal data = some a := by
  obtain ⟨_, same, read⟩ := trip
  cases Option.some.inj (same.symm.trans sent)
  exact read

section Encoded

variable (tag : UInt8) (number : Nat)

theorem encodeFields_varint (byte : varint (8 * number) = [tag]) (n : Nat) :
    encodeFields ((if n = 0 then [] else [Value.varint n]).map fun v => (number, v)) = uintField tag n := by
  unfold uintField
  split
  · rfl
  · simp [encodeFields, Field.encode, byte]

theorem encodeFields_sized (byte : varint (8 * number + 2) = [tag]) (data : Bytes) :
    encodeFields ((if data = [] then [] else [Value.sized data]).map fun v => (number, v)) = bytesField tag data := by
  unfold bytesField
  split
  · rfl
  · simp [encodeFields, Field.encode, byte]

end Encoded

namespace Pb

def uint32 : Codec UInt32 :=
  .number 0 UInt32.ofNat UInt32.toNat (fun _ => True) trivial (fun n => by have := n.toNat_lt; omega) (fun _ => trivial)
    (fun _ _ => UInt32.ofNat_toNat) (fun _ _ zero => UInt32.toNat_inj.mp zero)

def bytes : Codec Bytes :=
  .bytes [] some id (fun _ => True) trivial (fun _ _ _ => trivial) (fun _ _ => rfl) (fun _ _ empty => empty)

def int64 : Codec Int :=
  .number 0 (signed 18446744073709551616) bits IsInt64 (isInt64_iff.mpr (by omega)) bits_lt
    (fun n => by rw [isInt64_iff, signed]; split <;> omega)
    (fun n range => by rw [isInt64_iff] at range; rw [signed, bits]; split <;> omega)
    (fun n range zero => by rw [isInt64_iff] at range; rw [bits] at zero; omega)

def int32 : Codec Int :=
  .number 0 (signed 4294967296) bits IsInt32 (isInt32_iff.mpr (by omega)) bits_lt
    (fun n => by rw [isInt32_iff, signed]; split <;> omega)
    (fun n range => by rw [isInt32_iff] at range; rw [signed, bits]; split <;> omega)
    (fun n range zero => by rw [isInt32_iff] at range; rw [bits] at zero; omega)

def string : Codec String :=
  .bytes "" readString utf8 (fun _ => True) trivial (fun _ _ _ => trivial) (fun s _ => readString_utf8 s)
    (fun s _ => string_unset s)

def text : Codec Bytes :=
  .bytes [] readText id (fun data => validUTF8 data = true) rfl
    (fun data read found => by
      unfold readText at found
      split at found
      · rename_i valid
        exact Option.some.inj found ▸ valid
      · contradiction)
    (fun data valid => if_pos valid) (fun _ _ empty => empty)

def strings : Codec (List String) :=
  .repeated readString utf8 (fun _ => True) (fun _ _ _ => trivial) (fun s _ => readString_utf8 s)

/- Proto3 enums are open. -/
def channelType : Codec ChannelType := int32.as ChannelType.mk ChannelType.number

def msgType : Codec MsgType := int32.as MsgType.mk MsgType.number

def frame : Message Frame :=
  (Message.cons 1 uint32 <| .cons 2 uint32 <| .cons 3 bytes .nil).as
    (fun (cmdId, seq, payload, _) => ⟨cmdId, seq, payload⟩) (fun f => (f.cmdId, f.seq, f.payload, ()))

def senderInfo : Message SenderInfo :=
  (Message.cons 1 int64 <| .cons 2 string <| .cons 3 string <| .cons 4 int32 <| .cons 5 string .nil).as
    (fun (senderId, senderName, senderHeadImage, senderRank, allianceName, _) =>
      ⟨senderId, senderName, senderHeadImage, senderRank, allianceName⟩)
    (fun s => (s.senderId, s.senderName, s.senderHeadImage, s.senderRank, s.allianceName, ()))

def imMessage : Message ImMessage :=
  (Message.cons 1 int64 <| .cons 2 string <| .cons 3 channelType <| .cons 4 (.message senderInfo) <| .cons 5 text <|
      .cons 6 msgType <| .cons 7 strings <| .cons 8 int64 <| .cons 9 string .nil).as
    (fun (msgId, channelId, channelType, sender, content, msgType, msgParam, sendTime, clientMsgId, _) =>
      ⟨msgId, channelId, channelType, sender, content, msgType, msgParam, sendTime, clientMsgId⟩)
    (fun m => (m.msgId, m.channelId, m.channelType, m.sender, m.content, m.msgType, m.msgParam, m.sendTime,
      m.clientMsgId, ()))

def lastMsgId : Message (String × Int) :=
  (Message.cons 1 string <| .cons 2 int64 .nil).as (fun (channelId, msgId, _) => (channelId, msgId))
    (fun entry => (entry.1, entry.2, ()))

structure FullAuthReq where
  token : String
  version : String
  channelLastMsgIds : List (String × Int)
  deriving DecidableEq, Repr

def lastMsgIds : Codec (List (String × Int)) :=
  .repeated lastMsgId.unmarshal lastMsgId.encode lastMsgId.Good (fun _ _ => Message.unmarshal_good)
    (fun _ => Message.unmarshal_encode)

def authReq : Message FullAuthReq :=
  (Message.cons 1 string <| .cons 2 string <| .cons 3 lastMsgIds .nil).as
    (fun (token, version, channelLastMsgIds, _) => ⟨token, version, channelLastMsgIds⟩)
    (fun r => (r.token, r.version, r.channelLastMsgIds, ()))

def unmarshalAuthReq (data : Bytes) : Option AuthReq := (authReq.unmarshal data).map fun r => ⟨r.token⟩

def sendMsgReq : Message SendMsgReq :=
  (Message.cons 1 string <| .cons 2 channelType <| .cons 3 text <| .cons 4 msgType <| .cons 5 strings <|
      .cons 6 string .nil).as
    (fun (channelId, channelType, content, msgType, msgParam, clientMsgId, _) =>
      ⟨channelId, channelType, content, msgType, msgParam, clientMsgId⟩)
    (fun r => (r.channelId, r.channelType, r.content, r.msgType, r.msgParam, r.clientMsgId, ()))

def sendMsgResp : Message SendMsgResp :=
  (Message.cons 1 int32 <| .cons 2 string <| .cons 3 int64 <| .cons 4 int64 .nil).as
    (fun (code, msg, msgId, sendTime, _) => ⟨code, msg, msgId, sendTime⟩)
    (fun r => (r.code, r.msg, r.msgId, r.sendTime, ()))

def pullMsgReq : Message PullMsgReq :=
  (Message.cons 1 string <| .cons 2 int64 <| .cons 3 int32 .nil).as
    (fun (channelId, lastMsgId, limit, _) => ⟨channelId, lastMsgId, limit⟩)
    (fun r => (r.channelId, r.lastMsgId, r.limit, ()))

def messages : Codec (List ImMessage) :=
  .repeated imMessage.unmarshal imMessage.encode imMessage.Good (fun _ _ => Message.unmarshal_good)
    (fun _ => Message.unmarshal_encode)

def pullMsgResp : Message PullMsgResp :=
  (Message.cons 1 int32 <| .cons 2 string <| .cons 3 messages .nil).as
    (fun (code, msg, messages, _) => ⟨code, msg, messages⟩) (fun r => (r.code, r.msg, r.messages, ()))

def authResp : Message AuthResp :=
  (Message.cons 1 int32 <| .cons 2 string <| .cons 3 int64 <| .cons 4 int64 .nil).as
    (fun (code, msg, uid, serverTime, _) => ⟨code, msg, uid, serverTime⟩)
    (fun r => (r.code, r.msg, r.uid, r.serverTime, ()))

def ackMsgReq : Message AckMsgReq :=
  (Message.cons 1 string <| .cons 2 int64 .nil).as (fun (channelId, msgId, _) => ⟨channelId, msgId⟩)
    (fun r => (r.channelId, r.msgId, ()))

def heartbeatResp : Message HeartbeatResp :=
  (Message.cons 1 int64 .nil).as (fun (serverTime, _) => ⟨serverTime⟩) (fun r => (r.serverTime, ()))

structure PushNewMessage where
  message : Option ImMessage
  deriving DecidableEq, Repr

def pushNewMessage : Message PushNewMessage :=
  (Message.cons 1 (.message imMessage) .nil).as (fun (message, _) => ⟨message⟩) (fun r => (r.message, ()))

section Encoded

variable (tag : UInt8) (number : Nat)

theorem encode_int64 (byte : varint (8 * number) = [tag]) (n : Int) :
    encodeFields ((int64.write n).map fun v => (number, v)) = intField tag n := encodeFields_varint tag number byte _

theorem encode_int32 (byte : varint (8 * number) = [tag]) (n : Int) :
    encodeFields ((int32.write n).map fun v => (number, v)) = intField tag n := encodeFields_varint tag number byte _

theorem encode_string (byte : varint (8 * number + 2) = [tag]) (s : String) :
    encodeFields ((string.write s).map fun v => (number, v)) = stringField tag s :=
  encodeFields_sized tag number byte _

theorem encode_text (byte : varint (8 * number + 2) = [tag]) (data : Bytes) :
    encodeFields ((text.write data).map fun v => (number, v)) = bytesField tag data :=
  encodeFields_sized tag number byte _

theorem encode_repeated {α : Type} (byte : varint (8 * number + 2) = [tag]) (bytes : α → Bytes) (xs : List α) :
    encodeFields ((xs.map fun x => Value.sized (bytes x)).map fun v => (number, v)) =
      xs.flatMap fun x => tag :: sized (bytes x) := by
  simp [encodeFields, Field.encode, byte, List.flatMap_map]

theorem encode_channelType (byte : varint (8 * number) = [tag]) (t : ChannelType) :
    encodeFields ((channelType.write t).map fun v => (number, v)) = intField tag t.number :=
  encode_int32 tag number byte t.number

theorem encode_msgType (byte : varint (8 * number) = [tag]) (t : MsgType) :
    encodeFields ((msgType.write t).map fun v => (number, v)) = intField tag t.number :=
  encode_int32 tag number byte t.number

theorem encode_strings (byte : varint (8 * number + 2) = [tag]) (xs : List String) :
    encodeFields ((strings.write xs).map fun v => (number, v)) = xs.flatMap fun x => tag :: sized (utf8 x) :=
  encode_repeated tag number byte utf8 xs

theorem encode_messages (byte : varint (8 * number + 2) = [tag]) (xs : List ImMessage) :
    encodeFields ((messages.write xs).map fun v => (number, v)) =
      xs.flatMap fun x => tag :: sized (imMessage.encode x) :=
  encode_repeated tag number byte imMessage.encode xs

theorem encode_message {M : Type} (byte : varint (8 * number + 2) = [tag]) (msg : Message M) (m : Option M) :
    encodeFields (((Codec.message msg).write m).map fun v => (number, v)) =
      m.toList.flatMap fun m => tag :: sized (msg.encode m) :=
  encode_repeated tag number byte msg.encode m.toList

end Encoded

theorem frame_encode (f : Frame) : frame.encode f = marshalFrame f := by
  have number (tag : UInt8) (k : Nat) (byte : varint (8 * k) = [tag]) (n : UInt32) :
      encodeFields ((uint32.write n).map fun v => (k, v)) = uintField tag n.toNat :=
    encodeFields_varint tag k byte _
  have sized : encodeFields ((bytes.write f.payload).map fun v => (3, v)) = bytesField 0x1A f.payload :=
    encodeFields_sized 0x1A 3 rfl _
  rw [frame, Message.encode_as]
  simp only [Message.encode_cons, Message.encode_nil, number 0x08 1 rfl, number 0x10 2 rfl, sized, List.append_nil,
    marshalFrame, List.append_assoc]

theorem senderInfo_encode (s : SenderInfo) : senderInfo.encode s = marshalSender s := by
  rw [senderInfo, Message.encode_as]
  simp only [Message.encode_cons, Message.encode_nil, encode_int64 0x08 1 rfl, encode_string 0x12 2 rfl,
    encode_string 0x1A 3 rfl, encode_int32 0x20 4 rfl, encode_string 0x2A 5 rfl, List.append_nil,
    marshalSender, List.append_assoc]

theorem marshalImMessage_eq (m : ImMessage) :
    marshalImMessage m = if validUTF8 m.content then some (imMessage.encode m) else none := by
  obtain ⟨msgId, channelId, channelType, sender, content, msgType, msgParam, sendTime, clientMsgId⟩ := m
  unfold marshalImMessage validUTF8
  split
  · rw [imMessage, Message.encode_as]
    simp only [Message.encode_cons, Message.encode_nil, encode_int64 0x08 1 rfl, encode_string 0x12 2 rfl,
      encode_channelType 0x18 3 rfl, encode_message 0x22 4 rfl, senderInfo_encode, encode_text 0x2A 5 rfl,
      encode_msgType 0x30 6 rfl, encode_strings 0x3A 7 rfl, encode_int64 0x40 8 rfl, encode_string 0x4A 9 rfl,
      List.append_nil, List.append_assoc]
    cases sender with
    | none => rfl
    | some s => simp
  · rfl

theorem marshalSendMsgReq_eq (r : SendMsgReq) :
    marshalSendMsgReq r = if validUTF8 r.content then some (sendMsgReq.encode r) else none := by
  unfold marshalSendMsgReq
  split
  · rw [sendMsgReq, Message.encode_as]
    simp only [Message.encode_cons, Message.encode_nil, encode_string 0x0A 1 rfl, encode_channelType 0x10 2 rfl,
      encode_text 0x1A 3 rfl, encode_msgType 0x20 4 rfl, encode_strings 0x2A 5 rfl, encode_string 0x32 6 rfl,
      List.append_nil, List.append_assoc]
  · rfl

theorem sendMsgResp_encode (r : SendMsgResp) : sendMsgResp.encode r = marshalSendMsgResp r := by
  rw [sendMsgResp, Message.encode_as]
  simp only [Message.encode_cons, Message.encode_nil, encode_int32 0x08 1 rfl, encode_string 0x12 2 rfl,
    encode_int64 0x18 3 rfl, encode_int64 0x20 4 rfl, List.append_nil, marshalSendMsgResp, List.append_assoc]

theorem authResp_encode (r : AuthResp) : authResp.encode r = marshalAuthResp r := by
  rw [authResp, Message.encode_as]
  simp only [Message.encode_cons, Message.encode_nil, encode_int32 0x08 1 rfl, encode_string 0x12 2 rfl,
    encode_int64 0x18 3 rfl, encode_int64 0x20 4 rfl, List.append_nil, marshalAuthResp, List.append_assoc]

theorem heartbeatResp_encode (r : HeartbeatResp) : heartbeatResp.encode r = marshalHeartbeatResp r := by
  rw [heartbeatResp, Message.encode_as]
  simp only [Message.encode_cons, Message.encode_nil, encode_int64 0x08 1 rfl, List.append_nil, marshalHeartbeatResp]

theorem marshalPushNewMessage_eq (m : ImMessage) : marshalPushNewMessage m =
    if validUTF8 m.content then some (pushNewMessage.encode ⟨some m⟩) else none := by
  rw [pushNewMessage, Message.encode_as, marshalPushNewMessage, marshalImMessage_eq]
  simp only [Message.encode_cons, Message.encode_nil, encode_message 0x0A 1 rfl, List.append_nil]
  split
  · simp
  · rfl

theorem mapM_imMessage {ms : List ImMessage} (each : ∀ m ∈ ms, validUTF8 m.content = true) :
    ms.mapM marshalImMessage = some (ms.map imMessage.encode) := by
  induction ms with
  | nil => rfl
  | cons m ms ih =>
    have first : marshalImMessage m = some (imMessage.encode m) := by
      rw [marshalImMessage_eq, if_pos (each m List.mem_cons_self)]
    rw [List.mapM_cons, first, ih fun n member => each n (List.mem_cons_of_mem m member)]
    rfl

theorem marshalPullMsgResp_eq {r : PullMsgResp} (each : ∀ m ∈ r.messages, validUTF8 m.content = true) :
    marshalPullMsgResp r = some (pullMsgResp.encode r) := by
  rw [pullMsgResp, Message.encode_as, marshalPullMsgResp, mapM_imMessage each]
  simp only [Message.encode_cons, Message.encode_nil, encode_int32 0x08 1 rfl, encode_string 0x12 2 rfl,
    encode_messages 0x1A 3 rfl, List.append_nil, Option.map_some, List.flatMap_map, List.append_assoc]

section Good

@[simp] theorem int64_good (n : Int) : int64.Good n ↔ IsInt64 n := Iff.rfl

@[simp] theorem int32_good (n : Int) : int32.Good n ↔ IsInt32 n := Iff.rfl

@[simp] theorem channelType_good (t : ChannelType) : channelType.Good t ↔ IsInt32 t.number := Iff.rfl

@[simp] theorem msgType_good (t : MsgType) : msgType.Good t ↔ IsInt32 t.number := Iff.rfl

@[simp] theorem string_good (s : String) : string.Good s := trivial

@[simp] theorem strings_good (xs : List String) : strings.Good xs := fun _ _ => trivial

@[simp] theorem text_good (data : Bytes) : text.Good data ↔ validUTF8 data = true := Iff.rfl

@[simp] theorem message_good {M : Type} (msg : Message M) (m : Option M) :
    (Codec.message msg).Good m ↔ ∀ m' ∈ m, msg.Good m' := Iff.rfl

@[simp] theorem messages_good (ms : List ImMessage) : messages.Good ms ↔ ∀ m ∈ ms, imMessage.Good m := Iff.rfl

theorem senderInfo_good {s : SenderInfo} : senderInfo.Good s ↔ s.Good := by
  simp [senderInfo, SenderInfo.Good]

theorem imMessage_good {m : ImMessage} : imMessage.Good m ↔ m.Good := by
  simp [imMessage, senderInfo_good, ImMessage.Good]

theorem sendMsgReq_good {r : SendMsgReq} : sendMsgReq.Good r ↔ r.Good := by
  simp [sendMsgReq, SendMsgReq.Good]

theorem sendMsgResp_good {r : SendMsgResp} : sendMsgResp.Good r ↔ r.Good := by
  simp [sendMsgResp, SendMsgResp.Good]

theorem pullMsgResp_good {r : PullMsgResp} : pullMsgResp.Good r ↔ r.Good := by
  simp [pullMsgResp, imMessage_good, PullMsgResp.Good]

theorem authResp_good {r : AuthResp} : authResp.Good r ↔ r.Good := by
  simp [authResp, AuthResp.Good]

theorem heartbeatResp_good {r : HeartbeatResp} : heartbeatResp.Good r ↔ r.Good := by
  simp [heartbeatResp, HeartbeatResp.Good]

theorem pushNewMessage_good {m : ImMessage} : pushNewMessage.Good ⟨some m⟩ ↔ m.Good := by
  simp [pushNewMessage, imMessage_good]

end Good

theorem unmarshal_marshalImMessage {m : ImMessage} (good : m.Good) :
    ∃ data, marshalImMessage m = some data ∧ imMessage.unmarshal data = some m := by
  refine ⟨imMessage.encode m, ?_, Message.unmarshal_encode (imMessage_good.mpr good)⟩
  rw [marshalImMessage_eq, if_pos good.2.2.2.1]

theorem unmarshal_marshalSendMsgReq {r : SendMsgReq} (good : r.Good) :
    ∃ data, marshalSendMsgReq r = some data ∧ sendMsgReq.unmarshal data = some r := by
  refine ⟨sendMsgReq.encode r, ?_, Message.unmarshal_encode (sendMsgReq_good.mpr good)⟩
  rw [marshalSendMsgReq_eq, if_pos good.2.1]

theorem unmarshal_marshalPushNewMessage {m : ImMessage} (good : m.Good) :
    ∃ data, marshalPushNewMessage m = some data ∧ pushNewMessage.unmarshal data = some ⟨some m⟩ := by
  refine ⟨pushNewMessage.encode ⟨some m⟩, ?_, Message.unmarshal_encode (pushNewMessage_good.mpr good)⟩
  rw [marshalPushNewMessage_eq, if_pos good.2.2.2.1]

theorem unmarshal_marshalPullMsgResp {r : PullMsgResp} (good : r.Good) :
    ∃ data, marshalPullMsgResp r = some data ∧ pullMsgResp.unmarshal data = some r := by
  refine ⟨pullMsgResp.encode r, ?_, Message.unmarshal_encode (pullMsgResp_good.mpr good)⟩
  exact marshalPullMsgResp_eq fun m member => (good.2 m member).2.2.2.1

theorem unmarshal_marshalAuthResp {r : AuthResp} (good : r.Good) :
    authResp.unmarshal (marshalAuthResp r) = some r := by
  rw [← authResp_encode]
  exact Message.unmarshal_encode (authResp_good.mpr good)

theorem unmarshal_marshalSendMsgResp {r : SendMsgResp} (good : r.Good) :
    sendMsgResp.unmarshal (marshalSendMsgResp r) = some r := by
  rw [← sendMsgResp_encode]
  exact Message.unmarshal_encode (sendMsgResp_good.mpr good)

theorem unmarshal_marshalHeartbeatResp {r : HeartbeatResp} (good : r.Good) :
    heartbeatResp.unmarshal (marshalHeartbeatResp r) = some r := by
  rw [← heartbeatResp_encode]
  exact Message.unmarshal_encode (heartbeatResp_good.mpr good)

/- Go has no other values of the number types than these. -/
def imMessageProto : Proto ImMessage where
  marshal m := if m.Good then marshalImMessage m else none
  unmarshal := imMessage.unmarshal
  undoes m data made := by
    split at made
    · rename_i good
      exact read_back (unmarshal_marshalImMessage good) made
    · contradiction

def pushProto : Proto ImMessage where
  marshal m := if m.Good then marshalPushNewMessage m else none
  unmarshal data := (pushNewMessage.unmarshal data).bind PushNewMessage.message
  undoes m data made := by
    split at made
    · rename_i good
      rw [read_back (unmarshal_marshalPushNewMessage good) made]
      rfl
    · contradiction

end Pb

def frameProto : Proto Frame where
  marshal f := some (marshalFrame f)
  unmarshal := Pb.frame.unmarshal
  undoes := by
    intro f data marshalled
    cases Option.some.inj marshalled
    rw [← Pb.frame_encode]
    exact Message.unmarshal_encode ⟨trivial, trivial, trivial, trivial⟩

end GameIM.Api
