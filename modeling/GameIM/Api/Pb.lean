import Mathlib
import GameIM.Lib.Int64
import GameIM.Api.Wire

/-! The requests and responses of the message handlers with their encodings, and
proto.Size: how long an encoding is, from the values of the fields alone. -/
namespace GameIM.Api
open Lib

namespace Pb

structure SendMsgReq where
  channelId : String
  channelType : ChannelType
  content : Bytes
  msgType : MsgType
  msgParam : List String
  clientMsgId : String
  deriving DecidableEq, Repr

structure SendMsgResp where
  code : Int
  msg : String
  msgId : Int
  sendTime : Int
  deriving DecidableEq, Repr

structure PullMsgReq where
  channelId : String
  lastMsgId : Int
  limit : Int
  deriving DecidableEq, Repr

structure PullMsgResp where
  code : Int
  msg : String
  messages : List ImMessage
  deriving DecidableEq, Repr

/- Of the request only the token is read. -/
structure AuthReq where
  token : String
  deriving DecidableEq, Repr

structure AuthResp where
  code : Int
  msg : String
  uid : Int
  serverTime : Int
  deriving DecidableEq, Repr

structure AckMsgReq where
  channelId : String
  msgId : Int
  deriving DecidableEq, Repr

structure HeartbeatResp where
  serverTime : Int
  deriving DecidableEq, Repr

end Pb

def validUTF8 (data : Bytes) : Bool := ByteArray.validateUTF8 ⟨data.toArray⟩

/-- A message as it can be unmarshalled: its numbers are in the ranges of their Go types, and its
content is UTF-8. -/
def SenderInfo.Good (s : SenderInfo) : Prop := IsInt64 s.senderId ∧ IsInt32 s.senderRank

def ImMessage.Good (m : ImMessage) : Prop :=
  IsInt64 m.msgId ∧ IsInt32 m.channelType.number ∧ (∀ s ∈ m.sender, s.Good) ∧ validUTF8 m.content = true ∧
    IsInt32 m.msgType.number ∧ IsInt64 m.sendTime

def Pb.SendMsgReq.Good (r : Pb.SendMsgReq) : Prop :=
  IsInt32 r.channelType.number ∧ validUTF8 r.content = true ∧ IsInt32 r.msgType.number

def Pb.SendMsgResp.Good (r : Pb.SendMsgResp) : Prop := IsInt32 r.code ∧ IsInt64 r.msgId ∧ IsInt64 r.sendTime

def Pb.PullMsgResp.Good (r : Pb.PullMsgResp) : Prop := IsInt32 r.code ∧ ∀ m ∈ r.messages, m.Good

def Pb.AuthResp.Good (r : Pb.AuthResp) : Prop := IsInt32 r.code ∧ IsInt64 r.uid ∧ IsInt64 r.serverTime

def Pb.HeartbeatResp.Good (r : Pb.HeartbeatResp) : Prop := IsInt64 r.serverTime

instance (s : SenderInfo) : Decidable s.Good := inferInstanceAs (Decidable (_ ∧ _))

instance (m : ImMessage) : Decidable m.Good := inferInstanceAs (Decidable (_ ∧ _))

instance (r : Pb.SendMsgReq) : Decidable r.Good := inferInstanceAs (Decidable (_ ∧ _))

instance (r : Pb.SendMsgResp) : Decidable r.Good := inferInstanceAs (Decidable (_ ∧ _))

instance (r : Pb.PullMsgResp) : Decidable r.Good := inferInstanceAs (Decidable (_ ∧ _))

instance (r : Pb.AuthResp) : Decidable r.Good := inferInstanceAs (Decidable (_ ∧ _))

instance (r : Pb.HeartbeatResp) : Decidable r.Good := inferInstanceAs (Decidable (IsInt64 _))

def marshalSendMsgReq (r : Pb.SendMsgReq) : Option Bytes :=
  if validUTF8 r.content then
    some (stringField 0x0A r.channelId ++ intField 0x10 r.channelType.number ++
      bytesField 0x1A r.content ++ intField 0x20 r.msgType.number ++
      r.msgParam.flatMap (fun p => 0x2A :: sized (utf8 p)) ++ stringField 0x32 r.clientMsgId)
  else none

def marshalSendMsgResp (r : Pb.SendMsgResp) : Bytes :=
  intField 0x08 r.code ++ stringField 0x12 r.msg ++ intField 0x18 r.msgId ++ intField 0x20 r.sendTime

def marshalPullMsgResp (r : Pb.PullMsgResp) : Option Bytes :=
  (r.messages.mapM marshalImMessage).map fun messages =>
    intField 0x08 r.code ++ stringField 0x12 r.msg ++ messages.flatMap fun data => 0x1A :: sized data

def marshalAuthResp (r : Pb.AuthResp) : Bytes :=
  intField 0x08 r.code ++ stringField 0x12 r.msg ++ intField 0x18 r.uid ++ intField 0x20 r.serverTime

def marshalHeartbeatResp (r : Pb.HeartbeatResp) : Bytes := intField 0x08 r.serverTime

def uintSize (n : Nat) : Nat := if n = 0 then 0 else 1 + varintSize n

def intSize (n : Int) : Nat := uintSize (n % 18446744073709551616).toNat

def bytesSize (n : Nat) : Nat := if n = 0 then 0 else 1 + sizedSize n

def stringSize (s : String) : Nat := bytesSize s.utf8ByteSize

def stringsSize (strings : List String) : Nat :=
  (strings.map fun s => 1 + sizedSize s.utf8ByteSize).sum

def senderSize (s : SenderInfo) : Nat :=
  intSize s.senderId + stringSize s.senderName + stringSize s.senderHeadImage +
    intSize s.senderRank + stringSize s.allianceName

def imMessageSize (m : ImMessage) : Nat :=
  intSize m.msgId + stringSize m.channelId + intSize m.channelType.number +
    (match m.sender with
      | none => 0
      | some s => 1 + sizedSize (senderSize s)) +
    bytesSize m.content.length + intSize m.msgType.number + stringsSize m.msgParam +
    intSize m.sendTime + stringSize m.clientMsgId

def sendMsgReqSize (r : Pb.SendMsgReq) : Nat :=
  stringSize r.channelId + intSize r.channelType.number + bytesSize r.content.length +
    intSize r.msgType.number + stringsSize r.msgParam + stringSize r.clientMsgId

def pullMsgRespSize (r : Pb.PullMsgResp) : Nat :=
  intSize r.code + stringSize r.msg + (r.messages.map fun m => 1 + sizedSize (imMessageSize m)).sum

def frameSize (cmdId seq : UInt32) (payload : Nat) : Nat :=
  uintSize cmdId.toNat + uintSize seq.toNat + bytesSize payload

@[simp] theorem uintField_length (tag : UInt8) (n : Nat) : (uintField tag n).length = uintSize n := by
  unfold uintField uintSize
  split
  · rfl
  · rw [List.length_cons, varint_length, Nat.add_comm]

@[simp] theorem intField_length (tag : UInt8) (n : Int) : (intField tag n).length = intSize n :=
  uintField_length tag _

@[simp] theorem bytesField_length (tag : UInt8) (data : Bytes) :
    (bytesField tag data).length = bytesSize data.length := by
  unfold bytesField bytesSize
  simp only [List.length_eq_zero_iff]
  split
  · rfl
  · rw [List.length_cons, sized_length, Nat.add_comm]

@[simp] theorem utf8_length (s : String) : (utf8 s).length = s.utf8ByteSize := by
  simp [utf8]

@[simp] theorem stringField_length (tag : UInt8) (s : String) :
    (stringField tag s).length = stringSize s := by
  rw [stringField, bytesField_length, utf8_length, stringSize]

@[simp] theorem strings_length (tag : UInt8) (strings : List String) :
    (strings.flatMap fun s => tag :: sized (utf8 s)).length = stringsSize strings := by
  simp only [List.length_flatMap, List.length_cons, sized_length, utf8_length, stringsSize,
    Nat.add_comm]

@[simp] theorem marshalSender_length (s : SenderInfo) : (marshalSender s).length = senderSize s := by
  simp only [marshalSender, senderSize, List.length_append, intField_length, stringField_length]

theorem marshalFrame_length (f : Frame) :
    (marshalFrame f).length = frameSize f.cmdId f.seq f.payload.length := by
  simp only [marshalFrame, frameSize, List.length_append, uintField_length, bytesField_length]

theorem marshalSendMsgReq_length {r : Pb.SendMsgReq} {data : Bytes}
    (marshalled : marshalSendMsgReq r = some data) : data.length = sendMsgReqSize r := by
  unfold marshalSendMsgReq at marshalled
  split at marshalled
  · cases Option.some.inj marshalled
    simp only [sendMsgReqSize, List.length_append, intField_length, stringField_length,
      bytesField_length, strings_length]
  · contradiction

theorem marshalImMessage_isSome (m : ImMessage) :
    (marshalImMessage m).isSome = validUTF8 m.content := by
  unfold marshalImMessage validUTF8
  split
  · rename_i valid
    simp [valid]
  · rename_i invalid
    simp [invalid]

theorem marshalImMessage_length {m : ImMessage} {data : Bytes}
    (marshalled : marshalImMessage m = some data) : data.length = imMessageSize m := by
  unfold marshalImMessage at marshalled
  split at marshalled
  · cases Option.some.inj marshalled
    cases sender : m.sender with
    | none =>
      simp only [imMessageSize, sender, List.length_append, intField_length, stringField_length,
        bytesField_length, strings_length, List.length_nil]
    | some s =>
      simp only [imMessageSize, sender, List.length_append, List.length_cons, intField_length,
        stringField_length, bytesField_length, strings_length, sized_length, marshalSender_length,
        Nat.add_comm 1]
  · contradiction

theorem messages_length {msgs : List ImMessage} {parts : List Bytes}
    (marshalled : msgs.mapM marshalImMessage = some parts) :
    (parts.flatMap fun data => 0x1A :: sized data).length =
      (msgs.map fun m => 1 + sizedSize (imMessageSize m)).sum := by
  induction msgs generalizing parts with
  | nil =>
    cases Option.some.inj marshalled
    rfl
  | cons m rest ih =>
    simp only [List.mapM_cons, Option.bind_eq_bind, Option.bind_eq_some_iff, Option.pure_def,
      Option.some.injEq] at marshalled
    obtain ⟨data, first, others, remaining, rfl⟩ := marshalled
    rw [List.flatMap_cons, List.length_append, ih remaining, List.length_cons, sized_length,
      marshalImMessage_length first, List.map_cons, List.sum_cons, Nat.add_comm 1]

theorem marshalPullMsgResp_length {r : Pb.PullMsgResp} {data : Bytes}
    (marshalled : marshalPullMsgResp r = some data) : data.length = pullMsgRespSize r := by
  obtain ⟨parts, messages, rfl⟩ := Option.map_eq_some_iff.mp marshalled
  rw [List.length_append, List.length_append, messages_length messages, intField_length,
    stringField_length, pullMsgRespSize]

theorem marshalPullMsgResp_isSome (r : Pb.PullMsgResp) :
    (marshalPullMsgResp r).isSome = r.messages.all fun m => validUTF8 m.content := by
  rw [marshalPullMsgResp, Option.isSome_map]
  induction r.messages with
  | nil => rfl
  | cons m rest ih =>
    have here := marshalImMessage_isSome m
    rw [List.mapM_cons, List.all_cons, ← ih, ← here]
    cases marshalImMessage m with
    | none => rfl
    | some data => cases rest.mapM marshalImMessage <;> rfl

end GameIM.Api
