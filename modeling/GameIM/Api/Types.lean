import Mathlib.Data.List.Basic

/-! The messages of api/pb and the errors of pkg/errs, as far as the modelled
functions read them. Content is a byte string: a client's content is UTF-8, but a
content filter may cut it anywhere. Proto3 enums are open, so an enum value is a
number of which some have names. -/
namespace GameIM.Api

abbrev Bytes := List UInt8

structure ChannelType where
  number : Int
  deriving DecidableEq, Repr

namespace ChannelType
def unspecified : ChannelType := ⟨0⟩
def world : ChannelType := ⟨1⟩
def alliance : ChannelType := ⟨2⟩
def activity : ChannelType := ⟨3⟩
def «private» : ChannelType := ⟨4⟩
def system : ChannelType := ⟨5⟩
end ChannelType

structure MsgType where
  number : Int
  deriving DecidableEq, Repr

def MsgType.text : MsgType := ⟨1⟩

structure SenderInfo where
  senderId : Int
  senderName : String := ""
  senderHeadImage : String := ""
  senderRank : Int := 0
  allianceName : String := ""
  deriving DecidableEq, Repr

structure ImMessage where
  msgId : Int
  channelId : String
  channelType : ChannelType
  sender : Option SenderInfo
  content : Bytes
  msgType : MsgType
  msgParam : List String
  sendTime : Int
  clientMsgId : String
  deriving DecidableEq, Repr

/-- The wire envelope of every packet. -/
structure Frame where
  cmdId : UInt32
  seq : UInt32
  payload : Bytes
  deriving DecidableEq, Repr

structure IMError where
  code : Int
  msg : String
  deriving DecidableEq, Repr

def errUserBanned : IMError := ⟨1001, "user is banned"⟩
def errContentIllegal : IMError := ⟨1002, "content is illegal"⟩
def errRateLimited : IMError := ⟨1003, "rate limited"⟩
def errChannelNotFound : IMError := ⟨1004, "channel not found"⟩
def errChannelUnavail : IMError := ⟨1006, "channel unavailable"⟩
def errMsgTooLong : IMError := ⟨1007, "message too long"⟩
def errServerError : IMError := ⟨5000, "internal server error"⟩

end GameIM.Api
