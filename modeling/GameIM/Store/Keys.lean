import GameIM.Lib.Format
import GameIM.Api.Wire
import GameIM.Store.Redis

/-! The Redis keys of internal/store/redis.go. A channel id or a client message id is a Go
string, any bytes, and is pasted into its key as it is. -/
namespace GameIM.Store.Keys
open Lib.Text Api

def keyPresence (uid : Int) : Bytes := utf8 "im:presence:" ++ decimal uid
def keySeq (channelID : Bytes) : Bytes := utf8 "im:seq:" ++ channelID
def keyDedup (clientMsgID : Bytes) : Bytes := utf8 "im:dedup:" ++ clientMsgID
def keyChannelState (channelID : Bytes) : Bytes := utf8 "im:channel:state:" ++ channelID
def keyUserChannels (uid : Int) : Bytes := utf8 "im:user:channels:" ++ decimal uid
def keyMsgCache (channelID : Bytes) : Bytes := utf8 "im:msg:cache:" ++ channelID
def keyBan (uid : Int) : Bytes := utf8 "im:ban:" ++ decimal uid
def keyRateLimit (uid : Int) : Bytes := utf8 "im:ratelimit:" ++ decimal uid
def keyChannelAvail (channelType : Int) : Bytes := utf8 "im:channel:available:" ++ decimal channelType
def keyServerReg : Bytes := utf8 "im:server:registry"
def channelMembersKey (channelID : Bytes) : Bytes := utf8 "im:channel:members:" ++ channelID

inductive Kind where
  | presence | seq | dedup | channelState | userChannels | msgCache | ban | rateLimit | channelAvail
  | serverReg | channelMembers
  deriving DecidableEq, Repr

/-- What a key stands for: a kind of record and whose record it is. -/
inductive Record where
  | presence (uid : Int)
  | seq (channelID : Bytes)
  | dedup (clientMsgID : Bytes)
  | channelState (channelID : Bytes)
  | userChannels (uid : Int)
  | msgCache (channelID : Bytes)
  | ban (uid : Int)
  | rateLimit (uid : Int)
  | channelAvail (channelType : Int)
  | serverReg
  | channelMembers (channelID : Bytes)
  deriving DecidableEq, Repr

namespace Record

def key : Record → Bytes
  | presence uid => keyPresence uid
  | seq channelID => keySeq channelID
  | dedup clientMsgID => keyDedup clientMsgID
  | channelState channelID => keyChannelState channelID
  | userChannels uid => keyUserChannels uid
  | msgCache channelID => keyMsgCache channelID
  | ban uid => keyBan uid
  | rateLimit uid => keyRateLimit uid
  | channelAvail channelType => keyChannelAvail channelType
  | serverReg => keyServerReg
  | channelMembers channelID => channelMembersKey channelID

def kind : Record → Kind
  | presence _ => .presence
  | seq _ => .seq
  | dedup _ => .dedup
  | channelState _ => .channelState
  | userChannels _ => .userChannels
  | msgCache _ => .msgCache
  | ban _ => .ban
  | rateLimit _ => .rateLimit
  | channelAvail _ => .channelAvail
  | serverReg => .serverReg
  | channelMembers _ => .channelMembers

def argument : Record → Bytes
  | presence n | userChannels n | ban n | rateLimit n | channelAvail n => decimal n
  | seq id | dedup id | channelState id | msgCache id | channelMembers id => id
  | serverReg => []

end Record

def Kind.head : Kind → Bytes
  | presence => utf8 "im:presence:"
  | seq => utf8 "im:seq:"
  | dedup => utf8 "im:dedup:"
  | channelState => utf8 "im:channel:state:"
  | userChannels => utf8 "im:user:channels:"
  | msgCache => utf8 "im:msg:cache:"
  | ban => utf8 "im:ban:"
  | rateLimit => utf8 "im:ratelimit:"
  | channelAvail => utf8 "im:channel:available:"
  | serverReg => utf8 "im:server:registry"
  | channelMembers => utf8 "im:channel:members:"

/- No head begins another one, so an argument cannot complete one head to another. -/
theorem kind_code : ∀ k l : Kind, k.head <+: l.head → k = l := by
  intro k l
  cases k <;> cases l <;> decide +kernel

theorem key_eq (r : Record) : r.key = r.kind.head ++ r.argument := by
  cases r with
  | serverReg => exact (List.append_nil _).symm
  | _ => rfl

theorem argument_inj {r q : Record} (same : r.kind = q.kind) : r.argument = q.argument ↔ r = q := by
  cases r <;> cases q <;> simp_all [Record.kind, Record.argument]

theorem key_inj {r q : Record} : r.key = q.key ↔ r = q := by
  rw [key_eq, key_eq, tagged_inj kind_code]
  constructor
  · rintro ⟨kinds, arguments⟩
    exact (argument_inj kinds).mp arguments
  · rintro rfl
    exact ⟨rfl, rfl⟩

section Strings

theorem utf8_eq_encode (s : String) : utf8 s = encode s.toList := by
  have bytes : s.toByteArray = s.toList.utf8Encode := by
    rw [← String.toByteArray_ofList, String.ofList_toList]
  rw [utf8, String.toUTF8, bytes, List.utf8Encode, List.data_toByteArray, List.toList_toArray]
  rfl

theorem utf8_append (s t : String) : utf8 (s ++ t) = utf8 s ++ utf8 t := by
  rw [utf8_eq_encode, utf8_eq_encode, utf8_eq_encode, String.toList_append, encode_append]

theorem utf8_keySeq (channelID : String) : utf8 (Store.keySeq channelID) = keySeq (utf8 channelID) :=
  utf8_append _ _

theorem utf8_keyDedup (clientMsgID : String) : utf8 (Store.keyDedup clientMsgID) = keyDedup (utf8 clientMsgID) :=
  utf8_append _ _

theorem utf8_keyRateLimit (uid : Int) : utf8 (Store.keyRateLimit uid) = keyRateLimit uid := by
  rw [Store.keyRateLimit, utf8_append, utf8_eq_encode (toString uid)]
  rfl

end Strings

end GameIM.Store.Keys
