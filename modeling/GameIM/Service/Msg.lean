import GameIM.Service.SeqAlloc
import GameIM.Store.Mongo

/-! MsgService.SendMsg. The function is written as the source has it, over the
state of one server process and the shared Redis. What happens outside it is an
input of the call: the time, the failure of a Redis command, and the ban and
availability records that Redis holds at that time. -/
namespace GameIM.Service
open GameIM.Api GameIM.Store

def maxMsgLength : Nat := 1024
def ratePerSecond : Int := 100

structure FilterResult where
  pass : Bool
  reason : String
  replace : Bytes
  deriving DecidableEq, Repr

abbrev ContentFilter := Int → Bytes → FilterResult

/-- Applies the filters in order and stops on the first rejection. -/
def FilterChain.check (filters : List ContentFilter) (uid : Int) (content : Bytes) : FilterResult :=
  match filters with
  | [] => ⟨true, "", content⟩
  | f :: rest =>
    let result := f uid content
    if !result.pass then result
    else if result.replace ≠ [] then check rest uid result.replace
    else check rest uid content

structure CacheEntry where
  value : Bool
  expireAt : Nat
  deriving DecidableEq, Repr

/-- LocalCache with its TTL of five seconds. -/
structure LocalCache where
  entries : String → Option CacheEntry

namespace LocalCache

def ttl : Nat := 5000

def get (c : LocalCache) (now : Nat) (key : String) : Option Bool :=
  match c.entries key with
  | none => none
  | some e => if e.expireAt < now then none else some e.value

def set (c : LocalCache) (now : Nat) (key : String) (value : Bool) : LocalCache :=
  ⟨Function.update c.entries key (some ⟨value, now + ttl⟩)⟩

end LocalCache

/-- What a server is set up with, and what Redis answers it at each time on bans and
channel availability; none is a failed read. -/
structure Config where
  filters : List ContentFilter
  isBanned : Nat → Int → Option Bool
  isAvailable : Nat → ChannelType → Option Bool

/- No filters, nobody is banned and every channel is open. -/
def permissive : Config := ⟨[], fun _ _ => some false, fun _ _ => some true⟩

def banKey (uid : Int) : String := "ban:" ++ toString uid
def availKey (channelType : ChannelType) : String := "avail:" ++ toString channelType.number

/- Both checks read through the cache; a failed read is answered by the given
default and is not cached. -/
def checkCached (cache : LocalCache) (now : Nat) (key : String) (read : Option Bool)
    (failOpen : Bool) : Bool × LocalCache :=
  match cache.get now key with
  | some v => (v, cache)
  | none => match read with
    | none => (failOpen, cache)
    | some v => (v, cache.set now key v)

@[simp] theorem banKey_inj {u v : Int} : banKey u = banKey v ↔ u = v := by
  constructor
  · intro h
    exact Int.repr_injective (by simpa [banKey] using h)
  · exact fun h => h ▸ rfl

@[simp] theorem availKey_inj {x y : ChannelType} : availKey x = availKey y ↔ x = y := by
  constructor
  · intro h
    have number : x.number = y.number := Int.repr_injective (by simpa [availKey] using h)
    cases x
    cases y
    simpa using number
  · exact fun h => h ▸ rfl

section Cached

variable {c d : LocalCache} (now : Nat) {key : String} (read : Option Bool) (failOpen : Bool)

theorem checkCached_congr (same : c.entries key = d.entries key) :
    (checkCached c now key read failOpen).1 = (checkCached d now key read failOpen).1 ∧
      (checkCached c now key read failOpen).2.entries key =
        (checkCached d now key read failOpen).2.entries key := by
  have hit : c.get now key = d.get now key := by simp only [LocalCache.get, same]
  unfold checkCached
  rw [hit]
  cases d.get now key with
  | some v => exact ⟨rfl, same⟩
  | none =>
    cases read with
    | none => exact ⟨rfl, same⟩
    | some v => simp [LocalCache.set]

theorem checkCached_entries_ne {other : String} (ne : other ≠ key) :
    (checkCached c now key read failOpen).2.entries other = c.entries other := by
  unfold checkCached
  split
  · rfl
  · split
    · rfl
    · simp [LocalCache.set, ne]

theorem checkCached_steady {v : Bool} (cached : ∀ e, c.entries key = some e → e.value = v) :
    (checkCached c now key (some v) failOpen).1 = v ∧
      ∀ e, (checkCached c now key (some v) failOpen).2.entries key = some e → e.value = v := by
  unfold checkCached
  cases hit : c.get now key with
  | some w =>
    refine ⟨?_, cached⟩
    unfold LocalCache.get at hit
    split at hit
    · contradiction
    · rename_i e he
      split at hit
      · contradiction
      · exact Option.some.inj hit ▸ cached e he
  | none =>
    refine ⟨rfl, ?_⟩
    intro e he
    have eq : (⟨v, now + LocalCache.ttl⟩ : CacheEntry) = e := by simpa [LocalCache.set] using he
    exact eq ▸ rfl

end Cached

def checkBanCached (cfg : Config) (cache : LocalCache) (now : Nat) (uid : Int) : Bool × LocalCache :=
  checkCached cache now (banKey uid) (cfg.isBanned now uid) false

def checkAvailCached (cfg : Config) (cache : LocalCache) (now : Nat) (channelType : ChannelType) :
    Bool × LocalCache :=
  checkCached cache now (availKey channelType) (cfg.isAvailable now channelType) true

structure SendMsgReq where
  channelID : String
  channelType : ChannelType
  content : Bytes
  msgType : MsgType
  msgParam : List String
  clientMsgID : String
  deriving DecidableEq, Repr

structure SendMsgResp where
  msgID : Int
  sendTime : Int
  deriving DecidableEq, Repr

/-- The two LocalCaches of a server. -/
structure Caches where
  ban : LocalCache
  avail : LocalCache

/-- Everything SendMsg does before it allocates a number: the content to send, or the
error. -/
def precheck (cfg : Config) (caches : Caches) (now : Nat) (uid : Int) (req : SendMsgReq) :
    Except IMError Bytes × Caches :=
  if maxMsgLength < req.content.length then (.error errMsgTooLong, caches)
  else
    let filterResult := FilterChain.check cfg.filters uid req.content
    if !filterResult.pass then (.error errContentIllegal, caches)
    else
      let content := if filterResult.replace ≠ [] then filterResult.replace else req.content
      let ban := checkBanCached cfg caches.ban now uid
      if ban.1 then (.error errUserBanned, ⟨ban.2, caches.avail⟩)
      else
        let avail := checkAvailCached cfg caches.avail now req.channelType
        if !avail.1 then (.error errChannelUnavail, ⟨ban.2, avail.2⟩)
        else (.ok content, ⟨ban.2, avail.2⟩)

def buildMsg (msgID : Int) (sender : Option SenderInfo) (req : SendMsgReq) (content : Bytes)
    (sendTime : Nat) : ImMessage :=
  { msgId := msgID
    channelId := req.channelID
    channelType := req.channelType
    sender := sender
    content := content
    msgType := req.msgType
    msgParam := req.msgParam
    sendTime := sendTime
    clientMsgId := req.clientMsgID }

def buildDoc (msg : ImMessage) (createdAt : Nat) : MessageDoc :=
  { msgID := msg.msgId
    channelID := msg.channelId
    channelType := msg.channelType.number
    senderID := match msg.sender with
      | some sender => sender.senderId
      | none => 0
    senderName := match msg.sender with
      | some sender => sender.senderName
      | none => ""
    content := msg.content
    msgType := msg.msgType.number
    msgParam := msg.msgParam
    sendTime := msg.sendTime
    createdAt := createdAt }

/-- How SendMsg ends. A duplicate and an accepted message both answer with success. -/
inductive Outcome where
  | rejected (err : IMError)
  | duplicate (msgID : Int)
  | accepted (msg : ImMessage)
  deriving DecidableEq, Repr

/-- What the caller gets: the message id of a success, or the error. -/
def Outcome.reply (now : Nat) : Outcome → Except IMError SendMsgResp
  | .rejected err => .error err
  | .duplicate msgID => .ok ⟨msgID, now⟩
  | .accepted msg => .ok ⟨msg.msgId, msg.sendTime⟩

def Outcome.isRejected : Outcome → Bool
  | .rejected _ => true
  | _ => false

def settle (check : Option DedupRateResult) (msg : ImMessage) : Outcome :=
  match check with
  | none => .rejected errServerError
  | some check =>
    if check.dedupExists then .duplicate check.dedupMsgID
    else if !check.rateOK then .rejected errRateLimited
    else .accepted msg

inductive Settled (check : Option DedupRateResult) (msg : ImMessage) : Outcome → Prop where
  | failed : check = none → Settled check msg (.rejected errServerError)
  | known {res} : check = some res → res.dedupExists = true → Settled check msg (.duplicate res.dedupMsgID)
  | limited {res} : check = some res → res.dedupExists = false → res.rateOK = false →
      Settled check msg (.rejected errRateLimited)
  | accepted {res} : check = some res → res.dedupExists = false → res.rateOK = true →
      Settled check msg (.accepted msg)

theorem settle_settled (check : Option DedupRateResult) (msg : ImMessage) :
    Settled check msg (settle check msg) := by
  unfold settle
  split
  · exact .failed rfl
  · split
    · rename_i known
      exact .known rfl known
    · rename_i unknown
      split
      · rename_i slow
        exact .limited rfl (by simpa using unknown) (by simpa using slow)
      · rename_i fast
        exact .accepted rfl (by simpa using unknown) (by simpa using fast)

/-- The fate of a script call: answered, lost before it ran, lost after it ran, or lost after it ran
and sent again by go-redis. -/
inductive Fault where
  | none
  | before
  | after
  | resent
  deriving DecidableEq, Repr

end GameIM.Service
