import GameIM.Lib.Machine
import GameIM.Lib.Unwinding
import GameIM.Service.Msg

/-! SendMsg as one function, and runs of calls that follow one another. The servers
share Redis; each has its own number ranges and caches. -/
namespace GameIM.Service
open GameIM.Lib GameIM.Api GameIM.Store

/-- One call with what its surroundings do to it: the server and the time it meets, and
the Redis commands that fail. -/
structure Call where
  server : Nat
  now : Nat
  uid : Int
  sender : Option SenderInfo
  req : SendMsgReq
  incrFails : Bool
  fault : Fault
  deriving DecidableEq, Repr

structure Servers where
  redis : Redis
  ranges : Nat → String → Option SeqAlloc.SeqRange
  caches : Nat → Caches
  posted : List ImMessage
  queued : List MessageDoc
  delivered : List ImMessage

namespace Servers

def setCaches (s : Servers) (server : Nat) (c : Caches) : Servers :=
  { s with caches := Function.update s.caches server c }

def setRange (s : Servers) (server : Nat) (ch : String) (r : SeqAlloc.SeqRange) : Servers :=
  { s with ranges := Function.update s.ranges server (Function.update (s.ranges server) ch (some r)) }

def setRedis (s : Servers) (r : Redis) : Servers := { s with redis := r }

def refill (s : Servers) (server now : Nat) (ch : String) (incrFails : Bool) : Option Int × Servers :=
  if incrFails then (none, s)
  else match s.redis.incrBy now ch SeqAlloc.seqBatchSize with
    | (none, redis) => (none, s.setRedis redis)
    | (some newMax, redis) =>
      (some (SeqAlloc.newStart newMax), (s.setRedis redis).setRange server ch (.opened newMax))

/-- SeqAllocator.Next, run without interruption. -/
def next (s : Servers) (server now : Nat) (ch : String) (incrFails : Bool) : Option Int × Servers :=
  match s.ranges server ch with
  | some r =>
    if r.next ≤ r.max then (some r.next, s.setRange server ch r.advance)
    else s.refill server now ch incrFails
  | none => s.refill server now ch incrFails

/-- Steps 4 to 6: the cache write, the write queue and the delivery. -/
def handOver (s : Servers) (msg : ImMessage) (now : Nat) : Servers :=
  { s with
    posted := s.posted ++ [msg]
    queued := s.queued ++ [buildDoc msg now]
    delivered := s.delivered ++ [msg] }

def finish (s : Servers) (o : Outcome) (now : Nat) : Outcome × Servers :=
  match o with
  | .accepted msg => (o, s.handOver msg now)
  | _ => (o, s)

end Servers

def Call.check (c : Call) (r : Redis) (msgID : Int) : Option DedupRateResult × Redis :=
  dedupAndRateCheck r c.now c.req.clientMsgID c.uid ratePerSecond msgID

def Call.checked (c : Call) (r : Redis) (msgID : Int) : Option DedupRateResult × Redis :=
  match c.fault with
  | .none => c.check r msgID
  | .before => (none, r)
  | .after => (none, (c.check r msgID).2)
  | .resent => c.check (c.check r msgID).2 msgID

def sendMsg (cfg : Config) (s : Servers) (c : Call) : Outcome × Servers :=
  match precheck cfg (s.caches c.server) c.now c.uid c.req with
  | (.error err, caches) => (.rejected err, s.setCaches c.server caches)
  | (.ok content, caches) =>
    match (s.setCaches c.server caches).next c.server c.now c.req.channelID c.incrFails with
    | (none, t) => (.rejected errServerError, t)
    | (some msgID, t) =>
      let check := c.checked t.redis msgID
      (t.setRedis check.2).finish (settle check.1 (buildMsg msgID c.sender c.req content c.now)) c.now

/- The call passes the local checks and gets a number; the servers are then t. -/
def Numbered (cfg : Config) (s : Servers) (c : Call) (content : Bytes) (msgID : Int) (t : Servers) :
    Prop :=
  ∃ caches, precheck cfg (s.caches c.server) c.now c.uid c.req = (.ok content, caches) ∧
    (s.setCaches c.server caches).next c.server c.now c.req.channelID c.incrFails = (some msgID, t)

inductive Sent (cfg : Config) (s : Servers) (c : Call) : Outcome → Servers → Prop where
  | refused {err caches} :
      precheck cfg (s.caches c.server) c.now c.uid c.req = (.error err, caches) →
      Sent cfg s c (.rejected err) (s.setCaches c.server caches)
  | unnumbered {content caches t} :
      precheck cfg (s.caches c.server) c.now c.uid c.req = (.ok content, caches) →
      (s.setCaches c.server caches).next c.server c.now c.req.channelID c.incrFails = (none, t) →
      Sent cfg s c (.rejected errServerError) t
  | failed {content msgID t} : Numbered cfg s c content msgID t → (c.checked t.redis msgID).1 = none →
      Sent cfg s c (.rejected errServerError) (t.setRedis (c.checked t.redis msgID).2)
  | known {content msgID t res} : Numbered cfg s c content msgID t → (c.checked t.redis msgID).1 = some res →
      res.dedupExists = true →
      Sent cfg s c (.duplicate res.dedupMsgID) (t.setRedis (c.checked t.redis msgID).2)
  | limited {content msgID t res} : Numbered cfg s c content msgID t → (c.checked t.redis msgID).1 = some res →
      res.dedupExists = false → res.rateOK = false →
      Sent cfg s c (.rejected errRateLimited) (t.setRedis (c.checked t.redis msgID).2)
  | accepted {content msgID t res} : Numbered cfg s c content msgID t → (c.checked t.redis msgID).1 = some res →
      res.dedupExists = false → res.rateOK = true →
      Sent cfg s c (.accepted (buildMsg msgID c.sender c.req content c.now))
        ((t.setRedis (c.checked t.redis msgID).2).handOver
          (buildMsg msgID c.sender c.req content c.now) c.now)

theorem sendMsg_sent (cfg : Config) (s : Servers) (c : Call) :
    Sent cfg s c (sendMsg cfg s c).1 (sendMsg cfg s c).2 := by
  unfold sendMsg
  split
  · rename_i checked
    exact .refused checked
  · rename_i content caches checked
    split
    · rename_i t numbered
      exact .unnumbered checked numbered
    · rename_i msgID t next
      have numbered : Numbered cfg s c content msgID t := ⟨caches, checked, next⟩
      have settled := settle_settled (c.checked t.redis msgID).1
        (buildMsg msgID c.sender c.req content c.now)
      simp only
      generalize settle (c.checked t.redis msgID).1
        (buildMsg msgID c.sender c.req content c.now) = o at settled ⊢
      cases settled with
      | failed error => exact .failed numbered error
      | known answer known => exact .known numbered answer known
      | limited answer unknown slow => exact .limited numbered answer unknown slow
      | accepted answer unknown fast => exact .accepted numbered answer unknown fast

/- However often the script runs, Redis keeps what one run keeps. -/
theorem checked_keeps {c : Call} {msgID : Int} {P : Redis → Prop} (keeps : ∀ r, P r → P (c.check r msgID).2)
    {r : Redis} (before : P r) : P (c.checked r msgID).2 := by
  unfold Call.checked
  cases c.fault with
  | none => exact keeps r before
  | before => exact before
  | after => exact keeps r before
  | resent => exact keeps _ (keeps r before)

theorem checked_keys_ne (c : Call) (r : Redis) (msgID : Int) {key : String} (dedup : key ≠ keyDedup c.req.clientMsgID)
    (rate : key ≠ keyRateLimit c.uid) : (c.checked r msgID).2.keys key = r.keys key := by
  refine checked_keeps (P := fun q => q.keys key = r.keys key) ?_ rfl
  intro q same
  exact (check_keys_ne q _ _ _ _ _ dedup rate).trans same

/- An answer is that of the only run of the script, or of its second run. -/
theorem checked_answer {c : Call} {r : Redis} {msgID : Int} {res : DedupRateResult}
    (answer : (c.checked r msgID).1 = some res) : (c.fault = .none ∧ (c.check r msgID).1 = some res) ∨
      (c.fault = .resent ∧ (c.check (c.check r msgID).2 msgID).1 = some res) := by
  unfold Call.checked at answer
  cases fault : c.fault with
  | none =>
    rw [fault] at answer
    exact Or.inl ⟨rfl, answer⟩
  | before =>
    rw [fault] at answer
    contradiction
  | after =>
    rw [fault] at answer
    contradiction
  | resent =>
    rw [fault] at answer
    exact Or.inr ⟨rfl, answer⟩

/- What a number costs: nothing outside the ranges and the channel's counter. -/
structure OnlyNumbers (s t : Servers) : Prop where
  keys : ∀ key, (∀ ch, key ≠ keySeq ch) → t.redis.keys key = s.redis.keys key
  caches : t.caches = s.caches
  posted : t.posted = s.posted
  queued : t.queued = s.queued
  delivered : t.delivered = s.delivered

theorem refill_onlyNumbers (s : Servers) (server now : Nat) (ch : String) (incrFails : Bool) :
    OnlyNumbers s (s.refill server now ch incrFails).2 := by
  unfold Servers.refill
  split
  · exact ⟨fun _ _ => rfl, rfl, rfl, rfl, rfl⟩
  · have others : ∀ key, (∀ ch, key ≠ keySeq ch) →
        (s.redis.incrBy now ch SeqAlloc.seqBatchSize).2.keys key = s.redis.keys key :=
      fun key other => Redis.incrKeyBy_keys_ne s.redis now _ (other ch)
    split
    · rename_i redis done
      rw [done] at others
      exact ⟨others, rfl, rfl, rfl, rfl⟩
    · rename_i newMax redis done
      rw [done] at others
      exact ⟨others, rfl, rfl, rfl, rfl⟩

theorem next_onlyNumbers (s : Servers) (server now : Nat) (ch : String) (incrFails : Bool) :
    OnlyNumbers s (s.next server now ch incrFails).2 := by
  unfold Servers.next
  split
  · split
    · exact ⟨fun _ _ => rfl, rfl, rfl, rfl, rfl⟩
    · exact refill_onlyNumbers s server now ch incrFails
  · exact refill_onlyNumbers s server now ch incrFails

section Numbered

variable {cfg : Config} {s t : Servers} {c : Call} {content : Bytes} {msgID : Int}

theorem Numbered.keys (n : Numbered cfg s c content msgID t) (key : String)
    (other : ∀ ch, key ≠ keySeq ch) : t.redis.keys key = s.redis.keys key := by
  obtain ⟨caches, _, next⟩ := n
  have only := next_onlyNumbers (s.setCaches c.server caches) c.server c.now c.req.channelID c.incrFails
  rw [next] at only
  exact only.keys key other

theorem Numbered.logs (n : Numbered cfg s c content msgID t) :
    t.posted = s.posted ∧ t.queued = s.queued ∧ t.delivered = s.delivered := by
  obtain ⟨caches, _, next⟩ := n
  have only := next_onlyNumbers (s.setCaches c.server caches) c.server c.now c.req.channelID c.incrFails
  rw [next] at only
  exact ⟨only.posted, only.queued, only.delivered⟩

theorem unnumbered_only {caches : Caches}
    (next : (s.setCaches c.server caches).next c.server c.now c.req.channelID c.incrFails = (none, t)) :
    OnlyNumbers (s.setCaches c.server caches) t := by
  have only := next_onlyNumbers (s.setCaches c.server caches) c.server c.now c.req.channelID c.incrFails
  rw [next] at only
  exact only

theorem Numbered.get_dedup (n : Numbered cfg s c content msgID t) (k : String) :
    t.redis.get c.now (keyDedup k) = s.redis.get c.now (keyDedup k) :=
  Redis.get_congr c.now (n.keys _ (by simp))

theorem Numbered.rateCount (n : Numbered cfg s c content msgID t) (uid : Int) :
    rateCount t.redis c.now uid = rateCount s.redis c.now uid := by
  simp only [Store.rateCount, Redis.get_congr c.now (n.keys (keyRateLimit uid) (by simp))]

theorem sendMsg_checked (n : Numbered cfg s c content msgID t) :
    sendMsg cfg s c = (t.setRedis (c.checked t.redis msgID).2).finish
      (settle (c.checked t.redis msgID).1 (buildMsg msgID c.sender c.req content c.now)) c.now := by
  obtain ⟨caches, checked, next⟩ := n
  simp only [sendMsg, checked, next]

end Numbered

def sendStep (cfg : Config) (s : Servers) (c : Call) : Option Servers := some (sendMsg cfg s c).2

/-- The calls of a run with their outcomes. -/
def replies (cfg : Config) (s : Servers) (calls : List Call) : List (Call × Outcome) :=
  outputs (sendMsg cfg) s calls

end GameIM.Service
