import Mathlib
import GameIM.Lib.Int64

/-! The string keys of the Redis keyspace that the send path reads and writes.
A key holds an integer and, when it was given one, the time in milliseconds at
which it disappears. Every command takes the server's clock. Scripts run as one
step. Redis counts in 64 bits and refuses an increment that does not fit; a
script that it is refused to ends with the error. -/
namespace GameIM.Store
open GameIM.Lib

structure Entry where
  val : Int
  deadline : Option Nat
  deriving DecidableEq, Repr

structure Redis where
  keys : String → Option Entry

def keySeq (channelID : String) : String := "im:seq:" ++ channelID
def keyDedup (clientMsgID : String) : String := "im:dedup:" ++ clientMsgID
def keyRateLimit (uid : Int) : String := "im:ratelimit:" ++ toString uid

def dedupTTL : Nat := 24 * 60 * 60
def rateLimitTTL : Nat := 1

theorem prefixed_ne {a b : String} (x y : String)
    (differ : ∀ r s : List Char, a.toList ++ r ≠ b.toList ++ s) : a ++ x ≠ b ++ y := by
  intro h
  apply differ x.toList y.toList
  rw [← String.toList_append, ← String.toList_append, h]

@[simp] theorem keySeq_inj {a b : String} : keySeq a = keySeq b ↔ a = b := by
  simp [keySeq]

@[simp] theorem keyDedup_inj {a b : String} : keyDedup a = keyDedup b ↔ a = b := by
  simp [keyDedup]

@[simp] theorem keyRateLimit_inj {u v : Int} : keyRateLimit u = keyRateLimit v ↔ u = v := by
  constructor
  · intro h
    exact Int.repr_injective ((String.append_right_inj _).mp h)
  · exact fun h => h ▸ rfl

@[simp] theorem keySeq_ne_keyDedup (c k : String) : keySeq c ≠ keyDedup k :=
  prefixed_ne _ _ (by simp)

@[simp] theorem keyDedup_ne_keySeq (k c : String) : keyDedup k ≠ keySeq c :=
  (keySeq_ne_keyDedup c k).symm

@[simp] theorem keySeq_ne_keyRateLimit (c : String) (u : Int) : keySeq c ≠ keyRateLimit u :=
  prefixed_ne _ _ (by simp)

@[simp] theorem keyRateLimit_ne_keySeq (u : Int) (c : String) : keyRateLimit u ≠ keySeq c :=
  (keySeq_ne_keyRateLimit c u).symm

@[simp] theorem keyDedup_ne_keyRateLimit (k : String) (u : Int) : keyDedup k ≠ keyRateLimit u :=
  prefixed_ne _ _ (by simp)

@[simp] theorem keyRateLimit_ne_keyDedup (u : Int) (k : String) : keyRateLimit u ≠ keyDedup k :=
  (keyDedup_ne_keyRateLimit k u).symm

def Entry.live (e : Entry) (now : Nat) : Bool :=
  match e.deadline with
  | none => true
  | some d => decide (now < d)

namespace Redis

/- A key whose deadline has passed is absent for every command. -/
def find (r : Redis) (now : Nat) (key : String) : Option Entry :=
  (r.keys key).filter (·.live now)

def get (r : Redis) (now : Nat) (key : String) : Option Int :=
  (r.find now key).map (·.val)

def put (r : Redis) (key : String) (e : Entry) : Redis :=
  ⟨Function.update r.keys key (some e)⟩

/-- INCRBY keeps the deadline of a live key and starts an absent one from 0. An increment that
would overflow is refused, and nothing is written. -/
def incrKeyBy (r : Redis) (now : Nat) (key : String) (delta : Int) : Option Int × Redis :=
  let old := (r.get now key).getD 0
  if Overflows old delta then (none, r)
  else (some (old + delta), r.put key ⟨old + delta, (r.find now key).bind (·.deadline)⟩)

def incr (r : Redis) (now : Nat) (key : String) : Option Int × Redis := r.incrKeyBy now key 1

def expire (r : Redis) (now : Nat) (key : String) (seconds : Nat) : Redis :=
  match r.find now key with
  | some e => r.put key ⟨e.val, some (now + 1000 * seconds)⟩
  | none => r

def setEx (r : Redis) (now : Nat) (key : String) (v : Int) (seconds : Nat) : Redis :=
  r.put key ⟨v, some (now + 1000 * seconds)⟩

@[simp] theorem put_keys_same (r : Redis) (key : String) (e : Entry) :
    (r.put key e).keys key = some e := by
  simp [put]

@[simp] theorem put_keys_ne (r : Redis) {key other : String} (e : Entry) (h : other ≠ key) :
    (r.put key e).keys other = r.keys other := by
  simp [put, h]

theorem incrKeyBy_keys_ne (r : Redis) (now : Nat) {key other : String} (delta : Int)
    (h : other ≠ key) : (r.incrKeyBy now key delta).2.keys other = r.keys other := by
  simp only [incrKeyBy]
  split <;> simp [h]

theorem incrKeyBy_refused {r : Redis} {now : Nat} {key : String} {delta : Int}
    (full : Overflows ((r.get now key).getD 0) delta) : r.incrKeyBy now key delta = (none, r) :=
  if_pos full

theorem incrKeyBy_done {r : Redis} {now : Nat} {key : String} {delta : Int}
    (room : ¬ Overflows ((r.get now key).getD 0) delta) :
    r.incrKeyBy now key delta = (some ((r.get now key).getD 0 + delta),
      r.put key ⟨(r.get now key).getD 0 + delta, (r.find now key).bind (·.deadline)⟩) :=
  if_neg room

theorem expire_keys_ne (r : Redis) (now : Nat) {key other : String} (seconds : Nat)
    (h : other ≠ key) : (r.expire now key seconds).keys other = r.keys other := by
  unfold expire
  split <;> simp [h]

theorem find_congr {r q : Redis} {key : String} (now : Nat) (same : r.keys key = q.keys key) :
    r.find now key = q.find now key := by
  simp only [find, same]

theorem get_congr {r q : Redis} {key : String} (now : Nat) (same : r.keys key = q.keys key) :
    r.get now key = q.get now key := by
  simp only [get, find, same]

theorem get_absent {r : Redis} {key : String} (now : Nat) (absent : r.keys key = none) :
    r.get now key = none := by
  simp only [get, find, absent, Option.filter_none, Option.map_none]

theorem get_held {r : Redis} {key : String} {now deadline : Nat} {v : Int}
    (held : r.keys key = some ⟨v, some deadline⟩) (live : now < deadline) : r.get now key = some v := by
  simp [get, find, held, Option.filter, Entry.live, live]

/-- IncrBy reserves a batch of sequence numbers of the channel. -/
def incrBy (r : Redis) (now : Nat) (channelID : String) (delta : Int) : Option Int × Redis :=
  r.incrKeyBy now (keySeq channelID) delta

end Redis

structure DedupRateResult where
  dedupExists : Bool
  dedupMsgID : Int
  rateOK : Bool
  deriving DecidableEq, Repr

/- Step 2 of the script: count the call, and start the window with its first one. -/
def countRate (r : Redis) (now : Nat) (rateKey : String) (rateTTL : Nat) : Option Int × Redis :=
  let counted := r.incr now rateKey
  (counted.1, if counted.1 = some 1 then counted.2.expire now rateKey rateTTL else counted.2)

/- Step 3 of the script: mark the id with the caller's number. -/
def markDedup (r : Redis) (now : Nat) (dedupKey : String) (dedupTTLSec : Nat) (seqHint : Int) : Redis :=
  if 0 < dedupTTLSec ∧ 0 < seqHint then r.setEx now dedupKey seqHint dedupTTLSec else r

/- The Lua script. KEYS are the dedup and the rate key, ARGV the rate limit (read
and not used), the two TTLs and the sequence hint. It ends where its INCR is refused. -/
def dedupRateScript (r : Redis) (now : Nat) (dedupKey rateKey : String)
    (rateTTL dedupTTLSec : Nat) (seqHint : Int) : Option (Int × Int) × Redis :=
  match r.get now dedupKey with
  | some v => (some (v, 0), r)
  | none => match countRate r now rateKey rateTTL with
    | (none, counted) => (none, counted)
    | (some count, counted) => (some (-1, count), markDedup counted now dedupKey dedupTTLSec seqHint)

def dedupAndRateCheck (r : Redis) (now : Nat) (clientMsgID : String) (uid rateLimit seqHint : Int) :
    Option DedupRateResult × Redis :=
  let dedupTTLSec := if clientMsgID ≠ "" then dedupTTL else 0
  match dedupRateScript r now (keyDedup clientMsgID) (keyRateLimit uid) rateLimitTTL dedupTTLSec seqHint with
  | (none, after) => (none, after)
  | (some (dedupVal, rateCount), after) =>
    let rateOK := decide (rateCount ≤ rateLimit)
    (some (if 0 ≤ dedupVal then ⟨true, dedupVal, rateOK⟩ else ⟨false, 0, rateOK⟩), after)

/- The script of CheckRateLimit: the second step of the other one, on the same key. -/
def rateLimitScript (r : Redis) (now : Nat) (key : String) (ttl : Nat) : Option Int × Redis :=
  countRate r now key ttl

def checkRateLimit (r : Redis) (now : Nat) (uid maxPerSecond : Int) : Option Bool × Redis :=
  let res := rateLimitScript r now (keyRateLimit uid) rateLimitTTL
  (res.1.map fun count => decide (count ≤ maxPerSecond), res.2)

def rateCount (r : Redis) (now : Nat) (uid : Int) : Int := (r.get now (keyRateLimit uid)).getD 0

/- The rate key after one more call: a live key keeps its deadline, a new one gets one. -/
def rateBumped (old : Option Entry) (now ttl : Nat) : Entry :=
  match old with
  | some e => if e.val + 1 = 1 then ⟨1, some (now + 1000 * ttl)⟩ else ⟨e.val + 1, e.deadline⟩
  | none => ⟨1, some (now + 1000 * ttl)⟩

namespace Redis

theorem find_put_same (r : Redis) (now : Nat) (key : String) (e : Entry) :
    (r.put key e).find now key = some e ↔ e.live now = true := by
  simp [find, Option.filter]

theorem find_live {r : Redis} {now : Nat} {key : String} {e : Entry} (h : r.find now key = some e) :
    r.keys key = some e ∧ e.live now = true := by
  simpa [find, Option.filter_eq_some_iff] using h

end Redis

theorem one_room {n limit : Int} (within : n + 1 ≤ limit) (small : limit < 2 ^ 63) : ¬ Overflows n 1 := by
  rintro (⟨_, above⟩ | ⟨below, _⟩)
  · omega
  · omega

theorem countRate_refused {r : Redis} {now : Nat} {key : String} (ttl : Nat)
    (full : Overflows ((r.get now key).getD 0) 1) : countRate r now key ttl = (none, r) := by
  simp only [countRate, Redis.incr, Redis.incrKeyBy_refused full]
  exact congrArg _ (if_neg (by simp))

theorem countRate_value {r : Redis} {now : Nat} {key : String} (ttl : Nat)
    (room : ¬ Overflows ((r.get now key).getD 0) 1) :
    (countRate r now key ttl).1 = some ((r.get now key).getD 0 + 1) := by
  simp only [countRate, Redis.incr, Redis.incrKeyBy_done room]

theorem countRate_keys_same {r : Redis} {now : Nat} {key : String} (ttl : Nat)
    (room : ¬ Overflows ((r.get now key).getD 0) 1) :
    (countRate r now key ttl).2.keys key = some (rateBumped (r.find now key) now ttl) := by
  simp only [countRate, Redis.incr, Redis.incrKeyBy_done room, Redis.get]
  cases h : r.find now key with
  | none =>
    have live : (r.put key ⟨1, none⟩).find now key = some ⟨1, none⟩ :=
      (Redis.find_put_same r now key _).mpr rfl
    simp [rateBumped, Redis.expire, live]
  | some e =>
    have live : (r.put key ⟨e.val + 1, e.deadline⟩).find now key = some ⟨e.val + 1, e.deadline⟩ :=
      (Redis.find_put_same r now key _).mpr (Redis.find_live h).2
    by_cases one : e.val + 1 = 1
    · simp only [one] at live
      simp [rateBumped, one, Redis.expire, live]
    · simp [rateBumped, one]

theorem countRate_keys_ne (r : Redis) (now ttl : Nat) {key other : String} (h : other ≠ key) :
    (countRate r now key ttl).2.keys other = r.keys other := by
  simp only [countRate]
  split
  · rw [Redis.expire_keys_ne _ _ _ h]
    exact Redis.incrKeyBy_keys_ne r now 1 h
  · exact Redis.incrKeyBy_keys_ne r now 1 h

theorem markDedup_keys_ne (r : Redis) (now ttl : Nat) {key other : String} (hint : Int)
    (h : other ≠ key) : (markDedup r now key ttl hint).keys other = r.keys other := by
  unfold markDedup
  split
  · exact Redis.put_keys_ne r _ h
  · rfl

section Check

variable (r : Redis) (now : Nat) (k : String) (uid limit hint : Int)

theorem check_found {v : Int} (found : r.get now (keyDedup k) = some v) :
    (dedupAndRateCheck r now k uid limit hint).2 = r := by
  simp only [dedupAndRateCheck, dedupRateScript, found]

theorem check_hit {v : Int} (hit : r.get now (keyDedup k) = some v) (valid : 0 ≤ v) :
    dedupAndRateCheck r now k uid limit hint = (some ⟨true, v, decide (0 ≤ limit)⟩, r) := by
  simp [dedupAndRateCheck, dedupRateScript, hit, valid]

/- A new id: the call is counted and the id marked, whatever the count. -/
theorem check_miss (miss : r.get now (keyDedup k) = none) (room : ¬ Overflows (rateCount r now uid) 1) :
    dedupAndRateCheck r now k uid limit hint =
      (some ⟨false, 0, decide (rateCount r now uid + 1 ≤ limit)⟩,
        markDedup (countRate r now (keyRateLimit uid) rateLimitTTL).2 now (keyDedup k)
          (if k ≠ "" then dedupTTL else 0) hint) := by
  have counted : countRate r now (keyRateLimit uid) rateLimitTTL =
      (some (rateCount r now uid + 1), (countRate r now (keyRateLimit uid) rateLimitTTL).2) :=
    Prod.ext (countRate_value rateLimitTTL room) rfl
  simp only [dedupAndRateCheck, dedupRateScript, miss]
  rw [counted]
  simp

/- A new id, and the count is at its end: the script fails. -/
theorem check_refused (miss : r.get now (keyDedup k) = none) (full : Overflows (rateCount r now uid) 1) :
    dedupAndRateCheck r now k uid limit hint = (none, r) := by
  simp only [dedupAndRateCheck, dedupRateScript, miss, countRate_refused rateLimitTTL full]

theorem check_miss_dedup (miss : r.get now (keyDedup k) = none) (room : ¬ Overflows (rateCount r now uid) 1) :
    (dedupAndRateCheck r now k uid limit hint).2.keys (keyDedup k) =
      if k ≠ "" ∧ 0 < hint then some ⟨hint, some (now + 1000 * dedupTTL)⟩
      else r.keys (keyDedup k) := by
  have counted := countRate_keys_ne r now rateLimitTTL (keyDedup_ne_keyRateLimit k uid)
  rw [check_miss r now k uid limit hint miss room]
  by_cases hk : k = ""
  · simpa [markDedup, hk] using hk ▸ counted
  · by_cases hh : 0 < hint
    · simp [markDedup, hk, hh, dedupTTL, Redis.setEx]
    · simpa [markDedup, hk, hh] using counted

theorem check_miss_rate (miss : r.get now (keyDedup k) = none) (room : ¬ Overflows (rateCount r now uid) 1) :
    (dedupAndRateCheck r now k uid limit hint).2.keys (keyRateLimit uid) =
      some (rateBumped (r.find now (keyRateLimit uid)) now rateLimitTTL) := by
  rw [check_miss r now k uid limit hint miss room]
  simp only [markDedup_keys_ne _ _ _ _ (keyRateLimit_ne_keyDedup uid k), countRate_keys_same rateLimitTTL room]

theorem check_keys_ne {key : String} (dedup : key ≠ keyDedup k) (rate : key ≠ keyRateLimit uid) :
    (dedupAndRateCheck r now k uid limit hint).2.keys key = r.keys key := by
  cases found : r.get now (keyDedup k) with
  | some v => rw [check_found r now k uid limit hint found]
  | none =>
    by_cases full : Overflows (rateCount r now uid) 1
    · rw [check_refused r now k uid limit hint found full]
    · rw [check_miss r now k uid limit hint found full]
      simp only [markDedup_keys_ne _ _ _ _ dedup, countRate_keys_ne _ _ _ rate]

theorem check_dedup_cases : (dedupAndRateCheck r now k uid limit hint).2.keys (keyDedup k) = r.keys (keyDedup k) ∨
    (r.get now (keyDedup k) = none ∧ k ≠ "" ∧ 0 < hint ∧
      (dedupAndRateCheck r now k uid limit hint).2.keys (keyDedup k) =
        some ⟨hint, some (now + 1000 * dedupTTL)⟩) := by
  cases found : r.get now (keyDedup k) with
  | some v => exact Or.inl (by rw [check_found r now k uid limit hint found])
  | none =>
    by_cases full : Overflows (rateCount r now uid) 1
    · exact Or.inl (by rw [check_refused r now k uid limit hint found full])
    · have written := check_miss_dedup r now k uid limit hint found full
      split at written
      · rename_i marked
        exact Or.inr ⟨rfl, marked.1, marked.2, written⟩
      · exact Or.inl written

end Check

theorem check_records {r : Redis} {now : Nat} {k : String} {uid limit hint : Int}
    (records : ∀ id e, r.keys (keyDedup id) = some e → 0 ≤ e.val) (id : String) (e : Entry)
    (held : (dedupAndRateCheck r now k uid limit hint).2.keys (keyDedup id) = some e) : 0 ≤ e.val := by
  by_cases own : id = k
  · subst own
    rcases check_dedup_cases r now id uid limit hint with same | ⟨_, _, positive, written⟩
    · exact records id e (same ▸ held)
    · cases Option.some.inj (written.symm.trans held)
      exact Int.le_of_lt positive
  · rw [check_keys_ne r now k uid limit hint (by simpa using own) (by simp)] at held
    exact records id e held

end GameIM.Store
