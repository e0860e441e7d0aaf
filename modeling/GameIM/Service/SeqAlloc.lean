import GameIM.Lib.Machine
import GameIM.Lib.Ownership
import GameIM.Store.Redis

/-! SeqAllocator.Next as a step machine. Any number of allocators share one Redis
and any number of calls are in progress. The mutex is released around INCRBY, so
the steps of a call are the locked lookup, the INCRBY, and the locked installation
of the new range; the call returns together with the last of them. -/
namespace GameIM.Service.SeqAlloc
open GameIM.Lib GameIM.Store

def seqBatchSize : Int := 1000

structure SeqRange where
  next : Int
  max : Int
  deriving DecidableEq, Repr

/- next++ on an int64. -/
def SeqRange.advance (r : SeqRange) : SeqRange := ⟨wrap64 (r.next + 1), r.max⟩

def newStart (newMax : Int) : Int := wrap64 (wrap64 (newMax - seqBatchSize) + 1)

/- What is left of a new batch when its first number is returned. -/
def SeqRange.opened (newMax : Int) : SeqRange := ⟨wrap64 (newStart newMax + 1), newMax⟩

inductive Phase where
  | entered
  | refill
  | reserved (newMax : Int)
  | returned (seq : Int)
  | failed
  deriving DecidableEq, Repr

structure Call where
  allocator : Nat
  channelID : String
  phase : Phase
  deriving DecidableEq, Repr

structure State where
  now : Nat
  redis : Redis
  ranges : Nat → String → Option SeqRange
  calls : Nat → Option Call

inductive Action where
  | enter (i allocator : Nat) (channelID : String)
  | lookup (i : Nat)
  | incrBy (i : Nat)
  | incrByFails (i : Nat)
  | install (i : Nat)
  | tick (ms : Nat)

def State.setCall (s : State) (i : Nat) (c : Call) : State :=
  { s with calls := Function.update s.calls i (some c) }

def State.setRange (s : State) (a : Nat) (ch : String) (r : SeqRange) : State :=
  { s with ranges := Function.update s.ranges a (Function.update (s.ranges a) ch (some r)) }

@[simp] theorem setCall_calls_same (s : State) (i : Nat) (c : Call) :
    (s.setCall i c).calls i = some c := by
  simp [State.setCall]

@[simp] theorem setCall_calls_ne (s : State) {i j : Nat} (c : Call) (h : j ≠ i) :
    (s.setCall i c).calls j = s.calls j := by
  simp [State.setCall, h]

@[simp] theorem setCall_ranges (s : State) (i : Nat) (c : Call) :
    (s.setCall i c).ranges = s.ranges := rfl

@[simp] theorem setCall_redis (s : State) (i : Nat) (c : Call) :
    (s.setCall i c).redis = s.redis := rfl

@[simp] theorem setRange_ranges_same (s : State) (a : Nat) (ch : String) (r : SeqRange) :
    (s.setRange a ch r).ranges a ch = some r := by
  simp [State.setRange]

@[simp] theorem setRange_ranges_ne (s : State) {a b : Nat} {ch other : String} (r : SeqRange)
    (h : ¬ (b = a ∧ other = ch)) : (s.setRange a ch r).ranges b other = s.ranges b other := by
  by_cases hb : b = a
  · subst hb
    have hc : other ≠ ch := fun e => h ⟨rfl, e⟩
    simp [State.setRange, hc]
  · simp [State.setRange, hb]

@[simp] theorem setRange_calls (s : State) (a : Nat) (ch : String) (r : SeqRange) :
    (s.setRange a ch r).calls = s.calls := rfl

theorem setCall_calls_cases {s : State} {i j : Nat} {c d : Call}
    (h : (s.setCall i c).calls j = some d) : (j = i ∧ d = c) ∨ (j ≠ i ∧ s.calls j = some d) := by
  by_cases hj : j = i
  · subst hj
    exact Or.inl ⟨rfl, by simpa [eq_comm] using h⟩
  · exact Or.inr ⟨hj, by simpa [hj] using h⟩

theorem setRange_ranges_cases {s : State} {a b : Nat} {ch other : String} {r q : SeqRange}
    (h : (s.setRange a ch r).ranges b other = some q) :
    (b = a ∧ other = ch ∧ q = r) ∨ (¬ (b = a ∧ other = ch) ∧ s.ranges b other = some q) := by
  by_cases here : b = a ∧ other = ch
  · obtain ⟨rfl, rfl⟩ := here
    exact Or.inl ⟨rfl, rfl, by simpa [eq_comm] using h⟩
  · exact Or.inr ⟨here, by simpa [here] using h⟩

def step (s : State) : Action → Option State
  | .enter i a ch => match s.calls i with
    | none => some (s.setCall i ⟨a, ch, .entered⟩)
    | some _ => none
  | .lookup i => match s.calls i with
    | some ⟨a, ch, .entered⟩ => match s.ranges a ch with
      | some r =>
        if r.next ≤ r.max then
          some ((s.setRange a ch r.advance).setCall i ⟨a, ch, .returned r.next⟩)
        else some (s.setCall i ⟨a, ch, .refill⟩)
      | none => some (s.setCall i ⟨a, ch, .refill⟩)
    | _ => none
  | .incrBy i => match s.calls i with
    | some ⟨a, ch, .refill⟩ =>
      match s.redis.incrBy s.now ch seqBatchSize with
      | (some newMax, redis) => some ({ s with redis := redis }.setCall i ⟨a, ch, .reserved newMax⟩)
      | (none, redis) => some ({ s with redis := redis }.setCall i ⟨a, ch, .failed⟩)
    | _ => none
  | .incrByFails i => match s.calls i with
    | some ⟨a, ch, .refill⟩ => some (s.setCall i ⟨a, ch, .failed⟩)
    | _ => none
  | .install i => match s.calls i with
    | some ⟨a, ch, .reserved newMax⟩ =>
      some ((s.setRange a ch (.opened newMax)).setCall i ⟨a, ch, .returned (newStart newMax)⟩)
    | _ => none
  | .tick ms => some { s with now := s.now + ms }

inductive Effect (s : State) : Action → State → Prop where
  | enter {i a ch} : s.calls i = none → Effect s (.enter i a ch) (s.setCall i ⟨a, ch, .entered⟩)
  | hit {i a ch r} : s.calls i = some ⟨a, ch, .entered⟩ → s.ranges a ch = some r → r.next ≤ r.max →
      Effect s (.lookup i) ((s.setRange a ch r.advance).setCall i ⟨a, ch, .returned r.next⟩)
  | miss {i a ch} : s.calls i = some ⟨a, ch, .entered⟩ →
      (∀ r, s.ranges a ch = some r → r.max < r.next) →
      Effect s (.lookup i) (s.setCall i ⟨a, ch, .refill⟩)
  | incrBy {i a ch m} : s.calls i = some ⟨a, ch, .refill⟩ →
      (s.redis.incrBy s.now ch seqBatchSize).1 = some m →
      Effect s (.incrBy i)
        ({ s with redis := (s.redis.incrBy s.now ch seqBatchSize).2 }.setCall i ⟨a, ch, .reserved m⟩)
  | refused {i a ch} : s.calls i = some ⟨a, ch, .refill⟩ →
      (s.redis.incrBy s.now ch seqBatchSize).1 = none →
      Effect s (.incrBy i) (s.setCall i ⟨a, ch, .failed⟩)
  | fails {i a ch} : s.calls i = some ⟨a, ch, .refill⟩ →
      Effect s (.incrByFails i) (s.setCall i ⟨a, ch, .failed⟩)
  | install {i a ch m} : s.calls i = some ⟨a, ch, .reserved m⟩ →
      Effect s (.install i)
        ((s.setRange a ch (.opened m)).setCall i ⟨a, ch, .returned (newStart m)⟩)
  | tick {ms} : Effect s (.tick ms) { s with now := s.now + ms }

theorem incrBy_refused {r : Redis} {now : Nat} {ch : String} {delta : Int}
    (refused : (r.incrBy now ch delta).1 = none) : (r.incrBy now ch delta).2 = r := by
  unfold Redis.incrBy at refused ⊢
  by_cases full : Overflows ((r.get now (keySeq ch)).getD 0) delta
  · rw [Redis.incrKeyBy_refused full]
  · rw [Redis.incrKeyBy_done full] at refused
    contradiction

theorem step_effect {s t : State} {a : Action} (taken : step s a = some t) : Effect s a t := by
  cases a with
  | enter i a ch =>
    simp only [step] at taken
    split at taken
    · rename_i h
      cases taken
      exact .enter h
    · contradiction
  | lookup i =>
    simp only [step] at taken
    split at taken
    · rename_i a ch hc
      split at taken
      · rename_i r hr
        split at taken
        · rename_i le
          cases taken
          exact .hit hc hr le
        · rename_i gt
          cases taken
          refine .miss hc ?_
          intro q hq
          cases hr.symm.trans hq
          omega
      · rename_i hr
        cases taken
        refine .miss hc ?_
        intro q hq
        cases hr.symm.trans hq
    · contradiction
  | incrBy i =>
    simp only [step] at taken
    split at taken
    · rename_i a ch hc
      cases done : s.redis.incrBy s.now ch seqBatchSize with
      | mk reply redis =>
        have reply_eq : (s.redis.incrBy s.now ch seqBatchSize).1 = reply := by rw [done]
        have redis_eq : (s.redis.incrBy s.now ch seqBatchSize).2 = redis := by rw [done]
        rw [done] at taken
        cases reply with
        | some m =>
          cases taken
          rw [← redis_eq]
          exact .incrBy hc reply_eq
        | none =>
          cases taken
          rw [← redis_eq, incrBy_refused reply_eq]
          exact .refused hc reply_eq
    · contradiction
  | incrByFails i =>
    simp only [step] at taken
    split at taken
    · rename_i hc
      cases taken
      exact .fails hc
    · contradiction
  | install i =>
    simp only [step] at taken
    split at taken
    · rename_i hc
      cases taken
      exact .install hc
    · contradiction
  | tick ms =>
    cases taken
    exact .tick

inductive Move (s : State) (a : Nat) (ch : String) : Phase → Phase → Prop where
  | stay {p} : Move s a ch p p
  | hit {r} : s.ranges a ch = some r → r.next ≤ r.max → Move s a ch .entered (.returned r.next)
  | miss : Move s a ch .entered .refill
  | reserve {m} : (s.redis.incrBy s.now ch seqBatchSize).1 = some m → Move s a ch .refill (.reserved m)
  | fail : Move s a ch .refill .failed
  | install {m} : Move s a ch (.reserved m) (.returned (newStart m))

theorem step_move {s t : State} {x : Action} {i a : Nat} {ch : String} {p : Phase}
    (call : s.calls i = some ⟨a, ch, p⟩) (taken : step s x = some t) :
    ∃ q, t.calls i = some ⟨a, ch, q⟩ ∧ Move s a ch p q := by
  have moved : ∀ {k b other r q} {u : State}, s.calls k = some ⟨b, other, r⟩ → u.calls = s.calls →
      Move s b other r q → ∃ q', (u.setCall k ⟨b, other, q⟩).calls i = some ⟨a, ch, q'⟩ ∧
        Move s a ch p q' := by
    intro k b other r q u old same move
    by_cases hi : i = k
    · subst hi
      cases call.symm.trans old
      exact ⟨q, setCall_calls_same _ _ _, move⟩
    · exact ⟨p, by simpa [hi, same] using call, .stay⟩
  cases step_effect taken with
  | @enter k b other free =>
    have ne : i ≠ k := by
      intro e
      cases (e ▸ call).symm.trans free
    exact ⟨p, by simpa [ne] using call, .stay⟩
  | hit old range le => exact moved old rfl (.hit range le)
  | miss old => exact moved old rfl .miss
  | incrBy old reply => exact moved old rfl (.reserve reply)
  | refused old => exact moved old rfl .fail
  | fails old => exact moved old rfl .fail
  | install old => exact moved old rfl .install
  | tick => exact ⟨p, call, .stay⟩

theorem step_returned {s t : State} {x : Action} {i a : Nat} {ch : String} {n : Int}
    (done : s.calls i = some ⟨a, ch, .returned n⟩) (taken : step s x = some t) :
    t.calls i = some ⟨a, ch, .returned n⟩ := by
  obtain ⟨q, hq, move⟩ := step_move done taken
  cases move
  exact hq

/-- The channel's counter in Redis; an absent key counts from 0. -/
def State.counter (s : State) (ch : String) : Int :=
  match s.redis.keys (keySeq ch) with
  | some e => e.val
  | none => 0

/- Sequence keys are never given a TTL. -/
def Persistent (r : Redis) : Prop := ∀ ch e, r.keys (keySeq ch) = some e → e.deadline = none

theorem counter_get (s : State) (persistent : Persistent s.redis) (ch : String) :
    (s.redis.get s.now (keySeq ch)).getD 0 = s.counter ch ∧
      (s.redis.find s.now (keySeq ch)).bind (·.deadline) = none := by
  unfold Redis.get Redis.find State.counter
  cases h : s.redis.keys (keySeq ch) with
  | none => simp
  | some e =>
    have forever := persistent ch e h
    have live : e.live s.now = true := by simp [Entry.live, forever]
    simp [Option.filter, live, forever]

theorem incrBy_reply {s : State} (persistent : Persistent s.redis) {ch : String} {m : Int}
    (reply : (s.redis.incrBy s.now ch seqBatchSize).1 = some m) :
    m = s.counter ch + seqBatchSize ∧ m < 2 ^ 63 := by
  have old := (counter_get s persistent ch).1
  unfold Redis.incrBy at reply
  by_cases full : Overflows ((s.redis.get s.now (keySeq ch)).getD 0) seqBatchSize
  · rw [Redis.incrKeyBy_refused full] at reply
    contradiction
  · rw [Redis.incrKeyBy_done full] at reply
    have same := Option.some.inj reply
    rw [old] at same full
    refine ⟨same.symm, ?_⟩
    by_contra beyond
    exact full (Or.inl ⟨by decide, by omega⟩)

theorem incrBy_entry {s : State} (persistent : Persistent s.redis) {ch : String} {m : Int}
    (reply : (s.redis.incrBy s.now ch seqBatchSize).1 = some m) :
    (s.redis.incrBy s.now ch seqBatchSize).2.keys (keySeq ch) = some ⟨s.counter ch + seqBatchSize, none⟩ := by
  obtain ⟨value, forever⟩ := counter_get s persistent ch
  unfold Redis.incrBy at reply ⊢
  by_cases full : Overflows ((s.redis.get s.now (keySeq ch)).getD 0) seqBatchSize
  · rw [Redis.incrKeyBy_refused full] at reply
    contradiction
  · rw [Redis.incrKeyBy_done full, Redis.put_keys_same, value, forever]

theorem incrBy_keys_ne (r : Redis) (now : Nat) {ch other : String} (d : Int) (h : other ≠ ch) :
    (r.incrBy now ch d).2.keys (keySeq other) = r.keys (keySeq other) :=
  Redis.incrKeyBy_keys_ne r now d (by simpa using h)

theorem incrBy_keys_cases {s : State} (persistent : Persistent s.redis) {ch other : String} {e : Entry}
    (h : (s.redis.incrBy s.now ch seqBatchSize).2.keys (keySeq other) = some e) :
    (other = ch ∧ e = ⟨s.counter ch + seqBatchSize, none⟩) ∨ s.redis.keys (keySeq other) = some e := by
  by_cases here : other = ch
  · subst here
    cases reply : (s.redis.incrBy s.now other seqBatchSize).1 with
    | some m =>
      rw [incrBy_entry persistent reply] at h
      exact Or.inl ⟨rfl, (Option.some.inj h).symm⟩
    | none =>
      rw [incrBy_refused reply] at h
      exact Or.inr h
  · rw [incrBy_keys_ne s.redis s.now seqBatchSize here] at h
    exact Or.inr h

theorem Persistent.reserve {s : State} (persistent : Persistent s.redis) (ch : String) :
    Persistent (s.redis.incrBy s.now ch seqBatchSize).2 := by
  intro other e h
  rcases incrBy_keys_cases persistent h with ⟨_, rfl⟩ | old
  · rfl
  · exact persistent other e old

theorem counter_reserved {s t : State} (persistent : Persistent s.redis) {ch : String} {m : Int}
    (reply : (s.redis.incrBy s.now ch seqBatchSize).1 = some m)
    (reserved : t.redis = (s.redis.incrBy s.now ch seqBatchSize).2) (other : String) :
    t.counter other = if other = ch then s.counter ch + seqBatchSize else s.counter other := by
  by_cases here : other = ch
  · subst here
    simp only [State.counter, reserved, incrBy_entry persistent reply, if_true]
  · simp only [State.counter, reserved, incrBy_keys_ne s.redis s.now seqBatchSize here, if_neg here]

theorem step_keys_ne {s t : State} {a : Action} {key : String} (taken : step s a = some t)
    (other : ∀ ch, key ≠ keySeq ch) : t.redis.keys key = s.redis.keys key := by
  cases step_effect taken with
  | incrBy => exact Redis.incrKeyBy_keys_ne s.redis s.now seqBatchSize (other _)
  | _ => rfl

/-- Who can still hand out, or has handed out, a number of a channel. -/
inductive Holder where
  | range (allocator : Nat)
  | call (i : Nat)
  deriving DecidableEq

def Phase.Holds : Phase → Int → Prop
  | .reserved newMax, n => newMax - seqBatchSize < n ∧ n ≤ newMax
  | .returned seq, n => n = seq
  | _, _ => False

def Holds (s : State) (ch : String) : Holder → Int → Prop
  | .range a, n => ∃ r, s.ranges a ch = some r ∧ r.next ≤ n ∧ n ≤ r.max
  | .call i, n => ∃ c, s.calls i = some c ∧ c.channelID = ch ∧ c.phase.Holds n

/-- No batch from here on ends with the last int64, where next++ would wrap around. -/
def Spare (counter : Int) : Prop := counter < 2 ^ 63 - 1 → ¬ seqBatchSize ∣ 2 ^ 63 - 1 - counter

instance (counter : Int) : Decidable (Spare counter) := inferInstanceAs (Decidable (_ → _))

theorem Spare.reserve {c m : Int} (spare : Spare c) (value : m = c + seqBatchSize) (within : m < 2 ^ 63) :
    Spare m ∧ m < 2 ^ 63 - 1 := by
  unfold Spare seqBatchSize at *
  constructor
  · intro _
    omega
  · omega

/- Numbers are handed around, never copied: every number above 0 and up to the
counter has at most one holder, every other number has none. The last int64 is not
among them. -/
structure Inv (s : State) : Prop where
  persistent : Persistent s.redis
  counted : ∀ ch, 0 ≤ s.counter ch
  spare : ∀ ch, Spare (s.counter ch)
  bounded : ∀ ch h n, Holds s ch h n → 1 ≤ n ∧ n ≤ s.counter ch
  below : ∀ ch h n, Holds s ch h n → n < 2 ^ 63 - 1
  exclusive : ∀ ch, Exclusive (Holds s ch)

/- As long as no number is the last int64, the arithmetic of the allocator is exact. -/
theorem Inv.advance {s : State} (inv : Inv s) {a : Nat} {ch : String} {r : SeqRange}
    (range : s.ranges a ch = some r) (le : r.next ≤ r.max) : r.advance = ⟨r.next + 1, r.max⟩ := by
  have held : Holds s ch (.range a) r.next := ⟨r, range, le_refl _, le⟩
  have low := (inv.bounded ch _ _ held).1
  have high := inv.below ch _ _ held
  rw [SeqRange.advance, wrap64_of_isInt64 ⟨by omega, by omega⟩]

theorem opened_eq {m : Int} (low : IsInt64 (m - seqBatchSize)) (high : IsInt64 m) :
    newStart m = m - seqBatchSize + 1 ∧ SeqRange.opened m = ⟨m - seqBatchSize + 1 + 1, m⟩ := by
  have start : newStart m = m - seqBatchSize + 1 := by
    rw [newStart, wrap64_of_isInt64 low]
    unfold IsInt64 seqBatchSize at *
    exact wrap64_of_isInt64 ⟨by omega, by omega⟩
  refine ⟨start, ?_⟩
  unfold IsInt64 seqBatchSize at *
  rw [SeqRange.opened, start, wrap64_of_isInt64 ⟨by omega, by omega⟩]

theorem Inv.newStart {s : State} (inv : Inv s) {i a : Nat} {ch : String} {m : Int}
    (call : s.calls i = some ⟨a, ch, .reserved m⟩) :
    SeqAlloc.newStart m = m - seqBatchSize + 1 ∧ SeqRange.opened m = ⟨m - seqBatchSize + 1 + 1, m⟩ := by
  have first : Holds s ch (.call i) (m - seqBatchSize + 1) :=
    ⟨_, call, rfl, by omega, by simp only [seqBatchSize]; omega⟩
  have last : Holds s ch (.call i) m := ⟨_, call, rfl, by simp only [seqBatchSize]; omega, le_refl m⟩
  have low := (inv.bounded ch _ _ first).1
  have high := inv.below ch _ _ last
  exact opened_eq ⟨by omega, by unfold seqBatchSize; omega⟩ ⟨by unfold seqBatchSize at low; omega, by omega⟩

theorem holds_setCall_same {s : State} {i : Nat} {c : Call} {ch : String} {n : Int} :
    Holds (s.setCall i c) ch (.call i) n ↔ c.channelID = ch ∧ c.phase.Holds n := by
  simp [Holds]

theorem holds_setCall_ne {s : State} {i : Nat} {c : Call} {ch : String} {h : Holder} {n : Int}
    (other : h ≠ .call i) : Holds (s.setCall i c) ch h n ↔ Holds s ch h n := by
  cases h with
  | range a => exact Iff.rfl
  | call j =>
    have ne : j ≠ i := fun e => other (e ▸ rfl)
    simp [Holds, ne]

theorem holds_setRange_same {s : State} {a : Nat} {ch : String} {r : SeqRange} {n : Int} :
    Holds (s.setRange a ch r) ch (.range a) n ↔ r.next ≤ n ∧ n ≤ r.max := by
  simp [Holds]

theorem holds_setRange_ne {s : State} {a : Nat} {ch other : String} {r : SeqRange}
    {h : Holder} {n : Int} (ne : other ≠ ch ∨ h ≠ .range a) :
    Holds (s.setRange a ch r) other h n ↔ Holds s other h n := by
  cases h with
  | call j => exact Iff.rfl
  | range b =>
    have apart : ¬ (b = a ∧ other = ch) := by
      rintro ⟨rfl, rfl⟩
      simp at ne
    simp only [Holds, setRange_ranges_ne s r apart]

theorem holds_drawn {s : State} {i a : Nat} {ch ch' : String} {low high drawn : Int} {k : Holder} {n : Int}
    (held : Holds ((s.setRange a ch ⟨low, high⟩).setCall i ⟨a, ch, .returned drawn⟩) ch' k n) :
    (k = .call i ∧ ch' = ch ∧ n = drawn) ∨ (k = .range a ∧ ch' = ch ∧ low ≤ n ∧ n ≤ high) ∨
      (k ≠ .call i ∧ ¬ (ch' = ch ∧ k = .range a) ∧ Holds s ch' k n) := by
  by_cases mine : k = .call i
  · subst mine
    obtain ⟨same, eq⟩ := holds_setCall_same.mp held
    exact Or.inl ⟨rfl, same.symm, eq⟩
  · have old := (holds_setCall_ne mine).mp held
    by_cases here : ch' = ch ∧ k = .range a
    · obtain ⟨rfl, rfl⟩ := here
      exact Or.inr (Or.inl ⟨rfl, rfl, holds_setRange_same.mp old⟩)
    · exact Or.inr (Or.inr ⟨mine, here, (holds_setRange_ne (not_and_or.mp here)).mp old⟩)

def SameSeqKeys (s t : State) : Prop := ∀ ch, t.redis.keys (keySeq ch) = s.redis.keys (keySeq ch)

theorem SameSeqKeys.counter {s t : State} (same : SameSeqKeys s t) (ch : String) :
    t.counter ch = s.counter ch := by
  simp only [State.counter, same ch]

theorem SameSeqKeys.persistent {s t : State} (same : SameSeqKeys s t) (h : Persistent s.redis) :
    Persistent t.redis :=
  fun ch e he => h ch e (same ch ▸ he)

theorem Inv.transfer {s t : State} (inv : Inv s) (same : SameSeqKeys s t)
    (giver receiver : Holder) (moved : String → Int → Prop)
    (accounts : ∀ ch k n, Holds t ch k n → (Holds s ch k n ∧ ¬ (k = giver ∧ moved ch n)) ∨
      (k = receiver ∧ Holds s ch giver n ∧ moved ch n)) : Inv t := by
  refine ⟨same.persistent inv.persistent, ?_, ?_, ?_, ?_, ?_⟩
  · intro ch
    rw [same.counter]
    exact inv.counted ch
  · intro ch
    rw [same.counter]
    exact inv.spare ch
  · intro ch k n h
    rw [same.counter]
    rcases accounts ch k n h with ⟨old, _⟩ | ⟨_, given, _⟩
    · exact inv.bounded ch k n old
    · exact inv.bounded ch giver n given
  · intro ch k n h
    rcases accounts ch k n h with ⟨old, _⟩ | ⟨_, given, _⟩
    · exact inv.below ch k n old
    · exact inv.below ch giver n given
  · exact fun ch => (inv.exclusive ch).transfer giver receiver (moved ch) (accounts ch)

theorem Inv.shrink {s t : State} (inv : Inv s) (same : SameSeqKeys s t)
    (kept : ∀ ch k n, Holds t ch k n → Holds s ch k n) : Inv t :=
  inv.transfer same (.call 0) (.call 0) (fun _ _ => False)
    (fun ch k n h => Or.inl ⟨kept ch k n h, fun g => g.2⟩)

theorem holds_idle {s : State} {i : Nat} {c : Call} {ch : String} {h : Holder} {n : Int}
    (none : ∀ m, ¬ c.phase.Holds m) (held : Holds (s.setCall i c) ch h n) : Holds s ch h n := by
  by_cases hk : h = .call i
  · subst hk
    exact absurd (holds_setCall_same.mp held).2 (none n)
  · exact (holds_setCall_ne hk).mp held

theorem Inv.idle {s : State} (inv : Inv s) (i : Nat) (c : Call) (none : ∀ n, ¬ c.phase.Holds n) :
    Inv (s.setCall i c) :=
  inv.shrink (t := s.setCall i c) (fun _ => rfl) (fun _ _ _ h => holds_idle none h)

theorem Inv.hit {s : State} (inv : Inv s) {i a : Nat} {ch : String} {r : SeqRange}
    (range : s.ranges a ch = some r) (open_ : r.next ≤ r.max) :
    Inv ((s.setRange a ch r.advance).setCall i ⟨a, ch, .returned r.next⟩) := by
  rw [inv.advance range open_]
  refine inv.transfer ?_ (.range a) (.call i) (fun ch' n => ch' = ch ∧ n = r.next) ?_
  · exact fun _ => rfl
  intro ch' k n held
  rcases holds_drawn held with ⟨rfl, rfl, rfl⟩ | ⟨rfl, rfl, low, high⟩ | ⟨_, apart, old⟩
  · exact Or.inr ⟨rfl, ⟨r, range, le_rfl, open_⟩, rfl, rfl⟩
  · exact Or.inl ⟨⟨r, range, by omega, high⟩, fun m => by omega⟩
  · exact Or.inl ⟨old, fun m => apart ⟨m.2.1, m.1⟩⟩

theorem Inv.reserve {s : State} (inv : Inv s) (i a : Nat) {ch : String} {m : Int}
    (reply : (s.redis.incrBy s.now ch seqBatchSize).1 = some m) :
    Inv ({ s with redis := (s.redis.incrBy s.now ch seqBatchSize).2 }.setCall i ⟨a, ch, .reserved m⟩) := by
  obtain ⟨value, within⟩ := incrBy_reply inv.persistent reply
  set t := { s with redis := (s.redis.incrBy s.now ch seqBatchSize).2 }.setCall i ⟨a, ch, .reserved m⟩ with ht
  have counter : ∀ other, t.counter other =
      if other = ch then s.counter ch + seqBatchSize else s.counter other :=
    counter_reserved inv.persistent reply rfl
  have raised : t.counter ch = m := by rw [counter, if_pos rfl, value]
  have grows : ∀ other, s.counter other ≤ t.counter other := by
    intro other
    rw [counter]
    split
    · rename_i here
      rw [here]
      simp only [seqBatchSize]
      omega
    · exact le_refl _
  obtain ⟨spared, short⟩ := (inv.spare ch).reserve value within
  have spare : ∀ other, Spare (t.counter other) := by
    intro other
    by_cases here : other = ch
    · rw [here, raised]
      exact spared
    · rw [counter, if_neg here]
      exact inv.spare other
  have accounts : ∀ ch' k n, Holds t ch' k n → Holds s ch' k n ∨
      (k = .call i ∧ (ch' = ch ∧ s.counter ch < n ∧ n ≤ m)) := by
    intro ch' k n h
    by_cases hk : k = .call i
    · subst hk
      obtain ⟨rfl, hn⟩ := holds_setCall_same.mp h
      have within : m - seqBatchSize < n ∧ n ≤ m := hn
      exact Or.inr ⟨rfl, rfl, by omega, within.2⟩
    · exact Or.inl ((holds_setCall_ne hk).mp h)
  refine ⟨inv.persistent.reserve ch, ?_, spare, ?_, ?_, ?_⟩
  · exact fun ch' => le_trans (inv.counted ch') (grows ch')
  · intro ch' k n h
    rcases accounts ch' k n h with old | ⟨_, rfl, above, below⟩
    · have b := inv.bounded ch' k n old
      exact ⟨b.1, le_trans b.2 (grows ch')⟩
    · have c := inv.counted ch'
      exact ⟨by omega, raised ▸ below⟩
  · intro ch' k n h
    rcases accounts ch' k n h with old | ⟨_, _, _, below⟩
    · exact inv.below ch' k n old
    · exact lt_of_le_of_lt below short
  · intro ch'
    apply (inv.exclusive ch').fresh (.call i) (fun n => ch' = ch ∧ s.counter ch < n ∧ n ≤ m)
    · rintro k n old ⟨rfl, above, _⟩
      have b := inv.bounded ch' k n old
      omega
    · exact accounts ch'

theorem Inv.install {s : State} (inv : Inv s) {i a : Nat} {ch : String} {m : Int}
    (call : s.calls i = some ⟨a, ch, .reserved m⟩) :
    Inv ((s.setRange a ch (.opened m)).setCall i ⟨a, ch, .returned (SeqAlloc.newStart m)⟩) := by
  rw [(inv.newStart call).1, (inv.newStart call).2]
  refine inv.transfer ?_ (.call i) (.range a)
    (fun ch' n => ch' = ch ∧ n ≠ m - seqBatchSize + 1) ?_
  · exact fun _ => rfl
  have held : ∀ n, m - seqBatchSize < n → n ≤ m → Holds s ch (.call i) n :=
    fun n lo hi => ⟨_, call, rfl, lo, hi⟩
  intro ch' k n after
  rcases holds_drawn after with ⟨rfl, rfl, eq⟩ | ⟨rfl, rfl, low, high⟩ | ⟨mine, _, old⟩
  · exact Or.inl ⟨held n (by omega) (by simp only [seqBatchSize] at eq; omega), fun g => g.2.2 eq⟩
  · exact Or.inr ⟨rfl, held n (by omega) high, rfl, by omega⟩
  · exact Or.inl ⟨old, fun g => mine g.1⟩

theorem step_inv {s t : State} {a : Action} (inv : Inv s) (taken : step s a = some t) : Inv t := by
  cases step_effect taken with
  | enter => exact inv.idle _ _ (fun _ h => h)
  | hit _ range le => exact inv.hit range le
  | miss => exact inv.idle _ _ (fun _ h => h)
  | incrBy _ reply => exact inv.reserve _ _ reply
  | refused => exact inv.idle _ _ (fun _ h => h)
  | fails => exact inv.idle _ _ (fun _ h => h)
  | install call => exact inv.install call
  | tick => exact inv.shrink (fun _ => rfl) (fun _ _ _ h => h)

theorem step_origin {s t : State} {a : Action} (inv : Inv s) (taken : step s a = some t) {ch : String}
    {h : Holder} {n : Int} (held : Holds t ch h n) : (∃ k, Holds s ch k n) ∨ s.counter ch < n := by
  cases step_effect taken with
  | enter => exact Or.inl ⟨h, holds_idle (by simp [Phase.Holds]) held⟩
  | @hit i b channel r call range le =>
    rw [inv.advance range le] at held
    rcases holds_drawn held with ⟨rfl, rfl, rfl⟩ | ⟨rfl, rfl, low, high⟩ | ⟨_, _, old⟩
    · exact Or.inl ⟨.range b, r, range, le_rfl, le⟩
    · exact Or.inl ⟨.range b, r, range, by omega, high⟩
    · exact Or.inl ⟨h, old⟩
  | miss => exact Or.inl ⟨h, holds_idle (by simp [Phase.Holds]) held⟩
  | @incrBy i b channel m call reply =>
    by_cases hk : h = .call i
    · subst hk
      obtain ⟨rfl, within⟩ := holds_setCall_same.mp held
      have value := (incrBy_reply inv.persistent reply).1
      have above : m - seqBatchSize < n := within.1
      have above : s.counter channel < n := by omega
      exact Or.inr above
    · exact Or.inl ⟨h, (holds_setCall_ne hk).mp held⟩
  | refused => exact Or.inl ⟨h, holds_idle (by simp [Phase.Holds]) held⟩
  | fails => exact Or.inl ⟨h, holds_idle (by simp [Phase.Holds]) held⟩
  | @install i b channel m call =>
    rw [(inv.newStart call).1, (inv.newStart call).2] at held
    rcases holds_drawn held with ⟨rfl, rfl, eq⟩ | ⟨rfl, rfl, low, high⟩ | ⟨_, _, old⟩
    · exact Or.inl ⟨.call i, _, call, rfl, by omega, by simp only [seqBatchSize] at eq; omega⟩
    · exact Or.inl ⟨.call i, _, call, rfl, by omega, high⟩
    · exact Or.inl ⟨h, old⟩
  | tick => exact Or.inl ⟨h, held⟩

theorem step_counter {s t : State} {a : Action} (inv : Inv s) (taken : step s a = some t)
    (ch : String) : s.counter ch ≤ t.counter ch := by
  cases step_effect taken with
  | @incrBy i b channel m call reply =>
    have reserved : ∀ {t : State}, t.redis = (s.redis.incrBy s.now channel seqBatchSize).2 →
        t.counter ch = if ch = channel then s.counter channel + seqBatchSize else s.counter ch :=
      fun redis => counter_reserved inv.persistent reply redis ch
    refine le_of_le_of_eq ?_ (Eq.symm (reserved rfl))
    split
    · rename_i here
      rw [here]
      simp only [seqBatchSize]
      omega
    · exact le_refl _
  | enter => exact le_refl _
  | hit => exact le_refl _
  | miss => exact le_refl _
  | refused => exact le_refl _
  | fails => exact le_refl _
  | install => exact le_refl _
  | tick => exact le_refl _

/-- No number up to the floor of its channel is held or will be handed out. -/
structure Floored (floor : String → Int) (s : State) : Prop where
  counter : ∀ ch, floor ch ≤ s.counter ch
  held : ∀ ch h n, Holds s ch h n → floor ch < n

theorem step_floored {floor : String → Int} {s t : State} {a : Action} (inv : Inv s)
    (floored : Floored floor s) (taken : step s a = some t) : Floored floor t := by
  constructor
  · intro ch
    exact le_trans (floored.counter ch) (step_counter inv taken ch)
  · intro ch h n held
    rcases step_origin inv taken held with ⟨k, old⟩ | new
    · exact floored.held ch k n old
    · exact lt_of_le_of_lt (floored.counter ch) new

/-- Fresh allocators over a Redis whose sequence counters are permanent and not negative. -/
structure Start (s : State) : Prop where
  persistent : Persistent s.redis
  counted : ∀ ch, 0 ≤ s.counter ch
  ranges : ∀ a ch, s.ranges a ch = none
  calls : ∀ i, s.calls i = none

theorem Start.unheld {s : State} (start : Start s) (ch : String) (h : Holder) (n : Int) :
    ¬ Holds s ch h n := by
  intro held
  cases h with
  | range a =>
    obtain ⟨r, hr, _⟩ := held
    cases (start.ranges a ch).symm.trans hr
  | call i =>
    obtain ⟨c, hc, _⟩ := held
    cases (start.calls i).symm.trans hc

theorem Start.inv {s : State} (start : Start s) (spare : ∀ ch, Spare (s.counter ch)) : Inv s :=
  ⟨start.persistent, start.counted, spare, fun ch h n held => absurd held (start.unheld ch h n),
    fun ch h n held => absurd held (start.unheld ch h n), fun ch h _ n held => absurd held (start.unheld ch h n)⟩

theorem Start.floored {s : State} (start : Start s) : Floored s.counter s :=
  ⟨fun _ => le_refl _, fun ch h n held => absurd held (start.unheld ch h n)⟩

/-- The call of Next has returned this number for the channel. -/
def Returned (s : State) (i : Nat) (ch : String) (n : Int) : Prop :=
  ∃ a, s.calls i = some ⟨a, ch, .returned n⟩

theorem Returned.holds {s : State} {i : Nat} {ch : String} {n : Int} (h : Returned s i ch n) :
    Holds s ch (.call i) n := by
  obtain ⟨a, ha⟩ := h
  exact ⟨_, ha, rfl, rfl⟩

/-- Whatever the interleaving, no number of a channel is returned twice, and every
returned number is between 1 and the channel's counter, as long as no batch ends with
the last int64. -/
theorem next_distinct_and_counted (s₀ s : State) (as : List Action) (start : Start s₀)
    (spare : ∀ ch, Spare (s₀.counter ch)) (taken : run step s₀ as = some s) :
    (∀ ch i j n, Returned s i ch n → Returned s j ch n → i = j) ∧
      ∀ ch i n, Returned s i ch n → 1 ≤ n ∧ n ≤ s.counter ch := by
  have inv : Inv s := run_invariant Inv (fun _ _ _ h t => step_inv h t) (start.inv spare) taken
  constructor
  · intro ch i j n hi hj
    have same := inv.exclusive ch (.call i) (.call j) n hi.holds hj.holds
    exact Holder.call.inj same
  · exact fun ch i n h => inv.bounded ch (.call i) n h.holds

def initial : State := ⟨0, ⟨fun _ => none⟩, fun _ _ => none, fun _ => none⟩

theorem initial_start : Start initial where
  persistent := by
    intro ch e h
    cases h
  counted := fun _ => le_refl 0
  ranges := fun _ _ => rfl
  calls := fun _ => rfl

theorem initial_spare (ch : String) : Spare (initial.counter ch) := by
  change Spare 0
  decide

/- Two calls that refill at the same time and install in the other order. -/
def crossedRefills : List Action :=
  [.enter 0 0 "world", .enter 1 0 "world", .lookup 0, .lookup 1, .incrBy 0, .incrBy 1,
    .install 1, .install 0]

theorem next_distinct_crossed : ∃ s, run step initial crossedRefills = some s ∧
    Returned s 0 "world" 1 ∧ Returned s 1 "world" 1001 ∧
    ((∀ ch i j n, Returned s i ch n → Returned s j ch n → i = j) ∧
      ∀ ch i n, Returned s i ch n → 1 ≤ n ∧ n ≤ s.counter ch) :=
  ⟨_, rfl, ⟨0, rfl⟩, ⟨0, rfl⟩,
    next_distinct_and_counted initial _ crossedRefills initial_start initial_spare rfl⟩

theorem enter_then_hit {s : State} {k a : Nat} {ch : String} {r : SeqRange} (free : s.calls k = none)
    (range : s.ranges a ch = some r) (le : r.next ≤ r.max) :
    ∃ t, run step s [.enter k a ch, .lookup k] = some t ∧ t.calls k = some ⟨a, ch, .returned r.next⟩ ∧
      t.ranges a ch = some r.advance ∧ ∀ j, j ≠ k → t.calls j = s.calls j := by
  refine ⟨((s.setCall k ⟨a, ch, .entered⟩).setRange a ch r.advance).setCall k ⟨a, ch, .returned r.next⟩, ?_,
    by simp, by simp, ?_⟩
  · simp only [run, step, free, Option.bind_some, setCall_calls_same, setCall_ranges, range, le, if_true]
  · intro j ne
    simp [ne]

def hits (a : Nat) (ch : String) (i : Nat) : Nat → List Action
  | 0 => []
  | k + 1 => [.enter i a ch, .lookup i] ++ hits a ch (i + 1) k

theorem run_hits {s : State} {a i : Nat} {ch : String} {n m : Int} (range : s.ranges a ch = some ⟨n, m⟩)
    (free : ∀ j, i ≤ j → s.calls j = none) (k : Nat) (low : 0 ≤ n) (left : n + k ≤ m + 1) (high : n + k < 2 ^ 63) :
    ∃ t, run step s (hits a ch i k) = some t ∧ t.ranges a ch = some ⟨n + k, m⟩ ∧
      ∀ j, i + k ≤ j → t.calls j = none := by
  induction k generalizing s i n with
  | zero => exact ⟨s, rfl, by simpa using range, free⟩
  | succ k ih =>
    push_cast at left high
    have le : n ≤ m := by omega
    have next : SeqRange.advance ⟨n, m⟩ = ⟨n + 1, m⟩ := by
      rw [SeqRange.advance, wrap64_of_isInt64 ⟨by simp only; omega, by simp only; omega⟩]
    obtain ⟨u, hit, _, moved, others⟩ := enter_then_hit (free i (le_refl i)) range le
    rw [next] at moved
    have unused : ∀ j, i + 1 ≤ j → u.calls j = none := by
      intro j later
      rw [others j (by omega)]
      exact free j (by omega)
    obtain ⟨t, rest, reached, after⟩ := ih moved unused (by omega) (by omega) (by omega)
    refine ⟨t, run_append_some.mpr ⟨u, hit, rest⟩, ?_, fun j later => after j (by omega)⟩
    rw [reached, Nat.cast_succ, add_assoc, add_comm (1 : Int)]

/- The counter of the channel is one batch below the last int64. -/
def lastBatch : State :=
  ⟨0, ⟨fun key => if key = keySeq "world" then some ⟨2 ^ 63 - 1001, none⟩ else none⟩, fun _ _ => none,
    fun _ => none⟩

theorem lastBatch_start : Start lastBatch where
  persistent := by
    intro ch e held
    simp only [lastBatch] at held
    split at held
    · cases held
      rfl
    · contradiction
  counted := by
    intro ch
    simp only [State.counter, lastBatch]
    by_cases world : keySeq ch = keySeq "world"
    · simp only [if_pos world]
      decide
    · simp only [if_neg world]
      decide
  ranges := fun _ _ => rfl
  calls := fun _ => rfl

theorem lastBatch_opened : ∃ s, run step lastBatch [.enter 0 0 "world", .lookup 0, .incrBy 0, .install 0] = some s ∧
    s.ranges 0 "world" = some ⟨2 ^ 63 - 999, 2 ^ 63 - 1⟩ ∧ ∀ j, 1 ≤ j → s.calls j = none := by
  refine ⟨_, rfl, rfl, ?_⟩
  intro j later
  have ne : j ≠ 0 := by omega
  simp [ne, lastBatch]

/-- From there 1000 calls of one allocator use up the last batch, next++ wraps around, and the
call after them returns the least int64. -/
theorem next_wraps : Start lastBatch ∧ ¬ ∀ (as : List Action) (s : State), run step lastBatch as = some s →
    (∀ ch i j n, Returned s i ch n → Returned s j ch n → i = j) ∧
      ∀ ch i n, Returned s i ch n → 1 ≤ n ∧ n ≤ s.counter ch := by
  refine ⟨lastBatch_start, ?_⟩
  intro all
  obtain ⟨s, first, opened, free⟩ := lastBatch_opened
  obtain ⟨t, more, left, unused⟩ := run_hits opened free 998 (by decide) (by decide) (by decide)
  obtain ⟨u, last, _, wrapped, others⟩ := enter_then_hit (unused 999 (by omega)) left (by decide)
  have free₁₀₀₀ : u.calls 1000 = none := by
    rw [others 1000 (by omega)]
    exact unused 1000 (by omega)
  obtain ⟨v, beyond, returned, _, _⟩ := enter_then_hit free₁₀₀₀ wrapped (by decide)
  have taken := run_append_some.mpr ⟨s, first, run_append_some.mpr ⟨t, more, run_append_some.mpr ⟨u, last, beyond⟩⟩⟩
  have least : SeqRange.next (SeqRange.advance ⟨2 ^ 63 - 999 + (998 : Nat), 2 ^ 63 - 1⟩) = -2 ^ 63 := by decide
  rw [least] at returned
  have bounds := (all _ v taken).2 "world" 1000 _ ⟨0, returned⟩
  omega

end GameIM.Service.SeqAlloc
