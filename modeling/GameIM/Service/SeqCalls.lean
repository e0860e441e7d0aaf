import GameIM.Service.SeqAlloc
import GameIM.Store.SendCalls

/-! SeqAllocator.Next over the calls of RedisStore, on the keyspace itself. IncrBy is a request
that is sent, executed and answered, each at its own time; it may be sent again and executed more
than once, it may fail with its numbers reserved, and any other calls go on beside it. Where none of
this happens it is the machine of SeqAlloc. -/
namespace GameIM.Service.SeqCalls
open Lib Api Store Store.RedisStore
open SeqAlloc (SeqRange seqBatchSize newStart opened_eq Holder)

/-- `asking` is the call of IncrBy that Next waits for. -/
inductive Phase where
  | entered
  | asking (k : Nat)
  | returned (seq : Int)
  | failed
  deriving DecidableEq, Repr

structure Next where
  allocator : Nat
  channelID : String
  phase : Phase
  deriving DecidableEq, Repr

structure State where
  redis : RedisStore.State (Option Cell)
  ranges : Nat → String → Option SeqRange
  nexts : Nat → Option Next

/- `redis` is a step of any call of RedisStore, with those of other callers. -/
inductive Action where
  | enter (i allocator : Nat) (channelID : String)
  | lookup (i : Nat)
  | redis (a : RedisStore.Action)
  | install (i : Nat)

def refill (channelID : String) : Op := .incrBy (utf8 channelID) seqBatchSize

namespace State

def setNext (s : State) (i : Nat) (c : Next) : State :=
  { s with nexts := Function.update s.nexts i (some c) }

def setRange (s : State) (a : Nat) (ch : String) (r : SeqRange) : State :=
  { s with ranges := Function.update s.ranges a (Function.update (s.ranges a) ch (some r)) }

/- The call of IncrBy begins, as the last of the calls. -/
def ask (s : State) (ch : String) : State :=
  { s with redis := { s.redis with calls := s.redis.calls ++ [⟨refill ch, [], none⟩] } }

def answer (s : State) (k : Nat) : Option (RedisStore.Outcome Answer) := s.redis.calls[k]?.bind Keyed.Call.answer

end State

def step (pkg : Packages) (s : State) : Action → Option State
  | .enter i a ch => match s.nexts i with
    | none => some (s.setNext i ⟨a, ch, .entered⟩)
    | some _ => none
  | .lookup i => match s.nexts i with
    | some ⟨a, ch, .entered⟩ => match s.ranges a ch with
      | some r =>
        if r.next ≤ r.max then
          some ((s.setRange a ch r.advance).setNext i ⟨a, ch, .returned r.next⟩)
        else some ((s.ask ch).setNext i ⟨a, ch, .asking s.redis.calls.length⟩)
      | none => some ((s.ask ch).setNext i ⟨a, ch, .asking s.redis.calls.length⟩)
    | _ => none
  | .redis x => (Keyed.step (system pkg Command.apply) s.redis x).map fun redis => { s with redis }
  | .install i => match s.nexts i with
    | some ⟨a, ch, .asking k⟩ => match s.answer k with
      | some (.ok (.number newMax)) =>
        some ((s.setRange a ch (.opened newMax)).setNext i ⟨a, ch, .returned (newStart newMax)⟩)
      | some (.error _) => some (s.setNext i ⟨a, ch, .failed⟩)
      | _ => none
    | _ => none

inductive Effect (pkg : Packages) (s : State) : Action → State → Prop where
  | enter {i a ch} : Effect pkg s (.enter i a ch) (s.setNext i ⟨a, ch, .entered⟩)
  | hit {i a ch r} : s.ranges a ch = some r → r.next ≤ r.max →
      Effect pkg s (.lookup i) ((s.setRange a ch r.advance).setNext i ⟨a, ch, .returned r.next⟩)
  | miss {i a ch} : Effect pkg s (.lookup i) ((s.ask ch).setNext i ⟨a, ch, .asking s.redis.calls.length⟩)
  | redis {x redis} : Keyed.step (system pkg Command.apply) s.redis x = some redis →
      Effect pkg s (.redis x) { s with redis }
  | install {i a ch k m} : s.nexts i = some ⟨a, ch, .asking k⟩ → s.answer k = some (.ok (.number m)) →
      Effect pkg s (.install i) ((s.setRange a ch (.opened m)).setNext i ⟨a, ch, .returned (newStart m)⟩)
  | fail {i a ch} : Effect pkg s (.install i) (s.setNext i ⟨a, ch, .failed⟩)

variable {pkg : Packages} {s t : State}

theorem step_effect {x : Action} (taken : step pkg s x = some t) : Effect pkg s x t := by
  cases x with
  | enter i a ch =>
    simp only [step] at taken
    split at taken
    · cases taken
      exact .enter
    · contradiction
  | lookup i =>
    simp only [step] at taken
    split at taken
    · split at taken
      · rename_i range
        split at taken
        · rename_i le
          cases taken
          exact .hit range le
        · cases taken
          exact .miss
      · cases taken
        exact .miss
    · contradiction
  | redis x =>
    obtain ⟨redis, moved, rfl⟩ := Option.map_eq_some_iff.mp taken
    exact .redis moved
  | install i =>
    simp only [step] at taken
    split at taken
    · rename_i asking
      split at taken
      · rename_i answer
        cases taken
        exact .install asking answer
      · cases taken
        exact .fail
      · contradiction
    · contradiction

def Holds (s : State) (ch : String) : Holder → Int → Prop
  | .range a, n => ∃ r, s.ranges a ch = some r ∧ r.next ≤ n ∧ n ≤ r.max
  | .call i, n => ∃ a, s.nexts i = some ⟨a, ch, .returned n⟩

def Asks (s : State) (ch : String) (i k : Nat) : Prop := ∃ a, s.nexts i = some ⟨a, ch, .asking k⟩

/-- The number is one of those that the call of IncrBy has returned. -/
def Granted (s : State) (ch : String) (k : Nat) (n : Int) : Prop :=
  ∃ call m, s.redis.calls[k]? = some call ∧ call.op = refill ch ∧ call.answer = some (.ok (.number m)) ∧
    m - seqBatchSize < n ∧ n ≤ m

/-- Each call of IncrBy is one caller's, who takes over its numbers once; from then on they are
handed around and never copied. -/
structure Inv (s : State) : Prop where
  asked : ∀ ch i k, Asks s ch i k → ∃ call, s.redis.calls[k]? = some call ∧ call.op = refill ch
  alone : ∀ ch i j k, Asks s ch i k → Asks s ch j k → i = j
  granted : ∀ ch h n, Holds s ch h n → ∃ k, Granted s ch k n ∧ ∀ i, ¬ Asks s ch i k
  exclusive : ∀ ch, Exclusive (Holds s ch)

theorem setNext_cases {i j : Nat} {c d : Next} (found : (s.setNext i c).nexts j = some d) :
    (j = i ∧ d = c) ∨ (j ≠ i ∧ s.nexts j = some d) := by
  by_cases here : j = i
  · subst here
    simp only [State.setNext, Function.update_self, Option.some.injEq] at found
    exact Or.inl ⟨rfl, found.symm⟩
  · simp only [State.setNext, Function.update_of_ne here] at found
    exact Or.inr ⟨here, found⟩

theorem holds_setNext {i : Nat} {c : Next} {ch : String} {h : Holder} {n : Int}
    (held : Holds (s.setNext i c) ch h n) :
    (h = .call i ∧ c.channelID = ch ∧ c.phase = .returned n) ∨ (h ≠ .call i ∧ Holds s ch h n) := by
  cases h with
  | range a => exact Or.inr ⟨Holder.noConfusion, held⟩
  | call j =>
    obtain ⟨a, found⟩ := held
    rcases setNext_cases found with ⟨rfl, rfl⟩ | ⟨other, old⟩
    · exact Or.inl ⟨rfl, rfl, rfl⟩
    · exact Or.inr ⟨fun same => other (Holder.call.inj same), a, old⟩

theorem holds_setRange {a : Nat} {r : SeqRange} {ch ch' : String} {h : Holder} {n : Int}
    (held : Holds (s.setRange a ch r) ch' h n) :
    (h = .range a ∧ ch' = ch ∧ r.next ≤ n ∧ n ≤ r.max) ∨ (¬ (h = .range a ∧ ch' = ch) ∧ Holds s ch' h n) := by
  cases h with
  | call j => exact Or.inr ⟨fun both => Holder.noConfusion both.1, held⟩
  | range b =>
    obtain ⟨q, found, within⟩ := held
    by_cases here : b = a
    · subst here
      by_cases same : ch' = ch
      · subst same
        simp only [State.setRange, Function.update_self, Option.some.injEq] at found
        subst found
        exact Or.inl ⟨rfl, rfl, within⟩
      · simp only [State.setRange, Function.update_self, Function.update_of_ne same] at found
        exact Or.inr ⟨fun both => same both.2, q, found, within⟩
    · simp only [State.setRange, Function.update_of_ne here] at found
      exact Or.inr ⟨fun both => here (Holder.range.inj both.1), q, found, within⟩

theorem asks_setNext {i : Nat} {c : Next} {ch : String} {j k : Nat} (asks : Asks (s.setNext i c) ch j k) :
    (j = i ∧ c.channelID = ch ∧ c.phase = .asking k) ∨ (j ≠ i ∧ Asks s ch j k) := by
  obtain ⟨a, found⟩ := asks
  rcases setNext_cases found with ⟨rfl, rfl⟩ | ⟨other, old⟩
  · exact Or.inl ⟨rfl, rfl, rfl⟩
  · exact Or.inr ⟨other, a, old⟩

theorem Inv.settle (inv : Inv s) (redis : t.redis = s.redis) (asks : ∀ ch j k, Asks t ch j k → Asks s ch j k)
    (sources : ∀ ch h n, Holds t ch h n → (∃ k, Holds s ch k n) ∨ ∃ k, Granted s ch k n ∧ ∀ i, ¬ Asks t ch i k)
    (exclusive : ∀ ch, Exclusive (Holds t ch)) : Inv t := by
  refine ⟨?_, ?_, ?_, exclusive⟩
  · intro ch i k asked
    rw [redis]
    exact inv.asked ch i k (asks ch i k asked)
  · intro ch i j k one other
    exact inv.alone ch i j k (asks ch i k one) (asks ch j k other)
  · intro ch h n held
    simp only [Granted, redis]
    rcases sources ch h n held with ⟨holder, old⟩ | new
    · obtain ⟨k, granted, unasked⟩ := inv.granted ch holder n old
      exact ⟨k, granted, fun i asked => unasked i (asks ch i k asked)⟩
    · exact new

theorem Inv.idle (inv : Inv s) (i : Nat) {c : Next} (silent : ∀ n, c.phase ≠ .returned n)
    (quiet : ∀ k, c.phase ≠ .asking k) : Inv (s.setNext i c) := by
  have kept : ∀ ch h n, Holds (s.setNext i c) ch h n → Holds s ch h n := by
    intro ch h n held
    rcases holds_setNext held with ⟨_, _, new⟩ | ⟨_, old⟩
    · exact absurd new (silent n)
    · exact old
  refine inv.settle rfl ?_ (fun ch h n held => Or.inl ⟨h, kept ch h n held⟩) ?_
  · intro ch j k asks
    rcases asks_setNext asks with ⟨_, _, new⟩ | ⟨_, old⟩
    · exact absurd new (quiet k)
    · exact old
  · intro ch h k n one other
    exact inv.exclusive ch h k n (kept ch h n one) (kept ch k n other)

/-- A batch that an allocator got consists of integers of 64 bits, and does not end with the last of
them, where next++ would wrap around. -/
def Within (s : State) : Prop :=
  ∀ (ch : String) (k : Nat) (call : Keyed.Call Op Reply (RedisStore.Outcome Answer)) (m : Int),
    s.redis.calls[k]? = some call → call.op = refill ch → call.answer = some (.ok (.number m)) →
      IsInt64 (m - seqBatchSize) ∧ m < 2 ^ 63 - 1

theorem Inv.advance (inv : Inv s) (within : Within s) {a : Nat} {ch : String} {r : SeqRange}
    (range : s.ranges a ch = some r) (le : r.next ≤ r.max) : r.advance = ⟨r.next + 1, r.max⟩ := by
  obtain ⟨k, ⟨call, m, found, op, answer, above, below⟩, _⟩ :=
    inv.granted ch (.range a) r.next ⟨r, range, Int.le_refl _, le⟩
  obtain ⟨low, high⟩ := within ch k call m found op answer
  unfold IsInt64 at low
  rw [SeqRange.advance, wrap64_of_isInt64 ⟨by omega, by omega⟩]

theorem Inv.hit (inv : Inv s) (within : Within s) (i : Nat) {a : Nat} {ch : String} {r : SeqRange}
    (range : s.ranges a ch = some r) (le : r.next ≤ r.max)
    (after : t = (s.setRange a ch r.advance).setNext i ⟨a, ch, .returned r.next⟩) : Inv t := by
  rw [inv.advance within range le] at after
  have accounts : ∀ ch' h n, Holds t ch' h n →
      (Holds s ch' h n ∧ ¬ (h = .range a ∧ (ch' = ch ∧ n = r.next))) ∨
        (h = .call i ∧ Holds s ch' (.range a) n ∧ (ch' = ch ∧ n = r.next)) := by
    intro ch' h n held
    rw [after] at held
    rcases holds_setNext held with ⟨rfl, rfl, new⟩ | ⟨_, old⟩
    · cases Phase.returned.inj new
      exact Or.inr ⟨rfl, ⟨r, range, Int.le_refl _, le⟩, rfl, rfl⟩
    · rcases holds_setRange old with ⟨rfl, rfl, above, below⟩ | ⟨apart, old⟩
      · have above : r.next + 1 ≤ n := above
        exact Or.inl ⟨⟨r, range, by omega, below⟩, fun moved => by omega⟩
      · exact Or.inl ⟨old, fun moved => apart ⟨moved.1, moved.2.1⟩⟩
  refine inv.settle (by rw [after]; rfl) ?_ ?_ fun ch' => (inv.exclusive ch').transfer _ _ _ (accounts ch')
  · intro ch' j k asks
    rw [after] at asks
    rcases asks_setNext asks with ⟨_, _, new⟩ | ⟨_, old⟩
    · contradiction
    · exact old
  · intro ch' h n held
    rcases accounts ch' h n held with ⟨old, _⟩ | ⟨_, old, _⟩
    · exact Or.inl ⟨h, old⟩
    · exact Or.inl ⟨.range a, old⟩

def Apart (s : State) : Prop := ∀ ch k k' n, Granted s ch k n → Granted s ch k' n → k = k'

/- What is held when the call of Next has the batch, and the allocator does not have it yet. -/
def Took (s : State) (ch : String) (i : Nat) (m : Int) (ch' : String) (h : Holder) (n : Int) : Prop :=
  Holds s ch' h n ∨ (h = .call i ∧ (ch' = ch ∧ m - seqBatchSize < n ∧ n ≤ m))

theorem Inv.took (inv : Inv s) (apart : Apart s) {i k : Nat} {ch : String} {m : Int} (asking : Asks s ch i k)
    (batch : ∀ n, m - seqBatchSize < n → n ≤ m → Granted s ch k n) (ch' : String) : Exclusive (Took s ch i m ch') := by
  refine (inv.exclusive ch').fresh (.call i) (fun n => ch' = ch ∧ m - seqBatchSize < n ∧ n ≤ m) ?_
    fun _ _ held => held
  rintro h n held ⟨rfl, above, below⟩
  obtain ⟨k', granted, unasked⟩ := inv.granted ch' h n held
  cases apart ch' k k' n (batch n above below) granted
  exact unasked i asking

theorem holds_installed {i a : Nat} {ch ch' : String} {m n : Int} {h : Holder}
    (held : Holds ((s.setRange a ch ⟨m - seqBatchSize + 1 + 1, m⟩).setNext i
      ⟨a, ch, .returned (m - seqBatchSize + 1)⟩) ch' h n) :
    (Took s ch i m ch' h n ∧ ¬ (h = .call i ∧ n ≠ m - seqBatchSize + 1)) ∨
      (h = .range a ∧ Took s ch i m ch' (.call i) n ∧ n ≠ m - seqBatchSize + 1) := by
  rcases holds_setNext held with ⟨rfl, rfl, new⟩ | ⟨other, old⟩
  · cases Phase.returned.inj new
    have first : m - seqBatchSize + 1 ≤ m := by
      simp only [seqBatchSize]
      omega
    exact Or.inl ⟨Or.inr ⟨rfl, rfl, by omega, first⟩, fun moved => moved.2 rfl⟩
  · rcases holds_setRange old with ⟨rfl, rfl, above, below⟩ | ⟨_, old⟩
    · have above : m - seqBatchSize + 1 + 1 ≤ n := above
      exact Or.inr ⟨rfl, Or.inr ⟨rfl, rfl, by omega, below⟩, by omega⟩
    · exact Or.inl ⟨Or.inl old, fun moved => other moved.1⟩

theorem Inv.install (inv : Inv s) (apart : Apart s) (within : Within s) {i a k : Nat} {ch : String} {m : Int}
    (asking : s.nexts i = some ⟨a, ch, .asking k⟩) (answer : s.answer k = some (.ok (.number m)))
    (after : t = (s.setRange a ch (.opened m)).setNext i ⟨a, ch, .returned (newStart m)⟩) : Inv t := by
  obtain ⟨call, found, op⟩ := inv.asked ch i k ⟨a, asking⟩
  have answered : call.answer = some (.ok (.number m)) := by
    rw [State.answer, found] at answer
    exact answer
  have exact : newStart m = m - seqBatchSize + 1 ∧ SeqRange.opened m = ⟨m - seqBatchSize + 1 + 1, m⟩ := by
    obtain ⟨low, high⟩ := within ch k call m found op answered
    refine opened_eq low ?_
    unfold IsInt64 seqBatchSize at *
    omega
  rw [exact.1, exact.2] at after
  have batch : ∀ n, m - seqBatchSize < n → n ≤ m → Granted s ch k n :=
    fun n above below => ⟨call, m, found, op, answered, above, below⟩
  have asks : ∀ ch' j k', Asks t ch' j k' → j ≠ i ∧ Asks s ch' j k' := by
    intro ch' j k' asks
    rw [after] at asks
    rcases asks_setNext asks with ⟨_, _, new⟩ | old
    · contradiction
    · exact old
  have source : ∀ ch' h n, Took s ch i m ch' h n →
      (∃ h, Holds s ch' h n) ∨ ∃ k, Granted s ch' k n ∧ ∀ j, ¬ Asks t ch' j k := by
    rintro ch' h n (old | ⟨_, rfl, above, below⟩)
    · exact Or.inl ⟨h, old⟩
    · refine Or.inr ⟨k, batch n above below, ?_⟩
      intro j asked
      obtain ⟨other, old⟩ := asks ch' j k asked
      exact other (inv.alone ch' j i k old ⟨a, asking⟩)
  refine inv.settle (by rw [after]; rfl) (fun ch' j k' asked => (asks ch' j k' asked).2) ?_ ?_
  · intro ch' h n held
    rw [after] at held
    rcases holds_installed held with ⟨took, _⟩ | ⟨_, took, _⟩
    · exact source ch' h n took
    · exact source ch' (.call i) n took
  · intro ch'
    refine (inv.took apart ⟨a, asking⟩ batch ch').transfer (.call i) (.range a) (· ≠ m - seqBatchSize + 1) ?_
    intro h n held
    rw [after] at held
    exact holds_installed held

theorem Inv.redis (inv : Inv s) {redis : RedisStore.State (Option Cell)}
    (kept : Keyed.Continued s.redis.calls redis.calls) : Inv { s with redis } := by
  refine ⟨?_, inv.alone, ?_, inv.exclusive⟩
  · intro ch i k asks
    obtain ⟨call, found, op⟩ := inv.asked ch i k asks
    obtain ⟨call', found', same, _⟩ := kept k call found
    exact ⟨call', found', same.trans op⟩
  · intro ch h n held
    obtain ⟨k, ⟨call, m, found, op, answer, within⟩, unasked⟩ := inv.granted ch h n held
    obtain ⟨call', found', same, answers⟩ := kept k call found
    exact ⟨k, ⟨call', m, found', same.trans op, answers _ answer, within⟩, unasked⟩

theorem Inv.miss (pkg : Packages) (inv : Inv s) (i a : Nat) (ch : String) :
    Inv ((s.ask ch).setNext i ⟨a, ch, .asking s.redis.calls.length⟩) := by
  have started : Keyed.step (system pkg Command.apply) s.redis (.start (refill ch)) = some (s.ask ch).redis := rfl
  have asked : Inv (s.ask ch) := inv.redis (Keyed.step_continued started)
  have new : (s.ask ch).redis.calls[s.redis.calls.length]? = some ⟨refill ch, [], none⟩ := List.getElem?_concat_length
  have early : ∀ ch' j, ¬ Asks s ch' j s.redis.calls.length := by
    intro ch' j asks
    obtain ⟨call, found, _⟩ := inv.asked ch' j _ asks
    rw [List.getElem?_eq_none (Nat.le_refl _)] at found
    contradiction
  have kept : ∀ ch' h n, Holds ((s.ask ch).setNext i ⟨a, ch, .asking s.redis.calls.length⟩) ch' h n →
      Holds s ch' h n := by
    intro ch' h n held
    rcases holds_setNext held with ⟨_, _, other⟩ | ⟨_, old⟩
    · contradiction
    · exact old
  refine ⟨?_, ?_, ?_, ?_⟩
  · intro ch' j k asks
    rcases asks_setNext asks with ⟨_, rfl, here⟩ | ⟨_, old⟩
    · cases Phase.asking.inj here
      exact ⟨_, new, rfl⟩
    · exact asked.asked ch' j k old
  · intro ch' j j' k one other
    rcases asks_setNext one with ⟨rfl, _, here⟩ | ⟨_, old⟩
    · cases Phase.asking.inj here
      rcases asks_setNext other with ⟨rfl, _, _⟩ | ⟨_, old⟩
      · rfl
      · exact absurd old (early ch' j')
    · rcases asks_setNext other with ⟨_, _, here⟩ | ⟨_, old'⟩
      · cases Phase.asking.inj here
        exact absurd old (early ch' j)
      · exact inv.alone ch' j j' k old old'
  · intro ch' h n held
    obtain ⟨k, ⟨call, m, found, rest⟩, unasked⟩ := inv.granted ch' h n (kept ch' h n held)
    have within : k < s.redis.calls.length := (List.getElem?_eq_some_iff.mp found).1
    refine ⟨k, ⟨call, m, (List.getElem?_append_left within).trans found, rest⟩, ?_⟩
    intro j asks
    rcases asks_setNext asks with ⟨_, _, here⟩ | ⟨_, old⟩
    · cases Phase.asking.inj here
      exact Nat.lt_irrefl _ within
    · exact unasked j old
  · intro ch' h k n one other
    exact inv.exclusive ch' h k n (kept ch' h n one) (kept ch' k n other)

theorem step_inv {x : Action} (inv : Inv s) (apart : Apart s) (within : Within s) (taken : step pkg s x = some t) :
    Inv t := by
  cases step_effect taken with
  | enter => exact inv.idle _ (fun _ => Phase.noConfusion) (fun _ => Phase.noConfusion)
  | hit range le => exact inv.hit within _ range le rfl
  | miss => exact inv.miss pkg _ _ _
  | redis moved => exact inv.redis (Keyed.step_continued moved)
  | install asking answer => exact inv.install apart within asking answer rfl
  | fail => exact inv.idle _ (fun _ => Phase.noConfusion) (fun _ => Phase.noConfusion)

/- No caller takes numbers away. -/
def Allowed (op : Op) : Prop := op.Text ∧ op.Exact ∧ ∀ ch delta, op.adds ch = some delta → 0 ≤ delta

theorem refill_adds (ch : String) : (refill ch).adds ch = some seqBatchSize := by
  simp [refill, Op.adds]

theorem refill_allowed (ch : String) : Allowed (refill ch) := by
  refine ⟨trivial, trivial, ?_⟩
  intro other delta adds
  simp only [refill, Op.adds, Option.ite_none_right_eq_some, Option.some.injEq] at adds
  rw [← adds.2]
  decide

/-- The calls so far, of the allocators and of others. -/
def Reached (pkg : Packages) (redis : RedisStore.State (Option Cell)) (s : State) : Prop :=
  ∃ bs, run (Keyed.step (system pkg Command.apply)) redis bs = some s.redis ∧
    ∀ op, Keyed.Action.start op ∈ bs → Allowed op

theorem Reached.step {redis : RedisStore.State (Option Cell)} (reached : Reached pkg redis s) {x : Action}
    (allowed : ∀ op, x = .redis (.start op) → Allowed op) (taken : step pkg s x = some t) :
    Reached pkg redis t := by
  obtain ⟨bs, before, only⟩ := reached
  have more : ∀ b u, Keyed.step (system pkg Command.apply) s.redis b = some u →
      (∀ op, b = .start op → Allowed op) → ∃ bs, run (Keyed.step (system pkg Command.apply)) redis bs = some u ∧
        ∀ op, Keyed.Action.start op ∈ bs → Allowed op := by
    intro b u moved fine
    refine ⟨bs ++ [b], run_append_some.mpr ⟨_, before, run_cons_some.mpr ⟨u, moved, rfl⟩⟩, ?_⟩
    intro op listed
    rcases List.mem_append.mp listed with old | new
    · exact only op old
    · exact fine op (List.mem_singleton.mp new).symm
  cases step_effect taken with
  | enter => exact ⟨bs, before, only⟩
  | hit => exact ⟨bs, before, only⟩
  | @miss i a ch =>
    refine more (.start (refill ch)) _ rfl ?_
    rintro op ⟨⟩
    exact refill_allowed ch
  | @redis b u moved => exact more b u moved fun op same => allowed op (congrArg Action.redis same)
  | install => exact ⟨bs, before, only⟩
  | fail => exact ⟨bs, before, only⟩

/-- No allocator has a range, and no call is going on. -/
structure Start (s : State) (r : Redis) : Prop where
  idle : s.redis.calls = []
  ranges : ∀ a ch, s.ranges a ch = none
  nexts : ∀ i, s.nexts i = none
  holds : Counters s.redis.store r
  lasting : SeqAlloc.Persistent r

theorem Start.inv {r : Redis} (start : Start s r) : Inv s := by
  have unasked : ∀ ch i k, ¬ Asks s ch i k := by
    rintro ch i k ⟨a, found⟩
    cases (start.nexts i).symm.trans found
  have unheld : ∀ ch h n, ¬ Holds s ch h n := by
    intro ch h n held
    cases h with
    | range a =>
      obtain ⟨q, found, _⟩ := held
      cases (start.ranges a ch).symm.trans found
    | call i =>
      obtain ⟨a, found⟩ := held
      cases (start.nexts i).symm.trans found
  exact ⟨fun ch i k asks => absurd asks (unasked ch i k), fun ch i _ k asks => absurd asks (unasked ch i k),
    fun ch h n held => absurd held (unheld ch h n), fun ch h _ n held => absurd held (unheld ch h n)⟩

section Reached

variable {s₀ : State} {r : Redis} (start : Start s₀ r) (reached : Reached pkg s₀.redis s) {ch : String} {k k' : Nat}
  {call call' : Keyed.Call Op Reply (RedisStore.Outcome Answer)} (found : s.redis.calls[k]? = some call)
  (found' : s.redis.calls[k']? = some call') {delta delta' m m' : Int} (adds : call.op.adds ch = some delta)
  (adds' : call'.op.adds ch = some delta') (answer : call.answer = some (.ok (.number m)))
  (answer' : call'.answer = some (.ok (.number m')))
include start reached found adds answer

theorem Reached.int64 : IsInt64 (m - delta) ∧ IsInt64 m := by
  obtain ⟨bs, before, only⟩ := reached
  obtain ⟨n, numbered, entry⟩ := calls_numbered start.idle start.holds (start.lasting ch)
    (fun op listed => (only op listed).1) (fun op listed => (only op listed).2.1)
    (fun op delta listed => (only op listed).2.2 ch delta) before
  exact numbered.int64 _ (entry k call delta m found adds answer)

include found' adds' answer'

theorem Reached.apart (other : k ≠ k') : m ≤ m' - delta' ∨ m' ≤ m - delta := by
  obtain ⟨bs, before, only⟩ := reached
  obtain ⟨n, numbered, entry⟩ := calls_numbered start.idle start.holds (start.lasting ch)
    (fun op listed => (only op listed).1) (fun op listed => (only op listed).2.1)
    (fun op delta listed => (only op listed).2.2 ch delta) before
  exact numbered.apart (entry k call delta m found adds answer) (entry k' call' delta' m' found' adds' answer') other

end Reached

/-- No batch of an allocator ends with the last integer of 64 bits. -/
def Unfilled (s : State) : Prop :=
  ∀ call ∈ s.redis.calls, ∀ ch, call.op = refill ch → call.answer ≠ some (.ok (.number (2 ^ 63 - 1)))

theorem Reached.granted_apart {s₀ : State} {r : Redis} (start : Start s₀ r) (reached : Reached pkg s₀.redis s) :
    Apart s := by
  rintro ch k k' n ⟨call, m, found, op, answer, above, below⟩ ⟨call', m', found', op', answer', above', below'⟩
  by_contra other
  rcases reached.apart start found found' (op ▸ refill_adds ch) (op' ▸ refill_adds ch) answer answer' other with
    first | second
  · omega
  · omega

theorem Reached.within {s₀ : State} {r : Redis} (start : Start s₀ r) (reached : Reached pkg s₀.redis s)
    (unfilled : Unfilled s) : Within s := by
  intro ch k call m found op answer
  obtain ⟨low, high⟩ := reached.int64 start found (op ▸ refill_adds ch) answer
  refine ⟨low, ?_⟩
  have last : m ≠ 2 ^ 63 - 1 := by
    rintro rfl
    exact unfilled call (List.mem_of_getElem? found) ch op answer
  unfold IsInt64 at high
  omega

theorem step_continued {x : Action} (taken : step pkg s x = some t) :
    Keyed.Continued s.redis.calls t.redis.calls := by
  have same : Keyed.Continued s.redis.calls s.redis.calls :=
    fun k call found => ⟨call, found, rfl, fun _ given => given⟩
  cases step_effect taken with
  | @miss i a ch =>
    have started : Keyed.step (system pkg Command.apply) s.redis (.start (refill ch)) = some (s.ask ch).redis := rfl
    exact Keyed.step_continued started
  | redis moved => exact Keyed.step_continued moved
  | _ => exact same

theorem Unfilled.before {x : Action} (unfilled : Unfilled t) (taken : step pkg s x = some t) : Unfilled s := by
  intro call member ch op answer
  obtain ⟨k, found⟩ := List.mem_iff_getElem?.mp member
  obtain ⟨call', found', same, kept⟩ := step_continued taken k call found
  exact unfilled call' (List.mem_of_getElem? found') ch (same.trans op) (kept _ answer)

theorem run_inv {s₀ : State} {r : Redis} (start : Start s₀ r) {xs : List Action}
    (allowed : ∀ op, .redis (.start op) ∈ xs → Allowed op) (taken : run (step pkg) s₀ xs = some t)
    (unfilled : Unfilled t) : Inv t ∧ Reached pkg s₀.redis t := by
  have guarded : Meets (step pkg) (fun _ x => ∀ op, x = .redis (.start op) → Allowed op) s₀ xs :=
    (meets_true s₀ xs).imp fun _ x member _ op same => allowed op (same ▸ member)
  have run := run_invariant_meets (fun s => (Unfilled s → Inv s) ∧ Reached pkg s₀.redis s) ?_
    ⟨fun _ => start.inv, [], rfl, fun _ none => nomatch none⟩ guarded taken
  · exact ⟨run.1 unfilled, run.2⟩
  · rintro s x t ⟨inv, reached⟩ fine moved
    refine ⟨?_, reached.step fine moved⟩
    intro unfilled
    have before := unfilled.before moved
    exact step_inv (inv before) (reached.granted_apart start) (reached.within start before) moved

def Returned (s : State) (ch : String) (i : Nat) (n : Int) : Prop := ∃ a, s.nexts i = some ⟨a, ch, .returned n⟩

/-- However the calls of Next of all servers and all other calls of RedisStore are mixed, resent and
lost: no number of a channel is returned twice, and each is one that a call of IncrBy reserved for
an allocator and no other call of IncrBy or NextSeq got. -/
theorem next_distinct_over_calls (s₀ s : State) (r : Redis) (start : Start s₀ r) (xs : List Action)
    (allowed : ∀ op, .redis (.start op) ∈ xs → Allowed op) (taken : run (step pkg) s₀ xs = some s)
    (unfilled : Unfilled s) :
    (∀ ch i j n, Returned s ch i n → Returned s ch j n → i = j) ∧
    ∀ ch i n, Returned s ch i n → ∃ k, Granted s ch k n ∧ ∀ k' call delta m, k' ≠ k →
      s.redis.calls[k']? = some call → call.op.adds ch = some delta →
      call.answer = some (.ok (.number m)) → ¬ (m - delta < n ∧ n ≤ m) := by
  obtain ⟨inv, reached⟩ := run_inv start allowed taken unfilled
  refine ⟨?_, ?_⟩
  · intro ch i j n one other
    exact Holder.call.inj (inv.exclusive ch (.call i) (.call j) n one other)
  · intro ch i n returned
    obtain ⟨k, granted, _⟩ := inv.granted ch (.call i) n returned
    refine ⟨k, granted, ?_⟩
    obtain ⟨call, m, found, op, answer, above, below⟩ := granted
    rintro k' call' delta m' other found' adds answer' ⟨above', below'⟩
    rcases reached.apart start found' found adds (op ▸ refill_adds ch) answer' answer other with first | second
    · omega
    · omega

def began : State := ⟨RedisStore.empty, fun _ _ => none, fun _ => none⟩

theorem began_start : Start began ⟨fun _ => none⟩ where
  idle := rfl
  ranges _ _ := rfl
  nexts _ := rfl
  holds := nothing_counted
  lasting ch e held := by contradiction

/- The first reservation is executed, sent again and executed behind that of another server. -/
def resentRefill : List Action :=
  [.enter 0 1 "world", .lookup 0, .redis (.serve 0), .redis (.resend 0), .enter 1 2 "world", .lookup 1,
    .redis (.serve 1), .redis (.serve 0), .redis (.answer 1), .redis (.answer 0), .install 0, .install 1,
    .enter 2 1 "world", .lookup 2]

theorem next_distinct_over_calls_resent : ∃ s, run (step decimalPackages) began resentRefill = some s ∧
    Returned s "world" 0 2001 ∧ Returned s "world" 1 1001 ∧ Returned s "world" 2 2002 ∧
    ∀ i, Returned s "world" i 2002 → i = 2 := by
  have done : (run (step decimalPackages) began resentRefill).map
      (fun s => ((s.nexts 0, s.nexts 1, s.nexts 2), s.redis.calls.map fun call => returned asNumber call.answer)) =
        some ((some ⟨1, "world", .returned 2001⟩, some ⟨2, "world", .returned 1001⟩,
          some ⟨1, "world", .returned 2002⟩), [some 3000, some 2000]) := by decide +kernel
  obtain ⟨s, taken, seen⟩ := Option.map_eq_some_iff.mp done
  simp only [Prod.mk.injEq] at seen
  obtain ⟨⟨first, second, third⟩, answers⟩ := seen
  have allowed : ∀ op, .redis (.start op) ∈ resentRefill → Allowed op := by
    intro op listed
    simp [resentRefill] at listed
  have unfilled : Unfilled s := by
    intro call member ch _ answer
    have listed := List.mem_map_of_mem (f := fun call => returned asNumber call.answer) member
    rw [answers, answer] at listed
    exact absurd listed (by decide)
  have distinct := (next_distinct_over_calls began s _ began_start resentRefill allowed taken unfilled).1
  refine ⟨s, taken, ⟨1, first⟩, ⟨2, second⟩, ⟨1, third⟩, ?_⟩
  intro i returned
  exact distinct "world" i 2 2002 returned ⟨1, third⟩

section Allocators

variable {u v : SeqAlloc.State}

/-- Where a call of Next is, with its call of IncrBy among those of RedisStore. -/
inductive Waits (asked : List (Keyed.Call Op Reply (RedisStore.Outcome Answer))) (ch : String) :
    SeqAlloc.Phase → Phase → Prop where
  | entered : Waits asked ch .entered .entered
  | refill {k} : asked[k]? = some ⟨refill ch, [], none⟩ → Waits asked ch .refill (.asking k)
  | reserved {k call m} : asked[k]? = some call → call.answer = some (.ok (.number m)) →
      Waits asked ch (.reserved m) (.asking k)
  | returned {n} : Waits asked ch (.returned n) (.returned n)
  | failed : Waits asked ch .failed .failed

theorem Waits.keep {asked asked' : List (Keyed.Call Op Reply (RedisStore.Outcome Answer))} {ch : String}
    {q : SeqAlloc.Phase} {p : Phase} (waits : Waits asked ch q p)
    (kept : ∀ k, p = .asking k → ∀ call, asked[k]? = some call → asked'[k]? = some call) : Waits asked' ch q p := by
  cases waits with
  | entered => exact .entered
  | refill found => exact .refill (kept _ rfl _ found)
  | reserved found answer => exact .reserved (kept _ rfl _ found) answer
  | returned => exact .returned
  | failed => exact .failed

/-- The calls of Next are those of SeqAlloc, and no two wait for one call of IncrBy. -/
structure Paired (calls : Nat → Option SeqAlloc.Call) (nexts : Nat → Option Next)
    (asked : List (Keyed.Call Op Reply (RedisStore.Outcome Answer))) : Prop where
  free : ∀ i, calls i = none → nexts i = none
  there : ∀ i a ch q, calls i = some ⟨a, ch, q⟩ → ∃ p, nexts i = some ⟨a, ch, p⟩ ∧ Waits asked ch q p
  apart : ∀ i j a b ch ch' k, nexts i = some ⟨a, ch, .asking k⟩ → nexts j = some ⟨b, ch', .asking k⟩ → i = j

section Paired

variable {calls : Nat → Option SeqAlloc.Call} {nexts : Nat → Option Next}
  {asked asked' : List (Keyed.Call Op Reply (RedisStore.Outcome Answer))}

theorem Paired.set (paired : Paired calls nexts asked) (i a : Nat) {ch : String} {q : SeqAlloc.Phase} {p : Phase}
    (kept : ∀ j b ch' k, j ≠ i → nexts j = some ⟨b, ch', .asking k⟩ → (∀ call, asked[k]? = some call →
      asked'[k]? = some call) ∧ p ≠ .asking k) (waits : Waits asked' ch q p) :
    Paired (Function.update calls i (some ⟨a, ch, q⟩)) (Function.update nexts i (some ⟨a, ch, p⟩)) asked' := by
  refine ⟨?_, ?_, ?_⟩
  · intro j none
    by_cases here : j = i
    · subst here
      rw [Function.update_self] at none
      contradiction
    · rw [Function.update_of_ne here] at none ⊢
      exact paired.free j none
  · intro j b ch' q' found
    by_cases here : j = i
    · subst here
      rw [Function.update_self] at found ⊢
      cases Option.some.inj found
      exact ⟨p, rfl, waits⟩
    · rw [Function.update_of_ne here] at found ⊢
      obtain ⟨p', next, old⟩ := paired.there j b ch' q' found
      refine ⟨p', next, old.keep ?_⟩
      rintro k rfl
      exact (kept j b ch' k here next).1
  · intro j j' b b' ch' ch'' k one other
    by_cases here : j = i
    · by_cases there : j' = i
      · exact here.trans there.symm
      · subst here
        rw [Function.update_self] at one
        rw [Function.update_of_ne there] at other
        cases Option.some.inj one
        exact absurd rfl (kept j' b' ch'' k there other).2
    · by_cases there : j' = i
      · subst there
        rw [Function.update_self] at other
        rw [Function.update_of_ne here] at one
        cases Option.some.inj other
        exact absurd rfl (kept j b ch' k here one).2
      · rw [Function.update_of_ne here] at one
        rw [Function.update_of_ne there] at other
        exact paired.apart j j' b b' ch' ch'' k one other

theorem Paired.quiet (paired : Paired calls nexts asked) (i a : Nat) {ch : String} {q : SeqAlloc.Phase} {p : Phase}
    (quiet : ∀ k, p ≠ .asking k) (waits : Waits asked ch q p) :
    Paired (Function.update calls i (some ⟨a, ch, q⟩)) (Function.update nexts i (some ⟨a, ch, p⟩)) asked :=
  paired.set i a (fun _ _ _ k _ _ => ⟨fun _ found => found, quiet k⟩) waits

theorem Paired.within (paired : Paired calls nexts asked) {i a k : Nat} {ch : String}
    (next : nexts i = some ⟨a, ch, .asking k⟩) : k < asked.length := by
  cases found : calls i with
  | none =>
    rw [paired.free i found] at next
    contradiction
  | some c =>
    obtain ⟨b, other, q⟩ := c
    obtain ⟨p, same, waits⟩ := paired.there i b other q found
    cases Option.some.inj (next.symm.trans same)
    cases waits with
    | refill found => exact (List.getElem?_eq_some_iff.mp found).1
    | reserved found answer => exact (List.getElem?_eq_some_iff.mp found).1

theorem Paired.others (paired : Paired calls nexts asked) {i a k : Nat} {ch : String}
    (next : nexts i = some ⟨a, ch, .asking k⟩) (call : Keyed.Call Op Reply (RedisStore.Outcome Answer)) (j b : Nat)
    (ch' : String) (k' : Nat) (other : j ≠ i) (waiting : nexts j = some ⟨b, ch', .asking k'⟩) :
    k ≠ k' ∧ ∀ call', asked[k']? = some call' → (asked.set k call)[k']? = some call' := by
  have ne : k ≠ k' := by
    rintro rfl
    exact other (paired.apart j i b a ch' ch k waiting next)
  exact ⟨ne, fun _ found => (List.getElem?_set_ne ne).trans found⟩

theorem Paired.answered (paired : Paired calls nexts asked) {i a k : Nat} {ch : String} {q : SeqAlloc.Phase}
    (next : nexts i = some ⟨a, ch, .asking k⟩) (call : Keyed.Call Op Reply (RedisStore.Outcome Answer))
    (waits : Waits (asked.set k call) ch q (.asking k)) :
    Paired (Function.update calls i (some ⟨a, ch, q⟩)) nexts (asked.set k call) := by
  have same : Function.update nexts i (some ⟨a, ch, .asking k⟩) = nexts := by
    rw [← next, Function.update_eq_self]
  rw [← same]
  refine paired.set i a ?_ waits
  intro j b ch' k' other waiting
  obtain ⟨ne, kept⟩ := paired.others next call j b ch' k' other waiting
  exact ⟨kept, fun same => ne (Phase.asking.inj same)⟩

theorem Paired.failed (paired : Paired calls nexts asked) {i a k : Nat} {ch : String}
    (next : nexts i = some ⟨a, ch, .asking k⟩) (call : Keyed.Call Op Reply (RedisStore.Outcome Answer)) :
    Paired (Function.update calls i (some ⟨a, ch, .failed⟩)) (Function.update nexts i (some ⟨a, ch, .failed⟩))
      (asked.set k call) := by
  refine paired.set i a ?_ .failed
  intro j b ch' k' other waiting
  exact ⟨(paired.others next call j b ch' k' other waiting).2, Phase.noConfusion⟩

end Paired

structure Shows (u : SeqAlloc.State) (s : State) : Prop where
  now : s.redis.now = u.now
  counters : Counters s.redis.store u.redis
  ranges : s.ranges = u.ranges
  paired : Paired u.calls s.nexts s.redis.calls

theorem run_redis {redis : RedisStore.State (Option Cell)} {bs : List RedisStore.Action}
    (taken : run (Keyed.step (system pkg Command.apply)) s.redis bs = some redis) :
    run (step pkg) s (bs.map .redis) = some { s with redis } := by
  induction bs generalizing s with
  | nil =>
    cases Option.some.inj taken
    rfl
  | cons b rest ih =>
    obtain ⟨next, moved, more⟩ := run_cons_some.mp taken
    refine run_cons_some.mpr ⟨{ s with redis := next }, ?_, ih more⟩
    rw [step, moved]
    rfl

/- The reservation of SeqAlloc is one execution, and its answer. -/
theorem served_imitated (shows : Shows u s) {k : Nat} {ch : String}
    (found : s.redis.calls[k]? = some ⟨refill ch, [], none⟩) : ∃ redis call,
      run (step pkg) s [.redis (.serve k), .redis (.answer k)] = some { s with redis } ∧ redis.now = u.now ∧
      Counters redis.store (u.redis.incrBy u.now ch seqBatchSize).2 ∧ redis.calls = s.redis.calls.set k call ∧
      call.answer = some ((orRefused overflow (u.redis.incrBy u.now ch seqBatchSize).1).map .number) := by
  obtain ⟨script, batch, acts⟩ : Refines (fun _ => Counters) ((refill ch).request pkg) _ :=
    answered_refines (incrBy_refines ch seqBatchSize)
  obtain ⟨read, after⟩ := acts s.redis.now s.redis.store u.redis shows.counters
  have served : run (step pkg) s ([.serve k, .answer k].map .redis) = some _ :=
    run_redis (Keyed.run_served batch found rfl)
  rw [← shows.now]
  exact ⟨_, _, served, rfl, after, rfl, congrArg some read⟩

theorem reserve_imitated (shows : Shows u s) {i a : Nat} {ch : String} {m : Int}
    (call : u.calls i = some ⟨a, ch, .refill⟩) (reply : (u.redis.incrBy u.now ch seqBatchSize).1 = some m) :
    ∃ xs s', run (step pkg) s xs = some s' ∧
      Shows ({ u with redis := (u.redis.incrBy u.now ch seqBatchSize).2 }.setCall i ⟨a, ch, .reserved m⟩) s' := by
  obtain ⟨_, next, waits⟩ := shows.paired.there i a ch .refill call
  cases waits with
  | @refill k found =>
    obtain ⟨redis, done, served, now, after, calls, answer⟩ := served_imitated shows found
    have within := (List.getElem?_eq_some_iff.mp found).1
    refine ⟨_, _, served, now, after, shows.ranges, ?_⟩
    rw [reply] at answer
    simp only [calls]
    exact shows.paired.answered next done (.reserved (List.getElem?_set_self within) answer)

theorem refused_imitated (shows : Shows u s) {i a : Nat} {ch : String} (call : u.calls i = some ⟨a, ch, .refill⟩)
    (reply : (u.redis.incrBy u.now ch seqBatchSize).1 = none) :
    ∃ xs s', run (step pkg) s xs = some s' ∧ Shows (u.setCall i ⟨a, ch, .failed⟩) s' := by
  obtain ⟨_, next, waits⟩ := shows.paired.there i a ch .refill call
  cases waits with
  | @refill k found =>
    obtain ⟨redis, done, served, now, after, calls, answer⟩ := served_imitated shows found
    have within := (List.getElem?_eq_some_iff.mp found).1
    rw [reply] at answer
    rw [SeqAlloc.incrBy_refused reply] at after
    have given : State.answer { s with redis } k = some (.error (.server overflow)) := by
      simp only [State.answer, calls, List.getElem?_set_self within, Option.bind_some, answer]
      rfl
    refine ⟨[.redis (.serve k), .redis (.answer k)] ++ [.install i], State.setNext { s with redis } i ⟨a, ch, .failed⟩,
      run_append_some.mpr ⟨_, served, run_cons_some.mpr ⟨_, ?_, rfl⟩⟩, now, after, shows.ranges, ?_⟩
    · simp only [step, next, given]
    · simp only [State.setNext, calls]
      exact shows.paired.failed next done

theorem fail_imitated (shows : Shows u s) {i a : Nat} {ch : String} (call : u.calls i = some ⟨a, ch, .refill⟩) :
    ∃ xs s', run (step pkg) s xs = some s' ∧ Shows (u.setCall i ⟨a, ch, .failed⟩) s' := by
  obtain ⟨_, next, waits⟩ := shows.paired.there i a ch .refill call
  cases waits with
  | @refill k found =>
    have within := (List.getElem?_eq_some_iff.mp found).1
    have waiting : s.redis.waiting k = some ⟨refill ch, [], none⟩ := by
      rw [Keyed.State.waiting, found]
      rfl
    -- the connection is lost before the request is executed
    let lost : Keyed.Call Op Reply (RedisStore.Outcome Answer) := ⟨refill ch, [], some (.error (.network []))⟩
    have failed : step pkg s (.redis (.fail k 0 [])) = some { s with redis := s.redis.setCall k lost } := by
      rw [step, Keyed.step, waiting]
      rfl
    have given : State.answer { s with redis := s.redis.setCall k lost } k = some (.error (.network [])) := by
      simp only [State.answer, Keyed.State.setCall, List.getElem?_set_self within, Option.bind_some, lost]
    refine ⟨[.redis (.fail k 0 []), .install i],
      State.setNext { s with redis := s.redis.setCall k lost } i ⟨a, ch, .failed⟩,
      run_cons_some.mpr ⟨_, failed, run_cons_some.mpr ⟨_, ?_, rfl⟩⟩, shows.now, shows.counters, shows.ranges, ?_⟩
    · simp only [step, next, given]
    · exact shows.paired.failed next lost

theorem alloc_imitated (u : SeqAlloc.State) (x : SeqAlloc.Action) (v : SeqAlloc.State) (s : State) (shows : Shows u s)
    (taken : SeqAlloc.step u x = some v) : ∃ xs s', run (step pkg) s xs = some s' ∧ Shows v s' := by
  have one : ∀ {x s'}, step pkg s x = some s' → run (step pkg) s [x] = some s' :=
    fun moved => run_cons_some.mpr ⟨_, moved, rfl⟩
  cases SeqAlloc.step_effect taken with
  | @enter i a ch free =>
    refine ⟨[.enter i a ch], s.setNext i ⟨a, ch, .entered⟩, one ?_, shows.now, shows.counters, shows.ranges,
      shows.paired.quiet i a (fun _ => Phase.noConfusion) .entered⟩
    simp only [step, shows.paired.free i free]
  | @hit i a ch r call range le =>
    obtain ⟨_, next, waits⟩ := shows.paired.there i a ch .entered call
    cases waits
    refine ⟨[.lookup i], (s.setRange a ch r.advance).setNext i ⟨a, ch, .returned r.next⟩, one ?_,
      shows.now, shows.counters, ?_, shows.paired.quiet i a (fun _ => Phase.noConfusion) .returned⟩
    · simp only [step, next, shows.ranges, range, if_pos le]
    · simp only [State.setRange, State.setNext, SeqAlloc.State.setRange, SeqAlloc.State.setCall, shows.ranges]
  | @miss i a ch call spent =>
    obtain ⟨_, next, waits⟩ := shows.paired.there i a ch .entered call
    cases waits
    refine ⟨[.lookup i], (s.ask ch).setNext i ⟨a, ch, .asking s.redis.calls.length⟩, one ?_, shows.now,
      shows.counters, shows.ranges, shows.paired.set i a ?_ (.refill List.getElem?_concat_length)⟩
    · cases range : u.ranges a ch with
      | none => simp only [step, next, shows.ranges, range]
      | some r =>
        have more := spent r range
        simp only [step, next, shows.ranges, range, if_neg (Int.not_le.mpr more)]
    · intro j b ch' k _ waiting
      have within := shows.paired.within waiting
      refine ⟨fun call found => (List.getElem?_append_left within).trans found, ?_⟩
      intro same
      exact Nat.lt_irrefl _ (Phase.asking.inj same ▸ within)
  | @incrBy i a ch m call reply => exact reserve_imitated shows call reply
  | @refused i a ch call reply => exact refused_imitated shows call reply
  | @fails i a ch call => exact fail_imitated shows call
  | @install i a ch m call =>
    obtain ⟨_, next, waits⟩ := shows.paired.there i a ch (.reserved m) call
    cases waits with
    | @reserved k done _ found answer =>
      refine ⟨[.install i], (s.setRange a ch (.opened m)).setNext i ⟨a, ch, .returned (newStart m)⟩, one ?_, shows.now,
        shows.counters, ?_, shows.paired.quiet i a (fun _ => Phase.noConfusion) .returned⟩
      · have given : s.answer k = some (.ok (.number m)) := by
          rw [State.answer, found]
          exact answer
        simp only [step, next, given]
      · simp only [State.setRange, State.setNext, SeqAlloc.State.setRange, SeqAlloc.State.setCall, shows.ranges]
  | @tick ms =>
    refine ⟨[.redis (.tick ms)], { s with redis := { s.redis with now := s.redis.now + ms } }, one rfl, ?_,
      shows.counters, shows.ranges, shows.paired⟩
    exact congrArg (· + ms) shows.now

/-- A run of the allocators on the model of Redis is one on the keyspace, where every reservation is
executed once and answered, or lost before. -/
theorem alloc_on_calls {r : Redis} (start : Start s r) {bs : List SeqAlloc.Action}
    (taken : run SeqAlloc.step ⟨s.redis.now, r, fun _ _ => none, fun _ => none⟩ bs = some v) :
    ∃ xs t, run (step pkg) s xs = some t ∧ Shows v t := by
  refine run_simulates Shows alloc_imitated ⟨rfl, start.holds, ?_, ?_, ?_, ?_⟩ taken
  · funext a ch
    exact start.ranges a ch
  · exact fun i _ => start.nexts i
  · intro i a ch q none
    contradiction
  · intro i j a b ch ch' k one
    cases (start.nexts i).symm.trans one

end Allocators

end GameIM.Service.SeqCalls
