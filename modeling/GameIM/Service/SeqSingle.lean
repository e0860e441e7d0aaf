import GameIM.Service.SeqAlloc

/-! The numbers of one channel when one call of Next at a time asks for them, all on one
server: they come one after the other, across batches, and a step draws none or the next. -/
namespace GameIM.Service.SeqAlloc
open GameIM.Lib GameIM.Store

def Phase.busy : Phase → Bool
  | .entered => true
  | .refill => true
  | .reserved _ => true
  | _ => false

def Fits (range : Option SeqRange) (counter n : Int) : Prop :=
  match range with
  | some r => r.next = n ∧ r.max = counter ∧ n ≤ counter + 1
  | none => n = counter + 1

/-- One call of Next at a time for the channel, all on one server: n is the number that
comes next. -/
structure Single (a : Nat) (ch : String) (n : Int) (s : State) : Prop where
  inv : Inv s
  own : ∀ i b p, s.calls i = some ⟨b, ch, p⟩ → b = a
  alone : ∀ i j p q, s.calls i = some ⟨a, ch, p⟩ → s.calls j = some ⟨a, ch, q⟩ → p.busy = true →
    q.busy = true → i = j
  settled : (∀ i m, s.calls i ≠ some ⟨a, ch, .reserved m⟩) → Fits (s.ranges a ch) (s.counter ch) n
  reserved : ∀ i m, s.calls i = some ⟨a, ch, .reserved m⟩ →
    m - seqBatchSize + 1 = n ∧ s.counter ch = m
  exhausted : ∀ i, s.calls i = some ⟨a, ch, .refill⟩ → n = s.counter ch + 1

/-- What a step does to the numbers of the channel: none is drawn, or the next one is. -/
inductive Draws (a : Nat) (ch : String) (n : Int) (s t : State) : Prop where
  | none : Single a ch n t →
      (∀ j v, t.calls j = some ⟨a, ch, .returned v⟩ → s.calls j = some ⟨a, ch, .returned v⟩) →
      Draws a ch n s t
  | one {i p} : s.calls i = some ⟨a, ch, p⟩ → p.busy = true → Single a ch (n + 1) t →
      t.calls i = some ⟨a, ch, .returned n⟩ → Draws a ch n s t

section Single

variable {a : Nat} {ch : String} {n : Int} {s t : State}

theorem Single.frame (h : Single a ch n s) (inv : Inv t)
    (calls : ∀ i b p, t.calls i = some ⟨b, ch, p⟩ ↔ s.calls i = some ⟨b, ch, p⟩)
    (ranges : t.ranges a ch = s.ranges a ch) (counter : t.counter ch = s.counter ch) :
    Single a ch n t := by
  constructor
  · exact inv
  · intro i b p call
    exact h.own i b p ((calls i b p).mp call)
  · intro i j p q ci cj
    exact h.alone i j p q ((calls _ _ _).mp ci) ((calls _ _ _).mp cj)
  · intro free
    rw [ranges, counter]
    exact h.settled fun i m call => free i m ((calls _ _ _).mpr call)
  · intro i m call
    rw [counter]
    exact h.reserved i m ((calls _ _ _).mp call)
  · intro i call
    rw [counter]
    exact h.exhausted i ((calls _ _ _).mp call)

theorem foreign_calls {u : State} {k b : Nat} {other : String} {p : Phase} (ne : other ≠ ch)
    (before : ∀ c q, s.calls k ≠ some ⟨c, ch, q⟩) (same : u.calls = s.calls) (i c : Nat) (q : Phase) :
    (u.setCall k ⟨b, other, p⟩).calls i = some ⟨c, ch, q⟩ ↔ s.calls i = some ⟨c, ch, q⟩ := by
  by_cases hi : i = k
  · subst hi
    constructor
    · intro call
      rw [setCall_calls_same] at call
      cases Option.some.inj call
      exact absurd rfl ne
    · intro call
      exact absurd call (before c q)
  · rw [setCall_calls_ne _ _ hi, same]

theorem Single.put {N : Int} {i : Nat} {u : State} {q : Phase} (h : Single a ch n s)
    (only : ∀ j r, j ≠ i → s.calls j = some ⟨a, ch, r⟩ → r.busy = false) (same : u.calls = s.calls)
    (inv : Inv (u.setCall i ⟨a, ch, q⟩))
    (settled : (∀ m, q ≠ .reserved m) → Fits (u.ranges a ch) (u.counter ch) N)
    (reserved : ∀ m, q = .reserved m → m - seqBatchSize + 1 = N ∧ u.counter ch = m)
    (exhausted : q = .refill → N = u.counter ch + 1) : Single a ch N (u.setCall i ⟨a, ch, q⟩) := by
  have old : ∀ {j b r}, (u.setCall i ⟨a, ch, q⟩).calls j = some ⟨b, ch, r⟩ →
      (j = i ∧ b = a ∧ r = q) ∨ (j ≠ i ∧ s.calls j = some ⟨b, ch, r⟩) := by
    intro j b r call
    rcases setCall_calls_cases call with ⟨rfl, eq⟩ | ⟨ne, kept⟩
    · cases eq
      exact Or.inl ⟨rfl, rfl, rfl⟩
    · exact Or.inr ⟨ne, same ▸ kept⟩
  constructor
  · exact inv
  · intro j b r call
    rcases old call with ⟨_, rfl, _⟩ | ⟨_, kept⟩
    · rfl
    · exact h.own j b r kept
  · intro j k r t cj ck busyj busyk
    have here : ∀ {l v}, (u.setCall i ⟨a, ch, q⟩).calls l = some ⟨a, ch, v⟩ → v.busy = true → l = i := by
      intro l v call busy
      rcases old call with ⟨rfl, _⟩ | ⟨ne, kept⟩
      · rfl
      · exact absurd busy (by simp [only l v ne kept])
    rw [here cj busyj, here ck busyk]
  · intro free
    refine settled fun m eq => free i m ?_
    rw [setCall_calls_same, eq]
  · intro j m call
    rcases old call with ⟨_, _, eq⟩ | ⟨ne, kept⟩
    · exact reserved m eq.symm
    · exact absurd (only j _ ne kept) (by simp [Phase.busy])
  · intro j call
    rcases old call with ⟨_, _, eq⟩ | ⟨ne, kept⟩
    · exact exhausted eq.symm
    · exact absurd (only j _ ne kept) (by simp [Phase.busy])

theorem Single.only (h : Single a ch n s) {i : Nat} {p : Phase} (call : s.calls i = some ⟨a, ch, p⟩)
    (busy : p.busy = true) : ∀ j r, j ≠ i → s.calls j = some ⟨a, ch, r⟩ → r.busy = false := by
  intro j r ne other
  cases hr : r.busy with
  | false => rfl
  | true => exact absurd (h.alone i j p r call other busy hr).symm ne

theorem Single.fits (h : Single a ch n s) {i : Nat} {p : Phase} (call : s.calls i = some ⟨a, ch, p⟩)
    (busy : p.busy = true) (unreserved : ∀ m, p ≠ .reserved m) :
    Fits (s.ranges a ch) (s.counter ch) n := by
  refine h.settled ?_
  intro j m other
  have same := h.alone i j p _ call other busy rfl
  subst same
  cases Option.some.inj (call.symm.trans other)
  exact unreserved m rfl

theorem fits_exhausted {range : Option SeqRange} {counter : Int} (fits : Fits range counter n)
    (empty : ∀ r, range = some r → r.max < r.next) : n = counter + 1 := by
  cases range with
  | none => exact fits
  | some r =>
    have passed := empty r rfl
    obtain ⟨next, max, le⟩ := fits
    omega

theorem put_returned {u : State} {i : Nat} {q : Phase} (same : u.calls = s.calls)
    (unfinished : ∀ v, q ≠ .returned v) (j : Nat) (v : Int)
    (call : (u.setCall i ⟨a, ch, q⟩).calls j = some ⟨a, ch, .returned v⟩) :
    s.calls j = some ⟨a, ch, .returned v⟩ := by
  rcases setCall_calls_cases call with ⟨_, eq⟩ | ⟨_, kept⟩
  · exact absurd (congrArg Call.phase eq).symm (unfinished v)
  · exact same ▸ kept

theorem Single.foreign (h : Single a ch n s) {u : State} {k b : Nat} {other : String} {q : Phase}
    (ne : other ≠ ch) (before : ∀ c r, s.calls k ≠ some ⟨c, ch, r⟩) (same : u.calls = s.calls)
    (inv : Inv (u.setCall k ⟨b, other, q⟩)) (ranges : u.ranges a ch = s.ranges a ch)
    (counter : u.counter ch = s.counter ch) : Draws a ch n s (u.setCall k ⟨b, other, q⟩) := by
  have calls := foreign_calls (s := s) (b := b) (p := q) ne before same
  refine .none (h.frame inv calls ranges counter) ?_
  intro j v call
  exact (calls j a _).mp call

theorem Single.entered_own (h : Single a ch n s) {k : Nat}
    (quiet : ∀ j r, s.calls j = some ⟨a, ch, r⟩ → r.busy = false) :
    Draws a ch n s (s.setCall k ⟨a, ch, .entered⟩) := by
  refine .none (h.put (fun j r _ call => quiet j r call) rfl (h.inv.idle _ _ (fun _ held => held)) ?_ (by simp)
    (by simp))
    (put_returned rfl (by simp))
  intro _
  refine h.settled ?_
  intro j m call
  exact absurd (quiet j _ call) (by simp [Phase.busy])

theorem Single.hit_own (h : Single a ch n s) {k : Nat} {r : SeqRange}
    (call : s.calls k = some ⟨a, ch, .entered⟩) (range : s.ranges a ch = some r) (le : r.next ≤ r.max) :
    Draws a ch n s ((s.setRange a ch r.advance).setCall k ⟨a, ch, .returned r.next⟩) := by
  have inv := h.inv.hit (i := k) range le
  rw [h.inv.advance range le] at inv ⊢
  have fits := h.fits call rfl (by simp)
  rw [range] at fits
  obtain ⟨next, max, most⟩ := fits
  refine .one call rfl ?_ (by rw [setCall_calls_same, next])
  refine h.put (h.only call rfl) rfl inv ?_ (by simp) (by simp)
  intro _
  rw [setRange_ranges_same]
  exact ⟨by simp only [next], max, by change n + 1 ≤ s.counter ch + 1; omega⟩

theorem Single.miss_own (h : Single a ch n s) {k : Nat} (call : s.calls k = some ⟨a, ch, .entered⟩)
    (empty : ∀ r, s.ranges a ch = some r → r.max < r.next) :
    Draws a ch n s (s.setCall k ⟨a, ch, .refill⟩) := by
  have fits := h.fits call rfl (by simp)
  have used := fits_exhausted fits empty
  have inv := h.inv.idle k ⟨a, ch, .refill⟩ (fun _ held => held)
  exact .none (h.put (h.only call rfl) rfl inv (fun _ => fits) (by simp) (fun _ => used))
    (put_returned rfl (by simp))

theorem Single.refused_own (h : Single a ch n s) {k : Nat} (call : s.calls k = some ⟨a, ch, .refill⟩) :
    Draws a ch n s (s.setCall k ⟨a, ch, .failed⟩) := by
  have fits := h.fits call rfl (by simp)
  have inv := h.inv.idle k ⟨a, ch, .failed⟩ (fun _ held => held)
  exact .none (h.put (h.only call rfl) rfl inv (fun _ => fits) (by simp) (by simp)) (put_returned rfl (by simp))

theorem Single.incrBy_own (h : Single a ch n s) {k : Nat} {m : Int} (call : s.calls k = some ⟨a, ch, .refill⟩)
    (reply : (s.redis.incrBy s.now ch seqBatchSize).1 = some m) :
    Draws a ch n s (State.setCall { s with redis := (s.redis.incrBy s.now ch seqBatchSize).2 } k
      ⟨a, ch, .reserved m⟩) := by
  have used := h.exhausted k call
  have counter : State.counter { s with redis := (s.redis.incrBy s.now ch seqBatchSize).2 } ch =
      s.counter ch + seqBatchSize := by
    rw [counter_reserved h.inv.persistent reply rfl, if_pos rfl]
  have value := (incrBy_reply h.inv.persistent reply).1
  refine .none (h.put (h.only call rfl) rfl (h.inv.reserve k a reply) ?_ ?_ (by simp)) (put_returned rfl (by simp))
  · intro unreserved
    exact absurd rfl (unreserved _)
  · intro m' eq
    cases eq
    rw [counter, used]
    exact ⟨by omega, value.symm⟩

theorem Single.install_own (h : Single a ch n s) {k : Nat} {m : Int}
    (call : s.calls k = some ⟨a, ch, .reserved m⟩) :
    Draws a ch n s ((s.setRange a ch (.opened m)).setCall k ⟨a, ch, .returned (newStart m)⟩) := by
  have inv := h.inv.install call
  rw [(h.inv.newStart call).1, (h.inv.newStart call).2] at inv ⊢
  obtain ⟨first, counter⟩ := h.reserved k m call
  refine .one call rfl ?_ (by rw [setCall_calls_same, first])
  refine h.put (h.only call rfl) rfl inv ?_ (by simp) (by simp)
  intro _
  rw [setRange_ranges_same]
  have batch : seqBatchSize = 1000 := rfl
  exact ⟨by simp only [first], counter.symm, by change n + 1 ≤ s.counter ch + 1; omega⟩

theorem Single.step {x : Action} (h : Single a ch n s) (works : ∀ i, x ≠ .incrByFails i)
    (enters : ∀ i b, x = .enter i b ch → b = a ∧
      ∀ j r, s.calls j = some ⟨a, ch, r⟩ → r.busy = false)
    (taken : SeqAlloc.step s x = some t) : Draws a ch n s t := by
  have elsewhere : ∀ {k b other p}, s.calls k = some ⟨b, other, p⟩ → other ≠ ch →
      ∀ c r, s.calls k ≠ some ⟨c, ch, r⟩ := by
    intro k b other p call ne c r own
    cases Option.some.inj (call.symm.trans own)
    exact ne rfl
  have after := step_inv h.inv taken
  cases step_effect taken with
  | @enter k b other free =>
    by_cases here : other = ch
    · subst here
      obtain ⟨rfl, quiet⟩ := enters k b rfl
      exact h.entered_own quiet
    · exact h.foreign here (by simp [free]) rfl after rfl rfl
  | @hit k b other r call range le =>
    by_cases here : other = ch
    · subst here
      cases h.own k b _ call
      exact h.hit_own call range le
    · exact h.foreign here (elsewhere call here) rfl after
        (setRange_ranges_ne s _ fun both => here both.2.symm) rfl
  | @miss k b other call empty =>
    by_cases here : other = ch
    · subst here
      cases h.own k b _ call
      exact h.miss_own call empty
    · exact h.foreign here (elsewhere call here) rfl after rfl rfl
  | @incrBy k b other m call reply =>
    by_cases here : other = ch
    · subst here
      cases h.own k b _ call
      exact h.incrBy_own call reply
    · have counter : State.counter { s with redis := (s.redis.incrBy s.now other seqBatchSize).2 } ch =
          s.counter ch := by
        rw [counter_reserved h.inv.persistent reply rfl, if_neg (Ne.symm here)]
      exact h.foreign here (elsewhere call here) rfl after rfl counter
  | @refused k b other call =>
    by_cases here : other = ch
    · subst here
      cases h.own k b _ call
      exact h.refused_own call
    · exact h.foreign here (elsewhere call here) rfl after rfl rfl
  | fails => exact absurd rfl (works _)
  | @install k b other m call =>
    by_cases here : other = ch
    · subst here
      cases h.own k b _ call
      exact h.install_own call
    · exact h.foreign here (elsewhere call here) rfl after
        (setRange_ranges_ne s _ fun both => here both.2.symm) rfl
  | tick => exact .none (h.frame after (fun _ _ _ => Iff.rfl) rfl rfl) (fun _ _ call => call)

theorem Single.enter (h : Single a ch n s) {i b : Nat} {other : String}
    (enters : other = ch → b = a ∧ ∀ j r, s.calls j = some ⟨a, ch, r⟩ → r.busy = false)
    (taken : SeqAlloc.step s (.enter i b other) = some t) :
    Single a ch n t ∧ s.calls i = none ∧ t = s.setCall i ⟨b, other, .entered⟩ := by
  have drawn := h.step (by simp) (fun j c eq => by cases eq; exact enters rfl) taken
  cases step_effect taken with
  | enter free =>
    refine ⟨?_, free, rfl⟩
    cases drawn with
    | none single => exact single
    | @one j p call busy single number =>
      rcases setCall_calls_cases number with ⟨rfl, _⟩ | ⟨_, kept⟩
      · rw [free] at call
        contradiction
      · cases Option.some.inj (call.symm.trans kept)
        contradiction

theorem busy_before {x : Action} (taken : SeqAlloc.step s x = some t)
    (notEnter : ∀ i b c, x ≠ .enter i b c) {i b : Nat} {p : Phase}
    (call : t.calls i = some ⟨b, ch, p⟩) (busy : p.busy = true) :
    ∃ q, s.calls i = some ⟨b, ch, q⟩ ∧ q.busy = true := by
  cases before : s.calls i with
  | none =>
    have kept : t.calls i = none := by
      cases step_effect taken with
      | enter => exact absurd rfl (notEnter _ _ _)
      | hit old | miss old | incrBy old | refused old | fails old | install old =>
        rw [setCall_calls_ne]
        · exact before
        · rintro rfl
          rw [before] at old
          contradiction
      | tick => exact before
    rw [kept] at call
    contradiction
  | some c =>
    obtain ⟨q, after, move⟩ := step_move before taken
    cases Option.some.inj (call.symm.trans after)
    refine ⟨c.phase, rfl, ?_⟩
    generalize c.phase = r at move
    cases move with
    | stay => exact busy
    | hit => rfl
    | miss => rfl
    | reserve => rfl
    | fail => rfl
    | install => rfl

theorem Start.single (start : Start s) (spare : ∀ ch, Spare (s.counter ch)) (a : Nat) (ch : String) :
    Single a ch (s.counter ch + 1) s := by
  have noCall : ∀ {i c}, s.calls i ≠ some c := by
    intro i c call
    rw [start.calls i] at call
    contradiction
  constructor
  · exact start.inv spare
  · intro i b p call
    exact absurd call noCall
  · intro i j p q call
    exact absurd call noCall
  · intro _
    rw [start.ranges a ch]
    rfl
  · intro i m call
    exact absurd call noCall
  · intro i call
    exact absurd call noCall

end Single

end GameIM.Service.SeqAlloc
