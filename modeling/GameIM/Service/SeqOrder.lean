import GameIM.Service.SeqAlloc

/-! The order in which one allocator hands out the numbers of a channel. Refills
are installed without a look at the range they replace, so a batch that was
reserved early and installed late brings back smaller numbers. -/
namespace GameIM.Service.SeqAlloc
open GameIM.Lib GameIM.Store

/-- A batch is installed only over a range of an earlier batch. -/
def inOrder (s : State) : Action → Bool
  | .install i => match s.calls i with
    | some ⟨a, ch, .reserved newMax⟩ => match s.ranges a ch with
      | some r => decide (r.max < newMax)
      | none => true
    | _ => true
  | _ => true

/- Batches end a whole number of batch sizes below the counter, an installed range
lies above all that its allocator has returned, and the call that installed it has
returned its first number. -/
structure Ordered (s : State) : Prop where
  inv : Inv s
  rangeAligned : ∀ a ch r, s.ranges a ch = some r → seqBatchSize ∣ s.counter ch - r.max
  callAligned : ∀ i a ch m, s.calls i = some ⟨a, ch, .reserved m⟩ → seqBatchSize ∣ s.counter ch - m
  passed : ∀ i a ch n, s.calls i = some ⟨a, ch, .returned n⟩ →
    ∃ r, s.ranges a ch = some r ∧ n < r.next
  within : ∀ a ch r, s.ranges a ch = some r → r.next ≤ r.max + 1
  opened : ∀ a ch r, s.ranges a ch = some r →
    ∃ i, s.calls i = some ⟨a, ch, .returned (r.max - seqBatchSize + 1)⟩

theorem Start.ordered {s : State} (start : Start s) (spare : ∀ ch, Spare (s.counter ch)) : Ordered s := by
  have noRange : ∀ {a ch r}, s.ranges a ch ≠ some r := by
    intro a ch r h
    cases (start.ranges a ch).symm.trans h
  have noCall : ∀ {i c}, s.calls i ≠ some c := by
    intro i c h
    cases (start.calls i).symm.trans h
  exact ⟨start.inv spare, fun _ _ _ h => absurd h noRange, fun _ _ _ _ h => absurd h noCall,
    fun _ _ _ _ h => absurd h noCall, fun _ _ _ h => absurd h noRange,
    fun _ _ _ h => absurd h noRange⟩

theorem Ordered.opened_kept {s : State} (o : Ordered s) {i b : Nat} {ch : String} {r : SeqRange}
    (unreturned : ∀ a ch n, s.calls i ≠ some ⟨a, ch, .returned n⟩) (range : s.ranges b ch = some r)
    (c : Call) : ∃ j, (s.setCall i c).calls j = some ⟨b, ch, .returned (r.max - seqBatchSize + 1)⟩ := by
  obtain ⟨j, hj⟩ := o.opened b ch r range
  have ne : j ≠ i := by
    rintro rfl
    exact unreturned _ _ _ hj
  exact ⟨j, by rw [setCall_calls_ne _ _ ne]; exact hj⟩

theorem Ordered.passed_up {s : State} (o : Ordered s) {i j a b : Nat} {ch other : String} {q : SeqRange}
    {n m : Int} (mine : n < q.next) (up : ∀ r, s.ranges a ch = some r → r.next ≤ q.next)
    (returned : ((s.setRange a ch q).setCall i ⟨a, ch, .returned n⟩).calls j =
      some ⟨b, other, .returned m⟩) :
    ∃ r, (s.setRange a ch q).ranges b other = some r ∧ m < r.next := by
  rcases setCall_calls_cases returned with ⟨_, same⟩ | ⟨_, old⟩
  · cases same
    exact ⟨q, by simp, mine⟩
  · obtain ⟨r, hr, below⟩ := o.passed j b other m old
    by_cases here : b = a ∧ other = ch
    · obtain ⟨rfl, rfl⟩ := here
      exact ⟨q, by simp, lt_of_lt_of_le below (up r hr)⟩
    · exact ⟨r, by simpa [here] using hr, below⟩

theorem Ordered.idle {s : State} (o : Ordered s) {i : Nat} (c : Call)
    (quiet : ∀ n, ¬ c.phase.Holds n)
    (unreturned : ∀ a ch n, s.calls i ≠ some ⟨a, ch, .returned n⟩) : Ordered (s.setCall i c) := by
  refine ⟨o.inv.idle i c quiet, o.rangeAligned, ?_, ?_, o.within, ?_⟩
  · intro j a ch m h
    rcases setCall_calls_cases h with ⟨_, rfl⟩ | ⟨_, old⟩
    · exact absurd ⟨sub_lt_self m (by decide), le_refl m⟩ (quiet m)
    · exact o.callAligned j a ch m old
  · intro j a ch n h
    rcases setCall_calls_cases h with ⟨_, rfl⟩ | ⟨_, old⟩
    · exact absurd rfl (quiet n)
    · exact o.passed j a ch n old
  · exact fun a ch r h => o.opened_kept unreturned h c

theorem Ordered.hit {s : State} (o : Ordered s) {i a : Nat} {ch : String} {r : SeqRange}
    (call : s.calls i = some ⟨a, ch, .entered⟩) (range : s.ranges a ch = some r)
    (le : r.next ≤ r.max) :
    Ordered ((s.setRange a ch r.advance).setCall i ⟨a, ch, .returned r.next⟩) := by
  have inv := o.inv.hit (i := i) range le
  rw [o.inv.advance range le] at inv ⊢
  refine ⟨inv, ?_, ?_, ?_, ?_, ?_⟩
  · intro b other q h
    rcases setRange_ranges_cases h with ⟨rfl, rfl, rfl⟩ | ⟨_, old⟩
    · exact o.rangeAligned b other r range
    · exact o.rangeAligned b other q old
  · intro j b other m h
    rcases setCall_calls_cases h with ⟨_, impossible⟩ | ⟨_, old⟩
    · cases impossible
    · exact o.callAligned j b other m old
  · intro j b other n h
    apply o.passed_up _ _ h
    · simp only
      omega
    · intro q hq
      cases range.symm.trans hq
      simp only
      omega
  · intro b other q h
    rcases setRange_ranges_cases h with ⟨_, _, rfl⟩ | ⟨_, old⟩
    · simp only
      omega
    · exact o.within b other q old
  · intro b other q h
    have unreturned : ∀ a ch n, s.calls i ≠ some ⟨a, ch, .returned n⟩ := by simp [call]
    rcases setRange_ranges_cases h with ⟨rfl, rfl, rfl⟩ | ⟨_, old⟩
    · exact o.opened_kept unreturned range _
    · exact o.opened_kept unreturned old _

theorem Ordered.reserve {s : State} (o : Ordered s) {i a : Nat} {ch : String} {m : Int}
    (call : s.calls i = some ⟨a, ch, .refill⟩) (reply : (s.redis.incrBy s.now ch seqBatchSize).1 = some m) :
    Ordered ({ s with redis := (s.redis.incrBy s.now ch seqBatchSize).2 }.setCall i ⟨a, ch, .reserved m⟩) := by
  have next := o.inv.reserve i a reply
  obtain ⟨rfl, _⟩ := incrBy_reply o.inv.persistent reply
  set t := { s with redis := (s.redis.incrBy s.now ch seqBatchSize).2 }.setCall i
    ⟨a, ch, .reserved (s.counter ch + seqBatchSize)⟩ with ht
  have counter : ∀ other, t.counter other =
      if other = ch then s.counter ch + seqBatchSize else s.counter other :=
    counter_reserved o.inv.persistent reply rfl
  have aligned : ∀ other m, seqBatchSize ∣ s.counter other - m → seqBatchSize ∣ t.counter other - m := by
    intro other m h
    rw [counter]
    split
    · rename_i here
      subst here
      have shift : s.counter other + seqBatchSize - m = s.counter other - m + seqBatchSize := by ring
      exact shift ▸ dvd_add h (dvd_refl _)
    · exact h
  refine ⟨next, fun b other q h => aligned other q.max (o.rangeAligned b other q h), ?_, ?_,
    o.within, ?_⟩
  · intro j b other m h
    rcases setCall_calls_cases h with ⟨_, same⟩ | ⟨_, old⟩
    · cases same
      simp [counter]
    · exact aligned other m (o.callAligned j b other m old)
  · intro j b other n h
    rcases setCall_calls_cases h with ⟨_, impossible⟩ | ⟨_, old⟩
    · cases impossible
    · exact o.passed j b other n old
  · exact fun b other q h => o.opened_kept (by simp [call]) h _

/- Two batches of one channel that do not end together are a whole batch apart. -/
theorem batches_apart {c x y : Int} (hx : seqBatchSize ∣ c - x) (hy : seqBatchSize ∣ c - y)
    (lt : x < y) : x ≤ y - seqBatchSize := by
  have gap : seqBatchSize ∣ y - x := by
    have h := dvd_sub hx hy
    have e : c - x - (c - y) = y - x := by ring
    exact e ▸ h
  have le := Int.le_of_dvd (by omega) gap
  omega

theorem Ordered.install {s : State} (o : Ordered s) {i a : Nat} {ch : String} {m : Int}
    (call : s.calls i = some ⟨a, ch, .reserved m⟩)
    (above : ∀ r, s.ranges a ch = some r → r.max < m) :
    Ordered ((s.setRange a ch (.opened m)).setCall i ⟨a, ch, .returned (newStart m)⟩) := by
  have inv := o.inv.install call
  rw [(o.inv.newStart call).1, (o.inv.newStart call).2] at inv ⊢
  refine ⟨inv, ?_, ?_, ?_, ?_, ?_⟩
  · intro b other q h
    rcases setRange_ranges_cases h with ⟨rfl, rfl, rfl⟩ | ⟨_, old⟩
    · exact o.callAligned i b other m call
    · exact o.rangeAligned b other q old
  · intro j b other n h
    rcases setCall_calls_cases h with ⟨_, impossible⟩ | ⟨_, old⟩
    · cases impossible
    · exact o.callAligned j b other n old
  · intro j b other n h
    apply o.passed_up _ _ h
    · simp only
      omega
    · intro q hq
      have apart := batches_apart (o.rangeAligned a ch q hq) (o.callAligned i a ch m call) (above q hq)
      have bound := o.within a ch q hq
      simp only
      omega
  · intro b other q h
    rcases setRange_ranges_cases h with ⟨_, _, rfl⟩ | ⟨_, old⟩
    · simp only [seqBatchSize]
      omega
    · exact o.within b other q old
  · intro b other q h
    rcases setRange_ranges_cases h with ⟨rfl, rfl, rfl⟩ | ⟨_, old⟩
    · exact ⟨i, by simp⟩
    · exact o.opened_kept (by simp [call]) old _

theorem inOrder_install {s : State} {i a : Nat} {ch : String} {m : Int}
    (call : s.calls i = some ⟨a, ch, .reserved m⟩) (ok : inOrder s (.install i) = true)
    (r : SeqRange) (range : s.ranges a ch = some r) : r.max < m := by
  simpa [inOrder, call, range] using ok

theorem step_ordered {s t : State} {x : Action} (o : Ordered s) (ok : inOrder s x = true)
    (taken : step s x = some t) : Ordered t := by
  cases step_effect taken with
  | enter free => exact o.idle _ (fun _ h => h) (fun _ _ _ h => by cases free.symm.trans h)
  | hit call range le => exact o.hit call range le
  | miss call => exact o.idle _ (fun _ h => h) (fun _ _ _ h => by cases call.symm.trans h)
  | incrBy call reply => exact o.reserve call reply
  | refused call => exact o.idle _ (fun _ h => h) (fun _ _ _ h => by cases call.symm.trans h)
  | fails call => exact o.idle _ (fun _ h => h) (fun _ _ _ h => by cases call.symm.trans h)
  | install call => exact o.install call (inOrder_install call ok)
  | tick => exact ⟨o.inv.shrink (fun _ => rfl) (fun _ _ _ h => h), o.rangeAligned, o.callAligned, o.passed,
      o.within, o.opened⟩

def Above (n : Int) : Phase → Prop
  | .reserved m => n < m - seqBatchSize + 1
  | .returned m => n < m
  | _ => True

structure Later (i j a : Nat) (ch : String) (n : Int) (s : State) : Prop where
  ordered : Ordered s
  done : s.calls i = some ⟨a, ch, .returned n⟩
  above : ∃ p, s.calls j = some ⟨a, ch, p⟩ ∧ Above n p

theorem step_later {s t : State} {x : Action} {i j a : Nat} {ch : String} {n : Int}
    (h : Later i j a ch n s) (ok : inOrder s x = true) (taken : step s x = some t) :
    Later i j a ch n t := by
  refine ⟨step_ordered h.ordered ok taken, step_returned h.done taken, ?_⟩
  obtain ⟨p, hp, hn⟩ := h.above
  obtain ⟨r, hr, below⟩ := h.ordered.passed i a ch n h.done
  obtain ⟨q, hq, move⟩ := step_move hp taken
  refine ⟨q, hq, ?_⟩
  cases move with
  | stay => exact hn
  | hit range le =>
    cases hr.symm.trans range
    exact below
  | miss => trivial
  | reserve reply =>
    have bound := (h.ordered.inv.bounded ch (.call i) n ⟨_, h.done, rfl, rfl⟩).2
    obtain ⟨rfl, _⟩ := incrBy_reply h.ordered.inv.persistent reply
    simp only [Above]
    omega
  | fail => trivial
  | install =>
    simp only [Above]
    rw [(h.ordered.inv.newStart hp).1]
    exact hn

/-- While batches are installed in the order in which they were reserved, a call
that starts after another one has returned gets the larger number. -/
theorem later_call_returns_more (s₀ s₁ s₂ : State) (as bs : List Action) (start : Start s₀)
    (spare : ∀ ch, Spare (s₀.counter ch)) (i j a : Nat) (ch : String) (n m : Int)
    (ordered : Meets step (fun s x => inOrder s x = true) s₀ (as ++ .enter j a ch :: bs))
    (taken : run step s₀ as = some s₁) (done : s₁.calls i = some ⟨a, ch, .returned n⟩)
    (rest : run step s₁ (.enter j a ch :: bs) = some s₂)
    (later : s₂.calls j = some ⟨a, ch, .returned m⟩) : n < m := by
  have split := (meets_append taken).mp ordered
  have first : Ordered s₁ := run_invariant_meets Ordered (fun _ _ _ o ok t => step_ordered o ok t)
    (start.ordered spare) split.1 taken
  obtain ⟨u, hu, hb⟩ := run_cons_some.mp rest
  have tail := ((meets_cons hu).mp split.2).2
  have entered : Later i j a ch n u := by
    refine ⟨step_ordered first rfl hu, step_returned done hu, ?_⟩
    cases step_effect hu with
    | enter => exact ⟨.entered, by simp, trivial⟩
  have last := run_invariant_meets (Later i j a ch n) (fun _ _ _ o ok t => step_later o ok t)
    entered tail hb
  obtain ⟨p, hp, above⟩ := last.above
  cases hp.symm.trans later
  exact above

/- A run in which the second refill is installed after the first one, and a third
call then starts. -/
def orderedRefills : List Action :=
  [.enter 0 0 "world", .enter 1 0 "world", .lookup 0, .lookup 1, .incrBy 0, .incrBy 1,
    .install 0, .install 1]

theorem later_call_returns_more_refills : ∃ s₁ s₂,
    run step initial orderedRefills = some s₁ ∧ s₁.calls 1 = some ⟨0, "world", .returned 1001⟩ ∧
    run step s₁ [.enter 2 0 "world", .lookup 2] = some s₂ ∧
    s₂.calls 2 = some ⟨0, "world", .returned 1002⟩ ∧ (1001 : Int) < 1002 :=
  ⟨_, _, rfl, rfl, rfl, rfl,
    later_call_returns_more initial _ _ orderedRefills [.lookup 2] initial_start initial_spare 1 2 0
      "world" _ _ (by decide) rfl rfl rfl rfl⟩

/-- With the installations crossed, a call that starts after 1001 was returned gets 2. -/
theorem next_not_monotone : ¬ ∀ (as bs : List Action) (s₁ s₂ : State) (i j : Nat) (n m : Int),
    run step initial as = some s₁ → s₁.calls i = some ⟨0, "world", .returned n⟩ →
    run step s₁ (.enter j 0 "world" :: bs) = some s₂ →
    s₂.calls j = some ⟨0, "world", .returned m⟩ → n < m := by
  intro monotone
  have h := monotone crossedRefills [.lookup 2] _ _ 1 2 1001 2 rfl rfl rfl rfl
  omega

/-- A crossed installation is never harmless: the next two steps can hand a new call
a number below one that was returned before it started. -/
theorem crossed_install_breaks_order {s : State} (o : Ordered s) {i k a : Nat} {ch : String} {m : Int}
    (call : s.calls i = some ⟨a, ch, .reserved m⟩) (crossed : inOrder s (.install i) = false)
    (free : s.calls k = none) :
    ∃ t u j n n', step s (.install i) = some t ∧ t.calls j = some ⟨a, ch, .returned n⟩ ∧
      run step t [.enter k a ch, .lookup k] = some u ∧ u.calls k = some ⟨a, ch, .returned n'⟩ ∧
      n' < n := by
  have found : ∃ r, s.ranges a ch = some r ∧ ¬ r.max < m := by
    cases range : s.ranges a ch with
    | none => simp [inOrder, call, range] at crossed
    | some r => exact ⟨r, rfl, by simpa [inOrder, call, range] using crossed⟩
  obtain ⟨r, range, above⟩ := found
  obtain ⟨j, hj⟩ := o.opened a ch r range
  have ne : j ≠ i := by
    intro e
    subst e
    cases call.symm.trans hj
  have ends : r.max ≠ m := by
    intro e
    have mine : Holds s ch (.call i) (r.max - seqBatchSize + 1) :=
      ⟨_, call, rfl, by omega, by simp only [seqBatchSize]; omega⟩
    have same := o.inv.exclusive ch (.call j) (.call i) _ ⟨_, hj, rfl, rfl⟩ mine
    exact ne (Holder.call.inj same)
  have apart := batches_apart (o.callAligned i a ch m call) (o.rangeAligned a ch r range) (by omega)
  have kne : k ≠ i := by
    intro e
    subst e
    cases call.symm.trans free
  obtain ⟨first, opened⟩ := o.inv.newStart call
  set t := (s.setRange a ch ⟨m - seqBatchSize + 1 + 1, m⟩).setCall i
    ⟨a, ch, .returned (m - seqBatchSize + 1)⟩ with ht
  have installed : t.ranges a ch = some ⟨m - seqBatchSize + 1 + 1, m⟩ := by simp [ht]
  obtain ⟨u, hu, hk, _⟩ := enter_then_hit (k := k) (by simpa [ht, kne] using free) installed
    (by simp only [seqBatchSize]; omega)
  refine ⟨t, u, j, _, _, by simp only [step, call, first, opened, ht], by simpa [ht, ne] using hj, hu, hk, ?_⟩
  simp only [seqBatchSize] at apart ⊢
  omega

end GameIM.Service.SeqAlloc
