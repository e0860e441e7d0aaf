import Mathlib.Data.List.Basic
import GameIM.Lib.Machine

/-! Put and Wait of BroadcastRing on the mutex and the condition variable. cond.Wait
registers its caller, releases the mutex, parks, and takes the mutex again when woken;
cond.Broadcast wakes the callers that are registered at that time. Put advances writePos,
fills the slot and broadcasts without the mutex. What the slots hold plays no part here. -/
namespace GameIM.Gateway.RingWait
open Lib

/- A Put that was called has advanced writePos. -/
inductive PutPhase where
  | advanced
  | filled
  | returned
  deriving DecidableEq, Repr

/-- A Wait call from one operation on the mutex or the condition variable to the next. It
is registered until it was notified, and parked once it has released the mutex. -/
inductive WaitPhase where
  | lock
  | test
  | tested
  | registered (notified : Bool)
  | parked
  | woken
  | leaving
  | returned
  deriving DecidableEq, Repr

structure Waiter where
  cursor : Nat
  phase : WaitPhase
  deriving DecidableEq, Repr

structure State where
  writePos : Nat
  mutex : Option Nat
  waiters : List Waiter
  puts : List PutPhase
  deriving DecidableEq, Repr

def start : State := ⟨0, none, [], []⟩

inductive Action where
  | put
  | fill (p : Nat)
  | broadcast (p : Nat)
  | wait (cursor : Nat)
  | turn (w : Nat)
  deriving DecidableEq, Repr

def wake : WaitPhase → WaitPhase
  | .registered _ => .registered true
  | .parked => .woken
  | phase => phase

def Waiter.wake (w : Waiter) : Waiter := { w with phase := RingWait.wake w.phase }

def State.set (s : State) (i : Nat) (w : Waiter) (mutex : Option Nat) : State :=
  { s with waiters := s.waiters.set i w, mutex := mutex }

def turn (s : State) (i : Nat) (w : Waiter) : Option State :=
  match w.phase with
  | .lock => if s.mutex = none then some (s.set i { w with phase := .test } (some i)) else none
  | .test =>
    if s.writePos ≤ w.cursor then some (s.set i { w with phase := .tested } s.mutex)
    else some (s.set i { w with phase := .leaving } s.mutex)
  | .tested => some (s.set i { w with phase := .registered false } s.mutex)
  | .registered notified =>
    some (s.set i { w with phase := if notified then .woken else .parked } none)
  | .parked => none
  | .woken => if s.mutex = none then some (s.set i { w with phase := .test } (some i)) else none
  | .leaving => some (s.set i { w with phase := .returned } none)
  | .returned => none

def step (s : State) : Action → Option State
  | .put => some { s with writePos := s.writePos + 1, puts := s.puts ++ [.advanced] }
  | .fill p =>
    if s.puts[p]? = some .advanced then some { s with puts := s.puts.set p .filled } else none
  | .broadcast p =>
    if s.puts[p]? = some .filled then
      some { s with puts := s.puts.set p .returned, waiters := s.waiters.map Waiter.wake }
    else none
  | .wait cursor => some { s with waiters := s.waiters ++ [⟨cursor, .lock⟩] }
  | .turn i => match s.waiters[i]? with
    | none => none
    | some w => turn s i w

inductive Turned (s : State) (w : Waiter) : WaitPhase → Prop where
  | locks : Turned s w .test
  | sleeps : w.phase = .test → s.writePos ≤ w.cursor → Turned s w .tested
  | leaves : w.phase = .test → w.cursor < s.writePos → Turned s w .leaving
  | registers : w.phase = .tested → Turned s w (.registered false)
  | parks : w.phase = .registered false → Turned s w .parked
  | passes : w.phase = .registered true → Turned s w .woken
  | returns : w.phase = .leaving → Turned s w .returned

inductive Effect (s : State) : Action → State → Prop where
  | put : Effect s .put { s with writePos := s.writePos + 1, puts := s.puts ++ [.advanced] }
  | fill {p} : p < s.puts.length → Effect s (.fill p) { s with puts := s.puts.set p .filled }
  | broadcast {p} : Effect s (.broadcast p)
      { s with puts := s.puts.set p .returned, waiters := s.waiters.map Waiter.wake }
  | wait {cursor} : Effect s (.wait cursor) { s with waiters := s.waiters ++ [⟨cursor, .lock⟩] }
  | turn {i w phase mutex} : w ∈ s.waiters → Turned s w phase →
      Effect s (.turn i) (s.set i { w with phase := phase } mutex)

section Effect

variable {s t : State} {i : Nat} {w : Waiter}

theorem turn_effect (held : w ∈ s.waiters) (taken : turn s i w = some t) : Effect s (.turn i) t := by
  unfold turn at taken
  split at taken
  · split at taken
    · cases Option.some.inj taken
      exact .turn held .locks
    · contradiction
  · rename_i phase
    split at taken
    · rename_i behind
      cases Option.some.inj taken
      exact .turn held (.sleeps phase behind)
    · rename_i ahead
      cases Option.some.inj taken
      exact .turn held (.leaves phase (Nat.lt_of_not_le ahead))
  · rename_i phase
    cases Option.some.inj taken
    exact .turn held (.registers phase)
  · rename_i notified phase
    cases Option.some.inj taken
    cases notified with
    | false => exact .turn held (.parks phase)
    | true => exact .turn held (.passes phase)
  · contradiction
  · split at taken
    · cases Option.some.inj taken
      exact .turn held .locks
    · contradiction
  · rename_i phase
    cases Option.some.inj taken
    exact .turn held (.returns phase)
  · contradiction

theorem step_effect {a : Action} (taken : step s a = some t) : Effect s a t := by
  cases a with
  | put =>
    cases Option.some.inj taken
    exact .put
  | fill p =>
    simp only [step] at taken
    split at taken
    · rename_i advanced
      cases Option.some.inj taken
      exact .fill (List.getElem?_eq_some_iff.mp advanced).1
    · contradiction
  | broadcast p =>
    simp only [step] at taken
    split at taken
    · cases Option.some.inj taken
      exact .broadcast
    · contradiction
  | wait cursor =>
    cases Option.some.inj taken
    exact .wait
  | turn i =>
    simp only [step] at taken
    split at taken
    · contradiction
    · rename_i w held
      exact turn_effect (List.mem_of_getElem? held) taken

end Effect

def Pending (puts : List PutPhase) : Prop := ∃ p ∈ puts, p ≠ .returned

/-- A consumer is parked in Wait though there is something to read, and no Put will wake
it. -/
def Lost (s : State) : Prop :=
  ¬ Pending s.puts ∧ ∃ w ∈ s.waiters, w.phase = .parked ∧ w.cursor < s.writePos

/-- A Broadcast that no other is to follow does not fall between the test and the
registration of a Wait that has something to read by then. -/
def Excludes (s : State) : Action → Prop
  | .broadcast p => Pending (s.puts.set p .returned) ∨
      ∀ w ∈ s.waiters, w.phase = .tested → s.writePos ≤ w.cursor
  | _ => True

instance decidablePending (puts : List PutPhase) : Decidable (Pending puts) :=
  inferInstanceAs (Decidable (∃ p ∈ puts, p ≠ .returned))

instance decidableLost (s : State) : Decidable (Lost s) := inferInstanceAs (Decidable (_ ∧ _))

instance decidableExcludes (s : State) : ∀ a, Decidable (Excludes s a)
  | .broadcast _ => inferInstanceAs (Decidable (_ ∨ _))
  | .put | .fill _ | .wait _ | .turn _ => inferInstanceAs (Decidable True)

/- The waiter has found nothing to read and was not notified since. -/
def Asleep (w : Waiter) : Prop :=
  w.phase = .tested ∨ w.phase = .registered false ∨ w.phase = .parked

/- Whoever sleeps has nothing to read, or there is a Broadcast to come. -/
def Covered (s : State) : Prop :=
  Pending s.puts ∨ ∀ w ∈ s.waiters, Asleep w → s.writePos ≤ w.cursor

section Wakeups

variable {s t : State} {w : Waiter}

theorem wake_asleep (asleep : Asleep w.wake) : w.phase = .tested := by
  cases w with
  | mk cursor phase =>
    cases phase with
    | tested => rfl
    | lock => simp [Asleep, Waiter.wake, wake] at asleep
    | test => simp [Asleep, Waiter.wake, wake] at asleep
    | registered notified => simp [Asleep, Waiter.wake, wake] at asleep
    | parked => simp [Asleep, Waiter.wake, wake] at asleep
    | woken => simp [Asleep, Waiter.wake, wake] at asleep
    | leaving => simp [Asleep, Waiter.wake, wake] at asleep
    | returned => simp [Asleep, Waiter.wake, wake] at asleep

theorem turned_asleep {phase : WaitPhase} (turned : Turned s w phase)
    (asleep : Asleep { w with phase := phase }) : Asleep w ∨ s.writePos ≤ w.cursor := by
  cases turned with
  | locks => simp [Asleep] at asleep
  | sleeps _ behind => exact Or.inr behind
  | leaves _ _ => simp [Asleep] at asleep
  | registers phase => exact Or.inl (Or.inl phase)
  | parks phase => exact Or.inl (Or.inr (Or.inl phase))
  | passes _ => simp [Asleep] at asleep
  | returns _ => simp [Asleep] at asleep

theorem step_covered {a : Action} (covered : Covered s) (excludes : Excludes s a)
    (taken : step s a = some t) : Covered t := by
  cases step_effect taken with
  | put => exact Or.inl ⟨.advanced, by simp, by decide⟩
  | fill inside => exact Or.inl ⟨.filled, List.mem_set inside _, by decide⟩
  | broadcast =>
    rcases excludes with pending | behind
    · exact Or.inl pending
    · apply Or.inr
      intro v held asleep
      obtain ⟨w, old, rfl⟩ := List.mem_map.mp held
      exact behind w old (wake_asleep asleep)
  | wait =>
    rcases covered with pending | behind
    · exact Or.inl pending
    · apply Or.inr
      intro v held asleep
      rcases List.mem_append.mp held with old | new
      · exact behind v old asleep
      · cases List.mem_singleton.mp new
        simp [Asleep] at asleep
  | @turn i w phase mutex held turned =>
    rcases covered with pending | behind
    · exact Or.inl pending
    · apply Or.inr
      intro v member asleep
      rcases List.mem_or_eq_of_mem_set member with old | rfl
      · exact behind v old asleep
      · rcases turned_asleep turned asleep with slept | empty
        · exact behind w held slept
        · exact empty

theorem Covered.not_lost (covered : Covered s) : ¬ Lost s := by
  rintro ⟨quiet, w, held, parked, ahead⟩
  rcases covered with pending | behind
  · exact quiet pending
  · exact Nat.not_lt.mpr (behind w held (Or.inr (Or.inr parked))) ahead

/-- Any number of Put and Wait calls in any interleaving: no wake-up is lost in a run none
of whose last Broadcasts falls between the test and the registration of a waiter. -/
theorem no_lost_wakeup {as : List Action} (excludes : Meets step Excludes start as)
    (taken : run step start as = some t) :
    ∀ before u, before <+: as → run step start before = some u → ¬ Lost u := by
  have initial : Covered start := Or.inr (fun w held => nomatch held)
  rintro before u ⟨after, rfl⟩ reached
  have covered : Covered u := run_invariant_meets Covered
    (fun s a t covered excludes taken => step_covered covered excludes taken) initial
    ((meets_append reached).mp excludes).1 reached
  exact covered.not_lost

/- Two consumers; the second waits when the Put of the first one's entry is in progress. -/
def wokenWaiters : List Action :=
  [.wait 0, .turn 0, .turn 0, .turn 0, .turn 0, .put, .wait 1, .turn 1, .turn 1, .fill 0, .broadcast 0,
    .turn 1, .turn 1, .turn 0, .turn 0, .turn 0]

theorem wokenWaiters_not_lost :
    ∃ u, run step start wokenWaiters = some u ∧ u.writePos = 1 ∧ ¬ Lost u := by
  have view : (run step start wokenWaiters).map State.writePos = some 1 := by decide
  obtain ⟨u, taken, pos⟩ := Option.map_eq_some_iff.mp view
  have safe := no_lost_wakeup (show Meets step Excludes start wokenWaiters by decide) taken
  exact ⟨u, taken, pos, safe wokenWaiters u (List.prefix_refl _) taken⟩

/- The whole of a Put between the test of a Wait and its registration. -/
def putInGap : List Action :=
  [.wait 0, .turn 0, .turn 0, .put, .fill 0, .broadcast 0, .turn 0, .turn 0]

theorem wakeup_lost : ∃ u, run step start putInGap = some u ∧ Lost u := by
  have view : (run step start putInGap).map (fun u => decide (Lost u)) = some true := by decide
  obtain ⟨u, taken, lost⟩ := Option.map_eq_some_iff.mp view
  exact ⟨u, taken, of_decide_eq_true lost⟩

theorem not_excludes {p : Nat} (missed : ¬ Excludes s (.broadcast p)) :
    ¬ Pending (s.puts.set p .returned) ∧
      ∃ w ∈ s.waiters, w.phase = .tested ∧ w.cursor < s.writePos := by
  simp only [Excludes, not_or, not_forall, Nat.not_le] at missed
  obtain ⟨quiet, w, held, tested, ahead⟩ := missed
  exact ⟨quiet, w, held, tested, ahead⟩

theorem turn_set {i : Nat} {w v : Waiter} (mutex : Option Nat) (held : s.waiters[i]? = some w)
    (turned : turn s i w = some (s.set i v mutex)) :
    step s (.turn i) = some (s.set i v mutex) ∧ (s.set i v mutex).waiters[i]? = some v := by
  constructor
  · simp only [step, held, turned]
  · exact List.getElem?_set_self (List.getElem?_eq_some_iff.mp held).1

/- Outside the condition the waiter that was passed over goes on to park for good. -/
theorem missed_broadcast_loses {p : Nat} (missed : ¬ Excludes s (.broadcast p))
    (taken : step s (.broadcast p) = some t) :
    ∃ i u, run step t [.turn i, .turn i] = some u ∧ Lost u := by
  obtain ⟨quiet, w, held, tested, ahead⟩ := not_excludes missed
  cases step_effect taken
  obtain ⟨i, here⟩ := List.mem_iff_getElem?.mp held
  generalize after : { s with puts := s.puts.set p .returned, waiters := s.waiters.map Waiter.wake } = t
  have still : t.waiters[i]? = some w := by
    have same : w.wake = w := by
      cases w
      simp_all [Waiter.wake, wake]
    simp only [← after, List.getElem?_map, here, Option.map_some, same]
  obtain ⟨first, between⟩ := turn_set (v := { w with phase := .registered false }) t.mutex still
    (by simp only [turn, tested])
  obtain ⟨second, final⟩ := turn_set (v := { w with phase := .parked }) none between
    (by simp only [turn, Bool.false_eq_true, if_false])
  refine ⟨i, _, run_cons_some.mpr ⟨_, first, run_cons_some.mpr ⟨_, second, rfl⟩⟩, ?_⟩
  refine ⟨?_, _, List.mem_of_getElem? final, rfl, ?_⟩
  · subst after
    exact quiet
  · subst after
    exact ahead

/- What Wait promises its caller, and the ring machine's consumer relies on. -/
def Ahead (s : State) : Prop :=
  ∀ w ∈ s.waiters, w.phase = .leaving ∨ w.phase = .returned → w.cursor < s.writePos

theorem step_ahead {a : Action} (ahead : Ahead s) (taken : step s a = some t) : Ahead t := by
  cases step_effect taken with
  | put =>
    intro w held left
    exact Nat.lt_succ_of_lt (ahead w held left)
  | fill _ => exact ahead
  | broadcast =>
    intro v held left
    obtain ⟨w, old, rfl⟩ := List.mem_map.mp held
    apply ahead w old
    cases w with
    | mk cursor phase =>
      cases phase <;> simp_all [Waiter.wake, wake]
  | wait =>
    intro v held left
    rcases List.mem_append.mp held with old | new
    · exact ahead v old left
    · cases List.mem_singleton.mp new
      simp at left
  | @turn i w phase mutex held turned =>
    intro v member left
    rcases List.mem_or_eq_of_mem_set member with old | rfl
    · exact ahead v old left
    · cases turned with
      | leaves _ more => exact more
      | returns before => exact ahead w held (Or.inl before)
      | locks => simp at left
      | sleeps _ _ => simp at left
      | registers _ => simp at left
      | parks _ => simp at left
      | passes _ => simp at left

/-- A Wait returns only when there is something to read. -/
theorem wait_returned {as : List Action} (taken : run step start as = some t) : Ahead t := by
  have initial : Ahead start := fun w held => nomatch held
  exact run_invariant Ahead (fun _ _ _ ahead taken => step_ahead ahead taken) initial taken

end Wakeups

section Parked

variable {s t : State} {i : Nat} {w : Waiter}

theorem step_parked {a : Action} (held : s.waiters[i]? = some w) (parked : w.phase = .parked)
    (quiet : ∀ p, a ≠ .broadcast p) (taken : step s a = some t) : t.waiters[i]? = some w := by
  cases a with
  | broadcast p => exact absurd rfl (quiet p)
  | put =>
    cases Option.some.inj taken
    exact held
  | fill p =>
    simp only [step] at taken
    split at taken
    · cases Option.some.inj taken
      exact held
    · contradiction
  | wait cursor =>
    cases Option.some.inj taken
    rw [List.getElem?_append_left (List.getElem?_eq_some_iff.mp held).1]
    exact held
  | turn j =>
    simp only [step] at taken
    split at taken
    · contradiction
    · rename_i v other
      have apart : j ≠ i := by
        rintro rfl
        cases held.symm.trans other
        simp [turn, parked] at taken
      have kept : ∀ v mutex, (s.set j v mutex).waiters[i]? = some w := by
        intro v mutex
        simp only [State.set, List.getElem?_set_ne apart]
        exact held
      unfold turn at taken
      split at taken <;> try split at taken
      all_goals first
        | contradiction
        | (cases Option.some.inj taken; exact kept _ _)

/-- A Wait that is parked when a Put begins stays so until a Broadcast. The Put fills its
slot before that: whoever it wakes finds the data. -/
theorem parked_until_broadcast {as : List Action} (held : s.waiters[i]? = some w)
    (parked : w.phase = .parked) (quiet : ∀ p, .broadcast p ∉ as) (taken : run step s as = some t) :
    t.waiters[i]? = some w := by
  induction as generalizing s with
  | nil => exact Option.some.inj taken ▸ held
  | cons a rest ih =>
    obtain ⟨u, first, rest'⟩ := run_cons_some.mp taken
    have next : u.waiters[i]? = some w := by
      apply step_parked held parked _ first
      rintro p rfl
      exact quiet p List.mem_cons_self
    exact ih next (fun p mem => quiet p (List.mem_cons_of_mem a mem)) rest'

end Parked

end GameIM.Gateway.RingWait
