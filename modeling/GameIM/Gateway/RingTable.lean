import GameIM.Gateway.Broadcast

/-! The ring beside the connection table: what operations on the table do to the readers of
the ring. -/
namespace GameIM.Gateway.Broadcast
open Lib Conn

variable {α : Type}

structure State (α : Type) where
  mgr : ConnManager
  ring : Ring.State α

def start : State α := ⟨.new, Ring.start⟩

inductive Action (α : Type) where
  | table (a : ConnOps.Action)
  | ring (a : Ring.Action α)

/- A connection gets its cursor when it is accepted. Close, also the Close of a connection
that BindUser kicks, closes done. -/
def onRing (m : ConnManager) : ConnOps.Action → List (Ring.Action α)
  | .register c => [.connect c]
  | .bind uid c => match m.userConns uid with
    | none => []
    | some old => if old ≠ c then [.close old] else []
  | .close c => [.close c]

def step (cfg : Config) (s : State α) : Action α → Option (State α)
  | .table a => (ConnOps.step s.mgr a).bind fun m =>
    (run (Ring.step cfg) s.ring (onRing s.mgr a)).map fun r => ⟨m, r⟩
  | .ring a => match a with
    | .connect _ | .close _ => none
    | a => (Ring.step cfg s.ring a).map fun r => ⟨s.mgr, r⟩

/- What the reader of a connection shows of its life: none before it is accepted, and
whether done is closed. -/
def shown : Life → Option Bool
  | .fresh => none
  | .open => some false
  | .closed => some true

/-- The readers of the ring are the connections of the table, of which there are finitely
many. -/
structure Linked (s : State α) : Prop where
  held : Held s.mgr
  tidy : Tidy s.mgr
  ring : Ring.Inv s.ring
  readers : ∀ c, (s.ring.readers c).map (·.done) = shown (s.mgr.life c)
  halts : Halts s.ring
  listed : Listed s.ring

section Linked

variable {cfg : Config} {r t : Ring.State α} {k l : Ring.Reader α} {a : Ring.Action α}

theorem close_shown {m : ConnManager} {c : ConnID} (known : m.life c ≠ .fresh) (d : ConnID) :
    shown ((m.close c).life d) = if d = c then some true else shown (m.life d) := by
  rw [close_life]
  by_cases here : d = c
  · subst here
    cases life : m.life d with
    | fresh => exact absurd life known
    | «open» => simp [shown]
    | closed => simp [shown]
  · simp [here]

theorem closed_done {c : ConnID} (taken : Ring.step cfg r (.close c) = some t) (d : ConnID) :
    (t.readers d).map (·.done) = if d = c then some true else (r.readers d).map (·.done) := by
  cases Ring.step_effect taken with
  | close held => exact setReader_done c d

theorem kick_shown {m : ConnManager} {uid : Int} {c : ConnID} (held : Held m)
    (readers : ∀ d, (r.readers d).map (·.done) = shown (m.life d))
    (taken : run (Ring.step cfg) r (onRing m (.bind uid c)) = some t) (d : ConnID) :
    (t.readers d).map (·.done) = shown ((m.bindUser uid c).life d) := by
  have life : (m.bindUser uid c).life = ((m.deleteUser uid).kick (m.userConns uid) c).life := rfl
  rw [life]
  cases entry : m.userConns uid with
  | none =>
    simp only [onRing, entry, run_nil, Option.some.injEq] at taken
    subst taken
    exact readers d
  | some old =>
    by_cases same : old = c
    · simp only [onRing, entry, same, ne_eq, not_true_eq_false, if_false, run_nil,
        Option.some.injEq] at taken
      subst taken
      simp only [ConnManager.kick, same, ne_eq, not_true_eq_false, if_false]
      exact readers d
    · simp only [onRing, entry, ne_eq, same, not_false_eq_true, if_true] at taken
      obtain ⟨u, closed, done⟩ := run_cons_some.mp taken
      cases Option.some.inj done
      have known : (m.deleteUser uid).life old ≠ .fresh := held.known uid old entry
      simp only [ConnManager.kick, ne_eq, same, not_false_eq_true, if_true]
      rw [close_shown known, closed_done closed, readers]
      rfl

theorem table_shown {m n : ConnManager} {b : ConnOps.Action} (held : Held m)
    (readers : ∀ c, (r.readers c).map (·.done) = shown (m.life c)) (done : ConnOps.step m b = some n)
    (taken : run (Ring.step cfg) r (onRing m b) = some t) (c : ConnID) :
    (t.readers c).map (·.done) = shown (n.life c) := by
  cases ConnOps.step_effect done with
  | @register d fresh =>
    obtain ⟨u, connected, done⟩ := run_cons_some.mp taken
    cases Option.some.inj done
    cases Ring.step_effect connected with
    | connect _ =>
      rw [setReader_done, readers]
      by_cases here : c = d
      · simp [here, ConnManager.register, shown, Ring.State.reader]
      · simp [here, ConnManager.register]
  | bind _ _ => exact kick_shown held readers taken c
  | @close d known =>
    obtain ⟨u, closed, done⟩ := run_cons_some.mp taken
    cases Option.some.inj done
    rw [close_shown known, closed_done closed, readers]

theorem ring_step {s s' : State α} {b : Ring.Action α} (taken : step cfg s (.ring b) = some s') :
    ∃ u, (Serves b ∨ ∃ data, b = .put data) ∧ Ring.step cfg s.ring b = some u ∧ s' = ⟨s.mgr, u⟩ := by
  have other : (Serves b ∨ ∃ data, b = .put data) ∧
      (Ring.step cfg s.ring b).map (fun u => ⟨s.mgr, u⟩) = some s' := by
    cases b with
    | connect => contradiction
    | close => contradiction
    | put data => exact ⟨Or.inr ⟨data, rfl⟩, taken⟩
    | _ => exact ⟨Or.inl trivial, taken⟩
  obtain ⟨u, moved, rfl⟩ := Option.map_eq_some_iff.mp other.2
  exact ⟨u, other.1, moved, rfl⟩

theorem step_linked {s s' : State α} {b : Action α} (linked : Linked s)
    (taken : step cfg s b = some s') : Linked s' := by
  cases b with
  | table b =>
    obtain ⟨m, done, rest⟩ := Option.bind_eq_some_iff.mp taken
    obtain ⟨u, moved, rfl⟩ := Option.map_eq_some_iff.mp rest
    constructor
    · exact ConnOps.step_held linked.held linked.tidy done
    · exact ConnOps.step_tidy linked.tidy done
    · exact run_invariant Ring.Inv (fun _ _ _ inv taken => Ring.step_inv inv taken) linked.ring moved
    · exact table_shown linked.held linked.readers done moved
    · exact run_invariant Halts (fun _ _ _ halts taken => step_halts halts taken) linked.halts moved
    · exact run_invariant Listed (fun _ _ _ listed taken => step_listed listed taken) linked.listed moved
  | ring b =>
    obtain ⟨u, other, moved, rfl⟩ := ring_step taken
    constructor
    · exact linked.held
    · exact linked.tidy
    · exact Ring.step_inv linked.ring moved
    · intro c
      rw [serves_done other moved]
      exact linked.readers c
    · exact step_halts linked.halts moved
    · exact step_listed linked.listed moved

theorem Linked.reader {s : State α} (linked : Linked s) {c : ConnID} (known : s.mgr.life c ≠ .fresh) :
    ∃ k, s.ring.readers c = some k := by
  have life := linked.readers c
  cases held : s.ring.readers c with
  | some k => exact ⟨k, rfl⟩
  | none =>
    rw [held] at life
    cases here : s.mgr.life c with
    | fresh => exact absurd here known
    | «open» => simp [here, shown] at life
    | closed => simp [here, shown] at life

theorem Linked.known {s : State α} (linked : Linked s) {c : ConnID} (held : s.ring.readers c = some k) :
    s.mgr.life c ≠ .fresh := by
  intro fresh
  have life := linked.readers c
  simp [held, fresh, shown] at life

theorem Linked.live {s : State α} (linked : Linked s) {c : ConnID} (held : s.ring.readers c = some k) :
    (if k.done then 0 else 1) = if s.mgr.life c = .open then 1 else 0 := by
  have life := linked.readers c
  rw [held, Option.map_some] at life
  cases here : s.mgr.life c with
  | fresh => exact absurd here (linked.known held)
  | «open» =>
    have done : k.done = false := by simpa [here, shown] using life
    simp [done]
  | closed =>
    have done : k.done = true := by simpa [here, shown] using life
    simp [done]

theorem start_linked : Linked (start : State α) := by
  constructor
  · exact ConnOps.new_held
  · exact ConnOps.new_tidy
  · exact Ring.start_inv
  · exact fun _ => rfl
  · exact fun _ _ held => nomatch held
  · exact ⟨[], fun _ _ held => nomatch held⟩

end Linked

section Untouched

variable {cfg : Config} {s t : State α} {as : List (Action α)}

theorem step_mgr {b : Action α} (taken : step cfg s b = some t) :
    (∃ a, b = .table a ∧ ConnOps.step s.mgr a = some t.mgr) ∨ t.mgr = s.mgr := by
  cases b with
  | table a =>
    obtain ⟨m, done, rest⟩ := Option.bind_eq_some_iff.mp taken
    obtain ⟨u, _, rfl⟩ := Option.map_eq_some_iff.mp rest
    exact Or.inl ⟨a, rfl, done⟩
  | ring b =>
    obtain ⟨u, _, _, rfl⟩ := ring_step taken
    exact Or.inr rfl

theorem run_fresh {c : ConnID} (taken : run (step cfg) s as = some t)
    (other : ∀ a ∈ as, a ≠ .table (.register c)) (fresh : s.mgr.life c = .fresh) :
    t.mgr.life c = .fresh := by
  induction as generalizing s with
  | nil => exact Option.some.inj taken ▸ fresh
  | cons a rest ih =>
    obtain ⟨u, first, rest'⟩ := run_cons_some.mp taken
    apply ih rest' (fun b mem => other b (List.mem_cons_of_mem a mem))
    rcases step_mgr first with ⟨b, rfl, done⟩ | same
    · exact ConnOps.step_fresh fresh (fun same => other _ List.mem_cons_self (same ▸ rfl)) done
    · exact same ▸ fresh

theorem run_unlisted {u : Int} (taken : run (step cfg) s as = some t)
    (other : ∀ a ∈ as, ∀ c, a ≠ .table (.bind u c)) (unlisted : s.mgr.userConns u = none) :
    t.mgr.userConns u = none := by
  induction as generalizing s with
  | nil => exact Option.some.inj taken ▸ unlisted
  | cons a rest ih =>
    obtain ⟨v, first, rest'⟩ := run_cons_some.mp taken
    apply ih rest' (fun b mem => other b (List.mem_cons_of_mem a mem))
    rcases step_mgr first with ⟨b, rfl, done⟩ | same
    · exact ConnOps.step_unlisted unlisted
        (fun c same => other _ List.mem_cons_self c (same ▸ rfl)) done
    · exact same ▸ unlisted

end Untouched

end GameIM.Gateway.Broadcast
