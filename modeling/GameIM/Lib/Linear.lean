import Mathlib.Data.List.Nodup
import GameIM.Lib.Keyed

/-! Calls of a keyed store beside a model of what they do. The store shows a state of the model;
some of the scripts have a part in the model, and act on what is shown as their part does on
the model's state; the others leave what is shown as it is. Then every run of the store is a
run of the model, one part at a time, and the replies are the results of parts of that run.
Nothing here is about a particular store. -/
namespace GameIM.Lib.Keyed

variable {K C A V R O E M P Q : Type} [DecidableEq K]

/-- A part that was taken, for the script at a place of a call, and its result. -/
structure Taken (P Q : Type) where
  call : Nat
  place : Nat
  part : P
  result : Q
  deriving DecidableEq, Repr

structure Logged (M P Q : Type) where
  now : Nat
  state : M
  log : List (Taken P Q)

inductive Move (P : Type) where
  | take (call place : Nat) (part : P)
  | pass (ms : Nat)

/-- `part` is the part in the model of the script at a place of a batch, and `means` tells which
replies stand for a result. -/
structure Model (K A V O M P Q : Type) where
  act : Nat → P → M → Q × M
  pass : Nat → M → M
  view : Nat → (K → V) → M → Prop
  part : O → Nat → P → Prop
  means : P → A → Q → Prop

def Model.step (mdl : Model K A V O M P Q) (m : Logged M P Q) : Move P → Option (Logged M P Q)
  | .take call place part =>
    let done := mdl.act m.now part m.state
    some ⟨m.now, done.2, m.log ++ [⟨call, place, part, done.1⟩]⟩
  | .pass ms => some ⟨m.now + ms, mdl.pass ms m.state, m.log⟩

section Linear

variable (sys : System K C A V R O E) (mdl : Model K A V O M P Q)

structure Follows : Prop where
  one : ∀ op j p p', mdl.part op j p → mdl.part op j p' → p = p'
  passes : ∀ now ms store m, mdl.view now store m → mdl.view (now + ms) store (mdl.pass ms m)
  acts : ∀ op j p script, mdl.part op j p → (sys.request op).batch[j]? = some script →
    ∀ now store m, mdl.view now store m →
      mdl.means p (script.exec (sys.apply now) store).1 (mdl.act now p m).1 ∧
        mdl.view now (script.exec (sys.apply now) store).2 (mdl.act now p m).2

/-- Every script of the operation has a part in the model or leaves what is shown. -/
def Known (op : O) : Prop :=
  ∀ j script, (sys.request op).batch[j]? = some script → (∃ p, mdl.part op j p) ∨
    ∀ now store m, mdl.view now store m → mdl.view now (script.exec (sys.apply now) store).2 m

def Told (log : List (Taken P Q)) (i : Nat) (op : O) (j : Nat) (a : A) : Prop :=
  ∀ p, mdl.part op j p → ∃ q, ⟨i, j, p, q⟩ ∈ log ∧ mdl.means p a q

structure Linear (s : State K V O A R) (m : Logged M P Q) : Prop where
  clock : m.now = s.now
  shown : mdl.view s.now s.store m.state
  known : ∀ call ∈ s.calls, Known sys mdl call.op
  calls : s.Good sys (Told mdl m.log)
  origin : ∀ e ∈ m.log, ∃ call, s.calls[e.call]? = some call ∧ mdl.part call.op e.place e.part

variable {sys mdl}

omit [DecidableEq K] in
theorem Told.append {log : List (Taken P Q)} {i : Nat} {op : O} {j : Nat} {a : A} (told : Told mdl log i op j a)
    (more : List (Taken P Q)) : Told mdl (log ++ more) i op j a := by
  intro p part
  obtain ⟨q, listed, means⟩ := told p part
  exact ⟨q, List.mem_append_left more listed, means⟩

theorem linear_idle {s : State K V O A R} {m : M} (idle : s.calls = []) (shown : mdl.view s.now s.store m) :
    Linear sys mdl s ⟨s.now, m, []⟩ := by
  refine ⟨rfl, shown, ?_, State.good_idle sys _ idle, fun _ none => nomatch none⟩
  rw [idle]
  intro call member
  contradiction

theorem step_kept {s t : State K V O A R} {a : Action O E} (taken : step sys s a = some t) {i : Nat}
    {call : Call O A R} (found : s.calls[i]? = some call) :
    ∃ call', t.calls[i]? = some call' ∧ call'.op = call.op ∧
      ((∀ j, a ≠ .resend j) → call.served.length ≤ call'.served.length) := by
  have set : ∀ {j old} (new : Call O A R), s.waiting j = some old → new.op = old.op →
      ((∀ j, a ≠ .resend j) → old.served.length ≤ new.served.length) →
      ∃ call', (s.calls.set j new)[i]? = some call' ∧ call'.op = call.op ∧
        ((∀ j, a ≠ .resend j) → call.served.length ≤ call'.served.length) := by
    intro j old new waits kept more
    by_cases same : j = i
    · subst same
      cases Option.some.inj ((waiting_some waits).1.symm.trans found)
      exact ⟨new, List.getElem?_set_self (List.getElem?_eq_some_iff.mp found).1, kept, more⟩
    · exact ⟨call, (List.getElem?_set_ne same).trans found, rfl, fun _ => Nat.le_refl _⟩
  cases step_effect taken with
  | start =>
    have within := (List.getElem?_eq_some_iff.mp found).1
    exact ⟨call, (List.getElem?_append_left within).trans found, rfl, fun _ => Nat.le_refl _⟩
  | serve waits _ => exact set _ waits rfl fun _ => by simp
  | answer waits _ => exact set _ waits rfl fun _ => Nat.le_refl _
  | resend waits => exact set _ waits rfl fun single => absurd rfl (single _)
  | fail waits => exact set _ waits rfl fun _ => Nat.le_refl _
  | tick => exact ⟨call, found, rfl, fun _ => Nat.le_refl _⟩

theorem Linear.kept {s t : State K V O A R} {m : Logged M P Q} {a : Action O E} (linear : Linear sys mdl s m)
    (taken : step sys s a = some t) :
    ∀ e ∈ m.log, ∃ call, t.calls[e.call]? = some call ∧ mdl.part call.op e.place e.part := by
  intro e listed
  obtain ⟨call, found, part⟩ := linear.origin e listed
  obtain ⟨call', found', same, _⟩ := step_kept taken found
  exact ⟨call', found', same ▸ part⟩

theorem Linear.unmoved {s t : State K V O A R} {m n : Logged M P Q} {a : Action O E} (linear : Linear sys mdl s m)
    (known : ∀ op, a = .start op → Known sys mdl op) (taken : step sys s a = some t) (same : n.log = m.log)
    (clock : n.now = t.now) (shown : mdl.view t.now t.store n.state)
    (none : ∀ i call, a = .serve i → s.waiting i = some call → ∀ p, ¬ mdl.part call.op call.served.length p) :
    Linear sys mdl t n := by
  refine ⟨clock, shown, step_ops (Known sys mdl) linear.known known taken, ?_, same ▸ linear.kept taken⟩
  rw [same]
  refine step_good linear.calls (fun _ _ _ _ told => told) taken ?_
  intro i call script serves found _ p part
  exact absurd part (none i call serves found p)

inductive Moves (mdl : Model K A V O M P Q) (s : State K V O A R) (a : Action O E) : List (Move P) → Prop where
  | take {i call p} : a = .serve i → s.waiting i = some call → mdl.part call.op call.served.length p →
      Moves mdl s a [.take i call.served.length p]
  | pass {ms} : a = .tick ms → Moves mdl s a [.pass ms]
  | none : (∀ i call, a = .serve i → s.waiting i = some call → ∀ p, ¬ mdl.part call.op call.served.length p) →
      Moves mdl s a []

theorem step_linear (follows : Follows sys mdl) {s t : State K V O A R} {m : Logged M P Q} {a : Action O E}
    (linear : Linear sys mdl s m) (known : ∀ op, a = .start op → Known sys mdl op)
    (taken : step sys s a = some t) :
    ∃ bs n, run mdl.step m bs = some n ∧ Linear sys mdl t n ∧ Moves mdl s a bs := by
  have still : t.now = s.now → t.store = s.store → (∀ i, a ≠ .serve i) →
      ∃ bs n, run mdl.step m bs = some n ∧ Linear sys mdl t n ∧ Moves mdl s a bs := by
    intro now store other
    have idle : ∀ i call, a = .serve i → s.waiting i = some call → ∀ p, ¬ mdl.part call.op call.served.length p :=
      fun i _ serves => absurd serves (other i)
    refine ⟨[], m, rfl, linear.unmoved known taken rfl (linear.clock.trans now.symm) ?_ idle, .none idle⟩
    rw [now, store]
    exact linear.shown
  cases step_effect taken with
  | @serve i call script found sent =>
    by_cases has : ∃ p, mdl.part call.op call.served.length p
    · obtain ⟨p, part⟩ := has
      obtain ⟨means, shown⟩ := follows.acts call.op _ p script part sent s.now s.store m.state linear.shown
      refine ⟨[.take i call.served.length p], _, rfl,
        ⟨linear.clock, ?_, step_ops (Known sys mdl) linear.known known taken, ?_, ?_⟩, .take rfl found part⟩
      · rw [linear.clock]
        exact shown
      · refine step_good linear.calls (fun _ _ _ _ told => told.append _) taken ?_
        intro i' call' script' same found' sent' p' part'
        cases Action.serve.inj same
        cases Option.some.inj (found.symm.trans found')
        cases Option.some.inj (sent.symm.trans sent')
        cases follows.one _ _ p p' part part'
        refine ⟨_, List.mem_append_right _ (List.mem_singleton_self _), ?_⟩
        rw [linear.clock]
        exact means
      · intro e listed
        rcases List.mem_append.mp listed with old | new
        · exact linear.kept taken e old
        · cases List.mem_singleton.mp new
          obtain ⟨call', found', same, _⟩ := step_kept taken (waiting_some found).1
          exact ⟨call', found', same ▸ part⟩
    · have knows := linear.known call (List.mem_of_getElem? (waiting_some found).1)
      have leaves := (knows _ script sent).resolve_left has
      have shown := leaves s.now s.store m.state linear.shown
      have idle : ∀ i' call', (.serve i : Action O E) = .serve i' → s.waiting i' = some call' →
          ∀ p, ¬ mdl.part call'.op call'.served.length p := by
        intro i' call' same found' p part
        cases Action.serve.inj same
        cases Option.some.inj (found.symm.trans found')
        exact has ⟨p, part⟩
      exact ⟨[], m, rfl, linear.unmoved known taken rfl linear.clock shown idle, .none idle⟩
  | @tick ms =>
    refine ⟨[.pass ms], _, rfl, linear.unmoved known taken rfl ?_ ?_ (fun _ _ same => nomatch same), .pass rfl⟩
    · exact congrArg (· + ms) linear.clock
    · exact follows.passes s.now ms s.store m.state linear.shown
  | start => exact still rfl rfl fun _ same => nomatch same
  | answer _ _ => exact still rfl rfl fun _ same => nomatch same
  | resend _ => exact still rfl rfl fun _ same => nomatch same
  | fail _ => exact still rfl rfl fun _ same => nomatch same

/-- No part was taken twice for a place of a call. -/
structure Once (s : State K V O A R) (log : List (Taken P Q)) : Prop where
  each : (log.map fun e => (e.call, e.place)).Nodup
  served : ∀ e ∈ log, ∃ call, s.calls[e.call]? = some call ∧ e.place < call.served.length

theorem step_once {s t : State K V O A R} {m n : Logged M P Q} {a : Action O E} {bs : List (Move P)}
    (once : Once s m.log) (single : ∀ i, a ≠ .resend i) (taken : step sys s a = some t)
    (moves : Moves mdl s a bs) (reached : run mdl.step m bs = some n) : Once t n.log := by
  have old : ∀ e ∈ m.log, ∃ call, t.calls[e.call]? = some call ∧ e.place < call.served.length := by
    intro e listed
    obtain ⟨call, found, within⟩ := once.served e listed
    obtain ⟨call', found', _, more⟩ := step_kept taken found
    exact ⟨call', found', Nat.lt_of_lt_of_le within (more single)⟩
  cases moves with
  | none _ =>
    cases Option.some.inj reached
    exact ⟨once.each, old⟩
  | pass _ =>
    cases Option.some.inj reached
    exact ⟨once.each, old⟩
  | @take i call p serves waits part =>
    cases Option.some.inj reached
    subst serves
    constructor
    · rw [List.map_append]
      refine List.nodup_append.mpr ⟨once.each, List.pairwise_singleton _ _, ?_⟩
      intro x before y new same
      cases List.mem_singleton.mp new
      obtain ⟨e, listed, place⟩ := List.mem_map.mp (same ▸ before)
      obtain ⟨rfl, long⟩ := Prod.mk.inj place
      obtain ⟨call', found', within⟩ := once.served e listed
      cases Option.some.inj ((waiting_some waits).1.symm.trans found')
      exact absurd long (Nat.ne_of_lt within)
    · intro e listed
      rcases List.mem_append.mp listed with before | new
      · exact old e before
      · cases List.mem_singleton.mp new
        cases step_effect taken with
        | @serve _ call' script waits' sent =>
          cases Option.some.inj (waits.symm.trans waits')
          refine ⟨_, List.getElem?_set_self (List.getElem?_eq_some_iff.mp (waiting_some waits).1).1, ?_⟩
          simp

/-- Every run of the store is a run of the model, with parts of the operations that were started;
and if no request is sent twice, with no part twice. -/
theorem run_linear (follows : Follows sys mdl) (N : O → Prop) {s t : State K V O A R} {m : Logged M P Q}
    {as : List (Action O E)} (linear : Linear sys mdl s m) (before : ∀ call ∈ s.calls, N call.op)
    (known : ∀ op, .start op ∈ as → Known sys mdl op ∧ N op) (taken : run (step sys) s as = some t) :
    ∃ bs n, run mdl.step m bs = some n ∧ Linear sys mdl t n ∧
      (∀ i j p, .take i j p ∈ bs → ∃ op, N op ∧ mdl.part op j p) ∧
      (Once s m.log → (∀ i, .resend i ∉ as) → Once t n.log) := by
  induction as generalizing s m with
  | nil =>
    cases Option.some.inj taken
    exact ⟨[], m, rfl, linear, (fun _ _ _ none => nomatch none), fun once _ => once⟩
  | cons a rest ih =>
    obtain ⟨u, first, later⟩ := run_cons_some.mp taken
    have here : ∀ op, a = .start op → Known sys mdl op ∧ N op := fun op same => known op (same ▸ List.mem_cons_self)
    obtain ⟨bs, n, reached, next, moves⟩ := step_linear follows linear (fun op same => (here op same).1) first
    have after := step_ops N before (fun op same => (here op same).2) first
    obtain ⟨cs, o, ended, last, others, onces⟩ :=
      ih next after (fun op member => known op (List.mem_cons_of_mem a member)) later
    refine ⟨bs ++ cs, o, run_append_some.mpr ⟨n, reached, ended⟩, last, ?_, ?_⟩
    · intro i j p listed
      rcases List.mem_append.mp listed with now | second
      · cases moves with
        | @take _ call _ _ waits part =>
          cases List.mem_singleton.mp now
          exact ⟨call.op, before call (List.mem_of_getElem? (waiting_some waits).1), part⟩
        | pass _ => cases List.mem_singleton.mp now
        | none _ => contradiction
      · exact others i j p second
    · intro once unsent
      have single : ∀ i, a ≠ .resend i := fun i same => unsent i (same ▸ List.mem_cons_self)
      exact onces (step_once once single first moves reached) fun i member => unsent i (List.mem_cons_of_mem a member)

/-- The answer of a call with one script, which has a part, is read off the reply to that part or
off the lost reply. -/
theorem Linear.answer {s : State K V O A R} {m : Logged M P Q} (linear : Linear sys mdl s m) {i : Nat}
    {call : Call O A R} (found : s.calls[i]? = some call) {script : Script K C A}
    (single : (sys.request call.op).batch = [script]) {p : P} (part : mdl.part call.op 0 p) {r : R}
    (answer : call.answer = some r) : ∃ a, r = (sys.request call.op).read [a] ∧
      ((∃ q, ⟨i, 0, p, q⟩ ∈ m.log ∧ mdl.means p a q) ∨ ∃ e, a = sys.lost e) := by
  obtain ⟨replies, read, length, each⟩ := (linear.calls i call found).answered r answer
  rw [single, List.length_singleton] at length
  obtain ⟨a, rfl⟩ := List.length_eq_one_iff.mp length
  exact ⟨a, read, (each 0 a rfl).imp_left fun told => told p part⟩

end Linear

end GameIM.Lib.Keyed
