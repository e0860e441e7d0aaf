import GameIM.Lib.Keyed

/-! Cells of a keyed store that a batch leaves unsettled until its last script is executed. A cell
is settled, or a call that is to settle it has scripts left. Nothing here is about a particular
store. -/
namespace GameIM.Lib.Keyed

variable {K C A V R O E : Type}

section Owed

variable (sys : System K C A V R O E) (fine : K → V → Prop) (owes : O → K → Prop)

/-- Scripts of the batch were not executed, since it was sent last. -/
def Unfinished (call : Call O A R) : Prop := call.served.length < (sys.request call.op).batch.length

def Owed (k : K) (s : State K V O A R) : Prop :=
  fine k (s.store k) ∨
    ∃ (i : Nat) (call : Call O A R), s.calls[i]? = some call ∧ owes call.op k ∧ Unfinished sys call

/-- A script keeps a cell settled unless its operation is to settle it with the last one, and the
last one settles it. -/
structure Settles [DecidableEq K] : Prop where
  keeps : ∀ (op : O) (j : Nat) (script : Script K C A), (sys.request op).batch[j]? = some script → ∀ k, ¬ owes op k →
    ∀ (now : Nat) (store : K → V), fine k (store k) → fine k ((script.exec (sys.apply now) store).2 k)
  settles : ∀ (op : O) (j : Nat) (script : Script K C A), (sys.request op).batch[j]? = some script →
    j + 1 = (sys.request op).batch.length → ∀ k, owes op k → ∀ (now : Nat) (store : K → V),
    fine k ((script.exec (sys.apply now) store).2 k)

variable {sys fine owes} {s t : State K V O A R} {k : K}

theorem owed_elsewhere {i j : Nat} {call : Call O A R} (new : Call O A R) (found : s.calls[j]? = some call)
    (other : j ≠ i) : (s.calls.set i new)[j]? = some call := by
  rw [List.getElem?_set_ne other.symm]
  exact found

theorem set_found {i : Nat} {call : Call O A R} (new : Call O A R) (found : s.waiting i = some call) :
    (s.calls.set i new)[i]? = some new := by
  have within := (List.getElem?_eq_some_iff.mp (waiting_some found).1).1
  exact List.getElem?_set_self within

variable [DecidableEq K]

theorem serve_owed (rules : Settles sys fine owes) (owed : Owed sys fine owes k s) {i : Nat} {call : Call O A R}
    {script : Script K C A} (found : s.waiting i = some call)
    (sent : (sys.request call.op).batch[call.served.length]? = some script) :
    Owed sys fine owes k ({ s with store := (script.exec (sys.apply s.now) s.store).2 }.setCall i
      { call with served := call.served ++ [(script.exec (sys.apply s.now) s.store).1] }) := by
  have within := (List.getElem?_eq_some_iff.mp sent).1
  by_cases debtor : owes call.op k
  · by_cases last : call.served.length + 1 = (sys.request call.op).batch.length
    · exact Or.inl (rules.settles call.op _ script sent last k debtor s.now s.store)
    · refine Or.inr ⟨i, _, set_found _ found, debtor, ?_⟩
      simp only [Unfinished, List.length_append, List.length_singleton]
      omega
  · rcases owed with settled | ⟨j, call', there, debt, unfinished⟩
    · exact Or.inl (rules.keeps call.op _ script sent k debtor s.now s.store settled)
    · have other : j ≠ i := by
        rintro rfl
        cases Option.some.inj (there.symm.trans (waiting_some found).1)
        exact debtor debt
      exact Or.inr ⟨j, call', owed_elsewhere _ there other, debt, unfinished⟩

theorem step_owed (rules : Settles sys fine owes) {a : Action O E} (owed : Owed sys fine owes k s)
    (taken : step sys s a = some t) : Owed sys fine owes k t := by
  -- the call that changes may be the one that owes
  have set : ∀ {i call} (new : Call O A R), s.waiting i = some call → new.op = call.op →
      (Unfinished sys call → Unfinished sys new) → Owed sys fine owes k (s.setCall i new) := by
    intro i call new found same still
    rcases owed with settled | ⟨j, call', there, debt, unfinished⟩
    · exact Or.inl settled
    · by_cases here : j = i
      · subst here
        cases Option.some.inj (there.symm.trans (waiting_some found).1)
        exact Or.inr ⟨j, new, set_found new found, same ▸ debt, still unfinished⟩
      · exact Or.inr ⟨j, call', owed_elsewhere new there here, debt, unfinished⟩
  cases step_effect taken with
  | start =>
    rcases owed with settled | ⟨j, call, there, debt, unfinished⟩
    · exact Or.inl settled
    · have within := (List.getElem?_eq_some_iff.mp there).1
      exact Or.inr ⟨j, call, by rw [List.getElem?_append_left within, there], debt, unfinished⟩
  | serve found sent => exact serve_owed rules owed found sent
  | answer found _ => exact set _ found rfl id
  | resend found => exact set _ found rfl fun unfinished => Nat.lt_of_le_of_lt (Nat.zero_le _) unfinished
  | fail found => exact set _ found rfl id
  | tick => exact owed

/-- However the calls are mixed, a cell is settled or a call owes it. -/
theorem run_owed (rules : Settles sys fine owes) {as : List (Action O E)} (owed : Owed sys fine owes k s)
    (taken : run (step sys) s as = some t) : Owed sys fine owes k t :=
  run_invariant (Owed sys fine owes k) (fun _ _ _ before taken => step_owed rules before taken) owed taken

end Owed

section Complete

variable [DecidableEq K] {sys : System K C A V R O E} {s t : State K V O A R}

def Action.isFail : Action O E → Bool
  | .fail _ _ _ => true
  | _ => false

theorem step_complete {a : Action O E} (before : ∀ call ∈ s.calls, call.answer.isSome = true → ¬ Unfinished sys call)
    (kept : a.isFail = false) (taken : step sys s a = some t) :
    ∀ call ∈ t.calls, call.answer.isSome = true → ¬ Unfinished sys call := by
  have set : ∀ i (new : Call O A R), (new.answer.isSome = true → ¬ Unfinished sys new) →
      ∀ call ∈ s.calls.set i new, call.answer.isSome = true → ¬ Unfinished sys call := by
    intro i new fine call member
    rcases List.mem_or_eq_of_mem_set member with old | rfl
    · exact before call old
    · exact fine
  cases step_effect taken with
  | start =>
    intro call member
    rcases List.mem_append.mp member with old | started
    · exact before call old
    · cases List.mem_singleton.mp started
      exact fun answered => (Bool.false_ne_true answered).elim
  | serve found sent =>
    refine set _ _ ?_
    rw [(waiting_some found).2]
    exact fun answered => (Bool.false_ne_true answered).elim
  | answer found complete => exact set _ _ fun _ unfinished => Nat.ne_of_lt unfinished complete
  | resend found =>
    refine set _ _ ?_
    rw [(waiting_some found).2]
    exact fun answered => (Bool.false_ne_true answered).elim
  | fail found => contradiction
  | tick => exact before

theorem run_complete {as : List (Action O E)} (idle : s.calls = []) (kept : ∀ a ∈ as, a.isFail = false)
    (taken : run (step sys) s as = some t) : ∀ call ∈ t.calls, call.answer.isSome = true → ¬ Unfinished sys call := by
  have guarded : Meets (step sys) (fun _ a => a.isFail = false) s as :=
    (meets_true s as).imp fun _ a member _ => kept a member
  refine run_invariant_meets (fun s => ∀ call ∈ s.calls, call.answer.isSome = true → ¬ Unfinished sys call)
    (fun _ _ _ before kept taken => step_complete before kept taken) ?_ guarded taken
  intro call member
  rw [idle] at member
  contradiction

end Complete

end GameIM.Lib.Keyed
