import Mathlib.Data.Set.Card

/-! A set with a counter that is updated apart from it. An element is put in before it is
counted, by one party at a time, and taken out before it is counted off, by many. -/
namespace GameIM.Lib

variable {α : Type}

section Update

variable [DecidableEq α] {β : Type} {p : β → Bool} {f : α → β} {a : α} {v : β}

theorem setOf_update_insert (holds : p v = true) :
    {d | p (Function.update f a v d) = true} = insert a {d | p (f d) = true} := by
  ext d
  by_cases here : d = a
  · simp [here, holds]
  · simp [here]

theorem setOf_update_remove (fails : p v = false) :
    {d | p (Function.update f a v d) = true} = {d | p (f d) = true} \ {a} := by
  ext d
  by_cases here : d = a
  · simp [here, fails]
  · simp [here]

end Update

structure Tally (α : Type) where
  members : Set α
  leaving : Set α
  entering : Option α
  count : Int

namespace Tally

def enter (t : Tally α) (a : α) : Tally α := { t with members := insert a t.members, entering := some a }

def countUp (t : Tally α) : Tally α := { t with entering := none, count := t.count + 1 }

def leave (t : Tally α) (a : α) : Tally α :=
  { t with members := t.members \ {a}, leaving := insert a t.leaving }

def countDown (t : Tally α) (a : α) : Tally α :=
  { t with leaving := t.leaving \ {a}, count := t.count - 1 }

/-- The counter is off by the elements that are not counted or not counted off yet. -/
structure Exact (t : Tally α) : Prop where
  finite : t.members.Finite
  finitely : t.leaving.Finite
  balance : t.count + t.entering.toList.length = t.members.ncard + t.leaving.ncard

variable {t : Tally α} {a : α}

theorem exact_empty : (⟨∅, ∅, none, 0⟩ : Tally α).Exact := by
  refine ⟨Set.finite_empty, Set.finite_empty, ?_⟩
  simp

theorem Exact.enter (exact : t.Exact) (outside : a ∉ t.members) (idle : t.entering = none) :
    (t.enter a).Exact := by
  refine ⟨exact.finite.insert a, exact.finitely, ?_⟩
  have balance := exact.balance
  have grown : (insert a t.members).ncard = t.members.ncard + 1 :=
    Set.ncard_insert_of_notMem outside exact.finite
  simp only [idle, Option.toList_none, List.length_nil] at balance
  simp only [Tally.enter, grown, Option.toList_some, List.length_singleton]
  omega

theorem Exact.countUp (exact : t.Exact) (entered : t.entering = some a) : t.countUp.Exact := by
  refine ⟨exact.finite, exact.finitely, ?_⟩
  have balance := exact.balance
  simp only [entered, Option.toList_some, List.length_singleton] at balance
  simp only [Tally.countUp, Option.toList_none, List.length_nil]
  omega

theorem Exact.leave (exact : t.Exact) (inside : a ∈ t.members) (staying : a ∉ t.leaving) :
    (t.leave a).Exact := by
  refine ⟨exact.finite.sdiff, exact.finitely.insert a, ?_⟩
  have balance := exact.balance
  have fewer : (t.members \ {a}).ncard + 1 = t.members.ncard :=
    Set.ncard_sdiff_singleton_add_one inside exact.finite
  have more : (insert a t.leaving).ncard = t.leaving.ncard + 1 :=
    Set.ncard_insert_of_notMem staying exact.finitely
  simp only [Tally.leave, more]
  omega

theorem Exact.countDown (exact : t.Exact) (left : a ∈ t.leaving) : (t.countDown a).Exact := by
  refine ⟨exact.finite, exact.finitely.sdiff, ?_⟩
  have balance := exact.balance
  have fewer : (t.leaving \ {a}).ncard + 1 = t.leaving.ncard :=
    Set.ncard_sdiff_singleton_add_one left exact.finitely
  simp only [Tally.countDown]
  omega

/- Outside of an entering, the counter never says too little. -/
theorem Exact.card_le (exact : t.Exact) (idle : t.entering = none) :
    (t.members.ncard : Int) ≤ t.count := by
  have balance := exact.balance
  simp only [idle, Option.toList_none, List.length_nil] at balance
  omega

theorem Exact.card_eq (exact : t.Exact) (idle : t.entering = none) (settled : t.leaving = ∅) :
    t.count = t.members.ncard := by
  have balance := exact.balance
  simp only [idle, settled, Option.toList_none, List.length_nil, Set.ncard_empty] at balance
  omega

theorem card_leave_le (finite : t.members.Finite) : (t.leave a).members.ncard ≤ t.members.ncard :=
  Set.ncard_le_ncard Set.sdiff_subset finite

theorem card_enter_le : (t.enter a).members.ncard ≤ t.members.ncard + 1 :=
  Set.ncard_insert_le a t.members

end Tally

end GameIM.Lib
