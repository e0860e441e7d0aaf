import Mathlib.Data.List.Basic
import Mathlib.Data.Nat.Find

/-! Counting in fixed windows. A window opens at some moment and lasts for a fixed time; the
next one opens when it is over, or later. A ledger keeps the moments at which windows
opened, and for every event that was let through the number of its window and its time. -/
namespace GameIM.Lib

theorem countP_le_add {α : Type} {p q r : α → Bool} {l : List α}
    (cover : ∀ a ∈ l, p a = true → q a = true ∨ r a = true) :
    l.countP p ≤ l.countP q + l.countP r := by
  induction l with
  | nil => simp
  | cons a rest ih =>
    have tail := ih (fun b hb => cover b (by simp [hb]))
    have head := cover a (by simp)
    simp only [List.countP_cons]
    cases hp : p a with
    | false =>
      simp only [Bool.false_eq_true, if_false]
      omega
    | true =>
      rcases head hp with hq | hr
      · simp only [hq, if_true]
        omega
      · simp only [hr, if_true]
        omega

structure Ledger where
  opened : List Nat
  admitted : List (Nat × Nat)
  deriving DecidableEq, Repr

namespace Ledger

def empty : Ledger := ⟨[], []⟩

def openWindow (g : Ledger) (now : Nat) : Ledger := { g with opened := g.opened ++ [now] }

def letThrough (g : Ledger) (now : Nat) : Ledger :=
  { g with admitted := g.admitted ++ [(g.opened.length - 1, now)] }

/-- How many were let through in a window. -/
def used (g : Ledger) (i : Nat) : Nat := g.admitted.countP fun e => e.1 = i

/-- How many were let through from a moment on, up to a later one. -/
def between (g : Ledger) (start stop : Nat) : Nat :=
  g.admitted.countP fun e => start ≤ e.2 ∧ e.2 < stop

@[simp] theorem openWindow_used (g : Ledger) (now i : Nat) : (g.openWindow now).used i = g.used i := rfl

@[simp] theorem openWindow_last (g : Ledger) (now : Nat) :
    (g.openWindow now).opened.getLast? = some now := by
  simp [openWindow]

@[simp] theorem openWindow_length (g : Ledger) (now : Nat) :
    (g.openWindow now).opened.length = g.opened.length + 1 := by
  simp [openWindow]

structure Sound (width quota now : Nat) (g : Ledger) : Prop where
  spaced : g.opened.Pairwise fun a b => a + width ≤ b
  past : ∀ b ∈ g.opened, b ≤ now
  within : ∀ e ∈ g.admitted, ∃ b, g.opened[e.1]? = some b ∧ b ≤ e.2 ∧ e.2 < b + width
  quota : ∀ i, g.used i ≤ quota

section Sound

variable {width quota now : Nat} {g : Ledger}

theorem empty_sound : Sound width quota now empty :=
  ⟨List.Pairwise.nil, by simp [empty], by simp [empty], fun _ => Nat.zero_le _⟩

theorem Sound.later {moment : Nat} (h : Sound width quota now g) (le : now ≤ moment) :
    Sound width quota moment g :=
  ⟨h.spaced, fun b hb => Nat.le_trans (h.past b hb) le, h.within, h.quota⟩

theorem Sound.used_new (h : Sound width quota now g) : g.used g.opened.length = 0 := by
  refine List.countP_eq_zero.mpr ?_
  intro e he
  obtain ⟨b, opened, _⟩ := h.within e he
  have number : e.1 < g.opened.length := (List.getElem?_eq_some_iff.mp opened).1
  simpa using Nat.ne_of_lt number

theorem Sound.openWindow (h : Sound width quota now g) (ended : ∀ b ∈ g.opened, b + width ≤ now) :
    Sound width quota now (g.openWindow now) := by
  constructor
  · simpa [Ledger.openWindow, List.pairwise_append] using ⟨h.spaced, ended⟩
  · intro b hb
    rcases List.mem_append.mp hb with old | new
    · exact h.past b old
    · exact Nat.le_of_eq (List.mem_singleton.mp new)
  · intro e he
    obtain ⟨b, opened, rest⟩ := h.within e he
    have number : e.1 < g.opened.length := (List.getElem?_eq_some_iff.mp opened).1
    exact ⟨b, (List.getElem?_append_left number).trans opened, rest⟩
  · exact h.quota

theorem used_letThrough (g : Ledger) (now i : Nat) :
    (g.letThrough now).used i = g.used i + if g.opened.length - 1 = i then 1 else 0 := by
  by_cases here : g.opened.length - 1 = i
  · simp [used, letThrough, here]
  · simp [used, letThrough, here]

theorem Sound.letThrough (h : Sound width quota now g) {b : Nat} (last : g.opened.getLast? = some b)
    (running : now < b + width) (room : g.used (g.opened.length - 1) < quota) :
    Sound width quota now (g.letThrough now) := by
  constructor
  · exact h.spaced
  · exact h.past
  · intro e he
    rcases List.mem_append.mp he with old | new
    · exact h.within e old
    · cases List.mem_singleton.mp new
      rw [List.getLast?_eq_getElem?] at last
      exact ⟨b, last, h.past b (List.mem_of_getElem? last), running⟩
  · intro i
    rw [used_letThrough]
    split
    · rename_i here
      subst here
      exact room
    · exact h.quota i

/- Two events less than a width apart are in one window or in neighbours. -/
theorem Sound.near (h : Sound width quota now g) {e f : Nat × Nat} (he : e ∈ g.admitted)
    (hf : f ∈ g.admitted) (close : f.2 < e.2 + width) : f.1 ≤ e.1 + 1 := by
  by_contra far
  obtain ⟨a, openedA, _, during⟩ := h.within e he
  obtain ⟨c, openedC, after, _⟩ := h.within f hf
  obtain ⟨boundA, valueA⟩ := List.getElem?_eq_some_iff.mp openedA
  obtain ⟨boundC, valueC⟩ := List.getElem?_eq_some_iff.mp openedC
  have spaced := List.pairwise_iff_getElem.mp h.spaced
  have first := spaced e.1 (e.1 + 1) boundA (by omega) (by omega)
  have second := spaced (e.1 + 1) f.1 (by omega) boundC (by omega)
  omega

/-- In a stretch of time as long as a window, at most twice the quota. -/
theorem Sound.between_le (h : Sound width quota now g) (start : Nat) :
    g.between start (start + width) ≤ 2 * quota := by
  by_cases some : ∃ i, ∃ e ∈ g.admitted, e.1 = i ∧ start ≤ e.2 ∧ e.2 < start + width
  · obtain ⟨e, he, first, after, before⟩ := Nat.find_spec some
    have least : ∀ f ∈ g.admitted, start ≤ f.2 → f.2 < start + width → e.1 ≤ f.1 := by
      intro f hf lower upper
      rw [first]
      exact Nat.find_min' some ⟨f, hf, rfl, lower, upper⟩
    have split : g.between start (start + width) ≤ g.used e.1 + g.used (e.1 + 1) := by
      refine countP_le_add ?_
      intro f hf inside
      simp only [decide_eq_true_eq] at inside ⊢
      have lower := least f hf inside.1 inside.2
      have upper := h.near he hf (by omega)
      omega
    have one := h.quota e.1
    have two := h.quota (e.1 + 1)
    omega
  · have none : g.between start (start + width) = 0 := by
      refine List.countP_eq_zero.mpr ?_
      intro e he inside
      exact some ⟨e.1, e, he, rfl, by simpa using inside⟩
    omega

end Sound

end Ledger

end GameIM.Lib
