import Mathlib.Data.List.Sort
import Mathlib.Order.MinMax

/-! Reading a set of items page by page. The reader's cursor is the largest item it
has seen, and every page holds items above the cursor. Such a reader has seen all
items up to its cursor as long as no page leaves out an item below its largest one,
and never gets to see an item that a page has left out. -/
namespace GameIM.Lib

variable {α : Type} [LinearOrder α]

structure Reader (α : Type) where
  cursor : α
  seen : List α

def newest (cursor : α) (page : List α) : α := page.foldl max cursor

def Reader.turn (r : Reader α) (page : List α) : Reader α := ⟨newest r.cursor page, r.seen ++ page⟩

theorem le_newest (cursor : α) (page : List α) : cursor ≤ newest cursor page := by
  induction page generalizing cursor with
  | nil => exact le_refl cursor
  | cons x rest ih => exact le_trans (le_max_left cursor x) (ih (max cursor x))

theorem mem_le_newest {cursor x : α} {page : List α} (mem : x ∈ page) : x ≤ newest cursor page := by
  induction page generalizing cursor with
  | nil => contradiction
  | cons y rest ih =>
    rcases List.mem_cons.mp mem with rfl | later
    · exact le_trans (le_max_right cursor x) (le_newest (max cursor x) rest)
    · exact ih later

theorem newest_mem (cursor : α) (page : List α) :
    newest cursor page = cursor ∨ newest cursor page ∈ page := by
  induction page generalizing cursor with
  | nil => exact Or.inl rfl
  | cons x rest ih =>
    rcases ih (max cursor x) with same | later
    · rcases max_choice cursor x with left | right
      · exact Or.inl (same.trans left)
      · exact Or.inr (List.mem_cons.mpr (Or.inl (same.trans right)))
    · exact Or.inr (List.mem_cons_of_mem x later)

theorem newest_mono {cursor : α} {page other : List α} (sub : ∀ x ∈ page, x ∈ other) :
    newest cursor page ≤ newest cursor other := by
  rcases newest_mem cursor page with same | mem
  · rw [same]
    exact le_newest cursor other
  · exact mem_le_newest (sub _ mem)

/-- The page leaves out no item between the cursor and its own largest item. -/
def Covers (items : α → Prop) (cursor : α) (page : List α) : Prop :=
  ∀ x, items x → cursor < x → x ≤ newest cursor page → x ∈ page

theorem covers_nil (items : α → Prop) (cursor : α) : Covers items cursor [] :=
  fun _ _ above below => absurd above (not_lt.mpr below)

theorem covers_reverse {items : α → Prop} {cursor : α} {page : List α} :
    Covers items cursor page.reverse ↔ Covers items cursor page := by
  have same : newest cursor page.reverse = newest cursor page :=
    le_antisymm (newest_mono (by simp)) (newest_mono (by simp))
  simp only [Covers, same, List.mem_reverse]

def Complete (items : α → Prop) (start : α) (r : Reader α) : Prop :=
  ∀ x, items x → start < x → x ≤ r.cursor → x ∈ r.seen

def Skipped (items : α → Prop) (start : α) (r : Reader α) (x : α) : Prop :=
  items x ∧ start < x ∧ x ≤ r.cursor ∧ x ∉ r.seen

section Turn

variable {items : α → Prop} {start : α} {r : Reader α} {page : List α}

theorem Complete.turn (complete : Complete items start r) (covers : Covers items r.cursor page) :
    Complete items start (r.turn page) := by
  intro x item above below
  by_cases known : x ≤ r.cursor
  · exact List.mem_append_left page (complete x item above known)
  · exact List.mem_append_right r.seen (covers x item (not_le.mp known) below)

theorem Skipped.turn {x : α} (skipped : Skipped items start r x) (ahead : ∀ y ∈ page, r.cursor < y) :
    Skipped items start (r.turn page) x := by
  obtain ⟨item, above, below, unseen⟩ := skipped
  refine ⟨item, above, le_trans below (le_newest r.cursor page), ?_⟩
  intro mem
  rcases List.mem_append.mp mem with old | new
  · exact unseen old
  · exact absurd below (not_le.mpr (ahead x new))

theorem turn_skips (seen : ∀ y ∈ r.seen, y ≤ r.cursor) (began : start ≤ r.cursor)
    (gap : ¬ Covers items r.cursor page) : ∃ x, Skipped items start (r.turn page) x := by
  unfold Covers at gap
  push Not at gap
  obtain ⟨x, item, above, below, missing⟩ := gap
  refine ⟨x, item, lt_of_le_of_lt began above, below, ?_⟩
  intro mem
  rcases List.mem_append.mp mem with old | new
  · exact absurd above (not_lt.mpr (seen x old))
  · exact missing new

theorem turn_seen (page : List α) (seen : ∀ y ∈ r.seen, y ≤ r.cursor) :
    ∀ y ∈ (r.turn page).seen, y ≤ (r.turn page).cursor := by
  intro y mem
  rcases List.mem_append.mp mem with old | new
  · exact le_trans (seen y old) (le_newest r.cursor page)
  · exact mem_le_newest new

end Turn

/-- The first items above the cursor, in ascending order, are a page without gaps. -/
theorem take_covers {items : α → Prop} {cursor : α} {sorted : List α} (limit : Nat)
    (ascending : sorted.Pairwise (· ≤ ·)) (all : ∀ x, items x → cursor < x → x ∈ sorted) :
    Covers items cursor (sorted.take limit) := by
  intro x item above below
  have mem := all x item above
  rw [← List.take_append_drop limit sorted] at mem ascending
  rcases List.mem_append.mp mem with here | later
  · exact here
  · rcases newest_mem cursor (sorted.take limit) with same | largest
    · exact absurd above (not_lt.mpr (same ▸ below))
    · have le := (List.pairwise_append.mp ascending).2.2 _ largest x later
      exact le_antisymm le below ▸ largest

end GameIM.Lib
