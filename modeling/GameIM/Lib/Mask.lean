import GameIM.Lib.Text

/-! Search and replace through a key. The elements of a text are compared by their keys, as
letters are when their case does not matter, and what is found makes way for a filling. -/
namespace GameIM.Lib.Text

section Definition

variable {α β : Type} [DecidableEq β] (key : α → β) (sub : List β) (fill : List α)

def maskFrom : List α → Nat → List α
  | [], _ => []
  | _ :: rest, skip + 1 => maskFrom rest skip
  | a :: rest, 0 =>
    if sub <+: (a :: rest).map key then fill ++ maskFrom rest (sub.length - 1)
    else a :: maskFrom rest 0

/-- The text with the filling wherever the keys are found, from left to right, each time after
the end of the last. -/
def mask (text : List α) : List α := maskFrom key sub fill text 0

end Definition

variable {α β : Type} [DecidableEq β] {key : α → β} {sub word : List β} {fill : List α}

theorem maskFrom_skip (text : List α) (skip : Nat) :
    maskFrom key sub fill text skip = mask key sub fill (text.drop skip) := by
  induction text generalizing skip with
  | nil =>
    rw [List.drop_nil]
    rfl
  | cons a rest ih =>
    cases skip with
    | zero => rfl
    | succ skip => exact ih skip

theorem mask_index (nonempty : sub ≠ []) (text : List α) :
    mask key sub fill text = match index sub (text.map key) with
      | none => text
      | some k => text.take k ++ fill ++ mask key sub fill (text.drop (k + sub.length)) := by
  induction text with
  | nil => simp [index, nonempty, mask, maskFrom]
  | cons a rest ih =>
    rw [mask, maskFrom, List.map_cons, index]
    by_cases here : sub <+: key a :: rest.map key
    · obtain ⟨n, width⟩ : ∃ n, sub.length = n + 1 :=
        Nat.exists_eq_succ_of_ne_zero fun empty => nonempty (List.length_eq_zero_iff.mp empty)
      simp only [if_pos here, maskFrom_skip, width, Nat.add_sub_cancel, Nat.zero_add,
        List.drop_succ_cons, List.take_zero, List.nil_append]
    · rw [if_neg here, if_neg here, ← mask, ih]
      cases index sub (rest.map key) with
      | none => rfl
      | some k =>
        have next : k + 1 + sub.length = k + sub.length + 1 := by omega
        simp only [Option.map_some, next, List.drop_succ_cons, List.take_succ_cons, List.cons_append]

theorem mem_of_mem_maskFrom {a : α} {text : List α} {skip : Nat}
    (member : a ∈ maskFrom key sub fill text skip) : a ∈ text ∨ a ∈ fill := by
  induction text generalizing skip with
  | nil => contradiction
  | cons b rest ih =>
    have later {skip : Nat} (member : a ∈ maskFrom key sub fill rest skip) : a ∈ b :: rest ∨ a ∈ fill :=
      (ih member).imp_left (List.mem_cons_of_mem b)
    cases skip with
    | succ skip => exact later member
    | zero =>
      rw [maskFrom] at member
      split at member
      · rcases List.mem_append.mp member with filling | behind
        · exact .inr filling
        · exact later behind
      · rcases List.mem_cons.mp member with rfl | behind
        · exact .inl List.mem_cons_self
        · exact later behind

omit [DecidableEq β] in
theorem infix_of_append (nonempty : word ≠ []) {front back : List β} (apart : ∀ x ∈ front, x ∉ word)
    (occurs : word <:+: front ++ back) : word <:+: back := by
  induction front with
  | nil => exact occurs
  | cons x front ih =>
    rcases List.infix_cons_iff.mp occurs with begins | later
    · obtain ⟨y, rest, rfl⟩ := List.exists_cons_of_ne_nil nonempty
      obtain ⟨rfl, _⟩ := List.cons_prefix_cons.mp begins
      exact absurd List.mem_cons_self (apart y List.mem_cons_self)
    · exact ih (fun y member => apart y (List.mem_cons_of_mem x member)) later

section Filled

variable (filled : fill ≠ [])
include filled

theorem prefix_of_mask (apart : ∀ a ∈ fill, key a ∉ word) {text : List α}
    (begins : word <+: (mask key sub fill text).map key) : word <+: text.map key := by
  induction text generalizing word with
  | nil => exact begins
  | cons a rest ih =>
    cases word with
    | nil => exact List.nil_prefix
    | cons x word =>
      rw [mask, maskFrom] at begins
      split at begins
      · obtain ⟨f, fs, rfl⟩ := List.exists_cons_of_ne_nil filled
        rw [List.cons_append, List.map_cons] at begins
        obtain ⟨rfl, _⟩ := List.cons_prefix_cons.mp begins
        exact absurd List.mem_cons_self (apart f List.mem_cons_self)
      · rw [List.map_cons] at begins ⊢
        obtain ⟨rfl, later⟩ := List.cons_prefix_cons.mp begins
        refine List.cons_prefix_cons.mpr ⟨rfl, ih (fun f member => ?_) later⟩
        exact fun found => apart f member (List.mem_cons_of_mem _ found)

/-- A filling that has nothing of the word does not bring it about: the word stands in the
text itself, at a place where what was searched does not. -/
theorem found_of_maskFrom (nonempty : word ≠ []) (apart : ∀ a ∈ fill, key a ∉ word) {text : List α}
    {skip : Nat} (occurs : word <:+: (maskFrom key sub fill text skip).map key) :
    ∃ tail, tail <:+ text ∧ word <+: tail.map key ∧ ¬ sub <+: tail.map key := by
  induction text generalizing skip with
  | nil => exact absurd (List.infix_nil.mp occurs) nonempty
  | cons a rest ih =>
    have later {skip : Nat} (occurs : word <:+: (maskFrom key sub fill rest skip).map key) :
        ∃ tail, tail <:+ a :: rest ∧ word <+: tail.map key ∧ ¬ sub <+: tail.map key := by
      obtain ⟨tail, ends, found⟩ := ih occurs
      exact ⟨tail, ends.trans (List.suffix_cons a rest), found⟩
    cases skip with
    | succ skip => exact later occurs
    | zero =>
      rw [maskFrom] at occurs
      split at occurs
      · rw [List.map_append] at occurs
        refine later (infix_of_append nonempty ?_ occurs)
        rintro _ member
        obtain ⟨f, inside, rfl⟩ := List.mem_map.mp member
        exact apart f inside
      · rename_i other
        rw [List.map_cons] at occurs
        rcases List.infix_cons_iff.mp occurs with begins | behind
        · have whole : mask key sub fill (a :: rest) = a :: maskFrom key sub fill rest 0 := by
            rw [mask, maskFrom, if_neg other]
          rw [← List.map_cons, ← whole] at begins
          exact ⟨a :: rest, List.suffix_rfl, prefix_of_mask filled apart begins, other⟩
        · exact later behind

theorem infix_of_mask (nonempty : word ≠ []) (apart : ∀ a ∈ fill, key a ∉ word) {text : List α}
    (occurs : word <:+: (mask key sub fill text).map key) : word <:+: text.map key := by
  obtain ⟨tail, ends, begins, _⟩ := found_of_maskFrom filled nonempty apart occurs
  exact begins.isInfix.trans (ends.map key).isInfix

theorem not_infix_mask (nonempty : sub ≠ []) (apart : ∀ a ∈ fill, key a ∉ sub) (text : List α) :
    ¬ sub <:+: (mask key sub fill text).map key := by
  intro occurs
  obtain ⟨tail, _, begins, absent⟩ := found_of_maskFrom filled nonempty apart occurs
  exact absent begins

end Filled

end GameIM.Lib.Text
