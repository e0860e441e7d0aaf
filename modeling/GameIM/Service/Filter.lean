import GameIM.Lib.Machine
import GameIM.Lib.Text
import GameIM.Api.Pb
import GameIM.Service.Msg

/-! DirtyWordFilter of internal/service/filter.go, with the slice expressions that panic
when they are out of range. The loop of replaceIgnoreCase searches the lower-cased copy and
slices the content itself with the indices it finds there. `lower` is unicode.ToLower on
one rune; a rune and its lower case need not have the same length in UTF-8. -/
namespace GameIM.Service.Filter
open Lib Lib.Text Api

inductive Fault where
  | outOfRange
  | endless
  deriving DecidableEq, Repr

def slice (s : Bytes) (low high : Nat) : Except Fault Bytes :=
  if low ≤ high ∧ high ≤ s.length then .ok ((s.take high).drop low) else .error .outOfRange

section Code

variable (lower : Char → Char)

def toLower (s : Bytes) : Bytes := mapRunes lower s

def contains (s sub : Bytes) : Bool := (index sub s).isSome

def repeated (count : Nat) : Bytes := List.replicate count 42

/- The loop, with the number of iterations that it is given at most. -/
def replaceLoop (s low old lowerOld replacement : Bytes) : Nat → Nat → Bytes → Except Fault Bytes
  | 0, _, _ => .error .endless
  | fuel + 1, i, result =>
    if i < s.length then do
      let rest ← slice low i low.length
      match index lowerOld rest with
      | none => do
        let tail ← slice s i s.length
        return result ++ tail
      | some idx => do
        let part ← slice s i (i + idx)
        replaceLoop s low old lowerOld replacement fuel (i + idx + old.length)
          (result ++ part ++ replacement)
    else return result

/- An iteration for each byte and a last one are enough unless `old` is empty; then the
loop does not end. -/
def replaceIgnoreCase (s old replacement : Bytes) : Except Fault Bytes :=
  replaceLoop s (toLower lower s) old (toLower lower old) replacement (s.length + 1) 0 []

structure DirtyWordFilter where
  words : List Bytes

def newDirtyWordFilter (words : List Bytes) : DirtyWordFilter := ⟨words.map (toLower lower)⟩

def checkWords : List Bytes → Bytes → Bytes → Except Fault Bytes
  | [], _, replaced => return replaced
  | word :: rest, lowerContent, replaced =>
    if contains lowerContent word then do
      let replaced ← replaceIgnoreCase lower replaced word (repeated word.length)
      checkWords rest (toLower lower replaced) replaced
    else checkWords rest lowerContent replaced

def DirtyWordFilter.check (f : DirtyWordFilter) (_uid : Int) (content : Bytes) :
    Except Fault FilterResult := do
  let replaced ← checkWords lower f.words (toLower lower content) content
  return ⟨true, "", replaced⟩

def turn (s : Bytes) (word : Bytes) : Option Bytes :=
  if contains (toLower lower s) word then
    (replaceIgnoreCase lower s word (repeated word.length)).toOption
  else some s

/-- Wherever the word is found in the lower-cased content, from left to right: an occurrence
that begins beyond the length of the content comes after one that ends at it or beyond. -/
def InReach (s : Bytes) (word : Bytes) : Prop :=
  ∀ before p after, occurrences word (toLower lower s) = before ++ p :: after → s.length < p →
    ∃ q ∈ before, s.length ≤ q + word.length

end Code

def Fits (size width : Nat) : List Nat → Prop
  | [] => True
  | p :: rest => p ≤ size ∧ (p + width < size → Fits size width rest)

theorem fits_iff (size width : Nat) (positions : List Nat) :
    Fits size width positions ↔ ∀ before p after, positions = before ++ p :: after → size < p →
      ∃ q ∈ before, size ≤ q + width := by
  induction positions with
  | nil =>
    refine iff_of_true trivial ?_
    intro before p after split
    simp at split
  | cons first rest ih =>
    rw [Fits, ih]
    constructor
    · rintro ⟨starts, later⟩ before p after split beyond
      cases before with
      | nil =>
        simp only [List.nil_append, List.cons.injEq] at split
        omega
      | cons q before =>
        simp only [List.cons_append, List.cons.injEq] at split
        obtain ⟨rfl, tail⟩ := split
        by_cases ends : first + width < size
        · obtain ⟨q, member, reaches⟩ := later ends before p after tail beyond
          exact ⟨q, List.mem_cons_of_mem _ member, reaches⟩
        · exact ⟨first, List.mem_cons_self, Nat.le_of_not_lt ends⟩
    · intro reach
      constructor
      · by_contra beyond
        obtain ⟨q, member, _⟩ := reach [] first rest rfl (Nat.lt_of_not_le beyond)
        contradiction
      · intro ends before p after split beyond
        obtain ⟨q, member, reaches⟩ := reach (first :: before) p after (by rw [split]; rfl) beyond
        rcases List.mem_cons.mp member with rfl | earlier
        · omega
        · exact ⟨q, earlier, reaches⟩

instance decidableFits (size width : Nat) : ∀ positions, Decidable (Fits size width positions)
  | [] => inferInstanceAs (Decidable True)
  | _ :: rest =>
    have := decidableFits size width rest
    inferInstanceAs (Decidable (_ ∧ (_ → _)))

instance decidableInReach (lower : Char → Char) (s word : Bytes) : Decidable (InReach lower s word) :=
  decidable_of_iff _ (fits_iff s.length word.length (occurrences word (toLower lower s)))

section Loop

variable {s low word replacement result : Bytes} {fuel i : Nat}

theorem slice_ok {high : Nat} (ordered : i ≤ high) (within : high ≤ s.length) :
    slice s i high = .ok ((s.take high).drop i) :=
  if_pos ⟨ordered, within⟩

theorem slice_error {high : Nat} (beyond : s.length < high) : slice s i high = .error .outOfRange := by
  apply if_neg
  omega

theorem replaceLoop_past (past : s.length ≤ i) (result : Bytes) :
    replaceLoop s low word word replacement (fuel + 1) i result = .ok result := by
  rw [replaceLoop, if_neg (Nat.not_lt.mpr past)]
  rfl

theorem replaceLoop_none (inside : i < s.length) (within : i ≤ low.length)
    (absent : index word (low.drop i) = none) (result : Bytes) :
    replaceLoop s low word word replacement (fuel + 1) i result = .ok (result ++ s.drop i) := by
  rw [replaceLoop, if_pos inside, slice_ok within (Nat.le_refl _), slice_ok (Nat.le_of_lt inside) (Nat.le_refl _)]
  simp only [List.take_length, bind, Except.bind, absent, pure, Except.pure]

theorem replaceLoop_some {idx : Nat} (inside : i < s.length) (within : i ≤ low.length)
    (found : index word (low.drop i) = some idx) (result : Bytes) :
    replaceLoop s low word word replacement (fuel + 1) i result =
      if i + idx ≤ s.length then
        replaceLoop s low word word replacement fuel (i + idx + word.length)
          (result ++ (s.take (i + idx)).drop i ++ replacement)
      else .error .outOfRange := by
  rw [replaceLoop, if_pos inside, slice_ok within (Nat.le_refl _)]
  simp only [List.take_length, bind, Except.bind, found]
  by_cases short : i + idx ≤ s.length
  · rw [slice_ok (Nat.le_add_right i idx) short, if_pos short]
  · rw [slice_error (Nat.lt_of_not_le short), if_neg short]

theorem replaceLoop_returns_iff (nonempty : word ≠ []) (inside : i < s.length) (within : i ≤ low.length)
    (enough : s.length < i + fuel) :
    (∃ r, replaceLoop s low word word replacement fuel i result = .ok r) ↔
      Fits s.length word.length (occurrencesFrom word (low.drop i) 0 i) := by
  induction fuel generalizing i result with
  | zero => omega
  | succ fuel ih =>
    rw [occurrencesFrom_index nonempty]
    cases found : index word (low.drop i) with
    | none => exact iff_of_true ⟨_, replaceLoop_none inside within found result⟩ trivial
    | some idx =>
      rw [replaceLoop_some inside within found]
      have width : 0 < word.length := List.length_pos_iff.mpr nonempty
      have bound := index_le found
      rw [List.length_drop] at bound
      by_cases short : i + idx ≤ s.length
      · rw [if_pos short, Fits, and_iff_right short]
        by_cases next : i + idx + word.length < s.length
        · rw [ih next (by omega) (by omega), List.drop_drop, ← Nat.add_assoc]
          simp only [next, true_imp_iff]
        · obtain ⟨more, rfl⟩ : ∃ more, fuel = more + 1 := ⟨fuel - 1, by omega⟩
          rw [replaceLoop_past (Nat.le_of_not_lt next)]
          simp [next]
      · simp [short, Fits]

end Loop

section Check

variable {lower : Char → Char}

theorem contains_nil {word : Bytes} (nonempty : word ≠ []) : contains [] word = false := by
  simp [contains, index, nonempty]

theorem replaceIgnoreCase_returns_iff {s word : Bytes} (lowered : toLower lower word = word)
    (nonempty : word ≠ []) (content : s ≠ []) (replacement : Bytes) :
    (∃ r, replaceIgnoreCase lower s word replacement = .ok r) ↔ InReach lower s word := by
  unfold replaceIgnoreCase
  rw [lowered, replaceLoop_returns_iff nonempty (List.length_pos_iff.mpr content) (Nat.zero_le _)
    (by omega)]
  exact fits_iff s.length word.length _

theorem inReach_of_absent {s word : Bytes} (nonempty : word ≠ [])
    (absent : contains (toLower lower s) word = false) : InReach lower s word := by
  have none : index word (toLower lower s) = none := by
    simpa [contains] using absent
  intro before p after split
  rw [occurrences, occurrencesFrom_index nonempty, none] at split
  simp at split

theorem turn_isSome_iff {s word : Bytes} (lowered : toLower lower word = word) (nonempty : word ≠ []) :
    (∃ t, turn lower s word = some t) ↔ InReach lower s word := by
  unfold turn
  by_cases present : contains (toLower lower s) word
  · have content : s ≠ [] := by
      rintro rfl
      rw [show toLower lower [] = [] from rfl, contains_nil nonempty] at present
      contradiction
    rw [if_pos present, ← replaceIgnoreCase_returns_iff lowered nonempty content (repeated word.length)]
    cases replaceIgnoreCase lower s word (repeated word.length) with
    | ok r => simp [Except.toOption]
    | error fault => simp [Except.toOption]
  · rw [if_neg present]
    exact iff_of_true ⟨s, rfl⟩ (inReach_of_absent nonempty (by simpa using present))

theorem checkWords_run (words : List Bytes) (s : Bytes) :
    (checkWords lower words (toLower lower s) s).toOption = run (turn lower) s words := by
  induction words generalizing s with
  | nil => rfl
  | cons word rest ih =>
    by_cases present : contains (toLower lower s) word
    · rw [checkWords, if_pos present, run, turn, if_pos present]
      cases replaceIgnoreCase lower s word (repeated word.length) with
      | ok r => exact ih r
      | error fault => rfl
    · rw [checkWords, if_neg present, run, turn, if_neg present]
      exact ih s

theorem run_isSome_iff {words : List Bytes} (lowered : ∀ w ∈ words, toLower lower w = w)
    (nonempty : ∀ w ∈ words, w ≠ []) (s : Bytes) :
    (∃ t, run (turn lower) s words = some t) ↔ Meets (turn lower) (InReach lower) s words := by
  induction words generalizing s with
  | nil => exact iff_of_true ⟨s, rfl⟩ trivial
  | cons word rest ih =>
    have here := turn_isSome_iff (s := s) (lowered word List.mem_cons_self)
      (nonempty word List.mem_cons_self)
    have later := fun t => ih (fun w member => lowered w (List.mem_cons_of_mem _ member))
      (fun w member => nonempty w (List.mem_cons_of_mem _ member)) t
    constructor
    · rintro ⟨t, taken⟩
      obtain ⟨u, first, remaining⟩ := run_cons_some.mp taken
      exact (meets_cons first).mpr ⟨here.mp ⟨u, first⟩, (later u).mp ⟨t, remaining⟩⟩
    · intro meets
      obtain ⟨u, first⟩ := here.mpr meets.1
      obtain ⟨t, remaining⟩ := (later u).mpr ((meets_cons first).mp meets).2
      exact ⟨t, run_cons_some.mpr ⟨u, first, remaining⟩⟩

theorem checkWords_ok_iff {words : List Bytes} {s r : Bytes} :
    checkWords lower words (toLower lower s) s = .ok r ↔ run (turn lower) s words = some r := by
  rw [← checkWords_run]
  cases checkWords lower words (toLower lower s) s with
  | ok replaced => simp [Except.toOption]
  | error fault => simp [Except.toOption]

theorem check_eq_ok_iff {f : DirtyWordFilter} {uid : Int} {content : Bytes} {result : FilterResult} :
    f.check lower uid content = .ok result ↔
      ∃ replaced, checkWords lower f.words (toLower lower content) content = .ok replaced ∧
        result = ⟨true, "", replaced⟩ := by
  rw [DirtyWordFilter.check]
  cases checkWords lower f.words (toLower lower content) content with
  | ok replaced => simp [bind, Except.bind, pure, Except.pure, eq_comm]
  | error fault => simp [bind, Except.bind]

theorem check_ok_iff (f : DirtyWordFilter) (uid : Int) (content : Bytes) :
    (∃ result, f.check lower uid content = .ok result) ↔
      ∃ replaced, run (turn lower) content f.words = some replaced := by
  simp only [check_eq_ok_iff, checkWords_ok_iff]
  constructor
  · rintro ⟨_, replaced, taken, _⟩
    exact ⟨replaced, taken⟩
  · rintro ⟨replaced, taken⟩
    exact ⟨_, replaced, taken, rfl⟩

/- internal/app sets up a chain of this one filter, and SendMsg calls the chain. -/
theorem filterChain_check {d : DirtyWordFilter} {f : ContentFilter}
    (same : ∀ uid content result, d.check lower uid content = .ok result → f uid content = result)
    {uid : Int} {content : Bytes} {result : FilterResult}
    (returned : d.check lower uid content = .ok result) :
    FilterChain.check [f] uid content =
      ⟨true, "", if result.replace = [] then content else result.replace⟩ := by
  have passed : result.pass = true := by
    obtain ⟨replaced, _, rfl⟩ := check_eq_ok_iff.mp returned
    rfl
  simp only [FilterChain.check, same uid content result returned, passed]
  by_cases kept : result.replace = []
  · simp [kept]
  · simp [kept]

/-- Check returns, with every slice expression in range, exactly if each word is in reach
in its turn, in the content as the words before it left it. -/
theorem check_returns_iff (idempotent : ∀ c, lower (lower c) = lower c) {words : List Bytes}
    (nonempty : ∀ w ∈ words, w ≠ []) (uid : Int) (content : Bytes) :
    (∃ result, (newDirtyWordFilter lower words).check lower uid content = .ok result) ↔
      Meets (turn lower) (InReach lower) content (newDirtyWordFilter lower words).words := by
  rw [check_ok_iff]
  apply run_isSome_iff
  · intro w member
    obtain ⟨v, _, rfl⟩ := List.mem_map.mp member
    exact mapRunes_idempotent idempotent v
  · intro w member
    obtain ⟨v, old, rfl⟩ := List.mem_map.mp member
    exact mapRunes_ne_nil lower (nonempty v old)

end Check

/- unicode.ToLower on ASCII and on one letter whose lower case is a byte longer. -/
def lowerRune (c : Char) : Char := if c = 'Ⱥ' then 'ⱥ' else c.toLower

theorem eq_of_toLower_eq {c d : Char} (other : d.isLower = false) (same : c.toLower = d) : c = d := by
  by_cases upper : c.isUpper = true
  · have small := Char.isLower_toLower_eq_isAlpha c
    rw [same, Char.isAlpha, upper, other] at small
    contradiction
  · exact (Char.toLower_eq_of_not_isUpper upper).symm.trans same

theorem lowerRune_idempotent (c : Char) : lowerRune (lowerRune c) = lowerRune c := by
  unfold lowerRune
  by_cases stroke : c = 'Ⱥ'
  · subst stroke
    decide
  · have other : c.toLower ≠ 'Ⱥ' := fun same => stroke (eq_of_toLower_eq (by decide) same)
    rw [if_neg stroke, if_neg other, Char.toLower_toLower_eq_toLower]

/- The words that internal/app sets up. -/
def dirtyWords : List Bytes := ["fuck", "shit", "damn"].map utf8

theorem check_returns_masked :
    (∃ result, (newDirtyWordFilter lowerRune dirtyWords).check lowerRune 7 (utf8 "Oh DAMN, Ⱥ!") =
      .ok result) ∧
    checkWords lowerRune (newDirtyWordFilter lowerRune dirtyWords).words
      (toLower lowerRune (utf8 "Oh DAMN, Ⱥ!")) (utf8 "Oh DAMN, Ⱥ!") = .ok (utf8 "Oh ****, Ⱥ!") := by
  refine ⟨(check_returns_iff lowerRune_idempotent (by decide +kernel) 7 _).mpr ?_, ?_⟩
  · decide +kernel
  · decide +kernel

/- Five letters before the word are five bytes longer in lower case: the word is found at
byte 15 of the copy, and the content has 14. -/
theorem content_panics :
    validUTF8 (utf8 "ȺȺȺȺȺdamn") = true ∧ (utf8 "ȺȺȺȺȺdamn").length ≤ maxMsgLength ∧
      (newDirtyWordFilter lowerRune dirtyWords).check lowerRune 7 (utf8 "ȺȺȺȺȺdamn") =
        .error .outOfRange := by
  decide +kernel

end GameIM.Service.Filter
