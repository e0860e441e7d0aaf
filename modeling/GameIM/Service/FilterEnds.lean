import GameIM.Service.Filter

/-! Whether Check of internal/service/filter.go comes to an end. The number of iterations that
the loop of replaceIgnoreCase gets is a parameter here, and Check ends if some number of them
is enough, be it with a result or in a panic. -/
namespace GameIM.Service.Filter
open Lib Lib.Text Api

section Code

variable (lower : Char → Char)

def replaceWithin (n : Nat) (s old replacement : Bytes) : Except Fault Bytes :=
  replaceLoop s (toLower lower s) old (toLower lower old) replacement n 0 []

def checkWordsWithin (n : Nat) : List Bytes → Bytes → Bytes → Except Fault Bytes
  | [], _, replaced => return replaced
  | word :: rest, lowerContent, replaced =>
    if contains lowerContent word then do
      let replaced ← replaceWithin lower n replaced word (repeated word.length)
      checkWordsWithin n rest (toLower lower replaced) replaced
    else checkWordsWithin n rest lowerContent replaced

def DirtyWordFilter.checkWithin (f : DirtyWordFilter) (n : Nat) (_uid : Int) (content : Bytes) :
    Except Fault FilterResult := do
  let replaced ← checkWordsWithin lower n f.words (toLower lower content) content
  return ⟨true, "", replaced⟩

def DirtyWordFilter.Ends (f : DirtyWordFilter) (uid : Int) (content : Bytes) : Prop :=
  ∃ n, f.checkWithin lower n uid content ≠ .error .endless

end Code

section Iterations

variable {s low old lowerOld replacement result : Bytes} {fuel i : Nat}

theorem replaceLoop_step (s low old lowerOld replacement : Bytes) (i : Nat) (result : Bytes) :
    (∃ r, r ≠ .error .endless ∧ (r = .ok [] → s.length ≤ i ∧ result = []) ∧
      ∀ fuel, replaceLoop s low old lowerOld replacement (fuel + 1) i result = r) ∨
    ∃ idx part, i < s.length ∧ ∀ fuel, replaceLoop s low old lowerOld replacement (fuel + 1) i result =
      replaceLoop s low old lowerOld replacement fuel (i + idx + old.length)
        (result ++ part ++ replacement) := by
  by_cases inside : i < s.length
  · cases copy : slice low i low.length with
    | error fault =>
      have panics : fault = .outOfRange := by
        unfold slice at copy
        split at copy
        · contradiction
        · exact (Except.error.inj copy).symm
      subst panics
      refine .inl ⟨.error .outOfRange, by decide, fun same => by contradiction, fun fuel => ?_⟩
      rw [replaceLoop, if_pos inside, copy]
      rfl
    | ok rest =>
      cases found : index lowerOld rest with
      | none =>
        refine .inl ⟨.ok (result ++ s.drop i), by simp, ?_, fun fuel => ?_⟩
        · intro empty
          have short := congrArg List.length (Except.ok.inj empty)
          simp only [List.length_append, List.length_drop, List.length_nil] at short
          omega
        · rw [replaceLoop, if_pos inside, copy, slice_ok (Nat.le_of_lt inside) (Nat.le_refl _)]
          simp only [List.take_length, bind, Except.bind, found, pure, Except.pure]
      | some idx =>
        by_cases short : i + idx ≤ s.length
        · refine .inr ⟨idx, (s.take (i + idx)).drop i, inside, fun fuel => ?_⟩
          rw [replaceLoop, if_pos inside, copy]
          simp only [bind, Except.bind, found, slice_ok (Nat.le_add_right i idx) short]
        · refine .inl ⟨.error .outOfRange, by decide, fun same => by contradiction, fun fuel => ?_⟩
          rw [replaceLoop, if_pos inside, copy]
          simp only [bind, Except.bind, found, slice_error (Nat.lt_of_not_le short)]
  · refine .inl ⟨.ok result, by simp, ?_, fun fuel => ?_⟩
    · intro empty
      exact ⟨Nat.le_of_not_lt inside, Except.ok.inj empty⟩
    · rw [replaceLoop, if_neg inside]
      rfl

theorem replaceLoop_more
    (ended : replaceLoop s low old lowerOld replacement fuel i result ≠ .error .endless) (more : Nat) :
    replaceLoop s low old lowerOld replacement (fuel + more) i result =
      replaceLoop s low old lowerOld replacement fuel i result := by
  induction fuel generalizing i result with
  | zero => exact absurd rfl ended
  | succ fuel ih =>
    rw [Nat.add_right_comm]
    rcases replaceLoop_step s low old lowerOld replacement i result with
      ⟨r, _, _, last⟩ | ⟨idx, part, _, next⟩
    · rw [last, last]
    · rw [next] at ended
      rw [next, next, ih ended]

theorem replaceLoop_enough (nonempty : old ≠ []) (enough : s.length - i < fuel) :
    replaceLoop s low old lowerOld replacement fuel i result ≠ .error .endless := by
  induction fuel generalizing i result with
  | zero => contradiction
  | succ fuel ih =>
    have width : 0 < old.length := List.length_pos_iff.mpr nonempty
    rcases replaceLoop_step s low old lowerOld replacement i result with
      ⟨r, ends, _, last⟩ | ⟨idx, part, inside, next⟩
    · rw [last]
      exact ends
    · rw [next]
      exact ih (by omega)

theorem replaceLoop_stuck (inside : i < s.length) (within : i ≤ low.length) :
    replaceLoop s low [] [] replacement fuel i result = .error .endless := by
  induction fuel generalizing result with
  | zero => rfl
  | succ fuel ih =>
    have here : index [] (low.drop i) = some 0 := by
      cases low.drop i with
      | nil => rfl
      | cons b rest => simp [index]
    rw [replaceLoop_some inside within here, Nat.add_zero, if_pos (Nat.le_of_lt inside)]
    exact ih

theorem replaceLoop_ne_nil (written : replacement ≠ []) (some : i < s.length ∨ result ≠ []) :
    replaceLoop s low old lowerOld replacement fuel i result ≠ .ok [] := by
  induction fuel generalizing i result with
  | zero => simp [replaceLoop]
  | succ fuel ih =>
    rcases replaceLoop_step s low old lowerOld replacement i result with
      ⟨r, _, empty, last⟩ | ⟨idx, part, inside, next⟩
    · rw [last]
      intro same
      obtain ⟨past, none⟩ := empty same
      rcases some with inside | other
      · omega
      · exact other none
    · rw [next]
      apply ih
      right
      simp [written]

end Iterations

section Rounds

variable {lower : Char → Char} {s old replacement : Bytes} {n : Nat}

theorem replaceWithin_empty (content : s ≠ []) :
    replaceWithin lower n s [] replacement = .error .endless :=
  replaceLoop_stuck (List.length_pos_iff.mpr content) (Nat.zero_le _)

/- An iteration for each byte and a last one decide. -/
theorem replaceWithin_settled (enough : s.length < n) :
    replaceWithin lower n s old replacement = replaceIgnoreCase lower s old replacement := by
  obtain ⟨more, rfl⟩ : ∃ more, n = s.length + 1 + more := ⟨n - (s.length + 1), by omega⟩
  by_cases empty : old = []
  · subst empty
    by_cases content : s = []
    · subst content
      apply replaceLoop_more
      simp [replaceLoop, pure, Except.pure]
    · rw [replaceWithin_empty content]
      exact (replaceWithin_empty content).symm
  · apply replaceLoop_more
    exact replaceLoop_enough empty (by omega)

theorem replaceWithin_ended (ended : replaceWithin lower n s old replacement ≠ .error .endless) :
    replaceWithin lower n s old replacement = replaceIgnoreCase lower s old replacement := by
  by_cases enough : s.length < n
  · exact replaceWithin_settled enough
  · obtain ⟨more, total⟩ : ∃ more, s.length + 1 = n + more := ⟨s.length + 1 - n, by omega⟩
    rw [replaceIgnoreCase, total]
    exact (replaceLoop_more ended more).symm

theorem checkWordsWithin_ended {words : List Bytes} {low : Bytes}
    (ended : checkWordsWithin lower n words low s ≠ .error .endless) :
    checkWordsWithin lower n words low s = checkWords lower words low s := by
  induction words generalizing low s with
  | nil => rfl
  | cons word rest ih =>
    rw [checkWordsWithin] at ended ⊢
    rw [checkWords]
    by_cases present : contains low word
    · rw [if_pos present] at ended ⊢
      rw [if_pos present]
      have first : replaceWithin lower n s word (repeated word.length) ≠ .error .endless := by
        intro endless
        rw [endless] at ended
        exact ended rfl
      rw [replaceWithin_ended first] at ended ⊢
      cases replaced : replaceIgnoreCase lower s word (repeated word.length) with
      | error fault => rfl
      | ok t =>
        rw [replaced] at ended
        exact ih ended
    · rw [if_neg present] at ended ⊢
      rw [if_neg present]
      exact ih ended

theorem checkWordsWithin_settled (lower : Char → Char) (words : List Bytes) (low s : Bytes) :
    ∃ most, ∀ n, most ≤ n → checkWordsWithin lower n words low s = checkWords lower words low s := by
  induction words generalizing low s with
  | nil => exact ⟨0, fun n _ => rfl⟩
  | cons word rest ih =>
    by_cases present : contains low word
    · cases replaced : replaceIgnoreCase lower s word (repeated word.length) with
      | error fault =>
        refine ⟨s.length + 1, fun n enough => ?_⟩
        rw [checkWordsWithin, checkWords, if_pos present, if_pos present,
          replaceWithin_settled enough, replaced]
        rfl
      | ok t =>
        obtain ⟨most, later⟩ := ih (toLower lower t) t
        refine ⟨max most (s.length + 1), fun n enough => ?_⟩
        rw [checkWordsWithin, checkWords, if_pos present, if_pos present,
          replaceWithin_settled (by omega), replaced]
        exact later n (by omega)
    · obtain ⟨most, later⟩ := ih low s
      refine ⟨most, fun n enough => ?_⟩
      rw [checkWordsWithin, checkWords, if_neg present, if_neg present]
      exact later n enough

theorem ends_iff_checkWords (f : DirtyWordFilter) (uid : Int) (content : Bytes) :
    f.Ends lower uid content ↔
      checkWords lower f.words (toLower lower content) content ≠ .error .endless := by
  have same (n : Nat) : f.checkWithin lower n uid content = .error .endless ↔
      checkWordsWithin lower n f.words (toLower lower content) content = .error .endless := by
    rw [DirtyWordFilter.checkWithin]
    cases checkWordsWithin lower n f.words (toLower lower content) content with
    | ok t => simp [bind, Except.bind, pure, Except.pure]
    | error fault => simp [bind, Except.bind]
  constructor
  · rintro ⟨n, ended⟩
    rw [Ne, same] at ended
    rwa [← checkWordsWithin_ended ended]
  · intro ended
    obtain ⟨most, settled⟩ := checkWordsWithin_settled lower f.words (toLower lower content) content
    refine ⟨most, ?_⟩
    rwa [Ne, same, settled most (Nat.le_refl _)]

end Rounds

section Words

variable {lower : Char → Char}

theorem checkWords_nil (words : List Bytes) : checkWords lower words [] [] = .ok [] := by
  induction words with
  | nil => rfl
  | cons word rest ih =>
    rw [checkWords]
    split
    · exact ih
    · exact ih

theorem checkWords_endless_iff {s : Bytes} (content : s ≠ []) (words : List Bytes) :
    checkWords lower words (toLower lower s) s = .error .endless ↔
      ∃ before after t, words = before ++ [] :: after ∧
        checkWords lower before (toLower lower s) s = .ok t := by
  induction words generalizing s with
  | nil =>
    refine iff_of_false (by simp [checkWords, pure, Except.pure]) ?_
    rintro ⟨before, after, t, split, _⟩
    simp at split
  | cons word rest ih =>
    by_cases empty : word = []
    · subst empty
      refine iff_of_true ?_ ⟨[], rest, s, rfl, rfl⟩
      have found : contains (toLower lower s) [] = true := by
        cases toLower lower s with
        | nil => rfl
        | cons b rest => simp [contains, index]
      rw [checkWords, if_pos found]
      exact congrArg (· >>= _) (replaceWithin_empty content)
    · have reached : (∃ before after t, word :: rest = before ++ [] :: after ∧
          checkWords lower before (toLower lower s) s = .ok t) ↔
          ∃ before after t, rest = before ++ [] :: after ∧
            checkWords lower (word :: before) (toLower lower s) s = .ok t := by
        constructor
        · rintro ⟨before, after, t, split, returned⟩
          cases before with
          | nil => exact absurd (List.cons.inj split).1 empty
          | cons first before =>
            obtain ⟨rfl, tail⟩ := List.cons.inj split
            exact ⟨before, after, t, tail, returned⟩
        · rintro ⟨before, after, t, rfl, returned⟩
          exact ⟨word :: before, after, t, rfl, returned⟩
      rw [reached]
      simp only [checkWords]
      by_cases present : contains (toLower lower s) word
      · simp only [if_pos present]
        cases replaced : replaceIgnoreCase lower s word (repeated word.length) with
        | ok t =>
          have kept : t ≠ [] := by
            rintro rfl
            exact replaceLoop_ne_nil (by simp [repeated, empty])
              (.inl (List.length_pos_iff.mpr content)) replaced
          exact ih kept
        | error fault =>
          have panics : fault ≠ .endless := by
            rintro rfl
            exact replaceLoop_enough empty (by omega) replaced
          simp [bind, Except.bind, panics]
      · simp only [if_neg present]
        exact ih content

theorem toLower_eq_nil {w : Bytes} : toLower lower w = [] ↔ w = [] := by
  constructor
  · intro empty
    by_contra nonempty
    exact mapRunes_ne_nil lower nonempty empty
  · rintro rfl
    rfl

theorem reached_iff (words : List Bytes) (uid : Int) (content : Bytes) :
    (∃ before after t, words.map (toLower lower) = before ++ [] :: after ∧
      checkWords lower before (toLower lower content) content = .ok t) ↔
    ∃ before after result, words = before ++ [] :: after ∧
      (newDirtyWordFilter lower before).check lower uid content = .ok result := by
  constructor
  · rintro ⟨_, _, t, split, returned⟩
    obtain ⟨before, _, rfl, rfl, tail⟩ := List.map_eq_append_iff.mp split
    obtain ⟨word, after, rfl, empty, _⟩ := List.map_eq_cons_iff.mp tail
    rw [toLower_eq_nil.mp empty]
    exact ⟨before, after, ⟨true, "", t⟩, rfl, check_eq_ok_iff.mpr ⟨t, returned, rfl⟩⟩
  · rintro ⟨before, after, result, rfl, returned⟩
    obtain ⟨t, checked, _⟩ := check_eq_ok_iff.mp returned
    refine ⟨before.map (toLower lower), after.map (toLower lower), t, ?_, checked⟩
    simp [toLower_eq_nil.mpr]

/- A lone asterisk stays as it is, whatever the words. -/
theorem checkWords_star (star : lower '*' = '*') {words : List Bytes} (nonempty : [] ∉ words) :
    checkWords lower words (toLower lower (repeated 1)) (repeated 1) = .ok (repeated 1) := by
  have same : toLower lower (repeated 1) = repeated 1 := by
    rw [show repeated 1 = encode ['*'] from by decide, toLower, mapRunes, runes_encode,
      List.map_singleton, star]
  have kept : replaceIgnoreCase lower (repeated 1) (repeated 1) (repeated 1) = .ok (repeated 1) := by
    rw [replaceIgnoreCase, same]
    rfl
  induction words with
  | nil => rfl
  | cons word rest ih =>
    obtain ⟨some, later⟩ := not_or.mp (mt List.mem_cons.mpr nonempty)
    rw [checkWords]
    split
    · rename_i present
      have asterisk : word = repeated 1 := by
        rw [same] at present
        by_contra other
        rw [repeated, List.replicate_one] at other
        simp [contains, repeated, index, Ne.symm some, other, List.prefix_cons_iff] at present
      rw [asterisk, show (repeated 1).length = 1 from rfl, kept]
      exact ih later
    · exact ih later

/-- Check ends on a content exactly if the content is empty or Check does not get as far as
an empty word; and it ends on every content exactly if no word is empty. -/
theorem check_ends_iff (star : lower '*' = '*') (words : List Bytes) (uid : Int) :
    (∀ content, (newDirtyWordFilter lower words).Ends lower uid content ↔
      content = [] ∨ ∀ before after result, words = before ++ [] :: after →
        (newDirtyWordFilter lower before).check lower uid content ≠ .ok result) ∧
    ((∀ content, (newDirtyWordFilter lower words).Ends lower uid content) ↔ [] ∉ words) := by
  have each (content : Bytes) : (newDirtyWordFilter lower words).Ends lower uid content ↔
      content = [] ∨ ∀ before after result, words = before ++ [] :: after →
        (newDirtyWordFilter lower before).check lower uid content ≠ .ok result := by
    rw [ends_iff_checkWords]
    by_cases empty : content = []
    · subst empty
      refine iff_of_true ?_ (.inl rfl)
      rw [show toLower lower [] = [] from rfl, checkWords_nil]
      simp
    · rw [Ne, checkWords_endless_iff empty, newDirtyWordFilter, reached_iff words uid content]
      simp only [empty, false_or]
      push Not
      rfl
  refine ⟨each, ?_, ?_⟩
  · intro ends member
    obtain ⟨before, after, rfl, earlier⟩ := List.eq_append_cons_of_mem member
    rcases (each (repeated 1)).mp (ends (repeated 1)) with empty | stops
    · contradiction
    · have lowered : [] ∉ before.map (toLower lower) := by
        intro low
        obtain ⟨word, given, empty⟩ := List.mem_map.mp low
        rw [toLower_eq_nil.mp empty] at given
        exact earlier given
      apply stops before after ⟨true, "", repeated 1⟩ rfl
      exact check_eq_ok_iff.mpr ⟨repeated 1, checkWords_star star lowered, rfl⟩
  · intro nonempty content
    refine (each content).mpr (.inr ?_)
    rintro before after result rfl
    simp at nonempty

theorem check_ends_dirtyWords :
    lowerRune '*' = '*' ∧ ∀ content, (newDirtyWordFilter lowerRune dirtyWords).Ends lowerRune 7 content :=
  ⟨by decide, (check_ends_iff (by decide) dirtyWords 7).2.mpr (by decide +kernel)⟩

/- The empty word is found at the beginning of the content, before which nothing is to be
written and behind which nothing is to be skipped. -/
theorem empty_word_hangs :
    ¬ (newDirtyWordFilter lowerRune [utf8 ""]).Ends lowerRune 7 (utf8 "a") := by
  rw [ends_iff_checkWords]
  decide +kernel

end Words

end GameIM.Service.Filter
