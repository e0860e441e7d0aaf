import GameIM.Lib.Mask
import GameIM.Service.Filter

/-! What Check of internal/service/filter.go makes of a content. A word is meant to be masked
wherever its runes stand in the content, whatever their case; Check looks for its bytes in the
lower-cased copy and cuts the content at the positions it finds there. -/
namespace GameIM.Service.Filter
open Lib Lib.Text Api

section Purpose

variable (lower : Char → Char)

def wordRunes (word : Bytes) : List Char := (runes word).map lower

/-- The text with an asterisk for each byte of the word in place of the word. -/
def masked (text word : List Char) : List Char :=
  mask lower word (List.replicate (encode word).length '*') text

def maskWords (words : List Bytes) (text : List Char) : List Char :=
  (words.map (wordRunes lower)).foldl (masked lower) text

/- The text has as many bytes before the rune as its lower-cased copy. -/
def LevelAt (text : List Char) (k : Nat) : Prop :=
  (encode (text.take k)).length = (encode ((text.take k).map lower)).length

/-- Wherever the word is found, from left to right, it begins and ends at the same byte of the
text as of its lower-cased copy. -/
def Aligned (text word : List Char) : Prop :=
  ∀ p ∈ occurrences word (text.map lower),
    LevelAt lower text p ∧ LevelAt lower text (p + word.length)

/- Each word is aligned in its turn, in the text as the words before it left it. -/
def AlignedInTurn (text : List Char) (words : List Bytes) : Prop :=
  Meets (fun text word => some (masked lower text word)) (Aligned lower) text
    (words.map (wordRunes lower))

end Purpose

instance decidableLevelAt (lower : Char → Char) (text : List Char) (k : Nat) :
    Decidable (LevelAt lower text k) :=
  inferInstanceAs (Decidable (_ = _))

instance decidableAligned (lower : Char → Char) (text word : List Char) :
    Decidable (Aligned lower text word) :=
  inferInstanceAs (Decidable (∀ p ∈ occurrences word (text.map lower), _))

instance decidableAlignedInTurn (lower : Char → Char) (text : List Char) (words : List Bytes) :
    Decidable (AlignedInTurn lower text words) :=
  inferInstanceAs (Decidable (Meets _ _ _ _))

section Loop

variable {lower : Char → Char}

theorem toLower_encode (text : List Char) : toLower lower (encode text) = encode (text.map lower) := by
  rw [toLower, mapRunes, runes_encode]

theorem levelAt_append (front back : List Char) (k : Nat) :
    LevelAt lower (front ++ back) (front.length + k) ↔
      (encode (front ++ back.take k)).length = (encode ((front ++ back.take k).map lower)).length := by
  rw [LevelAt, List.take_length_add_append]

theorem index_split {word text : List Char} {k : Nat} (found : index word (text.map lower) = some k) :
    ∃ front here back, text = front ++ here ++ back ∧ front.length = k ∧ here.map lower = word := by
  refine ⟨text.take k, (text.drop k).take word.length, text.drop (k + word.length), ?_, ?_, ?_⟩
  · rw [← List.drop_drop, List.append_assoc, List.take_append_drop, List.take_append_drop]
  · have bound := index_le found
    rw [List.length_map] at bound
    rw [List.length_take]
    omega
  · rw [List.map_take, List.map_drop]
    exact (List.prefix_iff_eq_take.mp (prefix_of_index found)).symm

section Behind

variable {front back : List Char} (level : (encode front).length = (encode (front.map lower)).length)
include level

theorem copy_behind : (encode ((front ++ back).map lower)).drop (encode front).length =
    encode (back.map lower) := by
  rw [level, List.map_append, encode_append, List.drop_left]

theorem copy_reaches : (encode front).length ≤ (encode ((front ++ back).map lower)).length := by
  rw [level, List.map_append, encode_append, List.length_append]
  exact Nat.le_add_right _ _

omit level in
theorem inside_of_ne_nil (more : back ≠ []) : (encode front).length < (encode (front ++ back)).length := by
  rw [encode_append, List.length_append]
  exact Nat.lt_add_of_pos_right (List.length_pos_iff.mpr (mt encode_eq_nil.mp more))

theorem replaceLoop_found {before here after fill : List Char} (nonempty : here ≠ [])
    (found : index (here.map lower) ((before ++ here ++ after).map lower) = some before.length)
    (begins : (encode before).length = (encode (before.map lower)).length)
    (ends : (encode here).length = (encode (here.map lower)).length) (fuel : Nat) (result : Bytes) :
    replaceLoop (encode (front ++ (before ++ here ++ after)))
        (encode ((front ++ (before ++ here ++ after)).map lower)) (encode (here.map lower))
        (encode (here.map lower)) (encode fill) (fuel + 1) (encode front).length result =
      replaceLoop (encode (front ++ before ++ here ++ after))
        (encode ((front ++ before ++ here ++ after).map lower)) (encode (here.map lower))
        (encode (here.map lower)) (encode fill) fuel (encode (front ++ before ++ here)).length
        (result ++ encode (before ++ fill)) := by
  have search : index (encode (here.map lower))
      ((encode ((front ++ (before ++ here ++ after)).map lower)).drop (encode front).length) =
        some (encode before).length := by
    rw [copy_behind level, index_encode (by simpa using nonempty), found, Option.map_some,
      List.append_assoc, List.map_append, ← List.length_map lower, List.take_left, begins]
  have place : (encode front).length + (encode before).length = (encode (front ++ before)).length := by
    rw [encode_append, List.length_append]
  have ending : (encode (front ++ before)).length + (encode (here.map lower)).length =
      (encode (front ++ before ++ here)).length := by
    rw [encode_append (front ++ before), List.length_append, ends]
  have whole : front ++ (before ++ here ++ after) = front ++ before ++ here ++ after := by
    simp only [List.append_assoc]
  have cut : ((encode (front ++ before ++ here ++ after)).take (encode (front ++ before)).length).drop
      (encode front).length = encode before := by
    rw [List.append_assoc, encode_append (front ++ before), List.take_left, encode_append, List.drop_left]
  have short : (encode (front ++ before)).length ≤ (encode (front ++ before ++ here ++ after)).length := by
    rw [List.append_assoc, encode_append (front ++ before), List.length_append]
    exact Nat.le_add_right _ _
  rw [replaceLoop_some (inside_of_ne_nil (by simp [nonempty])) (copy_reaches level) search, place,
    ending, whole, cut, if_pos short, encode_append before, List.append_assoc result]

end Behind

theorem replaceLoop_masked {word : List Char} (nonempty : word ≠ []) (fill : List Char)
    (front back : List Char) (level : (encode front).length = (encode (front.map lower)).length)
    (aligned : ∀ p ∈ occurrencesFrom word (back.map lower) 0 front.length,
      LevelAt lower (front ++ back) p ∧ LevelAt lower (front ++ back) (p + word.length))
    {fuel : Nat} (enough : (encode back).length < fuel) (result : Bytes) :
    replaceLoop (encode (front ++ back)) (encode ((front ++ back).map lower)) (encode word) (encode word)
        (encode fill) fuel (encode front).length result =
      .ok (result ++ encode (mask lower word fill back)) := by
  induction fuel generalizing front back result with
  | zero => contradiction
  | succ fuel ih =>
    rw [occurrencesFrom_index nonempty] at aligned
    rw [mask_index nonempty]
    cases found : index word (back.map lower) with
    | none =>
      by_cases empty : back = []
      · subst empty
        rw [replaceLoop_past (by simp)]
        simp [encode]
      · have absent : index (encode word) ((encode ((front ++ back).map lower)).drop (encode front).length) =
            none := by
          rw [copy_behind level, index_encode nonempty, found, Option.map_none]
        rw [replaceLoop_none (inside_of_ne_nil empty) (copy_reaches level) absent, encode_append,
          List.drop_left]
    | some k =>
      obtain ⟨before, here, after, rfl, rfl, rfl⟩ := index_split found
      have some : here ≠ [] := by simpa using nonempty
      have width : (before ++ here).length = before.length + (here.map lower).length := by simp
      have past (cs ds : List Char) (same : cs.length = (before ++ here).length) :
          (cs ++ ds).drop (before.length + (here.map lower).length) = ds := by
        rw [← width, ← same, List.drop_left]
      rw [found] at aligned
      obtain ⟨begins, ends⟩ := aligned _ List.mem_cons_self
      rw [levelAt_append, List.append_assoc, List.take_left] at begins
      rw [Nat.add_assoc, levelAt_append, ← width, List.take_left] at ends
      simp only [List.map_append, encode_append, List.length_append] at begins ends enough
      have size := List.length_pos_iff.mpr (mt encode_eq_nil.mp some)
      rw [replaceLoop_found level some found (by omega) (by omega), ih]
      · simp only [past _ _ rfl]
        simp only [List.append_assoc, List.take_left, encode_append]
      · simp only [List.map_append, encode_append, List.length_append]
        omega
      · intro p member
        have later := aligned p (List.mem_cons_of_mem _ (by
          rw [List.map_append, past _ _ (List.length_map lower), Nat.add_assoc, ← width,
            ← List.length_append, ← List.append_assoc]
          exact member))
        simpa only [List.append_assoc] using later
      · omega

end Loop

section Check

variable {lower : Char → Char} {word text : List Char}

theorem contains_encode_iff (nonempty : word ≠ []) :
    contains (toLower lower (encode text)) (encode word) = true ↔ word <:+: text.map lower := by
  rw [contains, toLower_encode, index_encode nonempty, Option.isSome_map, index_isSome_iff]

theorem repeated_encode (n : Nat) : repeated n = encode (List.replicate n '*') := by
  induction n with
  | zero => rfl
  | succ n ih => exact congrArg (42 :: ·) ih

theorem turn_masked (nonempty : word ≠ []) (lowered : word.map lower = word)
    (aligned : Aligned lower text word) :
    turn lower (encode text) (encode word) = some (encode (masked lower text word)) := by
  unfold turn
  split
  · have replaced := replaceLoop_masked nonempty (List.replicate (encode word).length '*') [] text rfl
      aligned (Nat.lt_succ_self _) []
    rw [replaceIgnoreCase, toLower_encode, toLower_encode, lowered, repeated_encode]
    exact congrArg Except.toOption replaced
  · rename_i absent
    rw [contains_encode_iff nonempty, ← index_isSome_iff, Bool.not_eq_true, Option.isSome_eq_false_iff,
      Option.isNone_iff_eq_none] at absent
    rw [masked, mask_index nonempty, absent]

theorem run_masked {words : List (List Char)} (nonempty : ∀ w ∈ words, w ≠ [])
    (lowered : ∀ w ∈ words, w.map lower = w)
    (aligned : Meets (fun text word => some (masked lower text word)) (Aligned lower) text words) :
    run (turn lower) (encode text) (words.map encode) = some (encode (words.foldl (masked lower) text)) := by
  induction words generalizing text with
  | nil => rfl
  | cons word rest ih =>
    rw [List.map_cons, run, turn_masked (nonempty word List.mem_cons_self) (lowered word List.mem_cons_self)
      aligned.1]
    exact ih (fun w member => nonempty w (List.mem_cons_of_mem _ member))
      (fun w member => lowered w (List.mem_cons_of_mem _ member)) aligned.2

end Check

section Left

variable {lower : Char → Char} (star : lower '*' = '*')
include star

/- Masking a word leaves nothing of it and brings no other about. -/
theorem masked_clean {word : List Char} (nonempty : word ≠ []) {other : List Char} (some : other ≠ [])
    (starless : '*' ∉ other) (text : List Char) (clean : other = word ∨ ¬ other <:+: text.map lower) :
    ¬ other <:+: (masked lower text word).map lower := by
  have filled : List.replicate (encode word).length '*' ≠ [] := by
    simpa [encode_eq_nil] using nonempty
  have apart : ∀ c ∈ List.replicate (encode word).length '*', lower c ∉ other := by
    intro c member
    rw [List.eq_of_mem_replicate member, star]
    exact starless
  rcases clean with rfl | absent
  · exact not_infix_mask filled nonempty apart text
  · exact mt (infix_of_mask filled some apart) absent

theorem foldl_masked_clean {words : List (List Char)} (nonempty : ∀ w ∈ words, w ≠ []) {other : List Char}
    (some : other ≠ []) (starless : '*' ∉ other) (text : List Char)
    (clean : other ∈ words ∨ ¬ other <:+: text.map lower) :
    ¬ other <:+: (words.foldl (masked lower) text).map lower := by
  induction words generalizing text with
  | nil => exact clean.resolve_left List.not_mem_nil
  | cons word rest ih =>
    refine ih (fun w member => nonempty w (List.mem_cons_of_mem _ member)) _ ?_
    have here := masked_clean star (nonempty word List.mem_cons_self) some starless text
    rcases clean with member | absent
    · rcases List.mem_cons.mp member with rfl | later
      · exact .inr (here (.inl rfl))
      · exact .inl later
    · exact .inr (here (.inr absent))

omit star in
theorem length_encode_map {cs : List Char} (kept : ∀ c ∈ cs, (lower c).utf8Size = c.utf8Size) :
    (encode (cs.map lower)).length = (encode cs).length := by
  induction cs with
  | nil => rfl
  | cons c rest ih =>
    rw [List.map_cons, encode_cons, encode_cons, List.length_append, List.length_append,
      String.length_utf8EncodeChar, String.length_utf8EncodeChar, kept c List.mem_cons_self,
      ih fun d member => kept d (List.mem_cons_of_mem c member)]

theorem alignedInTurn_of_size {text : List Char} (kept : ∀ c ∈ text, (lower c).utf8Size = c.utf8Size)
    (words : List Bytes) : AlignedInTurn lower text words := by
  unfold AlignedInTurn
  induction words generalizing text with
  | nil => trivial
  | cons word rest ih =>
    have level (k : Nat) : LevelAt lower text k :=
      (length_encode_map fun c member => kept c (List.mem_of_mem_take member)).symm
    refine ⟨fun p _ => ⟨level p, level _⟩, ih ?_⟩
    intro c member
    rcases mem_of_mem_maskFrom member with old | filling
    · exact kept c old
    · rw [List.eq_of_mem_replicate filling, star]

end Left

theorem wordRunes_ne_nil (lower : Char → Char) {word : Bytes} (nonempty : word ≠ []) :
    wordRunes lower word ≠ [] :=
  fun empty => mapRunes_ne_nil lower nonempty (encode_eq_nil.mpr empty)

theorem validUTF8_iff {data : Bytes} : validUTF8 data = true ↔ ∃ cs, data = encode cs := by
  have same : (⟨data.toArray⟩ : ByteArray) = data.toByteArray := by
    apply ByteArray.ext
    exact List.data_toByteArray.symm
  rw [validUTF8, ByteArray.validateUTF8_eq_true_iff, same, isValidUTF8_iff]

/-- On valid contents and words without asterisks, Check returns the content with the words
masked one after the other, and no word is left, if each occurrence begins and ends at the
same byte of the content as of its lower-cased copy; that is so wherever the runes of the
content keep their size in lower case. -/
theorem check_masks {lower : Char → Char} (idempotent : ∀ c, lower (lower c) = lower c)
    (star : ∀ c, lower c = '*' ↔ c = '*') (words : List Bytes) (nonempty : ∀ w ∈ words, w ≠ [])
    (starless : ∀ w ∈ words, '*' ∉ runes w) (content : Bytes) (valid : validUTF8 content = true) (uid : Int) :
    (AlignedInTurn lower (runes content) words →
      (newDirtyWordFilter lower words).check lower uid content =
        .ok ⟨true, "", encode (maskWords lower words (runes content))⟩ ∧
      validUTF8 (encode (maskWords lower words (runes content))) = true ∧
      ∀ w ∈ words, contains (toLower lower (encode (maskWords lower words (runes content))))
        (toLower lower w) = false) ∧
    ((∀ c ∈ runes content, (lower c).utf8Size = c.utf8Size) →
      AlignedInTurn lower (runes content) words) := by
  obtain ⟨text, rfl⟩ := validUTF8_iff.mp valid
  rw [runes_encode]
  have some : ∀ w ∈ words.map (wordRunes lower), w ≠ [] := by
    intro w member
    obtain ⟨word, given, rfl⟩ := List.mem_map.mp member
    exact wordRunes_ne_nil lower (nonempty word given)
  have lowered : ∀ w ∈ words.map (wordRunes lower), w.map lower = w := by
    intro w member
    obtain ⟨word, _, rfl⟩ := List.mem_map.mp member
    simp [wordRunes, Function.comp_def, idempotent]
  refine ⟨fun aligned => ⟨?_, validUTF8_iff.mpr ⟨_, rfl⟩, ?_⟩, fun kept => ?_⟩
  · have taken := run_masked some lowered aligned
    rw [List.map_map, show encode ∘ wordRunes lower = toLower lower from rfl] at taken
    exact check_eq_ok_iff.mpr ⟨_, checkWords_ok_iff.mpr taken, rfl⟩
  · intro w member
    have clean := foldl_masked_clean ((star '*').mpr rfl) some (wordRunes_ne_nil lower (nonempty w member))
      (fun found => ?_) text (.inl (List.mem_map_of_mem member))
    · rw [Bool.eq_false_iff]
      exact mt (contains_encode_iff (wordRunes_ne_nil lower (nonempty w member))).mp clean
    · obtain ⟨c, given, asterisk⟩ := List.mem_map.mp found
      rw [(star c).mp asterisk] at given
      exact starless w member given
  · exact alignedInTurn_of_size ((star '*').mpr rfl) kept words

theorem lowerRune_star (c : Char) : lowerRune c = '*' ↔ c = '*' := by
  unfold lowerRune
  by_cases stroke : c = 'Ⱥ'
  · subst stroke
    decide
  · rw [if_neg stroke]
    constructor
    · exact eq_of_toLower_eq (by decide)
    · rintro rfl
      decide

/- The letter that grows in lower case stands between the words and behind them, and a letter of
a word is in upper case. -/
theorem check_masks_aligned :
    (newDirtyWordFilter lowerRune dirtyWords).check lowerRune 7 (utf8 "shiT, DAmn ȺȺ") =
      .ok ⟨true, "", utf8 "****, **** ȺȺ"⟩ ∧
    ∀ w ∈ dirtyWords, contains (toLower lowerRune (utf8 "****, **** ȺȺ")) (toLower lowerRune w) = false := by
  have masks := (check_masks lowerRune_idempotent lowerRune_star dirtyWords (by decide +kernel)
    (by decide +kernel) (utf8 "shiT, DAmn ȺȺ") (by decide +kernel) 7).1 (by decide +kernel)
  have text : encode (maskWords lowerRune dirtyWords (runes (utf8 "shiT, DAmn ȺȺ"))) =
      utf8 "****, **** ȺȺ" := by
    decide +kernel
  rw [text] at masks
  exact ⟨masks.1, masks.2.2⟩

/- Four letters before the word are four bytes longer in lower case: Check writes the word and
the asterisks behind it. One letter before it and a rune of three bytes behind it: Check cuts the
rune. -/
theorem check_misses :
    validUTF8 (utf8 "ȺȺȺȺdamn") = true ∧ validUTF8 (utf8 "Ⱥdamn€") = true ∧
    (newDirtyWordFilter lowerRune dirtyWords).check lowerRune 7 (utf8 "ȺȺȺȺdamn") =
      .ok ⟨true, "", utf8 "ȺȺȺȺdamn****"⟩ ∧
    contains (toLower lowerRune (utf8 "ȺȺȺȺdamn****")) (utf8 "damn") = true ∧
    maskWords lowerRune dirtyWords (runes (utf8 "ȺȺȺȺdamn")) = "ȺȺȺȺ****".toList ∧
    (newDirtyWordFilter lowerRune dirtyWords).check lowerRune 7 (utf8 "Ⱥdamn€") =
      .ok ⟨true, "", utf8 "Ⱥd****" ++ [0x82, 0xAC]⟩ ∧
    validUTF8 (utf8 "Ⱥd****" ++ [0x82, 0xAC]) = false := by
  decide +kernel

end GameIM.Service.Filter
