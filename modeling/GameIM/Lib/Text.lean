import Mathlib.Data.List.Basic

/-! Texts as lists: the search for one list in another, and the runes of a byte string,
where a byte that does not begin a rune counts as the replacement character. -/
namespace GameIM.Lib.Text

section Search

variable {α : Type} [DecidableEq α]

/-- Where the list is found first. -/
def index (sub : List α) : List α → Option Nat
  | [] => if sub = [] then some 0 else none
  | a :: rest => if sub <+: a :: rest then some 0 else (index sub rest).map (· + 1)

/- The occurrences of the list from a position on, when some elements are to be skipped. -/
def occurrencesFrom (sub : List α) : List α → Nat → Nat → List Nat
  | [], _, _ => []
  | _ :: rest, skip + 1, pos => occurrencesFrom sub rest skip (pos + 1)
  | a :: rest, 0, pos =>
    if sub <+: a :: rest then pos :: occurrencesFrom sub rest (sub.length - 1) (pos + 1)
    else occurrencesFrom sub rest 0 (pos + 1)

/-- Where the list is found, from left to right, each time after the end of the last. -/
def occurrences (sub text : List α) : List Nat := occurrencesFrom sub text 0 0

variable {sub text : List α}

theorem index_le {k : Nat} (found : index sub text = some k) : k + sub.length ≤ text.length := by
  induction text generalizing k with
  | nil =>
    unfold index at found
    split at found
    · rename_i empty
      cases Option.some.inj found
      simp [empty]
    · contradiction
  | cons a rest ih =>
    unfold index at found
    split at found
    · rename_i here
      cases Option.some.inj found
      rw [Nat.zero_add]
      exact here.length_le
    · obtain ⟨j, later, rfl⟩ := Option.map_eq_some_iff.mp found
      have bound := ih later
      rw [List.length_cons]
      omega

theorem occurrencesFrom_skip (sub text : List α) (skip pos : Nat) :
    occurrencesFrom sub text skip pos = occurrencesFrom sub (text.drop skip) 0 (pos + skip) := by
  induction text generalizing skip pos with
  | nil =>
    rw [List.drop_nil]
    rfl
  | cons a rest ih =>
    cases skip with
    | zero => rfl
    | succ skip =>
      rw [occurrencesFrom, ih, List.drop_succ_cons]
      congr 1
      omega

theorem occurrencesFrom_index (nonempty : sub ≠ []) (text : List α) (pos : Nat) :
    occurrencesFrom sub text 0 pos = match index sub text with
      | none => []
      | some k => (pos + k) ::
          occurrencesFrom sub (text.drop (k + sub.length)) 0 (pos + k + sub.length) := by
  induction text generalizing pos with
  | nil => simp [index, nonempty, occurrencesFrom]
  | cons a rest ih =>
    have some : 0 < sub.length := List.length_pos_iff.mpr nonempty
    by_cases here : sub <+: a :: rest
    · obtain ⟨n, width⟩ : ∃ n, sub.length = n + 1 := ⟨sub.length - 1, by omega⟩
      simp only [index, occurrencesFrom, if_pos here, occurrencesFrom_skip sub rest, width]
      simp only [Nat.add_sub_cancel, Nat.add_zero, Nat.zero_add, List.drop_succ_cons]
      congr 2
      omega
    · simp only [index, occurrencesFrom, if_neg here, ih]
      cases index sub rest with
      | none => rfl
      | some k =>
        have next : k + 1 + sub.length = k + sub.length + 1 := by omega
        have place : pos + 1 + k = pos + (k + 1) := by omega
        simp only [Option.map_some, next, place, List.drop_succ_cons]

theorem prefix_of_index {k : Nat} (found : index sub text = some k) : sub <+: text.drop k := by
  induction text generalizing k with
  | nil =>
    unfold index at found
    split at found
    · rename_i empty
      simp [empty]
    · contradiction
  | cons a rest ih =>
    unfold index at found
    split at found
    · rename_i here
      cases Option.some.inj found
      exact here
    · obtain ⟨j, later, rfl⟩ := Option.map_eq_some_iff.mp found
      exact ih later

theorem index_isSome_iff : (index sub text).isSome ↔ sub <:+: text := by
  induction text with
  | nil => simp [index, apply_ite Option.isSome]
  | cons a rest ih =>
    rw [List.infix_cons_iff, ← ih, index]
    split
    · rename_i here
      simp [here]
    · rename_i other
      simp [other]

end Search

section Runes

def replacement : Char := '�'

def runesFrom : List UInt8 → Nat → List Char
  | [], _ => []
  | _ :: rest, skip + 1 => runesFrom rest skip
  | b :: rest, 0 => match (b :: rest).toByteArray.utf8DecodeChar? 0 with
    | some c => c :: runesFrom rest (c.utf8Size - 1)
    | none => replacement :: runesFrom rest 0

def runes (text : List UInt8) : List Char := runesFrom text 0

def encode (cs : List Char) : List UInt8 := cs.flatMap String.utf8EncodeChar

/-- The text with each rune replaced. -/
def mapRunes (f : Char → Char) (text : List UInt8) : List UInt8 := encode ((runes text).map f)

theorem runesFrom_skip (text : List UInt8) (skip : Nat) :
    runesFrom text skip = runes (text.drop skip) := by
  induction text generalizing skip with
  | nil =>
    rw [List.drop_nil]
    rfl
  | cons b rest ih =>
    cases skip with
    | zero => rfl
    | succ skip =>
      rw [runesFrom, ih]
      rfl

theorem runes_encodeChar (c : Char) (text : List UInt8) :
    runes (String.utf8EncodeChar c ++ text) = c :: runes text := by
  have decoded : (String.utf8EncodeChar c ++ text).toByteArray.utf8DecodeChar? 0 = some c := by
    rw [List.toByteArray_append]
    exact ByteArray.utf8DecodeChar?_utf8EncodeChar_append
  have size := String.length_utf8EncodeChar c
  cases bytes : String.utf8EncodeChar c with
  | nil =>
    rw [bytes] at size
    have positive := c.utf8Size_pos
    simp only [List.length_nil] at size
    omega
  | cons b rest =>
    rw [bytes, List.cons_append] at decoded
    rw [bytes, List.length_cons] at size
    rw [List.cons_append, runes, runesFrom, decoded]
    simp only
    rw [runesFrom_skip, ← size, Nat.add_sub_cancel, List.drop_left]

theorem runes_encode (cs : List Char) : runes (encode cs) = cs := by
  induction cs with
  | nil => rfl
  | cons c rest ih =>
    rw [encode, List.flatMap_cons, runes_encodeChar]
    exact congrArg (c :: ·) ih

theorem mapRunes_idempotent {f : Char → Char} (idempotent : ∀ c, f (f c) = f c) (text : List UInt8) :
    mapRunes f (mapRunes f text) = mapRunes f text := by
  simp only [mapRunes, runes_encode, List.map_map]
  congr 2
  funext c
  exact idempotent c

theorem mapRunes_ne_nil (f : Char → Char) {text : List UInt8} (nonempty : text ≠ []) :
    mapRunes f text ≠ [] := by
  have some : runes text ≠ [] := by
    cases text with
    | nil => contradiction
    | cons b rest =>
      unfold runes runesFrom
      split
      · simp
      · simp
  obtain ⟨c, rest, first⟩ := List.exists_cons_of_ne_nil some
  intro empty
  have size := String.length_utf8EncodeChar (f c)
  have positive := (f c).utf8Size_pos
  simp only [mapRunes, first, encode, List.map_cons, List.flatMap_cons, List.append_eq_nil_iff] at empty
  rw [empty.1] at size
  simp only [List.length_nil] at size
  omega

theorem encode_cons (c : Char) (cs : List Char) :
    encode (c :: cs) = String.utf8EncodeChar c ++ encode cs := rfl

theorem encode_append (cs ds : List Char) : encode (cs ++ ds) = encode cs ++ encode ds :=
  List.flatMap_append

theorem encode_eq_nil {cs : List Char} : encode cs = [] ↔ cs = [] := by
  cases cs with
  | nil => exact iff_of_true rfl rfl
  | cons c rest => simp [encode_cons, String.utf8EncodeChar_ne_nil]

theorem runes_encode_append (cs : List Char) (data : List UInt8) :
    runes (encode cs ++ data) = cs ++ runes data := by
  induction cs with
  | nil => rfl
  | cons c rest ih => rw [encode_cons, List.append_assoc, runes_encodeChar, ih, List.cons_append]

theorem encode_prefix_iff {cs ds : List Char} : encode cs <+: encode ds ↔ cs <+: ds := by
  constructor
  · rintro ⟨data, same⟩
    refine ⟨runes data, ?_⟩
    rw [← runes_encode_append, same, runes_encode]
  · rintro ⟨es, rfl⟩
    exact ⟨encode es, (encode_append cs es).symm⟩

/- Only the first byte of a rune is one that begins a rune. -/
theorem utf8EncodeChar_first (c : Char) : ∃ b conts, String.utf8EncodeChar c = b :: conts ∧
    b.IsUTF8FirstByte ∧ ∀ x ∈ conts, ¬ x.IsUTF8FirstByte := by
  obtain ⟨b, conts, bytes⟩ := List.exists_cons_of_ne_nil (String.utf8EncodeChar_ne_nil (c := c))
  have place (i : Nat) (x : UInt8) (here : (b :: conts)[i]? = some x) : x.IsUTF8FirstByte ↔ i = 0 := by
    rw [← bytes] at here
    obtain ⟨inside, rfl⟩ := List.getElem?_eq_some_iff.mp here
    exact UInt8.isUTF8FirstByte_getElem_utf8EncodeChar
  refine ⟨b, conts, bytes, (place 0 b rfl).mpr rfl, fun x member => ?_⟩
  obtain ⟨i, here⟩ := List.mem_iff_getElem?.mp member
  exact fun first => by simpa using (place (i + 1) x here).mp first

theorem index_skip {b : UInt8} {sub conts rest : List UInt8} (first : b.IsUTF8FirstByte)
    (others : ∀ x ∈ conts, ¬ x.IsUTF8FirstByte) :
    index (b :: sub) (conts ++ rest) = (index (b :: sub) rest).map (· + conts.length) := by
  induction conts with
  | nil => simp
  | cons x conts ih =>
    have apart : ¬ b :: sub <+: x :: (conts ++ rest) := by
      intro here
      obtain ⟨rfl, _⟩ := List.cons_prefix_cons.mp here
      exact others b List.mem_cons_self first
    rw [List.cons_append, index, if_neg apart, ih fun y member => others y (List.mem_cons_of_mem x member),
      Option.map_map]
    rfl

/-- The runes are found where their bytes are. -/
theorem index_encode {cs : List Char} (nonempty : cs ≠ []) (ds : List Char) :
    index (encode cs) (encode ds) = (index cs ds).map fun k => (encode (ds.take k)).length := by
  obtain ⟨c, cs, rfl⟩ := List.exists_cons_of_ne_nil nonempty
  obtain ⟨b, conts, bytes, first, _⟩ := utf8EncodeChar_first c
  have begins : encode (c :: cs) = b :: (conts ++ encode cs) := by
    rw [encode_cons, bytes, List.cons_append]
  induction ds with
  | nil => simp [index, encode]
  | cons d ds ih =>
    obtain ⟨b', conts', bytes', _, others⟩ := utf8EncodeChar_first d
    have whole : encode (d :: ds) = b' :: (conts' ++ encode ds) := by
      rw [encode_cons, bytes', List.cons_append]
    rw [whole, index, ← whole, if_congr encode_prefix_iff rfl rfl, index]
    by_cases here : c :: cs <+: d :: ds
    · simp [here, encode]
    · rw [if_neg here, if_neg here]
      have passed : index (encode (c :: cs)) (conts' ++ encode ds) =
          (index (encode (c :: cs)) (encode ds)).map (· + conts'.length) := by
        rw [begins]
        exact index_skip first others
      rw [passed, ih, Option.map_map, Option.map_map, Option.map_map]
      congr 1
      funext k
      simp only [Function.comp_apply, List.take_succ_cons, encode_cons, bytes', List.length_append,
        List.length_cons]
      omega

theorem isValidUTF8_iff {data : List UInt8} :
    data.toByteArray.IsValidUTF8 ↔ ∃ cs, data = encode cs := by
  constructor
  · rintro ⟨cs, same⟩
    refine ⟨cs, ?_⟩
    simpa [encode, List.utf8Encode] using same
  · rintro ⟨cs, rfl⟩
    exact ⟨cs, rfl⟩

end Runes

end GameIM.Lib.Text
