import Mathlib.Data.List.Basic
import GameIM.Lib.Text

/-! Texts that are pasted together from parts, and what can be told of the parts: a tag that is
not the beginning of another one, a last part without the separator, and decimals. -/
namespace GameIM.Lib.Text

section Parts

variable {κ α : Type}

/-- Where no tag begins another, a tagged text has one tag and one rest. -/
theorem tagged_inj {tag : κ → List α} (code : ∀ k l, tag k <+: tag l → k = l) {k l : κ} {x y : List α} :
    tag k ++ x = tag l ++ y ↔ k = l ∧ x = y := by
  constructor
  · intro same
    have mine : tag k <+: tag l ++ y := ⟨x, same⟩
    have tags : k = l := by
      rcases List.prefix_or_prefix_of_prefix mine (List.prefix_append (tag l) y) with begins | begins
      · exact code k l begins
      · exact (code l k begins).symm
    subst tags
    exact ⟨rfl, List.append_cancel_left same⟩
  · rintro ⟨rfl, rfl⟩
    rfl

/-- A part without the separator stands behind the last one. -/
theorem separated_inj {a : α} {x y z w : List α} (left : a ∉ z) (right : a ∉ w) :
    x ++ a :: z = y ++ a :: w ↔ x = y ∧ z = w := by
  constructor
  · intro same
    rcases List.append_eq_append_iff.mp same with ⟨e, rfl, rest⟩ | ⟨e, rfl, rest⟩
    · cases e with
      | nil =>
        rw [List.nil_append, List.cons_inj_right] at rest
        exact ⟨(List.append_nil x).symm, rest⟩
      | cons b e =>
        rw [List.cons_append, List.cons.injEq] at rest
        rw [rest.2] at left
        exact absurd (List.mem_append_right e List.mem_cons_self) left
    · cases e with
      | nil =>
        rw [List.nil_append, List.cons_inj_right] at rest
        exact ⟨List.append_nil y, rest.symm⟩
      | cons b e =>
        rw [List.cons_append, List.cons.injEq] at rest
        rw [rest.2] at right
        exact absurd (List.mem_append_right e List.mem_cons_self) right
  · rintro ⟨rfl, rfl⟩
    rfl

end Parts

section Decimal

def decimal (n : Int) : List UInt8 := encode (toString n).toList

def readDigits : List Char → Int
  | '-' :: digits => -Nat.ofDigitChars 10 digits 0
  | digits => Nat.ofDigitChars 10 digits 0

def readDecimal (text : List UInt8) : Option Int :=
  let n := readDigits (runes text)
  if decimal n = text then some n else none

theorem toList_ofNat (m : Nat) : (toString (Int.ofNat m)).toList = Nat.toDigits 10 m :=
  Nat.toList_repr

theorem toList_negSucc (m : Nat) :
    (toString (Int.negSucc m)).toList = '-' :: Nat.toDigits 10 (m + 1) := by
  have shown : toString (Int.negSucc m) = "-" ++ (m + 1).repr := rfl
  rw [shown, String.toList_append, Nat.toList_repr]
  rfl

theorem readDigits_unsigned {cs : List Char} (unsigned : '-' ∉ cs) :
    readDigits cs = Nat.ofDigitChars 10 cs 0 := by
  cases cs with
  | nil => rfl
  | cons c rest =>
    unfold readDigits
    split
    · rename_i dash
      cases dash
      exact absurd List.mem_cons_self unsigned
    · rfl

theorem mem_toDigits_ten {m : Nat} {c : Char} (member : c ∈ Nat.toDigits 10 m) :
    48 ≤ c.toNat ∧ c.toNat ≤ 57 :=
  Char.isDigit_iff_toNat.mp (Nat.isDigit_of_mem_toDigits (by decide) (by decide) member)

theorem readDigits_toString (n : Int) : readDigits (toString n).toList = n := by
  cases n with
  | ofNat m =>
    have unsigned : '-' ∉ Nat.toDigits 10 m := by
      intro member
      exact absurd (mem_toDigits_ten member) (by decide)
    rw [toList_ofNat, readDigits_unsigned unsigned, Nat.ofDigitChars_ten_toDigits]
    rfl
  | negSucc m =>
    rw [toList_negSucc, readDigits, Nat.ofDigitChars_ten_toDigits]
    rfl

theorem readDigits_decimal (n : Int) : readDigits (runes (decimal n)) = n := by
  rw [decimal, runes_encode, readDigits_toString]

@[simp] theorem decimal_inj {m n : Int} : decimal m = decimal n ↔ m = n := by
  constructor
  · intro same
    rw [← readDigits_decimal m, same, readDigits_decimal]
  · rintro rfl
    rfl

@[simp] theorem readDecimal_decimal (n : Int) : readDecimal (decimal n) = some n := by
  simp only [readDecimal, readDigits_decimal, if_pos]

theorem readDecimal_eq_some {text : List UInt8} {n : Int} : readDecimal text = some n ↔ text = decimal n := by
  constructor
  · intro found
    simp only [readDecimal] at found
    split at found
    · rename_i written
      rw [← Option.some.inj found, written]
    · contradiction
  · rintro rfl
    exact readDecimal_decimal n

theorem colon_notMem_encodeChar {c : Char} (small : c.toNat < 58) : 58 ∉ String.utf8EncodeChar c := by
  have one : c.utf8Size = 1 := by
    have ascii : c.val ≤ 127 := UInt32.le_iff_toNat_le.mpr (by change c.toNat ≤ 127; omega)
    exact if_pos ascii
  rw [String.utf8EncodeChar_eq_singleton one, List.mem_singleton]
  intro same
  have value := congrArg UInt8.toNat same
  rw [UInt32.toNat_toUInt8] at value
  have : c.val.toNat < 58 := small
  have : (58 : UInt8).toNat = 58 := rfl
  omega

theorem colon_notMem_decimal (n : Int) : 58 ∉ decimal n := by
  intro member
  obtain ⟨c, shown, byte⟩ := List.mem_flatMap.mp member
  refine colon_notMem_encodeChar ?_ byte
  cases n with
  | ofNat m =>
    rw [toList_ofNat] at shown
    have digit := mem_toDigits_ten shown
    omega
  | negSucc m =>
    rw [toList_negSucc, List.mem_cons] at shown
    rcases shown with rfl | shown
    · decide
    · have digit := mem_toDigits_ten shown
      omega

end Decimal

end GameIM.Lib.Text
