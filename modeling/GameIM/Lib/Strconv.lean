import Mathlib.Data.List.TakeWhile
import GameIM.Lib.Format
import GameIM.Lib.Int64

/-! Numbers of 64 bits in texts: ParseInt of strconv with base 10, and Sscanf of fmt with the verb
%d. Both read what is written by the verb. -/
namespace GameIM.Lib.Text

def natural (digits : List Char) : Option Nat :=
  if digits ≠ [] ∧ digits.all Char.isDigit then some (Nat.ofDigitChars 10 digits 0) else none

def signed : List Char → Option Int
  | '-' :: digits => (natural digits).map fun m => -(m : Int)
  | '+' :: digits => (natural digits).map Int.ofNat
  | digits => (natural digits).map Int.ofNat

def ranged (n : Option Int) : Option Int := n.filter fun n => decide (IsInt64 n)

def parseInt (text : List UInt8) : Option Int := ranged (signed (runes text))

/- The table of fmt. -/
def isSpace (c : Char) : Bool :=
  (0x9 ≤ c.toNat && c.toNat ≤ 0xd) || c.toNat = 0x20 || c.toNat = 0x85 || c.toNat = 0xa0 || c.toNat = 0x1680 ||
    (0x2000 ≤ c.toNat && c.toNat ≤ 0x200a) || c.toNat = 0x2028 || c.toNat = 0x2029 || c.toNat = 0x202f ||
    c.toNat = 0x205f || c.toNat = 0x3000

/- A newline is an error. -/
def skipSpace : List Char → Option (List Char)
  | [] => some []
  | c :: rest => if c = '\n' then none else if isSpace c then skipSpace rest else some (c :: rest)

def token : List Char → List Char
  | '-' :: rest => '-' :: rest.takeWhile Char.isDigit
  | '+' :: rest => '+' :: rest.takeWhile Char.isDigit
  | rest => rest.takeWhile Char.isDigit

def scanInt (text : List UInt8) : Option Int := do
  let rest ← skipSpace (runes text)
  ranged (signed (token rest))

/- The number whose own decimal the text is. -/
def readInt64 (text : List UInt8) : Option Int := ranged (readDecimal text)

theorem ranged_some {n : Int} (fits : IsInt64 n) : ranged (some n) = some n :=
  Option.filter_some_pos (decide_eq_true fits)

section Written

variable {m : Nat}

theorem toDigits_isDigit {c : Char} (member : c ∈ Nat.toDigits 10 m) : c.isDigit = true :=
  Nat.isDigit_of_mem_toDigits (by decide) (by decide) member

theorem natural_toDigits : natural (Nat.toDigits 10 m) = some m := by
  have digits : Nat.toDigits 10 m ≠ [] ∧ (Nat.toDigits 10 m).all Char.isDigit = true :=
    ⟨Nat.toDigits_ne_nil, List.all_eq_true.mpr fun _ => toDigits_isDigit⟩
  rw [natural, if_pos digits, Nat.ofDigitChars_ten_toDigits]

theorem toDigits_cons : ∃ c rest, Nat.toDigits 10 m = c :: rest ∧ c ≠ '-' ∧ c ≠ '+' ∧ c ≠ '\n' ∧ isSpace c = false := by
  obtain ⟨c, rest, shown⟩ := List.exists_cons_of_ne_nil (Nat.toDigits_ne_nil (b := 10) (n := m))
  have digit := mem_toDigits_ten (shown ▸ List.mem_cons_self : c ∈ Nat.toDigits 10 m)
  refine ⟨c, rest, shown, ?_, ?_, ?_, ?_⟩
  · rintro rfl
    exact absurd digit (by decide)
  · rintro rfl
    exact absurd digit (by decide)
  · rintro rfl
    exact absurd digit (by decide)
  · simp only [isSpace, Bool.or_eq_false_iff, Bool.and_eq_false_iff, decide_eq_false_iff_not]
    omega

theorem signed_unsigned {c : Char} {rest : List Char} (minus : c ≠ '-') (plus : c ≠ '+') :
    signed (c :: rest) = (natural (c :: rest)).map Int.ofNat := by
  unfold signed
  split
  · rename_i same
    exact absurd (List.cons.inj same).1 minus
  · rename_i same
    exact absurd (List.cons.inj same).1 plus
  · rfl

theorem signed_toString (n : Int) : signed (toString n).toList = some n := by
  cases n with
  | ofNat m =>
    obtain ⟨c, rest, shown, minus, plus, _⟩ := toDigits_cons (m := m)
    rw [toList_ofNat, shown, signed_unsigned minus plus, ← shown, natural_toDigits]
    rfl
  | negSucc m =>
    rw [toList_negSucc, signed, natural_toDigits]
    rfl

end Written

theorem parseInt_decimal {n : Int} (fits : IsInt64 n) : parseInt (decimal n) = some n := by
  rw [parseInt, decimal, runes_encode, signed_toString, ranged_some fits]

theorem readInt64_decimal {n : Int} (fits : IsInt64 n) : readInt64 (decimal n) = some n := by
  rw [readInt64, readDecimal_decimal, ranged_some fits]

theorem readInt64_eq_some {text : List UInt8} {n : Int} : readInt64 text = some n ↔ text = decimal n ∧ IsInt64 n := by
  rw [readInt64, ranged, Option.filter_eq_some_iff, readDecimal_eq_some, decide_eq_true_iff]

end GameIM.Lib.Text
