import Mathlib

/-! Bytes on the wire: base-128 varints, lowest group first, and big-endian 32-bit
numbers. A reader takes a value off the front of its input and returns the rest. -/
namespace GameIM.Lib

/- The fuel bounds the number of groups. -/
def varintGroups : Nat → Nat → List UInt8
  | 0, n => [UInt8.ofNat n]
  | fuel + 1, n =>
    if n < 128 then [UInt8.ofNat n]
    else UInt8.ofNat (n % 128 + 128) :: varintGroups fuel (n / 128)

def varint (n : Nat) : List UInt8 := varintGroups n n

def readGroups : List UInt8 → Option (Nat × List UInt8)
  | [] => none
  | b :: rest =>
    if b.toNat < 128 then some (b.toNat, rest)
    else (readGroups rest).map fun r => (b.toNat - 128 + 128 * r.1, r.2)

theorem readGroups_last {n : Nat} (small : n < 128) (rest : List UInt8) :
    readGroups (UInt8.ofNat n :: rest) = some (n, rest) := by
  have byte : (UInt8.ofNat n).toNat = n := by
    rw [UInt8.toNat_ofNat']
    omega
  simp [readGroups, byte, small]

theorem readGroups_groups (fuel n : Nat) (enough : n ≤ fuel) (rest : List UInt8) :
    readGroups (varintGroups fuel n ++ rest) = some (n, rest) := by
  induction fuel generalizing n with
  | zero => exact readGroups_last (by omega) rest
  | succ fuel ih =>
    unfold varintGroups
    by_cases small : n < 128
    · rw [if_pos small]
      exact readGroups_last small rest
    · have byte : (UInt8.ofNat (n % 128 + 128)).toNat = n % 128 + 128 := by
        rw [UInt8.toNat_ofNat']
        omega
      have tail := ih (n / 128) (by omega)
      rw [if_neg small, List.cons_append, readGroups, byte, if_neg (by omega), tail]
      simp only [Option.map_some, Option.some.injEq, Prod.mk.injEq, and_true]
      omega

def varintSize (n : Nat) : Nat := Nat.log 128 n + 1

theorem varintGroups_length (fuel n : Nat) (enough : n ≤ fuel) :
    (varintGroups fuel n).length = varintSize n := by
  unfold varintSize
  induction fuel generalizing n with
  | zero =>
    have zero : n = 0 := Nat.le_zero.mp enough
    simp [varintGroups, zero]
  | succ fuel ih =>
    unfold varintGroups
    by_cases small : n < 128
    · simp [if_pos small, Nat.log_of_lt small]
    · have tail := ih (n / 128) (by omega)
      rw [if_neg small, List.length_cons, tail,
        Nat.log_of_one_lt_of_le (by decide) (Nat.le_of_not_lt small)]

@[simp] theorem varint_length (n : Nat) : (varint n).length = varintSize n :=
  varintGroups_length n n (Nat.le_refl n)

/-- A number of at most 64 bits takes ten groups and may be padded up to them. A larger one is left
to its reader, which refuses it: a field by its range, a length by the bytes that are missing. -/
def readVarint (bytes : List UInt8) : Option (Nat × List UInt8) :=
  (readGroups bytes).bind fun r =>
    if bytes.length ≤ r.2.length + 10 ∨ 2 ^ 64 ≤ r.1 then some r else none

theorem varintSize_le {n : Nat} (small : n < 2 ^ 64) : varintSize n ≤ 10 := by
  have log : Nat.log 128 n < 10 := Nat.log_lt_of_lt_pow' (by decide) (by omega)
  rw [varintSize]
  omega

theorem readVarint_varint (n : Nat) (rest : List UInt8) :
    readVarint (varint n ++ rest) = some (n, rest) := by
  have groups : readGroups (varint n ++ rest) = some (n, rest) := readGroups_groups n n (Nat.le_refl n) rest
  have few : (varint n ++ rest).length ≤ rest.length + 10 ∨ 2 ^ 64 ≤ n := by
    rw [List.length_append, varint_length]
    by_cases small : n < 2 ^ 64
    · have size := varintSize_le small
      omega
    · exact Or.inr (Nat.le_of_not_lt small)
  rw [readVarint, groups, Option.bind_some, if_pos few]

def readNumber (bytes : List UInt8) : Option (Nat × List UInt8) :=
  (readVarint bytes).bind fun r => if r.1 < 2 ^ 64 then some r else none

theorem readNumber_varint {n : Nat} (small : n < 2 ^ 64) (rest : List UInt8) :
    readNumber (varint n ++ rest) = some (n, rest) := by
  rw [readNumber, readVarint_varint, Option.bind_some, if_pos small]

def sized (data : List UInt8) : List UInt8 := varint data.length ++ data

def sizedSize (n : Nat) : Nat := varintSize n + n

@[simp] theorem sized_length (data : List UInt8) : (sized data).length = sizedSize data.length := by
  simp [sized, sizedSize]

def readSized (bytes : List UInt8) : Option (List UInt8 × List UInt8) :=
  (readVarint bytes).bind fun r =>
    if r.1 ≤ r.2.length then some (r.2.take r.1, r.2.drop r.1) else none

theorem readSized_sized (data rest : List UInt8) : readSized (sized data ++ rest) = some (data, rest) := by
  simp [readSized, sized, readVarint_varint]

def be32 (n : Nat) : List UInt8 :=
  [UInt8.ofNat (n / 16777216), UInt8.ofNat (n / 65536), UInt8.ofNat (n / 256), UInt8.ofNat n]

def ofBe (bytes : List UInt8) : Nat := bytes.foldl (fun n b => n * 256 + b.toNat) 0

@[simp] theorem be32_length (n : Nat) : (be32 n).length = 4 := rfl

theorem ofBe_be32 {n : Nat} (small : n < 4294967296) : ofBe (be32 n) = n := by
  simp only [ofBe, be32, List.foldl_cons, List.foldl_nil, UInt8.toNat_ofNat']
  omega

end GameIM.Lib
