import Mathlib.Data.List.Induction
import GameIM.Lib.Wire

/-! Messages as sequences of numbered fields, in any order and with unknown ones among them. A
codec says what the values under one number make of a field, and a message is put together from
the codecs of its fields; both carry the proof that what is written is read back. Nothing here is
about a particular message. -/
namespace GameIM.Lib

/-- What stands behind a tag: a number, or a byte string behind its length. -/
inductive Value where
  | varint (n : Nat)
  | sized (data : List UInt8)
  deriving DecidableEq, Repr

def Value.Fits : Value → Prop
  | .varint n => n < 2 ^ 64
  | .sized _ => True

abbrev Field := Nat × Value

namespace Field

def encode : Field → List UInt8
  | (number, .varint n) => Lib.varint (8 * number) ++ Lib.varint n
  | (number, .sized data) => Lib.varint (8 * number + 2) ++ Lib.sized data

/- A group ends at the end tag of its number. Every field in it takes a byte at least. -/
def skipGroup : Nat → Nat → List UInt8 → Option (List UInt8)
  | 0, _, _ => none
  | fuel + 1, number, bytes => (readVarint bytes).bind fun (tag, after) =>
    if tag / 8 = 0 ∨ 2 ^ 31 ≤ tag / 8 then none
    else match tag % 8 with
      | 0 => (readNumber after).bind fun r => skipGroup fuel number r.2
      | 1 => if 8 ≤ after.length then skipGroup fuel number (after.drop 8) else none
      | 2 => (readSized after).bind fun r => skipGroup fuel number r.2
      | 3 => (skipGroup fuel (tag / 8) after).bind (skipGroup fuel number)
      | 4 => if tag / 8 = number then some after else none
      | 5 => if 4 ≤ after.length then skipGroup fuel number (after.drop 4) else none
      | _ => none

def Valid (number : Nat) : Prop := 0 < number ∧ number < 2 ^ 29

instance (number : Nat) : Decidable (Valid number) := inferInstanceAs (Decidable (_ ∧ _))

/- No message here has a group or a field of fixed width, so these are passed. -/
def readValue (tag : Nat) (bytes : List UInt8) : Option (List Field × List UInt8) :=
  if Valid (tag / 8) then match tag % 8 with
    | 0 => (readNumber bytes).map fun r => ([(tag / 8, .varint r.1)], r.2)
    | 1 => if 8 ≤ bytes.length then some ([], bytes.drop 8) else none
    | 2 => (readSized bytes).map fun r => ([(tag / 8, .sized r.1)], r.2)
    | 3 => (skipGroup bytes.length (tag / 8) bytes).map fun rest => ([], rest)
    | 5 => if 4 ≤ bytes.length then some ([], bytes.drop 4) else none
    | _ => none
  else none

def read (bytes : List UInt8) : Option (List Field × List UInt8) :=
  (readVarint bytes).bind fun r => readValue r.1 r.2

theorem read_encode {f : Field} (valid : Valid f.1) (fits : f.2.Fits) (rest : List UInt8) :
    read (encode f ++ rest) = some ([f], rest) := by
  obtain ⟨number, value⟩ := f
  cases value with
  | varint n =>
    have tag : 8 * number / 8 = number ∧ 8 * number % 8 = 0 := by omega
    simp only [read, encode, List.append_assoc, readVarint_varint, Option.bind_some, readValue, tag,
      readNumber_varint fits, Option.map_some]
    exact if_pos valid
  | sized data =>
    have tag : (8 * number + 2) / 8 = number ∧ (8 * number + 2) % 8 = 2 := by omega
    simp only [read, encode, List.append_assoc, readVarint_varint, Option.bind_some, readValue, tag,
      readSized_sized, Option.map_some]
    exact if_pos valid

theorem encode_length (f : Field) : 0 < (encode f).length := by
  obtain ⟨number, value⟩ := f
  cases value with
  | varint n =>
    rw [encode, List.length_append, varint_length, varintSize]
    omega
  | sized data =>
    rw [encode, List.length_append, varint_length, varintSize]
    omega

end Field

def readFieldsWithin : Nat → List UInt8 → Option (List Field)
  | _, [] => some []
  | 0, _ :: _ => none
  | fuel + 1, b :: more =>
    (Field.read (b :: more)).bind fun r => (readFieldsWithin fuel r.2).map (r.1 ++ ·)

/- Every field takes a byte at least. -/
def readFields (bytes : List UInt8) : Option (List Field) := readFieldsWithin bytes.length bytes

def encodeFields (fs : List Field) : List UInt8 := fs.flatMap Field.encode

theorem encodeFields_append (fs gs : List Field) :
    encodeFields (fs ++ gs) = encodeFields fs ++ encodeFields gs := List.flatMap_append

theorem readFieldsWithin_encode {fs : List Field} (valid : ∀ f ∈ fs, Field.Valid f.1 ∧ f.2.Fits) {fuel : Nat}
    (enough : (encodeFields fs).length ≤ fuel) : readFieldsWithin fuel (encodeFields fs) = some fs := by
  induction fs generalizing fuel with
  | nil => cases fuel <;> rfl
  | cons f fs ih =>
    obtain ⟨number, fits⟩ := valid f List.mem_cons_self
    have read := Field.read_encode number fits (encodeFields fs)
    have positive := Field.encode_length f
    have bytes : encodeFields (f :: fs) = Field.encode f ++ encodeFields fs := by simp [encodeFields]
    rw [bytes] at enough ⊢
    rw [List.length_append] at enough
    obtain ⟨b, more, first⟩ := List.exists_cons_of_length_pos positive
    obtain ⟨fuel, rfl⟩ : ∃ left, fuel = left + 1 := ⟨fuel - 1, by omega⟩
    rw [first, List.cons_append] at read ⊢
    rw [readFieldsWithin, read, Option.bind_some,
      ih (fun g member => valid g (List.mem_cons_of_mem f member)) (by omega)]
    rfl

theorem foldlM_keeps {σ β : Type} {step : σ → β → Option σ} {P : σ → Prop}
    (keeps : ∀ s b t, P s → step s b = some t → P t) {bs : List β} {s t : σ} (before : P s)
    (done : bs.foldlM step s = some t) : P t := by
  induction bs generalizing s with
  | nil => exact Option.some.inj done ▸ before
  | cons b bs ih =>
    rw [List.foldlM_cons] at done
    obtain ⟨next, first, later⟩ := Option.bind_eq_some_iff.mp done
    exact ih (keeps s b next before first) later

theorem foldlM_along {σ τ β : Type} {step : σ → β → Option σ} {into : σ → τ} {back : τ → σ}
    (undone : ∀ s, back (into s) = s) (bs : List β) (s : σ) :
    bs.foldlM (fun t b => (step (back t) b).map into) (into s) = (bs.foldlM step s).map into := by
  induction bs generalizing s with
  | nil => rfl
  | cons b bs ih =>
    rw [List.foldlM_cons, List.foldlM_cons, undone]
    cases step s b with
    | none => rfl
    | some next => exact ih next

/-- The values under one number. `take` puts one more of them into what the field holds, and
`write` has none for the default. -/
structure Codec (α : Type) where
  default : α
  take : α → Value → Option α
  write : α → List Value
  Good : α → Prop
  fits : ∀ a, ∀ v ∈ write a, v.Fits
  good_default : Good default
  good_take : ∀ a v a', Good a → take a v = some a' → Good a'
  restores : ∀ a, Good a → (write a).foldlM take default = some a

/-- `numbers` are those of its fields; others are passed. -/
structure Message (M : Type) where
  empty : M
  set : M → Field → Option M
  fields : M → List Field
  Good : M → Prop
  numbers : List Nat
  numbered : ∀ m, ∀ f ∈ fields m, f.1 ∈ numbers ∧ f.2.Fits
  valid : ∀ number ∈ numbers, Field.Valid number
  good_empty : Good empty
  good_set : ∀ m f m', Good m → set m f = some m' → Good m'
  restores : ∀ m, Good m → (fields m).foldlM set empty = some m

namespace Message

variable {M : Type}

def encode (msg : Message M) (m : M) : List UInt8 := encodeFields (msg.fields m)

/- Read into a message: later fields replace or join what is there. -/
def merge (msg : Message M) (m : M) (bytes : List UInt8) : Option M :=
  (readFields bytes).bind fun fs => fs.foldlM msg.set m

def unmarshal (msg : Message M) (bytes : List UInt8) : Option M := msg.merge msg.empty bytes

variable {msg : Message M} {m m' : M} {bytes : List UInt8}

theorem merge_good (before : msg.Good m) (read : msg.merge m bytes = some m') : msg.Good m' := by
  obtain ⟨fs, _, done⟩ := Option.bind_eq_some_iff.mp read
  exact foldlM_keeps msg.good_set before done

theorem unmarshal_good (read : msg.unmarshal bytes = some m) : msg.Good m := merge_good msg.good_empty read

theorem unmarshal_encode (good : msg.Good m) : msg.unmarshal (msg.encode m) = some m := by
  have valid : ∀ f ∈ msg.fields m, Field.Valid f.1 ∧ f.2.Fits := by
    intro f member
    obtain ⟨known, fits⟩ := msg.numbered m f member
    exact ⟨msg.valid f.1 known, fits⟩
  rw [unmarshal, merge, readFields, encode, readFieldsWithin_encode valid (Nat.le_refl _)]
  exact msg.restores m good

def nil : Message Unit where
  empty := ()
  set _ _ := some ()
  fields _ := []
  Good _ := True
  numbers := []
  numbered _ _ member := by contradiction
  valid _ member := by contradiction
  good_empty := trivial
  good_set _ _ _ _ _ := trivial
  restores _ _ := rfl

section Cons

variable {α β : Type}

def setCons (number : Nat) (codec : Codec α) (rest : Message β) (m : α × β) (f : Field) : Option (α × β) :=
  if f.1 = number then (codec.take m.1 f.2).map (·, m.2) else (rest.set m.2 f).map (m.1, ·)

theorem fold_here (number : Nat) (codec : Codec α) (rest : Message β) (vs : List Value) (a : α) (b : β) :
    (vs.map fun v => (number, v)).foldlM (setCons number codec rest) (a, b) =
      (vs.foldlM codec.take a).map (·, b) := by
  induction vs generalizing a with
  | nil => rfl
  | cons v vs ih =>
    rw [List.map_cons, List.foldlM_cons, List.foldlM_cons, setCons, if_pos rfl]
    cases codec.take a v with
    | none => rfl
    | some next => exact ih next

theorem fold_there {number : Nat} (codec : Codec α) (rest : Message β) {fs : List Field}
    (other : ∀ f ∈ fs, f.1 ≠ number) (a : α) (b : β) :
    fs.foldlM (setCons number codec rest) (a, b) = (fs.foldlM rest.set b).map (a, ·) := by
  induction fs generalizing b with
  | nil => rfl
  | cons f fs ih =>
    rw [List.foldlM_cons, List.foldlM_cons, setCons, if_neg (other f List.mem_cons_self)]
    cases rest.set b f with
    | none => rfl
    | some next => exact ih (fun g member => other g (List.mem_cons_of_mem f member)) next

/-- One more field, before the others. -/
def cons (number : Nat) (codec : Codec α) (rest : Message β) (fresh : number ∉ rest.numbers := by decide)
    (within : Field.Valid number := by decide) : Message (α × β) where
  empty := (codec.default, rest.empty)
  set := setCons number codec rest
  fields m := (codec.write m.1).map (fun v => (number, v)) ++ rest.fields m.2
  Good m := codec.Good m.1 ∧ rest.Good m.2
  numbers := number :: rest.numbers
  numbered m f member := by
    rcases List.mem_append.mp member with here | there
    · obtain ⟨v, written, rfl⟩ := List.mem_map.mp here
      exact ⟨List.mem_cons_self, codec.fits m.1 v written⟩
    · obtain ⟨known, fits⟩ := rest.numbered m.2 f there
      exact ⟨List.mem_cons_of_mem number known, fits⟩
  valid k member := by
    rcases List.mem_cons.mp member with rfl | member
    · exact within
    · exact rest.valid k member
  good_empty := ⟨codec.good_default, rest.good_empty⟩
  good_set m f m' good set := by
    unfold setCons at set
    split at set
    · obtain ⟨a, took, rfl⟩ := Option.map_eq_some_iff.mp set
      exact ⟨codec.good_take m.1 f.2 a good.1 took, good.2⟩
    · obtain ⟨b, passed, rfl⟩ := Option.map_eq_some_iff.mp set
      exact ⟨good.1, rest.good_set m.2 f b good.2 passed⟩
  restores m good := by
    have other : ∀ f ∈ rest.fields m.2, f.1 ≠ number :=
      fun f member same => fresh (same ▸ (rest.numbered m.2 f member).1)
    rw [List.foldlM_append, fold_here, codec.restores m.1 good.1]
    have later := fold_there codec rest other m.1 rest.empty
    rw [rest.restores m.2 good.2] at later
    exact later

end Cons

/-- The same fields for another type. -/
def as {N : Type} (msg : Message M) (into : M → N) (back : N → M) (undone : ∀ m, back (into m) = m := by intro _; rfl)
    (redone : ∀ n, into (back n) = n := by intro _; rfl) : Message N where
  empty := into msg.empty
  set n f := (msg.set (back n) f).map into
  fields n := msg.fields (back n)
  Good n := msg.Good (back n)
  numbers := msg.numbers
  numbered n := msg.numbered (back n)
  valid := msg.valid
  good_empty := by
    rw [undone]
    exact msg.good_empty
  good_set n f n' good set := by
    obtain ⟨m, passed, rfl⟩ := Option.map_eq_some_iff.mp set
    rw [undone]
    exact msg.good_set (back n) f m good passed
  restores n good := by
    rw [foldlM_along undone, msg.restores (back n) good, Option.map_some, redone]

@[simp] theorem good_nil (m : Unit) : nil.Good m := trivial

@[simp] theorem good_cons {α β : Type} {number : Nat} {codec : Codec α} {rest : Message β}
    {fresh : number ∉ rest.numbers} {within : Field.Valid number} (m : α × β) :
    (cons number codec rest fresh within).Good m ↔ codec.Good m.1 ∧ rest.Good m.2 := Iff.rfl

@[simp] theorem good_as {N : Type} {into : M → N} {back : N → M} {undone : ∀ m, back (into m) = m}
    {redone : ∀ n, into (back n) = n} (n : N) : (msg.as into back undone redone).Good n ↔ msg.Good (back n) := Iff.rfl

theorem encode_nil (m : Unit) : nil.encode m = [] := rfl

theorem encode_cons {α β : Type} {number : Nat} {codec : Codec α} {rest : Message β} {fresh : number ∉ rest.numbers}
    {within : Field.Valid number} (m : α × β) : (cons number codec rest fresh within).encode m =
      encodeFields ((codec.write m.1).map fun v => (number, v)) ++ rest.encode m.2 :=
  encodeFields_append _ _

theorem encode_as {N : Type} {into : M → N} {back : N → M} {undone : ∀ m, back (into m) = m}
    {redone : ∀ n, into (back n) = n} (n : N) : (msg.as into back undone redone).encode n = msg.encode (back n) := rfl

end Message

namespace Codec

/-- The codec of a type whose values are those of another. -/
def as {α β : Type} (codec : Codec α) (into : α → β) (back : β → α) (undone : ∀ a, back (into a) = a := by intro _; rfl)
    (redone : ∀ b, into (back b) = b := by intro _; rfl) : Codec β where
  default := into codec.default
  take b v := (codec.take (back b) v).map into
  write b := codec.write (back b)
  Good b := codec.Good (back b)
  fits b := codec.fits (back b)
  good_default := by
    rw [undone]
    exact codec.good_default
  good_take b v b' good take := by
    obtain ⟨a, took, rfl⟩ := Option.map_eq_some_iff.mp take
    rw [undone]
    exact codec.good_take (back b) v a good took
  restores b good := by
    rw [foldlM_along undone, codec.restores (back b) good, Option.map_some, redone]

/-- A number that is left out where it is zero; `ofNat` reads the bits that `bits` writes. -/
def number {α : Type} (zero : α) (ofNat : Nat → α) (bits : α → Nat) (Good : α → Prop) (good_zero : Good zero)
    (short : ∀ a, bits a < 2 ^ 64) (good : ∀ n, Good (ofNat n)) (undoes : ∀ a, Good a → ofNat (bits a) = a)
    (unset : ∀ a, Good a → bits a = 0 → a = zero) : Codec α where
  default := zero
  take a
    | .varint n => some (ofNat n)
    | .sized _ => some a
  write a := if bits a = 0 then [] else [.varint (bits a)]
  Good := Good
  fits a v member := by
    split at member
    · contradiction
    · cases List.mem_singleton.mp member
      exact short a
  good_default := good_zero
  good_take a v a' before take := by
    cases v with
    | varint n =>
      cases Option.some.inj take
      exact good n
    | sized data =>
      cases Option.some.inj take
      exact before
  restores a before := by
    split
    · rename_i none
      exact congrArg some (unset a before none).symm
    · simp [undoes a before]

/-- A byte string that is left out where it is empty. -/
def bytes {α : Type} (empty : α) (read : List UInt8 → Option α) (write : α → List UInt8) (Good : α → Prop)
    (good_empty : Good empty) (good : ∀ data a, read data = some a → Good a)
    (undoes : ∀ a, Good a → read (write a) = some a) (unset : ∀ a, Good a → write a = [] → a = empty) : Codec α where
  default := empty
  take a
    | .varint _ => some a
    | .sized data => read data
  write a := if write a = [] then [] else [.sized (write a)]
  Good := Good
  fits a v member := by
    split at member
    · contradiction
    · cases List.mem_singleton.mp member
      trivial
  good_default := good_empty
  good_take a v a' before take := by
    cases v with
    | varint n =>
      cases Option.some.inj take
      exact before
    | sized data => exact good data a' take
  restores a before := by
    split
    · rename_i none
      exact congrArg some (unset a before none).symm
    · simp [undoes a before]

/-- Any number of values, in their order. None of them is left out. -/
def repeated {α : Type} (read : List UInt8 → Option α) (write : α → List UInt8) (Good : α → Prop)
    (good : ∀ data a, read data = some a → Good a) (undoes : ∀ a, Good a → read (write a) = some a) :
    Codec (List α) where
  default := []
  take xs
    | .varint _ => some xs
    | .sized data => (read data).map fun x => xs ++ [x]
  write xs := xs.map fun x => .sized (write x)
  Good xs := ∀ x ∈ xs, Good x
  fits xs v member := by
    obtain ⟨x, _, rfl⟩ := List.mem_map.mp member
    trivial
  good_default _ member := by contradiction
  good_take xs v xs' before take := by
    cases v with
    | varint n =>
      cases Option.some.inj take
      exact before
    | sized data =>
      obtain ⟨x, took, rfl⟩ := Option.map_eq_some_iff.mp take
      intro y member
      rcases List.mem_append.mp member with old | new
      · exact before y old
      · cases List.mem_singleton.mp new
        exact good data x took
  restores xs each := by
    induction xs using List.reverseRecOn with
    | nil => rfl
    | append_singleton xs x ih =>
      rw [List.map_append, List.foldlM_append, ih fun y member => each y (List.mem_append_left _ member)]
      simp [undoes x (each x (by simp))]

/-- A message inside a message, which may be absent. -/
def message {M : Type} (msg : Message M) : Codec (Option M) where
  default := none
  take m
    | .varint _ => some m
    | .sized data => (msg.merge (m.getD msg.empty) data).map some
  write m := m.toList.map fun m => .sized (msg.encode m)
  Good m := ∀ m' ∈ m, msg.Good m'
  fits m v member := by
    obtain ⟨_, _, rfl⟩ := List.mem_map.mp member
    trivial
  good_default _ member := by contradiction
  good_take m v m' before take := by
    cases v with
    | varint n =>
      cases Option.some.inj take
      exact before
    | sized data =>
      obtain ⟨read, merged, rfl⟩ := Option.map_eq_some_iff.mp take
      have start : msg.Good (m.getD msg.empty) := by
        cases m with
        | none => exact msg.good_empty
        | some old => exact before old rfl
      intro new same
      cases Option.mem_some_iff.mp same
      exact Message.merge_good start merged
  restores m good := by
    cases m with
    | none => rfl
    | some m =>
      have undoes : msg.merge msg.empty (msg.encode m) = some m := Message.unmarshal_encode (good m rfl)
      simp [undoes]

end Codec

end GameIM.Lib
