import Mathlib.Data.List.Infix
import Mathlib.Data.List.Basic

/-! Reading a byte stream that is a sequence of packets. A decoder takes one value off
the front of the stream or fails. A packet is delimited if the decoder finds its end
whatever follows, and fragile if the decoder fails on every proper beginning of it. -/
namespace GameIM.Lib

variable {β E : Type}

abbrev Decoder (β E : Type) := List UInt8 → Except E (β × List UInt8)

/-- Decodes until the decoder fails or the fuel runs out. -/
def readAll (decode : Decoder β E) : Nat → List UInt8 → List β × Option E
  | 0, _ => ([], none)
  | fuel + 1, stream => match decode stream with
    | .error e => ([], some e)
    | .ok (x, rest) =>
      let more := readAll decode fuel rest
      (x :: more.1, more.2)

/-- Decodes n values, one after another: the values and what is left of the stream. -/
def readN (decode : Decoder β E) : Nat → List UInt8 → Except E (List β × List UInt8)
  | 0, stream => .ok ([], stream)
  | n + 1, stream => match decode stream with
    | .error e => .error e
    | .ok (x, rest) => match readN decode n rest with
      | .error e => .error e
      | .ok (xs, left) => .ok (x :: xs, left)

structure Delimited (decode : Decoder β E) (packet : List UInt8) (x : β) : Prop where
  nonempty : packet ≠ []
  decodes : ∀ rest, decode (packet ++ rest) = .ok (x, rest)

def Fragile (decode : Decoder β E) (short : E → Prop) (packet : List UInt8) : Prop :=
  ∀ part missing, part ++ missing = packet → missing ≠ [] → ∃ e, short e ∧ decode part = .error e

section ReadAll

variable {P : Type} {decode : Decoder β E} {bytes : P → List UInt8} {val : P → β} {ps : List P}

theorem readAll_flat (delimited : ∀ p ∈ ps, Delimited decode (bytes p) (val p)) (fuel : Nat)
    (rest : List UInt8) :
    readAll decode (ps.length + fuel) (ps.flatMap bytes ++ rest) =
      (ps.map val ++ (readAll decode fuel rest).1, (readAll decode fuel rest).2) := by
  induction ps with
  | nil => simp
  | cons p more ih =>
    have here := (delimited p (by simp)).decodes (more.flatMap bytes ++ rest)
    have tail := ih (fun q hq => delimited q (by simp [hq]))
    have count : (p :: more).length + fuel = more.length + fuel + 1 := by
      simp only [List.length_cons]
      omega
    rw [List.flatMap_cons, List.append_assoc, count, readAll, here]
    simp only [tail, List.map_cons, List.cons_append]

/-- As many values as there are packets are the packets' values, and nothing of what
follows the packets is read. -/
theorem readN_flat (delimited : ∀ p ∈ ps, Delimited decode (bytes p) (val p)) (rest : List UInt8) :
    readN decode ps.length (ps.flatMap bytes ++ rest) = .ok (ps.map val, rest) := by
  induction ps with
  | nil => rfl
  | cons p more ih =>
    have here := (delimited p (by simp)).decodes (more.flatMap bytes ++ rest)
    have tail := ih (fun q hq => delimited q (by simp [hq]))
    rw [List.flatMap_cons, List.append_assoc, List.length_cons, readN, here]
    simp only [tail, List.map_cons]

theorem length_le_flat (delimited : ∀ p ∈ ps, Delimited decode (bytes p) (val p)) :
    ps.length ≤ (ps.flatMap bytes).length := by
  induction ps with
  | nil => simp
  | cons p more ih =>
    have here := List.length_pos_iff.mpr (delimited p (by simp)).nonempty
    have tail := ih (fun q hq => delimited q (by simp [hq]))
    rw [List.flatMap_cons, List.length_cons, List.length_append]
    omega

/-- A stream of whole packets is read back, up to what the decoder says at its end. -/
theorem readAll_whole (delimited : ∀ p ∈ ps, Delimited decode (bytes p) (val p)) {e : E}
    (atEnd : decode [] = .error e) :
    readAll decode ((ps.flatMap bytes).length + 1) (ps.flatMap bytes) = (ps.map val, some e) := by
  obtain ⟨extra, hextra⟩ := Nat.exists_eq_add_of_le (length_le_flat delimited)
  have fuel : (ps.flatMap bytes).length + 1 = ps.length + (extra + 1) := by omega
  have read := readAll_flat delimited (extra + 1) []
  rw [List.append_nil] at read
  rw [fuel, read]
  simp [readAll, atEnd]

/-- A stream of packets that was cut somewhere: the values before the cut, and then a
failure that says no more than that the stream is short. -/
theorem readAll_cut (delimited : ∀ p ∈ ps, Delimited decode (bytes p) (val p)) {short : E → Prop}
    (fragile : ∀ p ∈ ps, Fragile decode short (bytes p)) {e : E} (atEnd : decode [] = .error e)
    (shortEnd : short e) {stream : List UInt8} (cut : stream <+: ps.flatMap bytes) {fuel : Nat}
    (enough : stream.length < fuel) :
    ∃ n e', short e' ∧ readAll decode fuel stream = ((ps.take n).map val, some e') := by
  induction ps generalizing stream fuel with
  | nil =>
    have empty : stream = [] := List.prefix_nil.mp cut
    obtain ⟨k, rfl⟩ : ∃ k, fuel = k + 1 := ⟨fuel - 1, by omega⟩
    exact ⟨0, e, shortEnd, by simp [readAll, empty, atEnd]⟩
  | cons p more ih =>
    obtain ⟨k, rfl⟩ : ∃ k, fuel = k + 1 := ⟨fuel - 1, by omega⟩
    have here := delimited p (by simp)
    rw [List.flatMap_cons] at cut
    by_cases whole : (bytes p).length ≤ stream.length
    · obtain ⟨rest, rfl⟩ : bytes p <+: stream :=
        List.prefix_of_prefix_length_le (List.prefix_append _ _) cut whole
      have later : rest <+: more.flatMap bytes := (List.prefix_append_right_inj _).mp cut
      have positive := List.length_pos_iff.mpr here.nonempty
      rw [List.length_append] at enough
      have left : rest.length < k := by omega
      obtain ⟨n, e', hs, read⟩ := ih (fun q hq => delimited q (by simp [hq]))
        (fun q hq => fragile q (by simp [hq])) later left
      refine ⟨n + 1, e', hs, ?_⟩
      rw [readAll, here.decodes rest]
      simp [read]
    · obtain ⟨missing, hm⟩ : stream <+: bytes p :=
        List.prefix_of_prefix_length_le cut (List.prefix_append _ _) (by omega)
      have lacking : missing ≠ [] := by
        intro empty
        rw [empty, List.append_nil] at hm
        exact whole (by rw [hm])
      obtain ⟨e', hs, fails⟩ := fragile p (by simp) stream missing hm lacking
      exact ⟨0, e', hs, by simp [readAll, fails]⟩

end ReadAll

/-- What more bytes do not change: a value that was read, and a failure that is not for want of
bytes. -/
structure Incremental (decode : Decoder β E) (short : E → Prop) : Prop where
  shrinks : ∀ {s x rest}, decode s = .ok (x, rest) → rest.length < s.length
  grows : ∀ {s x rest} more, decode s = .ok (x, rest) → decode (s ++ more) = .ok (x, rest ++ more)
  final : ∀ {s e} more, decode s = .error e → ¬ short e → decode (s ++ more) = .error e

section Arriving

variable {decode : Decoder β E} {short : E → Prop} {s rest : List UInt8} {xs : List β} {n : Nat}

theorem readN_succ {x : β} {after : List UInt8} (first : decode s = .ok (x, after)) :
    readN decode (n + 1) s = .ok (x :: xs, rest) ↔ readN decode n after = .ok (xs, rest) := by
  simp only [readN, first]
  cases readN decode n after with
  | error e => simp
  | ok read => simp [Prod.ext_iff]

theorem readN_first (read : readN decode (n + 1) s = .ok (xs, rest)) :
    ∃ x more after, xs = x :: more ∧ decode s = .ok (x, after) ∧ readN decode n after = .ok (more, rest) := by
  rw [readN] at read
  split at read
  · contradiction
  · rename_i x after first
    split at read
    · contradiction
    · rename_i more left later
      cases read
      exact ⟨x, more, after, rfl, first, later⟩

theorem Incremental.readN_grows (incremental : Incremental decode short) (more : List UInt8)
    (read : readN decode n s = .ok (xs, rest)) : readN decode n (s ++ more) = .ok (xs, rest ++ more) := by
  induction n generalizing s xs with
  | zero =>
    cases read
    rfl
  | succ n ih =>
    obtain ⟨x, later, after, rfl, first, read⟩ := readN_first read
    exact (readN_succ (incremental.grows more first)).mpr (ih read)

theorem readN_snoc {x : β} {left : List UInt8} (read : readN decode n s = .ok (xs, rest))
    (next : decode rest = .ok (x, left)) : readN decode (n + 1) s = .ok (xs ++ [x], left) := by
  induction n generalizing s xs with
  | zero =>
    cases read
    exact (readN_succ next).mpr rfl
  | succ n ih =>
    obtain ⟨y, later, after, rfl, first, read⟩ := readN_first read
    exact (readN_succ first).mpr (ih read)

theorem readAll_readN (read : readN decode n s = .ok (xs, rest)) (fuel : Nat) :
    readAll decode (n + fuel) s = (xs ++ (readAll decode fuel rest).1, (readAll decode fuel rest).2) := by
  induction n generalizing s xs with
  | zero =>
    cases read
    simp
  | succ n ih =>
    obtain ⟨x, later, after, rfl, first, read⟩ := readN_first read
    rw [Nat.succ_add, readAll, first]
    simp only [ih read, List.cons_append]

theorem Incremental.readN_length (incremental : Incremental decode short)
    (read : readN decode n s = .ok (xs, rest)) : n + rest.length ≤ s.length := by
  induction n generalizing s xs with
  | zero =>
    cases read
    omega
  | succ n ih =>
    obtain ⟨x, later, after, rfl, first, read⟩ := readN_first read
    have shorter := incremental.shrinks first
    have left := ih read
    omega

/-- What was read of a stream so far begins what is in it. -/
theorem Incremental.readN_begins (incremental : Incremental decode short)
    (read : readN decode n s = .ok (xs, rest)) : xs <+: (readAll decode (s.length + 1) s).1 := by
  have length := incremental.readN_length read
  obtain ⟨extra, fuel⟩ : ∃ extra, s.length + 1 = n + extra := ⟨s.length + 1 - n, by omega⟩
  rw [fuel, readAll_readN read]
  exact List.prefix_append _ _

/-- A failure to read on says that this is all. -/
theorem Incremental.readN_all (incremental : Incremental decode short)
    (read : readN decode n s = .ok (xs, rest)) {e : E} (fails : decode rest = .error e) :
    readAll decode (s.length + 1) s = (xs, some e) := by
  have length := incremental.readN_length read
  obtain ⟨extra, fuel⟩ : ∃ extra, s.length + 1 = n + (extra + 1) := ⟨s.length - n, by omega⟩
  rw [fuel, readAll_readN read, readAll, fails, List.append_nil]

/-- A beginning of a stream of packets, among them some on which the decoder fails whatever
follows: the values of the packets before the first of these, as far as the stream goes. -/
theorem Incremental.readAll_mixed {P : Type} {bytes : P → List UInt8} {val : P → β} {ps : List P}
    (incremental : Incremental decode short)
    (each : ∀ p ∈ ps, Delimited decode (bytes p) (val p) ∨ ∀ rest, ∃ e, decode (bytes p ++ rest) = .error e)
    (atEnd : ∃ e, decode [] = .error e) {stream : List UInt8} (cut : stream <+: ps.flatMap bytes) {fuel : Nat}
    (enough : stream.length < fuel) :
    ∃ k e, readAll decode fuel stream = ((ps.take k).map val, some e) ∧
      ∀ p ∈ ps.take k, Delimited decode (bytes p) (val p) := by
  induction ps generalizing stream fuel with
  | nil =>
    obtain ⟨left, rfl⟩ : ∃ left, fuel = left + 1 := ⟨fuel - 1, by omega⟩
    obtain ⟨e, fails⟩ := atEnd
    rw [List.prefix_nil.mp cut]
    exact ⟨0, e, by simp [readAll, fails], by simp⟩
  | cons p more ih =>
    obtain ⟨n, rfl⟩ : ∃ n, fuel = n + 1 := ⟨fuel - 1, by omega⟩
    cases read : decode stream with
    | error e => exact ⟨0, e, by simp [readAll, read], by simp⟩
    | ok result =>
      obtain ⟨x, rest⟩ := result
      obtain ⟨missing, whole⟩ := cut
      rw [List.flatMap_cons] at whole
      have longer := incremental.grows missing read
      rw [whole] at longer
      rcases each p List.mem_cons_self with delimited | stuck
      · rw [delimited.decodes] at longer
        obtain ⟨rfl, left⟩ := Prod.mk.inj (Except.ok.inj longer)
        have shorter := incremental.shrinks read
        have fits : rest.length < n := by omega
        obtain ⟨k, e, later, taken⟩ :=
          ih (fun q member => each q (List.mem_cons_of_mem p member)) ⟨missing, left.symm⟩ fits
        refine ⟨k + 1, e, ?_, ?_⟩
        · rw [readAll, read]
          simp [later]
        · intro q member
          rcases List.mem_cons.mp member with rfl | member
          · exact delimited
          · exact taken q member
      · obtain ⟨e, fails⟩ := stuck (more.flatMap bytes)
        rw [fails] at longer
        contradiction

end Arriving

end GameIM.Lib
