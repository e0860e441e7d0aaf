import GameIM.Gateway.Codec

/-! Decode with the buffers of bufPool. The body of a packet is read into a slice of a
pooled buffer that still holds what an earlier call left in it; the buffer goes back when
the call returns. Which buffer Get hands out is up to the pool. Unmarshal copies what it
keeps. Nothing but Decode uses the pool. -/
namespace GameIM.Gateway
open Lib Api

/- A pooled slice is its backing array: its length is its capacity. -/
structure BufPool where
  buffers : List Bytes
  deriving DecidableEq, Repr

namespace BufPool

def newBuffer : Bytes := List.replicate 4096 0

/- Any buffer that is in the pool, or a new one. -/
def get (pool : BufPool) (pick : Nat) : Bytes × BufPool :=
  match pool.buffers[pick]? with
  | some bp => (bp, ⟨pool.buffers.eraseIdx pick⟩)
  | none => (newBuffer, pool)

def put (pool : BufPool) (bp : Bytes) : BufPool := ⟨bp :: pool.buffers⟩

/- The garbage collector may empty a pool at any time. -/
def drop (pool : BufPool) (pick : Nat) : BufPool := ⟨pool.buffers.eraseIdx pick⟩

end BufPool

/- io.ReadFull: the first n bytes of the buffer are overwritten as far as the stream goes. -/
def readFullInto (buffer : Bytes) (n : Nat) (stream : Bytes) : Option ReadError × Bytes × Bytes :=
  let read := stream.take n
  let err := match readFull n stream with
    | .error e => some e
    | .ok _ => none
  (err, read ++ buffer.drop read.length, stream.drop n)

structure Decoded where
  result : Except DecodeError Frame
  rest : Bytes
  pool : BufPool

/- A buffer is used if its capacity, as a uint32, is enough. -/
def bodyBuffer (bp : Bytes) (bodyLen : Nat) : Bytes :=
  if bp.length % 4294967296 ≥ bodyLen then bp else List.replicate bodyLen 0

def readBody (proto : Proto Frame) (pool : BufPool) (pick bodyLen : Nat) (stream : Bytes) : Decoded :=
  let got := pool.get pick
  match readFullInto (bodyBuffer got.1 bodyLen) bodyLen stream with
  | (some e, bp, rest) => ⟨.error (.readBody e), rest, got.2.put bp⟩
  | (none, bp, rest) => match proto.unmarshal (bp.take bodyLen) with
    | none => ⟨.error .unmarshal, rest, got.2.put bp⟩
    | some frame => ⟨.ok frame, rest, got.2.put bp⟩

def decodePooled (proto : Proto Frame) (pool : BufPool) (pick : Nat) (stream : Bytes) : Decoded :=
  match readFullInto (List.replicate headerSize 0) headerSize stream with
  | (some e, _, rest) => ⟨.error (.readHeader e), rest, pool⟩
  | (none, header, rest) =>
    if ofBe header > maxFrameSize then ⟨.error (.tooLarge (ofBe header)), rest, pool⟩
    else if ofBe header = 0 then ⟨.error .emptyBody, rest, pool⟩
    else readBody proto pool pick (ofBe header) rest

def consumed (stream : Bytes) : Nat :=
  if ofBe (stream.take headerSize) > maxFrameSize ∨ ofBe (stream.take headerSize) = 0 then headerSize
  else headerSize + ofBe (stream.take headerSize)

section Read

variable (buffer : Bytes) {n : Nat} {stream : Bytes}

theorem readFull_enough (enough : n ≤ stream.length) :
    readFull n stream = .ok (stream.take n, stream.drop n) :=
  if_pos enough

theorem readFullInto_ok (enough : n ≤ stream.length) :
    readFullInto buffer n stream = (none, stream.take n ++ buffer.drop n, stream.drop n) := by
  simp only [readFullInto, readFull_enough enough, List.length_take_of_le enough]

theorem take_overwritten (enough : n ≤ stream.length) :
    (stream.take n ++ buffer.drop n).take n = stream.take n := by
  have length : (stream.take n).length = n := List.length_take_of_le enough
  rw [List.take_append_of_le_length (Nat.le_of_eq length.symm), List.take_of_length_le (Nat.le_of_eq length)]

theorem readFullInto_short (short : stream.length < n) :
    ∃ e bp, readFullInto buffer n stream = (some e, bp, stream.drop n) ∧ readFull n stream = .error e := by
  obtain ⟨e, fails⟩ := readFull_short short
  refine ⟨e, (readFullInto buffer n stream).2.1, ?_, fails⟩
  simp only [readFullInto, fails]

end Read

section Decode

variable (proto : Proto Frame) (pool : BufPool) (pick : Nat)

theorem readBody_rest (n : Nat) (stream : Bytes) :
    (readBody proto pool pick n stream).rest = stream.drop n := by
  unfold readBody
  by_cases enough : n ≤ stream.length
  · simp only [readFullInto_ok _ enough]
    split
    · rfl
    · rfl
  · obtain ⟨e, bp, into, _⟩ :=
      readFullInto_short (bodyBuffer (pool.get pick).1 n) (Nat.lt_of_not_le enough)
    simp only [into]

theorem readBody_result (n : Nat) (stream : Bytes) :
    (readBody proto pool pick n stream).result = match readFull n stream with
      | .error e => .error (.readBody e)
      | .ok (body, _) => match proto.unmarshal body with
        | none => .error .unmarshal
        | some frame => .ok frame := by
  unfold readBody
  by_cases enough : n ≤ stream.length
  · simp only [readFullInto_ok _ enough, take_overwritten _ enough, readFull_enough enough]
    split
    · rfl
    · rfl
  · obtain ⟨e, bp, into, plain⟩ :=
      readFullInto_short (bodyBuffer (pool.get pick).1 n) (Nat.lt_of_not_le enough)
    simp only [into, plain]

theorem decodePooled_headed {stream : Bytes} (headed : headerSize ≤ stream.length) :
    decodePooled proto pool pick stream =
      if ofBe (stream.take headerSize) > maxFrameSize then
        ⟨.error (.tooLarge (ofBe (stream.take headerSize))), stream.drop headerSize, pool⟩
      else if ofBe (stream.take headerSize) = 0 then ⟨.error .emptyBody, stream.drop headerSize, pool⟩
      else readBody proto pool pick (ofBe (stream.take headerSize)) (stream.drop headerSize) := by
  have header : stream.take headerSize ++ (List.replicate headerSize 0).drop headerSize =
      stream.take headerSize := by
    simp
  simp only [decodePooled, readFullInto_ok _ headed, header]

theorem decodePooled_rest (stream : Bytes) :
    (decodePooled proto pool pick stream).rest = stream.drop (consumed stream) := by
  unfold consumed
  by_cases headed : headerSize ≤ stream.length
  · rw [decodePooled_headed proto pool pick headed]
    by_cases large : ofBe (stream.take headerSize) > maxFrameSize
    · rw [if_pos large, if_pos (Or.inl large)]
    · by_cases empty : ofBe (stream.take headerSize) = 0
      · rw [if_neg large, if_pos empty, if_pos (Or.inr empty)]
      · rw [if_neg large, if_neg empty, if_neg (not_or.mpr ⟨large, empty⟩), readBody_rest, List.drop_drop]
  · have short := Nat.lt_of_not_le headed
    obtain ⟨e, bp, into, _⟩ := readFullInto_short (List.replicate headerSize 0) short
    simp only [decodePooled, into]
    rw [List.drop_eq_nil_of_le (Nat.le_of_lt short), List.drop_eq_nil_of_le]
    split
    · omega
    · omega

/-- The result is that of Decode without a pool. -/
theorem decodePooled_result (stream : Bytes) :
    (decodePooled proto pool pick stream).result = (decode proto stream).map Prod.fst := by
  by_cases headed : headerSize ≤ stream.length
  · rw [decodePooled_headed proto pool pick headed]
    simp only [decode, readFull_enough headed]
    split
    · rfl
    · split
      · rfl
      · rw [readBody_result]
        cases readFull (ofBe (stream.take headerSize)) (stream.drop headerSize) with
        | error e => rfl
        | ok read => cases found : proto.unmarshal read.1 with
          | none => simp only [found, Except.map]
          | some frame => simp only [found, Except.map]
  · obtain ⟨e, bp, into, plain⟩ :=
      readFullInto_short (List.replicate headerSize 0) (Nat.lt_of_not_le headed)
    simp only [decodePooled, into, decode, plain]
    rfl

end Decode

section Accepted

variable {proto : Proto Frame} {stream : Bytes}

theorem decode_ok_iff (frame : Frame) (rest : Bytes) :
    decode proto stream = .ok (frame, rest) ↔ ∃ header body, stream = header ++ body ++ rest ∧
      header.length = 4 ∧ ofBe header = body.length ∧ 1 ≤ body.length ∧ body.length ≤ 65536 ∧
      proto.unmarshal body = some frame := by
  constructor
  · intro decoded
    unfold decode readFull at decoded
    split at decoded
    · contradiction
    · rename_i header after read
      split at read
      · rename_i headed
        cases read
        split at decoded
        · contradiction
        · rename_i small
          split at decoded
          · contradiction
          · rename_i positive
            split at decoded
            · contradiction
            · rename_i body left again
              split at again
              · rename_i enough
                cases again
                split at decoded
                · contradiction
                · rename_i frame found
                  cases decoded
                  have length := List.length_take_of_le enough
                  refine ⟨_, _, ?_, List.length_take_of_le headed, length.symm, ?_, ?_, found⟩
                  · rw [List.append_assoc, List.take_append_drop]
                    exact (List.take_append_drop headerSize stream).symm
                  · rw [length]
                    exact Nat.one_le_iff_ne_zero.mpr positive
                  · rw [length]
                    exact Nat.le_of_not_lt small
              · split at again
                · contradiction
                · contradiction
      · split at read
        · contradiction
        · contradiction
  · rintro ⟨header, body, rfl, four, size, positive, small, found⟩
    have fits : ¬ body.length > maxFrameSize := Nat.not_lt.mpr small
    have some : body.length ≠ 0 := Nat.one_le_iff_ne_zero.mp positive
    rw [List.append_assoc]
    simp only [decode, headerSize, readFull_append four, size, if_neg fits, if_neg some,
      readFull_append (rfl : body.length = body.length), found]

theorem decode_rest {frame : Frame} {rest : Bytes} (decoded : decode proto stream = .ok (frame, rest)) :
    stream.drop (consumed stream) = rest := by
  obtain ⟨header, body, rfl, four, size, positive, small, _⟩ := (decode_ok_iff frame rest).mp decoded
  have front : (header ++ body ++ rest).take headerSize = header := by
    rw [List.append_assoc]
    exact List.take_left' four
  have fits : ¬ (body.length > maxFrameSize ∨ body.length = 0) := by
    rintro (large | empty)
    · exact Nat.not_lt.mpr small large
    · omega
  have length : headerSize + body.length = (header ++ body).length := by
    rw [List.length_append, four]
    rfl
  rw [consumed, front, size, if_neg fits, length, List.drop_left]

end Accepted

/- Calls of Decode on any streams, one after the other, over one pool; the pool may lose a
buffer at any time. -/
inductive PoolEvent where
  | decode (pick : Nat) (stream : Bytes)
  | collect (pick : Nat)
  deriving DecidableEq, Repr

def runPool (proto : Proto Frame) : BufPool → List PoolEvent → List (Except DecodeError Frame × Bytes)
  | _, [] => []
  | pool, .decode pick stream :: more =>
    let d := decodePooled proto pool pick stream
    (d.result, d.rest) :: runPool proto d.pool more
  | pool, .collect pick :: more => runPool proto (pool.drop pick) more

def runFresh (proto : Proto Frame) : List PoolEvent → List (Except DecodeError Frame × Bytes)
  | [] => []
  | .decode _ stream :: more =>
    ((decode proto stream).map Prod.fst, stream.drop (consumed stream)) :: runFresh proto more
  | .collect _ :: more => runFresh proto more

/-- Whatever the earlier calls left in the pool, no call sees it. -/
theorem runPool_fresh (proto : Proto Frame) (pool : BufPool) (events : List PoolEvent) :
    runPool proto pool events = runFresh proto events := by
  induction events generalizing pool with
  | nil => rfl
  | cons event more ih =>
    cases event with
    | decode pick stream =>
      simp only [runPool, runFresh, decodePooled_result, decodePooled_rest, ih]
    | collect pick => exact ih (pool.drop pick)

/-- Decode over any pool: it succeeds exactly on a header of four bytes with a size from 1 to
65536 and so many bytes that unmarshal, takes exactly these and returns that frame; after a
header with another size it has taken the header alone; and neither depends on the pool. -/
theorem decode_pooled (proto : Proto Frame) (pool : BufPool) (pick : Nat) (stream : Bytes) :
    (∀ frame rest, ((decodePooled proto pool pick stream).result = .ok frame ∧
        (decodePooled proto pool pick stream).rest = rest) ↔
      ∃ header body, stream = header ++ body ++ rest ∧ header.length = 4 ∧
        ofBe header = body.length ∧ 1 ≤ body.length ∧ body.length ≤ 65536 ∧
        proto.unmarshal body = some frame) ∧
    (4 ≤ stream.length → ofBe (stream.take 4) = 0 ∨ 65536 < ofBe (stream.take 4) →
      (∃ e, (decodePooled proto pool pick stream).result = .error e) ∧
        (decodePooled proto pool pick stream).rest = stream.drop 4) ∧
    ∀ other pick', (decodePooled proto other pick' stream).result =
        (decodePooled proto pool pick stream).result ∧
      (decodePooled proto other pick' stream).rest = (decodePooled proto pool pick stream).rest := by
  refine ⟨?_, ?_, ?_⟩
  · intro frame rest
    rw [← decode_ok_iff, decodePooled_result, decodePooled_rest]
    constructor
    · rintro ⟨succeeds, rfl⟩
      cases decoded : decode proto stream with
      | error e =>
        rw [decoded] at succeeds
        contradiction
      | ok read =>
        obtain ⟨_, left⟩ := read
        rw [decoded] at succeeds
        cases Except.ok.inj succeeds
        rw [decode_rest decoded]
    · intro decoded
      exact ⟨by rw [decoded]; rfl, decode_rest decoded⟩
  · intro headed refused
    rw [decodePooled_headed proto pool pick headed]
    by_cases large : ofBe (stream.take headerSize) > maxFrameSize
    · rw [if_pos large]
      exact ⟨⟨_, rfl⟩, rfl⟩
    · have empty : ofBe (stream.take headerSize) = 0 := refused.resolve_right large
      rw [if_neg large, if_pos empty]
      exact ⟨⟨_, rfl⟩, rfl⟩
  · intro other pick'
    simp only [decodePooled_result, decodePooled_rest, and_self]

end GameIM.Gateway
