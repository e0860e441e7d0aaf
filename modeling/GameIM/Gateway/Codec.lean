import GameIM.Lib.Wire
import GameIM.Lib.Stream
import GameIM.Api.Proto

/-! The packet codec of internal/gateway/codec.go: four bytes of length, then a marshalled
Frame. An io.Reader is the byte stream that is left to read, closed at its end. An io.Writer
is what was written to it, and how many bytes more it takes. -/
namespace GameIM.Gateway
open Lib Api

def headerSize : Nat := 4
def maxFrameSize : Nat := 65536

inductive EncodeError where
  | marshal
  | tooLarge (bodyLen : Nat)
  deriving DecidableEq, Repr

def encodeRaw (proto : Proto Frame) (cmdID seq : UInt32) (payload : Bytes) : Except EncodeError Bytes :=
  match proto.marshal ⟨cmdID, seq, payload⟩ with
  | none => .error .marshal
  | some body =>
    if body.length > maxFrameSize then .error (.tooLarge body.length)
    else .ok (be32 body.length ++ body)

/- No bound stands for a writer that never fails, a bytes.Buffer. -/
structure Writer where
  data : Bytes
  room : Option Nat
  deriving DecidableEq, Repr

def Writer.write (w : Writer) (p : Bytes) : Bool × Writer :=
  match w.room with
  | none => (true, ⟨w.data ++ p, none⟩)
  | some n => (decide (p.length ≤ n), ⟨w.data ++ p.take n, some (n - p.length)⟩)

inductive WriteError where
  | encode (e : EncodeError)
  | writeHeader
  | writeBody
  deriving DecidableEq, Repr

def encode (proto : Proto Frame) (w : Writer) (frame : Frame) : Option WriteError × Writer :=
  match proto.marshal frame with
  | none => (some (.encode .marshal), w)
  | some body =>
    if body.length > maxFrameSize then (some (.encode (.tooLarge body.length)), w)
    else match w.write (be32 body.length) with
      | (false, w) => (some .writeHeader, w)
      | (true, w) => match w.write body with
        | (false, w) => (some .writeBody, w)
        | (true, w) => (none, w)

/- Encode for one frame after another, up to the first error. -/
def encodeAll (proto : Proto Frame) (w : Writer) : List Frame → Option WriteError × Writer
  | [] => (none, w)
  | frame :: more => match encode proto w frame with
    | (some e, w) => (some e, w)
    | (none, w) => encodeAll proto w more

/- io.EOF and io.ErrUnexpectedEOF. -/
inductive ReadError where
  | eof
  | unexpectedEOF
  deriving DecidableEq, Repr

def readFull (n : Nat) (stream : Bytes) : Except ReadError (Bytes × Bytes) :=
  if n ≤ stream.length then .ok (stream.take n, stream.drop n)
  else if stream.length = 0 then .error .eof
  else .error .unexpectedEOF

inductive DecodeError where
  | readHeader (e : ReadError)
  | tooLarge (bodyLen : Nat)
  | emptyBody
  | readBody (e : ReadError)
  | unmarshal
  deriving DecidableEq, Repr

def decode (proto : Proto Frame) : Decoder Frame DecodeError := fun stream =>
  match readFull headerSize stream with
  | .error e => .error (.readHeader e)
  | .ok (header, rest) =>
    if ofBe header > maxFrameSize then .error (.tooLarge (ofBe header))
    else if ofBe header = 0 then .error .emptyBody
    else match readFull (ofBe header) rest with
      | .error e => .error (.readBody e)
      | .ok (body, rest) => match proto.unmarshal body with
        | none => .error .unmarshal
        | some frame => .ok (frame, rest)

/- Decode in a loop until it fails; every packet takes bytes, so the length is fuel enough. -/
def decodeAll (proto : Proto Frame) (stream : Bytes) : List Frame × Option DecodeError :=
  readAll (decode proto) (stream.length + 1) stream

/-- The stream ended, at the end of a packet or inside one. -/
def DecodeError.isShort : DecodeError → Bool
  | .readHeader _ => true
  | .readBody _ => true
  | _ => false

structure Packet where
  data : Bytes
  frame : Frame
  deriving DecidableEq, Repr

structure Framed (proto : Proto Frame) (p : Packet) (body : Bytes) : Prop where
  marshalled : proto.marshal p.frame = some body
  nonempty : 1 ≤ body.length
  fits : body.length ≤ 65536
  data : p.data = be32 body.length ++ body

section Encoders

variable {proto : Proto Frame} {frame : Frame}

/- The two encoders refuse the same frames, and Encode has then written nothing. -/
theorem encode_refused {e : EncodeError}
    (refused : encodeRaw proto frame.cmdId frame.seq frame.payload = .error e) (w : Writer) :
    encode proto w frame = (some (.encode e), w) := by
  unfold encodeRaw at refused
  unfold encode
  cases marshalled : proto.marshal frame with
  | none =>
    simp only [marshalled, Except.error.injEq] at refused
    simp only [refused]
  | some body =>
    simp only [marshalled] at refused
    split at refused
    · rename_i large
      cases refused
      simp only [if_pos large]
    · contradiction

theorem encode_written {packet : Bytes}
    (made : encodeRaw proto frame.cmdId frame.seq frame.payload = .ok packet) (data : Bytes) :
    encode proto ⟨data, none⟩ frame = (none, ⟨data ++ packet, none⟩) := by
  unfold encodeRaw at made
  unfold encode
  cases marshalled : proto.marshal frame with
  | none =>
    simp only [marshalled] at made
    contradiction
  | some body =>
    simp only [marshalled] at made
    split at made
    · contradiction
    · rename_i fits
      cases made
      simp only [if_neg fits, Writer.write, List.append_assoc]

theorem encodeRaw_tooLarge {body : Bytes} (marshalled : proto.marshal frame = some body)
    (large : maxFrameSize < body.length) :
    encodeRaw proto frame.cmdId frame.seq frame.payload = .error (.tooLarge body.length) := by
  simp only [encodeRaw, marshalled, gt_iff_lt, if_pos large]

theorem encodeRaw_fits {body : Bytes} (marshalled : proto.marshal frame = some body)
    (fits : body.length ≤ maxFrameSize) :
    encodeRaw proto frame.cmdId frame.seq frame.payload = .ok (be32 body.length ++ body) := by
  simp only [encodeRaw, marshalled, gt_iff_lt, if_neg (Nat.not_lt.mpr fits)]

section List

variable {packet : Frame → Bytes} {frames : List Frame}
  (made : ∀ f ∈ frames, encodeRaw proto f.cmdId f.seq f.payload = .ok (packet f))
include made

theorem encodeRaw_list :
    frames.mapM (fun f => encodeRaw proto f.cmdId f.seq f.payload) = .ok (frames.map packet) := by
  induction frames with
  | nil => rfl
  | cons f more ih =>
    have later := ih (fun g hg => made g (by simp [hg]))
    rw [List.mapM_cons, made f (by simp), later]
    rfl

theorem encodeAll_written (data : Bytes) :
    encodeAll proto ⟨data, none⟩ frames = (none, ⟨data ++ frames.flatMap packet, none⟩) := by
  induction frames generalizing data with
  | nil => simp [encodeAll]
  | cons f more ih =>
    have here := encode_written (made f (by simp)) data
    have later := ih (fun g hg => made g (by simp [hg])) (data ++ packet f)
    simp only [encodeAll, here, later, List.flatMap_cons, List.append_assoc]

end List

end Encoders

section Framed

variable {proto : Proto Frame} {p : Packet} {body : Bytes}

theorem encodeRaw_framed {cmdID seq : UInt32} {payload data : Bytes}
    (nonempty : ∀ body, proto.marshal ⟨cmdID, seq, payload⟩ = some body → body ≠ [])
    (encoded : encodeRaw proto cmdID seq payload = .ok data) :
    ∃ body, Framed proto ⟨data, ⟨cmdID, seq, payload⟩⟩ body := by
  unfold encodeRaw at encoded
  split at encoded
  · contradiction
  · rename_i body marshalled
    split at encoded
    · contradiction
    · rename_i fits
      cases encoded
      have positive := List.length_pos_iff.mpr (nonempty body marshalled)
      exact ⟨body, marshalled, positive, Nat.le_of_not_lt fits, rfl⟩

theorem readFull_append {n : Nat} {front : Bytes} (length : front.length = n) (rest : Bytes) :
    readFull n (front ++ rest) = .ok (front, rest) := by
  subst length
  simp [readFull]

theorem readFull_short {n : Nat} {stream : Bytes} (short : stream.length < n) :
    ∃ e, readFull n stream = .error e := by
  unfold readFull
  rw [if_neg (Nat.not_le.mpr short)]
  split
  · exact ⟨_, rfl⟩
  · exact ⟨_, rfl⟩

theorem decode_header (h : Framed proto p body) (rest : Bytes) :
    decode proto (be32 body.length ++ rest) = match readFull body.length rest with
      | .error e => .error (.readBody e)
      | .ok (body, rest) => match proto.unmarshal body with
        | none => .error .unmarshal
        | some frame => .ok (frame, rest) := by
  have small : body.length < 4294967296 := Nat.lt_of_le_of_lt h.fits (by decide)
  have fits : ¬ body.length > maxFrameSize := Nat.not_lt.mpr h.fits
  have positive : body.length ≠ 0 := Nat.one_le_iff_ne_zero.mp h.nonempty
  simp only [decode, headerSize, readFull_append (be32_length _), ofBe_be32 small, if_neg fits,
    if_neg positive]

theorem Framed.delimited (h : Framed proto p body) : Delimited (decode proto) p.data p.frame := by
  constructor
  · rw [h.data]
    exact List.cons_ne_nil _ _
  · intro rest
    rw [h.data, List.append_assoc, decode_header h, readFull_append rfl]
    simp only [proto.undoes _ _ h.marshalled]

theorem Framed.fragile (h : Framed proto p body) :
    Fragile (decode proto) (fun e => e.isShort = true) p.data := by
  intro part missing whole lacking
  have lost := List.length_pos_iff.mpr lacking
  have length := congrArg List.length whole
  rw [h.data, List.length_append, List.length_append, be32_length] at length
  by_cases headed : 4 ≤ part.length
  · have header : be32 body.length <+: p.data := by
      rw [h.data]
      exact List.prefix_append _ _
    obtain ⟨rest, rfl⟩ : be32 body.length <+: part :=
      List.prefix_of_prefix_length_le header ⟨missing, whole⟩ headed
    rw [List.length_append, be32_length] at length
    have short : rest.length < body.length := by omega
    obtain ⟨e, fails⟩ := readFull_short short
    exact ⟨.readBody e, rfl, by rw [decode_header h, fails]⟩
  · have short : part.length < headerSize := Nat.not_le.mp headed
    obtain ⟨e, fails⟩ := readFull_short short
    exact ⟨.readHeader e, rfl, by simp only [decode, fails]⟩

theorem decode_nil : decode proto [] = .error (.readHeader .eof) := rfl

section Stream

variable {ps : List Packet} (framed : ∀ p ∈ ps, ∃ body, Framed proto p body)
include framed

theorem all_delimited : ∀ p ∈ ps, Delimited (decode proto) p.data p.frame := by
  intro p hp
  obtain ⟨body, h⟩ := framed p hp
  exact h.delimited

theorem decodeAll_framed :
    decodeAll proto (ps.flatMap Packet.data) = (ps.map Packet.frame, some (.readHeader .eof)) :=
  readAll_whole (all_delimited framed) decode_nil

theorem decodeAll_cut {stream : Bytes} (cut : stream <+: ps.flatMap Packet.data) :
    ∃ n e, e.isShort = true ∧ decodeAll proto stream = ((ps.take n).map Packet.frame, some e) := by
  have fragile : ∀ p ∈ ps, Fragile (decode proto) (fun e => e.isShort = true) p.data := by
    intro p hp
    obtain ⟨body, h⟩ := framed p hp
    exact h.fragile
  exact readAll_cut (all_delimited framed) fragile decode_nil rfl cut (Nat.lt_succ_self _)

end Stream

end Framed

end GameIM.Gateway
