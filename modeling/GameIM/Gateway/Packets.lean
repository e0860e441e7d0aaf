import GameIM.Api.Unmarshal
import GameIM.Gateway.Codec

/-! The three places that make packets for a client: Conn.Reply, the broadcast handler of
internal/app and the delivery engine's marshalPush; and the stream of packets that either
encoder makes of a list of frames. -/
namespace GameIM.Gateway
open Lib Api

/-- The marshalling that the producers use: frames, PushNewMessage of a message, WorldNotify of a
channel and a message id, and the message alone. A message that Marshal refuses is refused inside
another one. -/
structure Protos where
  frame : Proto Frame
  push : ImMessage → Option Bytes
  notify : String → Int → Option Bytes
  message : ImMessage → Option Bytes
  pushed : ∀ msg data, push msg = some data → ∃ payload, message msg = some payload

def protobuf : Protos where
  frame := frameProto
  push := marshalPushNewMessage
  notify := marshalWorldNotify
  message := marshalImMessage
  pushed msg data made := by
    obtain ⟨payload, marshalled, _⟩ := Option.map_eq_some_iff.mp made
    exact ⟨payload, marshalled⟩

def cmdPushNewMessage : UInt32 := 4001
def cmdWorldNotify : UInt32 := 4002

inductive ReplyCmd where
  | auth | sendMsg | pullMsg | heartbeat
  deriving DecidableEq, Repr

def ReplyCmd.id : ReplyCmd → UInt32
  | .auth => 1002
  | .sendMsg => 2002
  | .pullMsg => 2004
  | .heartbeat => 3002

def encodeFrame (protos : Protos) (frame : Frame) : Option Packet :=
  match encodeRaw protos.frame frame.cmdId frame.seq frame.payload with
  | .error _ => none
  | .ok data => some ⟨data, frame⟩

def reply (protos : Protos) (cmd : ReplyCmd) (seq : UInt32) (payload : Bytes) : Option Packet :=
  encodeFrame protos ⟨cmd.id, seq, payload⟩

def broadcastNotify (protos : Protos) (msg : ImMessage) : Option Packet :=
  match protos.notify msg.channelId msg.msgId with
  | none => none
  | some payload => encodeFrame protos ⟨cmdWorldNotify, 0, payload⟩

/- The marshalled frame itself: no header before it, no bound on its size. -/
def marshalPush (protos : Protos) (msg : ImMessage) : Option Packet :=
  match protos.push msg with
  | none => none
  | some payload =>
    let frame : Frame := ⟨cmdPushNewMessage, 0, payload⟩
    (protos.frame.marshal frame).map (⟨·, frame⟩)

/- The only default a frame of the server may have is not its command. -/
def CmdWritten (protos : Protos) : Prop :=
  ∀ frame body, protos.frame.marshal frame = some body → frame.cmdId ≠ 0 → body ≠ []

/- What Marshal writes begins with a tag: the number of a field, which is not zero, above three bits
for its type. -/
def Tagged (protos : Protos) : Prop :=
  ∀ frame b more, protos.frame.marshal frame = some (b :: more) → 8 ≤ b.toNat

section Producers

variable {protos : Protos} {p : Packet}

theorem encodeFrame_framed (written : CmdWritten protos) {frame : Frame} (cmd : frame.cmdId ≠ 0)
    (made : encodeFrame protos frame = some p) : ∃ body, Framed protos.frame p body := by
  unfold encodeFrame at made
  split at made
  · contradiction
  · rename_i data encoded
    cases Option.some.inj made
    exact encodeRaw_framed (fun body marshalled => written frame body marshalled cmd) encoded

theorem reply_framed (written : CmdWritten protos) {cmd : ReplyCmd} {seq : UInt32} {payload : Bytes}
    (made : reply protos cmd seq payload = some p) : ∃ body, Framed protos.frame p body := by
  have set : cmd.id ≠ 0 := by cases cmd <;> decide
  exact encodeFrame_framed written set made

theorem broadcastNotify_framed (written : CmdWritten protos) {msg : ImMessage}
    (made : broadcastNotify protos msg = some p) : ∃ body, Framed protos.frame p body := by
  unfold broadcastNotify at made
  split at made
  · contradiction
  · have set : cmdWorldNotify ≠ 0 := by decide
    exact encodeFrame_framed written set made

end Producers

theorem protobuf_cmdWritten : CmdWritten protobuf := by
  intro frame body marshalled cmd
  cases Option.some.inj marshalled
  have number : frame.cmdId.toNat ≠ 0 := fun zero => cmd (UInt32.toNat_inj.mp zero)
  simp [marshalFrame, uintField, number]

/-- A list of frames written by either encoder is one stream, and Decode, called once a
frame, reads the list off it and stops where the list ends. What is too large for one
encoder is too large for the other, and leaves no trace. -/
theorem encode_stream_decodes (protos : Protos) (written : CmdWritten protos) :
    (∀ (frames : List Frame) (data rest : Bytes), (∀ f ∈ frames, f.cmdId ≠ 0) →
      (∀ f ∈ frames, ∃ body, protos.frame.marshal f = some body ∧ body.length ≤ maxFrameSize) →
      ∃ packets : List Bytes,
        frames.mapM (fun f => encodeRaw protos.frame f.cmdId f.seq f.payload) = .ok packets ∧
        encodeAll protos.frame ⟨data, none⟩ frames = (none, ⟨data ++ packets.flatten, none⟩) ∧
        readN (decode protos.frame) frames.length (packets.flatten ++ rest) = .ok (frames, rest)) ∧
    ∀ (f : Frame) (body : Bytes) (w : Writer), protos.frame.marshal f = some body →
      maxFrameSize < body.length →
      encodeRaw protos.frame f.cmdId f.seq f.payload = .error (.tooLarge body.length) ∧
      encode protos.frame w f = (some (.encode (.tooLarge body.length)), w) := by
  constructor
  · intro frames data rest cmd fits
    have encoded : ∀ f, ∃ packet, f ∈ frames →
        encodeRaw protos.frame f.cmdId f.seq f.payload = .ok packet := by
      intro f
      by_cases hf : f ∈ frames
      · obtain ⟨body, marshalled, small⟩ := fits f hf
        exact ⟨_, fun _ => encodeRaw_fits marshalled small⟩
      · exact ⟨[], fun member => absurd member hf⟩
    choose packet made using encoded
    have framed : ∀ f ∈ frames, Delimited (decode protos.frame) (packet f) f := by
      intro f hf
      obtain ⟨body, h⟩ := encodeRaw_framed (fun body marshalled => written f body marshalled (cmd f hf))
        (made f hf)
      exact h.delimited
    refine ⟨frames.map packet, encodeRaw_list made, ?_, ?_⟩
    · rw [← List.flatMap_def]
      exact encodeAll_written made data
    · rw [← List.flatMap_def]
      have read := readN_flat framed rest
      rwa [List.map_id'] at read
  · intro f body w marshalled large
    have refused := encodeRaw_tooLarge marshalled large
    exact ⟨refused, encode_refused refused w⟩

theorem marshalFrame_longer (f : Frame) : f.payload.length ≤ (marshalFrame f).length := by
  simp only [marshalFrame, bytesField, List.length_append]
  split
  · rename_i empty
    simp [empty]
  · simp only [sized, List.length_cons, List.length_append]
    omega

def authAndHeartbeat : List Frame := [⟨1001, 1, utf8 "\n\x05uid:7"⟩, ⟨3001, 2, []⟩]

def oversized : Frame := ⟨2001, 3, List.replicate 65537 97⟩

theorem encode_stream_decodes_two : ∃ packets : List Bytes,
    authAndHeartbeat.mapM (fun f => encodeRaw frameProto f.cmdId f.seq f.payload) = .ok packets ∧
    encodeAll frameProto ⟨[], none⟩ authAndHeartbeat = (none, ⟨packets.flatten, none⟩) ∧
    readN (decode frameProto) 2 (packets.flatten ++ [0, 0]) = .ok (authAndHeartbeat, [0, 0]) ∧
    encode frameProto ⟨[1], none⟩ oversized =
      (some (.encode (.tooLarge (marshalFrame oversized).length)), ⟨[1], none⟩) := by
  have stream := encode_stream_decodes protobuf protobuf_cmdWritten
  have small : ∀ f ∈ authAndHeartbeat, (marshalFrame f).length ≤ maxFrameSize := by decide
  obtain ⟨packets, made, wrote, read⟩ := stream.1 authAndHeartbeat [] [0, 0] (by decide)
    (fun f hf => ⟨marshalFrame f, rfl, small f hf⟩)
  have large : maxFrameSize < (marshalFrame oversized).length := by
    have longer := marshalFrame_longer oversized
    simp only [oversized, List.length_replicate] at longer
    exact longer
  have refused := stream.2 oversized (marshalFrame oversized) ⟨[1], none⟩ rfl large
  exact ⟨packets, made, wrote, read, refused.2⟩

theorem protobuf_tagged : Tagged protobuf := by
  intro frame b more marshalled
  have bytes : marshalFrame frame = b :: more := Option.some.inj marshalled
  unfold marshalFrame uintField bytesField at bytes
  split at bytes
  · split at bytes
    · split at bytes
      · contradiction
      · cases (List.cons.inj bytes).1
        decide
    · cases (List.cons.inj bytes).1
      decide
  · cases (List.cons.inj bytes).1
    decide

theorem decode_tag (proto : Proto Frame) {b : UInt8} (tag : 8 ≤ b.toNat) (rest : Bytes) :
    ∃ e, decode proto (b :: rest) = .error e := by
  unfold decode readFull
  by_cases long : headerSize ≤ (b :: rest).length
  · obtain ⟨x, y, z, more, rfl⟩ : ∃ x y z more, rest = x :: y :: z :: more := by
      rcases rest with _ | ⟨x, _ | ⟨y, _ | ⟨z, more⟩⟩⟩
      · simp [headerSize] at long
      · simp [headerSize] at long
      · simp [headerSize] at long
      · exact ⟨x, y, z, more, rfl⟩
    have excess : ofBe ((b :: x :: y :: z :: more).take headerSize) > maxFrameSize := by
      simp only [headerSize, List.take_succ_cons, List.take_zero, ofBe, List.foldl_cons, List.foldl_nil, maxFrameSize]
      omega
    simp only [if_pos long, if_pos excess]
    exact ⟨_, rfl⟩
  · have held : (b :: rest).length ≠ 0 := by simp
    simp only [if_neg long, if_neg held]
    exact ⟨_, rfl⟩

section Pushed

variable {protos : Protos} (written : CmdWritten protos) (tagged : Tagged protos) {msg : ImMessage} {p : Packet}
  (made : marshalPush protos msg = some p)

include written tagged made

/-- On the wire a pushed message stands where Decode expects a length. -/
theorem decode_pushed (rest : Bytes) : ∃ e, decode protos.frame (p.data ++ rest) = .error e := by
  unfold marshalPush at made
  split at made
  · contradiction
  · obtain ⟨body, marshalled, rfl⟩ := Option.map_eq_some_iff.mp made
    cases body with
    | nil => exact absurd rfl (written _ _ marshalled (by decide : cmdPushNewMessage ≠ 0))
    | cons b more => exact decode_tag protos.frame (tagged _ b more marshalled) (more ++ rest)

/-- A pushed message ends the reading of its stream: what was written before it is read,
and neither it nor anything behind it. -/
theorem decodeAll_pushed {ps : List Packet} (framed : ∀ p ∈ ps, ∃ body, Framed protos.frame p body) (rest : Bytes) :
    ∃ e, decodeAll protos.frame (ps.flatMap Packet.data ++ (p.data ++ rest)) = (ps.map Packet.frame, some e) := by
  obtain ⟨e, fails⟩ := decode_pushed written tagged made rest
  have enough := length_le_flat (all_delimited framed)
  obtain ⟨extra, fuel⟩ : ∃ extra, (ps.flatMap Packet.data ++ (p.data ++ rest)).length + 1 =
      ps.length + (extra + 1) := by
    rw [List.length_append]
    exact ⟨(ps.flatMap Packet.data).length + (p.data ++ rest).length - ps.length, by omega⟩
  refine ⟨e, ?_⟩
  rw [decodeAll, fuel, readAll_flat (all_delimited framed)]
  simp only [readAll, fails, List.append_nil]

end Pushed

end GameIM.Gateway
