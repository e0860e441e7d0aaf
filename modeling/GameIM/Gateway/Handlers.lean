import GameIM.Api.Pb
import GameIM.Gateway.Conn
import GameIM.Service.Pull
import GameIM.Service.Retry

/-! The message handlers of internal/gateway/handlers.go, and when a pull is answered. A
handler runs on the read loop of its connection; all it does to the connection is one
Reply. -/
namespace GameIM.Gateway.Handlers
open Lib Api

/-- An error of the service is an IMError, or another one with its text. -/
inductive ServiceError where
  | im (err : IMError)
  | other (text : String)
  deriving DecidableEq, Repr

def toCode : ServiceError → Int
  | .im err => err.code
  | .other _ => errServerError.code

def toMsg : ServiceError → String
  | .im err => err.msg
  | .other text => text

def authFailed : Int := 1008

/-- The message service as its handlers see it, over a state of its own. -/
structure MsgService (σ : Type) where
  sendMsg : σ → Int → Option SenderInfo → Service.SendMsgReq →
    Except ServiceError Service.SendMsgResp × σ
  pullMsg : σ → String → Int → Int → Except ServiceError (List ImMessage)

/-- The protobuf runtime: the frames, Unmarshal of the two requests, and the bytes that
Marshal returns next to its error. -/
structure Runtime where
  protos : Protos
  sendMsgReq : Bytes → Option Pb.SendMsgReq
  pullMsgReq : Bytes → Option Pb.PullMsgReq
  marshalled : Pb.PullMsgResp → Bytes

/- mustMarshal drops the error and goes on with the bytes. -/
def mustMarshal (rt : Runtime) (resp : Pb.PullMsgResp) : Bytes :=
  (marshalPullMsgResp resp).getD (rt.marshalled resp)

/- Reply encodes and enqueues; an encoding that fails is an error for the log. -/
def replyTo (rt : Runtime) (frame : Frame) (cmd : ReplyCmd) (payload : Bytes) (conn : Conn.State) :
    Conn.State :=
  conn.offer .respCh Conn.respChanSize (reply rt.protos cmd frame.seq payload)

theorem replyTo_step (rt : Runtime) (cfg : Conn.Config) (frame : Frame) (cmd : ReplyCmd)
    (payload : Bytes) (conn : Conn.State) :
    Conn.step rt.protos cfg conn (.reply cmd frame.seq payload) =
      some (replyTo rt frame cmd payload conn) := rfl

def senderOf (uid : Int) : Option SenderInfo := some { senderId := uid }

def serviceReq (req : Pb.SendMsgReq) : Service.SendMsgReq :=
  { channelID := req.channelId
    channelType := req.channelType
    content := req.content
    msgType := req.msgType
    msgParam := req.msgParam
    clientMsgID := req.clientMsgId }

section Handle

variable {σ : Type} (rt : Runtime) (svc : MsgService σ)

def handleSendMsg (s : σ) (uid : Int) (frame : Frame) (conn : Conn.State) : Conn.State × σ :=
  let answer (resp : Pb.SendMsgResp) := replyTo rt frame .sendMsg (marshalSendMsgResp resp) conn
  if uid = 0 then (answer ⟨authFailed, "not authenticated", 0, 0⟩, s)
  else match rt.sendMsgReq frame.payload with
    | none => (answer ⟨errServerError.code, "invalid request", 0, 0⟩, s)
    | some req => match svc.sendMsg s uid (senderOf uid) (serviceReq req) with
      | (.error err, s) => (answer ⟨toCode err, toMsg err, 0, 0⟩, s)
      | (.ok resp, s) => (answer ⟨0, "ok", resp.msgID, resp.sendTime⟩, s)

def handlePullMsg (s : σ) (uid : Int) (frame : Frame) (conn : Conn.State) : Conn.State :=
  let answer (resp : Pb.PullMsgResp) := replyTo rt frame .pullMsg (mustMarshal rt resp) conn
  if uid = 0 then answer ⟨authFailed, "not authenticated", []⟩
  else match rt.pullMsgReq frame.payload with
    | none => answer ⟨errServerError.code, "invalid request", []⟩
    | some req => match svc.pullMsg s req.channelId req.lastMsgId req.limit with
      | .error err => answer ⟨toCode err, toMsg err, []⟩
      | .ok msgs => answer ⟨0, "ok", msgs⟩

end Handle

def pulled (msgs : List ImMessage) : Pb.PullMsgResp := ⟨0, "ok", msgs⟩

/-- The length of the payload. The messages decide it unless one of them has a content
that is not UTF-8. -/
def payloadSize (rt : Runtime) (msgs : List ImMessage) : Nat :=
  if msgs.all fun m => validUTF8 m.content then pullMsgRespSize (pulled msgs)
  else (rt.marshalled (pulled msgs)).length

theorem mustMarshal_length (rt : Runtime) (msgs : List ImMessage) :
    (mustMarshal rt (pulled msgs)).length = payloadSize rt msgs := by
  have valid := marshalPullMsgResp_isSome (pulled msgs)
  unfold mustMarshal payloadSize
  cases made : marshalPullMsgResp (pulled msgs) with
  | none =>
    rw [made] at valid
    rw [if_neg (by simpa [pulled] using valid.symm), Option.getD_none]
  | some data =>
    rw [made] at valid
    rw [if_pos (by simpa [pulled] using valid.symm), Option.getD_some,
      marshalPullMsgResp_length made]

/- proto.Size of a frame: Marshal takes every frame, and writes so many bytes. -/
def Sized (protos : Protos) : Prop :=
  ∀ frame : Frame, ∃ body, protos.frame.marshal frame = some body ∧
    body.length = frameSize frame.cmdId frame.seq frame.payload.length

theorem protobuf_sized : Sized protobuf := fun frame => ⟨marshalFrame frame, rfl, marshalFrame_length frame⟩

theorem Sized.cmdWritten {protos : Protos} (sized : Sized protos) : CmdWritten protos := by
  intro frame body marshalled cmd empty
  obtain ⟨same, made, size⟩ := sized frame
  cases Option.some.inj (made.symm.trans marshalled)
  have number : frame.cmdId.toNat ≠ 0 := fun zero => cmd (UInt32.toNat_inj.mp zero)
  rw [empty, frameSize, uintSize, if_neg number, List.length_nil] at size
  omega

theorem reply_isSome {protos : Protos} (sized : Sized protos) (cmd : ReplyCmd) (seq : UInt32) (payload : Bytes) :
    (reply protos cmd seq payload).isSome = true ↔
      frameSize cmd.id seq payload.length ≤ maxFrameSize := by
  obtain ⟨body, marshalled, size⟩ := sized ⟨cmd.id, seq, payload⟩
  simp only [reply, encodeFrame, encodeRaw, marshalled, size]
  by_cases fits : frameSize cmd.id seq payload.length ≤ maxFrameSize
  · simp [Nat.not_lt.mpr fits, fits]
  · simp [Nat.not_le.mp fits, fits]

/-- Exactly one packet is enqueued, and a client decodes it to a response with this
sequence number. -/
def Answered (protos : Protos) (before after : Conn.State) (cmd : ReplyCmd) (seq : UInt32) : Prop :=
  ∃ payload data, after.flow.chan .respCh =
      before.flow.chan .respCh ++ [⟨data, ⟨cmd.id, seq, payload⟩⟩] ∧
    after.flow.chan .pushCh = before.flow.chan .pushCh ∧
    decode protos.frame data = .ok (⟨cmd.id, seq, payload⟩, [])

theorem replyTo_unanswered {rt : Runtime} {frame : Frame} {cmd : ReplyCmd} {payload : Bytes}
    {conn : Conn.State} (refused : reply rt.protos cmd frame.seq payload = none) :
    replyTo rt frame cmd payload conn = conn := by
  rw [replyTo, refused, Conn.State.offer]

theorem not_answered (protos : Protos) (conn : Conn.State) (cmd : ReplyCmd) (seq : UInt32) :
    ¬ Answered protos conn conn cmd seq := by
  rintro ⟨payload, data, grown, _⟩
  simp at grown

theorem replyTo_answered {rt : Runtime} (sized : Sized rt.protos) {frame : Frame} {cmd : ReplyCmd}
    {payload : Bytes} {conn : Conn.State} {p : Packet}
    (room : (conn.flow.chan .respCh).length < Conn.respChanSize)
    (made : reply rt.protos cmd frame.seq payload = some p) :
    Answered rt.protos conn (replyTo rt frame cmd payload conn) cmd frame.seq := by
  obtain ⟨body, framed⟩ := reply_framed sized.cmdWritten made
  have contents : p.frame = ⟨cmd.id, frame.seq, payload⟩ := by
    unfold reply encodeFrame at made
    split at made
    · contradiction
    · exact congrArg Packet.frame (Option.some.inj made).symm
  have packet : p = ⟨p.data, ⟨cmd.id, frame.seq, payload⟩⟩ := by rw [← contents]
  refine ⟨payload, p.data, ?_, ?_, ?_⟩
  · rw [← packet, replyTo, made]
    simp [Conn.State.offer, Conn.Flow.offer, room]
  · rw [replyTo, made]
    simp [Conn.State.offer, Conn.Flow.offer, room]
  · have decoded := framed.delimited.2 []
    rwa [List.append_nil, contents] at decoded

theorem replyTo_answered_iff {rt : Runtime} (sized : Sized rt.protos) (frame : Frame)
    (cmd : ReplyCmd) (payload : Bytes) {conn : Conn.State}
    (room : (conn.flow.chan .respCh).length < Conn.respChanSize) :
    Answered rt.protos conn (replyTo rt frame cmd payload conn) cmd frame.seq ↔
      frameSize cmd.id frame.seq payload.length ≤ maxFrameSize := by
  rw [← reply_isSome sized]
  cases made : reply rt.protos cmd frame.seq payload with
  | none =>
    rw [replyTo_unanswered made]
    simp [not_answered]
  | some p =>
    have answered := replyTo_answered sized room made
    simp [answered]

theorem handlePullMsg_pulled {σ : Type} (rt : Runtime) (svc : MsgService σ) (s : σ) {uid : Int}
    (authenticated : uid ≠ 0) {frame : Frame} {req : Pb.PullMsgReq}
    (request : rt.pullMsgReq frame.payload = some req) {msgs : List ImMessage}
    (result : svc.pullMsg s req.channelId req.lastMsgId req.limit = .ok msgs) (conn : Conn.State) :
    handlePullMsg rt svc s uid frame conn =
      replyTo rt frame .pullMsg (mustMarshal rt (pulled msgs)) conn := by
  simp only [handlePullMsg, if_neg authenticated, request, result, pulled]

/-- A pull by an authenticated client is answered exactly if the page fits in a frame:
the size of the response, behind its tag and length, with the command and the sequence
number of the frame. -/
theorem pull_answered_iff {σ : Type} {rt : Runtime} (sized : Sized rt.protos)
    (svc : MsgService σ) (s : σ) {uid : Int} (authenticated : uid ≠ 0) {frame : Frame}
    {req : Pb.PullMsgReq} (request : rt.pullMsgReq frame.payload = some req)
    {msgs : List ImMessage}
    (result : svc.pullMsg s req.channelId req.lastMsgId req.limit = .ok msgs) {conn : Conn.State}
    (room : (conn.flow.chan .respCh).length < Conn.respChanSize) :
    Answered rt.protos conn (handlePullMsg rt svc s uid frame conn) .pullMsg frame.seq ↔
      frameSize ReplyCmd.pullMsg.id frame.seq (payloadSize rt msgs) ≤ maxFrameSize := by
  rw [handlePullMsg_pulled rt svc s authenticated request result conn,
    replyTo_answered_iff sized frame .pullMsg _ room, mustMarshal_length]

/-- What the service reads and writes: the servers, the cache list of the channel and the
stored messages, none where the read fails, and the text of that failure. -/
structure Backend where
  servers : Service.Servers
  cache : Option (List Bytes)
  stored : Option (List Store.MessageDoc)
  failure : String

def Backend.pullMsg (proto : Proto ImMessage) (b : Backend) (channelID : String)
    (lastMsgID limit : Int) : Except ServiceError (List ImMessage) :=
  match Service.Pull.pullMsg proto b.cache b.stored channelID lastMsgID limit with
  | none => .error (.other b.failure)
  | some msgs => .ok msgs

def Backend.sendMsg (cfg : Service.Config) (now : Nat) (b : Backend) (uid : Int)
    (sender : Option SenderInfo) (req : Service.SendMsgReq) :
    Except ServiceError Service.SendMsgResp × Backend :=
  let sent := Service.sendMsg cfg b.servers ⟨0, now, uid, sender, req, false, .none⟩
  ((sent.1.reply now).mapError .im, { b with servers := sent.2 })

def msgService (cfg : Service.Config) (proto : Proto ImMessage) (now : Nat) : MsgService Backend :=
  ⟨Backend.sendMsg cfg now, Backend.pullMsg proto⟩

def longReq (n : Nat) : Pb.SendMsgReq :=
  ⟨"world", .world, [104, 105], .text, List.replicate n "a", "m-1"⟩

def longMsg (n : Nat) : ImMessage := Service.buildMsg 1 (senderOf 7) (serviceReq (longReq n)) [104, 105] 5

theorem longReq_accepted (n : Nat) : (Service.sendMsg Service.permissive Service.idleServers
    ⟨0, 5, 7, senderOf 7, serviceReq (longReq n), false, .none⟩).1 = .accepted (longMsg n) := rfl

theorem letters_size (n : Nat) : stringsSize (List.replicate n "a") = 3 * n := by
  have one : 1 + sizedSize "a".utf8ByteSize = 3 := by decide
  simp [stringsSize, one, Nat.mul_comm]

theorem longReq_size (n : Nat) : sendMsgReqSize (longReq n) = 20 + 3 * n := by
  have fixed : sendMsgReqSize (longReq 0) = 20 := by decide +kernel
  simp only [sendMsgReqSize, longReq, letters_size] at fixed ⊢
  omega

theorem longMsg_size (n : Nat) : imMessageSize (longMsg n) = 28 + 3 * n := by
  have fixed : imMessageSize (longMsg 0) = 28 := by decide +kernel
  simp only [imMessageSize, longMsg, longReq, Service.buildMsg, serviceReq, letters_size] at fixed ⊢
  omega

theorem hi_valid : validUTF8 [104, 105] = true := by decide +kernel

theorem longMsg_marshalled (n : Nat) : ∃ data, marshalImMessage (longMsg n) = some data := by
  exact Option.isSome_iff_exists.mp ((marshalImMessage_isSome (longMsg n)).trans hi_valid)

theorem longReq_marshalled (n : Nat) : ∃ payload, marshalSendMsgReq (longReq n) = some payload := by
  exact ⟨_, if_pos hi_valid⟩

theorem longMsg_payload (rt : Runtime) (n : Nat) :
    payloadSize rt [longMsg n] = 5 + sizedSize (28 + 3 * n) := by
  have valid : ([longMsg n].all fun m => validUTF8 m.content) = true := by
    simpa [longMsg, Service.buildMsg] using hi_valid
  have fixed : intSize 0 + stringSize "ok" = 4 := by decide
  rw [payloadSize, if_pos valid]
  simp only [pullMsgRespSize, pulled, fixed, List.map_cons, List.map_nil, List.sum_cons, List.sum_nil,
    longMsg_size]
  omega

def onlyLong (n : Nat) : Proto ImMessage := listed [longMsg n] (by simp)

def holding (data : Bytes) : Backend := ⟨Service.idleServers, some [data], some [], ""⟩

theorem holding_pulled {n : Nat} {data : Bytes} (marshalled : marshalImMessage (longMsg n) = some data) :
    (holding data).pullMsg (onlyLong n) "world" 0 50 = .ok [longMsg n] := by
  have listedMsg : (onlyLong n).marshal (longMsg n) = some data := by
    simp [onlyLong, listed, marshalled]
  have read := (onlyLong n).undoes _ _ listedMsg
  have id : (longMsg n).msgId = 1 := rfl
  simp [Backend.pullMsg, holding, Service.Pull.pullMsg, Service.Pull.getMsgCache,
    Service.Pull.clampLimit, Service.Pull.maxPullLimit, Service.Pull.msgCacheMaxLen, read, id]

/- A client asks for the first page of the world channel. -/
def pullPayload : Bytes := [10, 5, 119, 111, 114, 108, 100, 24, 50]

def pullFrame : Frame := ⟨2003, 9, pullPayload⟩

def pullRuntime : Runtime where
  protos := protobuf
  sendMsgReq := fun _ => none
  pullMsgReq := fun payload => if payload = pullPayload then some ⟨"world", 0, 50⟩ else none
  marshalled := fun _ => []

theorem pullFrame_request :
    pullRuntime.pullMsgReq pullFrame.payload = some ⟨"world", 0, 50⟩ := by decide

def idleConn : Conn.State := Conn.newConn (fun _ => none) [] 0

theorem pull_answered_short : ∃ data, marshalImMessage (longMsg 2) = some data ∧
    (holding data).pullMsg (onlyLong 2) "world" 0 50 = .ok [longMsg 2] ∧
    Answered protobuf idleConn (handlePullMsg pullRuntime (msgService Service.permissive (onlyLong 2) 6)
      (holding data) 8 pullFrame idleConn) .pullMsg 9 := by
  obtain ⟨data, marshalled⟩ := longMsg_marshalled 2
  have result := holding_pulled marshalled
  have fits : frameSize ReplyCmd.pullMsg.id 9 (payloadSize pullRuntime [longMsg 2]) ≤ maxFrameSize := by
    rw [longMsg_payload]
    decide
  have answered := pull_answered_iff protobuf_sized (msgService Service.permissive (onlyLong 2) 6) (holding data)
    (by decide : (8 : Int) ≠ 0) pullFrame_request result
    (by decide : (idleConn.flow.chan .respCh).length < Conn.respChanSize)
  exact ⟨data, marshalled, result, answered.mpr fits⟩

/-- A request of 65534 bytes is accepted, and no page with its message fits in a frame. -/
theorem pull_unanswered : ∃ payload data, marshalSendMsgReq (longReq 21835) = some payload ∧
    frameSize 2001 8 payload.length ≤ maxFrameSize ∧
    (Service.sendMsg Service.permissive Service.idleServers
      ⟨0, 5, 7, senderOf 7, serviceReq (longReq 21835), false, .none⟩).1 = .accepted (longMsg 21835) ∧
    marshalImMessage (longMsg 21835) = some data ∧
    (holding data).pullMsg (onlyLong 21835) "world" 0 50 = .ok [longMsg 21835] ∧
    ¬ Answered protobuf idleConn (handlePullMsg pullRuntime
      (msgService Service.permissive (onlyLong 21835) 6) (holding data) 8 pullFrame idleConn)
      .pullMsg 9 := by
  obtain ⟨payload, sent⟩ := longReq_marshalled 21835
  obtain ⟨data, marshalled⟩ := longMsg_marshalled 21835
  have result := holding_pulled marshalled
  refine ⟨payload, data, sent, ?_, longReq_accepted 21835, marshalled, result, ?_⟩
  · rw [marshalSendMsgReq_length sent, longReq_size]
    decide
  · have handled := handlePullMsg_pulled pullRuntime
      (msgService Service.permissive (onlyLong 21835) 6) (holding data)
      (by decide : (8 : Int) ≠ 0) pullFrame_request result idleConn
    rw [handled]
    intro answered
    have fits := (replyTo_answered_iff protobuf_sized pullFrame .pullMsg _ (by decide)).mp answered
    rw [mustMarshal_length, longMsg_payload] at fits
    revert fits
    decide

end GameIM.Gateway.Handlers
