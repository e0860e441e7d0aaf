import GameIM.Api.Unmarshal
import GameIM.Gateway.Session
import GameIM.Service.SendMsg

/-! Requests and responses as messages. Where Unmarshal reads back what Marshal wrote, on both sides,
a client gets what the handlers answered, and the handlers what the client asked for. -/
namespace GameIM.Gateway.Rpc
open Lib Api Session
open Dispatch (Codecs Service)

/-- Unmarshal of the responses, as a client has it. -/
structure Client where
  authResp : Bytes → Option Pb.AuthResp
  sendMsgResp : Bytes → Option Pb.SendMsgResp
  pullMsgResp : Bytes → Option Pb.PullMsgResp
  heartbeatResp : Bytes → Option Pb.HeartbeatResp
  auth : ∀ r, r.Good → authResp (marshalAuthResp r) = some r
  sendMsg : ∀ r, r.Good → sendMsgResp (marshalSendMsgResp r) = some r
  pullMsg : ∀ r data, r.Good → marshalPullMsgResp r = some data → pullMsgResp data = some r
  heartbeat : ∀ r, r.Good → heartbeatResp (marshalHeartbeatResp r) = some r

inductive Response where
  | auth (resp : Pb.AuthResp)
  | sendMsg (resp : Pb.SendMsgResp)
  | pullMsg (resp : Pb.PullMsgResp)
  | heartbeat (resp : Pb.HeartbeatResp)
  deriving DecidableEq, Repr

def Response.Good : Response → Prop
  | .auth resp => resp.Good
  | .sendMsg resp => resp.Good
  | .pullMsg resp => resp.Good
  | .heartbeat resp => resp.Good

instance : DecidablePred Response.Good
  | .auth resp => inferInstanceAs (Decidable resp.Good)
  | .sendMsg resp => inferInstanceAs (Decidable resp.Good)
  | .pullMsg resp => inferInstanceAs (Decidable resp.Good)
  | .heartbeat resp => inferInstanceAs (Decidable resp.Good)

/- A client tells the responses apart by their command. -/
def Client.unmarshal (client : Client) (frame : Frame) : Option Response :=
  if frame.cmdId = ReplyCmd.auth.id then (client.authResp frame.payload).map .auth
  else if frame.cmdId = ReplyCmd.sendMsg.id then (client.sendMsgResp frame.payload).map .sendMsg
  else if frame.cmdId = ReplyCmd.pullMsg.id then (client.pullMsgResp frame.payload).map .pullMsg
  else if frame.cmdId = ReplyCmd.heartbeat.id then (client.heartbeatResp frame.payload).map .heartbeat
  else none

section Answered

variable {σ : Type} (rt : Codecs) (svc : Service σ)

def answered (x : Served σ) : ReplyCmd → Response
  | .auth => .auth (authAnswer rt x)
  | .sendMsg => .sendMsg (sendMsgAnswer rt svc x)
  | .pullMsg => .pullMsg (pullMsgAnswer rt svc x)
  | .heartbeat => .heartbeat ⟨x.now⟩

variable {rt svc} (client : Client)

theorem unmarshal_answer {x : Served σ} {cmd : ReplyCmd} (good : (answered rt svc x cmd).Good) (seq : UInt32) :
    client.unmarshal ⟨cmd.id, seq, answer rt svc x cmd⟩ = some (answered rt svc x cmd) := by
  cases cmd with
  | auth => exact congrArg (Option.map Response.auth) (client.auth _ good)
  | sendMsg => exact congrArg (Option.map Response.sendMsg) (client.sendMsg _ good)
  | pullMsg =>
    have valid : ((pullMsgAnswer rt svc x).messages.all fun m => validUTF8 m.content) = true :=
      List.all_eq_true.mpr fun m member => (good.2 m member).2.2.2.1
    rw [← marshalPullMsgResp_isSome] at valid
    obtain ⟨data, made⟩ := Option.isSome_iff_exists.mp valid
    have bytes : answer rt svc x .pullMsg = data := by
      rw [answer, Handlers.mustMarshal, made]
      rfl
    rw [bytes]
    exact congrArg (Option.map Response.pullMsg) (client.pullMsg _ data good made)
  | heartbeat => exact congrArg (Option.map Response.heartbeat) (client.heartbeat _ good)

theorem unmarshal_response {x : Served σ} (good : ∀ cmd ∈ responseCmd x.frame, (answered rt svc x cmd).Good) :
    (response rt svc x).map (fun frame => (frame.seq, client.unmarshal frame)) =
      (responseCmd x.frame).map fun cmd => (x.frame.seq, some (answered rt svc x cmd)) := by
  rw [response, Option.map_map]
  cases asks : responseCmd x.frame with
  | none => rfl
  | some cmd =>
    exact congrArg (fun r => some (x.frame.seq, r)) (unmarshal_answer client (good cmd asks) x.frame.seq)

theorem unmarshal_responses {xs : List (Served σ)}
    (good : ∀ x ∈ xs, ∀ cmd ∈ responseCmd x.frame, (answered rt svc x cmd).Good) :
    (xs.filterMap (response rt svc)).map (fun frame => (frame.seq, client.unmarshal frame)) =
      xs.filterMap fun x => (responseCmd x.frame).map fun cmd => (x.frame.seq, some (answered rt svc x cmd)) := by
  rw [List.map_filterMap]
  exact List.filterMap_congr fun x member => unmarshal_response client (good x member)

end Answered

def sendMsgResp : Except Handlers.ServiceError Service.SendMsgResp → Pb.SendMsgResp
  | .error err => ⟨Handlers.toCode err, Handlers.toMsg err, 0, 0⟩
  | .ok resp => ⟨0, "ok", resp.msgID, resp.sendTime⟩

theorem sendMsgAnswer_request {σ : Type} {rt : Codecs} {svc : Service σ} {x : Served σ} {req : Pb.SendMsgReq}
    (request : rt.sendMsgReq x.frame.payload = some req) (authenticated : x.uid ≠ 0) :
    sendMsgAnswer rt svc x =
      sendMsgResp (svc.sendMsg x.service x.uid (Handlers.senderOf x.uid) (Handlers.serviceReq req)).1 := by
  rw [sendMsgAnswer, if_neg authenticated, request]
  dsimp only
  cases (svc.sendMsg x.service x.uid (Handlers.senderOf x.uid) (Handlers.serviceReq req)).1 <;> rfl

/-- In every run of the process a client unmarshals, besides notifications, what the handlers
answered to its requests, in their order and one at most to each. The answer to a SendMsgReq that
the client marshalled, on an authenticated connection, is the result of the one call of the service
with this request, for the connection's user. -/
theorem answers_unmarshalled {σ : Type} (rt : Codecs) (client : Client) (cmd : CmdWritten rt.protos)
    (tagged : Tagged rt.protos)
    (requests : ∀ req data, req.Good → marshalSendMsgReq req = some data → rt.sendMsgReq data = some req)
    (svc : Service σ) (node : String) (cfg : Conn.Config) (s t : State σ) (as : List (Action σ))
    (unborn : ∀ c, s.world.table.life c = .fresh) (opens : ∀ a ∈ as, Opens rt.protos a)
    (taken : run (step rt svc node cfg) s as = some t) (c : ConnID) (born : t.world.table.life c ≠ .fresh)
    (good : ∀ x ∈ (t.inbox c).served, ∀ cmd ∈ responseCmd x.frame, (answered rt svc x cmd).Good) :
    (((decodeAll rt.protos.frame (t.world.conns c).flow.stream).1.filter (·.cmdId ≠ cmdWorldNotify)).map
      fun frame => (frame.seq, client.unmarshal frame)).Sublist
      ((t.inbox c).served.filterMap fun x => (responseCmd x.frame).map fun cmd =>
        (x.frame.seq, some (answered rt svc x cmd))) ∧
    ∀ x ∈ (t.inbox c).served, ∀ req : Pb.SendMsgReq, req.Good → marshalSendMsgReq req = some x.frame.payload →
      x.uid ≠ 0 → answered rt svc x .sendMsg = .sendMsg (sendMsgResp
        (svc.sendMsg x.service x.uid (Handlers.senderOf x.uid) (Handlers.serviceReq req)).1) := by
  refine ⟨?_, fun x _ req ranged sent authenticated => ?_⟩
  · rw [← unmarshal_responses client good]
    exact (run_responses cmd tagged unborn opens taken c born).map _
  · exact congrArg Response.sendMsg (sendMsgAnswer_request (requests req _ ranged sent) authenticated)

def wireClient : Client where
  authResp := Pb.authResp.unmarshal
  sendMsgResp := Pb.sendMsgResp.unmarshal
  pullMsgResp := Pb.pullMsgResp.unmarshal
  heartbeatResp := Pb.heartbeatResp.unmarshal
  auth _ := Pb.unmarshal_marshalAuthResp
  sendMsg _ := Pb.unmarshal_marshalSendMsgResp
  pullMsg _ _ good := read_back (Pb.unmarshal_marshalPullMsgResp good)
  heartbeat _ := Pb.unmarshal_marshalHeartbeatResp

def wireCodecs : Codecs where
  protos := protobuf
  sendMsgReq := Pb.sendMsgReq.unmarshal
  pullMsgReq := Pb.pullMsgReq.unmarshal
  marshalled := fun _ => []
  authReq := Pb.unmarshalAuthReq
  ackMsgReq := Pb.ackMsgReq.unmarshal
  sscanf := fun token => if token = "uid:7" then some 7 else none

theorem wireCodecs_requests (req : Pb.SendMsgReq) (data : Bytes) (good : req.Good)
    (sent : marshalSendMsgReq req = some data) : wireCodecs.sendMsgReq data = some req :=
  read_back (Pb.unmarshal_marshalSendMsgReq good) sent

def hiService : Service Handlers.Backend := Dispatch.appService Service.permissive Pb.imMessageProto 5

def hiTalk : List (Action Handlers.Backend) :=
  [.accept 1 (fun _ => none) [] 0,
    .receive 1 (twoRequests.take 18 ++ [0, 0, 0, 22, 8, 209, 15, 16, 3, 26, 15] ++ Dispatch.hiPayload),
    .read 1 5 false, .read 1 6 false, .other 1 (.take .respCh), .other 1 (.take .respCh), .other 1 .proceed,
    .other 1 .proceed, .other 1 (.write none)]

theorem hiTalk_opens : ∀ a ∈ hiTalk, Opens protobuf a := by
  intro a member
  simp only [hiTalk, List.mem_cons, List.not_mem_nil, or_false] at member
  rcases member with rfl | rfl | rfl | rfl | rfl | rfl | rfl | rfl | rfl
  · exact ⟨fun _ _ held => by contradiction, fun _ held => by contradiction⟩
  all_goals trivial

theorem answers_unmarshalled_hiTalk : ∃ t,
    run (step wireCodecs hiService "node" Conn.appConfig) beginning hiTalk = some t ∧
    (((decodeAll wireCodecs.protos.frame (t.world.conns 1).flow.stream).1.filter (·.cmdId ≠ cmdWorldNotify)).map
      fun frame => (frame.seq, wireClient.unmarshal frame)) =
      [(1, some (.auth ⟨0, "ok", 7, 5⟩)), (3, some (.sendMsg ⟨0, "ok", 1, 5⟩))] ∧
    List.Sublist [(1, some (Response.auth ⟨0, "ok", 7, 5⟩)), (3, some (.sendMsg ⟨0, "ok", 1, 5⟩))]
      ((t.inbox 1).served.filterMap fun x => (responseCmd x.frame).map fun cmd =>
        (x.frame.seq, some (answered wireCodecs hiService x cmd))) := by
  have done : ((run (step wireCodecs hiService "node" Conn.appConfig) beginning hiTalk).map fun t =>
      decide (t.world.table.life 1 ≠ .fresh ∧
        (∀ x ∈ (t.inbox 1).served, ∀ cmd ∈ responseCmd x.frame, (answered wireCodecs hiService x cmd).Good) ∧
        (((decodeAll wireCodecs.protos.frame (t.world.conns 1).flow.stream).1.filter (·.cmdId ≠ cmdWorldNotify)).map
          fun frame => (frame.seq, wireClient.unmarshal frame)) =
          [(1, some (.auth ⟨0, "ok", 7, 5⟩)), (3, some (.sendMsg ⟨0, "ok", 1, 5⟩))])) = some true := by
    decide +kernel
  obtain ⟨t, taken, seen⟩ := Option.map_eq_some_iff.mp done
  obtain ⟨born, good, read⟩ := of_decide_eq_true seen
  have order := (answers_unmarshalled wireCodecs wireClient protobuf_cmdWritten protobuf_tagged wireCodecs_requests
    hiService "node" Conn.appConfig beginning t hiTalk talk_unborn hiTalk_opens taken 1 born good).1
  rw [read] at order
  exact ⟨t, taken, read, order⟩

end GameIM.Gateway.Rpc
