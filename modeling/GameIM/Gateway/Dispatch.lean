import GameIM.Gateway.ConnManager
import GameIM.Gateway.Handlers

/-! The dispatcher with the handlers that app.New registers, and whom the service is called
for. A connection's frames are handled one after another by its read loop, and only its own
AuthReq sets its uid; what else goes on in the process may change everything but that. -/
namespace GameIM.Gateway.Dispatch
open Lib Api Handlers

inductive Command where
  | auth | sendMsg | pullMsg | ackMsg | heartbeat
  deriving DecidableEq, Repr

def registered : List (UInt32 × Command) :=
  [(1001, .auth), (2001, .sendMsg), (2003, .pullMsg), (2005, .ackMsg), (3001, .heartbeat)]

def handlerOf (cmdId : UInt32) : Option Command := registered.lookup cmdId

/-- The runtime with Unmarshal of the other two requests, and the number that Sscanf reads
from a token in the format uid:%d. -/
structure Codecs extends Runtime where
  authReq : Bytes → Option Pb.AuthReq
  ackMsgReq : Bytes → Option Pb.AckMsgReq
  sscanf : String → Option Int

structure Service (σ : Type) extends MsgService σ where
  ackMsg : σ → Int → String → Int → Option ServiceError × σ

structure PresenceData where
  gatewayNodeID : String
  connID : ConnID
  status : String
  lastSeen : Int
  deriving DecidableEq, Repr

/-- A call of the message service by a handler. -/
inductive Invocation where
  | sendMsg (uid : Int) (sender : Option SenderInfo) (req : Service.SendMsgReq)
  | pullMsg (channelID : String) (lastMsgID limit : Int)
  | ackMsg (uid : Int) (channelID : String) (msgID : Int)
  deriving DecidableEq, Repr

structure State (σ : Type) where
  table : ConnManager
  conns : ConnID → Conn.State
  service : σ
  presence : Int → Option PresenceData
  -- not read by the code
  calls : List (ConnID × Invocation)

section Handle

variable {σ : Type} (rt : Codecs) (svc : Service σ) (node : String)

def parseSimpleToken (token : String) : Option Int :=
  match rt.sscanf token with
  | none => none
  | some uid => if uid ≤ 0 then none else some uid

def sendAuthResp (s : State σ) (c : ConnID) (frame : Frame) (code : Int) (msg : String) (uid : Int)
    (now : Nat) : State σ :=
  let conn := replyTo rt.toRuntime frame .auth (marshalAuthResp ⟨code, msg, uid, now⟩) (s.conns c)
  { s with conns := Function.update s.conns c conn }

/- A presence record that cannot be written is an error for the log. -/
def setOnline (s : State σ) (c : ConnID) (uid : Int) (now : Nat) (fails : Bool) : State σ :=
  if fails then s
  else { s with presence := Function.update s.presence uid (some ⟨node, c, "online", now⟩) }

def handleAuth (s : State σ) (c : ConnID) (frame : Frame) (now : Nat) (fails : Bool) : State σ :=
  match rt.authReq frame.payload with
  | none => sendAuthResp rt s c frame authFailed "invalid auth request" 0 now
  | some req => match parseSimpleToken rt req.token with
    | none => sendAuthResp rt s c frame authFailed "invalid token" 0 now
    | some uid =>
      let bound := { s with table := s.table.bindUser uid c }
      sendAuthResp rt (setOnline node bound c uid now fails) c frame 0 "ok" uid now

def handleAckMsg (s : σ) (uid : Int) (frame : Frame) : σ :=
  if uid = 0 then s
  else match rt.ackMsgReq frame.payload with
    | none => s
    | some req => (svc.ackMsg s uid req.channelId req.msgId).2

def handleHeartbeat (frame : Frame) (now : Nat) (conn : Conn.State) : Conn.State :=
  replyTo rt.toRuntime frame .heartbeat (marshalHeartbeatResp ⟨now⟩) conn

/-- The call that the handler of a frame makes, if the connection has this uid. -/
def invoked (uid : Int) (frame : Frame) : Option Invocation :=
  if uid = 0 then none
  else match handlerOf frame.cmdId with
    | some .sendMsg => (rt.sendMsgReq frame.payload).map fun req =>
        .sendMsg uid (senderOf uid) (serviceReq req)
    | some .pullMsg => (rt.pullMsgReq frame.payload).map fun req =>
        .pullMsg req.channelId req.lastMsgId req.limit
    | some .ackMsg => (rt.ackMsgReq frame.payload).map fun req => .ackMsg uid req.channelId req.msgId
    | _ => none

/- An unknown command is an error for the log. -/
def dispatch (s : State σ) (c : ConnID) (frame : Frame) (now : Nat) (fails : Bool) : State σ :=
  let uid := s.table.uid c
  let calls := s.calls ++ (invoked rt uid frame).toList.map (c, ·)
  match handlerOf frame.cmdId with
  | none => s
  | some .auth => handleAuth rt node s c frame now fails
  | some .sendMsg =>
    let r := handleSendMsg rt.toRuntime svc.toMsgService s.service uid frame (s.conns c)
    { s with conns := Function.update s.conns c r.1, service := r.2, calls := calls }
  | some .pullMsg =>
    let conn := handlePullMsg rt.toRuntime svc.toMsgService s.service uid frame (s.conns c)
    { s with conns := Function.update s.conns c conn, calls := calls }
  | some .ackMsg => { s with service := handleAckMsg rt svc s.service uid frame, calls := calls }
  | some .heartbeat =>
    { s with conns := Function.update s.conns c (handleHeartbeat rt frame now (s.conns c)) }

end Handle

inductive Action (σ : Type) where
  | register (c : ConnID)
  | close (c : ConnID)
  | frame (c : ConnID) (frame : Frame) (now : Nat) (fails : Bool)
  -- the rest of the process: pushes, write loops, other calls of the service
  | elsewhere (conns : ConnID → Conn.State) (service : σ) (presence : Int → Option PresenceData)

/- A read loop can still have a frame when its connection has just been closed. -/
def step {σ : Type} (rt : Codecs) (svc : Service σ) (node : String) (s : State σ) :
    Action σ → Option (State σ)
  | .register c => if s.table.life c = .fresh then some { s with table := s.table.register c } else none
  | .close c => if s.table.life c = .fresh then none else some { s with table := s.table.close c }
  | .frame c frame now fails =>
    if s.table.life c = .fresh then none else some (dispatch rt svc node s c frame now fails)
  | .elsewhere conns service presence => some { s with conns, service, presence }

structure Start {σ : Type} (s : State σ) : Prop where
  uids : ∀ c, s.table.uid c = 0
  calls : s.calls = []

section Auth

variable {σ : Type} (rt : Codecs)

/-- The uid that a frame authenticates, if it is an AuthReq that succeeds. -/
def authenticates (frame : Frame) : Option Int :=
  match handlerOf frame.cmdId with
  | some .auth => (rt.authReq frame.payload).bind fun req => parseSimpleToken rt req.token
  | _ => none

/-- The uid of the last AuthReq that succeeded. -/
def lastAuth (frames : List Frame) : Option Int := (frames.filterMap (authenticates rt)).getLast?

def frameOn (c : ConnID) : Action σ → Option Frame
  | .frame d frame _ _ => if d = c then some frame else none
  | _ => none

/-- The frames that a connection has received. -/
def framesOf (c : ConnID) (as : List (Action σ)) : List Frame := as.filterMap (frameOn c)

end Auth

/-- The call is made for this user. -/
def Invocation.By (u : Int) : Invocation → Prop
  | .sendMsg uid sender _ => uid = u ∧ ∃ info, sender = some info ∧ info.senderId = u
  | .pullMsg _ _ _ => True
  | .ackMsg uid _ _ => uid = u

section Dispatch

variable {σ : Type} {rt : Codecs} {svc : Service σ} {node : String} {s : State σ} {c : ConnID}
  {frame : Frame} {now : Nat} {fails : Bool}

theorem dispatch_calls : (dispatch rt svc node s c frame now fails).calls =
    s.calls ++ (invoked rt (s.table.uid c) frame).toList.map (c, ·) := by
  have silent : ∀ {cmd : Option Command}, handlerOf frame.cmdId = cmd → cmd ≠ some .sendMsg →
      cmd ≠ some .pullMsg → cmd ≠ some .ackMsg → invoked rt (s.table.uid c) frame = none := by
    intro cmd handler send pull ack
    subst handler
    unfold invoked
    split
    · rfl
    · split
      · contradiction
      · contradiction
      · contradiction
      · rfl
  unfold dispatch
  cases handler : handlerOf frame.cmdId with
  | none => simp [silent handler]
  | some cmd =>
    cases cmd with
    | auth =>
      simp only [silent handler (by decide) (by decide) (by decide), Option.toList_none, List.map_nil,
        List.append_nil]
      unfold handleAuth
      split
      · rfl
      · split
        · rfl
        · simp only [sendAuthResp, setOnline, apply_ite State.calls, ite_self]
    | sendMsg => rfl
    | pullMsg => rfl
    | ackMsg => rfl
    | heartbeat => simp [silent handler]

theorem bindUser_uid (m : ConnManager) (uid : Int) (c : ConnID) :
    (m.bindUser uid c).uid = Function.update m.uid c uid := by
  simp only [ConnManager.bindUser, ConnManager.storeUser, ConnManager.setUID]
  rw [kick_uid]
  rfl

theorem dispatch_uid (d : ConnID) : (dispatch rt svc node s c frame now fails).table.uid d =
    if d = c then (authenticates rt frame).getD (s.table.uid c) else s.table.uid d := by
  have kept : s.table.uid d = if d = c then s.table.uid c else s.table.uid d := by
    split
    · rename_i same
      rw [same]
    · rfl
  unfold dispatch authenticates
  cases handler : handlerOf frame.cmdId with
  | none => exact kept
  | some cmd =>
    cases cmd with
    | auth =>
      simp only [handleAuth]
      cases request : rt.authReq frame.payload with
      | none => exact kept
      | some req =>
        simp only [Option.bind_some]
        cases token : parseSimpleToken rt req.token with
        | none => exact kept
        | some uid =>
          simp only [sendAuthResp, setOnline, apply_ite State.table, ite_self, bindUser_uid,
            Option.getD_some, Function.update_apply]
    | sendMsg => exact kept
    | pullMsg => exact kept
    | ackMsg => exact kept
    | heartbeat => exact kept

def Agree (svc other : Service σ) (s : σ) : Invocation → Prop
  | .sendMsg uid sender req => svc.sendMsg s uid sender req = other.sendMsg s uid sender req
  | .pullMsg channelID lastMsgID limit =>
    svc.pullMsg s channelID lastMsgID limit = other.pullMsg s channelID lastMsgID limit
  | .ackMsg uid channelID msgID => svc.ackMsg s uid channelID msgID = other.ackMsg s uid channelID msgID

theorem dispatch_consults {other : Service σ}
    (agree : ∀ i, invoked rt (s.table.uid c) frame = some i → Agree svc other s.service i) :
    dispatch rt svc node s c frame now fails = dispatch rt other node s c frame now fails := by
  unfold invoked at agree
  unfold dispatch
  by_cases anonymous : s.table.uid c = 0
  · simp only [anonymous, handleSendMsg, handlePullMsg, handleAckMsg, if_true]
  · simp only [if_neg anonymous] at agree
    cases handler : handlerOf frame.cmdId with
    | none => rfl
    | some cmd =>
      simp only [handler] at agree
      cases cmd with
      | auth => rfl
      | sendMsg =>
        cases request : rt.sendMsgReq frame.payload with
        | none => simp only [handleSendMsg, request]
        | some req =>
          have same := agree _ (by rw [request, Option.map_some])
          simp only [Agree] at same
          simp only [handleSendMsg, if_neg anonymous, request, same]
      | pullMsg =>
        cases request : rt.pullMsgReq frame.payload with
        | none => simp only [handlePullMsg, request]
        | some req =>
          have same := agree _ (by rw [request, Option.map_some])
          simp only [Agree] at same
          simp only [handlePullMsg, if_neg anonymous, request, same]
      | ackMsg =>
        cases request : rt.ackMsgReq frame.payload with
        | none => simp only [handleAckMsg, request]
        | some req =>
          have same := agree _ (by rw [request, Option.map_some])
          simp only [Agree] at same
          simp only [handleAckMsg, if_neg anonymous, request, same]
      | heartbeat => rfl

theorem invoked_by {uid : Int} {i : Invocation} (made : invoked rt uid frame = some i) :
    uid ≠ 0 ∧ i.By uid := by
  unfold invoked at made
  split at made
  · contradiction
  · rename_i named
    refine ⟨named, ?_⟩
    split at made
    · obtain ⟨req, _, rfl⟩ := Option.map_eq_some_iff.mp made
      exact ⟨rfl, _, rfl, rfl⟩
    · obtain ⟨req, _, rfl⟩ := Option.map_eq_some_iff.mp made
      trivial
    · obtain ⟨req, _, rfl⟩ := Option.map_eq_some_iff.mp made
      rfl
    · contradiction

theorem authenticates_positive {uid : Int} (named : authenticates rt frame = some uid) : 0 < uid := by
  unfold authenticates at named
  split at named
  · obtain ⟨req, _, parsed⟩ := Option.bind_eq_some_iff.mp named
    unfold parseSimpleToken at parsed
    split at parsed
    · contradiction
    · split at parsed
      · contradiction
      · rename_i positive
        cases Option.some.inj parsed
        exact Int.not_le.mp positive
  · contradiction

theorem lastAuth_append (frames : List Frame) (frame : Frame) :
    lastAuth rt (frames ++ [frame]) = (authenticates rt frame).or (lastAuth rt frames) := by
  unfold lastAuth
  rw [List.filterMap_append]
  cases named : authenticates rt frame with
  | none => simp [named]
  | some uid => simp [named]

theorem lastAuth_positive {frames : List Frame} {uid : Int} (last : lastAuth rt frames = some uid) :
    0 < uid := by
  obtain ⟨frame, _, named⟩ := List.mem_filterMap.mp (List.mem_of_getLast? last)
  exact authenticates_positive named

end Dispatch

/-- A frame was handled after this connection had been authenticated as this user, and the
call is made for that user. -/
def Authorized {σ : Type} (rt : Codecs) (as : List (Action σ)) (c : ConnID) (i : Invocation) : Prop :=
  ∃ before frame now fails after u, as = before ++ .frame c frame now fails :: after ∧
    lastAuth rt (framesOf c before) = some u ∧ 0 < u ∧ i.By u

structure Inv {σ : Type} (rt : Codecs) (as : List (Action σ)) (s : State σ) : Prop where
  uid : ∀ c, s.table.uid c = (lastAuth rt (framesOf c as)).getD 0
  calls : ∀ c i, (c, i) ∈ s.calls → Authorized rt as c i

section Run

variable {σ : Type} {rt : Codecs} {svc : Service σ} {node : String} {s t : State σ}
  {as : List (Action σ)}

theorem Authorized.append {c : ConnID} {i : Invocation} (h : Authorized rt as c i)
    (more : List (Action σ)) : Authorized rt (as ++ more) c i := by
  obtain ⟨before, frame, now, fails, after, u, split, rest⟩ := h
  refine ⟨before, frame, now, fails, after ++ more, u, ?_, rest⟩
  rw [split, List.append_assoc, List.cons_append]

theorem Inv.other (inv : Inv rt as s) {a : Action σ} (quiet : ∀ c, frameOn c a = none)
    (uid : t.table.uid = s.table.uid) (calls : t.calls = s.calls) : Inv rt (as ++ [a]) t := by
  constructor
  · intro c
    rw [uid, inv.uid c]
    simp [framesOf, quiet c]
  · intro c i made
    rw [calls] at made
    exact (inv.calls c i made).append [a]

theorem Inv.frame (inv : Inv rt as s) (c : ConnID) (frame : Frame) (now : Nat) (fails : Bool) :
    Inv rt (as ++ [.frame c frame now fails]) (dispatch rt svc node s c frame now fails) := by
  constructor
  · intro d
    rw [dispatch_uid]
    by_cases own : d = c
    · subst own
      have frames : framesOf d (as ++ [.frame d frame now fails]) = framesOf d as ++ [frame] := by
        simp [framesOf, frameOn]
      rw [if_pos rfl, frames, lastAuth_append, inv.uid d]
      cases authenticates rt frame <;> rfl
    · have frames : framesOf d (as ++ [.frame c frame now fails]) = framesOf d as := by
        simp [framesOf, frameOn, Ne.symm own]
      rw [if_neg own, frames, inv.uid d]
  · intro d i made
    rw [dispatch_calls] at made
    rcases List.mem_append.mp made with old | new
    · exact (inv.calls d i old).append _
    · obtain ⟨j, listed, same⟩ := List.mem_map.mp new
      cases same
      have call := invoked_by (Option.mem_toList.mp listed)
      obtain ⟨u, last⟩ : ∃ u, lastAuth rt (framesOf c as) = some u := by
        have uid := inv.uid c
        cases last : lastAuth rt (framesOf c as) with
        | none =>
          rw [last] at uid
          exact absurd uid call.1
        | some u => exact ⟨u, rfl⟩
      have named : s.table.uid c = u := by rw [inv.uid c, last, Option.getD_some]
      exact ⟨as, frame, now, fails, [], u, rfl, last, lastAuth_positive last, named ▸ call.2⟩

theorem run_inv (start : Start s) (taken : run (step rt svc node) s as = some t) : Inv rt as t := by
  refine run_history (Inv rt) ?_ ?_ taken
  · constructor
    · intro c
      rw [start.uids c]
      rfl
    · intro c i made
      rw [start.calls] at made
      contradiction
  · intro as u a v _ inv moved
    cases a with
    | register c =>
      simp only [step] at moved
      split at moved
      · cases Option.some.inj moved
        exact inv.other (fun _ => rfl) rfl rfl
      · contradiction
    | close c =>
      simp only [step] at moved
      split at moved
      · contradiction
      · cases Option.some.inj moved
        exact inv.other (fun _ => rfl) (close_uid u.table c) rfl
    | frame c frame now fails =>
      simp only [step] at moved
      split at moved
      · contradiction
      · cases Option.some.inj moved
        exact inv.frame c frame now fails
    | elsewhere conns service presence =>
      cases Option.some.inj moved
      exact inv.other (fun _ => rfl) rfl rfl

end Run

/-- In every run the service is called only for connections that an earlier AuthReq of their
own authenticated, SendMsg with the uid of the last one as caller and as sender; the uid of a
connection is the one of its last successful AuthReq, and an AuthReq that fails changes
none. The calls that a frame adds to the record are all that it asks of the service: another
service that answers these the same way could stand in its place. -/
theorem calls_authenticated {σ : Type} (rt : Codecs) (svc : Service σ) (node : String)
    (s₀ s : State σ) (as : List (Action σ)) (start : Start s₀)
    (taken : run (step rt svc node) s₀ as = some s) :
    (∀ c i, (c, i) ∈ s.calls → ∃ before frame now fails after u,
      as = before ++ .frame c frame now fails :: after ∧
      lastAuth rt (framesOf c before) = some u ∧ 0 < u ∧ i.By u) ∧
    (∀ c, s.table.uid c = (lastAuth rt (framesOf c as)).getD 0) ∧
    (∀ c frame now fails, handlerOf frame.cmdId = some .auth → authenticates rt frame = none →
      ∀ d, (dispatch rt svc node s c frame now fails).table.uid d = s.table.uid d) ∧
    ∀ c frame now fails (other : Service σ),
      (∀ i, (c, i) ∈ (dispatch rt svc node s c frame now fails).calls.drop s.calls.length →
        Agree svc other s.service i) →
      dispatch rt svc node s c frame now fails = dispatch rt other node s c frame now fails := by
  have inv := run_inv start taken
  refine ⟨inv.calls, inv.uid, ?_, ?_⟩
  · intro c frame now fails _ failed d
    rw [dispatch_uid, failed]
    split
    · rename_i same
      rw [same, Option.getD_none]
    · rfl
  · intro c frame now fails other agree
    refine dispatch_consults fun i made => agree i ?_
    rw [dispatch_calls, List.drop_left, made]
    exact List.mem_singleton.mpr rfl

/- The service of one server; AckMsg does nothing. -/
def appService (cfg : Service.Config) (proto : Proto ImMessage) (now : Nat) : Service Backend where
  toMsgService := msgService cfg proto now
  ackMsg s _ _ _ := (none, s)

def tokenPayload : Bytes := [10, 5, 117, 105, 100, 58, 55]

def hiPayload : Bytes := [10, 5, 119, 111, 114, 108, 100, 16, 1, 26, 2, 104, 105, 32, 1]

def hiReq : Pb.SendMsgReq := ⟨"world", .world, [104, 105], .text, [], ""⟩

def someCodecs : Codecs where
  toRuntime := { pullRuntime with
    sendMsgReq := fun payload => if payload = hiPayload then some hiReq else none }
  authReq := fun payload =>
    if payload = tokenPayload then some ⟨"uid:7"⟩ else if payload = [] then some ⟨""⟩ else none
  ackMsgReq := fun _ => none
  sscanf := fun token => if token = "uid:7" then some 7 else none

def listening : State Backend :=
  ⟨ConnManager.new, fun _ => idleConn, holding [], fun _ => none, []⟩

/- A message before the AuthReq, one after it, and one after an AuthReq without a token. -/
def lateAuth : List (Action Backend) :=
  [.register 1, .frame 1 ⟨2001, 1, hiPayload⟩ 3 false, .frame 1 ⟨1001, 2, tokenPayload⟩ 4 false,
    .frame 1 ⟨2001, 3, hiPayload⟩ 5 false, .frame 1 ⟨1001, 4, []⟩ 6 false,
    .frame 1 ⟨2001, 5, hiPayload⟩ 7 false, .frame 1 ⟨9, 6, []⟩ 8 false]

theorem calls_authenticated_lateAuth :
    ∃ s, run (step someCodecs (appService Service.permissive (onlyLong 0) 5) "node") listening lateAuth =
      some s ∧ s.calls = [(1, .sendMsg 7 (senderOf 7) (serviceReq hiReq)),
        (1, .sendMsg 7 (senderOf 7) (serviceReq hiReq))] ∧
    (∀ c i, (c, i) ∈ s.calls → ∃ before frame now fails after u,
      lateAuth = before ++ .frame c frame now fails :: after ∧
      lastAuth someCodecs (framesOf c before) = some u ∧ 0 < u ∧ i.By u) ∧
    s.table.uid 1 = 7 := by
  have view : (run (step someCodecs (appService Service.permissive (onlyLong 0) 5) "node") listening
      lateAuth).map (fun s => (s.calls, s.table.uid 1)) =
      some ([(1, .sendMsg 7 (senderOf 7) (serviceReq hiReq)),
        (1, .sendMsg 7 (senderOf 7) (serviceReq hiReq))], 7) := by
    decide +kernel
  obtain ⟨s, taken, facts⟩ := Option.map_eq_some_iff.mp view
  simp only [Prod.mk.injEq] at facts
  have safe := calls_authenticated someCodecs (appService Service.permissive (onlyLong 0) 5) "node"
    listening s lateAuth ⟨fun _ => rfl, rfl⟩ taken
  exact ⟨s, taken, facts.1, safe.1, facts.2⟩

end GameIM.Gateway.Dispatch
