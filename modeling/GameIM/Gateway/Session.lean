import GameIM.Gateway.ConnStream
import GameIM.Gateway.Dispatch
import GameIM.Gateway.Pool

/-! Requests and their responses. The read loop of a connection takes frames off the bytes of its
client as they arrive, cut up in any way, and dispatches one after another; all that else goes
on in the process goes on beside it. What a client reads are the responses to its requests, in
the order of the requests, and notifications. -/
namespace GameIM.Gateway.Session
open Lib Api Dispatch
open Conn (Written Past inLane)

section Decode

variable {proto : Proto Frame}

theorem readFull_grows {n : Nat} {stream front rest : Bytes} (more : Bytes)
    (read : readFull n stream = .ok (front, rest)) : readFull n (stream ++ more) = .ok (front, rest ++ more) := by
  unfold readFull at read
  split at read
  · rename_i enough
    cases read
    have longer : n ≤ (stream ++ more).length := by
      rw [List.length_append]
      omega
    rw [readFull, if_pos longer, List.take_append_of_le_length enough, List.drop_append_of_le_length enough]
  · split at read
    · contradiction
    · contradiction

/- Decode fails for want of bytes, or for the bytes that it has. -/
theorem decode_incremental : Incremental (decode proto) fun e => e.isShort = true := by
  refine ⟨?_, ?_, ?_⟩
  · intro s frame rest decoded
    obtain ⟨header, body, rfl, four, _⟩ := (decode_ok_iff frame rest).mp decoded
    simp only [List.length_append, four]
    omega
  · intro s frame rest more decoded
    obtain ⟨header, body, rfl, found⟩ := (decode_ok_iff frame rest).mp decoded
    exact (decode_ok_iff frame (rest ++ more)).mpr ⟨header, body, by rw [List.append_assoc _ rest more], found⟩
  · intro s e more failed whole
    unfold decode at failed ⊢
    split at failed
    · cases failed
      exact absurd rfl whole
    · rename_i header after headed
      rw [readFull_grows more headed]
      dsimp only
      split at failed
      · rename_i large
        rw [if_pos large]
        exact failed
      · rename_i small
        rw [if_neg small]
        split at failed
        · rename_i empty
          rw [if_pos empty]
          exact failed
        · rename_i positive
          rw [if_neg positive]
          split at failed
          · cases failed
            exact absurd rfl whole
          · rename_i body left filled
            rw [readFull_grows more filled]
            dsimp only
            split at failed
            · exact failed
            · contradiction

end Decode

/-- A frame that was dispatched, with what its handler read: the connection's uid, the state of the
service and the clock. -/
structure Served (σ : Type) where
  frame : Frame
  uid : Int
  service : σ
  now : Nat

/-- The buffered reader and the read loop of a connection. The reader takes in what Read returns,
until Read fails. `got` and `served` record all bytes and the frames that were dispatched. -/
structure Inbox (σ : Type) where
  unread : Bytes
  ended : Bool
  stopped : Bool
  got : Bytes
  served : List (Served σ)

def Inbox.new {σ : Type} : Inbox σ := ⟨[], false, false, [], []⟩

def Inbox.frames {σ : Type} (inbox : Inbox σ) : List Frame := inbox.served.map Served.frame

structure State (σ : Type) where
  world : Dispatch.State σ
  inbox : ConnID → Inbox σ

inductive Action (σ : Type) where
  | accept (c : ConnID) (slots : Nat → Option Packet) (puts : List (Nat × Packet)) (writePos : Nat)
  | receive (c : ConnID) (bytes : Bytes)
  | hangUp (c : ConnID)
  | read (c : ConnID) (now : Nat) (fails : Bool)
  | stop (c : ConnID)
  | close (c : ConnID)
  | other (c : ConnID) (a : Conn.Action)
  -- other calls of the service, and other writers of presence
  | elsewhere (service : σ) (presence : Int → Option PresenceData)

def Action.on {σ : Type} (c : ConnID) : Action σ → Bool
  | .receive d _ => d = c
  | .hangUp d => d = c
  | .read d _ _ => d = c
  | .stop d => d = c
  | .other d _ => d = c
  | _ => false

def isReply : Conn.Action → Bool
  | .reply _ _ _ => true
  | _ => false

section Machine

variable {σ : Type} (rt : Codecs) (svc : Service σ) (node : String) (cfg : Conn.Config)

def State.setInbox (s : State σ) (c : ConnID) (inbox : Inbox σ) : State σ :=
  { s with inbox := Function.update s.inbox c inbox }

def State.setConn (s : State σ) (c : ConnID) (conn : Conn.State) : State σ :=
  { s with world := { s.world with conns := Function.update s.world.conns c conn } }

/- Decode blocks while bytes are missing and may still come. Only the handlers reply. Close has
its effect on the table here, and on the connection by steps of that. -/
def step (s : State σ) : Action σ → Option (State σ)
  | .accept c slots puts writePos =>
    if s.world.table.life c = .fresh then
      some (({ s with world := { s.world with table := s.world.table.register c } }.setConn c
        (Conn.newConn slots puts writePos)).setInbox c .new)
    else none
  | .receive c bytes =>
    let inbox := s.inbox c
    if s.world.table.life c = .fresh ∨ inbox.ended then none
    else some (s.setInbox c { inbox with unread := inbox.unread ++ bytes, got := inbox.got ++ bytes })
  | .hangUp c =>
    if s.world.table.life c = .fresh then none else some (s.setInbox c { s.inbox c with ended := true })
  | .read c now fails =>
    let inbox := s.inbox c
    if s.world.table.life c = .fresh ∨ inbox.stopped then none
    else match decode rt.protos.frame inbox.unread with
      | .error _ => none
      | .ok (frame, rest) =>
        some ({ s with world := dispatch rt svc node s.world c frame now fails }.setInbox c
          { inbox with
            unread := rest
            served := inbox.served ++ [Served.mk frame (s.world.table.uid c) s.world.service now] })
  | .stop c =>
    let inbox := s.inbox c
    if s.world.table.life c = .fresh ∨ inbox.stopped then none
    else match decode rt.protos.frame inbox.unread with
      | .error e =>
        if e.isShort = true ∧ inbox.ended = false then none
        else some (s.setInbox c { inbox with stopped := true })
      | .ok _ => none
  | .close c =>
    if s.world.table.life c = .fresh then none
    else some { s with world := { s.world with table := s.world.table.close c } }
  | .other c a =>
    if s.world.table.life c = .fresh ∨ isReply a then none
    else (Conn.step rt.protos cfg (s.world.conns c) a).map (s.setConn c)
  | .elsewhere service presence => some { s with world := { s.world with service, presence } }

inductive Effect (s : State σ) (c : ConnID) : Action σ → Inbox σ → Conn.State → Prop where
  | same {a} : a.on c = false → Effect s c a (s.inbox c) (s.world.conns c)
  | receive {bytes} : (s.inbox c).ended = false →
      Effect s c (.receive c bytes)
        { s.inbox c with unread := (s.inbox c).unread ++ bytes, got := (s.inbox c).got ++ bytes }
        (s.world.conns c)
  | hangUp : Effect s c (.hangUp c) { s.inbox c with ended := true } (s.world.conns c)
  | read {frame rest now fails} : (s.inbox c).stopped = false →
      decode rt.protos.frame (s.inbox c).unread = .ok (frame, rest) →
      Effect s c (.read c now fails)
        { s.inbox c with
          unread := rest
          served := (s.inbox c).served ++ [⟨frame, s.world.table.uid c, s.world.service, now⟩] }
        ((dispatch rt svc node s.world c frame now fails).conns c)
  | stop {e} : (s.inbox c).stopped = false → decode rt.protos.frame (s.inbox c).unread = .error e →
      (e.isShort = true → (s.inbox c).ended = true) →
      Effect s c (.stop c) { s.inbox c with stopped := true } (s.world.conns c)
  | other {a conn} : isReply a = false → Conn.step rt.protos cfg (s.world.conns c) a = some conn →
      Effect s c (.other c a) (s.inbox c) conn

end Machine

/-- The response that a frame is to have. -/
def responseCmd (frame : Frame) : Option ReplyCmd :=
  match handlerOf frame.cmdId with
  | some .auth => some .auth
  | some .sendMsg => some .sendMsg
  | some .pullMsg => some .pullMsg
  | some .heartbeat => some .heartbeat
  | some .ackMsg => none
  | none => none

/- Command and sequence number, by which a client knows a response. -/
def keyOf (frame : Frame) : UInt32 × UInt32 := (frame.cmdId, frame.seq)

def expected (frame : Frame) : Option (UInt32 × UInt32) := (responseCmd frame).map fun cmd => (cmd.id, frame.seq)

section Answers

variable {σ : Type} (rt : Codecs) (svc : Service σ)

def authAnswer (x : Served σ) : Pb.AuthResp :=
  match rt.authReq x.frame.payload with
  | none => ⟨Handlers.authFailed, "invalid auth request", 0, x.now⟩
  | some req => match parseSimpleToken rt req.token with
    | none => ⟨Handlers.authFailed, "invalid token", 0, x.now⟩
    | some uid => ⟨0, "ok", uid, x.now⟩

def sendMsgAnswer (x : Served σ) : Pb.SendMsgResp :=
  if x.uid = 0 then ⟨Handlers.authFailed, "not authenticated", 0, 0⟩
  else match rt.sendMsgReq x.frame.payload with
    | none => ⟨errServerError.code, "invalid request", 0, 0⟩
    | some req => match (svc.sendMsg x.service x.uid (Handlers.senderOf x.uid) (Handlers.serviceReq req)).1 with
      | .error err => ⟨Handlers.toCode err, Handlers.toMsg err, 0, 0⟩
      | .ok resp => ⟨0, "ok", resp.msgID, resp.sendTime⟩

def pullMsgAnswer (x : Served σ) : Pb.PullMsgResp :=
  if x.uid = 0 then ⟨Handlers.authFailed, "not authenticated", []⟩
  else match rt.pullMsgReq x.frame.payload with
    | none => ⟨errServerError.code, "invalid request", []⟩
    | some req => match svc.pullMsg x.service req.channelId req.lastMsgId req.limit with
      | .error err => ⟨Handlers.toCode err, Handlers.toMsg err, []⟩
      | .ok msgs => ⟨0, "ok", msgs⟩

def answer (x : Served σ) : ReplyCmd → Bytes
  | .auth => marshalAuthResp (authAnswer rt x)
  | .sendMsg => marshalSendMsgResp (sendMsgAnswer rt svc x)
  | .pullMsg => Handlers.mustMarshal rt.toRuntime (pullMsgAnswer rt svc x)
  | .heartbeat => marshalHeartbeatResp ⟨x.now⟩

def response (x : Served σ) : Option Frame :=
  (responseCmd x.frame).map fun cmd => ⟨cmd.id, x.frame.seq, answer rt svc x cmd⟩

theorem response_key (x : Served σ) : (response rt svc x).map keyOf = expected x.frame := by
  rw [response, expected, Option.map_map]
  rfl

theorem responses_keys (xs : List (Served σ)) :
    (xs.filterMap (response rt svc)).map keyOf = (xs.map Served.frame).filterMap expected := by
  rw [List.map_filterMap, List.filterMap_map]
  exact congrArg (List.filterMap · xs) (funext (response_key rt svc))

end Answers

section Dispatched

variable {σ : Type} {rt : Codecs} {svc : Service σ} {node : String} {s : Dispatch.State σ} {c : ConnID}
  {frame : Frame} {now : Nat} {fails : Bool}

theorem setOnline_conns (uid : Int) : (setOnline node s c uid now fails).conns = s.conns := by
  unfold setOnline
  split <;> rfl

theorem handleAuth_conns : (handleAuth rt node s c frame now fails).conns = Function.update s.conns c
    (Handlers.replyTo rt.toRuntime frame .auth
      (answer rt svc ⟨frame, s.table.uid c, s.service, now⟩ .auth) (s.conns c)) := by
  cases read : rt.authReq frame.payload with
  | none => simp only [handleAuth, answer, authAnswer, read, sendAuthResp]
  | some req =>
    cases token : parseSimpleToken rt req.token with
    | none => simp only [handleAuth, answer, authAnswer, read, token, sendAuthResp]
    | some uid => simp only [handleAuth, answer, authAnswer, read, token, sendAuthResp, setOnline_conns]

theorem handleSendMsg_replies (conn : Conn.State) :
    (Handlers.handleSendMsg rt.toRuntime svc.toMsgService s.service (s.table.uid c) frame conn).1 =
      Handlers.replyTo rt.toRuntime frame .sendMsg
        (answer rt svc ⟨frame, s.table.uid c, s.service, now⟩ .sendMsg) conn := by
  by_cases anonymous : s.table.uid c = 0
  · simp only [Handlers.handleSendMsg, answer, sendMsgAnswer, if_pos anonymous]
  · simp only [Handlers.handleSendMsg, answer, sendMsgAnswer, if_neg anonymous]
    cases rt.sendMsgReq frame.payload with
    | none => rfl
    | some req =>
      dsimp only
      cases svc.sendMsg s.service (s.table.uid c) (Handlers.senderOf (s.table.uid c)) (Handlers.serviceReq req) with
      | mk result after => cases result <;> rfl

theorem handlePullMsg_replies (conn : Conn.State) :
    Handlers.handlePullMsg rt.toRuntime svc.toMsgService s.service (s.table.uid c) frame conn =
      Handlers.replyTo rt.toRuntime frame .pullMsg
        (answer rt svc ⟨frame, s.table.uid c, s.service, now⟩ .pullMsg) conn := by
  by_cases anonymous : s.table.uid c = 0
  · simp only [Handlers.handlePullMsg, answer, pullMsgAnswer, if_pos anonymous]
  · simp only [Handlers.handlePullMsg, answer, pullMsgAnswer, if_neg anonymous]
    cases rt.pullMsgReq frame.payload with
    | none => rfl
    | some req =>
      dsimp only
      cases svc.pullMsg s.service req.channelId req.lastMsgId req.limit <;> rfl

/-- All that a frame does to the connections is the one reply to its own. -/
theorem dispatch_conns :
    (responseCmd frame = none ∧ (dispatch rt svc node s c frame now fails).conns = s.conns) ∨
    ∃ cmd, responseCmd frame = some cmd ∧ (dispatch rt svc node s c frame now fails).conns =
      Function.update s.conns c (Handlers.replyTo rt.toRuntime frame cmd
        (answer rt svc ⟨frame, s.table.uid c, s.service, now⟩ cmd) (s.conns c)) := by
  unfold dispatch responseCmd
  cases handler : handlerOf frame.cmdId with
  | none => exact Or.inl ⟨rfl, rfl⟩
  | some cmd =>
    cases cmd with
    | auth => exact Or.inr ⟨.auth, rfl, handleAuth_conns⟩
    | sendMsg => exact Or.inr ⟨.sendMsg, rfl, congrArg (Function.update s.conns c) (handleSendMsg_replies _)⟩
    | pullMsg => exact Or.inr ⟨.pullMsg, rfl, congrArg (Function.update s.conns c) (handlePullMsg_replies _)⟩
    | ackMsg => exact Or.inl ⟨rfl, rfl⟩
    | heartbeat => exact Or.inr ⟨.heartbeat, rfl, rfl⟩

theorem dispatch_fresh {d : ConnID} :
    s.table.life d = .fresh ↔ (dispatch rt svc node s c frame now fails).table.life d = .fresh := by
  unfold dispatch
  split
  · rfl
  · unfold handleAuth
    split
    · rfl
    · split
      · rfl
      · simp only [sendAuthResp, setOnline, apply_ite State.table, ite_self]
        exact bindUser_fresh_iff
  · rfl
  · rfl
  · rfl
  · rfl

end Dispatched

section Effect

variable {σ : Type} {rt : Codecs} {svc : Service σ} {node : String} {cfg : Conn.Config} {s t : State σ}

theorem step_effect {a : Action σ} (taken : step rt svc node cfg s a = some t) (c : ConnID) :
    (s.world.table.life c = .fresh ∧ t.world.table.life c = .fresh) ∨
    (∃ slots puts writePos, a = .accept c slots puts writePos ∧ s.world.table.life c = .fresh ∧
      t.inbox c = .new ∧ t.world.conns c = Conn.newConn slots puts writePos) ∨
    s.world.table.life c ≠ .fresh ∧ t.world.table.life c ≠ .fresh ∧
      Effect rt svc node cfg s c a (t.inbox c) (t.world.conns c) := by
  have still : a.on c = false → t.inbox c = s.inbox c → t.world.conns c = s.world.conns c →
      (s.world.table.life c = .fresh ↔ t.world.table.life c = .fresh) →
      (s.world.table.life c = .fresh ∧ t.world.table.life c = .fresh) ∨
      (∃ slots puts writePos, a = .accept c slots puts writePos ∧ s.world.table.life c = .fresh ∧
        t.inbox c = .new ∧ t.world.conns c = Conn.newConn slots puts writePos) ∨
      s.world.table.life c ≠ .fresh ∧ t.world.table.life c ≠ .fresh ∧
      Effect rt svc node cfg s c a (t.inbox c) (t.world.conns c) := by
    intro off inbox conn unborn
    by_cases fresh : s.world.table.life c = .fresh
    · exact Or.inl ⟨fresh, unborn.mp fresh⟩
    · refine Or.inr (Or.inr ⟨fresh, fun now => fresh (unborn.mpr now), ?_⟩)
      rw [inbox, conn]
      exact .same off
  cases a with
  | accept d slots puts writePos =>
    simp only [step] at taken
    split at taken
    · rename_i unborn
      cases Option.some.inj taken
      by_cases here : c = d
      · subst here
        refine Or.inr (Or.inl ⟨slots, puts, writePos, rfl, unborn, ?_, ?_⟩)
        · exact Function.update_self ..
        · exact Function.update_self ..
      · refine still rfl (Function.update_of_ne here ..) (Function.update_of_ne here ..) ?_
        simp only [State.setInbox, State.setConn, ConnManager.register, Function.update_of_ne here]
    · contradiction
  | receive d bytes =>
    simp only [step] at taken
    split at taken
    · contradiction
    · rename_i possible
      obtain ⟨born, still_open⟩ := not_or.mp possible
      cases Option.some.inj taken
      by_cases here : c = d
      · subst here
        refine Or.inr (Or.inr ⟨born, born, ?_⟩)
        simp only [State.setInbox, Function.update_self]
        exact .receive (Bool.eq_false_of_not_eq_true still_open)
      · exact still (decide_eq_false (Ne.symm here)) (Function.update_of_ne here ..) rfl Iff.rfl
  | hangUp d =>
    simp only [step] at taken
    split at taken
    · contradiction
    · rename_i born
      cases Option.some.inj taken
      by_cases here : c = d
      · subst here
        refine Or.inr (Or.inr ⟨born, born, ?_⟩)
        simp only [State.setInbox, Function.update_self]
        exact .hangUp
      · exact still (decide_eq_false (Ne.symm here)) (Function.update_of_ne here ..) rfl Iff.rfl
  | read d now fails =>
    simp only [step] at taken
    split at taken
    · contradiction
    · rename_i possible
      obtain ⟨born, reading⟩ := not_or.mp possible
      split at taken
      · contradiction
      · rename_i frame rest decoded
        cases Option.some.inj taken
        by_cases here : c = d
        · subst here
          refine Or.inr (Or.inr ⟨born, fun now => born (dispatch_fresh.mpr now), ?_⟩)
          simp only [State.setInbox, Function.update_self]
          exact .read (Bool.eq_false_of_not_eq_true reading) decoded
        · refine still (decide_eq_false (Ne.symm here)) (Function.update_of_ne here ..) ?_ dispatch_fresh
          rcases @dispatch_conns σ rt svc node s.world d frame now fails with ⟨_, same⟩ | ⟨cmd, _, replied⟩
          · exact congrFun same c
          · exact (congrFun replied c).trans (Function.update_of_ne here ..)
  | stop d =>
    simp only [step] at taken
    split at taken
    · contradiction
    · rename_i possible
      obtain ⟨born, reading⟩ := not_or.mp possible
      split at taken
      · rename_i e failed
        split at taken
        · contradiction
        · rename_i final
          cases Option.some.inj taken
          by_cases here : c = d
          · subst here
            refine Or.inr (Or.inr ⟨born, born, ?_⟩)
            simp only [State.setInbox, Function.update_self]
            refine .stop (Bool.eq_false_of_not_eq_true reading) failed ?_
            intro short
            exact Bool.of_not_eq_false fun waiting => final ⟨short, waiting⟩
          · exact still (decide_eq_false (Ne.symm here)) (Function.update_of_ne here ..) rfl Iff.rfl
      · contradiction
  | close d =>
    simp only [step] at taken
    split at taken
    · contradiction
    · cases Option.some.inj taken
      exact still rfl rfl rfl close_fresh_iff
  | other d a =>
    simp only [step] at taken
    split at taken
    · contradiction
    · rename_i possible
      obtain ⟨born, elsewhere⟩ := not_or.mp possible
      obtain ⟨conn, moved, rfl⟩ := Option.map_eq_some_iff.mp taken
      by_cases here : c = d
      · subst here
        refine Or.inr (Or.inr ⟨born, born, ?_⟩)
        simp only [State.setConn, Function.update_self]
        exact .other (Bool.eq_false_of_not_eq_true elsewhere) moved
      · exact still (decide_eq_false (Ne.symm here)) rfl (Function.update_of_ne here ..) Iff.rfl
  | elsewhere service presence =>
    cases Option.some.inj taken
    exact still rfl rfl rfl Iff.rfl

end Effect

/-- What the server puts on the channels of a connection. -/
inductive Sent (protos : Protos) : Conn.Lane → Packet → Prop where
  | reply {cmd seq payload p} : reply protos cmd seq payload = some p → Sent protos .respCh p
  | notify {msg p} : broadcastNotify protos msg = some p → Sent protos .pushCh p
  | push {msg p} : marshalPush protos msg = some p → Sent protos .pushCh p

structure Traffic (protos : Protos) (f : Conn.Flow) : Prop where
  ring : Past protos f.slots f.puts
  accepted : ∀ e ∈ f.accepted, Sent protos e.1 e.2

def replies (f : Conn.Flow) : List Frame := (inLane .respCh f.accepted).map Packet.frame

section Traffic

variable {protos : Protos} {cfg : Conn.Config} {s t : Conn.State} {f : Conn.Flow}

theorem offer_accepted (f : Conn.Flow) (lane : Conn.Lane) (size : Nat) (p : Packet) :
    (f.offer lane size p).accepted = f.accepted ∨ (f.offer lane size p).accepted = f.accepted ++ [(lane, p)] := by
  unfold Conn.Flow.offer
  split
  · exact Or.inr rfl
  · exact Or.inl rfl

theorem Traffic.offer (h : Traffic protos f) {lane : Conn.Lane} (size : Nat) {p : Packet}
    (sent : Sent protos lane p) : Traffic protos (f.offer lane size p) := by
  constructor
  · unfold Conn.Flow.offer
    split
    · exact h.ring
    · exact h.ring
  · intro e member
    rcases offer_accepted f lane size p with same | grown
    · exact h.accepted e (same ▸ member)
    · rw [grown] at member
      rcases List.mem_append.mp member with old | new
      · exact h.accepted e old
      · cases List.mem_singleton.mp new
        exact sent

theorem step_traffic {a : Conn.Action} (h : Traffic protos s.flow) (taken : Conn.step protos cfg s a = some t) :
    Traffic protos t.flow := by
  have effect := Conn.step_effect taken
  generalize t.flow = g at effect
  cases effect with
  | same => exact h
  | reply made => exact h.offer _ (.reply made)
  | deliver made => exact h.offer _ (.push made)
  | put made =>
    refine ⟨⟨h.ring.slots, ?_⟩, h.accepted⟩
    intro e member
    rcases List.mem_append.mp member with old | new
    · exact h.ring.puts e old
    · cases List.mem_singleton.mp new
      exact ⟨_, made⟩
  | @store pos p waiting =>
    refine ⟨⟨?_, fun e member => h.ring.puts e (List.mem_of_mem_filter member)⟩, h.accepted⟩
    intro i q held
    by_cases here : i = pos &&& cfg.mask
    · subst here
      simp only [Function.update_self, Option.some.injEq] at held
      exact held ▸ h.ring.puts _ waiting
    · simp only [Function.update_of_ne here] at held
      exact h.ring.slots i q held
  | get held =>
    obtain ⟨msg, made⟩ := h.ring.slots _ _ held
    exact h.offer _ (.notify made)
  | take _ => exact ⟨h.ring, h.accepted⟩
  | write _ => exact ⟨h.ring, h.accepted⟩
  | closeSocket => exact ⟨h.ring, h.accepted⟩

theorem replies_push (f : Conn.Flow) (size : Nat) (p : Packet) : replies (f.offer .pushCh size p) = replies f := by
  unfold replies
  rcases offer_accepted f .pushCh size p with same | grown
  · rw [same]
  · rw [grown, Conn.inLane_append, Conn.inLane_other (by decide), List.append_nil]

theorem replies_resp (f : Conn.Flow) (size : Nat) (p : Packet) : replies (f.offer .respCh size p) = replies f ∨
    replies (f.offer .respCh size p) = replies f ++ [p.frame] := by
  unfold replies
  rcases offer_accepted f .respCh size p with same | grown
  · exact Or.inl (by rw [same])
  · exact Or.inr (by rw [grown, Conn.inLane_append, Conn.inLane_same, List.map_append, List.map_singleton])

theorem step_replies {a : Conn.Action} (elsewhere : isReply a = false)
    (taken : Conn.step protos cfg s a = some t) : replies t.flow = replies s.flow := by
  have effect := Conn.step_effect taken
  generalize t.flow = g at effect
  cases effect with
  | same => rfl
  | reply made => contradiction
  | deliver made => exact replies_push ..
  | put made => rfl
  | store waiting => rfl
  | get held => exact replies_push ..
  | take _ => rfl
  | write _ => rfl
  | closeSocket => rfl

theorem encodeFrame_frame {frame : Frame} {p : Packet} (made : encodeFrame protos frame = some p) :
    p.frame = frame := by
  unfold encodeFrame at made
  split at made
  · contradiction
  · cases Option.some.inj made
    rfl

theorem replyTo_replies (rt : Handlers.Runtime) (frame : Frame) (cmd : ReplyCmd) (payload : Bytes)
    (conn : Conn.State) : replies (Handlers.replyTo rt frame cmd payload conn).flow = replies conn.flow ∨
      replies (Handlers.replyTo rt frame cmd payload conn).flow =
        replies conn.flow ++ [⟨cmd.id, frame.seq, payload⟩] := by
  unfold Handlers.replyTo Conn.State.offer
  split
  · exact Or.inl rfl
  · rename_i p made
    rw [← encodeFrame_frame made]
    exact replies_resp ..

end Traffic

/-- What holds of a connection that was accepted: the read loop has taken the frames off what came
in, one after another, and each response that the channel took is the one to one of them, in their
order. -/
structure Inv {σ : Type} (rt : Codecs) (svc : Service σ) (inbox : Inbox σ) (f : Conn.Flow) : Prop where
  read : readN (decode rt.protos.frame) inbox.frames.length inbox.got = .ok (inbox.frames, inbox.unread)
  finished : inbox.stopped = true → ∃ e, decode rt.protos.frame inbox.unread = .error e ∧
    (e.isShort = true → inbox.ended = true)
  written : Written f
  traffic : Traffic rt.protos f
  replied : (replies f).Sublist (inbox.served.filterMap (response rt svc))

section Invariant

variable {σ : Type} {rt : Codecs} {svc : Service σ} {node : String} {cfg : Conn.Config} {s t : State σ} {c : ConnID}

theorem inv_new {slots : Nat → Option Packet} {puts : List (Nat × Packet)} (past : Past rt.protos slots puts)
    (writePos : Nat) : Session.Inv rt svc .new (Conn.newConn slots puts writePos).flow where
  read := rfl
  finished stopped := by contradiction
  written := Conn.newConn_written
  traffic := ⟨past, fun _ member => by contradiction⟩
  replied := List.Sublist.refl []

theorem dispatch_inv (cfg : Conn.Config) {inbox : Inbox σ} {frame : Frame} {rest : Bytes} {now : Nat} {fails : Bool}
    (inv : Session.Inv rt svc inbox (s.world.conns c).flow) (reading : inbox.stopped = false)
    (decoded : decode rt.protos.frame inbox.unread = .ok (frame, rest)) :
    Session.Inv rt svc
      { inbox with
        unread := rest
        served := inbox.served ++ [⟨frame, s.world.table.uid c, s.world.service, now⟩] }
      ((dispatch rt svc node s.world c frame now fails).conns c).flow := by
  have read := readN_snoc inv.read decoded
  have frames : Inbox.frames
      { inbox with
        unread := rest
        served := inbox.served ++ [Served.mk frame (s.world.table.uid c) s.world.service now] } =
      inbox.frames ++ [frame] := List.map_append
  have finished : inbox.stopped = true → ∃ e, decode rt.protos.frame rest = .error e ∧
      (e.isShort = true → inbox.ended = true) := by
    intro stopped
    rw [reading] at stopped
    contradiction
  have taken := fun cmd payload => Handlers.replyTo_step rt.toRuntime cfg frame cmd payload (s.world.conns c)
  refine ⟨?_, finished, ?_, ?_, ?_⟩
  · rw [frames, List.length_append]
    exact read
  · rcases @dispatch_conns σ rt svc node s.world c frame now fails with ⟨_, same⟩ | ⟨cmd, _, replied⟩
    · rw [same]
      exact inv.written
    · rw [replied, Function.update_self]
      exact Conn.step_written inv.written (taken cmd _)
  · rcases @dispatch_conns σ rt svc node s.world c frame now fails with ⟨_, same⟩ | ⟨cmd, _, replied⟩
    · rw [same]
      exact inv.traffic
    · rw [replied, Function.update_self]
      exact step_traffic inv.traffic (taken cmd _)
  · rw [List.filterMap_append]
    rcases @dispatch_conns σ rt svc node s.world c frame now fails with ⟨_, same⟩ | ⟨cmd, asks, replied⟩
    · rw [same]
      exact inv.replied.trans (List.sublist_append_left ..)
    · rw [replied, Function.update_self]
      rcases replyTo_replies rt.toRuntime frame cmd _ (s.world.conns c) with dropped | queued
      · rw [dropped]
        exact inv.replied.trans (List.sublist_append_left ..)
      · rw [queued, List.filterMap_cons, response, asks]
        exact inv.replied.append (List.Sublist.refl _)

theorem effect_inv {a : Action σ} {inbox : Inbox σ} {conn : Conn.State}
    (inv : Session.Inv rt svc (s.inbox c) (s.world.conns c).flow)
    (effect : Effect rt svc node cfg s c a inbox conn) : Session.Inv rt svc inbox conn.flow := by
  cases effect with
  | same _ => exact inv
  | @receive bytes arriving =>
    refine ⟨decode_incremental.readN_grows bytes inv.read, ?_, inv.written, inv.traffic, inv.replied⟩
    intro stopped
    obtain ⟨e, failed, waiting⟩ := inv.finished stopped
    refine ⟨e, decode_incremental.final bytes failed ?_, waiting⟩
    intro short
    rw [waiting short] at arriving
    contradiction
  | hangUp =>
    refine ⟨inv.read, ?_, inv.written, inv.traffic, inv.replied⟩
    intro stopped
    obtain ⟨e, failed, _⟩ := inv.finished stopped
    exact ⟨e, failed, fun _ => rfl⟩
  | read reading decoded => exact dispatch_inv cfg inv reading decoded
  | @stop e _ failed final =>
    exact ⟨inv.read, fun _ => ⟨e, failed, final⟩, inv.written, inv.traffic, inv.replied⟩
  | other elsewhere moved =>
    refine ⟨inv.read, inv.finished, Conn.step_written inv.written moved, step_traffic inv.traffic moved, ?_⟩
    rw [step_replies elsewhere moved]
    exact inv.replied

/- A connection that is accepted finds nothing but notifications in the ring. -/
def Opens (protos : Protos) : Action σ → Prop
  | .accept _ slots puts _ => Past protos slots puts
  | _ => True

theorem run_inv {as : List (Action σ)} (unborn : ∀ c, s.world.table.life c = .fresh)
    (opens : ∀ a ∈ as, Opens rt.protos a) (taken : run (step rt svc node cfg) s as = some t) (c : ConnID) :
    t.world.table.life c = .fresh ∨ Session.Inv rt svc (t.inbox c) (t.world.conns c).flow := by
  have guarded : Meets (step rt svc node cfg) (fun _ a => Opens rt.protos a) s as :=
    (meets_true s as).imp fun _ a member _ => opens a member
  refine run_invariant_meets
    (fun s => s.world.table.life c = .fresh ∨ Session.Inv rt svc (s.inbox c) (s.world.conns c).flow)
    ?_ (Or.inl (unborn c)) guarded taken
  intro s a t before past taken
  rcases step_effect taken c with ⟨_, fresh⟩ | ⟨slots, puts, writePos, rfl, _, inbox, conn⟩ | ⟨born, _, effect⟩
  · exact Or.inl fresh
  · rw [inbox, conn]
    exact Or.inr (inv_new past writePos)
  · exact Or.inr (effect_inv (before.resolve_left born) effect)

end Invariant

section Client

variable {protos : Protos} {lane : Conn.Lane} {p : Packet} {f : Conn.Flow}

theorem Sent.framed (written : CmdWritten protos) (sent : Sent protos lane p) :
    (∃ body, Framed protos.frame p body) ∨ ∃ msg, marshalPush protos msg = some p := by
  cases sent with
  | reply made => exact Or.inl (reply_framed written made)
  | notify made => exact Or.inl (broadcastNotify_framed written made)
  | push made => exact Or.inr ⟨_, made⟩

theorem broadcastNotify_cmd {msg : ImMessage} (made : broadcastNotify protos msg = some p) :
    p.frame.cmdId = cmdWorldNotify := by
  unfold broadcastNotify at made
  split at made
  · contradiction
  · rw [encodeFrame_frame made]

theorem marshalPush_cmd {msg : ImMessage} (made : marshalPush protos msg = some p) :
    p.frame.cmdId = cmdPushNewMessage := by
  unfold marshalPush at made
  split at made
  · contradiction
  · obtain ⟨data, _, rfl⟩ := Option.map_eq_some_iff.mp made
    rfl

theorem reply_cmd {cmd : ReplyCmd} {seq : UInt32} {payload : Bytes}
    (made : reply protos cmd seq payload = some p) : p.frame.cmdId ≠ cmdWorldNotify := by
  have differs : cmd.id ≠ cmdWorldNotify := by cases cmd <;> decide
  rw [encodeFrame_frame made]
  exact differs

/- Apart from pushes, a client can tell the responses from the notifications. -/
theorem Sent.told (sent : Sent protos lane p) (other : ∀ msg, marshalPush protos msg ≠ some p) :
    p.frame.cmdId ≠ cmdWorldNotify ↔ lane = .respCh := by
  cases sent with
  | reply made => simp [reply_cmd made]
  | notify made => simp [broadcastNotify_cmd made]
  | push made => exact absurd made (other _)

theorem mem_inLane {ps : List (Conn.Lane × Packet)} : p ∈ inLane lane ps ↔ (lane, p) ∈ ps := by
  simp [inLane]

theorem Traffic.wrote (traffic : Traffic protos f) (written : Written f) :
    ∀ e ∈ f.wrote, Sent protos e.1 e.2 := by
  intro e member
  have queued : e.2 ∈ inLane e.1 f.accepted := by
    rw [← written.lanes e.1, Conn.inLane_append]
    exact List.mem_append_left _ (List.mem_append_left _ (mem_inLane.mpr member))
  exact traffic.accepted e (mem_inLane.mp queued)

theorem decodeAll_sent (cmd : CmdWritten protos) (tagged : Tagged protos) {ps : List Packet}
    (each : ∀ p ∈ ps, (∃ body, Framed protos.frame p body) ∨ ∃ msg, marshalPush protos msg = some p)
    {stream : Bytes} (cut : stream <+: ps.flatMap Packet.data) :
    ∃ k e, decodeAll protos.frame stream = ((ps.take k).map Packet.frame, some e) ∧
      ∀ p ∈ ps.take k, ∀ msg, marshalPush protos msg ≠ some p := by
  have packets : ∀ p ∈ ps, Delimited (decode protos.frame) p.data p.frame ∨
      ∀ rest, ∃ e, decode protos.frame (p.data ++ rest) = .error e := by
    intro p member
    rcases each p member with ⟨body, framed⟩ | ⟨msg, made⟩
    · exact Or.inl framed.delimited
    · exact Or.inr (decode_pushed cmd tagged made)
  have atEnd : ∃ e, decode protos.frame [] = .error e := ⟨.readHeader .eof, rfl⟩
  obtain ⟨k, e, all, read⟩ := decode_incremental.readAll_mixed packets atEnd cut (Nat.lt_succ_self stream.length)
  refine ⟨k, e, all, ?_⟩
  intro p member msg made
  obtain ⟨_, fails⟩ := decode_pushed cmd tagged made []
  rw [(read p member).decodes] at fails
  contradiction

theorem filter_responses {es : List (Conn.Lane × Packet)} (sent : ∀ e ∈ es, Sent protos e.1 e.2)
    (other : ∀ e ∈ es, ∀ msg, marshalPush protos msg ≠ some e.2) :
    ((es.map Prod.snd).map Packet.frame).filter (·.cmdId ≠ cmdWorldNotify) = (inLane .respCh es).map Packet.frame := by
  rw [inLane, List.filter_map, List.filter_map, List.map_map, List.map_map]
  congr 1
  apply List.filter_congr
  intro e member
  exact decide_eq_decide.mpr ((sent e member).told (other e member))

/-- The responses that a client reads are the first ones that the channel took. -/
theorem read_responses (cmd : CmdWritten protos) (tagged : Tagged protos) (written : Written f)
    (traffic : Traffic protos f) :
    (decodeAll protos.frame f.stream).1.filter (·.cmdId ≠ cmdWorldNotify) <+: replies f := by
  have sent := traffic.wrote written
  have framed : ∀ p ∈ f.wrote.map Prod.snd, (∃ body, Framed protos.frame p body) ∨
      ∃ msg, marshalPush protos msg = some p := by
    intro p member
    obtain ⟨e, listed, rfl⟩ := List.mem_map.mp member
    exact (sent e listed).framed cmd
  obtain ⟨k, e, all, none⟩ := decodeAll_sent cmd tagged framed written.stream
  have first : (f.wrote.map Prod.snd).take k = (f.wrote.take k).map Prod.snd := List.map_take.symm
  have wrote : f.wrote.take k <+: f.wrote := List.take_prefix k f.wrote
  have begins : inLane .respCh (f.wrote.take k) <+: inLane .respCh f.accepted := by
    rw [← written.lanes .respCh, Conn.inLane_append, List.append_assoc]
    exact ((wrote.filter _).map Prod.snd).trans (List.prefix_append _ _)
  rw [all, first, filter_responses]
  · exact begins.map _
  · exact fun e member => sent e (wrote.subset member)
  · rw [first] at none
    exact fun e member => none e.2 (List.mem_map_of_mem member)

/-- All of them, once they are written and no push is among what was. -/
theorem read_all_responses (cmd : CmdWritten protos) (written : Written f) (traffic : Traffic protos f)
    (up : f.up = true)
    (unsent : f.chan .respCh = []) (flushed : f.buf = [])
    (other : ∀ e ∈ f.wrote, e.2.frame.cmdId ≠ cmdPushNewMessage) :
    (decodeAll protos.frame f.stream).1.filter (·.cmdId ≠ cmdWorldNotify) = replies f := by
  have sent := traffic.wrote written
  have other : ∀ e ∈ f.wrote, ∀ msg, marshalPush protos msg ≠ some e.2 :=
    fun e member msg made => other e member (marshalPush_cmd made)
  have framed : ∀ p ∈ f.wrote.map Prod.snd, ∃ body, Framed protos.frame p body := by
    intro p member
    obtain ⟨e, listed, rfl⟩ := List.mem_map.mp member
    rcases (sent e listed).framed cmd with framed | ⟨msg, made⟩
    · exact framed
    · exact absurd made (other e listed msg)
  have lane := written.lanes .respCh
  rw [flushed, unsent, List.append_nil, List.append_nil] at lane
  rw [written.whole up, Conn.bytesOf, decodeAll_framed framed, filter_responses sent other, replies, lane]

end Client

section Answered

variable {σ : Type} (rt : Codecs) (svc : Service σ) (node : String)

/- The response to the frame was refused by the encoder, or found the channel full. -/
def drops (s : State σ) : Action σ → Bool
  | .read c now fails => match decode rt.protos.frame (s.inbox c).unread with
    | .ok (frame, _) => (responseCmd frame).isSome &&
      replies ((dispatch rt svc node s.world c frame now fails).conns c).flow == replies (s.world.conns c).flow
    | .error _ => false
  | _ => false

variable {rt svc node} {cfg : Conn.Config} {s t : State σ}

theorem dispatch_answers {c : ConnID} {frame : Frame} {rest : Bytes} {now : Nat} {fails : Bool}
    (decoded : decode rt.protos.frame (s.inbox c).unread = .ok (frame, rest))
    (kept : drops rt svc node s (.read c now fails) = false) :
    replies ((dispatch rt svc node s.world c frame now fails).conns c).flow = replies (s.world.conns c).flow ++
      (response rt svc ⟨frame, s.world.table.uid c, s.world.service, now⟩).toList := by
  simp only [drops, decoded, Bool.and_eq_false_iff, beq_eq_false_iff_ne] at kept
  rcases @dispatch_conns σ rt svc node s.world c frame now fails with ⟨none, same⟩ | ⟨cmd, asks, replied⟩
  · rw [same]
    simp [response, none]
  · have changed := kept.resolve_left (by simp [asks])
    rw [replied, Function.update_self] at changed ⊢
    simp only [response, asks, Option.map_some, Option.toList_some]
    exact (replyTo_replies rt.toRuntime frame cmd _ (s.world.conns c)).resolve_left changed

theorem effect_answers {c : ConnID} {a : Action σ} {inbox : Inbox σ} {conn : Conn.State}
    (before : replies (s.world.conns c).flow = (s.inbox c).served.filterMap (response rt svc))
    (kept : drops rt svc node s a = false) (effect : Effect rt svc node cfg s c a inbox conn) :
    replies conn.flow = inbox.served.filterMap (response rt svc) := by
  cases effect with
  | same _ => exact before
  | receive _ => exact before
  | hangUp => exact before
  | @read frame rest now fails _ decoded =>
    rw [dispatch_answers decoded kept, before, List.filterMap_append]
    cases answered : response rt svc ⟨frame, s.world.table.uid c, s.world.service, now⟩ <;> simp [answered]
  | stop _ _ _ => exact before
  | other elsewhere moved => rw [step_replies elsewhere moved, before]

theorem run_answers {as : List (Action σ)} (unborn : ∀ c, s.world.table.life c = .fresh)
    (kept : Meets (step rt svc node cfg) (fun s a => drops rt svc node s a = false) s as)
    (taken : run (step rt svc node cfg) s as = some t) (c : ConnID) (born : t.world.table.life c ≠ .fresh) :
    replies (t.world.conns c).flow = (t.inbox c).served.filterMap (response rt svc) := by
  have always := run_invariant_meets
    (fun s => s.world.table.life c = .fresh ∨
      replies (s.world.conns c).flow = (s.inbox c).served.filterMap (response rt svc))
    ?_ (Or.inl (unborn c)) kept taken
  · exact always.resolve_left born
  · intro s a t before kept taken
    rcases step_effect taken c with ⟨_, fresh⟩ | ⟨slots, puts, writePos, rfl, _, inbox, conn⟩ | ⟨born, _, effect⟩
    · exact Or.inl fresh
    · rw [inbox, conn]
      exact Or.inr rfl
    · exact Or.inr (effect_answers (before.resolve_left born) kept effect)

end Answered

def twoRequests : Bytes :=
  [0, 0, 0, 14, 8, 233, 7, 16, 1, 26, 7, 10, 5, 117, 105, 100, 58, 55, 0, 0, 0, 5, 8, 185, 23, 16, 2]

def beginning : State Handlers.Backend := ⟨listening, fun _ => .new⟩

/- They arrive in two parts, and a broadcast is delivered with the responses. -/
def talk : List (Action Handlers.Backend) :=
  [.accept 1 (fun _ => none) [] 0, .receive 1 (twoRequests.take 21), .read 1 5 false,
    .receive 1 (twoRequests.drop 21), .other 1 (.put Conn.hello), .read 1 6 false, .hangUp 1, .stop 1,
    .other 1 (.store 0), .other 1 .consume, .other 1 .consume, .other 1 .consume, .other 1 (.take .respCh),
    .other 1 (.take .respCh), .other 1 .proceed, .other 1 (.take .pushCh), .other 1 .proceed, .other 1 (.write none)]

def talkService : Service Handlers.Backend := appService Service.permissive (Handlers.onlyLong 0) 5

def talkStep : State Handlers.Backend → Action Handlers.Backend → Option (State Handlers.Backend) :=
  step someCodecs talkService "node" Conn.appConfig

theorem talk_unborn (c : ConnID) : beginning.world.table.life c = .fresh := rfl

theorem talk_opens : ∀ a ∈ talk, Opens someCodecs.protos a := by
  intro a member
  simp only [talk, List.mem_cons, List.not_mem_nil, or_false] at member
  rcases member with rfl | member
  · exact ⟨fun _ _ held => by contradiction, fun _ held => by contradiction⟩
  · rcases member with rfl | rfl | rfl | rfl | rfl | rfl | rfl | rfl | rfl | rfl | rfl | rfl | rfl | rfl | rfl |
      rfl | rfl <;> trivial

theorem talk_ends : ∃ t, run talkStep beginning talk = some t ∧ t.world.table.life 1 ≠ .fresh ∧
    (t.inbox 1).stopped = true ∧ (t.inbox 1).frames.length = 2 := by
  have done : ((run talkStep beginning talk).map fun t =>
      (decide (t.world.table.life 1 ≠ .fresh), (t.inbox 1).stopped, (t.inbox 1).frames.length)) =
      some (true, true, 2) := by decide +kernel
  obtain ⟨t, taken, seen⟩ := Option.map_eq_some_iff.mp done
  simp only [Prod.mk.injEq, decide_eq_true_eq] at seen
  exact ⟨t, taken, seen⟩

section Main

variable {σ : Type}

/-- However the bytes of a client are cut up as they arrive, and whatever happens meanwhile, the
frames that were dispatched are the first ones of its bytes, in their order and once each; the
read loop stops only behind the last of them, at the end of the bytes or before a frame that no
more bytes could complete. -/
theorem frames_dispatched (rt : Codecs) (svc : Service σ) (node : String) (cfg : Conn.Config) (s t : State σ)
    (as : List (Action σ)) (unborn : ∀ c, s.world.table.life c = .fresh) (opens : ∀ a ∈ as, Opens rt.protos a)
    (taken : run (step rt svc node cfg) s as = some t) (c : ConnID) (born : t.world.table.life c ≠ .fresh) :
    (t.inbox c).frames <+: (decodeAll rt.protos.frame (t.inbox c).got).1 ∧
    ((t.inbox c).stopped = true → ∃ e, decodeAll rt.protos.frame (t.inbox c).got = ((t.inbox c).frames, some e) ∧
      (e.isShort = true → (t.inbox c).ended = true)) := by
  have inv := (run_inv unborn opens taken c).resolve_left born
  refine ⟨decode_incremental.readN_begins inv.read, ?_⟩
  intro stopped
  obtain ⟨e, failed, final⟩ := inv.finished stopped
  exact ⟨e, decode_incremental.readN_all inv.read failed, final⟩

theorem frames_dispatched_talk : ∃ t e, run talkStep beginning talk = some t ∧ (t.inbox 1).frames.length = 2 ∧
    decodeAll frameProto (t.inbox 1).got = ((t.inbox 1).frames, some e) := by
  obtain ⟨t, taken, born, stopped, two⟩ := talk_ends
  obtain ⟨e, all, _⟩ := (frames_dispatched someCodecs talkService "node" Conn.appConfig beginning t talk talk_unborn
    talk_opens taken 1 born).2 stopped
  exact ⟨t, e, taken, two, all⟩

theorem run_responses {rt : Codecs} (cmd : CmdWritten rt.protos) (tagged : Tagged rt.protos) {svc : Service σ}
    {node : String} {cfg : Conn.Config} {s t : State σ} {as : List (Action σ)}
    (unborn : ∀ c, s.world.table.life c = .fresh) (opens : ∀ a ∈ as, Opens rt.protos a)
    (taken : run (step rt svc node cfg) s as = some t) (c : ConnID) (born : t.world.table.life c ≠ .fresh) :
    ((decodeAll rt.protos.frame (t.world.conns c).flow.stream).1.filter (·.cmdId ≠ cmdWorldNotify)).Sublist
      ((t.inbox c).served.filterMap (response rt svc)) := by
  have inv := (run_inv unborn opens taken c).resolve_left born
  exact (read_responses cmd tagged inv.written inv.traffic).sublist.trans inv.replied

/-- In every run of the process, what a client reads are notifications and, in the order of its
requests, the responses to them: one at most to each, as the handler made it, with its command and
sequence number. -/
theorem responses_in_order (rt : Codecs) (cmd : CmdWritten rt.protos) (tagged : Tagged rt.protos) (svc : Service σ)
    (node : String) (cfg : Conn.Config) (s t : State σ) (as : List (Action σ))
    (unborn : ∀ c, s.world.table.life c = .fresh) (opens : ∀ a ∈ as, Opens rt.protos a)
    (taken : run (step rt svc node cfg) s as = some t) (c : ConnID) (born : t.world.table.life c ≠ .fresh) :
    ((decodeAll rt.protos.frame (t.world.conns c).flow.stream).1.filter (·.cmdId ≠ cmdWorldNotify)).Sublist
      ((t.inbox c).served.filterMap (response rt svc)) ∧
    ((t.inbox c).served.filterMap (response rt svc)).map keyOf <+:
      (decodeAll rt.protos.frame (t.inbox c).got).1.filterMap expected := by
  refine ⟨run_responses cmd tagged unborn opens taken c born, ?_⟩
  have inv := (run_inv unborn opens taken c).resolve_left born
  have begins := decode_incremental.readN_begins inv.read
  rw [responses_keys]
  exact begins.filterMap expected

theorem responses_in_order_talk : ∃ t, run talkStep beginning talk = some t ∧
    ((decodeAll someCodecs.protos.frame (t.world.conns 1).flow.stream).1.filter (·.cmdId ≠ cmdWorldNotify)).Sublist
      ((t.inbox 1).served.filterMap (response someCodecs talkService)) := by
  obtain ⟨t, taken, born, _⟩ := talk_ends
  exact ⟨t, taken, (responses_in_order someCodecs protobuf_cmdWritten protobuf_tagged talkService "node" Conn.appConfig
    beginning t talk talk_unborn talk_opens taken 1 born).1⟩

/-- Where no response is dropped, nor a push of the delivery engine written, a client whose
responses are all on the wire reads one to each of its requests. -/
theorem every_request_answered (rt : Codecs) (cmd : CmdWritten rt.protos) (svc : Service σ) (node : String)
    (cfg : Conn.Config) (s t : State σ) (as : List (Action σ)) (unborn : ∀ c, s.world.table.life c = .fresh)
    (opens : ∀ a ∈ as, Opens rt.protos a) (taken : run (step rt svc node cfg) s as = some t)
    (kept : Meets (step rt svc node cfg) (fun s a => drops rt svc node s a = false) s as) (c : ConnID)
    (born : t.world.table.life c ≠ .fresh) (up : (t.world.conns c).flow.up = true)
    (unsent : (t.world.conns c).flow.chan .respCh = []) (flushed : (t.world.conns c).flow.buf = [])
    (other : ∀ e ∈ (t.world.conns c).flow.wrote, e.2.frame.cmdId ≠ cmdPushNewMessage)
    (stopped : (t.inbox c).stopped = true) :
    (decodeAll rt.protos.frame (t.world.conns c).flow.stream).1.filter (·.cmdId ≠ cmdWorldNotify) =
      (t.inbox c).served.filterMap (response rt svc) ∧
    ((t.inbox c).served.filterMap (response rt svc)).map keyOf =
      (decodeAll rt.protos.frame (t.inbox c).got).1.filterMap expected := by
  have inv := (run_inv unborn opens taken c).resolve_left born
  have answered := run_answers unborn kept taken c born
  obtain ⟨e, failed, _⟩ := inv.finished stopped
  have all : decodeAll rt.protos.frame (t.inbox c).got = ((t.inbox c).frames, some e) :=
    decode_incremental.readN_all inv.read failed
  refine ⟨?_, ?_⟩
  · rw [read_all_responses cmd inv.written inv.traffic up unsent flushed other, answered]
  · rw [responses_keys, all]
    rfl

theorem every_request_answered_talk : ∃ t, run talkStep beginning talk = some t ∧
    ((decodeAll someCodecs.protos.frame (t.world.conns 1).flow.stream).1.filter (·.cmdId ≠ cmdWorldNotify)).map keyOf =
      [(1002, 1), (3002, 2)] := by
  have done : ((run talkStep beginning talk).map fun t => decide ((t.world.conns 1).flow.up = true ∧
      (t.world.conns 1).flow.chan .respCh = [] ∧ (t.world.conns 1).flow.buf = [] ∧
      (∀ e ∈ (t.world.conns 1).flow.wrote, e.2.frame.cmdId ≠ cmdPushNewMessage) ∧
      (decodeAll someCodecs.protos.frame (t.inbox 1).got).1.filterMap expected = [(1002, 1), (3002, 2)])) =
        some true := by
    decide +kernel
  obtain ⟨t, taken, born, stopped, _⟩ := talk_ends
  rw [taken, Option.map_some, Option.some.injEq, decide_eq_true_eq] at done
  obtain ⟨up, unsent, flushed, other, asked⟩ := done
  obtain ⟨read, keys⟩ := every_request_answered someCodecs protobuf_cmdWritten talkService "node" Conn.appConfig
    beginning t talk talk_unborn talk_opens taken (by decide +kernel) 1 born up unsent flushed other stopped
  exact ⟨t, taken, by rw [read, keys, asked]⟩

end Main

end GameIM.Gateway.Session
