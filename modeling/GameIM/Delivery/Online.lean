import GameIM.Delivery.Engine

/-! The events that lead up to a delivery: connections come, authenticate and go, presence
records are written and expire, users join and leave channels. Routing goes by presence,
pushing by the connection table, and no event updates both. -/
namespace GameIM.Delivery.Online
open Lib Api Store Gateway

/-- `authing` is the uid of an authentication between BindUser and SetOnline. -/
structure State where
  world : World
  authing : ConnID → Option Int

structure Config where
  nodeID : String
  sendChanSize : Nat
  protos : Protos

inductive Action where
  | tick (ms : Nat)
  | register (c : ConnID)
  | bind (uid : Int) (c : ConnID)
  | setOnline (c : ConnID) (fails : Bool)
  | close (c : ConnID)
  | createChannel (channelID : String) (channelType : ChannelType)
  | deleteChannel (channelID : String)
  | join (uid : Int) (channelID : String)
  | leave (uid : Int) (channelID : String)
  | deliver (msg : ImMessage) (faults : Faults)
  | write (c : ConnID)

def start : State where
  world :=
    { now := 0
      mgr := .new
      pushCh := fun _ => []
      presence := fun _ => none
      channels := fun _ => none
      members := fun _ => []
      offline := []
      published := []
      dropped := [] }
  authing := fun _ => none

def State.setMgr (s : State) (m : ConnManager) : State := { s with world := { s.world with mgr := m } }

/- JoinChannel answers that the channel is not found if it has no live state. -/
def join (w : World) (uid : Int) (channelID : String) : World :=
  if w.getChannelState channelID = none then w
  else if uid ∈ w.members channelID then w
  else { w with members := Function.update w.members channelID (w.members channelID ++ [uid]) }

def step (cfg : Config) (s : State) : Action → Option State
  | .tick ms => some { s with world := { s.world with now := s.world.now + ms } }
  | .register c => (ConnOps.step s.world.mgr (.register c)).map s.setMgr
  | .bind uid c =>
    if s.authing c = none then
      (ConnOps.step s.world.mgr (.bind uid c)).map fun m =>
        { s.setMgr m with authing := Function.update s.authing c (some uid) }
    else none
  | .setOnline c fails => match s.authing c with
    | none => none
    | some uid => some {
        world := if fails then s.world else s.world.setPresence uid ⟨cfg.nodeID, c, .online, s.world.now⟩
        authing := Function.update s.authing c none }
  | .close c => (ConnOps.step s.world.mgr (.close c)).map s.setMgr
  | .createChannel channelID channelType => some { s with world := { s.world with
      channels := Function.update s.world.channels channelID
        (some ⟨channelType, s.world.now + 1000 * channelStateTTL⟩) } }
  | .deleteChannel channelID => some { s with world := { s.world with
      channels := Function.update s.world.channels channelID none } }
  | .join uid channelID => some { s with world := join s.world uid channelID }
  | .leave uid channelID => some { s with world := { s.world with
      members := Function.update s.world.members channelID
        ((s.world.members channelID).filter (· ≠ uid)) } }
  | .deliver msg faults => match deliver cfg.protos cfg.sendChanSize s.world msg faults with
    | .error _ => some s
    | .ok w => some { s with world := w }
  | .write c => match s.world.pushCh c with
    | [] => none
    | _ :: rest => some { s with world := { s.world with
        pushCh := Function.update s.world.pushCh c rest } }

inductive Effect (cfg : Config) (s : State) : Action → State → Prop where
  | tick {ms t} : t.world.now = s.world.now + ms → t.world.mgr = s.world.mgr →
      t.world.presence = s.world.presence → Effect cfg s (.tick ms) t
  | conn {a op t} : ConnOps.step s.world.mgr op = some t.world.mgr →
      t.world.now = s.world.now → t.world.presence = s.world.presence →
      (∀ c, op = .close c → a = .close c) → (∀ uid c, op = .bind uid c → a = .bind uid c) →
      Effect cfg s a t
  | setOnline {c uid t} : s.authing c = some uid → t.world.mgr = s.world.mgr →
      t.world.now = s.world.now →
      t.world.presence = (s.world.setPresence uid ⟨cfg.nodeID, c, .online, s.world.now⟩).presence →
      Effect cfg s (.setOnline c false) t
  | other {a t} : t.world.now = s.world.now → t.world.mgr = s.world.mgr →
      t.world.presence = s.world.presence → Effect cfg s a t

theorem join_fields (w : World) (uid : Int) (channelID : String) :
    (join w uid channelID).now = w.now ∧ (join w uid channelID).mgr = w.mgr ∧
      (join w uid channelID).presence = w.presence := by
  unfold join
  split
  · exact ⟨rfl, rfl, rfl⟩
  · split
    · exact ⟨rfl, rfl, rfl⟩
    · exact ⟨rfl, rfl, rfl⟩

theorem step_effect {cfg : Config} {s t : State} {a : Action} (taken : step cfg s a = some t) :
    Effect cfg s a t := by
  cases a with
  | tick ms =>
    cases Option.some.inj taken
    exact .tick rfl rfl rfl
  | register c =>
    obtain ⟨m, done, rfl⟩ := Option.map_eq_some_iff.mp taken
    exact .conn done rfl rfl (by simp) (by simp)
  | bind uid c =>
    simp only [step] at taken
    split at taken
    · obtain ⟨m, done, rfl⟩ := Option.map_eq_some_iff.mp taken
      exact .conn done rfl rfl (by simp) (by simp)
    · contradiction
  | setOnline c fails =>
    simp only [step] at taken
    split at taken
    · contradiction
    · rename_i uid pending
      cases Option.some.inj taken
      cases fails with
      | true => exact .other rfl rfl rfl
      | false => exact .setOnline pending rfl rfl rfl
  | close c =>
    obtain ⟨m, done, rfl⟩ := Option.map_eq_some_iff.mp taken
    exact .conn done rfl rfl (by simp) (by simp)
  | createChannel channelID channelType =>
    cases Option.some.inj taken
    exact .other rfl rfl rfl
  | deleteChannel channelID =>
    cases Option.some.inj taken
    exact .other rfl rfl rfl
  | join uid channelID =>
    cases Option.some.inj taken
    have ⟨now, mgr, presence⟩ := join_fields s.world uid channelID
    exact .other now mgr presence
  | leave uid channelID =>
    cases Option.some.inj taken
    exact .other rfl rfl rfl
  | deliver msg faults =>
    simp only [step] at taken
    split at taken
    · cases Option.some.inj taken
      exact .other rfl rfl rfl
    · rename_i w done
      cases Option.some.inj taken
      have grows := deliver_grows done
      exact .other grows.now grows.mgr grows.presence
  | write c =>
    simp only [step] at taken
    split at taken
    · contradiction
    · cases Option.some.inj taken
      exact .other rfl rfl rfl

/-- The event keeps presence and connections in line: no connection is closed while its
user's presence is live or authenticates as a second user, and presence is written while
the connection is still the one of its user. -/
def tended (s : State) : Action → Bool
  | .close c => s.world.mgr.life c ≠ .open ∨ isOnline s.world (s.world.mgr.uid c) = false
  | .bind uid c => ConnOps.sameUser s.world.mgr (.bind uid c)
  | .setOnline c fails => match s.authing c with
    | none => true
    | some uid => fails ∨ s.world.mgr.getByUID uid = some c
  | _ => true

structure Inv (s : State) : Prop where
  exact : Exact s.world.mgr
  tidy : Tidy s.world.mgr
  connected : ∀ uid, isOnline s.world uid = true → Connected s.world uid

section Inv

variable {cfg : Config} {s t : State} {a : Action}

theorem isOnline_congr {w v : World} {uid : Int} (now : w.now = v.now)
    (presence : w.presence uid = v.presence uid) : isOnline w uid = isOnline v uid := by
  simp only [isOnline, World.getPresence, now, presence]

theorem isOnline_later {w v : World} {uid : Int} (later : v.now ≤ w.now)
    (presence : w.presence = v.presence) (status : isOnline w uid = true) : isOnline v uid = true := by
  simp only [isOnline, World.getPresence, presence] at status ⊢
  cases held : v.presence uid with
  | none => simp [held] at status
  | some e =>
    by_cases live : w.now < e.deadline
    · have before : v.now < e.deadline := Nat.lt_of_le_of_lt later live
      simpa [held, live, before] using status
    · simp [held, live] at status

theorem connected_iff {w : World} {uid : Int} (exact : Exact w.mgr) :
    Connected w uid ↔ ∃ c, w.mgr.getByUID uid = some c := by
  constructor
  · rintro ⟨c, held, _⟩
    exact ⟨c, held⟩
  · rintro ⟨c, held⟩
    have ⟨live, _, named⟩ := exact.entry uid c held
    exact ⟨c, held, live, named⟩

theorem entry_kept {m n : ConnManager} {op : ConnOps.Action} {uid : Int} {c : ConnID} (exact : Exact m)
    (done : ConnOps.step m op = some n) (held : m.getByUID uid = some c)
    (kept : ∀ d, op = .close d → m.life d ≠ .open ∨ m.uid d ≠ uid) :
    ∃ d, n.getByUID uid = some d := by
  cases ConnOps.step_effect done with
  | register => exact ⟨c, held⟩
  | @bind u d positive =>
    by_cases here : uid = u
    · exact ⟨d, by rw [here]; exact Function.update_self _ _ _⟩
    · refine ⟨c, ?_⟩
      unfold ConnManager.getByUID
      rw [bindUser_entry_ne exact (Int.ne_of_gt positive) here]
      exact held
  | @close d =>
    refine ⟨c, ?_⟩
    unfold ConnManager.getByUID
    rw [close_userConns, if_neg]
    · exact held
    · rintro ⟨live, here, _⟩
      rcases kept d rfl with shut | other
      · exact shut live
      · exact other here.symm

theorem Inv.sameTable (inv : Inv s) (mgr : t.world.mgr = s.world.mgr)
    (online : ∀ uid, isOnline t.world uid = true → Connected s.world uid) : Inv t := by
  refine ⟨mgr ▸ inv.exact, mgr ▸ inv.tidy, ?_⟩
  intro uid status
  unfold Connected
  rw [mgr]
  exact online uid status

theorem Inv.operated (inv : Inv s) {op : ConnOps.Action}
    (done : ConnOps.step s.world.mgr op = some t.world.mgr)
    (same : ConnOps.sameUser s.world.mgr op = true)
    (online : ∀ uid, isOnline t.world uid = true → isOnline s.world uid = true)
    (closes : ∀ d, op = .close d →
      s.world.mgr.life d ≠ .open ∨ isOnline s.world (s.world.mgr.uid d) = false) : Inv t := by
  have exact := ConnOps.step_exact inv.exact inv.tidy same done
  refine ⟨exact, ConnOps.step_tidy inv.tidy done, ?_⟩
  intro uid status
  have before := online uid status
  obtain ⟨c, held, _⟩ := inv.connected uid before
  apply (connected_iff exact).mpr
  apply entry_kept inv.exact done held
  intro d closing
  rcases closes d closing with shut | offline
  · exact Or.inl shut
  · refine Or.inr ?_
    rintro rfl
    rw [before] at offline
    contradiction

theorem step_inv (inv : Inv s) (ok : tended s a = true) (taken : step cfg s a = some t) : Inv t := by
  cases step_effect taken with
  | tick now mgr presence =>
    apply inv.sameTable mgr
    intro uid status
    exact inv.connected uid (isOnline_later (by omega) presence status)
  | @conn _ op _ done now presence closes binds =>
    have same : ConnOps.sameUser s.world.mgr op = true := by
      cases op with
      | register c => rfl
      | close c => rfl
      | bind uid c =>
        rw [binds uid c rfl] at ok
        exact ok
    apply inv.operated done same
    · intro uid status
      rw [isOnline_congr now (congrFun presence uid)] at status
      exact status
    · intro d closing
      rw [closes d closing] at ok
      simpa [tended] using ok
  | @setOnline c uid _ pending mgr now presence =>
    apply inv.sameTable mgr
    intro v status
    by_cases here : v = uid
    · subst here
      have mine : s.world.mgr.getByUID v = some c := by simpa [tended, pending] using ok
      exact (connected_iff inv.exact).mpr ⟨c, mine⟩
    · apply inv.connected v
      rw [← isOnline_congr now _]
      · exact status
      · rw [presence]
        exact Function.update_of_ne here _ _
  | other now mgr presence =>
    apply inv.sameTable mgr
    intro uid status
    rw [isOnline_congr now (congrFun presence uid)] at status
    exact inv.connected uid status

end Inv

theorem start_inv : Inv start :=
  ⟨ConnOps.new_exact, ConnOps.new_tidy, fun _ status => by simp [isOnline, World.getPresence, start] at status⟩

theorem tended_connected {cfg : Config} {as : List Action} {s : State}
    (guarded : Meets (step cfg) (fun s a => tended s a = true) start as)
    (taken : run (step cfg) start as = some s) {uid : Int} (status : isOnline s.world uid = true) :
    Connected s.world uid :=
  (run_invariant_meets Inv (fun _ _ _ inv ok t => step_inv inv ok t) start_inv guarded taken).connected
    uid status

/-- In every state of a tended run, and in every other reachable state in which the
members whose presence says online have an open connection of their own in the table, a
delivery on a member channel that returns nil, with no store error and no full push
channel, leaves nobody but the sender without the message. -/
theorem nobody_left_out (cfg : Config) (as : List Action) (s : State) (msg : ImMessage) (faults : Faults)
    (w : World) (taken : run (step cfg) start as = some s)
    (memberChannel : msg.channelType ≠ .world ∧ msg.channelType ≠ .system)
    (stored : ∀ uid ∈ s.world.getMembers msg.channelId, faults.enqueue uid = false)
    (delivered : deliver cfg.protos cfg.sendChanSize s.world msg faults = .ok w)
    (notFull : w.dropped = s.world.dropped)
    (aligned : Meets (step cfg) (fun s a => tended s a = true) start as ∨
      ∀ uid ∈ s.world.getMembers msg.channelId, isSender msg uid = false →
        isOnline s.world uid = true → Connected s.world uid) :
    ∀ uid ∈ s.world.getMembers msg.channelId, isSender msg uid = false → Reached cfg.protos w msg uid := by
  apply deliver_reaches memberChannel stored delivered notFull
  intro uid mem other status
  rcases aligned with guarded | connected
  · exact tended_connected guarded taken status
  · exact connected uid mem other status

def appConfig : Config := ⟨"gw-1", 256, protobuf⟩

def fromOne : ImMessage where
  msgId := 7
  channelId := "alliance:1"
  channelType := .alliance
  sender := some { senderId := 1 }
  content := utf8 "hi"
  msgType := .text
  msgParam := []
  sendTime := 0
  clientMsgId := "m-1"

/- User 2 logs in; users 1 and 2 are in one alliance. -/
def gathered : List Action :=
  [.register 1, .bind 2 1, .setOnline 1 false, .createChannel "alliance:1" .alliance,
    .join 1 "alliance:1", .join 2 "alliance:1", .tick 1000]

theorem nobody_left_out_gathered :
    ∃ s w, run (step appConfig) start gathered = some s ∧
      deliver appConfig.protos appConfig.sendChanSize s.world fromOne noFaults = .ok w ∧
      Reached appConfig.protos w fromOne 2 := by
  have done : ((run (step appConfig) start gathered).bind fun s =>
      (deliver appConfig.protos appConfig.sendChanSize s.world fromOne noFaults).toOption.map fun w =>
        (w.dropped, s.world.dropped, s.world.getMembers fromOne.channelId)) = some ([], [], [1, 2]) := by
    decide +kernel
  obtain ⟨s, taken, more⟩ := Option.bind_eq_some_iff.mp done
  cases delivered : deliver appConfig.protos appConfig.sendChanSize s.world fromOne noFaults with
  | error e => simp [delivered, Except.toOption] at more
  | ok w =>
    simp only [delivered, Except.toOption, Option.map_some, Option.some.injEq, Prod.mk.injEq] at more
    obtain ⟨dropped, before, members⟩ := more
    have member : 2 ∈ s.world.getMembers fromOne.channelId := by
      rw [members]
      decide
    have reached := nobody_left_out appConfig gathered s fromOne noFaults w taken (by decide)
      (fun _ _ => rfl) delivered (dropped.trans before.symm) (Or.inl (by decide)) 2 member rfl
    exact ⟨s, w, taken, delivered, reached⟩

/-- User 2's connection closes a second after the login. The delivery to their alliance
returns nil and leaves them neither a frame nor a document. -/
theorem closed_member_left_out :
    ∃ s w, run (step appConfig) start (gathered ++ [.close 1]) = some s ∧
      deliver appConfig.protos appConfig.sendChanSize s.world fromOne noFaults = .ok w ∧
      2 ∈ s.world.getMembers fromOne.channelId ∧ isSender fromOne 2 = false ∧
      w.dropped = s.world.dropped ∧ ¬ Reached appConfig.protos w fromOne 2 := by
  refine ⟨_, _, rfl, rfl, by decide, by decide, rfl, ?_⟩
  rintro (⟨c, push, _, _, _, mem⟩ | ⟨doc, mem, _⟩)
  · contradiction
  · contradiction

end GameIM.Delivery.Online
