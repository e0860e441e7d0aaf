import GameIM.Delivery.Engine

/-! Engine.Deliver over the interfaces it is built on: any member list, any presence map,
and any Pusher and OfflineEnqueuer, whose calls may each fail. -/
namespace GameIM.Delivery.Calls
open Lib Api Store Gateway

inductive Call where
  | publish (topic : Topic) (msg : ImMessage)
  | pushToUID (uid : Int) (data : Packet)
  | enqueue (uid : Int) (msg : ImMessage)
  deriving DecidableEq

structure PresenceInfo where
  uid : Int
  gatewayNodeID : String
  connID : String
  status : String
  deriving DecidableEq, Repr

/-- MemberGetter, PresenceGetter, and the Pusher, OfflineEnqueuer and MessageBus behind
`perform`, on a state of theirs; an error that is nil is `none`. -/
structure Services (S E : Type) where
  getMembers : S → String → Except E (List Int)
  batchGetPresence : S → List Int → Except E (Int → Option PresenceInfo)
  perform : S → Call → Option E × S
  protos : Protos
  marshalError : E

/-- `calls` records the calls that were made, whether or not they failed. -/
structure Run (S : Type) where
  state : S
  calls : List Call

variable {S E : Type}

def Run.perform (r : Run S) (services : Services S E) (call : Call) : Option E × Run S :=
  let result := services.perform r.state call
  (result.1, ⟨result.2, r.calls ++ [call]⟩)

/- One member's turn. An error of the call is logged. -/
def routeMember (services : Services S E) (presenceMap : Int → Option PresenceInfo) (msg : ImMessage)
    (pushData : Packet) (r : Run S) (uid : Int) : Run S :=
  if isSender msg uid then r
  else match presenceMap uid with
    | none => (r.perform services (.enqueue uid msg)).2
    | some p =>
      if p.status ≠ "online" then (r.perform services (.enqueue uid msg)).2
      else (r.perform services (.pushToUID uid pushData)).2

def deliver (services : Services S E) (s : S) (msg : ImMessage) : Option E × Run S :=
  let r : Run S := ⟨s, []⟩
  if msg.channelType = .world then r.perform services (.publish .worldBroadcast msg)
  else if msg.channelType = .system then r.perform services (.publish .systemBroadcast msg)
  else match services.getMembers s msg.channelId with
    | .error e => (some e, r)
    | .ok members =>
      if members.isEmpty then (none, r)
      else match services.batchGetPresence s members with
        | .error e => (some e, r)
        | .ok presenceMap => match marshalPush services.protos msg with
          | none => (some services.marshalError, r)
          | some pushData => (none, members.foldl (routeMember services presenceMap msg pushData) r)

def Call.uid : Call → Option Int
  | .publish _ _ => none
  | .pushToUID uid _ => some uid
  | .enqueue uid _ => some uid

def online (presenceMap : Int → Option PresenceInfo) (uid : Int) : Bool :=
  (presenceMap uid).any (·.status = "online")

def action (presenceMap : Int → Option PresenceInfo) (msg : ImMessage) (pushData : Packet) (uid : Int) : Call :=
  if online presenceMap uid then .pushToUID uid pushData else .enqueue uid msg

section Deliver

variable {services : Services S E} {presenceMap : Int → Option PresenceInfo} {msg : ImMessage}
  {pushData : Packet} {s : S}

theorem routeMember_calls (r : Run S) (uid : Int) :
    (routeMember services presenceMap msg pushData r uid).calls =
      r.calls ++ if isSender msg uid then [] else [action presenceMap msg pushData uid] := by
  unfold routeMember
  by_cases own : isSender msg uid = true
  · simp [own]
  · rw [if_neg own, if_neg own]
    cases held : presenceMap uid with
    | none => simp [action, online, held, Run.perform]
    | some p =>
      by_cases status : p.status = "online"
      · simp [action, online, held, status, Run.perform]
      · simp [action, online, held, status, Run.perform]

theorem routes_calls (members : List Int) (r : Run S) :
    (members.foldl (routeMember services presenceMap msg pushData) r).calls =
      r.calls ++ (members.filter fun uid => !isSender msg uid).map (action presenceMap msg pushData) := by
  induction members generalizing r with
  | nil => simp
  | cons uid rest ih =>
    rw [List.foldl_cons, ih, routeMember_calls]
    cases own : isSender msg uid with
    | true => simp [own]
    | false => simp [own]

@[simp] theorem action_uid (uid : Int) : (action presenceMap msg pushData uid).uid = some uid := by
  unfold action
  split
  · rfl
  · rfl

theorem actions_of_user {uids : List Int} (nodup : uids.Nodup) (uid : Int) :
    (uids.map (action presenceMap msg pushData)).filter (fun call => call.uid = some uid) =
      if uid ∈ uids then [action presenceMap msg pushData uid] else [] := by
  induction uids with
  | nil => rfl
  | cons u rest ih =>
    obtain ⟨once, others⟩ := List.nodup_cons.mp nodup
    rw [List.map_cons, List.filter_cons, ih others]
    by_cases here : u = uid
    · subst here
      simp [once]
    · simp [here, Ne.symm here]

end Deliver

/-- For a message of a channel with members: an error in fetching the members or their
presence or in marshalling is returned with nothing done. Otherwise the calls are one for
each member but the sender, in the order of the list, whatever any of the calls returns: a
push of the frame if the presence map has the member online, an Enqueue if not. -/
theorem deliver_one_call_each (services : Services S E) (s : S) (msg : ImMessage)
    (notWorld : msg.channelType ≠ .world) (notSystem : msg.channelType ≠ .system) :
    (∀ e, services.getMembers s msg.channelId = .error e → deliver services s msg = (some e, ⟨s, []⟩)) ∧
    (services.getMembers s msg.channelId = .ok [] → deliver services s msg = (none, ⟨s, []⟩)) ∧
    ∀ members, services.getMembers s msg.channelId = .ok members → members ≠ [] → members.Nodup →
      (∀ e, services.batchGetPresence s members = .error e → deliver services s msg = (some e, ⟨s, []⟩)) ∧
      ∀ presenceMap, services.batchGetPresence s members = .ok presenceMap →
        (marshalPush services.protos msg = none →
          deliver services s msg = (some services.marshalError, ⟨s, []⟩)) ∧
        ∀ pushData, marshalPush services.protos msg = some pushData →
          (deliver services s msg).1 = none ∧
          (deliver services s msg).2.calls =
            (members.filter fun uid => !isSender msg uid).map (action presenceMap msg pushData) ∧
          ∀ uid, (deliver services s msg).2.calls.filter (fun call => call.uid = some uid) =
            if uid ∈ members ∧ isSender msg uid = false then
              [if online presenceMap uid then .pushToUID uid pushData else .enqueue uid msg]
            else [] := by
  refine ⟨?_, ?_, ?_⟩
  · intro e failed
    simp only [deliver, if_neg notWorld, if_neg notSystem, failed]
  · intro nobody
    simp [deliver, notWorld, notSystem, nobody]
  · intro members found some nodup
    have filled : members.isEmpty = false := List.isEmpty_eq_false_iff.mpr some
    refine ⟨?_, ?_⟩
    · intro e failed
      simp [deliver, notWorld, notSystem, found, filled, failed]
    · intro presenceMap present
      refine ⟨?_, ?_⟩
      · intro failed
        simp [deliver, notWorld, notSystem, found, filled, present, failed]
      · intro pushData made
        have ran : deliver services s msg =
            (none, members.foldl (routeMember services presenceMap msg pushData) ⟨s, []⟩) := by
          simp [deliver, notWorld, notSystem, found, filled, present, made]
        have calls : (deliver services s msg).2.calls =
            (members.filter fun uid => !isSender msg uid).map (action presenceMap msg pushData) := by
          rw [ran, routes_calls, List.nil_append]
        refine ⟨by rw [ran], calls, ?_⟩
        intro uid
        rw [calls, actions_of_user (nodup.filter _)]
        simp only [List.mem_filter, Bool.not_eq_true', action]

/- A channel of three members beside the sender, one of them online; every call fails. -/
def failing : Services Unit String where
  getMembers := fun _ _ => .ok [1, 2, 3, 4]
  batchGetPresence := fun _ _ => .ok fun uid =>
    if uid = 2 then some ⟨2, "gw-1", "c", "online"⟩
    else if uid = 3 then some ⟨3, "gw-1", "d", "away"⟩ else none
  perform := fun _ _ => (some "refused", ())
  protos := protobuf
  marshalError := "marshal"

def hello : ImMessage where
  msgId := 7
  channelId := "alliance:1"
  channelType := .alliance
  sender := some { senderId := 1 }
  content := utf8 "hi"
  msgType := .text
  msgParam := []
  sendTime := 0
  clientMsgId := ""

theorem deliver_hello_failing : ∃ pushData, marshalPush protobuf hello = some pushData ∧
    (deliver failing () hello).1 = none ∧
    (deliver failing () hello).2.calls = [.pushToUID 2 pushData, .enqueue 3 hello, .enqueue 4 hello] ∧
    (deliver failing () hello).2.calls.filter (fun call => call.uid = some 1) = [] := by
  have made : (marshalPush protobuf hello).isSome := by decide +kernel
  obtain ⟨pushData, made⟩ := Option.isSome_iff_exists.mp made
  obtain ⟨ok, calls, each⟩ := ((deliver_one_call_each failing () hello (by decide) (by decide)).2.2
    [1, 2, 3, 4] rfl (by decide) (by decide)).2 _ rfl |>.2 pushData made
  exact ⟨pushData, made, ok, calls, each 1⟩

/- The services of the application, on the world that they share. -/
section World

variable {protos : Protos} {size : Nat} {faults : Faults}

inductive Failure where
  | deliver (e : DeliverError)
  | enqueue
  deriving DecidableEq, Repr

def Status.text : Status → String
  | .online => "online"
  | .offline => "offline"

def PresenceInfo.ofData (uid : Int) (data : PresenceData) : PresenceInfo :=
  ⟨uid, data.gatewayNodeID, toString data.connID, Status.text data.status⟩

def enqueueResult (protos : Protos) (msg : ImMessage) (insertFails : Bool) : Option Failure :=
  if msg.channelType = .world then none
  else match protos.message msg with
    | none => some .enqueue
    | some _ => if insertFails then some .enqueue else none

/- PushToUID and Publish return nil in any case. -/
def performOn (protos : Protos) (size : Nat) (faults : Faults) (w : World) : Call → Option Failure × World
  | .publish topic msg => (none, { w with published := w.published ++ [(topic, msg)] })
  | .pushToUID uid data => (none, w.pushToUID size uid data)
  | .enqueue uid msg => (enqueueResult protos msg (faults.enqueue uid), w.enqueue protos uid msg (faults.enqueue uid))

def worldServices (protos : Protos) (size : Nat) (faults : Faults) : Services World Failure where
  getMembers := fun w channelID =>
    if faults.getMembers then .error (.deliver .getMembers) else .ok (w.getMembers channelID)
  batchGetPresence := fun w uids =>
    if faults.getPresence then .error (.deliver .getPresence)
    else .ok fun uid => if uid ∈ uids then (w.getPresence uid).map (PresenceInfo.ofData uid) else none
  perform := performOn protos size faults
  protos := protos
  marshalError := .deliver .marshal

theorem route_state {w : World} {presenceMap : Int → Option PresenceInfo} {msg : ImMessage} {push : Packet}
    {uid : Int} (present : presenceMap uid = (w.getPresence uid).map (PresenceInfo.ofData uid)) (r : Run World) :
    (routeMember (worldServices protos size faults) presenceMap msg push r uid).state =
      route protos size (isOnline w) msg push faults r.state uid := by
  unfold routeMember route isOnline
  split
  · rfl
  · rw [present]
    cases held : w.getPresence uid with
    | none => rfl
    | some data =>
      cases status : data.status with
      | online => simp [PresenceInfo.ofData, Status.text, status, Run.perform, worldServices, performOn]
      | offline => simp [PresenceInfo.ofData, Status.text, status, Run.perform, worldServices, performOn]

theorem routes_state {w : World} {presenceMap : Int → Option PresenceInfo} {msg : ImMessage} {push : Packet}
    (uids : List Int)
    (present : ∀ uid ∈ uids, presenceMap uid = (w.getPresence uid).map (PresenceInfo.ofData uid)) (r : Run World) :
    (uids.foldl (routeMember (worldServices protos size faults) presenceMap msg push) r).state =
      uids.foldl (route protos size (isOnline w) msg push faults) r.state := by
  induction uids generalizing r with
  | nil => rfl
  | cons uid rest ih =>
    rw [List.foldl_cons, List.foldl_cons, ih (fun u later => present u (List.mem_cons_of_mem uid later)),
      route_state (present uid List.mem_cons_self)]

theorem deliver_world (w : World) (msg : ImMessage) :
    match Delivery.deliver protos size w msg faults with
    | .ok v => (deliver (worldServices protos size faults) w msg).1 = none ∧
        (deliver (worldServices protos size faults) w msg).2.state = v
    | .error e => (deliver (worldServices protos size faults) w msg).1 = some (.deliver e) ∧
        (deliver (worldServices protos size faults) w msg).2.state = w := by
  unfold deliver Delivery.deliver
  by_cases world : msg.channelType = .world
  · simp [world, Run.perform, worldServices, performOn]
  by_cases system : msg.channelType = .system
  · simp [system, Run.perform, worldServices, performOn, ChannelType.system, ChannelType.world]
  rw [if_neg world, if_neg system]
  simp only [if_neg world, if_neg system]
  cases members : faults.getMembers with
  | true => simp [worldServices, members]
  | false =>
    cases filled : (w.getMembers msg.channelId).isEmpty with
    | true => simp [worldServices, members, filled]
    | false =>
      cases presence : faults.getPresence with
      | true => simp [worldServices, members, filled, presence]
      | false =>
        cases made : marshalPush protos msg with
        | none => simp [worldServices, members, filled, presence, made]
        | some push =>
          simp only [worldServices, members, filled, presence, made, Bool.false_eq_true, if_false, true_and]
          exact routes_state (w.getMembers msg.channelId) (fun uid member => if_pos member) ⟨w, []⟩

end World

end GameIM.Delivery.Calls
