import GameIM.Store.Mongo
import GameIM.Gateway.Packets
import GameIM.Gateway.ConnManager

/-! Engine.Deliver of internal/delivery, with what it reads and writes: presence records
and channel members in Redis, the connection table and the push channels, and the
offline documents. All connections are local to the node. -/
namespace GameIM.Delivery
open Lib Api Store Gateway

inductive Status where
  | online
  | offline
  deriving DecidableEq, Repr

structure PresenceData where
  gatewayNodeID : String
  connID : ConnID
  status : Status
  lastSeen : Nat
  deriving DecidableEq, Repr

structure PresenceEntry where
  data : PresenceData
  deadline : Nat
  deriving DecidableEq, Repr

structure ChannelEntry where
  channelType : ChannelType
  deadline : Nat
  deriving DecidableEq, Repr

inductive Topic where
  | worldBroadcast
  | systemBroadcast
  deriving DecidableEq, Repr

/-- `dropped` records the connections whose full push channel refused a frame. -/
structure World where
  now : Nat
  mgr : ConnManager
  pushCh : ConnID → List Packet
  presence : Int → Option PresenceEntry
  channels : String → Option ChannelEntry
  members : String → List Int
  offline : List OfflineMessageDoc
  published : List (Topic × ImMessage)
  dropped : List ConnID

/- Seconds. -/
def presenceTTL : Nat := 30
def channelStateTTL : Nat := 7 * 24 * 60 * 60

namespace World

def setPresence (w : World) (uid : Int) (data : PresenceData) : World :=
  { w with presence := Function.update w.presence uid (some ⟨data, w.now + 1000 * presenceTTL⟩) }

def getPresence (w : World) (uid : Int) : Option PresenceData :=
  match w.presence uid with
  | none => none
  | some e => if w.now < e.deadline then some e.data else none

def getChannelState (w : World) (channelID : String) : Option ChannelType :=
  match w.channels channelID with
  | none => none
  | some e => if w.now < e.deadline then some e.channelType else none

/- A world channel has no member list. -/
def getMembers (w : World) (channelID : String) : List Int :=
  if w.getChannelState channelID = some .world then [] else w.members channelID

def send (size : Nat) (w : World) (c : ConnID) (p : Packet) : World :=
  if (w.pushCh c).length < size then
    { w with pushCh := Function.update w.pushCh c (w.pushCh c ++ [p]) }
  else { w with dropped := w.dropped ++ [c] }

/- A user without a connection is skipped. -/
def pushToUID (size : Nat) (w : World) (uid : Int) (p : Packet) : World :=
  match w.mgr.getByUID uid with
  | none => w
  | some c => w.send size c p

def enqueue (protos : Protos) (w : World) (uid : Int) (msg : ImMessage) (insertFails : Bool) : World :=
  if msg.channelType = .world then w
  else match protos.message msg with
    | none => w
    | some payload =>
      if insertFails then w
      else { w with offline := w.offline ++ [⟨uid, msg.msgId, msg.channelId, payload, w.now⟩] }

end World

/- The calls of one delivery that fail. -/
structure Faults where
  getMembers : Bool
  getPresence : Bool
  enqueue : Int → Bool

def noFaults : Faults := ⟨false, false, fun _ => false⟩

def isSender (msg : ImMessage) (uid : Int) : Bool :=
  match msg.sender with
  | none => false
  | some sender => uid = sender.senderId

def isOnline (w : World) (uid : Int) : Bool :=
  match w.getPresence uid with
  | none => false
  | some p => p.status = .online

/- One member's turn; presence was read for all members before the first. -/
def route (protos : Protos) (size : Nat) (online : Int → Bool) (msg : ImMessage) (push : Packet) (faults : Faults)
    (w : World) (uid : Int) : World :=
  if isSender msg uid then w
  else if online uid then w.pushToUID size uid push
  else w.enqueue protos uid msg (faults.enqueue uid)

inductive DeliverError where
  | getMembers
  | getPresence
  | marshal
  deriving DecidableEq, Repr

def deliver (protos : Protos) (size : Nat) (w : World) (msg : ImMessage) (faults : Faults) :
    Except DeliverError World :=
  if msg.channelType = .world then
    .ok { w with published := w.published ++ [(.worldBroadcast, msg)] }
  else if msg.channelType = .system then
    .ok { w with published := w.published ++ [(.systemBroadcast, msg)] }
  else if faults.getMembers then .error .getMembers
  else if (w.getMembers msg.channelId).isEmpty then .ok w
  else if faults.getPresence then .error .getPresence
  else match marshalPush protos msg with
    | none => .error .marshal
    | some push =>
      .ok ((w.getMembers msg.channelId).foldl (route protos size (isOnline w) msg push faults) w)

inductive Delivered (protos : Protos) (size : Nat) (w : World) (msg : ImMessage) (faults : Faults) : World → Prop where
  | published {topic} : msg.channelType = .world ∨ msg.channelType = .system →
      Delivered protos size w msg faults { w with published := w.published ++ [(topic, msg)] }
  | nobody : w.getMembers msg.channelId = [] → Delivered protos size w msg faults w
  | routed {push} : msg.channelType ≠ .world → marshalPush protos msg = some push →
      Delivered protos size w msg faults
        ((w.getMembers msg.channelId).foldl (route protos size (isOnline w) msg push faults) w)

theorem deliver_delivered {protos : Protos} {size : Nat} {w v : World} {msg : ImMessage} {faults : Faults}
    (done : deliver protos size w msg faults = .ok v) : Delivered protos size w msg faults v := by
  unfold deliver at done
  split at done
  · rename_i world
    cases Except.ok.inj done
    exact .published (Or.inl world)
  · rename_i notWorld
    split at done
    · rename_i system
      cases Except.ok.inj done
      exact .published (Or.inr system)
    · split at done
      · contradiction
      · split at done
        · rename_i empty
          cases Except.ok.inj done
          exact .nobody (List.isEmpty_iff.mp empty)
        · split at done
          · contradiction
          · split at done
            · contradiction
            · rename_i push made
              cases Except.ok.inj done
              exact .routed notWorld made

/-- The message is on its way to the user, or kept for them: it is on the push channel of
an open connection that is theirs, or in an offline document. -/
def Reached (protos : Protos) (w : World) (msg : ImMessage) (uid : Int) : Prop :=
  (∃ c push, w.mgr.life c = .open ∧ w.mgr.uid c = uid ∧ marshalPush protos msg = some push ∧
    push ∈ w.pushCh c) ∨
  ∃ doc ∈ w.offline, doc.uid = uid ∧ doc.msgID = msg.msgId ∧ doc.channelID = msg.channelId ∧
    protos.message msg = some doc.payload

def Enqueued (protos : Protos) (w : World) (msg : ImMessage) (uid : Int) : Prop :=
  ∃ doc ∈ w.offline, doc.uid = uid ∧ doc.msgID = msg.msgId ∧ doc.channelID = msg.channelId ∧
    protos.message msg = some doc.payload

/-- PushToUID was called between the two: the connection that the table has for the user
got the frame, or its push channel was full. -/
def Pushed (protos : Protos) (w v : World) (msg : ImMessage) (uid : Int) : Prop :=
  ∀ c, w.mgr.getByUID uid = some c → ∃ push, marshalPush protos msg = some push ∧
    (push ∈ v.pushCh c ∨ ∃ new, v.dropped = w.dropped ++ new ∧ c ∈ new)

/-- The connection table has an open connection for the user, and it is theirs. -/
def Connected (w : World) (uid : Int) : Prop :=
  ∃ c, w.mgr.getByUID uid = some c ∧ w.mgr.life c = .open ∧ w.mgr.uid c = uid

structure Grows (w v : World) : Prop where
  now : v.now = w.now
  mgr : v.mgr = w.mgr
  presence : v.presence = w.presence
  pushCh : ∀ c, w.pushCh c <+: v.pushCh c
  offline : w.offline <+: v.offline
  dropped : w.dropped <+: v.dropped

theorem Grows.refl (w : World) : Grows w w :=
  ⟨rfl, rfl, rfl, fun _ => List.prefix_rfl, List.prefix_rfl, List.prefix_rfl⟩

theorem Grows.trans {u v w : World} (first : Grows u v) (second : Grows v w) : Grows u w :=
  ⟨second.now.trans first.now, second.mgr.trans first.mgr, second.presence.trans first.presence,
    fun c => (first.pushCh c).trans (second.pushCh c), first.offline.trans second.offline,
    first.dropped.trans second.dropped⟩

section Route

variable {protos : Protos} {size : Nat} {online : Int → Bool} {msg : ImMessage} {push : Packet} {faults : Faults}
  {w v : World} {uid : Int}

theorem Reached.grows (reached : Reached protos w msg uid) (grows : Grows w v) : Reached protos v msg uid := by
  rcases reached with ⟨c, push, live, named, made, mem⟩ | ⟨doc, mem, same⟩
  · refine Or.inl ⟨c, push, ?_, ?_, made, (grows.pushCh c).subset mem⟩
    · rw [grows.mgr]
      exact live
    · rw [grows.mgr]
      exact named
  · exact Or.inr ⟨doc, grows.offline.subset mem, same⟩

theorem Connected.grows (connected : Connected w uid) (grows : Grows w v) : Connected v uid := by
  unfold Connected
  rw [grows.mgr]
  exact connected

theorem send_grows (w : World) (c : ConnID) (p : Packet) : Grows w (w.send size c p) := by
  unfold World.send
  split
  · refine ⟨rfl, rfl, rfl, ?_, List.prefix_rfl, List.prefix_rfl⟩
    intro d
    by_cases here : d = c
    · subst here
      simp only [Function.update_self]
      exact List.prefix_append _ _
    · simp only [Function.update_of_ne here]
      exact List.prefix_rfl
  · exact ⟨rfl, rfl, rfl, fun _ => List.prefix_rfl, List.prefix_rfl, List.prefix_append _ _⟩

theorem enqueue_grows (w : World) (uid : Int) (msg : ImMessage) (fails : Bool) :
    Grows w (w.enqueue protos uid msg fails) := by
  unfold World.enqueue
  split
  · exact Grows.refl w
  · split
    · exact Grows.refl w
    · split
      · exact Grows.refl w
      · exact ⟨rfl, rfl, rfl, fun _ => List.prefix_rfl, List.prefix_append _ _, List.prefix_rfl⟩

theorem route_grows (w : World) (uid : Int) : Grows w (route protos size online msg push faults w uid) := by
  unfold route
  split
  · exact Grows.refl w
  · split
    · unfold World.pushToUID
      split
      · exact Grows.refl w
      · exact send_grows w _ push
    · exact enqueue_grows w uid msg _

theorem routes_grow (uids : List Int) (w : World) :
    Grows w (uids.foldl (route protos size online msg push faults) w) := by
  induction uids generalizing w with
  | nil => exact Grows.refl w
  | cons uid rest ih => exact (route_grows w uid).trans (ih _)

theorem marshalled_of_pushed (made : marshalPush protos msg = some push) :
    ∃ payload, protos.message msg = some payload := by
  unfold marshalPush at made
  split at made
  · contradiction
  · rename_i data pushed
    exact protos.pushed msg data pushed

theorem enqueue_enqueued (channel : msg.channelType ≠ .world)
    (made : marshalPush protos msg = some push) : Enqueued protos (w.enqueue protos uid msg false) msg uid := by
  obtain ⟨payload, stored⟩ := marshalled_of_pushed made
  refine ⟨⟨uid, msg.msgId, msg.channelId, payload, w.now⟩, ?_, rfl, rfl, rfl, stored⟩
  simp [World.enqueue, channel, stored]

theorem pushToUID_reaches (connected : Connected w uid) (made : marshalPush protos msg = some push)
    (kept : (w.pushToUID size uid push).dropped = w.dropped) :
    Reached protos (w.pushToUID size uid push) msg uid := by
  obtain ⟨c, held, live, named⟩ := connected
  have sent : w.pushToUID size uid push = w.send size c push := by
    simp only [World.pushToUID, held]
  rw [sent] at kept ⊢
  have grows : Grows w (w.send size c push) := send_grows w c push
  refine Or.inl ⟨c, push, ?_, ?_, made, ?_⟩
  · rw [grows.mgr]
    exact live
  · rw [grows.mgr]
    exact named
  · unfold World.send at kept ⊢
    split
    · simp
    · rename_i full
      rw [if_neg full] at kept
      simp at kept

theorem route_reaches (channel : msg.channelType ≠ .world) (made : marshalPush protos msg = some push)
    (other : isSender msg uid = false) (connected : online uid = true → Connected w uid)
    (stored : faults.enqueue uid = false)
    (kept : (route protos size online msg push faults w uid).dropped = w.dropped) :
    Reached protos (route protos size online msg push faults w uid) msg uid := by
  cases status : online uid with
  | true =>
    have turn : route protos size online msg push faults w uid = w.pushToUID size uid push := by
      simp [route, other, status]
    rw [turn] at kept ⊢
    exact pushToUID_reaches (connected status) made kept
  | false =>
    have turn : route protos size online msg push faults w uid = w.enqueue protos uid msg false := by
      simp [route, other, status, stored]
    rw [turn]
    exact Or.inr (enqueue_enqueued channel made)

/- By induction on the members: an earlier turn is not undone, and since the refusals
only add up, none in the end means none in any turn. -/
theorem routes_reach (channel : msg.channelType ≠ .world) (made : marshalPush protos msg = some push)
    (uids : List Int) (stored : ∀ uid ∈ uids, faults.enqueue uid = false)
    (connected : ∀ uid ∈ uids, isSender msg uid = false → online uid = true → Connected w uid)
    (kept : (uids.foldl (route protos size online msg push faults) w).dropped = w.dropped) :
    ∀ uid ∈ uids, isSender msg uid = false →
      Reached protos (uids.foldl (route protos size online msg push faults) w) msg uid := by
  induction uids generalizing w with
  | nil => simp
  | cons first rest ih =>
    set next := route protos size online msg push faults w first with hnext
    have turn : Grows w next := route_grows w first
    have later : Grows next (rest.foldl (route protos size online msg push faults) next) := routes_grow rest next
    have total : (rest.foldl (route protos size online msg push faults) next).dropped = w.dropped := kept
    have now : next.dropped = w.dropped :=
      (turn.dropped.eq_of_length_le (total ▸ later.dropped.length_le)).symm
    intro uid mem other
    rcases List.mem_cons.mp mem with here | there
    · subst here
      have reached := route_reaches channel made other (connected uid (by simp) other)
        (stored uid (by simp)) now
      exact reached.grows later
    · refine ih (fun u hu => stored u (by simp [hu])) ?_ (total.trans now.symm) uid there other
      intro u hu otherU status
      exact (connected u (by simp [hu]) otherU status).grows turn

end Route

section Deliver

variable {protos : Protos} {size : Nat} {w v : World} {msg : ImMessage} {faults : Faults}

theorem deliver_grows (done : deliver protos size w msg faults = .ok v) : Grows w v := by
  cases deliver_delivered done with
  | published => exact ⟨rfl, rfl, rfl, fun _ => List.prefix_rfl, List.prefix_rfl, List.prefix_rfl⟩
  | nobody => exact Grows.refl w
  | routed => exact routes_grow _ w

/-- On a member channel, without a store error or a full push channel, nobody but the
sender is left without the message if every other member whose presence says online is
connected. -/
theorem deliver_reaches (memberChannel : msg.channelType ≠ .world ∧ msg.channelType ≠ .system)
    (stored : ∀ uid ∈ w.getMembers msg.channelId, faults.enqueue uid = false)
    (done : deliver protos size w msg faults = .ok v) (notFull : v.dropped = w.dropped)
    (connected : ∀ uid ∈ w.getMembers msg.channelId, isSender msg uid = false →
      isOnline w uid = true → Connected w uid) :
    ∀ uid ∈ w.getMembers msg.channelId, isSender msg uid = false → Reached protos v msg uid := by
  cases deliver_delivered done with
  | published channel =>
    rcases channel with world | system
    · exact absurd world memberChannel.1
    · exact absurd system memberChannel.2
  | nobody empty =>
    intro uid mem
    rw [empty] at mem
    contradiction
  | routed channel made => exact routes_reach channel made _ stored connected notFull

end Deliver

section Through

variable {protos : Protos} {size : Nat} {online : Int → Bool} {msg : ImMessage} {push : Packet} {faults : Faults}
  {w v x y : World} {uid : Int}

theorem Enqueued.grows (enqueued : Enqueued protos w msg uid) (grows : Grows w v) : Enqueued protos v msg uid := by
  obtain ⟨doc, mem, same⟩ := enqueued
  exact ⟨doc, grows.offline.subset mem, same⟩

theorem Pushed.grows (pushed : Pushed protos w v msg uid) (before : Grows x w) (after : Grows v y) :
    Pushed protos x y msg uid := by
  intro c held
  obtain ⟨push, made, way⟩ := pushed c (before.mgr ▸ held)
  refine ⟨push, made, ?_⟩
  rcases way with here | ⟨new, refused, mem⟩
  · exact Or.inl ((after.pushCh c).subset here)
  · obtain ⟨earlier, first⟩ := before.dropped
    obtain ⟨later, last⟩ := after.dropped
    refine Or.inr ⟨earlier ++ new ++ later, ?_, by simp [mem]⟩
    rw [← last, refused, ← first]
    simp

theorem pushToUID_pushed (made : marshalPush protos msg = some push) :
    Pushed protos w (w.pushToUID size uid push) msg uid := by
  intro c held
  have sent : w.pushToUID size uid push = w.send size c push := by
    simp only [World.pushToUID, held]
  refine ⟨push, made, ?_⟩
  rw [sent]
  unfold World.send
  split
  · exact Or.inl (by simp)
  · exact Or.inr ⟨[c], rfl, by simp⟩

/-- What the member list gets out of a delivery: everybody but the sender is pushed to or
has an offline document, by what their presence said. -/
def Through (protos : Protos) (uids : List Int) (online : Int → Bool) (msg : ImMessage) (faults : Faults)
    (w v : World) : Prop :=
  ∀ uid ∈ uids, isSender msg uid = false →
    (online uid = true → Pushed protos w v msg uid) ∧
    (online uid = false → faults.enqueue uid = false → Enqueued protos v msg uid)

theorem route_through (channel : msg.channelType ≠ .world) (made : marshalPush protos msg = some push)
    (w : World) (uid : Int) :
    Through protos [uid] online msg faults w (route protos size online msg push faults w uid) := by
  intro member here other
  cases List.mem_singleton.mp here
  constructor
  · intro status
    have turn : route protos size online msg push faults w uid = w.pushToUID size uid push := by
      simp [route, other, status]
    exact turn ▸ pushToUID_pushed made
  · intro status stored
    have turn : route protos size online msg push faults w uid = w.enqueue protos uid msg false := by
      simp [route, other, status, stored]
    exact turn ▸ enqueue_enqueued channel made

/- By induction on the members: each has one turn, and the turns around it only add. -/
theorem routes_through (channel : msg.channelType ≠ .world)
    (made : marshalPush protos msg = some push) (uids : List Int) (w : World) :
    Through protos uids online msg faults w (uids.foldl (route protos size online msg push faults) w) := by
  induction uids generalizing w with
  | nil => simp [Through]
  | cons first rest ih =>
    set next := route protos size online msg push faults w first with hnext
    have turn : Grows w next := route_grows w first
    have later : Grows next (rest.foldl (route protos size online msg push faults) next) := routes_grow rest next
    have here : Through protos [first] online msg faults w next := route_through channel made w first
    intro uid mem other
    rcases List.mem_cons.mp mem with same | there
    · have own := here uid (by simp [same]) other
      exact ⟨fun status => (own.1 status).grows (Grows.refl w) later,
        fun status stored => (own.2 status stored).grows later⟩
    · have own := ih next uid there other
      exact ⟨fun status => (own.1 status).grows turn (Grows.refl _), own.2⟩

theorem route_published (w : World) (uid : Int) :
    (route protos size online msg push faults w uid).published = w.published := by
  unfold route
  split
  · rfl
  · split
    · unfold World.pushToUID World.send
      split
      · rfl
      · split
        · rfl
        · rfl
    · unfold World.enqueue
      split
      · rfl
      · split
        · rfl
        · split
          · rfl
          · rfl

theorem routes_published (uids : List Int) (w : World) :
    (uids.foldl (route protos size online msg push faults) w).published = w.published := by
  induction uids generalizing w with
  | nil => rfl
  | cons uid rest ih => rw [List.foldl_cons, ih, route_published]

end Through

section Missed

variable {protos : Protos} {size : Nat} {online : Int → Bool} {msg : ImMessage} {push : Packet} {faults : Faults}
  {w v : World}

theorem pushToUID_offline (w : World) (uid : Int) : (w.pushToUID size uid push).offline = w.offline := by
  unfold World.pushToUID
  split
  · rfl
  · unfold World.send
    split
    · rfl
    · rfl

theorem enqueue_offline {uid : Int} {fails : Bool} {doc : OfflineMessageDoc}
    (mem : doc ∈ (w.enqueue protos uid msg fails).offline) : doc ∈ w.offline ∨ doc.uid = uid := by
  unfold World.enqueue at mem
  split at mem
  · exact Or.inl mem
  · split at mem
    · exact Or.inl mem
    · split at mem
      · exact Or.inl mem
      · rcases List.mem_append.mp mem with old | new
        · exact Or.inl old
        · cases List.mem_singleton.mp new
          exact Or.inr rfl

theorem route_offline {uid : Int} {doc : OfflineMessageDoc}
    (mem : doc ∈ (route protos size online msg push faults w uid).offline) :
    doc ∈ w.offline ∨ online doc.uid = false := by
  unfold route at mem
  split at mem
  · exact Or.inl mem
  · split at mem
    · rw [pushToUID_offline] at mem
      exact Or.inl mem
    · rename_i status
      rcases enqueue_offline mem with old | rfl
      · exact Or.inl old
      · exact Or.inr (by simpa using status)

theorem routes_offline (uids : List Int) {doc : OfflineMessageDoc}
    (mem : doc ∈ (uids.foldl (route protos size online msg push faults) w).offline) :
    doc ∈ w.offline ∨ online doc.uid = false := by
  induction uids generalizing w with
  | nil => exact Or.inl mem
  | cons uid rest ih =>
    rcases ih mem with old | new
    · exact route_offline old
    · exact Or.inr new

/-- A user whose presence outlives their connection is left with nothing. -/
theorem missed_while_online {uid : Int} (delivered : deliver protos size w msg faults = .ok v)
    (status : isOnline w uid = true) (disconnected : ∀ c, w.mgr.life c = .open → w.mgr.uid c ≠ uid)
    (new : ∀ doc ∈ w.offline, doc.uid = uid → doc.msgID ≠ msg.msgId ∨ doc.channelID ≠ msg.channelId) :
    ¬ Reached protos v msg uid := by
  have docs : ∀ doc ∈ v.offline, doc ∈ w.offline ∨ isOnline w doc.uid = false := by
    cases deliver_delivered delivered with
    | published => exact fun _ mem => Or.inl mem
    | nobody => exact fun _ mem => Or.inl mem
    | routed => exact fun _ mem => routes_offline _ mem
  rintro (⟨c, _, live, named, _⟩ | ⟨doc, mem, named, id, channel, _⟩)
  · rw [(deliver_grows delivered).mgr] at live named
    exact disconnected c live named
  · rcases docs doc mem with old | offline
    · rcases new doc old named with otherId | otherChannel
      · exact otherId id
      · exact otherChannel channel
    · rw [named, status] at offline
      contradiction

end Missed

end GameIM.Delivery
