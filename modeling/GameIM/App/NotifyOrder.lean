import GameIM.Bus.Local
import GameIM.Gateway.Packets
import GameIM.Gateway.Ring
import GameIM.Delivery.Engine

/-! The way of a broadcast notification: LocalBus.Publish starts the subscribed handlers,
each in its own goroutine, broadcastNotify puts the WorldNotify of its message on the ring
when its goroutine gets to run, and each connection reads the ring with its own cursor. -/
namespace GameIM.App.NotifyOrder
open Lib Api Gateway Gateway.Conn Delivery

/-- What a connection is sent: a packet, with the channel_id and latest_seq of the
WorldNotify it carries, if it carries one. -/
structure Push (protos : Protos) where
  packet : Packet
  notify : Option (String × Int)
  carries : ∀ n ∈ notify, ∃ payload, protos.notify n.1 n.2 = some payload ∧
    packet.frame = ⟨cmdWorldNotify, 0, payload⟩

theorem broadcastNotify_carries {protos : Protos} {msg : ImMessage} {p : Packet}
    (made : broadcastNotify protos msg = some p) :
    ∀ n ∈ some (msg.channelId, msg.msgId), ∃ payload, protos.notify n.1 n.2 = some payload ∧
      p.frame = ⟨cmdWorldNotify, 0, payload⟩ := by
  rintro n ⟨⟩
  unfold broadcastNotify at made
  split at made
  · contradiction
  · rename_i payload marshalled
    refine ⟨payload, marshalled, ?_⟩
    unfold encodeFrame at made
    split at made
    · contradiction
    · cases Option.some.inj made
      rfl

/- The one function of internal/app that is subscribed, to both topics. -/
inductive Handler where
  | broadcastNotify
  deriving DecidableEq, Repr

def Handler.run (protos : Protos) (msg : ImMessage) : Handler → Option (Push protos)
  | .broadcastNotify => (Gateway.broadcastNotify protos msg).attach.map fun p =>
      ⟨p.1, some (msg.channelId, msg.msgId), broadcastNotify_carries p.2⟩

def msgBus : Bus.LocalBus Topic Handler :=
  (Bus.newLocalBus.subscribe .worldBroadcast .broadcastNotify).subscribe .systemBroadcast .broadcastNotify

structure Invocation where
  handler : Handler
  msg : ImMessage
  deriving DecidableEq, Repr

/-- `running` are the handlers' goroutines that have not got to run yet, `published` the
messages of all Publish calls. -/
structure State (protos : Protos) where
  running : List Invocation
  ring : Ring.State (Push protos)
  published : List ImMessage

inductive Action (protos : Protos) where
  | publish (topic : Topic) (msg : ImMessage)
  | handle (n : Nat)
  | ring (a : Ring.Action (Push protos))

variable {protos : Protos}

def start : State protos := ⟨[], Ring.start, []⟩

def step (cfg : Config) (s : State protos) : Action protos → Option (State protos)
  | .publish topic msg => some { s with
      running := s.running ++ (msgBus.publish topic).map (⟨·, msg⟩)
      published := s.published ++ [msg] }
  | .handle n => match s.running[n]? with
    | none => none
    | some g =>
      let s := { s with running := s.running.eraseIdx n }
      match g.handler.run protos g.msg with
      | none => some s
      | some data => (Ring.step cfg s.ring (.put data)).map fun r => { s with ring := r }
  | .ring a => match a with
    | .put _ => none
    | a => (Ring.step cfg s.ring a).map fun r => { s with ring := r }

inductive Effect (cfg : Config) (s : State protos) : Action protos → State protos → Prop where
  | publish {topic msg} : Effect cfg s (.publish topic msg) { s with
      running := s.running ++ (msgBus.publish topic).map (⟨·, msg⟩)
      published := s.published ++ [msg] }
  | dropped {n g} : s.running[n]? = some g → g.handler.run protos g.msg = none →
      Effect cfg s (.handle n) { s with running := s.running.eraseIdx n }
  | put {n g data r} : s.running[n]? = some g → g.handler.run protos g.msg = some data →
      Ring.step cfg s.ring (.put data) = some r → r.log = s.ring.log ++ [data] →
      Effect cfg s (.handle n) { s with running := s.running.eraseIdx n, ring := r }
  | ring {a r} : Ring.step cfg s.ring a = some r → r.log = s.ring.log →
      Effect cfg s (.ring a) { s with ring := r }

/-- The entries for the channel have rising values of latest_seq. -/
def Increasing (ch : String) (pushes : List (Push protos)) : Prop :=
  pushes.Pairwise fun p q => ∀ m n, p.notify = some (ch, m) → q.notify = some (ch, n) → m < n

/-- The handler is going to notify the channel. -/
def Waits (protos : Protos) (ch : String) (g : Invocation) : Prop :=
  g.msg.channelId = ch ∧ (g.handler.run protos g.msg).isSome

/-- The channel's messages are published in the order of their ids. -/
def PublishedInOrder (ch : String) (s : State protos) : Action protos → Prop
  | .publish _ msg => msg.channelId = ch → ∀ m ∈ s.published, m.channelId = ch → m.msgId < msg.msgId
  | _ => True

/-- A handler that notifies the channel gets to run only when none for an earlier message
is still to come. -/
def InTurn (ch : String) (s : State protos) : Action protos → Prop
  | .handle n => ∀ g ∈ s.running[n]?, Waits protos ch g →
      ∀ h ∈ s.running, Waits protos ch h → g.msg.msgId ≤ h.msg.msgId
  | _ => True

/-- Each Get of the connection's consumer finds the entry of its position. -/
def Stored (cfg : Config) (c : ConnID) (s : State protos) : Action protos → Prop
  | .ring a => Ring.Stored cfg c s.ring a
  | _ => True

instance decidableWaits (ch : String) (g : Invocation) : Decidable (Waits protos ch g) :=
  inferInstanceAs (Decidable (_ ∧ _))

instance decidablePublishedInOrder (ch : String) (s : State protos) :
    ∀ a, Decidable (PublishedInOrder ch s a)
  | .publish _ _ => inferInstanceAs (Decidable (_ → _))
  | .handle _ | .ring _ => inferInstanceAs (Decidable True)

instance decidableInTurn (ch : String) (s : State protos) : ∀ a, Decidable (InTurn ch s a)
  | .handle n => inferInstanceAs (Decidable (∀ g ∈ s.running[n]?, _))
  | .publish _ _ | .ring _ => inferInstanceAs (Decidable True)

instance decidableStored (cfg : Config) (c : ConnID) (s : State protos) :
    ∀ a, Decidable (Stored cfg c s a)
  | .ring _ => inferInstanceAs (Decidable (Ring.Stored _ _ _ _))
  | .publish _ _ | .handle _ => inferInstanceAs (Decidable True)

section Effect

variable {cfg : Config} {s t : State protos} {a : Action protos}

theorem step_effect (taken : step cfg s a = some t) : Effect cfg s a t := by
  cases a with
  | publish topic msg =>
    cases Option.some.inj taken
    exact .publish
  | handle n =>
    simp only [step] at taken
    split at taken
    · contradiction
    · rename_i g waiting
      split at taken
      · rename_i nothing
        cases Option.some.inj taken
        exact .dropped waiting nothing
      · rename_i data made
        obtain ⟨r, put, rfl⟩ := Option.map_eq_some_iff.mp taken
        have log : r.log = s.ring.log ++ [data] := by
          cases Option.some.inj put
          rfl
        exact .put waiting made put log
  | ring b =>
    simp only [step] at taken
    split at taken
    · contradiction
    · rename_i quiet
      obtain ⟨r, moved, rfl⟩ := Option.map_eq_some_iff.mp taken
      exact .ring moved (Ring.step_log_same quiet moved)

theorem publish_started (topic : Topic) : msgBus.publish topic = [.broadcastNotify] := by
  cases topic with
  | worldBroadcast => rfl
  | systemBroadcast => rfl

theorem run_notify {h : Handler} {msg : ImMessage} {data : Push protos}
    (made : h.run protos msg = some data) : data.notify = some (msg.channelId, msg.msgId) := by
  cases h with
  | broadcastNotify =>
    obtain ⟨p, _, rfl⟩ := Option.map_eq_some_iff.mp made
    rfl

theorem waits_of_made {ch : String} {g : Invocation} {data : Push protos}
    (made : g.handler.run protos g.msg = some data) (channel : g.msg.channelId = ch) :
    Waits protos ch g :=
  ⟨channel, by simp [made]⟩

end Effect

/-- Waiting handlers stand in the order of publication, and everything on the ring was
published before everything that waits. -/
structure Ordered (ch : String) (s : State protos) : Prop where
  ring : Ring.Inv s.ring
  running : s.running.Pairwise fun g h =>
    g.msg.channelId = ch → h.msg.channelId = ch → g.msg.msgId < h.msg.msgId
  started : ∀ g ∈ s.running, g.msg ∈ s.published
  told : ∀ p ∈ s.ring.log, ∀ q, p.notify = some (ch, q) →
    ∃ m ∈ s.published, m.channelId = ch ∧ m.msgId = q
  behind : ∀ p ∈ s.ring.log, ∀ q, p.notify = some (ch, q) →
    ∀ g ∈ s.running, Waits protos ch g → q < g.msg.msgId
  log : Increasing ch s.ring.log

section Ordered

variable {cfg : Config} {ch : String} {s t : State protos} {a : Action protos}

theorem start_ordered (ch : String) : Ordered ch (start : State protos) := by
  constructor
  · exact Ring.start_inv
  · exact List.Pairwise.nil
  · intro g member
    cases member
  · intro p member
    cases member
  · intro p member
    cases member
  · exact List.Pairwise.nil

theorem erase_after {n : Nat} {g : Invocation} (ordered : Ordered ch s)
    (waiting : s.running[n]? = some g) (channel : g.msg.channelId = ch)
    (first : ∀ h ∈ s.running, Waits protos ch h → g.msg.msgId ≤ h.msg.msgId) :
    ∀ h ∈ s.running.eraseIdx n, Waits protos ch h → g.msg.msgId < h.msg.msgId := by
  intro h member waits
  obtain ⟨i, apart, held⟩ := List.mem_eraseIdx_iff_getElem?.mp member
  obtain ⟨inside, rfl⟩ := List.getElem?_eq_some_iff.mp held
  obtain ⟨mine, rfl⟩ := List.getElem?_eq_some_iff.mp waiting
  have least := first _ (List.getElem_mem inside) waits
  rcases Nat.lt_or_gt_of_ne apart with before | after
  · have smaller := List.pairwise_iff_getElem.mp ordered.running i n inside mine before waits.1 channel
    omega
  · exact List.pairwise_iff_getElem.mp ordered.running n i mine inside after channel waits.1

theorem publish_ordered {topic : Topic} {msg : ImMessage} (ordered : Ordered ch s)
    (next : msg.channelId = ch → ∀ m ∈ s.published, m.channelId = ch → m.msgId < msg.msgId) :
    Ordered ch ({ s with
      running := s.running ++ (msgBus.publish topic).map (⟨·, msg⟩)
      published := s.published ++ [msg] } : State protos) := by
  rw [publish_started]
  constructor
  · exact ordered.ring
  · refine List.pairwise_append.mpr ⟨ordered.running, List.pairwise_singleton _ _, ?_⟩
    intro g old h added channel same
    cases List.mem_singleton.mp added
    exact next same g.msg (ordered.started g old) channel
  · intro g member
    rcases List.mem_append.mp member with old | added
    · exact List.mem_append_left _ (ordered.started g old)
    · cases List.mem_singleton.mp added
      exact List.mem_append_right _ (List.mem_singleton_self msg)
  · intro p entry q notify
    obtain ⟨m, known, channel, id⟩ := ordered.told p entry q notify
    exact ⟨m, List.mem_append_left _ known, channel, id⟩
  · intro p entry q notify g member waits
    rcases List.mem_append.mp member with old | added
    · exact ordered.behind p entry q notify g old waits
    · cases List.mem_singleton.mp added
      obtain ⟨m, known, channel, rfl⟩ := ordered.told p entry q notify
      exact next waits.1 m known channel
  · exact ordered.log

theorem put_ordered {n : Nat} {g : Invocation} {data : Push protos} {r : Ring.State (Push protos)}
    (ordered : Ordered ch s) (turn : InTurn ch s (.handle n)) (waiting : s.running[n]? = some g)
    (made : g.handler.run protos g.msg = some data) (put : Ring.step cfg s.ring (.put data) = some r)
    (log : r.log = s.ring.log ++ [data]) :
    Ordered ch { s with running := s.running.eraseIdx n, ring := r } := by
  have fields := run_notify made
  have kept := List.eraseIdx_sublist s.running n
  have here : g ∈ s.running := List.mem_of_getElem? waiting
  have mine : ∀ q, data.notify = some (ch, q) → g.msg.channelId = ch ∧ q = g.msg.msgId := by
    intro q notify
    rw [fields] at notify
    cases notify
    exact ⟨rfl, rfl⟩
  constructor
  · exact Ring.step_inv ordered.ring put
  · exact ordered.running.sublist kept
  · intro h member
    exact ordered.started h (kept.subset member)
  · intro p entry q notify
    rw [log] at entry
    rcases List.mem_append.mp entry with old | new
    · exact ordered.told p old q notify
    · cases List.mem_singleton.mp new
      obtain ⟨channel, rfl⟩ := mine q notify
      exact ⟨g.msg, ordered.started g here, channel, rfl⟩
  · intro p entry q notify h member waits
    rw [log] at entry
    rcases List.mem_append.mp entry with old | new
    · exact ordered.behind p old q notify h (kept.subset member) waits
    · cases List.mem_singleton.mp new
      obtain ⟨channel, rfl⟩ := mine q notify
      exact erase_after ordered waiting channel (turn g waiting (waits_of_made made channel)) h member
        waits
  · show Increasing ch r.log
    rw [log]
    refine List.pairwise_append.mpr ⟨ordered.log, List.pairwise_singleton _ _, ?_⟩
    intro p old d new m q first second
    cases List.mem_singleton.mp new
    obtain ⟨channel, rfl⟩ := mine q second
    exact ordered.behind p old m first g here (waits_of_made made channel)

theorem step_ordered (ordered : Ordered ch s) (next : PublishedInOrder ch s a) (turn : InTurn ch s a)
    (taken : step cfg s a = some t) : Ordered ch t := by
  cases step_effect taken with
  | publish => exact publish_ordered ordered next
  | @dropped n g _ _ =>
    have kept := List.eraseIdx_sublist s.running n
    constructor
    · exact ordered.ring
    · exact ordered.running.sublist kept
    · intro h member
      exact ordered.started h (kept.subset member)
    · exact ordered.told
    · intro p entry q notify h member waits
      exact ordered.behind p entry q notify h (kept.subset member) waits
    · exact ordered.log
  | put waiting made put log => exact put_ordered ordered turn waiting made put log
  | ring moved log =>
    constructor
    · exact Ring.step_inv ordered.ring moved
    · exact ordered.running
    · exact ordered.started
    · rw [log]
      exact ordered.told
    · rw [log]
      exact ordered.behind
    · rw [log]
      exact ordered.log

end Ordered

/-- A notification has overtaken one that is still to come, or has been overtaken. -/
def Crossed (ch : String) (s : State protos) : Prop :=
  ¬ Increasing ch s.ring.log ∨
    ∃ p ∈ s.ring.log, ∃ q, p.notify = some (ch, q) ∧
      ∃ g ∈ s.running, Waits protos ch g ∧ g.msg.msgId < q

section Crossed

variable {cfg : Config} {ch : String} {s t : State protos} {a : Action protos}

theorem Increasing.of_append {log more : List (Push protos)} (increasing : Increasing ch (log ++ more)) :
    Increasing ch log :=
  (List.pairwise_append.mp increasing).1

theorem mem_eraseIdx_or {n : Nat} {g h : Invocation} {running : List Invocation}
    (waiting : running[n]? = some g) (member : h ∈ running) : h = g ∨ h ∈ running.eraseIdx n := by
  obtain ⟨i, held⟩ := List.mem_iff_getElem?.mp member
  by_cases here : i = n
  · subst here
    exact Or.inl (Option.some.inj (held.symm.trans waiting))
  · exact Or.inr (List.mem_eraseIdx_iff_getElem?.mpr ⟨i, here, held⟩)

theorem step_crossed (crossed : Crossed ch s) (taken : step cfg s a = some t) : Crossed ch t := by
  cases step_effect taken with
  | publish =>
    rcases crossed with broken | ⟨p, entry, q, notify, g, member, waits, smaller⟩
    · exact Or.inl broken
    · exact Or.inr ⟨p, entry, q, notify, g, List.mem_append_left _ member, waits, smaller⟩
  | @dropped n f waiting nothing =>
    rcases crossed with broken | ⟨p, entry, q, notify, g, member, waits, smaller⟩
    · exact Or.inl broken
    · rcases mem_eraseIdx_or waiting member with rfl | left
      · have some := waits.2
        rw [nothing] at some
        contradiction
      · exact Or.inr ⟨p, entry, q, notify, g, left, waits, smaller⟩
  | @put n f data r waiting made _ log =>
    rcases crossed with broken | ⟨p, entry, q, notify, g, member, waits, smaller⟩
    · refine Or.inl fun increasing => broken ?_
      simp only [log] at increasing
      exact increasing.of_append
    · rcases mem_eraseIdx_or waiting member with rfl | left
      · refine Or.inl fun increasing => ?_
        simp only [log] at increasing
        have fields := run_notify made
        rw [waits.1] at fields
        have larger := (List.pairwise_append.mp increasing).2.2 p entry data
          (List.mem_singleton_self data) q g.msg.msgId notify fields
        omega
      · refine Or.inr ⟨p, ?_, q, notify, g, left, waits, smaller⟩
        simp only [log]
        exact List.mem_append_left _ entry
  | ring _ log =>
    unfold Crossed
    simp only [log]
    exact crossed

theorem overtakes (early : ¬ InTurn ch s a) (taken : step cfg s a = some t) : Crossed ch t := by
  cases step_effect taken with
  | publish => exact absurd trivial early
  | dropped waiting nothing =>
    refine absurd ?_ early
    intro g held waits
    cases waiting.symm.trans held
    have some := waits.2
    rw [nothing] at some
    contradiction
  | @put n g data r waiting made _ log =>
    have ahead : ∃ h ∈ s.running, Waits protos ch g ∧ Waits protos ch h ∧
        h.msg.msgId < g.msg.msgId := by
      by_contra none
      refine early ?_
      intro f held waits h member also
      cases waiting.symm.trans held
      by_contra smaller
      exact none ⟨h, member, waits, also, by omega⟩
    obtain ⟨h, member, waits, also, smaller⟩ := ahead
    have fields := run_notify made
    rw [waits.1] at fields
    rcases mem_eraseIdx_or waiting member with rfl | left
    · omega
    · refine Or.inr ⟨data, ?_, g.msg.msgId, fields, h, left, also, smaller⟩
      simp only [log]
      exact List.mem_append_right _ (List.mem_singleton_self data)
  | ring => exact absurd trivial early

/- Once every handler has run, an order that is right at the end was right at each turn. -/
theorem turns_of_increasing {as : List (Action protos)} (taken : run (step cfg) s as = some t)
    (done : ∀ g ∈ t.running, ¬ Waits protos ch g) (increasing : Increasing ch t.ring.log) :
    Meets (step cfg) (InTurn ch) s as := by
  induction as generalizing s with
  | nil => trivial
  | cons a rest ih =>
    obtain ⟨u, first, later⟩ := run_cons_some.mp taken
    refine (meets_cons first).mpr ⟨?_, ih later⟩
    by_contra early
    have crossed : Crossed ch t := run_invariant (Crossed ch)
      (fun s a t crossed taken => step_crossed crossed taken) (overtakes early first) later
    rcases crossed with broken | ⟨_, _, _, _, g, member, waits, _⟩
    · exact broken increasing
    · exact done g member waits

end Crossed

section Connections

variable {cfg : Config} {ch : String} {c : ConnID} {s t u : State protos} {a : Action protos}

theorem run_ordered {as : List (Action protos)} (inOrder : Meets (step cfg) (PublishedInOrder ch) start as)
    (turns : Meets (step cfg) (InTurn ch) start as) (taken : run (step cfg) start as = some t) :
    Ordered ch t :=
  run_invariant_meets (P := fun s a => PublishedInOrder ch s a ∧ InTurn ch s a) (Ordered ch)
    (fun _ _ _ ordered both taken => step_ordered ordered both.1 both.2 taken) (start_ordered ch)
    (inOrder.and turns) taken

theorem step_rising (inv : Ring.Inv s.ring) (rising : ∀ k, s.ring.readers c = some k → Ring.Rising k)
    (stored : Stored cfg c s a) (taken : step cfg s a = some t) :
    Ring.Inv t.ring ∧ ∀ k, t.ring.readers c = some k → Ring.Rising k := by
  cases step_effect taken with
  | publish => exact ⟨inv, rising⟩
  | dropped => exact ⟨inv, rising⟩
  | @put n g data r _ _ put _ =>
    have unread : Ring.Stored cfg c s.ring (.put data) := trivial
    exact ⟨Ring.step_inv inv put, Ring.step_rising inv rising unread put⟩
  | ring moved _ => exact ⟨Ring.step_inv inv moved, Ring.step_rising inv rising stored moved⟩

theorem run_rising {as : List (Action protos)} (stored : Meets (step cfg) (Stored cfg c) start as)
    (taken : run (step cfg) start as = some t) :
    Ring.Inv t.ring ∧ ∀ k, t.ring.readers c = some k → Ring.Rising k := by
  refine run_invariant_meets
    (fun s : State protos => Ring.Inv s.ring ∧ ∀ k, s.ring.readers c = some k → Ring.Rising k)
    (fun s a t inv stored taken => step_rising inv.1 inv.2 stored taken) ⟨Ring.start_inv, ?_⟩ stored
    taken
  intro k held
  cases held

/-- The messages of a channel are published in the order of their ids. If each handler gets
to run in its turn, then at any time the notifications that a connection has received for
the channel carry rising values of latest_seq. A connection that has received all there
were, with no handler left, has received them in rising order only if each handler got to
run in its turn. -/
theorem notifications_rise {as : List (Action protos)}
    (inOrder : Meets (step cfg) (PublishedInOrder ch) start as)
    (taken : run (step cfg) start as = some t) :
    (Meets (step cfg) (InTurn ch) start as → ∀ c, Meets (step cfg) (Stored cfg c) start as →
      ∀ u, Visited (step cfg) start as u → ∀ k, u.ring.readers c = some k →
        Increasing ch (k.enqueued.map Prod.snd)) ∧
    ((∀ g ∈ t.running, ¬ Waits protos ch g) → ∀ c k, t.ring.readers c = some k →
      k.enqueued.map Prod.snd = t.ring.log →
        (Increasing ch (k.enqueued.map Prod.snd) ↔ Meets (step cfg) (InTurn ch) start as)) := by
  constructor
  · rintro turns c stored u ⟨before, ⟨after, rfl⟩, reached⟩ k held
    have ordered := run_ordered ((meets_append reached).mp inOrder).1 ((meets_append reached).mp turns).1
      reached
    obtain ⟨inv, rising⟩ := run_rising ((meets_append reached).mp stored).1 reached
    exact (rising k held).pairwise (inv.readers c k held) ordered.log
  · intro done c k held all
    rw [all]
    constructor
    · exact turns_of_increasing taken done
    · intro turns
      exact (run_ordered inOrder turns taken).log

end Connections

def worldMsg (id : Int) : ImMessage where
  msgId := id
  channelId := "world"
  channelType := .world
  sender := none
  content := []
  msgType := .text
  msgParam := []
  sendTime := 0
  clientMsgId := ""

/- Two messages published one after the other, before a connection that reads the ring when
both handlers have run, in the order given. -/
def twoMessages (first second : Nat) : List (Action protobuf) :=
  [.ring (.connect 1), .publish .worldBroadcast (worldMsg 1), .publish .worldBroadcast (worldMsg 2),
    .handle first, .handle second, .ring (.store 0), .ring (.store 1), .ring (.consume 1),
    .ring (.consume 1), .ring (.consume 1), .ring (.consume 1)]

def received (s : State protobuf) : Option (List (Option (String × Int))) :=
  (s.ring.readers 1).map fun k => k.enqueued.map fun e => e.2.notify

theorem notifications_rise_two :
    ∃ u k, run (step Ring.serverConfig) start (twoMessages 0 0) = some u ∧ u.ring.readers 1 = some k ∧
      (k.enqueued.map fun e => e.2.notify) = [some ("world", 1), some ("world", 2)] ∧
      Increasing "world" (k.enqueued.map Prod.snd) := by
  have inOrder : Meets (step Ring.serverConfig) (PublishedInOrder "world") start (twoMessages 0 0) := by
    decide +kernel
  have turns : Meets (step Ring.serverConfig) (InTurn "world") start (twoMessages 0 0) := by
    decide +kernel
  have stored : Meets (step Ring.serverConfig) (Stored Ring.serverConfig 1) start (twoMessages 0 0) := by
    decide +kernel
  have view : (run (step Ring.serverConfig) start (twoMessages 0 0)).bind received =
      some [some ("world", 1), some ("world", 2)] := by
    decide +kernel
  obtain ⟨u, taken, rest⟩ := Option.bind_eq_some_iff.mp view
  obtain ⟨k, held, both⟩ := Option.map_eq_some_iff.mp rest
  have rising := (notifications_rise inOrder taken).1 turns 1 stored u (visited_last taken) k held
  exact ⟨u, k, taken, held, both, rising⟩

/- The handler of the second message gets to run first: the connection is told of message 2
as the latest, and then of message 1. -/
theorem later_handler_first :
    Meets (step Ring.serverConfig) (PublishedInOrder "world") start (twoMessages 1 0) ∧
    Meets (step Ring.serverConfig) (Stored Ring.serverConfig 1) start (twoMessages 1 0) ∧
    ∃ u k, run (step Ring.serverConfig) start (twoMessages 1 0) = some u ∧ u.ring.readers 1 = some k ∧
      (k.enqueued.map fun e => e.2.notify) = [some ("world", 2), some ("world", 1)] ∧
      ¬ Increasing "world" (k.enqueued.map Prod.snd) := by
  refine ⟨by decide +kernel, by decide +kernel, ?_⟩
  have view : (run (step Ring.serverConfig) start (twoMessages 1 0)).bind received =
      some [some ("world", 2), some ("world", 1)] := by
    decide +kernel
  obtain ⟨u, taken, rest⟩ := Option.bind_eq_some_iff.mp view
  obtain ⟨k, held, both⟩ := Option.map_eq_some_iff.mp rest
  refine ⟨u, k, taken, held, both, ?_⟩
  intro increasing
  have order : (k.enqueued.map fun e => e.2.notify).Pairwise fun p q =>
      ∀ m n, p = some ("world", m) → q = some ("world", n) → m < n := by
    rw [List.pairwise_map]
    exact List.pairwise_map.mp increasing
  rw [both] at order
  have smaller := (List.pairwise_cons.mp order).1 _ (List.mem_singleton_self _) 2 1 rfl rfl
  omega

end GameIM.App.NotifyOrder
