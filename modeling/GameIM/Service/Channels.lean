import GameIM.Lib.Machine
import GameIM.Delivery.Online

/-! ChannelService of internal/service/channel.go over what it keeps: the state of a
channel, its set of members and the index of a user's channels in Redis, and the channel
document in MongoDB. Stores answer and nothing expires. -/
namespace GameIM.Service.Channels
open Lib Api

section Sets

variable {κ α : Type} [DecidableEq κ] [DecidableEq α] (sets : κ → List α) (key k : κ) (a b : α)

def sadd (set : List α) (a : α) : List α := if a ∈ set then set else set ++ [a]

def srem (set : List α) (a : α) : List α := set.filter (· ≠ a)

def saddAt : κ → List α := Function.update sets key (sadd (sets key) a)

def sremAt : κ → List α := Function.update sets key (srem (sets key) a)

theorem mem_sadd (set : List α) : b ∈ sadd set a ↔ b ∈ set ∨ b = a := by
  unfold sadd
  split
  · rename_i present
    exact ⟨Or.inl, fun h => h.elim id (fun same => same ▸ present)⟩
  · simp

@[simp] theorem mem_saddAt : b ∈ saddAt sets key a k ↔ b ∈ sets k ∨ (k = key ∧ b = a) := by
  by_cases here : k = key
  · subst here
    simp [saddAt, mem_sadd]
  · simp [saddAt, here]

@[simp] theorem mem_sremAt : b ∈ sremAt sets key a k ↔ b ∈ sets k ∧ ¬ (k = key ∧ b = a) := by
  by_cases here : k = key
  · subst here
    simp [sremAt, srem]
  · simp [sremAt, here]

end Sets

inductive Op where
  | createChannel (channelID : String) (channelType : ChannelType)
  | deleteChannel (channelID : String)
  | joinChannel (uid : Int) (channelID : String)
  | leaveChannel (uid : Int) (channelID : String)
  deriving DecidableEq, Repr

/-- A completed call with the error it returned. -/
structure Event where
  op : Op
  err : Option IMError
  deriving DecidableEq, Repr

/-- `log` records the completed calls. -/
structure State where
  channels : String → Option ChannelType
  docs : String → Option ChannelType
  members : String → List Int
  userChannels : Int → List String
  log : List Event

def start : State := ⟨fun _ => none, fun _ => none, fun _ => [], fun _ => [], []⟩

def createChannel (s : State) (channelID : String) (channelType : ChannelType) : State :=
  { s with
    channels := Function.update s.channels channelID (some channelType)
    docs := Function.update s.docs channelID (some channelType) }

/- The members and the indexes are left as they are. -/
def deleteChannel (s : State) (channelID : String) : State :=
  { s with
    channels := Function.update s.channels channelID none
    docs := Function.update s.docs channelID none }

def joinChannel (s : State) (uid : Int) (channelID : String) : Except IMError State :=
  match s.channels channelID with
  | none => .error errChannelNotFound
  | some _ => .ok { s with
      members := saddAt s.members channelID uid
      userChannels := saddAt s.userChannels uid channelID }

def leaveChannel (s : State) (uid : Int) (channelID : String) : State :=
  { s with
    members := sremAt s.members channelID uid
    userChannels := sremAt s.userChannels uid channelID }

def getMembers (s : State) (channelID : String) : List Int :=
  if s.channels channelID = some .world then [] else s.members channelID

def getUserChannels (s : State) (uid : Int) : List String := s.userChannels uid

def State.record (s : State) (op : Op) (err : Option IMError) : State :=
  { s with log := s.log ++ [⟨op, err⟩] }

def perform (s : State) (op : Op) : State :=
  match op with
  | .createChannel channelID channelType => (createChannel s channelID channelType).record op none
  | .deleteChannel channelID => (deleteChannel s channelID).record op none
  | .joinChannel uid channelID => match joinChannel s uid channelID with
    | .error err => s.record op (some err)
    | .ok t => t.record op none
  | .leaveChannel uid channelID => (leaveChannel s uid channelID).record op none

def step (s : State) (op : Op) : Option State := some (perform s op)

/-- The call decides whether the user is in the channel: it is a deletion of the channel,
or a successful join or leave of it by the user. -/
def Event.decides (channelID : String) (uid : Int) (e : Event) : Bool :=
  match e.op with
  | .createChannel _ _ => false
  | .deleteChannel ch => ch = channelID
  | .joinChannel u ch => u = uid ∧ ch = channelID ∧ e.err = none
  | .leaveChannel u ch => u = uid ∧ ch = channelID ∧ e.err = none

def Event.isJoin (e : Event) : Bool :=
  match e.op with
  | .joinChannel _ _ => true
  | _ => false

theorem decides_delete (channelID ch : String) (uid : Int) :
    Event.decides channelID uid ⟨.deleteChannel ch, none⟩ = true ↔ channelID = ch := by
  simp [Event.decides, eq_comm]

theorem decides_join (channelID ch : String) (uid u : Int) :
    Event.decides channelID uid ⟨.joinChannel u ch, none⟩ = true ↔ channelID = ch ∧ uid = u := by
  simp only [Event.decides, and_true, decide_eq_true_eq]
  exact ⟨fun h => ⟨h.2.symm, h.1.symm⟩, fun h => ⟨h.2.symm, h.1.symm⟩⟩

theorem decides_leave (channelID ch : String) (uid u : Int) :
    Event.decides channelID uid ⟨.leaveChannel u ch, none⟩ = true ↔ channelID = ch ∧ uid = u := by
  simp only [Event.decides, and_true, decide_eq_true_eq]
  exact ⟨fun h => ⟨h.2.symm, h.1.symm⟩, fun h => ⟨h.2.symm, h.1.symm⟩⟩

/-- The last of the deciding calls is a join. -/
def Joined (log : List Event) (channelID : String) (uid : Int) : Prop :=
  ((log.filter (Event.decides channelID uid)).getLast?.any Event.isJoin) = true

instance (log : List Event) (channelID : String) (uid : Int) : Decidable (Joined log channelID uid) :=
  inferInstanceAs (Decidable (_ = true))

theorem joined_append (log : List Event) (e : Event) (channelID : String) (uid : Int) :
    Joined (log ++ [e]) channelID uid ↔
      if e.decides channelID uid then e.isJoin = true else Joined log channelID uid := by
  unfold Joined
  cases decides : e.decides channelID uid with
  | true => simp [List.filter_append, decides]
  | false => simp [List.filter_append, decides]

/-- Membership as the two queries show it. -/
structure Exact (s : State) : Prop where
  members : ∀ channelID uid, s.channels channelID ≠ some .world →
    (uid ∈ getMembers s channelID ↔ Joined s.log channelID uid)
  userChannels : ∀ channelID uid, channelID ∈ getUserChannels s uid ↔ Joined s.log channelID uid
  agree : ∀ channelID uid, s.channels channelID ≠ some .world →
    (uid ∈ getMembers s channelID ↔ channelID ∈ getUserChannels s uid)

/- The two sets are always written together. -/
def Paired (s : State) : Prop :=
  ∀ channelID uid, channelID ∈ s.userChannels uid ↔ uid ∈ s.members channelID

def Current (s : State) : Prop :=
  ∀ channelID uid, uid ∈ s.members channelID ↔ Joined s.log channelID uid

inductive Performed (s : State) : Op → State → Prop where
  | kept {op err t} : (∀ channelID uid, Event.decides channelID uid ⟨op, err⟩ = false) →
      t.members = s.members → t.userChannels = s.userChannels → t.log = s.log ++ [⟨op, err⟩] →
      Performed s op t
  | deleted {channelID t} : t.members = s.members → t.userChannels = s.userChannels →
      t.log = s.log ++ [⟨.deleteChannel channelID, none⟩] → Performed s (.deleteChannel channelID) t
  | joined {uid channelID t} : t.members = saddAt s.members channelID uid →
      t.userChannels = saddAt s.userChannels uid channelID →
      t.log = s.log ++ [⟨.joinChannel uid channelID, none⟩] → Performed s (.joinChannel uid channelID) t
  | left {uid channelID t} : t.members = sremAt s.members channelID uid →
      t.userChannels = sremAt s.userChannels uid channelID →
      t.log = s.log ++ [⟨.leaveChannel uid channelID, none⟩] → Performed s (.leaveChannel uid channelID) t

theorem perform_performed (s : State) (op : Op) : Performed s op (perform s op) := by
  cases op with
  | createChannel channelID channelType => exact .kept (fun _ _ => rfl) rfl rfl rfl
  | deleteChannel channelID => exact .deleted rfl rfl rfl
  | joinChannel uid channelID =>
    simp only [perform, joinChannel]
    cases s.channels channelID with
    | none => exact .kept (fun _ _ => by simp [Event.decides]) rfl rfl rfl
    | some channelType => exact .joined rfl rfl rfl
  | leaveChannel uid channelID => exact .left rfl rfl rfl

section Steps

variable {s : State}

theorem perform_paired (paired : Paired s) (op : Op) : Paired (perform s op) := by
  intro channelID uid
  have before := paired channelID uid
  cases perform_performed s op with
  | kept _ members userChannels _ => rwa [members, userChannels]
  | deleted members userChannels _ => rwa [members, userChannels]
  | joined members userChannels _ =>
    rw [members, userChannels, mem_saddAt, mem_saddAt, before, and_comm]
  | left members userChannels _ =>
    rw [members, userChannels, mem_sremAt, mem_sremAt, before, and_comm (a := uid = _)]

/- The deletion of a channel that has members is the only call that the sets do not follow. -/
def Unpopulated (s : State) (op : Op) : Prop :=
  match op with
  | .deleteChannel channelID => s.members channelID = []
  | _ => True

theorem perform_current (current : Current s) {op : Op} (unpopulated : Unpopulated s op) :
    Current (perform s op) := by
  intro channelID uid
  have before := current channelID uid
  cases perform_performed s op with
  | kept idle members _ log =>
    rw [members, log, joined_append, idle, before]
    simp
  | @deleted ch _ members _ log =>
    rw [members, log, joined_append, if_congr (decides_delete channelID ch uid) rfl rfl]
    split
    · rename_i here
      have empty : s.members ch = [] := unpopulated
      simp [here, empty, Event.isJoin]
    · exact before
  | @joined u ch _ members _ log =>
    rw [members, log, joined_append, mem_saddAt, before,
      if_congr (decides_join channelID ch uid u) rfl rfl]
    split
    · rename_i here
      simp [here, Event.isJoin]
    · rename_i other
      simp [other]
  | @left u ch _ members _ log =>
    rw [members, log, joined_append, mem_sremAt, before,
      if_congr (decides_leave channelID ch uid u) rfl rfl]
    split
    · rename_i here
      simp [here, Event.isJoin]
    · rename_i other
      simp [other]

theorem populated_not_current {op : Op} (populated : ¬ Unpopulated s op) : ¬ Current (perform s op) := by
  intro current
  cases op with
  | deleteChannel channelID =>
    obtain ⟨uid, member⟩ := List.exists_mem_of_ne_nil _ populated
    have joined := (current channelID uid).mp member
    have last : ¬ Joined (s.log ++ [⟨.deleteChannel channelID, none⟩]) channelID uid := by
      simp [joined_append, decides_delete, Event.isJoin]
    exact last joined
  | createChannel => exact populated trivial
  | joinChannel => exact populated trivial
  | leaveChannel => exact populated trivial

theorem exact_iff (paired : Paired s) : Exact s ↔ Current s := by
  constructor
  · intro h channelID uid
    exact (paired channelID uid).symm.trans (h.userChannels channelID uid)
  · intro current
    have listed : ∀ channelID uid, s.channels channelID ≠ some .world →
        (uid ∈ getMembers s channelID ↔ uid ∈ s.members channelID) := by
      intro channelID uid other
      rw [getMembers, if_neg other]
    refine ⟨?_, ?_, ?_⟩
    · intro channelID uid other
      exact (listed channelID uid other).trans (current channelID uid)
    · intro channelID uid
      exact (paired channelID uid).trans (current channelID uid)
    · intro channelID uid other
      exact (listed channelID uid other).trans (paired channelID uid).symm

end Steps

/-- The state after the calls, one after the other. -/
def after (ops : List Op) : State := ops.foldl perform start

theorem run_step (ops : List Op) : run step start ops = some (after ops) := run_total perform start ops

theorem after_paired (ops : List Op) : Paired (after ops) := by
  refine run_invariant Paired ?_ ?_ (run_step ops)
  · intro s op t paired taken
    exact Option.some.inj taken ▸ perform_paired paired op
  · simp [Paired, start]

/-- The queries show who joined, after every call, exactly if no channel is deleted while
it has members. -/
theorem membership_exact_iff (ops : List Op) :
    (∀ before, before <+: ops → Exact (after before)) ↔ Meets step Unpopulated start ops := by
  have keeps : ∀ s op t, Current s → Unpopulated s op → step s op = some t → Current t :=
    fun s op t current unpopulated taken => Option.some.inj taken ▸ perform_current current unpopulated
  have breaks : ∀ s op t, Current s → ¬ Unpopulated s op → step s op = some t → ¬ Current t :=
    fun s op t _ populated taken => Option.some.inj taken ▸ populated_not_current populated
  have initial : Current start := by simp [Current, Joined, start]
  rw [← always_iff_meets Current keeps breaks initial (run_step ops)]
  constructor
  · intro exacts before u part reached
    rw [run_step before] at reached
    cases Option.some.inj reached
    exact (exact_iff (after_paired before)).mp (exacts before part)
  · intro currents before part
    exact (exact_iff (after_paired before)).mpr (currents before _ part (run_step before))

/- A user joins an alliance channel, which is then deleted and created anew. -/
def recreated : List Op :=
  [.createChannel "guild" .alliance, .joinChannel 7 "guild", .deleteChannel "guild",
    .createChannel "guild" .alliance]

theorem recreated_channel_has_members :
    getMembers (after recreated) "guild" = [7] ∧ getUserChannels (after recreated) 7 = ["guild"] ∧
      ¬ Joined (after recreated).log "guild" 7 ∧ ¬ Exact (after recreated) := by
  have member : getMembers (after recreated) "guild" = [7] := by decide
  have gone : ¬ Joined (after recreated).log "guild" 7 := by decide
  refine ⟨member, by decide, gone, ?_⟩
  intro exact
  have joined := (exact.members "guild" 7 (by decide)).mp (by simp [member])
  exact gone joined

section Delivery

open GameIM.Delivery

variable {w : World} {s : State}

/-- The delivery engine has the same channel states and member sets before it, with
deadlines that are not reached. -/
structure Shown (w : World) (s : State) : Prop where
  channels : ∀ channelID, w.getChannelState channelID = s.channels channelID
  members : w.members = s.members

def Op.action : Op → Online.Action
  | .createChannel channelID channelType => .createChannel channelID channelType
  | .deleteChannel channelID => .deleteChannel channelID
  | .joinChannel uid channelID => .join uid channelID
  | .leaveChannel uid channelID => .leave uid channelID

theorem Shown.getMembers (shown : Shown w s) (channelID : String) :
    w.getMembers channelID = Channels.getMembers s channelID := by
  rw [World.getMembers, Channels.getMembers, shown.channels, shown.members]

theorem Shown.update (shown : Shown w s) (channelID : String) (entry : Option ChannelEntry)
    (live : ∀ e, entry = some e → w.now < e.deadline) (ch : String) :
    { w with channels := Function.update w.channels channelID entry }.getChannelState ch =
      Function.update s.channels channelID (entry.map (·.channelType)) ch := by
  by_cases here : ch = channelID
  · subst here
    cases entry with
    | none => simp [World.getChannelState]
    | some e => simp [World.getChannelState, live e rfl]
  · have same := shown.channels ch
    simpa [World.getChannelState, here] using same

theorem join_shown (shown : Shown w s) (uid : Int) (channelID : String) :
    Shown (Online.join w uid channelID) (perform s (.joinChannel uid channelID)) := by
  have same := shown.channels channelID
  simp only [perform, joinChannel]
  cases state : s.channels channelID with
  | none =>
    rw [state] at same
    rw [Online.join, if_pos same]
    exact ⟨shown.channels, shown.members⟩
  | some channelType =>
    rw [state] at same
    have known : ¬ w.getChannelState channelID = none := by simp [same]
    rw [Online.join, if_neg known, shown.members]
    by_cases present : uid ∈ s.members channelID
    · rw [if_pos present]
      refine ⟨shown.channels, ?_⟩
      simp [State.record, saddAt, sadd, present, shown.members]
    · rw [if_neg present]
      refine ⟨shown.channels, ?_⟩
      simp [State.record, saddAt, sadd, present]

/-- The actions of the delivery model do to its sets what the calls do. -/
theorem perform_shown (cfg : Online.Config) {x : Online.State} (shown : Shown x.world s) (op : Op) :
    ∃ y, Online.step cfg x op.action = some y ∧ Shown y.world (perform s op) := by
  cases op with
  | createChannel channelID channelType =>
    refine ⟨_, rfl, shown.update channelID (some ⟨channelType, _⟩) ?_, shown.members⟩
    intro e created
    cases Option.some.inj created
    simp [channelStateTTL]
  | deleteChannel channelID =>
    exact ⟨_, rfl, shown.update channelID none (by simp), shown.members⟩
  | joinChannel uid channelID => exact ⟨_, rfl, join_shown shown uid channelID⟩
  | leaveChannel uid channelID =>
    refine ⟨_, rfl, shown.channels, ?_⟩
    simp only [shown.members]
    rfl

theorem performs_shown (cfg : Online.Config) {x : Online.State} (shown : Shown x.world s) (ops : List Op) :
    ∃ y, run (Online.step cfg) x (ops.map Op.action) = some y ∧ Shown y.world (ops.foldl perform s) := by
  induction ops generalizing s x with
  | nil => exact ⟨x, rfl, shown⟩
  | cons op rest ih =>
    obtain ⟨z, taken, next⟩ := perform_shown cfg shown op
    obtain ⟨y, reached, final⟩ := ih next
    exact ⟨y, run_cons_some.mpr ⟨z, taken, reached⟩, final⟩

/-- A message is routed to the members that the channel service shows. -/
theorem routed_members (cfg : Online.Config) (ops : List Op) :
    ∃ y, run (Online.step cfg) Online.start (ops.map Op.action) = some y ∧
      ∀ channelID, y.world.getMembers channelID = Channels.getMembers (after ops) channelID := by
  have initial : Shown Online.start.world start := ⟨fun _ => rfl, rfl⟩
  obtain ⟨y, reached, shown⟩ := performs_shown cfg initial ops
  exact ⟨y, reached, shown.getMembers⟩

end Delivery

end GameIM.Service.Channels
