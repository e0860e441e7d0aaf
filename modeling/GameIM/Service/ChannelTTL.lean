import GameIM.Service.Channels

/-! The channel records of Redis with their lifetimes. The state of a channel lives for
seven days from CreateChannel; RefreshChannelStateTTL, which would prolong it, has no
caller. A user's index lives for seven days from that user's last JoinChannel. The member
set has no expiry. SendMsg writes to none of the three. The stores answer. -/
namespace GameIM.Service.ChannelTTL
open Lib Api Channels Delivery

def userChannelsTTL : Nat := 7 * 24 * 60 * 60

/- A set of channel ids that expires as a whole. -/
structure Index where
  channels : List String
  deadline : Nat
  deriving DecidableEq, Repr

/-- Times are in milliseconds. -/
structure Records where
  now : Nat
  channels : String → Option ChannelEntry
  members : String → List Int
  userChannels : Int → Index

namespace Records

def getChannelState (r : Records) (channelID : String) : Option ChannelType :=
  match r.channels channelID with
  | none => none
  | some e => if r.now < e.deadline then some e.channelType else none

def setChannelState (r : Records) (channelID : String) (channelType : ChannelType) : Records :=
  { r with
    channels := Function.update r.channels channelID
      (some ⟨channelType, r.now + 1000 * channelStateTTL⟩) }

def deleteChannelState (r : Records) (channelID : String) : Records :=
  { r with channels := Function.update r.channels channelID none }

def getUserChannels (r : Records) (uid : Int) : List String :=
  if r.now < (r.userChannels uid).deadline then (r.userChannels uid).channels else []

/- SADD and EXPIRE in one pipeline. -/
def addUserChannel (r : Records) (uid : Int) (channelID : String) : Records :=
  { r with
    userChannels := Function.update r.userChannels uid
      ⟨sadd (r.getUserChannels uid) channelID, r.now + 1000 * userChannelsTTL⟩ }

def removeUserChannel (r : Records) (uid : Int) (channelID : String) : Records :=
  { r with
    userChannels := Function.update r.userChannels uid
      ⟨srem (r.getUserChannels uid) channelID, (r.userChannels uid).deadline⟩ }

def addChannelMember (r : Records) (channelID : String) (uid : Int) : Records :=
  { r with members := saddAt r.members channelID uid }

def removeChannelMember (r : Records) (channelID : String) (uid : Int) : Records :=
  { r with members := sremAt r.members channelID uid }

end Records

def createChannel (r : Records) (channelID : String) (channelType : ChannelType) : Records :=
  r.setChannelState channelID channelType

def deleteChannel (r : Records) (channelID : String) : Records := r.deleteChannelState channelID

def joinChannel (r : Records) (uid : Int) (channelID : String) : Except IMError Records :=
  match r.getChannelState channelID with
  | none => .error errChannelNotFound
  | some _ => .ok ((r.addChannelMember channelID uid).addUserChannel uid channelID)

def leaveChannel (r : Records) (uid : Int) (channelID : String) : Records :=
  (r.removeChannelMember channelID uid).removeUserChannel uid channelID

/-- What has happened. A channel is in `active` from its creation until it is deleted or
seven days pass without an accepted message or a join; `joined` are the users who joined it
in that time and have not left. `created` and `lastJoin` are the times of a channel's last
CreateChannel and of a user's last JoinChannel. -/
structure History where
  active : List String
  lastActive : String → Nat
  joined : List (Int × String)
  created : String → Nat
  lastJoin : Int → Nat

structure State where
  records : Records
  history : History

inductive Action where
  | createChannel (channelID : String) (channelType : ChannelType)
  | deleteChannel (channelID : String)
  | joinChannel (uid : Int) (channelID : String)
  | leaveChannel (uid : Int) (channelID : String)
  | accepted (channelID : String)
  | tick (ms : Nat)
  deriving DecidableEq, Repr

def period : Nat := 7 * 24 * 60 * 60 * 1000

namespace History

def create (h : History) (channelID : String) (now : Nat) : History :=
  if channelID ∈ h.active then { h with created := Function.update h.created channelID now }
  else { h with
    active := h.active ++ [channelID]
    lastActive := Function.update h.lastActive channelID now
    created := Function.update h.created channelID now }

def drop (h : History) (gone : String → Bool) : History :=
  { h with
    active := h.active.filter fun ch => !gone ch
    joined := h.joined.filter fun p => !gone p.2 }

def touch (h : History) (channelID : String) (now : Nat) : History :=
  { h with lastActive := Function.update h.lastActive channelID now }

def join (h : History) (uid : Int) (channelID : String) (now : Nat) : History :=
  { h.touch channelID now with
    joined := if channelID ∈ h.active then h.joined ++ [(uid, channelID)] else h.joined
    lastJoin := Function.update h.lastJoin uid now }

def leave (h : History) (uid : Int) (channelID : String) : History :=
  { h with joined := h.joined.filter (· ≠ (uid, channelID)) }

def lapsed (h : History) (now : Nat) (channelID : String) : Bool := h.lastActive channelID + period ≤ now

end History

def step (s : State) : Action → Option State
  | .createChannel channelID channelType => some
      ⟨createChannel s.records channelID channelType, s.history.create channelID s.records.now⟩
  | .deleteChannel channelID => some
      ⟨deleteChannel s.records channelID, s.history.drop (· = channelID)⟩
  | .joinChannel uid channelID => match joinChannel s.records uid channelID with
    | .error _ => some s
    | .ok r => some ⟨r, s.history.join uid channelID s.records.now⟩
  | .leaveChannel uid channelID => some
      ⟨leaveChannel s.records uid channelID, s.history.leave uid channelID⟩
  | .accepted channelID => some ⟨s.records, s.history.touch channelID s.records.now⟩
  | .tick ms =>
    let now := s.records.now + ms
    some ⟨{ s.records with now := now }, s.history.drop (s.history.lapsed now)⟩

def start : State where
  records := ⟨0, fun _ => none, fun _ => [], fun _ => ⟨[], 0⟩⟩
  history := ⟨[], fun _ => 0, [], fun _ => 0, fun _ => 0⟩

/-- Whoever calls JoinChannel finds the channel, and whoever is in it has it listed. -/
structure Kept (s : State) (channelID : String) : Prop where
  found : ∀ uid, joinChannel s.records uid channelID ≠ .error errChannelNotFound
  listed : ∀ uid, (uid, channelID) ∈ s.history.joined → channelID ∈ s.records.getUserChannels uid

/-- When the clock moves, a channel that stays active was created less than seven days
before, for the last time, and each user who is in it made the last join of any channel
less than seven days before. -/
def InTime (s : State) : Action → Prop
  | .tick ms => ∀ ch ∈ s.history.active, s.history.lapsed (s.records.now + ms) ch = false →
      s.records.now + ms < s.history.created ch + 1000 * channelStateTTL ∧
      ∀ p ∈ s.history.joined, p.2 = ch →
        s.records.now + ms < s.history.lastJoin p.1 + 1000 * userChannelsTTL
  | _ => True

instance decidableInTime (s : State) : ∀ a, Decidable (InTime s a)
  | .tick _ => inferInstanceAs (Decidable (∀ ch ∈ s.history.active, _))
  | .createChannel _ _ | .deleteChannel _ | .joinChannel _ _ | .leaveChannel _ _ | .accepted _ =>
    inferInstanceAs (Decidable True)

structure Dated (s : State) : Prop where
  known : ∀ p ∈ s.history.joined, p.2 ∈ s.history.active
  channels : ∀ ch ∈ s.history.active, ∃ channelType,
    s.records.channels ch = some ⟨channelType, s.history.created ch + 1000 * channelStateTTL⟩
  indexes : ∀ p ∈ s.history.joined,
    (s.records.userChannels p.1).deadline = s.history.lastJoin p.1 + 1000 * userChannelsTTL

section Steps

variable {s t : State} {a : Action}

theorem start_dated : Dated start := by
  constructor
  · intro p joined
    cases joined
  · intro ch active
    cases active
  · intro p joined
    cases joined

theorem create_active (h : History) (channelID ch : String) (now : Nat) :
    ch ∈ (h.create channelID now).active ↔ ch ∈ h.active ∨ ch = channelID := by
  unfold History.create
  split
  · rename_i active
    exact ⟨Or.inl, fun known => known.elim id fun same => same ▸ active⟩
  · simp

@[simp] theorem create_created (h : History) (channelID : String) (now : Nat) :
    (h.create channelID now).created = Function.update h.created channelID now := by
  unfold History.create
  split
  · rfl
  · rfl

@[simp] theorem create_joined (h : History) (channelID : String) (now : Nat) :
    (h.create channelID now).joined = h.joined := by
  unfold History.create
  split
  · rfl
  · rfl

@[simp] theorem create_lastJoin (h : History) (channelID : String) (now : Nat) :
    (h.create channelID now).lastJoin = h.lastJoin := by
  unfold History.create
  split
  · rfl
  · rfl

theorem create_dated (dated : Dated s) (channelID : String) (channelType : ChannelType) :
    Dated ⟨createChannel s.records channelID channelType, s.history.create channelID s.records.now⟩ := by
  constructor
  · simp only [create_joined]
    intro p member
    exact (create_active s.history channelID p.2 _).mpr (Or.inl (dated.known p member))
  · intro ch active
    simp only [create_created]
    by_cases here : ch = channelID
    · subst here
      refine ⟨channelType, ?_⟩
      simp [createChannel, Records.setChannelState]
    · have before := ((create_active s.history channelID ch _).mp active).resolve_right here
      simpa [createChannel, Records.setChannelState, here] using dated.channels ch before
  · simp only [create_joined, create_lastJoin]
    exact dated.indexes

theorem drop_dated (dated : Dated s) (gone : String → Bool) (r : Records)
    (channels : ∀ ch, gone ch = false → r.channels ch = s.records.channels ch)
    (userChannels : r.userChannels = s.records.userChannels) :
    Dated ⟨r, s.history.drop gone⟩ := by
  constructor
  · intro p joined
    obtain ⟨before, stays⟩ := List.mem_filter.mp joined
    exact List.mem_filter.mpr ⟨dated.known p before, stays⟩
  · intro ch active
    obtain ⟨before, stays⟩ := List.mem_filter.mp active
    have kept : gone ch = false := by simpa using stays
    obtain ⟨channelType, entry⟩ := dated.channels ch before
    exact ⟨channelType, (channels ch kept).trans entry⟩
  · intro p joined
    show (r.userChannels p.1).deadline = _
    rw [userChannels]
    exact dated.indexes p (List.mem_of_mem_filter joined)

theorem join_joined (h : History) (uid : Int) (channelID : String) (now : Nat) (p : Int × String) :
    p ∈ (h.join uid channelID now).joined ↔
      p ∈ h.joined ∨ (p = (uid, channelID) ∧ channelID ∈ h.active) := by
  unfold History.join
  by_cases active : channelID ∈ h.active
  · simp [active]
  · simp [active]

theorem joinChannel_ok {r u : Records} {uid : Int} {channelID : String}
    (ok : joinChannel r uid channelID = .ok u) :
    u = (r.addChannelMember channelID uid).addUserChannel uid channelID := by
  unfold joinChannel at ok
  split at ok
  · contradiction
  · exact (Except.ok.inj ok).symm

theorem join_dated (dated : Dated s) (uid : Int) (channelID : String) :
    Dated ⟨(s.records.addChannelMember channelID uid).addUserChannel uid channelID,
      s.history.join uid channelID s.records.now⟩ := by
  constructor
  · intro p joined
    rcases (join_joined s.history uid channelID s.records.now p).mp joined with before | ⟨rfl, active⟩
    · exact dated.known p before
    · exact active
  · exact dated.channels
  · intro p joined
    by_cases here : p.1 = uid
    · simp [Records.addUserChannel, Records.addChannelMember, History.join, History.touch, here]
    · have before : p ∈ s.history.joined := by
        rcases (join_joined s.history uid channelID s.records.now p).mp joined with before | ⟨rfl, _⟩
        · exact before
        · exact absurd rfl here
      simpa [Records.addUserChannel, Records.addChannelMember, History.join, History.touch, here]
        using dated.indexes p before

theorem leave_dated (dated : Dated s) (uid : Int) (channelID : String) :
    Dated ⟨leaveChannel s.records uid channelID, s.history.leave uid channelID⟩ := by
  constructor
  · intro p joined
    exact dated.known p (List.mem_of_mem_filter joined)
  · exact dated.channels
  · intro p joined
    have before := dated.indexes p (List.mem_of_mem_filter joined)
    by_cases here : p.1 = uid
    · subst here
      simpa [leaveChannel, Records.removeUserChannel, Records.removeChannelMember, History.leave]
        using before
    · simpa [leaveChannel, Records.removeUserChannel, Records.removeChannelMember, History.leave, here]
        using before

theorem step_dated (dated : Dated s) (taken : step s a = some t) : Dated t := by
  cases a with
  | createChannel channelID channelType =>
    cases Option.some.inj taken
    exact create_dated dated channelID channelType
  | deleteChannel channelID =>
    cases Option.some.inj taken
    refine drop_dated dated _ _ ?_ rfl
    intro ch other
    have apart : ch ≠ channelID := by simpa using other
    simp [deleteChannel, Records.deleteChannelState, apart]
  | joinChannel uid channelID =>
    simp only [step] at taken
    split at taken
    · cases Option.some.inj taken
      exact dated
    · rename_i r ok
      cases Option.some.inj taken
      cases joinChannel_ok ok
      exact join_dated dated uid channelID
  | leaveChannel uid channelID =>
    cases Option.some.inj taken
    exact leave_dated dated uid channelID
  | accepted channelID =>
    cases Option.some.inj taken
    exact ⟨dated.known, dated.channels, dated.indexes⟩
  | tick ms =>
    cases Option.some.inj taken
    exact drop_dated dated _ _ (fun _ _ => rfl) rfl

theorem getChannelState_eq_none {r : Records} {ch : String} {e : ChannelEntry}
    (entry : r.channels ch = some e) : r.getChannelState ch = none ↔ e.deadline ≤ r.now := by
  simp [Records.getChannelState, entry]

theorem joinChannel_found (r : Records) (uid : Int) (ch : String) :
    joinChannel r uid ch ≠ .error errChannelNotFound ↔ r.getChannelState ch ≠ none := by
  unfold joinChannel
  cases r.getChannelState ch with
  | none => simp
  | some channelType => simp

theorem found_iff (dated : Dated s) {ch : String} (active : ch ∈ s.history.active) (uid : Int) :
    joinChannel s.records uid ch ≠ .error errChannelNotFound ↔
      s.records.now < s.history.created ch + 1000 * channelStateTTL := by
  obtain ⟨channelType, entry⟩ := dated.channels ch active
  rw [joinChannel_found, ne_eq, getChannelState_eq_none entry, Nat.not_le]

theorem mem_getUserChannels (r : Records) (uid : Int) (ch : String) :
    ch ∈ r.getUserChannels uid ↔
      r.now < (r.userChannels uid).deadline ∧ ch ∈ (r.userChannels uid).channels := by
  unfold Records.getUserChannels
  by_cases live : r.now < (r.userChannels uid).deadline
  · simp [live]
  · simp [live]

theorem mem_add (r : Records) (uid u : Int) (channelID ch : String) :
    ch ∈ (r.addUserChannel uid channelID).getUserChannels u ↔
      ch ∈ r.getUserChannels u ∨ (u = uid ∧ ch = channelID) := by
  by_cases here : u = uid
  · subst here
    have ttl : 0 < 1000 * userChannelsTTL := by decide
    simp [mem_getUserChannels, Records.addUserChannel, mem_sadd, ttl]
  · simp [mem_getUserChannels, Records.addUserChannel, here]

theorem mem_remove (r : Records) (uid u : Int) (channelID ch : String) :
    ch ∈ (r.removeUserChannel uid channelID).getUserChannels u ↔
      ch ∈ r.getUserChannels u ∧ ¬ (u = uid ∧ ch = channelID) := by
  by_cases here : u = uid
  · subst here
    simp only [mem_getUserChannels, Records.removeUserChannel, Function.update_self, srem, List.mem_filter,
      decide_eq_true_eq, true_and]
    exact ⟨fun h => ⟨h.2.1, h.2.2⟩, fun h => ⟨h.1.1, h.1, h.2⟩⟩
  · simp [mem_getUserChannels, Records.removeUserChannel, here]

end Steps

section Kept

variable {s t : State} {a : Action}

theorem found_kept (dated : Dated s) (after : Dated t) {ch : String} (before : ch ∈ s.history.active)
    (active : ch ∈ t.history.active) (now : t.records.now = s.records.now)
    (created : t.history.created ch = s.history.created ch) (kept : Kept s ch) (uid : Int) :
    joinChannel t.records uid ch ≠ .error errChannelNotFound := by
  rw [found_iff after active uid, now, created]
  exact (found_iff dated before uid).mp (kept.found uid)

theorem create_kept (dated : Dated s) (kept : ∀ ch ∈ s.history.active, Kept s ch)
    (channelID : String) (channelType : ChannelType) (ch : String)
    (active : ch ∈ (s.history.create channelID s.records.now).active) :
    Kept ⟨createChannel s.records channelID channelType, s.history.create channelID s.records.now⟩ ch := by
  have after := create_dated dated channelID channelType
  constructor
  · intro uid
    by_cases here : ch = channelID
    · subst here
      rw [found_iff after active uid]
      simp only [create_created, Function.update_self]
      exact Nat.lt_add_of_pos_right (by decide)
    · have before := ((create_active s.history channelID ch _).mp active).resolve_right here
      refine found_kept dated after before active rfl ?_ (kept ch before) uid
      simp only [create_created, Function.update_of_ne here]
  · intro uid joined
    simp only [create_joined] at joined
    exact (kept ch (dated.known _ joined)).listed uid joined

theorem join_kept (dated : Dated s) (kept : ∀ ch ∈ s.history.active, Kept s ch) (uid : Int)
    (channelID ch : String) (active : ch ∈ s.history.active) :
    Kept ⟨(s.records.addChannelMember channelID uid).addUserChannel uid channelID,
      s.history.join uid channelID s.records.now⟩ ch := by
  have after := join_dated dated uid channelID
  constructor
  · exact found_kept dated after active active rfl rfl (kept ch active)
  · intro u joined
    rw [mem_add]
    rcases (join_joined s.history uid channelID s.records.now _).mp joined with before | ⟨same, _⟩
    · exact Or.inl ((kept ch active).listed u before)
    · cases same
      exact Or.inr ⟨rfl, rfl⟩

theorem leave_kept (dated : Dated s) (kept : ∀ ch ∈ s.history.active, Kept s ch) (uid : Int)
    (channelID ch : String) (active : ch ∈ s.history.active) :
    Kept ⟨leaveChannel s.records uid channelID, s.history.leave uid channelID⟩ ch := by
  have after := leave_dated dated uid channelID
  constructor
  · exact found_kept dated after active active rfl rfl (kept ch active)
  · intro u joined
    obtain ⟨before, other⟩ := List.mem_filter.mp joined
    refine (mem_remove _ uid u channelID ch).mpr ⟨(kept ch active).listed u before, ?_⟩
    rintro ⟨rfl, rfl⟩
    simp at other

theorem delete_kept (dated : Dated s) (kept : ∀ ch ∈ s.history.active, Kept s ch)
    (channelID ch : String) (active : ch ∈ (s.history.drop (· = channelID)).active)
    (after : Dated ⟨deleteChannel s.records channelID, s.history.drop (· = channelID)⟩) :
    Kept ⟨deleteChannel s.records channelID, s.history.drop (· = channelID)⟩ ch := by
  have before := List.mem_of_mem_filter active
  constructor
  · exact found_kept dated after before active rfl rfl (kept ch before)
  · intro u joined
    exact (kept ch before).listed u (List.mem_of_mem_filter joined)

theorem tick_kept {ms : Nat} (dated : Dated s) (kept : ∀ ch ∈ s.history.active, Kept s ch)
    (inTime : InTime s (.tick ms)) (taken : step s (.tick ms) = some t) :
    ∀ ch ∈ t.history.active, Kept t ch := by
  have after := step_dated dated taken
  cases Option.some.inj taken
  intro ch active
  obtain ⟨before, stays⟩ := List.mem_filter.mp active
  obtain ⟨live, joins⟩ := inTime ch before (by simpa using stays)
  constructor
  · intro u
    exact (found_iff after active u).mpr live
  · intro u joined
    have member := List.mem_of_mem_filter joined
    have listed := ((mem_getUserChannels _ u ch).mp ((kept ch before).listed u member)).2
    refine (mem_getUserChannels _ u ch).mpr ⟨?_, listed⟩
    show s.records.now + ms < (s.records.userChannels u).deadline
    rw [dated.indexes _ member]
    exact joins _ member rfl

theorem step_kept (dated : Dated s) (kept : ∀ ch ∈ s.history.active, Kept s ch) (inTime : InTime s a)
    (taken : step s a = some t) : ∀ ch ∈ t.history.active, Kept t ch := by
  have after := step_dated dated taken
  cases a with
  | createChannel channelID channelType =>
    cases Option.some.inj taken
    exact create_kept dated kept channelID channelType
  | deleteChannel channelID =>
    cases Option.some.inj taken
    intro ch active
    exact delete_kept dated kept channelID ch active after
  | joinChannel uid channelID =>
    simp only [step] at taken
    split at taken
    · cases Option.some.inj taken
      exact kept
    · rename_i r ok
      cases Option.some.inj taken
      cases joinChannel_ok ok
      exact join_kept dated kept uid channelID
  | leaveChannel uid channelID =>
    cases Option.some.inj taken
    exact leave_kept dated kept uid channelID
  | accepted channelID =>
    cases Option.some.inj taken
    intro ch active
    exact ⟨(kept ch active).found, (kept ch active).listed⟩
  | tick ms => exact tick_kept dated kept inTime taken

theorem late_not_kept (dated : Dated s) (late : ¬ InTime s a) (taken : step s a = some t) :
    ¬ ∀ ch ∈ t.history.active, Kept t ch := by
  intro kept
  have after := step_dated dated taken
  cases a with
  | tick ms =>
    cases Option.some.inj taken
    refine late ?_
    intro ch before stays
    have active : ch ∈ (s.history.drop (s.history.lapsed (s.records.now + ms))).active :=
      List.mem_filter.mpr ⟨before, by simp [stays]⟩
    refine ⟨(found_iff after active 0).mp ((kept ch active).found 0), ?_⟩
    rintro ⟨uid, _⟩ member rfl
    have joined : (uid, _) ∈ (s.history.drop (s.history.lapsed (s.records.now + ms))).joined :=
      List.mem_filter.mpr ⟨member, by simp [stays]⟩
    have live := ((mem_getUserChannels _ uid _).mp ((kept _ active).listed uid joined)).1
    rw [dated.indexes _ member] at live
    exact live
  | createChannel => exact late trivial
  | deleteChannel => exact late trivial
  | joinChannel => exact late trivial
  | leaveChannel => exact late trivial
  | accepted => exact late trivial

/-- For channels that see an accepted message or a join in every seven days: all along a
run, JoinChannel finds the channel and GetUserChannels lists it for everybody who is in it,
exactly if each is created anew, and each user who is in it joins again, before seven days
have passed since the last time. -/
theorem active_kept_iff {as : List Action} (taken : run step start as = some s) :
    (∀ before u, before <+: as → run step start before = some u →
      ∀ ch ∈ u.history.active, Kept u ch) ↔ Meets step InTime start as := by
  have both := always_iff_meets (P := InTime)
    (fun s : State => Dated s ∧ ∀ ch ∈ s.history.active, Kept s ch)
    (fun s a t inv inTime taken =>
      ⟨step_dated inv.1 taken, step_kept inv.1 inv.2 inTime taken⟩)
    (fun s a t inv late taken after => late_not_kept inv.1 late taken after.2)
    ⟨start_dated, fun ch active => by cases active⟩ taken
  rw [← both]
  constructor
  · intro kept before u part reached
    exact ⟨run_invariant Dated (fun _ _ _ dated taken => step_dated dated taken) start_dated reached,
      kept before u part reached⟩
  · intro inv before u part reached
    exact (inv before u part reached).2

end Kept

section Calls

variable {r : Records} {w : Channels.State}

/-- What the queries show is what they show where nothing expires. -/
structure Shown (r : Records) (w : Channels.State) : Prop where
  channels : ∀ ch, r.getChannelState ch = w.channels ch
  members : r.members = w.members
  userChannels : ∀ uid, r.getUserChannels uid = w.userChannels uid

theorem getChannelState_congr {u : Records} {ch : String} (now : u.now = r.now)
    (entry : u.channels ch = r.channels ch) : u.getChannelState ch = r.getChannelState ch := by
  simp only [Records.getChannelState, now, entry]

theorem createChannel_shown (shown : Shown r w) (channelID : String) (channelType : ChannelType) :
    Shown (createChannel r channelID channelType) (Channels.createChannel w channelID channelType) := by
  refine ⟨?_, shown.members, shown.userChannels⟩
  intro ch
  by_cases here : ch = channelID
  · subst here
    have ttl : 0 < 1000 * channelStateTTL := by decide
    simp [createChannel, Records.setChannelState, Records.getChannelState, Channels.createChannel, ttl]
  · have entry : (createChannel r channelID channelType).channels ch = r.channels ch :=
      Function.update_of_ne here _ _
    have same : (Channels.createChannel w channelID channelType).channels ch = w.channels ch :=
      Function.update_of_ne here _ _
    rw [same, ← shown.channels ch]
    exact getChannelState_congr rfl entry

theorem deleteChannel_shown (shown : Shown r w) (channelID : String) :
    Shown (deleteChannel r channelID) (Channels.deleteChannel w channelID) := by
  refine ⟨?_, shown.members, shown.userChannels⟩
  intro ch
  by_cases here : ch = channelID
  · subst here
    simp [deleteChannel, Records.deleteChannelState, Records.getChannelState, Channels.deleteChannel]
  · have entry : (deleteChannel r channelID).channels ch = r.channels ch :=
      Function.update_of_ne here _ _
    have same : (Channels.deleteChannel w channelID).channels ch = w.channels ch :=
      Function.update_of_ne here _ _
    rw [same, ← shown.channels ch]
    exact getChannelState_congr rfl entry

theorem getUserChannels_add (same : ∀ uid, r.getUserChannels uid = w.userChannels uid) (uid : Int)
    (channelID : String) (u : Int) :
    (r.addUserChannel uid channelID).getUserChannels u = saddAt w.userChannels uid channelID u := by
  by_cases here : u = uid
  · subst here
    have ttl : 0 < 1000 * userChannelsTTL := by decide
    simp [Records.addUserChannel, Records.getUserChannels, saddAt, ← same, ttl]
  · simpa [Records.addUserChannel, Records.getUserChannels, saddAt, here] using same u

theorem getUserChannels_remove (same : ∀ uid, r.getUserChannels uid = w.userChannels uid) (uid : Int)
    (channelID : String) (u : Int) :
    (r.removeUserChannel uid channelID).getUserChannels u = sremAt w.userChannels uid channelID u := by
  by_cases here : u = uid
  · subst here
    simp only [Records.removeUserChannel, Records.getUserChannels, Function.update_self, sremAt,
      ← same]
    split
    · rfl
    · rfl
  · simpa [Records.removeUserChannel, Records.getUserChannels, sremAt, here] using same u

theorem joinChannel_shown (shown : Shown r w) (uid : Int) (channelID : String) :
    match joinChannel r uid channelID, Channels.joinChannel w uid channelID with
    | .ok u, .ok v => Shown u v
    | .error e, .error f => e = f
    | _, _ => False := by
  have state := shown.channels channelID
  unfold joinChannel Channels.joinChannel
  rw [state]
  cases w.channels channelID with
  | none => rfl
  | some channelType =>
    refine ⟨shown.channels, ?_, ?_⟩
    · show saddAt r.members channelID uid = _
      rw [shown.members]
    · exact getUserChannels_add shown.userChannels uid channelID

theorem leaveChannel_shown (shown : Shown r w) (uid : Int) (channelID : String) :
    Shown (leaveChannel r uid channelID) (Channels.leaveChannel w uid channelID) := by
  refine ⟨shown.channels, ?_, ?_⟩
  · show sremAt r.members channelID uid = _
    rw [shown.members]
    rfl
  · exact getUserChannels_remove shown.userChannels uid channelID

theorem Shown.record (shown : Shown r w) (op : Op) (err : Option IMError) : Shown r (w.record op err) :=
  ⟨shown.channels, shown.members, shown.userChannels⟩

def Action.ofOp : Op → Action
  | .createChannel channelID channelType => .createChannel channelID channelType
  | .deleteChannel channelID => .deleteChannel channelID
  | .joinChannel uid channelID => .joinChannel uid channelID
  | .leaveChannel uid channelID => .leaveChannel uid channelID

theorem step_shown {s : State} (shown : Shown s.records w) (op : Op) :
    ∃ t, step s (.ofOp op) = some t ∧ Shown t.records (perform w op) := by
  cases op with
  | createChannel channelID channelType =>
    exact ⟨_, rfl, (createChannel_shown shown channelID channelType).record _ _⟩
  | deleteChannel channelID => exact ⟨_, rfl, (deleteChannel_shown shown channelID).record _ _⟩
  | joinChannel uid channelID =>
    have joined := joinChannel_shown shown uid channelID
    simp only [Action.ofOp, step, perform]
    split at joined
    · rename_i u v here there
      rw [here, there]
      exact ⟨_, rfl, joined.record _ _⟩
    · rename_i e f here there
      rw [here, there]
      exact ⟨_, rfl, shown.record _ _⟩
    · contradiction
  | leaveChannel uid channelID => exact ⟨_, rfl, (leaveChannel_shown shown uid channelID).record _ _⟩

/-- As long as the clock stands, the records show what they show where nothing expires. -/
theorem calls_shown {s : State} (shown : Shown s.records w) (ops : List Op) :
    ∃ t, run step s (ops.map .ofOp) = some t ∧ Shown t.records (ops.foldl perform w) := by
  induction ops generalizing s w with
  | nil => exact ⟨s, rfl, shown⟩
  | cons op rest ih =>
    obtain ⟨u, taken, here⟩ := step_shown shown op
    obtain ⟨t, more, there⟩ := ih here
    exact ⟨t, run_cons_some.mpr ⟨u, taken, more⟩, there⟩

end Calls

def days (n : Nat) : Nat := n * 24 * 60 * 60 * 1000

/- A channel with a message every three or four days, created once more in between, whose
member joins once more. -/
def recreatedInTime : List Action :=
  [.createChannel "guild" .alliance, .joinChannel 7 "guild", .tick (days 3), .accepted "guild",
    .tick (days 3), .createChannel "guild" .alliance, .joinChannel 7 "guild", .tick (days 4),
    .accepted "guild", .tick (days 2)]

theorem active_kept_recreated :
    ∃ u, run step start recreatedInTime = some u ∧ u.history.active = ["guild"] ∧
      u.records.now = days 12 ∧ Kept u "guild" := by
  have inTime : Meets step InTime start recreatedInTime := by decide +kernel
  have view : ((run step start recreatedInTime).map fun u => (u.history.active, u.records.now)) =
      some (["guild"], days 12) := by
    decide +kernel
  obtain ⟨u, taken, fields⟩ := Option.map_eq_some_iff.mp view
  simp only [Prod.mk.injEq] at fields
  obtain ⟨active, now⟩ := fields
  have kept := (active_kept_iff taken).mpr inTime recreatedInTime u List.prefix_rfl taken
  exact ⟨u, taken, active, now, kept "guild" (by simp [active])⟩

/- A message every four days. -/
def eightDays : List Action :=
  [.createChannel "guild" .alliance, .joinChannel 7 "guild", .tick (days 4), .accepted "guild",
    .tick (days 4), .accepted "guild"]

/- On the eighth day the channel is gone for whoever wants to join, and its member, who
still receives its messages, does not see it. -/
theorem active_channel_expires :
    ∃ u, run step start eightDays = some u ∧ "guild" ∈ u.history.active ∧
      (7, "guild") ∈ u.history.joined ∧ 7 ∈ u.records.members "guild" ∧
      joinChannel u.records 8 "guild" = .error errChannelNotFound ∧ u.records.getUserChannels 7 = [] ∧
      ¬ Kept u "guild" := by
  have view : ((run step start eightDays).map fun u => (u.history.active, u.history.joined,
      u.records.members "guild", (u.records.getChannelState "guild").isNone,
      u.records.getUserChannels 7)) = some (["guild"], [(7, "guild")], [7], true, []) := by
    decide +kernel
  obtain ⟨u, taken, fields⟩ := Option.map_eq_some_iff.mp view
  simp only [Prod.mk.injEq] at fields
  obtain ⟨active, joined, members, state, userChannels⟩ := fields
  have missing : joinChannel u.records 8 "guild" = .error errChannelNotFound := by
    simp only [joinChannel, Option.isNone_iff_eq_none.mp state]
  refine ⟨u, taken, by simp [active], by simp [joined], by simp [members], missing, userChannels, ?_⟩
  intro kept
  exact kept.found 8 missing

end GameIM.Service.ChannelTTL
