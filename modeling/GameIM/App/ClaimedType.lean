import GameIM.Delivery.Online
import GameIM.Gateway.Handlers

/-! A channel's type is in its stored state and, once more, in every request of a client.
SendMsg asks for the switch of the type in the request and Deliver routes by it; only
GetMembers looks at the stored one. -/
namespace GameIM.App.ClaimedType
open Api Gateway Service Delivery Gateway.Handlers

/-- The types whose messages go to a list of members. -/
def MemberList (t : ChannelType) : Prop := t = .alliance ∨ t = .activity ∨ t = .private

theorem MemberList.not_broadcast {t : ChannelType} (list : MemberList t) : t ≠ .world ∧ t ≠ .system := by
  rcases list with rfl | rfl | rfl <;> decide

structure Passes (cfg : Service.Config) (caches : Caches) (c : Call) : Prop where
  short : c.req.content.length ≤ maxMsgLength
  filtered : (FilterChain.check cfg.filters c.uid c.req.content).pass = true
  allowed : (checkBanCached cfg caches.ban c.now c.uid).1 = false

section Send

variable {cfg : Service.Config} {s : Servers} {c : Call}

theorem precheck_unavail {caches : Caches} (passes : Passes cfg caches c) :
    (precheck cfg caches c.now c.uid c.req).1 = .error errChannelUnavail ↔
      (checkAvailCached cfg caches.avail c.now c.req.channelType).1 = false := by
  have short : ¬ maxMsgLength < c.req.content.length := Nat.not_lt.mpr passes.short
  unfold precheck
  rw [if_neg short]
  simp only [passes.filtered, passes.allowed, Bool.not_true, Bool.false_eq_true, if_false]
  cases (checkAvailCached cfg caches.avail c.now c.req.channelType).1 with
  | true => simp
  | false => simp

theorem sendMsg_unavail : (sendMsg cfg s c).1 = .rejected errChannelUnavail ↔
    (precheck cfg (s.caches c.server) c.now c.uid c.req).1 = .error errChannelUnavail := by
  constructor
  · intro rejected
    have sent := sendMsg_sent cfg s c
    generalize (sendMsg cfg s c).2 = t at sent
    rw [rejected] at sent
    generalize outcome : Outcome.rejected errChannelUnavail = o at sent
    cases sent with
    | refused checked =>
      rw [checked]
      exact congrArg Except.error (Outcome.rejected.inj outcome).symm
    | unnumbered => exact absurd (Outcome.rejected.inj outcome) (by decide)
    | failed => exact absurd (Outcome.rejected.inj outcome) (by decide)
    | known => contradiction
    | limited => exact absurd (Outcome.rejected.inj outcome) (by decide)
    | accepted => contradiction
  · intro refused
    have checked : precheck cfg (s.caches c.server) c.now c.uid c.req =
        (.error errChannelUnavail, (precheck cfg (s.caches c.server) c.now c.uid c.req).2) :=
      Prod.ext refused rfl
    unfold sendMsg
    rw [checked]

theorem accepted_built {msg : ImMessage} (accepted : (sendMsg cfg s c).1 = .accepted msg) :
    ∃ content msgID, msg = buildMsg msgID c.sender c.req content c.now ∧
      c.req.content.length ≤ maxMsgLength := by
  have sent := sendMsg_sent cfg s c
  generalize (sendMsg cfg s c).2 = t at sent
  rw [accepted] at sent
  cases sent with
  | @accepted content msgID _ _ numbered =>
    refine ⟨content, msgID, rfl, ?_⟩
    obtain ⟨caches, checked, _⟩ := numbered
    by_contra long
    rw [precheck, if_pos (Nat.not_le.mp long)] at checked
    simp at checked

end Send

def Accepts (protos : Protos) : Prop :=
  ∀ msg : ImMessage, validUTF8 msg.content = true → ∃ push, marshalPush protos msg = some push

section Deliver

variable {protos : Protos} {size : Nat} {w v : World} {msg : ImMessage} {faults : Faults}

theorem getMembers_listed {channelID : String} {stored : ChannelType}
    (state : w.getChannelState channelID = some stored) (list : MemberList stored) :
    w.getMembers channelID = w.members channelID := by
  have other : ¬ some stored = some ChannelType.world := by simpa using list.not_broadcast.1
  rw [World.getMembers, state, if_neg other]

theorem protobuf_accepts : Accepts protobuf := by
  intro msg valid
  obtain ⟨data, marshalled⟩ := Option.isSome_iff_exists.mp ((marshalImMessage_isSome msg).trans valid)
  simp [marshalPush, protobuf, marshalPushNewMessage, marshalled, frameProto]

theorem deliver_ok (accepts : Accepts protos) (member : msg.channelType ≠ .world ∧ msg.channelType ≠ .system)
    (members : faults.getMembers = false) (presence : faults.getPresence = false)
    (valid : validUTF8 msg.content = true) : ∃ v, deliver protos size w msg faults = .ok v := by
  obtain ⟨push, made⟩ := accepts msg valid
  unfold deliver
  rw [if_neg member.1, if_neg member.2]
  simp only [members, presence, made, Bool.false_eq_true, if_false]
  split
  · exact ⟨w, rfl⟩
  · exact ⟨_, rfl⟩

theorem deliver_through (member : msg.channelType ≠ .world ∧ msg.channelType ≠ .system)
    (done : deliver protos size w msg faults = .ok v) :
    v.published = w.published ∧
      Through protos (w.getMembers msg.channelId) (isOnline w) msg faults w v := by
  cases deliver_delivered done with
  | published channel =>
    rcases channel with world | system
    · exact absurd world member.1
    · exact absurd system member.2
  | nobody empty =>
    rw [empty]
    exact ⟨rfl, fun _ none => by contradiction⟩
  | routed channel made => exact ⟨routes_published _ w, routes_through channel made _ w⟩

end Deliver

/-- Whatever the server is set up with and has cached, a request that passes the other
checks is refused for its channel exactly if the stored type is switched off. -/
def Gated (stored : ChannelType) (req : Service.SendMsgReq) : Prop :=
  ∀ (cfg : Service.Config) (s : Servers) (c : Call), c.req = req → c.sender = senderOf c.uid →
    Passes cfg (s.caches c.server) c →
    ((sendMsg cfg s c).1 = .rejected errChannelUnavail ↔
      (checkAvailCached cfg (s.caches c.server).avail c.now stored).1 = false)

/-- Wherever the request is accepted and its channel has this stored type, a delivery
that returns nil has gone through the member list and published nothing; and it does
return nil unless a read fails or a filter left a content that is not UTF-8. -/
def Routed (stored : ChannelType) (req : Service.SendMsgReq) : Prop :=
  ∀ (protos : Protos) (cfg : Service.Config) (s : Servers) (c : Call) (msg : ImMessage) (size : Nat) (w : World)
    (faults : Faults), Accepts protos → c.req = req → c.sender = senderOf c.uid →
    (sendMsg cfg s c).1 = .accepted msg → w.getChannelState req.channelID = some stored →
    (∀ v, deliver protos size w msg faults = .ok v → v.published = w.published ∧
      Through protos (w.members req.channelID) (isOnline w) msg faults w v) ∧
    (faults.getMembers = false → faults.getPresence = false → validUTF8 msg.content = true →
      ∃ v, deliver protos size w msg faults = .ok v)

section Claimed

variable {stored : ChannelType} {req : Service.SendMsgReq}

theorem gated_same (same : req.channelType = stored) : Gated stored req := by
  rintro cfg s c rfl _ passes
  rw [sendMsg_unavail, precheck_unavail passes, same]

theorem gated_long (long : maxMsgLength < req.content.length) : Gated stored req := by
  rintro cfg s c rfl _ passes
  exact absurd passes.short (Nat.not_le.mpr long)

theorem routed_member (list : MemberList stored)
    (member : req.channelType ≠ .world ∧ req.channelType ≠ .system) : Routed stored req := by
  rintro protos cfg s c msg size w faults accepts rfl _ accepted state
  obtain ⟨content, msgID, rfl, _⟩ := accepted_built accepted
  constructor
  · intro v done
    have through := deliver_through member done
    rwa [show (buildMsg msgID c.sender c.req content c.now).channelId = c.req.channelID from rfl,
      getMembers_listed state list] at through
  · exact deliver_ok accepts member

theorem routed_long (long : maxMsgLength < req.content.length) : Routed stored req := by
  rintro protos cfg s c msg size w faults _ rfl _ accepted
  obtain ⟨_, _, _, short⟩ := accepted_built accepted
  exact absurd short (Nat.not_le.mpr long)

def closing (t : ChannelType) : Service.Config := { permissive with isAvailable := fun _ u => some (decide (u ≠ t)) }

theorem closing_avail (t u : ChannelType) (now : Nat) :
    (checkAvailCached (closing t) (idleServers.caches 0).avail now u).1 = false ↔ u = t := by
  have miss : (idleServers.caches 0).avail.get now (availKey u) = none := rfl
  simp [checkAvailCached, checkCached, miss, closing]

theorem same_of_gated (gated : Gated stored req) (short : req.content.length ≤ maxMsgLength) :
    req.channelType = stored := by
  have passes : Passes (closing stored) (idleServers.caches 0)
      ⟨0, 0, 7, senderOf 7, req, false, .none⟩ := ⟨short, rfl, rfl⟩
  have applied := gated (closing stored) idleServers ⟨0, 0, 7, senderOf 7, req, false, .none⟩ rfl rfl
    passes
  rw [sendMsg_unavail, precheck_unavail passes] at applied
  have off := applied.mpr ((closing_avail stored stored 0).mpr rfl)
  exact (closing_avail stored req.channelType 0).mp off

end Claimed

/-- The claimed type decides: a client's request is gated and routed by the stored type of
its channel exactly if it claims that type, or is refused for its length before. -/
theorem stored_type_applied_iff {stored : ChannelType} (list : MemberList stored)
    (req : Pb.SendMsgReq) :
    Gated stored (serviceReq req) ∧ Routed stored (serviceReq req) ↔
      req.channelType = stored ∨ maxMsgLength < req.content.length := by
  constructor
  · rintro ⟨gated, _⟩
    by_cases long : maxMsgLength < req.content.length
    · exact Or.inr long
    · exact Or.inl (same_of_gated gated (Nat.le_of_not_lt long))
  · rintro (same | long)
    · subst same
      exact ⟨gated_same rfl, routed_member list list.not_broadcast⟩
    · exact ⟨gated_long long, routed_long long⟩

def guild : World :=
  { Online.start.world with
    channels := fun ch => if ch = "guild" then some ⟨.alliance, 1000 * channelStateTTL⟩ else none
    members := fun ch => if ch = "guild" then [7, 8] else [] }

def guildReq (claimed : ChannelType) : Pb.SendMsgReq := ⟨"guild", claimed, [104, 105], .text, [], "m-1"⟩

def guildCall (claimed : ChannelType) : Call :=
  ⟨0, 5, 7, senderOf 7, serviceReq (guildReq claimed), false, .none⟩

def guildMsg (claimed : ChannelType) : ImMessage :=
  buildMsg 1 (senderOf 7) (serviceReq (guildReq claimed)) [104, 105] 5

theorem stored_type_applied_guild : Gated .alliance (serviceReq (guildReq .alliance)) ∧
    (sendMsg permissive idleServers (guildCall .alliance)).1 = .accepted (guildMsg .alliance) ∧
    ∃ v, deliver protobuf 256 guild (guildMsg .alliance) noFaults = .ok v ∧ v.published = [] ∧
      Enqueued protobuf v (guildMsg .alliance) 8 := by
  obtain ⟨gated, routed⟩ :=
    (stored_type_applied_iff (Or.inl rfl : MemberList .alliance) (guildReq .alliance)).mpr (Or.inl rfl)
  have accepted : (sendMsg permissive idleServers (guildCall .alliance)).1 =
      .accepted (guildMsg .alliance) := rfl
  obtain ⟨through, returns⟩ := routed protobuf permissive idleServers (guildCall .alliance)
    (guildMsg .alliance) 256 guild noFaults protobuf_accepts rfl rfl accepted rfl
  obtain ⟨v, done⟩ := returns rfl rfl (by decide +kernel)
  obtain ⟨published, members⟩ := through v done
  exact ⟨gated, accepted, v, done, published, (members 8 (by decide) rfl).2 rfl rfl⟩

/-- Alliance channels are switched off. Under the type of the world channel a message for
an alliance is accepted, and all that is done with it is to publish it to everybody. -/
theorem claimed_type_applied :
    guild.getChannelState "guild" = some .alliance ∧ 8 ∈ guild.members "guild" ∧
    (checkAvailCached (closing .alliance) (idleServers.caches 0).avail 5 .alliance).1 = false ∧
    (sendMsg (closing .alliance) idleServers (guildCall .world)).1 = .accepted (guildMsg .world) ∧
    deliver protobuf 256 guild (guildMsg .world) noFaults =
      .ok { guild with published := [(.worldBroadcast, guildMsg .world)] } := by
  exact ⟨rfl, by decide, rfl, rfl, rfl⟩

end GameIM.App.ClaimedType
