import GameIM.Service.Solo

/-! A message id belongs to one message of its channel: a message has the number that
its own call of Next returned for the channel, and no number is returned twice. -/
namespace GameIM.Service.SendSteps
open GameIM.Lib GameIM.Api GameIM.Store GameIM.Service

/- A call asks for a number of its own channel, its message has the number it got,
and what is posted is the message of its call. -/
structure Identified (s : State) : Prop where
  asked : ∀ i c content, s.sends i = some c → c.phase = .allocating content →
    ∃ a p, s.alloc.calls i = some ⟨a, c.req.channelID, p⟩
  numbered : ∀ i c msg, s.sends i = some c → c.phase.message = some msg →
    ∃ a, s.alloc.calls i = some ⟨a, msg.channelId, .returned msg.msgId⟩
  posted : ∀ i msg, (i, msg) ∈ s.posted → ∃ c, s.sends i = some c ∧ c.phase.message = some msg

section Keeps

variable {s t : State} {i : Nat} {c : Send} {p : Phase}

theorem Identified.moved (h : Identified s) (call : s.sends i = some c)
    (sends : t.sends = s.sends) (calls : t.alloc.calls = s.alloc.calls) (same : p.message = c.phase.message)
    (quiet : ∀ content, p ≠ .allocating content)
    (posted : ∀ j msg, (j, msg) ∈ t.posted → (j, msg) ∈ s.posted ∨ (j = i ∧ p.message = some msg)) :
    Identified (t.setSend i (c.to p)) := by
  refine ⟨?_, ?_, ?_⟩
  · intro j b content hb phase
    rcases setSend_sends_cases hb with ⟨_, rfl⟩ | ⟨_, old⟩
    · exact absurd phase (quiet content)
    · exact calls ▸ h.asked j b content (sends ▸ old) phase
  · intro j b msg hb message
    rcases setSend_sends_cases hb with ⟨rfl, rfl⟩ | ⟨_, old⟩
    · exact calls ▸ h.numbered j c msg call (same ▸ message)
    · exact calls ▸ h.numbered j b msg (sends ▸ old) message
  · intro j msg mem
    by_cases hj : j = i
    · subst hj
      refine ⟨c.to p, setSend_sends_same _ _ _, ?_⟩
      rcases posted j msg mem with old | ⟨_, new⟩
      · obtain ⟨b, hb, message⟩ := h.posted j msg old
        cases call.symm.trans hb
        exact same.trans message
      · exact new
    · rcases posted j msg mem with old | ⟨e, _⟩
      · obtain ⟨b, hb, message⟩ := h.posted j msg old
        exact ⟨b, by simpa [hj, sends] using hb, message⟩
      · exact absurd e hj

theorem Identified.entered (h : Identified s) (free : s.sends i = none) (sends : t.sends = s.sends)
    (posted : t.posted = s.posted) (silent : c.phase.message = none)
    (calls : ∀ j, j ≠ i → t.alloc.calls j = s.alloc.calls j)
    (asked : ∀ content, c.phase = .allocating content →
      ∃ a p, t.alloc.calls i = some ⟨a, c.req.channelID, p⟩) : Identified (t.setSend i c) := by
  refine ⟨?_, ?_, ?_⟩
  · intro j b content hb phase
    rcases setSend_sends_cases hb with ⟨rfl, rfl⟩ | ⟨ne, old⟩
    · exact asked content phase
    · have was := h.asked j b content (sends ▸ old) phase
      exact calls j ne ▸ was
  · intro j b msg hb message
    rcases setSend_sends_cases hb with ⟨rfl, rfl⟩ | ⟨ne, old⟩
    · rw [silent] at message
      contradiction
    · have was := h.numbered j b msg (sends ▸ old) message
      exact calls j ne ▸ was
  · intro j msg mem
    obtain ⟨b, hb, message⟩ := h.posted j msg (posted ▸ mem)
    have ne : j ≠ i := by
      intro e
      subst e
      cases free.symm.trans hb
    exact ⟨b, by simpa [ne, sends] using hb, message⟩

theorem Identified.next (h : Identified s) {x : SeqAlloc.Action} {a : SeqAlloc.State}
    (moved : SeqAlloc.step s.alloc x = some a) : Identified { s with alloc := a } := by
  refine ⟨?_, ?_, h.posted⟩
  · intro j b content hb phase
    obtain ⟨l, p, call⟩ := h.asked j b content hb phase
    obtain ⟨q, hq, _⟩ := SeqAlloc.step_move call moved
    exact ⟨l, q, hq⟩
  · intro j b msg hb message
    obtain ⟨l, call⟩ := h.numbered j b msg hb message
    exact ⟨l, SeqAlloc.step_returned call moved⟩

end Keeps

theorem Identified.checked {s : State} (h : Identified s) {i : Nat} {c : Send} {content : Bytes}
    {a : Nat} {ch : String} {msgID : Int} (call : s.sends i = some c)
    (phase : c.phase = .allocating content)
    (number : s.alloc.calls i = some ⟨a, ch, .returned msgID⟩) (r : Redis) (check : Option DedupRateResult) :
    Identified ((s.setRedis r).setSend i (c.to (afterCheck
      (settle check (buildMsg msgID c.sender c.req content s.alloc.now))))) := by
  have channel : ch = c.req.channelID := by
    obtain ⟨b, p, asked⟩ := h.asked i c content call phase
    cases number.symm.trans asked
    rfl
  rw [channel] at number
  refine ⟨?_, ?_, ?_⟩
  · intro j b content' hb phase'
    rcases setSend_sends_cases hb with ⟨_, rfl⟩ | ⟨_, old⟩
    · exact absurd phase' (settled_phase _ _ content')
    · exact h.asked j b content' old phase'
  · intro j b msg hb message
    rcases setSend_sends_cases hb with ⟨rfl, rfl⟩ | ⟨_, old⟩
    · rw [(settled_message _ _ msg message).2]
      exact ⟨a, number⟩
    · exact h.numbered j b msg old message
  · intro j msg mem
    obtain ⟨b, hb, message⟩ := h.posted j msg mem
    have ne : j ≠ i := by
      intro e
      subst e
      cases call.symm.trans hb
      rw [phase] at message
      contradiction
    exact ⟨b, by simpa [ne, State.setRedis] using hb, message⟩

theorem step_identified {cfg : Config} {s t : State} {a : Action} (h : Identified s)
    (taken : step cfg s a = some t) : Identified t := by
  cases step_effect taken with
  | refused free _ => exact h.entered free rfl rfl rfl (fun _ _ => rfl) (fun _ e => by simp at e)
  | @enter i server uid sender req content caches b free _ entered =>
    cases SeqAlloc.step_effect entered with
    | enter =>
      refine h.entered free rfl rfl rfl ?_ ?_
      · exact fun j ne => SeqAlloc.setCall_calls_ne _ _ ne
      · exact fun _ _ => ⟨server, .entered, SeqAlloc.setCall_calls_same _ _ _⟩
  | next moved => exact h.next moved
  | nextFailed call phase =>
    exact h.moved call rfl rfl (by rw [phase]; rfl) (by simp) (fun _ _ mem => Or.inl mem)
  | lostBefore call phase =>
    exact h.moved call rfl rfl (by rw [phase]; rfl) (by simp) (fun _ _ mem => Or.inl mem)
  | lostAfter call phase =>
    exact h.moved (t := s.setRedis _) call rfl rfl (by rw [phase]; rfl) (by simp)
      (fun _ _ mem => Or.inl mem)
  | resent => exact ⟨h.asked, h.numbered, h.posted⟩
  | checked call phase number => exact h.checked call phase number _ _
  | @post i c msg call phase =>
    refine h.moved (t := { s with posted := s.posted ++ [(i, msg)] }) call rfl rfl
      (by rw [phase]; rfl) (by simp) ?_
    intro j m mem
    rcases List.mem_append.mp mem with old | new
    · exact Or.inl old
    · have eq : j = i ∧ m = msg := by simpa using new
      exact Or.inr ⟨eq.1, by rw [eq.2]; rfl⟩
  | @queue i c msg call phase =>
    exact h.moved (t := { s with queued := _ }) call rfl rfl (by rw [phase]; rfl) (by simp)
      (fun _ _ mem => Or.inl mem)
  | @deliver i c msg call phase =>
    exact h.moved (t := { s with delivered := _ }) call rfl rfl (by rw [phase]; rfl) (by simp)
      (fun _ _ mem => Or.inl mem)

/-- No call has begun; Redis may remember client message ids of earlier ones. No batch reaches
the last int64, beyond which the numbers would repeat. -/
structure Idle (s : State) : Prop where
  alloc : SeqAlloc.Start s.alloc
  spare : ∀ ch, SeqAlloc.Spare (s.alloc.counter ch)
  sends : ∀ i, s.sends i = none
  posted : s.posted = []

theorem Start.idle {s : State} (start : Start s) : Idle s :=
  ⟨start.alloc, start.spare, start.sends, start.posted⟩

theorem Idle.identified {s : State} (idle : Idle s) : Identified s := by
  refine ⟨?_, ?_, ?_⟩
  · intro i c content hc
    cases (idle.sends i).symm.trans hc
  · intro i c msg hc
    cases (idle.sends i).symm.trans hc
  · intro i msg mem
    rw [idle.posted] at mem
    contradiction

/- A call has handed its message to PostSendAsync before it does anything else with it. -/
def Handed (s : State) : Prop :=
  ∀ i c msg, s.sends i = some c → c.phase.message = some msg → 1 ≤ c.phase.handOffs →
    (i, msg) ∈ s.posted

theorem step_posted {cfg : Config} {s t : State} {a : Action} (taken : step cfg s a = some t) :
    s.posted <+: t.posted := by
  cases step_effect taken with
  | post _ _ => exact List.prefix_append _ _
  | _ => exact List.prefix_refl _

theorem post_posted {cfg : Config} {s t : State} {i : Nat} {c : Send} {msg : ImMessage}
    (taken : step cfg s (.post i) = some t) (call : s.sends i = some c) (phase : c.phase = .posting msg) :
    (i, msg) ∈ t.posted := by
  cases step_effect taken with
  | post call' phase' =>
    cases call.symm.trans call'
    cases phase.symm.trans phase'
    exact List.mem_append_right _ (List.mem_singleton_self _)

theorem Handed.moved {s t : State} (handed : Handed s) {i : Nat} {c : Send} (sends : t.sends = s.sends)
    (posted : s.posted <+: t.posted)
    (mine : ∀ msg, c.phase.message = some msg → 1 ≤ c.phase.handOffs → (i, msg) ∈ t.posted) :
    Handed (t.setSend i c) := by
  intro j b msg hb message made
  rcases setSend_sends_cases hb with ⟨rfl, rfl⟩ | ⟨_, old⟩
  · exact mine msg message made
  · exact posted.subset (handed j b msg (sends ▸ old) message made)

theorem settled_unmade (check : Option DedupRateResult) (msg : ImMessage) :
    (afterCheck (settle check msg)).handOffs = 0 := by
  cases settle check msg with
  | rejected => rfl
  | duplicate => rfl
  | accepted => rfl

theorem step_handed {cfg : Config} {s t : State} {a : Action} (handed : Handed s)
    (taken : step cfg s a = some t) : Handed t := by
  cases step_effect taken with
  | refused => exact handed.moved rfl (List.prefix_refl _) (fun _ message => nomatch message)
  | enter => exact handed.moved rfl (List.prefix_refl _) (fun _ message => nomatch message)
  | next => exact handed
  | nextFailed => exact handed.moved rfl (List.prefix_refl _) (fun _ message => nomatch message)
  | lostBefore => exact handed.moved rfl (List.prefix_refl _) (fun _ message => nomatch message)
  | lostAfter =>
    exact handed.moved (t := s.setRedis _) rfl (List.prefix_refl _) (fun _ message => nomatch message)
  | resent => exact handed
  | checked =>
    refine handed.moved (t := s.setRedis _) rfl (List.prefix_refl _) ?_
    intro msg _ made
    simp only [Send.to, settled_unmade] at made
    omega
  | @post i c msg call phase =>
    refine handed.moved (t := { s with posted := _ }) rfl (List.prefix_append _ _) ?_
    intro m message _
    cases Option.some.inj message
    exact List.mem_append_right _ (List.mem_singleton_self _)
  | @queue i c msg call phase =>
    refine handed.moved (t := { s with queued := _ }) rfl (List.prefix_refl _) ?_
    intro m message _
    cases Option.some.inj message
    exact handed i c msg call (by rw [phase]; rfl) (by simp [phase, Phase.handOffs])
  | @deliver i c msg call phase =>
    refine handed.moved (t := { s with delivered := _ }) rfl (List.prefix_refl _) ?_
    intro m message _
    cases Option.some.inj message
    exact handed i c msg call (by rw [phase]; rfl) (by simp [phase, Phase.handOffs])

/-- The state of the calls as any run from a start leaves it, with the counters that the
channels started from. -/
structure Consistent (floor : String → Int) (s : State) : Prop where
  alloc : SeqAlloc.Inv s.alloc
  floored : SeqAlloc.Floored floor s.alloc
  identified : Identified s
  handed : Handed s

theorem check_floored {floor : String → Int} {s : State} (floored : SeqAlloc.Floored floor s.alloc)
    (c : Send) (msgID : Int) :
    SeqAlloc.Floored floor { s.alloc with redis := (s.check c msgID).2 } := by
  have same : SeqAlloc.SameSeqKeys s.alloc { s.alloc with redis := (s.check c msgID).2 } :=
    fun ch => check_keys_ne _ _ _ _ _ _ (by simp) (by simp)
  constructor
  · intro ch
    rw [same.counter]
    exact floored.counter ch
  · exact floored.held

theorem step_alloc_floored {cfg : Config} {floor : String → Int} {s t : State} {a : Action}
    (inv : SeqAlloc.Inv s.alloc) (floored : SeqAlloc.Floored floor s.alloc)
    (taken : step cfg s a = some t) : SeqAlloc.Floored floor t.alloc := by
  cases step_effect taken with
  | enter _ _ entered => exact SeqAlloc.step_floored inv floored entered
  | next moved => exact SeqAlloc.step_floored inv floored moved
  | lostAfter => exact check_floored floored _ _
  | resent => exact check_floored floored _ _
  | checked => exact check_floored floored _ _
  | _ => exact floored

theorem step_consistent {cfg : Config} {floor : String → Int} {s t : State} {a : Action}
    (consistent : Consistent floor s) (taken : step cfg s a = some t) : Consistent floor t :=
  ⟨step_alloc_inv consistent.alloc taken,
    step_alloc_floored consistent.alloc consistent.floored taken,
    step_identified consistent.identified taken, step_handed consistent.handed taken⟩

theorem Idle.consistent {s : State} (idle : Idle s) : Consistent s.alloc.counter s := by
  refine ⟨idle.alloc.inv idle.spare, idle.alloc.floored, idle.identified, ?_⟩
  intro i c msg call
  cases (idle.sends i).symm.trans call

section Consistent

variable {floor : String → Int} {s : State}

theorem Consistent.once (consistent : Consistent floor s) {i j : Nat} {m n : ImMessage}
    (hm : (i, m) ∈ s.posted) (hn : (j, n) ∈ s.posted) (channel : m.channelId = n.channelId)
    (id : m.msgId = n.msgId) : i = j ∧ m = n := by
  obtain ⟨c, hc, msgC⟩ := consistent.identified.posted i m hm
  obtain ⟨d, hd, msgD⟩ := consistent.identified.posted j n hn
  obtain ⟨a, callC⟩ := consistent.identified.numbered i c m hc msgC
  obtain ⟨b, callD⟩ := consistent.identified.numbered j d n hd msgD
  rw [← channel, ← id] at callD
  have same : i = j := SeqAlloc.Holder.call.inj (consistent.alloc.exclusive m.channelId (.call i)
    (.call j) m.msgId ⟨_, callC, rfl, rfl⟩ ⟨_, callD, rfl, rfl⟩)
  subst same
  cases hc.symm.trans hd
  exact ⟨rfl, Option.some.inj (msgC.symm.trans msgD)⟩

theorem Consistent.above (consistent : Consistent floor s) {i : Nat} {m : ImMessage}
    (hm : (i, m) ∈ s.posted) : floor m.channelId < m.msgId := by
  obtain ⟨c, hc, msgC⟩ := consistent.identified.posted i m hm
  obtain ⟨a, callC⟩ := consistent.identified.numbered i c m hc msgC
  exact consistent.floored.held m.channelId (.call i) m.msgId ⟨_, callC, rfl, rfl⟩

end Consistent

end GameIM.Service.SendSteps

namespace GameIM.Service
open GameIM.Lib GameIM.Api GameIM.Store

/-- Servers before their first call. -/
structure Fresh (s : Servers) : Prop where
  persistent : SeqAlloc.Persistent s.redis
  counted : ∀ ch e, s.redis.keys (keySeq ch) = some e → 0 ≤ e.val ∧ SeqAlloc.Spare e.val
  ranges : ∀ server ch, s.ranges server ch = none
  unrecorded : ∀ k, s.redis.keys (keyDedup k) = none
  posted : s.posted = []
  queued : s.queued = []
  delivered : s.delivered = []

def Servers.machine (s : Servers) : SendSteps.State :=
  ⟨⟨0, s.redis, s.ranges, fun _ => none⟩, s.caches, fun _ => none, [], [], []⟩

theorem Fresh.start {s : Servers} (fresh : Fresh s) : SendSteps.Start s.machine where
  alloc :=
    { persistent := fresh.persistent
      counted := by
        intro ch
        simp only [SeqAlloc.State.counter, Servers.machine]
        split
        · rename_i e he
          exact (fresh.counted ch e he).1
        · exact le_refl 0
      ranges := fresh.ranges
      calls := fun _ => rfl }
  spare := by
    intro ch
    simp only [SeqAlloc.State.counter, Servers.machine]
    split
    · rename_i e he
      exact (fresh.counted ch e he).2
    · exact SeqAlloc.initial_spare ch
  sends := fun _ => rfl
  posted := rfl
  queued := rfl
  delivered := rfl
  unmarked := fresh.unrecorded

end GameIM.Service
