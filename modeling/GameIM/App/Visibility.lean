import GameIM.App.ReadBack

/-! The order in which the messages of a channel become visible to PullMsg, in runs with at
most fifty messages and without cache expiry. Ids are given out when a call begins; what
makes a message visible is its own cache write, or an insertion into MongoDB. -/
namespace GameIM.App
open Lib Api Store Service Gateway

/-- Some PullMsg returns the message. -/
def Visible (env : Env) (s : State) (channelID : String) (msgID : Int) : Prop :=
  ∃ lastMsgID limit, Pulls env s channelID lastMsgID limit msgID

/-- In the cache list, or in im_messages and above everything in the list. -/
def Shown (env : Env) (s : State) (channelID : String) (msgID : Int) : Prop :=
  Cached env s channelID msgID ∨
    ((∀ x, Cached env s channelID x → x < msgID) ∧ Stored s channelID msgID)

def State.postedTo (s : State) (channelID : String) : Nat :=
  s.sends.posted.countP fun p => p.2.channelId = channelID

def Action.elapsed : Action → Nat
  | .send (.next (.tick ms)) => ms
  | _ => 0

/-- At most fifty messages so far, and the step does not let the cache list expire. -/
def Steady (channelID : String) (s : State) (a : Action) : Prop :=
  s.postedTo channelID ≤ 50 ∧
    (s.live channelID = [] ∨ s.now + a.elapsed < (s.cache channelID).deadline)

/- Every cache entry of the channel, and every one to come, is counted as posted. -/
def Tallied (channelID : String) (s : State) : Prop :=
  (s.cache channelID).entries.length + s.caching.countP (fun m => m.channelId = channelID) ≤
    s.postedTo channelID

section Tallied

variable {env : Env} {s t : State} {channelID : String}

theorem caching_erase (channelID : String) {msg : ImMessage} {caching : List ImMessage} (waiting : msg ∈ caching) :
    caching.countP (fun m => m.channelId = channelID) =
      (caching.erase msg).countP (fun m => m.channelId = channelID) +
        if msg.channelId = channelID then 1 else 0 := by
  rw [(List.perm_cons_erase waiting).countP_eq, List.countP_cons]
  simp

theorem live_le (s : State) (channelID : String) :
    (s.live channelID).length ≤ (s.cache channelID).entries.length := by
  unfold State.live
  split
  · exact Nat.le_refl _
  · exact Nat.zero_le _

theorem postedTo_mono (channelID : String) {u : State} (posted : s.sends.posted <+: u.sends.posted) :
    s.postedTo channelID ≤ u.postedTo channelID :=
  posted.sublist.countP_le

theorem pushMsgCache_entries (s : State) (channelID other : String) (data : Bytes) :
    ((s.pushMsgCache other data).cache channelID).entries.length ≤
      (s.cache channelID).entries.length + if other = channelID then 1 else 0 := by
  by_cases here : other = channelID
  · subst here
    have le := live_le s other
    simp only [State.pushMsgCache, Function.update_self, if_true, List.length_take, List.length_cons]
    omega
  · simp [State.pushMsgCache, Function.update_of_ne (Ne.symm here), here]

theorem step_tallied {a : Action} (tallied : Tallied channelID s) (taken : step env s a = some t) :
    Tallied channelID t := by
  unfold Tallied at tallied ⊢
  cases step_effect taken with
  | quiet sent _ _ => exact Nat.le_trans tallied (postedTo_mono channelID (SendSteps.step_posted sent))
  | @post i c msg u sent call phase =>
    cases SendSteps.step_effect sent with
    | post call' phase' =>
      cases call.symm.trans call'
      cases phase.symm.trans phase'
      simp only [State.postedTo, SendSteps.State.setSend, List.countP_append, List.countP_singleton] at tallied ⊢
      omega
  | @queue i c msg u sent _ _ =>
    obtain ⟨sends, _, cache, caching⟩ := offer_fields { s with sends := u } c.server (buildDoc msg s.now)
    have more := postedTo_mono channelID (s := s) (u := { s with sends := u })
      (SendSteps.step_posted sent)
    simp only [State.postedTo, sends, cache, caching] at tallied more ⊢
    omega
  | @deliver i c msg u sent _ _ =>
    obtain ⟨sends, _, cache, caching⟩ := publish_fields { s with sends := u } c.server msg
    have more := postedTo_mono channelID (s := s) (u := { s with sends := u })
      (SendSteps.step_posted sent)
    simp only [State.postedTo, sends, cache, caching] at tallied more ⊢
    omega
  | @uncached msg fails waiting _ =>
    have less := caching_erase channelID waiting
    simp only [State.postedTo] at tallied ⊢
    omega
  | @cached msg data waiting _ =>
    have less := caching_erase channelID waiting
    have longer := pushMsgCache_entries { s with caching := s.caching.erase msg }
      channelID msg.channelId data
    simp only [State.postedTo, State.pushMsgCache] at tallied less longer ⊢
    omega
  | receive _ => exact tallied
  | flush => exact tallied
  | broadcast _ _ _ => exact tallied

theorem Start.tallied {s : State} (start : Start s) :
    Tallied channelID s ∧ (s.cache channelID).entries.length ≤ 50 := by
  have empty := start.cache channelID
  simp [Tallied, empty, start.caching]

theorem step_entries {a : Action} (tallied : Tallied channelID s) (taken : step env s a = some t)
    (few : s.postedTo channelID ≤ 50) : (t.cache channelID).entries.length ≤ 50 := by
  unfold Tallied at tallied
  have before : (s.cache channelID).entries.length ≤ 50 := by omega
  cases step_effect taken with
  | quiet _ _ _ => exact before
  | post _ _ _ => exact before
  | @queue i c msg u sent _ _ =>
    rw [(offer_fields { s with sends := u } c.server (buildDoc msg s.now)).2.2.1]
    exact before
  | @deliver i c msg u sent _ _ =>
    rw [(publish_fields { s with sends := u } c.server msg).2.2.1]
    exact before
  | uncached _ _ => exact before
  | @cached msg data waiting _ =>
    have less := caching_erase channelID waiting
    have longer := pushMsgCache_entries { s with caching := s.caching.erase msg }
      channelID msg.channelId data
    simp only at longer
    omega
  | receive _ => exact before
  | flush => exact before
  | broadcast _ _ _ => exact before

theorem run_few {as : List Action} (initial : Tallied channelID s ∧ (s.cache channelID).entries.length ≤ 50)
    (steady : Meets (step env) (Steady channelID) s as) (taken : run (step env) s as = some t) :
    Tallied channelID t ∧ (t.cache channelID).entries.length ≤ 50 :=
  run_invariant_meets (fun s => Tallied channelID s ∧ (s.cache channelID).entries.length ≤ 50)
    (fun _ _ _ inv steady taken => ⟨step_tallied inv.1 taken, step_entries inv.1 taken steady.1⟩)
    initial steady taken

end Tallied

section Shown

variable {env : Env} {s t : State} {channelID : String} {lastMsgID limit msgID : Int}

theorem pulls_all (few : (s.live channelID).length ≤ 50) (full : Pull.clampLimit limit = 50)
    (nonempty : (s.puller channelID lastMsgID).ahead (env.channel s channelID limit) ≠ []) :
    Pulls env s channelID lastMsgID limit msgID ↔ Cached env s channelID msgID ∧ lastMsgID < msgID := by
  have short : (s.live channelID).length ≤ Pull.msgCacheMaxLen := Nat.le_trans few (by decide)
  have all : ((s.puller channelID lastMsgID).ahead (env.channel s channelID limit)).length ≤ 50 := by
    refine Nat.le_trans ?_ few
    simp only [Pull.State.ahead, List.length_map]
    refine Nat.le_trans (List.length_filter_le _ _) (Nat.le_trans (List.length_filterMap_le _ _) ?_)
    exact List.length_take_le' _ _
  rw [pulls_cached nonempty, full, List.take_of_length_le (i := Int.toNat 50) all, mem_ahead short]

theorem visible_iff (few : (s.live channelID).length ≤ 50) :
    Visible env s channelID msgID ↔ Shown env s channelID msgID := by
  have short : (s.live channelID).length ≤ Pull.msgCacheMaxLen := Nat.le_trans few (by decide)
  constructor
  · rintro ⟨lastMsgID, limit, pulled⟩
    by_cases empty : (s.puller channelID lastMsgID).ahead (env.channel s channelID limit) = []
    · obtain ⟨stored, above⟩ := Pull.query_stored _ _ ((pulls_query empty).mp pulled)
      refine Or.inr ⟨?_, stored⟩
      intro x cached
      by_contra high
      have found : x ∈ (s.puller channelID lastMsgID).ahead (env.channel s channelID limit) :=
        (mem_ahead short).mpr ⟨cached, lt_of_lt_of_le above (not_lt.mp high)⟩
      rw [empty] at found
      contradiction
    · exact Or.inl ((mem_ahead short).mp (List.mem_of_mem_take ((pulls_cached empty).mp pulled))).1
  · intro shown
    refine ⟨msgID - 1, 50, ?_⟩
    by_cases empty : (s.puller channelID (msgID - 1)).ahead (env.channel s channelID 50) = []
    · rw [pulls_stored empty]
      rcases shown with cached | stored
      · have found : msgID ∈ (s.puller channelID (msgID - 1)).ahead (env.channel s channelID 50) :=
          (mem_ahead short).mpr ⟨cached, Int.sub_one_lt_of_le (le_refl msgID)⟩
        rw [empty] at found
        contradiction
      · exact stored.2
    · rw [pulls_all few rfl empty]
      rcases shown with cached | ⟨below, _⟩
      · exact ⟨cached, Int.sub_one_lt_of_le (le_refl msgID)⟩
      · obtain ⟨x, found⟩ := List.exists_mem_of_ne_nil _ empty
        obtain ⟨cached, above⟩ := (mem_ahead short).mp found
        have := below x cached
        omega

/- A pull that returns a message returns what was to be seen between its cursor and it. -/
theorem shown_pulled {other : Int} (few : (s.live channelID).length ≤ 50)
    (full : Pull.clampLimit limit = 50) (pulled : Pulls env s channelID lastMsgID limit msgID)
    (above : lastMsgID < other) (lower : other < msgID) (shown : Shown env s channelID other) :
    Pulls env s channelID lastMsgID limit other := by
  have short : (s.live channelID).length ≤ Pull.msgCacheMaxLen := Nat.le_trans few (by decide)
  by_cases empty : (s.puller channelID lastMsgID).ahead (env.channel s channelID limit) = []
  · rw [pulls_query empty] at pulled ⊢
    rcases shown with cached | ⟨_, stored⟩
    · have found : other ∈ (s.puller channelID lastMsgID).ahead (env.channel s channelID limit) :=
        (mem_ahead short).mpr ⟨cached, above⟩
      rw [empty] at found
      contradiction
    · exact Pull.query_covers _ _ other stored above (le_trans lower.le (mem_le_newest pulled))
  · rw [pulls_all few full empty] at pulled ⊢
    rcases shown with cached | ⟨below, _⟩
    · exact ⟨cached, above⟩
    · exact absurd (below msgID pulled.1) (not_lt.mpr lower.le)

end Shown

/-- The step writes the message to the channel's cache list. -/
def Caches (env : Env) (channelID : String) : Action → Int → Prop
  | .cacheWrite msg fails, msgID =>
    fails = false ∧ env.message.marshal msg ≠ none ∧ msg.channelId = channelID ∧ msg.msgId = msgID
  | _, _ => False

/-- The step inserts the message's document into im_messages. -/
def Inserts (channelID : String) (s : State) : Action → Int → Prop
  | .flush server lost, msgID =>
    ∃ d ∈ (s.servers server).batch, d ∉ lost ∧ d.channelID = channelID ∧ d.msgID = msgID
  | _, _ => False

section Step

variable {env : Env} {s t : State} {a : Action} {channelID : String}

theorem send_now {cfg : Service.Config} {u v : SendSteps.State} {a : SendSteps.Action}
    (taken : SendSteps.step cfg u a = some v) : v.alloc.now = u.alloc.now + (Action.send a).elapsed := by
  cases SendSteps.step_effect taken with
  | enter _ _ entered =>
    cases SeqAlloc.step_effect entered with
    | enter => rfl
  | next moved =>
    cases SeqAlloc.step_effect moved with
    | tick => rfl
    | _ => rfl
  | _ => rfl

theorem step_now (taken : step env s a = some t) : t.now = s.now + a.elapsed := by
  cases step_effect taken with
  | quiet sent _ _ => exact send_now sent
  | post sent _ _ => exact send_now sent
  | @queue i c msg u sent _ _ =>
    obtain ⟨sends, _⟩ := offer_fields { s with sends := u } c.server (buildDoc msg s.now)
    exact (congrArg (·.alloc.now) sends).trans (send_now sent)
  | @deliver i c msg u sent _ _ =>
    obtain ⟨sends, _⟩ := publish_fields { s with sends := u } c.server msg
    exact (congrArg (·.alloc.now) sends).trans (send_now sent)
  | broadcast noSend _ _ =>
    cases a with
    | send b => exact absurd rfl (noSend b)
    | _ => rfl
  | _ => rfl

theorem cached_kept (steady : Steady channelID s a) (taken : step env s a = some t)
    (cache : t.cache channelID = s.cache channelID) {x : Int} (other : ¬ Caches env channelID a x) :
    Cached env t channelID x ↔ Cached env s channelID x ∨ Caches env channelID a x := by
  have live : t.live channelID = s.live channelID := by
    unfold State.live
    rw [cache, step_now taken]
    rcases steady.2 with empty | before
    · unfold State.live at empty
      split at empty
      · split
        · rfl
        · exact empty.symm
      · rename_i expired
        rw [if_neg expired, if_neg (by omega)]
    · rw [if_pos before, if_pos (by omega)]
  rw [or_iff_left other, Cached, live, Cached]

theorem push_live (s : State) (channelID : String) (data : Bytes) (few : (s.live channelID).length < 50) :
    (s.pushMsgCache channelID data).live channelID = data :: s.live channelID := by
  have fits : (data :: s.live channelID).length ≤ Pull.msgCacheMaxLen := by
    simp only [List.length_cons, Pull.msgCacheMaxLen]
    omega
  have running : s.now < s.now + Pull.msgCacheTTL := by
    simp only [Pull.msgCacheTTL]
    omega
  simp only [State.live, State.now, State.pushMsgCache, Function.update_self] at fits running ⊢
  rw [if_pos running, List.take_of_length_le fits]

theorem push_cached {msg : ImMessage} {data : Bytes} (few : (s.live msg.channelId).length < 50)
    (marshalled : env.message.marshal msg = some data) (x : Int) :
    Cached env (s.pushMsgCache msg.channelId data) msg.channelId x ↔
      Cached env s msg.channelId x ∨ msg.msgId = x := by
  unfold Cached
  rw [push_live s msg.channelId data few]
  constructor
  · rintro ⟨entry, held, m, found, rfl⟩
    rcases List.mem_cons.mp held with rfl | old
    · cases (env.message.undoes msg entry marshalled).symm.trans found
      exact Or.inr rfl
    · exact Or.inl ⟨entry, old, m, found, rfl⟩
  · rintro (⟨entry, held, m, found, rfl⟩ | rfl)
    · exact ⟨entry, List.mem_cons_of_mem _ held, m, found, rfl⟩
    · exact ⟨data, by simp, msg, env.message.undoes msg data marshalled, rfl⟩

theorem step_cached (tallied : Tallied channelID s) (steady : Steady channelID s a)
    (taken : step env s a = some t) (x : Int) :
    Cached env t channelID x ↔ Cached env s channelID x ∨ Caches env channelID a x := by
  cases step_effect taken with
  | @queue i c msg u _ _ _ =>
    obtain ⟨_, _, cache, _⟩ := offer_fields { s with sends := u } c.server (buildDoc msg s.now)
    exact cached_kept steady taken (congrFun cache channelID) id
  | @deliver i c msg u _ _ _ =>
    obtain ⟨_, _, cache, _⟩ := publish_fields { s with sends := u } c.server msg
    exact cached_kept steady taken (congrFun cache channelID) id
  | uncached _ failed =>
    apply cached_kept steady taken rfl
    rintro ⟨worked, marshalled, _⟩
    rcases failed with rfl | unmarshalled
    · contradiction
    · exact marshalled unmarshalled
  | @cached msg data waiting marshalled =>
    by_cases here : msg.channelId = channelID
    · subst here
      have few : (s.live msg.channelId).length < 50 := by
        have le := live_le s msg.channelId
        have less := caching_erase msg.channelId waiting
        have bound := steady.1
        unfold Tallied at tallied
        rw [if_pos rfl] at less
        omega
      simp only [Caches, marshalled, ne_eq, reduceCtorEq, not_false_eq_true, true_and]
      exact push_cached (s := { s with caching := s.caching.erase msg }) few marshalled x
    · exact cached_kept steady taken (Function.update_of_ne (Ne.symm here) _ _)
        (fun write => here write.2.2.1)
  | broadcast _ noWrite _ =>
    cases a with
    | cacheWrite msg fails => exact absurd rfl (noWrite msg fails)
    | _ => exact cached_kept steady taken rfl id
  | _ => exact cached_kept steady taken rfl id

theorem stored_kept (messages : t.messages = s.messages) (x : Int) :
    Stored t channelID x ↔ Stored s channelID x ∨ False := by
  rw [or_false, Stored, messages, Stored]

theorem step_stored (taken : step env s a = some t) (x : Int) :
    Stored t channelID x ↔ Stored s channelID x ∨ Inserts channelID s a x := by
  cases step_effect taken with
  | @queue i c msg u _ _ _ =>
    obtain ⟨_, messages, _⟩ := offer_fields { s with sends := u } c.server (buildDoc msg s.now)
    exact stored_kept messages x
  | @deliver i c msg u _ _ _ =>
    obtain ⟨_, messages, _⟩ := publish_fields { s with sends := u } c.server msg
    exact stored_kept messages x
  | @flush server lost =>
    constructor
    · rintro ⟨d, held, key⟩
      rcases foldl_insertDoc_cases held with old | new
      · exact Or.inl ⟨d, old, key⟩
      · obtain ⟨batched, spared⟩ := List.mem_filter.mp new
        exact Or.inr ⟨d, batched, by simpa using spared, key⟩
    · rintro (⟨d, held, key⟩ | ⟨d, batched, spared, channel, id⟩)
      · exact ⟨d, foldl_insertDoc_keeps held, key⟩
      · obtain ⟨e, held, same⟩ := insertMessages_holds s.messages batched spared
        obtain ⟨sameChannel, sameId⟩ := sameKey_iff.mp same
        exact ⟨e, held, sameChannel ▸ channel, sameId ▸ id⟩
  | broadcast _ _ noFlush =>
    cases a with
    | flush server lost => exact absurd rfl (noFlush server lost)
    | _ => exact stored_kept rfl x
  | _ => exact stored_kept rfl x

end Step

/-- What a step writes below the message that was pulled in state `pulled`: a cache write is one of
a message that could be read then, and a document that a flush inserts is one too, or lies at or
below an id in the cache list. -/
def InOrder (env : Env) (pulled : State) (channelID : String) (msgID : Int) (s : State) (a : Action) : Prop :=
  ∀ k < msgID,
    (Caches env channelID a k → Shown env pulled channelID k) ∧
    (Inserts channelID s a k →
      Shown env pulled channelID k ∨ ∃ x, Cached env s channelID x ∧ k ≤ x)

/- What is to be seen below the message was so when it was pulled. -/
structure Ordered (env : Env) (pulled : State) (channelID : String) (msgID : Int) (s : State) : Prop where
  tallied : Tallied channelID s
  few : (s.cache channelID).entries.length ≤ 50
  none : ∀ k < msgID, Shown env s channelID k → Shown env pulled channelID k

section Ordered

variable {env : Env} {pulled s t : State} {a : Action} {channelID : String} {msgID : Int}

theorem Ordered.live_few (ordered : Ordered env pulled channelID msgID s) :
    (s.live channelID).length ≤ 50 :=
  Nat.le_trans (live_le s channelID) ordered.few

theorem step_ordered (ordered : Ordered env pulled channelID msgID s) (steady : Steady channelID s a)
    (inOrder : InOrder env pulled channelID msgID s a) (taken : step env s a = some t) :
    Ordered env pulled channelID msgID t where
  tallied := step_tallied ordered.tallied taken
  few := step_entries ordered.tallied taken steady.1
  none := by
    intro k lower shown
    have cached := step_cached ordered.tallied steady taken
    rcases shown with now | ⟨below, stored⟩
    · rcases (cached k).mp now with before | written
      · exact ordered.none k lower (Or.inl before)
      · exact (inOrder k lower).1 written
    · have before : ∀ x, Cached env s channelID x → x < k := by
        intro x old
        exact below x ((cached x).mpr (Or.inl old))
      rcases (step_stored taken k).mp stored with old | inserted
      · exact ordered.none k lower (Or.inr ⟨before, old⟩)
      · rcases (inOrder k lower).2 inserted with known | ⟨x, old, above⟩
        · exact known
        · exact absurd (before x old) (not_lt.mpr above)

theorem step_disordered (ordered : Ordered env pulled channelID msgID s) (steady : Steady channelID s a)
    (outside : ¬ InOrder env pulled channelID msgID s a) (taken : step env s a = some t) :
    ¬ Ordered env pulled channelID msgID t := by
  intro after
  apply outside
  intro k lower
  have cached := step_cached ordered.tallied steady taken
  constructor
  · intro written
    exact after.none k lower (Or.inl ((cached k).mpr (Or.inr written)))
  · intro inserted
    have stored : Stored t channelID k := (step_stored taken k).mpr (Or.inr inserted)
    cases a with
    | flush server lost =>
      by_contra hidden
      obtain ⟨unseen, lowest⟩ := not_or.mp hidden
      refine unseen (after.none k lower (Or.inr ⟨?_, stored⟩))
      intro x now
      by_contra high
      exact lowest ⟨x, ((cached x).mp now).resolve_right id, not_lt.mp high⟩
    | _ => contradiction

/-- However calls, writes and pulls interleave, in a run with at most fifty messages and no
expiry: after a pull has returned a message, none below it gets visible that was not, and
a client that pulls from there on has missed nothing, exactly if of the messages below it that the
pull could not read none is written to the cache later, and none inserted by a flush while the
cache list has no id from there on. -/
theorem pulled_in_order_iff {s₀ : State} {as bs : List Action} {lastMsgID limit : Int}
    (start : Start s₀) (steady : Meets (step env) (Steady channelID) s₀ (as ++ bs))
    (taken : run (step env) s₀ as = some pulled) (later : run (step env) pulled bs = some t) :
    (Pulls env pulled channelID lastMsgID limit msgID →
      ∀ part s, part <+: bs → run (step env) pulled part = some s → ∀ k < msgID,
        (¬ Visible env pulled channelID k → ¬ Visible env s channelID k) ∧
        (Pull.clampLimit limit = 50 → lastMsgID < k → Visible env s channelID k →
          Pulls env pulled channelID lastMsgID limit k)) ↔
      (Pulls env pulled channelID lastMsgID limit msgID →
        Meets (step env) (InOrder env pulled channelID msgID) pulled bs) := by
  obtain ⟨steadyBefore, steadyAfter⟩ := (meets_append taken).mp steady
  have counted := run_few start.tallied steadyBefore taken
  have initial : Ordered env pulled channelID msgID pulled := ⟨counted.1, counted.2, fun _ _ shown => shown⟩
  have always := always_iff_meets_under (Ordered env pulled channelID msgID)
    (fun _ _ _ ordered steady inOrder taken => step_ordered ordered steady inOrder taken)
    (fun _ _ _ ordered steady outside taken => step_disordered ordered steady outside taken)
    initial steadyAfter later
  rw [← always]
  apply imp_congr_right
  intro returned
  constructor
  · intro hidden part s within reached
    have soFar : Tallied channelID s ∧ (s.cache channelID).entries.length ≤ 50 := by
      obtain ⟨rest, rfl⟩ := within
      exact run_few counted ((meets_append reached).mp steadyAfter).1 reached
    refine ⟨soFar.1, soFar.2, ?_⟩
    intro k lower shown
    by_contra unseen
    have live := Nat.le_trans (live_le s channelID) soFar.2
    exact (hidden part s within reached k lower).1 (fun now => unseen ((visible_iff initial.live_few).mp now))
      ((visible_iff live).mpr shown)
  · intro ordered part s within reached k lower
    have here := ordered part s within reached
    have before : Visible env s channelID k → Shown env pulled channelID k :=
      fun now => here.none k lower ((visible_iff here.live_few).mp now)
    constructor
    · exact fun unseen now => unseen ((visible_iff initial.live_few).mpr (before now))
    · exact fun full above now => shown_pulled initial.live_few full returned above lower (before now)

end Ordered

instance (channelID : String) (s : State) (a : Action) : Decidable (Steady channelID s a) :=
  inferInstanceAs (Decidable (_ ∧ _))

def secondSend : List Action :=
  [.send (.enter 1 0 8 none (note "m-2")), .send (.next (.lookup 1)), .send (.script 1 .none),
    .send (.post 1), .send (.queue 1), .send (.deliver 1)]

structure Holding where
  cached : List (Option ImMessage)
  messages : List MessageDoc
  deriving DecidableEq

def holding (s : State) : Holding := ⟨(s.live "world").map demo.message.unmarshal, s.messages⟩

theorem holding_cached {s : State} {view : Holding} (held : holding s = view) (x : Int) :
    Cached demo s "world" x ↔ ∃ m, some m ∈ view.cached ∧ m.msgId = x := by
  subst held
  constructor
  · rintro ⟨data, mem, m, found, id⟩
    exact ⟨m, List.mem_map.mpr ⟨data, mem, found⟩, id⟩
  · rintro ⟨m, mem, id⟩
    obtain ⟨data, mem, found⟩ := List.mem_map.mp mem
    exact ⟨data, mem, m, found, id⟩

theorem holding_visible {s : State} {view : Holding} (held : holding s = view)
    (few : view.cached.length ≤ 50) (x : Int) :
    Visible demo s "world" x ↔ Shown demo s "world" x := by
  subst held
  exact visible_iff ((List.length_map _).symm.le.trans few)

/- The cache writes are done in the order of the ids, and the flush after the pull stores
what was in the cache. -/
theorem pulled_in_order_stored : ∃ s t,
    run (step demo) quietServers (firstSend ++ secondSend ++
      [.cacheWrite (noted 1 "m-1") false, .cacheWrite (noted 2 "m-2") false]) = some s ∧
    run (step demo) s ([.receive 0, .receive 0] ++ [.flush 0 []]) = some t ∧
    t.messages = [buildDoc (noted 1 "m-1") 0, buildDoc (noted 2 "m-2") 0] ∧
    Pulls demo s "world" 0 50 2 ∧ Pulls demo s "world" 0 50 1 := by
  have view : ((run (step demo) quietServers (firstSend ++ secondSend ++
      [.cacheWrite (noted 1 "m-1") false, .cacheWrite (noted 2 "m-2") false])).bind fun s =>
        (run (step demo) s [.receive 0, .receive 0]).bind fun u =>
          (run (step demo) u [.flush 0 []]).map fun t =>
            (holding u, holding t, s.pull demo "world" 0 50)) =
      some (⟨[some (noted 2 "m-2"), some (noted 1 "m-1")], []⟩,
        ⟨[some (noted 2 "m-2"), some (noted 1 "m-1")],
          [buildDoc (noted 1 "m-1") 0, buildDoc (noted 2 "m-2") 0]⟩,
        some [noted 1 "m-1", noted 2 "m-2"]) := by
    decide +kernel
  obtain ⟨s, taken, rest⟩ := Option.bind_eq_some_iff.mp view
  obtain ⟨u, received, rest⟩ := Option.bind_eq_some_iff.mp rest
  obtain ⟨t, flushed, fields⟩ := Option.map_eq_some_iff.mp rest
  simp only [Prod.mk.injEq] at fields
  obtain ⟨middle, after, returned⟩ := fields
  have later : run (step demo) s ([.receive 0, .receive 0] ++ [.flush 0 []]) = some t :=
    run_append_some.mpr ⟨u, received, flushed⟩
  have inOrder : Meets (step demo) (InOrder demo s "world" 2) s ([.receive 0, .receive 0] ++ [.flush 0 []]) := by
    apply (meets_append received).mpr
    constructor
    · apply (meets_true s _).imp
      intro v a mem _
      obtain rfl : a = .receive 0 := by simpa using mem
      exact fun k _ => ⟨False.elim, False.elim⟩
    · apply (meets_cons (Option.bind_eq_some_iff.mp flushed).choose_spec.1).mpr
      refine ⟨fun k lower => ⟨False.elim, fun _ => Or.inr ⟨2, ?_, lower.le⟩⟩, trivial⟩
      exact (holding_cached middle 2).mpr ⟨noted 2 "m-2", by simp, rfl⟩
  have pulled : Pulls demo s "world" 0 50 2 := ⟨_, returned, noted 2 "m-2", by simp, rfl⟩
  have visible : Visible demo t "world" 1 :=
    (holding_visible after (by decide) 1).mpr
      (Or.inl ((holding_cached after 1).mpr ⟨noted 1 "m-1", by simp, rfl⟩))
  refine ⟨s, t, taken, later, congrArg Holding.messages after, pulled, ?_⟩
  exact ((pulled_in_order_iff quietServers_start (by decide +kernel) taken later).mpr (fun _ => inOrder)
    pulled _ t (List.prefix_refl _) later 1 (by decide)).2 rfl (by decide) visible

/- The second message's cache write comes first, and a pull returns that message alone. The
first one gets visible after it, to nobody who goes on from there. -/
theorem lower_message_appears_late : ∃ s t,
    run (step demo) quietServers (firstSend ++ secondSend ++ [.cacheWrite (noted 2 "m-2") false]) = some s ∧
    run (step demo) s [.cacheWrite (noted 1 "m-1") false] = some t ∧
    Meets (step demo) (Steady "world") quietServers (firstSend ++ secondSend ++
      [.cacheWrite (noted 2 "m-2") false] ++ [.cacheWrite (noted 1 "m-1") false]) ∧
    Pulls demo s "world" 0 50 2 ∧ ¬ Visible demo s "world" 1 ∧ Visible demo t "world" 1 ∧
    ¬ Pulls demo t "world" 2 50 1 := by
  have view : ((run (step demo) quietServers (firstSend ++ secondSend ++
      [.cacheWrite (noted 2 "m-2") false])).bind fun s =>
        (run (step demo) s [.cacheWrite (noted 1 "m-1") false]).map fun t =>
          (holding s, holding t, s.pull demo "world" 0 50, t.pull demo "world" 2 50)) =
      some (⟨[some (noted 2 "m-2")], []⟩, ⟨[some (noted 1 "m-1"), some (noted 2 "m-2")], []⟩,
        some [noted 2 "m-2"], some []) := by
    decide +kernel
  obtain ⟨s, taken, rest⟩ := Option.bind_eq_some_iff.mp view
  obtain ⟨t, later, fields⟩ := Option.map_eq_some_iff.mp rest
  simp only [Prod.mk.injEq] at fields
  obtain ⟨before, after, returned, nothing⟩ := fields
  refine ⟨s, t, taken, later, by decide +kernel, ⟨_, returned, _, List.mem_singleton_self _, rfl⟩, ?_, ?_, ?_⟩
  · rw [holding_visible before (by decide)]
    rintro (cached | ⟨_, d, held, _⟩)
    · obtain ⟨m, mem, id⟩ := (holding_cached before 1).mp cached
      cases Option.some.inj (List.mem_singleton.mp mem)
      exact absurd id (by decide)
    · have none : s.messages = [] := congrArg Holding.messages before
      rw [none] at held
      contradiction
  · exact (holding_visible after (by decide) 1).mpr
      (Or.inl ((holding_cached after 1).mpr ⟨noted 1 "m-1", by simp, rfl⟩))
  · rintro ⟨msgs, result, m, held, _⟩
    cases nothing.symm.trans result
    contradiction

end GameIM.App
