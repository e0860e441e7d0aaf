import GameIM.App.Writes

/-! What PullMsg finds of a message that was announced: by the return of its SendMsg, or by
the notification of a broadcast. Neither waits for the cache write or for the flush. -/
namespace GameIM.App
open Lib Api Store Service Gateway

def Env.channel (env : Env) (s : State) (channelID : String) (limit : Int) : Pull.Env :=
  ⟨env.message, channelID, s.messages, limit⟩

def State.puller (s : State) (channelID : String) (lastMsgID : Int) : Pull.State :=
  ⟨s.now, (s.cache channelID).entries, (s.cache channelID).deadline, [], lastMsgID, [], false⟩

theorem pull_eq (env : Env) (s : State) (channelID : String) (lastMsgID limit : Int) :
    s.pull env channelID lastMsgID limit =
      (s.puller channelID lastMsgID).pulled (env.channel s channelID limit) false false := rfl

/-- The message can be read from the channel's cache list. -/
def Cached (env : Env) (s : State) (channelID : String) (msgID : Int) : Prop :=
  ∃ data ∈ s.live channelID, ∃ m, env.message.unmarshal data = some m ∧ m.msgId = msgID

/-- The message's document is in im_messages. -/
def Stored (s : State) (channelID : String) (msgID : Int) : Prop :=
  ∃ d ∈ s.messages, d.channelID = channelID ∧ d.msgID = msgID

/-- PullMsg returns the message with this id. -/
def Pulls (env : Env) (s : State) (channelID : String) (lastMsgID limit msgID : Int) : Prop :=
  ∃ msgs, s.pull env channelID lastMsgID limit = some msgs ∧ ∃ m ∈ msgs, m.msgId = msgID

section Pulls

variable {env : Env} {s : State} {channelID : String} {lastMsgID limit msgID : Int}

theorem mem_ahead (short : (s.live channelID).length ≤ Pull.msgCacheMaxLen) :
    msgID ∈ (s.puller channelID lastMsgID).ahead (env.channel s channelID limit) ↔
      Cached env s channelID msgID ∧ lastMsgID < msgID := by
  have whole : (s.puller channelID lastMsgID).live.take Pull.msgCacheMaxLen = s.live channelID :=
    List.take_of_length_le short
  simp only [Pull.State.ahead, whole, List.mem_map, List.mem_filter, List.mem_filterMap,
    decide_eq_true_eq]
  constructor
  · rintro ⟨m, ⟨⟨data, held, found⟩, above⟩, rfl⟩
    exact ⟨⟨data, held, m, found, rfl⟩, above⟩
  · rintro ⟨⟨data, held, m, found, rfl⟩, above⟩
    exact ⟨m, ⟨⟨data, held, found⟩, above⟩, rfl⟩

theorem pulls_cached (nonempty : (s.puller channelID lastMsgID).ahead (env.channel s channelID limit) ≠ []) :
    Pulls env s channelID lastMsgID limit msgID ↔
      msgID ∈ ((s.puller channelID lastMsgID).ahead (env.channel s channelID limit)).take
        (Pull.clampLimit limit).toNat := by
  have ids := Pull.page_ids (env.channel s channelID limit) (s.puller channelID lastMsgID)
  have positive := Pull.clampLimit_pos limit
  have page : (s.puller channelID lastMsgID).page (env.channel s channelID limit) false ≠ [] := by
    intro empty
    rw [empty, List.map_nil, eq_comm, List.reverse_eq_nil_iff, List.take_eq_nil_iff] at ids
    rcases ids with zero | none
    · have zero : (Pull.clampLimit limit).toNat = 0 := zero
      omega
    · exact nonempty none
  simp only [Pulls, pull_eq, Pull.pulled_eq, page, ne_eq, not_false_eq_true, if_true,
    Option.some.injEq, exists_eq_left']
  rw [← List.mem_map, ids, List.mem_reverse]
  rfl

theorem pulls_query (empty : (s.puller channelID lastMsgID).ahead (env.channel s channelID limit) = []) :
    Pulls env s channelID lastMsgID limit msgID ↔
      msgID ∈ (s.puller channelID lastMsgID).queryIds (env.channel s channelID limit) := by
  have ids := Pull.page_ids (env.channel s channelID limit) (s.puller channelID lastMsgID)
  rw [empty, List.take_nil, List.reverse_nil, List.map_eq_nil_iff] at ids
  simp only [Pulls, pull_eq, Pull.pulled_eq, ids, ne_eq, not_true_eq_false, if_false,
    Bool.false_eq_true, Option.some.injEq, exists_eq_left']
  rw [← List.mem_map, Pull.query_ids]

theorem pulls_stored (empty : (s.puller channelID (msgID - 1)).ahead (env.channel s channelID limit) = []) :
    Pulls env s channelID (msgID - 1) limit msgID ↔ Stored s channelID msgID := by
  rw [pulls_query empty]
  constructor
  · intro found
    obtain ⟨⟨d, held, channel, id⟩, _⟩ := Pull.query_stored _ _ found
    exact ⟨d, held, channel, id⟩
  · intro stored
    have item : (env.channel s channelID limit).has msgID := stored
    have above : (s.puller channelID (msgID - 1)).last < msgID := Int.sub_one_lt_of_le (le_refl msgID)
    apply Pull.query_covers _ _ msgID item above
    have some : (s.puller channelID (msgID - 1)).queryIds (env.channel s channelID limit) ≠ [] := by
      intro none
      exact absurd (Pull.query_empty _ _ none item) (not_le.mpr above)
    obtain ⟨x, found⟩ := List.exists_mem_of_ne_nil _ some
    have beyond := (Pull.query_stored _ _ found).2
    exact le_trans (Int.le_of_sub_one_lt beyond) (mem_le_newest found)

end Pulls

/-- Every cache entry is a posted message of its channel, and so is every one to come. -/
structure CacheSound (env : Env) (s : State) : Prop where
  caching : ∀ m ∈ s.caching, ∃ i, (i, m) ∈ s.sends.posted
  short : ∀ ch, (s.cache ch).entries.length ≤ Pull.msgCacheMaxLen
  entries : ∀ ch, ∀ data ∈ (s.cache ch).entries, ∃ i m,
    (i, m) ∈ s.sends.posted ∧ m.channelId = ch ∧ env.message.marshal m = some data

section CacheSound

variable {env : Env} {s t : State}

theorem Start.cacheSound (start : Start s) : CacheSound env s := by
  constructor
  · intro m held
    rw [start.caching] at held
    contradiction
  · intro ch
    simp [start.cache]
  · intro ch data held
    rw [start.cache] at held
    contradiction

theorem CacheSound.next (sound : CacheSound env s) (posted : s.sends.posted <+: t.sends.posted)
    (caching : ∀ m ∈ t.caching, m ∈ s.caching ∨ ∃ i, (i, m) ∈ t.sends.posted)
    (cache : t.cache = s.cache) : CacheSound env t := by
  constructor
  · intro m held
    rcases caching m held with old | new
    · obtain ⟨i, before⟩ := sound.caching m old
      exact ⟨i, posted.subset before⟩
    · exact new
  · rw [cache]
    exact sound.short
  · rw [cache]
    intro ch data held
    obtain ⟨i, m, before, rest⟩ := sound.entries ch data held
    exact ⟨i, m, posted.subset before, rest⟩

theorem live_entry {ch : String} {data : Bytes} (held : data ∈ s.live ch) :
    data ∈ (s.cache ch).entries := by
  unfold State.live at held
  split at held
  · exact held
  · contradiction

theorem CacheSound.push (sound : CacheSound env s) {msg : ImMessage} {data : Bytes}
    (waiting : msg ∈ s.caching) (marshalled : env.message.marshal msg = some data) :
    CacheSound env ({ s with caching := s.caching.erase msg }.pushMsgCache msg.channelId data) := by
  constructor
  · intro m held
    exact sound.caching m (List.mem_of_mem_erase held)
  · intro ch
    by_cases here : ch = msg.channelId
    · subst here
      simp [State.pushMsgCache, List.length_take]
    · simp only [State.pushMsgCache, Function.update_of_ne here]
      exact sound.short ch
  · intro ch entry held
    by_cases here : ch = msg.channelId
    · subst here
      simp only [State.pushMsgCache, Function.update_self] at held
      rcases List.mem_cons.mp (List.mem_of_mem_take held) with rfl | old
      · obtain ⟨i, posted⟩ := sound.caching msg waiting
        exact ⟨i, msg, posted, rfl, marshalled⟩
      · exact sound.entries _ entry (live_entry old)
    · simp only [State.pushMsgCache, Function.update_of_ne here] at held
      exact sound.entries ch entry held

theorem step_cacheSound {a : Action} (sound : CacheSound env s) (taken : step env s a = some t) :
    CacheSound env t := by
  cases step_effect taken with
  | quiet sent _ _ => exact sound.next (SendSteps.step_posted sent) (fun m held => Or.inl held) rfl
  | @post i c msg u sent call phase =>
    refine sound.next (SendSteps.step_posted sent) ?_ rfl
    intro m held
    rcases List.mem_append.mp held with old | new
    · exact Or.inl old
    · cases List.mem_singleton.mp new
      exact Or.inr ⟨i, SendSteps.post_posted sent call phase⟩
  | @queue i c msg u sent _ _ =>
    obtain ⟨sends, _, cache, caching⟩ := offer_fields { s with sends := u } c.server (buildDoc msg s.now)
    apply sound.next
    · rw [sends]
      exact SendSteps.step_posted sent
    · rw [caching]
      exact fun m held => Or.inl held
    · exact cache
  | @deliver i c msg u sent _ _ =>
    obtain ⟨sends, _, cache, caching⟩ := publish_fields { s with sends := u } c.server msg
    apply sound.next
    · rw [sends]
      exact SendSteps.step_posted sent
    · rw [caching]
      exact fun m held => Or.inl held
    · exact cache
  | uncached _ _ =>
    exact sound.next (List.prefix_refl _) (fun m held => Or.inl (List.mem_of_mem_erase held)) rfl
  | cached waiting marshalled => exact sound.push waiting marshalled
  | receive _ => exact sound.next (List.prefix_refl _) (fun m held => Or.inl held) rfl
  | flush => exact sound.next (List.prefix_refl _) (fun m held => Or.inl held) rfl
  | broadcast _ _ _ => exact sound.next (List.prefix_refl _) (fun m held => Or.inl held) rfl

theorem live_short (sound : CacheSound env s) (ch : String) :
    (s.live ch).length ≤ Pull.msgCacheMaxLen := by
  unfold State.live
  split
  · exact sound.short ch
  · exact Nat.zero_le _

theorem Cached.posted (sound : CacheSound env s) {ch : String} {id : Int} (cached : Cached env s ch id) :
    ∃ i m, (i, m) ∈ s.sends.posted ∧ m.channelId = ch ∧ m.msgId = id := by
  obtain ⟨data, held, m, found, rfl⟩ := cached
  obtain ⟨i, n, posted, channel, marshalled⟩ := sound.entries ch data (live_entry held)
  cases (env.message.undoes n data marshalled).symm.trans found
  exact ⟨i, _, posted, channel, rfl⟩

end CacheSound

/-- The id is that of a message of the channel, and no message of the channel has a larger
one. -/
structure Newest (s : State) (channelID : String) (msgID : Int) : Prop where
  posted : ∃ i msg, (i, msg) ∈ s.sends.posted ∧ msg.channelId = channelID ∧ msg.msgId = msgID
  largest : ∀ i msg, (i, msg) ∈ s.sends.posted → msg.channelId = channelID → msg.msgId ≤ msgID

/-- A SendMsg on the channel has returned the id. -/
def Answered (s : State) (channelID : String) (msgID : Int) : Prop :=
  ∃ i c, s.sends.sends i = some c ∧ c.req.channelID = channelID ∧ SendSteps.Succeeded s.sends i msgID

/-- A connection has been sent the WorldNotify of the channel and the id. -/
def Notified (env : Env) (s : State) (channelID : String) (msgID : Int) : Prop :=
  ∃ server conn k entry payload, (s.servers server).ring.readers conn = some k ∧
    entry ∈ k.enqueued ∧ env.protos.notify channelID msgID = some payload ∧
    entry.2.frame = ⟨cmdWorldNotify, 0, payload⟩

def Announced (env : Env) (s : State) (channelID : String) (msgID : Int) : Prop :=
  Answered s channelID msgID ∨ Notified env s channelID msgID

section ReadBack

variable {env : Env} {floor : String → Int} {s : State} {channelID : String} {msgID : Int}

/- A pull from just below the newest id finds it wherever it is: whatever the cache or
MongoDB has from there on is that message. -/
theorem newest_pulled_iff (sound : CacheSound env s) (newest : Newest s channelID msgID) (limit : Int) :
    Pulls env s channelID (msgID - 1) limit msgID ↔ Cached env s channelID msgID ∨ Stored s channelID msgID := by
  have short := live_short sound channelID
  by_cases empty : (s.puller channelID (msgID - 1)).ahead (env.channel s channelID limit) = []
  · have uncached : ¬ Cached env s channelID msgID := by
      intro cached
      have found : msgID ∈ (s.puller channelID (msgID - 1)).ahead (env.channel s channelID limit) :=
        (mem_ahead short).mpr ⟨cached, Int.sub_one_lt_of_le (le_refl msgID)⟩
      rw [empty] at found
      contradiction
    rw [pulls_stored empty]
    exact ⟨Or.inr, fun found => found.resolve_left uncached⟩
  · have only : ∀ x ∈ (s.puller channelID (msgID - 1)).ahead (env.channel s channelID limit), x = msgID := by
      intro x found
      obtain ⟨cached, above⟩ := (mem_ahead short).mp found
      obtain ⟨i, m, posted, channel, rfl⟩ := cached.posted sound
      have below := newest.largest i m posted channel
      omega
    obtain ⟨x, found⟩ := List.exists_mem_of_ne_nil _ empty
    cases only x found
    have cached := ((mem_ahead short).mp found).1
    have positive := Pull.clampLimit_pos limit
    have taken : ((s.puller channelID (msgID - 1)).ahead (env.channel s channelID limit)).take
        (Pull.clampLimit limit).toNat ≠ [] := by
      intro none
      rcases List.take_eq_nil_iff.mp none with zero | none
      · omega
      · exact empty none
    obtain ⟨y, first⟩ := List.exists_mem_of_ne_nil _ taken
    cases only y (List.mem_of_mem_take first)
    exact iff_of_true ((pulls_cached empty).mpr first) (Or.inl cached)

/-- However the asynchronous steps interleave: a client that pulls from just below a newest
message that was announced to somebody gets it, exactly if its cache write has been done
and the entry is still there, or its document is in im_messages, by the time of the pull. -/
theorem announced_message_pulled_iff {s₀ : State} {as : List Action} (start : Start s₀)
    (taken : run (step env) s₀ as = some s) (newest : Newest s channelID msgID) (limit : Int) :
    Announced env s channelID msgID →
      (Pulls env s channelID (msgID - 1) limit msgID ↔ Cached env s channelID msgID ∨ Stored s channelID msgID) := by
  have sound : CacheSound env s := run_invariant (CacheSound env)
    (fun _ _ _ sound taken => step_cacheSound sound taken) start.cacheSound taken
  exact fun _ => newest_pulled_iff sound newest limit

end ReadBack

def notifiedSend : List Action :=
  [.ring 0 (.connect 1)] ++ firstSend ++ [.handle 0 (noted 1 "m-1"), .ring 0 (.store 0),
    .ring 0 (.consume 1), .ring 0 (.consume 1), .ring 0 (.consume 1)]

structure Announcement where
  posted : List (Nat × ImMessage)
  phase : Option SendSteps.Phase
  channelID : Option String
  enqueued : Option (List (Nat × Packet))
  deriving DecidableEq

def announcement (s : State) : Announcement where
  posted := s.sends.posted
  phase := (s.sends.sends 0).map (·.phase)
  channelID := (s.sends.sends 0).map (·.req.channelID)
  enqueued := ((s.servers 0).ring.readers 1).map (·.enqueued)

def worldNotify : Frame := ⟨cmdWorldNotify, 0, [0x0A, 5, 119, 111, 114, 108, 100, 0x10, 1]⟩

def firstAnnouncement : Announcement where
  posted := [(0, noted 1 "m-1")]
  phase := some (.returned (.accepted (noted 1 "m-1")))
  channelID := some "world"
  enqueued := some [(0, ⟨be32 14 ++ marshalFrame worldNotify, worldNotify⟩)]

theorem announcement_facts {s : State} (view : announcement s = firstAnnouncement) :
    Newest s "world" 1 ∧ Answered s "world" 1 ∧ Notified demo s "world" 1 := by
  simp only [announcement, firstAnnouncement, Announcement.mk.injEq] at view
  obtain ⟨posted, phase, channel, reader⟩ := view
  obtain ⟨c, call, phase⟩ := Option.map_eq_some_iff.mp phase
  rw [call] at channel
  obtain ⟨k, held, enqueued⟩ := Option.map_eq_some_iff.mp reader
  refine ⟨?_, ?_, ?_⟩
  · constructor
    · exact ⟨0, noted 1 "m-1", by rw [posted]; exact List.mem_singleton_self _, rfl, rfl⟩
    · intro i msg mem _
      rw [posted] at mem
      cases List.mem_singleton.mp mem
      exact le_refl _
  · exact ⟨0, c, call, Option.some.inj channel, _, 0, _, ⟨c, call, phase⟩, rfl⟩
  · exact ⟨0, 1, k, _, _, held, by rw [enqueued]; exact List.mem_singleton_self _, rfl, rfl⟩

theorem announced_message_pulled_cached : ∃ s,
    run (step demo) quietServers (notifiedSend ++ [.cacheWrite (noted 1 "m-1") false]) = some s ∧
    Answered s "world" 1 ∧ Pulls demo s "world" (1 - 1) 50 1 := by
  have view : ((run (step demo) quietServers
      (notifiedSend ++ [.cacheWrite (noted 1 "m-1") false])).map fun s =>
        (announcement s, (s.live "world").map demo.message.unmarshal)) =
      some (firstAnnouncement, [some (noted 1 "m-1")]) := by
    decide +kernel
  obtain ⟨s, taken, fields⟩ := Option.map_eq_some_iff.mp view
  obtain ⟨announced, live⟩ := Prod.mk.inj fields
  obtain ⟨newest, answered, _⟩ := announcement_facts announced
  have cached : Cached demo s "world" 1 := by
    obtain ⟨data, held, found⟩ := List.mem_map.mp (live ▸ List.mem_singleton_self (some (noted 1 "m-1")))
    exact ⟨data, held, noted 1 "m-1", found, rfl⟩
  exact ⟨s, taken, answered,
    (announced_message_pulled_iff quietServers_start taken newest 50 (Or.inl answered)).mpr (Or.inl cached)⟩

/- The call has returned and the connection has been notified, but neither write has
happened: the pull returns nothing. -/
theorem announced_before_written : ∃ s, run (step demo) quietServers notifiedSend = some s ∧
    Newest s "world" 1 ∧ Answered s "world" 1 ∧ Notified demo s "world" 1 ∧
    ¬ Pulls demo s "world" (1 - 1) 50 1 := by
  have view : ((run (step demo) quietServers notifiedSend).map fun s =>
      (announcement s, s.pull demo "world" (1 - 1) 50)) =
      some (firstAnnouncement, some []) := by
    decide +kernel
  obtain ⟨s, taken, fields⟩ := Option.map_eq_some_iff.mp view
  obtain ⟨announced, pulled⟩ := Prod.mk.inj fields
  obtain ⟨newest, answered, notified⟩ := announcement_facts announced
  refine ⟨s, taken, newest, answered, notified, ?_⟩
  rintro ⟨msgs, result, m, held, _⟩
  cases pulled.symm.trans result
  contradiction

end GameIM.App
