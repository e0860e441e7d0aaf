import GameIM.Service.Solo
import GameIM.App.Pipeline

/-! Where the documents of accepted messages are: in a server's write queue, in its
writer's batch, or in im_messages. -/
namespace GameIM.App
open Lib Api Store Service Gateway

/-- The document was made from the message. -/
def Records (d : MessageDoc) (msg : ImMessage) : Prop := ∃ createdAt, d = buildDoc msg createdAt

/-- The servers before their first call. MongoDB may hold messages from before; their ids
are not above the channels' counters. -/
structure Start (s : State) : Prop where
  sends : SendSteps.Idle s.sends
  caching : s.caching = []
  cache : ∀ ch, (s.cache ch).entries = []
  writeCh : ∀ server, (s.servers server).writeCh = []
  batch : ∀ server, (s.servers server).batch = []
  publishing : ∀ server, (s.servers server).publishing = []
  ring : ∀ server, (s.servers server).ring = Ring.start
  history : ∀ d ∈ s.messages, d.msgID ≤ s.sends.alloc.counter d.channelID
  unique : s.messages.Pairwise fun d e => sameKey d e = false

theorem quietServers_start : Start quietServers where
  sends := SendSteps.initial_start.idle
  caching := rfl
  cache := fun _ => rfl
  writeCh := fun _ => rfl
  batch := fun _ => rfl
  publishing := fun _ => rfl
  ring := fun _ => rfl
  history := fun _ held => nomatch held
  unique := List.Pairwise.nil

def Server.Waiting (v : Server) (d : MessageDoc) : Prop := d ∈ v.writeCh ∨ d ∈ v.batch

/-- Every document is that of a posted message, or was there before with a lower id, and
no two documents have one key. -/
structure Recorded (floor : String → Int) (s : State) : Prop where
  consistent : SendSteps.Consistent floor s.sends
  waiting : ∀ server d, (s.servers server).Waiting d → ∃ i msg, (i, msg) ∈ s.sends.posted ∧ Records d msg
  stored : ∀ d ∈ s.messages,
    d.msgID ≤ floor d.channelID ∨ ∃ i msg, (i, msg) ∈ s.sends.posted ∧ Records d msg
  unique : s.messages.Pairwise fun d e => sameKey d e = false

section Insert

variable {messages docs lost : List MessageDoc} {d e : MessageDoc}

theorem sameKey_iff : sameKey d e = true ↔ d.channelID = e.channelID ∧ d.msgID = e.msgID := by
  simp [sameKey]

theorem insertDoc_cases (old : e ∈ insertDoc messages d) : e ∈ messages ∨ e = d := by
  unfold insertDoc at old
  split at old
  · exact Or.inl old
  · exact (List.mem_append.mp old).imp id List.mem_singleton.mp

theorem insertDoc_keeps (held : e ∈ messages) : e ∈ insertDoc messages d := by
  unfold insertDoc
  split
  · exact held
  · exact List.mem_append_left _ held

theorem insertDoc_holds (messages : List MessageDoc) (d : MessageDoc) :
    ∃ e ∈ insertDoc messages d, sameKey d e = true := by
  unfold insertDoc
  split
  · rename_i found
    obtain ⟨e, held, same⟩ := List.any_eq_true.mp found
    exact ⟨e, held, same⟩
  · exact ⟨d, by simp, by simp [sameKey]⟩

theorem insertDoc_unique (unique : messages.Pairwise fun d e => sameKey d e = false) :
    (insertDoc messages d).Pairwise fun d e => sameKey d e = false := by
  unfold insertDoc
  split
  · exact unique
  · rename_i absent
    rw [List.pairwise_append]
    refine ⟨unique, List.pairwise_singleton _ _, ?_⟩
    intro e held f single
    cases List.mem_singleton.mp single
    cases same : sameKey e d with
    | false => rfl
    | true =>
      exfalso
      apply absent
      obtain ⟨channel, id⟩ := sameKey_iff.mp same
      exact List.any_eq_true.mpr ⟨e, held, sameKey_iff.mpr ⟨channel.symm, id.symm⟩⟩

theorem foldl_insertDoc_cases (old : e ∈ docs.foldl insertDoc messages) : e ∈ messages ∨ e ∈ docs := by
  induction docs generalizing messages with
  | nil => exact Or.inl old
  | cons d rest ih =>
    rcases ih old with before | later
    · rcases insertDoc_cases before with held | rfl
      · exact Or.inl held
      · exact Or.inr (by simp)
    · exact Or.inr (by simp [later])

theorem foldl_insertDoc_keeps (held : e ∈ messages) : e ∈ docs.foldl insertDoc messages := by
  induction docs generalizing messages with
  | nil => exact held
  | cons d rest ih => exact ih (insertDoc_keeps held)

theorem foldl_insertDoc_holds (given : d ∈ docs) :
    ∃ e ∈ docs.foldl insertDoc messages, sameKey d e = true := by
  induction docs generalizing messages with
  | nil => contradiction
  | cons first rest ih =>
    rcases List.mem_cons.mp given with rfl | later
    · obtain ⟨e, held, same⟩ := insertDoc_holds messages d
      have kept : e ∈ rest.foldl insertDoc (insertDoc messages d) := foldl_insertDoc_keeps held
      exact ⟨e, kept, same⟩
    · exact ih later

theorem foldl_insertDoc_unique (unique : messages.Pairwise fun d e => sameKey d e = false) :
    (docs.foldl insertDoc messages).Pairwise fun d e => sameKey d e = false := by
  induction docs generalizing messages with
  | nil => exact unique
  | cons d rest ih => exact ih (insertDoc_unique unique)

theorem insertMessages_cases (old : e ∈ insertMessages messages docs lost) : e ∈ messages ∨ e ∈ docs :=
  (foldl_insertDoc_cases old).imp id List.mem_of_mem_filter

theorem insertMessages_holds (messages : List MessageDoc) (batched : d ∈ docs) (spared : d ∉ lost) :
    ∃ e ∈ insertMessages messages docs lost, sameKey d e = true := by
  apply foldl_insertDoc_holds
  simpa using ⟨batched, spared⟩

end Insert

section Recorded

variable {env : Env} {floor : String → Int} {s t : State}

theorem Start.recorded (start : Start s) : Recorded s.sends.alloc.counter s := by
  constructor
  · exact start.sends.consistent
  · intro server d waiting
    simp only [Server.Waiting, start.writeCh, start.batch, List.not_mem_nil, or_self] at waiting
  · intro d held
    exact Or.inl (start.history d held)
  · exact start.unique

theorem offer_fields (s : State) (server : Nat) (doc : MessageDoc) :
    (s.offer server doc).sends = s.sends ∧ (s.offer server doc).messages = s.messages ∧
      (s.offer server doc).cache = s.cache ∧ (s.offer server doc).caching = s.caching := by
  unfold State.offer
  split
  · exact ⟨rfl, rfl, rfl, rfl⟩
  · exact ⟨rfl, rfl, rfl, rfl⟩

theorem publish_fields (s : State) (server : Nat) (msg : ImMessage) :
    (s.publish server msg).sends = s.sends ∧ (s.publish server msg).messages = s.messages ∧
      (s.publish server msg).cache = s.cache ∧ (s.publish server msg).caching = s.caching := by
  unfold State.publish
  split
  · exact ⟨rfl, rfl, rfl, rfl⟩
  · exact ⟨rfl, rfl, rfl, rfl⟩

theorem setServer_waiting {server other : Nat} {v : Server} {d : MessageDoc}
    (waiting : ((s.setServer server v).servers other).Waiting d) :
    (other = server ∧ v.Waiting d) ∨ (s.servers other).Waiting d := by
  by_cases here : other = server
  · subst here
    simp only [State.setServer, Function.update_self] at waiting
    exact Or.inl ⟨rfl, waiting⟩
  · simp only [State.setServer, Function.update_of_ne here] at waiting
    exact Or.inr waiting

theorem offer_waiting {server other : Nat} {doc d : MessageDoc}
    (waiting : ((s.offer server doc).servers other).Waiting d) :
    d = doc ∨ (s.servers other).Waiting d := by
  unfold State.offer at waiting
  split at waiting
  · rcases setServer_waiting waiting with ⟨rfl, new⟩ | old
    · rcases new with queued | batched
      · rcases List.mem_append.mp queued with before | added
        · exact Or.inr (Or.inl before)
        · exact Or.inl (List.mem_singleton.mp added)
      · exact Or.inr (Or.inr batched)
    · exact Or.inr old
  · exact Or.inr waiting

theorem publish_waiting {server other : Nat} {msg : ImMessage} {d : MessageDoc}
    (waiting : ((s.publish server msg).servers other).Waiting d) : (s.servers other).Waiting d := by
  unfold State.publish at waiting
  split at waiting
  · rcases setServer_waiting waiting with ⟨rfl, new⟩ | old
    · exact new
    · exact old
  · exact waiting

/- The calls went on, and every document is still one of those there were or is new and
that of a posted message. -/
theorem Recorded.next (recorded : Recorded floor s) (consistent : SendSteps.Consistent floor t.sends)
    (posted : s.sends.posted <+: t.sends.posted) (messages : t.messages = s.messages)
    (waiting : ∀ server d, (t.servers server).Waiting d →
      (∃ other, (s.servers other).Waiting d) ∨ ∃ i msg, (i, msg) ∈ t.sends.posted ∧ Records d msg) :
    Recorded floor t := by
  constructor
  · exact consistent
  · intro server d new
    rcases waiting server d new with ⟨other, old⟩ | found
    · obtain ⟨i, msg, held, records⟩ := recorded.waiting other d old
      exact ⟨i, msg, posted.subset held, records⟩
    · exact found
  · intro d held
    rw [messages] at held
    rcases recorded.stored d held with low | ⟨i, msg, old, records⟩
    · exact Or.inl low
    · exact Or.inr ⟨i, msg, posted.subset old, records⟩
  · rw [messages]
    exact recorded.unique

theorem step_recorded {a : Action} (recorded : Recorded floor s) (taken : step env s a = some t) :
    Recorded floor t := by
  have same : ∀ server d, (s.servers server).Waiting d → (∃ other, (s.servers other).Waiting d) ∨
      ∃ i msg, (i, msg) ∈ t.sends.posted ∧ Records d msg := fun server d waiting => Or.inl ⟨server, waiting⟩
  cases step_effect taken with
  | quiet sent _ _ =>
    exact recorded.next (SendSteps.step_consistent recorded.consistent sent)
      (SendSteps.step_posted sent) rfl same
  | post sent _ _ =>
    exact recorded.next (SendSteps.step_consistent recorded.consistent sent)
      (SendSteps.step_posted sent) rfl same
  | @queue i c msg u sent call phase =>
    have consistent := SendSteps.step_consistent recorded.consistent sent
    have posted := SendSteps.step_posted sent
    obtain ⟨sends, messages, _, _⟩ := offer_fields { s with sends := u } c.server (buildDoc msg s.now)
    have mine : (i, msg) ∈ s.sends.posted :=
      recorded.consistent.handed i c msg call (by rw [phase]; rfl) (by simp [phase, SendSteps.Phase.handOffs])
    apply recorded.next
    · rw [sends]
      exact consistent
    · rw [sends]
      exact posted
    · exact messages
    · intro server d waiting
      rcases offer_waiting waiting with rfl | old
      · rw [sends]
        exact Or.inr ⟨i, msg, posted.subset mine, s.now, rfl⟩
      · exact Or.inl ⟨server, old⟩
  | @deliver i c msg u sent call phase =>
    obtain ⟨sends, messages, _, _⟩ := publish_fields { s with sends := u } c.server msg
    apply recorded.next
    · rw [sends]
      exact SendSteps.step_consistent recorded.consistent sent
    · rw [sends]
      exact SendSteps.step_posted sent
    · exact messages
    · intro server d waiting
      have old : (s.servers server).Waiting d := publish_waiting (s := { s with sends := u }) waiting
      exact Or.inl ⟨server, old⟩
  | uncached _ _ => exact recorded.next recorded.consistent (List.prefix_refl _) rfl same
  | cached _ _ => exact recorded.next recorded.consistent (List.prefix_refl _) rfl same
  | @receive server doc rest waits =>
    refine recorded.next recorded.consistent (List.prefix_refl _) rfl ?_
    intro other d waiting
    rcases setServer_waiting waiting with ⟨rfl, new⟩ | old
    · rcases new with queued | batched
      · exact Or.inl ⟨other, Or.inl (by rw [waits]; exact List.mem_cons_of_mem _ queued)⟩
      · rcases List.mem_append.mp batched with before | added
        · exact Or.inl ⟨other, Or.inr before⟩
        · exact Or.inl ⟨other, Or.inl (by rw [waits, List.mem_singleton.mp added]; simp)⟩
    · exact Or.inl ⟨other, old⟩
  | @flush server lost =>
    constructor
    · exact recorded.consistent
    · intro other d waiting
      rcases setServer_waiting waiting with ⟨rfl, new⟩ | old
      · rcases new with queued | batched
        · exact recorded.waiting other d (Or.inl queued)
        · contradiction
      · exact recorded.waiting other d old
    · intro d held
      rcases insertMessages_cases held with old | batched
      · exact recorded.stored d old
      · exact Or.inr (recorded.waiting server d (Or.inr batched))
    · exact foldl_insertDoc_unique recorded.unique
  | @broadcast server a publishing ring _ _ _ =>
    refine recorded.next recorded.consistent (List.prefix_refl _) rfl ?_
    intro other d waiting
    rcases setServer_waiting waiting with ⟨rfl, new⟩ | old
    · exact Or.inl ⟨other, new⟩
    · exact Or.inl ⟨other, old⟩

end Recorded

/-- The message's document waits in the server's write queue or batch, or is stored. -/
def Kept (s : State) (server : Nat) (msg : ImMessage) : Prop :=
  ∃ d, Records d msg ∧
    (d ∈ (s.servers server).writeCh ∨ d ∈ (s.servers server).batch ∨ d ∈ s.messages)

/- The message is kept if a call with it is past its hand-off to writeCh. -/
def Saved (msg : ImMessage) (s : State) : Prop :=
  ∀ i c, s.sends.sends i = some c → c.phase.message = some msg → 2 ≤ c.phase.handOffs →
    Kept s c.server msg

/-- The message's hand-off finds room in writeCh, and a flush of a batch with its document
inserts it. -/
def Spares (msg : ImMessage) (s : State) : Action → Prop
  | .send (.queue i) => ∀ c ∈ s.sends.sends i, c.phase = .queueing msg →
    (s.servers c.server).writeCh.length < writeChSize
  | .flush server lost => ∀ d ∈ (s.servers server).batch,
    d.channelID = msg.channelId → d.msgID = msg.msgId → d ∉ lost
  | _ => True

instance decidableSpares (msg : ImMessage) (s : State) : ∀ a, Decidable (Spares msg s a)
  | .send a => match a with
    | .queue i => inferInstanceAs (Decidable (∀ c ∈ s.sends.sends i, _))
    | .enter _ _ _ _ _ | .next _ | .nextFailed _ | .script _ _ | .post _ | .deliver _ =>
      inferInstanceAs (Decidable True)
  | .flush server _ => inferInstanceAs (Decidable (∀ d ∈ (s.servers server).batch, _))
  | .cacheWrite _ _ | .receive _ | .handle _ _ | .ring _ _ => inferInstanceAs (Decidable True)

section Saved

variable {env : Env} {floor : String → Int} {s t : State} {msg : ImMessage}

theorem setSend_past_queue {u v : SendSteps.State} {i j : Nat} {c b : SendSteps.Send}
    (call : (v.setSend j b).sends i = some c) (sends : v.sends = u.sends)
    (message : c.phase.message = some msg) (made : 2 ≤ c.phase.handOffs)
    (early : b.phase.handOffs < 2) :
    ∃ d, u.sends i = some d ∧ d.server = c.server ∧ d.phase.message = some msg ∧
      2 ≤ d.phase.handOffs := by
  rcases SendSteps.setSend_sends_cases call with ⟨_, rfl⟩ | ⟨_, old⟩
  · omega
  · exact ⟨c, sends ▸ old, rfl, message, made⟩

theorem step_past_queue {cfg : Service.Config} {u v : SendSteps.State} {a : SendSteps.Action}
    (taken : SendSteps.step cfg u a = some v) {i : Nat} {c : SendSteps.Send} (call : v.sends i = some c)
    (message : c.phase.message = some msg) (made : 2 ≤ c.phase.handOffs) :
    (∃ b, u.sends i = some b ∧ b.server = c.server ∧ b.phase.message = some msg ∧
        2 ≤ b.phase.handOffs) ∨
      (a = .queue i ∧ ∃ b, u.sends i = some b ∧ b.server = c.server ∧ b.phase = .queueing msg) := by
  cases SendSteps.step_effect taken with
  | refused => exact Or.inl (setSend_past_queue call rfl message made Nat.zero_lt_two)
  | enter => exact Or.inl (setSend_past_queue call rfl message made Nat.zero_lt_two)
  | next => exact Or.inl ⟨c, call, rfl, message, made⟩
  | nextFailed => exact Or.inl (setSend_past_queue call rfl message made Nat.zero_lt_two)
  | lostBefore => exact Or.inl (setSend_past_queue call rfl message made Nat.zero_lt_two)
  | lostAfter =>
    exact Or.inl (setSend_past_queue (v := u.setRedis _) call rfl message made Nat.zero_lt_two)
  | resent => exact Or.inl ⟨c, call, rfl, message, made⟩
  | checked =>
    refine Or.inl (setSend_past_queue (v := u.setRedis _) call rfl message made ?_)
    simp [SendSteps.Send.to, SendSteps.settled_unmade]
  | post =>
    exact Or.inl (setSend_past_queue (v := { u with posted := _ }) call rfl message made Nat.one_lt_two)
  | @queue j b m before phase =>
    rcases SendSteps.setSend_sends_cases call with ⟨rfl, rfl⟩ | ⟨_, old⟩
    · cases Option.some.inj message
      exact Or.inr ⟨rfl, b, before, rfl, phase⟩
    · exact Or.inl ⟨c, old, rfl, message, made⟩
  | @deliver j b m before phase =>
    rcases SendSteps.setSend_sends_cases call with ⟨rfl, rfl⟩ | ⟨_, old⟩
    · cases Option.some.inj message
      exact Or.inl ⟨b, before, rfl, by rw [phase]; rfl, by simp [phase, SendSteps.Phase.handOffs]⟩
    · exact Or.inl ⟨c, old, rfl, message, made⟩

theorem Kept.next {server : Nat} (kept : Kept s server msg)
    (waiting : ∀ d, (s.servers server).Waiting d → (t.servers server).Waiting d)
    (messages : t.messages = s.messages) : Kept t server msg := by
  obtain ⟨d, records, place⟩ := kept
  refine ⟨d, records, ?_⟩
  rw [messages, ← or_assoc]
  exact (or_assoc.mpr place).imp (waiting d) id

theorem offer_keeps {server other : Nat} {doc d : MessageDoc}
    (waits : (s.servers server).Waiting d) :
    ((s.offer other doc).servers server).Waiting d := by
  unfold State.offer
  split
  · by_cases here : server = other
    · subst here
      simp only [State.setServer, Function.update_self]
      exact waits.imp (List.mem_append_left _) id
    · simp only [State.setServer, Function.update_of_ne here]
      exact waits
  · exact waits

theorem setServer_keeps {server other : Nat} {v : Server} {d : MessageDoc}
    (waits : (s.servers server).Waiting d)
    (moved : (s.servers other).Waiting d → v.Waiting d) :
    ((s.setServer other v).servers server).Waiting d := by
  by_cases here : server = other
  · subst here
    simp only [State.setServer, Function.update_self]
    exact moved waits
  · simp only [State.setServer, Function.update_of_ne here]
    exact waits

theorem publish_keeps {server other : Nat} {m : ImMessage} {d : MessageDoc}
    (waits : (s.servers server).Waiting d) :
    ((s.publish other m).servers server).Waiting d := by
  unfold State.publish
  split
  · exact setServer_keeps waits id
  · exact waits

/- A flush that loses nothing stores the batch. A document that the unique index refuses
is that of the same message, since no two messages share a key. -/
theorem flush_stores {server : Nat} {lost : List MessageDoc} (recorded : Recorded floor s) {i : Nat}
    (posted : (i, msg) ∈ s.sends.posted) {d : MessageDoc} (records : Records d msg)
    (batched : d ∈ (s.servers server).batch) (spared : d ∉ lost) :
    ∃ e ∈ insertMessages s.messages (s.servers server).batch lost, Records e msg := by
  obtain ⟨createdAt, rfl⟩ := records
  obtain ⟨e, held, same⟩ := insertMessages_holds s.messages batched spared
  obtain ⟨channel, id⟩ := sameKey_iff.mp same
  have known : e.msgID ≤ floor e.channelID ∨ ∃ j m, (j, m) ∈ s.sends.posted ∧ Records e m := by
    rcases insertMessages_cases held with old | new
    · exact recorded.stored e old
    · exact Or.inr (recorded.waiting server e (Or.inr new))
  rcases known with low | ⟨j, m, hm, time, rfl⟩
  · have above := recorded.consistent.above posted
    rw [← channel, ← id] at low
    exact absurd above (not_lt.mpr low)
  · have eq := (recorded.consistent.once posted hm channel id).2
    exact ⟨buildDoc m time, held, time, by rw [eq]⟩

theorem flush_keeps {server other : Nat} {lost : List MessageDoc} (recorded : Recorded floor s) {i : Nat}
    (posted : (i, msg) ∈ s.sends.posted) (spares : Spares msg s (.flush server lost))
    (kept : Kept s other msg) :
    Kept { s.setServer server { s.servers server with batch := [] } with
      messages := insertMessages s.messages (s.servers server).batch lost } other msg := by
  obtain ⟨d, records, place⟩ := kept
  by_cases batched : other = server ∧ d ∈ (s.servers server).batch
  · have spared : d ∉ lost := by
      obtain ⟨createdAt, rfl⟩ := records
      exact spares _ batched.2 rfl rfl
    obtain ⟨e, stored, records⟩ := flush_stores recorded posted records batched.2 spared
    exact ⟨e, records, Or.inr (Or.inr stored)⟩
  · refine ⟨d, records, ?_⟩
    rcases place with queued | held | stored
    · have same : d ∈ ((s.setServer server { s.servers server with batch := [] }).servers other).writeCh := by
        by_cases here : other = server
        · subst here
          simpa [State.setServer] using queued
        · simpa [State.setServer, here] using queued
      exact Or.inl same
    · have here : other ≠ server := fun same => batched ⟨same, same ▸ held⟩
      exact Or.inr (Or.inl (by simpa [State.setServer, here] using held))
    · exact Or.inr (Or.inr (foldl_insertDoc_keeps stored))

theorem step_saved {a : Action} (recorded : Recorded floor s) (saved : Saved msg s) (spares : Spares msg s a)
    (taken : step env s a = some t) : Saved msg t := by
  cases step_effect taken with
  | quiet sent _ noQueue =>
    intro i c call message made
    rcases step_past_queue sent call message made with ⟨b, old, server, before, made⟩ | ⟨rfl, _⟩
    · exact server ▸ (saved i b old before made).next (fun d waits => waits) rfl
    · exact absurd rfl (noQueue i)
  | post sent _ _ =>
    intro i c call message made
    rcases step_past_queue sent call message made with ⟨b, old, server, before, made⟩ | ⟨other, _⟩
    · exact server ▸ (saved i b old before made).next (fun d waits => waits) rfl
    · cases other
  | @queue j b m u sent before phase =>
    intro i c call message made
    obtain ⟨sends, messages, _, _⟩ := offer_fields { s with sends := u } b.server (buildDoc m s.now)
    rw [sends] at call
    rcases step_past_queue sent call message made with
      ⟨b', old, server, message', made'⟩ | ⟨here, b', old, server, phase'⟩
    · exact server ▸ (saved i b' old message' made').next
        (fun d waits => offer_keeps (s := { s with sends := u }) waits) messages
    · cases here
      cases before.symm.trans old
      cases phase.symm.trans phase'
      have room : (s.servers b.server).writeCh.length < writeChSize := spares b before phase
      refine ⟨buildDoc msg s.now, ⟨s.now, rfl⟩, Or.inl ?_⟩
      rw [← server]
      simp [State.offer, room, State.setServer]
  | @deliver j b m u sent before phase =>
    intro i c call message made
    obtain ⟨sends, messages, _, _⟩ := publish_fields { s with sends := u } b.server m
    rw [sends] at call
    rcases step_past_queue sent call message made with ⟨b', old, server, message', made'⟩ | ⟨other, _⟩
    · exact server ▸ (saved i b' old message' made').next
        (fun d waits => publish_keeps (s := { s with sends := u }) waits) messages
    · cases other
  | uncached _ _ =>
    intro i c call message made
    exact (saved i c call message made).next (fun d waits => waits) rfl
  | cached _ _ =>
    intro i c call message made
    exact (saved i c call message made).next (fun d waits => waits) rfl
  | @receive server doc rest waits =>
    intro i c call message made
    refine (saved i c call message made).next (fun d held => setServer_keeps held ?_) rfl
    rintro (queued | batched)
    · rw [waits] at queued
      rcases List.mem_cons.mp queued with rfl | later
      · exact Or.inr (by simp)
      · exact Or.inl later
    · exact Or.inr (List.mem_append_left _ batched)
  | flush =>
    intro i c call message made
    have posted := recorded.consistent.handed i c msg call message (by omega)
    exact flush_keeps recorded posted spares (saved i c call message made)
  | broadcast _ _ _ =>
    intro i c call message made
    exact (saved i c call message made).next (fun d held => setServer_keeps held id) rfl

theorem Recorded.at_most_once (recorded : Recorded floor s) (channelID : String) (msgID : Int) :
    (s.messages.filter fun d => d.channelID = channelID ∧ d.msgID = msgID).length ≤ 1 := by
  have apart := recorded.unique.filter fun d => d.channelID = channelID ∧ d.msgID = msgID
  have key : ∀ d ∈ s.messages.filter fun d => d.channelID = channelID ∧ d.msgID = msgID,
      d.channelID = channelID ∧ d.msgID = msgID := by
    intro d held
    simpa using (List.mem_filter.mp held).2
  generalize s.messages.filter (fun d => d.channelID = channelID ∧ d.msgID = msgID) = found at apart key ⊢
  cases found with
  | nil => exact Nat.zero_le _
  | cons d rest =>
    cases rest with
    | nil => exact Nat.le_refl _
    | cons e rest =>
      have first := key d (by simp)
      have second := key e (by simp)
      have differ := (List.pairwise_cons.mp apart).1 e (by simp)
      have same : sameKey d e = true := sameKey_iff.mpr
        ⟨first.1.trans second.1.symm, first.2.trans second.2.symm⟩
      rw [same] at differ
      contradiction

/-- However calls, receives and flushes interleave, and whatever becomes of the insertions:
a message that a call has returned as accepted is in the server's queue, in its batch or in
im_messages, unless its own hand-off found the queue full or a flush failed to insert it.
It is in im_messages at most once in any case. -/
theorem accepted_messages_kept {s₀ : State} {as : List Action} (start : Start s₀)
    (taken : run (step env) s₀ as = some s) {i : Nat} {c : SendSteps.Send}
    (call : s.sends.sends i = some c) (ended : c.phase = .returned (.accepted msg)) :
    (Meets (step env) (Spares msg) s₀ as → Kept s c.server msg) ∧
      (s.messages.filter fun d => d.channelID = msg.channelId ∧ d.msgID = msg.msgId).length ≤ 1 := by
  have initial : Saved msg s₀ := by
    intro j b call
    cases (start.sends.sends j).symm.trans call
  constructor
  · intro spares
    obtain ⟨_, saved⟩ := run_invariant_meets
      (fun s => Recorded s₀.sends.alloc.counter s ∧ Saved msg s)
      (fun _ _ _ inv spares taken => ⟨step_recorded inv.1 taken, step_saved inv.1 inv.2 spares taken⟩)
      ⟨start.recorded, initial⟩ spares taken
    exact saved i c call (by rw [ended]; rfl) (by simp [ended, SendSteps.Phase.handOffs])
  · have recorded := run_invariant (Recorded s₀.sends.alloc.counter)
      (fun _ _ _ recorded taken => step_recorded recorded taken) start.recorded taken
    exact recorded.at_most_once msg.channelId msg.msgId

end Saved

theorem accepted_messages_kept_stored : ∃ s c,
    run (step demo) quietServers (firstSend ++ [.receive 0, .flush 0 []]) = some s ∧
    s.sends.sends 0 = some c ∧ c.phase = .returned (.accepted (noted 1 "m-1")) ∧
    s.messages = [buildDoc (noted 1 "m-1") 0] ∧ Kept s c.server (noted 1 "m-1") := by
  have view : ((run (step demo) quietServers (firstSend ++ [.receive 0, .flush 0 []])).bind fun s =>
      (s.sends.sends 0).map fun c => (c.phase, s.messages)) =
        some (.returned (.accepted (noted 1 "m-1")), [buildDoc (noted 1 "m-1") 0]) := by
    decide +kernel
  obtain ⟨s, taken, rest⟩ := Option.bind_eq_some_iff.mp view
  obtain ⟨c, call, fields⟩ := Option.map_eq_some_iff.mp rest
  have phase := congrArg Prod.fst fields
  have messages := congrArg Prod.snd fields
  have spares : Meets (step demo) (Spares (noted 1 "m-1")) quietServers (firstSend ++ [.receive 0, .flush 0 []]) := by
    decide +kernel
  exact ⟨s, c, taken, call, phase, messages,
    (accepted_messages_kept quietServers_start taken call phase).1 spares⟩

/- Messages that nobody receives, until writeCh is full. Each is the first one of its user and of its
channel, so that it finds nothing that an earlier one has left. -/
section Backlog

variable {s : State} {k : Nat}

def Uniform (c : LocalCache) (v : Bool) : Prop := ∀ key e, c.entries key = some e → e.value = v

theorem Uniform.checked {c : LocalCache} {v : Bool} (uniform : Uniform c v) (now : Nat) (key : String)
    (failOpen : Bool) : (checkCached c now key (some v) failOpen).1 = v ∧
      Uniform (checkCached c now key (some v) failOpen).2 v := by
  obtain ⟨answer, kept⟩ := checkCached_steady now failOpen (uniform key)
  refine ⟨answer, fun other e held => ?_⟩
  by_cases here : other = key
  · subst here
    exact kept e held
  · rw [checkCached_entries_ne now _ _ here] at held
    exact uniform other e held

theorem precheck_open {caches : Caches} (ban : Uniform caches.ban false) (avail : Uniform caches.avail true)
    (now : Nat) (uid : Int) {req : SendMsgReq} (short : req.content.length ≤ maxMsgLength) :
    ∃ after, precheck permissive caches now uid req = (.ok req.content, after) ∧
      Uniform after.ban false ∧ Uniform after.avail true := by
  obtain ⟨free, ban⟩ := ban.checked now (banKey uid) false
  obtain ⟨opened, avail⟩ := avail.checked now (availKey req.channelType) true
  refine ⟨⟨_, _⟩, ?_, ban, avail⟩
  simp [precheck, Nat.not_lt.mpr short, permissive, FilterChain.check, checkBanCached, free,
    checkAvailCached, opened]

def ally (k : Nat) : String := "alliance:" ++ toString k

def greeting (k : Nat) : SendMsgReq := ⟨ally k, .alliance, [104, 105], .text, [], ""⟩

def greeted (k : Nat) : ImMessage := buildMsg 1 none (greeting k) [104, 105] 0

/- User k greets an alliance that nobody has written to. -/
def greet (k : Nat) : List Action :=
  [.send (.enter k 0 k none (greeting k)), .send (.next (.lookup k)), .send (.next (.incrBy k)),
    .send (.next (.install k)), .send (.script k .none), .send (.post k), .send (.queue k),
    .send (.deliver k)]

theorem ally_inj {j : Nat} : ally j = ally k ↔ j = k := by
  constructor
  · intro same
    exact Nat.repr_injective ((String.append_right_inj _).mp same)
  · exact fun same => same ▸ rfl

/-- The users below k have sent their greetings, and the writer of the server has not
received one. -/
structure Greeted (k : Nat) (s : State) : Prop where
  now : s.sends.alloc.now = 0
  ended : ∀ j < k, s.sends.sends j =
    some ⟨0, j, none, greeting j, .returned (.accepted (greeted j))⟩
  sends : ∀ j, k ≤ j → s.sends.sends j = none
  calls : ∀ j, k ≤ j → s.sends.alloc.calls j = none
  ranges : ∀ j, k ≤ j → s.sends.alloc.ranges 0 (ally j) = none
  seq : ∀ j, k ≤ j → s.sends.alloc.redis.keys (keySeq (ally j)) = none
  rate : ∀ j : Nat, k ≤ j → s.sends.alloc.redis.keys (keyRateLimit j) = none
  dedup : s.sends.alloc.redis.keys (keyDedup "") = none
  ban : Uniform (s.sends.caches 0).ban false
  avail : Uniform (s.sends.caches 0).avail true
  writeCh : (s.servers 0).writeCh =
    ((List.range k).take writeChSize).map fun j => buildDoc (greeted j) 0
  batch : (s.servers 0).batch = []
  messages : s.messages = []

theorem quietServers_greeted : Greeted 0 quietServers where
  now := rfl
  ended := fun j below => absurd below (Nat.not_lt_zero j)
  sends := fun _ _ => rfl
  calls := fun _ _ => rfl
  ranges := fun _ _ => rfl
  seq := fun _ _ => rfl
  rate := fun _ _ => rfl
  dedup := rfl
  ban := by simp [Uniform, quietServers, SendSteps.initial]
  avail := by simp [Uniform, quietServers, SendSteps.initial]
  writeCh := rfl
  batch := rfl
  messages := rfl

theorem reserve_first {r : Redis} {ch : String} (absent : r.keys (keySeq ch) = none) :
    r.incrBy 0 ch SeqAlloc.seqBatchSize = (some 1000, r.put (keySeq ch) ⟨1000, none⟩) := by
  have unread := Redis.get_absent 0 absent
  have room : ¬ Overflows ((r.get 0 (keySeq ch)).getD 0) SeqAlloc.seqBatchSize := by
    rw [unread]
    decide
  rw [Redis.incrBy, Redis.incrKeyBy_done room, unread]
  simp [Redis.find, absent, SeqAlloc.seqBatchSize]

theorem check_first {r : Redis} {uid : Int} (dedup : r.keys (keyDedup "") = none)
    (rate : r.keys (keyRateLimit uid) = none) :
    (dedupAndRateCheck r 0 "" uid ratePerSecond 1).1 = some ⟨false, 0, true⟩ ∧
      (dedupAndRateCheck r 0 "" uid ratePerSecond 1).2.keys (keyDedup "") = none := by
  have miss := Redis.get_absent 0 dedup
  have count : rateCount r 0 uid = 0 := by rw [rateCount, Redis.get_absent 0 rate]; rfl
  have room : ¬ Overflows (rateCount r 0 uid) 1 := by
    rw [count]
    decide
  constructor
  · rw [check_miss r 0 "" uid _ 1 miss room, count]
    rfl
  · rw [check_miss_dedup r 0 "" uid _ 1 miss room]
    simpa using dedup

/-- The calls and their server when that of user k has its answer from Redis. -/
def answered (u : SendSteps.State) (k : Nat) (caches : Caches) (redis : Redis) (phase : SendSteps.Phase) :
    SendSteps.State :=
  { u with
    alloc :=
      { u.alloc with
        redis := redis
        ranges := Function.update u.alloc.ranges 0
          (Function.update (u.alloc.ranges 0) (ally k) (some (.opened 1000)))
        calls := Function.update u.alloc.calls k (some ⟨0, ally k, .returned 1⟩) }
    caches := Function.update u.caches 0 caches
    sends := Function.update u.sends k (some ⟨0, k, none, greeting k, phase⟩) }

theorem run_number {a : SeqAlloc.State} {server : Nat} {ch : String} {r : Redis}
    (call : a.calls k = some ⟨server, ch, .entered⟩) (unopened : a.ranges server ch = none)
    (reserved : a.redis.incrBy a.now ch SeqAlloc.seqBatchSize = (some 1000, r)) :
    run SeqAlloc.step a [.lookup k, .incrBy k, .install k] =
      some (({ a with redis := r }.setRange server ch (.opened 1000)).setCall k ⟨server, ch, .returned 1⟩) := by
  have first : SeqAlloc.newStart 1000 = 1 := by decide
  simp only [run, SeqAlloc.step, call, unopened, Option.bind_some, SeqAlloc.State.setCall, Function.update_self,
    reserved, first, SeqAlloc.State.setRange, Function.update_idem]

theorem run_answered {u : SendSteps.State} {caches : Caches} {r q : Redis} (now : u.alloc.now = 0)
    (free : u.sends k = none) (idle : u.alloc.calls k = none) (unopened : u.alloc.ranges 0 (ally k) = none)
    (passed : precheck permissive (u.caches 0) 0 k (greeting k) = (.ok [104, 105], caches))
    (reserved : u.alloc.redis.incrBy 0 (ally k) SeqAlloc.seqBatchSize = (some 1000, r))
    (checked : dedupAndRateCheck r 0 "" k ratePerSecond 1 = (some ⟨false, 0, true⟩, q)) :
    run (SendSteps.step permissive) u (.enter k 0 k none (greeting k) ::
      ([.lookup k, .incrBy k, .install k].map .next ++ [.script k .none])) =
      some (answered u k caches q (.posting (greeted k))) := by
  have entered : SendSteps.step permissive u (.enter k 0 k none (greeting k)) =
      some ({ u.setCaches 0 caches with alloc := u.alloc.setCall k ⟨0, ally k, .entered⟩ }.setSend k
        ⟨0, k, none, greeting k, .allocating [104, 105]⟩) := by
    simp only [SendSteps.step, free, now, passed, SeqAlloc.step, idle, Option.map_some]
    rfl
  have numbered := run_number (k := k) (a := u.alloc.setCall k ⟨0, ally k, .entered⟩)
    (SeqAlloc.setCall_calls_same _ _ _) unopened (now ▸ reserved)
  refine run_cons_some.mpr ⟨_, entered, ?_⟩
  refine run_append_some.mpr ⟨_, SendSteps.run_next permissive (by simp) numbered, ?_⟩
  simp [run, SendSteps.step, SendSteps.State.setSend, SendSteps.State.setCaches, SeqAlloc.State.setCall,
    SeqAlloc.State.setRange, SendSteps.State.check, SendSteps.State.setRedis, now, checked, settle,
    SendSteps.afterCheck, SendSteps.Send.to, answered, greeted, greeting]

theorem run_sends (env : Env) {as : List SendSteps.Action} {u : SendSteps.State}
    (quiet : ∀ a ∈ as, ∀ (s : State) t, s.handOver t a = { s with sends := t })
    (taken : run (SendSteps.step env.service) s.sends as = some u) :
    run (step env) s (as.map .send) = some { s with sends := u } := by
  induction as generalizing s with
  | nil =>
    cases taken
    rfl
  | cons a rest ih =>
    obtain ⟨v, first, later⟩ := run_cons_some.mp taken
    have stepped : step env s (.send a) = some { s with sends := v } := by
      rw [step, first, Option.map_some, quiet a List.mem_cons_self]
    exact run_cons_some.mpr ⟨_, stepped, ih (fun b member => quiet b (List.mem_cons_of_mem a member)) later⟩

theorem run_handOver (env : Env) {i : Nat} {c : SendSteps.Send} {msg : ImMessage} (call : s.sends.sends i = some c)
    (phase : c.phase = .posting msg) (other : ¬ (msg.channelType = .world ∨ msg.channelType = .system)) :
    ∃ t, run (step env) s [.send (.post i), .send (.queue i), .send (.deliver i)] = some t ∧
      t.sends.alloc = s.sends.alloc ∧ t.sends.caches = s.sends.caches ∧
      t.sends.sends = Function.update s.sends.sends i (some (c.to (.returned (.accepted msg)))) ∧
      t.servers = (s.offer c.server (buildDoc msg s.now)).servers ∧ t.messages = s.messages := by
  obtain ⟨server, uid, sender, req, _⟩ := c
  subst phase
  simp only [run, step, SendSteps.step, call, State.handOver, Option.map_some, Option.bind_some,
    SendSteps.setSend_sends_same, SendSteps.Send.to]
  by_cases room : (s.servers server).writeCh.length < writeChSize
  · simp [State.offer, room, State.setServer, State.publish, other, SendSteps.State.setSend, State.now]
  · simp [State.offer, room, State.publish, other, SendSteps.State.setSend]

theorem offer_backlog {doc : Nat → MessageDoc}
    (writeCh : (s.servers 0).writeCh = ((List.range k).take writeChSize).map doc) :
    ((s.offer 0 (doc k)).servers 0).writeCh = ((List.range (k + 1)).take writeChSize).map doc ∧
      ((s.offer 0 (doc k)).servers 0).batch = (s.servers 0).batch := by
  have length : (s.servers 0).writeCh.length = min writeChSize k := by simp [writeCh]
  unfold State.offer
  split
  · rename_i room
    refine ⟨?_, by simp [State.setServer]⟩
    have below : k + 1 ≤ writeChSize := by omega
    simp only [State.setServer, Function.update_self, writeCh]
    rw [List.take_of_length_le (by simp; omega), List.take_of_length_le (by simp; omega), List.range_succ,
      List.map_append]
    rfl
  · rename_i full
    refine ⟨?_, rfl⟩
    have above : writeChSize ≤ k := by omega
    rw [writeCh, List.range_succ, List.take_append_of_le_length (by simpa using above)]

theorem offer_servers (u : SendSteps.State) (server : Nat) (doc : MessageDoc) :
    ({ s with sends := u }.offer server doc).servers = (s.offer server doc).servers := by
  unfold State.offer
  dsimp only
  split
  · rfl
  · rfl

/- The greeting of user k is accepted, and its document is offered to writeCh. -/
theorem greet_runs (before : Greeted k s) {caches : Caches} {r q : Redis}
    (passed : precheck permissive (s.sends.caches 0) 0 k (greeting k) = (.ok [104, 105], caches))
    (reserved : s.sends.alloc.redis.incrBy 0 (ally k) SeqAlloc.seqBatchSize = (some 1000, r))
    (checked : dedupAndRateCheck r 0 "" k ratePerSecond 1 = (some ⟨false, 0, true⟩, q)) :
    ∃ t, run (step demo) s (greet k) = some t ∧
      t.sends.alloc = (answered s.sends k caches q (.posting (greeted k))).alloc ∧
      t.sends.caches = Function.update s.sends.caches 0 caches ∧
      t.sends.sends = Function.update s.sends.sends k
        (some ⟨0, k, none, greeting k, .returned (.accepted (greeted k))⟩) ∧
      t.servers = (s.offer 0 (buildDoc (greeted k) 0)).servers ∧ t.messages = s.messages := by
  have asked := run_answered before.now (before.sends k le_rfl) (before.calls k le_rfl) (before.ranges k le_rfl)
    passed reserved checked
  have quiet := run_sends demo (by simp [State.handOver]) asked
  have alliance : ¬ ((greeted k).channelType = .world ∨ (greeted k).channelType = .system) :=
    show ¬ (ChannelType.alliance = .world ∨ ChannelType.alliance = .system) by decide
  generalize posting : answered s.sends k caches q (.posting (greeted k)) = u at quiet
  have call : u.sends k = some ⟨0, k, none, greeting k, .posting (greeted k)⟩ := by simp [← posting, answered]
  have now : u.alloc.now = 0 := by rw [← posting]; exact before.now
  obtain ⟨t, handed, alloc, known, sends, servers, messages⟩ :=
    run_handOver demo (s := { s with sends := u }) call rfl alliance
  refine ⟨t, run_append_some.mpr ⟨_, quiet, handed⟩, alloc, ?_, ?_, ?_, messages⟩
  · rw [known, ← posting]
    rfl
  · rw [sends, ← posting]
    simp [answered, SendSteps.Send.to]
  · rw [servers, offer_servers, State.now, now]

theorem Greeted.next (before : Greeted k s) :
    ∃ t, run (step demo) s (greet k) = some t ∧ Greeted (k + 1) t := by
  have short : (greeting k).content.length ≤ maxMsgLength := show 2 ≤ maxMsgLength by decide
  obtain ⟨caches, passed, ban, avail⟩ := precheck_open before.ban before.avail 0 k short
  have reserved := reserve_first (before.seq k le_rfl)
  generalize counted : s.sends.alloc.redis.put (keySeq (ally k)) ⟨1000, none⟩ = r at reserved
  have kept {key : String} (other : key ≠ keySeq (ally k)) : r.keys key = s.sends.alloc.redis.keys key := by
    rw [← counted, Redis.put_keys_ne _ _ other]
  have unmarked : r.keys (keyDedup "") = none := by rw [kept (by simp), before.dedup]
  have uncounted : r.keys (keyRateLimit k) = none := by rw [kept (by simp), before.rate k le_rfl]
  obtain ⟨answer, dedup⟩ := check_first unmarked uncounted
  obtain ⟨t, taken, alloc, caching, sends, servers, messages⟩ :=
    greet_runs before passed reserved (Prod.ext answer rfl)
  obtain ⟨writeCh, batch⟩ := offer_backlog before.writeCh
  have later {j : Nat} (above : k + 1 ≤ j) : k ≤ j ∧ j ≠ k := by omega
  refine ⟨t, taken, ?_⟩
  constructor
  case now => rw [alloc]; exact before.now
  case ended =>
    intro j below
    rw [sends]
    by_cases here : j = k
    · subst here
      simp
    · simp [here, before.ended j (by omega)]
  case sends =>
    intro j above
    simp [sends, (later above).2, before.sends j (later above).1]
  case calls =>
    intro j above
    simp [alloc, answered, (later above).2, before.calls j (later above).1]
  case ranges =>
    intro j above
    simp [alloc, answered, ally_inj, (later above).2, before.ranges j (later above).1]
  case seq =>
    intro j above
    rw [alloc]
    have other : keySeq (ally j) ≠ keySeq (ally k) := by simp [ally_inj, (later above).2]
    exact (check_keys_ne _ _ _ _ _ _ (by simp) (by simp)).trans ((kept other).trans (before.seq j (later above).1))
  case rate =>
    intro j above
    rw [alloc]
    have other : keyRateLimit (j : Int) ≠ keyRateLimit k := by simp [(later above).2]
    exact (check_keys_ne _ _ _ _ _ _ (by simp) other).trans ((kept (by simp)).trans (before.rate j (later above).1))
  case dedup => rw [alloc]; exact dedup
  case ban => simpa [caching] using ban
  case avail => simpa [caching] using avail
  case writeCh => rw [servers, writeCh]
  case batch => rw [servers, batch, before.batch]
  case messages => rw [messages, before.messages]

theorem greetings_run (k : Nat) :
    ∃ t, run (step demo) quietServers ((List.range k).flatMap greet) = some t ∧ Greeted k t := by
  induction k with
  | zero => exact ⟨quietServers, rfl, quietServers_greeted⟩
  | succ k ih =>
    obtain ⟨s, taken, greeted⟩ := ih
    obtain ⟨t, next, greeted⟩ := greeted.next
    refine ⟨t, ?_, greeted⟩
    rw [List.range_succ, List.flatMap_append, List.flatMap_singleton]
    exact run_append_some.mpr ⟨s, taken, next⟩

theorem Greeted.not_kept (all : Greeted (writeChSize + 1) s) : ¬ Kept s 0 (greeted writeChSize) := by
  rintro ⟨d, ⟨createdAt, rfl⟩, place⟩
  rw [all.writeCh, all.batch, all.messages] at place
  simp only [List.not_mem_nil, or_false, List.mem_map] at place
  obtain ⟨j, waits, same⟩ := place
  have below : j < writeChSize := by
    rw [List.take_range] at waits
    have := List.mem_range.mp waits
    omega
  have channel : ally j = ally writeChSize := congrArg MessageDoc.channelID same
  exact absurd (ally_inj.mp channel) (Nat.ne_of_lt below)

theorem full_queue_loses : ∃ s c,
    run (step demo) quietServers ((List.range (writeChSize + 1)).flatMap greet) = some s ∧
    s.sends.sends writeChSize = some c ∧ c.phase = .returned (.accepted (greeted writeChSize)) ∧
    ¬ Kept s c.server (greeted writeChSize) := by
  obtain ⟨s, taken, all⟩ := greetings_run (writeChSize + 1)
  exact ⟨s, _, taken, all.ended writeChSize (Nat.lt_succ_self _), rfl, all.not_kept⟩

end Backlog

theorem failed_flush_loses : ∃ s c, run (step demo) quietServers
      (firstSend ++ [.receive 0, .flush 0 [buildDoc (noted 1 "m-1") 0]]) = some s ∧
    s.sends.sends 0 = some c ∧ c.phase = .returned (.accepted (noted 1 "m-1")) ∧
    ¬ Kept s c.server (noted 1 "m-1") := by
  have view : ((run (step demo) quietServers
      (firstSend ++ [.receive 0, .flush 0 [buildDoc (noted 1 "m-1") 0]])).bind fun s =>
      (s.sends.sends 0).map fun c => (c.phase, c.server, (s.servers 0).writeCh, (s.servers 0).batch,
        s.messages)) = some (.returned (.accepted (noted 1 "m-1")), 0, [], [], []) := by
    decide +kernel
  obtain ⟨s, taken, rest⟩ := Option.bind_eq_some_iff.mp view
  obtain ⟨c, call, fields⟩ := Option.map_eq_some_iff.mp rest
  simp only [Prod.mk.injEq] at fields
  obtain ⟨phase, server, writeCh, batch, messages⟩ := fields
  refine ⟨s, c, taken, call, phase, ?_⟩
  rintro ⟨d, _, place⟩
  rw [server, writeCh, batch, messages] at place
  simp at place

/- Either exception is needed: a batch is emptied though its insertion failed, and of 4097 messages
that no writer receives the last one is dropped. -/
theorem accepted_messages_lost :
    (∃ s c, run (step demo) quietServers
        (firstSend ++ [.receive 0, .flush 0 [buildDoc (noted 1 "m-1") 0]]) = some s ∧
      s.sends.sends 0 = some c ∧ c.phase = .returned (.accepted (noted 1 "m-1")) ∧
      ¬ Kept s c.server (noted 1 "m-1")) ∧
    ∃ s c, run (step demo) quietServers ((List.range (writeChSize + 1)).flatMap greet) = some s ∧
      s.sends.sends writeChSize = some c ∧ c.phase = .returned (.accepted (greeted writeChSize)) ∧
      ¬ Kept s c.server (greeted writeChSize) :=
  ⟨failed_flush_loses, full_queue_loses⟩

end GameIM.App
