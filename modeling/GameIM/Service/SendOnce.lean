import GameIM.Service.SendSteps

/-! One message per client message id. The dedup record that the first script call
of an id writes decides every later call of that id: it names the only call that
may hand a message over, and the number that every duplicate answers with. -/
namespace GameIM.Service.SendSteps
open GameIM.Lib GameIM.Api GameIM.Store GameIM.Service

/-- The message a call has had accepted. -/
def Phase.message : Phase → Option ImMessage
  | .posting msg => some msg
  | .queueing msg => some msg
  | .delivering msg => some msg
  | .returned (.accepted msg) => some msg
  | _ => none

/-- The message id a call returns, or is going to return once it has handed over. -/
def Phase.answer : Phase → Option Int
  | .returned (.duplicate msgID) => some msgID
  | p => p.message.map (·.msgId)

def Phase.handOffs : Phase → Nat
  | .queueing _ => 1
  | .delivering _ => 2
  | .returned (.accepted _) => 3
  | _ => 0

theorem answer_of_message {p : Phase} {msg : ImMessage} (h : p.message = some msg) :
    p.answer = some msg.msgId := by
  cases p with
  | returned o => cases o <;> simp_all [Phase.message, Phase.answer]
  | _ => simp_all [Phase.message, Phase.answer]

theorem message_of_handOffs {p : Phase} (h : 1 ≤ p.handOffs) : ∃ msg, p.message = some msg := by
  cases p with
  | returned o => cases o <;> simp_all [Phase.message, Phase.handOffs]
  | _ => simp_all [Phase.message, Phase.handOffs]

section Alloc

theorem check_keeps_alloc {s : State} (inv : SeqAlloc.Inv s.alloc) (c : Send) (msgID : Int) :
    SeqAlloc.Inv { s.alloc with redis := (s.check c msgID).2 } := by
  refine inv.shrink (t := { s.alloc with redis := (s.check c msgID).2 }) ?_ (fun _ _ _ h => h)
  exact fun ch => check_keys_ne _ _ _ _ _ _ (by simp) (by simp)

theorem step_alloc_inv {cfg : Config} {s t : State} {a : Action} (inv : SeqAlloc.Inv s.alloc)
    (taken : step cfg s a = some t) : SeqAlloc.Inv t.alloc := by
  cases step_effect taken with
  | enter _ _ entered => exact SeqAlloc.step_inv inv entered
  | next moved => exact SeqAlloc.step_inv inv moved
  | lostAfter => exact check_keeps_alloc inv _ _
  | resent => exact check_keeps_alloc inv _ _
  | checked => exact check_keeps_alloc inv _ _
  | _ => exact inv

theorem hint_positive {s : State} (inv : SeqAlloc.Inv s.alloc) {i a : Nat} {ch : String} {msgID : Int}
    (call : s.alloc.calls i = some ⟨a, ch, .returned msgID⟩) : 0 < msgID := by
  have held : SeqAlloc.Holds s.alloc ch (.call i) msgID := ⟨_, call, rfl, rfl⟩
  have bounds := inv.bounded ch (.call i) msgID held
  omega

end Alloc

/- The record of an id outlives the window, and it holds what every call with the id
answers; only one call had its message accepted. -/
structure Marked (k : String) (t₀ : Nat) (s : State) : Prop where
  lasting : ∀ e, s.alloc.redis.keys (keyDedup k) = some e →
    0 < e.val ∧ ∃ d, e.deadline = some d ∧ t₀ + 1000 * dedupTTL ≤ d
  recorded : ∀ i c v, s.sends i = some c → c.req.clientMsgID = k → c.phase.answer = some v →
    ∃ e, s.alloc.redis.keys (keyDedup k) = some e ∧ e.val = v
  single : ∀ i j c d m n, s.sends i = some c → s.sends j = some d → c.req.clientMsgID = k →
    d.req.clientMsgID = k → c.phase.message = some m → d.phase.message = some n → i = j

def SameAnswers (k : String) (s t : State) : Prop :=
  ∀ i c v, t.sends i = some c → c.req.clientMsgID = k → c.phase.answer = some v →
    ∃ b, s.sends i = some b ∧ b.req = c.req ∧ b.phase.answer = some v ∧ b.phase.message = c.phase.message

theorem Marked.quiet {k : String} {t₀ : Nat} {s t : State} (inv : Marked k t₀ s)
    (same : t.alloc.redis.keys (keyDedup k) = s.alloc.redis.keys (keyDedup k))
    (answers : SameAnswers k s t) : Marked k t₀ t := by
  refine ⟨?_, ?_, ?_⟩
  · rw [same]
    exact inv.lasting
  · intro i c v hc id answer
    obtain ⟨b, hb, req, old, _⟩ := answers i c v hc id answer
    rw [same]
    exact inv.recorded i b v hb (req ▸ id) old
  · intro i j c d m n hc hd idC idD msgC msgD
    obtain ⟨b, hb, reqB, _, sameB⟩ := answers i c _ hc idC (answer_of_message msgC)
    obtain ⟨e, he, reqE, _, sameE⟩ := answers j d _ hd idD (answer_of_message msgD)
    exact inv.single i j b e m n hb he (reqB ▸ idC) (reqE ▸ idD) (sameB.trans msgC) (sameE.trans msgD)

section Quiet

variable {k : String} {s t : State} {i : Nat} {c d : Send}

theorem sameAnswers_silent (same : t.sends = s.sends) (silent : c.phase.answer = none) :
    SameAnswers k s (t.setSend i c) := by
  intro j b v hb _ answer
  rcases setSend_sends_cases hb with ⟨_, rfl⟩ | ⟨_, old⟩
  · rw [silent] at answer
    contradiction
  · exact ⟨b, same ▸ old, rfl, answer, rfl⟩

theorem sameAnswers_other (same : t.sends = s.sends) (other : c.req.clientMsgID ≠ k) :
    SameAnswers k s (t.setSend i c) := by
  intro j b v hb id answer
  rcases setSend_sends_cases hb with ⟨_, rfl⟩ | ⟨_, old⟩
  · exact absurd id other
  · exact ⟨b, same ▸ old, rfl, answer, rfl⟩

theorem sameAnswers_onward {p q : Phase} {msg : ImMessage} (same : t.sends = s.sends)
    (call : s.sends i = some c) (phase : c.phase = p) (before : p.message = some msg)
    (after : q.message = some msg) : SameAnswers k s (t.setSend i (c.to q)) := by
  intro j b v hb id answer
  rcases setSend_sends_cases hb with ⟨rfl, rfl⟩ | ⟨_, old⟩
  · have now : v = msg.msgId := by
      have := answer_of_message after
      exact Option.some.inj (answer.symm.trans this)
    refine ⟨c, call, rfl, ?_, ?_⟩
    · rw [phase, now]
      exact answer_of_message before
    · rw [phase, before]
      exact after.symm
  · exact ⟨b, same ▸ old, rfl, answer, rfl⟩

end Quiet

section Script

variable {k : String} {t₀ : Nat} {s : State} {i : Nat} {c : Send} {msgID : Int} {p : Phase}

theorem Marked.known (inv : Marked k t₀ s) {e : Entry} {r : Option DedupRateResult}
    (record : s.alloc.redis.keys (keyDedup k) = some e) (hit : s.check c msgID = (r, s.alloc.redis))
    (answer : ∀ v, p.answer = some v → v = e.val) (message : p.message = none) :
    Marked k t₀ ((s.setRedis (s.check c msgID).2).setSend i (c.to p)) := by
  rw [hit]
  have silent : ∀ m, (c.to p).phase.message ≠ some m := by
    intro m
    simp [Send.to, message]
  refine ⟨inv.lasting, ?_, ?_⟩
  · intro j b v hb idB answerB
    rcases setSend_sends_cases hb with ⟨_, rfl⟩ | ⟨_, old⟩
    · exact ⟨e, record, (answer v answerB).symm⟩
    · exact inv.recorded j b v old idB answerB
  · intro j l b b' m n hb hb' idB idB' msgB msgB'
    rcases setSend_sends_cases hb with ⟨_, rfl⟩ | ⟨_, old⟩
    · exact absurd msgB (silent m)
    · rcases setSend_sends_cases hb' with ⟨_, rfl⟩ | ⟨_, old'⟩
      · exact absurd msgB' (silent n)
      · exact inv.single j l b b' m n old old' idB idB' msgB msgB'

theorem Marked.first (inv : Marked k t₀ s) (hint : 0 < msgID) (early : t₀ ≤ s.alloc.now)
    (record : s.alloc.redis.keys (keyDedup k) = none)
    (written : (s.check c msgID).2.keys (keyDedup k) =
      some ⟨msgID, some (s.alloc.now + 1000 * dedupTTL)⟩)
    (answer : ∀ v, p.answer = some v → v = msgID) :
    Marked k t₀ ((s.setRedis (s.check c msgID).2).setSend i (c.to p)) := by
  have unanswered : ∀ j b v, s.sends j = some b → b.req.clientMsgID = k → b.phase.answer ≠ some v := by
    intro j b v hb idB answerB
    obtain ⟨e, he, _⟩ := inv.recorded j b v hb idB answerB
    rw [record] at he
    contradiction
  refine ⟨?_, ?_, ?_⟩
  · intro e he
    have eq : e = ⟨msgID, some (s.alloc.now + 1000 * dedupTTL)⟩ :=
      Option.some.inj (he.symm.trans written)
    subst eq
    exact ⟨hint, _, rfl, by omega⟩
  · intro j b v hb idB answerB
    rcases setSend_sends_cases hb with ⟨_, rfl⟩ | ⟨_, old⟩
    · exact ⟨_, written, (answer v answerB).symm⟩
    · exact absurd answerB (unanswered j b v old idB)
  · intro j l b b' m n hb hb' idB idB' msgB msgB'
    rcases setSend_sends_cases hb with ⟨hj, _⟩ | ⟨_, old⟩
    · rcases setSend_sends_cases hb' with ⟨hl, _⟩ | ⟨_, old'⟩
      · exact hj.trans hl.symm
      · exact absurd (answer_of_message msgB') (unanswered l b' _ old' idB')
    · exact absurd (answer_of_message msgB) (unanswered j b _ old idB)

theorem Marked.scripted (inv : Marked k t₀ s) (id : c.req.clientMsgID = k) (nonempty : k ≠ "")
    (hint : 0 < msgID) (early : t₀ ≤ s.alloc.now) (late : s.alloc.now < t₀ + 1000 * dedupTTL)
    (answer : ∀ v, p.answer = some v → ∃ res, (s.check c msgID).1 = some res ∧
      v = if res.dedupExists then res.dedupMsgID else msgID)
    (message : ∀ m, p.message = some m → ∃ res, (s.check c msgID).1 = some res ∧ res.dedupExists = false) :
    Marked k t₀ ((s.setRedis (s.check c msgID).2).setSend i (c.to p)) := by
  cases record : s.alloc.redis.keys (keyDedup k) with
  | some e =>
    obtain ⟨positive, d, deadline, outlives⟩ := inv.lasting e record
    have live : e.live s.alloc.now = true := by
      simp only [Entry.live, deadline, decide_eq_true_eq]
      omega
    have found : s.alloc.redis.get s.alloc.now (keyDedup k) = some e.val := by
      simp [Redis.get, Redis.find, record, Option.filter, live]
    have hit : s.check c msgID = (some ⟨true, e.val, decide (0 ≤ ratePerSecond)⟩, s.alloc.redis) := by
      unfold State.check
      rw [id]
      exact check_hit _ _ _ _ _ _ found (by omega)
    rw [hit] at answer message
    apply inv.known record hit
    · intro v answered
      obtain ⟨res, same, value⟩ := answer v answered
      cases Option.some.inj same
      exact value
    · cases handed : p.message with
      | none => rfl
      | some m =>
        obtain ⟨res, same, unknown⟩ := message m handed
        cases Option.some.inj same
        contradiction
  | none =>
    have miss := Redis.get_absent s.alloc.now record
    by_cases full : Overflows (rateCount s.alloc.redis s.alloc.now c.uid) 1
    · -- the script is refused: no record is written, and there is no answer
      have refused : s.check c msgID = (none, s.alloc.redis) := by
        unfold State.check
        rw [id]
        exact check_refused _ _ _ _ _ _ miss full
      have silent : p.answer = none := by
        cases answered : p.answer with
        | none => rfl
        | some v =>
          obtain ⟨res, same, _⟩ := answer v answered
          rw [refused] at same
          contradiction
      refine inv.quiet ?_ (sameAnswers_silent rfl silent)
      rw [refused]
      rfl
    · have unknown : ∀ res, (s.check c msgID).1 = some res → res.dedupExists = false := by
        intro res same
        unfold State.check at same
        rw [id, check_miss _ _ _ _ _ _ miss full] at same
        cases Option.some.inj same
        rfl
      have written : (s.check c msgID).2.keys (keyDedup k) =
          some ⟨msgID, some (s.alloc.now + 1000 * dedupTTL)⟩ := by
        unfold State.check
        rw [id, check_miss_dedup _ _ _ _ _ _ miss full, if_pos ⟨nonempty, hint⟩]
      refine inv.first hint early record written ?_
      intro v answered
      obtain ⟨res, same, value⟩ := answer v answered
      rw [unknown res same] at value
      exact value

end Script

/-- Script calls with the id happen within the lifetime of a record written at t₀. -/
def within (k : String) (t₀ : Nat) (s : State) : Action → Bool
  | .script i _ => match s.sends i with
    | some c => decide (c.req.clientMsgID = k →
        t₀ ≤ s.alloc.now ∧ s.alloc.now < t₀ + 1000 * dedupTTL)
    | none => true
  | _ => true

theorem within_script {k : String} {t₀ : Nat} {s : State} {i : Nat} {fault : Fault} {c : Send}
    (h : within k t₀ s (.script i fault) = true) (call : s.sends i = some c)
    (id : c.req.clientMsgID = k) : t₀ ≤ s.alloc.now ∧ s.alloc.now < t₀ + 1000 * dedupTTL := by
  simp only [within, call, decide_eq_true_eq] at h
  exact h id

theorem settled_answer (check : Option DedupRateResult) (msg : ImMessage) (v : Int)
    (h : (afterCheck (settle check msg)).answer = some v) :
    ∃ res, check = some res ∧ v = if res.dedupExists then res.dedupMsgID else msg.msgId := by
  have settled := settle_settled check msg
  generalize settle check msg = o at settled h
  cases settled with
  | failed => cases h
  | known answer known =>
    refine ⟨_, answer, ?_⟩
    rw [if_pos known]
    exact (Option.some.inj h).symm
  | limited => cases h
  | accepted answer unknown =>
    refine ⟨_, answer, ?_⟩
    rw [unknown]
    exact (Option.some.inj h).symm

theorem settled_message (check : Option DedupRateResult) (msg m : ImMessage)
    (h : (afterCheck (settle check msg)).message = some m) :
    (∃ res, check = some res ∧ res.dedupExists = false) ∧ m = msg := by
  have settled := settle_settled check msg
  generalize settle check msg = o at settled h
  cases settled with
  | failed => cases h
  | known => cases h
  | limited => cases h
  | accepted answer unknown => exact ⟨⟨_, answer, unknown⟩, (Option.some.inj h).symm⟩

theorem settled_phase (check : Option DedupRateResult) (msg : ImMessage) (content : Bytes) :
    afterCheck (settle check msg) ≠ .allocating content := by
  cases settle check msg with
  | rejected => simp [afterCheck]
  | duplicate => simp [afterCheck]
  | accepted => simp [afterCheck]

theorem check_other_record {k : String} {s : State} {c : Send} (other : c.req.clientMsgID ≠ k)
    (msgID : Int) : (s.check c msgID).2.keys (keyDedup k) = s.alloc.redis.keys (keyDedup k) :=
  check_keys_ne _ _ _ _ _ _ (by simpa using Ne.symm other) (by simp)

theorem Marked.script {k : String} {t₀ : Nat} {s : State} {i : Nat} {fault : Fault} {c : Send} {a : Nat} {ch : String}
    {msgID : Int} {p : Phase} (inv : Marked k t₀ s) (nonempty : k ≠ "") (alloc : SeqAlloc.Inv s.alloc)
    (inside : within k t₀ s (.script i fault) = true) (call : s.sends i = some c)
    (number : s.alloc.calls i = some ⟨a, ch, .returned msgID⟩)
    (answer : ∀ v, p.answer = some v → ∃ res, (s.check c msgID).1 = some res ∧
      v = if res.dedupExists then res.dedupMsgID else msgID)
    (message : ∀ m, p.message = some m → ∃ res, (s.check c msgID).1 = some res ∧ res.dedupExists = false) :
    Marked k t₀ ((s.setRedis (s.check c msgID).2).setSend i (c.to p)) := by
  by_cases id : c.req.clientMsgID = k
  · have window := within_script inside call id
    exact inv.scripted id nonempty (hint_positive alloc number) window.1 window.2 answer message
  · exact inv.quiet (check_other_record id _) (sameAnswers_other rfl id)

theorem step_marked {cfg : Config} {k : String} {t₀ : Nat} {s t : State} {a : Action}
    (nonempty : k ≠ "") (alloc : SeqAlloc.Inv s.alloc) (inv : Marked k t₀ s)
    (inside : within k t₀ s a = true) (taken : step cfg s a = some t) : Marked k t₀ t := by
  cases step_effect taken with
  | refused => exact inv.quiet rfl (sameAnswers_silent rfl rfl)
  | enter _ _ entered =>
    exact inv.quiet (SeqAlloc.step_keys_ne entered (by simp)) (sameAnswers_silent rfl rfl)
  | next moved =>
    refine inv.quiet (SeqAlloc.step_keys_ne moved (by simp)) ?_
    exact fun i c v hc _ answer => ⟨c, hc, rfl, answer, rfl⟩
  | nextFailed => exact inv.quiet rfl (sameAnswers_silent rfl rfl)
  | lostBefore => exact inv.quiet rfl (sameAnswers_silent rfl rfl)
  | lostAfter call _ number =>
    exact inv.script nonempty alloc inside call number (fun v h => by contradiction) (fun m h => by contradiction)
  | @resent i c content _ _ msgID call phase number =>
    rw [← setSend_same (s := s.setRedis (s.check c msgID).2) call phase]
    exact inv.script nonempty alloc inside call number (fun v h => by contradiction) (fun m h => by contradiction)
  | @checked i c content _ _ msgID call _ number =>
    exact inv.script nonempty alloc inside call number
      (settled_answer _ (buildMsg msgID c.sender c.req content s.alloc.now))
      (fun m h => (settled_message _ (buildMsg msgID c.sender c.req content s.alloc.now) m h).1)
  | post call phase => exact inv.quiet rfl (sameAnswers_onward rfl call phase rfl rfl)
  | queue call phase => exact inv.quiet rfl (sameAnswers_onward rfl call phase rfl rfl)
  | deliver call phase => exact inv.quiet rfl (sameAnswers_onward rfl call phase rfl rfl)

/- A log of hand-offs: each call is in it at most once, and a call in it has made that
many hand-offs of the message it answers with. -/
structure Tallied (n : Nat) (sends : Nat → Option Send) (log : List (Nat × Int)) : Prop where
  once : (log.map Prod.fst).Nodup
  made : ∀ i v, (i, v) ∈ log → ∃ c, sends i = some c ∧ n ≤ c.phase.handOffs ∧ c.phase.answer = some v

section Tally

variable {n : Nat} {s : State} {log : List (Nat × Int)} {i : Nat} {c : Send}

theorem Tallied.entered (h : Tallied n s.sends log) (free : s.sends i = none) (b : Send) :
    Tallied n (s.setSend i b).sends log := by
  refine ⟨h.once, ?_⟩
  intro j v mem
  obtain ⟨d, hd, made⟩ := h.made j v mem
  have ne : j ≠ i := by
    intro e
    subst e
    cases free.symm.trans hd
  exact ⟨d, by simpa [ne] using hd, made⟩

theorem Tallied.moved (h : Tallied n s.sends log) (call : s.sends i = some c) {p : Phase}
    (onward : n ≤ c.phase.handOffs → n ≤ p.handOffs ∧ p.answer = c.phase.answer) :
    Tallied n (s.setSend i (c.to p)).sends log := by
  refine ⟨h.once, ?_⟩
  intro j v mem
  obtain ⟨d, hd, made, answer⟩ := h.made j v mem
  by_cases hj : j = i
  · subst hj
    cases call.symm.trans hd
    have kept := onward made
    exact ⟨c.to p, by simp, kept.1, kept.2.trans answer⟩
  · exact ⟨d, by simpa [hj] using hd, made, answer⟩

theorem Tallied.added (h : Tallied n s.sends log) (call : s.sends i = some c)
    (unmade : c.phase.handOffs < n) {p : Phase} {v : Int} (made : n ≤ p.handOffs)
    (answer : p.answer = some v) : Tallied n (s.setSend i (c.to p)).sends (log ++ [(i, v)]) := by
  have kept := h.moved call (p := p) (fun m => by omega)
  have absent : i ∉ log.map Prod.fst := by
    intro mem
    obtain ⟨⟨j, w⟩, hw, rfl⟩ := List.mem_map.mp mem
    obtain ⟨d, hd, m, _⟩ := h.made j w hw
    cases call.symm.trans hd
    omega
  refine ⟨?_, ?_⟩
  · rw [List.map_append]
    exact List.nodup_append.mpr ⟨h.once, by simp, by
      intro a ha b hb e
      have hi : b = i := by simpa using hb
      exact absent (hi ▸ e ▸ ha)⟩
  · intro j w mem
    rcases List.mem_append.mp mem with old | new
    · exact kept.made j w old
    · have eq : j = i ∧ w = v := by simpa using new
      obtain ⟨rfl, rfl⟩ := eq
      exact ⟨c.to p, by simp, made, answer⟩

end Tally

def State.postedIds (s : State) : List (Nat × Int) := s.posted.map fun p => (p.1, p.2.msgId)
def State.queuedIds (s : State) : List (Nat × Int) := s.queued.map fun p => (p.1, p.2.msgID)
def State.deliveredIds (s : State) : List (Nat × Int) := s.delivered.map fun p => (p.1, p.2.msgId)

structure Logged (s : State) : Prop where
  posted : Tallied 1 s.sends s.postedIds
  queued : Tallied 2 s.sends s.queuedIds
  delivered : Tallied 3 s.sends s.deliveredIds

theorem Logged.entered {s t : State} (h : Logged s) {i : Nat} (free : s.sends i = none) (c : Send)
    (sends : t.sends = s.sends) (posted : t.posted = s.posted) (queued : t.queued = s.queued)
    (delivered : t.delivered = s.delivered) : Logged (t.setSend i c) := by
  have logs : Logged t := by
    refine ⟨?_, ?_, ?_⟩
    · simpa only [State.postedIds, sends, posted] using h.posted
    · simpa only [State.queuedIds, sends, queued] using h.queued
    · simpa only [State.deliveredIds, sends, delivered] using h.delivered
  have open_ : t.sends i = none := by rw [sends]; exact free
  exact ⟨logs.posted.entered open_ c, logs.queued.entered open_ c, logs.delivered.entered open_ c⟩

theorem Logged.checked {s : State} (h : Logged s) {i : Nat} {c : Send} {content : Bytes}
    (call : s.sends i = some c) (phase : c.phase = .allocating content) (p : Phase) (r : Redis) :
    Logged ((s.setRedis r).setSend i (c.to p)) := by
  have none : ∀ n, 1 ≤ n → n ≤ c.phase.handOffs → n ≤ p.handOffs ∧ p.answer = c.phase.answer := by
    intro n hn le
    rw [phase] at le
    simp only [Phase.handOffs] at le
    omega
  exact ⟨h.posted.moved call (none 1 (by omega)), h.queued.moved call (none 2 (by omega)),
    h.delivered.moved call (none 3 (by omega))⟩

theorem step_logged {cfg : Config} {s t : State} {a : Action} (h : Logged s)
    (taken : step cfg s a = some t) : Logged t := by
  cases step_effect taken with
  | refused free => exact h.entered free _ rfl rfl rfl rfl
  | enter free => exact h.entered free _ rfl rfl rfl rfl
  | next => exact ⟨h.posted, h.queued, h.delivered⟩
  | nextFailed call phase => exact h.checked call phase _ s.alloc.redis
  | lostBefore call phase => exact h.checked call phase _ s.alloc.redis
  | lostAfter call phase => exact h.checked call phase _ _
  | @resent i c _ _ _ msgID call phase =>
    rw [← setSend_same (s := s.setRedis (s.check c msgID).2) call phase]
    exact h.checked call phase _ _
  | checked call phase => exact h.checked call phase _ _
  | @post i c msg call phase =>
    have none : c.phase.handOffs = 0 := by rw [phase]; rfl
    refine ⟨?_, h.queued.moved call (fun m => by omega), h.delivered.moved call (fun m => by omega)⟩
    have added := h.posted.added call (by omega) (p := .queueing msg) (le_refl 1) rfl
    have ids : (s.posted ++ [(i, msg)]).map (fun p => (p.1, p.2.msgId)) =
        s.postedIds ++ [(i, msg.msgId)] := List.map_append
    rw [← ids] at added
    exact added
  | @queue i c msg call phase =>
    have one : c.phase.handOffs = 1 := by rw [phase]; rfl
    have answer : c.phase.answer = some msg.msgId := by rw [phase]; rfl
    refine ⟨h.posted.moved call (fun m => ⟨by simp [Phase.handOffs], answer.symm⟩), ?_,
      h.delivered.moved call (fun m => by omega)⟩
    have added := h.queued.added call (by omega) (p := .delivering msg) (le_refl 2) rfl
    have ids : (s.queued ++ [(i, buildDoc msg s.alloc.now)]).map (fun p => (p.1, p.2.msgID)) =
        s.queuedIds ++ [(i, msg.msgId)] := List.map_append
    rw [← ids] at added
    exact added
  | @deliver i c msg call phase =>
    have two : c.phase.handOffs = 2 := by rw [phase]; rfl
    have answer : c.phase.answer = some msg.msgId := by rw [phase]; rfl
    refine ⟨h.posted.moved call (fun m => ⟨by simp [Phase.handOffs], answer.symm⟩),
      h.queued.moved call (fun m => ⟨by simp [Phase.handOffs], answer.symm⟩), ?_⟩
    have added := h.delivered.added call (by omega) (p := .returned (.accepted msg)) (le_refl 3) rfl
    have ids : (s.delivered ++ [(i, msg)]).map (fun p => (p.1, p.2.msgId)) =
        s.deliveredIds ++ [(i, msg.msgId)] := List.map_append
    rw [← ids] at added
    exact added

/- The empty id is never marked, so nobody is told that it is known. -/
structure EmptyFree (s : State) : Prop where
  unmarked : s.alloc.redis.keys (keyDedup "") = none
  untold : ∀ i c v, s.sends i = some c → c.req.clientMsgID = "" → c.phase ≠ .returned (.duplicate v)

theorem EmptyFree.setSend {s t : State} (h : EmptyFree s) {i : Nat} {c : Send}
    (sends : t.sends = s.sends)
    (keys : t.alloc.redis.keys (keyDedup "") = s.alloc.redis.keys (keyDedup ""))
    (untold : c.req.clientMsgID = "" → ∀ v, c.phase ≠ .returned (.duplicate v)) :
    EmptyFree (t.setSend i c) := by
  refine ⟨keys.trans h.unmarked, ?_⟩
  intro j b v hb id
  rcases setSend_sends_cases hb with ⟨_, rfl⟩ | ⟨_, old⟩
  · exact untold id v
  · exact h.untold j b v (sends ▸ old) id

theorem EmptyFree.miss {s : State} (h : EmptyFree s) :
    s.alloc.redis.get s.alloc.now (keyDedup "") = none := Redis.get_absent _ h.unmarked

theorem check_empty_record {s : State} (c : Send) (msgID : Int) :
    (s.check c msgID).2.keys (keyDedup "") = s.alloc.redis.keys (keyDedup "") := by
  by_cases id : c.req.clientMsgID = ""
  · unfold State.check
    rw [id]
    rcases check_dedup_cases s.alloc.redis s.alloc.now "" c.uid ratePerSecond msgID with stays | ⟨_, nonempty, _⟩
    · exact stays
    · exact absurd rfl nonempty
  · exact check_other_record id msgID

theorem EmptyFree.check_unknown {s : State} (h : EmptyFree s) {c : Send}
    (id : c.req.clientMsgID = "") (msgID : Int) (msg : ImMessage) (v : Int) :
    afterCheck (settle (s.check c msgID).1 msg) ≠ .returned (.duplicate v) := by
  have unknown : ∀ res, (s.check c msgID).1 = some res → res.dedupExists = false := by
    intro res same
    unfold State.check at same
    rw [id] at same
    by_cases full : Overflows (rateCount s.alloc.redis s.alloc.now c.uid) 1
    · rw [check_refused _ _ _ _ _ _ h.miss full] at same
      contradiction
    · rw [check_miss _ _ _ _ _ _ h.miss full] at same
      cases Option.some.inj same
      rfl
  have settled := settle_settled (s.check c msgID).1 msg
  generalize settle (s.check c msgID).1 msg = o at settled
  cases settled with
  | failed => simp [afterCheck]
  | known answer known => cases (unknown _ answer).symm.trans known
  | limited => simp [afterCheck]
  | accepted => simp [afterCheck]

theorem step_emptyFree {cfg : Config} {s t : State} {a : Action} (h : EmptyFree s)
    (taken : step cfg s a = some t) : EmptyFree t := by
  cases step_effect taken with
  | refused => exact h.setSend rfl rfl (fun _ _ => by simp)
  | enter _ _ entered =>
    exact h.setSend rfl (SeqAlloc.step_keys_ne entered (by simp)) (fun _ _ => by simp)
  | next moved => exact ⟨(SeqAlloc.step_keys_ne moved (by simp)).trans h.unmarked, h.untold⟩
  | nextFailed => exact h.setSend rfl rfl (fun _ _ => by simp [Send.to])
  | lostBefore => exact h.setSend rfl rfl (fun _ _ => by simp [Send.to])
  | lostAfter => exact h.setSend rfl (check_empty_record _ _) (fun _ _ => by simp [Send.to])
  | resent => exact ⟨(check_empty_record _ _).trans h.unmarked, h.untold⟩
  | checked => exact h.setSend rfl (check_empty_record _ _) (fun id v => h.check_unknown id _ _ v)
  | post => exact h.setSend rfl rfl (fun _ _ => by simp [Send.to])
  | queue => exact h.setSend rfl rfl (fun _ _ => by simp [Send.to])
  | deliver => exact h.setSend rfl rfl (fun _ _ => by simp [Send.to])

/-- No call has begun, nothing was handed over and no id is recorded. The counters leave the
allocators room below the last int64: a number that wrapped around would not be recorded. -/
structure Start (s : State) : Prop where
  alloc : SeqAlloc.Start s.alloc
  spare : ∀ ch, SeqAlloc.Spare (s.alloc.counter ch)
  sends : ∀ i, s.sends i = none
  posted : s.posted = []
  queued : s.queued = []
  delivered : s.delivered = []
  unmarked : ∀ k, s.alloc.redis.keys (keyDedup k) = none

theorem Start.marked {s : State} (start : Start s) (k : String) (t₀ : Nat) : Marked k t₀ s := by
  have noSend : ∀ {i c}, s.sends i ≠ some c := by
    intro i c h
    cases (start.sends i).symm.trans h
  refine ⟨?_, fun _ _ _ h => absurd h noSend, fun _ _ _ _ _ _ h => absurd h noSend⟩
  intro e he
  cases (start.unmarked k).symm.trans he

theorem Start.logged {s : State} (start : Start s) : Logged s := by
  have empty : ∀ n, Tallied n s.sends [] := fun n => ⟨List.nodup_nil, fun i v h => by simp at h⟩
  refine ⟨?_, ?_, ?_⟩
  · simpa [State.postedIds, start.posted] using empty 1
  · simpa [State.queuedIds, start.queued] using empty 2
  · simpa [State.deliveredIds, start.delivered] using empty 3

theorem Start.emptyFree {s : State} (start : Start s) : EmptyFree s := by
  refine ⟨start.unmarked "", ?_⟩
  intro i c v h
  cases (start.sends i).symm.trans h

def Carries (s : State) (i : Nat) (k : String) : Prop :=
  ∃ c, s.sends i = some c ∧ c.req.clientMsgID = k

/-- The call has handed the message with this id to at least one of the three. -/
def HandedOver (s : State) (i : Nat) (v : Int) : Prop :=
  (i, v) ∈ s.postedIds ∨ (i, v) ∈ s.queuedIds ∨ (i, v) ∈ s.deliveredIds

/-- The call has returned, with this outcome. -/
def Ended (s : State) (i : Nat) (o : Outcome) : Prop :=
  ∃ c, s.sends i = some c ∧ c.phase = .returned o

/-- The call has returned success with this message id. -/
def Succeeded (s : State) (i : Nat) (v : Int) : Prop :=
  ∃ o now sendTime, Ended s i o ∧ o.reply now = .ok ⟨v, sendTime⟩

def Answers (s : State) (i : Nat) (v : Int) : Prop :=
  ∃ c, s.sends i = some c ∧ c.phase.answer = some v

theorem HandedOver.message {s : State} (logs : Logged s) {i : Nat} {v : Int} (h : HandedOver s i v) :
    ∃ c m, s.sends i = some c ∧ c.phase.message = some m ∧ c.phase.answer = some v := by
  have some_made : ∃ c, s.sends i = some c ∧ 1 ≤ c.phase.handOffs ∧ c.phase.answer = some v := by
    rcases h with h | h | h
    · exact logs.posted.made i v h
    · obtain ⟨c, hc, made, answer⟩ := logs.queued.made i v h
      exact ⟨c, hc, by omega, answer⟩
    · obtain ⟨c, hc, made, answer⟩ := logs.delivered.made i v h
      exact ⟨c, hc, by omega, answer⟩
  obtain ⟨c, hc, made, answer⟩ := some_made
  obtain ⟨m, hm⟩ := message_of_handOffs made
  exact ⟨c, m, hc, hm, answer⟩

theorem HandedOver.answer {s : State} (logs : Logged s) {i : Nat} {v : Int} (h : HandedOver s i v) :
    Answers s i v := by
  obtain ⟨c, _, hc, _, answer⟩ := h.message logs
  exact ⟨c, hc, answer⟩

theorem Succeeded.answer {s : State} {i : Nat} {v : Int} (h : Succeeded s i v) : Answers s i v := by
  obtain ⟨o, now, sendTime, ⟨c, hc, phase⟩, reply⟩ := h
  refine ⟨c, hc, ?_⟩
  rw [phase]
  cases o with
  | rejected err => cases reply
  | duplicate m =>
    cases reply
    rfl
  | accepted msg =>
    cases reply
    rfl

theorem Marked.agree {k : String} {t₀ : Nat} {s : State} (inv : Marked k t₀ s) {i j : Nat} {v w : Int}
    (carriesI : Carries s i k) (carriesJ : Carries s j k) (answerI : Answers s i v)
    (answerJ : Answers s j w) : v = w := by
  obtain ⟨c, hc, idC⟩ := carriesI
  obtain ⟨d, hd, idD⟩ := carriesJ
  obtain ⟨c', hc', ansC⟩ := answerI
  obtain ⟨d', hd', ansD⟩ := answerJ
  cases hc.symm.trans hc'
  cases hd.symm.trans hd'
  obtain ⟨e, he, rfl⟩ := inv.recorded i c v hc idC ansC
  obtain ⟨f, hf, rfl⟩ := inv.recorded j d w hd idD ansD
  rw [Option.some.inj (he.symm.trans hf)]

theorem Marked.one_hands_over {k : String} {t₀ : Nat} {s : State} (inv : Marked k t₀ s) (logs : Logged s)
    {i j : Nat} {v w : Int} (carriesI : Carries s i k) (carriesJ : Carries s j k)
    (overI : HandedOver s i v) (overJ : HandedOver s j w) : i = j := by
  obtain ⟨c, hc, idC⟩ := carriesI
  obtain ⟨d, hd, idD⟩ := carriesJ
  obtain ⟨c', m, hc', msgC, _⟩ := overI.message logs
  obtain ⟨d', n, hd', msgD, _⟩ := overJ.message logs
  cases hc.symm.trans hc'
  cases hd.symm.trans hd'
  exact inv.single i j c d m n hc hd idC idD msgC msgD

/-- However calls interleave: among the calls with one non-empty id whose script calls
fall within the TTL, at most one hands a message over, and all that succeed return
the id of that message. No call hands over twice, and a call with the empty id is
never answered as a duplicate. -/
theorem one_message_per_clientMsgID (cfg : Config) (s₀ s : State) (as : List Action)
    (start : Start s₀) (taken : run (step cfg) s₀ as = some s) :
    (∀ k t₀, k ≠ "" → Meets (step cfg) (fun s a => within k t₀ s a = true) s₀ as →
      ∀ i j, Carries s i k → Carries s j k →
        (∀ v w, HandedOver s i v → HandedOver s j w → i = j ∧ v = w) ∧
        (∀ v w, Succeeded s i v → Succeeded s j w → v = w) ∧
        (∀ v w, HandedOver s i v → Succeeded s j w → v = w)) ∧
    ((s.posted.map Prod.fst).Nodup ∧ (s.queued.map Prod.fst).Nodup ∧
      (s.delivered.map Prod.fst).Nodup) ∧
    ∀ i v, Carries s i "" → ¬ Ended s i (.duplicate v) := by
  have logs : Logged s := run_invariant Logged (fun _ _ _ h t => step_logged h t) start.logged taken
  refine ⟨?_, ⟨?_, ?_, ?_⟩, ?_⟩
  · intro k t₀ nonempty inside i j carriesI carriesJ
    have inv : SeqAlloc.Inv s.alloc ∧ Marked k t₀ s :=
      run_invariant_meets (fun s => SeqAlloc.Inv s.alloc ∧ Marked k t₀ s)
        (fun _ _ _ h ok t => ⟨step_alloc_inv h.1 t, step_marked nonempty h.1 h.2 ok t⟩)
        ⟨start.alloc.inv start.spare, start.marked k t₀⟩ inside taken
    refine ⟨?_, ?_, ?_⟩
    · intro v w hv hw
      exact ⟨inv.2.one_hands_over logs carriesI carriesJ hv hw,
        inv.2.agree carriesI carriesJ (hv.answer logs) (hw.answer logs)⟩
    · intro v w hv hw
      exact inv.2.agree carriesI carriesJ hv.answer hw.answer
    · intro v w hv hw
      exact inv.2.agree carriesI carriesJ (hv.answer logs) hw.answer
  · simpa [State.postedIds, Function.comp_def] using logs.posted.once
  · simpa [State.queuedIds, Function.comp_def] using logs.queued.once
  · simpa [State.deliveredIds, Function.comp_def] using logs.delivered.once
  · intro i v ⟨c, hc, id⟩ ⟨d, hd, phase⟩
    have free : EmptyFree s :=
      run_invariant EmptyFree (fun _ _ _ h t => step_emptyFree h t) start.emptyFree taken
    cases hc.symm.trans hd
    exact free.untold i c v hc id phase

def initial : State :=
  ⟨SeqAlloc.initial, fun _ => ⟨⟨fun _ => none⟩, ⟨fun _ => none⟩⟩, fun _ => none, [], [], []⟩

theorem initial_start : Start initial where
  alloc := SeqAlloc.initial_start
  spare := SeqAlloc.initial_spare
  sends := fun _ => rfl
  posted := rfl
  queued := rfl
  delivered := rfl
  unmarked := fun _ => rfl

def hello : SendMsgReq := ⟨"world", .world, [104, 105], ⟨1⟩, [], "m-1"⟩

/- A client sends through two servers at once; the call that began second has the
first number and runs the script first. -/
def crossedSends : List Action :=
  [.enter 0 0 7 none hello, .enter 1 1 7 none hello, .next (.lookup 0), .next (.lookup 1),
    .next (.incrBy 1), .next (.incrBy 0), .next (.install 0), .next (.install 1),
    .script 1 .none, .post 1, .script 0 .none, .queue 1, .deliver 1]

theorem crossedSends_one_message : ∃ s, run (step permissive) initial crossedSends = some s ∧
    HandedOver s 1 1 ∧ Succeeded s 0 1 ∧ Succeeded s 1 1 ∧
    ∀ i j, Carries s i "m-1" → Carries s j "m-1" →
      ∀ v w, HandedOver s i v → HandedOver s j w → i = j ∧ v = w := by
  refine ⟨_, rfl, Or.inl (by decide), ⟨.duplicate 1, 0, 0, ⟨_, rfl, rfl⟩, rfl⟩,
    ⟨.accepted (buildMsg 1 none hello [104, 105] 0), 0, 0, ⟨_, rfl, rfl⟩, rfl⟩, ?_⟩
  intro i j hi hj
  have all := one_message_per_clientMsgID permissive initial _ crossedSends initial_start rfl
  exact (all.1 "m-1" 0 (by decide) (by decide) i j hi hj).1

end GameIM.Service.SendSteps
