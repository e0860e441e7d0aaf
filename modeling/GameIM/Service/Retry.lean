import GameIM.Service.SendMsg

/-! What a client's retry meets. The script marks an id before SendMsg decides
whether to reject the call, so a call that is rejected after its script has run
leaves a record of a message that does not exist. -/
namespace GameIM.Service
open GameIM.Lib GameIM.Api GameIM.Store

/-- A message of this client id with this number went to the cache write, to the write
queue and to Deliver. -/
def CarriedOut (s : Servers) (k : String) (v : Int) : Prop :=
  ∃ msg, msg.clientMsgId = k ∧ msg.msgId = v ∧ msg ∈ s.posted ∧
    (∃ now, buildDoc msg now ∈ s.queued) ∧ msg ∈ s.delivered

/- The script only ever records a positive number, so Go reads every record as a hit. -/
def Valid (s : Servers) : Prop := ∀ k e, s.redis.keys (keyDedup k) = some e → 0 < e.val

/- The records of these ids are those of messages that were handed over. -/
def Covered (ids : String → Prop) (s : Servers) : Prop :=
  ∀ k e, ids k → s.redis.keys (keyDedup k) = some e → CarriedOut s k e.val

def reachesScript (cfg : Config) (s : Servers) (c : Call) : Bool :=
  match precheck cfg (s.caches c.server) c.now c.uid c.req with
  | (.error _, _) => false
  | (.ok _, caches) =>
    match (s.setCaches c.server caches).next c.server c.now c.req.channelID c.incrFails with
    | (none, _) => false
    | (some _, _) => c.fault ≠ .before

/-- A call whose script marks a new id is below the rate limit and gets the script's answer: the
reply is not lost, nor is the script sent again for a lost reply. -/
def safe (cfg : Config) (s : Servers) (c : Call) : Bool :=
  c.req.clientMsgID = "" || !reachesScript cfg s c ||
    (s.redis.get c.now (keyDedup c.req.clientMsgID)).isSome ||
    (c.fault = .none && rateCount s.redis c.now c.uid < ratePerSecond)

section Call

variable {cfg : Config} {s t : Servers} {c : Call} {content : Bytes} {msgID : Int}

theorem reaches_of_numbered (n : Numbered cfg s c content msgID t) (ran : c.fault ≠ .before) :
    reachesScript cfg s c = true := by
  obtain ⟨caches, checked, next⟩ := n
  simp [reachesScript, checked, next, ran]

theorem safe_cases (ok : safe cfg s c = true) (n : Numbered cfg s c content msgID t)
    (ran : c.fault ≠ .before) : c.req.clientMsgID = "" ∨
      (∃ v, s.redis.get c.now (keyDedup c.req.clientMsgID) = some v) ∨
      (c.fault = .none ∧ rateCount s.redis c.now c.uid < ratePerSecond) := by
  have reached := reaches_of_numbered n ran
  simpa [safe, reached, Option.isSome_iff_exists, or_assoc] using ok

theorem check_keeps_records (n : Numbered cfg s c content msgID t)
    (kept : c.req.clientMsgID = "" ∨ ∃ v, s.redis.get c.now (keyDedup c.req.clientMsgID) = some v)
    (k : String) : (c.checked t.redis msgID).2.keys (keyDedup k) = s.redis.keys (keyDedup k) := by
  rw [← n.keys _ (by simp)]
  refine checked_keeps (P := fun r => ∀ k, r.keys (keyDedup k) = t.redis.keys (keyDedup k)) ?_ (fun _ => rfl) k
  intro r same k
  by_cases id : k = c.req.clientMsgID
  · subst id
    rcases check_dedup_cases r c.now c.req.clientMsgID c.uid ratePerSecond msgID with stays | ⟨miss, nonempty, _⟩
    · exact stays.trans (same _)
    · rcases kept with empty | ⟨v, found⟩
      · exact absurd empty nonempty
      · rw [Redis.get_congr c.now (same _), n.get_dedup, found] at miss
        contradiction
  · exact (check_keys_ne _ _ _ _ _ _ (by simpa using id) (by simp)).trans (same k)

/- The script that finds a record answers with it, however often it runs. -/
theorem checked_found {r : Redis} {v : Int} (found : r.get c.now (keyDedup c.req.clientMsgID) = some v) (valid : 0 ≤ v)
    {res : DedupRateResult} (answer : (c.checked r msgID).1 = some res) : res = ⟨true, v, true⟩ := by
  have hit : c.check r msgID = (some ⟨true, v, true⟩, r) := check_hit _ _ _ _ _ _ found valid
  rcases checked_answer answer with ⟨_, once⟩ | ⟨_, twice⟩
  · rw [hit] at once
    exact (Option.some.inj once).symm
  · rw [hit] at twice
    simp only [hit] at twice
    exact (Option.some.inj twice).symm

theorem known_of_record {v : Int} (valid : Valid s)
    (found : s.redis.get c.now (keyDedup c.req.clientMsgID) = some v)
    (n : Numbered cfg s c content msgID t) {res : DedupRateResult}
    (answer : (c.checked t.redis msgID).1 = some res) : res = ⟨true, v, true⟩ := by
  obtain ⟨e, he, rfl⟩ := Option.map_eq_some_iff.mp found
  have positive := valid _ e (Redis.find_live he).1
  rw [← n.get_dedup] at found
  exact checked_found found (Int.le_of_lt positive) answer

theorem check_unknown {r : Redis} (miss : r.get c.now (keyDedup c.req.clientMsgID) = none) {res : DedupRateResult}
    (answer : (c.check r msgID).1 = some res) : ¬ Overflows (rateCount r c.now c.uid) 1 ∧
      res = ⟨false, 0, decide (rateCount r c.now c.uid + 1 ≤ ratePerSecond)⟩ := by
  unfold Call.check at answer
  by_cases full : Overflows (rateCount r c.now c.uid) 1
  · rw [check_refused _ _ _ _ _ _ miss full] at answer
    contradiction
  · rw [check_miss _ _ _ _ _ _ miss full] at answer
    exact ⟨full, (Option.some.inj answer).symm⟩

/- Unless the script ran twice and marked the id, a duplicate is of an earlier record. -/
theorem record_of_known (n : Numbered cfg s c content msgID t)
    (once : c.fault ≠ .resent ∨ c.req.clientMsgID = "" ∨
      ∃ v, s.redis.get c.now (keyDedup c.req.clientMsgID) = some v) {res : DedupRateResult}
    (answer : (c.checked t.redis msgID).1 = some res) (known : res.dedupExists = true) :
    ∃ v, s.redis.get c.now (keyDedup c.req.clientMsgID) = some v := by
  cases found : s.redis.get c.now (keyDedup c.req.clientMsgID) with
  | some v => exact ⟨v, rfl⟩
  | none =>
    rw [← n.get_dedup] at found
    rcases checked_answer answer with ⟨_, single⟩ | ⟨resent, second⟩
    · rw [(check_unknown found single).2] at known
      contradiction
    · rcases once with other | empty | ⟨v, before⟩
      · exact absurd resent other
      · have again : (c.check t.redis msgID).2.get c.now (keyDedup c.req.clientMsgID) = none := by
          rcases check_dedup_cases t.redis c.now c.req.clientMsgID c.uid ratePerSecond msgID with
            stays | ⟨_, nonempty, _⟩
          · exact (Redis.get_congr c.now stays).trans found
          · exact absurd empty nonempty
        rw [(check_unknown again second).2] at known
        contradiction
      · rw [n.get_dedup, before] at found
        contradiction

theorem record_cases (n : Numbered cfg s c content msgID t) {e : Entry}
    (record : (c.checked t.redis msgID).2.keys (keyDedup c.req.clientMsgID) = some e) :
    e = ⟨msgID, some (c.now + 1000 * dedupTTL)⟩ ∧ 0 < msgID ∨
      s.redis.keys (keyDedup c.req.clientMsgID) = some e := by
  rw [← n.keys _ (by simp)]
  revert e
  refine checked_keeps (P := fun r => ∀ {e}, r.keys (keyDedup c.req.clientMsgID) = some e →
    e = ⟨msgID, some (c.now + 1000 * dedupTTL)⟩ ∧ 0 < msgID ∨
      t.redis.keys (keyDedup c.req.clientMsgID) = some e) ?_ Or.inr
  intro r before e record
  rcases check_dedup_cases r c.now c.req.clientMsgID c.uid ratePerSecond msgID with
    stays | ⟨_, _, positive, written⟩
  · exact before (stays.symm.trans record)
  · exact Or.inl ⟨Option.some.inj (record.symm.trans written), positive⟩

theorem check_other_records (n : Numbered cfg s c content msgID t) {k : String}
    (other : k ≠ c.req.clientMsgID) :
    (c.checked t.redis msgID).2.keys (keyDedup k) = s.redis.keys (keyDedup k) := by
  rw [← n.keys _ (by simp)]
  exact checked_keys_ne c t.redis msgID (by simpa using other) (by simp)

/- Below the rate limit the script is not refused, and the limit is all that can reject a call once
the script has answered it. -/
theorem answered_of_below (valid : Valid s) (n : Numbered cfg s c content msgID t) (answered : c.fault = .none)
    (below : rateCount s.redis c.now c.uid < ratePerSecond) : ∃ res, (c.checked t.redis msgID).1 = some res ∧
      (res.dedupExists = false → res.rateOK = true) := by
  have once : c.checked t.redis msgID = c.check t.redis msgID := by
    unfold Call.checked
    rw [answered]
  rw [once]
  cases found : t.redis.get c.now (keyDedup c.req.clientMsgID) with
  | some v =>
    obtain ⟨e, he, rfl⟩ := Option.map_eq_some_iff.mp (n.get_dedup _ ▸ found)
    have positive := valid _ e (Redis.find_live he).1
    refine ⟨⟨true, e.val, true⟩, ?_, fun unknown => (by contradiction)⟩
    exact congrArg Prod.fst (check_hit _ _ _ _ _ _ found (Int.le_of_lt positive))
  | none =>
    have within : rateCount t.redis c.now c.uid + 1 ≤ ratePerSecond := by
      rw [n.rateCount]
      omega
    refine ⟨⟨false, 0, true⟩, ?_, fun _ => rfl⟩
    unfold Call.check
    rw [check_miss _ _ _ _ _ _ found (one_room within (by decide)), decide_eq_true within]

theorem once_of_safe (ok : safe cfg s c = true) (n : Numbered cfg s c content msgID t) {res : DedupRateResult}
    (answer : (c.checked t.redis msgID).1 = some res) : c.fault ≠ .resent ∨ c.req.clientMsgID = "" ∨
      ∃ v, s.redis.get c.now (keyDedup c.req.clientMsgID) = some v := by
  rcases checked_answer answer with ⟨none, _⟩ | ⟨resent, _⟩
  · exact Or.inl (by simp [none])
  · rcases safe_cases ok n (by simp [resent]) with empty | known | ⟨answered, _⟩
    · exact Or.inr (Or.inl empty)
    · exact Or.inr (Or.inr known)
    · cases resent.symm.trans answered

end Call

theorem rejected_keeps_records {cfg : Config} {s : Servers} {c : Call} (valid : Valid s)
    (ok : safe cfg s c = true) (rejected : (sendMsg cfg s c).1.isRejected = true)
    (k : String) : (sendMsg cfg s c).2.redis.keys (keyDedup k) = s.redis.keys (keyDedup k) := by
  have sent := sendMsg_sent cfg s c
  generalize (sendMsg cfg s c).1 = o at sent rejected
  generalize (sendMsg cfg s c).2 = t at sent
  cases sent with
  | refused => rfl
  | unnumbered _ next => exact (unnumbered_only next).keys _ (by simp)
  | @failed _ msgID u n error =>
    by_cases lost : c.fault = .before
    · have unsent : c.checked u.redis msgID = (none, u.redis) := by
        unfold Call.checked
        rw [lost]
      simp only [Servers.setRedis, unsent]
      exact n.keys _ (by simp)
    · apply check_keeps_records n
      rcases safe_cases ok n lost with empty | known | ⟨answered, below⟩
      · exact Or.inl empty
      · exact Or.inr known
      · obtain ⟨res, answer, _⟩ := answered_of_below valid n answered below
        cases error.symm.trans answer
  | known => cases rejected
  | limited n answer new slow =>
    apply check_keeps_records n
    have ran : c.fault ≠ .before := by
      rcases checked_answer answer with ⟨none, _⟩ | ⟨resent, _⟩
      · simp [none]
      · simp [resent]
    rcases safe_cases ok n ran with empty | known | ⟨answered, below⟩
    · exact Or.inl empty
    · exact Or.inr known
    · obtain ⟨res, same, fast⟩ := answered_of_below valid n answered below
      cases answer.symm.trans same
      rw [fast new] at slow
      contradiction
  | accepted => cases rejected

theorem CarriedOut.same {s t : Servers} {k : String} {v : Int} (h : CarriedOut s k v)
    (posted : t.posted = s.posted) (queued : t.queued = s.queued)
    (delivered : t.delivered = s.delivered) : CarriedOut t k v := by
  unfold CarriedOut
  rw [posted, queued, delivered]
  exact h

theorem carriedOut_handOver (s : Servers) (msg : ImMessage) (now : Nat) :
    CarriedOut (s.handOver msg now) msg.clientMsgId msg.msgId :=
  ⟨msg, rfl, rfl, by simp [Servers.handOver], ⟨now, by simp [Servers.handOver]⟩,
    by simp [Servers.handOver]⟩

theorem CarriedOut.handOver {s : Servers} {k : String} {v : Int} (h : CarriedOut s k v)
    (msg : ImMessage) (now : Nat) : CarriedOut (s.handOver msg now) k v := by
  obtain ⟨m, id, number, posted, ⟨time, queued⟩, delivered⟩ := h
  exact ⟨m, id, number, List.mem_append_left _ posted, ⟨time, List.mem_append_left _ queued⟩,
    List.mem_append_left _ delivered⟩

theorem rejected_keeps_logs {cfg : Config} {s : Servers} {c : Call}
    (rejected : (sendMsg cfg s c).1.isRejected = true) :
    (sendMsg cfg s c).2.posted = s.posted ∧ (sendMsg cfg s c).2.queued = s.queued ∧
      (sendMsg cfg s c).2.delivered = s.delivered := by
  have sent := sendMsg_sent cfg s c
  generalize (sendMsg cfg s c).1 = o at sent rejected
  generalize (sendMsg cfg s c).2 = t at sent
  cases sent with
  | refused => exact ⟨rfl, rfl, rfl⟩
  | unnumbered _ next =>
    have only := unnumbered_only next
    exact ⟨only.posted, only.queued, only.delivered⟩
  | failed n => exact n.logs
  | known => cases rejected
  | limited n => exact n.logs
  | accepted => cases rejected

theorem sendMsg_records (cfg : Config) (s : Servers) (c : Call) :
    (∀ k, (sendMsg cfg s c).2.redis.keys (keyDedup k) = s.redis.keys (keyDedup k)) ∨
      ∃ content msgID t, Numbered cfg s c content msgID t ∧
        ∀ k, (sendMsg cfg s c).2.redis.keys (keyDedup k) = (c.checked t.redis msgID).2.keys (keyDedup k) := by
  have sent := sendMsg_sent cfg s c
  generalize (sendMsg cfg s c).1 = o at sent
  generalize (sendMsg cfg s c).2 = t at sent
  cases sent with
  | refused => exact Or.inl (fun _ => rfl)
  | unnumbered _ next => exact Or.inl (fun _ => (unnumbered_only next).keys _ (by simp))
  | failed n => exact Or.inr ⟨_, _, _, n, fun _ => rfl⟩
  | known n => exact Or.inr ⟨_, _, _, n, fun _ => rfl⟩
  | limited n => exact Or.inr ⟨_, _, _, n, fun _ => rfl⟩
  | accepted n => exact Or.inr ⟨_, _, _, n, fun _ => rfl⟩

theorem sendMsg_other_record (cfg : Config) (s : Servers) (c : Call) {k : String}
    (other : c.req.clientMsgID ≠ k) :
    (sendMsg cfg s c).2.redis.keys (keyDedup k) = s.redis.keys (keyDedup k) := by
  rcases sendMsg_records cfg s c with same | ⟨content, msgID, t, n, scripted⟩
  · exact same k
  · rw [scripted]
    exact check_other_records n (Ne.symm other)

theorem sendMsg_empty_record (cfg : Config) (s : Servers) (c : Call) :
    (sendMsg cfg s c).2.redis.keys (keyDedup "") = s.redis.keys (keyDedup "") := by
  by_cases id : c.req.clientMsgID = ""
  · rcases sendMsg_records cfg s c with same | ⟨content, msgID, t, n, scripted⟩
    · exact same ""
    · rw [scripted]
      exact check_keeps_records n (Or.inl id) ""
  · exact sendMsg_other_record cfg s c id

theorem check_valid {cfg : Config} {s t : Servers} {c : Call} {content : Bytes} {msgID : Int}
    (valid : Valid s) (n : Numbered cfg s c content msgID t) {k : String} {e : Entry}
    (record : (c.checked t.redis msgID).2.keys (keyDedup k) = some e) : 0 < e.val := by
  by_cases id : k = c.req.clientMsgID
  · subst id
    rcases record_cases n record with ⟨rfl, positive⟩ | old
    · exact positive
    · exact valid _ e old
  · rw [check_other_records n id] at record
    exact valid k e record

theorem sendMsg_valid {cfg : Config} {s : Servers} (c : Call) (valid : Valid s) :
    Valid (sendMsg cfg s c).2 := by
  intro k e record
  rcases sendMsg_records cfg s c with same | ⟨content, msgID, t, n, scripted⟩
  · exact valid k e (same k ▸ record)
  · exact check_valid valid n (scripted k ▸ record)

theorem CarriedOut.sendMsg {cfg : Config} {s : Servers} {k : String} {v : Int} (c : Call)
    (h : CarriedOut s k v) : CarriedOut (sendMsg cfg s c).2 k v := by
  have sent := sendMsg_sent cfg s c
  generalize (Service.sendMsg cfg s c).1 = o at sent
  generalize (Service.sendMsg cfg s c).2 = t at sent
  cases sent with
  | refused => exact h
  | unnumbered _ next =>
    have only := unnumbered_only next
    exact h.same only.posted only.queued only.delivered
  | failed n => exact h.same n.logs.1 n.logs.2.1 n.logs.2.2
  | known n => exact h.same n.logs.1 n.logs.2.1 n.logs.2.2
  | limited n => exact h.same n.logs.1 n.logs.2.1 n.logs.2.2
  | accepted n =>
    apply CarriedOut.handOver
    exact h.same n.logs.1 n.logs.2.1 n.logs.2.2

theorem sendMsg_covered {cfg : Config} {s : Servers} {c : Call} {ids : String → Prop} (valid : Valid s)
    (covered : Covered ids s) (ok : ids c.req.clientMsgID → safe cfg s c = true) :
    Covered ids (sendMsg cfg s c).2 := by
  intro k e mine he
  by_cases id : k = c.req.clientMsgID
  · subst id
    cases outcome : (sendMsg cfg s c).1 with
    | rejected err =>
      rw [rejected_keeps_records valid (ok mine) (by rw [outcome]; rfl)] at he
      exact (covered _ e mine he).sendMsg c
    | duplicate v =>
      have old : s.redis.keys (keyDedup c.req.clientMsgID) = some e := by
        have sent := sendMsg_sent cfg s c
        rw [outcome] at sent
        generalize (sendMsg cfg s c).2 = t at sent he
        cases sent with
        | known n answer dup =>
          have found := record_of_known n (once_of_safe (ok mine) n answer) answer dup
          exact (check_keeps_records n (Or.inr found) _).symm.trans he
      exact (covered _ e mine old).sendMsg c
    | accepted msg =>
      have new : s.redis.keys (keyDedup c.req.clientMsgID) = some e ∨
          CarriedOut (sendMsg cfg s c).2 c.req.clientMsgID e.val := by
        have sent := sendMsg_sent cfg s c
        rw [outcome] at sent
        generalize (sendMsg cfg s c).2 = t at sent he ⊢
        cases sent with
        | accepted n =>
          rcases record_cases n he with ⟨rfl, _⟩ | old
          · exact Or.inr (carriedOut_handOver _ _ c.now)
          · exact Or.inl old
      rcases new with old | carried
      · exact (covered _ e mine old).sendMsg c
      · exact carried
  · rw [sendMsg_other_record cfg s c (Ne.symm id)] at he
    exact (covered k e mine he).sendMsg c

theorem success_carriedOut {cfg : Config} {s : Servers} {c : Call} {ids : String → Prop}
    (valid : Valid s) (covered : Covered ids s) (mine : ids c.req.clientMsgID) (ok : safe cfg s c = true)
    {v sendTime : Int}
    (success : (sendMsg cfg s c).1.reply c.now = .ok ⟨v, sendTime⟩) :
    CarriedOut (sendMsg cfg s c).2 c.req.clientMsgID v := by
  have sent := sendMsg_sent cfg s c
  cases outcome : (sendMsg cfg s c).1 with
  | rejected err =>
    rw [outcome] at success
    cases success
  | duplicate w =>
    rw [outcome] at success
    cases success
    have old : CarriedOut s c.req.clientMsgID v := by
      rw [outcome] at sent
      generalize (sendMsg cfg s c).2 = t at sent
      cases sent with
      | known n answer dup =>
        obtain ⟨w, found⟩ := record_of_known n (once_of_safe ok n answer) answer dup
        rw [known_of_record valid found n answer]
        obtain ⟨e, he, rfl⟩ := Option.map_eq_some_iff.mp found
        exact covered _ e mine (Redis.find_live he).1
    exact old.sendMsg c
  | accepted msg =>
    rw [outcome] at success sent
    generalize (sendMsg cfg s c).2 = t at sent
    cases sent with
    | accepted n =>
      cases success
      exact carriedOut_handOver _ _ c.now

theorem not_duplicate_of_unrecorded {cfg : Config} {s : Servers} {c : Call} (ok : safe cfg s c = true)
    (unrecorded : s.redis.keys (keyDedup c.req.clientMsgID) = none) (v : Int) :
    (sendMsg cfg s c).1 ≠ .duplicate v := by
  intro dup
  have sent := sendMsg_sent cfg s c
  rw [dup] at sent
  generalize (sendMsg cfg s c).2 = t at sent
  cases sent with
  | known n answer known =>
    obtain ⟨w, found⟩ := record_of_known n (once_of_safe ok n answer) answer known
    rw [Redis.get_absent _ unrecorded] at found
    contradiction

theorem unrecorded_while_rejected {cfg : Config} {k : String} {s t : Servers} {calls : List Call}
    (valid : Valid s) (unrecorded : s.redis.keys (keyDedup k) = none)
    (safely : Meets (sendStep cfg) (fun s c => safe cfg s c = true) s calls)
    (taken : run (sendStep cfg) s calls = some t)
    (rejected : ∀ p ∈ replies cfg s calls, p.1.req.clientMsgID = k → p.2.isRejected = true) :
    t.redis.keys (keyDedup k) = none := by
  induction calls generalizing s with
  | nil => exact Option.some.inj taken ▸ unrecorded
  | cons c rest ih =>
    have ok := ((meets_cons rfl).mp safely).1
    have tail := ((meets_cons rfl).mp safely).2
    have still : (sendMsg cfg s c).2.redis.keys (keyDedup k) = none := by
      by_cases id : c.req.clientMsgID = k
      · have outcome := rejected (c, (sendMsg cfg s c).1) (by simp [replies, outputs]) id
        exact (rejected_keeps_records valid ok outcome k).trans unrecorded
      · exact (sendMsg_other_record cfg s c id).trans unrecorded
    apply ih (sendMsg_valid c valid) still tail taken
    exact fun p mem => rejected p (List.mem_cons_of_mem _ mem)

theorem start_covered {s : Servers} (unrecorded : ∀ k, s.redis.keys (keyDedup k) = none)
    (ids : String → Prop) : Valid s ∧ Covered ids s := by
  constructor
  · intro k e he
    cases (unrecorded k).symm.trans he
  · intro k e _ he
    cases (unrecorded k).symm.trans he

theorem run_covered {cfg : Config} {s₀ s : Servers} {calls : List Call} (ids : String → Prop)
    (unrecorded : ∀ k, s₀.redis.keys (keyDedup k) = none)
    (safely : Meets (sendStep cfg) (fun s c => ids c.req.clientMsgID → safe cfg s c = true) s₀ calls)
    (taken : run (sendStep cfg) s₀ calls = some s) : Valid s ∧ Covered ids s := by
  refine run_invariant_meets (fun s => Valid s ∧ Covered ids s) ?_ (start_covered unrecorded ids)
    safely taken
  intro s c t h ok stepped
  cases Option.some.inj stepped
  exact ⟨sendMsg_valid c h.1, sendMsg_covered h.1 h.2 ok⟩

/-- In a run of safe calls a rejected call leaves the record of its id as it was, a
success means that the message was handed over, and a call whose predecessors with
the same id were all rejected is not answered as a duplicate. -/
theorem rejected_leaves_id_free (cfg : Config) (s₀ s : Servers) (calls : List Call) (c : Call)
    (unrecorded : ∀ k, s₀.redis.keys (keyDedup k) = none)
    (safely : Meets (sendStep cfg) (fun s c => safe cfg s c = true) s₀ (calls ++ [c]))
    (taken : run (sendStep cfg) s₀ calls = some s) :
    ((sendMsg cfg s c).1.isRejected = true →
      (sendMsg cfg s c).2.redis.keys (keyDedup c.req.clientMsgID) =
        s.redis.keys (keyDedup c.req.clientMsgID)) ∧
    (∀ v sendTime, (sendMsg cfg s c).1.reply c.now = .ok ⟨v, sendTime⟩ →
      CarriedOut (sendMsg cfg s c).2 c.req.clientMsgID v) ∧
    ((∀ p ∈ replies cfg s₀ calls, p.1.req.clientMsgID = c.req.clientMsgID →
        p.2.isRejected = true) →
      ∀ v, (sendMsg cfg s c).1 ≠ .duplicate v) := by
  have split := (meets_append taken).mp safely
  have ok := ((meets_cons rfl).mp split.2).1
  have fresh := (start_covered unrecorded (fun _ => True)).1
  have always : Meets (sendStep cfg) (fun s c => True → safe cfg s c = true) s₀ calls := by
    simpa using split.1
  have covered := run_covered (fun _ => True) unrecorded always taken
  refine ⟨?_, ?_, ?_⟩
  · exact fun outcome => rejected_keeps_records covered.1 ok outcome _
  · exact fun v sendTime success => success_carriedOut covered.1 covered.2 trivial ok success
  · intro rejected
    apply not_duplicate_of_unrecorded ok
    exact unrecorded_while_rejected fresh (unrecorded _) split.1 taken rejected

def idleServers : Servers :=
  ⟨⟨fun _ => none⟩, fun _ _ => none, fun _ => ⟨⟨fun _ => none⟩, ⟨fun _ => none⟩⟩, [], [], []⟩

def say (now : Nat) (clientMsgID : String) (fault : Fault) : Call :=
  ⟨0, now, 7, some { senderId := 7 }, ⟨"world", .world, [104, 105], .text, [], clientMsgID⟩, false, fault⟩

/- The first call does not reach Redis; the retry is carried out. -/
theorem rejected_leaves_id_free_retry :
    ∃ s, run (sendStep permissive) idleServers [say 0 "m-1" .before] = some s ∧
      (∀ p ∈ replies permissive idleServers [say 0 "m-1" .before], p.2.isRejected = true) ∧
      CarriedOut (sendMsg permissive s (say 1000 "m-1" .none)).2 "m-1" 2 ∧
      ∀ v, (sendMsg permissive s (say 1000 "m-1" .none)).1 ≠ .duplicate v := by
  have all := rejected_leaves_id_free permissive idleServers _ [say 0 "m-1" .before]
    (say 1000 "m-1" .none) (fun _ => rfl) (by decide +kernel) rfl
  refine ⟨_, rfl, by decide, ?_, all.2.2 (by decide)⟩
  exact all.2.1 2 1000 (by decide +kernel)

/- A hundred messages in one second, and one more that has an id. -/
def burst : List Call := List.replicate 100 (say 0 "" .none) ++ [say 0 "m-1" .none]

/-- The last call of the burst is rate limited, and its retry a second later succeeds
as a duplicate of number 101, which no message has. -/
theorem limited_call_swallows_retry :
    ∃ s, run (sendStep permissive) idleServers burst = some s ∧
      (∀ p ∈ replies permissive idleServers burst, p.1.req.clientMsgID = "m-1" →
        p.2.isRejected = true) ∧
      (sendMsg permissive s (say 1000 "m-1" .none)).1 = .duplicate 101 ∧
      ¬ CarriedOut (sendMsg permissive s (say 1000 "m-1" .none)).2 "m-1" 101 := by
  refine ⟨_, run_total (fun s c => (sendMsg permissive s c).2) idleServers burst,
    by decide +kernel, by decide +kernel, ?_⟩
  rintro ⟨msg, id, number, posted, _⟩
  have other : ∀ m ∈ (sendMsg permissive (burst.foldl (fun s c => (sendMsg permissive s c).2)
      idleServers) (say 1000 "m-1" .none)).2.posted, m.msgId ≠ 101 := by
    decide +kernel
  exact other msg posted number

theorem unsafe_cases {cfg : Config} {s : Servers} {c : Call} (bad : safe cfg s c = false) :
    c.req.clientMsgID ≠ "" ∧ s.redis.get c.now (keyDedup c.req.clientMsgID) = none ∧
      (∃ content msgID t, Numbered cfg s c content msgID t) ∧
      (c.fault = .after ∨ c.fault = .resent ∨
        (c.fault = .none ∧ ratePerSecond ≤ rateCount s.redis c.now c.uid)) := by
  simp only [safe, Bool.or_eq_false_iff, decide_eq_false_iff_not, Bool.not_eq_false',
    Option.isSome_eq_false_iff, Option.isNone_iff_eq_none, Bool.and_eq_false_iff] at bad
  obtain ⟨⟨⟨nonempty, reached⟩, miss⟩, late⟩ := bad
  unfold reachesScript at reached
  split at reached
  · contradiction
  · rename_i content caches checked
    split at reached
    · contradiction
    · rename_i msgID t next
      refine ⟨nonempty, miss, ⟨content, msgID, t, caches, checked, next⟩, ?_⟩
      cases fault : c.fault with
      | before => simp [fault] at reached
      | after => exact Or.inl rfl
      | resent => exact Or.inr (Or.inl rfl)
      | none => simpa [fault] using late

theorem unsafe_call_marks {cfg : Config} {s : Servers} {c : Call} (bad : safe cfg s c = false)
    (positive : ∀ content msgID t, Numbered cfg s c content msgID t → 0 < msgID)
    (room : ¬ Overflows (rateCount s.redis c.now c.uid) 1) :
    (sendMsg cfg s c).2.delivered = s.delivered ∧ ∃ v, 0 < v ∧
      (sendMsg cfg s c).2.redis.keys (keyDedup c.req.clientMsgID) =
        some ⟨v, some (c.now + 1000 * dedupTTL)⟩ := by
  obtain ⟨nonempty, missed, ⟨content, msgID, t, n⟩, late⟩ := unsafe_cases bad
  have miss : t.redis.get c.now (keyDedup c.req.clientMsgID) = none := n.get_dedup _ ▸ missed
  have hint := positive content msgID t n
  rw [← n.rateCount] at room
  have marked : (c.check t.redis msgID).2.keys (keyDedup c.req.clientMsgID) =
      some ⟨msgID, some (c.now + 1000 * dedupTTL)⟩ := by
    unfold Call.check
    rw [check_miss_dedup _ _ _ _ _ _ miss room, if_pos ⟨nonempty, hint⟩]
  rw [sendMsg_checked n]
  rcases late with lost | resent | ⟨answered, slow⟩
  · have error : c.checked t.redis msgID = (none, (c.check t.redis msgID).2) := by
      unfold Call.checked
      rw [lost]
    rw [error]
    exact ⟨n.logs.2.2, msgID, hint, marked⟩
  · have found : (c.check t.redis msgID).2.get c.now (keyDedup c.req.clientMsgID) = some msgID :=
      Redis.get_held marked (by simp [dedupTTL])
    have hit : c.checked t.redis msgID = (some ⟨true, msgID, true⟩, (c.check t.redis msgID).2) := by
      unfold Call.checked
      rw [resent]
      exact check_hit _ _ _ _ _ _ found (Int.le_of_lt hint)
    rw [hit]
    exact ⟨n.logs.2.2, msgID, hint, marked⟩
  · have full : ¬ rateCount t.redis c.now c.uid + 1 ≤ ratePerSecond := by
      rw [n.rateCount]
      omega
    have answer : c.checked t.redis msgID = (some ⟨false, 0, false⟩, (c.check t.redis msgID).2) := by
      unfold Call.checked
      rw [answered]
      refine Prod.ext ?_ rfl
      unfold Call.check
      rw [check_miss _ _ _ _ _ _ miss room, decide_eq_false full]
    rw [answer]
    exact ⟨n.logs.2.2, msgID, hint, marked⟩

/-- The condition is needed at every call: whatever came before, an unsafe call hands nothing over,
and a retry within the TTL that gets the script's answer is told that the message exists, while
it hands none over either. Only at the end of the rate counter does Redis refuse the script. -/
theorem unsafe_call_swallows_next {cfg : Config} {s t : Servers} {c d : Call} {content : Bytes}
    {msgID : Int} (bad : safe cfg s c = false)
    (positive : ∀ content msgID t, Numbered cfg s c content msgID t → 0 < msgID)
    (room : ¬ Overflows (rateCount s.redis c.now c.uid) 1)
    (same : d.req.clientMsgID = c.req.clientMsgID) (soon : d.now < c.now + 1000 * dedupTTL)
    (numbered : Numbered cfg (sendMsg cfg s c).2 d content msgID t) (answered : d.fault = .none) :
    (sendMsg cfg s c).2.delivered = s.delivered ∧
      (∃ v, (sendMsg cfg (sendMsg cfg s c).2 d).1 = .duplicate v) ∧
      (sendMsg cfg (sendMsg cfg s c).2 d).2.delivered = s.delivered := by
  obtain ⟨undelivered, v, positiveV, marked⟩ := unsafe_call_marks bad positive room
  have found : t.redis.get d.now (keyDedup d.req.clientMsgID) = some v := by
    rw [numbered.get_dedup, same]
    exact Redis.get_held marked soon
  have hit : d.checked t.redis msgID = (some ⟨true, v, true⟩, t.redis) := by
    unfold Call.checked
    rw [answered]
    exact check_hit _ _ _ _ _ _ found (by omega)
  have result : sendMsg cfg (sendMsg cfg s c).2 d = (.duplicate v, t) := by
    rw [sendMsg_checked numbered, hit]
    rfl
  rw [result]
  exact ⟨undelivered, ⟨v, rfl⟩, numbered.logs.2.2.trans undelivered⟩

end GameIM.Service
