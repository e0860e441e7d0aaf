import GameIM.Service.SeqSingle
import GameIM.Service.MsgIds

/-! The ids of a channel on one server whose calls on that channel follow one another. The
number of an accepted message is the one before it, plus one, plus the numbers that were
drawn in between and dropped: SendMsg draws before it knows whether the call is a duplicate or
over the rate limit. -/
namespace GameIM.Service.Consecutive
open GameIM.Lib GameIM.Api GameIM.Store GameIM.Service SendSteps

/-- The ids accepted in the channel, the numbers dropped since the last of them, and the call on
the channel that began last. The code reads none of it. -/
structure Track where
  accepted : List Int
  dropped : Nat
  current : Option Nat
  deriving DecidableEq, Repr

structure State where
  sends : SendSteps.State
  track : Track

def Track.settled (g : Track) : Outcome → Track
  | .accepted msg => { g with accepted := g.accepted ++ [msg.msgId], dropped := 0 }
  | _ => { g with dropped := g.dropped + 1 }

def Track.after (ch : String) (s : SendSteps.State) (g : Track) : SendSteps.Action → Track
  | .enter i _ _ _ req => if req.channelID = ch then { g with current := some i } else g
  | .script i _ => match s.sends i, s.alloc.calls i with
    | some c, some ⟨_, _, .returned msgID⟩ => match c.phase with
      | .allocating content =>
        if c.req.channelID = ch then
          g.settled (settle (s.check c msgID).1 (buildMsg msgID c.sender c.req content s.alloc.now))
        else g
      | _ => g
    | _, _ => g
  | _ => g

def step (cfg : Config) (ch : String) (s : State) (a : SendSteps.Action) : Option State :=
  (SendSteps.step cfg s.sends a).map fun t => ⟨t, s.track.after ch s.sends a⟩

def hasReturned (s : SendSteps.State) (i : Nat) : Bool :=
  match s.sends i with
  | some c => match c.phase with
    | .returned _ => true
    | _ => false
  | none => true

/- One server, no Redis error, and a call on the channel begins when the one before it has
returned. Calls on other channels run as they like. -/
def inTurn (server : Nat) (ch : String) (s : State) : SendSteps.Action → Bool
  | .enter _ a _ _ req => a = server && (req.channelID ≠ ch ||
      match s.track.current with
      | some j => hasReturned s.sends j
      | none => true)
  | .next (.incrByFails _) => false
  | .nextFailed _ => false
  | .script _ fault => fault = .none
  | _ => true

/- The script will find no record of the id, and the user below the limit. -/
def admits (s : SendSteps.State) (c : Send) : Bool :=
  (s.alloc.redis.get s.alloc.now (keyDedup c.req.clientMsgID)).isNone &&
    rateCount s.alloc.redis s.alloc.now c.uid < ratePerSecond

/-- A call on the channel is only accepted if no number was dropped since the message accepted
before it. -/
def unbroken (ch : String) (s : State) : SendSteps.Action → Bool
  | .script i _ => match s.sends.sends i with
    | some c => c.req.channelID ≠ ch || !admits s.sends c || s.track.accepted = [] || s.track.dropped = 0
    | none => true
  | _ => true

def Successive (ids : List Int) : Prop := ids.IsChain fun x y => y = x + 1

structure Start (s : State) : Prop where
  idle : SendSteps.Idle s.sends
  records : ∀ k e, s.sends.alloc.redis.keys (keyDedup k) = some e → 0 ≤ e.val
  track : s.track = ⟨[], 0, none⟩

def Drawing (ch : String) (s : SendSteps.State) (i : Nat) : Prop :=
  ∃ c content, s.sends i = some c ∧ c.phase = .allocating content ∧ c.req.channelID = ch

def Waiting (a : Nat) (ch : String) (s : SendSteps.State) (i : Nat) (v : Int) : Prop :=
  Drawing ch s i ∧ s.alloc.calls i = some ⟨a, ch, .returned v⟩

def Track.Follows (g : Track) (v : Int) : Prop :=
  ∀ last, g.accepted.getLast? = some last → v = last + g.dropped + 1

/-- The invariant: n is the number that comes next. -/
structure Lined (a : Nat) (ch : String) (n : Int) (s : State) : Prop where
  single : SeqAlloc.Single a ch n s.sends.alloc
  identified : Identified s.sends
  records : ∀ k e, s.sends.alloc.redis.keys (keyDedup k) = some e → 0 ≤ e.val
  active : ∀ i p, s.sends.alloc.calls i = some ⟨a, ch, p⟩ → p.busy = true → Drawing ch s.sends i
  current : ∀ i, Drawing ch s.sends i → s.track.current = some i
  drawn : ∀ i v, Waiting a ch s.sends i v → n = v + 1 ∧ s.track.Follows v
  quiet : (∀ i v, ¬ Waiting a ch s.sends i v) → s.track.Follows n

section Settle

variable {s : SendSteps.State} {c : Send} {msgID : Int} {msg : ImMessage}

theorem settle_admitted (ok : admits s c = true) : settle (s.check c msgID).1 msg = .accepted msg := by
  simp only [admits, Bool.and_eq_true, Option.isNone_iff_eq_none, decide_eq_true_eq] at ok
  have below : rateCount s.alloc.redis s.alloc.now c.uid + 1 ≤ ratePerSecond := by omega
  have room := one_room below (by decide)
  simp [settle, SendSteps.State.check, check_miss _ _ _ _ _ _ ok.1 room, below]

theorem settle_refused (records : ∀ k e, s.alloc.redis.keys (keyDedup k) = some e → 0 ≤ e.val)
    (no : admits s c = false) (g : Track) :
    g.settled (settle (s.check c msgID).1 msg) = { g with dropped := g.dropped + 1 } := by
  simp only [admits, Bool.and_eq_false_iff, decide_eq_false_iff_not] at no
  cases found : s.alloc.redis.get s.alloc.now (keyDedup c.req.clientMsgID) with
  | some v =>
    have valid : 0 ≤ v := by
      obtain ⟨e, live, rfl⟩ := Option.map_eq_some_iff.mp found
      exact records _ e (Redis.find_live live).1
    simp [settle, SendSteps.State.check, check_hit _ _ _ _ _ _ found valid, Track.settled]
  | none =>
    have full : ¬ rateCount s.alloc.redis s.alloc.now c.uid + 1 ≤ ratePerSecond := by
      simp only [found, Option.isNone_none, Bool.true_eq_false, false_or] at no
      omega
    by_cases room : Overflows (rateCount s.alloc.redis s.alloc.now c.uid) 1
    · simp [settle, SendSteps.State.check, check_refused _ _ _ _ _ _ found room, Track.settled]
    · simp [settle, SendSteps.State.check, check_miss _ _ _ _ _ _ found room, full, Track.settled]

end Settle

section Step

variable {cfg : Config} {a : Nat} {ch : String} {n : Int} {s t : State}

theorem after_enter (ch : String) (g : Track) (u : SendSteps.State) (i server : Nat) (uid : Int)
    (sender : Option SenderInfo) (req : SendMsgReq) :
    (g.after ch u (.enter i server uid sender req)).accepted = g.accepted ∧
      (g.after ch u (.enter i server uid sender req)).dropped = g.dropped := by
  simp only [Track.after]
  split
  · exact ⟨rfl, rfl⟩
  · exact ⟨rfl, rfl⟩

theorem unused_not_drawing {i : Nat} (free : s.sends.sends i = none) : ¬ Drawing ch s.sends i := by
  rintro ⟨c, content, call, _⟩
  rw [free] at call
  contradiction

theorem Lined.keep (h : Lined a ch n s) (single : SeqAlloc.Single a ch n t.sends.alloc)
    (identified : Identified t.sends)
    (records : ∀ k e, t.sends.alloc.redis.keys (keyDedup k) = some e → 0 ≤ e.val)
    (active : ∀ i p, t.sends.alloc.calls i = some ⟨a, ch, p⟩ → p.busy = true → Drawing ch t.sends i)
    (current : ∀ i, Drawing ch t.sends i → t.track.current = some i)
    (waiting : ∀ i v, Waiting a ch t.sends i v ↔ Waiting a ch s.sends i v)
    (accepted : t.track.accepted = s.track.accepted) (dropped : t.track.dropped = s.track.dropped) :
    Lined a ch n t := by
  have follows : ∀ v, s.track.Follows v → t.track.Follows v := by
    intro v old last
    rw [accepted, dropped]
    exact old last
  refine ⟨single, identified, records, active, current, ?_, ?_⟩
  · intro i v here
    have old := h.drawn i v ((waiting i v).mp here)
    exact ⟨old.1, follows v old.2⟩
  · intro free
    refine follows n (h.quiet ?_)
    intro i v here
    exact free i v ((waiting i v).mpr here)

theorem drawing_setSend {u : SendSteps.State} {i : Nat} {d : Send} (same : u.sends = s.sends.sends)
    (before : ¬ Drawing ch s.sends i)
    (after : ∀ content, d.phase = .allocating content → d.req.channelID ≠ ch) (j : Nat) :
    Drawing ch (u.setSend i d) j ↔ Drawing ch s.sends j := by
  constructor
  · rintro ⟨c, content, call, phase, here⟩
    rcases setSend_sends_cases call with ⟨_, rfl⟩ | ⟨_, kept⟩
    · exact absurd here (after content phase)
    · exact ⟨c, content, same ▸ kept, phase, here⟩
  · rintro ⟨c, content, call, phase, here⟩
    have ne : j ≠ i := by
      intro eq
      subst eq
      exact before ⟨c, content, call, phase, here⟩
    exact ⟨c, content, by rw [setSend_sends_ne _ _ ne, same, call], phase, here⟩

theorem Lined.still (h : Lined a ch n s) (single : SeqAlloc.Single a ch n t.sends.alloc)
    (identified : Identified t.sends)
    (records : ∀ k e, t.sends.alloc.redis.keys (keyDedup k) = some e → 0 ≤ e.val)
    (calls : t.sends.alloc.calls = s.sends.alloc.calls)
    (drawing : ∀ i, Drawing ch t.sends i ↔ Drawing ch s.sends i)
    (current : ∀ i, Drawing ch s.sends i → t.track.current = some i)
    (accepted : t.track.accepted = s.track.accepted) (dropped : t.track.dropped = s.track.dropped) :
    Lined a ch n t := by
  refine h.keep single identified records ?_ ?_ ?_ accepted dropped
  · intro i p call busy
    exact (drawing i).mpr (h.active i p (calls ▸ call) busy)
  · intro i here
    exact current i ((drawing i).mp here)
  · intro i v
    unfold Waiting
    rw [drawing i, calls]

theorem turn_free (h : Lined a ch n s) {i server : Nat} {uid : Int} {sender : Option SenderInfo}
    {req : SendMsgReq} (ok : inTurn a ch s (.enter i server uid sender req) = true)
    (here : req.channelID = ch) (j : Nat) : ¬ Drawing ch s.sends j := by
  intro drawing
  have current := h.current j drawing
  obtain ⟨c, content, call, phase, _⟩ := drawing
  simp [inTurn, here, current, hasReturned, call, phase] at ok

theorem turn_quiet (h : Lined a ch n s) {i server : Nat} {uid : Int} {sender : Option SenderInfo}
    {req : SendMsgReq} (ok : inTurn a ch s (.enter i server uid sender req) = true)
    (here : req.channelID = ch) (j : Nat) (p : SeqAlloc.Phase)
    (call : s.sends.alloc.calls j = some ⟨a, ch, p⟩) : p.busy = false := by
  cases busy : p.busy with
  | false => rfl
  | true => exact absurd (h.active j p call busy) (turn_free h ok here j)

theorem Lined.one_draws (h : Lined a ch n s) {i j : Nat} (first : Drawing ch s.sends i)
    (second : Drawing ch s.sends j) : i = j :=
  Option.some.inj ((h.current i first).symm.trans (h.current j second))

theorem Lined.records_step (h : Lined a ch n s) {x : SeqAlloc.Action} {alloc : SeqAlloc.State}
    (moved : SeqAlloc.step s.sends.alloc x = some alloc) :
    ∀ k e, alloc.redis.keys (keyDedup k) = some e → 0 ≤ e.val := by
  intro k e held
  rw [SeqAlloc.step_keys_ne moved (by simp)] at held
  exact h.records k e held

theorem not_drawing {i : Nat} {c : Send} (call : s.sends.sends i = some c)
    (past : ∀ content, c.phase ≠ .allocating content) : ¬ Drawing ch s.sends i := by
  rintro ⟨d, content, other, phase, _⟩
  cases Option.some.inj (call.symm.trans other)
  exact past content phase

theorem refused_lined (h : Lined a ch n s) {i server : Nat} {uid : Int} {sender : Option SenderInfo}
    {req : SendMsgReq} {err : IMError} {caches : Caches} (free : s.sends.sends i = none)
    (ok : inTurn a ch s (.enter i server uid sender req) = true)
    (identified : Identified ((s.sends.setCaches server caches).setSend i
      ⟨server, uid, sender, req, .returned (.rejected err)⟩)) :
    Lined a ch n ⟨(s.sends.setCaches server caches).setSend i
      ⟨server, uid, sender, req, .returned (.rejected err)⟩,
      s.track.after ch s.sends (.enter i server uid sender req)⟩ := by
  obtain ⟨accepted, dropped⟩ := after_enter ch s.track s.sends i server uid sender req
  refine h.still h.single identified h.records rfl
    (drawing_setSend (u := s.sends.setCaches server caches) rfl (unused_not_drawing free) (by simp)) ?_
    accepted dropped
  intro j drawing
  simp only [Track.after]
  split
  · rename_i here
    exact absurd drawing (turn_free h ok here j)
  · exact h.current j drawing

theorem enter_lined (h : Lined a ch n s) {i server : Nat} {uid : Int} {sender : Option SenderInfo}
    {req : SendMsgReq} {content : Bytes} {caches : Caches} {alloc : SeqAlloc.State}
    (free : s.sends.sends i = none) (entered : SeqAlloc.step s.sends.alloc (.enter i server req.channelID) =
      some alloc)
    (ok : inTurn a ch s (.enter i server uid sender req) = true)
    (identified : Identified ({ s.sends.setCaches server caches with alloc := alloc }.setSend i
      ⟨server, uid, sender, req, .allocating content⟩)) :
    Lined a ch n ⟨{ s.sends.setCaches server caches with alloc := alloc }.setSend i
      ⟨server, uid, sender, req, .allocating content⟩,
      s.track.after ch s.sends (.enter i server uid sender req)⟩ := by
  have server_eq : server = a := by
    simp only [inTurn, Bool.and_eq_true, decide_eq_true_eq] at ok
    exact ok.1
  have idle : ¬ Drawing ch s.sends i := unused_not_drawing free
  have keys := h.records_step entered
  obtain ⟨accepted, dropped⟩ := after_enter ch s.track s.sends i server uid sender req
  obtain ⟨single, unused, rfl⟩ :=
    h.single.enter (fun here => ⟨server_eq, turn_quiet h ok here⟩) entered
  by_cases here : req.channelID = ch
  · have others : ∀ j, Drawing ch (SendSteps.State.setSend { s.sends.setCaches server caches with
        alloc := s.sends.alloc.setCall i ⟨server, req.channelID, .entered⟩ } i
        ⟨server, uid, sender, req, .allocating content⟩) j → j = i := by
      rintro j ⟨c, content', call, phase, channel⟩
      rcases setSend_sends_cases call with ⟨eq, _⟩ | ⟨_, kept⟩
      · exact eq
      · exact absurd ⟨c, content', kept, phase, channel⟩ (turn_free h ok here j)
    refine h.keep single identified keys ?_ ?_ ?_ accepted dropped
    · intro j p call busy
      rcases SeqAlloc.setCall_calls_cases call with ⟨rfl, _⟩ | ⟨_, kept⟩
      · exact ⟨_, content, setSend_sends_same _ _ _, rfl, here⟩
      · exact absurd (turn_quiet h ok here j p kept) (by simp [busy])
    · intro j drawing
      simp only [others j drawing, Track.after, if_pos here]
    · intro j v
      constructor
      · rintro ⟨drawing, number⟩
        cases others j drawing
        rcases SeqAlloc.setCall_calls_cases number with ⟨_, eq⟩ | ⟨ne, _⟩
        · exact absurd (congrArg SeqAlloc.Call.phase eq) (by simp)
        · exact absurd rfl ne
      · rintro ⟨drawing, _⟩
        exact absurd drawing (turn_free h ok here j)
  · have foreign : ∀ j p, (s.sends.alloc.setCall i ⟨server, req.channelID, .entered⟩).calls j =
        some ⟨a, ch, p⟩ ↔ s.sends.alloc.calls j = some ⟨a, ch, p⟩ := by
      intro j p
      exact SeqAlloc.foreign_calls here (by simp [unused]) rfl j a p
    have drawing := drawing_setSend (d := ⟨server, uid, sender, req, .allocating content⟩)
      (u := { s.sends.setCaches server caches with
        alloc := s.sends.alloc.setCall i ⟨server, req.channelID, .entered⟩ }) rfl idle (fun _ _ => here)
    refine h.keep single identified keys ?_ ?_ ?_ accepted dropped
    · intro j p call busy
      exact (drawing j).mpr (h.active j p ((foreign j p).mp call) busy)
    · intro j now
      simp only [Track.after, if_neg here]
      exact h.current j ((drawing j).mp now)
    · intro j v
      exact and_congr (drawing j) (foreign j _)

theorem next_lined (h : Lined a ch n s) {x : SeqAlloc.Action} {alloc : SeqAlloc.State}
    (works : ∀ i, x ≠ .incrByFails i) (notEnter : ∀ i b c, x ≠ .enter i b c)
    (moved : SeqAlloc.step s.sends.alloc x = some alloc)
    (identified : Identified { s.sends with alloc := alloc }) :
    ∃ m, Lined a ch m ⟨{ s.sends with alloc := alloc }, s.track⟩ := by
  have keys := h.records_step moved
  have active : ∀ i p, alloc.calls i = some ⟨a, ch, p⟩ → p.busy = true → Drawing ch s.sends i := by
    intro i p call busy
    obtain ⟨q, before, was⟩ := SeqAlloc.busy_before moved notEnter call busy
    exact h.active i q before was
  cases h.single.step works (fun i b eq => absurd eq (notEnter i b ch)) moved with
  | none single returned =>
    refine ⟨n, h.keep single identified keys active h.current ?_ rfl rfl⟩
    intro i v
    constructor
    · rintro ⟨drawing, number⟩
      exact ⟨drawing, returned i v number⟩
    · rintro ⟨drawing, number⟩
      exact ⟨drawing, SeqAlloc.step_returned number moved⟩
  | @one i p call busy single number =>
    have drawing := h.active i p call busy
    have before : ∀ j v, ¬ Waiting a ch s.sends j v := by
      rintro j v ⟨other, taken⟩
      cases h.one_draws drawing other
      cases Option.some.inj (call.symm.trans taken)
      contradiction
    refine ⟨n + 1, single, identified, keys, active, h.current, ?_, ?_⟩
    · rintro j v ⟨other, taken⟩
      cases h.one_draws drawing other
      cases Option.some.inj (number.symm.trans taken)
      exact ⟨rfl, h.quiet before⟩
    · intro free
      exact absurd ⟨drawing, number⟩ (free i n)

theorem check_alloc (h : Lined a ch n s) (c : Send) (msgID : Int) :
    SeqAlloc.Single a ch n { s.sends.alloc with redis := (s.sends.check c msgID).2 } ∧
      ∀ k e, (s.sends.check c msgID).2.keys (keyDedup k) = some e → 0 ≤ e.val := by
  have seqKeys : ∀ other, (s.sends.check c msgID).2.keys (keySeq other) =
      s.sends.alloc.redis.keys (keySeq other) := by
    intro other
    exact check_keys_ne _ _ _ _ _ _ (by simp) (by simp)
  constructor
  · refine h.single.frame (check_keeps_alloc h.single.inv c msgID) (fun _ _ _ => Iff.rfl) rfl ?_
    simp only [SeqAlloc.State.counter, seqKeys]
  · intro k e held
    exact check_records h.records k e held

theorem checked_lined (h : Lined a ch n s) {i b : Nat} {c : Send} {content : Bytes} {other : String}
    {msgID : Int} (call : s.sends.sends i = some c) (phase : c.phase = .allocating content)
    (number : s.sends.alloc.calls i = some ⟨b, other, .returned msgID⟩) (here : c.req.channelID = ch)
    {msg : ImMessage} (id : msg.msgId = msgID)
    (identified : Identified ((s.sends.setRedis (s.sends.check c msgID).2).setSend i
      (c.to (afterCheck (settle (s.sends.check c msgID).1 msg))))) :
    s.track.Follows msgID ∧
    Lined a ch n ⟨(s.sends.setRedis (s.sends.check c msgID).2).setSend i
      (c.to (afterCheck (settle (s.sends.check c msgID).1 msg))),
      s.track.settled (settle (s.sends.check c msgID).1 msg)⟩ := by
  have drawing : Drawing ch s.sends i := ⟨c, content, call, phase, here⟩
  have own : s.sends.alloc.calls i = some ⟨a, ch, .returned msgID⟩ := by
    obtain ⟨d, p, asked⟩ := h.identified.asked i c content call phase
    rw [number] at asked
    cases Option.some.inj asked
    rw [here] at number
    rw [number, h.single.own i b _ number]
  have drawn := h.drawn i msgID ⟨drawing, own⟩
  have past : ∀ content, (c.to (afterCheck (settle (s.sends.check c msgID).1 msg))).phase ≠
      .allocating content := by
    intro content
    cases settle (s.sends.check c msgID).1 msg <;> simp [Send.to, afterCheck]
  have finished : ∀ j, ¬ Drawing ch ((s.sends.setRedis (s.sends.check c msgID).2).setSend i
      (c.to (afterCheck (settle (s.sends.check c msgID).1 msg)))) j := by
    rintro j ⟨d, content', after, still, channel⟩
    rcases setSend_sends_cases after with ⟨_, rfl⟩ | ⟨ne, kept⟩
    · exact past content' still
    · exact ne (h.one_draws ⟨d, content', kept, still, channel⟩ drawing)
  obtain ⟨single, records⟩ := check_alloc h c msgID
  refine ⟨drawn.2, single, identified, records, ?_, ?_, ?_, ?_⟩
  · intro j p busyCall busy
    cases h.one_draws drawing (h.active j p busyCall busy)
    cases Option.some.inj (own.symm.trans busyCall)
    contradiction
  · intro j now
    exact absurd now (finished j)
  · intro j v waiting
    exact absurd waiting.1 (finished j)
  · intro _ last
    cases ok : admits s.sends c with
    | true =>
      simp only [settle_admitted ok, Track.settled, id, List.getLast?_append, List.getLast?_singleton,
        Option.some_or, Option.some.injEq]
      rintro rfl
      simpa using drawn.1
    | false =>
      simp only [settle_refused h.records ok]
      intro before
      have follows := drawn.2 last before
      have next := drawn.1
      push_cast
      omega

theorem apart_lined (h : Lined a ch n s) {u : SendSteps.State} {i : Nat} {d : Send}
    (sends : u.sends = s.sends.sends) (calls : u.alloc.calls = s.sends.alloc.calls)
    (single : SeqAlloc.Single a ch n u.alloc)
    (records : ∀ k e, u.alloc.redis.keys (keyDedup k) = some e → 0 ≤ e.val)
    (before : ¬ Drawing ch s.sends i)
    (after : ∀ content, d.phase = .allocating content → d.req.channelID ≠ ch)
    (identified : Identified (u.setSend i d)) : Lined a ch n ⟨u.setSend i d, s.track⟩ :=
  h.still single identified records calls (drawing_setSend sends before after) h.current rfl rfl

theorem step_lined {x : SendSteps.Action} (h : Lined a ch n s) (ok : inTurn a ch s x = true)
    (taken : step cfg ch s x = some t) : ∃ m, Lined a ch m t := by
  obtain ⟨u, moved, rfl⟩ := Option.map_eq_some_iff.mp taken
  have identified := step_identified h.identified moved
  have notEnter : ∀ {y}, x = .next y → ∀ i b c, y ≠ .enter i b c := by
    rintro y rfl i b c rfl
    contradiction
  cases step_effect moved with
  | refused free => exact ⟨n, refused_lined h free ok identified⟩
  | enter free _ entered => exact ⟨n, enter_lined h free entered ok identified⟩
  | @next y _ drew =>
    have works : ∀ i, y ≠ .incrByFails i := by
      rintro i rfl
      contradiction
    exact next_lined h works (notEnter rfl) drew identified
  | nextFailed => contradiction
  | lostBefore => contradiction
  | lostAfter => contradiction
  | resent => contradiction
  | @checked i c content b other msgID call phase number =>
    by_cases here : c.req.channelID = ch
    · have track : s.track.after ch s.sends (.script i .none) = s.track.settled
          (settle (s.sends.check c msgID).1 (buildMsg msgID c.sender c.req content s.sends.alloc.now)) := by
        simp only [Track.after, call, number, phase, if_pos here]
      rw [track]
      exact ⟨n, (checked_lined h call phase number here rfl identified).2⟩
    · have track : s.track.after ch s.sends (.script i .none) = s.track := by
        simp only [Track.after, call, number, phase, if_neg here]
      obtain ⟨single, records⟩ := check_alloc h c msgID
      have before : ¬ Drawing ch s.sends i := by
        rintro ⟨d, _, other, _, channel⟩
        cases Option.some.inj (call.symm.trans other)
        exact here channel
      rw [track]
      exact ⟨n, apart_lined h (u := s.sends.setRedis (s.sends.check c msgID).2) rfl rfl single records
        before (fun _ _ => here) identified⟩
  | @post i c msg call phase =>
    exact ⟨n, apart_lined h (u := { s.sends with posted := _ }) rfl rfl h.single h.records
      (not_drawing call (by simp [phase])) (by simp [Send.to]) identified⟩
  | @queue i c msg call phase =>
    exact ⟨n, apart_lined h (u := { s.sends with queued := _ }) rfl rfl h.single h.records
      (not_drawing call (by simp [phase])) (by simp [Send.to]) identified⟩
  | @deliver i c msg call phase =>
    exact ⟨n, apart_lined h (u := { s.sends with delivered := _ }) rfl rfl h.single h.records
      (not_drawing call (by simp [phase])) (by simp [Send.to]) identified⟩

/-- A step accepts no message of the channel, or it accepts one whose number follows the last
accepted one by the dropped ones. -/
theorem step_accepts {x : SendSteps.Action} (h : Lined a ch n s) (ok : inTurn a ch s x = true)
    (taken : step cfg ch s x = some t) :
    (t.track.accepted = s.track.accepted ∧ unbroken ch s x = true) ∨
    ∃ i fault c v, x = .script i fault ∧ s.sends.sends i = some c ∧ c.req.channelID = ch ∧
      admits s.sends c = true ∧ s.track.Follows v ∧ t.track.accepted = s.track.accepted ++ [v] := by
  obtain ⟨u, moved, rfl⟩ := Option.map_eq_some_iff.mp taken
  cases step_effect moved with
  | @refused i server uid sender req =>
    exact Or.inl ⟨(after_enter ch s.track s.sends i server uid sender req).1, rfl⟩
  | @enter i server uid sender req =>
    exact Or.inl ⟨(after_enter ch s.track s.sends i server uid sender req).1, rfl⟩
  | next => exact Or.inl ⟨rfl, rfl⟩
  | nextFailed => exact Or.inl ⟨rfl, rfl⟩
  | lostBefore => contradiction
  | lostAfter => contradiction
  | resent => contradiction
  | post => exact Or.inl ⟨rfl, rfl⟩
  | queue => exact Or.inl ⟨rfl, rfl⟩
  | deliver => exact Or.inl ⟨rfl, rfl⟩
  | @checked i c content b other msgID call phase number =>
    by_cases here : c.req.channelID = ch
    · have follows := (checked_lined h call phase number here rfl
        (step_identified h.identified moved)).1
      cases admitted : admits s.sends c with
      | true =>
        refine Or.inr ⟨i, .none, c, msgID, rfl, call, here, admitted, follows, ?_⟩
        simp only [Track.after, call, number, phase, if_pos here, settle_admitted admitted, Track.settled]
        rfl
      | false =>
        refine Or.inl ⟨?_, by simp [unbroken, call, admitted]⟩
        simp only [Track.after, call, number, phase, if_pos here, settle_refused h.records admitted]
    · refine Or.inl ⟨?_, by simp [unbroken, call, here]⟩
      simp only [Track.after, call, number, phase, if_neg here]

theorem successive_append {ids : List Int} {v : Int} : Successive (ids ++ [v]) ↔
    Successive ids ∧ ∀ last, ids.getLast? = some last → v = last + 1 := by
  simp [Successive, List.isChain_append]

theorem step_successive {x : SendSteps.Action} (h : Lined a ch n s)
    (successive : Successive s.track.accepted) (ok : inTurn a ch s x = true)
    (taken : step cfg ch s x = some t) : Successive t.track.accepted ↔ unbroken ch s x = true := by
  rcases step_accepts h ok taken with ⟨same, whole⟩ | ⟨i, fault, c, v, rfl, call, here, admitted, follows, grown⟩
  · rw [same]
    exact iff_of_true successive whole
  · rw [grown, successive_append]
    have condition : unbroken ch s (.script i fault) = true ↔
        s.track.accepted = [] ∨ s.track.dropped = 0 := by
      simp [unbroken, call, here, admitted]
    rw [condition]
    cases last : s.track.accepted.getLast? with
    | none =>
      have empty := List.getLast?_eq_none_iff.mp last
      simp [empty, Successive]
    | some w =>
      have value := follows w last
      have nonempty : s.track.accepted ≠ [] := by
        intro empty
        rw [empty] at last
        contradiction
      simp only [successive, true_and, Option.some.injEq, forall_eq', nonempty, false_or]
      omega

end Step

theorem Start.lined {s : State} (start : Start s) (a : Nat) (ch : String) :
    Lined a ch (s.sends.alloc.counter ch + 1) s := by
  have nobody : ∀ i, ¬ Drawing ch s.sends i := by
    rintro i ⟨c, content, call, _⟩
    rw [start.idle.sends i] at call
    contradiction
  refine ⟨start.idle.alloc.single start.idle.spare a ch, start.idle.identified, start.records, ?_, ?_, ?_, ?_⟩
  · intro i p call
    rw [start.idle.alloc.calls i] at call
    contradiction
  · intro i drawing
    exact absurd drawing (nobody i)
  · intro i v waiting
    exact absurd waiting.1 (nobody i)
  · intro _ last accepted
    rw [start.track] at accepted
    contradiction

/-- On one server whose calls on the channel follow one another, the accepted ids are
successive all along exactly if no message is accepted after a number was dropped behind the
message before it. -/
theorem accepted_successive_iff (cfg : Config) (server : Nat) (ch : String) (s₀ s : State)
    (as : List SendSteps.Action) (start : Start s₀)
    (turns : Meets (step cfg ch) (fun s x => inTurn server ch s x = true) s₀ as)
    (taken : run (step cfg ch) s₀ as = some s) :
    (∀ before u, before <+: as → run (step cfg ch) s₀ before = some u → Successive u.track.accepted) ↔
      Meets (step cfg ch) (fun s x => unbroken ch s x = true) s₀ as := by
  have initial : (∃ n, Lined server ch n s₀) ∧ Successive s₀.track.accepted := by
    refine ⟨⟨_, start.lined server ch⟩, ?_⟩
    rw [start.track]
    exact List.IsChain.nil
  have sharp := always_iff_meets_under
    (P := fun s x => unbroken ch s x = true) (Q := fun s x => inTurn server ch s x = true)
    (fun s => (∃ n, Lined server ch n s) ∧ Successive s.track.accepted)
    (fun u x v inv ok whole moved => by
      obtain ⟨⟨n, lined⟩, successive⟩ := inv
      exact ⟨step_lined lined ok moved, (step_successive lined successive ok moved).mpr whole⟩)
    (fun u x v inv ok broken moved kept => by
      obtain ⟨⟨n, lined⟩, successive⟩ := inv
      exact broken ((step_successive lined successive ok moved).mp kept.2))
    initial turns taken
  rw [← sharp]
  constructor
  · rintro always before u ⟨after, rfl⟩ reached
    have lined : ∃ n, Lined server ch n u := by
      refine run_invariant_meets (P := fun s x => inTurn server ch s x = true)
        (fun s => ∃ n, Lined server ch n s) ?_ initial.1 ((meets_append reached).mp turns).1 reached
      rintro v x w ⟨n, inv⟩ ok moved
      exact step_lined inv ok moved
    exact ⟨lined, always before u (List.prefix_append before after) reached⟩
  · intro always before u part reached
    exact (always before u part reached).2

def newServer : State := ⟨SendSteps.initial, ⟨[], 0, none⟩⟩

theorem newServer_start : Start newServer where
  idle := SendSteps.initial_start.idle
  records := by
    intro k e held
    contradiction
  track := rfl

def worldReq (clientMsgID : String) : SendMsgReq := ⟨"world", .world, [104, 105], .text, [], clientMsgID⟩

/- A call of user 7 up to the script, and what follows if it is accepted. -/
def asks (i : Nat) (clientMsgID : String) (next : List SeqAlloc.Action) : List SendSteps.Action :=
  .enter i 0 7 none (worldReq clientMsgID) :: (next.map .next ++ [.script i .none])

def handsOver (i : Nat) : List SendSteps.Action := [.post i, .queue i, .deliver i]

def twoMessages : List SendSteps.Action :=
  asks 0 "m-1" [.lookup 0, .incrBy 0, .install 0] ++ handsOver 0 ++
    (asks 1 "m-2" [.lookup 1] ++ handsOver 1)

theorem accepted_successive_two : ∃ s, run (step permissive "world") newServer twoMessages = some s ∧
    s.track.accepted = [1, 2] ∧
    ∀ before u, before <+: twoMessages → run (step permissive "world") newServer before = some u →
      Successive u.track.accepted := by
  have view : (run (step permissive "world") newServer twoMessages).map (fun s => s.track.accepted) =
      some [1, 2] := by
    decide +kernel
  obtain ⟨s, taken, ids⟩ := Option.map_eq_some_iff.mp view
  have turns : Meets (step permissive "world") (fun s x => inTurn 0 "world" s x = true) newServer
      twoMessages := by
    decide +kernel
  have whole : Meets (step permissive "world") (fun s x => unbroken "world" s x = true) newServer
      twoMessages := by
    decide +kernel
  have sharp := accepted_successive_iff permissive 0 "world" newServer s twoMessages newServer_start turns
    taken
  exact ⟨s, taken, ids, sharp.mpr whole⟩

/- The client sends its first message again before the second one. -/
def retryBetween : List SendSteps.Action :=
  asks 0 "m-1" [.lookup 0, .incrBy 0, .install 0] ++ handsOver 0 ++
    (asks 1 "m-1" [.lookup 1] ++ (asks 2 "m-2" [.lookup 2] ++ handsOver 2))

/-- The retry is answered as a duplicate and takes the number 2 with it. -/
theorem retry_leaves_hole :
    Meets (step permissive "world") (fun s x => inTurn 0 "world" s x = true) newServer retryBetween ∧
    ∃ s, run (step permissive "world") newServer retryBetween = some s ∧ s.track.accepted = [1, 3] ∧
      ¬ Successive s.track.accepted := by
  have view : (run (step permissive "world") newServer retryBetween).map (fun s => s.track.accepted) =
      some [1, 3] := by
    decide +kernel
  obtain ⟨s, taken, ids⟩ := Option.map_eq_some_iff.mp view
  refine ⟨by decide +kernel, s, taken, ids, ?_⟩
  rw [ids]
  simp [Successive]

end GameIM.Service.Consecutive
