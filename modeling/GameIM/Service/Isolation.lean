import GameIM.Lib.Unwinding
import GameIM.Service.MsgIds
import GameIM.Service.Retry

/-! What the calls of other users do to one user's calls. The rate and ban keys hold
the user's id and the numbers only have to be new, but the dedup key holds nothing
but the client's id, and the availability cache belongs to the server. -/
namespace GameIM.Service
open GameIM.Lib GameIM.Api GameIM.Store

/-- An outcome up to the message number. -/
inductive Kind where
  | rejected (err : IMError)
  | duplicate
  | accepted
  deriving DecidableEq, Repr

def Outcome.kind : Outcome → Kind
  | .rejected err => .rejected err
  | .duplicate _ => .duplicate
  | .accepted _ => .accepted

section Precheck

variable {cfg : Config} {p q : Caches} {now : Nat} {uid : Int} {req : SendMsgReq}

theorem precheck_congr (ban : p.ban.entries (banKey uid) = q.ban.entries (banKey uid))
    (avail : (checkAvailCached cfg p.avail now req.channelType).1 =
      (checkAvailCached cfg q.avail now req.channelType).1) :
    (precheck cfg p now uid req).1 = (precheck cfg q now uid req).1 ∧
      (precheck cfg p now uid req).2.ban.entries (banKey uid) =
        (precheck cfg q now uid req).2.ban.entries (banKey uid) := by
  have banned : (checkBanCached cfg p.ban now uid).1 = (checkBanCached cfg q.ban now uid).1 ∧
      (checkBanCached cfg p.ban now uid).2.entries (banKey uid) =
        (checkBanCached cfg q.ban now uid).2.entries (banKey uid) :=
    checkCached_congr now _ _ ban
  unfold precheck
  simp only [banned.1, avail]
  split
  · exact ⟨rfl, ban⟩
  · split
    · exact ⟨rfl, ban⟩
    · split
      · exact ⟨rfl, banned.2⟩
      · split
        · exact ⟨rfl, banned.2⟩
        · exact ⟨rfl, banned.2⟩

theorem precheck_ban_ne {key : String} (other : key ≠ banKey uid) :
    (precheck cfg p now uid req).2.ban.entries key = p.ban.entries key := by
  have still : (checkBanCached cfg p.ban now uid).2.entries key = p.ban.entries key :=
    checkCached_entries_ne now _ _ other
  unfold precheck
  simp only
  split
  · rfl
  · split
    · rfl
    · split
      · exact still
      · split
        · exact still
        · exact still

/- What Redis says about channels does not change, and the cache says the same. -/
def SteadyCache (avail : ChannelType → Bool) (c : LocalCache) : Prop :=
  ∀ ct e, c.entries (availKey ct) = some e → e.value = avail ct

theorem SteadyCache.check {avail : ChannelType → Bool} {c : LocalCache} (h : SteadyCache avail c)
    (steady : ∀ now ct, cfg.isAvailable now ct = some (avail ct)) (ct : ChannelType) :
    (checkAvailCached cfg c now ct).1 = avail ct ∧
      SteadyCache avail (checkAvailCached cfg c now ct).2 := by
  have here := checkCached_steady now true (h ct)
  unfold checkAvailCached
  rw [steady now ct]
  refine ⟨here.1, ?_⟩
  intro other e he
  by_cases eq : other = ct
  · exact eq ▸ here.2 e (eq ▸ he)
  · rw [checkCached_entries_ne now _ _ (by simpa using eq)] at he
    exact h other e he

theorem precheck_steady {avail : ChannelType → Bool} (h : SteadyCache avail p.avail)
    (steady : ∀ now ct, cfg.isAvailable now ct = some (avail ct)) :
    SteadyCache avail (precheck cfg p now uid req).2.avail := by
  have checked : SteadyCache avail (checkAvailCached cfg p.avail now req.channelType).2 :=
    (h.check steady req.channelType).2
  unfold precheck
  simp only
  split
  · exact h
  · split
    · exact h
    · split
      · exact h
      · split
        · exact checked
        · exact checked

end Precheck

def Servers.alloc (s : Servers) (now : Nat) : SeqAlloc.State := ⟨now, s.redis, s.ranges, fun _ => none⟩

def Counting (s : Servers) : Prop := SeqAlloc.Inv (s.alloc 0)

theorem Counting.of_inv {t : Servers} {a : SeqAlloc.State} (inv : SeqAlloc.Inv a) (ranges : t.ranges = a.ranges)
    (same : ∀ ch, t.redis.keys (keySeq ch) = a.redis.keys (keySeq ch)) : Counting t := by
  refine inv.shrink same ?_
  intro ch k n held
  cases k with
  | range b =>
    obtain ⟨r, range, within⟩ := held
    exact ⟨r, ranges ▸ range, within⟩
  | call i =>
    obtain ⟨c, call, _⟩ := held
    cases call

theorem Counting.next {s t : Servers} (h : Counting s) {server now : Nat} {ch : String} {incrFails : Bool} {n : Int}
    (next : s.next server now ch incrFails = (some n, t)) : 0 < n ∧ Counting t := by
  have between : SeqAlloc.Inv (s.alloc now) := h.shrink (fun _ => rfl) (fun _ _ _ held => held)
  have entered := between.idle 0 ⟨server, ch, .entered⟩ (fun _ held => held)
  obtain ⟨xs, _, taken⟩ := SendSteps.next_alone (a := (s.alloc now).setCall 0 ⟨server, ch, .entered⟩) (s := s) rfl rfl
    (SeqAlloc.setCall_calls_same _ _ _) incrFails
  have sameNow : ((s.alloc now).setCall 0 ⟨server, ch, .entered⟩).now = now := rfl
  rw [sameNow, next] at taken
  have inv := run_invariant SeqAlloc.Inv (fun _ _ _ inv moved => SeqAlloc.step_inv inv moved) entered taken
  have held := inv.bounded ch (.call 0) n ⟨_, SeqAlloc.setCall_calls_same _ _ _, rfl, rfl⟩
  exact ⟨held.1, .of_inv inv rfl (fun _ => rfl)⟩

/-- No Redis command of the call is lost or made twice. -/
def Clean (c : Call) : Prop := c.incrFails = false ∧ c.fault = .none

instance (c : Call) : Decidable (Clean c) :=
  inferInstanceAs (Decidable (c.incrFails = false ∧ c.fault = .none))

/-- Redis refuses no command of the call: the channel's counter is not at its end where Next asks
for a batch, and the user's count is not at its end. -/
def Unrefused (s : Servers) (c : Call) : Prop :=
  (s.next c.server c.now c.req.channelID c.incrFails).1 ≠ none ∧ ¬ Overflows (rateCount s.redis c.now c.uid) 1

instance (s : Servers) (c : Call) : Decidable (Unrefused s c) := inferInstanceAs (Decidable (_ ∧ _))

structure Sound (avail : ChannelType → Bool) (s : Servers) : Prop where
  counting : Counting s
  valid : Valid s
  emptyFree : s.redis.keys (keyDedup "") = none
  steady : ∀ server, SteadyCache avail (s.caches server).avail

inductive CleanSend (cfg : Config) (s : Servers) (c : Call) : Prop where
  | refused {err caches} :
      precheck cfg (s.caches c.server) c.now c.uid c.req = (.error err, caches) →
      sendMsg cfg s c = (.rejected err, s.setCaches c.server caches) → CleanSend cfg s c
  | numbered {content caches msgID t} :
      precheck cfg (s.caches c.server) c.now c.uid c.req = (.ok content, caches) →
      Numbered cfg s c content msgID t → 0 < msgID → Counting t →
      t.caches = Function.update s.caches c.server caches →
      sendMsg cfg s c = (t.setRedis (c.check t.redis msgID).2).finish
        (settle (c.check t.redis msgID).1 (buildMsg msgID c.sender c.req content c.now)) c.now →
      CleanSend cfg s c

theorem next_number (s : Servers) (server server' now : Nat) (caches : Caches) (ch : String) (incrFails : Bool) :
    ((s.setCaches server' caches).next server now ch incrFails).1 = (s.next server now ch incrFails).1 := by
  unfold Servers.next Servers.refill
  simp only [Servers.setCaches]
  split
  · split
    · rfl
    · split
      · rfl
      · split <;> rfl
  · split
    · rfl
    · split <;> rfl

theorem clean_send (cfg : Config) {s : Servers} {c : Call} (counting : Counting s) (clean : Clean c)
    (unrefused : Unrefused s c) : CleanSend cfg s c := by
  cases checked : precheck cfg (s.caches c.server) c.now c.uid c.req with
  | mk verdict caches =>
    cases verdict with
    | error err => exact .refused checked (by simp only [sendMsg, checked])
    | ok content =>
      have before : Counting (s.setCaches c.server caches) := counting
      have only := next_onlyNumbers (s.setCaches c.server caches) c.server c.now c.req.channelID
        c.incrFails
      have number := next_number s c.server c.server c.now caches c.req.channelID c.incrFails
      cases next : (s.setCaches c.server caches).next c.server c.now c.req.channelID c.incrFails with
      | mk drawn t =>
        rw [next] at only number
        cases drawn with
        | none => exact absurd number.symm unrefused.1
        | some msgID =>
          obtain ⟨positive, after⟩ := before.next next
          have numbered : Numbered cfg s c content msgID t := ⟨caches, checked, next⟩
          have once : c.checked t.redis msgID = c.check t.redis msgID := by
            rw [Call.checked, clean.2]
          have result := sendMsg_checked numbered
          rw [once] at result
          exact .numbered checked numbered positive after only.caches result

theorem finish_redis (s : Servers) (o : Outcome) (now : Nat) : (s.finish o now).2.redis = s.redis := by
  cases o <;> rfl

theorem finish_ranges (s : Servers) (o : Outcome) (now : Nat) : (s.finish o now).2.ranges = s.ranges := by
  cases o <;> rfl

theorem finish_caches (s : Servers) (o : Outcome) (now : Nat) : (s.finish o now).2.caches = s.caches := by
  cases o <;> rfl

theorem finish_outcome (s : Servers) (o : Outcome) (now : Nat) : (s.finish o now).1 = o := by
  cases o <;> rfl

section Specs

variable {cfg : Config} {avail : ChannelType → Bool} {s : Servers} {c : Call}

def expected (verdict : Except IMError Bytes) (known : Bool) (count : Int) : Kind :=
  match verdict with
  | .error err => .rejected err
  | .ok _ =>
    if known then .duplicate
    else if count + 1 ≤ ratePerSecond then .accepted
    else .rejected errRateLimited

theorem sendMsg_kind (sound : Sound avail s) (clean : Clean c) (unrefused : Unrefused s c) :
    (sendMsg cfg s c).1.kind =
      expected (precheck cfg (s.caches c.server) c.now c.uid c.req).1
        (s.redis.get c.now (keyDedup c.req.clientMsgID)).isSome (rateCount s.redis c.now c.uid) := by
  cases clean_send cfg sound.counting clean unrefused with
  | refused checked result =>
    rw [result, checked]
    rfl
  | numbered checked n _ _ _ result =>
    rw [result, finish_outcome, checked]
    cases found : s.redis.get c.now (keyDedup c.req.clientMsgID) with
    | some v =>
      obtain ⟨e, live, rfl⟩ := Option.map_eq_some_iff.mp found
      have valid := sound.valid _ e (Redis.find_live live).1
      rw [← n.get_dedup] at found
      unfold Call.check
      rw [check_hit _ _ _ _ _ _ found (Int.le_of_lt valid)]
      rfl
    | none =>
      rw [← n.get_dedup] at found
      unfold Call.check
      rw [check_miss _ _ _ _ _ _ found (n.rateCount _ ▸ unrefused.2), n.rateCount]
      by_cases fast : rateCount s.redis c.now c.uid + 1 ≤ ratePerSecond
      · simp [settle, expected, fast, Outcome.kind]
      · simp [settle, expected, fast, Outcome.kind]

def marks (verdict : Except IMError Bytes) (known : Bool) : Bool :=
  match verdict with
  | .error _ => false
  | .ok _ => !known

theorem sendMsg_rate (sound : Sound avail s) (clean : Clean c) (unrefused : Unrefused s c) :
    (sendMsg cfg s c).2.redis.keys (keyRateLimit c.uid) =
      if marks (precheck cfg (s.caches c.server) c.now c.uid c.req).1
        (s.redis.get c.now (keyDedup c.req.clientMsgID)).isSome
      then some (rateBumped (s.redis.find c.now (keyRateLimit c.uid)) c.now rateLimitTTL)
      else s.redis.keys (keyRateLimit c.uid) := by
  cases clean_send cfg sound.counting clean unrefused with
  | refused checked result =>
    rw [result, checked]
    rfl
  | numbered checked n _ _ _ result =>
    rw [result, finish_redis, checked]
    have rate := n.keys (keyRateLimit c.uid) (by simp)
    cases found : s.redis.get c.now (keyDedup c.req.clientMsgID) with
    | some v =>
      rw [← n.get_dedup] at found
      simp only [Servers.setRedis, Call.check, check_found _ _ _ _ _ _ found, rate]
      rfl
    | none =>
      rw [← n.get_dedup] at found
      simp only [Servers.setRedis, Call.check, check_miss_rate _ _ _ _ _ _ found (n.rateCount _ ▸ unrefused.2),
        Redis.find_congr c.now rate]
      rfl

theorem sendMsg_deadline (sound : Sound avail s) (clean : Clean c) (unrefused : Unrefused s c)
    (nonempty : c.req.clientMsgID ≠ "") :
    ((sendMsg cfg s c).2.redis.keys (keyDedup c.req.clientMsgID)).map Entry.deadline =
      if marks (precheck cfg (s.caches c.server) c.now c.uid c.req).1
        (s.redis.get c.now (keyDedup c.req.clientMsgID)).isSome
      then some (some (c.now + 1000 * dedupTTL))
      else (s.redis.keys (keyDedup c.req.clientMsgID)).map Entry.deadline := by
  cases clean_send cfg sound.counting clean unrefused with
  | refused checked result =>
    rw [result, checked]
    rfl
  | numbered checked n positive _ _ result =>
    rw [result, finish_redis, checked]
    cases found : s.redis.get c.now (keyDedup c.req.clientMsgID) with
    | some v =>
      rw [← n.get_dedup] at found
      simp only [Servers.setRedis, Call.check, check_found _ _ _ _ _ _ found, n.keys _ (keyDedup_ne_keySeq _)]
      rfl
    | none =>
      rw [← n.get_dedup] at found
      simp only [Servers.setRedis, Call.check, check_miss_dedup _ _ _ _ _ _ found (n.rateCount _ ▸ unrefused.2),
        if_pos (And.intro nonempty positive)]
      rfl

theorem sendMsg_rate_ne (sound : Sound avail s) (clean : Clean c) (unrefused : Unrefused s c) {u : Int}
    (other : u ≠ c.uid) :
    (sendMsg cfg s c).2.redis.keys (keyRateLimit u) = s.redis.keys (keyRateLimit u) := by
  cases clean_send cfg sound.counting clean unrefused with
  | refused _ result => rw [result]; rfl
  | numbered _ n _ _ _ result =>
    rw [result, finish_redis, ← n.keys (keyRateLimit u) (by simp)]
    exact check_keys_ne _ _ _ _ _ _ (by simp) (by simpa using other)

theorem sendMsg_caches (sound : Sound avail s) (clean : Clean c) (unrefused : Unrefused s c) :
    (sendMsg cfg s c).2.caches = Function.update s.caches c.server
      (precheck cfg (s.caches c.server) c.now c.uid c.req).2 := by
  cases clean_send cfg sound.counting clean unrefused with
  | refused checked result =>
    rw [result, checked]
    rfl
  | numbered checked n _ _ caches result =>
    rw [result, finish_caches, checked]
    exact caches

theorem sendMsg_sound (steady : ∀ now ct, cfg.isAvailable now ct = some (avail ct))
    (sound : Sound avail s) (clean : Clean c) (unrefused : Unrefused s c) : Sound avail (sendMsg cfg s c).2 := by
  refine ⟨?_, sendMsg_valid c sound.valid, ?_, ?_⟩
  · cases clean_send cfg sound.counting clean unrefused with
    | refused _ result =>
      rw [result]
      exact sound.counting
    | numbered _ n _ counting _ result =>
      rw [result]
      refine .of_inv counting (finish_ranges _ _ _) ?_
      intro ch
      rw [finish_redis]
      exact check_keys_ne _ _ _ _ _ _ (by simp) (by simp)
  · exact (sendMsg_empty_record cfg s c).trans sound.emptyFree
  · intro server
    rw [sendMsg_caches sound clean unrefused]
    by_cases hs : server = c.server
    · subst hs
      rw [Function.update_self]
      exact precheck_steady (sound.steady c.server) steady
    · rw [Function.update_of_ne hs]
      exact sound.steady server

end Specs

/- Two states that the user with these client ids cannot tell apart: the user's rate
and ban entries are the same, and the records of the ids differ in their numbers only. -/
structure Alike (u : Int) (ids : String → Prop) (s t : Servers) : Prop where
  rate : s.redis.keys (keyRateLimit u) = t.redis.keys (keyRateLimit u)
  dedup : ∀ k, ids k → (s.redis.keys (keyDedup k)).map Entry.deadline =
    (t.redis.keys (keyDedup k)).map Entry.deadline
  ban : ∀ server, (s.caches server).ban.entries (banKey u) = (t.caches server).ban.entries (banKey u)

/- Whether a key is found depends on its deadline, not on its value. -/
theorem found_congr {r q : Redis} {key : String} (now : Nat)
    (same : (r.keys key).map Entry.deadline = (q.keys key).map Entry.deadline) :
    (r.get now key).isSome = (q.get now key).isSome := by
  unfold Redis.get Redis.find
  cases hr : r.keys key with
  | none =>
    cases hq : q.keys key with
    | none => rfl
    | some e => simp [hr, hq] at same
  | some d =>
    cases hq : q.keys key with
    | none => simp [hr, hq] at same
    | some e =>
      have deadline : d.deadline = e.deadline := by simpa [hr, hq] using same
      have live : d.live now = e.live now := by simp only [Entry.live, deadline]
      simp only [Option.filter, live]
      split <;> rfl

/-- The user's calls carry the ids, or none; nobody else's do. -/
def Keeps (u : Int) (ids : String → Prop) (c : Call) : Prop :=
  Clean c ∧ (c.uid = u → c.req.clientMsgID = "" ∨ ids c.req.clientMsgID) ∧
    (c.uid ≠ u → ¬ ids c.req.clientMsgID)

section Unwind

variable {cfg : Config} {avail : ChannelType → Bool} {u : Int} {ids : String → Prop}

theorem stranger_alike (steady : ∀ now ct, cfg.isAvailable now ct = some (avail ct)) {s t : Servers}
    {c : Call} (sound : Sound avail s) (alike : Alike u ids s t) (keeps : Keeps u ids c)
    (unrefused : Unrefused s c) (stranger : c.uid ≠ u) :
    Sound avail (sendMsg cfg s c).2 ∧ Alike u ids (sendMsg cfg s c).2 t := by
  refine ⟨sendMsg_sound steady sound keeps.1 unrefused, ?_, ?_, ?_⟩
  · rw [sendMsg_rate_ne sound keeps.1 unrefused (Ne.symm stranger)]
    exact alike.rate
  · intro k mine
    have other : c.req.clientMsgID ≠ k := fun e => keeps.2.2 stranger (e ▸ mine)
    rw [sendMsg_other_record cfg s c other]
    exact alike.dedup k mine
  · intro server
    rw [sendMsg_caches sound keeps.1 unrefused]
    by_cases hs : server = c.server
    · subst hs
      rw [Function.update_self, precheck_ban_ne (by simpa using Ne.symm stranger)]
      exact alike.ban c.server
    · rw [Function.update_of_ne hs]
      exact alike.ban server

theorem own_alike (steady : ∀ now ct, cfg.isAvailable now ct = some (avail ct)) {s t : Servers}
    {c : Call} (soundS : Sound avail s) (soundT : Sound avail t) (alike : Alike u ids s t)
    (emptyId : ¬ ids "") (keeps : Keeps u ids c) (unrefusedS : Unrefused s c) (unrefusedT : Unrefused t c)
    (own : c.uid = u) :
    (sendMsg cfg s c).1.kind = (sendMsg cfg t c).1.kind ∧
      Alike u ids (sendMsg cfg s c).2 (sendMsg cfg t c).2 := by
  have clean := keeps.1
  have sameBan : (s.caches c.server).ban.entries (banKey c.uid) =
      (t.caches c.server).ban.entries (banKey c.uid) := own.symm ▸ alike.ban c.server
  have sameAvail : (checkAvailCached cfg (s.caches c.server).avail c.now c.req.channelType).1 =
      (checkAvailCached cfg (t.caches c.server).avail c.now c.req.channelType).1 :=
    ((soundS.steady c.server).check steady c.req.channelType).1.trans
      ((soundT.steady c.server).check steady c.req.channelType).1.symm
  have verdict := precheck_congr sameBan sameAvail
  have found : (s.redis.get c.now (keyDedup c.req.clientMsgID)).isSome =
      (t.redis.get c.now (keyDedup c.req.clientMsgID)).isSome := by
    rcases keeps.2.1 own with empty | mine
    · rw [empty, Redis.get_absent _ soundS.emptyFree, Redis.get_absent _ soundT.emptyFree]
    · exact found_congr c.now (alike.dedup _ mine)
  have rate : s.redis.keys (keyRateLimit c.uid) = t.redis.keys (keyRateLimit c.uid) :=
    own.symm ▸ alike.rate
  refine ⟨?_, ?_, ?_, ?_⟩
  · have count : rateCount s.redis c.now c.uid = rateCount t.redis c.now c.uid := by
      simp only [rateCount, Redis.get_congr c.now rate]
    rw [sendMsg_kind soundS clean unrefusedS, sendMsg_kind soundT clean unrefusedT, verdict.1, found, count]
  · rw [← own, sendMsg_rate soundS clean unrefusedS, sendMsg_rate soundT clean unrefusedT, verdict.1, found,
      Redis.find_congr c.now rate, rate]
  · intro k mine
    by_cases id : c.req.clientMsgID = k
    · subst id
      have nonempty : c.req.clientMsgID ≠ "" := fun e => emptyId (e ▸ mine)
      rw [sendMsg_deadline soundS clean unrefusedS nonempty, sendMsg_deadline soundT clean unrefusedT nonempty,
        verdict.1, found, alike.dedup _ mine]
    · rw [sendMsg_other_record cfg s c id, sendMsg_other_record cfg t c id]
      exact alike.dedup k mine
  · intro server
    rw [sendMsg_caches soundS clean unrefusedS, sendMsg_caches soundT clean unrefusedT]
    by_cases hs : server = c.server
    · subst hs
      rw [Function.update_self, Function.update_self, ← own]
      exact verdict.2
    · rw [Function.update_of_ne hs, Function.update_of_ne hs]
      exact alike.ban server

theorem unwinding (steady : ∀ now ct, cfg.isAvailable now ct = some (avail ct)) (emptyId : ¬ ids "") :
    Unwinding (sendMsg cfg) (fun c => decide (c.uid = u)) Outcome.kind (fun s c => Keeps u ids c ∧ Unrefused s c)
      (fun s t => Sound avail s ∧ Sound avail t ∧ Alike u ids s t) where
  symm := by
    rintro s t ⟨soundS, soundT, alike⟩
    exact ⟨soundT, soundS, alike.rate.symm, fun k mine => (alike.dedup k mine).symm,
      fun server => (alike.ban server).symm⟩
  own := by
    intro s t c related left right mine
    have own : c.uid = u := by simpa using mine
    obtain ⟨soundS, soundT, alike⟩ := related
    have result := own_alike steady soundS soundT alike emptyId left.1 left.2 right.2 own
    exact ⟨result.1, sendMsg_sound steady soundS left.1.1 left.2, sendMsg_sound steady soundT left.1.1 right.2,
      result.2⟩
  stranger := by
    intro s t c related left other
    have stranger : c.uid ≠ u := by simpa using other
    obtain ⟨soundS, soundT, alike⟩ := related
    have result := stranger_alike steady soundS alike left.1 left.2 stranger
    exact ⟨result.1, soundT, result.2⟩

end Unwind

/-- No Redis errors, and nobody else uses a client id that the user uses. -/
structure Apart (u : Int) (calls : List Call) : Prop where
  clean : ∀ c ∈ calls, Clean c
  ids : ∀ c ∈ calls, ∀ d ∈ calls, c.uid ≠ u → d.uid = u →
    c.req.clientMsgID = d.req.clientMsgID → c.req.clientMsgID = ""

def ownIds (u : Int) (calls : List Call) (k : String) : Prop :=
  k ≠ "" ∧ ∃ d ∈ calls, d.uid = u ∧ d.req.clientMsgID = k

theorem Apart.keeps {u : Int} {as bs : List Call} (apart : Apart u (as ++ bs))
    (same : as.filter (fun c => decide (c.uid = u)) = bs.filter (fun c => decide (c.uid = u))) :
    ∀ c ∈ as ++ bs, Keeps u (ownIds u as) c := by
  intro c mem
  refine ⟨apart.clean c mem, ?_, ?_⟩
  · intro own
    have here : c ∈ as := by
      rcases List.mem_append.mp mem with inA | inB
      · exact inA
      · have filtered : c ∈ as.filter (fun c => decide (c.uid = u)) := by
          rw [same]
          simp [inB, own]
        exact List.mem_of_mem_filter filtered
    by_cases empty : c.req.clientMsgID = ""
    · exact Or.inl empty
    · exact Or.inr ⟨empty, c, here, own, rfl⟩
  · rintro stranger ⟨nonempty, d, hd, own, id⟩
    exact nonempty (apart.ids c mem d (by simp [hd]) stranger own id.symm)

theorem Fresh.sound {s : Servers} (fresh : Fresh s) {avail : ChannelType → Bool}
    (cached : ∀ server, SteadyCache avail (s.caches server).avail) : Sound avail s where
  counting := fresh.start.alloc.inv fresh.start.spare
  valid := (start_covered fresh.unrecorded (fun _ => True)).1
  emptyFree := fresh.unrecorded ""
  steady := cached

/- A call of the run with a client id of the user's is a call of the user's. -/
theorem Apart.own {u : Int} {calls : List Call} (apart : Apart u calls) {c d : Call} (hc : c ∈ calls)
    (hd : d ∈ calls) (own : c.uid = u) (nonempty : c.req.clientMsgID ≠ "")
    (same : d.req.clientMsgID = c.req.clientMsgID) : d.uid = u := by
  by_contra stranger
  exact nonempty (same ▸ apart.ids d hd c hc stranger own same)

end GameIM.Service
