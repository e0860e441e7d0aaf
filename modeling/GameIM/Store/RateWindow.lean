import GameIM.Lib.Machine
import GameIM.Lib.Unwinding
import GameIM.Lib.Window
import GameIM.Store.Redis

/-! The rate limit over whole runs. Both scripts count on the user's rate key, whose life of
one second is a window of the ledger that a run keeps beside Redis. -/
namespace GameIM.Store.RateWindow
open GameIM.Lib

structure State where
  now : Nat
  redis : Redis
  -- not read by the code
  ledgers : Int → Ledger

inductive Action where
  | dedupAndRateCheck (clientMsgID : String) (uid seqHint : Int)
  | checkRateLimit (uid : Int)
  | tick (ms : Nat)
  deriving DecidableEq, Repr

def State.rateKey (s : State) (uid : Int) : Option Entry := s.redis.find s.now (keyRateLimit uid)

/- A call that was no duplicate: it has started the key if there was none. -/
def State.counted (s : State) (uid : Int) (ok : Bool) (redis : Redis) : State :=
  let g := s.ledgers uid
  let g := if (s.rateKey uid).isNone then g.openWindow s.now else g
  { s with
    redis := redis
    ledgers := Function.update s.ledgers uid (if ok then g.letThrough s.now else g) }

/- The state after a script: a duplicate and a script that failed are not counted. -/
def State.scripted (s : State) (uid : Int) (answer : Option DedupRateResult) (redis : Redis) : State :=
  match answer with
  | some ⟨false, _, ok⟩ => s.counted uid ok redis
  | _ => { s with redis := redis }

/- One call with the caller and the answer, if it is no error; CheckRateLimit knows no
duplicates. -/
def perform (limit : Int) (s : State) : Action → Option (Int × Option DedupRateResult) × State
  | .dedupAndRateCheck clientMsgID uid seqHint =>
    let res := dedupAndRateCheck s.redis s.now clientMsgID uid limit seqHint
    (some (uid, res.1), s.scripted uid res.1 res.2)
  | .checkRateLimit uid =>
    let res := checkRateLimit s.redis s.now uid limit
    let answer := res.1.map fun ok => ⟨false, 0, ok⟩
    (some (uid, answer), s.scripted uid answer res.2)
  | .tick ms => (none, { s with now := s.now + ms })

def step (limit : Int) (s : State) (a : Action) : Option State := some (perform limit s a).2

/- No rate key is alive, no window has been opened, and the records of ids are numbers that a
script can have written. -/
structure Start (s : State) : Prop where
  idle : ∀ uid, s.rateKey uid = none
  ledgers : ∀ uid, s.ledgers uid = Ledger.empty
  records : ∀ k e, s.redis.keys (keyDedup k) = some e → 0 ≤ e.val

/- The key, once started, carries the deadline of the last window and has counted at least
what that window let through. -/
def Matches (s : State) (uid : Int) : Prop :=
  match (s.ledgers uid).opened.getLast? with
  | none => s.rateKey uid = none
  | some b => ∃ v, s.redis.keys (keyRateLimit uid) = some ⟨v, some (b + 1000)⟩ ∧ 1 ≤ v ∧
      ((s.ledgers uid).used ((s.ledgers uid).opened.length - 1) : Int) ≤ v

structure Tracked (limit : Int) (s : State) (uid : Int) : Prop where
  sound : (s.ledgers uid).Sound 1000 limit.toNat s.now
  key : Matches s uid

structure Inv (limit : Int) (s : State) : Prop where
  tracked : ∀ uid, Tracked limit s uid
  records : ∀ k e, s.redis.keys (keyDedup k) = some e → 0 ≤ e.val

section Key

variable {limit : Int} {s : State} {uid : Int}

theorem find_none_of_deadline {r : Redis} {now d : Nat} {key : String} {v : Int}
    (held : r.keys key = some ⟨v, some d⟩) : r.find now key = none ↔ d ≤ now := by
  simp [Redis.find, held, Option.filter, Entry.live]

theorem find_none_later {r : Redis} {now moment : Nat} {key : String} (idle : r.find now key = none)
    (le : now ≤ moment) : r.find moment key = none := by
  unfold Redis.find at idle ⊢
  rw [Option.filter_eq_none_iff] at idle ⊢
  intro e held live
  refine idle e held ?_
  unfold Entry.live at live ⊢
  split
  · rfl
  · rename_i d deadline
    simp only [deadline, decide_eq_true_eq] at live ⊢
    omega

theorem Tracked.windows_ended (h : Tracked limit s uid) (idle : s.rateKey uid = none) :
    ∀ b ∈ (s.ledgers uid).opened, b + 1000 ≤ s.now := by
  intro b hb
  have key := h.key
  unfold Matches at key
  cases last : (s.ledgers uid).opened.getLast? with
  | none =>
    rw [List.getLast?_eq_none_iff.mp last] at hb
    contradiction
  | some c =>
    simp only [last] at key
    obtain ⟨v, held, _⟩ := key
    have ended : c + 1000 ≤ s.now := (find_none_of_deadline held).mp idle
    obtain ⟨before, split⟩ := List.getLast?_eq_some_iff.mp last
    have spaced := h.sound.spaced
    rw [split] at hb spaced
    rcases List.mem_append.mp hb with old | new
    · have apart := (List.pairwise_append.mp spaced).2.2 b old c (by simp)
      omega
    · rw [List.mem_singleton.mp new]
      exact ended

theorem Tracked.running (h : Tracked limit s uid) {e : Entry} (live : s.rateKey uid = some e) :
    ∃ b, (s.ledgers uid).opened.getLast? = some b ∧ e.deadline = some (b + 1000) ∧
      s.now < b + 1000 ∧ 1 ≤ e.val ∧
      ((s.ledgers uid).used ((s.ledgers uid).opened.length - 1) : Int) ≤ e.val := by
  have key := h.key
  unfold Matches at key
  cases last : (s.ledgers uid).opened.getLast? with
  | none =>
    simp only [last] at key
    rw [key] at live
    contradiction
  | some b =>
    simp only [last] at key
    obtain ⟨v, held, positive, most⟩ := key
    obtain ⟨same, alive⟩ := Redis.find_live live
    rw [held] at same
    cases Option.some.inj same
    exact ⟨b, rfl, rfl, by simpa [Entry.live] using alive, positive, most⟩

theorem rateCount_eq (s : State) (uid : Int) :
    rateCount s.redis s.now uid = ((s.rateKey uid).map Entry.val).getD 0 := rfl

theorem rateCount_idle (idle : s.rateKey uid = none) : rateCount s.redis s.now uid = 0 := by
  rw [rateCount_eq, idle]
  rfl

theorem counted_ledger (s : State) (uid : Int) (ok : Bool) (redis : Redis) :
    (s.counted uid ok redis).ledgers uid =
      (let g := if (s.rateKey uid).isNone then (s.ledgers uid).openWindow s.now else s.ledgers uid
       if ok then g.letThrough s.now else g) := by
  simp [State.counted]

theorem Tracked.of_running {t : State} {g : Ledger} {b : Nat} {v : Int} {ok : Bool}
    (sound : g.Sound 1000 limit.toNat t.now) (last : g.opened.getLast? = some b)
    (running : t.now < b + 1000) (most : (g.used (g.opened.length - 1) : Int) ≤ v) (positive : 0 ≤ v)
    (verdict : ok = true ↔ v + 1 ≤ limit)
    (ledger : t.ledgers uid = if ok then g.letThrough t.now else g)
    (held : t.redis.keys (keyRateLimit uid) = some ⟨v + 1, some (b + 1000)⟩) : Tracked limit t uid := by
  cases ok with
  | true =>
    simp only [if_true] at ledger
    have below : v + 1 ≤ limit := verdict.mp rfl
    have room : g.used (g.opened.length - 1) < limit.toNat := by omega
    constructor
    · rw [ledger]
      exact sound.letThrough last running room
    · have used : (g.letThrough t.now).used (g.opened.length - 1) = g.used (g.opened.length - 1) + 1 := by
        rw [Ledger.used_letThrough, if_pos rfl]
      unfold Matches
      rw [ledger]
      simp only [Ledger.letThrough] at used ⊢
      simp only [last, used]
      exact ⟨v + 1, held, by omega, by push_cast; omega⟩
  | false =>
    simp only [Bool.false_eq_true, if_false] at ledger
    constructor
    · rw [ledger]
      exact sound
    · unfold Matches
      rw [ledger]
      simp only [last]
      exact ⟨v + 1, held, by omega, by omega⟩

theorem Tracked.counted (h : Tracked limit s uid) {redis : Redis} {ok : Bool}
    (bumped : redis.keys (keyRateLimit uid) = some (rateBumped (s.rateKey uid) s.now rateLimitTTL))
    (verdict : ok = true ↔ rateCount s.redis s.now uid + 1 ≤ limit) :
    Tracked limit (s.counted uid ok redis) uid := by
  have ledger := counted_ledger s uid ok redis
  rw [rateCount_eq] at verdict
  cases key : s.rateKey uid with
  | none =>
    simp only [key, Option.isNone_none, if_true] at ledger
    simp only [key, Option.map_none, Option.getD_none] at verdict
    simp only [key, rateBumped] at bumped
    have sound := h.sound.openWindow (h.windows_ended key)
    have fresh : ((s.ledgers uid).openWindow s.now).used
        (((s.ledgers uid).openWindow s.now).opened.length - 1) = 0 := by
      simpa using h.sound.used_new
    have last := Ledger.openWindow_last (s.ledgers uid) s.now
    have most : ((((s.ledgers uid).openWindow s.now).used
        (((s.ledgers uid).openWindow s.now).opened.length - 1) : Nat) : Int) ≤ 0 := by
      rw [fresh]
      exact Int.le_refl 0
    have running : s.now < s.now + 1000 := by omega
    exact Tracked.of_running (t := s.counted uid ok redis) sound last running most (Int.le_refl 0)
      verdict ledger bumped
  | some e =>
    obtain ⟨b, last, deadline, running, positive, most⟩ := h.running key
    simp only [key, Option.isNone_some, Bool.false_eq_true, if_false] at ledger
    simp only [key, Option.map_some, Option.getD_some] at verdict
    have later : e.val + 1 ≠ 1 := by omega
    simp only [key, rateBumped, if_neg later, deadline] at bumped
    exact Tracked.of_running (t := s.counted uid ok redis) h.sound last running most (by omega) verdict
      ledger bumped

theorem Tracked.frame {t : State} (h : Tracked limit s uid) (clock : s.now ≤ t.now)
    (ledger : t.ledgers uid = s.ledgers uid)
    (same : t.redis.keys (keyRateLimit uid) = s.redis.keys (keyRateLimit uid)) : Tracked limit t uid := by
  constructor
  · rw [ledger]
    exact h.sound.later clock
  · have key := h.key
    unfold Matches at key ⊢
    rw [ledger, same]
    cases last : (s.ledgers uid).opened.getLast? with
    | none =>
      simp only [last] at key ⊢
      unfold State.rateKey at key ⊢
      rw [Redis.find_congr t.now same]
      exact find_none_later key clock
    | some b =>
      simp only [last] at key ⊢
      exact key

end Key

section Run

variable {limit : Int} {s : State}

theorem counted_tracked (h : ∀ uid, Tracked limit s uid) {uid : Int} {redis : Redis} {ok : Bool}
    (bumped : redis.keys (keyRateLimit uid) = some (rateBumped (s.rateKey uid) s.now rateLimitTTL))
    (others : ∀ u, u ≠ uid → redis.keys (keyRateLimit u) = s.redis.keys (keyRateLimit u))
    (verdict : ok = true ↔ rateCount s.redis s.now uid + 1 ≤ limit) :
    ∀ u, Tracked limit (s.counted uid ok redis) u := by
  intro u
  by_cases own : u = uid
  · rw [own]
    exact (h uid).counted bumped verdict
  · have ledger : (s.counted uid ok redis).ledgers u = s.ledgers u := by
      simp [State.counted, own]
    exact (h u).frame (Nat.le_refl _) ledger (others u own)

theorem Inv.record (inv : Inv limit s) {k : String} {v : Int}
    (found : s.redis.get s.now (keyDedup k) = some v) : 0 ≤ v := by
  obtain ⟨e, live, rfl⟩ := Option.map_eq_some_iff.mp found
  exact inv.records k e (Redis.find_live live).1

theorem Inv.scripted (inv : Inv limit s) {uid : Int} {redis : Redis} {answer : Option DedupRateResult}
    (records : ∀ k e, redis.keys (keyDedup k) = some e → 0 ≤ e.val)
    (others : ∀ u, u ≠ uid → redis.keys (keyRateLimit u) = s.redis.keys (keyRateLimit u))
    (full : Overflows (rateCount s.redis s.now uid) 1 →
      answer = none ∧ redis.keys (keyRateLimit uid) = s.redis.keys (keyRateLimit uid))
    (room : ¬ Overflows (rateCount s.redis s.now uid) 1 →
      answer = some ⟨false, 0, decide (rateCount s.redis s.now uid + 1 ≤ limit)⟩ ∧
        redis.keys (keyRateLimit uid) = some (rateBumped (s.rateKey uid) s.now rateLimitTTL)) :
    Inv limit (s.scripted uid answer redis) := by
  by_cases ended : Overflows (rateCount s.redis s.now uid) 1
  · obtain ⟨rfl, same⟩ := full ended
    refine ⟨?_, records⟩
    intro u
    refine (inv.tracked u).frame (Nat.le_refl _) rfl ?_
    by_cases own : u = uid
    · exact own ▸ same
    · exact others u own
  · obtain ⟨rfl, bumped⟩ := room ended
    exact ⟨counted_tracked inv.tracked bumped others decide_eq_true_iff, records⟩

theorem perform_inv (inv : Inv limit s) (a : Action) : Inv limit (perform limit s a).2 := by
  cases a with
  | dedupAndRateCheck k uid hint =>
    cases found : s.redis.get s.now (keyDedup k) with
    | some v =>
      have known := check_hit s.redis s.now k uid limit hint found (inv.record found)
      simp only [perform, known]
      exact ⟨inv.tracked, inv.records⟩
    | none =>
      refine inv.scripted (fun id e held => check_records inv.records id e held) ?_ ?_ ?_
      · intro u other
        exact check_keys_ne s.redis s.now k uid limit hint (by simp) (by simpa using other)
      · intro full
        simp only [check_refused s.redis s.now k uid limit hint found full, and_self]
      · intro room
        refine ⟨?_, check_miss_rate s.redis s.now k uid limit hint found room⟩
        rw [check_miss s.redis s.now k uid limit hint found room]
  | checkRateLimit uid =>
    refine inv.scripted ?_ ?_ ?_ ?_
    · intro k e held
      refine inv.records k e ?_
      rwa [← countRate_keys_ne s.redis s.now rateLimitTTL (keyDedup_ne_keyRateLimit k uid)]
    · intro u other
      exact countRate_keys_ne s.redis s.now rateLimitTTL (by simpa using other)
    · intro full
      simp only [checkRateLimit, rateLimitScript, countRate_refused rateLimitTTL full, Option.map_none, and_self]
    · intro room
      refine ⟨?_, countRate_keys_same rateLimitTTL room⟩
      simp only [checkRateLimit, rateLimitScript, countRate_value rateLimitTTL room, Option.map_some]
      rfl
  | tick ms =>
    constructor
    · intro uid
      exact (inv.tracked uid).frame (Nat.le_add_right _ _) rfl rfl
    · exact inv.records

theorem Start.inv (start : Start s) : Inv limit s := by
  constructor
  · intro uid
    constructor
    · rw [start.ledgers uid]
      exact Ledger.empty_sound
    · unfold Matches
      rw [start.ledgers uid]
      exact start.idle uid
  · exact start.records

theorem run_inv {t : State} {as : List Action} (start : Start s) (taken : run (step limit) s as = some t) :
    Inv limit t := by
  refine run_invariant (Inv limit) ?_ start.inv taken
  intro u a v inv hv
  cases Option.some.inj hv
  exact perform_inv inv a

end Run

def seenBy (uid : Int) (o : Option (Int × Option DedupRateResult)) : Option (Option DedupRateResult) :=
  o.bind fun r => if r.1 = uid then some r.2 else none

/-- The answers to the calls of a user. -/
def answers (limit uid : Int) (s : State) (as : List Action) : List (Option DedupRateResult) :=
  (outputs (perform limit) s as).filterMap (seenBy uid ·.2)

def concerns (uid : Int) (ids : List String) : Action → Bool
  | .dedupAndRateCheck k u _ => u = uid ∨ k ∈ ids
  | .checkRateLimit u => u = uid
  | .tick _ => true

def OwnIds (uid : Int) (ids : List String) (a : Action) : Prop :=
  ∀ k hint, a = .dedupAndRateCheck k uid hint → k ∈ ids

def State.Room (s : State) (uid : Int) : Prop := ¬ Overflows (rateCount s.redis s.now uid) 1

structure Alike (uid : Int) (ids : List String) (s t : State) : Prop where
  now : s.now = t.now
  rate : s.redis.keys (keyRateLimit uid) = t.redis.keys (keyRateLimit uid)
  dedup : ∀ k ∈ ids, s.redis.keys (keyDedup k) = t.redis.keys (keyDedup k)

section Others

variable {limit uid : Int} {ids : List String} {s t : State}

theorem scripted_fields (s : State) (uid : Int) (answer : Option DedupRateResult) (redis : Redis) :
    (s.scripted uid answer redis).now = s.now ∧ (s.scripted uid answer redis).redis = redis := by
  unfold State.scripted
  split
  · exact ⟨rfl, rfl⟩
  · exact ⟨rfl, rfl⟩

theorem perform_check (limit : Int) (s : State) (k : String) (uid hint : Int) :
    (perform limit s (.dedupAndRateCheck k uid hint)).2.now = s.now ∧
      (perform limit s (.dedupAndRateCheck k uid hint)).2.redis =
        (dedupAndRateCheck s.redis s.now k uid limit hint).2 :=
  scripted_fields s uid _ _

theorem perform_limit (limit : Int) (s : State) (uid : Int) :
    (perform limit s (.checkRateLimit uid)).2.now = s.now ∧
      (perform limit s (.checkRateLimit uid)).2.redis =
        (countRate s.redis s.now (keyRateLimit uid) rateLimitTTL).2 :=
  scripted_fields s uid _ _

theorem countRate_congr {r q : Redis} {key : String} (now ttl : Nat) (same : r.keys key = q.keys key) :
    (countRate r now key ttl).1 = (countRate q now key ttl).1 ∧
      (countRate r now key ttl).2.keys key = (countRate q now key ttl).2.keys key := by
  have value := Redis.get_congr now same
  by_cases full : Overflows ((q.get now key).getD 0) 1
  · rw [countRate_refused ttl full, countRate_refused ttl (value ▸ full)]
    exact ⟨rfl, same⟩
  · have room : ¬ Overflows ((r.get now key).getD 0) 1 := value ▸ full
    constructor
    · rw [countRate_value ttl full, countRate_value ttl room, value]
    · rw [countRate_keys_same ttl full, countRate_keys_same ttl room, Redis.find_congr now same]

theorem check_congr {r q : Redis} {k : String} {u : Int} (now : Nat) (limit hint : Int)
    (dedup : r.keys (keyDedup k) = q.keys (keyDedup k))
    (rate : r.keys (keyRateLimit u) = q.keys (keyRateLimit u)) :
    (dedupAndRateCheck r now k u limit hint).1 = (dedupAndRateCheck q now k u limit hint).1 := by
  have record := Redis.get_congr now dedup
  have counter : rateCount r now u = rateCount q now u := by
    simp only [rateCount, Redis.get_congr now rate]
  cases found : q.get now (keyDedup k) with
  | some v => simp only [dedupAndRateCheck, dedupRateScript, record, found]
  | none =>
    have miss := record.trans found
    by_cases full : Overflows (rateCount q now u) 1
    · rw [check_refused r now k u limit hint miss (counter ▸ full), check_refused q now k u limit hint found full]
    · rw [check_miss r now k u limit hint miss (counter ▸ full), check_miss q now k u limit hint found full,
        counter]

/- What a call that is not refused leaves under the id does not depend on the counter. -/
theorem check_dedup_congr {r q : Redis} {k : String} {u : Int} (now : Nat) (limit hint : Int)
    (dedup : r.keys (keyDedup k) = q.keys (keyDedup k)) (roomR : ¬ Overflows (rateCount r now u) 1)
    (roomQ : ¬ Overflows (rateCount q now u) 1) :
    (dedupAndRateCheck r now k u limit hint).2.keys (keyDedup k) =
      (dedupAndRateCheck q now k u limit hint).2.keys (keyDedup k) := by
  have record := Redis.get_congr now dedup
  cases found : q.get now (keyDedup k) with
  | some v =>
    rw [check_found r now k u limit hint (record.trans found), check_found q now k u limit hint found]
    exact dedup
  | none =>
    rw [check_miss_dedup r now k u limit hint (record.trans found) roomR,
      check_miss_dedup q now k u limit hint found roomQ, dedup]

theorem check_rate_congr {r q : Redis} {k : String} {u : Int} (now : Nat) (limit hint : Int)
    (dedup : r.keys (keyDedup k) = q.keys (keyDedup k)) (rate : r.keys (keyRateLimit u) = q.keys (keyRateLimit u))
    (roomR : ¬ Overflows (rateCount r now u) 1) (roomQ : ¬ Overflows (rateCount q now u) 1) :
    (dedupAndRateCheck r now k u limit hint).2.keys (keyRateLimit u) =
      (dedupAndRateCheck q now k u limit hint).2.keys (keyRateLimit u) := by
  have record := Redis.get_congr now dedup
  cases found : q.get now (keyDedup k) with
  | some v =>
    rw [check_found r now k u limit hint (record.trans found), check_found q now k u limit hint found]
    exact rate
  | none =>
    rw [check_miss_rate r now k u limit hint (record.trans found) roomR,
      check_miss_rate q now k u limit hint found roomQ, Redis.find_congr now rate]

theorem check_seen (alike : Alike uid ids s t) {k : String} (known : k ∈ ids) {u hint : Int} :
    seenBy uid (perform limit s (.dedupAndRateCheck k u hint)).1 =
      seenBy uid (perform limit t (.dedupAndRateCheck k u hint)).1 := by
  by_cases own : u = uid
  · subst own
    simp only [perform, alike.now, check_congr t.now limit hint (alike.dedup k known) alike.rate]
  · simp [perform, seenBy, own]

theorem check_alike (alike : Alike uid ids s t) {k : String} (known : k ∈ ids) {u hint : Int}
    (roomS : s.Room u) (roomT : t.Room u) :
    Alike uid ids (perform limit s (.dedupAndRateCheck k u hint)).2
      (perform limit t (.dedupAndRateCheck k u hint)).2 := by
  have left := perform_check limit s k u hint
  have right := perform_check limit t k u hint
  unfold State.Room at roomS
  rw [alike.now] at left roomS
  constructor
  · rw [left.1, right.1]
  · rw [left.2, right.2]
    by_cases own : u = uid
    · subst own
      exact check_rate_congr t.now limit hint (alike.dedup k known) alike.rate roomS roomT
    · have rate : keyRateLimit uid ≠ keyRateLimit u := by simpa using Ne.symm own
      rw [check_keys_ne _ _ _ _ _ _ (by simp) rate, check_keys_ne _ _ _ _ _ _ (by simp) rate]
      exact alike.rate
  · intro id listed
    rw [left.2, right.2]
    by_cases same : id = k
    · subst same
      exact check_dedup_congr t.now limit hint (alike.dedup id known) roomS roomT
    · have dedup : keyDedup id ≠ keyDedup k := by simpa using same
      rw [check_keys_ne _ _ _ _ _ _ dedup (by simp), check_keys_ne _ _ _ _ _ _ dedup (by simp)]
      exact alike.dedup id listed

theorem limit_alike (alike : Alike uid ids s t) :
    seenBy uid (perform limit s (.checkRateLimit uid)).1 =
        seenBy uid (perform limit t (.checkRateLimit uid)).1 ∧
      Alike uid ids (perform limit s (.checkRateLimit uid)).2
        (perform limit t (.checkRateLimit uid)).2 := by
  have left := perform_limit limit s uid
  have right := perform_limit limit t uid
  rw [alike.now] at left
  obtain ⟨value, key⟩ := countRate_congr t.now rateLimitTTL alike.rate
  constructor
  · simp only [perform, checkRateLimit, rateLimitScript, alike.now, value]
  · constructor
    · rw [left.1, right.1]
    · rw [left.2, right.2, key]
    · intro id listed
      rw [left.2, right.2, countRate_keys_ne _ _ _ (keyDedup_ne_keyRateLimit id uid),
        countRate_keys_ne _ _ _ (keyDedup_ne_keyRateLimit id uid)]
      exact alike.dedup id listed

theorem own_alike (alike : Alike uid ids s t) {a : Action} (allowed : OwnIds uid ids a)
    (roomS : ∀ u, s.Room u) (roomT : ∀ u, t.Room u) (mine : concerns uid ids a = true) :
    seenBy uid (perform limit s a).1 = seenBy uid (perform limit t a).1 ∧
      Alike uid ids (perform limit s a).2 (perform limit t a).2 := by
  cases a with
  | dedupAndRateCheck k u hint =>
    have known : k ∈ ids := by
      have either : u = uid ∨ k ∈ ids := by simpa [concerns] using mine
      rcases either with own | shared
      · exact allowed k hint (by rw [own])
      · exact shared
    exact ⟨check_seen alike known, check_alike alike known (roomS u) (roomT u)⟩
  | checkRateLimit u =>
    have own : u = uid := by simpa [concerns] using mine
    subst own
    exact limit_alike alike
  | tick ms =>
    refine ⟨rfl, ?_, alike.rate, alike.dedup⟩
    simp only [perform, alike.now]

theorem stranger_alike (alike : Alike uid ids s t) {a : Action} (other : concerns uid ids a = false) :
    Alike uid ids (perform limit s a).2 t := by
  cases a with
  | dedupAndRateCheck k u hint =>
    have foreign : u ≠ uid ∧ k ∉ ids := by simpa [concerns] using other
    have after := perform_check limit s k u hint
    constructor
    · rw [after.1]
      exact alike.now
    · rw [after.2, check_keys_ne _ _ _ _ _ _ (by simp) (by simpa using Ne.symm foreign.1)]
      exact alike.rate
    · intro id known
      have differs : id ≠ k := fun same => foreign.2 (same ▸ known)
      rw [after.2, check_keys_ne _ _ _ _ _ _ (by simpa using differs) (by simp)]
      exact alike.dedup id known
  | checkRateLimit u =>
    have foreign : u ≠ uid := by simpa [concerns] using other
    have after := perform_limit limit s u
    constructor
    · rw [after.1]
      exact alike.now
    · rw [after.2, ← alike.rate]
      exact countRate_keys_ne _ _ _ (by simpa using Ne.symm foreign)
    · intro id known
      rw [after.2, ← alike.dedup id known]
      exact countRate_keys_ne _ _ _ (by simp)
  | tick ms => simp [concerns] at other

theorem unwinding (limit uid : Int) (ids : List String) :
    Unwinding (perform limit) (concerns uid ids) (seenBy uid) (fun s a => OwnIds uid ids a ∧ ∀ u, s.Room u)
      (Alike uid ids) where
  symm := fun _ _ alike => ⟨alike.now.symm, alike.rate.symm, fun k known => (alike.dedup k known).symm⟩
  own := fun _ _ _ alike left right mine => own_alike alike left.1 left.2 right.2 mine
  stranger := fun _ _ _ alike _ other => stranger_alike alike other

theorem stranger_unseen (limit : Int) (s : State) {a : Action} (other : concerns uid ids a = false) :
    seenBy uid (perform limit s a).1 = none := by
  cases a with
  | dedupAndRateCheck k u hint =>
    have foreign : u ≠ uid ∧ k ∉ ids := by simpa [concerns] using other
    simp [perform, seenBy, foreign.1]
  | checkRateLimit u =>
    have foreign : u ≠ uid := by simpa [concerns] using other
    simp [perform, seenBy, foreign]
  | tick ms => rfl

theorem answers_observed (limit uid : Int) (ids : List String) (s : State) (as : List Action) :
    answers limit uid s as =
      (observed (perform limit) (concerns uid ids) (seenBy uid) s as).filterMap id := by
  induction as generalizing s with
  | nil => rfl
  | cons a rest ih =>
    have tail := ih (perform limit s a).2
    simp only [answers, observed, outputs] at tail ⊢
    cases mine : concerns uid ids a with
    | true => simp only [List.filterMap_cons, List.filter_cons, mine, if_true, List.map_cons, id_eq, tail]
    | false =>
      simp only [List.filterMap_cons, List.filter_cons, mine, stranger_unseen limit s mine,
        Bool.false_eq_true, if_false, tail]

theorem check_rate_cases (r : Redis) (now : Nat) (k : String) (u limit hint : Int) :
    (dedupAndRateCheck r now k u limit hint).2.keys (keyRateLimit u) = r.keys (keyRateLimit u) ∨
      (dedupAndRateCheck r now k u limit hint).2.keys (keyRateLimit u) =
        some (rateBumped (r.find now (keyRateLimit u)) now rateLimitTTL) := by
  cases found : r.get now (keyDedup k) with
  | some v =>
    rw [check_found r now k u limit hint found]
    exact Or.inl rfl
  | none =>
    by_cases full : Overflows (rateCount r now u) 1
    · rw [check_refused r now k u limit hint found full]
      exact Or.inl rfl
    · exact Or.inr (check_miss_rate r now k u limit hint found full)

theorem countRate_cases (r : Redis) (now ttl : Nat) (key : String) :
    (countRate r now key ttl).2.keys key = r.keys key ∨
      (countRate r now key ttl).2.keys key = some (rateBumped (r.find now key) now ttl) := by
  by_cases full : Overflows ((r.get now key).getD 0) 1
  · rw [countRate_refused ttl full]
    exact Or.inl rfl
  · exact Or.inr (countRate_keys_same ttl full)

theorem rateCount_le {r : Redis} {now : Nat} {u : Int} {n : Int} (least : 0 ≤ n)
    (each : ∀ e, r.find now (keyRateLimit u) = some e → e.val ≤ n) : rateCount r now u ≤ n := by
  unfold rateCount Redis.get
  cases found : r.find now (keyRateLimit u) with
  | none => exact least
  | some e => exact each e found

theorem rateCount_bumped {r q : Redis} {now : Nat} {u : Int} {n : Nat} (count : rateCount r now u ≤ n)
    (key : q.keys (keyRateLimit u) = r.keys (keyRateLimit u) ∨
      q.keys (keyRateLimit u) = some (rateBumped (r.find now (keyRateLimit u)) now rateLimitTTL)) :
    rateCount q now u ≤ n + 1 := by
  rcases key with same | bumped
  · have value : rateCount q now u = rateCount r now u := by simp only [rateCount, Redis.get_congr now same]
    omega
  · refine rateCount_le (by omega) ?_
    intro e live
    cases Option.some.inj (bumped.symm.trans (Redis.find_live live).1)
    unfold rateCount Redis.get at count
    unfold rateBumped
    split
    · rename_i old found
      rw [found] at count
      have most : old.val ≤ n := count
      split
      · simp only
        omega
      · simp only
        omega
    · simp only
      omega

theorem perform_count (limit : Int) (s : State) (a : Action) {n : Nat} (count : ∀ u, rateCount s.redis s.now u ≤ n)
    (u : Int) : rateCount (perform limit s a).2.redis (perform limit s a).2.now u ≤ n + 1 := by
  cases a with
  | dedupAndRateCheck k v hint =>
    have after := perform_check limit s k v hint
    rw [after.1, after.2]
    refine rateCount_bumped (count u) ?_
    by_cases own : u = v
    · subst own
      exact check_rate_cases s.redis s.now k u limit hint
    · exact Or.inl (check_keys_ne _ _ _ _ _ _ (by simp) (by simpa using own))
  | checkRateLimit v =>
    have after := perform_limit limit s v
    rw [after.1, after.2]
    refine rateCount_bumped (count u) ?_
    by_cases own : u = v
    · subst own
      exact countRate_cases s.redis s.now rateLimitTTL (keyRateLimit u)
    · exact Or.inl (countRate_keys_ne _ _ _ (by simpa using own))
  | tick ms =>
    refine rateCount_le (by omega) ?_
    intro e later
    have most := count u
    unfold rateCount Redis.get at most
    cases found : s.redis.find s.now (keyRateLimit u) with
    | none =>
      have gone : s.redis.find (s.now + ms) (keyRateLimit u) = none := find_none_later found (by omega)
      cases gone.symm.trans later
    | some d =>
      cases Option.some.inj ((Redis.find_live found).1.symm.trans (Redis.find_live later).1)
      rw [found] at most
      have value : e.val ≤ n := most
      omega

/- No count gets past the number of calls. -/
theorem meets_room {s : State} {as : List Action} {n : Nat} (count : ∀ u, rateCount s.redis s.now u ≤ n)
    (short : n + as.length < 2 ^ 63 - 1) : Meets (proceed (perform limit)) (fun s _ => ∀ u, s.Room u) s as := by
  induction as generalizing s n with
  | nil => trivial
  | cons a rest ih =>
    rw [List.length_cons] at short
    refine ⟨?_, ih (n := n + 1) (fun u => by exact_mod_cast perform_count limit s a count u) (by omega)⟩
    intro u
    have below := count u
    exact @one_room _ (2 ^ 63 - 1) (by omega) (by decide)

theorem answers_alone (limit : Int) (s : State) {as : List Action} (idle : ∀ u, s.rateKey u = none)
    (short : as.length < 2 ^ 63 - 1) (own : ∀ a ∈ as, OwnIds uid ids a) :
    answers limit uid s as = answers limit uid s (as.filter (concerns uid ids)) := by
  have same : Alike uid ids s s := ⟨rfl, rfl, fun _ _ => rfl⟩
  have none : ∀ u, rateCount s.redis s.now u ≤ (0 : Nat) := by
    intro u
    rw [rateCount_idle (idle u)]
    exact le_refl 0
  have allowed : ∀ bs : List Action, bs ⊆ as → bs.length < 2 ^ 63 - 1 →
      Meets (proceed (perform limit)) (fun s a => OwnIds uid ids a ∧ ∀ u, s.Room u) s bs := by
    intro bs part few
    exact (meets_proceed s (fun a mem => own a (part mem))).and (meets_room none (by omega))
  have fewer := List.length_filter_le (concerns uid ids) as
  have seen := (unwinding limit uid ids).same_view same (allowed as (fun _ mem => mem) short)
    (allowed (as.filter (concerns uid ids)) (fun _ mem => List.mem_of_mem_filter mem) (by omega)) (by simp)
  rw [answers_observed limit uid ids s as, answers_observed limit uid ids s (as.filter _), seen]

end Others

section Answers

variable {limit uid : Int} {s : State}

theorem duplicate_unchanged (k : String) (hint : Int) {res : DedupRateResult}
    (answer : (dedupAndRateCheck s.redis s.now k uid limit hint).1 = some res) (duplicate : res.dedupExists = true) :
    (dedupAndRateCheck s.redis s.now k uid limit hint).2 = s.redis := by
  cases found : s.redis.get s.now (keyDedup k) with
  | some v => exact check_found s.redis s.now k uid limit hint found
  | none =>
    by_cases full : Overflows (rateCount s.redis s.now uid) 1
    · rw [check_refused s.redis s.now k uid limit hint found full]
    · rw [check_miss s.redis s.now k uid limit hint found full] at answer
      cases Option.some.inj answer
      contradiction

theorem idle_passes (inv : Inv limit s) (idle : s.rateKey uid = none) (positive : 1 ≤ limit) (k : String)
    (hint : Int) : ∃ res, (dedupAndRateCheck s.redis s.now k uid limit hint).1 = some res ∧
      (res.dedupExists = false → res.rateOK = true) := by
  cases found : s.redis.get s.now (keyDedup k) with
  | some v =>
    rw [check_hit s.redis s.now k uid limit hint found (inv.record found)]
    exact ⟨_, rfl, by simp⟩
  | none =>
    have room : ¬ Overflows (rateCount s.redis s.now uid) 1 := by
      rw [rateCount_idle idle]
      decide
    rw [check_miss s.redis s.now k uid limit hint found room, rateCount_idle idle]
    exact ⟨_, rfl, fun _ => decide_eq_true positive⟩

theorem idle_within (idle : s.rateKey uid = none) (positive : 1 ≤ limit) :
    (checkRateLimit s.redis s.now uid limit).1 = some true := by
  have value : (s.redis.get s.now (keyRateLimit uid)).getD 0 = 0 := rateCount_idle idle
  have room : ¬ Overflows ((s.redis.get s.now (keyRateLimit uid)).getD 0) 1 := by
    rw [value]
    decide
  simp only [checkRateLimit, rateLimitScript, countRate_value rateLimitTTL room, value, Option.map_some]
  exact congrArg some (decide_eq_true positive)

end Answers

/-- The rate limit of a user in any run: the key dies one second after its creation; while it
lives at most the limit is let through, and in any second at most twice as much; a duplicate
changes nothing; without a live key a call is let through; and in a run that no count can
outgrow, the calls of other users with other ids do not show. -/
theorem rate_limited (limit : Int) (s₀ s : State) (as : List Action) (start : Start s₀)
    (taken : run (step limit) s₀ as = some s) (uid : Int) :
    (∀ e, s.rateKey uid = some e → ∃ born, (s.ledgers uid).opened.getLast? = some born ∧
      born ≤ s.now ∧ s.now < born + 1000 ∧ e.deadline = some (born + 1000)) ∧
    (∀ life, (s.ledgers uid).used life ≤ limit.toNat) ∧
    (∀ moment, (s.ledgers uid).between moment (moment + 1000) ≤ 2 * limit.toNat) ∧
    (∀ k hint res, (dedupAndRateCheck s.redis s.now k uid limit hint).1 = some res → res.dedupExists = true →
      (dedupAndRateCheck s.redis s.now k uid limit hint).2 = s.redis) ∧
    (s.rateKey uid = none → 1 ≤ limit →
      (∀ k hint, ∃ res, (dedupAndRateCheck s.redis s.now k uid limit hint).1 = some res ∧
        (res.dedupExists = false → res.rateOK = true)) ∧
      (checkRateLimit s.redis s.now uid limit).1 = some true) ∧
    ∀ ids, (∀ a ∈ as, OwnIds uid ids a) → as.length < 2 ^ 63 - 1 →
      answers limit uid s₀ as = answers limit uid s₀ (as.filter (concerns uid ids)) := by
  have inv := run_inv start taken
  have tracked := inv.tracked uid
  refine ⟨?_, tracked.sound.quota, tracked.sound.between_le, ?_, ?_, ?_⟩
  · intro e live
    obtain ⟨born, last, deadline, running, _⟩ := tracked.running live
    exact ⟨born, last, tracked.sound.past born (List.mem_of_getLast? last), running, deadline⟩
  · intro k hint res answer duplicate
    exact duplicate_unchanged k hint answer duplicate
  · intro idle positive
    exact ⟨idle_passes inv idle positive, idle_within idle positive⟩
  · intro ids own short
    exact answers_alone limit s₀ start.idle short own

def emptyStore : State := ⟨0, ⟨fun _ => none⟩, fun _ => Ledger.empty⟩

theorem emptyStore_start : Start emptyStore where
  idle _ := rfl
  ledgers _ := rfl
  records _ _ held := by simp [emptyStore] at held

/- Two messages, a retry, a third call too many, somebody else's call, and a call at the
moment at which the key is gone. -/
def overLimit : List Action :=
  [.tick 400, .dedupAndRateCheck "a" 7 1, .tick 500, .dedupAndRateCheck "b" 7 2,
    .dedupAndRateCheck "a" 7 3, .checkRateLimit 7, .dedupAndRateCheck "x" 8 4, .tick 500,
    .dedupAndRateCheck "c" 7 5, .checkRateLimit 7]

theorem rate_limited_overLimit : ∃ s, run (step 2) emptyStore overLimit = some s ∧
    s.ledgers 7 = ⟨[400, 1400], [(0, 400), (0, 900), (1, 1400), (1, 1400)]⟩ ∧
    (s.ledgers 7).used 0 ≤ 2 ∧ (s.ledgers 7).between 900 (900 + 1000) ≤ 4 ∧
    answers 2 7 emptyStore overLimit =
      answers 2 7 emptyStore (overLimit.filter (concerns 7 ["a", "b", "c"])) := by
  have view : (run (step 2) emptyStore overLimit).map (fun s => s.ledgers 7) =
      some ⟨[400, 1400], [(0, 400), (0, 900), (1, 1400), (1, 1400)]⟩ := by
    decide +kernel
  obtain ⟨s, taken, ledger⟩ := Option.map_eq_some_iff.mp view
  have limited := rate_limited 2 emptyStore s overLimit emptyStore_start taken 7
  have own : ∀ a ∈ overLimit, OwnIds 7 ["a", "b", "c"] a := by
    intro a ha k hint same
    subst same
    simp only [overLimit, List.mem_cons, Action.dedupAndRateCheck.injEq, reduceCtorEq, List.not_mem_nil,
      false_or, or_false] at ha
    rcases ha with h | h | h | h | h <;> simp [h.1] at h ⊢
  exact ⟨s, taken, ledger, limited.2.1 0, limited.2.2.1 900, limited.2.2.2.2.2 _ own (by decide)⟩

end GameIM.Store.RateWindow
