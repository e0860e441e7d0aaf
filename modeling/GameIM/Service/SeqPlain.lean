import GameIM.Service.SeqSingle
import GameIM.Service.SendMsg

/-! One allocator whose calls of Next follow one another, beside NextSeq, which asks Redis
for every number. -/
namespace GameIM.Service.SeqPlain
open GameIM.Lib GameIM.Store SeqAlloc

def nextSeq (r : Redis) (now : Nat) (channelID : String) : Option Int × Redis := r.incr now (keySeq channelID)

/-- One call of Next: when it is made, and whether an INCRBY of it would fail. -/
structure Request where
  now : Nat
  channelID : String
  incrFails : Bool
  deriving DecidableEq, Repr

def nexts (server : Nat) : Servers → List Request → List (Request × Option Int) × Servers
  | s, [] => ([], s)
  | s, q :: rest =>
    let r := s.next server q.now q.channelID q.incrFails
    let later := nexts server r.2 rest
    ((q, r.1) :: later.1, later.2)

def nextSeqs : Redis → List Request → List (Option Int) × Redis
  | r, [] => ([], r)
  | r, q :: rest =>
    let n := nextSeq r q.now q.channelID
    let later := nextSeqs n.2 rest
    (n.1 :: later.1, later.2)

def served (trace : List (Request × Option Int)) : List Request :=
  trace.filterMap fun e => e.2.map fun _ => e.1

def numbers (trace : List (Request × Option Int)) : List Int := trace.filterMap Prod.snd

def numbersOn (ch : String) (trace : List (Request × Option Int)) : List Int :=
  trace.filterMap fun e => if e.1.channelID = ch then e.2 else none

def after (c : Int) (k : Nat) : List Int := (List.range k).map fun i : Nat => c + 1 + i

theorem after_succ (c : Int) (k : Nat) : after c (k + 1) = (c + 1) :: after (c + 1) k := by
  simp only [after, List.range_succ_eq_map, List.map_cons, List.map_map, Nat.cast_zero, add_zero]
  congr 1
  apply List.map_congr_left
  intro i _
  simp only [Function.comp, Nat.cast_succ]
  omega

section Trace

variable (q : Request) (n : Int) (trace : List (Request × Option Int)) (ch : String)

@[simp] theorem served_none : served ((q, none) :: trace) = served trace := rfl
@[simp] theorem served_some : served ((q, some n) :: trace) = q :: served trace := rfl
@[simp] theorem numbers_none : numbers ((q, none) :: trace) = numbers trace := rfl
@[simp] theorem numbers_some : numbers ((q, some n) :: trace) = n :: numbers trace := rfl

@[simp] theorem numbersOn_none : numbersOn ch ((q, none) :: trace) = numbersOn ch trace := by
  simp [numbersOn]

theorem numbersOn_some : numbersOn ch ((q, some n) :: trace) =
    if q.channelID = ch then n :: numbersOn ch trace else numbersOn ch trace := by
  by_cases here : q.channelID = ch
  · simp [numbersOn, here]
  · simp [numbersOn, here]

end Trace

/- The channel's counter; an absent key counts from 0. -/
def counter (r : Redis) (ch : String) : Int :=
  match r.keys (keySeq ch) with
  | some e => e.val
  | none => 0

section Counter

variable {r : Redis} (persistent : Persistent r) (now : Nat) (ch : String) (delta : Int)

include persistent

theorem counter_found :
    (r.get now (keySeq ch)).getD 0 = counter r ch ∧ (r.find now (keySeq ch)).bind (·.deadline) = none := by
  unfold Redis.get Redis.find counter
  cases held : r.keys (keySeq ch) with
  | none => simp
  | some e =>
    have forever := persistent ch e held
    have live : e.live now = true := by simp [Entry.live, forever]
    simp [Option.filter, live, forever]

theorem incrBy_full (full : Overflows (counter r ch) delta) : r.incrBy now ch delta = (none, r) := by
  rw [← (counter_found persistent now ch).1] at full
  exact Redis.incrKeyBy_refused full

theorem incrBy_known (room : ¬ Overflows (counter r ch) delta) :
    r.incrBy now ch delta = (some (counter r ch + delta), r.put (keySeq ch) ⟨counter r ch + delta, none⟩) := by
  obtain ⟨value, forever⟩ := counter_found persistent now ch
  rw [← value] at room ⊢
  unfold Redis.incrBy
  rw [Redis.incrKeyBy_done room, forever]

theorem counter_incrBy (room : ¬ Overflows (counter r ch) delta) (other : String) :
    counter (r.incrBy now ch delta).2 other = if other = ch then counter r ch + delta else counter r other := by
  rw [incrBy_known persistent _ _ _ room]
  by_cases here : other = ch
  · subst here
    simp [counter]
  · simp [counter, here]

theorem persistent_incrBy (room : ¬ Overflows (counter r ch) delta) : Persistent (r.incrBy now ch delta).2 := by
  intro other e held
  rw [incrBy_known persistent _ _ _ room] at held
  by_cases here : other = ch
  · subst here
    rw [Redis.put_keys_same] at held
    cases held
    rfl
  · rw [Redis.put_keys_ne _ _ (by simpa using here)] at held
    exact persistent other e held

end Counter

/-- The batched allocator beside the Redis that NextSeq would have left: on each channel the
numbers left of the range are the ones NextSeq has not given out, and the last int64 is not
among them. -/
structure Mirrors (server : Nat) (s : Servers) (p : Redis) : Prop where
  batched : Persistent s.redis
  plain : Persistent p
  counted : ∀ ch, 0 ≤ counter p ch
  spare : ∀ ch, Spare (counter s.redis ch)
  short : ∀ ch r, s.ranges server ch = some r → r.max < 2 ^ 63 - 1
  fits : ∀ ch, Fits (s.ranges server ch) (counter s.redis ch) (counter p ch + 1)
  near : ∀ ch, counter p ch ≤ counter s.redis ch ∧ counter s.redis ch - counter p ch < seqBatchSize

section Next

variable {server : Nat} {s : Servers} {p : Redis} {now : Nat} {ch : String}

theorem nextSeq_room (below : counter p ch < 2 ^ 63 - 1) : ¬ Overflows (counter p ch) 1 :=
  @one_room _ (2 ^ 63 - 1) (by omega) (by decide)

theorem nextSeq_number (persistent : Persistent p) (below : counter p ch < 2 ^ 63 - 1) :
    (nextSeq p now ch).1 = some (counter p ch + 1) :=
  congrArg Prod.fst (incrBy_known persistent now ch 1 (nextSeq_room below))

theorem setRange_own (r : SeqRange) (other : String) :
    (s.setRange server ch r).ranges server other = if other = ch then some r else s.ranges server other := by
  by_cases here : other = ch
  · subst here
    simp [Servers.setRange]
  · simp [Servers.setRange, here]

theorem Mirrors.call (mirrors : Mirrors server s p) {redis : Redis} {r : SeqRange}
    (persistent : Persistent redis)
    (others : ∀ other, other ≠ ch → counter redis other = counter s.redis other)
    (fits : r.next = counter p ch + 2 ∧ r.max = counter redis ch ∧ counter p ch + 1 ≤ counter redis ch)
    (near : counter redis ch - (counter p ch + 1) < seqBatchSize) (spare : Spare (counter redis ch))
    (short : counter redis ch < 2 ^ 63 - 1) :
    Mirrors server ((s.setRedis redis).setRange server ch r) (nextSeq p now ch).2 := by
  have room : ¬ Overflows (counter p ch) 1 := nextSeq_room (by omega)
  have plain : ∀ other, counter (nextSeq p now ch).2 other =
      if other = ch then counter p ch + 1 else counter p other := counter_incrBy mirrors.plain now ch 1 room
  refine ⟨persistent, persistent_incrBy mirrors.plain now ch 1 room, ?_, ?_, ?_, ?_, ?_⟩
  · intro other
    have old := mirrors.counted
    rw [plain]
    split
    · exact le_trans (old ch) (by omega)
    · exact old other
  · intro other
    show Spare (counter redis other)
    by_cases here : other = ch
    · subst here
      exact spare
    · rw [others other here]
      exact mirrors.spare other
  · intro other q held
    rw [setRange_own] at held
    split at held
    · cases held
      rw [fits.2.1]
      exact short
    · exact mirrors.short other q held
  · intro other
    rw [setRange_own, plain]
    by_cases here : other = ch
    · subst here
      simp only [if_true, Fits]
      refine ⟨by omega, fits.2.1, ?_⟩
      show counter p other + 1 + 1 ≤ counter redis other + 1
      omega
    · rw [if_neg here, if_neg here]
      show Fits (s.ranges server other) (counter redis other) _
      rw [others other here]
      exact mirrors.fits other
  · intro other
    rw [plain]
    show _ ≤ counter redis other ∧ counter redis other - _ < seqBatchSize
    by_cases here : other = ch
    · subst here
      rw [if_pos rfl]
      exact ⟨fits.2.2, near⟩
    · rw [if_neg here, others other here]
      exact mirrors.near other

theorem Mirrors.hit (mirrors : Mirrors server s p) (now : Nat) {r : SeqRange} (held : s.ranges server ch = some r)
    (left : r.next ≤ r.max) :
    counter p ch < 2 ^ 63 - 1 ∧ r.next = counter p ch + 1 ∧
      Mirrors server (s.setRange server ch r.advance) (nextSeq p now ch).2 := by
  have fits := mirrors.fits ch
  have near := mirrors.near ch
  have short := mirrors.short ch r held
  have counted := mirrors.counted ch
  rw [held] at fits
  obtain ⟨next, last, _⟩ := fits
  refine ⟨by omega, next, ?_⟩
  refine mirrors.call mirrors.batched (fun _ _ => rfl) ⟨?_, last, ?_⟩ ?_ (mirrors.spare ch) ?_
  · rw [SeqRange.advance, wrap64_of_isInt64 ⟨by omega, by omega⟩]
    show r.next + 1 = counter p ch + 2
    omega
  · omega
  · omega
  · omega

theorem Mirrors.refill (mirrors : Mirrors server s p) (exhausted : counter s.redis ch = counter p ch) :
    s.refill server now ch false = (none, s) ∨
      counter p ch < 2 ^ 63 - 1 ∧ (s.refill server now ch false).1 = some (counter p ch + 1) ∧
        Mirrors server (s.refill server now ch false).2 (nextSeq p now ch).2 := by
  unfold Servers.refill
  by_cases full : Overflows (counter s.redis ch) seqBatchSize
  · left
    rw [incrBy_full mirrors.batched now ch seqBatchSize full]
    rfl
  · right
    have within : counter p ch + seqBatchSize < 2 ^ 63 := by
      by_contra beyond
      exact full (Or.inl ⟨by decide, by omega⟩)
    have counted := mirrors.counted ch
    have room := mirrors.spare ch
    rw [exhausted] at room
    obtain ⟨spare, short⟩ := room.reserve rfl within
    have batch : seqBatchSize = 1000 := rfl
    obtain ⟨first, opened⟩ := opened_eq (m := counter p ch + seqBatchSize) ⟨by omega, by omega⟩ ⟨by omega, by omega⟩
    rw [Int.add_sub_cancel] at first opened
    have second : counter p ch + 1 + 1 = counter p ch + 2 := by omega
    rw [second] at opened
    have after := counter_incrBy mirrors.batched now ch seqBatchSize full
    have persistent := persistent_incrBy mirrors.batched now ch seqBatchSize full
    rw [incrBy_known mirrors.batched now ch seqBatchSize full, exhausted] at after persistent ⊢
    simp only [first, opened] at after ⊢
    set redis := s.redis.put (keySeq ch) ⟨counter p ch + seqBatchSize, none⟩
    have own : counter redis ch = counter p ch + seqBatchSize := by rw [after, if_pos rfl]
    refine ⟨by omega, rfl, ?_⟩
    refine mirrors.call persistent ?_ ⟨rfl, own.symm, by omega⟩ (by omega) (by rwa [own]) (by omega)
    intro other there
    rw [after, if_neg there]

/- A call that fails leaves everything as it was; one that succeeds returns what NextSeq
would. -/
theorem Mirrors.next (mirrors : Mirrors server s p) (now : Nat) (ch : String) (incrFails : Bool) :
    s.next server now ch incrFails = (none, s) ∨
      counter p ch < 2 ^ 63 - 1 ∧ (s.next server now ch incrFails).1 = some (counter p ch + 1) ∧
        Mirrors server (s.next server now ch incrFails).2 (nextSeq p now ch).2 := by
  have refills : counter s.redis ch = counter p ch →
      s.refill server now ch incrFails = (none, s) ∨
        counter p ch < 2 ^ 63 - 1 ∧ (s.refill server now ch incrFails).1 = some (counter p ch + 1) ∧
          Mirrors server (s.refill server now ch incrFails).2 (nextSeq p now ch).2 := by
    intro exhausted
    cases incrFails with
    | true => exact Or.inl rfl
    | false => exact mirrors.refill exhausted
  have fits := mirrors.fits ch
  have near := mirrors.near ch
  unfold Servers.next
  cases held : s.ranges server ch with
  | none =>
    rw [held] at fits
    have same : counter p ch + 1 = counter s.redis ch + 1 := fits
    exact refills (by omega)
  | some r =>
    by_cases left : r.next ≤ r.max
    · simp only [if_pos left]
      obtain ⟨below, number, next⟩ := mirrors.hit now held left
      exact Or.inr ⟨below, congrArg some number, next⟩
    · simp only [if_neg left]
      rw [held] at fits
      obtain ⟨next, last, _⟩ := fits
      exact refills (by omega)

theorem fresh_mirrors (fresh : ∀ ch, s.ranges server ch = none) (persistent : Persistent s.redis)
    (counted : ∀ ch, 0 ≤ counter s.redis ch) (spare : ∀ ch, Spare (counter s.redis ch)) :
    Mirrors server s s.redis := by
  refine ⟨persistent, persistent, counted, spare, ?_, ?_, ?_⟩
  · intro ch r held
    rw [fresh ch] at held
    contradiction
  · intro ch
    rw [fresh ch]
    rfl
  · intro ch
    unfold seqBatchSize
    omega

end Next

section Runs

variable {server : Nat} {s : Servers} {p : Redis}

theorem nexts_mirrors (mirrors : Mirrors server s p) (requests : List Request) :
    (nextSeqs p (served (nexts server s requests).1)).1 = (numbers (nexts server s requests).1).map some ∧
      Mirrors server (nexts server s requests).2 (nextSeqs p (served (nexts server s requests).1)).2 := by
  induction requests generalizing s p with
  | nil => exact ⟨rfl, mirrors⟩
  | cons q rest ih =>
    rcases mirrors.next q.now q.channelID q.incrFails with failed | ⟨below, number, next⟩
    · simp only [nexts, failed]
      exact ih mirrors
    · obtain ⟨same, later⟩ := ih next
      simp only [nexts, number, numbers_some, served_some, nextSeqs, same, List.map_cons,
        nextSeq_number mirrors.plain below]
      exact ⟨trivial, later⟩

theorem nexts_channel (mirrors : Mirrors server s p) (requests : List Request) (ch : String) :
    numbersOn ch (nexts server s requests).1 =
        after (counter p ch) (numbersOn ch (nexts server s requests).1).length ∧
      counter (nextSeqs p (served (nexts server s requests).1)).2 ch =
        counter p ch + (numbersOn ch (nexts server s requests).1).length := by
  induction requests generalizing s p with
  | nil => simp [nexts, numbersOn, served, nextSeqs, after]
  | cons q rest ih =>
    rcases mirrors.next q.now q.channelID q.incrFails with failed | ⟨below, number, next⟩
    · simp only [nexts, failed, numbersOn_none, served_none]
      exact ih mirrors
    · obtain ⟨listed, count⟩ := ih next
      have plain : counter (nextSeq p q.now q.channelID).2 ch =
          if ch = q.channelID then counter p q.channelID + 1 else counter p ch :=
        counter_incrBy mirrors.plain q.now q.channelID 1 (nextSeq_room below) ch
      simp only [nexts, number, numbersOn_some, served_some, nextSeqs]
      by_cases here : q.channelID = ch
      · subst here
        rw [if_pos rfl] at plain
        rw [plain] at listed count
        rw [if_pos rfl, List.length_cons, after_succ, ← listed, count]
        refine ⟨rfl, ?_⟩
        push_cast
        omega
      · rw [if_neg (Ne.symm here)] at plain
        rw [plain] at listed count
        rw [if_neg here]
        exact ⟨listed, count⟩

end Runs

/-- Calls of Next, one after the other, beside NextSeq: the calls that succeed return what
NextSeq would return to them, which on each channel are the numbers after its counter; a call
that fails changes nothing; and the counter is less than a batch ahead of the last number
handed out. -/
def AsNextSeq (server : Nat) (s : Servers) (requests : List Request) : Prop :=
  let trace := (nexts server s requests).1
  let t := (nexts server s requests).2
  (nextSeqs s.redis (served trace)).1 = (numbers trace).map some ∧
  (∀ ch, numbersOn ch trace = after (counter s.redis ch) (numbersOn ch trace).length) ∧
  (∀ now ch incrFails, (t.next server now ch incrFails).1 = none →
    (t.next server now ch incrFails).2 = t) ∧
  ∀ ch, 0 ≤ counter t.redis ch - (counter s.redis ch + (numbersOn ch trace).length) ∧
    counter t.redis ch - (counter s.redis ch + (numbersOn ch trace).length) < 1000

/-- From empty ranges one allocator numbers as NextSeq does, as long as no batch ends with the
last int64. -/
theorem next_as_nextSeq (server : Nat) (s : Servers) (fresh : ∀ ch, s.ranges server ch = none)
    (persistent : Persistent s.redis) (counted : ∀ ch, 0 ≤ counter s.redis ch)
    (spare : ∀ ch, Spare (counter s.redis ch)) (requests : List Request) : AsNextSeq server s requests := by
  have start := fresh_mirrors fresh persistent counted spare
  obtain ⟨same, mirrors⟩ := nexts_mirrors start requests
  refine ⟨same, fun ch => (nexts_channel start requests ch).1, ?_, ?_⟩
  · intro now ch incrFails none
    rcases mirrors.next now ch incrFails with failed | ⟨_, number, _⟩
    · rw [failed]
    · rw [number] at none
      contradiction
  · intro ch
    have near := mirrors.near ch
    rw [(nexts_channel start requests ch).2] at near
    unfold seqBatchSize at near
    omega

def numbered (world : Int) : Servers where
  redis := ⟨fun key => if key = keySeq "world" then some ⟨world, none⟩ else none⟩
  ranges := fun _ _ => none
  caches := fun _ => ⟨⟨fun _ => none⟩, ⟨fun _ => none⟩⟩
  posted := []
  queued := []
  delivered := []

theorem numbered_persistent (world : Int) : Persistent (numbered world).redis := by
  intro ch e held
  simp only [numbered] at held
  split at held
  · cases held
    rfl
  · contradiction

theorem numbered_counter (world : Int) (ch : String) :
    counter (numbered world).redis ch = if ch = "world" then world else 0 := by
  by_cases here : ch = "world"
  · simp [counter, numbered, here]
  · simp [counter, numbered, here]

theorem next_as_nextSeq_world :
    numbers (nexts 0 (numbered 41) [⟨1, "world", false⟩, ⟨2, "guild", true⟩, ⟨3, "guild", false⟩,
      ⟨4, "world", true⟩]).1 = [42, 1, 43] ∧
    AsNextSeq 0 (numbered 41) [⟨1, "world", false⟩, ⟨2, "guild", true⟩, ⟨3, "guild", false⟩,
      ⟨4, "world", true⟩] := by
  have counted : ∀ ch, 0 ≤ counter (numbered 41).redis ch := by
    intro ch
    rw [numbered_counter]
    split <;> decide
  have spare : ∀ ch, Spare (counter (numbered 41).redis ch) := by
    intro ch
    rw [numbered_counter]
    split <;> decide
  exact ⟨by decide +kernel, next_as_nextSeq 0 (numbered 41) (fun _ => rfl) (numbered_persistent 41) counted spare _⟩

section Wrap

variable {server : Nat} {s : Servers}

theorem nexts_append (requests more : List Request) :
    (nexts server s (requests ++ more)).1 =
      (nexts server s requests).1 ++ (nexts server (nexts server s requests).2 more).1 := by
  induction requests generalizing s with
  | nil => rfl
  | cons q rest ih =>
    simp only [List.cons_append, nexts, ih]

theorem nexts_left {q : Request} {n m : Int} (range : s.ranges server q.channelID = some ⟨n, m⟩) (k : Nat)
    (low : 0 ≤ n) (left : n + k ≤ m + 1) (high : n + k < 2 ^ 63) :
    (nexts server s (List.replicate k q)).2.ranges server q.channelID = some ⟨n + k, m⟩ := by
  induction k generalizing s n with
  | zero => simpa [nexts] using range
  | succ k ih =>
    push_cast at left high
    have le : n ≤ m := by omega
    have next : SeqRange.advance ⟨n, m⟩ = ⟨n + 1, m⟩ := by
      rw [SeqRange.advance, wrap64_of_isInt64 ⟨by simp only; omega, by simp only; omega⟩]
    have moved : (s.next server q.now q.channelID q.incrFails).2.ranges server q.channelID = some ⟨n + 1, m⟩ := by
      simp only [Servers.next, range, if_pos le, setRange_own, if_true, next]
    rw [List.replicate_succ, nexts]
    simp only
    rw [ih moved (by omega) (by omega) (by omega), Nat.cast_succ, add_assoc, add_comm (1 : Int)]

/- The range is used up to the last int64, and twice more. -/
theorem nexts_wrap {q : Request} {n : Int} (range : s.ranges server q.channelID = some ⟨n, 2 ^ 63 - 1⟩) (k : Nat)
    (low : 0 ≤ n) (last : n + k = 2 ^ 63 - 1) :
    (q, some (-2 ^ 63)) ∈ (nexts server s (List.replicate k q ++ [q, q])).1 := by
  have left := nexts_left range k low (by omega) (by omega)
  rw [last] at left
  rw [nexts_append]
  set t := (nexts server s (List.replicate k q)).2
  have next : SeqRange.advance ⟨2 ^ 63 - 1, 2 ^ 63 - 1⟩ = ⟨-2 ^ 63, 2 ^ 63 - 1⟩ := by decide
  have first : (t.next server q.now q.channelID q.incrFails).2 =
      t.setRange server q.channelID ⟨-2 ^ 63, 2 ^ 63 - 1⟩ := by
    rw [Servers.next, left]
    simp only [next, le_refl, if_true]
  have second : ((t.setRange server q.channelID ⟨-2 ^ 63, 2 ^ 63 - 1⟩).next server q.now q.channelID
      q.incrFails).1 = some (-2 ^ 63) := by
    rw [Servers.next, setRange_own, if_pos rfl]
    rfl
  simp only [nexts, first, second, List.mem_append, List.mem_cons, true_or, or_true]

end Wrap

/-- From one batch below the last int64 the 1001st call of Next returns the least int64, where
NextSeq fails. -/
theorem next_not_as_nextSeq : ¬ AsNextSeq 0 (numbered (2 ^ 63 - 1001))
    (⟨1, "world", false⟩ ::
      (List.replicate 998 ⟨1, "world", false⟩ ++ [⟨1, "world", false⟩, ⟨1, "world", false⟩])) := by
  rintro ⟨_, listed, _, _⟩
  set q : Request := ⟨1, "world", false⟩
  have opened : ((numbered (2 ^ 63 - 1001)).next 0 q.now q.channelID q.incrFails).2.ranges 0 q.channelID =
      some ⟨2 ^ 63 - 999, 2 ^ 63 - 1⟩ := rfl
  have wrapped := nexts_wrap opened 998 (by decide) (by decide)
  have least : -2 ^ 63 ∈ numbersOn "world" (nexts 0 (numbered (2 ^ 63 - 1001))
      (q :: (List.replicate 998 q ++ [q, q]))).1 := by
    rw [nexts]
    exact List.mem_filterMap.mpr ⟨(q, some (-2 ^ 63)), List.mem_cons_of_mem _ wrapped, rfl⟩
  rw [listed "world"] at least
  obtain ⟨i, _, same⟩ := List.mem_map.mp least
  rw [numbered_counter, if_pos rfl] at same
  omega

end GameIM.Service.SeqPlain
