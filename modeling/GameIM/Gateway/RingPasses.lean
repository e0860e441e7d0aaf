import Mathlib.Algebra.Ring.Nat
import Mathlib.Order.Bounds.Basic
import GameIM.Gateway.Ring

/-! BroadcastRing as a data structure, and its consumers one drain pass at a time: each Put
and each pass of ringConsumerLoop runs to its end before the next, and pushCh takes all that
is sent to it. -/
namespace GameIM.Gateway.RingPasses
open Lib

variable {α : Type}

/- The loop of NewBroadcastRing on Go's 64-bit int. -/
def roundUp64 : Nat → Int → Int → Int
  | 0, _, n => n
  | fuel + 1, size, n => if n < size then roundUp64 fuel size ((2 * n).bmod (2 ^ 64)) else n

def slot (mask pos : Nat) : Fin (mask + 1) := ⟨pos &&& mask, Nat.lt_succ_of_le Nat.and_le_right⟩

/-- A slot that was never filled is nil, which is `none`. -/
structure BroadcastRing (α : Type) where
  mask : Nat
  buf : Fin (mask + 1) → Option α
  writePos : Nat

namespace BroadcastRing

def newBroadcastRing (size : Nat) : BroadcastRing α := ⟨Conn.ringMask size, fun _ => none, 0⟩

def put (r : BroadcastRing α) (data : α) : BroadcastRing α :=
  { r with
    buf := Function.update r.buf (slot r.mask r.writePos) (some data)
    writePos := r.writePos + 1 }

def get (r : BroadcastRing α) (pos : Nat) : Option α := r.buf (slot r.mask pos)

def capacity (r : BroadcastRing α) : Nat := r.mask + 1

def newCursor (r : BroadcastRing α) : Nat := r.writePos

end BroadcastRing

/-- `first` is the initial cursor, and `enqueued` all that was sent to pushCh. -/
structure Reader (α : Type) where
  cursor : Nat
  first : Nat
  enqueued : List α

def readAll (r : BroadcastRing α) : Nat → Nat → List α → List α
  | 0, _, pushCh => pushCh
  | left + 1, pos, pushCh => readAll r left (pos + 1) (match r.get pos with
    | none => pushCh
    | some data => pushCh ++ [data])

/- One pass of ringConsumerLoop. With nothing to read, the consumer waits. -/
def drain (r : BroadcastRing α) (k : Reader α) : Reader α :=
  let wp := r.writePos
  if k.cursor ≥ wp then k
  else
    let cur := if wp - k.cursor > r.capacity then wp - r.capacity else k.cursor
    { k with cursor := wp, enqueued := readAll r (wp - cur) cur k.enqueued }

/-- `log` records the data of every Put. -/
structure State (α : Type) where
  ring : BroadcastRing α
  readers : ConnID → Option (Reader α)
  log : List α

inductive Action (α : Type) where
  | connect (c : ConnID)
  | put (data : α)
  | drain (c : ConnID)
  deriving DecidableEq, Repr

def start (size : Nat) : State α := ⟨.newBroadcastRing size, fun _ => none, []⟩

def State.setReader (s : State α) (c : ConnID) (k : Reader α) : State α :=
  { s with readers := Function.update s.readers c (some k) }

def step (s : State α) : Action α → Option (State α)
  | .connect c => match s.readers c with
    | none => some (s.setReader c ⟨s.ring.newCursor, s.ring.newCursor, []⟩)
    | some _ => none
  | .put data => some { s with ring := s.ring.put data, log := s.log ++ [data] }
  | .drain c => match s.readers c with
    | none => none
    | some k => some (s.setReader c (drain s.ring k))

inductive Effect (s : State α) : Action α → State α → Prop where
  | connect {c} : s.readers c = none →
      Effect s (.connect c) (s.setReader c ⟨s.ring.newCursor, s.ring.newCursor, []⟩)
  | put {data} : Effect s (.put data) { s with ring := s.ring.put data, log := s.log ++ [data] }
  | drain {c k} : s.readers c = some k → Effect s (.drain c) (s.setReader c (drain s.ring k))

theorem step_effect {s t : State α} {a : Action α} (taken : step s a = some t) : Effect s a t := by
  cases a with
  | connect c =>
    simp only [step] at taken
    split at taken
    · cases Option.some.inj taken
      exact .connect (by assumption)
    · contradiction
  | put data =>
    cases Option.some.inj taken
    exact .put
  | drain c =>
    simp only [step] at taken
    split at taken
    · contradiction
    · cases Option.some.inj taken
      exact .drain (by assumption)

section RoundUp

/- The loop is at 2 ^ i, and every smaller power was too small. -/
theorem roundUp_least (fuel size i : Nat) (enough : size ≤ fuel + 2 ^ i) (below : ∀ j < i, 2 ^ j < size) :
    ∃ k, Conn.roundUp fuel size (2 ^ i) = 2 ^ k ∧ size ≤ 2 ^ k ∧ ∀ j < k, 2 ^ j < size := by
  induction fuel generalizing i with
  | zero => exact ⟨i, rfl, by omega, below⟩
  | succ fuel ih =>
    unfold Conn.roundUp
    split
    · rename_i small
      have positive : 0 < 2 ^ i := Nat.two_pow_pos i
      have doubled : 2 * 2 ^ i = 2 ^ (i + 1) := by rw [Nat.pow_succ, Nat.mul_comm]
      rw [doubled]
      apply ih
      · omega
      · intro j before
        rcases Nat.lt_succ_iff_lt_or_eq.mp before with earlier | rfl
        · exact below j earlier
        · exact small
    · rename_i large
      exact ⟨i, rfl, by omega, below⟩

theorem ringMask_succ (size : Nat) : Conn.ringMask size + 1 = Conn.roundUp size size 1 := by
  obtain ⟨k, reached, _⟩ := roundUp_least size size 0 (by omega) (by omega)
  have positive : 0 < 2 ^ k := Nat.two_pow_pos k
  rw [Nat.pow_zero] at reached
  rw [Conn.ringMask]
  omega

theorem ringMask_least (size : Nat) :
    ∃ k, Conn.ringMask size + 1 = 2 ^ k ∧ size ≤ 2 ^ k ∧ ∀ j < k, 2 ^ j < size := by
  rw [ringMask_succ]
  exact roundUp_least size size 0 (by omega) (by omega)

theorem ringMask_isLeast (size : Nat) :
    IsLeast {n | (∃ k, n = 2 ^ k) ∧ size ≤ n} (Conn.ringMask size + 1) := by
  obtain ⟨k, pow, reached, least⟩ := ringMask_least size
  rw [pow]
  refine ⟨⟨⟨k, rfl⟩, reached⟩, ?_⟩
  rintro n ⟨⟨j, rfl⟩, enough⟩
  apply Nat.pow_le_pow_right (by omega)
  by_contra smaller
  have tooSmall := least j (by omega)
  omega

theorem roundUp64_eq (fuel : Nat) {size : Nat} (small : size ≤ 2 ^ 31) (n : Nat) :
    roundUp64 fuel size n = Conn.roundUp fuel size n := by
  induction fuel generalizing n with
  | zero => rfl
  | succ fuel ih =>
    unfold roundUp64 Conn.roundUp
    by_cases less : n < size
    · have exact : (2 * (n : Int)).bmod (2 ^ 64) = ((2 * n : Nat) : Int) := by
        rw [Int.bmod_eq_of_le]
        · push_cast
          rfl
        · omega
        · omega
      rw [if_pos less, if_pos (by omega), exact]
      exact ih (2 * n)
    · rw [if_neg less, if_neg (by omega)]

end RoundUp

section Slots

variable {mask k : Nat}

theorem slot_val (pow : mask + 1 = 2 ^ k) (pos : Nat) : (slot mask pos).val = pos % 2 ^ k := by
  have eq : mask = 2 ^ k - 1 := by omega
  simp only [slot, eq]
  exact Nat.and_two_pow_sub_one_eq_mod pos k

/- Two positions share a slot only when they are at least a capacity apart. -/
theorem slot_inj (pow : mask + 1 = 2 ^ k) {pos later : Nat} (before : pos < later)
    (near : later < pos + (mask + 1)) : slot mask pos ≠ slot mask later := by
  intro same
  have rest : pos % 2 ^ k = later % 2 ^ k := by
    rw [← slot_val pow, ← slot_val pow, same]
  have divides : 2 ^ k ∣ later - pos :=
    Nat.dvd_of_mod_eq_zero (Nat.sub_mod_eq_zero_of_mod_eq rest.symm)
  have far : 2 ^ k ≤ later - pos := Nat.le_of_dvd (by omega) divides
  omega

end Slots

/-- The ring holds the last puts, as many as it has slots. -/
structure Holds (r : BroadcastRing α) (log : List α) : Prop where
  pow : ∃ k, r.capacity = 2 ^ k
  counted : log.length = r.writePos
  window : ∀ pos, pos < r.writePos → r.writePos ≤ pos + r.capacity → r.get pos = log[pos]?

section Holds

variable {r : BroadcastRing α} {log : List α}

theorem newBroadcastRing_holds (size : Nat) : Holds (.newBroadcastRing size : BroadcastRing α) [] := by
  obtain ⟨k, capacity, _⟩ := ringMask_least size
  refine ⟨⟨k, capacity⟩, rfl, ?_⟩
  intro pos before
  contradiction

theorem Holds.put (holds : Holds r log) (data : α) : Holds (r.put data) (log ++ [data]) := by
  obtain ⟨k, pow⟩ := holds.pow
  have counted := holds.counted
  refine ⟨⟨k, pow⟩, by simp [BroadcastRing.put, counted], ?_⟩
  intro pos before near
  simp only [BroadcastRing.put, BroadcastRing.capacity] at before near
  simp only [BroadcastRing.get, BroadcastRing.put]
  rcases Nat.lt_succ_iff_lt_or_eq.mp before with earlier | rfl
  · have other : slot r.mask pos ≠ slot r.mask r.writePos := slot_inj pow earlier (by omega)
    rw [Function.update_of_ne other, List.getElem?_append_left (by omega)]
    refine holds.window pos earlier ?_
    simp only [BroadcastRing.capacity]
    omega
  · rw [Function.update_self, List.getElem?_append_right (by omega), counted, Nat.sub_self]
    rfl

theorem readAll_window (holds : Holds r log) (left pos : Nat) (pushCh : List α)
    (inside : pos + left ≤ r.writePos) (near : r.writePos ≤ pos + r.capacity) :
    readAll r left pos pushCh = pushCh ++ (log.drop pos).take left := by
  induction left generalizing pos pushCh with
  | zero => simp [readAll]
  | succ left ih =>
    have bound : pos < log.length := by
      rw [holds.counted]
      omega
    have found : r.get pos = some log[pos] := by
      rw [holds.window pos (by omega) near, List.getElem?_eq_getElem bound]
    rw [readAll, found, ih (pos + 1) _ (by omega) (by omega), List.drop_eq_getElem_cons bound,
      List.take_succ_cons, List.append_assoc, List.singleton_append]

theorem drain_eq (holds : Holds r log) {k : Reader α} (behind : k.cursor ≤ r.writePos) :
    drain r k = { k with
      cursor := r.writePos
      enqueued := k.enqueued ++
        log.drop (r.writePos - min (r.writePos - k.cursor) r.capacity) } := by
  have counted := holds.counted
  unfold drain
  by_cases level : k.cursor ≥ r.writePos
  · have same : k.cursor = r.writePos := by omega
    rw [if_pos level, same, Nat.sub_self, Nat.zero_min, Nat.sub_zero, ← counted, List.drop_length,
      List.append_nil, counted, ← same]
  · have first : (if r.writePos - k.cursor > r.capacity then r.writePos - r.capacity else k.cursor) =
        r.writePos - min (r.writePos - k.cursor) r.capacity := by
      split
      · omega
      · omega
    simp only [if_neg level, first]
    rw [readAll_window holds _ _ _ (by omega) (by omega), List.take_of_length_le]
    rw [List.length_drop]
    omega

end Holds

structure Inv (s : State α) : Prop where
  holds : Holds s.ring s.log
  cursors : ∀ c k, s.readers c = some k → k.first ≤ k.cursor ∧ k.cursor ≤ s.ring.writePos

def KeepsUp (c : ConnID) (s : State α) (a : Action α) : Prop :=
  ∀ k, a = .drain c → s.readers c = some k → s.ring.writePos - k.cursor ≤ s.ring.capacity

instance [DecidableEq α] (c : ConnID) (s : State α) (a : Action α) : Decidable (KeepsUp c s a) :=
  decidable_of_iff (a = .drain c → ∀ k ∈ s.readers c, s.ring.writePos - k.cursor ≤ s.ring.capacity)
    ⟨fun near k drains held => near drains k held, fun near drains k held => near k drains held⟩

section Inv

variable {s t : State α} {a : Action α} {c : ConnID}

theorem start_inv (size : Nat) : Inv (start size : State α) := by
  refine ⟨newBroadcastRing_holds size, ?_⟩
  intro c k held
  contradiction

theorem setReader_inv {k : Reader α} (inv : Inv s) (placed : k.first ≤ k.cursor ∧ k.cursor ≤ s.ring.writePos) :
    Inv (s.setReader c k) := by
  refine ⟨inv.holds, ?_⟩
  intro d l held
  by_cases here : d = c
  · subst here
    simp only [State.setReader, Function.update_self, Option.some.injEq] at held
    subst held
    exact placed
  · simp only [State.setReader, Function.update_of_ne here] at held
    exact inv.cursors d l held

theorem step_inv (inv : Inv s) (taken : step s a = some t) : Inv t := by
  cases step_effect taken with
  | connect => exact setReader_inv inv ⟨le_rfl, le_rfl⟩
  | put =>
    refine ⟨inv.holds.put _, ?_⟩
    intro d k held
    have placed := inv.cursors d k held
    exact ⟨placed.1, Nat.le_succ_of_le placed.2⟩
  | drain held =>
    have placed := inv.cursors _ _ held
    apply setReader_inv inv
    rw [drain_eq inv.holds placed.2]
    exact ⟨placed.1.trans placed.2, le_rfl⟩

theorem step_capacity (taken : step s a = some t) : t.ring.capacity = s.ring.capacity := by
  cases step_effect taken with
  | connect => rfl
  | put => rfl
  | drain => rfl

/-- The consumer c has enqueued every Put from its first cursor to its present one. -/
def Complete (c : ConnID) (s : State α) : Prop :=
  ∀ k, s.readers c = some k → k.enqueued = (s.log.take k.cursor).drop k.first

theorem complete_setReader {d : ConnID} {l : Reader α} (complete : Complete c s)
    (own : d = c → l.enqueued = (s.log.take l.cursor).drop l.first) : Complete c (s.setReader d l) := by
  intro k held
  by_cases here : c = d
  · subst here
    simp only [State.setReader, Function.update_self, Option.some.injEq] at held
    subst held
    exact own rfl
  · simp only [State.setReader, Function.update_of_ne here] at held
    exact complete k held

theorem drop_take_append {β : Type} {log : List β} {first cursor : Nat} (order : first ≤ cursor)
    (bound : cursor ≤ log.length) :
    (log.take cursor).drop first ++ log.drop cursor = (log.take log.length).drop first := by
  rw [List.take_length]
  conv_rhs => rw [← List.take_append_drop cursor log]
  rw [List.drop_append_of_le_length]
  rw [List.length_take]
  omega

theorem step_complete (inv : Inv s) (complete : Complete c s) (keepsUp : KeepsUp c s a)
    (taken : step s a = some t) : Complete c t := by
  cases step_effect taken with
  | connect =>
    apply complete_setReader complete
    intro _
    simp [BroadcastRing.newCursor]
  | put =>
    intro k held
    have counted := inv.holds.counted
    have placed := inv.cursors c k held
    have early : k.cursor ≤ s.log.length := by omega
    rw [List.take_append_of_le_length early]
    exact complete k held
  | @drain d l held =>
    apply complete_setReader complete
    intro here
    subst here
    have counted := inv.holds.counted
    have placed := inv.cursors d l held
    have near := keepsUp l rfl held
    have kept : s.ring.writePos - min (s.ring.writePos - l.cursor) s.ring.capacity = l.cursor := by omega
    have bound : l.cursor ≤ s.log.length := by omega
    rw [drain_eq inv.holds placed.2]
    show l.enqueued ++ s.log.drop _ = (s.log.take s.ring.writePos).drop l.first
    rw [kept, complete l held, ← counted]
    exact drop_take_append placed.1 bound

end Inv

section Runs

variable {size : Nat} {as : List (Action α)} {s : State α}

theorem run_inv (taken : run step (start size) as = some s) : Inv s :=
  run_invariant Inv (fun _ _ _ inv last => step_inv inv last) (start_inv size) taken

theorem run_capacity (taken : run step (start size) as = some s) :
    s.ring.capacity = Conn.ringMask size + 1 :=
  run_invariant (fun s => s.ring.capacity = Conn.ringMask size + 1)
    (fun _ _ _ same last => (step_capacity last).trans same) rfl taken

theorem run_complete {c : ConnID} (taken : run step (start size) as = some s)
    (keepsUp : Meets step (KeepsUp c) (start size) as) : Complete c s := by
  have both : Inv s ∧ Complete c s := by
    refine run_invariant_meets (fun s => Inv s ∧ Complete c s) ?_ ⟨start_inv size, ?_⟩ keepsUp taken
    · intro s a t inv near last
      exact ⟨step_inv inv.1 last, step_complete inv.1 inv.2 near last⟩
    · intro k held
      contradiction
  exact both.2

end Runs

/-- For a requested size up to 2 ^ 31 and any sequence of connects, Puts and drain passes:
the capacity is the least power of two that is not below the size, Get finds the data of
each of the last Puts, a pass enqueues the last Puts that are new to its consumer and still
held, and a consumer that is never more than the capacity behind has each Put since its
NewCursor exactly once. -/
theorem drain_enqueues_last {size : Nat} {as : List (Action α)} {s : State α} (small : size ≤ 2 ^ 31)
    (taken : run step (start size) as = some s) :
    IsLeast {n | (∃ k, n = 2 ^ k) ∧ size ≤ n} s.ring.capacity ∧
    roundUp64 size size 1 = s.ring.capacity ∧
    s.log.length = s.ring.writePos ∧
    (∀ pos, pos < s.ring.writePos → s.ring.writePos - s.ring.capacity ≤ pos →
      ∃ data, s.log[pos]? = some data ∧ s.ring.get pos = some data) ∧
    (∀ c k, s.readers c = some k → ∃ l, step s (.drain c) = some (s.setReader c l) ∧
      l.cursor = s.ring.writePos ∧ l.first = k.first ∧
      l.enqueued = k.enqueued ++
        s.log.drop (s.log.length - min (s.ring.writePos - k.cursor) s.ring.capacity)) ∧
    ∀ c k, s.readers c = some k → Meets step (KeepsUp c) (start size) as →
      k.enqueued = (s.log.take k.cursor).drop k.first := by
  have inv := run_inv taken
  have capacity := run_capacity taken
  have counted := inv.holds.counted
  refine ⟨?_, ?_, counted, ?_, ?_, ?_⟩
  · rw [capacity]
    exact ringMask_isLeast size
  · rw [capacity, ringMask_succ]
    exact roundUp64_eq size small 1
  · intro pos before near
    have bound : pos < s.log.length := by omega
    have found := inv.holds.window pos before (by omega)
    rw [List.getElem?_eq_getElem bound] at found
    exact ⟨_, List.getElem?_eq_getElem bound, found⟩
  · intro c k held
    refine ⟨drain s.ring k, by simp only [step, held], ?_⟩
    rw [drain_eq inv.holds (inv.cursors c k held).2, counted]
    exact ⟨rfl, rfl, rfl⟩
  · intro c k held keepsUp
    exact run_complete taken keepsUp k held

/- Four slots, seven Puts and two consumers: the first misses the two oldest of six, the
second reads one Put and then the last. -/
def lapped : List (Action Nat) :=
  [.connect 1, .put 10, .put 11, .put 12, .put 13, .put 14, .connect 2, .put 15, .drain 1, .drain 2, .put 16]

theorem drain_enqueues_lapped :
    ∃ s k l, run step (start 3) lapped = some s ∧ s.readers 1 = some k ∧ k.enqueued = [12, 13, 14, 15] ∧
      s.readers 2 = some l ∧ l.enqueued = (s.log.take l.cursor).drop l.first := by
  have ran : (run step (start 3) lapped).isSome := by decide +kernel
  obtain ⟨s, taken⟩ := Option.isSome_iff_exists.mp ran
  have first : (run step (start 3) lapped).map (fun s => (s.readers 1).map Reader.enqueued) =
      some (some [12, 13, 14, 15]) := by decide +kernel
  have second : (run step (start 3) lapped).map (fun s => (s.readers 2).isSome) = some true := by
    decide +kernel
  rw [taken] at first second
  obtain ⟨k, heldFirst, enqueued⟩ := Option.map_eq_some_iff.mp (Option.some.inj first)
  obtain ⟨l, heldSecond⟩ := Option.isSome_iff_exists.mp (Option.some.inj second)
  have keepsUp : Meets step (KeepsUp 2) (start 3) lapped := by decide +kernel
  have all := (drain_enqueues_last (by decide) taken).2.2.2.2.2
  exact ⟨s, k, l, taken, heldFirst, enqueued, heldSecond, all 2 l heldSecond keepsUp⟩

/- The passes are runs of the interleaved ring in which nobody interrupts and the writer
empties pushCh after each entry. -/
section Interleaved

variable {cfg : Conn.Config}

/-- A reader between two passes. -/
structure Rests (k : Reader α) (l : Ring.Reader α) : Prop where
  cursor : l.cursor = k.cursor
  first : l.first = k.first
  enqueued : l.enqueued.map Prod.snd = k.enqueued
  consumer : l.consumer = .top
  done : l.done = false
  pushCh : l.pushCh = []

structure Shows (cfg : Conn.Config) (p : State α) (s : Ring.State α) : Prop where
  mask : p.ring.mask = cfg.mask
  slots : ∀ pos, (s.slots (pos &&& cfg.mask)).map Prod.snd = p.ring.get pos
  writePos : s.writePos = p.ring.writePos
  puts : s.puts = []
  log : s.log = p.log
  readers : ∀ c, Option.Rel Rests (p.readers c) (s.readers c)

theorem setReader_twice (s : Ring.State α) (c : ConnID) (k l : Ring.Reader α) :
    (s.setReader c k).setReader c l = s.setReader c l := by
  simp [Ring.State.setReader]

theorem reading_alone {s : Ring.State α} {r : BroadcastRing α} {c : ConnID} (room : 0 < cfg.sendChanSize)
    (slots : ∀ pos, (s.slots (pos &&& cfg.mask)).map Prod.snd = r.get pos) (left pos : Nat)
    (l : Ring.Reader α) (phase : l.consumer = .read pos (pos + left)) (empty : l.pushCh = []) :
    ∃ as m, run (Ring.step cfg) (s.setReader c l) as = some (s.setReader c m) ∧
      m.cursor = pos + left ∧ m.first = l.first ∧ m.consumer = .top ∧ m.done = l.done ∧ m.pushCh = [] ∧
      m.enqueued.map Prod.snd = readAll r left pos (l.enqueued.map Prod.snd) := by
  have own : ∀ k, (s.setReader c k).readers c = some k := fun k => Function.update_self _ _ _
  induction left generalizing pos l with
  | zero =>
    refine ⟨[.consume c], { l with cursor := pos, consumer := .top }, ?_, rfl, rfl, rfl, rfl, empty, rfl⟩
    simp [run, Ring.step, own, Ring.Reader.consume, phase, setReader_twice]
  | succ left ih =>
    have found := slots pos
    have reached : pos + (left + 1) = pos + 1 + left := by omega
    cases held : s.slots (pos &&& cfg.mask) with
    | none =>
      obtain ⟨as, m, ran, cursor, first, top, done, emptied, enqueued⟩ :=
        ih (pos + 1) (l.at (.read (pos + 1) (pos + (left + 1)))) (by rw [reached]; rfl) empty
      refine ⟨.consume c :: as, m, ?_, by omega, first, top, done, emptied, ?_⟩
      · simpa [run, Ring.step, own, Ring.Reader.consume, phase, setReader_twice, Ring.State.setReader, held,
          Ring.Reader.receive] using ran
      · rw [enqueued, readAll, ← found, held]
        rfl
    | some e =>
      obtain ⟨as, m, ran, cursor, first, top, done, emptied, enqueued⟩ :=
        ih (pos + 1) { l with consumer := .read (pos + 1) (pos + (left + 1)), enqueued := l.enqueued ++ [e] }
          (by rw [reached]) empty
      refine ⟨.consume c :: .take c :: as, m, ?_, by omega, first, top, done, emptied, ?_⟩
      · simpa [run, Ring.step, own, Ring.Reader.consume, phase, setReader_twice, Ring.State.setReader, held,
          Ring.Reader.receive, Ring.Reader.at, empty, room] using ran
      · rw [enqueued, readAll, ← found, held]
        simp

theorem Shows.unknown {p : State α} {s : Ring.State α} (shows : Shows cfg p s) {c : ConnID}
    (absent : p.readers c = none) : s.readers c = none := by
  have related := shows.readers c
  rw [absent] at related
  cases h : s.readers c with
  | none => rfl
  | some l =>
    rw [h] at related
    cases related

theorem Shows.reader {p : State α} {s : Ring.State α} (shows : Shows cfg p s) {c : ConnID} {k : Reader α}
    (present : p.readers c = some k) : ∃ l, s.readers c = some l ∧ Rests k l := by
  have related := shows.readers c
  rw [present] at related
  cases h : s.readers c with
  | none =>
    rw [h] at related
    cases related
  | some l =>
    rw [h] at related
    cases related with
    | some rests => exact ⟨l, rfl, rests⟩

theorem Shows.setReader {p : State α} {s : Ring.State α} (shows : Shows cfg p s) {c : ConnID}
    {k : Reader α} {l : Ring.Reader α} (rests : Rests k l) : Shows cfg (p.setReader c k) (s.setReader c l) := by
  refine ⟨shows.mask, shows.slots, shows.writePos, shows.puts, shows.log, ?_⟩
  intro d
  by_cases here : d = c
  · subst here
    simp only [State.setReader, Ring.State.setReader, Function.update_self]
    exact .some rests
  · simp only [State.setReader, Ring.State.setReader, Function.update_of_ne here]
    exact shows.readers d

theorem Shows.put {p : State α} {s : Ring.State α} (shows : Shows cfg p s) (data : α) :
    ∃ t, run (Ring.step cfg) s [.put data, .store s.writePos] = some t ∧
      Shows cfg { p with ring := p.ring.put data, log := p.log ++ [data] } t := by
  refine ⟨{ s with
    slots := Function.update s.slots (s.writePos &&& cfg.mask) (some (s.writePos, data))
    writePos := s.writePos + 1
    log := s.log ++ [data] }, ?_, ?_⟩
  · simp [run, Ring.step, shows.puts]
  · refine ⟨shows.mask, ?_, ?_, shows.puts, ?_, shows.readers⟩
    · intro pos
      have same : pos &&& cfg.mask = s.writePos &&& cfg.mask ↔
          slot p.ring.mask pos = slot p.ring.mask p.ring.writePos := by
        simp only [slot, Fin.mk.injEq, shows.mask, shows.writePos]
      simp only [BroadcastRing.get, BroadcastRing.put]
      by_cases here : pos &&& cfg.mask = s.writePos &&& cfg.mask
      · rw [here, same.mp here, Function.update_self, Function.update_self]
        rfl
      · rw [Function.update_of_ne here, Function.update_of_ne (fun h => here (same.mpr h))]
        exact shows.slots pos
    · simp [BroadcastRing.put, shows.writePos]
    · simp [shows.log]

theorem Shows.drain {p : State α} {s : Ring.State α} (shows : Shows cfg p s) (room : 0 < cfg.sendChanSize)
    {c : ConnID} {k : Reader α} {l : Ring.Reader α} (rests : Rests k l) (held : s.readers c = some l)
    (ahead : k.cursor < p.ring.writePos) :
    ∃ as t, run (Ring.step cfg) s as = some t ∧ Shows cfg (p.setReader c (drain p.ring k)) t := by
  have first : Conn.readFrom cfg l.cursor s.writePos =
      if p.ring.writePos - k.cursor > p.ring.capacity then p.ring.writePos - p.ring.capacity else k.cursor := by
    simp only [Conn.readFrom, BroadcastRing.capacity, rests.cursor, shows.writePos, shows.mask]
  have bound : Conn.readFrom cfg l.cursor s.writePos ≤ s.writePos := by
    rw [first, shows.writePos]
    split
    · omega
    · omega
  have unread : ¬ s.writePos ≤ l.cursor := by
    rw [rests.cursor, shows.writePos]
    omega
  have last : Conn.readFrom cfg l.cursor s.writePos + (s.writePos - Conn.readFrom cfg l.cursor s.writePos) =
      s.writePos := by omega
  obtain ⟨as, m, ran, cursor, same, top, done, emptied, enqueued⟩ :=
    reading_alone (s := s) (c := c) room shows.slots (s.writePos - Conn.readFrom cfg l.cursor s.writePos)
      (Conn.readFrom cfg l.cursor s.writePos)
      (l.at (.read (Conn.readFrom cfg l.cursor s.writePos) s.writePos)) (by rw [last]; rfl) rests.pushCh
  refine ⟨.consume c :: .consume c :: as, s.setReader c m, ?_, ?_⟩
  · simpa [run, Ring.step, held, Ring.Reader.consume, rests.consumer, rests.done, Ring.State.setReader,
      Ring.Reader.at, unread] using ran
  · apply shows.setReader
    have level : ¬ k.cursor ≥ p.ring.writePos := by omega
    rw [first, shows.writePos] at enqueued
    refine ⟨?_, ?_, ?_, top, done.trans rests.done, emptied⟩
    · rw [cursor, last, shows.writePos, RingPasses.drain, if_neg level]
    · rw [same, RingPasses.drain, if_neg level]
      exact rests.first
    · rw [enqueued, RingPasses.drain, if_neg level]
      simp only [Ring.Reader.at, rests.enqueued]

theorem passes_imitated (room : 0 < cfg.sendChanSize) (p : State α) (a : Action α) (q : State α)
    (s : Ring.State α) (shows : Shows cfg p s) (taken : step p a = some q) :
    ∃ as t, run (Ring.step cfg) s as = some t ∧ Shows cfg q t := by
  cases step_effect taken with
  | @connect c absent =>
    have fresh := shows.unknown absent
    refine ⟨[.connect c], s.setReader c s.reader, by simp [run, Ring.step, fresh], ?_⟩
    exact shows.setReader ⟨shows.writePos, shows.writePos, rfl, rfl, rfl, rfl⟩
  | @put data =>
    obtain ⟨t, ran, next⟩ := shows.put data
    exact ⟨_, t, ran, next⟩
  | @drain c k present =>
    obtain ⟨l, held, rests⟩ := shows.reader present
    by_cases ahead : k.cursor < p.ring.writePos
    · exact shows.drain room rests held ahead
    · refine ⟨[], s, rfl, ?_⟩
      have level : k.cursor ≥ p.ring.writePos := by omega
      have same : p.setReader c (RingPasses.drain p.ring k) = p := by
        rw [RingPasses.drain, if_pos level]
        simp only [State.setReader, ← present, Function.update_eq_self]
      rw [same]
      exact shows

theorem passes_in_ring {size : Nat} (mask : Conn.ringMask size = cfg.mask) (room : 0 < cfg.sendChanSize)
    {as : List (Action α)} {p : State α} (taken : run step (start size) as = some p) :
    ∃ bs s, run (Ring.step cfg) Ring.start bs = some s ∧ Shows cfg p s := by
  have related : Shows cfg (start size : State α) Ring.start :=
    ⟨mask, fun _ => rfl, rfl, rfl, rfl, fun _ => .none⟩
  exact run_simulates (Shows cfg) (passes_imitated room) related taken

end Interleaved

end GameIM.Gateway.RingPasses
