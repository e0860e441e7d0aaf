import Mathlib.Logic.Function.Basic
import GameIM.Gateway.ConnManager
import GameIM.Gateway.Conn

/-! BroadcastRing of internal/gateway/ringbuf.go with any number of Put calls in progress
and any number of connections that read from it. A Put takes its position in one step and
fills the slot in a later one. What waiters do on the condition variable is left to
RingWait: here a consumer that waits goes on once there is something to read. -/
namespace GameIM.Gateway.Ring
open Lib Conn

variable {α : Type}

/-- A connection as a reader of the ring. `first` is its initial cursor. `enqueued` records
what its consumer sent to pushCh, with the position each entry was put at. -/
structure Reader (α : Type) where
  cursor : Nat
  consumer : Consumer
  done : Bool
  pushCh : List α
  first : Nat
  enqueued : List (Nat × α)

/-- `log` records the data of every Put, by position. A slot holds its data; the position
beside it tells which Put stored it and is read by no step. -/
structure State (α : Type) where
  slots : Nat → Option (Nat × α)
  writePos : Nat
  puts : List (Nat × α)
  readers : ConnID → Option (Reader α)
  log : List α

def start : State α := ⟨fun _ => none, 0, [], fun _ => none, []⟩

inductive Action (α : Type) where
  | connect (c : ConnID)
  | put (data : α)
  | store (pos : Nat)
  | consume (c : ConnID)
  | consumerDone (c : ConnID)
  | send (c : ConnID) (data : α)
  | take (c : ConnID)
  | close (c : ConnID)

def State.setReader (s : State α) (c : ConnID) (k : Reader α) : State α :=
  { s with readers := Function.update s.readers c (some k) }

/- newConn with NewCursor. -/
def State.reader (s : State α) : Reader α := ⟨s.writePos, .top, false, [], s.writePos, []⟩

/- A send on pushCh from elsewhere, dropped when the channel is full. -/
def Reader.send (k : Reader α) (size : Nat) (data : α) : Reader α :=
  if k.pushCh.length < size then { k with pushCh := k.pushCh ++ [data] } else k

def Reader.receive (k : Reader α) (size : Nat) : Option (Nat × α) → Reader α
  | none => k
  | some e => if k.pushCh.length < size then
      { k with pushCh := k.pushCh ++ [e.2], enqueued := k.enqueued ++ [e] } else k

def Reader.at (k : Reader α) (consumer : Consumer) : Reader α := { k with consumer := consumer }

/- ringConsumerLoop, from one access to shared data to the next. -/
def Reader.consume (cfg : Config) (s : State α) (k : Reader α) : Option (Reader α) :=
  match k.consumer with
  | .top => some (k.at (if k.done then .stopped else .load))
  | .load =>
    if k.cursor ≥ s.writePos then some (k.at .wait)
    else some (k.at (.read (readFrom cfg k.cursor s.writePos) s.writePos))
  | .wait => if s.writePos > k.cursor then some (k.at .top) else none
  | .read pos wp =>
    if pos < wp then
      some ((k.receive cfg.sendChanSize (s.slots (pos &&& cfg.mask))).at (.read (pos + 1) wp))
    else some { k with cursor := wp, consumer := .top }
  | .stopped => none

def step (cfg : Config) (s : State α) : Action α → Option (State α)
  | .connect c => match s.readers c with
    | none => some (s.setReader c s.reader)
    | some _ => none
  | .put data => some { s with
      writePos := s.writePos + 1
      puts := s.puts ++ [(s.writePos, data)]
      log := s.log ++ [data] }
  | .store pos => match s.puts.lookup pos with
    | none => none
    | some data => some { s with
        slots := Function.update s.slots (pos &&& cfg.mask) (some (pos, data))
        puts := s.puts.filter (·.1 ≠ pos) }
  | .consume c => match s.readers c with
    | none => none
    | some k => (k.consume cfg s).map (s.setReader c)
  | .consumerDone c => match s.readers c with
    | none => none
    | some k => if k.consumer = .wait ∧ k.done then some (s.setReader c (k.at .stopped)) else none
  | .send c data => match s.readers c with
    | none => none
    | some k => some (s.setReader c (k.send cfg.sendChanSize data))
  | .take c => match s.readers c with
    | none => none
    | some k => match k.pushCh with
      | [] => none
      | _ :: rest => some (s.setReader c { k with pushCh := rest })
  | .close c => match s.readers c with
    | none => none
    | some k => some (s.setReader c { k with done := true })

inductive Moved (cfg : Config) (s : State α) (k : Reader α) : Reader α → Prop where
  | checked : k.consumer = .top → Moved cfg s k (k.at (if k.done then .stopped else .load))
  | waits : k.consumer = .load → s.writePos ≤ k.cursor → Moved cfg s k (k.at .wait)
  | loads : k.consumer = .load → k.cursor < s.writePos →
      Moved cfg s k (k.at (.read (readFrom cfg k.cursor s.writePos) s.writePos))
  | woken : k.consumer = .wait → k.cursor < s.writePos → Moved cfg s k (k.at .top)
  | gets {pos wp} : k.consumer = .read pos wp → pos < wp → Moved cfg s k
      ((k.receive cfg.sendChanSize (s.slots (pos &&& cfg.mask))).at (.read (pos + 1) wp))
  | ends {pos wp} : k.consumer = .read pos wp → wp ≤ pos →
      Moved cfg s k { k with cursor := wp, consumer := .top }

inductive Effect (cfg : Config) (s : State α) : Action α → State α → Prop where
  | connect {c} : s.readers c = none → Effect cfg s (.connect c) (s.setReader c s.reader)
  | put {data} : Effect cfg s (.put data) { s with
      writePos := s.writePos + 1
      puts := s.puts ++ [(s.writePos, data)]
      log := s.log ++ [data] }
  | store {pos data} : (pos, data) ∈ s.puts → Effect cfg s (.store pos) { s with
      slots := Function.update s.slots (pos &&& cfg.mask) (some (pos, data))
      puts := s.puts.filter (·.1 ≠ pos) }
  | consume {c k l} : s.readers c = some k → Moved cfg s k l →
      Effect cfg s (.consume c) (s.setReader c l)
  | consumerDone {c k} : s.readers c = some k → k.consumer = .wait → k.done = true →
      Effect cfg s (.consumerDone c) (s.setReader c (k.at .stopped))
  | send {c k data} : s.readers c = some k →
      Effect cfg s (.send c data) (s.setReader c (k.send cfg.sendChanSize data))
  | take {c k data rest} : s.readers c = some k → k.pushCh = data :: rest →
      Effect cfg s (.take c) (s.setReader c { k with pushCh := rest })
  | close {c k} : s.readers c = some k →
      Effect cfg s (.close c) (s.setReader c { k with done := true })

section Effect

variable {cfg : Config} {s t : State α} {k l : Reader α}

theorem consume_moved (moved : k.consume cfg s = some l) : Moved cfg s k l := by
  unfold Reader.consume at moved
  split at moved
  · rename_i phase
    cases moved
    exact .checked phase
  · rename_i phase
    split at moved
    · rename_i behind
      cases moved
      exact .waits phase behind
    · rename_i ahead
      cases moved
      exact .loads phase (Nat.lt_of_not_le ahead)
  · rename_i phase
    split at moved
    · rename_i ahead
      cases moved
      exact .woken phase ahead
    · contradiction
  · rename_i phase
    split at moved
    · rename_i inside
      cases moved
      exact .gets phase inside
    · rename_i outside
      cases moved
      exact .ends phase (Nat.le_of_not_lt outside)
  · contradiction

theorem step_effect {a : Action α} (taken : step cfg s a = some t) : Effect cfg s a t := by
  cases a with
  | put data =>
    cases Option.some.inj taken
    exact .put
  | store pos =>
    simp only [step] at taken
    split at taken
    · contradiction
    · rename_i data found
      cases Option.some.inj taken
      exact .store (mem_of_lookup found)
  | connect c =>
    simp only [step] at taken
    split at taken
    · rename_i free
      cases Option.some.inj taken
      exact .connect free
    · contradiction
  | consume c =>
    simp only [step] at taken
    split at taken
    · contradiction
    · rename_i k held
      obtain ⟨l, moved, rfl⟩ := Option.map_eq_some_iff.mp taken
      exact .consume held (consume_moved moved)
  | consumerDone c =>
    simp only [step] at taken
    split at taken
    · contradiction
    · rename_i k held
      split at taken
      · rename_i stopping
        cases Option.some.inj taken
        exact .consumerDone held stopping.1 stopping.2
      · contradiction
  | send c data =>
    simp only [step] at taken
    split at taken
    · contradiction
    · rename_i k held
      cases Option.some.inj taken
      exact .send held
  | take c =>
    simp only [step] at taken
    split at taken
    · contradiction
    · rename_i k held
      split at taken
      · contradiction
      · rename_i waiting
        cases Option.some.inj taken
        exact .take held waiting
  | close c =>
    simp only [step] at taken
    split at taken
    · contradiction
    · rename_i k held
      cases Option.some.inj taken
      exact .close held

end Effect

/-- The position a consumer reads next. -/
def Reader.position (k : Reader α) : Nat :=
  match k.consumer with
  | .read pos _ => pos
  | _ => k.cursor

/-- The consumer has enqueued, for each position from its first to the one before its
present one, in order and once, what was put there. -/
structure ExactlyOnce (s : State α) (k : Reader α) : Prop where
  positions : k.enqueued.map Prod.fst = List.range' k.first (k.position - k.first)
  data : ∀ e ∈ k.enqueued, s.log[e.1]? = some e.2

/-- Cursors and positions never run ahead of the ring, and entries are true to the log. -/
structure Sound (s : State α) (k : Reader α) : Prop where
  first : k.first ≤ k.cursor
  cursor : k.cursor ≤ s.writePos
  reading : ∀ pos wp, k.consumer = .read pos wp → k.cursor ≤ pos ∧ pos ≤ wp ∧ wp ≤ s.writePos
  entries : ∀ e ∈ k.enqueued, s.log[e.1]? = some e.2

structure Inv (s : State α) : Prop where
  counted : s.log.length = s.writePos
  pending : ∀ e ∈ s.puts, s.log[e.1]? = some e.2
  held : ∀ i e, s.slots i = some e → s.log[e.1]? = some e.2
  readers : ∀ c k, s.readers c = some k → Sound s k

section Invariant

variable {cfg : Config} {s t : State α} {k l : Reader α}

theorem start_inv : Inv (start : State α) := by
  constructor
  · rfl
  · intro e pending
    cases pending
  · intro i e held
    cases held
  · intro c k held
    cases held

theorem logged_later {log more : List α} {pos : Nat} {data : α} (longer : log <+: more)
    (logged : log[pos]? = some data) : more[pos]? = some data := by
  obtain ⟨rest, rfl⟩ := longer
  rw [List.getElem?_append_left (List.getElem?_eq_some_iff.mp logged).1]
  exact logged

theorem Sound.grow (sound : Sound s k) (later : s.writePos ≤ t.writePos) (longer : s.log <+: t.log) :
    Sound t k := by
  constructor
  · exact sound.first
  · exact Nat.le_trans sound.cursor later
  · intro pos wp phase
    obtain ⟨low, inside, high⟩ := sound.reading pos wp phase
    exact ⟨low, inside, Nat.le_trans high later⟩
  · intro e entry
    exact logged_later longer (sound.entries e entry)

theorem setReader_inv {c : ConnID} (inv : Inv s) (sound : Sound s l) : Inv (s.setReader c l) := by
  constructor
  · exact inv.counted
  · exact inv.pending
  · exact inv.held
  · intro d m held
    by_cases here : d = c
    · subst here
      simp only [State.setReader, Function.update_self, Option.some.injEq] at held
      subst held
      exact ⟨sound.first, sound.cursor, sound.reading, sound.entries⟩
    · simp only [State.setReader, Function.update_of_ne here] at held
      have old := inv.readers d m held
      exact ⟨old.first, old.cursor, old.reading, old.entries⟩

theorem reader_sound (s : State α) : Sound s s.reader := by
  constructor
  · exact Nat.le_refl _
  · exact Nat.le_refl _
  · intro pos wp phase
    cases phase
  · intro e entry
    cases entry

theorem readFrom_bounds (cfg : Config) {cursor wp : Nat} (ahead : cursor < wp) :
    cursor ≤ readFrom cfg cursor wp ∧ readFrom cfg cursor wp ≤ wp := by
  unfold readFrom
  split
  · omega
  · omega

theorem receive_same (k : Reader α) (size : Nat) (slot : Option (Nat × α)) :
    (k.receive size slot).cursor = k.cursor ∧ (k.receive size slot).first = k.first ∧
      (k.receive size slot).done = k.done := by
  unfold Reader.receive
  split
  · exact ⟨rfl, rfl, rfl⟩
  · split
    · exact ⟨rfl, rfl, rfl⟩
    · exact ⟨rfl, rfl, rfl⟩

theorem receive_enqueued {size : Nat} {slot : Option (Nat × α)} {e : Nat × α}
    (entry : e ∈ (k.receive size slot).enqueued) : e ∈ k.enqueued ∨ slot = some e := by
  unfold Reader.receive at entry
  split at entry
  · exact Or.inl entry
  · split at entry
    · rcases List.mem_append.mp entry with old | new
      · exact Or.inl old
      · exact Or.inr (List.mem_singleton.mp new ▸ rfl)
    · exact Or.inl entry

theorem Sound.at (sound : Sound s k) {consumer : Consumer}
    (reading : ∀ pos wp, consumer = .read pos wp → k.cursor ≤ pos ∧ pos ≤ wp ∧ wp ≤ s.writePos) :
    Sound s (k.at consumer) :=
  ⟨sound.first, sound.cursor, reading, sound.entries⟩

theorem moved_sound (inv : Inv s) (sound : Sound s k) (moved : Moved cfg s k l) : Sound s l := by
  cases moved with
  | checked phase =>
    apply sound.at
    intro pos wp reads
    split at reads
    · cases reads
    · cases reads
  | waits phase behind =>
    apply sound.at
    intro pos wp reads
    cases reads
  | loads phase ahead =>
    apply sound.at
    intro pos wp reads
    cases reads
    have bounds := readFrom_bounds cfg ahead
    exact ⟨bounds.1, bounds.2, Nat.le_refl _⟩
  | woken phase ahead =>
    apply sound.at
    intro pos wp reads
    cases reads
  | @gets pos wp phase inside =>
    obtain ⟨low, _, high⟩ := sound.reading pos wp phase
    obtain ⟨cursor, first, _⟩ := receive_same k cfg.sendChanSize (s.slots (pos &&& cfg.mask))
    constructor
    · simp only [Reader.at, cursor, first]
      exact sound.first
    · simp only [Reader.at, cursor]
      exact sound.cursor
    · intro p w reads
      cases reads
      simp only [Reader.at, cursor]
      omega
    · intro e entry
      rcases receive_enqueued entry with old | new
      · exact sound.entries e old
      · exact inv.held _ e new
  | @ends pos wp phase done =>
    obtain ⟨low, inside, high⟩ := sound.reading pos wp phase
    have first := sound.first
    constructor
    · simp only
      omega
    · exact high
    · intro p w reads
      cases reads
    · exact sound.entries

theorem send_sound {data : α} {size : Nat} (sound : Sound s k) : Sound s (k.send size data) := by
  unfold Reader.send
  split
  · exact ⟨sound.first, sound.cursor, sound.reading, sound.entries⟩
  · exact sound

theorem step_inv {a : Action α} (inv : Inv s) (taken : step cfg s a = some t) : Inv t := by
  cases step_effect taken with
  | connect free => exact setReader_inv inv (reader_sound s)
  | @put data =>
    have longer : s.log <+: s.log ++ [data] := List.prefix_append _ _
    constructor
    · simp [inv.counted]
    · intro e pending
      rcases List.mem_append.mp pending with old | new
      · exact logged_later longer (inv.pending e old)
      · cases List.mem_singleton.mp new
        simp [← inv.counted]
    · intro i e held
      exact logged_later longer (inv.held i e held)
    · intro c k held
      exact (inv.readers c k held).grow (Nat.le_succ _) longer
  | @store pos data pending =>
    constructor
    · exact inv.counted
    · intro e kept
      exact inv.pending e (List.mem_of_mem_filter kept)
    · intro i e held
      by_cases here : i = pos &&& cfg.mask
      · subst here
        simp only [Function.update_self, Option.some.injEq] at held
        subst held
        exact inv.pending _ pending
      · simp only [Function.update_of_ne here] at held
        exact inv.held i e held
    · intro c k held
      exact (inv.readers c k held).grow (Nat.le_refl _) (List.prefix_refl _)
  | consume held moved => exact setReader_inv inv (moved_sound inv (inv.readers _ _ held) moved)
  | consumerDone held _ _ =>
    apply setReader_inv inv
    apply (inv.readers _ _ held).at
    intro pos wp reads
    cases reads
  | send held => exact setReader_inv inv (send_sound (inv.readers _ _ held))
  | take held _ =>
    have sound := inv.readers _ _ held
    exact setReader_inv inv ⟨sound.first, sound.cursor, sound.reading, sound.entries⟩
  | close held =>
    have sound := inv.readers _ _ held
    exact setReader_inv inv ⟨sound.first, sound.cursor, sound.reading, sound.entries⟩

end Invariant

/-- At each turn of the connection's consumer it is at most Capacity positions behind and
pushCh has room. -/
def KeepsUp (cfg : Config) (c : ConnID) (s : State α) : Action α → Prop
  | .consume d => d = c → ∀ k ∈ s.readers c,
      s.writePos ≤ k.cursor + (cfg.mask + 1) ∧ k.pushCh.length < cfg.sendChanSize
  | _ => True

def Finds (cfg : Config) (s : State α) : Consumer → Prop
  | .read pos wp => pos < wp → (s.slots (pos &&& cfg.mask)).map Prod.fst = some pos
  | _ => True

/-- At each Get of the connection's consumer, the Put of the position has stored its data
and no other Put has stored into the slot after it. -/
def Stored (cfg : Config) (c : ConnID) (s : State α) : Action α → Prop
  | .consume d => d = c → ∀ k ∈ s.readers c, Finds cfg s k.consumer
  | _ => True

instance decidableKeepsUp (cfg : Config) (c : ConnID) (s : State α) :
    ∀ a, Decidable (KeepsUp cfg c s a)
  | .consume _ => inferInstanceAs (Decidable (_ → _))
  | .connect _ | .put _ | .store _ | .consumerDone _ | .send _ _ | .take _ | .close _ =>
    inferInstanceAs (Decidable True)

instance decidableFinds (cfg : Config) (s : State α) : ∀ consumer, Decidable (Finds cfg s consumer)
  | .read _ _ => inferInstanceAs (Decidable (_ → _))
  | .top | .load | .wait | .stopped => inferInstanceAs (Decidable True)

instance decidableStored (cfg : Config) (c : ConnID) (s : State α) :
    ∀ a, Decidable (Stored cfg c s a)
  | .consume _ => inferInstanceAs (Decidable (_ → _))
  | .connect _ | .put _ | .store _ | .consumerDone _ | .send _ _ | .take _ | .close _ =>
    inferInstanceAs (Decidable True)

structure Still (k l : Reader α) : Prop where
  enqueued : l.enqueued = k.enqueued
  first : l.first = k.first
  position : l.position = k.position

inductive Turn (cfg : Config) (s : State α) (c : ConnID) (a : Action α) (l : Reader α) : Prop where
  | fresh : l.enqueued = [] → l.position = l.first → Turn cfg s c a l
  | still {k} : s.readers c = some k → Still k l → Turn cfg s c a l
  | gets {k pos wp} : s.readers c = some k → k.consumer = .read pos wp → pos < wp → a = .consume c →
      l = (k.receive cfg.sendChanSize (s.slots (pos &&& cfg.mask))).at (.read (pos + 1) wp) →
      Turn cfg s c a l

section ExactlyOnce

variable {cfg : Config} {s t : State α} {k l : Reader α} {c : ConnID} {a : Action α}

theorem step_log (taken : step cfg s a = some t) : s.log <+: t.log := by
  cases step_effect taken with
  | put => exact List.prefix_append _ _
  | connect => exact List.prefix_refl _
  | store => exact List.prefix_refl _
  | consume => exact List.prefix_refl _
  | consumerDone => exact List.prefix_refl _
  | send => exact List.prefix_refl _
  | take => exact List.prefix_refl _
  | close => exact List.prefix_refl _

theorem ExactlyOnce.still (exact : ExactlyOnce s k) (still : Still k l) (longer : s.log <+: t.log) :
    ExactlyOnce t l := by
  constructor
  · rw [still.enqueued, still.first, still.position]
    exact exact.positions
  · rw [still.enqueued]
    intro e entry
    exact logged_later longer (exact.data e entry)

theorem setReader_readers {d : ConnID} (held : (s.setReader d k).readers c = some l) :
    (c = d ∧ l = k) ∨ (c ≠ d ∧ s.readers c = some l) := by
  by_cases here : c = d
  · subst here
    simp only [State.setReader, Function.update_self, Option.some.injEq] at held
    exact Or.inl ⟨rfl, held.symm⟩
  · simp only [State.setReader, Function.update_of_ne here] at held
    exact Or.inr ⟨here, held⟩

theorem setReader_turn {d : ConnID} (held : (s.setReader d k).readers c = some l)
    (mine : c = d → Turn cfg s c a k) : Turn cfg s c a l := by
  rcases setReader_readers held with ⟨here, rfl⟩ | ⟨_, old⟩
  · exact mine here
  · exact .still old ⟨rfl, rfl, rfl⟩

theorem moved_turn (inv : Inv s) (keepsUp : KeepsUp cfg c s (.consume c)) (held : s.readers c = some k)
    (moved : Moved cfg s k l) : Turn cfg s c (.consume c) l := by
  have sound := inv.readers c k held
  obtain ⟨near, _⟩ := keepsUp rfl k held
  cases moved with
  | checked phase =>
    apply Turn.still held
    constructor
    · rfl
    · rfl
    · cases done : k.done with
      | true => simp [Reader.at, Reader.position, phase]
      | false => simp [Reader.at, Reader.position, phase]
  | waits phase _ => exact .still held ⟨rfl, rfl, by simp [Reader.at, Reader.position, phase]⟩
  | loads phase _ =>
    have kept : readFrom cfg k.cursor s.writePos = k.cursor := by
      unfold readFrom
      rw [if_neg (by omega)]
    exact .still held ⟨rfl, rfl, by simp [Reader.at, Reader.position, phase, kept]⟩
  | woken phase _ => exact .still held ⟨rfl, rfl, by simp [Reader.at, Reader.position, phase]⟩
  | gets phase inside => exact .gets held phase inside rfl rfl
  | @ends pos wp phase done =>
    have inside := (sound.reading pos wp phase).2.1
    have reached : wp = pos := Nat.le_antisymm done inside
    exact .still held ⟨rfl, rfl, by simp [Reader.position, phase, reached]⟩

theorem step_turn (inv : Inv s) (keepsUp : KeepsUp cfg c s a) (taken : step cfg s a = some t)
    (held : t.readers c = some l) : Turn cfg s c a l := by
  cases step_effect taken with
  | connect _ => exact setReader_turn held (fun _ => .fresh rfl rfl)
  | put => exact .still held ⟨rfl, rfl, rfl⟩
  | store _ => exact .still held ⟨rfl, rfl, rfl⟩
  | consume old moved =>
    apply setReader_turn held
    rintro rfl
    exact moved_turn inv keepsUp old moved
  | consumerDone old phase _ =>
    apply setReader_turn held
    rintro rfl
    exact .still old ⟨rfl, rfl, by simp [Reader.at, Reader.position, phase]⟩
  | send old =>
    apply setReader_turn held
    rintro rfl
    apply Turn.still old
    unfold Reader.send
    split
    · exact ⟨rfl, rfl, rfl⟩
    · exact ⟨rfl, rfl, rfl⟩
  | take old _ =>
    apply setReader_turn held
    rintro rfl
    exact .still old ⟨rfl, rfl, rfl⟩
  | close old =>
    apply setReader_turn held
    rintro rfl
    exact .still old ⟨rfl, rfl, rfl⟩

theorem receive_exactly_iff {pos wp : Nat} (sound : Sound s k) (exact : ExactlyOnce s k)
    (held : ∀ e, s.slots (pos &&& cfg.mask) = some e → s.log[e.1]? = some e.2)
    (phase : k.consumer = .read pos wp) (room : k.pushCh.length < cfg.sendChanSize) :
    ExactlyOnce s ((k.receive cfg.sendChanSize (s.slots (pos &&& cfg.mask))).at (.read (pos + 1) wp)) ↔
      (s.slots (pos &&& cfg.mask)).map Prod.fst = some pos := by
  obtain ⟨low, _, _⟩ := sound.reading pos wp phase
  have first := sound.first
  have before : k.enqueued.map Prod.fst = List.range' k.first (pos - k.first) := by
    have positions := exact.positions
    simp only [Reader.position, phase] at positions
    exact positions
  have after : List.range' k.first (pos + 1 - k.first) = List.range' k.first (pos - k.first) ++ [pos] := by
    have count : pos + 1 - k.first = pos - k.first + 1 := by omega
    rw [count, List.range'_1_concat]
    congr 2
    omega
  cases slot : s.slots (pos &&& cfg.mask) with
  | none =>
    simp only [Option.map_none, reduceCtorEq, iff_false]
    intro claimed
    have positions := claimed.positions
    simp only [Reader.receive, Reader.at, Reader.position, after, before] at positions
    have lengths := congrArg List.length positions
    simp at lengths
  | some e =>
    constructor
    · intro claimed
      have positions := claimed.positions
      simp only [Reader.receive, if_pos room, Reader.at, Reader.position, after, List.map_append,
        before, List.map_cons, List.map_nil, List.append_cancel_left_eq, List.cons.injEq,
        and_true] at positions
      simp only [Option.map_some, positions]
    · intro own
      have own' : e.1 = pos := by simpa using own
      constructor
      · simp only [Reader.receive, if_pos room, Reader.at, Reader.position, after, List.map_append,
          before, List.map_cons, List.map_nil, own']
      · simp only [Reader.receive, if_pos room, Reader.at]
        intro f entry
        rcases List.mem_append.mp entry with old | new
        · exact exact.data f old
        · exact List.mem_singleton.mp new ▸ held e slot

theorem step_exactly (inv : Inv s) (exact : ∀ k, s.readers c = some k → ExactlyOnce s k)
    (keepsUp : KeepsUp cfg c s a) (stored : Stored cfg c s a) (taken : step cfg s a = some t) :
    ∀ l, t.readers c = some l → ExactlyOnce t l := by
  intro l held
  have longer := step_log taken
  cases step_turn inv keepsUp taken held with
  | fresh empty starts =>
    constructor
    · simp [empty, starts]
    · simp [empty]
  | still old still => exact (exact _ old).still still longer
  | @gets k pos wp old phase inside own eq =>
    subst own
    subst eq
    have room := (keepsUp rfl k old).2
    have found := stored rfl k old
    rw [phase] at found
    have grown := (receive_exactly_iff (inv.readers c k old) (exact k old) (inv.held _) phase room).mpr
      (found inside)
    exact grown.still ⟨rfl, rfl, rfl⟩ longer

theorem not_finds {consumer : Consumer} (missed : ¬ Finds cfg s consumer) :
    ∃ pos wp, consumer = .read pos wp ∧ pos < wp ∧
      (s.slots (pos &&& cfg.mask)).map Prod.fst ≠ some pos := by
  cases consumer with
  | read pos wp =>
    simp only [Finds, Classical.not_imp] at missed
    exact ⟨pos, wp, rfl, missed.1, missed.2⟩
  | top => exact absurd trivial missed
  | load => exact absurd trivial missed
  | wait => exact absurd trivial missed
  | stopped => exact absurd trivial missed

theorem not_stored (missed : ¬ Stored cfg c s a) :
    a = .consume c ∧ ∃ k pos wp, s.readers c = some k ∧ k.consumer = .read pos wp ∧ pos < wp ∧
      (s.slots (pos &&& cfg.mask)).map Prod.fst ≠ some pos := by
  cases a with
  | consume d =>
    simp only [Stored, Classical.not_imp, not_forall] at missed
    obtain ⟨rfl, k, held, lost⟩ := missed
    obtain ⟨pos, wp, phase, inside, other⟩ := not_finds lost
    exact ⟨rfl, k, pos, wp, held, phase, inside, other⟩
  | connect d => exact absurd trivial missed
  | put data => exact absurd trivial missed
  | store pos => exact absurd trivial missed
  | consumerDone d => exact absurd trivial missed
  | send d data => exact absurd trivial missed
  | take d => exact absurd trivial missed
  | close d => exact absurd trivial missed

/- A Get that finds nothing, or the data of another position, is never made good. -/
theorem missed_breaks (inv : Inv s) (exact : ∀ k, s.readers c = some k → ExactlyOnce s k)
    (keepsUp : KeepsUp cfg c s a) (missed : ¬ Stored cfg c s a) (taken : step cfg s a = some t) :
    ¬ ∀ l, t.readers c = some l → ExactlyOnce t l := by
  obtain ⟨rfl, k, pos, wp, held, phase, inside, other⟩ := not_stored missed
  have room := (keepsUp rfl k held).2
  simp only [step, held, Reader.consume, phase, if_pos inside, Option.map_some,
    Option.some.injEq] at taken
  subst taken
  intro claimed
  have here := claimed _ (Function.update_self _ _ _)
  have own := (receive_exactly_iff (inv.readers c k held) (exact k held) (inv.held _) phase room).mp
    ⟨here.positions, here.data⟩
  exact other own

/-- A connection's consumer enqueues what was put at each position from its initial cursor
on, once and in order, all along a run of any Put calls and readers, exactly if each of
its Get calls comes after the store of the Put of that position, with no other store into
the slot in between. -/
theorem consumer_exactly_once_iff {as : List (Action α)}
    (keepsUp : Meets (step cfg) (KeepsUp cfg c) start as) (taken : run (step cfg) start as = some t) :
    (∀ before u, before <+: as → run (step cfg) start before = some u →
      ∀ k, u.readers c = some k → ExactlyOnce u k) ↔
    Meets (step cfg) (Stored cfg c) start as := by
  have both := always_iff_meets_under (P := Stored cfg c)
    (fun s : State α => Inv s ∧ ∀ k, s.readers c = some k → ExactlyOnce s k)
    (fun s a t inv keepsUp stored taken =>
      ⟨step_inv inv.1 taken, step_exactly inv.1 inv.2 keepsUp stored taken⟩)
    (fun s a t inv keepsUp missed taken exact =>
      missed_breaks inv.1 inv.2 keepsUp missed taken exact.2)
    ⟨start_inv, fun k held => nomatch held⟩ keepsUp taken
  rw [← both]
  constructor
  · intro exact before u part reached
    exact ⟨run_invariant Inv (fun s a t inv taken => step_inv inv taken) start_inv reached,
      exact before u part reached⟩
  · intro exact before u part reached
    exact (exact before u part reached).2

end ExactlyOnce

/-- What the consumer has enqueued lies at rising positions, all before its present one. -/
structure Rising (k : Reader α) : Prop where
  positions : k.enqueued.Pairwise (·.1 < ·.1)
  passed : ∀ e ∈ k.enqueued, e.1 < k.position

section Rising

variable {cfg : Config} {s t : State α} {k l : Reader α} {c : ConnID} {a : Action α}

theorem Rising.on (rising : Rising k) (enqueued : l.enqueued = k.enqueued)
    (later : k.position ≤ l.position) : Rising l := by
  constructor
  · rw [enqueued]
    exact rising.positions
  · rw [enqueued]
    intro e entry
    exact Nat.lt_of_lt_of_le (rising.passed e entry) later

theorem Rising.receive {pos wp size : Nat} {slot : Option (Nat × α)} (rising : Rising k)
    (phase : k.consumer = .read pos wp) (own : slot.map Prod.fst = some pos) :
    Rising ((k.receive size slot).at (.read (pos + 1) wp)) := by
  have here : k.position = pos := by simp only [Reader.position, phase]
  have further : k.position ≤ (k.at (.read (pos + 1) wp)).position := by
    rw [here]
    exact Nat.le_succ pos
  obtain ⟨e, rfl, rfl⟩ := Option.map_eq_some_iff.mp own
  simp only [Reader.receive]
  split
  · constructor
    · simp only [Reader.at, List.pairwise_append, List.mem_singleton]
      refine ⟨rising.positions, List.pairwise_singleton _ _, ?_⟩
      rintro f entry _ rfl
      rw [← here]
      exact rising.passed f entry
    · intro f entry
      rcases List.mem_append.mp entry with old | new
      · exact Nat.lt_of_lt_of_le (rising.passed f old) further
      · cases List.mem_singleton.mp new
        exact Nat.lt_succ_self _
  · exact rising.on rfl further

theorem moved_rising (sound : Sound s k) (rising : Rising k) (found : Finds cfg s k.consumer)
    (moved : Moved cfg s k l) : Rising l := by
  cases moved with
  | checked phase =>
    refine rising.on rfl ?_
    cases done : k.done with
    | true => simp [Reader.at, Reader.position, phase]
    | false => simp [Reader.at, Reader.position, phase]
  | waits phase _ => exact rising.on rfl (by simp [Reader.at, Reader.position, phase])
  | loads phase ahead =>
    have bounds := readFrom_bounds cfg ahead
    exact rising.on rfl (by simp [Reader.at, Reader.position, phase, bounds.1])
  | woken phase _ => exact rising.on rfl (by simp [Reader.at, Reader.position, phase])
  | gets phase inside =>
    rw [phase] at found
    exact rising.receive phase (found inside)
  | @ends pos wp phase _ =>
    have inside := (sound.reading pos wp phase).2.1
    exact rising.on rfl (by simp [Reader.position, phase, inside])

theorem setReader_rising {d : ConnID} (old : ∀ m, s.readers c = some m → Rising m)
    (new : c = d → Rising k) (held : (s.setReader d k).readers c = some l) : Rising l := by
  rcases setReader_readers held with ⟨here, rfl⟩ | ⟨_, kept⟩
  · exact new here
  · exact old l kept

/- However far behind a consumer falls: what it enqueues is in the order of the ring, if
each Get finds the entry of its position. -/
theorem step_rising (inv : Inv s) (rising : ∀ k, s.readers c = some k → Rising k)
    (stored : Stored cfg c s a) (taken : step cfg s a = some t) :
    ∀ l, t.readers c = some l → Rising l := by
  intro l held
  cases step_effect taken with
  | connect _ =>
    refine setReader_rising rising (fun _ => ⟨List.Pairwise.nil, ?_⟩) held
    intro e entry
    cases entry
  | put => exact rising l held
  | store _ => exact rising l held
  | consume old moved =>
    refine setReader_rising rising ?_ held
    rintro rfl
    exact moved_rising (inv.readers _ _ old) (rising _ old) (stored rfl _ old) moved
  | consumerDone old phase _ =>
    refine setReader_rising rising ?_ held
    rintro rfl
    exact (rising _ old).on rfl (by simp [Reader.at, Reader.position, phase])
  | send old =>
    refine setReader_rising rising ?_ held
    rintro rfl
    unfold Reader.send
    split
    · exact (rising _ old).on rfl (Nat.le_refl _)
    · exact rising _ old
  | take old _ =>
    refine setReader_rising rising ?_ held
    rintro rfl
    exact (rising _ old).on rfl (Nat.le_refl _)
  | close old =>
    refine setReader_rising rising ?_ held
    rintro rfl
    exact (rising _ old).on rfl (Nat.le_refl _)

/- What holds between any two entries of the log, in order, holds between any two that the
consumer has enqueued. -/
theorem Rising.pairwise {R : α → α → Prop} (rising : Rising k) (sound : Sound s k)
    (ordered : s.log.Pairwise R) : (k.enqueued.map Prod.snd).Pairwise R := by
  rw [List.pairwise_map]
  refine rising.positions.imp_of_mem ?_
  intro e f first second before
  obtain ⟨low, here⟩ := List.getElem?_eq_some_iff.mp (sound.entries e first)
  obtain ⟨high, there⟩ := List.getElem?_eq_some_iff.mp (sound.entries f second)
  rw [← here, ← there]
  exact List.pairwise_iff_getElem.mp ordered _ _ low high before

theorem step_log_same (quiet : ∀ data, a ≠ .put data) (taken : step cfg s a = some t) :
    t.log = s.log := by
  cases step_effect taken with
  | @put data => exact absurd rfl (quiet data)
  | connect => rfl
  | store => rfl
  | consume => rfl
  | consumerDone => rfl
  | send => rfl
  | take => rfl
  | close => rfl

end Rising

/- The ring of the server: 4096 slots, here with push channels of 256. -/
def serverConfig : Config := ⟨256, 4095⟩

/- Two Put calls that fill their slots in the other order, and a consumer that waits for
both. -/
def crossedPuts : List (Action Api.Bytes) :=
  [.connect 1, .put [7], .put [8], .store 1, .store 0, .consume 1, .consume 1, .consume 1, .consume 1,
    .consume 1]

theorem crossedPuts_exactly_once :
    ∃ u, run (step serverConfig) start crossedPuts = some u ∧
      ∀ k, u.readers 1 = some k → ExactlyOnce u k := by
  have keepsUp : Meets (step serverConfig) (KeepsUp serverConfig 1) start crossedPuts := by
    decide +kernel
  have stored : Meets (step serverConfig) (Stored serverConfig 1) start crossedPuts := by
    decide +kernel
  have finished : (run (step serverConfig) start crossedPuts).isSome = true := by decide +kernel
  obtain ⟨u, taken⟩ := Option.isSome_iff_exists.mp finished
  have exact := (consumer_exactly_once_iff keepsUp taken).mpr stored
  exact ⟨u, taken, exact crossedPuts u (List.prefix_refl _) taken⟩

/- The consumer reads between the two steps of a Put. -/
def earlyRead : List (Action Api.Bytes) :=
  [.connect 1, .put [7], .consume 1, .consume 1, .consume 1, .consume 1, .store 0]

/- The position is passed over: the consumer is at 1 and has enqueued nothing. -/
theorem position_skipped : Meets (step serverConfig) (KeepsUp serverConfig 1) start earlyRead ∧
    ∃ u k, run (step serverConfig) start earlyRead = some u ∧ u.readers 1 = some k ∧
      ¬ ExactlyOnce u k := by
  have keepsUp : Meets (step serverConfig) (KeepsUp serverConfig 1) start earlyRead := by
    decide +kernel
  have view : ((run (step serverConfig) start earlyRead).bind fun u =>
      (u.readers 1).map fun k => (k.first, k.position, k.enqueued)) = some (0, 1, []) := by
    decide +kernel
  obtain ⟨u, taken, rest⟩ := Option.bind_eq_some_iff.mp view
  obtain ⟨k, held, fields⟩ := Option.map_eq_some_iff.mp rest
  simp only [Prod.mk.injEq] at fields
  obtain ⟨first, position, enqueued⟩ := fields
  refine ⟨keepsUp, u, k, taken, held, ?_⟩
  intro exact
  have positions := exact.positions
  rw [first, position, enqueued] at positions
  simp at positions

end GameIM.Gateway.Ring
