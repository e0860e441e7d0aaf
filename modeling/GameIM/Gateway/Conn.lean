import Mathlib.Logic.Function.Basic
import GameIM.Lib.Machine
import GameIM.Gateway.Packets

/-! One client connection of internal/gateway/conn.go as a step machine: the write loop,
the ring consumer, and everybody who enqueues. The channels are never closed, so the
loops end by done only. A socket that failed or was closed takes no more bytes. -/
namespace GameIM.Gateway.Conn
open Lib Api

inductive Lane where
  | respCh
  | pushCh
  deriving DecidableEq, Repr

/- The positions between two channel operations or writes of writeLoop and drainAndClose. -/
inductive Writer where
  | select
  | drainResp
  | drainPush (left : Nat)
  | write
  | drain
  | drainWrite
  | stopped
  deriving DecidableEq, Repr

inductive Consumer where
  | top
  | load
  | wait
  | read (pos wp : Nat)
  | stopped
  deriving DecidableEq, Repr

/-- Where the packets are. `puts` are the ring positions that were taken and not yet
stored to. `wrote` and `accepted` record what was given to the socket and what the
channels took. -/
structure Flow where
  chan : Lane → List Packet
  slots : Nat → Option Packet
  puts : List (Nat × Packet)
  buf : List (Lane × Packet)
  up : Bool
  stream : Bytes
  wrote : List (Lane × Packet)
  accepted : List (Lane × Packet)

structure State where
  flow : Flow
  writePos : Nat
  cursor : Nat
  consumer : Consumer
  writer : Writer
  done : Bool

structure Config where
  sendChanSize : Nat
  mask : Nat

/- The loop of NewBroadcastRing: n is doubled while it is below the size. -/
def roundUp : Nat → Nat → Nat → Nat
  | 0, _, n => n
  | fuel + 1, size, n => if n < size then roundUp fuel size (2 * n) else n

def ringMask (size : Nat) : Nat := roundUp size size 1 - 1

/- A connection starts at the end of the ring, which may hold earlier broadcasts. -/
def newConn (slots : Nat → Option Packet) (puts : List (Nat × Packet)) (writePos : Nat) : State where
  flow :=
    { chan := fun _ => []
      slots := slots
      puts := puts
      buf := []
      up := true
      stream := []
      wrote := []
      accepted := [] }
  writePos := writePos
  cursor := writePos
  consumer := .top
  writer := .select
  done := false

inductive Action where
  | reply (cmd : ReplyCmd) (seq : UInt32) (payload : Bytes)
  | deliver (msg : ImMessage)
  | put (msg : ImMessage)
  | store (pos : Nat)
  | consume
  | consumerDone
  | take (lane : Lane)
  | proceed
  | write (failed : Option Nat)
  | closeDone
  | closeSocket

def respChanSize : Nat := 64

/- A send on a buffered channel that is dropped when the channel is full. -/
def Flow.offer (f : Flow) (lane : Lane) (size : Nat) (p : Packet) : Flow :=
  if (f.chan lane).length < size then
    { f with
      chan := Function.update f.chan lane (f.chan lane ++ [p])
      accepted := f.accepted ++ [(lane, p)] }
  else f

def Flow.take (f : Flow) (lane : Lane) (p : Packet) (rest : List Packet) : Flow :=
  { f with chan := Function.update f.chan lane rest, buf := f.buf ++ [(lane, p)] }

def bytesOf (ps : List (Lane × Packet)) : Bytes := (ps.map Prod.snd).flatMap Packet.data

/- The buffer is empty after a write, as buf[:0] makes it. -/
def Flow.write (f : Flow) (failed : Option Nat) : Flow :=
  { f with
    stream := f.stream ++ (if f.up then match failed with
      | none => bytesOf f.buf
      | some n => (bytesOf f.buf).take n else [])
    up := f.up && failed.isNone
    wrote := f.wrote ++ f.buf
    buf := [] }

def State.offer (s : State) (lane : Lane) (size : Nat) (p : Option Packet) : State :=
  match p with
  | none => s
  | some p => { s with flow := s.flow.offer lane size p }

/- Skip to the entries that the ring still holds. -/
def readFrom (cfg : Config) (cursor wp : Nat) : Nat :=
  if wp - cursor > cfg.mask + 1 then wp - (cfg.mask + 1) else cursor

def consume (cfg : Config) (s : State) : Option State :=
  match s.consumer with
  | .top => some { s with consumer := if s.done then .stopped else .load }
  | .load =>
    if s.cursor ≥ s.writePos then some { s with consumer := .wait }
    else some { s with consumer := .read (readFrom cfg s.cursor s.writePos) s.writePos }
  | .wait => if s.writePos > s.cursor then some { s with consumer := .top } else none
  | .read pos wp =>
    if pos < wp then
      some { s.offer .pushCh cfg.sendChanSize (s.flow.slots (pos &&& cfg.mask)) with
        consumer := .read (pos + 1) wp }
    else some { s with cursor := wp, consumer := .top }
  | .stopped => none

def afterTake : Writer → Lane → Option Writer
  | .select, _ => some .drainResp
  | .drainResp, .respCh => some .drainResp
  | .drainPush (left + 1), .pushCh => some (.drainPush left)
  | .drain, _ => some .drainWrite
  | _, _ => none

/- The default and the done branches. -/
def proceed (s : State) : Option Writer :=
  match s.writer with
  | .select => if s.done then some .drain else none
  | .drainResp => if s.flow.chan .respCh = [] then some (.drainPush 256) else none
  | .drainPush left => if left = 0 ∨ s.flow.chan .pushCh = [] then some .write else none
  | .drain => if s.flow.chan .respCh = [] ∧ s.flow.chan .pushCh = [] then some .stopped else none
  | _ => none

def afterWrite (ok : Bool) : Writer → Option Writer
  | .write => some (if ok then .select else .stopped)
  | .drainWrite => some .drain
  | _ => none

def step (protos : Protos) (cfg : Config) (s : State) : Action → Option State
  | .reply cmd seq payload => some (s.offer .respCh respChanSize (reply protos cmd seq payload))
  | .deliver msg => some (s.offer .pushCh cfg.sendChanSize (marshalPush protos msg))
  | .put msg => match broadcastNotify protos msg with
    | none => some s
    | some p => some { s with
        writePos := s.writePos + 1
        flow := { s.flow with puts := s.flow.puts ++ [(s.writePos, p)] } }
  | .store pos => match s.flow.puts.lookup pos with
    | none => none
    | some p => some { s with flow := { s.flow with
        slots := Function.update s.flow.slots (pos &&& cfg.mask) (some p)
        puts := s.flow.puts.filter (·.1 ≠ pos) } }
  | .consume => consume cfg s
  | .consumerDone =>
    if s.consumer = .wait ∧ s.done then some { s with consumer := .stopped } else none
  | .take lane => match s.flow.chan lane, afterTake s.writer lane with
    | p :: rest, some writer => some { s with flow := s.flow.take lane p rest, writer := writer }
    | _, _ => none
  | .proceed => (proceed s).map fun writer => { s with writer := writer }
  | .write failed =>
    if failed = none ∧ s.flow.up = false then none
    else (afterWrite failed.isNone s.writer).map fun writer =>
      { s with flow := s.flow.write failed, writer := writer }
  | .closeDone => if s.done then none else some { s with done := true }
  | .closeSocket => if s.done then some { s with flow := { s.flow with up := false } } else none

inductive Effect (protos : Protos) (cfg : Config) (s : State) : Action → Flow → Prop where
  | same {a} : Effect protos cfg s a s.flow
  | reply {cmd seq payload p} : reply protos cmd seq payload = some p →
      Effect protos cfg s (.reply cmd seq payload) (s.flow.offer .respCh respChanSize p)
  | deliver {msg p} : marshalPush protos msg = some p →
      Effect protos cfg s (.deliver msg) (s.flow.offer .pushCh cfg.sendChanSize p)
  | put {msg p} : broadcastNotify protos msg = some p →
      Effect protos cfg s (.put msg) { s.flow with puts := s.flow.puts ++ [(s.writePos, p)] }
  | store {pos p} : (pos, p) ∈ s.flow.puts →
      Effect protos cfg s (.store pos) { s.flow with
        slots := Function.update s.flow.slots (pos &&& cfg.mask) (some p)
        puts := s.flow.puts.filter (·.1 ≠ pos) }
  | get {i p} : s.flow.slots i = some p →
      Effect protos cfg s .consume (s.flow.offer .pushCh cfg.sendChanSize p)
  | take {lane p rest} : s.flow.chan lane = p :: rest →
      Effect protos cfg s (.take lane) (s.flow.take lane p rest)
  | write {failed} : (failed = none → s.flow.up = true) →
      Effect protos cfg s (.write failed) (s.flow.write failed)
  | closeSocket : Effect protos cfg s .closeSocket { s.flow with up := false }

section Effect

variable {protos : Protos} {cfg : Config} {s t : State}

theorem consume_effect (taken : consume cfg s = some t) :
    Effect protos cfg s .consume t.flow := by
  unfold consume at taken
  split at taken
  · cases Option.some.inj taken
    exact .same
  · split at taken
    · cases Option.some.inj taken
      exact .same
    · cases Option.some.inj taken
      exact .same
  · split at taken
    · cases Option.some.inj taken
      exact .same
    · contradiction
  · split at taken
    · cases Option.some.inj taken
      rename_i pos _ _ _
      cases held : s.flow.slots (pos &&& cfg.mask) with
      | none => exact .same
      | some p => exact .get held
    · cases Option.some.inj taken
      exact .same
  · contradiction

theorem mem_of_lookup {α : Type} {pos : Nat} {p : α} {puts : List (Nat × α)}
    (found : puts.lookup pos = some p) : (pos, p) ∈ puts := by
  obtain ⟨front, back, rfl, _⟩ := List.lookup_eq_some_iff.mp found
  simp

theorem step_effect {a : Action} (taken : step protos cfg s a = some t) :
    Effect protos cfg s a t.flow := by
  cases a with
  | reply cmd seq payload =>
    cases Option.some.inj taken
    cases made : Gateway.reply protos cmd seq payload with
    | none => exact .same
    | some p => exact .reply made
  | deliver msg =>
    cases Option.some.inj taken
    cases made : marshalPush protos msg with
    | none => exact .same
    | some p => exact .deliver made
  | put msg =>
    simp only [step] at taken
    split at taken
    · cases Option.some.inj taken
      exact .same
    · rename_i p made
      cases Option.some.inj taken
      exact .put made
  | store pos =>
    simp only [step] at taken
    split at taken
    · contradiction
    · rename_i p found
      cases Option.some.inj taken
      exact .store (mem_of_lookup found)
  | consume => exact consume_effect taken
  | consumerDone =>
    simp only [step] at taken
    split at taken
    · cases Option.some.inj taken
      exact .same
    · contradiction
  | take lane =>
    simp only [step] at taken
    split at taken
    · rename_i p rest writer held _
      cases Option.some.inj taken
      exact .take held
    · contradiction
  | proceed =>
    simp only [step, Option.map_eq_some_iff] at taken
    obtain ⟨writer, _, rfl⟩ := taken
    exact .same
  | write failed =>
    simp only [step] at taken
    split at taken
    · contradiction
    · rename_i possible
      obtain ⟨writer, _, rfl⟩ := Option.map_eq_some_iff.mp taken
      exact .write (fun ok => Bool.of_not_eq_false (fun down => possible ⟨ok, down⟩))
  | closeDone =>
    simp only [step] at taken
    split at taken
    · contradiction
    · cases Option.some.inj taken
      exact .same
  | closeSocket =>
    simp only [step] at taken
    split at taken
    · cases Option.some.inj taken
      exact .closeSocket
    · contradiction

end Effect

end GameIM.Gateway.Conn
