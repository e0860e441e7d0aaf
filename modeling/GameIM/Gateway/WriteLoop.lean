import GameIM.Gateway.ConnStream

/-! Conn.writeLoop between the callers of Send and SendResp and the socket, one channel
operation or Write at a time. A frame is anything that has bytes. -/
namespace GameIM.Gateway.WriteLoop
open Lib Api
open Conn (Lane respChanSize afterTake afterWrite)

variable {α : Type}

/-- The frames of one Write, and the number of responses that respCh had accepted when the
loop that drains it found it empty. -/
structure Write (α : Type) where
  frames : List (Lane × α)
  seen : Nat

/-- `buf` is what the next Write is given. `calls` records each Send and SendResp with its
result, `frames` and `seen` the Write under way, and `writes` the ones before it. -/
structure State (α : Type) where
  chan : Lane → List α
  writer : Conn.Writer
  buf : Bytes
  done : Bool
  up : Bool
  stream : Bytes
  calls : List ((Lane × α) × Bool)
  frames : List (Lane × α)
  seen : Nat
  writes : List (Write α)

inductive Action (α : Type) where
  | send (lane : Lane) (p : α)
  | meet (lane : Lane) (p : α)
  | take (lane : Lane)
  | proceed
  | write (failed : Option Nat)
  | closeDone
  | closeSocket
  deriving DecidableEq, Repr

def start : State α := ⟨fun _ => [], .select, [], false, true, [], [], [], 0, []⟩

def capacity (sendChanSize : Nat) : Lane → Nat
  | .respCh => respChanSize
  | .pushCh => sendChanSize

def onLane (lane : Lane) (fs : List (Lane × α)) : List α := (fs.filter (·.1 = lane)).map Prod.snd

/- The frames whose Send or SendResp returned true. -/
def accepted (calls : List ((Lane × α) × Bool)) : List (Lane × α) := (calls.filter (·.2)).map Prod.fst

def bytesOf (data : α → Bytes) (fs : List (Lane × α)) : Bytes := (fs.map Prod.snd).flatMap data

def State.written (s : State α) : List (Lane × α) := s.writes.flatMap Write.frames

def State.offer (s : State α) (size : Nat) (lane : Lane) (p : α) : State α :=
  if (s.chan lane).length < size then
    { s with
      chan := Function.update s.chan lane (s.chan lane ++ [p])
      calls := s.calls ++ [((lane, p), true)] }
  else { s with calls := s.calls ++ [((lane, p), false)] }

/- The first receive of an iteration overwrites the buffer, the others append to it. -/
def State.receive (data : α → Bytes) (s : State α) (lane : Lane) (p : α) (rest : List α) (writer : Conn.Writer) :
    State α :=
  { s with
    chan := Function.update s.chan lane rest
    writer := writer
    buf := match s.writer with
      | .drainResp => s.buf ++ data p
      | .drainPush _ => s.buf ++ data p
      | _ => data p
    frames := s.frames ++ [(lane, p)] }

/- A send that meets the receive writeLoop waits in goes past the buffer of the channel. -/
def State.meet (data : α → Bytes) (s : State α) (lane : Lane) (p : α) : State α :=
  { s with
    writer := .drainResp
    buf := data p
    calls := s.calls ++ [((lane, p), true)]
    frames := s.frames ++ [(lane, p)] }

/- The default and the done branches. -/
def proceed (s : State α) : Option Conn.Writer :=
  match s.writer with
  | .select => if s.done then some .drain else none
  | .drainResp => if (s.chan .respCh).isEmpty then some (.drainPush 256) else none
  | .drainPush left => if left = 0 ∨ (s.chan .pushCh).isEmpty then some .write else none
  | .drain => if (s.chan .respCh).isEmpty ∧ (s.chan .pushCh).isEmpty then some .stopped else none
  | _ => none

def State.goOn (s : State α) (writer : Conn.Writer) : State α :=
  { s with
    writer := writer
    seen := if s.writer = .drainResp then (onLane .respCh (accepted s.calls)).length else s.seen }

def State.finish (s : State α) (failed : Option Nat) (writer : Conn.Writer) : State α :=
  { s with
    writer := writer
    stream := s.stream ++ (if s.up then match failed with
      | none => s.buf
      | some n => s.buf.take n else [])
    up := s.up && failed.isNone
    writes := s.writes ++ [⟨s.frames, s.seen⟩]
    frames := [] }

def step (data : α → Bytes) (sendChanSize : Nat) (s : State α) : Action α → Option (State α)
  | .send lane p => some (s.offer (capacity sendChanSize lane) lane p)
  | .meet lane p =>
    if s.writer = .select ∧ (s.chan lane).isEmpty then some (s.meet data lane p) else none
  | .take lane => match s.chan lane, afterTake s.writer lane with
    | p :: rest, some writer => some (s.receive data lane p rest writer)
    | _, _ => none
  | .proceed => (proceed s).map s.goOn
  | .write failed =>
    if failed = none ∧ s.up = false then none
    else (afterWrite failed.isNone s.writer).map (s.finish failed)
  | .closeDone => if s.done then none else some { s with done := true }
  | .closeSocket => if s.done then some { s with up := false } else none

inductive Effect (data : α → Bytes) (sendChanSize : Nat) (s : State α) : Action α → State α → Prop where
  | send {lane p} : Effect data sendChanSize s (.send lane p) (s.offer (capacity sendChanSize lane) lane p)
  | meet {lane p} : s.writer = .select → s.chan lane = [] →
      Effect data sendChanSize s (.meet lane p) (s.meet data lane p)
  | take {lane p rest writer} : s.chan lane = p :: rest → afterTake s.writer lane = some writer →
      Effect data sendChanSize s (.take lane) (s.receive data lane p rest writer)
  | proceed {writer} : proceed s = some writer → Effect data sendChanSize s .proceed (s.goOn writer)
  | write {failed writer} : (failed = none → s.up = true) → afterWrite failed.isNone s.writer = some writer →
      Effect data sendChanSize s (.write failed) (s.finish failed writer)
  | closeDone : s.done = false → Effect data sendChanSize s .closeDone { s with done := true }
  | closeSocket : s.done = true → Effect data sendChanSize s .closeSocket { s with up := false }

theorem step_effect {data : α → Bytes} {sendChanSize : Nat} {s t : State α} {a : Action α}
    (taken : step data sendChanSize s a = some t) : Effect data sendChanSize s a t := by
  cases a with
  | send lane p =>
    cases Option.some.inj taken
    exact .send
  | meet lane p =>
    simp only [step] at taken
    split at taken
    · rename_i waiting
      cases Option.some.inj taken
      exact .meet waiting.1 (List.isEmpty_iff.mp waiting.2)
    · contradiction
  | take lane =>
    simp only [step] at taken
    split at taken
    · rename_i p rest writer held next
      cases Option.some.inj taken
      exact .take held next
    · contradiction
  | proceed =>
    obtain ⟨writer, next, rfl⟩ := Option.map_eq_some_iff.mp taken
    exact .proceed next
  | write failed =>
    simp only [step] at taken
    split at taken
    · contradiction
    · rename_i possible
      obtain ⟨writer, next, rfl⟩ := Option.map_eq_some_iff.mp taken
      exact .write (fun ok => Bool.of_not_eq_false fun down => possible ⟨ok, down⟩) next
  | closeDone =>
    simp only [step] at taken
    split at taken
    · contradiction
    · rename_i undone
      cases Option.some.inj taken
      exact .closeDone (Bool.of_not_eq_true undone)
  | closeSocket =>
    simp only [step] at taken
    split at taken
    · rename_i done
      cases Option.some.inj taken
      exact .closeSocket done
    · contradiction

section Lists

variable (lane : Lane) (fs gs : List (Lane × α))

@[simp] theorem onLane_append : onLane lane (fs ++ gs) = onLane lane fs ++ onLane lane gs := by
  simp [onLane]

theorem onLane_single (other : Lane) (p : α) : onLane lane [(other, p)] = if other = lane then [p] else [] := by
  by_cases here : other = lane
  · simp [onLane, here]
  · simp [onLane, here]

@[simp] theorem accepted_true (calls : List ((Lane × α) × Bool)) (e : Lane × α) :
    accepted (calls ++ [(e, true)]) = accepted calls ++ [e] := by
  simp [accepted]

@[simp] theorem accepted_false (calls : List ((Lane × α) × Bool)) (e : Lane × α) :
    accepted (calls ++ [(e, false)]) = accepted calls := by
  simp [accepted]

@[simp] theorem bytesOf_append (data : α → Bytes) : bytesOf data (fs ++ gs) = bytesOf data fs ++ bytesOf data gs := by
  simp [bytesOf]

end Lists

/-- One Write: a first frame of either channel, then responses, then pushes. -/
def batch (first : Lane × α) (rs ps : List α) : List (Lane × α) :=
  first :: (rs.map (Prod.mk .respCh) ++ ps.map (Prod.mk .pushCh))

theorem batch_resp (first : Lane × α) (rs : List α) (p : α) :
    batch first rs [] ++ [(.respCh, p)] = batch first (rs ++ [p]) [] := by
  simp [batch]

theorem batch_push (first : Lane × α) (rs ps : List α) (p : α) :
    batch first rs ps ++ [(.pushCh, p)] = batch first rs (ps ++ [p]) := by
  simp [batch]

def Through (part whole : List α) (n : Nat) : Prop := n ≤ whole.length ∧ part = whole.take n

theorem Through.grow {part whole : List α} {n : Nat} (through : Through part whole n) (more : List α) :
    Through part (whole ++ more) n := by
  refine ⟨?_, ?_⟩
  · rw [List.length_append]
    exact Nat.le_add_right_of_le through.1
  · rw [List.take_append_of_le_length through.1]
    exact through.2

theorem through_all (whole : List α) : Through whole whole whole.length := by
  refine ⟨Nat.le_refl _, ?_⟩
  rw [List.take_length]

def State.responses (s : State α) : List α := onLane .respCh (accepted s.calls)

/- All responses that the drain loop saw are in this Write or in an earlier one. -/
def Drained (s : State α) : Prop := Through (onLane .respCh (s.written ++ s.frames)) s.responses s.seen

def Stage (s : State α) : Conn.Writer → Prop
  | .select => s.frames = []
  | .drainResp => ∃ first rs, s.frames = batch first rs []
  | .drainPush left => Drained s ∧ ∃ first rs ps, s.frames = batch first rs ps ∧ ps.length + left = 256
  | .write => Drained s ∧ ∃ first rs ps, s.frames = batch first rs ps ∧ ps.length ≤ 256
  | _ => False

/-- A Write that is done: what it was made of, and that it has the responses it should. -/
structure Recorded (writes : List (Write α)) (accepted : List α) (k : Nat) (w : Write α) : Prop where
  shape : ∃ first rs ps, w.frames = batch first rs ps ∧ ps.length ≤ 256
  responses : Through (onLane .respCh ((writes.take (k + 1)).flatMap Write.frames)) accepted w.seen

structure Inv (data : α → Bytes) (s : State α) : Prop where
  lanes : ∀ lane, onLane lane (s.written ++ s.frames) ++ s.chan lane = onLane lane (accepted s.calls)
  stream : s.stream = bytesOf data s.written
  buf : s.frames ≠ [] → s.buf = bytesOf data s.frames
  stage : Stage s s.writer
  writes : ∀ k w, s.writes[k]? = some w → Recorded s.writes s.responses k w

section Inv

variable {data : α → Bytes} {sendChanSize : Nat} {s t : State α} {a : Action α}

theorem start_inv : Inv data (start : State α) := by
  refine ⟨fun _ => rfl, rfl, ?_, rfl, ?_⟩
  · intro filled
    contradiction
  · intro k w found
    contradiction

theorem Stage.grow {writer : Conn.Writer} (stage : Stage s writer) {more : List α}
    (responses : t.responses = s.responses ++ more) (frames : t.frames = s.frames) (seen : t.seen = s.seen)
    (writes : t.writes = s.writes) : Stage t writer := by
  have drained : Drained s → Drained t := by
    intro through
    unfold Drained State.written
    rw [writes, frames, responses, seen]
    exact through.grow more
  cases writer with
  | select => exact frames.trans stage
  | drainResp =>
    obtain ⟨first, rs, shape⟩ := stage
    exact ⟨first, rs, frames.trans shape⟩
  | drainPush left =>
    obtain ⟨through, first, rs, ps, shape, count⟩ := stage
    exact ⟨drained through, first, rs, ps, frames.trans shape, count⟩
  | write =>
    obtain ⟨through, first, rs, ps, shape, count⟩ := stage
    exact ⟨drained through, first, rs, ps, frames.trans shape, count⟩
  | drain => exact stage
  | drainWrite => exact stage
  | stopped => exact stage

theorem Recorded.grow {writes : List (Write α)} {before after more : List α} {k : Nat} {w : Write α}
    (recorded : Recorded writes before k w) (grown : after = before ++ more) : Recorded writes after k w := by
  refine ⟨recorded.shape, ?_⟩
  rw [grown]
  exact recorded.responses.grow more

theorem Inv.offer (inv : Inv data s) (size : Nat) (lane : Lane) (p : α) : Inv data (s.offer size lane p) := by
  unfold State.offer
  split
  · have responses : onLane .respCh (accepted (s.calls ++ [((lane, p), true)])) =
        s.responses ++ onLane .respCh [(lane, p)] := by
      rw [accepted_true, onLane_append]
      rfl
    refine ⟨?_, inv.stream, inv.buf, inv.stage.grow responses rfl rfl rfl,
      fun k w found => (inv.writes k w found).grow responses⟩
    intro other
    have before := inv.lanes other
    show _ ++ Function.update s.chan lane (s.chan lane ++ [p]) other = _
    rw [accepted_true, onLane_append other (accepted s.calls), ← before, onLane_single]
    by_cases here : lane = other
    · subst here
      rw [Function.update_self, if_pos rfl, List.append_assoc]
      rfl
    · rw [Function.update_of_ne (Ne.symm here), if_neg here, List.append_nil]
      rfl
  · have same : accepted (s.calls ++ [((lane, p), false)]) = accepted s.calls := accepted_false _ _
    have responses : onLane .respCh (accepted (s.calls ++ [((lane, p), false)])) = s.responses ++ [] := by
      rw [same, List.append_nil]
      rfl
    refine ⟨?_, inv.stream, inv.buf, inv.stage.grow responses rfl rfl rfl,
      fun k w found => (inv.writes k w found).grow responses⟩
    intro other
    rw [same]
    exact inv.lanes other

theorem receive_lanes (inv : Inv data s) {lane : Lane} {p : α} {rest : List α} (held : s.chan lane = p :: rest)
    (other : Lane) :
    onLane other (s.written ++ (s.frames ++ [(lane, p)])) ++ Function.update s.chan lane rest other =
      onLane other (accepted s.calls) := by
  have before := inv.lanes other
  rw [← List.append_assoc, onLane_append other (s.written ++ s.frames), onLane_single]
  by_cases here : lane = other
  · subst here
    rw [Function.update_self, if_pos rfl, ← before, held, List.append_assoc]
    rfl
  · rw [Function.update_of_ne (Ne.symm here), if_neg here, List.append_nil]
    exact before

theorem Inv.first (inv : Inv data s) (idle : s.writer = .select) {lane : Lane} {p : α} {rest : List α}
    (held : s.chan lane = p :: rest) : Inv data (s.receive data lane p rest .drainResp) := by
  have stage := inv.stage
  rw [idle] at stage
  have empty : s.frames = [] := stage
  refine ⟨receive_lanes inv held, inv.stream, ?_, ⟨(lane, p), [], ?_⟩, inv.writes⟩
  · intro _
    simp only [State.receive, idle, empty]
    simp [bytesOf]
  · simp only [State.receive, empty]
    rfl

theorem Inv.resp (inv : Inv data s) (draining : s.writer = .drainResp) {p : α} {rest : List α}
    (held : s.chan .respCh = p :: rest) : Inv data (s.receive data .respCh p rest .drainResp) := by
  have stage := inv.stage
  rw [draining] at stage
  obtain ⟨first, rs, shape⟩ := stage
  have filled : s.buf = bytesOf data s.frames := inv.buf (by rw [shape]; exact List.cons_ne_nil _ _)
  refine ⟨receive_lanes inv held, inv.stream, ?_, ⟨first, rs ++ [p], ?_⟩, inv.writes⟩
  · intro _
    simp only [State.receive, draining, filled, bytesOf_append]
    simp [bytesOf]
  · simp only [State.receive, shape, batch_resp]

theorem Inv.push (inv : Inv data s) {left : Nat} (draining : s.writer = .drainPush (left + 1)) {p : α}
    {rest : List α} (held : s.chan .pushCh = p :: rest) :
    Inv data (s.receive data .pushCh p rest (.drainPush left)) := by
  have stage := inv.stage
  rw [draining] at stage
  obtain ⟨through, first, rs, ps, shape, count⟩ := stage
  have filled : s.buf = bytesOf data s.frames := inv.buf (by rw [shape]; exact List.cons_ne_nil _ _)
  refine ⟨receive_lanes inv held, inv.stream, ?_, ⟨?_, first, rs, ps ++ [p], ?_, ?_⟩, inv.writes⟩
  · intro _
    simp only [State.receive, draining, filled, bytesOf_append]
    simp [bytesOf]
  · show Through (onLane .respCh (s.written ++ (s.frames ++ [(.pushCh, p)]))) s.responses s.seen
    rw [← List.append_assoc, onLane_append, onLane_single, if_neg (by decide), List.append_nil]
    exact through
  · simp only [State.receive, shape, batch_push]
  · rw [List.length_append, List.length_singleton]
    omega

theorem Inv.meet (inv : Inv data s) (idle : s.writer = .select) {lane : Lane} (unused : s.chan lane = [])
    (p : α) : Inv data (s.meet data lane p) := by
  have stage := inv.stage
  rw [idle] at stage
  have empty : s.frames = [] := stage
  have responses : (s.meet data lane p).responses = s.responses ++ onLane .respCh [(lane, p)] := by
    simp only [State.responses, State.meet, accepted_true, onLane_append]
  refine ⟨?_, inv.stream, ?_, ⟨(lane, p), [], ?_⟩, fun k w found => (inv.writes k w found).grow responses⟩
  · intro other
    have before := inv.lanes other
    show onLane other (s.written ++ (s.frames ++ [(lane, p)])) ++ s.chan other =
      onLane other (accepted (s.calls ++ [((lane, p), true)]))
    rw [accepted_true, onLane_append other (accepted s.calls), ← before, ← List.append_assoc,
      onLane_append other (s.written ++ s.frames), onLane_single]
    by_cases here : lane = other
    · subst here
      rw [unused, List.append_nil, List.append_nil]
    · rw [if_neg here, List.append_nil, List.append_nil]
  · intro _
    simp only [State.meet, empty]
    simp [bytesOf]
  · simp only [State.meet, empty]
    rfl

theorem Inv.drained (inv : Inv data s) (draining : s.writer = .drainResp) (empty : s.chan .respCh = []) :
    Inv data (s.goOn (.drainPush 256)) := by
  have stage := inv.stage
  rw [draining] at stage
  obtain ⟨first, rs, shape⟩ := stage
  refine ⟨inv.lanes, inv.stream, inv.buf, ⟨?_, first, rs, [], shape, rfl⟩, inv.writes⟩
  have all := inv.lanes .respCh
  rw [empty, List.append_nil] at all
  have seen : (s.goOn (.drainPush 256)).seen = s.responses.length := by
    simp only [State.goOn, draining, if_true, State.responses]
  show Through (onLane .respCh (s.written ++ s.frames)) s.responses (s.goOn (.drainPush 256)).seen
  rw [seen, all]
  exact through_all _

theorem Inv.collected (inv : Inv data s) {left : Nat} (draining : s.writer = .drainPush left) :
    Inv data (s.goOn .write) := by
  have stage := inv.stage
  rw [draining] at stage
  obtain ⟨through, first, rs, ps, shape, count⟩ := stage
  refine ⟨inv.lanes, inv.stream, inv.buf, ⟨?_, first, rs, ps, shape, by omega⟩, inv.writes⟩
  have seen : (s.goOn .write).seen = s.seen := by
    simp [State.goOn, draining]
  show Through (onLane .respCh (s.written ++ s.frames)) s.responses (s.goOn .write).seen
  rw [seen]
  exact through

theorem Inv.finish (inv : Inv data s) (writing : s.writer = .write) (up : s.up = true) :
    Inv data (s.finish none .select) := by
  have stage := inv.stage
  rw [writing] at stage
  obtain ⟨through, first, rs, ps, shape, count⟩ := stage
  have filled : s.buf = bytesOf data s.frames := inv.buf (by rw [shape]; exact List.cons_ne_nil _ _)
  have written : (s.finish none .select).written = s.written ++ s.frames := by
    simp [State.written, State.finish]
  refine ⟨?_, ?_, ?_, rfl, ?_⟩
  · intro lane
    rw [written]
    show onLane lane (s.written ++ s.frames ++ []) ++ s.chan lane = onLane lane (accepted s.calls)
    rw [List.append_nil]
    exact inv.lanes lane
  · rw [written, bytesOf_append, ← inv.stream, ← filled]
    simp [State.finish, up]
  · intro none
    contradiction
  · intro k w found
    show Recorded (s.writes ++ [⟨s.frames, s.seen⟩]) s.responses k w
    replace found : (s.writes ++ [⟨s.frames, s.seen⟩])[k]? = some w := found
    by_cases old : k < s.writes.length
    · rw [List.getElem?_append_left old] at found
      have before := inv.writes k w found
      refine ⟨before.shape, ?_⟩
      rw [List.take_append_of_le_length (by omega)]
      exact before.responses
    · rw [List.getElem?_append_right (by omega)] at found
      obtain ⟨bound, same⟩ := List.getElem?_eq_some_iff.mp found
      rw [List.length_singleton] at bound
      have last : k = s.writes.length := by omega
      subst last
      simp only [Nat.sub_self, List.getElem_cons_zero] at same
      subst same
      refine ⟨⟨first, rs, ps, shape, count⟩, ?_⟩
      rw [List.take_of_length_le (by simp)]
      have all : (s.writes ++ [(⟨s.frames, s.seen⟩ : Write α)]).flatMap Write.frames = s.written ++ s.frames := by
        simp [State.written]
      rw [all]
      exact through

/- Before the first Close and the first failed Write. -/
structure Open (s : State α) : Prop where
  undone : s.done = false
  up : s.up = true

theorem open_of_offer {size : Nat} {lane : Lane} {p : α} (opened : Open (s.offer size lane p)) : Open s := by
  unfold State.offer at opened
  split at opened
  · exact ⟨opened.undone, opened.up⟩
  · exact ⟨opened.undone, opened.up⟩

theorem take_inv (inv : Inv data s) {lane : Lane} {p : α} {rest : List α} {writer : Conn.Writer}
    (held : s.chan lane = p :: rest) (next : afterTake s.writer lane = some writer) :
    Inv data (s.receive data lane p rest writer) := by
  have stage := inv.stage
  unfold afterTake at next
  split at next
  · rename_i idle
    cases Option.some.inj next
    exact inv.first idle held
  · rename_i draining
    cases Option.some.inj next
    exact inv.resp draining held
  · rename_i draining
    cases Option.some.inj next
    exact inv.push draining held
  · rename_i draining
    rw [draining] at stage
    exact stage.elim
  · contradiction

theorem proceed_inv (inv : Inv data s) (undone : s.done = false) {writer : Conn.Writer}
    (next : proceed s = some writer) : Inv data (s.goOn writer) := by
  have stage := inv.stage
  unfold proceed at next
  split at next
  · simp [undone] at next
  · rename_i draining
    split at next
    · rename_i empty
      cases Option.some.inj next
      exact inv.drained draining (List.isEmpty_iff.mp empty)
    · contradiction
  · rename_i draining
    split at next
    · cases Option.some.inj next
      exact inv.collected draining
    · contradiction
  · rename_i draining
    rw [draining] at stage
    exact stage.elim
  · contradiction

theorem write_inv (inv : Inv data s) (up : s.up = true) {writer : Conn.Writer}
    (next : afterWrite true s.writer = some writer) : Inv data (s.finish none writer) := by
  have stage := inv.stage
  unfold afterWrite at next
  split at next
  · rename_i writing
    cases Option.some.inj next
    exact inv.finish writing up
  · rename_i writing
    rw [writing] at stage
    exact stage.elim
  · contradiction

theorem step_inv (holds : Open s → Inv data s) (taken : step data sendChanSize s a = some t) :
    Open t → Inv data t := by
  intro opened
  cases step_effect taken with
  | send => exact (holds (open_of_offer opened)).offer _ _ _
  | meet idle unused => exact (holds ⟨opened.undone, opened.up⟩).meet idle unused _
  | take held next => exact take_inv (holds ⟨opened.undone, opened.up⟩) held next
  | proceed next => exact proceed_inv (holds ⟨opened.undone, opened.up⟩) opened.undone next
  | @write failed writer possible next =>
    cases failed with
    | none => exact write_inv (holds ⟨opened.undone, possible rfl⟩) (possible rfl) next
    | some n =>
      have up := opened.up
      simp [State.finish] at up
  | closeDone => exact absurd opened.undone (by simp)
  | closeSocket => exact absurd opened.up (by simp)

theorem run_inv {as : List (Action α)} (taken : run (step data sendChanSize) start as = some s)
    (opened : Open s) : Inv data s :=
  run_invariant (fun s => Open s → Inv data s) (fun _ _ _ holds last => step_inv holds last)
    (fun _ => start_inv) taken opened

end Inv

/-- Until the first Close or failed Write, in any interleaving: each channel's accepted
frames are the ones written, the ones of the Write under way and the ones still queued, in
their order; the socket has the whole bytes of what was written; and each Write has a first
frame, then responses, then at most 256 pushes, and with the Writes before it all responses
that were accepted when its loop found respCh empty. -/
theorem writes_merge_channels (data : α → Bytes) (sendChanSize : Nat) (as : List (Action α)) (s : State α)
    (taken : run (step data sendChanSize) start as = some s) (undone : s.done = false) (up : s.up = true) :
    (∀ lane, onLane lane s.written ++ (onLane lane s.frames ++ s.chan lane) = onLane lane (accepted s.calls)) ∧
    s.stream = bytesOf data s.written ∧
    ∀ k w, s.writes[k]? = some w →
      (∃ first rs ps, w.frames = batch first rs ps ∧ ps.length ≤ 256) ∧
      w.seen ≤ (onLane .respCh (accepted s.calls)).length ∧
      onLane .respCh ((s.writes.take (k + 1)).flatMap Write.frames) =
        (onLane .respCh (accepted s.calls)).take w.seen := by
  have inv := run_inv taken ⟨undone, up⟩
  refine ⟨?_, inv.stream, ?_⟩
  · intro lane
    rw [← List.append_assoc, ← onLane_append]
    exact inv.lanes lane
  · intro k w found
    have recorded := inv.writes k w found
    exact ⟨recorded.shape, recorded.responses⟩

/- A push comes first, two responses follow it into the same Write, and a third one, which
came after the loop had found respCh empty, into the next. -/
def overtaken : List (Action Nat) :=
  [.meet .pushCh 1, .send .respCh 10, .send .pushCh 2, .send .respCh 11, .send .pushCh 3, .take .respCh,
    .take .respCh, .proceed, .send .respCh 12, .take .pushCh, .proceed, .write none, .take .respCh]

theorem writes_merge_overtaken :
    ∃ s w, run (step (fun n => [UInt8.ofNat n]) 1) start overtaken = some s ∧ s.writes[0]? = some w ∧
      s.stream = [1, 10, 11, 2] ∧
      onLane .pushCh s.written ++ (onLane .pushCh s.frames ++ s.chan .pushCh) = [1, 2] ∧
      onLane .respCh ((s.writes.take 1).flatMap Write.frames) = [10, 11] := by
  have ran : (run (step (fun n => [UInt8.ofNat n]) 1) start overtaken).isSome := by decide +kernel
  obtain ⟨s, taken⟩ := Option.isSome_iff_exists.mp ran
  have flags : (run (step (fun n => [UInt8.ofNat n]) 1) start overtaken).map
      (fun s => (s.done, s.up, s.writes.map Write.seen)) = some (false, true, [2]) := by decide +kernel
  have written : (run (step (fun n => [UInt8.ofNat n]) 1) start overtaken).map State.written =
      some [(.pushCh, 1), (.respCh, 10), (.respCh, 11), (.pushCh, 2)] := by decide +kernel
  have calls : (run (step (fun n => [UInt8.ofNat n]) 1) start overtaken).map (accepted ·.calls) =
      some [(.pushCh, 1), (.respCh, 10), (.pushCh, 2), (.respCh, 11), (.respCh, 12)] := by decide +kernel
  rw [taken] at flags written calls
  simp only [Option.map_some, Option.some.injEq, Prod.mk.injEq] at flags written calls
  obtain ⟨undone, up, seen⟩ := flags
  obtain ⟨lanes, stream, each⟩ := writes_merge_channels _ 1 overtaken s taken undone up
  obtain ⟨w, single, number⟩ := List.map_eq_singleton_iff.mp seen
  have found : s.writes[0]? = some w := by rw [single]; rfl
  refine ⟨s, w, taken, found, ?_, ?_, ?_⟩
  · rw [stream, written]
    decide
  · rw [lanes .pushCh, calls]
    decide
  · rw [(each 0 w found).2.2, calls, number]
    decide

/- The connection of Conn, with its producers and its ring, drives this loop. -/
section Connection

variable {protos : Protos} {cfg : Conn.Config}

def busy : Conn.Writer → Bool
  | .drainResp => true
  | .drainPush _ => true
  | .write => true
  | .drainWrite => true
  | _ => false

structure Shows (c : Conn.State) (s : State Packet) : Prop where
  chan : s.chan = c.flow.chan
  writer : s.writer = c.writer
  done : s.done = c.done
  up : s.up = c.flow.up
  stream : s.stream = c.flow.stream
  frames : s.frames = c.flow.buf
  written : s.written = c.flow.wrote
  accepted : accepted s.calls = c.flow.accepted
  buf : busy c.writer = true → s.buf = Conn.bytesOf c.flow.buf
  idle : busy c.writer = false → c.flow.buf = []

section Shows

variable {c d : Conn.State} {s : State Packet}

theorem newConn_shows (slots : Nat → Option Packet) (puts : List (Nat × Packet)) (writePos : Nat) :
    Shows (Conn.newConn slots puts writePos) start := by
  refine ⟨rfl, rfl, rfl, rfl, rfl, rfl, rfl, rfl, ?_, fun _ => rfl⟩
  intro active
  contradiction

theorem Shows.elsewhere (shows : Shows c s) (chan : d.flow.chan = c.flow.chan) (writer : d.writer = c.writer)
    (done : d.done = c.done) (up : d.flow.up = c.flow.up) (stream : d.flow.stream = c.flow.stream)
    (buf : d.flow.buf = c.flow.buf) (wrote : d.flow.wrote = c.flow.wrote)
    (accepted : d.flow.accepted = c.flow.accepted) : Shows d s := by
  refine ⟨?_, ?_, ?_, ?_, ?_, ?_, ?_, ?_, ?_, ?_⟩
  · rw [chan]
    exact shows.chan
  · rw [writer]
    exact shows.writer
  · rw [done]
    exact shows.done
  · rw [up]
    exact shows.up
  · rw [stream]
    exact shows.stream
  · rw [buf]
    exact shows.frames
  · rw [wrote]
    exact shows.written
  · rw [accepted]
    exact shows.accepted
  · rw [writer, buf]
    exact shows.buf
  · rw [writer, buf]
    exact shows.idle

theorem Shows.offer (shows : Shows c s) (size : Nat) (lane : Lane) (p : Packet) :
    Shows { c with flow := c.flow.offer lane size p } (s.offer size lane p) := by
  unfold Conn.Flow.offer State.offer
  rw [shows.chan]
  split
  · refine ⟨rfl, shows.writer, shows.done, shows.up, shows.stream, shows.frames, shows.written, ?_,
      shows.buf, shows.idle⟩
    rw [accepted_true, shows.accepted]
  · refine ⟨rfl, shows.writer, shows.done, shows.up, shows.stream, shows.frames, shows.written, ?_,
      shows.buf, shows.idle⟩
    rw [accepted_false, shows.accepted]

theorem afterTake_busy {writer next : Conn.Writer} {lane : Lane} (after : afterTake writer lane = some next) :
    busy next = true := by
  unfold afterTake at after
  split at after
  all_goals first | contradiction | (cases Option.some.inj after; rfl)

theorem Shows.take (shows : Shows c s) {lane : Lane} {p : Packet} {rest : List Packet} {writer : Conn.Writer}
    (after : afterTake c.writer lane = some writer) :
    Shows { c with flow := c.flow.take lane p rest, writer := writer }
      (s.receive Packet.data lane p rest writer) := by
  refine ⟨?_, rfl, shows.done, shows.up, shows.stream, ?_, shows.written, shows.accepted, ?_, ?_⟩
  · simp only [State.receive, Conn.Flow.take, shows.chan]
  · simp only [State.receive, Conn.Flow.take, shows.frames]
  · intro active
    have all : Conn.bytesOf (c.flow.buf ++ [(lane, p)]) = Conn.bytesOf c.flow.buf ++ p.data := by
      simp [Conn.bytesOf]
    simp only [State.receive, Conn.Flow.take, all, shows.writer]
    unfold afterTake at after
    split at after
    · rename_i phase
      simp only [phase, shows.idle (by rw [phase]; rfl)]
      rfl
    · rename_i phase
      simp only [phase, shows.buf (by rw [phase]; rfl)]
    · rename_i phase
      simp only [phase, shows.buf (by rw [phase]; rfl)]
    · rename_i phase
      simp only [phase, shows.idle (by rw [phase]; rfl)]
      rfl
    · contradiction
  · intro quiet
    rw [afterTake_busy after] at quiet
    contradiction

theorem Shows.proceed (shows : Shows c s) : WriteLoop.proceed s = Conn.proceed c := by
  unfold WriteLoop.proceed Conn.proceed
  rw [shows.writer, shows.done, shows.chan]
  cases c.writer with
  | select => rfl
  | drainResp => simp only [List.isEmpty_iff]
  | drainPush left => simp only [List.isEmpty_iff]
  | write => rfl
  | drain => simp only [List.isEmpty_iff]
  | drainWrite => rfl
  | stopped => rfl

theorem proceed_busy {writer : Conn.Writer} (next : Conn.proceed c = some writer) :
    busy writer = busy c.writer := by
  unfold Conn.proceed at next
  split at next
  case h_5 => contradiction
  all_goals
    rename_i phase
    cases (Option.ite_none_right_eq_some.mp next).2
    rw [phase]
    rfl

theorem Shows.goOn (shows : Shows c s) {writer : Conn.Writer} (next : Conn.proceed c = some writer) :
    Shows { c with writer := writer } (s.goOn writer) := by
  have same := proceed_busy next
  refine ⟨shows.chan, rfl, shows.done, shows.up, shows.stream, shows.frames, shows.written, shows.accepted, ?_, ?_⟩
  · intro active
    exact shows.buf (same ▸ active)
  · intro quiet
    exact shows.idle (same ▸ quiet)

theorem afterWrite_busy {ok : Bool} {writer next : Conn.Writer} (after : afterWrite ok writer = some next) :
    busy writer = true ∧ busy next = false := by
  unfold afterWrite at after
  split at after
  · cases Option.some.inj after
    cases ok with
    | true => exact ⟨rfl, rfl⟩
    | false => exact ⟨rfl, rfl⟩
  · cases Option.some.inj after
    exact ⟨rfl, rfl⟩
  · contradiction

theorem Shows.finish (shows : Shows c s) {failed : Option Nat} {writer : Conn.Writer}
    (after : afterWrite failed.isNone c.writer = some writer) :
    Shows { c with flow := c.flow.write failed, writer := writer } (s.finish failed writer) := by
  obtain ⟨before, idle⟩ := afterWrite_busy after
  refine ⟨shows.chan, rfl, shows.done, ?_, ?_, rfl, ?_, shows.accepted, ?_, fun _ => rfl⟩
  · simp only [State.finish, Conn.Flow.write, shows.up]
  · cases failed with
    | none => simp only [State.finish, Conn.Flow.write, shows.up, shows.stream, shows.buf before]
    | some n => simp only [State.finish, Conn.Flow.write, shows.up, shows.stream, shows.buf before]
  · have written : (s.finish failed writer).written = s.written ++ s.frames := by
      simp [State.written, State.finish]
    rw [written, shows.written, shows.frames]
    rfl
  · intro active
    rw [idle] at active
    contradiction

end Shows

section Imitated

variable {c d : Conn.State} {s : State Packet} (shows : Shows c s)
include shows

theorem offer_imitated (lane : Lane) (p : Option Packet) :
    ∃ as t, run (step Packet.data cfg.sendChanSize) s as = some t ∧
      Shows (c.offer lane (capacity cfg.sendChanSize lane) p) t := by
  cases p with
  | none => exact ⟨[], s, rfl, shows⟩
  | some p => exact ⟨[.send lane p], _, rfl, shows.offer _ lane p⟩

theorem consume_imitated (taken : Conn.consume cfg c = some d) :
    ∃ as t, run (step Packet.data cfg.sendChanSize) s as = some t ∧ Shows d t := by
  unfold Conn.consume at taken
  split at taken
  · cases Option.some.inj taken
    exact ⟨[], s, rfl, shows.elsewhere rfl rfl rfl rfl rfl rfl rfl rfl⟩
  · rw [← apply_ite some] at taken
    cases Option.some.inj taken
    refine ⟨[], s, rfl, ?_⟩
    split
    · exact shows.elsewhere rfl rfl rfl rfl rfl rfl rfl rfl
    · exact shows.elsewhere rfl rfl rfl rfl rfl rfl rfl rfl
  · cases (Option.ite_none_right_eq_some.mp taken).2
    exact ⟨[], s, rfl, shows.elsewhere rfl rfl rfl rfl rfl rfl rfl rfl⟩
  · rename_i pos wp _
    split at taken
    · cases Option.some.inj taken
      obtain ⟨as, t, ran, next⟩ := offer_imitated shows .pushCh (c.flow.slots (pos &&& cfg.mask))
      exact ⟨as, t, ran, next.elsewhere rfl rfl rfl rfl rfl rfl rfl rfl⟩
    · cases Option.some.inj taken
      exact ⟨[], s, rfl, shows.elsewhere rfl rfl rfl rfl rfl rfl rfl rfl⟩
  · contradiction

end Imitated

theorem conn_imitated (c : Conn.State) (a : Conn.Action) (d : Conn.State) (s : State Packet) (shows : Shows c s)
    (taken : Conn.step protos cfg c a = some d) :
    ∃ as t, run (step Packet.data cfg.sendChanSize) s as = some t ∧ Shows d t := by
  cases a with
  | reply cmd seq payload =>
    cases Option.some.inj taken
    exact offer_imitated shows .respCh _
  | deliver msg =>
    cases Option.some.inj taken
    exact offer_imitated shows .pushCh _
  | put msg =>
    simp only [Conn.step] at taken
    split at taken
    · cases Option.some.inj taken
      exact ⟨[], s, rfl, shows⟩
    · cases Option.some.inj taken
      exact ⟨[], s, rfl, shows.elsewhere rfl rfl rfl rfl rfl rfl rfl rfl⟩
  | store pos =>
    simp only [Conn.step] at taken
    split at taken
    · contradiction
    · cases Option.some.inj taken
      exact ⟨[], s, rfl, shows.elsewhere rfl rfl rfl rfl rfl rfl rfl rfl⟩
  | consume => exact consume_imitated shows taken
  | consumerDone =>
    simp only [Conn.step] at taken
    split at taken
    · cases Option.some.inj taken
      exact ⟨[], s, rfl, shows.elsewhere rfl rfl rfl rfl rfl rfl rfl rfl⟩
    · contradiction
  | take lane =>
    simp only [Conn.step] at taken
    split at taken
    · rename_i p rest writer held after
      cases Option.some.inj taken
      refine ⟨[.take lane], _, ?_, shows.take after⟩
      simp only [run, step, shows.chan, shows.writer, held, after]
      rfl
    · contradiction
  | proceed =>
    obtain ⟨writer, next, rfl⟩ := Option.map_eq_some_iff.mp taken
    refine ⟨[.proceed], _, ?_, shows.goOn next⟩
    simp only [run, step, shows.proceed, next]
    rfl
  | write failed =>
    simp only [Conn.step] at taken
    split at taken
    · contradiction
    · rename_i possible
      obtain ⟨writer, after, rfl⟩ := Option.map_eq_some_iff.mp taken
      refine ⟨[.write failed], _, ?_, shows.finish after⟩
      simp only [run, step, shows.up, shows.writer, if_neg possible, after]
      rfl
  | closeDone =>
    simp only [Conn.step] at taken
    split at taken
    · contradiction
    · rename_i undone
      cases Option.some.inj taken
      refine ⟨[.closeDone], { s with done := true }, ?_, ?_⟩
      · simp only [run, step, shows.done, if_neg undone]
        rfl
      · exact { shows with done := rfl }
  | closeSocket =>
    simp only [Conn.step] at taken
    split at taken
    · rename_i done
      cases Option.some.inj taken
      refine ⟨[.closeSocket], { s with up := false }, ?_, ?_⟩
      · simp only [run, step, shows.done, if_pos done]
        rfl
      · exact { shows with up := rfl }
    · contradiction

theorem conn_on_writeLoop {slots : Nat → Option Packet} {puts : List (Nat × Packet)} {writePos : Nat}
    {as : List Conn.Action} {c : Conn.State}
    (taken : run (Conn.step protos cfg) (Conn.newConn slots puts writePos) as = some c) :
    ∃ bs s, run (step Packet.data cfg.sendChanSize) start bs = some s ∧ Shows c s :=
  run_simulates Shows conn_imitated (newConn_shows slots puts writePos) taken

end Connection

end GameIM.Gateway.WriteLoop
