import GameIM.Gateway.Conn

/-! What a connection's socket carries. In any run it has the bytes of the packets given to
it, and each channel's packets in their order. Where no push of the delivery engine is
among them, the client reads back every frame. -/
namespace GameIM.Gateway.Conn
open Lib Api

def inLane (lane : Lane) (ps : List (Lane × Packet)) : List Packet :=
  (ps.filter (·.1 = lane)).map Prod.snd

/-- What holds of every connection: the socket has the bytes of the packets given to
it, up to a failure, and a lane keeps its packets and their order. -/
structure Written (f : Flow) : Prop where
  stream : f.stream <+: bytesOf f.wrote
  whole : f.up = true → f.stream = bytesOf f.wrote
  lanes : ∀ lane, inLane lane (f.wrote ++ f.buf) ++ f.chan lane = inLane lane f.accepted

theorem inLane_append (lane : Lane) (ps qs : List (Lane × Packet)) :
    inLane lane (ps ++ qs) = inLane lane ps ++ inLane lane qs := by
  simp [inLane]

theorem inLane_same (lane : Lane) (p : Packet) : inLane lane [(lane, p)] = [p] := by
  simp [inLane]

theorem inLane_other {lane other : Lane} (ne : other ≠ lane) (p : Packet) :
    inLane lane [(other, p)] = [] := by
  simp [inLane, ne]

theorem bytesOf_append (ps qs : List (Lane × Packet)) :
    bytesOf (ps ++ qs) = bytesOf ps ++ bytesOf qs := by
  simp [bytesOf]

section Written

variable {f : Flow}

theorem Written.offer (h : Written f) (lane : Lane) (size : Nat) (p : Packet) :
    Written (f.offer lane size p) := by
  unfold Flow.offer
  split
  · refine ⟨h.stream, h.whole, ?_⟩
    intro other
    have before := h.lanes other
    by_cases here : other = lane
    · subst here
      simp only [Function.update_self, inLane_append, inLane_same, ← List.append_assoc] at before ⊢
      rw [before]
    · simp only [Function.update_of_ne here, inLane_append, inLane_other (Ne.symm here),
        List.append_nil] at before ⊢
      exact before
  · exact h

theorem Written.take (h : Written f) {lane : Lane} {p : Packet} {rest : List Packet}
    (held : f.chan lane = p :: rest) : Written (f.take lane p rest) := by
  refine ⟨h.stream, h.whole, ?_⟩
  intro other
  have before := h.lanes other
  by_cases here : other = lane
  · subst here
    rw [held] at before
    simp only [Flow.take, Function.update_self, inLane_append, inLane_same, List.append_assoc,
      List.singleton_append] at before ⊢
    exact before
  · simp only [Flow.take, Function.update_of_ne here, inLane_append, inLane_other (Ne.symm here),
      List.append_nil] at before ⊢
    exact before

/- A failed write leaves a beginning of its bytes, and nothing comes after it. -/
theorem Written.write (h : Written f) {failed : Option Nat} : Written (f.write failed) := by
  have all : bytesOf (f.wrote ++ f.buf) = bytesOf f.wrote ++ bytesOf f.buf := bytesOf_append _ _
  refine ⟨?_, ?_, ?_⟩
  · cases up : f.up with
    | false =>
      simp only [Flow.write, up, Bool.false_eq_true, if_false, List.append_nil, all]
      exact h.stream.trans (List.prefix_append _ _)
    | true =>
      simp only [Flow.write, up, if_true, all, h.whole up]
      apply (List.prefix_append_right_inj _).mpr
      cases failed with
      | none => exact List.prefix_rfl
      | some n => exact List.take_prefix n _
  · intro up
    simp only [Flow.write, Bool.and_eq_true] at up ⊢
    cases failed with
    | none => simp only [up.1, if_true, all, h.whole up.1]
    | some n => simp at up
  · intro lane
    simpa [Flow.write] using h.lanes lane

end Written

theorem step_written {protos : Protos} {cfg : Config} {s t : State} {a : Action} (h : Written s.flow)
    (taken : step protos cfg s a = some t) : Written t.flow := by
  have effect := step_effect taken
  generalize t.flow = g at effect
  cases effect with
  | same => exact h
  | reply => exact h.offer _ _ _
  | deliver => exact h.offer _ _ _
  | put => exact ⟨h.stream, h.whole, h.lanes⟩
  | store => exact ⟨h.stream, h.whole, h.lanes⟩
  | get => exact h.offer _ _ _
  | take held => exact h.take held
  | write => exact h.write
  | closeSocket => exact ⟨h.stream, fun up => by contradiction, h.lanes⟩

/-- Every packet of the connection and of the ring is as the client expects it. -/
structure Good (P : Packet → Prop) (f : Flow) : Prop where
  chan : ∀ lane, ∀ p ∈ f.chan lane, P p
  slots : ∀ i p, f.slots i = some p → P p
  puts : ∀ e ∈ f.puts, P e.2
  buf : ∀ e ∈ f.buf, P e.2
  wrote : ∀ e ∈ f.wrote, P e.2

section Good

variable {P : Packet → Prop} {f : Flow}

theorem Good.offer (h : Good P f) (lane : Lane) (size : Nat) {p : Packet}
    (good : (f.chan lane).length < size → P p) : Good P (f.offer lane size p) := by
  unfold Flow.offer
  split
  · rename_i room
    refine { h with chan := ?_ }
    intro other q mem
    by_cases here : other = lane
    · subst here
      simp only [Function.update_self, List.mem_append, List.mem_singleton] at mem
      cases mem with
      | inl old => exact h.chan other q old
      | inr new => exact new ▸ good room
    · simp only [Function.update_of_ne here] at mem
      exact h.chan other q mem
  · exact h

theorem Good.take (h : Good P f) {lane : Lane} {p : Packet} {rest : List Packet}
    (held : f.chan lane = p :: rest) : Good P (f.take lane p rest) := by
  have all := h.chan lane
  rw [held] at all
  refine { h with chan := ?_, buf := ?_ }
  · intro other q mem
    by_cases here : other = lane
    · subst here
      simp only [Flow.take, Function.update_self] at mem
      exact all q (List.mem_cons_of_mem p mem)
    · simp only [Flow.take, Function.update_of_ne here] at mem
      exact h.chan other q mem
  · intro e mem
    simp only [Flow.take, List.mem_append, List.mem_singleton] at mem
    cases mem with
    | inl old => exact h.buf e old
    | inr new => exact new ▸ all p (List.mem_cons_self ..)

theorem Good.write (h : Good P f) (failed : Option Nat) : Good P (f.write failed) := by
  refine { h with buf := fun e mem => by simp [Flow.write] at mem, wrote := ?_ }
  intro e mem
  cases List.mem_append.mp mem with
  | inl old => exact h.wrote e old
  | inr new => exact h.buf e new

theorem Good.store (h : Good P f) {pos i : Nat} {p : Packet} (waiting : (pos, p) ∈ f.puts) :
    Good P { f with slots := Function.update f.slots i (some p), puts := f.puts.filter (·.1 ≠ pos) } := by
  refine { h with slots := ?_, puts := fun e mem => h.puts e (List.mem_of_mem_filter mem) }
  intro j q held
  by_cases here : j = i
  · subst here
    simp only [Function.update_self, Option.some.injEq] at held
    exact held ▸ h.puts _ waiting
  · simp only [Function.update_of_ne here] at held
    exact h.slots j q held

end Good

/-- The step enqueues a packet of marshalPush on the connection. -/
def pushes (protos : Protos) (cfg : Config) (s : State) : Action → Bool
  | .deliver msg => (marshalPush protos msg).isSome && (s.flow.chan .pushCh).length < cfg.sendChanSize
  | _ => false

def AllFramed (protos : Protos) : Flow → Prop := Good fun p => ∃ body, Framed protos.frame p body

theorem step_framed {protos : Protos} {cfg : Config} (written : CmdWritten protos) {s t : State}
    {a : Action} (h : AllFramed protos s.flow) (ok : pushes protos cfg s a = false)
    (taken : step protos cfg s a = some t) : AllFramed protos t.flow := by
  have effect := step_effect taken
  generalize t.flow = g at effect
  cases effect with
  | same => exact h
  | reply made => exact h.offer _ _ (fun _ => reply_framed written made)
  | deliver made =>
    apply h.offer
    intro room
    simp [pushes, made, room] at ok
  | put made =>
    refine { h with puts := ?_ }
    intro e mem
    cases List.mem_append.mp mem with
    | inl old => exact h.puts e old
    | inr new => exact List.mem_singleton.mp new ▸ broadcastNotify_framed written made
  | store waiting => exact h.store waiting
  | get held => exact h.offer _ _ (fun _ => h.slots _ _ held)
  | take held => exact h.take held
  | write => exact h.write _
  | closeSocket => exact { h with }

/-- What a new connection finds in the ring are packets of the broadcast handler. -/
structure Past (protos : Protos) (slots : Nat → Option Packet) (puts : List (Nat × Packet)) : Prop where
  slots : ∀ i p, slots i = some p → ∃ msg, broadcastNotify protos msg = some p
  puts : ∀ e ∈ puts, ∃ msg, broadcastNotify protos msg = some e.2

section Run

variable {protos : Protos} {cfg : Config} {slots : Nat → Option Packet} {puts : List (Nat × Packet)}
  {writePos : Nat} {s : State} {as : List Action}

theorem newConn_written : Written (newConn slots puts writePos).flow :=
  ⟨List.prefix_rfl, fun _ => rfl, fun _ => rfl⟩

theorem Past.framed (past : Past protos slots puts) (written : CmdWritten protos) :
    AllFramed protos (newConn slots puts writePos).flow where
  chan _ _ mem := by contradiction
  slots i p held := by
    obtain ⟨msg, made⟩ := past.slots i p held
    exact broadcastNotify_framed written made
  puts e mem := by
    obtain ⟨msg, made⟩ := past.puts e mem
    exact broadcastNotify_framed written made
  buf _ mem := by contradiction
  wrote _ mem := by contradiction

theorem run_written (taken : run (step protos cfg) (newConn slots puts writePos) as = some s) :
    Written s.flow :=
  run_invariant (fun s => Written s.flow) (fun _ _ _ h t => step_written h t) newConn_written taken

theorem run_framed (written : CmdWritten protos) (past : Past protos slots puts)
    (framedOnly : Meets (step protos cfg) (fun s a => pushes protos cfg s a = false)
      (newConn slots puts writePos) as)
    (taken : run (step protos cfg) (newConn slots puts writePos) as = some s) :
    AllFramed protos s.flow :=
  run_invariant_meets (fun s => AllFramed protos s.flow) (fun _ _ _ h ok t => step_framed written h ok t)
    (past.framed written) framedOnly taken

end Run

/-- In every run in which no push of the delivery engine is enqueued, every packet given
to the socket has its header and a body of 1 to 65536 bytes, the stream is their
concatenation up to a failure of the socket, and the client reads the frames that were
enqueued: all that were written, in that order, or those before the failure, and then
nothing but the end of the stream. -/
theorem stream_decodes (protos : Protos) (written : CmdWritten protos) (cfg : Config)
    (slots : Nat → Option Packet) (puts : List (Nat × Packet)) (writePos : Nat)
    (past : Past protos slots puts) (as : List Action) (s : State)
    (framedOnly : Meets (step protos cfg) (fun s a => pushes protos cfg s a = false)
      (newConn slots puts writePos) as)
    (taken : run (step protos cfg) (newConn slots puts writePos) as = some s) :
    (∀ p ∈ s.flow.wrote.map Prod.snd, ∃ body, Framed protos.frame p body) ∧
    s.flow.stream <+: bytesOf s.flow.wrote ∧
    (s.flow.up = true → s.flow.stream = bytesOf s.flow.wrote ∧
      decodeAll protos.frame s.flow.stream =
        ((s.flow.wrote.map Prod.snd).map Packet.frame, some (.readHeader .eof))) ∧
    (∃ n e, e.isShort = true ∧ decodeAll protos.frame s.flow.stream =
      (((s.flow.wrote.map Prod.snd).take n).map Packet.frame, some e)) ∧
    ∀ lane, inLane lane (s.flow.wrote ++ s.flow.buf) ++ s.flow.chan lane = inLane lane s.flow.accepted := by
  have h := run_written taken
  have all := run_framed written past framedOnly taken
  have framed : ∀ p ∈ s.flow.wrote.map Prod.snd, ∃ body, Framed protos.frame p body := by
    intro p mem
    obtain ⟨e, he, rfl⟩ := List.mem_map.mp mem
    exact all.wrote e he
  refine ⟨framed, h.stream, ?_, decodeAll_cut framed h.stream, h.lanes⟩
  intro up
  refine ⟨h.whole up, ?_⟩
  rw [h.whole up]
  exact decodeAll_framed framed

def appConfig : Config := ⟨256, ringMask 4096⟩

def quietRing : State := newConn (fun _ => none) [] 0

def hello : ImMessage where
  msgId := 7
  channelId := "alliance:1"
  channelType := .alliance
  sender := some { senderId := 1 }
  content := utf8 "hi"
  msgType := .text
  msgParam := []
  sendTime := 0
  clientMsgId := "m-1"

def repliedAndNotified : List Action :=
  [.put hello, .reply .heartbeat 3 [8, 1], .store 0, .consume, .consume, .consume, .take .pushCh,
    .take .respCh, .proceed, .proceed, .write none, .closeDone, .proceed]

theorem stream_decodes_broadcast :
    ∃ s, run (step protobuf appConfig) quietRing repliedAndNotified = some s ∧
      s.flow.wrote.length = 2 ∧
      decodeAll frameProto s.flow.stream =
        ((s.flow.wrote.map Prod.snd).map Packet.frame, some (.readHeader .eof)) := by
  have done : ((run (step protobuf appConfig) quietRing repliedAndNotified).map fun s =>
      (s.flow.wrote.length, s.flow.up)) = some (2, true) := by decide +kernel
  obtain ⟨s, taken, seen⟩ := Option.map_eq_some_iff.mp done
  have result := stream_decodes protobuf protobuf_cmdWritten appConfig (fun _ => none) [] 0
    ⟨fun _ _ h => by contradiction, fun _ h => by contradiction⟩ repliedAndNotified s
    (by decide +kernel) taken
  exact ⟨s, taken, congrArg Prod.fst seen, (result.2.2.1 (congrArg Prod.snd seen)).2⟩

/-- A pushed message and a reply behind it are written; the client reads neither. -/
theorem pushed_message_breaks_stream :
    ((run (step protobuf appConfig) quietRing
        [.deliver hello, .take .pushCh, .reply .heartbeat 3 [8, 1], .take .respCh, .proceed, .proceed,
          .write none]).map
      fun s => ((s.flow.wrote.map fun e => e.2.frame.cmdId), s.flow.up,
        decodeAll frameProto s.flow.stream)) =
      some ([4001, 3002], true, ([], some (.tooLarge 144776986))) := by
  decide +kernel

/-- No matter what else is written: with the first push on the wire the client has read its
last frame. -/
theorem push_ends_reading {protos : Protos} (written : CmdWritten protos) (tagged : Tagged protos) {cfg : Config}
    {slots : Nat → Option Packet} {puts : List (Nat × Packet)} {writePos : Nat} {as : List Action} {s : State}
    (taken : run (step protos cfg) (newConn slots puts writePos) as = some s) (up : s.flow.up = true)
    {before after : List (Lane × Packet)} {lane : Lane} {p : Packet} {msg : ImMessage}
    (order : s.flow.wrote = before ++ (lane, p) :: after)
    (framed : ∀ q ∈ before.map Prod.snd, ∃ body, Framed protos.frame q body)
    (pushed : marshalPush protos msg = some p) :
    ∃ e, decodeAll protos.frame s.flow.stream = ((before.map Prod.snd).map Packet.frame, some e) := by
  have bytes : s.flow.stream =
      (before.map Prod.snd).flatMap Packet.data ++ (p.data ++ bytesOf after) := by
    rw [(run_written taken).whole up, order, bytesOf_append]
    simp [bytesOf]
  rw [bytes]
  exact decodeAll_pushed written tagged pushed framed _

end GameIM.Gateway.Conn
