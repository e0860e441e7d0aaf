import GameIM.Gateway.Session

/-! How Serve ends. Once Close has shut a connection, each of its three loops comes to its end after
a bounded number of its own steps, whatever its selects choose, and none of them can block the
others. What the loops have to do is measured; their steps use it up, and only a push that is
still delivered adds to it. -/
namespace GameIM.Gateway.Serve
open Lib Api Session
open Dispatch (Codecs Service dispatch someCodecs)

def writerRank : Conn.Writer → Nat
  | .stopped => 0
  | .drain => 1
  | .drainWrite => 2
  | .select => 2
  | .write => 3
  | .drainPush _ => 4
  | .drainResp => 5

/- An entry of the ring that is still to be read may become a packet in the channel. -/
def consumerRank (cfg : Conn.Config) : Conn.Consumer → Nat
  | .stopped => 0
  | .top => 1
  | .wait => 2
  | .read pos wp => 2 + 5 * (wp - pos)
  | .load => 3 + 5 * (cfg.mask + 1)

def queued (f : Conn.Flow) : Nat := (f.chan .respCh).length + (f.chan .pushCh).length

def connWork (cfg : Conn.Config) (conn : Conn.State) : Nat :=
  4 * queued conn.flow + writerRank conn.writer + consumerRank cfg conn.consumer

/- The steps of the write loop and of the ring consumer. -/
def loops : Conn.Action → Bool
  | .consume => true
  | .consumerDone => true
  | .take _ => true
  | .proceed => true
  | .write _ => true
  | _ => false

def enqueues : Conn.Action → Bool
  | .reply _ _ _ => true
  | .deliver _ => true
  | _ => false

section Conn

variable {protos : Protos} {cfg : Conn.Config} {s t : Conn.State}

theorem flow_offer_queued (f : Conn.Flow) (lane : Conn.Lane) (size : Nat) (p : Packet) :
    queued (f.offer lane size p) ≤ queued f + 1 := by
  unfold Conn.Flow.offer
  split
  · cases lane <;> simp [queued] <;> omega
  · omega

theorem offer_queued (s : Conn.State) (lane : Conn.Lane) (size : Nat) (p : Option Packet) :
    queued (s.offer lane size p).flow ≤ queued s.flow + 1 ∧ (s.offer lane size p).writer = s.writer ∧
      (s.offer lane size p).consumer = s.consumer ∧ (s.offer lane size p).done = s.done := by
  unfold Conn.State.offer
  split
  · exact ⟨Nat.le_succ _, rfl, rfl, rfl⟩
  · exact ⟨flow_offer_queued .., rfl, rfl, rfl⟩

theorem take_queued (f : Conn.Flow) {lane : Conn.Lane} {p : Packet} {rest : List Packet}
    (held : f.chan lane = p :: rest) : queued (f.take lane p rest) + 1 = queued f := by
  cases lane <;> simp [queued, Conn.Flow.take, held] <;> omega

theorem readFrom_near (cfg : Conn.Config) (cursor wp : Nat) : wp - Conn.readFrom cfg cursor wp ≤ cfg.mask + 1 := by
  unfold Conn.readFrom
  split <;> omega

theorem consume_work (done : s.done = true) (taken : Conn.consume cfg s = some t) :
    t.done = true ∧ connWork cfg t + 1 ≤ connWork cfg s := by
  unfold Conn.consume at taken
  split at taken
  · rename_i place
    cases Option.some.inj taken
    refine ⟨done, ?_⟩
    simp only [connWork, consumerRank, place, done, if_true]
    omega
  · rename_i place
    split at taken
    · cases Option.some.inj taken
      refine ⟨done, ?_⟩
      simp only [connWork, consumerRank, place]
      omega
    · cases Option.some.inj taken
      have near := readFrom_near cfg s.cursor s.writePos
      refine ⟨done, ?_⟩
      simp only [connWork, consumerRank, place]
      omega
  · rename_i place
    split at taken
    · cases Option.some.inj taken
      refine ⟨done, ?_⟩
      simp only [connWork, consumerRank, place]
      omega
    · contradiction
  · rename_i pos wp place
    split at taken
    · rename_i more
      cases Option.some.inj taken
      obtain ⟨grows, writer, _, still⟩ :=
        offer_queued s .pushCh cfg.sendChanSize (s.flow.slots (pos &&& cfg.mask))
      refine ⟨still.trans done, ?_⟩
      simp only [connWork, consumerRank, place, writer]
      omega
    · cases Option.some.inj taken
      refine ⟨done, ?_⟩
      simp only [connWork, consumerRank, place]
      omega
  · contradiction

theorem afterTake_rank {writer next : Conn.Writer} {lane : Conn.Lane}
    (goes : Conn.afterTake writer lane = some next) : writerRank next ≤ writerRank writer + 3 := by
  unfold Conn.afterTake at goes
  split at goes
  all_goals first | contradiction | (cases Option.some.inj goes; simp [writerRank])

theorem proceed_rank {next : Conn.Writer} (goes : Conn.proceed s = some next) :
    writerRank next + 1 ≤ writerRank s.writer := by
  unfold Conn.proceed at goes
  split at goes
  all_goals rename_i place
  · split at goes
    · cases Option.some.inj goes
      simp [writerRank, place]
    · contradiction
  · split at goes
    · cases Option.some.inj goes
      simp [writerRank, place]
    · contradiction
  · split at goes
    · cases Option.some.inj goes
      simp [writerRank, place]
    · contradiction
  · split at goes
    · cases Option.some.inj goes
      simp [writerRank, place]
    · contradiction
  · contradiction

theorem afterWrite_rank {ok : Bool} {writer next : Conn.Writer} (goes : Conn.afterWrite ok writer = some next) :
    writerRank next + 1 ≤ writerRank writer := by
  unfold Conn.afterWrite at goes
  split at goes
  · cases Option.some.inj goes
    cases ok <;> simp [writerRank]
  · cases Option.some.inj goes
    simp [writerRank]
  · contradiction

/-- Every step of a loop uses up some of the work. -/
theorem conn_work {a : Conn.Action} (done : s.done = true) (taken : Conn.step protos cfg s a = some t) :
    t.done = true ∧ connWork cfg t + (loops a).toNat ≤ connWork cfg s + 4 * (enqueues a).toNat := by
  cases a with
  | reply cmd seq payload =>
    cases Option.some.inj taken
    obtain ⟨grows, writer, consumer, still⟩ := offer_queued s .respCh Conn.respChanSize (reply protos cmd seq payload)
    refine ⟨still.trans done, ?_⟩
    simp only [connWork, writer, consumer, loops, enqueues, Bool.toNat_true, Bool.toNat_false]
    omega
  | deliver msg =>
    cases Option.some.inj taken
    obtain ⟨grows, writer, consumer, still⟩ := offer_queued s .pushCh cfg.sendChanSize (marshalPush protos msg)
    refine ⟨still.trans done, ?_⟩
    simp only [connWork, writer, consumer, loops, enqueues, Bool.toNat_true, Bool.toNat_false]
    omega
  | put msg =>
    simp only [Conn.step] at taken
    split at taken
    · cases Option.some.inj taken
      exact ⟨done, le_rfl⟩
    · cases Option.some.inj taken
      exact ⟨done, le_rfl⟩
  | store pos =>
    simp only [Conn.step] at taken
    split at taken
    · contradiction
    · cases Option.some.inj taken
      exact ⟨done, le_rfl⟩
  | consume => exact consume_work done taken
  | consumerDone =>
    simp only [Conn.step] at taken
    split at taken
    · rename_i waiting
      cases Option.some.inj taken
      refine ⟨done, ?_⟩
      simp only [connWork, consumerRank, waiting.1, loops, enqueues, Bool.toNat_true, Bool.toNat_false]
      omega
    · contradiction
  | take lane =>
    simp only [Conn.step] at taken
    split at taken
    · rename_i p rest writer held goes
      cases Option.some.inj taken
      have fewer := take_queued s.flow held
      have rank := afterTake_rank goes
      refine ⟨done, ?_⟩
      simp only [connWork, loops, enqueues, Bool.toNat_true, Bool.toNat_false]
      omega
    · contradiction
  | proceed =>
    obtain ⟨writer, goes, rfl⟩ := Option.map_eq_some_iff.mp taken
    have rank := proceed_rank goes
    refine ⟨done, ?_⟩
    simp only [connWork, loops, enqueues, Bool.toNat_true, Bool.toNat_false]
    omega
  | write failed =>
    simp only [Conn.step] at taken
    split at taken
    · contradiction
    · obtain ⟨writer, goes, rfl⟩ := Option.map_eq_some_iff.mp taken
      have rank := afterWrite_rank goes
      refine ⟨done, ?_⟩
      simp only [connWork, queued, Conn.Flow.write, loops, enqueues, Bool.toNat_true, Bool.toNat_false]
      omega
  | closeDone =>
    simp only [Conn.step, done, if_true] at taken
    contradiction
  | closeSocket =>
    simp only [Conn.step] at taken
    split at taken
    · cases Option.some.inj taken
      exact ⟨done, le_rfl⟩
    · contradiction

/- A Write may always fail, and on a closed socket it does. -/
theorem writer_moves (protos : Protos) (cfg : Conn.Config) (done : s.done = true) (alive : s.writer ≠ .stopped) :
    ∃ a, loops a = true ∧ isReply a = false ∧ (Conn.step protos cfg s a).isSome = true := by
  have proceeds : (Conn.proceed s).isSome = true → ∃ a, loops a = true ∧ isReply a = false ∧
      (Conn.step protos cfg s a).isSome = true :=
    fun goes => ⟨.proceed, rfl, rfl, by rw [Conn.step, Option.isSome_map]; exact goes⟩
  have takes : ∀ {lane p rest next}, s.flow.chan lane = p :: rest → Conn.afterTake s.writer lane = some next →
      ∃ a, loops a = true ∧ isReply a = false ∧ (Conn.step protos cfg s a).isSome = true :=
    fun {lane} _ _ _ held goes => ⟨.take lane, rfl, rfl, by simp only [Conn.step, held, goes, Option.isSome_some]⟩
  have writes : (Conn.afterWrite false s.writer).isSome = true → ∃ a, loops a = true ∧ isReply a = false ∧
      (Conn.step protos cfg s a).isSome = true :=
    fun goes => ⟨.write (some 0), rfl, rfl, by simpa [Conn.step] using goes⟩
  cases place : s.writer with
  | select => exact proceeds (by simp [Conn.proceed, place, done])
  | drainResp =>
    cases held : s.flow.chan .respCh with
    | nil => exact proceeds (by simp [Conn.proceed, place, held])
    | cons p rest => exact takes held (by rw [place]; rfl)
  | drainPush left =>
    cases left with
    | zero => exact proceeds (by simp [Conn.proceed, place])
    | succ left =>
      cases held : s.flow.chan .pushCh with
      | nil => exact proceeds (by simp [Conn.proceed, place, held])
      | cons p rest => exact takes held (by rw [place]; rfl)
  | write => exact writes (by rw [place]; rfl)
  | drain =>
    cases resp : s.flow.chan .respCh with
    | cons p rest => exact takes resp (by rw [place]; rfl)
    | nil =>
      cases push : s.flow.chan .pushCh with
      | cons p rest => exact takes push (by rw [place]; rfl)
      | nil => exact proceeds (by simp [Conn.proceed, place, resp, push])
  | drainWrite => exact writes (by rw [place]; rfl)
  | stopped => exact absurd place alive

theorem consumer_moves (protos : Protos) (cfg : Conn.Config) (done : s.done = true) (alive : s.consumer ≠ .stopped) :
    ∃ a, loops a = true ∧ isReply a = false ∧ (Conn.step protos cfg s a).isSome = true := by
  have consumes : (Conn.consume cfg s).isSome = true → ∃ a, loops a = true ∧ isReply a = false ∧
      (Conn.step protos cfg s a).isSome = true := fun goes => ⟨.consume, rfl, rfl, goes⟩
  cases place : s.consumer with
  | top => exact consumes (by simp [Conn.consume, place])
  | load =>
    refine consumes ?_
    simp only [Conn.consume, place]
    split <;> rfl
  | wait => exact ⟨.consumerDone, rfl, rfl, by simp [Conn.step, place, done]⟩
  | read pos wp =>
    refine consumes ?_
    simp only [Conn.consume, place]
    split <;> rfl
  | stopped => exact absurd place alive

end Conn

section Serve

variable {σ : Type} {rt : Codecs} {svc : Service σ} {node : String} {cfg : Conn.Config} {s t : State σ} {c : ConnID}

/- A byte that is unread may be the last of a frame, which is answered. -/
def serveWork (cfg : Conn.Config) (s : State σ) (c : ConnID) : Nat :=
  5 * (s.inbox c).unread.length + (!(s.inbox c).stopped).toNat + connWork cfg (s.world.conns c)

def own (c : ConnID) : Action σ → Bool
  | .read d _ _ => d = c
  | .stop d => d = c
  | .other d a => decide (d = c) && loops a
  | _ => false

def pushed (c : ConnID) : Action σ → Bool
  | .other d (.deliver _) => d = c
  | _ => false

/- Close has closed done, and no Read succeeds any more. -/
structure Shut (s : State σ) (c : ConnID) : Prop where
  born : s.world.table.life c ≠ .fresh
  done : (s.world.conns c).done = true
  ended : (s.inbox c).ended = true

theorem dispatch_work (cfg : Conn.Config) {frame : Frame} {now : Nat} {fails : Bool}
    (done : (s.world.conns c).done = true) :
    ((dispatch rt svc node s.world c frame now fails).conns c).done = true ∧
      connWork cfg ((dispatch rt svc node s.world c frame now fails).conns c) ≤
        connWork cfg (s.world.conns c) + 4 := by
  rcases @dispatch_conns σ rt svc node s.world c frame now fails with ⟨_, same⟩ | ⟨cmd, _, replied⟩
  · rw [same]
    exact ⟨done, Nat.le_add_right ..⟩
  · rw [replied, Function.update_self]
    exact conn_work done (Handlers.replyTo_step ..)

theorem effect_work {a : Action σ} {inbox : Inbox σ} {conn : Conn.State} (shut : Shut s c)
    (effect : Effect rt svc node cfg s c a inbox conn) : inbox.ended = true ∧ conn.done = true ∧
    5 * inbox.unread.length + (!inbox.stopped).toNat + connWork cfg conn + (own c a).toNat ≤
      serveWork cfg s c + 4 * (pushed c a).toNat := by
  cases effect with
  | same off =>
    refine ⟨shut.ended, shut.done, ?_⟩
    have idle : own c a = false := by
      cases a <;> simp_all [own, Action.on]
    rw [idle]
    exact Nat.le_add_right ..
  | receive arriving =>
    rw [shut.ended] at arriving
    contradiction
  | hangUp => exact ⟨rfl, shut.done, Nat.le_add_right ..⟩
  | @read frame rest now fails reading decoded =>
    have shorter := decode_incremental.shrinks decoded
    obtain ⟨done, more⟩ := @dispatch_work σ rt svc node s c cfg frame now fails shut.done
    refine ⟨shut.ended, done, ?_⟩
    simp only [serveWork, own, decide_true, Bool.toNat_true]
    omega
  | stop reading failed final =>
    refine ⟨shut.ended, shut.done, ?_⟩
    simp only [serveWork, own, reading, decide_true, Bool.not_true, Bool.not_false, Bool.toNat_true, Bool.toNat_false]
    omega
  | @other a conn elsewhere moved =>
    obtain ⟨done, less⟩ := conn_work shut.done moved
    refine ⟨shut.ended, done, ?_⟩
    have loop : own c (.other c a : Action σ) = loops a := by simp [own]
    have push : enqueues a = pushed c (.other c a : Action σ) := by
      cases a <;> simp_all [enqueues, pushed, isReply]
    rw [push] at less
    rw [loop, serveWork]
    omega

theorem step_work {a : Action σ} (shut : Shut s c) (taken : step rt svc node cfg s a = some t) :
    Shut t c ∧ serveWork cfg t c + (own c a).toNat ≤ serveWork cfg s c + 4 * (pushed c a).toNat := by
  rcases step_effect taken c with ⟨fresh, _⟩ | ⟨_, _, _, _, fresh, _⟩ | ⟨_, born, effect⟩
  · exact absurd fresh shut.born
  · exact absurd fresh shut.born
  · obtain ⟨ended, done, work⟩ := effect_work shut effect
    exact ⟨⟨born, done, ended⟩, work⟩

theorem own_moves (shut : Shut s c) (still : ∀ a, own c a = true → step rt svc node cfg s a = none) :
    (s.inbox c).stopped = true ∧ (s.world.conns c).writer = .stopped ∧ (s.world.conns c).consumer = .stopped := by
  have looping : ∀ a, loops a = true → isReply a = false →
      (Conn.step rt.protos cfg (s.world.conns c) a).isSome = true → False := by
    intro a loop other moves
    have none := still (.other c a) (by simp [own, loop])
    simp only [step, shut.born, other, Bool.false_eq_true, or_self, if_false, Option.map_eq_none_iff] at none
    rw [none] at moves
    contradiction
  refine ⟨?_, ?_, ?_⟩
  · by_contra reading
    have reading := Bool.eq_false_of_not_eq_true reading
    have noRead := still (.read c 0 false) (by simp [own])
    have noStop := still (.stop c) (by simp [own])
    cases decoded : decode rt.protos.frame (s.inbox c).unread with
    | ok read => simp [step, shut.born, reading, decoded] at noRead
    | error e => simp [step, shut.born, reading, decoded, shut.ended] at noStop
  · by_contra alive
    obtain ⟨a, loop, other, moves⟩ := writer_moves rt.protos cfg shut.done alive
    exact looping a loop other moves
  · by_contra alive
    obtain ⟨a, loop, other, moves⟩ := consumer_moves rt.protos cfg shut.done alive
    exact looping a loop other moves

end Serve

/-- After Close has closed done, and the socket gives no more bytes, the three loops that Serve
waits for take a bounded number of steps, whatever else goes on: what is left to do at most, and
four more for each push that still comes. When none of them can take a step, all have ended. -/
theorem serve_returns {σ : Type} (rt : Codecs) (svc : Service σ) (node : String) (cfg : Conn.Config) (s t : State σ)
    (as : List (Action σ)) (c : ConnID) (shut : Shut s c) (taken : run (step rt svc node cfg) s as = some t) :
    as.countP (own c) ≤ serveWork cfg s c + 4 * as.countP (pushed c) ∧
    ((∀ a, own c a = true → step rt svc node cfg t a = none) → (t.inbox c).stopped = true ∧
      (t.world.conns c).writer = .stopped ∧ (t.world.conns c).consumer = .stopped) := by
  obtain ⟨still, total⟩ := run_work (fun _ _ _ => step_work) shut taken
  exact ⟨by omega, own_moves still⟩

/- A heartbeat was read and another one is unread when the connection is closed. -/
def closing : List (Action Handlers.Backend) :=
  [.accept 1 (fun _ => none) [] 0, .receive 1 (twoRequests.drop 18 ++ twoRequests.drop 18), .read 1 5 false,
    .other 1 .closeDone, .other 1 .closeSocket, .hangUp 1]

/- The writer takes the first response before it sees done, and drains the second. -/
def ending : List (Action Handlers.Backend) :=
  [.other 1 (.take .respCh), .read 1 6 false, .stop 1, .other 1 (.take .respCh), .other 1 .proceed, .other 1 .proceed,
    .other 1 (.write (some 0)), .other 1 .consume]

theorem serve_returns_closing : ∃ s t, run talkStep beginning closing = some s ∧ run talkStep s ending = some t ∧
    ending.countP (own 1) = 8 ∧ 8 ≤ serveWork Conn.appConfig s 1 ∧ (t.world.conns 1).writer = .stopped := by
  have closed : ((run talkStep beginning closing).map fun s => decide (s.world.table.life 1 ≠ .fresh ∧
      (s.world.conns 1).done = true ∧ (s.inbox 1).ended = true)) = some true := by decide +kernel
  have ended : ((run talkStep beginning (closing ++ ending)).map fun t =>
      decide ((t.world.conns 1).writer = .stopped)) = some true := by decide +kernel
  obtain ⟨t, both, stopped⟩ := Option.map_eq_some_iff.mp ended
  obtain ⟨s, first, later⟩ := run_append_some.mp both
  rw [first, Option.map_some, Option.some.injEq, decide_eq_true_eq] at closed
  obtain ⟨born, done, ended⟩ := closed
  have bound := (serve_returns someCodecs _ "node" Conn.appConfig s t ending 1 ⟨born, done, ended⟩ later).1
  exact ⟨s, t, first, later, by decide, bound, of_decide_eq_true stopped⟩

end GameIM.Gateway.Serve
