import GameIM.Gateway.Ring

/-! The ring part of the connection machine is the ring machine with one reader. -/
namespace GameIM.Gateway.Ring
open Lib Conn

/-- The ring and its reader c look as the connection has them. -/
structure Shows (c : ConnID) (s : Conn.State) (r : State Packet) : Prop where
  writePos : r.writePos = s.writePos
  puts : r.puts = s.flow.puts
  slots : ∀ i, (r.slots i).map Prod.snd = s.flow.slots i
  reader : ∃ k, r.readers c = some k ∧ k.cursor = s.cursor ∧ k.consumer = s.consumer ∧
    k.done = s.done ∧ k.pushCh = s.flow.chan .pushCh

section Shows

variable {protos : Protos} {cfg : Config} {c : ConnID} {s t : Conn.State} {r : State Packet}

theorem offer_respCh (f : Flow) (size : Nat) (p : Packet) :
    (f.offer .respCh size p).chan .pushCh = f.chan .pushCh ∧
      (f.offer .respCh size p).slots = f.slots ∧ (f.offer .respCh size p).puts = f.puts := by
  unfold Flow.offer
  split
  · exact ⟨by simp, rfl, rfl⟩
  · exact ⟨rfl, rfl, rfl⟩

theorem offer_pushCh (f : Flow) (size : Nat) (p : Packet) :
    (f.offer .pushCh size p).chan .pushCh =
        (if (f.chan .pushCh).length < size then f.chan .pushCh ++ [p] else f.chan .pushCh) ∧
      (f.offer .pushCh size p).slots = f.slots ∧ (f.offer .pushCh size p).puts = f.puts := by
  unfold Flow.offer
  split
  · exact ⟨by simp, rfl, rfl⟩
  · exact ⟨rfl, rfl, rfl⟩

theorem Shows.same (shown : Shows c s r) (writePos : t.writePos = s.writePos)
    (puts : t.flow.puts = s.flow.puts) (slots : t.flow.slots = s.flow.slots)
    (cursor : t.cursor = s.cursor) (consumer : t.consumer = s.consumer) (done : t.done = s.done)
    (pushCh : t.flow.chan .pushCh = s.flow.chan .pushCh) : Shows c t r := by
  obtain ⟨k, held, reader⟩ := shown.reader
  constructor
  · rw [writePos, shown.writePos]
  · rw [puts, shown.puts]
  · rw [slots]
    exact shown.slots
  · rw [cursor, consumer, done, pushCh]
    exact ⟨k, held, reader⟩

theorem Shows.moves {a : Action Packet} {k : Reader Packet} (shown : Shows c s r)
    (taken : step cfg r a = some (r.setReader c k)) (writePos : t.writePos = s.writePos)
    (puts : t.flow.puts = s.flow.puts) (slots : t.flow.slots = s.flow.slots)
    (cursor : k.cursor = t.cursor) (consumer : k.consumer = t.consumer) (done : k.done = t.done)
    (pushCh : k.pushCh = t.flow.chan .pushCh) :
    ∃ as r', run (step cfg) r as = some r' ∧ Shows c t r' := by
  refine ⟨[a], r.setReader c k, run_cons_some.mpr ⟨_, taken, rfl⟩, ?_⟩
  constructor
  · rw [writePos]
    exact shown.writePos
  · rw [puts]
    exact shown.puts
  · rw [slots]
    exact shown.slots
  · exact ⟨k, Function.update_self _ _ _, cursor, consumer, done, pushCh⟩

theorem push_imitated (p : Packet) (shown : Shows c s r) :
    ∃ as r', run (step cfg) r as = some r' ∧
      Shows c { s with flow := s.flow.offer .pushCh cfg.sendChanSize p } r' := by
  obtain ⟨k, held, cursor, consumer, done, pushCh⟩ := shown.reader
  obtain ⟨chan, slots, puts⟩ := offer_pushCh s.flow cfg.sendChanSize p
  have taken : step cfg r (.send c p) = some (r.setReader c (k.send cfg.sendChanSize p)) := by
    simp only [step, held]
  apply shown.moves taken
  · rfl
  · exact puts
  · exact slots
  · unfold Reader.send
    split
    · exact cursor
    · exact cursor
  · unfold Reader.send
    split
    · exact consumer
    · exact consumer
  · unfold Reader.send
    split
    · exact done
    · exact done
  · rw [chan, ← pushCh]
    unfold Reader.send
    split
    · rfl
    · rfl

theorem receive_shown (cfg : Config) {k : Reader Packet} {slot : Option (Nat × Packet)} {found : Option Packet}
    (same : slot.map Prod.snd = found) (pushCh : k.pushCh = s.flow.chan .pushCh) :
    (k.receive cfg.sendChanSize slot).pushCh =
        (s.offer .pushCh cfg.sendChanSize found).flow.chan .pushCh ∧
      (s.offer .pushCh cfg.sendChanSize found).flow.slots = s.flow.slots ∧
      (s.offer .pushCh cfg.sendChanSize found).flow.puts = s.flow.puts := by
  subst same
  cases slot with
  | none => exact ⟨pushCh, rfl, rfl⟩
  | some e =>
    obtain ⟨chan, slots, puts⟩ := offer_pushCh s.flow cfg.sendChanSize e.2
    refine ⟨?_, slots, puts⟩
    simp only [Option.map_some, Conn.State.offer, chan, ← pushCh, Reader.receive]
    split
    · rfl
    · rfl

theorem offer_rest (lane : Lane) (size : Nat) (p : Option Packet) :
    (s.offer lane size p).writePos = s.writePos ∧ (s.offer lane size p).cursor = s.cursor ∧
      (s.offer lane size p).done = s.done ∧ (s.offer lane size p).consumer = s.consumer := by
  cases p with
  | none => exact ⟨rfl, rfl, rfl, rfl⟩
  | some p => exact ⟨rfl, rfl, rfl, rfl⟩

theorem consume_imitated (shown : Shows c s r) (taken : Conn.consume cfg s = some t) :
    ∃ as r', run (step cfg) r as = some r' ∧ Shows c t r' := by
  obtain ⟨k, held, cursor, consumer, done, pushCh⟩ := shown.reader
  have moves : ∀ l, k.consume cfg r = some l →
      step cfg r (.consume c) = some (r.setReader c l) := by
    intro l moved
    simp only [step, held, moved, Option.map_some]
  have goes : ∀ phase, k.consume cfg r = some (k.at phase) →
      ∃ as r', run (step cfg) r as = some r' ∧ Shows c { s with consumer := phase } r' :=
    fun phase moved => shown.moves (moves _ moved) rfl rfl rfl cursor rfl done pushCh
  unfold Conn.consume at taken
  split at taken
  · rename_i phase
    cases Option.some.inj taken
    apply goes
    simp only [Reader.consume, consumer, phase, done]
  · rename_i phase
    split at taken
    · rename_i behind
      cases Option.some.inj taken
      apply goes
      simp only [Reader.consume, consumer, phase, shown.writePos, cursor, if_pos behind]
    · rename_i ahead
      cases Option.some.inj taken
      apply goes
      simp only [Reader.consume, consumer, phase, shown.writePos, cursor, if_neg ahead]
  · rename_i phase
    split at taken
    · rename_i ahead
      cases Option.some.inj taken
      apply goes
      simp only [Reader.consume, consumer, phase, shown.writePos, cursor, if_pos ahead]
    · contradiction
  · rename_i pos wp phase
    split at taken
    · rename_i inside
      cases Option.some.inj taken
      have moved : k.consume cfg r = some ((k.receive cfg.sendChanSize
          (r.slots (pos &&& cfg.mask))).at (.read (pos + 1) wp)) := by
        simp only [Reader.consume, consumer, phase, if_pos inside]
      obtain ⟨chan, slots, puts⟩ := receive_shown cfg (shown.slots (pos &&& cfg.mask)) pushCh
      obtain ⟨cursor', _, done'⟩ := receive_same k cfg.sendChanSize (r.slots (pos &&& cfg.mask))
      obtain ⟨offerPos, offerCursor, offerDone, _⟩ := offer_rest (s := s) .pushCh cfg.sendChanSize
        (s.flow.slots (pos &&& cfg.mask))
      apply shown.moves (moves _ moved)
      · exact offerPos
      · exact puts
      · exact slots
      · exact cursor'.trans (cursor.trans offerCursor.symm)
      · rfl
      · exact done'.trans (done.trans offerDone.symm)
      · exact chan
    · rename_i outside
      cases Option.some.inj taken
      have moved : k.consume cfg r = some { k with cursor := wp, consumer := .top } := by
        simp only [Reader.consume, consumer, phase, if_neg outside]
      exact shown.moves (moves _ moved) rfl rfl rfl rfl rfl done pushCh
  · contradiction

theorem put_imitated (p : Packet) (shown : Shows c s r) :
    ∃ as r', run (step cfg) r as = some r' ∧ Shows c { s with
      writePos := s.writePos + 1
      flow := { s.flow with puts := s.flow.puts ++ [(s.writePos, p)] } } r' := by
  refine ⟨[.put p], _, rfl, ?_⟩
  constructor
  · simp only [shown.writePos]
  · simp only [shown.puts, shown.writePos]
  · exact shown.slots
  · exact shown.reader

theorem store_imitated {pos : Nat} {p : Packet} (shown : Shows c s r)
    (found : s.flow.puts.lookup pos = some p) :
    ∃ as r', run (step cfg) r as = some r' ∧ Shows c { s with flow := { s.flow with
      slots := Function.update s.flow.slots (pos &&& cfg.mask) (some p)
      puts := s.flow.puts.filter (·.1 ≠ pos) } } r' := by
  have taken : step cfg r (.store pos) = some { r with
      slots := Function.update r.slots (pos &&& cfg.mask) (some (pos, p))
      puts := r.puts.filter (·.1 ≠ pos) } := by
    simp only [step, shown.puts, found]
  refine ⟨[.store pos], _, run_cons_some.mpr ⟨_, taken, rfl⟩, ?_⟩
  constructor
  · exact shown.writePos
  · simp only [shown.puts]
  · intro i
    by_cases here : i = pos &&& cfg.mask
    · simp only [here, Function.update_self, Option.map_some]
    · simp only [Function.update_of_ne here]
      exact shown.slots i
  · exact shown.reader

theorem step_imitated {a : Conn.Action} (shown : Shows c s r)
    (taken : Conn.step protos cfg s a = some t) :
    ∃ as r', run (step cfg) r as = some r' ∧ Shows c t r' := by
  cases a with
  | reply cmd seq payload =>
    cases Option.some.inj taken
    refine ⟨[], r, rfl, ?_⟩
    cases Gateway.reply protos cmd seq payload with
    | none => exact shown
    | some p =>
      obtain ⟨chan, slots, puts⟩ := offer_respCh s.flow respChanSize p
      exact shown.same rfl puts slots rfl rfl rfl chan
  | deliver msg =>
    cases Option.some.inj taken
    cases marshalPush protos msg with
    | none => exact ⟨[], r, rfl, shown⟩
    | some p => exact push_imitated p shown
  | put msg =>
    simp only [Conn.step] at taken
    split at taken
    · cases Option.some.inj taken
      exact ⟨[], r, rfl, shown⟩
    · cases Option.some.inj taken
      exact put_imitated _ shown
  | store pos =>
    simp only [Conn.step] at taken
    split at taken
    · contradiction
    · rename_i p found
      cases Option.some.inj taken
      exact store_imitated shown found
  | consume => exact consume_imitated shown taken
  | consumerDone =>
    simp only [Conn.step] at taken
    split at taken
    · rename_i stopping
      cases Option.some.inj taken
      obtain ⟨k, held, cursor, consumer, done, pushCh⟩ := shown.reader
      have stops : step cfg r (.consumerDone c) = some (r.setReader c (k.at .stopped)) := by
        simp only [step, held, consumer, done]
        exact if_pos stopping
      exact shown.moves stops rfl rfl rfl cursor rfl done pushCh
    · contradiction
  | take lane =>
    simp only [Conn.step] at taken
    split at taken
    · rename_i p rest writer waiting _
      cases Option.some.inj taken
      cases lane with
      | respCh =>
        refine ⟨[], r, rfl, shown.same rfl rfl rfl rfl rfl rfl ?_⟩
        simp [Flow.take]
      | pushCh =>
        obtain ⟨k, held, cursor, consumer, done, pushCh⟩ := shown.reader
        have takes : step cfg r (.take c) = some (r.setReader c { k with pushCh := rest }) := by
          simp only [step, held, pushCh, waiting]
        apply shown.moves takes
        · rfl
        · rfl
        · rfl
        · exact cursor
        · exact consumer
        · exact done
        · simp [Flow.take]
    · contradiction
  | proceed =>
    simp only [Conn.step, Option.map_eq_some_iff] at taken
    obtain ⟨writer, _, rfl⟩ := taken
    exact ⟨[], r, rfl, shown.same rfl rfl rfl rfl rfl rfl rfl⟩
  | write failed =>
    simp only [Conn.step] at taken
    split at taken
    · contradiction
    · obtain ⟨writer, _, rfl⟩ := Option.map_eq_some_iff.mp taken
      exact ⟨[], r, rfl, shown.same rfl rfl rfl rfl rfl rfl rfl⟩
  | closeDone =>
    simp only [Conn.step] at taken
    split at taken
    · contradiction
    · cases Option.some.inj taken
      obtain ⟨k, held, cursor, consumer, _, pushCh⟩ := shown.reader
      have closes : step cfg r (.close c) = some (r.setReader c { k with done := true }) := by
        simp only [step, held]
      exact shown.moves closes rfl rfl rfl cursor consumer rfl pushCh
  | closeSocket =>
    simp only [Conn.step] at taken
    split at taken
    · cases Option.some.inj taken
      exact ⟨[], r, rfl, shown.same rfl rfl rfl rfl rfl rfl rfl⟩
    · contradiction

/-- Whatever a connection does, a run of the ring machine with that reader does to the
ring, the cursor and the push channel. -/
theorem conn_run_shown {as : List Conn.Action} (shown : Shows c s r)
    (taken : run (Conn.step protos cfg) s as = some t) :
    ∃ bs r', run (step cfg) r bs = some r' ∧ Shows c t r' :=
  run_simulates (Shows c) (fun _ _ _ _ related taken => step_imitated related taken) shown taken

theorem newConn_shown (r : State Packet) (free : r.readers c = none) :
    ∃ r', step cfg r (.connect c) = some r' ∧
      Shows c (newConn (fun i => (r.slots i).map Prod.snd) r.puts r.writePos) r' := by
  refine ⟨r.setReader c r.reader, by simp only [step, free], ?_⟩
  constructor
  · rfl
  · rfl
  · intro i
    rfl
  · exact ⟨r.reader, Function.update_self _ _ _, rfl, rfl, rfl, rfl⟩

end Shows

end GameIM.Gateway.Ring
