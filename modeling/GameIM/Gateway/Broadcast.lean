import GameIM.Gateway.Ring

/-! One broadcast through the ring, from the Put to the state in which every consumer has
caught up with it again. -/
namespace GameIM.Gateway.Broadcast
open Lib Conn

variable {α : Type}

/-- Every consumer waits at the end of the ring, or has stopped, and no Put is in progress. -/
structure CaughtUp (r : Ring.State α) : Prop where
  puts : r.puts = []
  readers : ∀ c k, r.readers c = some k →
    k.consumer = .stopped ∨ (k.consumer = .wait ∧ k.cursor = r.writePos)

def Serves : Ring.Action α → Prop
  | .connect _ | .put _ | .close _ => False
  | _ => True

/- A turn of a consumer that is not overrun and finds room in pushCh, and whose Get comes
after the Put has stored. -/
def Smooth (cfg : Config) (r : Ring.State α) : Ring.Action α → Prop
  | .consume c => Ring.KeepsUp cfg c r (.consume c) ∧ Ring.Stored cfg c r (.consume c)
  | _ => True

/-- One Put and everything it leads to, until every consumer has caught up again. -/
structure Broadcasts (cfg : Config) (r : Ring.State α) (data : α) (bs : List (Ring.Action α))
    (t : Ring.State α) : Prop where
  taken : run (Ring.step cfg) r (.put data :: bs) = some t
  serves : ∀ a ∈ bs, Serves a
  smooth : Meets (Ring.step cfg) (Smooth cfg) r (.put data :: bs)
  caughtUp : CaughtUp t

/- A stopped consumer has seen done. -/
def Halts (r : Ring.State α) : Prop :=
  ∀ c k, r.readers c = some k → k.consumer = .stopped → k.done = true

def Listed (r : Ring.State α) : Prop := ∃ cs : List ConnID, ∀ c k, r.readers c = some k → c ∈ cs

section Readers

variable {cfg : Config} {r t : Ring.State α} {k l : Ring.Reader α} {a : Ring.Action α}

theorem setReader_done (c d : ConnID) :
    ((r.setReader c k).readers d).map (·.done) =
      if d = c then some k.done else (r.readers d).map (·.done) := by
  by_cases here : d = c
  · simp [Ring.State.setReader, here]
  · simp [Ring.State.setReader, here]

theorem setReader_done_same {c : ConnID} (held : r.readers c = some k) (l : Ring.Reader α)
    (same : l.done = k.done) (d : ConnID) :
    ((r.setReader c l).readers d).map (·.done) = (r.readers d).map (·.done) := by
  rw [setReader_done]
  split
  · rename_i here
    rw [here, held, same]
    rfl
  · rfl

theorem moved_done (moved : Ring.Moved cfg r k l) : l.done = k.done := by
  cases moved with
  | gets _ _ => exact (Ring.receive_same k _ _).2.2
  | _ => rfl

theorem send_done (size : Nat) (data : α) :
    (k.send size data).done = k.done ∧ (k.send size data).consumer = k.consumer := by
  unfold Ring.Reader.send
  split
  · exact ⟨rfl, rfl⟩
  · exact ⟨rfl, rfl⟩

theorem serves_done (serves : Serves a ∨ ∃ data, a = .put data) (taken : Ring.step cfg r a = some t)
    (c : ConnID) : (t.readers c).map (·.done) = (r.readers c).map (·.done) := by
  cases Ring.step_effect taken with
  | connect _ => simp [Serves] at serves
  | close _ => simp [Serves] at serves
  | put => rfl
  | store _ => rfl
  | consume held moved => exact setReader_done_same held _ (moved_done moved) c
  | @consumerDone d k held _ _ => exact setReader_done_same held (k.at .stopped) rfl c
  | send held => exact setReader_done_same held _ (send_done _ _).1 c
  | @take d k _ rest held _ => exact setReader_done_same held { k with pushCh := rest } rfl c

theorem Halts.set (halts : Halts r) (c : ConnID) (mine : l.consumer = .stopped → l.done = true) :
    Halts (r.setReader c l) := by
  intro d m held stopped
  rcases Ring.setReader_readers held with ⟨_, rfl⟩ | ⟨_, old⟩
  · exact mine stopped
  · exact halts d m old stopped

theorem step_halts (halts : Halts r) (taken : Ring.step cfg r a = some t) : Halts t := by
  cases Ring.step_effect taken with
  | put => exact halts
  | store _ => exact halts
  | connect _ =>
    apply halts.set
    intro stopped
    cases stopped
  | @consume c k l held moved =>
    apply halts.set
    cases moved with
    | checked _ =>
      intro stopped
      cases done : k.done with
      | true => simp [Ring.Reader.at, done]
      | false => simp [Ring.Reader.at, done] at stopped
    | _ =>
      intro stopped
      cases stopped
  | consumerDone _ _ done => exact halts.set _ (fun _ => done)
  | @send c k data held =>
    apply halts.set
    rw [(send_done _ _).2, (send_done _ _).1]
    exact halts c k held
  | @take c k _ _ held _ => exact halts.set c (halts c k held)
  | close _ => exact halts.set _ (fun _ => rfl)

theorem Listed.set (listed : Listed r) (c : ConnID) (l : Ring.Reader α) : Listed (r.setReader c l) := by
  obtain ⟨cs, all⟩ := listed
  refine ⟨c :: cs, ?_⟩
  intro d m held
  rcases Ring.setReader_readers held with ⟨rfl, _⟩ | ⟨_, old⟩
  · exact List.mem_cons_self
  · exact List.mem_cons_of_mem c (all d m old)

theorem step_listed (listed : Listed r) (taken : Ring.step cfg r a = some t) : Listed t := by
  cases Ring.step_effect taken with
  | put => exact listed
  | store _ => exact listed
  | connect _ => exact listed.set _ _
  | consume _ _ => exact listed.set _ _
  | consumerDone _ _ _ => exact listed.set _ _
  | send _ => exact listed.set _ _
  | take _ _ => exact listed.set _ _
  | close _ => exact listed.set _ _

end Readers

/-- How far the consumer of a connection has got with the one entry that was put at `pos`,
from its reader `k` when the Put began. -/
inductive Served (pos : Nat) (data : α) (k l : Ring.Reader α) : Prop where
  | behind : k.done = false → l.enqueued = k.enqueued → l.cursor = pos →
      l.consumer = .wait ∨ l.consumer = .top ∨ l.consumer = .load ∨ l.consumer = .read pos (pos + 1) →
      Served pos data k l
  | read : k.done = false → l.enqueued = k.enqueued ++ [(pos, data)] →
      l.consumer = .read (pos + 1) (pos + 1) → Served pos data k l
  | ahead : k.done = false → l.enqueued = k.enqueued ++ [(pos, data)] → l.cursor = pos + 1 →
      l.consumer = .wait ∨ l.consumer = .top ∨ l.consumer = .load → Served pos data k l
  | closed : k.done = true → l.enqueued = k.enqueued →
      l.consumer = .wait ∨ l.consumer = .top ∨ l.consumer = .stopped → Served pos data k l

section Served

variable {cfg : Config} {r t : Ring.State α} {c : ConnID} {k l m : Ring.Reader α} {pos : Nat} {data : α}

theorem Served.congr (served : Served pos data k l) (enqueued : m.enqueued = l.enqueued)
    (cursor : m.cursor = l.cursor) (consumer : m.consumer = l.consumer) : Served pos data k m := by
  cases served with
  | behind live same at' phase =>
    exact .behind live (enqueued.trans same) (cursor.trans at') (consumer ▸ phase)
  | read live more phase => exact .read live (enqueued.trans more) (consumer.trans phase)
  | ahead live more at' phase =>
    exact .ahead live (enqueued.trans more) (cursor.trans at') (consumer ▸ phase)
  | closed shut same phase => exact .closed shut (enqueued.trans same) (consumer ▸ phase)

theorem moved_served (inv : Ring.Inv r) (writePos : r.writePos = pos + 1)
    (logged : r.log[pos]? = some data) (held : r.readers c = some l)
    (smooth : Smooth cfg r (.consume c)) (done : l.done = k.done) (served : Served pos data k l)
    (moved : Ring.Moved cfg r l m) : Served pos data k m := by
  obtain ⟨near, room⟩ := smooth.1 rfl l held
  have finds := smooth.2 rfl l held
  cases moved with
  | checked phase =>
    cases served with
    | behind live same at' _ =>
      refine .behind live same at' ?_
      simp [Ring.Reader.at, done, live]
    | read _ _ reading => simp [phase] at reading
    | ahead live more at' _ =>
      refine .ahead live more at' ?_
      simp [Ring.Reader.at, done, live]
    | closed shut same _ =>
      refine .closed shut same ?_
      simp [Ring.Reader.at, done, shut]
  | waits phase behind =>
    cases served with
    | behind _ _ at' _ => omega
    | read _ _ reading => simp [phase] at reading
    | ahead live more at' _ => exact .ahead live more at' (Or.inl rfl)
    | closed _ _ other => simp [phase] at other
  | loads phase ahead =>
    cases served with
    | behind live same at' _ =>
      have first : readFrom cfg l.cursor r.writePos = pos := by
        unfold readFrom
        rw [if_neg (by omega)]
        exact at'
      refine .behind live same at' (Or.inr (Or.inr (Or.inr ?_)))
      rw [Ring.Reader.at, first, writePos]
    | read _ _ reading => simp [phase] at reading
    | ahead _ _ at' _ => omega
    | closed _ _ other => simp [phase] at other
  | woken phase ahead =>
    cases served with
    | behind live same at' _ => exact .behind live same at' (Or.inr (Or.inl rfl))
    | read _ _ reading => simp [phase] at reading
    | ahead _ _ at' _ => omega
    | closed shut same _ => exact .closed shut same (Or.inr (Or.inl rfl))
  | @gets p w phase inside =>
    cases served with
    | behind live same _ reading =>
      obtain ⟨rfl, rfl⟩ : p = pos ∧ w = pos + 1 := by simpa [phase] using reading
      rw [phase] at finds
      obtain ⟨e, slot, own⟩ := Option.map_eq_some_iff.mp (finds inside)
      have entry := inv.held _ e slot
      rw [own, logged] at entry
      refine .read live ?_ rfl
      have pair : e = (p, data) := Prod.ext own (Option.some.inj entry).symm
      simp only [Ring.Reader.receive, slot, if_pos room, Ring.Reader.at, same, pair]
    | read _ _ reading =>
      obtain ⟨rfl, rfl⟩ : p = pos + 1 ∧ w = pos + 1 := by simpa [phase] using reading
      omega
    | ahead _ _ _ other => simp [phase] at other
    | closed _ _ other => simp [phase] at other
  | @ends p w phase done =>
    cases served with
    | behind _ _ _ reading =>
      obtain ⟨rfl, rfl⟩ : p = pos ∧ w = pos + 1 := by simpa [phase] using reading
      omega
    | read live more reading =>
      obtain ⟨rfl, rfl⟩ : p = pos + 1 ∧ w = pos + 1 := by simpa [phase] using reading
      exact .ahead live more rfl (Or.inr (Or.inl rfl))
    | ahead _ _ _ other => simp [phase] at other
    | closed _ _ other => simp [phase] at other

structure Serving (pos : Nat) (data : α) (c : ConnID) (k : Ring.Reader α) (r : Ring.State α) : Prop where
  inv : Ring.Inv r
  writePos : r.writePos = pos + 1
  logged : r.log[pos]? = some data
  reader : ∃ l, r.readers c = some l ∧ l.done = k.done ∧ Served pos data k l

theorem Serving.set (serving : Serving pos data c k r) {d : ConnID} (inv : Ring.Inv (r.setReader d m))
    (mine : ∀ l, d = c → r.readers c = some l → l.done = k.done → Served pos data k l →
      m.done = k.done ∧ Served pos data k m) : Serving pos data c k (r.setReader d m) := by
  refine ⟨inv, serving.writePos, serving.logged, ?_⟩
  obtain ⟨l, held, done, served⟩ := serving.reader
  by_cases here : c = d
  · subst here
    exact ⟨m, by simp [Ring.State.setReader], mine l rfl held done served⟩
  · exact ⟨l, by simp [Ring.State.setReader, here, held], done, served⟩

theorem step_serving {a : Ring.Action α} (serving : Serving pos data c k r) (serves : Serves a)
    (smooth : Smooth cfg r a) (taken : Ring.step cfg r a = some t) : Serving pos data c k t := by
  have inv := Ring.step_inv serving.inv taken
  cases Ring.step_effect taken with
  | connect _ => contradiction
  | put => contradiction
  | close _ => contradiction
  | store _ => exact ⟨inv, serving.writePos, serving.logged, serving.reader⟩
  | consume held moved =>
    apply serving.set inv
    rintro l rfl same done served
    cases held.symm.trans same
    exact ⟨(moved_done moved).trans done,
      moved_served serving.inv serving.writePos serving.logged held smooth done served moved⟩
  | consumerDone held phase shut =>
    apply serving.set inv
    rintro l rfl same done served
    cases held.symm.trans same
    refine ⟨done, ?_⟩
    cases served with
    | closed shut same _ => exact .closed shut same (Or.inr (Or.inr rfl))
    | behind live _ _ _ => simp [shut, live] at done
    | read live _ _ => simp [shut, live] at done
    | ahead live _ _ _ => simp [shut, live] at done
  | @send d l sent held =>
    apply serving.set inv
    rintro l rfl same done served
    cases held.symm.trans same
    refine ⟨(send_done _ _).1.trans done, served.congr ?_ ?_ (send_done _ _).2⟩
    · unfold Ring.Reader.send
      split <;> rfl
    · unfold Ring.Reader.send
      split <;> rfl
  | take held _ =>
    apply serving.set inv
    rintro l rfl same done served
    cases held.symm.trans same
    exact ⟨done, served.congr rfl rfl rfl⟩

theorem put_serving (inv : Ring.Inv r) (halts : Halts r) (caughtUp : CaughtUp r)
    (held : r.readers c = some k) (taken : Ring.step cfg r (.put data) = some t) :
    Serving r.writePos data c k t := by
  have next := Ring.step_inv inv taken
  cases Ring.step_effect taken with
  | put =>
    refine ⟨next, rfl, ?_, k, held, rfl, ?_⟩
    · simp [← inv.counted]
    · cases done : k.done with
      | true =>
        refine .closed done rfl ?_
        rcases caughtUp.readers c k held with stopped | ⟨waits, _⟩
        · exact Or.inr (Or.inr stopped)
        · exact Or.inl waits
      | false =>
        rcases caughtUp.readers c k held with stopped | ⟨waits, cursor⟩
        · have := halts c k held stopped
          simp [done] at this
        · exact .behind done rfl cursor (Or.inl waits)

/-- Whatever the schedule, the consumer of an open connection has enqueued the data once and
that of a closed one has not. -/
theorem broadcasts_enqueued {bs : List (Ring.Action α)} (inv : Ring.Inv r) (halts : Halts r)
    (caughtUp : CaughtUp r) (broadcasts : Broadcasts cfg r data bs t) (held : r.readers c = some k) :
    ∃ l, t.readers c = some l ∧
      l.enqueued = k.enqueued ++ List.replicate (if k.done then 0 else 1) (r.writePos, data) := by
  obtain ⟨u, put, rest⟩ := run_cons_some.mp broadcasts.taken
  have smooth := ((meets_cons put).mp broadcasts.smooth).2
  have first := put_serving inv halts caughtUp held put
  have serves : Meets (Ring.step cfg) (fun _ a => Serves a) u bs :=
    (meets_true u bs).imp (fun _ a mem _ => broadcasts.serves a mem)
  have final : Serving r.writePos data c k t :=
    run_invariant_meets (Serving r.writePos data c k)
      (fun _ _ _ serving ok taken => step_serving serving ok.1 ok.2 taken) first (serves.and smooth) rest
  obtain ⟨l, there, done, served⟩ := final.reader
  refine ⟨l, there, ?_⟩
  have last := broadcasts.caughtUp.readers c l there
  rw [final.writePos] at last
  cases served with
  | behind live _ at' phase =>
    rcases last with stopped | ⟨_, cursor⟩
    · simp [stopped] at phase
    · omega
  | read _ _ phase => simp [phase] at last
  | ahead live more _ _ => simp [live, more]
  | closed shut same _ => simp [shut, same]

end Served

structure Leads (cfg : Config) (r : Ring.State α) (bs : List (Ring.Action α)) (t : Ring.State α) : Prop where
  taken : run (Ring.step cfg) r bs = some t
  serves : ∀ a ∈ bs, Serves a
  smooth : Meets (Ring.step cfg) (Smooth cfg) r bs

def Reader.ready (pos : Nat) (k : Ring.Reader α) : Prop :=
  k.consumer = .stopped ∨ (k.consumer = .wait ∧ k.cursor = pos + 1)

/- The entry is stored, and every consumer has it behind it or waits before it. -/
structure Ready (cfg : Config) (pos : Nat) (data : α) (r : Ring.State α) : Prop where
  puts : r.puts = []
  writePos : r.writePos = pos + 1
  slot : r.slots (pos &&& cfg.mask) = some (pos, data)
  readers : ∀ c k, r.readers c = some k → Reader.ready pos k ∨
    (k.consumer = .wait ∧ k.cursor = pos ∧ k.pushCh.length < cfg.sendChanSize)

section Ends

variable {cfg : Config} {r t u : Ring.State α} {c : ConnID} {k l m : Ring.Reader α} {pos : Nat} {data : α}
  {a : Ring.Action α} {as bs : List (Ring.Action α)}

theorem Leads.nil (cfg : Config) (r : Ring.State α) : Leads cfg r [] r :=
  ⟨rfl, fun _ mem => absurd mem List.not_mem_nil, trivial⟩

theorem Leads.cons (taken : Ring.step cfg r a = some t) (serves : Serves a) (smooth : Smooth cfg r a)
    (rest : Leads cfg t bs u) : Leads cfg r (a :: bs) u := by
  constructor
  · exact run_cons_some.mpr ⟨t, taken, rest.taken⟩
  · intro b mem
    rcases List.mem_cons.mp mem with rfl | later
    · exact serves
    · exact rest.serves b later
  · exact (meets_cons taken).mpr ⟨smooth, rest.smooth⟩

theorem Leads.append (first : Leads cfg r as t) (rest : Leads cfg t bs u) : Leads cfg r (as ++ bs) u := by
  constructor
  · exact run_append_some.mpr ⟨t, first.taken, rest.taken⟩
  · intro b mem
    rcases List.mem_append.mp mem with before | later
    · exact first.serves b before
    · exact rest.serves b later
  · exact (meets_append first.taken).mpr ⟨first.smooth, rest.smooth⟩

theorem setReader_twice (r : Ring.State α) (c : ConnID) (k l : Ring.Reader α) :
    (r.setReader c k).setReader c l = r.setReader c l := by
  simp only [Ring.State.setReader, Function.update_idem]

theorem Leads.consume (k l : Ring.Reader α) (turn : k.consume cfg r = some l)
    (near : r.writePos ≤ k.cursor + (cfg.mask + 1)) (room : k.pushCh.length < cfg.sendChanSize)
    (finds : Ring.Finds cfg r k.consumer) (rest : Leads cfg (r.setReader c l) bs u) :
    Leads cfg (r.setReader c k) (.consume c :: bs) u := by
  have held : (r.setReader c k).readers c = some k := by simp [Ring.State.setReader]
  have same : k.consume cfg (r.setReader c k) = some l := turn
  have taken : Ring.step cfg (r.setReader c k) (.consume c) = some (r.setReader c l) := by
    simp only [Ring.step, held, same, Option.map_some, setReader_twice]
  apply Leads.cons taken trivial _ rest
  constructor
  · rintro - j found
    cases held.symm.trans found
    exact ⟨near, room⟩
  · rintro - j found
    cases held.symm.trans found
    exact finds

theorem Leads.wakes (writePos : r.writePos = pos + 1) (live : k.done = false) (waits : k.consumer = .wait)
    (cursor : k.cursor = pos) (room : k.pushCh.length < cfg.sendChanSize) :
    Leads cfg (r.setReader c k) [.consume c, .consume c, .consume c]
      (r.setReader c (k.at (.read pos (pos + 1)))) := by
  have near : r.writePos ≤ k.cursor + (cfg.mask + 1) := by omega
  have first : readFrom cfg pos (pos + 1) = pos := by
    unfold readFrom
    rw [if_neg (by omega)]
  have loads : Leads cfg (r.setReader c (k.at .load)) [.consume c]
      (r.setReader c (k.at (.read pos (pos + 1)))) := by
    apply Leads.consume (k.at .load) _ _ near room trivial (Leads.nil cfg _)
    simp [Ring.Reader.consume, Ring.Reader.at, writePos, cursor, first]
  have checks : Leads cfg (r.setReader c (k.at .top)) [.consume c, .consume c]
      (r.setReader c (k.at (.read pos (pos + 1)))) := by
    apply Leads.consume (k.at .top) _ _ near room trivial loads
    simp [Ring.Reader.consume, Ring.Reader.at, live]
  apply Leads.consume k _ _ near room _ checks
  · simp [Ring.Reader.consume, waits, writePos, cursor]
  · rw [waits]
    trivial

theorem Leads.rests (writePos : r.writePos = pos + 1) (live : k.done = false) (phase : k.consumer = .top)
    (cursor : k.cursor = pos + 1) (room : k.pushCh.length < cfg.sendChanSize) :
    Leads cfg (r.setReader c k) [.consume c, .consume c] (r.setReader c (k.at .wait)) := by
  have near : r.writePos ≤ k.cursor + (cfg.mask + 1) := by omega
  have loads : Leads cfg (r.setReader c (k.at .load)) [.consume c] (r.setReader c (k.at .wait)) := by
    apply Leads.consume (k.at .load) _ _ near room trivial (Leads.nil cfg _)
    simp [Ring.Reader.consume, Ring.Reader.at, writePos, cursor]
  apply Leads.consume k _ _ near room _ loads
  · simp [Ring.Reader.consume, phase, live]
  · rw [phase]
    trivial

/- The consumer of an open connection is woken, reads the entry and waits again, while the
write loop takes something from the channel. -/
theorem open_catches_up (ready : Ready cfg pos data r) (live : k.done = false) (waits : k.consumer = .wait)
    (cursor : k.cursor = pos) (room : k.pushCh.length < cfg.sendChanSize) :
    ∃ bs l, Leads cfg (r.setReader c k) bs (r.setReader c l) ∧ Reader.ready pos l := by
  have writePos := ready.writePos
  have near : r.writePos ≤ k.cursor + (cfg.mask + 1) := by omega
  let got : Ring.Reader α :=
    { k with
      consumer := .read (pos + 1) (pos + 1)
      pushCh := k.pushCh ++ [data]
      enqueued := k.enqueued ++ [(pos, data)] }
  let taken : Ring.Reader α := { got with pushCh := got.pushCh.tail }
  let next : Ring.Reader α := { taken with cursor := pos + 1, consumer := .top }
  have short : next.pushCh.length < cfg.sendChanSize := by simpa [next, taken, got] using room
  have ends : Leads cfg (r.setReader c taken) (.consume c :: [.consume c, .consume c])
      (r.setReader c (next.at .wait)) := by
    apply Leads.consume taken next _ near short _ (Leads.rests writePos live rfl rfl short)
    · simp [Ring.Reader.consume, next, taken, got]
    · simp [Ring.Finds, taken, got]
  have written : Ring.step cfg (r.setReader c got) (.take c) = some (r.setReader c taken) := by
    have held : (r.setReader c got).readers c = some got := by simp [Ring.State.setReader]
    obtain ⟨x, rest, filled⟩ : ∃ x rest, got.pushCh = x :: rest :=
      List.exists_cons_of_ne_nil (by simp [got])
    simp only [Ring.step, held, filled, setReader_twice, taken, List.tail_cons]
  have gets : Leads cfg (r.setReader c (k.at (.read pos (pos + 1))))
      (.consume c :: .take c :: .consume c :: [.consume c, .consume c]) (r.setReader c (next.at .wait)) := by
    apply Leads.consume (k.at (.read pos (pos + 1))) got _ near room _ (Leads.cons written trivial trivial ends)
    · simp [Ring.Reader.consume, Ring.Reader.receive, Ring.Reader.at, ready.slot, room, got]
    · simp [Ring.Finds, Ring.Reader.at, ready.slot]
  exact ⟨_, next.at .wait, (Leads.wakes writePos live waits cursor room).append gets, Or.inr ⟨rfl, rfl⟩⟩

theorem closed_catches_up (waits : k.consumer = .wait) (shut : k.done = true) :
    Leads cfg (r.setReader c k) [.consumerDone c] (r.setReader c (k.at .stopped)) := by
  have held : (r.setReader c k).readers c = some k := by simp [Ring.State.setReader]
  have taken : Ring.step cfg (r.setReader c k) (.consumerDone c) = some (r.setReader c (k.at .stopped)) := by
    simp only [Ring.step, held, waits, shut, and_self, if_true, setReader_twice]
  exact Leads.cons taken trivial trivial (Leads.nil cfg _)

/- By induction over the connections: each catches up in turn. -/
theorem all_catch_up (cs : List ConnID) (ready : Ready cfg pos data r)
    (rest : ∀ c k, r.readers c = some k → c ∉ cs → Reader.ready pos k) :
    ∃ bs t, Leads cfg r bs t ∧ CaughtUp t := by
  induction cs generalizing r with
  | nil =>
    refine ⟨[], r, Leads.nil cfg r, ready.puts, ?_⟩
    intro c k held
    rw [ready.writePos]
    exact rest c k held List.not_mem_nil
  | cons c cs ih =>
    by_cases behind : ∃ k, r.readers c = some k ∧ ¬ Reader.ready pos k
    · obtain ⟨k, held, behind⟩ := behind
      obtain ⟨waits, cursor, room⟩ := (ready.readers c k held).resolve_left behind
      have itself : r.setReader c k = r := by
        simp only [Ring.State.setReader, ← held, Function.update_eq_self]
      obtain ⟨as, l, leads, done⟩ : ∃ as l, Leads cfg r as (r.setReader c l) ∧ Reader.ready pos l := by
        rw [← itself]
        simp only [setReader_twice]
        cases shut : k.done with
        | true => exact ⟨_, _, closed_catches_up waits shut, Or.inl rfl⟩
        | false => exact open_catches_up ready shut waits cursor room
      have next : Ready cfg pos data (r.setReader c l) := by
        refine ⟨ready.puts, ready.writePos, ready.slot, ?_⟩
        intro d m there
        rcases Ring.setReader_readers there with ⟨_, rfl⟩ | ⟨_, old⟩
        · exact Or.inl done
        · exact ready.readers d m old
      obtain ⟨bs, t, more, caughtUp⟩ := ih next (by
        intro d m there absent
        rcases Ring.setReader_readers there with ⟨_, rfl⟩ | ⟨other, old⟩
        · exact done
        · exact rest d m old (by simp [other, absent]))
      exact ⟨as ++ bs, t, leads.append more, caughtUp⟩
    · apply ih ready
      intro d k held absent
      by_cases here : d = c
      · subst here
        by_contra behindIt
        exact behind ⟨k, held, behindIt⟩
      · exact rest d k held (by simp [here, absent])

theorem broadcast_ends (listed : Listed r) (caughtUp : CaughtUp r)
    (room : ∀ c k, r.readers c = some k → k.pushCh.length < cfg.sendChanSize) (data : α) :
    ∃ bs t, Broadcasts cfg r data bs t := by
  obtain ⟨cs, all⟩ := listed
  let put : Ring.State α :=
    { r with writePos := r.writePos + 1, puts := r.puts ++ [(r.writePos, data)], log := r.log ++ [data] }
  let stored : Ring.State α :=
    { put with
      slots := Function.update r.slots (r.writePos &&& cfg.mask) (some (r.writePos, data))
      puts := [] }
  have store : Ring.step cfg put (.store r.writePos) = some stored := by
    simp [Ring.step, put, stored, caughtUp.puts]
  have ready : Ready cfg r.writePos data stored := by
    refine ⟨rfl, rfl, Function.update_self _ _ _, ?_⟩
    intro c k held
    rcases caughtUp.readers c k held with stopped | ⟨waits, cursor⟩
    · exact Or.inl (Or.inl stopped)
    · exact Or.inr ⟨waits, cursor, room c k held⟩
  obtain ⟨bs, t, leads, final⟩ := all_catch_up cs ready
    (fun c k held absent => absurd (all c k held) absent)
  have whole := Leads.cons store trivial trivial leads
  have first : Ring.step cfg r (.put data) = some put := rfl
  refine ⟨_, t, run_cons_some.mpr ⟨put, first, whole.taken⟩, whole.serves, ?_, final⟩
  exact (meets_cons first).mpr ⟨trivial, whole.smooth⟩

end Ends

end GameIM.Gateway.Broadcast
