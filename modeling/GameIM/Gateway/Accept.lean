import GameIM.Lib.Tally
import GameIM.Gateway.BindSteps

/-! The accept loop of Server.Start, interleaved with everything the connections do. Only
the accept loop registers, and Register puts the connection into conns before it counts it;
the heartbeat sweep can find the connection, and close it, in between. -/
namespace GameIM.Gateway

namespace ConnManager

def storeConn (m : ConnManager) (c : ConnID) : ConnManager :=
  { m with
    conns := Function.update m.conns c true
    life := Function.update m.life c .open }

def countUp (m : ConnManager) : ConnManager := { m with count := m.count + 1 }

theorem register_steps (m : ConnManager) (c : ConnID) : m.register c = (m.storeConn c).countUp := rfl

end ConnManager

namespace Accept
open Lib
open BindRace (ClosePhase)

/-- Where Start is: at listener.Accept, before the test of Count, before the store and
before the count of Register, or returned. -/
inductive Phase where
  | accept
  | test
  | store (c : ConnID)
  | count (c : ConnID)
  | stopped
  deriving DecidableEq, Repr

structure State where
  base : BindRace.State
  phase : Phase

/- `test c` is the comparison with MaxConnections, and c the id that newConn makes if it
goes well; `closeAgain` is a call of Close after the one that had an effect. -/
inductive Action where
  | accept
  | acceptError (closed : Bool)
  | test (c : ConnID)
  | store
  | count
  | conn (a : BindRace.Action)
  | closeAgain (c : ConnID)
  deriving DecidableEq, Repr

def start : State := ⟨BindRace.new, .accept⟩

/- Serve is started after Register, and only Serve reads requests. -/
def serving (s : State) : BindRace.Action → Bool
  | .register _ => false
  | .bind c _ => s.phase ≠ .count c
  | _ => true

def step (maxConnections : Int) (s : State) : Action → Option State
  | .accept => if s.phase = .accept then some { s with phase := .test } else none
  | .acceptError closed =>
    if s.phase = .accept then some { s with phase := if closed then .stopped else .accept } else none
  | .test c =>
    if s.phase = .test then
      if s.base.mgr.count ≥ maxConnections then some { s with phase := .accept }
      else if s.base.mgr.life c = .fresh then some { s with phase := .store c }
      else none
    else none
  | .store => match s.phase with
    | .store c => some ⟨s.base.setMgr (s.base.mgr.storeConn c), .count c⟩
    | _ => none
  | .count => match s.phase with
    | .count _ => some ⟨s.base.setMgr s.base.mgr.countUp, .accept⟩
    | _ => none
  | .conn a => if serving s a then (BindRace.step s.base a).map (⟨·, s.phase⟩) else none
  | .closeAgain c => if s.base.closes c = some .finished then some s else none

inductive Effect (maxConnections : Int) (s : State) : Action → State → Prop where
  | accept : s.phase = .accept → Effect maxConnections s .accept { s with phase := .test }
  | acceptError {closed} : s.phase = .accept → Effect maxConnections s (.acceptError closed)
      { s with phase := if closed then .stopped else .accept }
  | reject {c} : s.phase = .test → maxConnections ≤ s.base.mgr.count →
      Effect maxConnections s (.test c) { s with phase := .accept }
  | pass {c} : s.phase = .test → s.base.mgr.count < maxConnections → s.base.mgr.life c = .fresh →
      Effect maxConnections s (.test c) { s with phase := .store c }
  | store {c} : s.phase = .store c →
      Effect maxConnections s .store ⟨s.base.setMgr (s.base.mgr.storeConn c), .count c⟩
  | count {c} : s.phase = .count c →
      Effect maxConnections s .count ⟨s.base.setMgr s.base.mgr.countUp, .accept⟩
  | conn {a b} : serving s a = true → BindRace.Effect s.base a b →
      Effect maxConnections s (.conn a) ⟨b, s.phase⟩
  | closeAgain {c} : s.base.closes c = some .finished → Effect maxConnections s (.closeAgain c) s

theorem step_effect {maxConnections : Int} {s t : State} {a : Action}
    (taken : step maxConnections s a = some t) : Effect maxConnections s a t := by
  cases a with
  | accept =>
    simp only [step] at taken
    split at taken
    · cases Option.some.inj taken
      exact .accept (by assumption)
    · contradiction
  | acceptError closed =>
    simp only [step] at taken
    split at taken
    · cases Option.some.inj taken
      exact .acceptError (by assumption)
    · contradiction
  | test c =>
    simp only [step] at taken
    split at taken
    · rename_i here
      split at taken
      · rename_i full
        cases Option.some.inj taken
        exact .reject here full
      · rename_i room
        split at taken
        · rename_i fresh
          cases Option.some.inj taken
          exact .pass here (by omega) fresh
        · contradiction
    · contradiction
  | store =>
    simp only [step] at taken
    split at taken
    · cases Option.some.inj taken
      exact .store (by assumption)
    · contradiction
  | count =>
    simp only [step] at taken
    split at taken
    · cases Option.some.inj taken
      exact .count (by assumption)
    · contradiction
  | conn a =>
    simp only [step] at taken
    split at taken
    · rename_i served
      obtain ⟨b, moved, rfl⟩ := Option.map_eq_some_iff.mp taken
      exact .conn served (BindRace.step_effect moved)
    · contradiction
  | closeAgain c =>
    simp only [step] at taken
    split at taken
    · rename_i finished
      cases Option.some.inj taken
      exact .closeAgain finished
    · contradiction

/- Nobody interrupts: an accepted connection is registered as a whole. -/
theorem register_alone {maxConnections : Int} {s : State} {c : ConnID} (idle : s.phase = .accept)
    (room : s.base.mgr.count < maxConnections) (fresh : s.base.mgr.life c = .fresh) :
    run (step maxConnections) s [.accept, .test c, .store, .count] =
      (BindRace.step s.base (.register c)).map (⟨·, .accept⟩) := by
  have below : ¬ maxConnections ≤ s.base.mgr.count := by omega
  simp [run, step, BindRace.step, idle, below, fresh, ConnManager.register_steps, BindRace.State.setMgr]

/- Between conns.Delete and count.Add(-1) of Unregister. -/
def uncounted : ClosePhase → Bool
  | .unlisted => true
  | .read _ => true
  | .dropped => true
  | _ => false

def Phase.entering : Phase → Option ConnID
  | .count c => some c
  | _ => none

def State.conns (s : State) : Set ConnID := {c | s.base.mgr.conns c = true}

def leaving (b : BindRace.State) : Set ConnID := {c | (b.closes c).any uncounted = true}

def State.tally (s : State) : Tally ConnID := ⟨s.conns, leaving s.base, s.phase.entering, s.base.mgr.count⟩

section Sets

variable {b : BindRace.State} {m : ConnManager} {c : ConnID} {p : ClosePhase}

theorem leaving_setClose_insert (late : uncounted p = true) :
    leaving (b.setClose c p) = insert c (leaving b) :=
  setOf_update_insert (p := Option.any uncounted) late

theorem leaving_setClose_remove (done : uncounted p = false) :
    leaving (b.setClose c p) = leaving b \ {c} :=
  setOf_update_remove (p := Option.any uncounted) done

theorem conns_storeConn : {d | (m.storeConn c).conns d = true} = insert c {d | m.conns d = true} :=
  setOf_update_insert (p := id) rfl

theorem conns_deleteConn : {d | (m.deleteConn c).conns d = true} = {d | m.conns d = true} \ {c} :=
  setOf_update_remove (p := id) rfl

theorem dropUser_count (uid : Int) : (m.dropUser uid).count = m.count := by
  unfold ConnManager.dropUser
  split
  · rfl
  · rfl

end Sets

/-- Where a connection stands between newConn and the end of its Close. -/
structure Staged (b : BindRace.State) : Prop where
  fresh : ∀ c, b.mgr.life c = .fresh → b.mgr.conns c = false
  listed : ∀ c, b.mgr.life c = .open → b.mgr.conns c = true
  unclosed : ∀ c, b.mgr.life c ≠ .closed → b.closes c = none
  shut : ∀ c, b.closes c = some .shut → b.mgr.conns c = true

inductive Moves (s : State) : State → Prop where
  | stays {t} : t.tally = s.tally → Moves s t
  | leaves {t} (c : ConnID) : c ∈ s.conns → c ∉ leaving s.base → t.tally = s.tally.leave c → Moves s t
  | counts {t} (c : ConnID) : c ∈ leaving s.base → t.tally = s.tally.countDown c → Moves s t

theorem tally_same {s t : State} (conns : t.base.mgr.conns = s.base.mgr.conns)
    (late : leaving t.base = leaving s.base) (phase : t.phase = s.phase)
    (count : t.base.mgr.count = s.base.mgr.count) : t.tally = s.tally := by
  simp only [State.tally, State.conns, conns, late, phase, count]

theorem conn_moves {s : State} {a : BindRace.Action} {b : BindRace.State} (staged : Staged s.base)
    (served : serving s a = true) (moved : BindRace.Effect s.base a b) : Moves s ⟨b, s.phase⟩ := by
  cases moved with
  | register => contradiction
  | bind => exact .stays (tally_same rfl rfl rfl rfl)
  | load => exact .stays (tally_same rfl rfl rfl rfl)
  | kicked => exact .stays (tally_same rfl rfl rfl rfl)
  | setUID => exact .stays (tally_same rfl rfl rfl rfl)
  | store => exact .stays (tally_same rfl rfl rfl rfl)
  | @shut c live =>
    have unclosed : s.base.closes c = none := staged.unclosed c (by rw [live]; decide)
    have staying : c ∉ leaving s.base := by simp [leaving, unclosed]
    refine .stays (tally_same rfl ?_ rfl rfl)
    rw [leaving_setClose_remove rfl]
    exact Set.sdiff_singleton_eq_self staying
  | @deleteConn c closing =>
    have inside : c ∈ s.conns := staged.shut c closing
    have staying : c ∉ leaving s.base := by simp [leaving, closing, uncounted]
    refine .leaves c inside staying ?_
    simp only [State.tally, State.conns, Tally.leave]
    congr 1
    · exact conns_deleteConn
    · exact leaving_setClose_insert rfl
  | @readUID c closing =>
    have left : c ∈ leaving s.base := by simp [leaving, closing, uncounted]
    refine .stays (tally_same rfl ?_ rfl rfl)
    rw [leaving_setClose_insert rfl]
    exact Set.insert_eq_of_mem left
  | @dropUser c uid closing =>
    have left : c ∈ leaving s.base := by simp [leaving, closing, uncounted]
    refine .stays (tally_same (dropUser_fields _ _).1 ?_ rfl (dropUser_count uid))
    rw [leaving_setClose_insert rfl]
    exact Set.insert_eq_of_mem left
  | @finish c closing =>
    have left : c ∈ leaving s.base := by simp [leaving, closing, uncounted]
    refine .counts c left ?_
    simp only [State.tally, State.conns, Tally.countDown]
    congr 1
    exact leaving_setClose_remove rfl

theorem staged_same {b b' : BindRace.State} (staged : Staged b) (conns : b'.mgr.conns = b.mgr.conns)
    (life : b'.mgr.life = b.mgr.life) (closes : b'.closes = b.closes) : Staged b' := by
  constructor
  · rw [life, conns]
    exact staged.fresh
  · rw [life, conns]
    exact staged.listed
  · rw [life, closes]
    exact staged.unclosed
  · rw [closes, conns]
    exact staged.shut

theorem staged_setClose {b b' : BindRace.State} {c : ConnID} {p q : ClosePhase} (staged : Staged b)
    (closing : b.closes c = some p) (later : q ≠ .shut) (conns : ∀ d, d ≠ c → b'.mgr.conns d = b.mgr.conns d)
    (life : b'.mgr.life = b.mgr.life) (closes : b'.closes = Function.update b.closes c (some q)) :
    Staged b' := by
  have shutDown : b.mgr.life c = .closed := by
    by_contra live
    rw [staged.unclosed c live] at closing
    contradiction
  have other : ∀ d, b.mgr.life d ≠ .closed → d ≠ c := by
    intro d live same
    exact live (same ▸ shutDown)
  constructor
  · intro d fresh
    rw [life] at fresh
    rw [conns d (other d (by rw [fresh]; decide))]
    exact staged.fresh d fresh
  · intro d live
    rw [life] at live
    rw [conns d (other d (by rw [live]; decide))]
    exact staged.listed d live
  · intro d live
    rw [life] at live
    rw [closes, Function.update_of_ne (other d live)]
    exact staged.unclosed d live
  · intro d held
    by_cases here : d = c
    · rw [closes, here, Function.update_self] at held
      exact absurd (Option.some.inj held) later
    · rw [closes, Function.update_of_ne here] at held
      rw [conns d here]
      exact staged.shut d held

theorem staged_shut {b : BindRace.State} {c : ConnID} (staged : Staged b) (live : b.mgr.life c = .open) :
    Staged ((b.setMgr (b.mgr.shut c)).setClose c .shut) := by
  have life : ∀ d, d ≠ c → (b.mgr.shut c).life d = b.mgr.life d :=
    fun d other => Function.update_of_ne other _ _
  have shutDown : (b.mgr.shut c).life c = .closed := Function.update_self _ _ _
  have other : ∀ d, (b.mgr.shut c).life d ≠ .closed → d ≠ c := by
    intro d unclosed same
    exact unclosed (same ▸ shutDown)
  constructor
  · intro d fresh
    have here : (b.mgr.shut c).life d = .fresh := fresh
    have ne := other d (by rw [here]; decide)
    exact staged.fresh d (by rw [← life d ne, here])
  · intro d alive
    have here : (b.mgr.shut c).life d = .open := alive
    have ne := other d (by rw [here]; decide)
    exact staged.listed d (by rw [← life d ne, here])
  · intro d alive
    have here : (b.mgr.shut c).life d ≠ .closed := alive
    have ne := other d here
    rw [BindRace.setClose_closes_ne _ _ _ ne]
    exact staged.unclosed d (by rw [← life d ne]; exact here)
  · intro d held
    by_cases here : d = c
    · rw [here]
      exact staged.listed c live
    · rw [BindRace.setClose_closes_ne _ _ _ here] at held
      exact staged.shut d held

theorem staged_storeConn {b : BindRace.State} {c : ConnID} (staged : Staged b) (new : b.mgr.life c = .fresh) :
    Staged (b.setMgr (b.mgr.storeConn c)) := by
  have unclosed : b.closes c = none := staged.unclosed c (by rw [new]; decide)
  constructor
  · intro d fresh
    by_cases here : d = c
    · subst here
      simp [ConnManager.storeConn] at fresh
    · simp only [BindRace.setMgr_mgr, ConnManager.storeConn, Function.update_of_ne here] at fresh ⊢
      exact staged.fresh d fresh
  · intro d live
    by_cases here : d = c
    · subst here
      simp [ConnManager.storeConn]
    · simp only [BindRace.setMgr_mgr, ConnManager.storeConn, Function.update_of_ne here] at live ⊢
      exact staged.listed d live
  · intro d live
    by_cases here : d = c
    · rw [here]
      exact unclosed
    · simp only [BindRace.setMgr_mgr, ConnManager.storeConn, Function.update_of_ne here] at live
      exact staged.unclosed d live
  · intro d held
    by_cases here : d = c
    · subst here
      simp [ConnManager.storeConn]
    · simp only [BindRace.setMgr_mgr, ConnManager.storeConn, Function.update_of_ne here]
      exact staged.shut d held

theorem conn_staged {s : State} {a : BindRace.Action} {b : BindRace.State} (staged : Staged s.base)
    (served : serving s a = true) (moved : BindRace.Effect s.base a b) : Staged b := by
  cases moved with
  | register => contradiction
  | bind => exact staged_same staged rfl rfl rfl
  | load => exact staged_same staged rfl rfl rfl
  | kicked => exact staged_same staged rfl rfl rfl
  | setUID => exact staged_same staged rfl rfl rfl
  | store => exact staged_same staged rfl rfl rfl
  | shut live => exact staged_shut staged live
  | @deleteConn c closing =>
    refine staged_setClose staged closing (q := .unlisted) (by decide) ?_ rfl rfl
    intro d other
    exact Function.update_of_ne other _ _
  | readUID closing => exact staged_setClose staged closing (by simp) (fun _ _ => rfl) rfl rfl
  | @dropUser c uid closing =>
    have fields := dropUser_fields s.base.mgr uid
    exact staged_setClose staged closing (q := .dropped) (by decide) (fun d _ => congrFun fields.1 d)
      fields.2.2 rfl
  | finish closing => exact staged_setClose staged closing (by decide) (fun _ _ => rfl) rfl rfl

theorem conn_fresh {s : State} {a : BindRace.Action} {b : BindRace.State} {c : ConnID}
    (served : serving s a = true) (moved : BindRace.Effect s.base a b) (fresh : s.base.mgr.life c = .fresh) :
    b.mgr.life c = .fresh := by
  cases moved with
  | register => contradiction
  | bind => exact fresh
  | load => exact fresh
  | kicked => exact fresh
  | setUID => exact fresh
  | store => exact fresh
  | @shut d live =>
    have other : c ≠ d := by
      intro same
      rw [same, live] at fresh
      contradiction
    simp only [BindRace.setClose_mgr, BindRace.setMgr_mgr, ConnManager.shut, Function.update_of_ne other]
    exact fresh
  | deleteConn => exact fresh
  | readUID => exact fresh
  | @dropUser d uid =>
    simp only [BindRace.setClose_mgr, BindRace.setMgr_mgr, (dropUser_fields s.base.mgr uid).2.2]
    exact fresh
  | finish => exact fresh

structure Inv (maxConnections : Int) (s : State) : Prop where
  exact : s.tally.Exact
  staged : Staged s.base
  room : ∀ c, s.phase = .store c → s.base.mgr.life c = .fresh ∧ (s.conns.ncard : Int) < maxConnections
  capped : (s.conns.ncard : Int) ≤ max 0 maxConnections

section Inv

variable {maxConnections : Int} {s t : State} {a : Action}

theorem start_inv : Inv maxConnections start := by
  have none : start.conns = ∅ := by
    ext c
    simp [start, State.conns, BindRace.new, ConnManager.new]
  have settled : leaving start.base = ∅ := by
    ext c
    simp [start, leaving, BindRace.new]
  refine ⟨?_, ?_, ?_, ?_⟩
  · simp only [State.tally, none, settled]
    exact Tally.exact_empty
  · constructor
    · intro c _
      rfl
    · intro c live
      contradiction
    · intro c _
      rfl
    · intro c held
      contradiction
  · intro c here
    contradiction
  · simp [none]

theorem Inv.phase (inv : Inv maxConnections s) {p : Phase} (before : s.phase.entering = none)
    (after : p.entering = none) (elsewhere : ∀ c, p ≠ .store c) : Inv maxConnections { s with phase := p } := by
  refine ⟨?_, inv.staged, ?_, inv.capped⟩
  · have same : State.tally { s with phase := p } = s.tally := by
      simp only [State.tally, State.conns, before, after]
    rw [same]
    exact inv.exact
  · intro c here
    exact absurd here (elsewhere c)

theorem Inv.pass (inv : Inv maxConnections s) {c : ConnID} (here : s.phase = .test)
    (room : s.base.mgr.count < maxConnections) (fresh : s.base.mgr.life c = .fresh) :
    Inv maxConnections { s with phase := .store c } := by
  have same : State.tally { s with phase := .store c } = s.tally := by
    simp only [State.tally, State.conns, here, Phase.entering]
  refine ⟨?_, inv.staged, ?_, inv.capped⟩
  · rw [same]
    exact inv.exact
  · intro d stored
    cases Phase.store.inj stored
    have idle : s.tally.entering = none := by simp only [State.tally, here, Phase.entering]
    have below : (s.conns.ncard : Int) ≤ s.base.mgr.count := inv.exact.card_le idle
    exact ⟨fresh, lt_of_le_of_lt below room⟩

theorem Inv.store (inv : Inv maxConnections s) {c : ConnID} (here : s.phase = .store c) :
    Inv maxConnections ⟨s.base.setMgr (s.base.mgr.storeConn c), .count c⟩ := by
  obtain ⟨fresh, room⟩ := inv.room c here
  have outside : c ∉ s.conns := by
    simp [State.conns, inv.staged.fresh c fresh]
  have idle : s.tally.entering = none := by simp only [State.tally, here, Phase.entering]
  have entered : State.tally ⟨s.base.setMgr (s.base.mgr.storeConn c), .count c⟩ = s.tally.enter c := by
    simp only [State.tally, State.conns, Tally.enter]
    congr 1
    exact conns_storeConn
  refine ⟨?_, staged_storeConn inv.staged fresh, ?_, ?_⟩
  · rw [entered]
    exact inv.exact.enter outside idle
  · intro d stored
    contradiction
  · have grown : State.conns ⟨s.base.setMgr (s.base.mgr.storeConn c), .count c⟩ = (s.tally.enter c).members :=
      congrArg Tally.members entered
    have bound : (s.tally.enter c).members.ncard ≤ s.conns.ncard + 1 := Tally.card_enter_le
    rw [grown]
    omega

theorem Inv.count (inv : Inv maxConnections s) {c : ConnID} (here : s.phase = .count c) :
    Inv maxConnections ⟨s.base.setMgr s.base.mgr.countUp, .accept⟩ := by
  have entered : s.tally.entering = some c := by simp only [State.tally, here, Phase.entering]
  refine ⟨inv.exact.countUp entered, staged_same inv.staged rfl rfl rfl, ?_, inv.capped⟩
  intro d stored
  contradiction

theorem Moves.exact (moves : Moves s t) (exact : s.tally.Exact) : t.tally.Exact := by
  cases moves with
  | stays same =>
    rw [same]
    exact exact
  | leaves c inside staying left =>
    rw [left]
    exact exact.leave inside staying
  | counts c left counted =>
    rw [counted]
    exact exact.countDown left

theorem Moves.card_le (moves : Moves s t) (exact : s.tally.Exact) : t.conns.ncard ≤ s.conns.ncard := by
  cases moves with
  | stays same => exact le_of_eq (congrArg (·.members.ncard) same)
  | leaves c inside staying left =>
    calc t.conns.ncard = (s.tally.leave c).members.ncard := congrArg (·.members.ncard) left
      _ ≤ s.conns.ncard := Tally.card_leave_le exact.finite
  | counts c left counted => exact le_of_eq (congrArg (·.members.ncard) counted)

theorem Inv.conn (inv : Inv maxConnections s) {a : BindRace.Action} {b : BindRace.State}
    (served : serving s a = true) (moved : BindRace.Effect s.base a b) :
    Inv maxConnections ⟨b, s.phase⟩ := by
  have moves := conn_moves inv.staged served moved
  have fewer := moves.card_le inv.exact
  have capped := inv.capped
  refine ⟨moves.exact inv.exact, conn_staged inv.staged served moved, ?_, by omega⟩
  intro c here
  obtain ⟨fresh, room⟩ := inv.room c here
  exact ⟨conn_fresh served moved fresh, by omega⟩

theorem step_inv (inv : Inv maxConnections s) (taken : step maxConnections s a = some t) :
    Inv maxConnections t := by
  cases step_effect taken with
  | accept here => exact inv.phase (by rw [here]; rfl) rfl (by simp)
  | @acceptError closed here =>
    cases closed with
    | false => exact inv.phase (by rw [here]; rfl) rfl (by simp)
    | true => exact inv.phase (by rw [here]; rfl) rfl (by simp)
  | reject here _ => exact inv.phase (by rw [here]; rfl) rfl (by simp)
  | pass here room fresh => exact inv.pass here room fresh
  | store here => exact inv.store here
  | count here => exact inv.count here
  | conn served moved => exact inv.conn served moved
  | closeAgain _ => exact inv

theorem run_inv {as : List Action} (taken : run (step maxConnections) start as = some s) :
    Inv maxConnections s :=
  run_invariant (Inv maxConnections) (fun _ _ _ inv last => step_inv inv last) start_inv taken

end Inv

/-- No Register and no Close is in progress. -/
structure Quiet (s : State) : Prop where
  registered : ∀ c, s.phase ≠ .count c
  closed : ∀ c p, s.base.closes c = some p → p = .finished

/-- After any interleaving of the accept loop with what the connections do, conns holds at
most MaxConnections connections, and count is their number when no Register and no Close is
in progress. A negative MaxConnections lets no connection in. -/
theorem conns_within_limit {maxConnections : Int} {as : List Action} {s : State}
    (taken : run (step maxConnections) start as = some s) :
    s.conns.Finite ∧ (s.conns.ncard : Int) ≤ max 0 maxConnections ∧
      (Quiet s → s.base.mgr.count = s.conns.ncard) := by
  have inv := run_inv taken
  refine ⟨inv.exact.finite, inv.capped, ?_⟩
  intro quiet
  have idle : s.tally.entering = none := by
    show s.phase.entering = none
    cases here : s.phase with
    | count c => exact absurd here (quiet.registered c)
    | _ => rfl
  have settled : s.tally.leaving = ∅ := by
    ext c
    show (s.base.closes c).any uncounted = true ↔ c ∈ (∅ : Set ConnID)
    cases held : s.base.closes c with
    | none => simp
    | some p =>
      rw [quiet.closed c p held]
      simp [uncounted]
  exact inv.exact.card_eq idle settled

/- The sweep closes the connection 1 before Register has counted it, and the next one is
let in while that Close has not counted it off. -/
def closedEarly : List Action :=
  [.accept, .test 1, .store, .conn (.shut 1), .conn (.deleteConn 1), .count, .conn (.readUID 1),
    .conn (.dropUser 1), .accept, .test 2, .store, .conn (.finish 1), .count, .closeAgain 1]

theorem conns_within_limit_closedEarly :
    ∃ s, run (step 2) start closedEarly = some s ∧ s.base.mgr.count = 1 ∧
      (s.conns.ncard : Int) ≤ 2 ∧ s.base.mgr.count = s.conns.ncard := by
  have ran : (run (step 2) start closedEarly).isSome := by decide +kernel
  obtain ⟨s, taken⟩ := Option.isSome_iff_exists.mp ran
  have count : (run (step 2) start closedEarly).map (·.base.mgr.count) = some 1 := by decide +kernel
  have phase : (run (step 2) start closedEarly).map State.phase = some .accept := by decide +kernel
  have closes : (run (step 2) start closedEarly).map (·.base.closes) =
      some (Function.update (Function.update (Function.update (Function.update (Function.update
        (fun _ => none) 1 (some .shut)) 1 (some .unlisted)) 1 (some (.read 0))) 1 (some .dropped)) 1
          (some .finished)) := by
    rfl
  rw [taken] at count phase closes
  simp only [Option.map_some, Option.some.injEq, Function.update_idem] at closes
  have quiet : Quiet s := by
    constructor
    · intro c here
      rw [Option.map_some, here] at phase
      exact nomatch Option.some.inj phase
    · intro c p held
      by_cases here : c = 1
      · rw [closes, here, Function.update_self] at held
        exact (Option.some.inj held).symm
      · rw [closes, Function.update_of_ne here] at held
        contradiction
  obtain ⟨_, capped, exact⟩ := conns_within_limit taken
  exact ⟨s, taken, Option.some.inj count, capped, exact quiet⟩

end Accept

end GameIM.Gateway
