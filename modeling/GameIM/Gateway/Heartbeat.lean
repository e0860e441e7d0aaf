import Mathlib.Algebra.Order.Group.Nat
import GameIM.Gateway.ConnManager

/-! The heartbeat sweep of internal/gateway/heartbeat.go beside the connections. A sweep takes the
time once, and then looks at one connection after another while frames arrive and connections
come and go. No client that is heard from in time is closed by it, and where the sweeps keep up
with their ticker, no silent one stays. -/
namespace GameIM.Gateway.Heartbeat
open Lib

/- In milliseconds. -/
structure Config where
  timeout : Nat
  interval : Nat

/-- One call of sweep, for a tick of the ticker. Range has to visit what `held` says was in conns
when it began, unless it is deleted meanwhile, and it may visit what is stored meanwhile.
`closing` has been found silent and is about to be closed. -/
structure Sweep where
  tick : Nat
  start : Nat
  held : ConnID → Bool
  seen : List ConnID
  closing : Option ConnID

/-- `due` is when the ticker fires next, and `ticks` its channel, which holds one tick.
`accepted` connections have ids. `joined` and `swept` record when each was registered, and the
last sweep that was finished. -/
structure State where
  now : Nat
  table : ConnManager
  lastHeartbeat : ConnID → Nat
  accepted : Nat
  due : Nat
  ticks : Option Nat
  sweep : Option Sweep
  stopped : Bool
  joined : ConnID → Nat
  swept : Option Sweep

/- The read loop takes the time of a frame, `stamp`, before it stores it; so does newConn. -/
inductive Action where
  | accept (stamp : Nat)
  | frame (c : ConnID) (stamp : Nat)
  | bind (uid : Int) (c : ConnID)
  | close (c : ConnID)
  | pass (ms : Nat)
  | tick
  | begin
  | check (c : ConnID)
  | closeSilent
  | finish
  | stop
  deriving DecidableEq, Repr

def start (cfg : Config) (now : Nat) : State where
  now := now
  table := .new
  lastHeartbeat := fun _ => 0
  accepted := 0
  due := now + cfg.interval
  ticks := none
  sweep := none
  stopped := false
  joined := fun _ => 0
  swept := none

def Sweep.complete (sweep : Sweep) (s : State) : Bool :=
  sweep.closing.isNone && (List.range s.accepted).all fun c =>
    !(sweep.held c && s.table.conns c) || sweep.seen.contains c

/- `now - lastHeartbeat > timeout`; the difference is 0 here where the frame came after `start`. -/
def silent (cfg : Config) (s : State) (sweep : Sweep) (c : ConnID) : Bool :=
  sweep.start - s.lastHeartbeat c > cfg.timeout

def step (cfg : Config) (s : State) : Action → Option State
  | .accept stamp =>
    if stamp ≤ s.now then
      some { s with
        table := s.table.register s.accepted
        lastHeartbeat := Function.update s.lastHeartbeat s.accepted stamp
        accepted := s.accepted + 1
        joined := Function.update s.joined s.accepted s.now }
    else none
  | .frame c stamp =>
    if c < s.accepted ∧ s.lastHeartbeat c ≤ stamp ∧ stamp ≤ s.now then
      some { s with lastHeartbeat := Function.update s.lastHeartbeat c stamp }
    else none
  | .bind uid c => if c < s.accepted then some { s with table := s.table.bindUser uid c } else none
  | .close c => if c < s.accepted then some { s with table := s.table.close c } else none
  | .pass ms => if s.now + ms ≤ s.due then some { s with now := s.now + ms } else none
  -- a tick that finds the channel full is dropped
  | .tick =>
    if s.now = s.due then some { s with due := s.due + cfg.interval, ticks := some (s.ticks.getD s.now) }
    else none
  | .begin => match s.sweep, s.ticks with
    | none, some tick =>
      if s.stopped then none
      else some { s with ticks := none, sweep := some ⟨tick, s.now, s.table.conns, [], none⟩ }
    | _, _ => none
  | .check c => match s.sweep with
    | none => none
    | some sweep =>
      if sweep.closing = none ∧ c ∉ sweep.seen ∧ (sweep.held c ∨ s.table.conns c) then
        some { s with sweep := some { sweep with
          seen := c :: sweep.seen
          closing := if silent cfg s sweep c then some c else none } }
      else none
  | .closeSilent => match s.sweep with
    | none => none
    | some sweep => match sweep.closing with
      | none => none
      | some c => some { s with table := s.table.close c, sweep := some { sweep with closing := none } }
  | .finish => match s.sweep with
    | none => none
    | some sweep => if sweep.complete s then some { s with sweep := none, swept := some sweep } else none
  | .stop => if s.sweep = none then some { s with stopped := true } else none

inductive Effect (cfg : Config) (s : State) : Action → State → Prop where
  | accept {stamp} : stamp ≤ s.now → Effect cfg s (.accept stamp)
      { s with
        table := s.table.register s.accepted
        lastHeartbeat := Function.update s.lastHeartbeat s.accepted stamp
        accepted := s.accepted + 1
        joined := Function.update s.joined s.accepted s.now }
  | frame {c stamp} : c < s.accepted → s.lastHeartbeat c ≤ stamp → stamp ≤ s.now →
      Effect cfg s (.frame c stamp) { s with lastHeartbeat := Function.update s.lastHeartbeat c stamp }
  | bind {uid c} : c < s.accepted → Effect cfg s (.bind uid c) { s with table := s.table.bindUser uid c }
  | close {c} : c < s.accepted → Effect cfg s (.close c) { s with table := s.table.close c }
  | pass {ms} : s.now + ms ≤ s.due → Effect cfg s (.pass ms) { s with now := s.now + ms }
  | tick : s.now = s.due →
      Effect cfg s .tick { s with due := s.due + cfg.interval, ticks := some (s.ticks.getD s.now) }
  | begin {tick} : s.sweep = none → s.ticks = some tick → s.stopped = false →
      Effect cfg s .begin { s with ticks := none, sweep := some ⟨tick, s.now, s.table.conns, [], none⟩ }
  | check {c sweep} : s.sweep = some sweep → sweep.closing = none →
      (sweep.held c = true ∨ s.table.conns c = true) → Effect cfg s (.check c) { s with sweep := some { sweep with
        seen := c :: sweep.seen
        closing := if silent cfg s sweep c then some c else none } }
  | closeSilent {c sweep} : s.sweep = some sweep → sweep.closing = some c → Effect cfg s .closeSilent
      { s with table := s.table.close c, sweep := some { sweep with closing := none } }
  | finish {sweep} : s.sweep = some sweep → sweep.complete s = true →
      Effect cfg s .finish { s with sweep := none, swept := some sweep }
  | stop : s.sweep = none → Effect cfg s .stop { s with stopped := true }

theorem step_effect {cfg : Config} {s t : State} {a : Action} (taken : step cfg s a = some t) :
    Effect cfg s a t := by
  cases a with
  | accept stamp =>
    simp only [step] at taken
    split at taken
    · cases Option.some.inj taken
      exact .accept (by assumption)
    · contradiction
  | frame c stamp =>
    simp only [step] at taken
    split at taken
    · rename_i may
      cases Option.some.inj taken
      exact .frame may.1 may.2.1 may.2.2
    · contradiction
  | bind uid c =>
    simp only [step] at taken
    split at taken
    · cases Option.some.inj taken
      exact .bind (by assumption)
    · contradiction
  | close c =>
    simp only [step] at taken
    split at taken
    · cases Option.some.inj taken
      exact .close (by assumption)
    · contradiction
  | pass ms =>
    simp only [step] at taken
    split at taken
    · cases Option.some.inj taken
      exact .pass (by assumption)
    · contradiction
  | tick =>
    simp only [step] at taken
    split at taken
    · cases Option.some.inj taken
      exact .tick (by assumption)
    · contradiction
  | begin =>
    simp only [step] at taken
    split at taken
    · rename_i idle ticked
      split at taken
      · contradiction
      · rename_i running
        cases Option.some.inj taken
        exact .begin idle ticked (by simpa using running)
    · contradiction
  | check c =>
    simp only [step] at taken
    split at taken
    · contradiction
    · rename_i sweep sweeping
      split at taken
      · rename_i may
        cases Option.some.inj taken
        exact .check sweeping may.1 may.2.2
      · contradiction
  | closeSilent =>
    simp only [step] at taken
    split at taken
    · contradiction
    · rename_i sweep sweeping
      split at taken
      · contradiction
      · rename_i c closing
        cases Option.some.inj taken
        exact .closeSilent sweeping closing
  | finish =>
    simp only [step] at taken
    split at taken
    · contradiction
    · rename_i sweep sweeping
      split at taken
      · rename_i complete
        cases Option.some.inj taken
        exact .finish sweeping complete
      · contradiction
  | stop =>
    simp only [step] at taken
    split at taken
    · rename_i idle
      cases Option.some.inj taken
      exact .stop idle
    · contradiction

/-- What anything but accept may do to the connections. -/
structure Later (s t : State) : Prop where
  live : ∀ c, t.table.life c = .open → s.table.life c = .open ∧ t.table.conns c = s.table.conns c
  conns : ∀ c, t.table.conns c = true → s.table.conns c = true
  fresh : ∀ c, s.table.life c = .fresh ↔ t.table.life c = .fresh
  heard : ∀ c, s.lastHeartbeat c ≤ t.lastHeartbeat c
  joined : t.joined = s.joined
  accepted : t.accepted = s.accepted
  now : s.now ≤ t.now

section Later

variable {cfg : Config} {s t : State}

theorem Later.of_table (same : t.table = s.table) (heard : ∀ c, s.lastHeartbeat c ≤ t.lastHeartbeat c)
    (joined : t.joined = s.joined) (accepted : t.accepted = s.accepted) (now : s.now ≤ t.now) : Later s t := by
  refine ⟨?_, ?_, ?_, heard, joined, accepted, now⟩
  · intro c live
    rw [same] at live ⊢
    exact ⟨live, rfl⟩
  · intro c
    rw [same]
    exact id
  · intro c
    rw [same]

theorem Later.of_close {c : ConnID} (closed : t.table = s.table.close c)
    (heard : t.lastHeartbeat = s.lastHeartbeat) (joined : t.joined = s.joined) (accepted : t.accepted = s.accepted)
    (now : t.now = s.now) : Later s t := by
  refine ⟨?_, ?_, ?_, fun d => (congrFun heard d).ge, joined, accepted, now.ge⟩
  · intro d live
    rw [closed] at live ⊢
    exact close_live live
  · intro d listed
    rw [closed] at listed
    exact close_fewer listed
  · intro d
    rw [closed]
    exact close_fresh_iff

theorem Later.of_bind {uid : Int} {c : ConnID} : Later s { s with table := s.table.bindUser uid c } := by
  have life := bindUser_life s.table uid c
  refine ⟨?_, ?_, ?_, fun _ => le_rfl, rfl, rfl, le_rfl⟩
  · intro e live
    rcases life with ⟨life, conns⟩ | ⟨d, _, _, life, conns⟩
    · exact ⟨(congrFun life e).symm.trans live, congrFun conns e⟩
    · have was := close_live ((congrFun life e).symm.trans live)
      exact ⟨was.1, (congrFun conns e).trans was.2⟩
  · intro e listed
    rcases life with ⟨_, conns⟩ | ⟨d, _, _, _, conns⟩
    · exact (congrFun conns e).symm.trans listed
    · exact close_fewer (m := s.table.deleteUser uid) ((congrFun conns e).symm.trans listed)
  · intro e
    rcases life with ⟨life, _⟩ | ⟨d, _, _, life, _⟩
    · exact (congrFun life e).symm ▸ Iff.rfl
    · exact (congrFun life e).symm ▸ close_fresh_iff (m := s.table.deleteUser uid)

theorem step_later {a : Action} (other : ∀ stamp, a ≠ .accept stamp) (taken : step cfg s a = some t) : Later s t := by
  cases step_effect taken with
  | accept => exact absurd rfl (other _)
  | @frame c stamp _ grows _ =>
    refine .of_table rfl ?_ rfl rfl le_rfl
    intro d
    by_cases here : d = c
    · subst here
      simp only [Function.update_self]
      exact grows
    · simp only [Function.update_of_ne here]
      exact le_rfl
  | bind => exact .of_bind
  | close => exact .of_close rfl rfl rfl rfl rfl
  | pass => exact .of_table rfl (fun _ => le_rfl) rfl rfl (Nat.le_add_right ..)
  | tick => exact .of_table rfl (fun _ => le_rfl) rfl rfl le_rfl
  | begin => exact .of_table rfl (fun _ => le_rfl) rfl rfl le_rfl
  | check => exact .of_table rfl (fun _ => le_rfl) rfl rfl le_rfl
  | closeSilent => exact .of_close rfl rfl rfl rfl rfl
  | finish => exact .of_table rfl (fun _ => le_rfl) rfl rfl le_rfl
  | stop => exact .of_table rfl (fun _ => le_rfl) rfl rfl le_rfl

end Later

/-- Range comes to every connection that was registered before the sweep. -/
structure Sweep.Covers (sweep : Sweep) (s : State) : Prop where
  past : sweep.start ≤ s.now
  known : ∀ c, sweep.held c = true ∨ c ∈ sweep.seen → c < s.accepted
  held : ∀ c, s.table.life c = .open → s.joined c < sweep.start → sweep.held c = true

/-- None of these connections was silent at the start of the sweep, unless it is closed. -/
def Sweep.Heard (cfg : Config) (sweep : Sweep) (s : State) (P : ConnID → Prop) : Prop :=
  ∀ c, P c → s.table.life c = .open → sweep.start ≤ s.lastHeartbeat c + cfg.timeout

structure Inv (cfg : Config) (begun : Nat) (s : State) : Prop where
  registered : ∀ c, s.table.life c = .open → s.table.conns c = true
  listed : ∀ c, s.table.conns c = true → c < s.accepted
  unborn : ∀ c, s.accepted ≤ c → s.table.life c = .fresh
  born : begun ≤ s.now ∧ ∀ c, s.table.life c ≠ .fresh → begun ≤ s.joined c
  sweeping : ∀ sweep, s.sweep = some sweep → sweep.Covers s ∧
    sweep.Heard cfg s fun c => c ∈ sweep.seen ∧ sweep.closing ≠ some c
  swept : ∀ sweep, s.swept = some sweep → sweep.Covers s ∧ sweep.Heard cfg s fun c => sweep.held c = true

section Inv

variable {cfg : Config} {begun : Nat} {s t : State} {sweep : Sweep}

theorem Sweep.Covers.later (covers : sweep.Covers s) (later : Later s t) : sweep.Covers t := by
  refine ⟨covers.past.trans later.now, ?_, ?_⟩
  · rw [later.accepted]
    exact covers.known
  · intro c live before
    rw [later.joined] at before
    exact covers.held c (later.live c live).1 before

theorem Sweep.Heard.later {P : ConnID → Prop} (heard : sweep.Heard cfg s P) (later : Later s t) :
    sweep.Heard cfg t P := by
  intro c which live
  have was := heard c which (later.live c live).1
  have more := later.heard c
  omega

theorem Inv.later (inv : Inv cfg begun s) (later : Later s t)
    (sweeping : ∀ sweep, t.sweep = some sweep → sweep.Covers t ∧
      sweep.Heard cfg t fun c => c ∈ sweep.seen ∧ sweep.closing ≠ some c)
    (swept : ∀ sweep, t.swept = some sweep → sweep.Covers t ∧ sweep.Heard cfg t fun c => sweep.held c = true) :
    Inv cfg begun t := by
  refine ⟨?_, ?_, ?_, ⟨inv.born.1.trans later.now, ?_⟩, sweeping, swept⟩
  · intro c live
    have was := later.live c live
    rw [was.2]
    exact inv.registered c was.1
  · intro c listed
    rw [later.accepted]
    exact inv.listed c (later.conns c listed)
  · intro c outside
    rw [later.accepted] at outside
    exact (later.fresh c).mp (inv.unborn c outside)
  · intro c known
    rw [later.joined]
    exact inv.born.2 c (fun fresh => known ((later.fresh c).mp fresh))

theorem Inv.still (inv : Inv cfg begun s) (later : Later s t) (sweep : t.sweep = s.sweep) (swept : t.swept = s.swept) :
    Inv cfg begun t := by
  refine inv.later later ?_ ?_
  · intro one found
    have was := inv.sweeping one (sweep ▸ found)
    exact ⟨was.1.later later, was.2.later later⟩
  · intro one found
    have was := inv.swept one (swept ▸ found)
    exact ⟨was.1.later later, was.2.later later⟩

structure Accepted (s t : State) : Prop where
  accepted : t.accepted = s.accepted + 1
  now : t.now = s.now
  joined : t.joined s.accepted = s.now
  life : ∀ c, c ≠ s.accepted → t.table.life c = s.table.life c
  conns : ∀ c, c ≠ s.accepted → t.table.conns c = s.table.conns c
  listed : t.table.conns s.accepted = true
  others : ∀ c, c ≠ s.accepted → t.joined c = s.joined c ∧ t.lastHeartbeat c = s.lastHeartbeat c

theorem Sweep.Covers.accepted (covers : sweep.Covers s) (new : Accepted s t) : sweep.Covers t := by
  refine ⟨new.now ▸ covers.past, ?_, ?_⟩
  · intro c which
    rw [new.accepted]
    exact Nat.lt_succ_of_lt (covers.known c which)
  · intro c live before
    by_cases here : c = s.accepted
    · rw [here, new.joined] at before
      exact absurd covers.past (by omega)
    · rw [(new.others c here).1] at before
      exact covers.held c ((new.life c here).symm.trans live) before

theorem Sweep.Heard.accepted {P : ConnID → Prop} (heard : sweep.Heard cfg s P) (new : Accepted s t)
    (known : ∀ c, P c → c < s.accepted) : sweep.Heard cfg t P := by
  intro c which live
  have other := (known c which).ne
  rw [(new.others c other).2]
  exact heard c which ((new.life c other).symm.trans live)

theorem Inv.accept (inv : Inv cfg begun s) (new : Accepted s t) (sweep : t.sweep = s.sweep)
    (swept : t.swept = s.swept) : Inv cfg begun t := by
  refine ⟨?_, ?_, ?_, ⟨new.now ▸ inv.born.1, ?_⟩, ?_, ?_⟩
  · intro c live
    by_cases here : c = s.accepted
    · exact here ▸ new.listed
    · rw [new.conns c here]
      exact inv.registered c ((new.life c here).symm.trans live)
  · intro c listed
    rw [new.accepted]
    by_cases here : c = s.accepted
    · exact here ▸ Nat.lt_succ_self s.accepted
    · exact Nat.lt_succ_of_lt (inv.listed c ((new.conns c here).symm.trans listed))
  · intro c outside
    rw [new.accepted] at outside
    rw [new.life c (by omega)]
    exact inv.unborn c (by omega)
  · intro c known
    by_cases here : c = s.accepted
    · rw [here, new.joined]
      exact inv.born.1
    · rw [(new.others c here).1]
      exact inv.born.2 c (new.life c here ▸ known)
  · intro one found
    have was := inv.sweeping one (sweep ▸ found)
    exact ⟨was.1.accepted new, was.2.accepted new fun c which => was.1.known c (Or.inr which.1)⟩
  · intro one found
    have was := inv.swept one (swept ▸ found)
    exact ⟨was.1.accepted new, was.2.accepted new fun c which => was.1.known c (Or.inl which)⟩

theorem accepted_of_register {stamp : Nat} : Accepted s { s with
    table := s.table.register s.accepted
    lastHeartbeat := Function.update s.lastHeartbeat s.accepted stamp
    accepted := s.accepted + 1
    joined := Function.update s.joined s.accepted s.now } where
  accepted := rfl
  now := rfl
  joined := Function.update_self ..
  life _ other := Function.update_of_ne other ..
  conns _ other := Function.update_of_ne other ..
  listed := Function.update_self ..
  others _ other := ⟨Function.update_of_ne other .., Function.update_of_ne other ..⟩

theorem Sweep.complete_seen {c : ConnID} (complete : sweep.complete s = true) (known : c < s.accepted)
    (held : sweep.held c = true) (listed : s.table.conns c = true) : c ∈ sweep.seen ∧ sweep.closing ≠ some c := by
  simp only [Sweep.complete, Bool.and_eq_true, List.all_eq_true, List.mem_range] at complete
  have visited := complete.2 c known
  simp only [held, listed, Bool.and_self, Bool.not_true, Bool.false_or, List.contains_iff_mem] at visited
  refine ⟨visited, ?_⟩
  rw [Option.isNone_iff_eq_none.mp complete.1]
  exact nofun

theorem step_inv {a : Action} (inv : Inv cfg begun s) (taken : step cfg s a = some t) : Inv cfg begun t := by
  by_cases accepts : ∃ stamp, a = .accept stamp
  · obtain ⟨stamp, rfl⟩ := accepts
    cases step_effect taken with
    | accept => exact inv.accept accepted_of_register rfl rfl
  · have later := step_later (fun stamp same => accepts ⟨stamp, same⟩) taken
    have past : ∀ sweep, t.swept = some sweep → s.swept = some sweep →
        sweep.Covers t ∧ sweep.Heard cfg t fun c => sweep.held c = true := by
      intro one _ was
      have was := inv.swept one was
      exact ⟨was.1.later later, was.2.later later⟩
    cases step_effect taken with
    | accept => exact absurd ⟨_, rfl⟩ accepts
    | frame => exact inv.still later rfl rfl
    | bind => exact inv.still later rfl rfl
    | close => exact inv.still later rfl rfl
    | pass => exact inv.still later rfl rfl
    | tick => exact inv.still later rfl rfl
    | stop => exact inv.still later rfl rfl
    | begin idle ticked running =>
      refine inv.later later ?_ fun one found => past one found found
      intro one found
      cases Option.some.inj found
      refine ⟨⟨le_rfl, ?_, ?_⟩, fun c which => by simp at which⟩
      · intro c which
        exact inv.listed c (which.resolve_right (by simp))
      · intro c live _
        exact inv.registered c live
    | @check c sweep sweeping idle visited =>
      have was := inv.sweeping sweep sweeping
      refine inv.later later ?_ fun one found => past one found found
      intro one found
      cases Option.some.inj found
      refine ⟨⟨was.1.past, ?_, was.1.held⟩, ?_⟩
      · intro d which
        rcases which with held | seen
        · exact was.1.known d (Or.inl held)
        · rcases List.mem_cons.mp seen with rfl | seen
          · exact visited.elim (fun held => was.1.known d (Or.inl held)) (inv.listed d)
          · exact was.1.known d (Or.inr seen)
      · intro d which live
        rcases List.mem_cons.mp which.1 with rfl | seen
        · have spoke : ¬ sweep.start - s.lastHeartbeat d > cfg.timeout := by
            intro quiet
            have : silent cfg s sweep d = true := decide_eq_true quiet
            exact which.2 (if_pos this)
          simp only
          omega
        · exact was.2 d ⟨seen, by simp [idle]⟩ live
    | @closeSilent c sweep sweeping closing =>
      have was := inv.sweeping sweep sweeping
      refine inv.later later ?_ fun one found => past one found found
      intro one found
      cases Option.some.inj found
      refine ⟨⟨was.1.past, was.1.known, (was.1.later later).held⟩, ?_⟩
      intro d which live
      by_cases here : d = c
      · subst here
        have still := (later.live d live).1
        simp [close_life, still] at live
      · refine (was.2.later later) d ⟨which.1, ?_⟩ live
        rw [closing]
        exact fun same => here (Option.some.inj same).symm
    | @finish sweep sweeping complete =>
      have was := inv.sweeping sweep sweeping
      refine inv.later later (fun one found => by contradiction) ?_
      intro one found
      cases Option.some.inj found
      refine ⟨was.1.later later, ?_⟩
      intro c held live
      exact was.2 c (Sweep.complete_seen complete (was.1.known c (Or.inl held)) held (inv.registered c live)) live

theorem start_inv (cfg : Config) (begun : Nat) : Inv cfg begun (start cfg begun) where
  registered _ live := by contradiction
  listed _ listed := by contradiction
  unborn _ _ := rfl
  born := ⟨le_rfl, fun _ known => absurd rfl known⟩
  sweeping _ found := by contradiction
  swept _ found := by contradiction

end Inv

def State.pending (s : State) : Option Nat :=
  match s.sweep with
  | some sweep => some sweep.tick
  | none => s.ticks

/-- Every sweep is over `slack` milliseconds after its tick, and the sweeper is not stopped. -/
def prompt (slack : Nat) (s : State) : Action → Bool
  | .pass ms => match s.pending with
    | some tick => s.now + ms ≤ tick + slack
    | none => true
  | .stop => false
  | _ => true

/-- The ticks and their sweeps, while the sweeps are prompt: at most one is under way, and the
one before it is over. `base` is the last tick with a sweep that is over, if there was one. -/
structure Timed (cfg : Config) (slack begun : Nat) (s : State) : Prop where
  ahead : s.now ≤ s.due
  single : ∀ sweep, s.sweep = some sweep → s.ticks = none ∧ sweep.tick ≤ sweep.start
  pending : ∀ tick, s.pending = some tick → tick + cfg.interval = s.due ∧ tick ≤ s.now ∧ s.now ≤ tick + slack
  base : ∃ base, (s.pending = none → base + cfg.interval = s.due) ∧
    (∀ tick, s.pending = some tick → base + cfg.interval = tick) ∧
    (base = begun ∨ ∃ sweep, s.swept = some sweep ∧ base ≤ sweep.start)

section Timed

variable {cfg : Config} {slack begun : Nat} {s t : State}

theorem Timed.same (timed : Timed cfg slack begun s) (now : t.now = s.now) (due : t.due = s.due)
    (ticks : t.ticks = s.ticks) (sweep : t.sweep = s.sweep) (swept : t.swept = s.swept) :
    Timed cfg slack begun t := by
  have pending : t.pending = s.pending := by rw [State.pending, sweep, ticks, State.pending]
  refine ⟨?_, ?_, ?_, ?_⟩
  · rw [now, due]
    exact timed.ahead
  · rw [sweep, ticks]
    exact timed.single
  · rw [pending, due, now]
    exact timed.pending
  · rw [pending, due, swept]
    exact timed.base

theorem pending_sweep {sweep : Sweep} (sweeping : s.sweep = some sweep) : s.pending = some sweep.tick := by
  simp only [State.pending, sweeping]

theorem pending_idle (idle : s.sweep = none) : s.pending = s.ticks := by
  simp only [State.pending, idle]

theorem Timed.sweeps {sweep next : Sweep} (timed : Timed cfg slack begun s) (sweeping : s.sweep = some sweep)
    (goes : t.sweep = some next) (tick : next.tick = sweep.tick) (start : next.start = sweep.start)
    (now : t.now = s.now) (due : t.due = s.due) (ticks : t.ticks = s.ticks) (swept : t.swept = s.swept) :
    Timed cfg slack begun t := by
  have pending : t.pending = s.pending := by rw [pending_sweep goes, pending_sweep sweeping, tick]
  refine ⟨?_, ?_, ?_, ?_⟩
  · rw [now, due]
    exact timed.ahead
  · intro one found
    cases Option.some.inj (goes.symm.trans found)
    rw [ticks, tick, start]
    exact timed.single sweep sweeping
  · rw [pending, due, now]
    exact timed.pending
  · rw [pending, due, swept]
    exact timed.base

/- A prompt sweeper has nothing to do when the ticker fires. -/
theorem Timed.caught_up (timed : Timed cfg slack begun s) (fits : slack < cfg.interval) (fires : s.now = s.due) :
    s.sweep = none ∧ s.ticks = none := by
  have none : s.pending = none := by
    cases found : s.pending with
    | none => rfl
    | some tick =>
      have was := timed.pending tick found
      omega
  cases sweeping : s.sweep with
  | some sweep =>
    rw [pending_sweep sweeping] at none
    contradiction
  | none => exact ⟨rfl, (pending_idle sweeping).symm.trans none⟩

theorem step_timed {a : Action} (fits : slack < cfg.interval) (timed : Timed cfg slack begun s)
    (ok : prompt slack s a = true) (taken : step cfg s a = some t) : Timed cfg slack begun t := by
  cases step_effect taken with
  | accept => exact timed.same rfl rfl rfl rfl rfl
  | frame => exact timed.same rfl rfl rfl rfl rfl
  | bind => exact timed.same rfl rfl rfl rfl rfl
  | close => exact timed.same rfl rfl rfl rfl rfl
  | @pass ms within =>
    refine ⟨within, timed.single, ?_, timed.base⟩
    intro tick found
    have found : s.pending = some tick := found
    have was := timed.pending tick found
    simp only [prompt, found, decide_eq_true_eq] at ok
    refine ⟨was.1, ?_, ok⟩
    simp only
    omega
  | tick fires =>
    obtain ⟨idle, empty⟩ := timed.caught_up fits fires
    obtain ⟨base, done, _, known⟩ := timed.base
    have before := done ((pending_idle idle).trans empty)
    have pending : State.pending { s with
        due := s.due + cfg.interval
        ticks := some (s.ticks.getD s.now) } = some s.now := by
      simp only [State.pending, idle, empty, Option.getD_none]
    refine ⟨?_, ?_, ?_, base, ?_, ?_, known⟩
    · simp only
      omega
    · intro sweep found
      have found : s.sweep = some sweep := found
      rw [idle] at found
      contradiction
    · intro tick found
      cases Option.some.inj (pending.symm.trans found)
      exact ⟨congrArg (· + cfg.interval) fires, le_rfl, Nat.le_add_right ..⟩
    · intro none
      rw [pending] at none
      contradiction
    · intro tick found
      cases Option.some.inj (pending.symm.trans found)
      exact before.trans fires.symm
  | @begin tick idle ticked running =>
    have pending := (pending_idle idle).trans ticked
    have was := timed.pending tick pending
    obtain ⟨base, _, before, known⟩ := timed.base
    refine ⟨timed.ahead, ?_, ?_, base, fun none => by contradiction, ?_, known⟩
    · intro sweep found
      cases Option.some.inj found
      exact ⟨rfl, was.2.1⟩
    · intro tick' found
      cases Option.some.inj found
      exact was
    · intro tick' found
      cases Option.some.inj found
      exact before tick pending
  | check sweeping _ _ => exact timed.sweeps sweeping rfl rfl rfl rfl rfl rfl rfl
  | closeSilent sweeping _ => exact timed.sweeps sweeping rfl rfl rfl rfl rfl rfl rfl
  | @finish sweep sweeping complete =>
    have single := timed.single sweep sweeping
    have was := timed.pending sweep.tick (pending_sweep sweeping)
    have pending : State.pending { s with sweep := none, swept := some sweep } = none := single.1
    refine ⟨timed.ahead, fun one found => by contradiction, ?_, sweep.tick, fun _ => was.1, ?_, ?_⟩
    · intro tick found
      rw [pending] at found
      contradiction
    · intro tick found
      rw [pending] at found
      contradiction
    · exact Or.inr ⟨sweep, rfl, single.2⟩
  | stop => contradiction

theorem start_timed (cfg : Config) (slack begun : Nat) : Timed cfg slack begun (start cfg begun) :=
  ⟨Nat.le_add_right .., nofun, nofun, begun, fun _ => rfl, nofun, Or.inl rfl⟩

end Timed

/-- While every sweep is over `slack` milliseconds after its tick, a connection that was registered
an interval and `slack` ago, and is open, has been heard from since the timeout before that. -/
theorem heard_lately (cfg : Config) (slack begun : Nat) (fits : slack < cfg.interval) (as : List Action) (s : State)
    (keepsUp : Meets (step cfg) (fun s a => prompt slack s a = true) (start cfg begun) as)
    (taken : run (step cfg) (start cfg begun) as = some s) (c : ConnID) (live : s.table.life c = .open)
    (settled : s.joined c + cfg.interval + slack < s.now) :
    s.now ≤ s.lastHeartbeat c + cfg.timeout + cfg.interval + slack := by
  have inv := run_invariant (Inv cfg begun) (fun _ _ _ => step_inv) (start_inv cfg begun) taken
  have timed := run_invariant_meets (Timed cfg slack begun) (fun _ _ _ => step_timed fits)
    (start_timed cfg slack begun) keepsUp taken
  have ahead := timed.ahead
  obtain ⟨base, idle, busy, known⟩ := timed.base
  have recent : s.now ≤ base + cfg.interval + slack := by
    cases pending : s.pending with
    | none =>
      have due := idle pending
      omega
    | some tick =>
      have tick_due := busy tick pending
      have late := (timed.pending tick pending).2.2
      omega
  rcases known with rfl | ⟨sweep, swept, after⟩
  · have joined := inv.born.2 c (by simp [live])
    omega
  · obtain ⟨covers, heard⟩ := inv.swept sweep swept
    have held := covers.held c live (by omega)
    have spoke := heard c held live
    omega

/- The timeout and the interval of config.yaml. -/
def thirtySeconds : Config := ⟨30000, 10000⟩

def quietSweep : List Action := [.pass 10000, .tick, .begin, .check 0, .check 1, .finish]

/- Two clients, one of which is silent until the fourth sweep. -/
def fourSweeps : List Action :=
  [.accept 0, .accept 0] ++ quietSweep ++ quietSweep ++ [.frame 1 20000] ++ quietSweep ++
    [.pass 10000, .tick, .begin, .check 1, .check 0, .closeSilent, .finish, .pass 1000]

theorem heard_lately_fourSweeps :
    ∃ s, run (step thirtySeconds) (start thirtySeconds 0) fourSweeps = some s ∧ s.table.life 0 = .closed ∧
      s.now = 41000 ∧ s.now ≤ s.lastHeartbeat 1 + 30000 + 10000 + 500 := by
  have done : ((run (step thirtySeconds) (start thirtySeconds 0) fourSweeps).map fun s =>
      decide (s.table.life 0 = .closed ∧ s.table.life 1 = .open ∧ s.now = 41000 ∧ s.joined 1 = 0)) =
      some true := by decide +kernel
  obtain ⟨s, taken, seen⟩ := Option.map_eq_some_iff.mp done
  obtain ⟨closed, live, now, joined⟩ := of_decide_eq_true seen
  have interval : thirtySeconds.interval = 10000 := rfl
  have timeout : thirtySeconds.timeout = 30000 := rfl
  have bound := heard_lately thirtySeconds 500 0 (by decide) fourSweeps s (by decide +kernel) taken 1 live
    (by rw [joined, now, interval]; omega)
  rw [interval, timeout] at bound
  exact ⟨s, taken, closed, now, bound⟩

def spares (c : ConnID) (s : State) : Action → Bool
  | .close d => d ≠ c
  | .bind uid d => s.table.userConns uid ≠ some c ∨ d = c
  | _ => true

def heard (cfg : Config) (c : ConnID) (s : State) : Bool :=
  s.accepted ≤ c ∨ s.now ≤ s.lastHeartbeat c + cfg.timeout

structure Spared (c : ConnID) (s : State) : Prop where
  life : s.table.life c ≠ .closed
  closing : ∀ sweep, s.sweep = some sweep → sweep.closing ≠ some c

section Spared

variable {cfg : Config} {begun : Nat} {s t : State} {c : ConnID}

theorem close_spares {m : ConnManager} {d : ConnID} (other : d ≠ c) (before : m.life c ≠ .closed) :
    (m.close d).life c ≠ .closed := by
  rw [close_life, if_neg fun here => other here.1.symm]
  exact before

theorem step_spared {a : Action} (inv : Inv cfg begun s) (spared : Spared c s) (spoke : heard cfg c s = true)
    (ok : spares c s a = true) (taken : step cfg s a = some t) : Spared c t := by
  cases step_effect taken with
  | accept =>
    refine ⟨?_, spared.closing⟩
    by_cases here : c = s.accepted
    · subst here
      simp [ConnManager.register]
    · simp only [ConnManager.register, Function.update_of_ne here]
      exact spared.life
  | frame => exact ⟨spared.life, spared.closing⟩
  | @bind uid d =>
    refine ⟨?_, spared.closing⟩
    rcases bindUser_life s.table uid d with ⟨life, _⟩ | ⟨e, had, other, life, _⟩
    · exact (congrFun life c).trans_ne spared.life
    · refine (congrFun life c).trans_ne (close_spares ?_ spared.life)
      rintro rfl
      simp [spares, had, Ne.symm other] at ok
  | @close d =>
    have other : d ≠ c := by simpa [spares] using ok
    exact ⟨close_spares other spared.life, spared.closing⟩
  | pass => exact ⟨spared.life, spared.closing⟩
  | tick => exact ⟨spared.life, spared.closing⟩
  | begin =>
    refine ⟨spared.life, ?_⟩
    intro sweep found closing
    cases Option.some.inj found
    contradiction
  | @check d sweep sweeping idle visited =>
    refine ⟨spared.life, ?_⟩
    intro next found
    cases Option.some.inj found
    have covers := (inv.sweeping sweep sweeping).1
    intro closing
    have same : d = c ∧ silent cfg s sweep d = true := by
      simp only at closing
      split at closing
      · rename_i quiet
        exact ⟨Option.some.inj closing, quiet⟩
      · contradiction
    obtain ⟨rfl, quiet⟩ := same
    have known : d < s.accepted :=
      visited.elim (fun held => covers.known d (Or.inl held)) (inv.listed d)
    have past := covers.past
    simp only [silent, decide_eq_true_eq] at quiet
    simp only [heard, decide_eq_true_eq] at spoke
    have spoke := spoke.resolve_left (Nat.not_le.mpr known)
    omega
  | @closeSilent d sweep sweeping closing =>
    have other : d ≠ c := fun same => spared.closing sweep sweeping (same ▸ closing)
    refine ⟨close_spares other spared.life, ?_⟩
    intro next found closing
    cases Option.some.inj found
    contradiction
  | finish =>
    refine ⟨spared.life, ?_⟩
    intro next found
    contradiction
  | stop => exact ⟨spared.life, spared.closing⟩

end Spared

/-- A client that is never silent for longer than the timeout is not closed by the sweep, whenever
the sweeps begin and however long they take. -/
theorem never_closed_while_heard (cfg : Config) (begun : Nat) (as : List Action) (s : State) (c : ConnID)
    (speaks : Meets (step cfg) (fun s a => heard cfg c s = true ∧ spares c s a = true) (start cfg begun) as)
    (taken : run (step cfg) (start cfg begun) as = some s) : s.table.life c ≠ .closed := by
  have always := run_invariant_meets (fun s => Inv cfg begun s ∧ Spared c s)
    (fun _ _ _ before ok taken => ⟨step_inv before.1 taken, step_spared before.1 before.2 ok.1 ok.2 taken⟩)
    ⟨start_inv cfg begun, ⟨nofun, nofun⟩⟩ speaks taken
  exact always.2.life

theorem never_closed_while_heard_fourSweeps :
    ∃ s, run (step thirtySeconds) (start thirtySeconds 0) fourSweeps = some s ∧ s.table.life 1 ≠ .closed := by
  have done : (run (step thirtySeconds) (start thirtySeconds 0) fourSweeps).isSome = true := by decide +kernel
  obtain ⟨s, taken⟩ := Option.isSome_iff_exists.mp done
  exact ⟨s, taken, never_closed_while_heard thirtySeconds 0 fourSweeps s 1 (by decide +kernel) taken⟩

end GameIM.Gateway.Heartbeat
