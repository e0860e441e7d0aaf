import GameIM.Gateway.ConnManager

/-! BindUser and Close of many connections, interleaved at every step on a shared map.
The Close of a connection runs once; whoever calls it meanwhile waits for its end, and so
does the BindUser that kicks. -/
namespace GameIM.Gateway.BindRace
open Lib

inductive BindPhase where
  | start
  | kick (old : ConnID)
  | setUID
  | store
  | returned
  deriving DecidableEq, Repr

structure Bind where
  uid : Int
  phase : BindPhase
  deriving DecidableEq, Repr

inductive ClosePhase where
  | shut
  | unlisted
  | read (uid : Int)
  | dropped
  | finished
  deriving DecidableEq, Repr

structure State where
  mgr : ConnManager
  binds : ConnID → Option Bind
  closes : ConnID → Option ClosePhase

inductive Action where
  | register (c : ConnID)
  | bind (c : ConnID) (uid : Int)
  | loadAndDelete (c : ConnID)
  | kicked (c : ConnID)
  | setUID (c : ConnID)
  | store (c : ConnID)
  | shut (c : ConnID)
  | deleteConn (c : ConnID)
  | readUID (c : ConnID)
  | dropUser (c : ConnID)
  | finish (c : ConnID)
  deriving DecidableEq, Repr

def State.setBind (s : State) (c : ConnID) (uid : Int) (phase : BindPhase) : State :=
  { s with binds := Function.update s.binds c (some ⟨uid, phase⟩) }

def State.setClose (s : State) (c : ConnID) (phase : ClosePhase) : State :=
  { s with closes := Function.update s.closes c (some phase) }

def State.setMgr (s : State) (m : ConnManager) : State := { s with mgr := m }

def new : State := ⟨.new, fun _ => none, fun _ => none⟩

/- A connection handles one frame at a time, so it has one BindUser at a time. -/
def free (s : State) (c : ConnID) : Bool :=
  match s.binds c with
  | none => true
  | some b => b.phase = .returned

/- After LoadAndDelete: only another connection is kicked. -/
def afterLoad (prev : Option ConnID) (c : ConnID) : BindPhase :=
  match prev with
  | none => .setUID
  | some old => if old ≠ c then .kick old else .setUID

def step (s : State) : Action → Option State
  | .register c => if s.mgr.life c = .fresh then some (s.setMgr (s.mgr.register c)) else none
  | .bind c uid =>
    if 0 < uid ∧ s.mgr.life c ≠ .fresh ∧ free s c then some (s.setBind c uid .start) else none
  | .loadAndDelete c => match s.binds c with
    | some ⟨uid, .start⟩ =>
      some ((s.setMgr (s.mgr.deleteUser uid)).setBind c uid (afterLoad (s.mgr.userConns uid) c))
    | _ => none
  | .kicked c => match s.binds c with
    | some ⟨uid, .kick old⟩ =>
      if s.closes old = some .finished then some (s.setBind c uid .setUID) else none
    | _ => none
  | .setUID c => match s.binds c with
    | some ⟨uid, .setUID⟩ => some ((s.setMgr (s.mgr.setUID c uid)).setBind c uid .store)
    | _ => none
  | .store c => match s.binds c with
    | some ⟨uid, .store⟩ => some ((s.setMgr (s.mgr.storeUser uid c)).setBind c uid .returned)
    | _ => none
  | .shut c =>
    if s.mgr.life c = .open then some ((s.setMgr (s.mgr.shut c)).setClose c .shut) else none
  | .deleteConn c => match s.closes c with
    | some .shut => some ((s.setMgr (s.mgr.deleteConn c)).setClose c .unlisted)
    | _ => none
  | .readUID c => match s.closes c with
    | some .unlisted => some (s.setClose c (.read (s.mgr.uid c)))
    | _ => none
  | .dropUser c => match s.closes c with
    | some (.read uid) => some ((s.setMgr (s.mgr.dropUser uid)).setClose c .dropped)
    | _ => none
  | .finish c => match s.closes c with
    | some .dropped => some ((s.setMgr s.mgr.countDown).setClose c .finished)
    | _ => none

inductive Effect (s : State) : Action → State → Prop where
  | register {c} : s.mgr.life c = .fresh → Effect s (.register c) (s.setMgr (s.mgr.register c))
  | bind {c uid} : 0 < uid → s.mgr.life c ≠ .fresh → free s c = true →
      Effect s (.bind c uid) (s.setBind c uid .start)
  | load {c uid} : s.binds c = some ⟨uid, .start⟩ →
      Effect s (.loadAndDelete c) ((s.setMgr (s.mgr.deleteUser uid)).setBind c uid
        (afterLoad (s.mgr.userConns uid) c))
  | kicked {c uid old} : s.binds c = some ⟨uid, .kick old⟩ → s.closes old = some .finished →
      Effect s (.kicked c) (s.setBind c uid .setUID)
  | setUID {c uid} : s.binds c = some ⟨uid, .setUID⟩ →
      Effect s (.setUID c) ((s.setMgr (s.mgr.setUID c uid)).setBind c uid .store)
  | store {c uid} : s.binds c = some ⟨uid, .store⟩ →
      Effect s (.store c) ((s.setMgr (s.mgr.storeUser uid c)).setBind c uid .returned)
  | shut {c} : s.mgr.life c = .open →
      Effect s (.shut c) ((s.setMgr (s.mgr.shut c)).setClose c .shut)
  | deleteConn {c} : s.closes c = some .shut →
      Effect s (.deleteConn c) ((s.setMgr (s.mgr.deleteConn c)).setClose c .unlisted)
  | readUID {c} : s.closes c = some .unlisted →
      Effect s (.readUID c) (s.setClose c (.read (s.mgr.uid c)))
  | dropUser {c uid} : s.closes c = some (.read uid) →
      Effect s (.dropUser c) ((s.setMgr (s.mgr.dropUser uid)).setClose c .dropped)
  | finish {c} : s.closes c = some .dropped →
      Effect s (.finish c) ((s.setMgr s.mgr.countDown).setClose c .finished)

theorem step_effect {s t : State} {a : Action} (taken : step s a = some t) : Effect s a t := by
  cases a with
  | register c =>
    simp only [step] at taken
    split at taken
    · cases Option.some.inj taken
      exact .register (by assumption)
    · contradiction
  | bind c uid =>
    simp only [step] at taken
    split at taken
    · rename_i valid
      cases Option.some.inj taken
      exact .bind valid.1 valid.2.1 valid.2.2
    · contradiction
  | loadAndDelete c =>
    simp only [step] at taken
    split at taken
    · cases Option.some.inj taken
      exact .load (by assumption)
    · contradiction
  | kicked c =>
    simp only [step] at taken
    split at taken
    · split at taken
      · cases Option.some.inj taken
        exact .kicked (by assumption) (by assumption)
      · contradiction
    · contradiction
  | setUID c =>
    simp only [step] at taken
    split at taken
    · cases Option.some.inj taken
      exact .setUID (by assumption)
    · contradiction
  | store c =>
    simp only [step] at taken
    split at taken
    · cases Option.some.inj taken
      exact .store (by assumption)
    · contradiction
  | shut c =>
    simp only [step] at taken
    split at taken
    · cases Option.some.inj taken
      exact .shut (by assumption)
    · contradiction
  | deleteConn c =>
    simp only [step] at taken
    split at taken
    · cases Option.some.inj taken
      exact .deleteConn (by assumption)
    · contradiction
  | readUID c =>
    simp only [step] at taken
    split at taken
    · cases Option.some.inj taken
      exact .readUID (by assumption)
    · contradiction
  | dropUser c =>
    simp only [step] at taken
    split at taken
    · cases Option.some.inj taken
      exact .dropUser (by assumption)
    · contradiction
  | finish c =>
    simp only [step] at taken
    split at taken
    · cases Option.some.inj taken
      exact .finish (by assumption)
    · contradiction

def Action.conn : Action → ConnID
  | .register c => c
  | .bind c _ => c
  | .loadAndDelete c => c
  | .kicked c => c
  | .setUID c => c
  | .store c => c
  | .shut c => c
  | .deleteConn c => c
  | .readUID c => c
  | .dropUser c => c
  | .finish c => c

section Fields

variable (s : State) (m : ConnManager) (c : ConnID)

@[simp] theorem setBind_binds_same (uid : Int) (phase : BindPhase) :
    (s.setBind c uid phase).binds c = some ⟨uid, phase⟩ := by
  simp [State.setBind]

@[simp] theorem setBind_binds_ne {d : ConnID} (uid : Int) (phase : BindPhase) (h : d ≠ c) :
    (s.setBind c uid phase).binds d = s.binds d := by
  simp [State.setBind, h]

@[simp] theorem setClose_closes_same (phase : ClosePhase) :
    (s.setClose c phase).closes c = some phase := by
  simp [State.setClose]

@[simp] theorem setClose_closes_ne {d : ConnID} (phase : ClosePhase) (h : d ≠ c) :
    (s.setClose c phase).closes d = s.closes d := by
  simp [State.setClose, h]

@[simp] theorem setBind_mgr (uid : Int) (phase : BindPhase) : (s.setBind c uid phase).mgr = s.mgr := rfl
@[simp] theorem setBind_closes (uid : Int) (phase : BindPhase) :
    (s.setBind c uid phase).closes = s.closes := rfl
@[simp] theorem setClose_mgr (phase : ClosePhase) : (s.setClose c phase).mgr = s.mgr := rfl
@[simp] theorem setClose_binds (phase : ClosePhase) : (s.setClose c phase).binds = s.binds := rfl
@[simp] theorem setMgr_mgr : (s.setMgr m).mgr = m := rfl
@[simp] theorem setMgr_binds : (s.setMgr m).binds = s.binds := rfl
@[simp] theorem setMgr_closes : (s.setMgr m).closes = s.closes := rfl

end Fields

theorem setBind_binds_cases {s : State} {c d : ConnID} {uid : Int} {phase : BindPhase} {b : Bind}
    (h : (s.setBind c uid phase).binds d = some b) :
    (d = c ∧ b = ⟨uid, phase⟩) ∨ (d ≠ c ∧ s.binds d = some b) := by
  by_cases here : d = c
  · subst here
    rw [setBind_binds_same] at h
    exact Or.inl ⟨rfl, (Option.some.inj h).symm⟩
  · rw [setBind_binds_ne _ _ _ _ here] at h
    exact Or.inr ⟨here, h⟩

theorem step_frame {s t : State} {a : Action} {c : ConnID} (other : a.conn ≠ c)
    (taken : step s a = some t) : t.binds c = s.binds c ∧ t.closes c = s.closes c := by
  have ne : c ≠ a.conn := other.symm
  cases step_effect taken with
  | register => exact ⟨rfl, rfl⟩
  | bind => exact ⟨setBind_binds_ne _ _ _ _ ne, rfl⟩
  | load => exact ⟨setBind_binds_ne _ _ _ _ ne, rfl⟩
  | kicked => exact ⟨setBind_binds_ne _ _ _ _ ne, rfl⟩
  | setUID => exact ⟨setBind_binds_ne _ _ _ _ ne, rfl⟩
  | store => exact ⟨setBind_binds_ne _ _ _ _ ne, rfl⟩
  | shut => exact ⟨rfl, setClose_closes_ne _ _ _ ne⟩
  | deleteConn => exact ⟨rfl, setClose_closes_ne _ _ _ ne⟩
  | readUID => exact ⟨rfl, setClose_closes_ne _ _ _ ne⟩
  | dropUser => exact ⟨rfl, setClose_closes_ne _ _ _ ne⟩
  | finish => exact ⟨rfl, setClose_closes_ne _ _ _ ne⟩

theorem run_frame {s t : State} {as : List Action} {c : ConnID} (others : ∀ a ∈ as, a.conn ≠ c)
    (taken : run step s as = some t) : t.binds c = s.binds c ∧ t.closes c = s.closes c := by
  induction as generalizing s with
  | nil =>
    cases Option.some.inj taken
    exact ⟨rfl, rfl⟩
  | cons a rest ih =>
    obtain ⟨u, hu, hr⟩ := run_cons_some.mp taken
    have first := step_frame (others a (by simp)) hu
    have later := ih (fun b hb => others b (by simp [hb])) hr
    exact ⟨later.1.trans first.1, later.2.trans first.2⟩

end GameIM.Gateway.BindRace
