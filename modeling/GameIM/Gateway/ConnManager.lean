import Mathlib.Logic.Function.Basic
import GameIM.Lib.Machine

/-! The connection table of internal/gateway/conn_manager.go, with the uid field of each
connection and Conn.Close, one operation at a time. A connection is its id: uuids do not
repeat. -/
namespace GameIM.Gateway
open Lib

abbrev ConnID := Nat

inductive Life where
  | fresh
  | «open»
  | closed
  deriving DecidableEq, Repr

structure ConnManager where
  conns : ConnID → Bool
  userConns : Int → Option ConnID
  count : Int
  uid : ConnID → Int
  life : ConnID → Life

namespace ConnManager

def new : ConnManager := ⟨fun _ => false, fun _ => none, 0, fun _ => 0, fun _ => .fresh⟩

def register (m : ConnManager) (c : ConnID) : ConnManager :=
  { m with
    conns := Function.update m.conns c true
    count := m.count + 1
    life := Function.update m.life c .open }

def deleteConn (m : ConnManager) (c : ConnID) : ConnManager :=
  { m with conns := Function.update m.conns c false }

def deleteUser (m : ConnManager) (uid : Int) : ConnManager :=
  { m with userConns := Function.update m.userConns uid none }

def storeUser (m : ConnManager) (uid : Int) (c : ConnID) : ConnManager :=
  { m with userConns := Function.update m.userConns uid (some c) }

def setUID (m : ConnManager) (c : ConnID) (uid : Int) : ConnManager :=
  { m with uid := Function.update m.uid c uid }

/- close(done) and the close of the socket: from here on the connection is closed. -/
def shut (m : ConnManager) (c : ConnID) : ConnManager :=
  { m with life := Function.update m.life c .closed }

/- userConns.Delete of what was read from c.UID(), unless that was 0. -/
def dropUser (m : ConnManager) (uid : Int) : ConnManager :=
  if uid ≠ 0 then m.deleteUser uid else m

def countDown (m : ConnManager) : ConnManager := { m with count := m.count - 1 }

def unregister (m : ConnManager) (c : ConnID) : ConnManager :=
  ((m.deleteConn c).dropUser (m.uid c)).countDown

/- closedOnce lets the first call through. -/
def close (m : ConnManager) (c : ConnID) : ConnManager :=
  match m.life c with
  | .open => (m.shut c).unregister c
  | _ => m

def kick (m : ConnManager) (prev : Option ConnID) (c : ConnID) : ConnManager :=
  match prev with
  | none => m
  | some old => if old ≠ c then m.close old else m

def bindUser (m : ConnManager) (uid : Int) (c : ConnID) : ConnManager :=
  (((m.deleteUser uid).kick (m.userConns uid) c).setUID c uid).storeUser uid c

def getByUID (m : ConnManager) (uid : Int) : Option ConnID := m.userConns uid

end ConnManager

namespace ConnOps

inductive Action where
  | register (c : ConnID)
  | bind (uid : Int) (c : ConnID)
  | close (c : ConnID)
  deriving DecidableEq, Repr

/- A token's uid is positive. -/
def step (m : ConnManager) : Action → Option ConnManager
  | .register c => if m.life c = .fresh then some (m.register c) else none
  | .bind uid c => if 0 < uid ∧ m.life c = .open then some (m.bindUser uid c) else none
  | .close c => if m.life c = .fresh then none else some (m.close c)

inductive Effect (m : ConnManager) : Action → ConnManager → Prop where
  | register {c} : m.life c = .fresh → Effect m (.register c) (m.register c)
  | bind {uid c} : 0 < uid → m.life c = .open → Effect m (.bind uid c) (m.bindUser uid c)
  | close {c} : m.life c ≠ .fresh → Effect m (.close c) (m.close c)

theorem step_effect {m t : ConnManager} {a : Action} (taken : step m a = some t) : Effect m a t := by
  cases a with
  | register c =>
    simp only [step] at taken
    split at taken
    · rename_i fresh
      cases Option.some.inj taken
      exact .register fresh
    · contradiction
  | bind uid c =>
    simp only [step] at taken
    split at taken
    · rename_i valid
      cases Option.some.inj taken
      exact .bind valid.1 valid.2
    · contradiction
  | close c =>
    simp only [step] at taken
    split at taken
    · contradiction
    · rename_i known
      cases Option.some.inj taken
      exact .close known

end ConnOps

/-- The user table is exact: an entry is an open, registered connection of that user, and
an open connection of a user is that user's entry. -/
structure Exact (m : ConnManager) : Prop where
  entry : ∀ u c, m.userConns u = some c → m.life c = .open ∧ m.conns c = true ∧ m.uid c = u
  bound : ∀ c, m.life c = .open → m.uid c ≠ 0 → m.userConns (m.uid c) = some c

/-- What holds in any case. -/
structure Tidy (m : ConnManager) : Prop where
  registered : ∀ c, m.life c = .open → m.conns c = true
  unnamed : ∀ c, m.life c = .fresh → m.uid c = 0
  unlisted : m.userConns 0 = none

section Fields

variable (m : ConnManager) (c d : ConnID) (u v : Int)

theorem dropUser_userConns :
    (m.dropUser u).userConns v = if v = u ∧ u ≠ 0 then none else m.userConns v := by
  unfold ConnManager.dropUser
  by_cases zero : u = 0
  · simp [zero]
  · by_cases here : v = u
    · simp [zero, here, ConnManager.deleteUser]
    · simp [zero, here, ConnManager.deleteUser]

@[simp] theorem dropUser_fields : (m.dropUser u).conns = m.conns ∧ (m.dropUser u).uid = m.uid ∧
    (m.dropUser u).life = m.life := by
  unfold ConnManager.dropUser
  split
  · exact ⟨rfl, rfl, rfl⟩
  · exact ⟨rfl, rfl, rfl⟩

variable {m c} in
theorem close_open (live : m.life c = .open) : m.close c = (m.shut c).unregister c := by
  simp only [ConnManager.close, live]

variable {m c} in
theorem close_shut (shut : m.life c ≠ .open) : m.close c = m := by
  unfold ConnManager.close
  split
  · contradiction
  · rfl

@[simp] theorem unregister_fields : (m.unregister c).conns = Function.update m.conns c false ∧
    (m.unregister c).uid = m.uid ∧ (m.unregister c).life = m.life :=
  dropUser_fields (m.deleteConn c) (m.uid c)

@[simp] theorem close_uid : (m.close c).uid = m.uid := by
  by_cases live : m.life c = .open
  · rw [close_open live]
    exact (unregister_fields _ _).2.1
  · rw [close_shut live]

theorem close_life :
    (m.close c).life d = if d = c ∧ m.life c = .open then .closed else m.life d := by
  by_cases live : m.life c = .open
  · rw [close_open live, (unregister_fields _ _).2.2]
    simp [ConnManager.shut, Function.update_apply, live]
  · rw [close_shut live, if_neg (fun h => live h.2)]

theorem close_conns :
    (m.close c).conns d = if d = c ∧ m.life c = .open then false else m.conns d := by
  by_cases live : m.life c = .open
  · rw [close_open live, (unregister_fields _ _).1]
    simp [ConnManager.shut, Function.update_apply, live]
  · rw [close_shut live, if_neg (fun h => live h.2)]

/- Close takes out the entry of the connection's uid, whoever's it is. -/
theorem close_userConns : (m.close c).userConns u =
    if m.life c = .open ∧ u = m.uid c ∧ m.uid c ≠ 0 then none else m.userConns u := by
  by_cases live : m.life c = .open
  · rw [close_open live]
    simp only [ConnManager.unregister, ConnManager.countDown, dropUser_userConns, live, true_and]
    rfl
  · rw [close_shut live, if_neg (fun h => live h.1)]

theorem close_known {m : ConnManager} {c d : ConnID} (known : m.life d ≠ .fresh) :
    (m.close c).life d ≠ .fresh := by
  rw [close_life]
  split
  · simp
  · exact known

theorem kick_known {m : ConnManager} {c d : ConnID} {prev : Option ConnID} (known : m.life d ≠ .fresh) :
    (m.kick prev c).life d ≠ .fresh := by
  unfold ConnManager.kick
  split
  · exact known
  · split
    · exact close_known known
    · exact known

theorem kick_uid (prev : Option ConnID) : (m.kick prev c).uid = m.uid := by
  unfold ConnManager.kick
  split
  · rfl
  · split
    · exact close_uid _ _
    · rfl

theorem close_live {m : ConnManager} {c d : ConnID} (live : (m.close c).life d = .open) :
    m.life d = .open ∧ (m.close c).conns d = m.conns d := by
  rw [close_life] at live
  split at live
  · contradiction
  · rename_i other
    rw [close_conns, if_neg other]
    exact ⟨live, rfl⟩

theorem close_fewer {m : ConnManager} {c d : ConnID} (listed : (m.close c).conns d = true) : m.conns d = true := by
  rw [close_conns] at listed
  split at listed
  · contradiction
  · exact listed

theorem close_fresh_iff {m : ConnManager} {c d : ConnID} : m.life d = .fresh ↔ (m.close c).life d = .fresh := by
  rw [close_life]
  split
  · rename_i here
    simp [here.1, here.2]
  · rfl

theorem bindUser_life (m : ConnManager) (uid : Int) (c : ConnID) :
    ((m.bindUser uid c).life = m.life ∧ (m.bindUser uid c).conns = m.conns) ∨
    ∃ d, m.userConns uid = some d ∧ d ≠ c ∧ (m.bindUser uid c).life = ((m.deleteUser uid).close d).life ∧
      (m.bindUser uid c).conns = ((m.deleteUser uid).close d).conns := by
  cases had : m.userConns uid with
  | none =>
    refine Or.inl ⟨?_, ?_⟩
    · simp only [ConnManager.bindUser, had]
      rfl
    · simp only [ConnManager.bindUser, had]
      rfl
  | some d =>
    by_cases same : d = c
    · refine Or.inl ⟨?_, ?_⟩
      · simp only [ConnManager.bindUser, had, ConnManager.kick, same, ne_eq, not_true_eq_false, if_false]
        rfl
      · simp only [ConnManager.bindUser, had, ConnManager.kick, same, ne_eq, not_true_eq_false, if_false]
        rfl
    · refine Or.inr ⟨d, rfl, same, ?_, ?_⟩
      · simp only [ConnManager.bindUser, had, ConnManager.kick, ne_eq, same, not_false_eq_true, if_true]
        rfl
      · simp only [ConnManager.bindUser, had, ConnManager.kick, ne_eq, same, not_false_eq_true, if_true]
        rfl

theorem bindUser_fresh_iff {m : ConnManager} {uid : Int} {c d : ConnID} :
    m.life d = .fresh ↔ (m.bindUser uid c).life d = .fresh := by
  rcases bindUser_life m uid c with ⟨life, _⟩ | ⟨old, _, _, life, _⟩
  · rw [life]
  · rw [life]
    exact close_fresh_iff (m := m.deleteUser uid)

end Fields

section Exact

variable {m : ConnManager} {c : ConnID} {u : Int}

theorem Tidy.register (tidy : Tidy m) : Tidy (m.register c) := by
  refine ⟨?_, ?_, tidy.unlisted⟩
  · intro d live
    by_cases here : d = c
    · simp [ConnManager.register, here]
    · simp only [ConnManager.register, Function.update_of_ne here] at live ⊢
      exact tidy.registered d live
  · intro d fresh
    by_cases here : d = c
    · simp [ConnManager.register, here] at fresh
    · simp only [ConnManager.register, Function.update_of_ne here] at fresh
      exact tidy.unnamed d fresh

theorem Exact.register (exact : Exact m) (tidy : Tidy m) (fresh : m.life c = .fresh) :
    Exact (m.register c) := by
  constructor
  · intro u d held
    have ⟨live, registered, named⟩ := exact.entry u d held
    have other : d ≠ c := by
      intro same
      rw [same, fresh] at live
      contradiction
    simp only [ConnManager.register, Function.update_of_ne other]
    exact ⟨live, registered, named⟩
  · intro d live named
    by_cases here : d = c
    · exact absurd (here ▸ tidy.unnamed c fresh) named
    · simp only [ConnManager.register, Function.update_of_ne here] at live
      exact exact.bound d live named

theorem Tidy.close (tidy : Tidy m) : Tidy (m.close c) := by
  refine ⟨?_, ?_, ?_⟩
  · intro d live
    rw [close_life] at live
    split at live
    · contradiction
    · rename_i same
      rw [close_conns, if_neg same]
      exact tidy.registered d live
  · intro d fresh
    rw [close_life] at fresh
    split at fresh
    · contradiction
    · rw [close_uid]
      exact tidy.unnamed d fresh
  · rw [close_userConns]
    split
    · rfl
    · exact tidy.unlisted

theorem Exact.close (exact : Exact m) (tidy : Tidy m) : Exact (m.close c) := by
  constructor
  · intro u d held
    rw [close_userConns] at held
    split at held
    · contradiction
    · rename_i kept
      have ⟨live, registered, named⟩ := exact.entry u d held
      have other : ¬ (d = c ∧ m.life c = .open) := by
        rintro ⟨rfl, _⟩
        apply kept
        refine ⟨live, named.symm, ?_⟩
        intro zero
        rw [← named, zero, tidy.unlisted] at held
        contradiction
      rw [close_life, close_conns, close_uid, if_neg other, if_neg other]
      exact ⟨live, registered, named⟩
  · intro d live named
    rw [close_life] at live
    split at live
    · contradiction
    · rename_i other
      rw [close_uid] at named ⊢
      have held := exact.bound d live named
      rw [close_userConns, if_neg]
      · exact held
      · rintro ⟨open', same, _⟩
        have mine := exact.bound c open' (same ▸ named)
        rw [← same, held] at mine
        exact other ⟨Option.some.inj mine, open'⟩

theorem deleteUser_free (free : m.userConns u = none) : m.deleteUser u = m := by
  have same : Function.update m.userConns u none = m.userConns := by
    rw [← free]
    exact Function.update_eq_self u m.userConns
  simp only [ConnManager.deleteUser, same]

/- In an exact table the kicked connection takes out the entry that LoadAndDelete has
already taken. -/
theorem kick_exact (exact : Exact m) (positive : u ≠ 0) {old : ConnID} (held : m.userConns u = some old)
    (other : old ≠ c) : (m.deleteUser u).kick (some old) c = m.close old := by
  have ⟨live, _, named⟩ := exact.entry u old held
  simp only [ConnManager.kick, if_pos other, ConnManager.close, ConnManager.unregister,
    ConnManager.dropUser, ConnManager.deleteUser, ConnManager.shut, ConnManager.deleteConn, live, named,
    if_pos positive, Function.update_idem]

theorem Exact.enter (exact : Exact m) (tidy : Tidy m) (free : m.userConns u = none)
    (live : m.life c = .open) (unnamed : m.uid c = 0) : Exact ((m.setUID c u).storeUser u c) := by
  constructor
  · intro v d held
    by_cases here : v = u
    · subst here
      simp only [ConnManager.storeUser, Function.update_self, Option.some.injEq] at held
      subst held
      exact ⟨live, tidy.registered c live, Function.update_self _ _ _⟩
    · simp only [ConnManager.storeUser, ConnManager.setUID, Function.update_of_ne here] at held
      have ⟨open', registered, named⟩ := exact.entry v d held
      have other : d ≠ c := by
        rintro rfl
        rw [unnamed] at named
        rw [← named, tidy.unlisted] at held
        contradiction
      simp only [ConnManager.storeUser, ConnManager.setUID, Function.update_of_ne other]
      exact ⟨open', registered, named⟩
  · intro d open' named
    by_cases here : d = c
    · subst here
      simp [ConnManager.storeUser, ConnManager.setUID]
    · simp only [ConnManager.storeUser, ConnManager.setUID, Function.update_of_ne here] at open' named ⊢
      have held := exact.bound d open' named
      have other : m.uid d ≠ u := by
        intro same
        rw [same, free] at held
        contradiction
      rw [Function.update_of_ne other]
      exact held

theorem bindUser_free (free : m.userConns u = none) :
    m.bindUser u c = (m.setUID c u).storeUser u c := by
  rw [ConnManager.bindUser, deleteUser_free free, free]
  rfl

theorem bindUser_kick (exact : Exact m) (positive : u ≠ 0) {old : ConnID}
    (held : m.userConns u = some old) (other : old ≠ c) :
    m.bindUser u c = ((m.close old).setUID c u).storeUser u c := by
  rw [ConnManager.bindUser, held, kick_exact exact positive held other]

theorem bindUser_again (exact : Exact m) (held : m.userConns u = some c) : m.bindUser u c = m := by
  have ⟨_, _, named⟩ := exact.entry u c held
  have entries : Function.update m.userConns u (some c) = m.userConns := by
    rw [← held]
    exact Function.update_eq_self u m.userConns
  have uids : Function.update m.uid c u = m.uid := by
    rw [← named]
    exact Function.update_eq_self c m.uid
  simp [ConnManager.bindUser, held, ConnManager.kick, ConnManager.deleteUser, ConnManager.setUID,
    ConnManager.storeUser, entries, uids]

theorem Exact.bindUser (exact : Exact m) (tidy : Tidy m) (positive : u ≠ 0) (live : m.life c = .open)
    (once : m.uid c = 0 ∨ m.uid c = u) : Exact (m.bindUser u c) := by
  have unnamed : m.userConns u ≠ some c → m.uid c = 0 := by
    intro absent
    cases once with
    | inl zero => exact zero
    | inr same => exact absurd (same ▸ exact.bound c live (same ▸ positive)) absent
  cases held : m.userConns u with
  | none =>
    rw [bindUser_free held]
    exact exact.enter tidy held live (unnamed (by simp [held]))
  | some old =>
    by_cases same : old = c
    · rw [bindUser_again exact (same ▸ held)]
      exact exact
    · have ⟨open', _, named⟩ := exact.entry u old held
      rw [bindUser_kick exact positive held same]
      apply (exact.close tidy).enter tidy.close
      · rw [close_userConns, if_pos ⟨open', named.symm, named ▸ positive⟩]
      · rw [close_life, if_neg (fun h => same h.1.symm)]
        exact live
      · rw [close_uid]
        apply unnamed
        rw [held]
        exact fun h => same (Option.some.inj h)

theorem Tidy.deleteUser (tidy : Tidy m) : Tidy (m.deleteUser u) := by
  refine ⟨tidy.registered, tidy.unnamed, ?_⟩
  by_cases zero : 0 = u
  · simp [ConnManager.deleteUser, zero]
  · simp only [ConnManager.deleteUser, Function.update_of_ne zero]
    exact tidy.unlisted

theorem Tidy.kick (tidy : Tidy m) (prev : Option ConnID) : Tidy (m.kick prev c) := by
  unfold ConnManager.kick
  split
  · exact tidy
  · split
    · exact tidy.close
    · exact tidy

theorem Tidy.bindUser (tidy : Tidy m) (positive : u ≠ 0) (live : m.life c = .open) :
    Tidy (m.bindUser u c) := by
  have vacated : Tidy ((m.deleteUser u).kick (m.userConns u) c) := tidy.deleteUser.kick _
  have known : (m.deleteUser u).life c ≠ .fresh := by
    have same : (m.deleteUser u).life c = m.life c := rfl
    simp [same, live]
  refine ⟨vacated.registered, ?_, ?_⟩
  · intro d fresh
    have other : d ≠ c := by
      rintro rfl
      exact kick_known known fresh
    simp only [ConnManager.bindUser, ConnManager.storeUser, ConnManager.setUID,
      Function.update_of_ne other]
    exact vacated.unnamed d fresh
  · simp only [ConnManager.bindUser, ConnManager.storeUser, Function.update_of_ne positive.symm]
    exact vacated.unlisted

theorem bindUser_entry_ne (exact : Exact m) (positive : u ≠ 0) {v : Int} (other : v ≠ u) :
    (m.bindUser u c).userConns v = m.userConns v := by
  cases held : m.userConns u with
  | none =>
    rw [bindUser_free held]
    simp only [ConnManager.storeUser, Function.update_of_ne other]
    rfl
  | some old =>
    by_cases same : old = c
    · rw [bindUser_again exact (same ▸ held)]
    · have ⟨_, _, uid⟩ := exact.entry u old held
      rw [bindUser_kick exact positive held same]
      simp only [ConnManager.storeUser, ConnManager.setUID, Function.update_of_ne other]
      rw [close_userConns, if_neg]
      rintro ⟨_, here, _⟩
      exact other (here.trans uid)

/- A connection that changes its user leaves its old entry behind. -/
theorem bindUser_stale (exact : Exact m) (positive : u ≠ 0) (live : m.life c = .open)
    (named : m.uid c ≠ 0) (moved : m.uid c ≠ u) :
    (m.bindUser u c).userConns (m.uid c) = some c := by
  rw [bindUser_entry_ne exact positive moved]
  exact exact.bound c live named

end Exact

/-- An entry is a connection that was accepted, and an open connection of a user is that
user's entry. The entry of another user may be there, too. -/
structure Held (m : ConnManager) : Prop where
  known : ∀ u c, m.userConns u = some c → m.life c ≠ .fresh
  bound : ∀ c, m.life c = .open → m.uid c ≠ 0 → m.userConns (m.uid c) = some c

section Held

variable {m : ConnManager} {c : ConnID} {u : Int}

theorem Held.register (held : Held m) (tidy : Tidy m) (fresh : m.life c = .fresh) :
    Held (m.register c) := by
  constructor
  · intro v d entry
    have known := held.known v d entry
    have other : d ≠ c := by
      rintro rfl
      exact known fresh
    simp only [ConnManager.register, Function.update_of_ne other]
    exact known
  · intro d live named
    by_cases here : d = c
    · exact absurd (here ▸ tidy.unnamed c fresh) named
    · simp only [ConnManager.register, Function.update_of_ne here] at live
      exact held.bound d live named

theorem Held.own {d e : ConnID} (held : Held m) (live : m.life d = .open) (named : m.uid d ≠ 0)
    (entry : m.userConns (m.uid d) = some e) : e = d :=
  Option.some.inj (entry.symm.trans (held.bound d live named))

/- Close may take out the entry of another user's connection, never that of an open
connection under its own uid. -/
theorem Held.close (held : Held m) : Held (m.close c) := by
  constructor
  · intro v d entry
    rw [close_userConns] at entry
    split at entry
    · contradiction
    · exact close_known (held.known v d entry)
  · intro d live named
    rw [close_life] at live
    split at live
    · contradiction
    · rename_i other
      rw [close_uid] at named ⊢
      have entry := held.bound d live named
      rw [close_userConns, if_neg]
      · exact entry
      · rintro ⟨open', same, nonzero⟩
        exact other ⟨held.own open' nonzero (same ▸ entry), open'⟩

theorem deleteUser_fewer {v : Int} {d : ConnID} (entry : (m.deleteUser u).userConns v = some d) :
    m.userConns v = some d := by
  by_cases here : v = u
  · simp [ConnManager.deleteUser, here] at entry
  · simpa only [ConnManager.deleteUser, Function.update_of_ne here] using entry

theorem kick_fewer {old : Option ConnID} {v : Int} {d : ConnID}
    (entry : (m.kick old c).userConns v = some d) : m.userConns v = some d := by
  unfold ConnManager.kick at entry
  split at entry
  · exact entry
  · split at entry
    · rw [close_userConns] at entry
      split at entry
      · contradiction
      · exact entry
    · exact entry

theorem kick_open {old : Option ConnID} {d : ConnID} (live : (m.kick old c).life d = .open)
    (other : d ≠ c) : m.life d = .open ∧ old ≠ some d := by
  unfold ConnManager.kick at live
  split at live
  · exact ⟨live, by simp⟩
  · rename_i e
    split at live
    · rw [close_life] at live
      split at live
      · contradiction
      · rename_i kept
        refine ⟨live, ?_⟩
        intro same
        cases Option.some.inj same
        exact kept ⟨rfl, live⟩
    · rename_i same
      refine ⟨live, ?_⟩
      intro this
      cases Option.some.inj this
      exact same other

theorem Held.kick (held : Held m) (u : Int) {c d : ConnID} (different : d ≠ c)
    (live : ((m.deleteUser u).kick (m.userConns u) c).life d = .open) (named : m.uid d ≠ 0) :
    m.uid d ≠ u ∧ ((m.deleteUser u).kick (m.userConns u) c).userConns (m.uid d) = some d := by
  obtain ⟨before, kept⟩ := kick_open live different
  have mine := held.bound d before named
  have other : m.uid d ≠ u := by
    intro same
    exact kept (same ▸ mine)
  have stays : (m.deleteUser u).userConns (m.uid d) = some d := by
    simp only [ConnManager.deleteUser, Function.update_of_ne other]
    exact mine
  refine ⟨other, ?_⟩
  unfold ConnManager.kick
  split
  · exact stays
  · rename_i old entry
    split
    · rw [close_userConns, if_neg]
      · exact stays
      · rintro ⟨open', same, nonzero⟩
        have own : d = old := held.own open' nonzero (same ▸ mine)
        exact kept (own ▸ entry)
    · exact stays

theorem Held.bindUser (held : Held m) (live : m.life c = .open) : Held (m.bindUser u c) := by
  constructor
  · intro v d entry
    simp only [ConnManager.bindUser, ConnManager.storeUser, ConnManager.setUID] at entry ⊢
    apply kick_known
    by_cases here : v = u
    · simp only [here, Function.update_self, Option.some.injEq] at entry
      subst entry
      have same : (m.deleteUser u).life c = m.life c := rfl
      simp [same, live]
    · simp only [Function.update_of_ne here] at entry
      exact held.known v d (deleteUser_fewer (kick_fewer entry))
  · intro d open' named
    simp only [ConnManager.bindUser, ConnManager.storeUser, ConnManager.setUID] at open' named ⊢
    by_cases here : d = c
    · subst here
      simp
    · have uids : ((m.deleteUser u).kick (m.userConns u) c).uid = m.uid := kick_uid _ _ _
      rw [uids] at named ⊢
      simp only [Function.update_of_ne here] at named ⊢
      obtain ⟨other, entry⟩ := held.kick u here open' named
      rw [Function.update_of_ne other]
      exact entry

end Held

namespace ConnOps

/-- The connection authenticates for the first time, or as the user it already is. -/
def sameUser (m : ConnManager) : Action → Bool
  | .bind uid c => m.uid c = 0 ∨ m.uid c = uid
  | _ => true

section Step

variable {m t : ConnManager} {a : Action}

theorem step_tidy (tidy : Tidy m) (taken : step m a = some t) : Tidy t := by
  cases step_effect taken with
  | register => exact tidy.register
  | bind positive live => exact tidy.bindUser (Int.ne_of_gt positive) live
  | close => exact tidy.close

theorem step_held (held : Held m) (tidy : Tidy m) (taken : step m a = some t) : Held t := by
  cases step_effect taken with
  | register fresh => exact held.register tidy fresh
  | bind _ live => exact held.bindUser live
  | close => exact held.close

theorem step_fresh {c : ConnID} (fresh : m.life c = .fresh) (other : a ≠ .register c)
    (taken : step m a = some t) : t.life c = .fresh := by
  have closed : ∀ (m : ConnManager) d, m.life c = .fresh → (m.close d).life c = .fresh := by
    intro m d fresh
    rw [close_life, if_neg]
    · exact fresh
    · rintro ⟨rfl, live⟩
      rw [fresh] at live
      contradiction
  cases step_effect taken with
  | @register d _ =>
    have apart : c ≠ d := by
      rintro rfl
      exact other rfl
    simp only [ConnManager.register, Function.update_of_ne apart]
    exact fresh
  | @bind uid d _ _ =>
    simp only [ConnManager.bindUser, ConnManager.storeUser, ConnManager.setUID, ConnManager.kick]
    split
    · exact fresh
    · split
      · exact closed (m.deleteUser uid) _ fresh
      · exact fresh
  | close _ => exact closed m _ fresh

theorem step_unlisted {u : Int} (unlisted : m.userConns u = none) (other : ∀ c, a ≠ .bind u c)
    (taken : step m a = some t) : t.userConns u = none := by
  have closed : ∀ (m : ConnManager) d, m.userConns u = none → (m.close d).userConns u = none := by
    intro m d unlisted
    rw [close_userConns]
    split
    · rfl
    · exact unlisted
  cases step_effect taken with
  | register _ => exact unlisted
  | @bind uid d _ _ =>
    have apart : u ≠ uid := by
      rintro rfl
      exact other d rfl
    have deleted : (m.deleteUser uid).userConns u = none := by
      simp only [ConnManager.deleteUser, Function.update_of_ne apart]
      exact unlisted
    simp only [ConnManager.bindUser, ConnManager.storeUser, ConnManager.setUID, ConnManager.kick,
      Function.update_of_ne apart]
    split
    · exact deleted
    · split
      · exact closed _ _ deleted
      · exact deleted
  | close _ => exact closed m _ unlisted

theorem step_exact (exact : Exact m) (tidy : Tidy m) (ok : sameUser m a = true)
    (taken : step m a = some t) : Exact t := by
  cases step_effect taken with
  | register fresh => exact exact.register tidy fresh
  | bind positive live =>
    exact exact.bindUser tidy (Int.ne_of_gt positive) live (by simpa [sameUser] using ok)
  | close => exact exact.close tidy

theorem step_breaks (exact : Exact m) (other : sameUser m a ≠ true) (taken : step m a = some t) :
    ¬ Exact t := by
  cases step_effect taken with
  | register => exact absurd rfl other
  | close => exact absurd rfl other
  | @bind uid c positive live =>
    have moved : m.uid c ≠ 0 ∧ m.uid c ≠ uid := by simpa [sameUser] using other
    have stale := bindUser_stale exact (Int.ne_of_gt positive) live moved.1 moved.2
    intro after
    have named : uid = m.uid c := by
      have uids := (after.entry _ _ stale).2.2
      simpa [ConnManager.bindUser, ConnManager.storeUser, ConnManager.setUID] using uids
    exact moved.2 named.symm

end Step

theorem new_exact : Exact ConnManager.new :=
  ⟨fun _ _ held => by contradiction, fun _ live => by contradiction⟩

theorem new_tidy : Tidy ConnManager.new :=
  ⟨fun _ live => by contradiction, fun _ _ => rfl, rfl⟩

theorem new_held : Held ConnManager.new :=
  ⟨fun _ _ entry => by contradiction, fun _ live => by contradiction⟩

/-- The user table is exact in every state of a run if and only if no connection
authenticates as a second user. -/
theorem userConns_exact_iff (as : List Action) (m : ConnManager)
    (taken : run step ConnManager.new as = some m) :
    (∀ before t, before <+: as → run step ConnManager.new before = some t → Exact t) ↔
      Meets step (fun m a => sameUser m a = true) ConnManager.new as := by
  have both := always_iff_meets (P := fun m a => sameUser m a = true)
    (fun m => Exact m ∧ Tidy m)
    (fun m a t h ok taken => ⟨step_exact h.1 h.2 ok taken, step_tidy h.2 taken⟩)
    (fun m a t h other taken after => step_breaks h.1 other taken after.1)
    ⟨new_exact, new_tidy⟩ taken
  rw [← both]
  constructor
  · intro always before t part reached
    exact ⟨always before t part reached,
      run_invariant Tidy (fun _ _ _ h s => step_tidy h s) new_tidy reached⟩
  · exact fun always before t part reached => (always before t part reached).1

def takenOver : List Action :=
  [.register 1, .bind 7 1, .bind 7 1, .register 2, .bind 7 2, .close 1]

theorem userConns_exact_takenOver :
    ∃ m, run step ConnManager.new takenOver = some m ∧ Exact m ∧ m.getByUID 7 = some 2 := by
  refine ⟨_, rfl, ?_, rfl⟩
  have guarded : Meets step (fun m a => sameUser m a = true) ConnManager.new takenOver := by decide
  exact (userConns_exact_iff takenOver _ rfl).mpr guarded takenOver _ List.prefix_rfl rfl

/-- A connection authenticates as 7 and then as 8: user 7 is mapped to a connection of
user 8, and after its Close to a closed one. -/
theorem second_user_leaves_entry :
    ((run step ConnManager.new [.register 1, .bind 7 1, .bind 8 1]).map fun m =>
        (m.getByUID 7, m.uid 1, m.life 1)) = some (some 1, 8, .open) ∧
      ((run step ConnManager.new [.register 1, .bind 7 1, .bind 8 1, .close 1]).map fun m =>
        (m.getByUID 7, m.life 1)) = some (some 1, .closed) := by
  decide

end ConnOps

end GameIM.Gateway
