import GameIM.Gateway.BindRace

/-! The operations on the connection table as a whole are runs of the interleaved machine
in which nobody interrupts. -/
namespace GameIM.Gateway.BindRace
open Lib

/-- No Close is under way. -/
structure Settled (s : State) : Prop where
  closing : ∀ c, s.closes c ≠ none ↔ s.mgr.life c = .closed
  finished : ∀ c phase, s.closes c = some phase → phase = .finished

def closeSteps (c : ConnID) : List Action := [.shut c, .deleteConn c, .readUID c, .dropUser c, .finish c]

section Alone

variable {s : State} {c : ConnID} {u : Int}

theorem close_alone (live : s.mgr.life c = .open) :
    run step s (closeSteps c) = some ((s.setMgr (s.mgr.close c)).setClose c .finished) := by
  simp [closeSteps, run, step, live, State.setMgr, State.setClose, ConnManager.close,
    ConnManager.unregister, ConnManager.shut, ConnManager.deleteConn]

theorem Settled.close (settled : Settled s) (live : s.mgr.life c = .open) :
    Settled ((s.setMgr (s.mgr.close c)).setClose c .finished) := by
  constructor
  · intro d
    by_cases here : d = c
    · subst here
      simp [close_life, live]
    · simp only [setClose_closes_ne _ _ _ here, setMgr_closes, setClose_mgr, setMgr_mgr]
      rw [close_life, if_neg (fun h => here h.1)]
      exact settled.closing d
  · intro d phase held
    by_cases here : d = c
    · subst here
      rw [setClose_closes_same] at held
      exact (Option.some.inj held).symm
    · rw [setClose_closes_ne _ _ _ here] at held
      exact settled.finished d phase held

theorem Settled.closed (settled : Settled s) (gone : s.mgr.life c = .closed) :
    s.closes c = some .finished := by
  cases held : s.closes c with
  | none => exact absurd held ((settled.closing c).mpr gone)
  | some phase => rw [settled.finished c phase held]

theorem kick_alone (settled : Settled s) {prev : Option ConnID}
    (call : s.binds c = some ⟨u, afterLoad prev c⟩) (known : ∀ old, prev = some old → s.mgr.life old ≠ .fresh) :
    ∃ as t, run step s as = some t ∧ t.mgr = s.mgr.kick prev c ∧
      t.binds = Function.update s.binds c (some ⟨u, .setUID⟩) ∧ Settled t := by
  have same : afterLoad prev c = .setUID → s.mgr.kick prev c = s.mgr →
      ∃ as t, run step s as = some t ∧ t.mgr = s.mgr.kick prev c ∧
        t.binds = Function.update s.binds c (some ⟨u, .setUID⟩) ∧ Settled t := by
    intro skipped kept
    refine ⟨[], s, rfl, kept.symm, ?_, settled⟩
    rw [skipped] at call
    rw [← call]
    exact (Function.update_eq_self c s.binds).symm
  cases prev with
  | none => exact same rfl rfl
  | some old =>
    by_cases other : old ≠ c
    · have waits : s.binds c = some ⟨u, .kick old⟩ := by
        rw [call]
        simp only [afterLoad, if_pos other]
      cases life : s.mgr.life old with
      | fresh => exact absurd life (known old rfl)
      | «open» =>
        have closed := close_alone life
        have kicked : step ((s.setMgr (s.mgr.close old)).setClose old .finished) (.kicked c) =
            some (((s.setMgr (s.mgr.close old)).setClose old .finished).setBind c u .setUID) := by
          simp [step, waits]
        have after := settled.close life
        refine ⟨closeSteps old ++ [.kicked c], _,
          run_append_some.mpr ⟨_, closed, run_cons_some.mpr ⟨_, kicked, rfl⟩⟩, ?_, rfl, ?_⟩
        · simp only [ConnManager.kick, if_pos other]
          rfl
        · exact ⟨after.closing, after.finished⟩
      | closed =>
        have kicked : step s (.kicked c) = some (s.setBind c u .setUID) := by
          simp [step, waits, settled.closed life]
        refine ⟨[.kicked c], _, run_cons_some.mpr ⟨_, kicked, rfl⟩, ?_, rfl, ?_⟩
        · simp [ConnManager.kick, other, ConnManager.close, life]
        · exact ⟨settled.closing, settled.finished⟩
    · refine same ?_ ?_
      · simp only [afterLoad, if_neg other]
      · simp only [ConnManager.kick, if_neg other]

end Alone

/-- Nothing is under way, and the table is m. -/
structure Rests (m : ConnManager) (s : State) : Prop where
  mgr : s.mgr = m
  returned : ∀ c b, s.binds c = some b → b.phase = .returned
  settled : Settled s
  entries : ∀ u c, m.userConns u = some c → m.life c ≠ .fresh

section Rests

variable {m : ConnManager} {s : State} {c : ConnID} {u : Int}

theorem Rests.close (rests : Rests m s) (known : m.life c ≠ .fresh) :
    ∃ as t, run step s as = some t ∧ Rests (m.close c) t := by
  cases rests.mgr
  by_cases live : s.mgr.life c = .open
  · refine ⟨closeSteps c, _, close_alone live, rfl, rests.returned, rests.settled.close live, ?_⟩
    intro u d held
    rw [close_userConns] at held
    split at held
    · contradiction
    · exact close_known (rests.entries u d held)
  · rw [close_shut live]
    exact ⟨[], s, rfl, rests⟩

theorem kick_entries {prev : Option ConnID} (entries : ∀ u d, m.userConns u = some d → m.life d ≠ .fresh) :
    ∀ u d, (m.kick prev c).userConns u = some d → (m.kick prev c).life d ≠ .fresh := by
  intro u d held
  unfold ConnManager.kick at held ⊢
  split at held
  · exact entries u d held
  · split at held
    · rename_i other
      rw [close_userConns] at held
      split at held
      · contradiction
      · rw [if_pos other]
        exact close_known (entries u d held)
    · rename_i other
      rw [if_neg other]
      exact entries u d held

theorem Rests.bindUser (rests : Rests m s) (positive : 0 < u) (live : m.life c = .open) :
    ∃ as t, run step s as = some t ∧ Rests (m.bindUser u c) t := by
  cases rests.mgr
  have idle : free s c = true := by
    unfold free
    split
    · rfl
    · rename_i b held
      simp [rests.returned c b held]
  have known : s.mgr.life c ≠ .fresh := by simp [live]
  set loaded := (s.setMgr (s.mgr.deleteUser u)).setBind c u (afterLoad (s.mgr.userConns u) c) with hloaded
  have enters : run step s [.bind c u, .loadAndDelete c] = some loaded := by
    simp [run, step, positive, known, idle, hloaded, State.setBind, State.setMgr]
  have entries : ∀ v d, (s.mgr.deleteUser u).userConns v = some d → s.mgr.life d ≠ .fresh :=
    fun v d held => rests.entries v d (deleteUser_entries.mp held).1
  have settled : Settled loaded := ⟨rests.settled.closing, rests.settled.finished⟩
  obtain ⟨kicks, t, kicked, mgr, binds, after⟩ := kick_alone settled (setBind_binds_same _ c u _)
    (fun old held => rests.entries u old held)
  have call : t.binds c = some ⟨u, .setUID⟩ := by rw [binds, Function.update_self]
  have stores : run step t [.setUID c, .store c] =
      some ((t.setMgr ((t.mgr.setUID c u).storeUser u c)).setBind c u .returned) := by
    simp [run, step, call, State.setBind, State.setMgr]
  refine ⟨[.bind c u, .loadAndDelete c] ++ (kicks ++ [.setUID c, .store c]), _,
    run_append_some.mpr ⟨loaded, enters, run_append_some.mpr ⟨t, kicked, stores⟩⟩, ?_, ?_, ?_, ?_⟩
  · simp only [setBind_mgr, setMgr_mgr, mgr]
    rfl
  · intro d b held
    rcases setBind_binds_cases held with ⟨_, new⟩ | ⟨here, old⟩
    · rw [new]
    · rw [setMgr_binds, binds, Function.update_of_ne here, hloaded,
        setBind_binds_ne _ _ _ _ here] at old
      exact rests.returned d b old
  · exact ⟨after.closing, after.finished⟩
  · intro v d held
    by_cases here : v = u
    · subst here
      simp only [ConnManager.bindUser, ConnManager.storeUser, Function.update_self,
        Option.some.injEq] at held
      subst held
      exact kick_known known
    · simp only [ConnManager.bindUser, ConnManager.storeUser, ConnManager.setUID,
        Function.update_of_ne here] at held
      exact kick_entries entries v d held

theorem Rests.register (rests : Rests m s) (fresh : m.life c = .fresh) :
    ∃ as t, run step s as = some t ∧ Rests (m.register c) t := by
  cases rests.mgr
  have taken : step s (.register c) = some (s.setMgr (s.mgr.register c)) := by
    simp only [step, fresh, if_true]
  refine ⟨[.register c], _, run_cons_some.mpr ⟨_, taken, rfl⟩, rfl, rests.returned,
    ⟨closing_register rests.settled.closing fresh, rests.settled.finished⟩, ?_⟩
  intro v d held
  by_cases here : d = c
  · simp [ConnManager.register, here]
  · simp only [ConnManager.register, Function.update_of_ne here]
    exact rests.entries v d held

end Rests

/-- Every sequence of whole operations is a run of the interleaved machine. -/
theorem operations_in_sequence {ops : List ConnOps.Action} {m : ConnManager}
    (taken : run ConnOps.step ConnManager.new ops = some m) :
    ∃ as s, run step new as = some s ∧ Rests m s := by
  have start : Rests ConnManager.new new :=
    ⟨rfl, fun _ _ h => by contradiction, ⟨fun _ => by simp [new, ConnManager.new], fun _ _ h => by contradiction⟩,
      fun _ _ h => by contradiction⟩
  refine run_simulates Rests ?_ start taken
  intro m op t s rests done
  cases ConnOps.step_effect done with
  | register fresh => exact rests.register fresh
  | bind positive live => exact rests.bindUser positive live
  | close known => exact rests.close known

end GameIM.Gateway.BindRace
