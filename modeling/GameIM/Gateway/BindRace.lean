import GameIM.Gateway.BindSteps

/-! Logins that race. With the steps of any number of BindUser and Close calls in any
order, the table ends up with the one open connection of a user as long as no step
overwrites or takes out an entry that is not its own. -/
namespace GameIM.Gateway.BindRace
open Lib

/- The connection's Close has not yet come to take u's entry out, and will. -/
def Pending (phase : Option ClosePhase) (u : Int) : Prop :=
  phase = none ∨ phase = some .shut ∨ phase = some .unlisted ∨ phase = some (.read u)

instance (phase : Option ClosePhase) (u : Int) : Decidable (Pending phase u) :=
  inferInstanceAs (Decidable (_ ∨ _ ∨ _ ∨ _))

theorem Pending.read_uid {u uid : Int} (h : Pending (some (.read uid)) u) : uid = u := by
  rcases h with h | h | h | h
  · cases h
  · cases h
  · cases h
  · cases h
    rfl

theorem not_pending_dropped {u : Int} : ¬ Pending (some .dropped) u := by
  simp [Pending]

theorem Pending.unclosed {phase : Option ClosePhase} {u : Int} (h : Pending phase u)
    (quiet : ∀ p, phase = some p → p = .finished) : phase = none := by
  rcases h with h | h | h | h
  · exact h
  · cases quiet _ h
  · cases quiet _ h
  · cases quiet _ h

/-- No step puts an entry over another, or an entry for a connection whose Close has
looked for one already, or takes out another connection's entry; and no connection
authenticates twice. -/
def orderly (s : State) : Action → Bool
  | .bind c _ => s.binds c = none
  | .store c => match s.binds c with
    | some b => s.mgr.userConns b.uid = none ∧ Pending (s.closes c) b.uid
    | none => true
  | .dropUser c => match s.closes c with
    | some (.read uid) => uid = 0 ∨ s.mgr.userConns uid = none ∨ s.mgr.userConns uid = some c
    | _ => true
  | _ => true

structure Inv (s : State) : Prop where
  entry : ∀ u c, s.mgr.userConns u = some c → s.binds c = some ⟨u, .returned⟩ ∧ Pending (s.closes c) u
  absent : ∀ c u, s.binds c = some ⟨u, .returned⟩ → s.mgr.userConns u = some c ∨
    s.closes c ≠ none ∨ ∃ d v, s.binds d = some ⟨v, .kick c⟩
  named : ∀ c u phase, s.binds c = some ⟨u, phase⟩ → phase = .store ∨ phase = .returned →
    s.mgr.uid c = u
  positive : ∀ c u phase, s.binds c = some ⟨u, phase⟩ → 0 < u
  known : ∀ c b, s.binds c = some b → s.mgr.life c ≠ .fresh
  closing : ∀ c, s.closes c ≠ none ↔ s.mgr.life c = .closed

section Inv

variable {s : State} {c : ConnID} {m : ConnManager}

theorem Inv.close (inv : Inv s) {phase : ClosePhase}
    (fewer : ∀ u d, m.userConns u = some d → s.mgr.userConns u = some d)
    (lost : ∀ u d, s.mgr.userConns u = some d → m.userConns u = some d ∨ d = c)
    (uids : m.uid = s.mgr.uid) (others : ∀ d, d ≠ c → m.life d = s.mgr.life d)
    (closed : m.life c = .closed) (pending : ∀ u, m.userConns u = some c → Pending (some phase) u) :
    Inv ((s.setMgr m).setClose c phase) := by
  refine ⟨?_, ?_, ?_, inv.positive, ?_, ?_⟩
  · intro u d held
    refine ⟨(inv.entry u d (fewer u d held)).1, ?_⟩
    by_cases here : d = c
    · subst here
      rw [setClose_closes_same]
      exact pending u held
    · rw [setClose_closes_ne _ _ _ here]
      exact (inv.entry u d (fewer u d held)).2
  · intro d u bound
    by_cases here : d = c
    · subst here
      exact Or.inr (Or.inl (by simp))
    · rw [setClose_closes_ne _ _ _ here]
      rcases inv.absent d u bound with held | gone
      · rcases lost u d held with kept | mine
        · exact Or.inl kept
        · exact absurd mine here
      · exact Or.inr gone
  · intro d u p bound stored
    simp only [setClose_mgr, setMgr_mgr, uids]
    exact inv.named d u p bound stored
  · intro d b bound
    by_cases here : d = c
    · subst here
      simp [closed]
    · simp only [setClose_mgr, setMgr_mgr, others d here]
      exact inv.known d b bound
  · intro d
    by_cases here : d = c
    · subst here
      simp [closed]
    · simp only [setClose_closes_ne _ _ _ here, setMgr_closes, setClose_mgr, setMgr_mgr, others d here]
      exact inv.closing d

/- A step of c's BindUser before its Store: an entry goes only to be kicked. -/
theorem Inv.bind (inv : Inv s) {uid : Int} {phase : BindPhase} (unfinished : phase ≠ .returned)
    (mine : ∀ u, s.binds c ≠ some ⟨u, .returned⟩) (positive : 0 < uid) (known : s.mgr.life c ≠ .fresh)
    (life : m.life = s.mgr.life) (uids : ∀ d, d ≠ c → m.uid d = s.mgr.uid d)
    (named : phase = .store → m.uid c = uid)
    (fewer : ∀ u d, m.userConns u = some d → s.mgr.userConns u = some d)
    (lost : ∀ u d, s.mgr.userConns u = some d → m.userConns u = some d ∨ phase = .kick d)
    (kicks : ∀ v d, s.binds c = some ⟨v, .kick d⟩ → s.closes d ≠ none) :
    Inv ((s.setMgr m).setBind c uid phase) := by
  refine ⟨?_, ?_, ?_, ?_, ?_, ?_⟩
  · intro u d held
    have before := inv.entry u d (fewer u d held)
    have other : d ≠ c := by
      rintro rfl
      exact mine u before.1
    rw [setBind_binds_ne _ _ _ _ other]
    exact before
  · intro d u bound
    rcases setBind_binds_cases bound with ⟨_, new⟩ | ⟨_, old⟩
    · cases new
      exact absurd rfl unfinished
    · rcases inv.absent d u old with held | shut | ⟨e, v, kick⟩
      · rcases lost u d held with kept | kicked
        · exact Or.inl kept
        · exact Or.inr (Or.inr ⟨c, uid, by rw [setBind_binds_same, kicked]⟩)
      · exact Or.inr (Or.inl shut)
      · by_cases here : e = c
        · subst here
          exact Or.inr (Or.inl (kicks v d kick))
        · exact Or.inr (Or.inr ⟨e, v, by rw [setBind_binds_ne _ _ _ _ here]; exact kick⟩)
  · intro d u p bound stored
    rcases setBind_binds_cases bound with ⟨rfl, new⟩ | ⟨other, old⟩
    · cases new
      rcases stored with stored | returned
      · exact named stored
      · exact absurd returned unfinished
    · simp only [setBind_mgr, setMgr_mgr, uids d other]
      exact inv.named d u p old stored
  · intro d u p bound
    rcases setBind_binds_cases bound with ⟨_, new⟩ | ⟨_, old⟩
    · cases new
      exact positive
    · exact inv.positive d u p old
  · intro d b bound
    simp only [setBind_mgr, setMgr_mgr, life]
    rcases setBind_binds_cases bound with ⟨rfl, _⟩ | ⟨_, old⟩
    · exact known
    · exact inv.known d b old
  · intro d
    simp only [setBind_closes, setMgr_closes, setBind_mgr, setMgr_mgr, life]
    exact inv.closing d

/- The Store: the entry was free, and c's Close will find it. -/
theorem Inv.store (inv : Inv s) {uid : Int} (call : s.binds c = some ⟨uid, .store⟩)
    (empty : s.mgr.userConns uid = none) (pending : Pending (s.closes c) uid) :
    Inv ((s.setMgr (s.mgr.storeUser uid c)).setBind c uid .returned) := by
  have unchanged : ∀ u d, s.mgr.userConns u = some d →
      (s.mgr.storeUser uid c).userConns u = some d := by
    intro u d held
    have other : u ≠ uid := by
      rintro rfl
      cases empty.symm.trans held
    simp only [ConnManager.storeUser, Function.update_of_ne other]
    exact held
  refine ⟨?_, ?_, ?_, ?_, ?_, inv.closing⟩
  · intro u d held
    by_cases here : u = uid
    · subst here
      simp only [setBind_mgr, setMgr_mgr, ConnManager.storeUser, Function.update_self,
        Option.some.injEq] at held
      subst held
      exact ⟨setBind_binds_same _ _ _ _, pending⟩
    · simp only [setBind_mgr, setMgr_mgr, ConnManager.storeUser, Function.update_of_ne here] at held
      have before := inv.entry u d held
      have other : d ≠ c := by
        rintro rfl
        cases call.symm.trans before.1
      rw [setBind_binds_ne _ _ _ _ other]
      exact before
  · intro d u bound
    rcases setBind_binds_cases bound with ⟨rfl, new⟩ | ⟨_, old⟩
    · cases new
      exact Or.inl (Function.update_self _ _ _)
    · rcases inv.absent d u old with held | shut | ⟨e, v, kick⟩
      · exact Or.inl (unchanged u d held)
      · exact Or.inr (Or.inl shut)
      · have other : e ≠ c := by
          rintro rfl
          cases call.symm.trans kick
        exact Or.inr (Or.inr ⟨e, v, by rw [setBind_binds_ne _ _ _ _ other]; exact kick⟩)
  · intro d u p bound stored
    rcases setBind_binds_cases bound with ⟨rfl, new⟩ | ⟨_, old⟩
    · cases new
      exact inv.named d _ .store call (Or.inl rfl)
    · exact inv.named d u p old stored
  · intro d u p bound
    rcases setBind_binds_cases bound with ⟨rfl, new⟩ | ⟨_, old⟩
    · cases new
      exact inv.positive d _ .store call
    · exact inv.positive d u p old
  · intro d b bound
    rcases setBind_binds_cases bound with ⟨rfl, _⟩ | ⟨_, old⟩
    · exact inv.known d _ call
    · exact inv.known d b old

theorem closing_register (closing : ∀ d, s.closes d ≠ none ↔ s.mgr.life d = .closed)
    (fresh : s.mgr.life c = .fresh) (d : ConnID) :
    s.closes d ≠ none ↔ (s.mgr.register c).life d = .closed := by
  by_cases here : d = c
  · subst here
    have before := closing d
    rw [fresh] at before
    simpa [ConnManager.register] using before
  · simp only [ConnManager.register, Function.update_of_ne here]
    exact closing d

theorem Inv.register (inv : Inv s) (fresh : s.mgr.life c = .fresh) :
    Inv (s.setMgr (s.mgr.register c)) := by
  refine ⟨inv.entry, inv.absent, inv.named, inv.positive, ?_, closing_register inv.closing fresh⟩
  intro d b bound
  by_cases here : d = c
  · exact absurd fresh (here ▸ inv.known d b bound)
  · simp only [setMgr_mgr, ConnManager.register, Function.update_of_ne here]
    exact inv.known d b bound

theorem Inv.closed (inv : Inv s) {phase : ClosePhase} (call : s.closes c = some phase) :
    s.mgr.life c = .closed :=
  (inv.closing c).mp (by simp [call])

theorem deleteUser_entries {m : ConnManager} {u v : Int} {d : ConnID} :
    (m.deleteUser u).userConns v = some d ↔ m.userConns v = some d ∧ v ≠ u := by
  by_cases here : v = u
  · simp [ConnManager.deleteUser, here]
  · simp [ConnManager.deleteUser, here]

theorem afterLoad_waits (prev : Option ConnID) (c : ConnID) :
    afterLoad prev c ≠ .returned ∧ afterLoad prev c ≠ .store := by
  unfold afterLoad
  split
  · simp
  · split <;> simp

/- LoadAndDelete: the entry it takes out is the one it goes on to kick. -/
theorem Inv.load (inv : Inv s) {uid : Int} (call : s.binds c = some ⟨uid, .start⟩) :
    Inv ((s.setMgr (s.mgr.deleteUser uid)).setBind c uid (afterLoad (s.mgr.userConns uid) c)) := by
  have waits := afterLoad_waits (s.mgr.userConns uid) c
  refine inv.bind waits.1 (by simp [call]) (inv.positive _ _ _ call) (inv.known _ _ call) rfl
    (fun _ _ => rfl) (fun stored => absurd stored waits.2) ?_ ?_ (by simp [call])
  · exact fun u d held => (deleteUser_entries.mp held).1
  · intro u d held
    by_cases here : u = uid
    · subst here
      have other : d ≠ c := by
        rintro rfl
        cases call.symm.trans (inv.entry u d held).1
      exact Or.inr (by simp only [afterLoad, held, if_pos other])
    · exact Or.inl (deleteUser_entries.mpr ⟨held, here⟩)

/- The Delete of a Close: if it finds an entry, the entry is its own connection's. -/
theorem Inv.dropUser (inv : Inv s) {uid : Int} (call : s.closes c = some (.read uid))
    (own : uid = 0 ∨ s.mgr.userConns uid = none ∨ s.mgr.userConns uid = some c) :
    Inv ((s.setMgr (s.mgr.dropUser uid)).setClose c .dropped) := by
  have ⟨_, uids, lives⟩ := dropUser_fields s.mgr uid
  have fewer : ∀ u d, (s.mgr.dropUser uid).userConns u = some d →
      s.mgr.userConns u = some d ∧ ¬ (u = uid ∧ uid ≠ 0) := by
    intro u d held
    rw [dropUser_userConns] at held
    split at held
    · contradiction
    · rename_i kept
      exact ⟨held, kept⟩
  refine inv.close (fun u d held => (fewer u d held).1) ?_ uids (fun d _ => by rw [lives])
    (by rw [lives]; exact inv.closed call) ?_
  · intro u d held
    rw [dropUser_userConns]
    split
    · rename_i here
      rcases own with zero | none' | mine
      · exact absurd zero here.2
      · cases none'.symm.trans (here.1 ▸ held)
      · exact Or.inr (Option.some.inj ((here.1 ▸ held).symm.trans mine))
    · exact Or.inl held
  · intro u held
    have ⟨before, kept⟩ := fewer u c held
    have ⟨bound, pending⟩ := inv.entry u c before
    have mine : uid = u := (call ▸ pending).read_uid
    have positive := inv.positive c u _ bound
    exact absurd ⟨mine.symm, by omega⟩ kept

theorem step_inv {t : State} {a : Action} (inv : Inv s) (ok : orderly s a = true)
    (taken : step s a = some t) : Inv t := by
  cases step_effect taken with
  | register fresh => exact inv.register fresh
  | @bind c uid positive known _ =>
    have unbound : s.binds c = none := by simpa [orderly] using ok
    exact inv.bind (by simp) (by simp [unbound]) positive known rfl (fun _ _ => rfl)
      (by simp) (fun _ _ held => held) (fun _ _ held => Or.inl held) (by simp [unbound])
  | load call => exact inv.load call
  | @kicked c uid old call finished =>
    refine inv.bind (by simp) (by simp [call]) (inv.positive _ _ _ call) (inv.known _ _ call) rfl
      (fun _ _ => rfl) (by simp) (fun _ _ held => held) (fun _ _ held => Or.inl held) ?_
    intro v d kick
    cases call.symm.trans kick
    simp [finished]
  | @setUID c uid call =>
    refine inv.bind (by simp) (by simp [call]) (inv.positive _ _ _ call) (inv.known _ _ call) rfl
      ?_ (fun _ => Function.update_self _ _ _) (fun _ _ held => held) (fun _ _ held => Or.inl held)
      (by simp [call])
    exact fun d other => Function.update_of_ne other _ _
  | @store c uid call =>
    have room : s.mgr.userConns uid = none ∧ Pending (s.closes c) uid := by
      simpa [orderly, call] using ok
    exact inv.store call room.1 room.2
  | @shut c live =>
    refine inv.close (fun _ _ held => held) (fun _ _ held => Or.inl held) rfl ?_
      (Function.update_self _ _ _) (fun _ _ => Or.inr (Or.inl rfl))
    exact fun d other => Function.update_of_ne other _ _
  | @deleteConn c call =>
    exact inv.close (fun _ _ held => held) (fun _ _ held => Or.inl held) rfl (fun _ _ => rfl)
      (inv.closed call) (fun _ _ => Or.inr (Or.inr (Or.inl rfl)))
  | @readUID c call =>
    refine inv.close (m := s.mgr) (fun _ _ held => held) (fun _ _ held => Or.inl held) rfl
      (fun _ _ => rfl) (inv.closed call) ?_
    intro u held
    have uid := inv.named c u .returned (inv.entry u c held).1 (Or.inr rfl)
    exact Or.inr (Or.inr (Or.inr (by rw [uid])))
  | @dropUser c uid call =>
    have own : uid = 0 ∨ s.mgr.userConns uid = none ∨ s.mgr.userConns uid = some c := by
      simpa [orderly, call] using ok
    exact inv.dropUser call own
  | @finish c call =>
    refine inv.close (fun _ _ held => held) (fun _ _ held => Or.inl held) rfl (fun _ _ => rfl)
      (inv.closed call) ?_
    intro u held
    exact absurd (call ▸ (inv.entry u c held).2) not_pending_dropped

end Inv

theorem new_inv : Inv new :=
  ⟨fun _ _ held => by contradiction, fun _ _ bound => by contradiction,
    fun _ _ _ bound => by contradiction, fun _ _ _ bound => by contradiction,
    fun _ _ bound => by contradiction, fun _ => by simp [new, ConnManager.new]⟩

/-- Every BindUser and every Close that began has returned. -/
structure Quiet (s : State) : Prop where
  binds : ∀ c b, s.binds c = some b → b.phase = .returned
  closes : ∀ c phase, s.closes c = some phase → phase = .finished

/-- The connection authenticated as u. -/
def Authenticated (s : State) (u : Int) (c : ConnID) : Prop := s.binds c = some ⟨u, .returned⟩

def IsOpen (s : State) (c : ConnID) : Prop := s.mgr.life c = .open

section Quiet

variable {s : State} {u : Int} {c : ConnID}

theorem Inv.listed (inv : Inv s) (quiet : Quiet s) (authenticated : Authenticated s u c)
    (live : IsOpen s c) : s.mgr.getByUID u = some c := by
  rcases inv.absent c u authenticated with held | shut | ⟨d, v, kick⟩
  · exact held
  · cases ((inv.closing c).mp shut).symm.trans live
  · cases quiet.binds d _ kick

theorem Inv.live (inv : Inv s) (quiet : Quiet s) (held : s.mgr.getByUID u = some c) :
    Authenticated s u c ∧ IsOpen s c := by
  have ⟨bound, pending⟩ := inv.entry u c held
  refine ⟨bound, ?_⟩
  have unclosed : s.closes c = none := pending.unclosed (quiet.closes c)
  unfold IsOpen
  cases life : s.mgr.life c with
  | fresh => exact absurd life (inv.known c _ bound)
  | «open» => rfl
  | closed => exact absurd unclosed ((inv.closing c).mpr life)

end Quiet

/-- After an orderly run in which every call has returned, at most one of the
connections that authenticated as u is open; if one is, it is the one GetByUID finds, and
otherwise GetByUID finds none. -/
theorem one_open_connection (as : List Action) (s : State)
    (inOrder : Meets step (fun s a => orderly s a = true) new as) (taken : run step new as = some s)
    (quiet : Quiet s) (u : Int) :
    (∀ c, Authenticated s u c → IsOpen s c →
      s.mgr.getByUID u = some c ∧ ∀ d, Authenticated s u d → IsOpen s d → d = c) ∧
    ((∀ c, Authenticated s u c → ¬ IsOpen s c) → s.mgr.getByUID u = none) := by
  have inv := run_invariant_meets Inv (fun _ _ _ h ok t => step_inv h ok t) new_inv inOrder taken
  constructor
  · intro c authenticated live
    have held := inv.listed quiet authenticated live
    refine ⟨held, ?_⟩
    intro d also open'
    exact Option.some.inj ((inv.listed quiet also open').symm.trans held)
  · intro noneOpen
    cases held : s.mgr.getByUID u with
    | none => rfl
    | some c =>
      have ⟨authenticated, live⟩ := inv.live quiet held
      exact absurd live (noneOpen c authenticated)

/- Connection 2 takes over from 1, and closes. -/
def takenOver : List Action :=
  [.register 1, .bind 1 7, .register 2, .loadAndDelete 1, .setUID 1, .store 1, .bind 2 7,
    .loadAndDelete 2, .shut 1, .deleteConn 1, .readUID 1, .dropUser 1, .finish 1, .kicked 2, .setUID 2,
    .shut 2, .deleteConn 2, .store 2, .readUID 2, .dropUser 2, .finish 2]

theorem one_open_connection_takenOver :
    ∃ s, run step new takenOver = some s ∧ Authenticated s 7 2 ∧ s.mgr.getByUID 7 = none := by
  have ends : ((run step new takenOver).map fun s =>
      (s.binds 1, s.binds 2, s.closes 1, s.closes 2, s.mgr.life 1, s.mgr.life 2)) =
      some (some ⟨7, .returned⟩, some ⟨7, .returned⟩, some .finished, some .finished, .closed, .closed) :=
    rfl
  obtain ⟨s, taken, seen⟩ := Option.map_eq_some_iff.mp ends
  simp only [Prod.mk.injEq] at seen
  obtain ⟨bind1, bind2, close1, close2, life1, life2⟩ := seen
  have which : ∀ c, c = 1 ∨ c = 2 ∨ (s.binds c = none ∧ s.closes c = none) := by
    intro c
    by_cases one : c = 1
    · exact Or.inl one
    · by_cases two : c = 2
      · exact Or.inr (Or.inl two)
      · exact Or.inr (Or.inr (run_frame
          (by simp [takenOver, Action.conn, Ne.symm one, Ne.symm two]) taken))
  have quiet : Quiet s := by
    constructor
    · intro c b held
      rcases which c with rfl | rfl | absent
      · cases bind1.symm.trans held
        rfl
      · cases bind2.symm.trans held
        rfl
      · cases absent.1.symm.trans held
    · intro c phase held
      rcases which c with rfl | rfl | absent
      · cases close1.symm.trans held
        rfl
      · cases close2.symm.trans held
        rfl
      · cases absent.2.symm.trans held
  refine ⟨s, taken, bind2, (one_open_connection takenOver s (by decide) taken quiet 7).2 ?_⟩
  intro c authenticated live
  rcases which c with rfl | rfl | absent
  · cases life1.symm.trans live
  · cases life2.symm.trans live
  · cases absent.1.symm.trans authenticated

/-- Two logins as user 7 whose steps cross: both connections stay open. A login crossed
by the Close of its connection: user 7 is left with a closed connection. A third login
while the second kicks the first: connection 3 is open and user 7 has no connection. -/
theorem crossed_logins_leave_wrong_entry :
    ((run step new [.register 1, .register 2, .bind 1 7, .bind 2 7, .loadAndDelete 1, .loadAndDelete 2,
        .setUID 1, .setUID 2, .store 1, .store 2]).map fun s =>
      (s.binds 1, s.binds 2, s.mgr.life 1, s.mgr.life 2, s.mgr.getByUID 7)) =
      some (some ⟨7, .returned⟩, some ⟨7, .returned⟩, .open, .open, some 2) ∧
    ((run step new [.register 1, .bind 1 7, .loadAndDelete 1, .shut 1, .deleteConn 1, .readUID 1,
        .dropUser 1, .finish 1, .setUID 1, .store 1]).map fun s =>
      (s.binds 1, s.mgr.life 1, s.mgr.getByUID 7)) = some (some ⟨7, .returned⟩, .closed, some 1) ∧
    ((run step new [.register 1, .register 2, .register 3, .bind 1 7, .loadAndDelete 1, .setUID 1, .store 1,
        .bind 2 7, .loadAndDelete 2, .shut 1, .deleteConn 1, .readUID 1, .bind 3 7, .loadAndDelete 3,
        .setUID 3, .store 3, .dropUser 1, .finish 1, .kicked 2, .setUID 2, .store 2, .shut 2, .deleteConn 2,
        .readUID 2, .dropUser 2, .finish 2]).map fun s =>
      (s.binds 3, s.mgr.life 3, s.mgr.getByUID 7)) = some (some ⟨7, .returned⟩, .open, none) := by
  decide

end GameIM.Gateway.BindRace
