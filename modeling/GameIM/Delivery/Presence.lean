import GameIM.Delivery.Online

/-! Presence records over whole sessions. A record is written by the authentication and
expires thirty seconds later. Heartbeats do not renew it, and Close does not delete it:
RefreshTTL and SetOffline have no callers. -/
namespace GameIM.Delivery.Presence
open Lib Api Store Gateway

/-- `beat` records the time of a connection's last heartbeat, or of its authentication.
`missed` records that since then ten seconds went by without a heartbeat. No step reads
these. -/
structure State where
  online : Online.State
  beat : ConnID → Nat
  missed : ConnID → Bool

inductive Action where
  | event (a : Online.Action)
  | heartbeat (c : ConnID)
  | frame (c : ConnID)

def start : State := ⟨Online.start, fun _ => 0, fun _ => false⟩

/- Milliseconds. -/
def heartbeatEvery : Nat := 10000

def State.track (s : State) (t : Online.State) : Online.Action → State
  | .tick _ => { s with
      online := t
      missed := fun c => s.missed c || decide (s.beat c + heartbeatEvery < t.world.now) }
  | .setOnline c _ => ⟨t, Function.update s.beat c t.world.now, Function.update s.missed c false⟩
  | _ => { s with online := t }

/- HandleHeartbeat replies with the server's time, and no handler but AuthHandler's touches
presence. -/
def step (cfg : Online.Config) (s : State) : Action → Option State
  | .event a => (Online.step cfg s.online a).map fun t => s.track t a
  | .heartbeat c =>
    if s.online.world.mgr.life c = .open then
      some { s with beat := Function.update s.beat c s.online.world.now }
    else none
  | .frame c => if s.online.world.mgr.life c = .open then some s else none

def batchGetPresence (w : World) (uids : List Int) (uid : Int) : Option PresenceData :=
  if uid ∈ uids then w.getPresence uid else none

/-- The user is reported online on the connection they are authenticated on, as long as it
is open and sends its heartbeats, and not reported without an open connection. -/
structure Reported (s : State) (uid : Int) : Prop where
  online : ∀ c, s.online.world.mgr.life c = .open → s.online.world.mgr.uid c = uid →
    s.online.authing c = none → s.missed c = false → ∀ uids, uid ∈ uids →
      ∃ p, batchGetPresence s.online.world uids uid = some p ∧ p.status = .online ∧ p.connID = c
  absent : (∀ c, s.online.world.mgr.life c = .open → s.online.world.mgr.uid c ≠ uid) →
    ∀ uids, batchGetPresence s.online.world uids uid = none

/-- The step keeps the user's record in line with their connection. The clock does not reach
the record's deadline while the connection sends its heartbeats; the connection is not
closed while the record is live; the record is written while the connection is the user's
entry; and no connection changes its user. -/
def attended (uid : Int) (s : State) : Action → Bool
  | .event (.tick ms) => match s.online.world.mgr.getByUID uid with
    | none => true
    | some c => s.online.authing c ≠ none ∨ s.missed c = true ∨
        s.beat c + heartbeatEvery < s.online.world.now + ms ∨
        (s.online.world.presence uid).any fun e => s.online.world.now + ms < e.deadline
  | .event (.close c) => s.online.world.mgr.life c ≠ .open ∨ s.online.world.mgr.uid c ≠ uid ∨
      s.online.world.getPresence uid = none
  | .event (.bind v c) => ConnOps.sameUser s.online.world.mgr (.bind v c)
  | .event (.setOnline c _) => s.online.authing c = some uid → s.online.world.mgr.getByUID uid = some c
  | _ => true

def written : Action → Bool
  | .event (.setOnline _ fails) => !fails
  | _ => true

structure Inv (uid : Int) (s : State) : Prop where
  exact : Exact s.online.world.mgr
  tidy : Tidy s.online.world.mgr
  pending : ∀ c v, s.online.authing c = some v → s.online.world.mgr.uid c = v
  online : ∀ c, s.online.world.mgr.getByUID uid = some c → s.online.authing c = none →
    s.missed c = false →
      ∃ p, s.online.world.getPresence uid = some p ∧ p.status = .online ∧ p.connID = c
  absent : s.online.world.getPresence uid ≠ none → ∃ c, s.online.world.mgr.getByUID uid = some c

section Inv

variable {cfg : Online.Config} {uid : Int} {s t : State}

theorem Inv.same (inv : Inv uid s) (now : t.online.world.now = s.online.world.now)
    (mgr : t.online.world.mgr = s.online.world.mgr)
    (presence : t.online.world.presence = s.online.world.presence)
    (authing : t.online.authing = s.online.authing) (missed : t.missed = s.missed) : Inv uid t := by
  have found : t.online.world.getPresence uid = s.online.world.getPresence uid := by
    simp only [World.getPresence, now, presence]
  constructor
  · exact mgr ▸ inv.exact
  · exact mgr ▸ inv.tidy
  · rw [mgr, authing]
    exact inv.pending
  · rw [mgr, authing, missed, found]
    exact inv.online
  · rw [mgr, found]
    exact inv.absent

theorem getPresence_later {w v : World} {p : PresenceData} (later : v.now ≤ w.now)
    (presence : w.presence = v.presence) (found : w.getPresence uid = some p) :
    v.getPresence uid = some p := by
  simp only [World.getPresence, presence] at found ⊢
  cases held : v.presence uid with
  | none => simp [held] at found
  | some e =>
    simp only [held] at found ⊢
    split at found
    · rw [if_pos (by omega)]
      exact found
    · contradiction

theorem setPresence_other {w : World} {v : Int} (data : PresenceData) (other : uid ≠ v) :
    (w.setPresence v data).getPresence uid = w.getPresence uid := by
  have same : (w.setPresence v data).presence uid = w.presence uid := Function.update_of_ne other _ _
  unfold World.getPresence
  rw [same]
  rfl

theorem getPresence_live {w : World} {e : PresenceEntry} (entry : w.presence uid = some e)
    (live : w.now < e.deadline) : w.getPresence uid = some e.data := by
  simp only [World.getPresence, entry, if_pos live]

theorem tick_inv {ms : Nat} {o : Online.State} (inv : Inv uid s) (ok : attended uid s (.event (.tick ms)) = true)
    (taken : Online.step cfg s.online (.tick ms) = some o) : Inv uid (s.track o (.tick ms)) := by
  cases Option.some.inj taken
  constructor
  · exact inv.exact
  · exact inv.tidy
  · exact inv.pending
  · intro c held done beating
    have ⟨regular, near⟩ : s.missed c = false ∧ ¬ s.beat c + heartbeatEvery < s.online.world.now + ms := by
      simpa [State.track] using beating
    obtain ⟨p, found, status, conn⟩ := inv.online c held done regular
    have held : s.online.world.mgr.getByUID uid = some c := held
    have done : s.online.authing c = none := done
    have lasts : (s.online.world.presence uid).any (fun e => s.online.world.now + ms < e.deadline) = true := by
      simpa [attended, held, done, regular, near] using ok
    refine ⟨p, ?_, status, conn⟩
    cases entry : s.online.world.presence uid with
    | none => simp [entry] at lasts
    | some e =>
      have lasts : s.online.world.now + ms < e.deadline := by simpa [entry] using lasts
      have before : s.online.world.now < e.deadline := by omega
      rw [getPresence_live entry before] at found
      exact (getPresence_live (w := { s.online.world with now := s.online.world.now + ms }) entry lasts).trans
        found
  · intro found
    obtain ⟨p, found⟩ := Option.ne_none_iff_exists'.mp found
    have earlier : s.online.world.getPresence uid = some p :=
      getPresence_later (w := { s.online.world with now := s.online.world.now + ms })
        (Nat.le_add_right _ _) rfl found
    exact inv.absent (by simp [earlier])

theorem close_inv {c : ConnID} {o : Online.State} (inv : Inv uid s)
    (ok : attended uid s (.event (.close c)) = true)
    (taken : Online.step cfg s.online (.close c) = some o) : Inv uid (s.track o (.close c)) := by
  obtain ⟨m, done, rfl⟩ := Option.map_eq_some_iff.mp taken
  have exact := ConnOps.step_exact inv.exact inv.tidy rfl done
  have tidy := ConnOps.step_tidy inv.tidy done
  cases ConnOps.step_effect done with
  | close known =>
    constructor
    · exact exact
    · exact tidy
    · intro d v authing
      exact (congrFun (close_uid _ _) d).trans (inv.pending d v authing)
    · intro d held
      have held : (s.online.world.mgr.close c).userConns uid = some d := held
      rw [close_userConns] at held
      split at held
      · contradiction
      · exact inv.online d held
    · intro found
      obtain ⟨d, held⟩ := inv.absent found
      refine ⟨d, ?_⟩
      have kept : (s.online.world.mgr.close c).userConns uid = some d := by
        rw [close_userConns, if_neg]
        · exact held
        · rintro ⟨live, same, _⟩
          have gone : s.online.world.getPresence uid = none := by
            simpa [attended, live, same.symm] using ok
          exact found gone
      exact kept

theorem bindUser_uid (m : ConnManager) (v : Int) (c : ConnID) :
    (m.bindUser v c).uid = Function.update m.uid c v := by
  simp only [ConnManager.bindUser, ConnManager.storeUser, ConnManager.setUID, kick_uid]
  rfl

theorem bind_inv {v : Int} {c : ConnID} {o : Online.State} (inv : Inv uid s)
    (ok : attended uid s (.event (.bind v c)) = true)
    (taken : Online.step cfg s.online (.bind v c) = some o) : Inv uid (s.track o (.bind v c)) := by
  simp only [Online.step] at taken
  split at taken
  · obtain ⟨m, done, rfl⟩ := Option.map_eq_some_iff.mp taken
    have once : ConnOps.sameUser s.online.world.mgr (.bind v c) = true := ok
    have exact := ConnOps.step_exact inv.exact inv.tidy once done
    have tidy := ConnOps.step_tidy inv.tidy done
    cases ConnOps.step_effect done with
    | bind positive live =>
      have entry : (s.online.world.mgr.bindUser v c).userConns uid =
          if uid = v then some c else s.online.world.mgr.userConns uid := by
        split
        · rename_i here
          rw [here]
          exact Function.update_self _ _ _
        · rename_i other
          exact bindUser_entry_ne inv.exact (Int.ne_of_gt positive) other
      constructor
      · exact exact
      · exact tidy
      · intro d w authing
        have named : Function.update s.online.world.mgr.uid c v d = w := by
          by_cases here : d = c
          · have same : some v = some w := by simpa [State.track, here] using authing
            simpa [here] using Option.some.inj same
          · have old : s.online.authing d = some w := by simpa [State.track, here] using authing
            simpa [here] using inv.pending d w old
        exact (congrFun (bindUser_uid _ v c) d).trans named
      · intro d held done beating
        have other : d ≠ c := by
          rintro rfl
          simp [State.track] at done
        have old : s.online.authing d = none := by simpa [State.track, other] using done
        have held : (s.online.world.mgr.bindUser v c).userConns uid = some d := held
        rw [entry] at held
        split at held
        · exact absurd (Option.some.inj held).symm other
        · exact inv.online d held old beating
      · intro found
        obtain ⟨d, held⟩ := inv.absent found
        by_cases here : uid = v
        · exact ⟨c, entry.trans (if_pos here)⟩
        · exact ⟨d, (entry.trans (if_neg here)).trans held⟩
  · contradiction

theorem register_inv {c : ConnID} {o : Online.State} (inv : Inv uid s)
    (taken : Online.step cfg s.online (.register c) = some o) : Inv uid (s.track o (.register c)) := by
  obtain ⟨m, done, rfl⟩ := Option.map_eq_some_iff.mp taken
  have exact := ConnOps.step_exact inv.exact inv.tidy rfl done
  have tidy := ConnOps.step_tidy inv.tidy done
  cases ConnOps.step_effect done with
  | register _ => exact ⟨exact, tidy, inv.pending, inv.online, inv.absent⟩

theorem setOnline_inv {c : ConnID} {fails : Bool} {o : Online.State} (inv : Inv uid s)
    (works : written (.event (.setOnline c fails)) = true)
    (ok : attended uid s (.event (.setOnline c fails)) = true)
    (taken : Online.step cfg s.online (.setOnline c fails) = some o) :
    Inv uid (s.track o (.setOnline c fails)) := by
  have works : fails = false := by simpa [written] using works
  subst works
  simp only [Online.step] at taken
  split at taken
  · contradiction
  · rename_i v pending
    cases Option.some.inj taken
    constructor
    · exact inv.exact
    · exact inv.tidy
    · intro d w authing
      by_cases here : d = c
      · simp [State.track, here] at authing
      · exact inv.pending d w (by simpa [State.track, here] using authing)
    · intro d held done beating
      have held : s.online.world.mgr.getByUID uid = some d := held
      by_cases here : v = uid
      · subst here
        have mine : s.online.world.mgr.getByUID v = some c := by simpa [attended, pending] using ok
        cases held.symm.trans mine
        refine ⟨_, getPresence_live (w := s.online.world.setPresence v _) (Function.update_self _ _ _) ?_,
          rfl, rfl⟩
        simp only [World.setPresence, presenceTTL]
        omega
      · have other : d ≠ c := by
          rintro rfl
          have named := (inv.exact.entry uid d held).2.2
          exact here ((inv.pending d v pending).symm.trans named)
        have old : s.online.authing d = none := by simpa [State.track, other] using done
        have regular : s.missed d = false := by simpa [State.track, other] using beating
        obtain ⟨p, found, rest⟩ := inv.online d held old regular
        exact ⟨p, (setPresence_other _ (Ne.symm here)).trans found, rest⟩
    · intro found
      by_cases here : v = uid
      · subst here
        have mine : s.online.world.mgr.getByUID v = some c := by simpa [attended, pending] using ok
        exact ⟨c, mine⟩
      · apply inv.absent
        rw [← setPresence_other _ (Ne.symm here)]
        exact found

theorem step_inv {a : Action} (inv : Inv uid s) (works : written a = true) (ok : attended uid s a = true)
    (taken : step cfg s a = some t) : Inv uid t := by
  cases a with
  | heartbeat c =>
    simp only [step] at taken
    split at taken
    · cases Option.some.inj taken
      exact inv.same rfl rfl rfl rfl rfl
    · contradiction
  | frame c =>
    simp only [step] at taken
    split at taken
    · cases Option.some.inj taken
      exact inv
    · contradiction
  | event a =>
    obtain ⟨o, moved, rfl⟩ := Option.map_eq_some_iff.mp taken
    cases a with
    | tick ms => exact tick_inv inv ok moved
    | register c => exact register_inv inv moved
    | bind v c => exact bind_inv inv ok moved
    | setOnline c fails => exact setOnline_inv inv works ok moved
    | close c => exact close_inv inv ok moved
    | createChannel =>
      cases Option.some.inj moved
      exact inv.same rfl rfl rfl rfl rfl
    | deleteChannel =>
      cases Option.some.inj moved
      exact inv.same rfl rfl rfl rfl rfl
    | join v channelID =>
      cases Option.some.inj moved
      obtain ⟨now, mgr, presence⟩ := Online.join_fields s.online.world v channelID
      exact inv.same now mgr presence rfl rfl
    | leave =>
      cases Option.some.inj moved
      exact inv.same rfl rfl rfl rfl rfl
    | deliver msg faults =>
      simp only [Online.step] at moved
      split at moved
      · cases Option.some.inj moved
        exact inv.same rfl rfl rfl rfl rfl
      · rename_i w done
        cases Option.some.inj moved
        have grows := deliver_grows done
        exact inv.same grows.now grows.mgr grows.presence rfl rfl
    | write c =>
      simp only [Online.step] at moved
      split at moved
      · contradiction
      · cases Option.some.inj moved
        exact inv.same rfl rfl rfl rfl rfl

theorem Inv.reported (inv : Inv uid s) (positive : uid ≠ 0) : Reported s uid := by
  constructor
  · intro c live named done regular uids asked
    have held : s.online.world.mgr.getByUID uid = some c := named ▸ inv.exact.bound c live (named ▸ positive)
    obtain ⟨p, found, rest⟩ := inv.online c held done regular
    exact ⟨p, (if_pos asked).trans found, rest⟩
  · intro nobody uids
    unfold batchGetPresence
    split
    · by_contra found
      obtain ⟨c, held⟩ := inv.absent found
      obtain ⟨live, _, named⟩ := inv.exact.entry uid c held
      exact nobody c live named
    · rfl

/- A tick past the deadline, or a Close with the record live, is noticed at once. -/
theorem tick_unreported {ms : Nat} (inv : Inv uid s) (outside : attended uid s (.event (.tick ms)) ≠ true)
    (taken : step cfg s (.event (.tick ms)) = some t) : ¬ Reported t uid := by
  simp only [step, Online.step, Option.map_some, Option.some.injEq] at taken
  subst taken
  cases held : s.online.world.mgr.getByUID uid with
  | none => simp [attended, held] at outside
  | some c =>
    obtain ⟨live, _, named⟩ := inv.exact.entry uid c held
    obtain ⟨done, regular, near, late⟩ : s.online.authing c = none ∧ s.missed c = false ∧
        s.online.world.now + ms ≤ s.beat c + heartbeatEvery ∧
        (s.online.world.presence uid).any (fun e => s.online.world.now + ms < e.deadline) = false := by
      simpa [attended, held] using outside
    intro reported
    obtain ⟨p, found, _⟩ := reported.online c live named done
      (by simpa [State.track, regular] using near) [uid] (by simp)
    have found : ({ s.online.world with now := s.online.world.now + ms } : World).getPresence uid = some p := by
      simpa [batchGetPresence, State.track] using found
    cases entry : s.online.world.presence uid with
    | none => simp [World.getPresence, entry] at found
    | some e =>
      have passed : ¬ s.online.world.now + ms < e.deadline := by simpa [entry] using late
      simp [World.getPresence, entry, passed] at found

theorem close_unreported {c : ConnID} (inv : Inv uid s) (positive : uid ≠ 0)
    (outside : attended uid s (.event (.close c)) ≠ true)
    (taken : step cfg s (.event (.close c)) = some t) : ¬ Reported t uid := by
  obtain ⟨o, moved, rfl⟩ := Option.map_eq_some_iff.mp taken
  obtain ⟨m, done, rfl⟩ := Option.map_eq_some_iff.mp moved
  have ⟨live, named, found⟩ : s.online.world.mgr.life c = .open ∧ s.online.world.mgr.uid c = uid ∧
      s.online.world.getPresence uid ≠ none := by
    simpa [attended] using outside
  have exact := ConnOps.step_exact inv.exact inv.tidy rfl done
  cases ConnOps.step_effect done with
  | close known =>
    have nobody : ∀ d, (s.online.world.mgr.close c).life d = .open →
        (s.online.world.mgr.close c).uid d ≠ uid := by
      intro d open' same
      have held := exact.bound d open' (same ▸ positive)
      rw [same, close_userConns, if_pos ⟨live, named.symm, named ▸ positive⟩] at held
      contradiction
    intro reported
    have gone : batchGetPresence s.online.world [uid] uid = none := reported.absent nobody [uid]
    exact found (by simpa [batchGetPresence] using gone)

theorem start_inv (uid : Int) : Inv uid start := by
  constructor
  · exact ConnOps.new_exact
  · exact ConnOps.new_tidy
  · exact fun _ _ authing => nomatch authing
  · exact fun _ held => nomatch held
  · exact fun found => absurd rfl found

/-- In every run without Redis errors whose steps keep the user's record in line with their
connection: a user whose connection is open and sends a heartbeat every ten seconds is
reported online with that connection, and a user without an open connection is not
reported. -/
theorem presence_reported {as : List Action} (positive : 0 < uid)
    (works : ∀ a ∈ as, written a = true)
    (tends : Meets (step cfg) (fun s a => attended uid s a = true) start as)
    (taken : run (step cfg) start as = some s) : Reported s uid := by
  have works : Meets (step cfg) (fun _ a => written a = true) start as :=
    (meets_true start as).imp (fun _ a mem _ => works a mem)
  have inv : Inv uid s := run_invariant_meets (Inv uid)
    (fun _ _ _ inv ok taken => step_inv inv ok.1 ok.2 taken) (start_inv uid) (works.and tends) taken
  exact inv.reported (Int.ne_of_gt positive)

end Inv

/- User 7 logs in on connection 1, sends a heartbeat within ten seconds, and authenticates
again before the record expires. -/
def renewed : List Action :=
  [.event (.register 1), .event (.bind 7 1), .event (.setOnline 1 false), .event (.tick 9000),
    .heartbeat 1, .event (.tick 9000), .heartbeat 1, .event (.bind 7 1), .event (.setOnline 1 false),
    .event (.tick 9000), .frame 1, .heartbeat 1, .event (.tick 9000)]

theorem presence_reported_renewed : ∃ s p, run (step Online.appConfig) start renewed = some s ∧
    s.online.world.now = 36000 ∧ batchGetPresence s.online.world [7] 7 = some p ∧
    p.status = .online ∧ p.connID = 1 := by
  have view : (run (step Online.appConfig) start renewed).map (fun s =>
      (s.online.world.now, s.online.world.mgr.life 1, s.online.world.mgr.uid 1, s.online.authing 1,
        s.missed 1)) = some (36000, .open, 7, none, false) := by
    decide +kernel
  obtain ⟨s, taken, fields⟩ := Option.map_eq_some_iff.mp view
  simp only [Prod.mk.injEq] at fields
  obtain ⟨now, live, named, done, regular⟩ := fields
  have reported : Reported s 7 := presence_reported (by decide) (by decide) (by decide +kernel) taken
  obtain ⟨p, found, status, conn⟩ := reported.online 1 live named done regular [7] (by simp)
  exact ⟨s, p, taken, now, found, status, conn⟩

/- User 7 logs in on connection 1 and sends a heartbeat every nine seconds. -/
def beating : List Action :=
  [.event (.register 1), .event (.bind 7 1), .event (.setOnline 1 false), .event (.tick 9000),
    .heartbeat 1, .event (.tick 9000), .heartbeat 1, .event (.tick 9000), .heartbeat 1, .event (.tick 9000)]

/-- After 36 seconds with heartbeats user 7 is not reported any more. If connection 1 is
closed a second after the login, user 7 is still reported online on it. -/
theorem presence_not_kept :
    (∃ s, run (step Online.appConfig) start beating = some s ∧ s.online.world.mgr.life 1 = .open ∧
      s.missed 1 = false ∧ batchGetPresence s.online.world [7] 7 = none ∧ ¬ Reported s 7) ∧
    ((run (step Online.appConfig) start
        [.event (.register 1), .event (.bind 7 1), .event (.setOnline 1 false), .event (.tick 1000),
          .event (.close 1)]).map fun s =>
      (s.online.world.mgr.life 1, s.online.world.mgr.getByUID 7, batchGetPresence s.online.world [7] 7)) =
        some (.closed, none, some ⟨"gw-1", 1, .online, 0⟩) := by
  have view : (run (step Online.appConfig) start beating).map (fun s =>
      (s.online.world.mgr.life 1, s.online.world.mgr.uid 1, s.online.authing 1, s.missed 1,
        batchGetPresence s.online.world [7] 7)) = some (.open, 7, none, false, none) := by
    decide +kernel
  obtain ⟨s, taken, fields⟩ := Option.map_eq_some_iff.mp view
  simp only [Prod.mk.injEq] at fields
  obtain ⟨live, named, done, regular, gone⟩ := fields
  refine ⟨⟨s, taken, live, regular, gone, ?_⟩, by decide +kernel⟩
  intro reported
  obtain ⟨p, found, _⟩ := reported.online 1 live named done regular [7] (by simp)
  rw [gone] at found
  contradiction

end GameIM.Delivery.Presence
