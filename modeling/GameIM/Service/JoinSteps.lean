import Mathlib.Data.List.Perm.Basic
import GameIM.Service.Channels

/-! JoinChannel and LeaveChannel by their Redis steps: GetChannelState, the write to the
member set, the write to the user's index. Any number of calls is in progress, their steps
interleave in any way, and a step can fail before Redis has done anything, or after it:
the reply is lost, or the EXPIRE behind the SADD of AddUserChannel fails. Nothing expires. -/
namespace GameIM.Service.JoinSteps
open Lib Api Channels

inductive Op where
  | join | leave
  deriving DecidableEq, Repr

inductive Phase where
  | getState | member | index
  deriving DecidableEq, Repr

def Op.first : Op → Phase
  | .join => .getState
  | .leave => .member

structure Call where
  op : Op
  uid : Int
  channelID : String
  phase : Phase
  deriving DecidableEq, Repr

/- What becomes of a write: `refused` and `lost` both return an error. -/
inductive Outcome where
  | done | refused | lost
  deriving DecidableEq, Repr

inductive Result where
  | ok | channelNotFound | redisError
  deriving DecidableEq, Repr

structure State where
  channels : String → Option ChannelType
  members : String → List Int
  userChannels : Int → List String
  calls : List Call
  returned : List (Call × Result)

inductive Action where
  | createChannel (channelID : String) (channelType : ChannelType)
  | deleteChannel (channelID : String)
  | call (op : Op) (uid : Int) (channelID : String)
  | getChannelState (n : Nat) (fails : Bool)
  | writeMember (n : Nat) (outcome : Outcome)
  | writeIndex (n : Nat) (outcome : Outcome)
  deriving DecidableEq, Repr

def Outcome.applied : Outcome → Bool
  | .done | .lost => true
  | .refused => false

def Call.applyMember (c : Call) (members : String → List Int) : String → List Int :=
  match c.op with
  | .join => saddAt members c.channelID c.uid
  | .leave => sremAt members c.channelID c.uid

def Call.applyIndex (c : Call) (userChannels : Int → List String) : Int → List String :=
  match c.op with
  | .join => saddAt userChannels c.uid c.channelID
  | .leave => sremAt userChannels c.uid c.channelID

namespace State

def goOn (s : State) (n : Nat) (c : Call) (phase : Phase) : State :=
  { s with calls := s.calls.set n { c with phase := phase } }

def finish (s : State) (n : Nat) (c : Call) (result : Result) : State :=
  { s with calls := s.calls.eraseIdx n, returned := s.returned ++ [(c, result)] }

def setMember (s : State) (c : Call) (outcome : Outcome) : State :=
  if outcome.applied then { s with members := c.applyMember s.members } else s

def setIndex (s : State) (c : Call) (outcome : Outcome) : State :=
  if outcome.applied then { s with userChannels := c.applyIndex s.userChannels } else s

end State

def step (s : State) : Action → Option State
  | .createChannel channelID channelType =>
    some { s with channels := Function.update s.channels channelID (some channelType) }
  | .deleteChannel channelID => some { s with channels := Function.update s.channels channelID none }
  | .call op uid channelID => some { s with calls := s.calls ++ [⟨op, uid, channelID, op.first⟩] }
  | .getChannelState n fails => match s.calls[n]? with
    | none => none
    | some c =>
      if c.phase = .getState then
        if fails then some (s.finish n c .redisError)
        else match s.channels c.channelID with
          | none => some (s.finish n c .channelNotFound)
          | some _ => some (s.goOn n c .member)
      else none
  | .writeMember n outcome => match s.calls[n]? with
    | none => none
    | some c =>
      if c.phase = .member then
        if outcome = .done then some ((s.setMember c outcome).goOn n c .index)
        else some ((s.setMember c outcome).finish n c .redisError)
      else none
  | .writeIndex n outcome => match s.calls[n]? with
    | none => none
    | some c =>
      if c.phase = .index then
        some ((s.setIndex c outcome).finish n c (if outcome = .done then .ok else .redisError))
      else none

inductive Effect (s : State) : Action → State → Prop where
  | channels {a channels} : (∀ n o, a ≠ .writeMember n o) → (∀ n o, a ≠ .writeIndex n o) →
      Effect s a { s with channels := channels }
  | called {op uid channelID} : Effect s (.call op uid channelID)
      { s with calls := s.calls ++ [⟨op, uid, channelID, op.first⟩] }
  | found {n c fails} : s.calls[n]? = some c → c.phase = .getState →
      Effect s (.getChannelState n fails) (s.goOn n c .member)
  | ended {n c fails result} : s.calls[n]? = some c → c.phase = .getState →
      Effect s (.getChannelState n fails) (s.finish n c result)
  | written {n c} : s.calls[n]? = some c → c.phase = .member →
      Effect s (.writeMember n .done) ((s.setMember c .done).goOn n c .index)
  | unwritten {n c outcome result} : s.calls[n]? = some c → c.phase = .member → outcome ≠ .done →
      Effect s (.writeMember n outcome) ((s.setMember c outcome).finish n c result)
  | indexed {n c outcome result} : s.calls[n]? = some c → c.phase = .index →
      Effect s (.writeIndex n outcome) ((s.setIndex c outcome).finish n c result)

/-- The call has written to the member set of the channel and not yet to the user's index. -/
def Call.Between (c : Call) (uid : Int) (channelID : String) : Prop :=
  c.phase = .index ∧ c.uid = uid ∧ c.channelID = channelID

def AtRest (s : State) (uid : Int) (channelID : String) : Prop :=
  ∀ c ∈ s.calls, ¬ c.Between uid channelID

def Agrees (s : State) (uid : Int) (channelID : String) : Prop :=
  uid ∈ s.members channelID ↔ channelID ∈ s.userChannels uid

def Alone (s : State) (n : Nat) (c : Call) : Prop :=
  ∀ d ∈ s.calls.eraseIdx n, ¬ d.Between c.uid c.channelID

def Same (s : State) (n : Nat) (c : Call) : Prop :=
  ∀ d ∈ s.calls.eraseIdx n, d.Between c.uid c.channelID → d.op = c.op

/-- The index has what the call would leave there. -/
def Call.Listed (c : Call) (s : State) : Prop := c.channelID ∈ s.userChannels c.uid ↔ c.op = .join

/-- No call writes to the member set while one of the other kind is between its writes on the
same user and channel. A call whose first write has taken effect and that ends in an error
without its second write finds the index as it would leave it, unless another call is still
to write there. -/
def Clean (s : State) : Action → Prop
  | .writeMember n .done => ∀ c ∈ s.calls[n]?, c.phase = .member → Same s n c
  | .writeMember n .lost => ∀ c ∈ s.calls[n]?, c.phase = .member → Same s n c ∧ (Alone s n c → c.Listed s)
  | .writeIndex n .refused => ∀ c ∈ s.calls[n]?, c.phase = .index → Alone s n c → c.Listed s
  | _ => True

instance decidableBetween (c : Call) (uid : Int) (channelID : String) :
    Decidable (c.Between uid channelID) :=
  inferInstanceAs (Decidable (_ ∧ _))

instance decidableAlone (s : State) (n : Nat) (c : Call) : Decidable (Alone s n c) :=
  inferInstanceAs (Decidable (∀ d ∈ _, _))

instance decidableSame (s : State) (n : Nat) (c : Call) : Decidable (Same s n c) :=
  inferInstanceAs (Decidable (∀ d ∈ _, _ → _))

instance decidableListed (c : Call) (s : State) : Decidable (c.Listed s) :=
  inferInstanceAs (Decidable (_ ↔ _))

instance decidableClean (s : State) : ∀ a, Decidable (Clean s a)
  | .writeMember n .done => inferInstanceAs (Decidable (∀ c ∈ s.calls[n]?, _))
  | .writeMember n .lost => inferInstanceAs (Decidable (∀ c ∈ s.calls[n]?, _))
  | .writeIndex n .refused => inferInstanceAs (Decidable (∀ c ∈ s.calls[n]?, _))
  | .writeMember _ .refused | .writeIndex _ .done | .writeIndex _ .lost | .createChannel _ _
  | .deleteChannel _ | .call _ _ _ | .getChannelState _ _ => inferInstanceAs (Decidable True)

section Effect

variable {s t : State} {a : Action}

theorem step_effect (taken : step s a = some t) : Effect s a t := by
  cases a with
  | createChannel channelID channelType =>
    cases Option.some.inj taken
    exact .channels (by simp) (by simp)
  | deleteChannel channelID =>
    cases Option.some.inj taken
    exact .channels (by simp) (by simp)
  | call op uid channelID =>
    cases Option.some.inj taken
    exact .called
  | getChannelState n fails =>
    simp only [step] at taken
    split at taken
    · contradiction
    · rename_i c held
      split at taken
      · rename_i phase
        split at taken
        · cases Option.some.inj taken
          exact .ended held phase
        · split at taken
          · cases Option.some.inj taken
            exact .ended held phase
          · cases Option.some.inj taken
            exact .found held phase
      · contradiction
  | writeMember n outcome =>
    simp only [step] at taken
    split at taken
    · contradiction
    · rename_i c held
      split at taken
      · rename_i phase
        split at taken
        · rename_i done
          subst done
          cases Option.some.inj taken
          exact .written held phase
        · rename_i failed
          cases Option.some.inj taken
          exact .unwritten held phase failed
      · contradiction
  | writeIndex n outcome =>
    simp only [step] at taken
    split at taken
    · contradiction
    · rename_i c held
      split at taken
      · rename_i phase
        cases Option.some.inj taken
        exact .indexed held phase
      · contradiction

end Effect

section Writes

variable {s : State} {c : Call} {n : Nat} {uid : Int} {channelID : String}

theorem calls_perm (held : s.calls[n]? = some c) : (c :: s.calls.eraseIdx n).Perm s.calls := by
  obtain ⟨inside, rfl⟩ := List.getElem?_eq_some_iff.mp held
  exact List.getElem_cons_eraseIdx_perm inside

theorem atRest_iff (held : s.calls[n]? = some c) :
    AtRest s uid channelID ↔
      ¬ c.Between uid channelID ∧ ∀ d ∈ s.calls.eraseIdx n, ¬ d.Between uid channelID := by
  unfold AtRest
  simp only [← (calls_perm held).mem_iff, List.mem_cons, forall_eq_or_imp]

theorem atRest_goOn (held : s.calls[n]? = some c) (phase : Phase) :
    AtRest (s.goOn n c phase) uid channelID ↔
      ¬ ({ c with phase := phase } : Call).Between uid channelID ∧
        ∀ d ∈ s.calls.eraseIdx n, ¬ d.Between uid channelID := by
  obtain ⟨inside, _⟩ := List.getElem?_eq_some_iff.mp held
  unfold AtRest
  simp only [State.goOn, (List.set_perm_cons_eraseIdx inside _).mem_iff, List.mem_cons,
    forall_eq_or_imp]

@[simp] theorem setMember_calls (s : State) (c : Call) (outcome : Outcome) :
    (s.setMember c outcome).calls = s.calls := by
  unfold State.setMember
  split
  · rfl
  · rfl

@[simp] theorem setMember_userChannels (s : State) (c : Call) (outcome : Outcome) :
    (s.setMember c outcome).userChannels = s.userChannels := by
  unfold State.setMember
  split
  · rfl
  · rfl

@[simp] theorem setIndex_calls (s : State) (c : Call) (outcome : Outcome) :
    (s.setIndex c outcome).calls = s.calls := by
  unfold State.setIndex
  split
  · rfl
  · rfl

@[simp] theorem setIndex_members (s : State) (c : Call) (outcome : Outcome) :
    (s.setIndex c outcome).members = s.members := by
  unfold State.setIndex
  split
  · rfl
  · rfl

theorem mem_write {κ α : Type} [DecidableEq κ] [DecidableEq α] (op : Op) (sets : κ → List α)
    (key k : κ) (a b : α) :
    b ∈ (match op with
      | .join => saddAt sets key a
      | .leave => sremAt sets key a) k ↔
      if key = k ∧ a = b then op = .join else b ∈ sets k := by
  by_cases here : key = k ∧ a = b
  · obtain ⟨rfl, rfl⟩ := here
    cases op with
    | join => simp
    | leave => simp
  · have other : ¬ (k = key ∧ b = a) := fun same => here ⟨same.1.symm, same.2.symm⟩
    cases op with
    | join => simp [here, other]
    | leave => simp [here, other]

theorem mem_applyMember (c : Call) (members : String → List Int) :
    uid ∈ c.applyMember members channelID ↔
      if c.uid = uid ∧ c.channelID = channelID then c.op = .join else uid ∈ members channelID := by
  rw [if_congr and_comm rfl rfl]
  exact mem_write c.op members c.channelID channelID c.uid uid

theorem mem_applyIndex (c : Call) (userChannels : Int → List String) :
    channelID ∈ c.applyIndex userChannels uid ↔
      if c.uid = uid ∧ c.channelID = channelID then c.op = .join else channelID ∈ userChannels uid :=
  mem_write c.op userChannels c.uid uid c.channelID channelID

end Writes

/-- The two sets agree on every user and channel with no call between its writes. -/
def Settled (s : State) : Prop :=
  ∀ uid channelID, AtRest s uid channelID → Agrees s uid channelID

/-- And the member set has what each call between its writes wrote there. -/
structure Inv (s : State) : Prop where
  settled : Settled s
  left : ∀ c ∈ s.calls, ∀ uid channelID, c.Between uid channelID →
    (uid ∈ s.members channelID ↔ c.op = .join)

section Steps

variable {s t : State} {a : Action} {c : Call} {n : Nat}

theorem not_between_of_phase {phase : Phase} (here : c.phase = phase) (other : phase ≠ .index) (uid : Int)
    (channelID : String) : ¬ c.Between uid channelID := by
  intro between
  exact other (here.symm.trans between.1)

theorem mem_goOn (held : s.calls[n]? = some c) {phase : Phase} {d : Call} (member : d ∈ (s.goOn n c phase).calls) :
    d = { c with phase := phase } ∨ d ∈ s.calls.eraseIdx n := by
  obtain ⟨inside, _⟩ := List.getElem?_eq_some_iff.mp held
  exact List.mem_cons.mp ((List.set_perm_cons_eraseIdx inside _).mem_iff.mp member)

theorem Inv.goOn (inv : Inv s) (held : s.calls[n]? = some c) (before : c.phase ≠ .index) {phase : Phase}
    (after : phase ≠ .index) : Inv (s.goOn n c phase) := by
  refine ⟨?_, ?_⟩
  · intro uid channelID rest
    have others := ((atRest_goOn held _).mp rest).2
    exact inv.settled uid channelID ((atRest_iff held).mpr ⟨not_between_of_phase rfl before uid channelID, others⟩)
  · intro d member uid channelID between
    rcases mem_goOn held member with rfl | other
    · exact absurd between (not_between_of_phase rfl after uid channelID)
    · exact inv.left d (List.mem_of_mem_eraseIdx other) uid channelID between

theorem Inv.finish (inv : Inv s) (held : s.calls[n]? = some c) {s' : State} (calls : s'.calls = s.calls)
    (members : ∀ uid channelID, ¬ (c.uid = uid ∧ c.channelID = channelID) →
      (uid ∈ s'.members channelID ↔ uid ∈ s.members channelID))
    (index : ∀ uid channelID, ¬ (c.uid = uid ∧ c.channelID = channelID) →
      (channelID ∈ s'.userChannels uid ↔ channelID ∈ s.userChannels uid))
    (own : Alone s n c → Agrees s' c.uid c.channelID)
    (left : ∀ d ∈ s.calls.eraseIdx n, d.Between c.uid c.channelID → (c.uid ∈ s'.members c.channelID ↔ d.op = .join))
    (result : Result) : Inv (s'.finish n c result) := by
  have erased : (s'.finish n c result).calls = s.calls.eraseIdx n := by rw [State.finish, calls]
  refine ⟨?_, ?_⟩
  · intro uid channelID rest
    have others : ∀ d ∈ s.calls.eraseIdx n, ¬ d.Between uid channelID := by
      rw [AtRest, erased] at rest
      exact rest
    by_cases here : c.uid = uid ∧ c.channelID = channelID
    · obtain ⟨rfl, rfl⟩ := here
      exact own others
    · have free : ¬ c.Between uid channelID := fun between => here between.2
      have before := inv.settled uid channelID ((atRest_iff held).mpr ⟨free, others⟩)
      exact (members uid channelID here).trans (before.trans (index uid channelID here).symm)
  · intro d member uid channelID between
    rw [erased] at member
    by_cases here : c.uid = uid ∧ c.channelID = channelID
    · obtain ⟨rfl, rfl⟩ := here
      exact left d member between
    · exact (members uid channelID here).trans (inv.left d (List.mem_of_mem_eraseIdx member) uid channelID between)

theorem setMember_other (s : State) (outcome : Outcome) {uid : Int} {channelID : String}
    (other : ¬ (c.uid = uid ∧ c.channelID = channelID)) :
    uid ∈ (s.setMember c outcome).members channelID ↔ uid ∈ s.members channelID := by
  unfold State.setMember
  split
  · rw [mem_applyMember, if_neg other]
  · rfl

theorem setMember_own (s : State) (c : Call) (outcome : Outcome) (applied : outcome.applied = true) :
    c.uid ∈ (s.setMember c outcome).members c.channelID ↔ c.op = .join := by
  unfold State.setMember
  rw [if_pos applied, mem_applyMember, if_pos ⟨rfl, rfl⟩]

theorem setIndex_other (s : State) (outcome : Outcome) {uid : Int} {channelID : String}
    (other : ¬ (c.uid = uid ∧ c.channelID = channelID)) :
    channelID ∈ (s.setIndex c outcome).userChannels uid ↔ channelID ∈ s.userChannels uid := by
  unfold State.setIndex
  split
  · rw [mem_applyIndex, if_neg other]
  · rfl

theorem setIndex_own (s : State) (c : Call) (outcome : Outcome) (applied : outcome.applied = true) :
    c.channelID ∈ (s.setIndex c outcome).userChannels c.uid ↔ c.op = .join := by
  unfold State.setIndex
  rw [if_pos applied, mem_applyIndex, if_pos ⟨rfl, rfl⟩]

theorem Inv.written (inv : Inv s) (held : s.calls[n]? = some c) (phase : c.phase = .member) (same : Same s n c) :
    Inv ((s.setMember c .done).goOn n c .index) := by
  have held' : (s.setMember c .done).calls[n]? = some c := by rw [setMember_calls, held]
  refine ⟨?_, ?_⟩
  · intro uid channelID rest
    have both := (atRest_goOn held' _).mp rest
    rw [setMember_calls] at both
    have free := not_between_of_phase phase (by simp) uid channelID
    have other : ¬ (c.uid = uid ∧ c.channelID = channelID) := fun same => both.1 ⟨rfl, same⟩
    have before := inv.settled uid channelID ((atRest_iff held).mpr ⟨free, both.2⟩)
    exact (setMember_other s .done other).trans before
  · intro d member uid channelID between
    by_cases here : c.uid = uid ∧ c.channelID = channelID
    · obtain ⟨rfl, rfl⟩ := here
      rcases mem_goOn held' member with rfl | other
      · exact setMember_own s c .done rfl
      · rw [setMember_calls] at other
        rw [same d other between]
        exact setMember_own s c .done rfl
    · rcases mem_goOn held' member with rfl | other
      · exact absurd between.2 here
      · rw [setMember_calls] at other
        have before := inv.left d (List.mem_of_mem_eraseIdx other) uid channelID between
        exact (setMember_other s .done here).trans before

theorem Inv.unwritten (inv : Inv s) (held : s.calls[n]? = some c) (phase : c.phase = .member) {outcome : Outcome}
    (clean : Clean s (.writeMember n outcome)) (failed : outcome ≠ .done) (result : Result) :
    Inv ((s.setMember c outcome).finish n c result) := by
  refine inv.finish held (setMember_calls s c outcome) (fun _ _ other => setMember_other s outcome other)
    (fun _ _ _ => by rw [setMember_userChannels]) ?_ ?_ result
  · intro alone
    cases outcome with
    | done => contradiction
    | refused =>
      exact inv.settled c.uid c.channelID ((atRest_iff held).mpr ⟨not_between_of_phase phase (by simp) _ _, alone⟩)
    | lost => exact (setMember_own s c .lost rfl).trans ((clean c held phase).2 alone).symm
  · intro d member between
    cases outcome with
    | done => contradiction
    | refused => exact inv.left d (List.mem_of_mem_eraseIdx member) c.uid c.channelID between
    | lost =>
      rw [(clean c held phase).1 d member between]
      exact setMember_own s c .lost rfl

theorem Inv.indexed (inv : Inv s) (held : s.calls[n]? = some c) (phase : c.phase = .index) {outcome : Outcome}
    (clean : Clean s (.writeIndex n outcome)) (result : Result) :
    Inv ((s.setIndex c outcome).finish n c result) := by
  have written := inv.left c (List.mem_of_getElem? held) c.uid c.channelID ⟨phase, rfl, rfl⟩
  refine inv.finish held (setIndex_calls s c outcome) (fun _ _ _ => by rw [setIndex_members])
    (fun _ _ other => setIndex_other s outcome other) ?_ ?_ result
  · intro alone
    rw [Agrees, setIndex_members]
    refine written.trans (Iff.symm ?_)
    cases outcome with
    | done => exact setIndex_own s c .done rfl
    | lost => exact setIndex_own s c .lost rfl
    | refused => exact clean c held phase alone
  · intro d member between
    rw [setIndex_members]
    exact inv.left d (List.mem_of_mem_eraseIdx member) c.uid c.channelID between

theorem step_inv (inv : Inv s) (clean : Clean s a) (taken : step s a = some t) : Inv t := by
  cases step_effect taken with
  | channels => exact ⟨inv.settled, inv.left⟩
  | @called op uid' channelID' =>
    refine ⟨fun uid channelID rest => inv.settled uid channelID fun c member => ?_, ?_⟩
    · exact rest c (List.mem_append_left _ member)
    intro d member uid channelID between
    rcases List.mem_append.mp member with old | new
    · exact inv.left d old uid channelID between
    · cases List.mem_singleton.mp new
      cases op <;> cases between.1
  | found held phase => exact inv.goOn held (by simp [phase]) (by simp)
  | @ended n c _ result held phase =>
    refine inv.finish held rfl (fun _ _ _ => Iff.rfl) (fun _ _ _ => Iff.rfl) ?_ ?_ result
    · intro alone
      exact inv.settled c.uid c.channelID ((atRest_iff held).mpr ⟨not_between_of_phase phase (by simp) _ _, alone⟩)
    · exact fun d member between => inv.left d (List.mem_of_mem_eraseIdx member) c.uid c.channelID between
  | written held phase => exact inv.written held phase (clean _ held phase)
  | unwritten held phase failed => exact inv.unwritten held phase clean failed _
  | indexed held phase => exact inv.indexed held phase clean _

/-- A call that ends in an error with its first write done and its second not done, where the
condition does not hold, leaves the sets apart. -/
theorem unclean_end_disagrees (inv : Inv s) (held : s.calls[n]? = some c) (phase : c.phase = .index)
    (unlisted : ¬ c.Listed s) (taken : step s (.writeIndex n .refused) = some t) :
    ¬ Agrees t c.uid c.channelID := by
  have written := inv.left c (List.mem_of_getElem? held) c.uid c.channelID ⟨phase, rfl, rfl⟩
  intro agrees
  cases step_effect taken with
  | channels _ notIndex => exact notIndex n .refused rfl
  | indexed held' _ =>
    cases held.symm.trans held'
    exact unlisted (agrees.symm.trans written)

end Steps

structure Start (s : State) : Prop where
  idle : s.calls = []
  agrees : ∀ uid channelID, Agrees s uid channelID

theorem Start.inv {s : State} (start : Start s) : Inv s := by
  refine ⟨fun uid channelID _ => start.agrees uid channelID, ?_⟩
  intro c member
  rw [start.idle] at member
  contradiction

/-- However the steps of the calls interleave and fail: in a run whose writes are all clean, the
member sets and the indexes agree in every state reached wherever no call is between its writes,
and so on every user and channel whenever no call is in progress. -/
theorem membership_agrees {s₀ s : State} {as : List Action} (start : Start s₀)
    (clean : Meets step Clean s₀ as) (taken : run step s₀ as = some s) :
    ∀ before u, before <+: as → run step s₀ before = some u →
      (∀ uid channelID, AtRest u uid channelID → Agrees u uid channelID) ∧
      (u.calls = [] → ∀ uid channelID, Agrees u uid channelID) := by
  rintro before u ⟨rest, rfl⟩ reached
  have inv : Inv u := run_invariant_meets Inv (fun _ _ _ inv clean taken => step_inv inv clean taken) start.inv
    ((meets_append reached).mp clean).1 reached
  refine ⟨inv.settled, ?_⟩
  intro idle uid channelID
  apply inv.settled uid channelID
  intro c member
  rw [idle] at member
  contradiction

def empty : State := ⟨fun _ => none, fun _ => [], fun _ => [], [], []⟩

theorem empty_start : Start empty := by
  refine ⟨rfl, ?_⟩
  intro uid channelID
  simp [Agrees, empty]

/- Two calls join user 7 to a channel, step by step in turn; a call that should take the
user out again does not get through. -/
def joinedTwice : List Action :=
  [.createChannel "guild" .alliance, .call .join 7 "guild", .call .join 7 "guild",
    .getChannelState 0 false, .getChannelState 1 false, .writeMember 0 .done, .writeMember 1 .done,
    .writeIndex 0 .done, .writeIndex 0 .lost, .call .leave 7 "guild", .writeMember 0 .refused]

theorem membership_agrees_joinedTwice :
    ∃ u, run step empty joinedTwice = some u ∧ u.calls = [] ∧ u.members "guild" = [7] ∧
      Agrees u 7 "guild" := by
  have clean : Meets step Clean empty joinedTwice := by decide +kernel
  have view : ((run step empty joinedTwice).map fun u => (u.calls, u.members "guild")) =
      some ([], [7]) := by
    decide +kernel
  obtain ⟨u, taken, fields⟩ := Option.map_eq_some_iff.mp view
  simp only [Prod.mk.injEq] at fields
  obtain ⟨idle, member⟩ := fields
  have agrees := (membership_agrees empty_start clean taken joinedTwice u List.prefix_rfl taken).2
  exact ⟨u, taken, idle, member, agrees idle 7 "guild"⟩

/- The second write of a join fails. -/
def halfJoined : List Action :=
  [.createChannel "guild" .alliance, .call .join 7 "guild", .getChannelState 0 false,
    .writeMember 0 .done, .writeIndex 0 .refused]

/- No step fails; a leave takes place between the two writes of a join. -/
def joinAroundLeave : List Action :=
  [.createChannel "guild" .alliance, .call .join 7 "guild", .call .leave 7 "guild",
    .getChannelState 0 false, .writeMember 0 .done, .writeMember 1 .done, .writeIndex 1 .done,
    .writeIndex 0 .done]

/- After the one, the user receives the channel's messages without listing it; after the
other, the user lists the channel without being a member. -/
theorem sets_disagree :
    (∃ u, run step empty halfJoined = some u ∧ u.calls = [] ∧
      7 ∈ u.members "guild" ∧ "guild" ∉ u.userChannels 7) ∧
    ∃ u, run step empty joinAroundLeave = some u ∧ u.calls = [] ∧
      7 ∉ u.members "guild" ∧ "guild" ∈ u.userChannels 7 := by
  have first : ((run step empty halfJoined).map fun u =>
      (u.calls, u.members "guild", u.userChannels 7)) = some ([], [7], []) := by
    decide +kernel
  have second : ((run step empty joinAroundLeave).map fun u =>
      (u.calls, u.members "guild", u.userChannels 7)) = some ([], [], ["guild"]) := by
    decide +kernel
  constructor
  · obtain ⟨u, taken, fields⟩ := Option.map_eq_some_iff.mp first
    simp only [Prod.mk.injEq] at fields
    obtain ⟨idle, members, userChannels⟩ := fields
    exact ⟨u, taken, idle, by simp [members], by simp [userChannels]⟩
  · obtain ⟨u, taken, fields⟩ := Option.map_eq_some_iff.mp second
    simp only [Prod.mk.injEq] at fields
    obtain ⟨idle, members, userChannels⟩ := fields
    exact ⟨u, taken, idle, by simp [members], by simp [userChannels]⟩

section Alone

variable {s : State} {w : Channels.State}

/-- The sets of the service's calls taken whole. -/
structure Whole (s : State) (w : Channels.State) : Prop where
  channels : s.channels = w.channels
  members : s.members = w.members
  userChannels : s.userChannels = w.userChannels

/-- A call that runs alone and without a failure is the call of the service. -/
theorem join_alone (same : Whole s w) (idle : s.calls = []) (uid : Int) (channelID : String) :
    ∃ as t, run step s as = some t ∧ t.calls = [] ∧
      Whole t (perform w (.joinChannel uid channelID)) := by
  obtain ⟨channels, members, userChannels, calls, returned⟩ := s
  cases idle
  obtain ⟨rfl, rfl, rfl⟩ := same
  cases state : w.channels channelID with
  | none =>
    have ran : run step ⟨w.channels, w.members, w.userChannels, [], returned⟩
        [.call .join uid channelID, .getChannelState 0 false] =
        some ⟨w.channels, w.members, w.userChannels, [],
          returned ++ [(⟨.join, uid, channelID, .getState⟩, .channelNotFound)]⟩ := by
      simp [run, step, Op.first, state, State.finish]
    refine ⟨_, _, ran, rfl, ?_⟩
    simp only [perform, joinChannel, state]
    exact ⟨rfl, rfl, rfl⟩
  | some channelType =>
    have ran : run step ⟨w.channels, w.members, w.userChannels, [], returned⟩
        [.call .join uid channelID, .getChannelState 0 false, .writeMember 0 .done, .writeIndex 0 .done] =
        some ⟨w.channels, saddAt w.members channelID uid, saddAt w.userChannels uid channelID, [],
          returned ++ [(⟨.join, uid, channelID, .index⟩, .ok)]⟩ := by
      simp [run, step, Op.first, state, State.goOn, State.setMember, State.setIndex, Outcome.applied,
        State.finish, Call.applyMember, Call.applyIndex]
    refine ⟨_, _, ran, rfl, ?_⟩
    simp only [perform, joinChannel, state]
    exact ⟨rfl, rfl, rfl⟩

theorem leave_alone (same : Whole s w) (idle : s.calls = []) (uid : Int) (channelID : String) :
    ∃ as t, run step s as = some t ∧ t.calls = [] ∧
      Whole t (perform w (.leaveChannel uid channelID)) := by
  obtain ⟨channels, members, userChannels, calls, returned⟩ := s
  cases idle
  obtain ⟨rfl, rfl, rfl⟩ := same
  exact ⟨[.call .leave uid channelID, .writeMember 0 .done, .writeIndex 0 .done], _, rfl, rfl,
    rfl, rfl, rfl⟩

theorem op_alone (same : Whole s w) (idle : s.calls = []) (op : Channels.Op) :
    ∃ as t, run step s as = some t ∧ t.calls = [] ∧ Whole t (perform w op) := by
  cases op with
  | createChannel channelID channelType =>
    refine ⟨[.createChannel channelID channelType], _, rfl, idle, ?_, same.members, same.userChannels⟩
    exact congrArg (Function.update · channelID (some channelType)) same.channels
  | deleteChannel channelID =>
    refine ⟨[.deleteChannel channelID], _, rfl, idle, ?_, same.members, same.userChannels⟩
    exact congrArg (Function.update · channelID none) same.channels
  | joinChannel uid channelID => exact join_alone same idle uid channelID
  | leaveChannel uid channelID => exact leave_alone same idle uid channelID

/-- Calls of the service one after the other are runs of the steps. -/
theorem calls_in_turn (ops : List Channels.Op) :
    ∃ as t, run step empty as = some t ∧ t.calls = [] ∧ Whole t (after ops) := by
  have imitates : ∀ w op w' s, (s.calls = [] ∧ Whole s w) → Channels.step w op = some w' →
      ∃ as t, run step s as = some t ∧ t.calls = [] ∧ Whole t w' := by
    rintro w op w' s ⟨idle, same⟩ taken
    cases Option.some.inj taken
    exact op_alone same idle op
  have initial : empty.calls = [] ∧ Whole empty Channels.start := ⟨rfl, rfl, rfl, rfl⟩
  exact run_simulates (fun w s => s.calls = [] ∧ Whole s w) imitates initial (run_step ops)

end Alone

end GameIM.Service.JoinSteps
