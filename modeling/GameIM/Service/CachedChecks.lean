import GameIM.Service.Msg

/-! The ban and availability checks of SendMsg over whole runs: records that come and go in
Redis, the caches of the servers, and a clock. The commands of Redis are taken one by one, so
a SetBan is its HSET and, possibly much later or never, its EXPIRE. -/
namespace GameIM.Service.CachedChecks
open GameIM.Lib GameIM.Api GameIM.Store

/- The hash that SetBan writes. -/
structure BanRecord where
  reason : String
  expireAt : Int
  deadline : Option Nat
  deriving DecidableEq, Repr

def BanRecord.live (now : Nat) (r : BanRecord) : Bool :=
  match r.deadline with
  | none => true
  | some d => decide (now < d)

structure State where
  now : Nat
  bans : Int → Option BanRecord
  avail : ChannelType → Option String
  caches : Nat → Caches

namespace State

def banRecord (s : State) (uid : Int) : Option BanRecord := (s.bans uid).filter (·.live s.now)

/- HSET on a live hash keeps its deadline. -/
def hsetBan (s : State) (uid : Int) (reason : String) (expireAt : Int) : State :=
  let deadline := (s.banRecord uid).bind BanRecord.deadline
  { s with bans := Function.update s.bans uid (some ⟨reason, expireAt, deadline⟩) }

/- EXPIRE, which deletes the key if the time is not positive. -/
def expireBan (s : State) (uid : Int) (seconds : Int) : State :=
  match s.banRecord uid with
  | none => s
  | some r =>
    if seconds ≤ 0 then { s with bans := Function.update s.bans uid none }
    else
      let r := { r with deadline := some (s.now + 1000 * seconds.toNat) }
      { s with bans := Function.update s.bans uid (some r) }

def deleteBan (s : State) (uid : Int) : State :=
  { s with bans := Function.update s.bans uid none }

def isBanned (s : State) (uid : Int) : Bool × Int :=
  match s.banRecord uid with
  | none => (false, 0)
  | some r => (true, r.expireAt)

def setChannelAvailable (s : State) (channelType : ChannelType) (available : Bool) : State :=
  let val := if available then "1" else "0"
  { s with avail := Function.update s.avail channelType (some val) }

def isChannelAvailable (s : State) (channelType : ChannelType) : Bool :=
  match s.avail channelType with
  | none => true
  | some val => val == "1"

def config (s : State) (fails : Bool) : Config where
  filters := []
  isBanned _ uid := if fails then none else some (s.isBanned uid).1
  isAvailable _ channelType := if fails then none else some (s.isChannelAvailable channelType)

def setCaches (s : State) (server : Nat) (caches : Caches) : State :=
  { s with caches := Function.update s.caches server caches }

end State

inductive Action where
  | hsetBan (uid : Int) (reason : String) (expireAt : Int)
  | expireBan (uid : Int) (seconds : Int)
  | deleteBan (uid : Int)
  | setChannelAvailable (channelType : ChannelType) (available : Bool)
  | tick (ms : Nat)
  | checkBan (server : Nat) (uid : Int) (fails : Bool)
  | checkAvail (server : Nat) (channelType : ChannelType) (fails : Bool)
  deriving DecidableEq, Repr

def perform (s : State) : Action → State
  | .hsetBan uid reason expireAt => s.hsetBan uid reason expireAt
  | .expireBan uid seconds => s.expireBan uid seconds
  | .deleteBan uid => s.deleteBan uid
  | .setChannelAvailable channelType available => s.setChannelAvailable channelType available
  | .tick ms => { s with now := s.now + ms }
  | .checkBan server uid fails =>
    let caches := s.caches server
    s.setCaches server { caches with ban := (checkBanCached (s.config fails) caches.ban s.now uid).2 }
  | .checkAvail server channelType fails =>
    let caches := s.caches server
    s.setCaches server
      { caches with avail := (checkAvailCached (s.config fails) caches.avail s.now channelType).2 }

def step (s : State) (a : Action) : Option State := some (perform s a)

/- What is in a cache when the run starts has run out. NewLocalCache is empty. -/
def Unprimed (s : State) : Prop :=
  ∀ server key e, (s.caches server).ban.entries key = some e ∨ (s.caches server).avail.entries key = some e →
    e.expireAt < s.now

section Cache

variable {α : Type} {key : α → String} {read : State → α → Bool} {V : State → Prop} {now : Nat}
  {cache : LocalCache} {s : State} {x : α} {v failOpen : Bool}

/-- The store said this of x in a visited state no more than the five seconds ago. -/
def Recent (V : State → Prop) (now : Nat) (read : State → α → Bool) (x : α) (v : Bool) : Prop :=
  ∃ u, V u ∧ now ≤ u.now + LocalCache.ttl ∧ u.now ≤ now ∧ read u x = v

/-- Every entry that still counts was the truth when it was made. -/
def Witnessed (key : α → String) (read : State → α → Bool) (V : State → Prop) (now : Nat)
    (cache : LocalCache) : Prop :=
  ∀ x e, cache.entries (key x) = some e → now ≤ e.expireAt →
    ∃ u, V u ∧ u.now ≤ now ∧ e.expireAt = u.now + LocalCache.ttl ∧ read u x = e.value

theorem Witnessed.grows {W : State → Prop} (h : Witnessed key read V now cache)
    (more : ∀ u, V u → W u) : Witnessed key read W now cache := by
  intro x e held counts
  obtain ⟨u, visited, rest⟩ := h x e held counts
  exact ⟨u, more u visited, rest⟩

theorem Witnessed.later {moment : Nat} (h : Witnessed key read V now cache) (le : now ≤ moment) :
    Witnessed key read V moment cache := by
  intro x e held counts
  obtain ⟨u, visited, before, made, said⟩ := h x e held (Nat.le_trans le counts)
  exact ⟨u, visited, Nat.le_trans before le, made, said⟩

theorem Witnessed.hit (h : Witnessed key read V now cache) (hit : cache.get now (key x) = some v) :
    Recent V now read x v := by
  unfold LocalCache.get at hit
  split at hit
  · contradiction
  · rename_i e held
    split at hit
    · contradiction
    · rename_i counts
      cases Option.some.inj hit
      have valid : now ≤ e.expireAt := Nat.le_of_not_lt counts
      obtain ⟨u, visited, before, made, said⟩ := h x e held valid
      exact ⟨u, visited, made ▸ valid, before, said⟩

theorem Witnessed.answer (h : Witnessed key read V s.now cache) (current : V s) (fails : Bool)
    (answer : (checkCached cache s.now (key x) (if fails then none else some (read s x)) failOpen).1 = v) :
    (cache.get s.now (key x) = none ∧ fails = true ∧ v = failOpen) ∨ Recent V s.now read x v := by
  unfold checkCached at answer
  cases hit : cache.get s.now (key x) with
  | some w =>
    simp only [hit] at answer
    exact Or.inr (h.hit (answer ▸ hit))
  | none =>
    simp only [hit] at answer
    cases fails with
    | true => exact Or.inl ⟨rfl, rfl, answer.symm⟩
    | false => exact Or.inr ⟨s, current, Nat.le_add_right _ _, Nat.le_refl _, answer⟩

theorem Witnessed.check (inj : ∀ x y, key x = key y ↔ x = y) (h : Witnessed key read V s.now cache)
    (current : V s) (x : α) (fails failOpen : Bool) : Witnessed key read V s.now
      (checkCached cache s.now (key x) (if fails then none else some (read s x)) failOpen).2 := by
  unfold checkCached
  cases cache.get s.now (key x) with
  | some w => exact h
  | none =>
    cases fails with
    | true => exact h
    | false =>
      intro y e held counts
      simp only [LocalCache.set, Bool.false_eq_true, if_false] at held
      by_cases same : y = x
      · subst same
        rw [Function.update_self] at held
        cases Option.some.inj held
        exact ⟨s, current, Nat.le_refl _, rfl, rfl⟩
      · have other : key y ≠ key x := fun eq => same ((inj y x).mp eq)
        rw [Function.update_of_ne other] at held
        exact h y e held counts

end Cache

def State.banned (s : State) (uid : Int) : Bool := (s.isBanned uid).1

namespace State

variable {uid : Int} {channelType : ChannelType}

end State

/-- The invariant: both caches of every server. -/
structure Inv (V : State → Prop) (s : State) : Prop where
  ban : ∀ server, Witnessed banKey State.banned V s.now (s.caches server).ban
  avail : ∀ server, Witnessed availKey State.isChannelAvailable V s.now (s.caches server).avail

section Run

variable {V : State → Prop} {s t : State} {a : Action}

theorem Inv.same (inv : Inv V s) (clock : s.now ≤ t.now) (caches : t.caches = s.caches) : Inv V t := by
  constructor
  · intro server
    rw [caches]
    exact (inv.ban server).later clock
  · intro server
    rw [caches]
    exact (inv.avail server).later clock

theorem Inv.setCaches (inv : Inv V s) (server : Nat) {caches : Caches}
    (ban : Witnessed banKey State.banned V s.now caches.ban)
    (avail : Witnessed availKey State.isChannelAvailable V s.now caches.avail) :
    Inv V (s.setCaches server caches) := by
  constructor
  · intro other
    by_cases same : other = server
    · simpa only [State.setCaches, same, Function.update_self] using ban
    · simpa only [State.setCaches, Function.update_of_ne same] using inv.ban other
  · intro other
    by_cases same : other = server
    · simpa only [State.setCaches, same, Function.update_self] using avail
    · simpa only [State.setCaches, Function.update_of_ne same] using inv.avail other

theorem expireBan_frame (s : State) (uid seconds : Int) :
    (s.expireBan uid seconds).now = s.now ∧ (s.expireBan uid seconds).caches = s.caches := by
  unfold State.expireBan
  split
  · exact ⟨rfl, rfl⟩
  · split <;> exact ⟨rfl, rfl⟩

theorem perform_inv (current : V s) (inv : Inv V s) (a : Action) : Inv V (perform s a) := by
  cases a with
  | hsetBan uid reason expireAt => exact inv.same (Nat.le_refl _) rfl
  | expireBan uid seconds =>
    have frame := expireBan_frame s uid seconds
    exact inv.same (Nat.le_of_eq frame.1.symm) frame.2
  | deleteBan uid => exact inv.same (Nat.le_refl _) rfl
  | setChannelAvailable channelType available => exact inv.same (Nat.le_refl _) rfl
  | tick ms => exact inv.same (Nat.le_add_right _ _) rfl
  | checkBan server uid fails =>
    refine inv.setCaches server ?_ (inv.avail server)
    exact (inv.ban server).check (fun _ _ => banKey_inj) current uid fails false
  | checkAvail server channelType fails =>
    refine inv.setCaches server (inv.ban server) ?_
    exact (inv.avail server).check (fun _ _ => availKey_inj) current channelType fails true

theorem Unprimed.inv (start : Unprimed s) : Inv V s := by
  constructor
  · intro server uid e held counts
    exact absurd (start server _ e (Or.inl held)) (Nat.not_lt.mpr counts)
  · intro server channelType e held counts
    exact absurd (start server _ e (Or.inr held)) (Nat.not_lt.mpr counts)

theorem run_inv {as : List Action} (start : Unprimed s) (taken : run step s as = some t) :
    Inv (Visited step s as) t := by
  refine run_visited Inv ?_ ?_ start.inv taken
  · intro V W u more inv
    exact ⟨fun server => (inv.ban server).grows more, fun server => (inv.avail server).grows more⟩
  · intro V u a v current _ inv hv
    cases Option.some.inj hv
    exact perform_inv current inv a

theorem precheck_checks (s : State) (server : Nat) (filters : List ContentFilter) (uid : Int)
    (req : SendMsgReq) (banFails availFails : Bool) :
    let cfg : Config := ⟨filters, (s.config banFails).isBanned, (s.config availFails).isAvailable⟩
    ∃ as, run step s as =
      some (s.setCaches server (precheck cfg (s.caches server) s.now uid req).2) := by
  intro cfg
  have idle : run step s [] = some (s.setCaches server (s.caches server)) := by
    simp [State.setCaches]
  have ban : run step s [.checkBan server uid banFails] = some (s.setCaches server
      ⟨(checkBanCached cfg (s.caches server).ban s.now uid).2, (s.caches server).avail⟩) := rfl
  have both : run step s [.checkBan server uid banFails, .checkAvail server req.channelType availFails] =
      some (s.setCaches server ⟨(checkBanCached cfg (s.caches server).ban s.now uid).2,
        (checkAvailCached cfg (s.caches server).avail s.now req.channelType).2⟩) := by
    simp only [run, step, perform, State.setCaches, Option.bind_some, Function.update_self,
      Function.update_idem]
    rfl
  unfold precheck
  split
  · exact ⟨_, idle⟩
  · dsimp only
    split
    · exact ⟨_, idle⟩
    · split
      · exact ⟨_, ban⟩
      · split
        · exact ⟨_, both⟩
        · exact ⟨_, both⟩

end Run

def opened : State :=
  ⟨0, fun _ => none, fun _ => none, fun _ => ⟨⟨fun _ => none⟩, ⟨fun _ => none⟩⟩⟩

theorem opened_unprimed : Unprimed opened := by
  intro server key e held
  simp [opened] at held

end GameIM.Service.CachedChecks
