import GameIM.Service.CachedChecks

/-! The ban and availability checks of SendMsg as the steps that other goroutines can come
between: the entry is looked up, its time is compared with the clock, Redis is read, and the value
is put into the cache. -/
namespace GameIM.Service.CheckSteps
open GameIM.Lib GameIM.Api GameIM.Service

/-- What a check asks about. -/
inductive Subject where
  | ban (uid : Int)
  | avail (channelType : ChannelType)
  deriving DecidableEq, Repr

namespace Subject

def key : Subject → String
  | ban uid => banKey uid
  | avail channelType => availKey channelType

def cache : Subject → Caches → LocalCache
  | ban _, caches => caches.ban
  | avail _, caches => caches.avail

def setCache : Subject → Caches → LocalCache → Caches
  | ban _, caches, cache => { caches with ban := cache }
  | avail _, caches, cache => { caches with avail := cache }

/- IsBanned and IsAvailable. -/
def read (world : CachedChecks.State) : Subject → Bool
  | ban uid => world.banned uid
  | avail channelType => world.isChannelAvailable channelType

def failOpen : Subject → Bool
  | ban _ => false
  | avail _ => true

end Subject

/- The times are not in the code. -/
inductive Phase where
  | looked (entry : Option CacheEntry)
  | asking
  | read (value : Bool) (since : Nat)
  | returned (value : Bool) (moment : Nat)
  | failed (moment : Nat)
  deriving DecidableEq, Repr

structure Check where
  server : Nat
  subject : Subject
  phase : Phase
  deriving DecidableEq, Repr

def Check.answer (c : Check) : Option Bool :=
  match c.phase with
  | .returned value _ => some value
  | .failed _ => some c.subject.failOpen
  | _ => none

/- How long ago the check has read Redis, while it has not yet put the value into the cache. -/
def Check.waited (now : Nat) (c : Check) : Nat :=
  match c.phase with
  | .read _ since => now - since
  | _ => 0

structure State where
  world : CachedChecks.State
  checks : List Check

/- The commands of Redis and the clock are those of `CachedChecks`, the checks are not. -/
inductive Action where
  | world (a : CachedChecks.Action)
  | look (server : Nat) (subject : Subject)
  | judge (n : Nat)
  | read (n : Nat) (fails : Bool)
  | set (n : Nat)
  deriving DecidableEq, Repr

def isCheck : CachedChecks.Action → Bool
  | .checkBan _ _ _ => true
  | .checkAvail _ _ _ => true
  | _ => false

def entry (world : CachedChecks.State) (server : Nat) (subject : Subject) : Option CacheEntry :=
  (subject.cache (world.caches server)).entries subject.key

/- Get after the lookup: an entry that has run out does not count. -/
def judged (now : Nat) : Option CacheEntry → Phase
  | none => .asking
  | some e => if e.expireAt < now then .asking else .returned e.value now

def State.goOn (s : State) (n : Nat) (c : Check) : State := { s with checks := s.checks.set n c }

def setEntry (world : CachedChecks.State) (server : Nat) (subject : Subject) (value : Bool) : CachedChecks.State :=
  let caches := world.caches server
  world.setCaches server (subject.setCache caches ((subject.cache caches).set world.now subject.key value))

def step (s : State) : Action → Option State
  | .world a => if isCheck a then none else some { s with world := CachedChecks.perform s.world a }
  | .look server subject =>
    some { s with checks := s.checks ++ [⟨server, subject, .looked (entry s.world server subject)⟩] }
  | .judge n => match s.checks[n]? with
    | some ⟨server, subject, .looked e⟩ => some (s.goOn n ⟨server, subject, judged s.world.now e⟩)
    | _ => none
  | .read n fails => match s.checks[n]? with
    | some ⟨server, subject, .asking⟩ =>
      if fails then some (s.goOn n ⟨server, subject, .failed s.world.now⟩)
      else some (s.goOn n ⟨server, subject, .read (subject.read s.world) s.world.now⟩)
    | _ => none
  | .set n => match s.checks[n]? with
    | some ⟨server, subject, .read value _⟩ =>
      let written := { s with world := setEntry s.world server subject value }
      some (written.goOn n ⟨server, subject, .returned value s.world.now⟩)
    | _ => none

inductive Effect (s : State) : Action → State → Prop where
  | world {a} : isCheck a = false → Effect s (.world a) { s with world := CachedChecks.perform s.world a }
  | looked {server subject} : Effect s (.look server subject)
      { s with checks := s.checks ++ [⟨server, subject, .looked (entry s.world server subject)⟩] }
  | judged {n server subject e} : s.checks[n]? = some ⟨server, subject, .looked e⟩ →
      Effect s (.judge n) (s.goOn n ⟨server, subject, judged s.world.now e⟩)
  | failed {n server subject} : s.checks[n]? = some ⟨server, subject, .asking⟩ →
      Effect s (.read n true) (s.goOn n ⟨server, subject, .failed s.world.now⟩)
  | read {n server subject} : s.checks[n]? = some ⟨server, subject, .asking⟩ →
      Effect s (.read n false) (s.goOn n ⟨server, subject, .read (subject.read s.world) s.world.now⟩)
  | set {n server subject value since} : s.checks[n]? = some ⟨server, subject, .read value since⟩ →
      Effect s (.set n) (State.goOn ⟨setEntry s.world server subject value, s.checks⟩ n
        ⟨server, subject, .returned value s.world.now⟩)

section Effect

variable {s t : State} {a : Action}

theorem step_effect (taken : step s a = some t) : Effect s a t := by
  cases a with
  | world a =>
    simp only [step] at taken
    split at taken
    · contradiction
    · rename_i redis
      cases Option.some.inj taken
      exact .world (Bool.eq_false_of_not_eq_true redis)
  | look server subject =>
    cases Option.some.inj taken
    exact .looked
  | judge n =>
    simp only [step] at taken
    split at taken
    · rename_i server subject e held
      cases Option.some.inj taken
      exact .judged held
    · contradiction
  | read n fails =>
    simp only [step] at taken
    split at taken
    · rename_i server subject held
      cases fails with
      | true =>
        cases Option.some.inj taken
        exact .failed held
      | false =>
        cases Option.some.inj taken
        exact .read held
    · contradiction
  | set n =>
    simp only [step] at taken
    split at taken
    · rename_i server subject value since held
      cases Option.some.inj taken
      exact .set held
    · contradiction

end Effect

section World

variable {server other : Nat} {subject x : Subject} (world : CachedChecks.State)

theorem setEntry_same (value : Bool) :
    entry (setEntry world server subject value) server subject = some ⟨value, world.now + LocalCache.ttl⟩ := by
  cases subject <;>
    simp [entry, setEntry, CachedChecks.State.setCaches, Subject.cache, Subject.setCache, LocalCache.set]

theorem setEntry_other (value : Bool) (differ : ¬ (other = server ∧ x = subject)) :
    entry (setEntry world server subject value) other x = entry world other x := by
  by_cases same : other = server
  · subst same
    have apart : x ≠ subject := fun eq => differ ⟨rfl, eq⟩
    cases x with
    | ban uid =>
      cases subject with
      | ban uid' =>
        have keys : banKey uid ≠ banKey uid' := fun eq => apart (congrArg Subject.ban (banKey_inj.mp eq))
        simp [entry, setEntry, CachedChecks.State.setCaches, Subject.cache, Subject.setCache, Subject.key,
          LocalCache.set, Function.update_of_ne keys]
      | avail channelType => simp [entry, setEntry, CachedChecks.State.setCaches, Subject.cache, Subject.setCache]
    | avail channelType =>
      cases subject with
      | ban uid => simp [entry, setEntry, CachedChecks.State.setCaches, Subject.cache, Subject.setCache]
      | avail channelType' =>
        have keys : availKey channelType ≠ availKey channelType' :=
          fun eq => apart (congrArg Subject.avail (availKey_inj.mp eq))
        simp [entry, setEntry, CachedChecks.State.setCaches, Subject.cache, Subject.setCache, Subject.key,
          LocalCache.set, Function.update_of_ne keys]
  · simp [entry, setEntry, CachedChecks.State.setCaches, Function.update_of_ne same]

theorem perform_frame {a : CachedChecks.Action} (redis : isCheck a = false) :
    (CachedChecks.perform world a).caches = world.caches ∧ world.now ≤ (CachedChecks.perform world a).now := by
  cases a with
  | expireBan uid seconds =>
    have frame := CachedChecks.expireBan_frame world uid seconds
    exact ⟨frame.2, Nat.le_of_eq frame.1.symm⟩
  | tick ms => exact ⟨rfl, Nat.le_add_right _ _⟩
  | checkBan server uid fails => contradiction
  | checkAvail server channelType fails => contradiction
  | _ => exact ⟨rfl, Nat.le_refl _⟩

end World

section Recent

variable {V W : State → Prop} {server : Nat} {subject : Subject} {value : Bool} {moment now : Nat}

/-- A check of the server put the value into its cache at the moment, having read it from Redis
before. -/
def Made (V : State → Prop) (server : Nat) (subject : Subject) (value : Bool) (moment : Nat) : Prop :=
  ∃ u w, V u ∧ V w ∧ subject.read u.world = value ∧ w.world.now = moment ∧ u.world.now ≤ moment ∧
    ⟨server, subject, .read value u.world.now⟩ ∈ w.checks

/-- The entry was made by a check, if it still counts. -/
def Backed (V : State → Prop) (now server : Nat) (subject : Subject) (e : CacheEntry) : Prop :=
  now ≤ e.expireAt → ∃ moment ≤ now, Made V server subject e.value moment ∧ e.expireAt = moment + LocalCache.ttl

def Check.Sound (V : State → Prop) (now : Nat) (c : Check) : Prop :=
  match c.phase with
  | .looked held => ∀ e, held = some e → Backed V now c.server c.subject e
  | .asking => True
  | .read value since =>
    since ≤ now ∧ ∃ u, V u ∧ u.world.now = since ∧ c.subject.read u.world = value
  | .returned value moment =>
    ∃ made ≤ moment, Made V c.server c.subject value made ∧ moment ≤ made + LocalCache.ttl
  | .failed _ => True

structure Inv (V : State → Prop) (s : State) : Prop where
  entries : ∀ server subject e, entry s.world server subject = some e → Backed V s.world.now server subject e
  checks : ∀ c ∈ s.checks, c.Sound V s.world.now

theorem Made.grows (made : Made V server subject value moment) (more : ∀ u, V u → W u) :
    Made W server subject value moment := by
  obtain ⟨u, w, before, later, rest⟩ := made
  exact ⟨u, w, more u before, more w later, rest⟩

theorem Backed.grows {e : CacheEntry} (backed : Backed V now server subject e) (more : ∀ u, V u → W u) :
    Backed W now server subject e := by
  intro counts
  obtain ⟨moment, before, made, expires⟩ := backed counts
  exact ⟨moment, before, made.grows more, expires⟩

theorem Backed.later {e : CacheEntry} (backed : Backed V now server subject e) {later : Nat} (le : now ≤ later) :
    Backed V later server subject e := by
  intro counts
  obtain ⟨moment, before, made⟩ := backed (Nat.le_trans le counts)
  exact ⟨moment, Nat.le_trans before le, made⟩

theorem Check.Sound.grows {c : Check} (sound : c.Sound V now) (more : ∀ u, V u → W u) : c.Sound W now := by
  obtain ⟨server, subject, phase⟩ := c
  cases phase with
  | looked held => exact fun e same => (sound e same).grows more
  | asking => trivial
  | read value since =>
    obtain ⟨before, u, visited, rest⟩ := sound
    exact ⟨before, u, more u visited, rest⟩
  | returned value moment =>
    obtain ⟨made, before, has, late⟩ := sound
    exact ⟨made, before, has.grows more, late⟩
  | failed moment => trivial

theorem Check.Sound.later {c : Check} (sound : c.Sound V now) {later : Nat} (le : now ≤ later) :
    c.Sound V later := by
  obtain ⟨server, subject, phase⟩ := c
  cases phase with
  | looked held => exact fun e same => (sound e same).later le
  | asking => trivial
  | read value since => exact ⟨Nat.le_trans sound.1 le, sound.2⟩
  | returned value moment => exact sound
  | failed moment => trivial

theorem Inv.world {s : State} (inv : Inv V s) {world : CachedChecks.State} (caches : world.caches = s.world.caches)
    (clock : s.world.now ≤ world.now) : Inv V { s with world } := by
  constructor
  · intro server subject e held
    unfold entry at held
    rw [caches] at held
    exact (inv.entries server subject e held).later clock
  · intro c member
    exact (inv.checks c member).later clock

theorem Inv.goOn {s : State} (inv : Inv V s) {n : Nat} {c : Check} (sound : c.Sound V s.world.now) :
    Inv V (s.goOn n c) := by
  refine ⟨inv.entries, ?_⟩
  intro d member
  rcases List.mem_or_eq_of_mem_set member with old | rfl
  · exact inv.checks d old
  · exact sound

theorem judged_sound {held : Option CacheEntry}
    (sound : Check.Sound V now ⟨server, subject, .looked held⟩) :
    Check.Sound V now ⟨server, subject, judged now held⟩ := by
  cases held with
  | none => trivial
  | some e =>
    by_cases expired : e.expireAt < now
    · rw [judged, if_pos expired]
      trivial
    · obtain ⟨made, before, has, expires⟩ := sound e rfl (Nat.le_of_not_lt expired)
      rw [judged, if_neg expired]
      exact ⟨made, before, has, expires ▸ Nat.le_of_not_lt expired⟩

theorem step_inv {s t : State} {a : Action} (current : V s) (inv : Inv V s) (taken : step s a = some t) :
    Inv V t := by
  cases step_effect taken with
  | world redis =>
    have frame := perform_frame s.world redis
    exact inv.world frame.1 frame.2
  | @looked server subject =>
    refine ⟨inv.entries, ?_⟩
    intro c member
    rcases List.mem_append.mp member with old | new
    · exact inv.checks c old
    · cases List.mem_singleton.mp new
      exact inv.entries server subject
  | judged held => exact inv.goOn (judged_sound (inv.checks _ (List.mem_of_getElem? held)))
  | failed held => exact inv.goOn trivial
  | read held => exact inv.goOn ⟨Nat.le_refl _, s, current, rfl, rfl⟩
  | @set n server subject value since held =>
    have member := List.mem_of_getElem? held
    obtain ⟨before, u, visited, rfl, said⟩ := inv.checks _ member
    have made : Made V server subject value s.world.now := ⟨u, s, visited, current, said, rfl, before, member⟩
    have written : Inv V ⟨setEntry s.world server subject value, s.checks⟩ := by
      refine ⟨?_, inv.checks⟩
      intro other x e found
      by_cases own : other = server ∧ x = subject
      · obtain ⟨rfl, rfl⟩ := own
        rw [setEntry_same] at found
        cases Option.some.inj found
        exact fun _ => ⟨s.world.now, Nat.le_refl _, made, rfl⟩
      · rw [setEntry_other _ _ own] at found
        exact inv.entries other x e found
    exact written.goOn ⟨s.world.now, Nat.le_refl _, made, Nat.le_add_right _ _⟩

theorem run_inv {s t : State} {as : List Action} (start : CachedChecks.Unprimed s.world) (idle : s.checks = [])
    (taken : run step s as = some t) : Inv (Visited step s as) t := by
  refine run_visited Inv ?_ ?_ ?_ taken
  · intro V W u more inv
    exact ⟨fun server subject e held => (inv.entries server subject e held).grows more,
      fun c member => (inv.checks c member).grows more⟩
  · intro V u a v current _ inv moved
    exact step_inv current inv moved
  · constructor
    · intro server subject e held counts
      refine absurd (start server subject.key e ?_) (Nat.not_lt.mpr counts)
      cases subject with
      | ban uid => exact Or.inl held
      | avail channelType => exact Or.inr held
    · rw [idle]
      intro c none
      contradiction

/-- However checks, bans and the clock are mixed: if no check takes longer than `delay` from its
read of Redis to its entry in the cache, what a check returns is what Redis held at some moment of
the last five seconds and `delay`, or its read of Redis failed. -/
theorem answers_recent (s₀ s : State) (as : List Action) (start : CachedChecks.Unprimed s₀.world)
    (idle : s₀.checks = []) (taken : run step s₀ as = some s) (delay : Nat)
    (prompt : ∀ u, Visited step s₀ as u → ∀ c ∈ u.checks, c.waited u.world.now ≤ delay) :
    ∀ c ∈ s.checks, ∀ answer, c.answer = some answer →
      (∃ moment u, c.phase = .returned answer moment ∧ Visited step s₀ as u ∧ u.world.now ≤ moment ∧
        moment ≤ u.world.now + (5000 + delay) ∧ c.subject.read u.world = answer) ∨
      ∃ moment, c.phase = .failed moment ∧ answer = c.subject.failOpen := by
  intro c member answer returned
  have sound := (run_inv start idle taken).checks c member
  obtain ⟨server, subject, phase⟩ := c
  cases phase with
  | returned value moment =>
    cases Option.some.inj returned
    obtain ⟨made, before, ⟨u, w, visited, visited', said, clock, order, held⟩, late⟩ := sound
    have delayed : w.world.now - u.world.now ≤ delay := prompt w visited' _ held
    have ttl : LocalCache.ttl = 5000 := rfl
    refine Or.inl ⟨moment, u, rfl, visited, by omega, by omega, said⟩
  | failed moment =>
    cases Option.some.inj returned
    exact Or.inr ⟨moment, rfl, rfl⟩
  | _ => contradiction

/- A check that is overtaken by the ban and by a check that sees the ban. It then puts what it has
read into the cache, where the third check finds it five seconds later. -/
def overtaken : List Action :=
  [.look 0 (.ban 7), .judge 0, .read 0 false, .world (.hsetBan 7 "spam" 90000), .world (.expireBan 7 90),
    .look 0 (.ban 7), .judge 1, .read 1 false, .set 1, .world (.tick 100), .set 0, .world (.tick 5000),
    .look 0 (.ban 7), .judge 2]

theorem answers_recent_overtaken : ∃ s, run step ⟨CachedChecks.opened, []⟩ overtaken = some s ∧
    s.checks = [⟨0, .ban 7, .returned false 100⟩, ⟨0, .ban 7, .returned true 0⟩, ⟨0, .ban 7, .returned false 5100⟩] ∧
    ∃ u, Visited step ⟨CachedChecks.opened, []⟩ overtaken u ∧ u.world.now ≤ 5100 ∧
      5100 ≤ u.world.now + (5000 + 100) ∧ u.world.banned 7 = false := by
  have view : (run step ⟨CachedChecks.opened, []⟩ overtaken).map State.checks =
      some [⟨0, .ban 7, .returned false 100⟩, ⟨0, .ban 7, .returned true 0⟩, ⟨0, .ban 7, .returned false 5100⟩] := by
    decide +kernel
  obtain ⟨s, taken, checks⟩ := Option.map_eq_some_iff.mp view
  have prompt : ∀ u, Visited step ⟨CachedChecks.opened, []⟩ overtaken u → ∀ c ∈ u.checks,
      c.waited u.world.now ≤ 100 := by
    rintro u ⟨before, part, reached⟩
    have all : (overtaken.inits.filterMap (run step ⟨CachedChecks.opened, []⟩)).all
        (fun u => decide (∀ c ∈ u.checks, c.waited u.world.now ≤ 100)) = true := by decide +kernel
    exact of_decide_eq_true (List.all_eq_true.mp all u
      (List.mem_filterMap.mpr ⟨before, (List.mem_inits before overtaken).mpr part, reached⟩))
  have recent := answers_recent ⟨CachedChecks.opened, []⟩ s overtaken CachedChecks.opened_unprimed rfl taken 100 prompt
    ⟨0, .ban 7, .returned false 5100⟩ (by simp [checks]) false rfl
  refine ⟨s, taken, checks, ?_⟩
  rcases recent with ⟨moment, u, same, visited, before, late, said⟩ | ⟨moment, same, _⟩
  · cases same
    exact ⟨u, visited, before, late, said⟩
  · contradiction

end Recent

section InTurn

def Subject.action (server : Nat) (fails : Bool) : Subject → CachedChecks.Action
  | ban uid => .checkBan server uid fails
  | avail channelType => .checkAvail server channelType fails

def Subject.cached (world : CachedChecks.State) (server : Nat) (fails : Bool) (subject : Subject) : Bool × LocalCache :=
  checkCached (subject.cache (world.caches server)) world.now subject.key
    (if fails then none else some (subject.read world)) subject.failOpen

theorem perform_action (world : CachedChecks.State) (server : Nat) (fails : Bool) (subject : Subject) :
    CachedChecks.perform world (subject.action server fails) =
      world.setCaches server (subject.setCache (world.caches server) (subject.cached world server fails).2) := by
  cases subject <;> rfl

theorem setCache_self (subject : Subject) (caches : Caches) :
    subject.setCache caches (subject.cache caches) = caches := by
  cases subject <;> rfl

theorem perform_unwritten {world : CachedChecks.State} {server : Nat} {fails : Bool} {subject : Subject}
    (same : (subject.cached world server fails).2 = subject.cache (world.caches server)) :
    CachedChecks.perform world (subject.action server fails) = world := by
  rw [perform_action, same, setCache_self]
  simp [CachedChecks.State.setCaches]

section Last

variable (world : CachedChecks.State) (checks : List Check) (server : Nat) (subject : Subject)

theorem goOn_last (c d : Check) : State.goOn ⟨world, checks ++ [c]⟩ checks.length d = ⟨world, checks ++ [d]⟩ := by
  simp [State.goOn]

theorem judge_last (e : Option CacheEntry) :
    step ⟨world, checks ++ [⟨server, subject, .looked e⟩]⟩ (.judge checks.length) =
      some ⟨world, checks ++ [⟨server, subject, judged world.now e⟩]⟩ := by
  simp only [step, List.getElem?_concat_length, goOn_last]

theorem fail_last : step ⟨world, checks ++ [⟨server, subject, .asking⟩]⟩ (.read checks.length true) =
    some ⟨world, checks ++ [⟨server, subject, .failed world.now⟩]⟩ := by
  simp only [step, List.getElem?_concat_length, goOn_last, if_true]

theorem read_last : step ⟨world, checks ++ [⟨server, subject, .asking⟩]⟩ (.read checks.length false) =
    some ⟨world, checks ++ [⟨server, subject, .read (subject.read world) world.now⟩]⟩ := by
  simp only [step, List.getElem?_concat_length, goOn_last, Bool.false_eq_true, if_false]

theorem set_last (value : Bool) (since : Nat) :
    step ⟨world, checks ++ [⟨server, subject, .read value since⟩]⟩ (.set checks.length) =
      some ⟨setEntry world server subject value, checks ++ [⟨server, subject, .returned value world.now⟩]⟩ := by
  simp only [step, List.getElem?_concat_length, goOn_last]

end Last

theorem judged_hit {cache : LocalCache} {now : Nat} {key : String} {value : Bool}
    (hit : cache.get now key = some value) : judged now (cache.entries key) = .returned value now := by
  unfold LocalCache.get at hit
  cases held : cache.entries key with
  | none => simp [held] at hit
  | some e =>
    simp only [held] at hit
    split at hit
    · contradiction
    · rename_i counts
      cases Option.some.inj hit
      rw [judged, if_neg counts]

theorem judged_miss {cache : LocalCache} {now : Nat} {key : String} (miss : cache.get now key = none) :
    judged now (cache.entries key) = .asking := by
  unfold LocalCache.get at miss
  cases held : cache.entries key with
  | none => rfl
  | some e =>
    simp only [held] at miss
    split at miss
    · rename_i expired
      rw [judged, if_pos expired]
    · contradiction

/-- The steps of a check with nothing between them are the call. -/
theorem check_alone (s : State) (server : Nat) (fails : Bool) (subject : Subject) :
    ∃ as c, run step s as = some ⟨CachedChecks.perform s.world (subject.action server fails), s.checks ++ [c]⟩ ∧
      c.answer = some (subject.cached s.world server fails).1 := by
  obtain ⟨world, checks⟩ := s
  have begins : ∀ as, run step ⟨world, checks⟩ (.look server subject :: .judge checks.length :: as) =
      run step ⟨world, checks ++ [⟨server, subject, judged world.now (entry world server subject)⟩]⟩ as := by
    intro as
    change (step ⟨world, checks ++ [⟨server, subject, .looked _⟩]⟩ _).bind _ = _
    rw [judge_last]
    rfl
  cases looked : (subject.cache (world.caches server)).get world.now subject.key with
  | some value =>
    have cached : subject.cached world server fails = (value, subject.cache (world.caches server)) := by
      simp only [Subject.cached, checkCached, looked]
    refine ⟨[.look server subject, .judge checks.length], ⟨server, subject, .returned value world.now⟩, ?_, ?_⟩
    · rw [begins, entry, judged_hit looked, perform_unwritten (congrArg Prod.snd cached)]
      rfl
    · rw [cached]
      rfl
  | none =>
    have asks := judged_miss looked
    cases fails with
    | true =>
      have cached : subject.cached world server true = (subject.failOpen, subject.cache (world.caches server)) := by
        simp only [Subject.cached, checkCached, looked, if_true]
      refine ⟨[.look server subject, .judge checks.length, .read checks.length true],
        ⟨server, subject, .failed world.now⟩, ?_, ?_⟩
      · rw [begins, entry, asks, run_cons_some, perform_unwritten (congrArg Prod.snd cached)]
        exact ⟨_, fail_last world checks server subject, rfl⟩
      · rw [cached]
        rfl
    | false =>
      have cached : subject.cached world server false = (subject.read world,
          (subject.cache (world.caches server)).set world.now subject.key (subject.read world)) := by
        simp [Subject.cached, checkCached, looked]
      refine ⟨[.look server subject, .judge checks.length, .read checks.length false, .set checks.length],
        ⟨server, subject, .returned (subject.read world) world.now⟩, ?_, ?_⟩
      · rw [begins, entry, asks, run_cons_some]
        refine ⟨_, read_last world checks server subject, run_cons_some.mpr ⟨_, set_last world checks _ _ _ _, ?_⟩⟩
        rw [perform_action, cached]
        rfl
      · rw [cached]
        rfl

/-- Every run of `CachedChecks` is a run in which each check is done in one go. -/
theorem checks_in_turn {world world' : CachedChecks.State} {bs : List CachedChecks.Action}
    (taken : run CachedChecks.step world bs = some world') (checks : List Check) :
    ∃ as s, run step ⟨world, checks⟩ as = some s ∧ s.world = world' := by
  refine run_simulates (fun world (s : State) => s.world = world) ?_ rfl taken
  rintro world b world' s rfl moved
  cases Option.some.inj moved
  have alone : ∀ server fails subject, b = Subject.action server fails subject →
      ∃ as s', run step s as = some s' ∧ s'.world = CachedChecks.perform s.world b := by
    rintro server fails subject rfl
    obtain ⟨as, c, reached, _⟩ := check_alone s server fails subject
    exact ⟨as, _, reached, rfl⟩
  have redis : isCheck b = false →
      ∃ as s', run step s as = some s' ∧ s'.world = CachedChecks.perform s.world b := by
    intro redis
    refine ⟨[.world b], ⟨CachedChecks.perform s.world b, s.checks⟩, ?_, rfl⟩
    simp [run, step, redis]
  cases b with
  | checkBan server uid fails => exact alone server fails (.ban uid) rfl
  | checkAvail server channelType fails => exact alone server fails (.avail channelType) rfl
  | _ => exact redis rfl

end InTurn

end GameIM.Service.CheckSteps
