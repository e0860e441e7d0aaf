import Mathlib.Data.List.Basic
import Mathlib.Logic.Function.Basic
import GameIM.Lib.Machine

/-! LocalBus of internal/bus/local.go. Each operation runs under the lock; Publish copies
the entries of its topic and starts their handlers, each in its own goroutine. An
unsubscribe function holds on to its topic and its id and looks the entry up when it is
called. -/
namespace GameIM.Bus
open Lib

structure Entry (H : Type) where
  id : Nat
  handler : H

structure LocalBus (T H : Type) where
  subs : T → List (Entry H)
  nextID : Nat

variable {T H M : Type} [DecidableEq T]

def newLocalBus : LocalBus T H := ⟨fun _ => [], 0⟩

def LocalBus.subscribe (b : LocalBus T H) (topic : T) (handler : H) : LocalBus T H :=
  let id := b.nextID + 1
  ⟨Function.update b.subs topic (b.subs topic ++ [⟨id, handler⟩]), id⟩

/- The handlers that Publish starts, each in its own goroutine. -/
def LocalBus.publish (b : LocalBus T H) (topic : T) : List H := (b.subs topic).map Entry.handler

/- What the closure that Subscribe returns has captured. -/
structure Unsubscribe (T : Type) where
  topic : T
  id : Nat
  deriving DecidableEq, Repr

def splice (entries : List (Entry H)) (id : Nat) : List (Entry H) :=
  match entries.findIdx? (·.id = id) with
  | none => entries
  | some i => entries.take i ++ entries.drop (i + 1)

def LocalBus.unsubscribe (b : LocalBus T H) (u : Unsubscribe T) : LocalBus T H :=
  { b with subs := Function.update b.subs u.topic (splice (b.subs u.topic) u.id) }

structure Invocation (T H M : Type) where
  handler : H
  topic : T
  msg : M
  deriving DecidableEq, Repr

inductive Op (T H M : Type) where
  | subscribe (topic : T) (handler : H)
  | unsubscribe (n : Nat)
  | publish (topic : T) (msg : M)
  deriving DecidableEq, Repr

/-- `handles` are the unsubscribe functions that the calls of Subscribe returned, in order,
and `started` the handler invocations of all calls of Publish. -/
structure State (T H M : Type) where
  bus : LocalBus T H
  handles : List (Unsubscribe T)
  started : List (Invocation T H M)

def start : State T H M := ⟨newLocalBus, [], []⟩

def step (s : State T H M) : Op T H M → Option (State T H M)
  | .subscribe topic handler => some { s with
      bus := s.bus.subscribe topic handler
      handles := s.handles ++ [⟨topic, s.bus.nextID + 1⟩] }
  | .unsubscribe n => match s.handles[n]? with
    | none => none
    | some u => some { s with bus := s.bus.unsubscribe u }
  | .publish topic msg => some { s with
      started := s.started ++ (s.bus.publish topic).map (⟨·, topic, msg⟩) }

def Op.subscription : Op T H M → Option (T × H)
  | .subscribe topic handler => some (topic, handler)
  | _ => none

def Op.ends (n : Nat) : Op T H M → Bool
  | .unsubscribe m => m = n
  | _ => false

/-- The subscriptions that were made, in order. -/
def subscriptions (ops : List (Op T H M)) : List (T × H) := ops.filterMap Op.subscription

/-- The unsubscribe function of the n-th subscription was called. -/
def unsubscribed (ops : List (Op T H M)) (n : Nat) : Bool := ops.any (Op.ends n)

/-- The subscriptions of exactly this topic that were made and not ended, with their numbers. -/
def standing (ops : List (Op T H M)) (topic : T) : List ((T × H) × Nat) :=
  (subscriptions ops).zipIdx.filter fun s => decide (s.1.1 = topic) && !unsubscribed ops s.2

section Splice

theorem splice_filter {entries : List (Entry H)} (distinct : entries.Pairwise (·.id ≠ ·.id)) (id : Nat) :
    splice entries id = entries.filter (·.id ≠ id) := by
  unfold splice
  induction entries with
  | nil => rfl
  | cons e rest ih =>
    obtain ⟨apart, tail⟩ := List.pairwise_cons.mp distinct
    by_cases here : e.id = id
    · have others : rest.filter (·.id ≠ id) = rest := by
        apply List.filter_eq_self.mpr
        intro f member
        simpa [here] using Ne.symm (here ▸ apart f member)
      simp only [List.findIdx?_cons, here, decide_true, if_true, List.take_zero, List.drop_succ_cons,
        List.drop_zero, List.nil_append, List.filter_cons, ne_eq, not_true_eq_false, decide_false,
        Bool.false_eq_true, if_false]
      exact others.symm
    · have later := ih tail
      simp only [List.findIdx?_cons, here, decide_false, Bool.false_eq_true, if_false, List.filter_cons,
        ne_eq, not_false_eq_true, decide_true, if_true, ← later]
      cases rest.findIdx? (·.id = id) with
      | none => rfl
      | some i => rfl

end Splice

section History

variable (ops : List (Op T H M)) (topic : T)

def entries : List (Entry H) := (standing ops topic).map fun s => ⟨s.2 + 1, s.1.2⟩

theorem standing_distinct : (standing ops topic).Pairwise (·.2 ≠ ·.2) := by
  apply List.Pairwise.filter
  have places : ((subscriptions ops).zipIdx.map Prod.snd).Nodup := by
    rw [List.zipIdx_map_snd]
    exact List.nodup_range'
  exact List.pairwise_map.mp places

theorem mem_standing {s : (T × H) × Nat} (member : s ∈ standing ops topic) :
    (subscriptions ops)[s.2]? = some s.1 ∧ s.1.1 = topic ∧ unsubscribed ops s.2 = false := by
  obtain ⟨place, here⟩ := List.mem_filter.mp member
  simp only [Bool.and_eq_true, decide_eq_true_eq, Bool.not_eq_true'] at here
  exact ⟨List.mem_zipIdx_iff_getElem?.mp place, here⟩

theorem entries_distinct : (entries ops topic).Pairwise (·.id ≠ ·.id) := by
  apply List.pairwise_map.mpr
  refine (standing_distinct ops topic).imp ?_
  intro s t apart same
  exact apart (Nat.succ.inj same)

theorem standing_subscribe {ops : List (Op T H M)} (known : ∀ n, unsubscribed ops n = true →
      n < (subscriptions ops).length) (t : T) (handler : H) :
    standing (ops ++ [.subscribe t handler]) topic = standing ops topic ++
      if t = topic then [((t, handler), (subscriptions ops).length)] else [] := by
  have made : subscriptions (ops ++ [.subscribe t handler]) = subscriptions ops ++ [(t, handler)] := by
    simp [subscriptions, Op.subscription]
  have same : unsubscribed (ops ++ [.subscribe t handler]) = unsubscribed ops := by
    funext n
    simp [unsubscribed, Op.ends]
  have new : unsubscribed ops (subscriptions ops).length = false := by
    cases ended : unsubscribed ops (subscriptions ops).length with
    | false => rfl
    | true => exact absurd (known _ ended) (Nat.lt_irrefl _)
  simp only [standing, made, same, List.zipIdx_append, List.filter_append, List.zipIdx_singleton]
  by_cases here : t = topic
  · simp [here, new]
  · simp [here]

theorem standing_unsubscribe (n : Nat) :
    standing (ops ++ [.unsubscribe n]) topic = (standing ops topic).filter (·.2 ≠ n) := by
  have made : subscriptions (ops ++ [.unsubscribe n]) = subscriptions ops := by
    simp [subscriptions, Op.subscription]
  simp only [standing, made, List.filter_filter]
  apply List.filter_congr
  intro s _
  by_cases here : s.2 = n
  · simp [unsubscribed, Op.ends, here]
  · simp [unsubscribed, Op.ends, here, Ne.symm here]

theorem entries_unsubscribe (n : Nat) :
    entries (ops ++ [.unsubscribe n]) topic = (entries ops topic).filter (·.id ≠ n + 1) := by
  simp only [entries, standing_unsubscribe, List.filter_map]
  congr 1
  apply List.filter_congr
  intro s _
  simp

theorem standing_publish (t : T) (msg : M) :
    standing (ops ++ [.publish t msg]) topic = standing ops topic := by
  have made : subscriptions (ops ++ [.publish t msg]) = subscriptions ops := by
    simp [subscriptions, Op.subscription]
  have same : unsubscribed (ops ++ [.publish t msg]) = unsubscribed ops := by
    funext n
    simp [unsubscribed, Op.ends]
  simp only [standing, made, same]

end History

/- The bus holds the subscriptions that stand, each under the id that its number gives. -/
structure Inv (ops : List (Op T H M)) (s : State T H M) : Prop where
  nextID : s.bus.nextID = (subscriptions ops).length
  handles : s.handles = (subscriptions ops).zipIdx.map fun n => ⟨n.1.1, n.2 + 1⟩
  subs : ∀ topic, s.bus.subs topic = entries ops topic
  known : ∀ n, unsubscribed ops n = true → n < (subscriptions ops).length

section Inv

variable {ops : List (Op T H M)} {s t : State T H M}

theorem start_inv : Inv [] (start : State T H M) := by
  constructor
  · rfl
  · rfl
  · intro topic
    rfl
  · intro n ended
    contradiction

theorem Inv.handle (inv : Inv ops s) {n : Nat} {u : Unsubscribe T} (held : s.handles[n]? = some u) :
    ∃ handler, (subscriptions ops)[n]? = some (u.topic, handler) ∧ u.id = n + 1 := by
  rw [inv.handles, List.getElem?_map, List.getElem?_zipIdx] at held
  obtain ⟨⟨⟨topic, handler⟩, m⟩, found, rfl⟩ := Option.map_eq_some_iff.mp held
  obtain ⟨_, made, same⟩ := Option.map_eq_some_iff.mp found
  cases same
  exact ⟨handler, made, by simp⟩

theorem Inv.held (inv : Inv ops s) {n : Nat} (bound : n < (subscriptions ops).length) :
    ∃ u, s.handles[n]? = some u := by
  have length : n < s.handles.length := by
    rw [inv.handles, List.length_map, List.length_zipIdx]
    exact bound
  exact ⟨_, List.getElem?_eq_getElem length⟩

theorem entries_without {topic : T} {n : Nat} (absent : ∀ p ∈ standing ops topic, p.2 ≠ n) :
    (entries ops topic).filter (·.id ≠ n + 1) = entries ops topic := by
  apply List.filter_eq_self.mpr
  intro e member
  obtain ⟨p, stands, rfl⟩ := List.mem_map.mp member
  simpa using absent p stands

theorem Inv.unsubscribe_subs (inv : Inv ops s) {n : Nat} {u : Unsubscribe T}
    (held : s.handles[n]? = some u) (topic : T) :
    (s.bus.unsubscribe u).subs topic = (entries ops topic).filter (·.id ≠ n + 1) := by
  obtain ⟨handler, made, id⟩ := inv.handle held
  simp only [LocalBus.unsubscribe]
  by_cases here : topic = u.topic
  · subst here
    rw [Function.update_self, inv.subs, id, splice_filter (entries_distinct ops u.topic)]
  · rw [Function.update_of_ne here, inv.subs, entries_without]
    intro p stands same
    obtain ⟨own, topical, _⟩ := mem_standing ops topic stands
    rw [same, made] at own
    rw [← Option.some.inj own] at topical
    exact here topical.symm

theorem subscribe_inv (inv : Inv ops s) (topic : T) (handler : H) :
    Inv (ops ++ [.subscribe topic handler]) { s with
      bus := s.bus.subscribe topic handler
      handles := s.handles ++ [⟨topic, s.bus.nextID + 1⟩] } := by
  have made : subscriptions (ops ++ [.subscribe topic handler]) = subscriptions ops ++ [(topic, handler)] := by
    simp [subscriptions, Op.subscription]
  constructor
  · simp [LocalBus.subscribe, inv.nextID, made]
  · simp [inv.handles, inv.nextID, made, List.zipIdx_append]
  · intro other
    simp only [LocalBus.subscribe, entries, standing_subscribe other inv.known, List.map_append]
    by_cases here : other = topic
    · subst here
      simp [inv.subs, inv.nextID, entries]
    · simp [Function.update_of_ne here, inv.subs, entries, Ne.symm here]
  · intro n ended
    have before : unsubscribed ops n = true := by
      simpa [unsubscribed, Op.ends] using ended
    have bound := inv.known n before
    rw [made, List.length_append]
    omega

theorem unsubscribe_inv (inv : Inv ops s) {n : Nat} {u : Unsubscribe T}
    (held : s.handles[n]? = some u) :
    Inv (ops ++ [.unsubscribe n]) { s with bus := s.bus.unsubscribe u } := by
  have made : subscriptions (ops ++ [.unsubscribe n]) = subscriptions ops := by
    simp [subscriptions, Op.subscription]
  constructor
  · rw [made]
    exact inv.nextID
  · rw [made]
    exact inv.handles
  · intro topic
    rw [entries_unsubscribe]
    exact inv.unsubscribe_subs held topic
  · intro m ended
    rw [made]
    by_cases here : m = n
    · obtain ⟨handler, place, _⟩ := inv.handle held
      rw [here]
      exact (List.getElem?_eq_some_iff.mp place).1
    · apply inv.known m
      simpa [unsubscribed, Op.ends, Ne.symm here] using ended

theorem publish_inv (inv : Inv ops s) (topic : T) (msg : M) (started : List (Invocation T H M)) :
    Inv (ops ++ [.publish topic msg]) { s with started := started } := by
  have made : subscriptions (ops ++ [.publish topic msg]) = subscriptions ops := by
    simp [subscriptions, Op.subscription]
  constructor
  · rw [made]
    exact inv.nextID
  · rw [made]
    exact inv.handles
  · intro other
    simp only [entries, standing_publish]
    exact inv.subs other
  · intro n ended
    rw [made]
    apply inv.known n
    simpa [unsubscribed, Op.ends] using ended

theorem step_inv {op : Op T H M} (inv : Inv ops s) (taken : step s op = some t) : Inv (ops ++ [op]) t := by
  cases op with
  | subscribe topic handler =>
    cases Option.some.inj taken
    exact subscribe_inv inv topic handler
  | unsubscribe n =>
    simp only [step] at taken
    split at taken
    · contradiction
    · rename_i u held
      cases Option.some.inj taken
      exact unsubscribe_inv inv held
  | publish topic msg =>
    cases Option.some.inj taken
    exact publish_inv inv topic msg _

theorem run_inv (taken : run step start ops = some s) : Inv ops s :=
  run_history Inv start_inv (fun _ _ _ _ _ inv last => step_inv inv last) taken

theorem Inv.publish (inv : Inv ops s) (topic : T) :
    s.bus.publish topic = (standing ops topic).map fun n => n.1.2 := by
  simp [LocalBus.publish, inv.subs, entries]

theorem Inv.unsubscribe_again (inv : Inv ops s) {n : Nat} (ended : unsubscribed ops n = true) :
    step s (.unsubscribe n) = some s := by
  obtain ⟨u, held⟩ := inv.held (inv.known n ended)
  have same : (s.bus.unsubscribe u).subs = s.bus.subs := by
    funext topic
    rw [inv.unsubscribe_subs held, inv.subs, entries_without]
    intro p stands here
    obtain ⟨_, _, live⟩ := mem_standing ops topic stands
    rw [here, ended] at live
    contradiction
  have whole : s.bus.unsubscribe u = s.bus := congrArg (LocalBus.mk · s.bus.nextID) same
  simp only [step, held, whole]

end Inv

/-- After any operations, a Publish starts exactly one invocation with its message for each
standing subscription of its topic; an unsubscribe function ends its own subscription and
leaves the others of every topic; and to call it again changes nothing. -/
theorem publish_starts_standing {ops : List (Op T H M)} {s : State T H M}
    (taken : run step start ops = some s) :
    (∀ topic msg, ∃ t, step s (.publish topic msg) = some t ∧ t.bus = s.bus ∧
      t.started = s.started ++ (standing ops topic).map fun n => ⟨n.1.2, topic, msg⟩) ∧
    (∀ n < (subscriptions ops).length, ∃ t, step s (.unsubscribe n) = some t ∧ t.started = s.started ∧
      ∀ topic, t.bus.publish topic = ((standing ops topic).filter (·.2 ≠ n)).map fun n => n.1.2) ∧
    ∀ n, unsubscribed ops n = true → step s (.unsubscribe n) = some s := by
  have inv := run_inv taken
  refine ⟨?_, ?_, fun n ended => inv.unsubscribe_again ended⟩
  · intro topic msg
    refine ⟨_, rfl, rfl, ?_⟩
    simp [inv.publish]
  · intro n bound
    obtain ⟨u, held⟩ := inv.held bound
    have after : step s (.unsubscribe n) = some { s with bus := s.bus.unsubscribe u } := by
      simp only [step, held]
    refine ⟨_, after, rfl, ?_⟩
    intro topic
    rw [(step_inv inv after).publish, standing_unsubscribe]

/- Two handlers on one topic and one on another; the first of them is ended twice. -/
def endedTwice : List (Op String Nat Nat) :=
  [.subscribe "world" 10, .subscribe "system" 20, .subscribe "world" 10, .unsubscribe 0,
    .subscribe "world" 30, .unsubscribe 0]

theorem publish_starts_endedTwice :
    ∃ s t, run step start endedTwice = some s ∧ step s (.publish "world" 7) = some t ∧
      t.started = [⟨10, "world", 7⟩, ⟨30, "world", 7⟩] ∧ step s (.unsubscribe 0) = some s := by
  have ran : (run step start endedTwice).isSome := by decide
  obtain ⟨s, taken⟩ := Option.isSome_iff_exists.mp ran
  have published := publish_starts_standing taken
  obtain ⟨t, after, _, started⟩ := published.1 "world" 7
  have before : s.started = [] := by
    have view : (run step start endedTwice).map State.started = some [] := by decide
    rw [taken] at view
    exact Option.some.inj view
  have stands : standing endedTwice "world" = [(("world", 10), 2), (("world", 30), 3)] := by decide
  rw [before, stands] at started
  exact ⟨s, t, taken, after, started, published.2.2 0 (by decide)⟩

end GameIM.Bus
