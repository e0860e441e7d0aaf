import Mathlib.Data.List.Forall2
import Mathlib.Logic.Function.Basic
import GameIM.Lib.Machine

/-! Clients of a keyed store. A command reads and writes the value under one key; a script is
a run of commands that the store takes as one step. A call sends a batch of scripts and reads
its result off the replies. The scripts of several calls may be mixed, a batch may be sent
again before it is answered, and a call may give up. Nothing here is about a particular
store. -/
namespace GameIM.Lib.Keyed

variable {K C A V R O E : Type}

/-- Commands of which each may depend on the replies before. -/
inductive Script (K C A : Type) where
  | ret (a : A)
  | call (key : K) (c : C) (next : A → Script K C A)

namespace Script

/-- What the script can send, whatever it is replied. -/
def On (sends : K → C → Prop) : Script K C A → Prop
  | ret _ => True
  | call key c next => sends key c ∧ ∀ a, (next a).On sends

/-- What the script can return when the replies are as allowed. -/
inductive Yields (allowed : K → C → A → Prop) : Script K C A → A → Prop where
  | ret (a : A) : Yields allowed (.ret a) a
  | call {key : K} {c : C} {next : A → Script K C A} {a b : A} :
      allowed key c a → Yields allowed (next a) b → Yields allowed (.call key c next) b

theorem On.imp {P Q : K → C → Prop} {script : Script K C A} (on : script.On P)
    (implies : ∀ key c, P key c → Q key c) : script.On Q := by
  induction script with
  | ret a => trivial
  | call key c next ih => exact ⟨implies key c on.1, fun a => ih a (on.2 a)⟩

variable [DecidableEq K]

def exec (apply : C → V → A × V) : Script K C A → (K → V) → A × (K → V)
  | ret a, store => (a, store)
  | call key c next, store =>
    let done := apply c (store key)
    (next done.1).exec apply (Function.update store key done.2)

/-- A script that does not send to the key runs alike whatever is there, and leaves it there. -/
theorem exec_update (apply : C → V → A × V) {script : Script K C A} {k : K}
    (apart : script.On fun key _ => key ≠ k) (store : K → V) (v : V) :
    script.exec apply (Function.update store k v) =
      ((script.exec apply store).1, Function.update (script.exec apply store).2 k v) := by
  induction script generalizing store with
  | ret a => rfl
  | call key c next ih =>
    simp only [exec, Function.update_of_ne apart.1]
    rw [Function.update_comm apart.1.symm, ih _ (apart.2 _)]

theorem exec_frame (apply : C → V → A × V) {script : Script K C A} {k : K}
    (apart : script.On fun key _ => key ≠ k) (store : K → V) : (script.exec apply store).2 k = store k := by
  have same := exec_update apply apart store (store k)
  rw [Function.update_eq_self] at same
  have cell := congrArg (fun done => done.2 k) same
  simpa only [Function.update_self] using cell

/-- What the commands keep of each cell, a script keeps, and its result is as their replies
allow. -/
theorem exec_cells {apply : C → V → A × V} {sends : K → C → Prop} {allowed : K → C → A → Prop}
    {Cell : K → V → Prop}
    (keeps : ∀ key c v, sends key c → Cell key v → allowed key c (apply c v).1 ∧ Cell key (apply c v).2)
    {script : Script K C A} (on : script.On sends) {store : K → V} (cells : ∀ key, Cell key (store key)) :
    script.Yields allowed (script.exec apply store).1 ∧
      ∀ key, Cell key ((script.exec apply store).2 key) := by
  induction script generalizing store with
  | ret a => exact ⟨.ret a, cells⟩
  | call key c next ih =>
    obtain ⟨reply, cell⟩ := keeps key c (store key) on.1 (cells key)
    have updated : ∀ other, Cell other (Function.update store key (apply c (store key)).2 other) := by
      intro other
      by_cases here : other = key
      · subst here
        rw [Function.update_self]
        exact cell
      · rw [Function.update_of_ne here]
        exact cells other
    obtain ⟨result, after⟩ := ih _ (on.2 _) updated
    exact ⟨.call reply result, after⟩

end Script

/-- The scripts of a call, in the order in which they are sent, and its result. -/
structure Request (K C A R : Type) where
  batch : List (Script K C A)
  read : List A → R

def Request.map {T : Type} (f : R → T) (q : Request K C A R) : Request K C A T :=
  ⟨q.batch, fun replies => f (q.read replies)⟩

/-- Nothing is sent. -/
def Request.pure (r : R) : Request K C A R := ⟨[], fun _ => r⟩

def Request.On (sends : K → C → Prop) (q : Request K C A R) : Prop := ∀ script ∈ q.batch, script.On sends

/-- `served` are the replies to the scripts that were executed since the batch was sent. -/
structure Call (O A R : Type) where
  op : O
  served : List A
  answer : Option R

structure State (K V O A R : Type) where
  now : Nat
  store : K → V
  calls : List (Call O A R)

inductive Action (O E : Type) where
  | start (op : O)
  | serve (i : Nat)
  | answer (i : Nat)
  | resend (i : Nat)
  | fail (i kept : Nat) (e : E)
  | tick (ms : Nat)
  deriving DecidableEq, Repr

/-- `lost` stands in for a reply that did not arrive. -/
structure System (K C A V R O E : Type) where
  apply : Nat → C → V → A × V
  request : O → Request K C A R
  lost : E → A

namespace State

def put [DecidableEq K] (s : State K V O A R) (k : K) (v : V) : State K V O A R :=
  { s with store := Function.update s.store k v }

def waiting (s : State K V O A R) (i : Nat) : Option (Call O A R) :=
  (s.calls[i]?).filter fun call => call.answer.isNone

def setCall (s : State K V O A R) (i : Nat) (call : Call O A R) : State K V O A R :=
  { s with calls := s.calls.set i call }

end State

theorem waiting_some {s : State K V O A R} {i : Nat} {call : Call O A R} (found : s.waiting i = some call) :
    s.calls[i]? = some call ∧ call.answer = none := by
  simpa only [State.waiting, Option.filter_eq_some_iff, Option.isNone_iff_eq_none] using found

theorem getElem?_set_cases {α : Type} {l : List α} {i k : Nat} {new x : α} (found : (l.set i new)[k]? = some x) :
    l[k]? = some x ∨ (k = i ∧ x = new) := by
  by_cases here : i = k
  · subst here
    rw [List.getElem?_set_self'] at found
    obtain ⟨old, _, same⟩ := Option.map_eq_some_iff.mp found
    exact Or.inr ⟨rfl, same.symm⟩
  · rw [List.getElem?_set_ne here] at found
    exact Or.inl found

theorem getElem?_concat_cases {α : Type} {l : List α} {k : Nat} {new x : α} (found : (l ++ [new])[k]? = some x) :
    l[k]? = some x ∨ x = new := by
  rw [List.getElem?_append] at found
  split at found
  · exact Or.inl found
  · exact Or.inr (List.mem_singleton.mp (List.mem_of_getElem? found))

/-- Every call is there, with its operation and the answer that it had. -/
def Continued (before after : List (Call O A R)) : Prop :=
  ∀ (k : Nat) (call : Call O A R), before[k]? = some call → ∃ call', after[k]? = some call' ∧ call'.op = call.op ∧
    ∀ r, call.answer = some r → call'.answer = some r

theorem setCall_continued {s : State K V O A R} {i : Nat} {old new : Call O A R} (waits : s.waiting i = some old)
    (op : new.op = old.op) : Continued s.calls (s.calls.set i new) := by
  intro k call found
  obtain ⟨here, unanswered⟩ := waiting_some waits
  by_cases same : i = k
  · subst same
    cases Option.some.inj (found.symm.trans here)
    refine ⟨new, ?_, op, ?_⟩
    · rw [List.getElem?_set_self', found]
      rfl
    · intro r answered
      cases unanswered.symm.trans answered
  · exact ⟨call, (List.getElem?_set_ne same).trans found, rfl, fun _ answered => answered⟩

/- The first replies of a batch whose connection broke, and what stands for the others. -/
def broken (sys : System K C A V R O E) (batch : List (Script K C A)) (replies : List A) (e : E) : List A :=
  replies ++ List.replicate (batch.length - replies.length) (sys.lost e)

section Good

variable (sys : System K C A V R O E) (rel : O → Nat → A → Prop)

/-- The replies that a call has are as they should be at their places, and its answer was read
off such replies, apart from those that did not arrive. -/
structure Call.Good (call : Call O A R) : Prop where
  few : call.served.length ≤ (sys.request call.op).batch.length
  served : ∀ j a, call.served[j]? = some a → rel call.op j a
  answered : ∀ r, call.answer = some r → ∃ replies, r = (sys.request call.op).read replies ∧
    replies.length = (sys.request call.op).batch.length ∧
    ∀ j a, replies[j]? = some a → rel call.op j a ∨ ∃ e, a = sys.lost e

/- Every call is good, and what should hold of its replies may depend on which call it is. -/
def State.Good (rel : Nat → O → Nat → A → Prop) (s : State K V O A R) : Prop :=
  ∀ (i : Nat) (call : Call O A R), s.calls[i]? = some call → call.Good sys (rel i)

theorem State.good_idle (rel : Nat → O → Nat → A → Prop) {s : State K V O A R} (idle : s.calls = []) :
    s.Good sys rel := by
  intro i call found
  rw [idle] at found
  contradiction

variable {sys rel} {call : Call O A R}

theorem Call.Good.imp {rel' : O → Nat → A → Prop} (good : call.Good sys rel)
    (implies : ∀ op j a, rel op j a → rel' op j a) : call.Good sys rel' := by
  refine ⟨good.few, fun j a here => implies _ j a (good.served j a here), ?_⟩
  intro r answer
  obtain ⟨replies, read, length, each⟩ := good.answered r answer
  exact ⟨replies, read, length, fun j a here => (each j a here).imp_left (implies _ j a)⟩

theorem Call.Good.serve (good : call.Good sys rel) {script : Script K C A} {a : A}
    (sent : (sys.request call.op).batch[call.served.length]? = some script)
    (new : rel call.op call.served.length a) : Call.Good sys rel { call with served := call.served ++ [a] } := by
  obtain ⟨within, _⟩ := List.getElem?_eq_some_iff.mp sent
  refine ⟨?_, ?_, good.answered⟩
  · rw [List.length_append, List.length_singleton]
    exact within
  · intro j b here
    rcases Nat.lt_trichotomy j call.served.length with old | rfl | beyond
    · rw [List.getElem?_append_left old] at here
      exact good.served j b here
    · rw [List.getElem?_concat_length] at here
      exact Option.some.inj here ▸ new
    · rw [List.getElem?_eq_none] at here
      · contradiction
      · rw [List.length_append, List.length_singleton]
        exact beyond

theorem Call.Good.answer (good : call.Good sys rel)
    (complete : call.served.length = (sys.request call.op).batch.length) :
    Call.Good sys rel { call with answer := some ((sys.request call.op).read call.served) } := by
  refine ⟨good.few, good.served, ?_⟩
  intro r same
  refine ⟨call.served, (Option.some.inj same).symm, complete, ?_⟩
  intro j a here
  exact Or.inl (good.served j a here)

theorem Call.Good.resend (good : call.Good sys rel) : Call.Good sys rel { call with served := [] } :=
  ⟨Nat.zero_le _, fun _ _ here => (nomatch here), good.answered⟩

theorem Call.Good.fail (good : call.Good sys rel) (kept : Nat) (e : E) :
    Call.Good sys rel { call with answer := some ((sys.request call.op).read
      (broken sys (sys.request call.op).batch (call.served.take kept) e)) } := by
  refine ⟨good.few, good.served, ?_⟩
  intro r same
  refine ⟨_, (Option.some.inj same).symm, ?_, ?_⟩
  · have few : (call.served.take kept).length ≤ (sys.request call.op).batch.length :=
      Nat.le_trans (List.length_take_le' kept call.served) good.few
    rw [broken, List.length_append, List.length_replicate]
    exact Nat.add_sub_of_le few
  · intro j a here
    rw [broken, List.getElem?_append] at here
    split at here
    · rename_i within
      rw [List.length_take] at within
      rw [List.getElem?_take_of_lt (by omega)] at here
      exact Or.inl (good.served j a here)
    · exact Or.inr ⟨e, List.eq_of_mem_replicate (List.mem_of_getElem? here)⟩

end Good

section Views

variable {I : Type} [DecidableEq K] {place : I → K} {store : K → V} {cells : I → V}

/-- The store has these cells at these places. -/
def Shows (place : I → K) (store : K → V) (cells : I → V) : Prop := ∀ i, store (place i) = cells i

theorem Shows.change (shows : Shows place store cells) (apart : Function.Injective place) (i : I) (after : I → V)
    (others : ∀ j, j ≠ i → after j = cells j) : Shows place (Function.update store (place i) (after i)) after := by
  intro j
  by_cases here : j = i
  · subst here
    rw [Function.update_self]
  · rw [Function.update_of_ne (fun same => here (apart same)), shows j, others j here]

end Views

section Machine

variable [DecidableEq K] (sys : System K C A V R O E)

def step (s : State K V O A R) : Action O E → Option (State K V O A R)
  | .start op => some { s with calls := s.calls ++ [⟨op, [], none⟩] }
  | .serve i => do
    let call ← s.waiting i
    let script ← (sys.request call.op).batch[call.served.length]?
    let done := script.exec (sys.apply s.now) s.store
    some ({ s with store := done.2 }.setCall i { call with served := call.served ++ [done.1] })
  | .answer i => do
    let call ← s.waiting i
    let request := sys.request call.op
    if call.served.length = request.batch.length then
      some (s.setCall i { call with answer := some (request.read call.served) })
    else none
  | .resend i => do
    let call ← s.waiting i
    some (s.setCall i { call with served := [] })
  | .fail i kept e => do
    let call ← s.waiting i
    let request := sys.request call.op
    some (s.setCall i
      { call with answer := some (request.read (broken sys request.batch (call.served.take kept) e)) })
  | .tick ms => some { s with now := s.now + ms }

/-- The step is not that of a call that can send to the key. -/
def Apart (k : K) (s : State K V O A R) : Action O E → Prop
  | .serve i => ∀ call ∈ s.calls[i]?, (sys.request call.op).On fun key _ => key ≠ k
  | _ => True

variable {sys}

theorem step_put {s : State K V O A R} {a : Action O E} {k : K} (apart : Apart sys k s a) (v : V) :
    step sys (s.put k v) a = (step sys s a).map (·.put k v) := by
  have same : ∀ i, (s.put k v).waiting i = s.waiting i := fun _ => rfl
  cases a with
  | start op => rfl
  | serve i =>
    simp only [step, same]
    cases found : s.waiting i with
    | none => rfl
    | some call =>
      simp only [Option.bind_eq_bind, Option.bind_some]
      cases sent : (sys.request call.op).batch[call.served.length]? with
      | none => rfl
      | some script =>
        have on := apart call (waiting_some found).1 script (List.mem_of_getElem? sent)
        have moved := Script.exec_update (sys.apply s.now) on s.store v
        simp only [Option.bind_some, Option.map_some, State.put, State.setCall, moved]
  | answer i =>
    simp only [step, same]
    cases s.waiting i with
    | none => rfl
    | some call =>
      simp only [Option.bind_eq_bind, Option.bind_some]
      split <;> rfl
  | resend i =>
    simp only [step, same]
    cases s.waiting i <;> rfl
  | fail i kept e =>
    simp only [step, same]
    cases s.waiting i <;> rfl
  | tick ms => rfl

/-- A run of calls that do not send to the key is the same run whatever is there. -/
theorem run_put {s : State K V O A R} {as : List (Action O E)} {k : K}
    (apart : Meets (step sys) (Apart sys k) s as) (v : V) :
    run (step sys) (s.put k v) as = (run (step sys) s as).map (·.put k v) := by
  induction as generalizing s with
  | nil => rfl
  | cons a rest ih =>
    simp only [run, step_put apart.1]
    cases taken : step sys s a with
    | none => rfl
    | some t => exact ih ((meets_cons taken).mp apart).2

theorem run_store {s t : State K V O A R} {as : List (Action O E)} {k : K}
    (apart : Meets (step sys) (Apart sys k) s as) (taken : run (step sys) s as = some t) :
    t.store k = s.store k := by
  have same := run_put apart (s.store k)
  have unchanged : s.put k (s.store k) = s := by
    simp only [State.put, Function.update_eq_self]
  rw [unchanged, taken, Option.map_some] at same
  have cell := congrArg (fun u => State.store u k) (Option.some.inj same)
  simpa only [State.put, Function.update_self] using cell

inductive Effect (sys : System K C A V R O E) (s : State K V O A R) : Action O E → State K V O A R → Prop where
  | start {op} : Effect sys s (.start op) { s with calls := s.calls ++ [⟨op, [], none⟩] }
  | serve {i call script} : s.waiting i = some call →
      (sys.request call.op).batch[call.served.length]? = some script →
      Effect sys s (.serve i)
        ({ s with store := (script.exec (sys.apply s.now) s.store).2 }.setCall i
          { call with served := call.served ++ [(script.exec (sys.apply s.now) s.store).1] })
  | answer {i call} : s.waiting i = some call →
      call.served.length = (sys.request call.op).batch.length →
      Effect sys s (.answer i)
        (s.setCall i { call with answer := some ((sys.request call.op).read call.served) })
  | resend {i call} : s.waiting i = some call →
      Effect sys s (.resend i) (s.setCall i { call with served := [] })
  | fail {i kept e call} : s.waiting i = some call →
      Effect sys s (.fail i kept e)
        (s.setCall i { call with answer := some ((sys.request call.op).read
          (broken sys (sys.request call.op).batch (call.served.take kept) e)) })
  | tick {ms} : Effect sys s (.tick ms) { s with now := s.now + ms }

theorem step_effect {s t : State K V O A R} {a : Action O E} (taken : step sys s a = some t) :
    Effect sys s a t := by
  cases a with
  | start op =>
    cases Option.some.inj taken
    exact .start
  | serve i =>
    simp only [step, Option.bind_eq_bind, Option.bind_eq_some_iff] at taken
    obtain ⟨call, found, script, sent, done⟩ := taken
    cases Option.some.inj done
    exact .serve found sent
  | answer i =>
    simp only [step, Option.bind_eq_bind, Option.bind_eq_some_iff] at taken
    obtain ⟨call, found, done⟩ := taken
    split at done
    · rename_i complete
      cases Option.some.inj done
      exact .answer found complete
    · contradiction
  | resend i =>
    simp only [step, Option.bind_eq_bind, Option.bind_eq_some_iff] at taken
    obtain ⟨call, found, done⟩ := taken
    cases Option.some.inj done
    exact .resend found
  | fail i kept e =>
    simp only [step, Option.bind_eq_bind, Option.bind_eq_some_iff] at taken
    obtain ⟨call, found, done⟩ := taken
    cases Option.some.inj done
    exact .fail found
  | tick ms =>
    cases Option.some.inj taken
    exact .tick

theorem step_continued {s t : State K V O A R} {a : Action O E} (taken : step sys s a = some t) :
    Continued s.calls t.calls := by
  cases step_effect taken with
  | start =>
    intro k call found
    have within := (List.getElem?_eq_some_iff.mp found).1
    exact ⟨call, (List.getElem?_append_left within).trans found, rfl, fun _ answered => answered⟩
  | serve waits => exact setCall_continued waits rfl
  | answer waits => exact setCall_continued waits rfl
  | resend waits => exact setCall_continued waits rfl
  | fail waits => exact setCall_continued waits rfl
  | tick => exact fun _ call found => ⟨call, found, rfl, fun _ answered => answered⟩

/-- What holds of the replies is kept when it holds of a new one. -/
theorem step_good {rel rel' : Nat → O → Nat → A → Prop} {s t : State K V O A R} {a : Action O E}
    (good : s.Good sys rel) (grows : ∀ i op j b, rel i op j b → rel' i op j b) (taken : step sys s a = some t)
    (new : ∀ i call script, a = .serve i → s.waiting i = some call →
      (sys.request call.op).batch[call.served.length]? = some script →
      rel' i call.op call.served.length (script.exec (sys.apply s.now) s.store).1) :
    t.Good sys rel' := by
  have old : s.Good sys rel' := fun i call found => (good i call found).imp (grows i)
  have waiting : ∀ {i call}, s.waiting i = some call → call.Good sys (rel' i) :=
    fun found => old _ _ (waiting_some found).1
  have set : ∀ i call, call.Good sys (rel' i) → (s.setCall i call).Good sys rel' := by
    intro i call goes k other found
    rcases getElem?_set_cases found with before | ⟨rfl, rfl⟩
    · exact old k other before
    · exact goes
  cases step_effect taken with
  | @start op =>
    intro i call found
    rcases getElem?_concat_cases found with before | rfl
    · exact old i call before
    · exact ⟨Nat.zero_le _, fun _ _ here => (nomatch here), fun _ here => (nomatch here)⟩
  | @serve i call script found sent =>
    exact set i _ ((waiting found).serve sent (new i call script rfl found sent))
  | @answer i call found complete => exact set i _ ((waiting found).answer complete)
  | @resend i call found => exact set i _ (waiting found).resend
  | @fail i kept e call found => exact set i _ ((waiting found).fail kept e)
  | tick => exact old

theorem step_ops (N : O → Prop) {s t : State K V O A R} {a : Action O E} (before : ∀ call ∈ s.calls, N call.op)
    (started : ∀ op, a = .start op → N op) (taken : step sys s a = some t) : ∀ call ∈ t.calls, N call.op := by
  have set : ∀ {i call} (new : Call O A R), s.waiting i = some call → new.op = call.op →
      ∀ other ∈ s.calls.set i new, N other.op := by
    intro i call new found same other member
    rcases List.mem_or_eq_of_mem_set member with old | rfl
    · exact before other old
    · rw [same]
      exact before call (List.mem_of_getElem? (waiting_some found).1)
  cases step_effect taken with
  | @start op =>
    intro call member
    rcases List.mem_append.mp member with old | new
    · exact before call old
    · cases List.mem_singleton.mp new
      exact started op rfl
  | serve found _ => exact set _ found rfl
  | answer found _ => exact set _ found rfl
  | resend found => exact set _ found rfl
  | fail found => exact set _ found rfl
  | tick => exact before

theorem run_ops (N : O → Prop) {s t : State K V O A R} {as : List (Action O E)} (before : ∀ call ∈ s.calls, N call.op)
    (started : ∀ op, .start op ∈ as → N op) (taken : run (step sys) s as = some t) : ∀ call ∈ t.calls, N call.op := by
  induction as generalizing s with
  | nil =>
    cases taken
    exact before
  | cons a as ih =>
    obtain ⟨u, first, rest⟩ := run_cons_some.mp taken
    have next := step_ops N before (fun op same => started op (same ▸ List.mem_cons_self)) first
    exact ih next (fun op later => started op (List.mem_cons_of_mem a later)) rest

section Sound

variable (sys) (sends : K → C → Prop) (allowed : K → C → A → Prop) (Cell : K → V → Prop)

def Yielded (op : O) (j : Nat) (a : A) : Prop :=
  ∀ script, (sys.request op).batch[j]? = some script → script.Yields allowed a

structure Sound (s : State K V O A R) : Prop where
  cells : ∀ key, Cell key (s.store key)
  on : ∀ call ∈ s.calls, (sys.request call.op).On sends
  calls : s.Good sys fun _ => Yielded sys allowed

variable {sys sends allowed Cell}

theorem step_sound
    (keeps : ∀ now key c v, sends key c → Cell key v →
      allowed key c (sys.apply now c v).1 ∧ Cell key (sys.apply now c v).2)
    {s t : State K V O A R} {a : Action O E} (sound : Sound sys sends allowed Cell s)
    (on : ∀ op, a = .start op → (sys.request op).On sends)
    (taken : step sys s a = some t) : Sound sys sends allowed Cell t := by
  have executed : ∀ {i call script}, s.waiting i = some call →
      (sys.request call.op).batch[call.served.length]? = some script →
      script.Yields allowed (script.exec (sys.apply s.now) s.store).1 ∧
        ∀ key, Cell key ((script.exec (sys.apply s.now) s.store).2 key) := by
    intro i call script found sent
    have own := sound.on call (List.mem_of_getElem? (waiting_some found).1)
    exact Script.exec_cells (keeps s.now) (own script (List.mem_of_getElem? sent)) sound.cells
  refine ⟨?_, step_ops (fun op => (sys.request op).On sends) sound.on on taken,
    step_good sound.calls (fun _ _ _ _ here => here) taken ?_⟩
  · cases step_effect taken with
    | serve found sent => exact (executed found sent).2
    | _ => exact sound.cells
  · intro i call script _ found sent other same
    cases Option.some.inj (sent.symm.trans same)
    exact (executed found sent).1

/-- What the commands keep of each cell holds all along, however the calls are mixed, and no
call reads other replies than the commands can give. -/
theorem run_sound
    (keeps : ∀ now key c v, sends key c → Cell key v →
      allowed key c (sys.apply now c v).1 ∧ Cell key (sys.apply now c v).2)
    {s t : State K V O A R} {as : List (Action O E)} (sound : Sound sys sends allowed Cell s)
    (on : ∀ op, .start op ∈ as → (sys.request op).On sends)
    (taken : run (step sys) s as = some t) : Sound sys sends allowed Cell t := by
  induction as generalizing s with
  | nil =>
    cases taken
    exact sound
  | cons a as ih =>
    obtain ⟨u, first, rest⟩ := run_cons_some.mp taken
    have next : Sound sys sends allowed Cell u :=
      step_sound keeps sound (fun op same => on op (same ▸ List.mem_cons_self)) first
    exact ih next (fun op started => on op (List.mem_cons_of_mem a started)) rest

omit [DecidableEq K] in
theorem Sound.answer {s : State K V O A R} (sound : Sound sys sends allowed Cell s) {call : Call O A R}
    (member : call ∈ s.calls) {r : R} (answer : call.answer = some r) :
    ∃ replies, r = (sys.request call.op).read replies ∧
      List.Forall₂ (fun script a => script.Yields allowed a ∨ ∃ e, a = sys.lost e)
        (sys.request call.op).batch replies := by
  obtain ⟨i, found⟩ := List.mem_iff_getElem?.mp member
  obtain ⟨replies, read, length, each⟩ := (sound.calls i call found).answered r answer
  refine ⟨replies, read, List.forall₂_iff_get.mpr ⟨length.symm, ?_⟩⟩
  intro j within here
  exact (each j _ (List.getElem?_eq_getElem here)).imp_left fun yields =>
    yields _ (List.getElem?_eq_getElem within)

end Sound

/-- A request of one script that is executed and answered. -/
theorem run_served {op : O} {script : Script K C A} (single : (sys.request op).batch = [script])
    {s : State K V O A R} {k : Nat} (found : s.calls[k]? = some ⟨op, [], none⟩) {done : A × (K → V)}
    (executed : script.exec (sys.apply s.now) s.store = done) :
    run (step sys) s [.serve k, .answer k] = some ⟨s.now, done.2,
      s.calls.set k ⟨op, [done.1], some ((sys.request op).read [done.1])⟩⟩ := by
  have within := (List.getElem?_eq_some_iff.mp found).1
  have place : (sys.request op).batch[0]? = some script := by rw [single]; rfl
  have length : (sys.request op).batch.length = 1 := by rw [single]; rfl
  have waits : s.waiting k = some ⟨op, [], none⟩ := by
    rw [State.waiting, found]
    rfl
  have served : step sys s (.serve k) = some ⟨s.now, done.2, s.calls.set k ⟨op, [done.1], none⟩⟩ := by
    simp only [step, waits, Option.bind_eq_bind, Option.bind_some, List.length_nil, place, executed, State.setCall,
      List.nil_append]
  have again : State.waiting ⟨s.now, done.2, s.calls.set k ⟨op, [done.1], none⟩⟩ k = some ⟨op, [done.1], none⟩ := by
    rw [State.waiting, List.getElem?_set_self within]
    rfl
  refine run_cons_some.mpr ⟨_, served, run_cons_some.mpr ⟨_, ?_, rfl⟩⟩
  simp only [step, again, Option.bind_eq_bind, Option.bind_some, length, List.length_singleton, if_true, State.setCall,
    List.set_set]

theorem run_resent {op : O} {script : Script K C A} (single : (sys.request op).batch = [script])
    {s : State K V O A R} (idle : s.calls = []) {first second : A × (K → V)}
    (once : script.exec (sys.apply s.now) s.store = first) (twice : script.exec (sys.apply s.now) first.2 = second) :
    run (step sys) s [.start op, .serve 0, .resend 0, .serve 0, .answer 0] =
      some ⟨s.now, second.2, [⟨op, [second.1], some ((sys.request op).read [second.1])⟩]⟩ := by
  obtain ⟨now, store, calls⟩ := s
  cases idle
  have place : (sys.request op).batch[0]? = some script := by rw [single]; rfl
  have length : (sys.request op).batch.length = 1 := by rw [single]; rfl
  simp only [run, step, State.waiting, State.setCall, List.nil_append, Option.bind_some, Option.bind_eq_bind,
    List.getElem?_cons_zero, Option.filter_some, Option.isNone_none, if_true, List.length_nil, place, once, twice,
    List.set_cons_zero, List.length_cons, length]

end Machine

end GameIM.Lib.Keyed
