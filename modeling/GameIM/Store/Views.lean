import GameIM.Lib.Linear
import GameIM.Store.Kinds

/-! Models of a part of the keyspace: what it is for a request of RedisStore to do what a function
of a model does, and for a call to return what the model returned. -/
namespace GameIM.Store.RedisStore
open Lib Lib.Text Lib.Keyed Api Keys

theorem utf8_inj {s t : String} : utf8 s = utf8 t ↔ s = t := by
  constructor
  · intro same
    rw [utf8_eq_encode, utf8_eq_encode] at same
    have runes := congrArg runes same
    rw [runes_encode, runes_encode] at runes
    exact String.toList_inj.mp runes
  · rintro rfl
    rfl

/-- The request sends one script. Where the keyspace shows a state of the model, the reply is read
as what the function of the model returns, and the keyspace then shows the state that the
function leaves. -/
def Refines {α S : Type} (view : Nat → (Bytes → Option Cell) → S → Prop) (q : Request (Outcome α))
    (f : Nat → S → Outcome α × S) : Prop :=
  ∃ script, q.batch = [script] ∧ ∀ now store s, view now store s →
    q.read [(script.exec (Command.apply now) store).1] = (f now s).1 ∧
      view now (script.exec (Command.apply now) store).2 (f now s).2

section Refines

variable {α S : Type} {view : Nat → (Bytes → Option Cell) → S → Prop}

theorem ask_refines {key : Bytes} {c : Command} {read : Reply → Outcome α} {f : Nat → S → Outcome α × S}
    (acts : ∀ now store s, view now store s → ∃ a cell, c.apply now (store key) = (a, cell) ∧
      read a = (f now s).1 ∧ view now (Function.update store key cell) (f now s).2) :
    Refines view (ask key c read) f := by
  refine ⟨_, rfl, ?_⟩
  intro now store s shown
  obtain ⟨a, cell, done, result, after⟩ := acts now store s shown
  simp only [ask, Script.exec, done, List.headD_cons]
  exact ⟨result, after⟩

theorem ask_reads {key : Bytes} {c : Command} {read : Reply → Outcome α} {f : Nat → S → α}
    (acts : ∀ now store s, view now store s → ∃ a, c.apply now (store key) = (a, store key) ∧
      read a = .ok (f now s)) : Refines view (ask key c read) fun now s => (.ok (f now s), s) := by
  refine ask_refines ?_
  intro now store s shown
  obtain ⟨a, done, result⟩ := acts now store s shown
  refine ⟨a, _, done, result, ?_⟩
  rw [Function.update_eq_self]
  exact shown

theorem answered_refines {make : α → Answer} {q : Request (Outcome α)} {f : Nat → S → Outcome α × S}
    (refines : Refines view q f) :
    Refines view (answered make q) fun now s => ((f now s).1.map make, (f now s).2) := by
  obtain ⟨script, batch, acts⟩ := refines
  refine ⟨script, batch, ?_⟩
  intro now store s shown
  obtain ⟨result, after⟩ := acts now store s shown
  exact ⟨congrArg (Except.map make) result, after⟩

theorem Refines.acts {q : Request (Outcome α)} {f : Nat → S → Outcome α × S} (refines : Refines view q f)
    {script : Script Bytes Command Reply} (sent : q.batch[0]? = some script) {now : Nat}
    {store : Bytes → Option Cell} {s : S} (shown : view now store s) :
    q.read [(script.exec (Command.apply now) store).1] = (f now s).1 ∧
      view now (script.exec (Command.apply now) store).2 (f now s).2 := by
  obtain ⟨only, batch, acts⟩ := refines
  rw [batch] at sent
  cases Option.some.inj sent
  exact acts now store s shown

theorem single_place {q : Request (Outcome α)} {only script : Script Bytes Command Reply} {j : Nat}
    (batch : q.batch = [only]) (sent : q.batch[j]? = some script) : j = 0 := by
  have within := (List.getElem?_eq_some_iff.mp sent).1
  rw [batch, List.length_singleton] at within
  exact Nat.lt_one_iff.mp within

end Refines

theorem shows_exec {I : Type} {pkg : Packages} {records : I → Record} {cells : I → Option Cell} {op : Op}
    (apart : ∀ i, records i ∉ op.records) {script : Script Bytes Command Reply} {j : Nat}
    (sent : (op.request pkg).batch[j]? = some script) (now : Nat) {store : Bytes → Option Cell}
    (shown : Shows (fun i => (records i).key) store cells) :
    Shows (fun i => (records i).key) (script.exec (Command.apply now) store).2 cells := by
  intro i
  rw [← shown i]
  have on := request_on pkg op (marks_any pkg op) script (List.mem_of_getElem? sent)
  exact Script.exec_frame (Command.apply now) (on.imp (sends_ne (apart i))) store

def returned {α : Type} (read : Answer → Option α) (answer : Option (Outcome Answer)) : Option α :=
  match answer with
  | some (.ok ans) => read ans
  | _ => none

theorem returned_eq {α : Type} {read : Answer → Option α} {make : α → Answer}
    (made : ∀ ans x, read ans = some x → ans = make x) {answer : Option (Outcome Answer)} {x : α}
    (has : returned read answer = some x) : answer = some (.ok (make x)) := by
  unfold returned at has
  split at has
  · rename_i ans
    rw [made ans x has]
  · contradiction

end GameIM.Store.RedisStore
