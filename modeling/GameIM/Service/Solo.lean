import GameIM.Service.SendOnce
import GameIM.Service.SendMsg

/-! The two models of SendMsg are one: calls that follow one another are a schedule
of the step machine, with the same outcomes and the same effects. -/
namespace GameIM.Service.SendSteps
open GameIM.Lib GameIM.Api GameIM.Store GameIM.Service

/-- What the calls leave behind, without the calls themselves. -/
def view (s : State) : Servers :=
  ⟨s.alloc.redis, s.alloc.ranges, s.caches, s.posted.map Prod.snd, s.queued.map Prod.snd,
    s.delivered.map Prod.snd⟩

def nextPhase : Option Int → SeqAlloc.Phase
  | some n => .returned n
  | none => .failed

theorem refill_alone {a : SeqAlloc.State} {i server : Nat} {ch : String} {s : Servers}
    (redis : s.redis = a.redis) (ranges : s.ranges = a.ranges)
    (call : a.calls i = some ⟨server, ch, .refill⟩) (incrFails : Bool) :
    ∃ xs, (∀ x ∈ xs, ∀ j b c, x ≠ .enter j b c) ∧ run SeqAlloc.step a xs =
      some ({ a with redis := (s.refill server a.now ch incrFails).2.redis
                     ranges := (s.refill server a.now ch incrFails).2.ranges }.setCall i
        ⟨server, ch, nextPhase (s.refill server a.now ch incrFails).1⟩) := by
  cases incrFails with
  | true =>
    refine ⟨[.incrByFails i], by simp, ?_⟩
    simp only [run, SeqAlloc.step, call, Option.bind_some, Servers.refill, if_true, redis, ranges,
      nextPhase]
  | false =>
    cases reserved : a.redis.incrBy a.now ch SeqAlloc.seqBatchSize with
    | mk reply after =>
      cases reply with
      | none =>
        refine ⟨[.incrBy i], by simp, ?_⟩
        simp only [run, SeqAlloc.step, call, reserved, Option.bind_some, Servers.refill, Bool.false_eq_true,
          if_false, nextPhase, redis, ranges, Servers.setRedis]
      | some newMax =>
        refine ⟨[.incrBy i, .install i], by simp, ?_⟩
        simp only [run, SeqAlloc.step, call, reserved, Option.bind_some, Servers.refill, Bool.false_eq_true,
          if_false, nextPhase, redis, ranges, Servers.setRange, Servers.setRedis, SeqAlloc.State.setRange,
          SeqAlloc.State.setCall, Function.update_self, Function.update_idem]

theorem next_alone {a : SeqAlloc.State} {i server : Nat} {ch : String} {s : Servers}
    (redis : s.redis = a.redis) (ranges : s.ranges = a.ranges)
    (call : a.calls i = some ⟨server, ch, .entered⟩) (incrFails : Bool) :
    ∃ xs, (∀ x ∈ xs, ∀ j b c, x ≠ .enter j b c) ∧ run SeqAlloc.step a xs =
      some ({ a with redis := (s.next server a.now ch incrFails).2.redis
                     ranges := (s.next server a.now ch incrFails).2.ranges }.setCall i
        ⟨server, ch, nextPhase (s.next server a.now ch incrFails).1⟩) := by
  have missed : SeqAlloc.step a (.lookup i) = some (a.setCall i ⟨server, ch, .refill⟩) →
      s.next server a.now ch incrFails = s.refill server a.now ch incrFails →
      ∃ xs, (∀ x ∈ xs, ∀ j b c, x ≠ .enter j b c) ∧ run SeqAlloc.step a xs =
        some ({ a with redis := (s.next server a.now ch incrFails).2.redis
                       ranges := (s.next server a.now ch incrFails).2.ranges }.setCall i
          ⟨server, ch, nextPhase (s.next server a.now ch incrFails).1⟩) := by
    intro looked refills
    obtain ⟨xs, quiet, taken⟩ := refill_alone (a := a.setCall i ⟨server, ch, .refill⟩) (i := i)
      (s := s) redis ranges (SeqAlloc.setCall_calls_same _ _ _) incrFails
    have noEnter : ∀ x ∈ SeqAlloc.Action.lookup i :: xs, ∀ j b c, x ≠ .enter j b c := by
      intro x mem
      rcases List.mem_cons.mp mem with rfl | old
      · simp
      · exact quiet x old
    refine ⟨.lookup i :: xs, noEnter, ?_⟩
    rw [refills]
    refine run_cons_some.mpr ⟨_, looked, taken.trans ?_⟩
    simp only [SeqAlloc.State.setCall, Function.update_idem]
  cases range : a.ranges server ch with
  | none =>
    apply missed
    · simp only [SeqAlloc.step, call, range]
    · simp only [Servers.next, ranges, range]
  | some r =>
    by_cases le : r.next ≤ r.max
    · refine ⟨[.lookup i], by simp, ?_⟩
      simp only [run, SeqAlloc.step, call, range, le, if_true, Option.bind_some, Servers.next, ranges,
        Servers.setRange, SeqAlloc.State.setRange, redis, nextPhase]
    · apply missed
      · simp only [SeqAlloc.step, call, range, le, if_false]
      · simp only [Servers.next, ranges, range, le, if_false]

theorem run_next (cfg : Config) {s : State} {xs : List SeqAlloc.Action} {b : SeqAlloc.State}
    (quiet : ∀ x ∈ xs, ∀ j a c, x ≠ .enter j a c) (taken : run SeqAlloc.step s.alloc xs = some b) :
    run (step cfg) s (xs.map .next) = some { s with alloc := b } := by
  induction xs generalizing s with
  | nil =>
    cases taken
    rfl
  | cons x rest ih =>
    obtain ⟨a, ha, hr⟩ := run_cons_some.mp taken
    have stepped : step cfg s (.next x) = some { s with alloc := a } := by
      cases x with
      | enter j b c => exact absurd rfl (quiet _ (by simp) j b c)
      | _ => simp only [step, ha, Option.map_some]
    refine run_cons_some.mpr ⟨_, stepped, ?_⟩
    exact ih (s := { s with alloc := a }) (fun y hy => quiet y (by simp [hy])) hr

/- From s, steps of call i alone end it with outcome o and leave v. -/
def Alone (cfg : Config) (s : State) (i : Nat) (o : Outcome) (v : Servers) : Prop :=
  ∃ as t, run (step cfg) s as = some t ∧ view t = v ∧ Ended t i o ∧ t.alloc.now = s.alloc.now ∧
    ∀ j, j ≠ i → t.sends j = s.sends j ∧ t.alloc.calls j = s.alloc.calls j

theorem Alone.after {cfg : Config} {s t : State} {i : Nat} {o : Outcome} {v : Servers}
    {as : List Action} (taken : run (step cfg) s as = some t) (now : t.alloc.now = s.alloc.now)
    (others : ∀ j, j ≠ i → t.sends j = s.sends j ∧ t.alloc.calls j = s.alloc.calls j)
    (rest : Alone cfg t i o v) : Alone cfg s i o v := by
  obtain ⟨bs, u, hu, seen, ended, later, same⟩ := rest
  refine ⟨as ++ bs, u, run_append_some.mpr ⟨t, taken, hu⟩, seen, ended, later.trans now, ?_⟩
  intro j hj
  exact ⟨(same j hj).1.trans (others j hj).1, (same j hj).2.trans (others j hj).2⟩

section Finish

variable {cfg : Config} {s : State} {i : Nat} {c : Send} {content : Bytes}

end Finish

def State.entered (s : State) (i : Nat) (c : Call) (caches : Caches) (content : Bytes) : State :=
  { s.setCaches c.server caches with
    alloc := s.alloc.setCall i ⟨c.server, c.req.channelID, .entered⟩ }.setSend i
      ⟨c.server, c.uid, c.sender, c.req, .allocating content⟩

def State.numbered (s : State) (i : Nat) (c : Call) (number : Option Int) (t : Servers) : State :=
  let alloc : SeqAlloc.State := { s.alloc with redis := t.redis, ranges := t.ranges }
  { s with alloc := alloc.setCall i ⟨c.server, c.req.channelID, nextPhase number⟩ }

end GameIM.Service.SendSteps
