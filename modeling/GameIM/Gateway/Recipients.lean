import Mathlib.Data.List.Nodup
import Mathlib.Data.List.Perm.Subperm
import GameIM.Gateway.RingTable

/-! A broadcast through the ring beside ConnManager.PushToAllExcept, the path it replaced.
The ring is read by every connection that was accepted and not closed; PushToAllExcept
ranges over the user table. -/
namespace GameIM.Gateway.Broadcast
open Lib Api Conn

variable {α : Type}

/- The order in which Range visits the entries: each of them once. -/
structure Ranges (m : ConnManager) (keys : List Int) : Prop where
  once : keys.Nodup
  all : ∀ uid, uid ∈ keys ↔ m.userConns uid ≠ none

def push (cfg : Config) (r : Ring.State α) (c : ConnID) (data : α) : Ring.State α :=
  match r.readers c with
  | none => r
  | some k => r.setReader c (k.send cfg.sendChanSize data)

def pushToAllExcept (cfg : Config) (m : ConnManager) (keys : List Int) (r : Ring.State α) (data : α)
    (excludeUID : Int) : Ring.State α :=
  keys.foldl (fun r uid => if uid = excludeUID then r else match m.userConns uid with
    | none => r
    | some c => push cfg r c data) r

def sends (m : ConnManager) (keys : List Int) (excludeUID : Int) (c : ConnID) : Nat :=
  keys.countP fun uid => uid ≠ excludeUID ∧ m.userConns uid = some c

def Other (m : ConnManager) (sender : Int) (c : ConnID) : Prop :=
  m.life c = .open ∧ m.uid c ≠ 0 ∧ m.uid c ≠ sender

instance (m : ConnManager) (sender : Int) (c : ConnID) : Decidable (Other m sender c) :=
  inferInstanceAs (Decidable (_ ∧ _))

/-- Both paths enqueue the data once on the connections that are bound to a user other than
the sender, and not on any other. `t` is where the ring has got to, `u` is the result of
PushToAllExcept. -/
def SameRecipients (s : State α) (sender : Int) (data : α) (t u : Ring.State α) : Prop :=
  ∀ c k, s.ring.readers c = some k → ∃ n l, n = (if Other s.mgr sender c then 1 else 0) ∧
    t.readers c = some l ∧ l.enqueued = k.enqueued ++ List.replicate n (s.ring.writePos, data) ∧
    u.readers c = some { k with pushCh := k.pushCh ++ List.replicate n data }

/-- Every open connection is authenticated as a user other than the sender, and what the
table has for other users are open connections of these. -/
structure OthersOnly (m : ConnManager) (sender : Int) : Prop where
  others : ∀ c, m.life c = .open → m.uid c ≠ 0 ∧ m.uid c ≠ sender
  entries : ∀ u c, u ≠ sender → m.userConns u = some c → m.life c = .open ∧ m.uid c = u

section Push

variable {cfg : Config} {m : ConnManager} {data : α} {excludeUID : Int}

theorem push_readers (cfg : Config) (r : Ring.State α) (c d : ConnID) (data : α) :
    (push cfg r c data).readers d =
      if d = c then (r.readers d).map (·.send cfg.sendChanSize data) else r.readers d := by
  unfold push
  split
  · rename_i none
    split
    · rename_i here
      rw [here, none]
      rfl
    · rfl
  · rename_i k held
    by_cases here : d = c
    · subst here
      simp [Ring.State.setReader, held]
    · simp [Ring.State.setReader, here]

theorem sends_cons (uid : Int) (keys : List Int) (c : ConnID) :
    sends m (uid :: keys) excludeUID c =
      sends m keys excludeUID c + if uid ≠ excludeUID ∧ m.userConns uid = some c then 1 else 0 := by
  simp only [sends, List.countP_cons, decide_eq_true_eq]

theorem pushToAllExcept_readers {keys : List Int} {r : Ring.State α} {c : ConnID} {k : Ring.Reader α}
    (held : r.readers c = some k)
    (room : k.pushCh.length + sends m keys excludeUID c ≤ cfg.sendChanSize) :
    (pushToAllExcept cfg m keys r data excludeUID).readers c =
      some { k with pushCh := k.pushCh ++ List.replicate (sends m keys excludeUID c) data } := by
  induction keys generalizing r k with
  | nil => simp [pushToAllExcept, sends, held]
  | cons uid rest ih =>
    rw [sends_cons] at room ⊢
    by_cases sent : uid ≠ excludeUID ∧ m.userConns uid = some c
    · simp only [if_pos sent] at room ⊢
      have next : (push cfg r c data).readers c = some { k with pushCh := k.pushCh ++ [data] } := by
        rw [push_readers, if_pos rfl, held, Option.map_some, Ring.Reader.send, if_pos (by omega)]
      have rest := ih next (by simp only [List.length_append, List.length_singleton]; omega)
      simp only [pushToAllExcept, List.foldl_cons, if_neg sent.1, sent.2] at rest ⊢
      rw [rest, List.append_assoc, Nat.add_comm, List.replicate_add]
      rfl
    · simp only [if_neg sent, Nat.add_zero] at room ⊢
      have next : (if uid = excludeUID then r else match m.userConns uid with
          | none => r
          | some d => push cfg r d data).readers c = some k := by
        split
        · exact held
        · rename_i other
          split
          · exact held
          · rename_i d entry
            have apart : c ≠ d := by
              rintro rfl
              exact sent ⟨other, entry⟩
            rw [push_readers, if_neg apart]
            exact held
      exact ih next room

end Push

theorem replicate_same {xs : List α} {x : α} {n k : Nat}
    (same : xs ++ List.replicate n x = xs ++ List.replicate k x) : n = k := by
  simpa using congrArg List.length same

section Recipients

variable {cfg : Config} {m : ConnManager} {keys : List Int} {sender : Int} {c : ConnID}

theorem sends_pos (ranges : Ranges m keys) {u : Int} (other : u ≠ sender) (entry : m.userConns u = some c) :
    0 < sends m keys sender c := by
  have mem : u ∈ keys := (ranges.all u).mpr (by simp [entry])
  exact List.countP_pos_iff.mpr ⟨u, mem, by simp [other, entry]⟩

theorem sends_twice (ranges : Ranges m keys) {u v : Int} (apart : u ≠ v) (other : u ≠ sender)
    (entry : m.userConns u = some c) (other' : v ≠ sender) (entry' : m.userConns v = some c) :
    2 ≤ sends m keys sender c := by
  rw [sends, List.countP_eq_length_filter]
  have pair : [u, v].Nodup := by simp [apart]
  have sub : [u, v] ⊆ keys.filter fun uid => uid ≠ sender ∧ m.userConns uid = some c := by
    intro w mem
    have either : w = u ∨ w = v := by simpa using mem
    rcases either with rfl | rfl
    · simp [other, entry, (ranges.all w).mpr (by simp [entry])]
    · simp [other', entry', (ranges.all w).mpr (by simp [entry'])]
  exact (pair.subperm sub).length_le

theorem sends_once (ranges : Ranges m keys) {u : Int}
    (only : ∀ v, (v ≠ sender ∧ m.userConns v = some c) ↔ v = u) : sends m keys sender c = 1 := by
  have mem : u ∈ keys := (ranges.all u).mpr (by simp [((only u).mpr rfl).2])
  have count : sends m keys sender c = keys.count u := by
    apply List.countP_congr
    intro v _
    simp only [only, decide_eq_true_eq, beq_iff_eq]
  rw [count]
  exact List.count_eq_one_of_mem ranges.once mem

theorem OthersOnly.sends (only : OthersOnly m sender) (held : Held m) (ranges : Ranges m keys) (c : ConnID) :
    sends m keys sender c = if m.life c = .open then 1 else 0 := by
  split
  · rename_i live
    obtain ⟨named, other⟩ := only.others c live
    apply sends_once ranges (u := m.uid c)
    intro v
    constructor
    · rintro ⟨different, entry⟩
      exact (only.entries v c different entry).2.symm
    · rintro rfl
      exact ⟨other, held.bound c live named⟩
  · rename_i dead
    apply List.countP_eq_zero.mpr
    intro u _ counted
    have sent : u ≠ sender ∧ m.userConns u = some c := by simpa using counted
    exact dead (only.entries u c sent.1 sent.2).1

theorem othersOnly_iff (held : Held m) (ranges : Ranges m keys) :
    OthersOnly m sender ↔ ∀ c, m.life c ≠ .fresh →
      (if m.life c = .open then 1 else 0) = (if Other m sender c then 1 else 0) ∧
      sends m keys sender c = (if Other m sender c then 1 else 0) := by
  constructor
  · intro only c _
    have same : Other m sender c ↔ m.life c = .open :=
      ⟨fun other => other.1, fun live => ⟨live, only.others c live⟩⟩
    simp only [same, true_and]
    exact only.sends held ranges c
  · intro both
    constructor
    · intro c live
      have here := (both c (by simp [live])).1
      rw [if_pos live] at here
      split at here
      · rename_i other
        exact other.2
      · contradiction
    · intro u c different entry
      have here := (both c (held.known u c entry)).2
      have some := sends_pos ranges different entry
      split at here
      · rename_i other
        refine ⟨other.1, ?_⟩
        by_contra apart
        have twice := sends_twice ranges apart other.2.2 (held.bound c other.1 other.2.1) different entry
        omega
      · omega

/-- In every state of the connections with all consumers caught up and room in their
channels: a broadcast through the ring comes to an end, and however it is scheduled, it
reaches the connections that PushToAllExcept reaches, each once, if and only if every open
connection is authenticated as a user other than the sender and the table has no entries
left that are not open connections of their users. -/
theorem same_recipients_iff {s : State α} {as : List (Action α)} (taken : run (step cfg) start as = some s)
    (caughtUp : CaughtUp s.ring) (ranges : Ranges s.mgr keys) (sender : Int) (data : α)
    (room : ∀ c k, s.ring.readers c = some k →
      k.pushCh.length + max 1 (sends s.mgr keys sender c) ≤ cfg.sendChanSize) :
    (∃ bs t, Broadcasts cfg s.ring data bs t) ∧
      ∀ bs t, Broadcasts cfg s.ring data bs t →
        (SameRecipients s sender data t (pushToAllExcept cfg s.mgr keys s.ring data sender) ↔
          OthersOnly s.mgr sender) := by
  have linked : Linked s := run_invariant Linked (fun _ _ _ linked taken => step_linked linked taken)
    start_linked taken
  constructor
  · apply broadcast_ends linked.listed caughtUp
    intro c k held
    have := room c k held
    omega
  intro bs t broadcasts
  have ring : ∀ {c k}, s.ring.readers c = some k → ∃ l, t.readers c = some l ∧ l.enqueued = k.enqueued ++
      List.replicate (if s.mgr.life c = .open then 1 else 0) (s.ring.writePos, data) := by
    intro c k held
    rw [← linked.live held]
    exact broadcasts_enqueued linked.ring linked.halts caughtUp broadcasts held
  have direct : ∀ {c k}, s.ring.readers c = some k →
      (pushToAllExcept cfg s.mgr keys s.ring data sender).readers c =
        some { k with pushCh := k.pushCh ++ List.replicate (sends s.mgr keys sender c) data } := by
    intro c k held
    have := room c k held
    exact pushToAllExcept_readers held (by omega)
  rw [othersOnly_iff linked.held ranges]
  constructor
  · intro same c known
    obtain ⟨k, held⟩ := linked.reader known
    obtain ⟨n, l, rfl, there, enqueued, pushed⟩ := same c k held
    obtain ⟨l', there', enqueued'⟩ := ring held
    cases there.symm.trans there'
    constructor
    · exact replicate_same (enqueued'.symm.trans enqueued)
    · exact replicate_same (congrArg (·.pushCh) (Option.some.inj ((direct held).symm.trans pushed)))
  · intro both c k held
    obtain ⟨l, there, enqueued⟩ := ring held
    obtain ⟨first, second⟩ := both c (linked.known held)
    refine ⟨_, l, rfl, there, ?_, ?_⟩
    · rw [← first, enqueued]
    · rw [direct held, second]

end Recipients

def idle : Ring.Reader Bytes := ⟨0, .wait, false, [], 0, []⟩

/- The one connection is that of user 8, and user 7 has none. -/
def listening : List (Action Bytes) :=
  [.table (.register 1), .table (.bind 8 1), .ring (.consume 1), .ring (.consume 1)]

/- User 7 is on connection 1, and connection 2 has not authenticated. -/
def mixed : List (Action Bytes) :=
  [.table (.register 1), .table (.bind 7 1), .table (.register 2), .ring (.consume 1),
    .ring (.consume 1), .ring (.consume 2), .ring (.consume 2)]

section Demo

variable {s : State Bytes} {as : List (Action Bytes)}

theorem idle_caughtUp (puts : s.ring.puts = []) (writePos : s.ring.writePos = 0)
    (readers : ∀ c k, s.ring.readers c = some k → k = idle) : CaughtUp s.ring := by
  refine ⟨puts, ?_⟩
  intro c k held
  cases readers c k held
  exact Or.inr ⟨rfl, writePos.symm⟩

theorem idle_readers (taken : run (step Ring.serverConfig) start as = some s) (cs : List ConnID)
    (registered : ∀ c, c ∉ cs → ∀ a ∈ as, a ≠ .table (.register c))
    (each : ∀ c ∈ cs, s.ring.readers c = some idle) : ∀ c k, s.ring.readers c = some k → k = idle := by
  intro c k held
  by_cases known : c ∈ cs
  · exact Option.some.inj (held.symm.trans (each c known))
  · have linked : Linked s := run_invariant Linked (fun _ _ _ linked taken => step_linked linked taken)
      start_linked taken
    exact absurd (run_fresh taken (registered c known) rfl) (linked.known held)

theorem idle_room (readers : ∀ c k, s.ring.readers c = some k → k = idle) (uid sender : Int) (c : ConnID)
    (k : Ring.Reader Bytes) (held : s.ring.readers c = some k) :
    k.pushCh.length + max 1 (sends s.mgr [uid] sender c) ≤ Ring.serverConfig.sendChanSize := by
  cases readers c k held
  have one : sends s.mgr [uid] sender c ≤ 1 := List.countP_le_length
  simp only [idle, Ring.serverConfig, List.length_nil]
  omega

theorem one_key (taken : run (step Ring.serverConfig) start as = some s) (uid : Int)
    (bound : ∀ u, u ≠ uid → ∀ a ∈ as, ∀ c, a ≠ .table (.bind u c)) (entry : s.mgr.userConns uid ≠ none) :
    Ranges s.mgr [uid] := by
  refine ⟨List.nodup_singleton uid, ?_⟩
  intro u
  by_cases here : u = uid
  · simp [here, entry]
  · simp [here, run_unlisted taken (bound u here) rfl]

end Demo

theorem same_recipients_listening : ∃ s bs t, run (step Ring.serverConfig) start listening = some s ∧
    Other s.mgr 7 1 ∧ CaughtUp s.ring ∧ Broadcasts Ring.serverConfig s.ring [9] bs t ∧
    SameRecipients s 7 [9] t (pushToAllExcept Ring.serverConfig s.mgr [8] s.ring [9] 7) := by
  have view : (run (step Ring.serverConfig) start listening).map (fun s =>
      (s.mgr.life 1, s.mgr.uid 1, s.mgr.userConns 8, s.ring.puts, s.ring.writePos, s.ring.readers 1)) =
        some (.open, 8, some 1, [], 0, some idle) := rfl
  obtain ⟨s, taken, fields⟩ := Option.map_eq_some_iff.mp view
  simp only [Prod.mk.injEq] at fields
  obtain ⟨life, uid, entry, puts, writePos, reader⟩ := fields
  have known : ∀ c, c ∉ [1] → ∀ a ∈ listening, a ≠ .table (.register c) := by
    simp [listening, eq_comm]
  have readers := idle_readers taken [1] known (by simpa using reader)
  have caughtUp := idle_caughtUp puts writePos readers
  have ranges : Ranges s.mgr [8] := one_key taken 8 (by simp [listening, eq_comm]) (by simp [entry])
  have only : OthersOnly s.mgr 7 := by
    constructor
    · intro c live
      by_cases here : c ∈ [1]
      · cases List.mem_singleton.mp here
        simp [uid]
      · rw [run_fresh taken (known c here) rfl] at live
        contradiction
    · intro u c _ held
      have mem : u ∈ [8] := (ranges.all u).mpr (by simp [held])
      cases List.mem_singleton.mp mem
      cases entry.symm.trans held
      exact ⟨life, uid⟩
  obtain ⟨⟨bs, t, broadcasts⟩, same⟩ :=
    same_recipients_iff taken caughtUp ranges 7 [9] (idle_room readers 8 7)
  exact ⟨s, bs, t, taken, ⟨life, by simp [uid], by simp [uid]⟩, caughtUp, broadcasts,
    (same bs t broadcasts).mpr only⟩

/- The notification of a message by user 7 goes to the connection of user 7 and to the one
that has not authenticated. -/
theorem sender_notified : ∃ s bs t, run (step Ring.serverConfig) start mixed = some s ∧
    CaughtUp s.ring ∧ Ranges s.mgr [7] ∧ Broadcasts Ring.serverConfig s.ring [9] bs t ∧
    s.mgr.uid 1 = 7 ∧ (t.readers 1).map (·.enqueued) = some [(0, [9])] ∧
    s.mgr.uid 2 = 0 ∧ (t.readers 2).map (·.enqueued) = some [(0, [9])] ∧
    ¬ SameRecipients s 7 [9] t (pushToAllExcept Ring.serverConfig s.mgr [7] s.ring [9] 7) := by
  have view : (run (step Ring.serverConfig) start mixed).map (fun s =>
      (s.mgr.uid 1, s.mgr.uid 2, s.mgr.userConns 7, s.ring.puts, s.ring.writePos, s.ring.readers 1,
        s.ring.readers 2)) = some (7, 0, some 1, [], 0, some idle, some idle) := rfl
  obtain ⟨s, taken, fields⟩ := Option.map_eq_some_iff.mp view
  simp only [Prod.mk.injEq] at fields
  obtain ⟨uid, unnamed, entry, puts, writePos, reader, other⟩ := fields
  have readers := idle_readers taken [1, 2] (by simp [mixed, eq_comm]) (by simp [reader, other])
  have caughtUp := idle_caughtUp puts writePos readers
  have ranges : Ranges s.mgr [7] := one_key taken 7 (by simp [mixed, eq_comm]) (by simp [entry])
  have linked : Linked s := run_invariant Linked (fun _ _ _ linked taken => step_linked linked taken)
    start_linked taken
  have room : ∀ c k, s.ring.readers c = some k → k.pushCh.length < Ring.serverConfig.sendChanSize := by
    intro c k held
    have := idle_room readers 7 7 c k held
    omega
  obtain ⟨bs, t, broadcasts⟩ := broadcast_ends linked.listed caughtUp room [9]
  have served : ∀ {c}, s.ring.readers c = some idle → ∃ l, t.readers c = some l ∧ l.enqueued = [(0, [9])] := by
    intro c held
    obtain ⟨l, there, enqueued⟩ := broadcasts_enqueued linked.ring linked.halts caughtUp broadcasts held
    exact ⟨l, there, by simpa [idle, writePos] using enqueued⟩
  obtain ⟨first, there, enqueued⟩ := served reader
  obtain ⟨second, there', enqueued'⟩ := served other
  refine ⟨s, bs, t, taken, caughtUp, ranges, broadcasts, uid, by simp [there, enqueued], unnamed,
    by simp [there', enqueued'], ?_⟩
  intro same
  obtain ⟨n, l, count, held, none, _⟩ := same 1 idle reader
  cases there.symm.trans held
  have zero : n = 0 := by simpa [Other, uid] using count
  rw [enqueued, zero] at none
  simp [idle] at none

end GameIM.Gateway.Broadcast
