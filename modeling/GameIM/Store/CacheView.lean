import GameIM.Store.Views
import GameIM.Service.MsgCache

/-! The message caches of the channels are cells of the keyspace. However the calls of RedisStore
are mixed, what GetMsgCache returns was pushed to the channel, and in this order. -/
namespace GameIM.Store.RedisStore
open Lib Lib.Text Lib.Keyed Api Keys Service
open MsgCache (Key cut newer)

/- Redis has no empty list. -/
def keyCell (k : Key) : Option Cell := if k.entries = [] then none else some ⟨.list k.entries, k.deadline⟩

/-- The keyspace holds, of each channel, what is left of the list. -/
structure Cached (now : Nat) (store : Bytes → Option Cell) (keys : Bytes → Key) : Prop where
  shows : ∀ channelID, (store (keyMsgCache channelID)).filter (·.live now) = keyCell ((keys channelID).live now)
  bare : ∀ channelID, (keys channelID).entries = [] → (keys channelID).deadline = none

/- The command that is sent. Redis takes seconds. -/
def redisCommand : MsgCache.Command → Command
  | .lpush data => .lpush data
  | .ltrim last => .ltrim 0 last
  | .expire ttl => .expire (ttl / 1000 : Nat)

section Key

variable {now later : Nat} {k : Key}

theorem cell_live (value : Value) (deadline : Option Nat) :
    (⟨value, deadline⟩ : Cell).live now = !deadline.any (· ≤ now) := by
  cases deadline with
  | none => rfl
  | some d => simp [Cell.live, ← decide_not]

theorem live_due (due : k.deadline.any (· ≤ now) = true) : k.live now = ⟨[], none⟩ := if_pos due

theorem live_alive (alive : k.deadline.any (· ≤ now) = false) : k.live now = k := by
  rw [Key.live, if_neg (by simp [alive])]

theorem alive_of_live (counts : k.live now = k) : k.deadline.any (· ≤ now) = false := by
  cases due : k.deadline.any (· ≤ now) with
  | false => rfl
  | true =>
    rw [live_due due] at counts
    rw [← counts] at due
    contradiction

theorem live_live (k : Key) (now : Nat) : (k.live now).live now = k.live now := by
  cases due : k.deadline.any (· ≤ now) with
  | true =>
    rw [live_due due]
    rfl
  | false => rw [live_alive due, live_alive due]

theorem due_later {deadline : Option Nat} (due : deadline.any (· ≤ now) = true) (le : now ≤ later) :
    deadline.any (· ≤ later) = true := by
  cases deadline with
  | none => contradiction
  | some d =>
    simp only [Option.any_some, decide_eq_true_eq] at due ⊢
    exact Nat.le_trans due le

theorem live_later (k : Key) (le : now ≤ later) : (k.live now).live later = k.live later := by
  cases due : k.deadline.any (· ≤ now) with
  | true =>
    rw [live_due due, live_due (due_later due le)]
    rfl
  | false => rw [live_alive due]

theorem live_bare (bare : k.entries = [] → k.deadline = none) (now : Nat) :
    (k.live now).entries = [] → (k.live now).deadline = none := by
  cases due : k.deadline.any (· ≤ now) with
  | true =>
    rw [live_due due]
    exact fun _ => rfl
  | false =>
    rw [live_alive due]
    exact bare

theorem filter_later (cell : Option Cell) (le : now ≤ later) :
    (cell.filter (·.live now)).filter (·.live later) = cell.filter (·.live later) := by
  rw [Option.filter_filter]
  congr 1
  funext c
  obtain ⟨value, deadline⟩ := c
  cases deadline with
  | none => rfl
  | some d =>
    simp only [Cell.live]
    by_cases reached : later < d
    · simp [reached, Nat.lt_of_le_of_lt le reached]
    · simp [reached]

theorem keyCell_filter (k : Key) (now : Nat) : (keyCell k).filter (·.live now) = keyCell (k.live now) := by
  obtain ⟨entries, deadline⟩ := k
  cases due : deadline.any (· ≤ now) with
  | true =>
    rw [live_due due, keyCell]
    split
    · rfl
    · simp [Option.filter, cell_live, due, keyCell]
  | false =>
    rw [live_alive due, keyCell]
    split
    · rfl
    · simp [Option.filter, cell_live, due]

theorem exec_bare (bare : k.entries = [] → k.deadline = none) (c : MsgCache.Command) :
    (k.exec now c).entries = [] → (k.exec now c).deadline = none := by
  cases c with
  | lpush data => exact fun none => absurd none (List.cons_ne_nil _ _)
  | ltrim last => exact fun none => bare (by simpa [Key.exec] using none)
  | expire ttl =>
    by_cases empty : k.entries = []
    · simpa only [Key.exec, if_pos empty] using bare
    · simp only [Key.exec, if_neg empty]
      exact fun none => absurd none empty

theorem command_cell {cell : Option Cell} (found : cell.filter (·.live now) = keyCell k) (counts : k.live now = k)
    (bare : k.entries = [] → k.deadline = none) {c : MsgCache.Command}
    (whole : ∀ ttl, c = .expire ttl → 1000 * (ttl / 1000) = ttl ∧ 0 < ttl) : ∃ a cell',
      (redisCommand c).apply now cell = (a, cell') ∧ a.err = .ok () ∧
      cell'.filter (·.live now) = keyCell ((k.exec now c).live now) := by
  obtain ⟨entries, deadline⟩ := k
  cases entries with
  | nil =>
    obtain rfl : deadline = none := bare rfl
    have absent : cell.filter (·.live now) = none := found
    cases c with
    | lpush data =>
      refine ⟨.int 1, some ⟨.list [data], none⟩, ?_, rfl, rfl⟩
      simp only [redisCommand, Command.apply, absent, onList]
    | ltrim last =>
      refine ⟨.ok, cell, ?_, rfl, ?_⟩
      · simp only [redisCommand, Command.apply, absent, onList]
      · simpa [Key.exec, Key.live, keyCell] using absent
    | expire ttl =>
      refine ⟨.int 0, cell, ?_, rfl, ?_⟩
      · simp only [redisCommand, Command.apply, absent]
      · simpa [Key.exec, Key.live, keyCell] using absent
  | cons entry rest =>
    have alive : deadline.any (· ≤ now) = false := alive_of_live counts
    have present : cell.filter (·.live now) = some ⟨.list (entry :: rest), deadline⟩ := found
    have live : ∀ value : Value, (⟨value, deadline⟩ : Cell).live now = true := by
      intro value
      rw [cell_live, alive]
      rfl
    cases c with
    | lpush data =>
      refine ⟨.int ((entry :: rest).length + 1 : Nat), some ⟨.list (data :: entry :: rest), deadline⟩, ?_, rfl, ?_⟩
      · simp only [redisCommand, Command.apply, present, onList]
      · rw [live_alive alive]
        simp [Option.filter, live, keyCell, Key.exec]
    | ltrim last =>
      refine ⟨.ok, some ⟨.list ((entry :: rest).take (last + 1)), deadline⟩, ?_, rfl, ?_⟩
      · simp only [redisCommand, Command.apply, present, onList, List.drop_zero, List.take_succ_cons, keep]
      · rw [live_alive alive]
        simp [Option.filter, live, keyCell, Key.exec]
    | expire ttl =>
      obtain ⟨seconds, positive⟩ := whole ttl rfl
      have more : ¬ ((ttl / 1000 : Nat) : Int) ≤ 0 := by omega
      have later : (some (now + ttl)).any (· ≤ now) = false := by
        simp only [Option.any_some, decide_eq_false_iff_not]
        omega
      refine ⟨.int 1, some ⟨.list (entry :: rest), some (now + ttl)⟩, ?_, rfl, ?_⟩
      · simp only [redisCommand, Command.apply, present, if_neg more, Int.toNat_natCast, seconds]
      · have kept : Key.exec ⟨entry :: rest, deadline⟩ now (.expire ttl) = ⟨entry :: rest, some (now + ttl)⟩ := rfl
        have live' : (⟨.list (entry :: rest), some (now + ttl)⟩ : Cell).live now = true := by
          rw [cell_live, later]
          rfl
        rw [kept, live_alive later]
        simp [Option.filter, live', keyCell]

end Key

section Cached

variable {now : Nat} {store : Bytes → Option Cell} {keys : Bytes → Key} (cached : Cached now store keys)
include cached

theorem Cached.change (channelID : Bytes) {cell : Option Cell} {k : Key}
    (shown : cell.filter (·.live now) = keyCell (k.live now)) (bare : k.entries = [] → k.deadline = none) :
    Cached now (Function.update store (keyMsgCache channelID) cell) (Function.update keys channelID k) := by
  constructor
  · intro other
    by_cases same : other = channelID
    · subst same
      simpa only [Function.update_self] using shown
    · have apart : keyMsgCache other ≠ keyMsgCache channelID := by
        intro eq
        have records : Record.msgCache other = .msgCache channelID := key_inj.mp eq
        exact same (Record.msgCache.inj records)
      rw [Function.update_of_ne apart, Function.update_of_ne same]
      exact cached.shows other
  · intro other
    by_cases same : other = channelID
    · subst same
      simpa only [Function.update_self] using bare
    · rw [Function.update_of_ne same]
      exact cached.bare other

theorem Cached.command (channelID : Bytes) {c : MsgCache.Command}
    (whole : ∀ ttl, c = .expire ttl → 1000 * (ttl / 1000) = ttl ∧ 0 < ttl) : ∃ a cell,
      (redisCommand c).apply now (store (keyMsgCache channelID)) = (a, cell) ∧ a.err = .ok () ∧
      Cached now (Function.update store (keyMsgCache channelID) cell)
        (Function.update keys channelID (((keys channelID).live now).exec now c)) := by
  have bare := live_bare (cached.bare channelID) now
  obtain ⟨a, cell, done, fine, shown⟩ := command_cell (cached.shows channelID) (live_live _ now) bare whole
  exact ⟨a, cell, done, fine, cached.change channelID shown (exec_bare bare c)⟩

theorem Cached.lrange (channelID : Bytes) (stop : Nat) :
    (Command.lrange 0 stop).apply now (store (keyMsgCache channelID)) =
      (.bulks (((keys channelID).live now).entries.take (stop + 1)), store (keyMsgCache channelID)) := by
  simp only [Command.apply, cached.shows channelID, keyCell]
  split
  · rename_i none
    rw [none]
    rfl
  · rfl

theorem Cached.later (ms : Nat) : Cached (now + ms) store keys := by
  refine ⟨?_, cached.bare⟩
  intro channelID
  have le := Nat.le_add_right now ms
  calc (store (keyMsgCache channelID)).filter (·.live (now + ms))
      = ((store (keyMsgCache channelID)).filter (·.live now)).filter (·.live (now + ms)) := (filter_later _ le).symm
    _ = (keyCell ((keys channelID).live now)).filter (·.live (now + ms)) := by rw [cached.shows]
    _ = keyCell (((keys channelID).live now).live (now + ms)) := keyCell_filter _ _
    _ = keyCell ((keys channelID).live (now + ms)) := by rw [live_later _ le]

end Cached

theorem getMsgCache_refines (pkg : Packages) (channelID : Bytes) (lastMsgID limit : Int) :
    Refines Cached (getMsgCache pkg channelID lastMsgID limit) fun now keys =>
      (.ok (Pull.getMsgCache pkg.proto ((keys channelID).live now).entries lastMsgID limit), keys) := by
  refine ask_reads ?_
  intro now store keys cached
  refine ⟨_, cached.lrange channelID _, ?_⟩
  change Except.ok (Pull.getMsgCache pkg.proto (((keys channelID).live now).entries.take 200) lastMsgID limit) = _
  simp only [MsgCache.getMsgCache_eq, Pull.msgCacheMaxLen, List.take_take, Nat.min_self]

/-- The commands of the message cache; a push is three of them. -/
inductive CachePart where
  | write (channelID : Bytes) (msg : ImMessage) (c : MsgCache.Command)
  | read (channelID : Bytes) (lastMsgID limit : Int)

/-- The message that the call pushes, and the channel. -/
def Op.pushes : Op → Option (Bytes × ImMessage)
  | pushMsgCache channelID msg => some (channelID, msg)
  | postSendAsync channelID msg => some (channelID, msg)
  | _ => none

namespace CachePart

def act (pkg : Packages) (now : Nat) : CachePart → (Bytes → Key) → Answer × (Bytes → Key)
  | write channelID _ c, keys =>
    (.done, Function.update keys channelID (((keys channelID).live now).exec now c))
  | read channelID lastMsgID limit, keys =>
    (.msgs (Pull.getMsgCache pkg.proto ((keys channelID).live now).entries lastMsgID limit), keys)

inductive Of (pkg : Packages) : Op → Nat → CachePart → Prop where
  | write {op channelID msg commands j c} : op.pushes = some (channelID, msg) →
      MsgCache.pushMsgCache pkg.proto msg = some commands → commands[j]? = some c →
      Of pkg op j (.write channelID msg c)
  | read (channelID : Bytes) (lastMsgID limit : Int) :
      Of pkg (.getMsgCache channelID lastMsgID limit) 0 (.read channelID lastMsgID limit)

theorem Of.unique {pkg : Packages} {op : Op} {j : Nat} {p p' : CachePart} (of : Of pkg op j p)
    (of' : Of pkg op j p') : p = p' := by
  cases of with
  | write pushes made place =>
    cases of' with
    | write pushes' made' place' =>
      cases Option.some.inj (pushes.symm.trans pushes')
      cases Option.some.inj (made.symm.trans made')
      cases Option.some.inj (place.symm.trans place')
      rfl
    | read channelID lastMsgID limit => contradiction
  | read channelID lastMsgID limit =>
    cases of' with
    | write pushes made place => contradiction
    | read => rfl

def means (pkg : Packages) : CachePart → Reply → Answer → Prop
  | write _ _ _, a, ans => a.err = .ok () ∧ ans = .done
  | read channelID lastMsgID limit, a, ans =>
    ((Op.getMsgCache channelID lastMsgID limit).request pkg).read [a] = .ok ans

end CachePart

theorem pushes_batch (pkg : Packages) {op : Op} {channelID : Bytes} {msg : ImMessage}
    (pushes : op.pushes = some (channelID, msg)) : (op.request pkg).batch =
      ((MsgCache.pushMsgCache pkg.proto msg).getD []).map fun c =>
        .call (keyMsgCache channelID) (redisCommand c) .ret := by
  have pushed : (pushMsgCache pkg channelID msg).batch =
      ((MsgCache.pushMsgCache pkg.proto msg).getD []).map fun c =>
        .call (keyMsgCache channelID) (redisCommand c) .ret := by
    unfold pushMsgCache MsgCache.pushMsgCache
    cases pkg.proto.marshal msg <;> rfl
  cases op with
  | pushMsgCache id m =>
    cases Option.some.inj pushes
    exact pushed
  | postSendAsync id m =>
    cases Option.some.inj pushes
    exact pushed
  | _ => contradiction

theorem CachePart.Of.command {pkg : Packages} {op : Op} {j : Nat} {channelID : Bytes} {msg : ImMessage}
    {c : MsgCache.Command} (of : CachePart.Of pkg op j (.write channelID msg c)) :
    (∃ data, c = .lpush data ∧ pkg.proto.marshal msg = some data) ∨ c = .ltrim (Pull.msgCacheMaxLen - 1) ∨
      c = .expire Pull.msgCacheTTL := by
  cases of with
  | write pushes made place =>
    obtain ⟨data, marshalled, rfl⟩ := Option.map_eq_some_iff.mp made
    have member := List.mem_of_getElem? place
    simp only [List.mem_cons, List.not_mem_nil, or_false] at member
    rcases member with rfl | rfl | rfl
    · exact Or.inl ⟨data, rfl, marshalled⟩
    · exact Or.inr (Or.inl rfl)
    · exact Or.inr (Or.inr rfl)

theorem CachePart.Of.expires {pkg : Packages} {op : Op} {j : Nat} {channelID : Bytes} {msg : ImMessage}
    {c : MsgCache.Command} (of : CachePart.Of pkg op j (.write channelID msg c)) :
    ∀ ttl, c = .expire ttl → 1000 * (ttl / 1000) = ttl ∧ 0 < ttl := by
  rintro ttl rfl
  rcases of.command with ⟨data, same, _⟩ | same | same
  · contradiction
  · contradiction
  · cases same
    decide

def cacheModel (pkg : Packages) : Model Bytes Reply (Option Cell) Op (Bytes → Key) CachePart Answer where
  act := CachePart.act pkg
  pass _ keys := keys
  view := Cached
  part := CachePart.Of pkg
  means := CachePart.means pkg

theorem caches_follow (pkg : Packages) : Follows (system pkg Command.apply) (cacheModel pkg) := by
  refine ⟨fun _ _ _ _ => CachePart.Of.unique, ?_, ?_⟩
  · intro now ms store keys cached
    exact cached.later ms
  · intro op j p script of sent now store keys cached
    have part := of
    cases of with
    | @write _ channelID msg commands _ c pushes made place =>
      have batch := pushes_batch pkg pushes
      rw [made, Option.getD_some] at batch
      have sent : (op.request pkg).batch[j]? = some script := sent
      rw [batch, List.getElem?_map, place, Option.map_some] at sent
      cases Option.some.inj sent
      obtain ⟨a, cell, done, fine, after⟩ := cached.command channelID part.expires
      simp only [system, Script.exec, done]
      exact ⟨⟨fine, rfl⟩, after⟩
    | read channelID lastMsgID limit =>
      exact (answered_refines (getMsgCache_refines pkg channelID lastMsgID limit)).acts sent cached

theorem pushes_part {pkg : Packages} {op : Op} {channelID : Bytes} {msg : ImMessage}
    (pushes : op.pushes = some (channelID, msg)) (j : Nat) (script : Script Bytes Command Reply)
    (sent : (op.request pkg).batch[j]? = some script) : ∃ p, CachePart.Of pkg op j p := by
  rw [pushes_batch pkg pushes] at sent
  cases made : MsgCache.pushMsgCache pkg.proto msg with
  | none =>
    rw [made] at sent
    contradiction
  | some commands =>
    rw [made, Option.getD_some, List.getElem?_map] at sent
    obtain ⟨c, place, _⟩ := Option.map_eq_some_iff.mp sent
    exact ⟨_, .write pushes made place⟩

theorem cachePart_or_apart (pkg : Packages) (op : Op) :
    (∀ j script, (op.request pkg).batch[j]? = some script → ∃ p, CachePart.Of pkg op j p) ∨
      ∀ channelID : Bytes, Record.msgCache channelID ∉ op.records := by
  cases op with
  | pushMsgCache channelID msg => exact Or.inl (pushes_part rfl)
  | postSendAsync channelID msg => exact Or.inl (pushes_part rfl)
  | getMsgCache channelID lastMsgID limit =>
    left
    intro j script sent
    obtain ⟨only, batch, _⟩ := getMsgCache_refines pkg channelID lastMsgID limit
    rw [single_place batch sent]
    exact ⟨_, .read channelID lastMsgID limit⟩
  | batchGetPresence uids =>
    right
    intro channelID member
    obtain ⟨uid, _, same⟩ := List.mem_map.mp member
    contradiction
  | _ =>
    right
    intro channelID member
    simp [Op.records] at member

theorem caches_known (pkg : Packages) (op : Op) : Known (system pkg Command.apply) (cacheModel pkg) op := by
  intro j script sent
  rcases cachePart_or_apart pkg op with parts | apart
  · exact Or.inl (parts j script sent)
  · right
    intro now store keys cached
    refine ⟨?_, cached.bare⟩
    intro channelID
    have shown : Shows (fun id => (Record.msgCache id).key) store fun id => store (keyMsgCache id) := fun _ => rfl
    have same := shows_exec apart sent now shown channelID
    exact (congrArg (Option.filter (·.live now)) same).trans (cached.shows channelID)

section Reads

def Op.pushesTo (channelID : Bytes) (op : Op) : Option ImMessage :=
  op.pushes.bind fun p => if p.1 = channelID then some p.2 else none

def lpushed (channelID : Bytes) (s : State (Option Cell)) : Action → Option (Nat × ImMessage)
  | .serve i => (s.waiting i).bind fun call =>
    if call.served.isEmpty then (call.op.pushesTo channelID).map (i, ·) else none
  | _ => none

/-- The pushes to the channel, in the order in which Redis executed their LPUSH. -/
def executed (pkg : Packages) (channelID : Bytes) : State (Option Cell) → List Action → List (Nat × ImMessage) :=
  noted (step (system pkg Command.apply)) (fun done s a _ => done ++ (lpushed channelID s a).toList) []

/-- The messages that were pushed since the list was last empty, be it that nothing had been pushed or
that the list had expired. -/
def kept (pkg : Packages) (channelID : Bytes) : State (Option Cell) → List Action → List ImMessage :=
  noted (step (system pkg Command.apply)) (fun kept s a t =>
    if ((t.store (keyMsgCache channelID)).filter (·.live t.now)).isNone then []
    else kept ++ ((lpushed channelID s a).map Prod.snd).toList) []

def CachePart.pushed (channelID : Bytes) : CachePart → Option ImMessage
  | write id msg (.lpush _) => if id = channelID then some msg else none
  | _ => none

def pushed (channelID : Bytes) (log : List (Taken CachePart Answer)) : List (Nat × ImMessage) :=
  log.filterMap fun e => (e.part.pushed channelID).map (e.call, ·)

/-- The list has the newest messages that were pushed since it was last empty. -/
def Window (proto : Proto ImMessage) (k : Key) (kept : List ImMessage) : Prop :=
  (k.entries.take Pull.msgCacheMaxLen).map proto.unmarshal = (kept.reverse.take Pull.msgCacheMaxLen).map some

theorem window_read {proto : Proto ImMessage} {k : Key} {kept : List ImMessage} (window : Window proto k kept)
    (lastMsgID limit : Int) : Pull.getMsgCache proto k.entries lastMsgID limit = cut (newer kept lastMsgID) limit := by
  have read : (k.entries.take Pull.msgCacheMaxLen).reverse.filterMap proto.unmarshal =
      MsgCache.lastOf kept Pull.msgCacheMaxLen := by
    rw [MsgCache.filterMap_reverse_agree window, List.take_reverse, List.reverse_reverse]
    rfl
  rw [MsgCache.getMsgCache_eq, read, newer]

theorem window_exec {proto : Proto ImMessage} {k : Key} {kept : List ImMessage} (window : Window proto k kept)
    (now : Nat) {channelID : Bytes} {msg : ImMessage} {c : MsgCache.Command}
    (command : (∃ data, c = .lpush data ∧ proto.marshal msg = some data) ∨ c = .ltrim (Pull.msgCacheMaxLen - 1) ∨
      c = .expire Pull.msgCacheTTL) :
    Window proto (k.exec now c) (kept ++ ((CachePart.write channelID msg c).pushed channelID).toList) := by
  rcases command with ⟨data, rfl, marshalled⟩ | rfl | rfl
  · have back : proto.unmarshal data = some msg := proto.undoes msg data marshalled
    have older := MsgCache.take_agree (n := 199) window
    simp only [Window, Key.exec, CachePart.pushed, if_true, Option.toList_some, List.reverse_append,
      List.reverse_singleton, List.singleton_append, Pull.msgCacheMaxLen, List.take_succ_cons, List.map_cons,
      back, older]
  · simp only [Window, Key.exec, CachePart.pushed, Option.toList_none, List.append_nil]
    rw [List.take_take]
    exact window
  · simp only [Window, Key.exec, CachePart.pushed, Option.toList_none, List.append_nil]
    split
    · exact window
    · exact window

theorem exec_live {k : Key} {now : Nat} (counts : k.live now = k) {c : MsgCache.Command}
    (lasts : ∀ ttl, c = .expire ttl → 0 < ttl) : (k.exec now c).live now = k.exec now c := by
  have alive := alive_of_live counts
  apply live_alive
  cases c with
  | lpush data => exact alive
  | ltrim last => exact alive
  | expire ttl =>
    have positive := lasts ttl rfl
    by_cases empty : k.entries = []
    · simp only [Key.exec, if_pos empty, alive]
    · simp only [Key.exec, if_neg empty, Option.any_some, decide_eq_false_iff_not]
      omega

/- What was pushed counts from the last time that the list was empty. -/
theorem window_restart {proto : Proto ImMessage} {now : Nat} {store : Bytes → Option Cell} {keys : Bytes → Key}
    (cached : Cached now store keys) {channelID : Bytes} {kept : List ImMessage}
    (window : ((keys channelID).live now).entries ≠ [] → Window proto ((keys channelID).live now) kept) :
    Window proto ((keys channelID).live now)
      (if ((store (keyMsgCache channelID)).filter (·.live now)).isNone then [] else kept) := by
  rw [cached.shows, keyCell]
  by_cases empty : ((keys channelID).live now).entries = []
  · rw [if_pos empty, Option.isNone_none, if_pos rfl, Window, empty]
    rfl
  · rw [if_neg empty]
    exact window empty

variable {pkg : Packages} {channelID : Bytes} {m n : Logged (Bytes → Key) CachePart Answer}

theorem pushed_append (log : List (Taken CachePart Answer)) (e : Taken CachePart Answer) :
    pushed channelID (log ++ [e]) = pushed channelID log ++ ((e.part.pushed channelID).map (e.call, ·)).toList := by
  unfold pushed
  rw [List.filterMap_append]
  cases found : e.part.pushed channelID with
  | none => simp [found]
  | some msg => simp [found]

theorem take_window {kept : List ImMessage} (window : Window pkg.proto ((m.state channelID).live m.now) kept)
    (i j : Nat) {p : CachePart} {op : Op} (of : CachePart.Of pkg op j p)
    (taken : (cacheModel pkg).step m (.take i j p) = some n) :
    Window pkg.proto ((n.state channelID).live n.now) (kept ++ (p.pushed channelID).toList) := by
  cases Option.some.inj taken
  cases p with
  | write id msg c =>
    by_cases own : id = channelID
    · subst own
      have lasts : ∀ ttl, c = .expire ttl → 0 < ttl := fun ttl same => (of.expires ttl same).2
      simp only [cacheModel, CachePart.act, Function.update_self]
      rw [exec_live (live_live _ _) lasts]
      exact window_exec window m.now of.command
    · have silent : (CachePart.write id msg c).pushed channelID = none := by
        cases c <;> simp [CachePart.pushed, own]
      simp only [cacheModel, CachePart.act]
      rw [Function.update_of_ne (Ne.symm own), silent, Option.toList_none, List.append_nil]
      exact window
  | read id lastMsgID limit =>
    have silent : (CachePart.read id lastMsgID limit).pushed channelID = none := rfl
    rw [silent, Option.toList_none, List.append_nil]
    exact window

theorem pass_window {k : Key} {now : Nat} {kept : List ImMessage} (window : Window pkg.proto (k.live now) kept)
    (ms : Nat) (present : (k.live (now + ms)).entries ≠ []) : Window pkg.proto (k.live (now + ms)) kept := by
  cases due : k.deadline.any (· ≤ now + ms) with
  | true =>
    rw [live_due due] at present
    contradiction
  | false =>
    have alive : k.deadline.any (· ≤ now) = false := by
      cases early : k.deadline.any (· ≤ now) with
      | false => rfl
      | true => exact (due_later early (Nat.le_add_right _ ms)).symm.trans due
    rw [live_alive due]
    rw [live_alive alive] at window
    exact window

theorem CachePart.Of.lpushed {s : State (Option Cell)} {i : Nat} {call : Call Op Reply (Outcome Answer)}
    (waits : s.waiting i = some call) {p : CachePart} (of : CachePart.Of pkg call.op call.served.length p) :
    lpushed channelID s (.serve i) = (p.pushed channelID).map (i, ·) := by
  simp only [RedisStore.lpushed, waits, Option.bind_some]
  generalize call.op = op at of
  generalize place : call.served.length = j at of
  cases of with
  | read id lastMsgID limit => simp [Op.pushesTo, Op.pushes, CachePart.pushed]
  | @write _ id msg commands _ c pushes made command =>
    obtain ⟨data, _, rfl⟩ := Option.map_eq_some_iff.mp made
    rw [← place] at command
    cases served : call.served with
    | nil =>
      rw [served] at command
      cases Option.some.inj command
      simp [Op.pushesTo, pushes, CachePart.pushed]
    | cons first rest =>
      rw [served] at command
      have later : (CachePart.write id msg c).pushed channelID = none := by
        rcases rest with _ | ⟨second, _ | ⟨third, rest⟩⟩
        · cases Option.some.inj command
          rfl
        · cases Option.some.inj command
          rfl
        · contradiction
      simp [later]

theorem lpushed_some {s : State (Option Cell)} {a : Action} {e : Nat × ImMessage}
    (pushes : lpushed channelID s a = some e) : a = .serve e.1 ∧ ∃ call, s.waiting e.1 = some call ∧
      call.served = [] ∧ call.op.pushesTo channelID = some e.2 := by
  cases a with
  | serve i =>
    obtain ⟨call, waits, first⟩ := Option.bind_eq_some_iff.mp pushes
    split at first
    · rename_i unserved
      obtain ⟨msg, own, rfl⟩ := Option.map_eq_some_iff.mp first
      exact ⟨rfl, call, waits, List.isEmpty_iff.mp unserved, own⟩
    · contradiction
  | _ => contradiction

theorem lpushed_none {s t : State (Option Cell)} {a : Action} (taken : step (system pkg Command.apply) s a = some t)
    (apart : ∀ i call, a = .serve i → s.waiting i = some call →
      ∀ p, ¬ CachePart.Of pkg call.op call.served.length p) : lpushed channelID s a = none := by
  by_contra pushes
  obtain ⟨e, pushed⟩ := Option.ne_none_iff_exists'.mp pushes
  obtain ⟨rfl, call, waits, _, own⟩ := lpushed_some pushed
  obtain ⟨⟨id, msg⟩, sends, _⟩ := Option.bind_eq_some_iff.mp own
  cases step_effect taken with
  | @serve _ call' script waits' sent =>
    cases Option.some.inj (waits.symm.trans waits')
    obtain ⟨p, of⟩ := pushes_part sends _ script sent
    exact apart e.1 call rfl waits p of

/-- The keyspace beside the model, with what was executed and what counts since the list was last
empty read off the run. -/
structure Followed (pkg : Packages) (channelID : Bytes) (s : State (Option Cell)) (as : List Action)
    (t : State (Option Cell)) (n : Logged (Bytes → Key) CachePart Answer) : Prop where
  linear : Linear (system pkg Command.apply) (cacheModel pkg) t n
  pushes : pushed channelID n.log = executed pkg channelID s as
  window : Window pkg.proto ((n.state channelID).live n.now) (kept pkg channelID s as)
  reads : ∀ e ∈ n.log, ∀ lastMsgID limit, e.part = .read channelID lastMsgID limit →
    ∃ before, before ++ [.serve e.call] <+: as ∧
      e.result = .msgs (cut (newer (kept pkg channelID s before) lastMsgID) limit)

section Step

variable {s u v : State (Option Cell)} {as : List Action} {a : Action}

theorem Followed.old (before : Followed pkg channelID s as u m) (a : Action) :
    ∀ e ∈ m.log, ∀ lastMsgID limit, e.part = .read channelID lastMsgID limit →
      ∃ before, before ++ [.serve e.call] <+: as ++ [a] ∧
        e.result = .msgs (cut (newer (kept pkg channelID s before) lastMsgID) limit) := by
  intro e listed lastMsgID limit part
  obtain ⟨earlier, within, result⟩ := before.reads e listed lastMsgID limit part
  exact ⟨earlier, within.trans (List.prefix_append as [a]), result⟩

theorem step_followed (before : Followed pkg channelID s as u m)
    (reached : run (step (system pkg Command.apply)) s as = some u)
    (taken : step (system pkg Command.apply) u a = some v) : ∃ n, Followed pkg channelID s (as ++ [a]) v n := by
  obtain ⟨bs, n, moved, linear, moves⟩ := step_linear (caches_follow pkg) before.linear
    (fun op _ => caches_known pkg op) taken
  have done : executed pkg channelID s (as ++ [a]) =
      executed pkg channelID s as ++ (lpushed channelID u a).toList := noted_concat [] reached taken
  have fresh : kept pkg channelID s (as ++ [a]) =
      if ((v.store (keyMsgCache channelID)).filter (·.live v.now)).isNone then []
      else kept pkg channelID s as ++ ((lpushed channelID u a).map Prod.snd).toList := noted_concat [] reached taken
  have restart : ∀ {X : List ImMessage},
      (((n.state channelID).live n.now).entries ≠ [] → Window pkg.proto ((n.state channelID).live n.now) X) →
      Window pkg.proto ((n.state channelID).live n.now)
        (if ((v.store (keyMsgCache channelID)).filter (·.live v.now)).isNone then [] else X) := by
    intro X window
    rw [linear.clock] at window ⊢
    exact window_restart linear.shown window
  refine ⟨n, linear, ?_, ?_, ?_⟩
  · rw [done, ← before.pushes]
    cases moves with
    | @take i call p serves waits of =>
      subst serves
      cases Option.some.inj moved
      rw [pushed_append, of.lpushed waits]
    | pass ticks =>
      subst ticks
      cases Option.some.inj moved
      simp [lpushed]
    | none apart =>
      cases Option.some.inj moved
      rw [lpushed_none taken apart, Option.toList_none, List.append_nil]
  · rw [fresh]
    refine restart ?_
    intro present
    cases moves with
    | @take i call p serves waits of =>
      subst serves
      have next : (cacheModel pkg).step m (.take i call.served.length p) = some n := moved
      have same : ((p.pushed channelID).map (i, ·)).map Prod.snd = p.pushed channelID := by
        cases p.pushed channelID <;> rfl
      rw [of.lpushed waits, same]
      exact take_window before.window i _ of next
    | @pass ms ticks =>
      subst ticks
      cases Option.some.inj moved
      simp only [lpushed, Option.map_none, Option.toList_none, List.append_nil]
      exact pass_window before.window ms present
    | none apart =>
      cases Option.some.inj moved
      simp only [lpushed_none taken apart, Option.map_none, Option.toList_none, List.append_nil]
      exact before.window
  · cases moves with
    | @take i call p serves waits of =>
      subst serves
      cases Option.some.inj moved
      intro e listed lastMsgID limit part
      rcases List.mem_append.mp listed with old | new
      · exact before.old _ e old lastMsgID limit part
      · cases List.mem_singleton.mp new
        cases part
        exact ⟨as, List.prefix_rfl, congrArg Answer.msgs (window_read before.window lastMsgID limit)⟩
    | pass ticks =>
      cases Option.some.inj moved
      exact before.old a
    | none apart =>
      cases Option.some.inj moved
      exact before.old a

end Step

theorem run_followed {s t : State (Option Cell)} {as : List Action} (idle : s.calls = [])
    (empty : ∀ channelID, s.store (keyMsgCache channelID) = none)
    (taken : run (step (system pkg Command.apply)) s as = some t) : ∃ n, Followed pkg channelID s as t n := by
  have nothing : Cached s.now s.store fun _ => ⟨[], none⟩ := by
    refine ⟨?_, fun _ _ => rfl⟩
    intro channelID
    rw [empty]
    rfl
  refine run_history (fun as t => ∃ n, Followed pkg channelID s as t n) ?_ ?_ taken
  · exact ⟨_, linear_idle idle nothing, rfl, rfl, fun _ none => absurd none List.not_mem_nil⟩
  · rintro as u a v reached ⟨m, before⟩ next
    exact step_followed before reached next

theorem kept_suffix {s t : State (Option Cell)} {as : List Action}
    (taken : run (step (system pkg Command.apply)) s as = some t) :
    kept pkg channelID s as <:+ (executed pkg channelID s as).map Prod.snd := by
  refine run_history (fun as _ => kept pkg channelID s as <:+ (executed pkg channelID s as).map Prod.snd)
    List.nil_suffix ?_ taken
  intro as u a v reached before next
  have done : executed pkg channelID s (as ++ [a]) =
      executed pkg channelID s as ++ (lpushed channelID u a).toList := noted_concat [] reached next
  have fresh : kept pkg channelID s (as ++ [a]) =
      if ((v.store (keyMsgCache channelID)).filter (·.live v.now)).isNone then []
      else kept pkg channelID s as ++ ((lpushed channelID u a).map Prod.snd).toList := noted_concat [] reached next
  rw [done, fresh, List.map_append]
  split
  · exact List.nil_suffix
  · obtain ⟨lost, all⟩ := before
    refine ⟨lost, ?_⟩
    rw [← List.append_assoc, all]
    cases lpushed channelID u a <;> rfl

/- Without a request that is sent twice, no call pushes twice: its LPUSH is executed while it has no
reply, and then it has one. -/
theorem executed_once {s t : State (Option Cell)} {as : List Action}
    (taken : run (step (system pkg Command.apply)) s as = some t) (unsent : ∀ i, .resend i ∉ as) :
    ((executed pkg channelID s as).map Prod.fst).Nodup := by
  have both := run_history (fun as t => (∀ i, .resend i ∉ as) → ((executed pkg channelID s as).map Prod.fst).Nodup ∧
    ∀ e ∈ executed pkg channelID s as, ∃ call, t.calls[e.1]? = some call ∧ 0 < call.served.length) ?_ ?_ taken
  · exact (both unsent).1
  · exact fun _ => ⟨.nil, fun _ none => absurd none List.not_mem_nil⟩
  · intro as u a v reached before next unsent
    obtain ⟨nodup, served⟩ := before fun i member => unsent i (List.mem_append_left _ member)
    have single : ∀ i, a ≠ .resend i := fun i same => unsent i (by simp [same])
    have done : executed pkg channelID s (as ++ [a]) =
        executed pkg channelID s as ++ (lpushed channelID u a).toList := noted_concat [] reached next
    have old : ∀ e ∈ executed pkg channelID s as, ∃ call, v.calls[e.1]? = some call ∧ 0 < call.served.length := by
      intro e listed
      obtain ⟨call, found, some⟩ := served e listed
      obtain ⟨call', found', _, more⟩ := step_kept next found
      exact ⟨call', found', Nat.lt_of_lt_of_le some (more single)⟩
    rw [done]
    cases pushes : lpushed channelID u a with
    | none =>
      rw [Option.toList_none, List.append_nil]
      exact ⟨nodup, old⟩
    | some e =>
      obtain ⟨rfl, call, waits, unserved, _⟩ := lpushed_some pushes
      have here := (waiting_some waits).1
      rw [Option.toList_some, List.map_append]
      refine ⟨?_, ?_⟩
      · refine List.nodup_append.mpr ⟨nodup, List.pairwise_singleton _ _, ?_⟩
        intro i before j new same
        cases List.mem_singleton.mp new
        obtain ⟨e', listed, rfl⟩ := List.mem_map.mp before
        obtain ⟨call', found, some⟩ := served e' listed
        rw [same] at found
        cases Option.some.inj (here.symm.trans found)
        rw [unserved] at some
        contradiction
      · intro e' listed
        rcases List.mem_append.mp listed with before | new
        · exact old e' before
        · cases List.mem_singleton.mp new
          cases step_effect next with
          | @serve _ call' script waits' sent =>
            refine ⟨_, List.getElem?_set_self (List.getElem?_eq_some_iff.mp (waiting_some waits').1).1, ?_⟩
            simp

theorem CachePart.Of.pushed {op : Op} {j : Nat} {p : CachePart} (of : CachePart.Of pkg op j p) {msg : ImMessage}
    (found : p.pushed channelID = some msg) : op.pushesTo channelID = some msg := by
  cases of with
  | read id lastMsgID limit => contradiction
  | @write _ id m commands _ c pushes made place =>
    cases c with
    | lpush data =>
      rw [Op.pushesTo, pushes]
      exact found
    | ltrim last => contradiction
    | expire ttl => contradiction

theorem firstErr_ok {cmds : List Reply} (ok : firstErr cmds = .ok ()) : ∀ reply ∈ cmds, reply.err = .ok () := by
  induction cmds with
  | nil => exact fun _ none => absurd none List.not_mem_nil
  | cons first rest ih =>
    have ok : (first.err >>= fun _ => firstErr rest) = .ok () := ok
    cases fine : first.err with
    | error e =>
      rw [fine] at ok
      contradiction
    | ok done =>
      rw [fine] at ok
      intro reply member
      rcases List.mem_cons.mp member with rfl | later
      · exact fine
      · exact ih ok reply later

theorem Followed.pushed_ok {s t : State (Option Cell)} {as : List Action} (followed : Followed pkg channelID s as t n)
    {i : Nat} {call : Call Op Reply (Outcome Answer)} (found : t.calls[i]? = some call) {msg : ImMessage}
    (same : call.op = .pushMsgCache channelID msg) (answer : call.answer = some (.ok .done)) :
    (i, msg) ∈ executed pkg channelID s as := by
  obtain ⟨replies, read, length, each⟩ := (followed.linear.calls i call found).answered _ answer
  rw [same] at read length each
  have batch := @pushes_batch pkg (.pushMsgCache channelID msg) _ _ rfl
  cases marshalled : pkg.proto.marshal msg with
  | none =>
    have failed : ((Op.pushMsgCache channelID msg).request pkg).read replies = .error .codec := by
      simp only [Op.request, answered, Request.map, pushMsgCache, marshalled]
      rfl
    cases read.trans failed
  | some data =>
    have made : MsgCache.pushMsgCache pkg.proto msg = some [.lpush data, .ltrim 199, .expire Pull.msgCacheTTL] := by
      rw [MsgCache.pushMsgCache, marshalled]
      rfl
    have part : CachePart.Of pkg (.pushMsgCache channelID msg) 0 (.write channelID msg (.lpush data)) :=
      .write rfl made rfl
    have three : replies.length = 3 := by
      rw [length]
      exact (congrArg List.length batch).trans (by rw [made]; rfl)
    have ok : firstErr replies = .ok () := by
      simp only [system, Op.request, answered, Request.map, pushMsgCache, marshalled, pipeline] at read
      cases all : firstErr replies with
      | ok done => rfl
      | error e =>
        rw [all] at read
        contradiction
    have here : replies[0]? = some replies[0] := List.getElem?_eq_getElem (by omega)
    rcases each 0 _ here with told | ⟨text, lost⟩
    · obtain ⟨q, listed, _⟩ := told _ part
      rw [← followed.pushes]
      refine List.mem_filterMap.mpr ⟨_, listed, ?_⟩
      simp [CachePart.pushed]
    · have fine := firstErr_ok ok _ (List.mem_of_getElem? here)
      rw [lost] at fine
      contradiction

/-- However calls are mixed, resent and lost and the lists expire: the messages whose LPUSH was executed
on the list of a channel are those of calls that push to it, and no call's twice if no request is sent
twice; a push that returned no error was executed; and a GetMsgCache that returned messages was
executed at some point of the run, and returned, in the order of the LPUSHes, those above lastMsgID
among the last 200 that had been pushed since the list was last empty, cut to the last `limit` of
them. -/
theorem cache_reads_pushed (pkg : Packages) {s t : State (Option Cell)} {as : List Action} (idle : s.calls = [])
    (empty : ∀ channelID, s.store (keyMsgCache channelID) = none)
    (taken : run (step (system pkg Command.apply)) s as = some t) (channelID : Bytes) :
    (∀ i msg, (i, msg) ∈ executed pkg channelID s as →
      ∃ call, t.calls[i]? = some call ∧ call.op.pushesTo channelID = some msg) ∧
    ((∀ i, .resend i ∉ as) → ((executed pkg channelID s as).map Prod.fst).Nodup) ∧
    (∀ i call msg, t.calls[i]? = some call → call.op = .pushMsgCache channelID msg →
      call.answer = some (.ok .done) → (i, msg) ∈ executed pkg channelID s as) ∧
    ∀ i call lastMsgID limit msgs, t.calls[i]? = some call → call.op = .getMsgCache channelID lastMsgID limit →
      call.answer = some (.ok (.msgs msgs)) → ∃ before, before ++ [.serve i] <+: as ∧
        kept pkg channelID s before <:+ (executed pkg channelID s before).map Prod.snd ∧
        msgs = cut ((MsgCache.lastOf (kept pkg channelID s before) Pull.msgCacheMaxLen).filter
          fun msg => lastMsgID < msg.msgId) limit := by
  obtain ⟨n, followed⟩ := run_followed idle empty taken
  refine ⟨?_, executed_once taken, ?_, ?_⟩
  · intro i msg member
    rw [← followed.pushes] at member
    obtain ⟨e, listed, read⟩ := List.mem_filterMap.mp member
    obtain ⟨_, found, same⟩ := Option.map_eq_some_iff.mp read
    cases same
    obtain ⟨call, here, of⟩ := followed.linear.origin e listed
    exact ⟨call, here, of.pushed found⟩
  · exact fun i call msg found => followed.pushed_ok found
  · intro i call lastMsgID limit msgs found same answer
    obtain ⟨only, batch, _⟩ := getMsgCache_refines pkg channelID lastMsgID limit
    have part : CachePart.Of pkg call.op 0 (.read channelID lastMsgID limit) := same ▸ .read channelID lastMsgID limit
    have single : ((system pkg Command.apply).request call.op).batch = [only] := by
      rw [same]
      exact batch
    obtain ⟨a, read, told | ⟨text, rfl⟩⟩ := followed.linear.answer found single part answer
    · obtain ⟨ans, logged, means⟩ := told
      obtain ⟨before, within, result⟩ := followed.reads _ logged lastMsgID limit rfl
      obtain ⟨after, split⟩ := within
      rw [← split, List.append_assoc] at taken
      obtain ⟨u, reached, _⟩ := run_append_some.mp taken
      refine ⟨before, ⟨after, split⟩, kept_suffix reached, ?_⟩
      rw [same] at read
      have equal := Except.ok.inj (read.trans means)
      exact Answer.msgs.inj (equal.trans result)
    · rw [same] at read
      contradiction

def asMsgs : Answer → Option (List ImMessage)
  | .msgs msgs => some msgs
  | _ => none

theorem asMsgs_eq (ans : Answer) (msgs : List ImMessage) (has : asMsgs ans = some msgs) : ans = .msgs msgs := by
  cases ans with
  | msgs found =>
    cases Option.some.inj has
    rfl
  | _ => contradiction

def unaryPackages : Packages := { decimalPackages with proto := Pull.unary }

/- A push that is sent again after its first command is in the list twice. -/
def resentPush : List Action :=
  [.start (.pushMsgCache (utf8 "world") (Pull.plain 3)), .start (.postSendAsync (utf8 "world") (Pull.plain 5)),
    .serve 0, .serve 1, .resend 0, .serve 0, .serve 0, .serve 0, .answer 0, .serve 1, .serve 1, .answer 1,
    .start (.getMsgCache (utf8 "world") 0 10), .serve 2, .answer 2]

theorem cache_reads_pushed_resent : ∃ t call,
    run (step (system unaryPackages Command.apply)) empty resentPush = some t ∧ t.calls[2]? = some call ∧
    call.answer = some (.ok (.msgs [Pull.plain 3, Pull.plain 5, Pull.plain 3])) ∧
    executed unaryPackages (utf8 "world") empty resentPush =
      [(0, Pull.plain 3), (1, Pull.plain 5), (0, Pull.plain 3)] ∧
    ∃ before, before ++ [.serve 2] <+: resentPush ∧ [Pull.plain 3, Pull.plain 5, Pull.plain 3] =
      cut ((MsgCache.lastOf (kept unaryPackages (utf8 "world") empty before) Pull.msgCacheMaxLen).filter
        fun msg => 0 < msg.msgId) 10 := by
  have done : (run (step (system unaryPackages Command.apply)) empty resentPush).map
      (fun t => t.calls[2]?.map fun call => (call.op, returned asMsgs call.answer)) =
        some (some (.getMsgCache (utf8 "world") 0 10, some [Pull.plain 3, Pull.plain 5, Pull.plain 3])) := by
    decide +kernel
  obtain ⟨t, taken, seen⟩ := Option.map_eq_some_iff.mp done
  obtain ⟨call, found, same⟩ := Option.map_eq_some_iff.mp seen
  obtain ⟨op, has⟩ := Prod.mk.inj same
  have answer := returned_eq asMsgs_eq has
  obtain ⟨_, _, _, reads⟩ := cache_reads_pushed unaryPackages rfl (fun _ => rfl) taken (utf8 "world")
  obtain ⟨before, within, _, msgs⟩ := reads 2 call 0 10 _ found op answer
  exact ⟨t, call, taken, found, answer, by decide +kernel, before, within, msgs⟩

end Reads

end GameIM.Store.RedisStore
