import GameIM.Store.Views
import GameIM.Service.SeqPlain

/-! The counters and records of the send path are the cells of the keyspace under the keys of
their kinds. However the calls of RedisStore are mixed, they are a run of the model of the
send path. -/
namespace GameIM.Store.RedisStore
open Lib Lib.Text Lib.Keyed Api Keys Service

/-- The string keys of the send path. -/
inductive Counter where
  | seq (channelID : String)
  | dedup (clientMsgID : String)
  | rateLimit (uid : Int)

def Counter.key : Counter → String
  | seq channelID => Store.keySeq channelID
  | dedup clientMsgID => Store.keyDedup clientMsgID
  | rateLimit uid => Store.keyRateLimit uid

def Counter.record : Counter → Record
  | seq channelID => .seq (utf8 channelID)
  | dedup clientMsgID => .dedup (utf8 clientMsgID)
  | rateLimit uid => .rateLimit uid

theorem utf8_key (i : Counter) : utf8 i.key = i.record.key := by
  cases i with
  | seq channelID => exact utf8_keySeq channelID
  | dedup clientMsgID => exact utf8_keyDedup clientMsgID
  | rateLimit uid => exact utf8_keyRateLimit uid

theorem record_injective : Function.Injective fun i : Counter => i.record.key := by
  intro i j same
  have records := key_inj.mp same
  cases i <;> cases j <;> simp_all [Counter.record, utf8_inj]

theorem counter_key_ne {i j : Counter} (differ : j ≠ i) : j.key ≠ i.key := by
  intro same
  apply differ
  apply record_injective
  simp only [← utf8_key, same]

def entryCell (e : Entry) : Cell := ⟨.str (decimal e.val), e.deadline⟩

/- A record of an id is read by a script. -/
def Counter.Holds : Counter → Int → Prop
  | dedup _, n => IsExact n
  | _, n => IsInt64 n

theorem Counter.Holds.isInt64 {i : Counter} {n : Int} (holds : i.Holds n) : IsInt64 n := by
  cases i with
  | dedup clientMsgID => exact IsExact.isInt64 holds
  | _ => exact holds

/-- The keyspace holds the entries that the model of the send path has. -/
structure Counters (store : Bytes → Option Cell) (r : Redis) : Prop where
  shows : Shows (fun i : Counter => i.record.key) store fun i => (r.keys i.key).map entryCell
  within : ∀ (i : Counter) e, r.keys i.key = some e → i.Holds e.val

section Cells

variable {store : Bytes → Option Cell} {r : Redis} (now : Nat)

theorem find_cell (r : Redis) (key : String) :
    ((r.keys key).map entryCell).filter (·.live now) = (r.find now key).map entryCell :=
  Option.filter_map

def countReply : Option Int → Reply
  | some n => .int n
  | none => .error overflow

theorem incrCell_entry (cell : Option Cell) {found : Option Entry} (within : ∀ e, found = some e → IsInt64 e.val)
    (delta : Int) : incrCell cell (found.map entryCell) delta =
      addTo cell ((found.map (·.val)).getD 0) delta (found.bind (·.deadline)) := by
  cases found with
  | none => rfl
  | some e =>
    simp only [incrCell, onStr, Option.map_some, entryCell, readInt64_decimal (within e rfl), Option.getD_some,
      Option.bind_some]

theorem incrby_cell (r : Redis) (key : String) (delta : Int)
    (within : ∀ e, r.find now key = some e → IsInt64 e.val) :
    (Command.incrby delta).apply now ((r.keys key).map entryCell) =
      (countReply (r.incrKeyBy now key delta).1, ((r.incrKeyBy now key delta).2.keys key).map entryCell) := by
  have counts : incrCell ((r.keys key).map entryCell) ((r.find now key).map entryCell) delta =
      addTo ((r.keys key).map entryCell) ((r.get now key).getD 0) delta ((r.find now key).bind (·.deadline)) :=
    incrCell_entry _ within delta
  simp only [Command.apply, find_cell, counts]
  by_cases full : Overflows ((r.get now key).getD 0) delta
  · rw [Redis.incrKeyBy_refused full, addTo, if_pos full]
    rfl
  · rw [Redis.incrKeyBy_done full, addTo, if_neg full, Redis.put_keys_same]
    rfl

def getReply : Option Int → Reply
  | none => .nil
  | some v => .bulk (decimal v)

theorem get_cell (r : Redis) (key : String) :
    Command.get.apply now ((r.keys key).map entryCell) =
      (getReply (r.get now key), (r.keys key).map entryCell) := by
  simp only [Command.apply, find_cell, Redis.get]
  cases r.find now key <;> rfl

theorem expire_cell (r : Redis) (key : String) {seconds : Nat} (positive : 0 < seconds) :
    ∃ n, (Command.expire seconds).apply now ((r.keys key).map entryCell) =
      (.int n, ((r.expire now key seconds).keys key).map entryCell) := by
  simp only [Command.apply, find_cell, Redis.expire]
  cases r.find now key with
  | none => exact ⟨0, rfl⟩
  | some e =>
    refine ⟨1, ?_⟩
    have kept : ¬ (seconds : Int) ≤ 0 := by omega
    simp only [Option.map_some, if_neg kept, Redis.put_keys_same, Int.toNat_natCast]
    rfl

theorem set_cell (r : Redis) (key : String) (v : Int) (seconds : Nat) (cell : Option Cell) :
    (Command.set (decimal v) (some seconds)).apply now cell =
      (.ok, ((r.setEx now key v seconds).keys key).map entryCell) := by
  simp only [Command.apply, Redis.setEx, Redis.put_keys_same]
  rfl

variable (holds : Counters store r) (i : Counter)
include holds

theorem Counters.change {q : Redis} (others : ∀ key, key ≠ i.key → q.keys key = r.keys key)
    (kept : ∀ e, q.keys i.key = some e → i.Holds e.val) :
    Counters (Function.update store i.record.key ((q.keys i.key).map entryCell)) q := by
  refine ⟨Shows.change holds.shows record_injective i (fun j => (q.keys j.key).map entryCell) ?_, ?_⟩
  · intro j differ
    simp only [others j.key (counter_key_ne differ)]
  · intro j e entry
    by_cases same : j = i
    · subst same
      exact kept e entry
    · rw [others j.key (counter_key_ne same)] at entry
      exact holds.within j e entry

theorem Counters.found {e : Entry} (entry : r.find now i.key = some e) : i.Holds e.val :=
  holds.within i e (Option.filter_eq_some_iff.mp entry).1

theorem Counters.got {v : Int} (read : r.get now i.key = some v) : i.Holds v := by
  obtain ⟨e, entry, rfl⟩ := Option.map_eq_some_iff.mp read
  exact holds.found now i entry

theorem Counters.incrby (counts : ∀ n, IsInt64 n → i.Holds n) (delta : Int) : ∃ cell,
    (Command.incrby delta).apply now (store i.record.key) = (countReply (r.incrKeyBy now i.key delta).1, cell) ∧
      Counters (Function.update store i.record.key cell) (r.incrKeyBy now i.key delta).2 := by
  refine ⟨_, ?_, holds.change i (fun key other => Redis.incrKeyBy_keys_ne r now delta other) ?_⟩
  · rw [holds.shows i]
    exact incrby_cell now r i.key delta fun e found => (holds.found now i found).isInt64
  · intro e entry
    by_cases full : Overflows ((r.get now i.key).getD 0) delta
    · rw [Redis.incrKeyBy_refused full] at entry
      exact holds.within i e entry
    · rw [Redis.incrKeyBy_done full, Redis.put_keys_same] at entry
      cases Option.some.inj entry
      refine counts _ (isInt64_add ?_ full)
      cases read : r.get now i.key with
      | none => decide
      | some v => exact (holds.got now i read).isInt64

theorem Counters.expire {seconds : Nat} (positive : 0 < seconds) : ∃ n cell,
    (Command.expire seconds).apply now (store i.record.key) = (.int n, cell) ∧
      Counters (Function.update store i.record.key cell) (r.expire now i.key seconds) := by
  obtain ⟨n, done⟩ := expire_cell now r i.key positive
  refine ⟨n, _, ?_, holds.change i (fun key other => Redis.expire_keys_ne r now seconds other) ?_⟩
  · rw [holds.shows i]
    exact done
  · intro e entry
    unfold Redis.expire at entry
    split at entry
    · rename_i old found
      rw [Redis.put_keys_same] at entry
      have kept := holds.found now i found
      cases Option.some.inj entry
      exact kept
    · exact holds.within i e entry

theorem Counters.set {v : Int} (value : i.Holds v) (seconds : Nat) : ∃ cell,
    (Command.set (decimal v) (some seconds)).apply now (store i.record.key) = (.ok, cell) ∧
      Counters (Function.update store i.record.key cell) (r.setEx now i.key v seconds) := by
  refine ⟨_, set_cell now r i.key v seconds _, holds.change i (fun key other => Redis.put_keys_ne r _ other) ?_⟩
  intro e entry
  rw [Redis.setEx, Redis.put_keys_same] at entry
  cases Option.some.inj entry
  exact value

theorem Counters.get {found : Option Int} (read : r.get now i.key = found) :
    Command.get.apply now (store i.record.key) = (getReply found, store i.record.key) := by
  rw [holds.shows i, ← read]
  exact get_cell now r i.key

end Cells

variable {store : Bytes → Option Cell} {r : Redis} {now : Nat}

/-- The script replies as the model says and leaves what the model says. -/
def Executes (now : Nat) (script : Script Bytes Command Reply) (store : Bytes → Option Cell) (a : Reply)
    (q : Redis) : Prop :=
  (script.exec (Command.apply now) store).1 = a ∧ Counters (script.exec (Command.apply now) store).2 q

section Scripts

variable {lua : Lua} {key : Bytes} {c : Command} {next : Reply → Script Bytes Command Reply} {first a : Reply}
  {q : Redis}

theorem redisCall_executes {cell : Option Cell} (done : c.apply now (store key) = (first, cell))
    (fine : ∀ text, first ≠ .error text) (later : Executes now (next first) (Function.update store key cell) a q) :
    Executes now (redisCall lua key c next) store a q := by
  have same : (redisCall lua key c next).exec (Command.apply now) store =
      (next first).exec (Command.apply now) (Function.update store key cell) := by
    cases first with
    | error text => exact absurd rfl (fine text)
    | _ => simp only [redisCall, Script.exec, done]
  rw [Executes, same]
  exact later

theorem redisCall_reads (done : c.apply now (store key) = (first, store key))
    (fine : ∀ text, first ≠ .error text) (later : Executes now (next first) store a q) :
    Executes now (redisCall lua key c next) store a q := by
  refine redisCall_executes done fine ?_
  rw [Function.update_eq_self]
  exact later

theorem redisCall_raises {cell : Option Cell} {text : Bytes} (done : c.apply now (store key) = (.error text, cell))
    (after : Counters (Function.update store key cell) q) :
    Executes now (redisCall lua key c next) store (.error (lua.raised text)) q := by
  simp only [Executes, redisCall, Script.exec, done]
  exact ⟨trivial, after⟩

end Scripts

def orRefused {α : Type} (text : Bytes) : Option α → Outcome α
  | some x => .ok x
  | none => .error (.server text)

theorem readInt_countReply (n : Option Int) : (countReply n).readInt = orRefused overflow n := by
  cases n <;> rfl

theorem incrBy_refines (channelID : String) (delta : Int) :
    Refines (fun _ => Counters) (incrBy (utf8 channelID) delta) fun now r =>
      (orRefused overflow (r.incrBy now channelID delta).1, (r.incrBy now channelID delta).2) := by
  refine ask_refines ?_
  intro now store r holds
  obtain ⟨cell, done, after⟩ := holds.incrby now (.seq channelID) (fun _ within => within) delta
  exact ⟨_, cell, done, readInt_countReply _, after⟩

theorem nextSeq_refines (channelID : String) :
    Refines (fun _ => Counters) (nextSeq (utf8 channelID)) fun now r =>
      (orRefused overflow (SeqPlain.nextSeq r now channelID).1, (SeqPlain.nextSeq r now channelID).2) := by
  refine ask_refines ?_
  intro now store r holds
  obtain ⟨cell, done, after⟩ := holds.incrby now (.seq channelID) (fun _ within => within) 1
  exact ⟨_, cell, done, readInt_countReply _, after⟩

theorem getCurrentSeq_refines (channelID : String) :
    Refines (fun _ => Counters) (getCurrentSeq (utf8 channelID)) fun now r =>
      (.ok ((r.get now (Store.keySeq channelID)).getD 0), r) := by
  refine ask_reads ?_
  intro now store r holds
  refine ⟨_, holds.get now (.seq channelID) rfl, ?_⟩
  cases read : r.get now (Counter.seq channelID).key with
  | none =>
    rw [show r.get now (Store.keySeq channelID) = none from read]
    rfl
  | some v =>
    rw [show r.get now (Store.keySeq channelID) = some v from read]
    dsimp only [getReply]
    rw [int64_decimal (holds.got now (.seq channelID) read)]
    rfl

def dedupFound : Option Int → Bool × Int
  | none => (false, 0)
  | some v => (true, v)

theorem checkDedup_refines (clientMsgID : String) :
    Refines (fun _ => Counters) (checkDedup (utf8 clientMsgID)) fun now r =>
      (.ok (dedupFound (r.get now (Store.keyDedup clientMsgID))), r) := by
  refine ask_reads ?_
  intro now store r holds
  refine ⟨_, holds.get now (.dedup clientMsgID) rfl, ?_⟩
  cases read : r.get now (Counter.dedup clientMsgID).key with
  | none =>
    rw [show r.get now (Store.keyDedup clientMsgID) = none from read]
    rfl
  | some v =>
    rw [show r.get now (Store.keyDedup clientMsgID) = some v from read]
    dsimp only [getReply]
    rw [int64_decimal (holds.got now (.dedup clientMsgID) read).isInt64]
    rfl

theorem setDedup_refines (clientMsgID : String) {msgID : Int} (exact : IsExact msgID) :
    Refines (fun _ => Counters) (setDedup (utf8 clientMsgID) msgID) fun now r =>
      (.ok (), r.setEx now (Store.keyDedup clientMsgID) msgID dedupTTL) := by
  refine ask_refines ?_
  intro now store r holds
  obtain ⟨cell, done, after⟩ := holds.set now (.dedup clientMsgID) exact dedupTTL
  exact ⟨_, cell, done, rfl, after⟩

section Rate

variable (lua : Lua)

def rateReply : Option Int → Reply
  | some count => .int (lua.int count)
  | none => .error (lua.raised overflow)

def checkReply : Option (Int × Int) → Reply
  | some (found, count) => .ints [found, lua.int count]
  | none => .error (lua.raised overflow)

variable {lua}

theorem count_executes (holds : Counters store r) (uid : Int) {ttl : Nat} (positive : 0 < ttl)
    {next : Reply → Script Bytes Command Reply} (last : Int → Script Bytes Command Reply) {a : Reply} {q : Redis}
    (counts : ∀ n, next (.int n) =
      if n = 1 then redisCall lua (Keys.keyRateLimit uid) (.expire ttl) fun _ => last n else last n)
    (later : ∀ n, (countRate r now (Store.keyRateLimit uid) ttl).1 = some n →
      ∀ store, Counters store (countRate r now (Store.keyRateLimit uid) ttl).2 → Executes now (last n) store a q)
    (full : (countRate r now (Store.keyRateLimit uid) ttl).1 = none →
      a = .error (lua.raised overflow) ∧ q = (countRate r now (Store.keyRateLimit uid) ttl).2) :
    Executes now (redisCall lua (Keys.keyRateLimit uid) .incr next) store a q := by
  obtain ⟨cell, replies, counted⟩ : ∃ cell, Command.incr.apply now (store (Keys.keyRateLimit uid)) =
      (countReply (r.incr now (Store.keyRateLimit uid)).1, cell) ∧
        Counters (Function.update store (Keys.keyRateLimit uid) cell) (r.incr now (Store.keyRateLimit uid)).2 :=
    holds.incrby now (.rateLimit uid) (fun _ within => within) 1
  simp only [countRate] at later full
  cases value : (r.incr now (Store.keyRateLimit uid)).1 with
  | none =>
    simp only [value] at replies full
    obtain ⟨rfl, rfl⟩ := full trivial
    exact redisCall_raises replies counted
  | some n =>
    simp only [value, Option.some.injEq] at replies later
    refine redisCall_executes replies (by simp [countReply]) ?_
    rw [countReply, counts]
    by_cases one : n = 1
    · obtain ⟨m, cell, expires, expired⟩ := counted.expire now (.rateLimit uid) positive
      rw [if_pos one] at later ⊢
      exact redisCall_executes expires (by simp) (later n rfl _ expired)
    · rw [if_neg one] at later ⊢
      exact later n rfl _ counted

theorem rateLimitScript_executes (holds : Counters store r) (uid : Int) {ttl : Nat} (positive : 0 < ttl) :
    Executes now (rateLimitScript lua (Keys.keyRateLimit uid) ttl) store
      (rateReply lua (countRate r now (Store.keyRateLimit uid) ttl).1)
      (countRate r now (Store.keyRateLimit uid) ttl).2 := by
  refine count_executes holds uid positive (fun n => .ret (.int (lua.int n))) (fun _ => rfl) ?_ ?_
  · intro n value store counted
    rw [value]
    exact ⟨rfl, counted⟩
  · intro full
    rw [full]
    exact ⟨rfl, rfl⟩

theorem markScript_executes (holds : Counters store r) (clientMsgID : String) (ttl : Nat) {seqHint : Int}
    (exact : IsExact seqHint) (count : Int) :
    Executes now (markScript lua (Keys.keyDedup (utf8 clientMsgID)) ttl seqHint count) store
      (.ints [-1, lua.int count]) (markDedup r now (Store.keyDedup clientMsgID) ttl seqHint) := by
  unfold markScript markDedup
  rw [lua.text_exact seqHint exact]
  split
  · obtain ⟨cell, sets, marked⟩ := holds.set now (.dedup clientMsgID) exact ttl
    exact redisCall_executes sets (by simp) ⟨rfl, marked⟩
  · exact ⟨rfl, holds⟩

theorem dedupRateScript_executes (holds : Counters store r) (clientMsgID : String) (uid : Int) {rateTTL : Nat}
    (positive : 0 < rateTTL) (ttl : Nat) {seqHint : Int} (exact : IsExact seqHint)
    {res : Option (Int × Int) × Redis}
    (done : Store.dedupRateScript r now (Store.keyDedup clientMsgID) (Store.keyRateLimit uid) rateTTL ttl
      seqHint = res) :
    Executes now (dedupRateScript lua (Keys.keyDedup (utf8 clientMsgID)) (Keys.keyRateLimit uid) rateTTL ttl
      seqHint) store (checkReply lua res.1) res.2 := by
  subst done
  unfold Store.dedupRateScript
  cases found : r.get now (Store.keyDedup clientMsgID) with
  | none =>
    have reads : Command.get.apply now (store (Keys.keyDedup (utf8 clientMsgID))) =
        (.nil, store (Keys.keyDedup (utf8 clientMsgID))) := holds.get now (.dedup clientMsgID) found
    refine redisCall_reads reads (by simp) ?_
    refine count_executes holds uid positive (markScript lua (Keys.keyDedup (utf8 clientMsgID)) ttl seqHint)
      (fun _ => rfl) ?_ ?_
    · intro n value store counted
      rw [← Prod.mk.eta (p := countRate r now (Store.keyRateLimit uid) rateTTL), value]
      exact markScript_executes counted clientMsgID ttl exact n
    · intro full
      rw [← Prod.mk.eta (p := countRate r now (Store.keyRateLimit uid) rateTTL), full]
      exact ⟨rfl, rfl⟩
  | some v =>
    have reads : Command.get.apply now (store (Keys.keyDedup (utf8 clientMsgID))) =
        (.bulk (decimal v), store (Keys.keyDedup (utf8 clientMsgID))) := holds.get now (.dedup clientMsgID) found
    refine redisCall_reads reads (by simp) ?_
    have record : IsExact v := holds.got now (.dedup clientMsgID) found
    simp only [lua.tonumber_exact v record, checkReply, lua.int_exact 0 (by decide)]
    exact ⟨rfl, holds⟩

end Rate

def rateAnswer (lua : Lua) (maxPerSecond : Int) (count : Option Int) : Outcome Bool :=
  (orRefused (lua.raised overflow) count).map fun val => decide (lua.int val ≤ maxPerSecond)

def checkAnswer (lua : Lua) (rateLimit : Int) (res : Option (Int × Int)) : Outcome DedupRateResult :=
  (orRefused (lua.raised overflow) res).map fun res =>
    let rateOK := decide (lua.int res.2 ≤ rateLimit)
    if 0 ≤ res.1 then ⟨true, res.1, rateOK⟩ else ⟨false, 0, rateOK⟩

theorem checkRateLimit_refines (pkg : Packages) (uid maxPerSecond : Int) :
    Refines (fun _ => Counters) (checkRateLimit pkg uid maxPerSecond) fun now r =>
      let done := Store.rateLimitScript r now (Store.keyRateLimit uid) rateLimitTTL
      (rateAnswer pkg.lua maxPerSecond done.1, done.2) := by
  refine ⟨_, rfl, ?_⟩
  intro now store r holds
  have executes : Executes now (rateLimitScript pkg.lua (Keys.keyRateLimit uid) rateLimitTTL) store _ _ :=
    rateLimitScript_executes holds uid (by decide)
  obtain ⟨reply, after⟩ := executes
  refine ⟨?_, after⟩
  simp only [checkRateLimit, List.headD_cons, reply, Store.rateLimitScript]
  cases (countRate r now (Store.keyRateLimit uid) rateLimitTTL).1 <;> rfl

theorem utf8_ne_nil {s : String} : utf8 s ≠ [] ↔ s ≠ "" :=
  not_congr (utf8_inj (t := ""))

theorem dedupAndRateCheck_refines (pkg : Packages) (clientMsgID : String) (uid rateLimit : Int) {seqHint : Int}
    (exact : IsExact seqHint) :
    Refines (fun _ => Counters) (dedupAndRateCheck pkg (utf8 clientMsgID) uid rateLimit seqHint) fun now r =>
      let done := Store.dedupRateScript r now (Store.keyDedup clientMsgID) (Store.keyRateLimit uid) rateLimitTTL
        (if clientMsgID ≠ "" then dedupTTL else 0) seqHint
      (checkAnswer pkg.lua rateLimit done.1, done.2) := by
  refine ⟨_, rfl, ?_⟩
  intro now store r holds
  generalize done : Store.dedupRateScript r now (Store.keyDedup clientMsgID) (Store.keyRateLimit uid)
    rateLimitTTL (if clientMsgID ≠ "" then dedupTTL else 0) seqHint = res
  have executes : Executes now (dedupRateScript pkg.lua _ _ _ _ _) store _ _ :=
    dedupRateScript_executes holds clientMsgID uid (by decide) _ exact done
  have ttl : (if utf8 clientMsgID ≠ [] then dedupTTL else 0) = if clientMsgID ≠ "" then dedupTTL else 0 :=
    if_congr utf8_ne_nil rfl rfl
  rw [← ttl] at executes
  obtain ⟨reply, after⟩ := executes
  simp only [dedupAndRateCheck, List.headD_cons, reply, done]
  refine ⟨?_, after⟩
  obtain ⟨none | ⟨found, count⟩, after⟩ := res
  · rfl
  · change dedupRateResult rateLimit [found, pkg.lua.int count] = .ok _
    simp only [dedupRateResult]
    split <;> rfl

/-- The operations on the counters, with ids that are strings. -/
inductive CounterOp where
  | nextSeq (channelID : String)
  | incrBy (channelID : String) (delta : Int)
  | getCurrentSeq (channelID : String)
  | checkDedup (clientMsgID : String)
  | setDedup (clientMsgID : String) (msgID : Int)
  | checkRateLimit (uid maxPerSecond : Int)
  | dedupAndRateCheck (clientMsgID : String) (uid rateLimit seqHint : Int)

namespace CounterOp

def op : CounterOp → Op
  | nextSeq channelID => .nextSeq (utf8 channelID)
  | incrBy channelID delta => .incrBy (utf8 channelID) delta
  | getCurrentSeq channelID => .getCurrentSeq (utf8 channelID)
  | checkDedup clientMsgID => .checkDedup (utf8 clientMsgID)
  | setDedup clientMsgID msgID => .setDedup (utf8 clientMsgID) msgID
  | checkRateLimit uid maxPerSecond => .checkRateLimit uid maxPerSecond
  | dedupAndRateCheck clientMsgID uid rateLimit seqHint =>
    .dedupAndRateCheck (utf8 clientMsgID) uid rateLimit seqHint

def act (lua : Lua) (now : Nat) : CounterOp → Redis → Outcome Answer × Redis
  | nextSeq channelID, r =>
    let done := SeqPlain.nextSeq r now channelID
    ((orRefused overflow done.1).map .number, done.2)
  | incrBy channelID delta, r =>
    let done := r.incrBy now channelID delta
    ((orRefused overflow done.1).map .number, done.2)
  | getCurrentSeq channelID, r => (.ok (.number ((r.get now (Store.keySeq channelID)).getD 0)), r)
  | checkDedup clientMsgID, r =>
    let found := dedupFound (r.get now (Store.keyDedup clientMsgID))
    (.ok (.flagged found.1 found.2), r)
  | setDedup clientMsgID msgID, r => (.ok .done, r.setEx now (Store.keyDedup clientMsgID) msgID dedupTTL)
  | checkRateLimit uid maxPerSecond, r =>
    let done := Store.rateLimitScript r now (Store.keyRateLimit uid) rateLimitTTL
    ((rateAnswer lua maxPerSecond done.1).map .flag, done.2)
  | dedupAndRateCheck clientMsgID uid rateLimit seqHint, r =>
    let done := Store.dedupRateScript r now (Store.keyDedup clientMsgID) (Store.keyRateLimit uid) rateLimitTTL
      (if clientMsgID ≠ "" then dedupTTL else 0) seqHint
    ((checkAnswer lua rateLimit done.1).map .check, done.2)

section Answers

variable (lua : Lua) (now : Nat) (r : Redis) (uid : Int)

/-- Apart from a count that Lua has rounded, a check answers and leaves what DedupAndRateCheck
does. -/
theorem act_check (clientMsgID : String) (rateLimit seqHint : Int) :
    ∃ rateOK, act lua now (.dedupAndRateCheck clientMsgID uid rateLimit seqHint) r =
        ((orRefused (lua.raised overflow) (Store.dedupAndRateCheck r now clientMsgID uid rateLimit seqHint).1).map
            fun res => .check { res with rateOK := rateOK },
          (Store.dedupAndRateCheck r now clientMsgID uid rateLimit seqHint).2) ∧
      (IsExact (rateCount r now uid + 1) → ∀ res,
        (Store.dedupAndRateCheck r now clientMsgID uid rateLimit seqHint).1 = some res → res.rateOK = rateOK) := by
  simp only [act, Store.dedupAndRateCheck, Store.dedupRateScript]
  cases r.get now (Store.keyDedup clientMsgID) with
  | some v =>
    refine ⟨decide (lua.int 0 ≤ rateLimit), ?_, ?_⟩
    · simp only [checkAnswer, orRefused, Except.map]
      split <;> rfl
    · rw [lua.int_exact 0 (by decide)]
      rintro _ res same
      cases Option.some.inj same
      split <;> rfl
  | none =>
    by_cases full : Overflows (rateCount r now uid) 1
    · rw [countRate_refused rateLimitTTL full]
      exact ⟨true, rfl, by simp⟩
    · rw [← Prod.mk.eta (p := countRate r now (Store.keyRateLimit uid) rateLimitTTL), countRate_value rateLimitTTL full]
      refine ⟨decide (lua.int (rateCount r now uid + 1) ≤ rateLimit), rfl, ?_⟩
      rintro exact res same
      cases Option.some.inj same
      rw [lua.int_exact _ exact]
      rfl

theorem act_rate (maxPerSecond : Int) (exact : IsExact (rateCount r now uid + 1)) :
    act lua now (.checkRateLimit uid maxPerSecond) r =
      ((orRefused (lua.raised overflow) (Store.checkRateLimit r now uid maxPerSecond).1).map .flag,
        (Store.checkRateLimit r now uid maxPerSecond).2) := by
  simp only [act, Store.checkRateLimit, Store.rateLimitScript]
  by_cases full : Overflows (rateCount r now uid) 1
  · rw [countRate_refused rateLimitTTL full]
    rfl
  · have count : lua.int ((r.get now (Store.keyRateLimit uid)).getD 0 + 1) = _ := lua.int_exact _ exact
    rw [countRate_value rateLimitTTL full, rateAnswer, orRefused, Except.map, count]
    rfl

end Answers

theorem op_injective : Function.Injective op := by
  intro p q same
  cases p <;> cases q <;> simp_all [op, utf8_inj]

theorem refines (pkg : Packages) (p : CounterOp) (exact : p.op.Exact) :
    Refines (fun _ => Counters) (p.op.request pkg) fun now r => p.act pkg.lua now r := by
  cases p with
  | nextSeq channelID => exact answered_refines (nextSeq_refines channelID)
  | incrBy channelID delta => exact answered_refines (incrBy_refines channelID delta)
  | getCurrentSeq channelID => exact answered_refines (getCurrentSeq_refines channelID)
  | checkDedup clientMsgID => exact answered_refines (checkDedup_refines clientMsgID)
  | setDedup clientMsgID msgID => exact answered_refines (setDedup_refines clientMsgID exact)
  | checkRateLimit uid maxPerSecond => exact answered_refines (checkRateLimit_refines pkg uid maxPerSecond)
  | dedupAndRateCheck clientMsgID uid rateLimit seqHint =>
    exact answered_refines (dedupAndRateCheck_refines pkg clientMsgID uid rateLimit exact)

theorem read_lost (pkg : Packages) (p : CounterOp) (text : Bytes) :
    (p.op.request pkg).read [.lost text] = .error (.network text) := by
  cases p <;> rfl

end CounterOp

theorem seq_ne {channelID : Bytes} (none : ¬ ∃ id, channelID = utf8 id) (i : Counter) :
    i.record ≠ .seq channelID := by
  intro same
  cases i with
  | seq id => exact none ⟨id, (Record.seq.inj same).symm⟩
  | _ => contradiction

theorem dedup_ne {clientMsgID : Bytes} (none : ¬ ∃ id, clientMsgID = utf8 id) (i : Counter) :
    i.record ≠ .dedup clientMsgID := by
  intro same
  cases i with
  | dedup id => exact none ⟨id, (Record.dedup.inj same).symm⟩
  | _ => contradiction

theorem string_or_apart (op : Bytes → Op) (made : String → CounterOp) {r : Bytes → Record} (bytes : Bytes)
    (string : ∀ id, op (utf8 id) = (made id).op) (about : (op bytes).records = [r bytes])
    (differ : (¬ ∃ id, bytes = utf8 id) → ∀ i : Counter, i.record ≠ r bytes) :
    (∃ p : CounterOp, op bytes = p.op) ∨ ∀ i : Counter, i.record ∉ (op bytes).records := by
  by_cases has : ∃ id, bytes = utf8 id
  · obtain ⟨id, rfl⟩ := has
    exact Or.inl ⟨made id, string id⟩
  · right
    intro i member
    rw [about, List.mem_singleton] at member
    exact differ has i member

/- A client message id, which another module has as a string. -/
def Op.Text : Op → Prop
  | dedupAndRateCheck clientMsgID _ _ _ => ∃ text, clientMsgID = utf8 text
  | _ => True

theorem counterOp_or_apart {op : Op} (text : op.Text) :
    (∃ p : CounterOp, op = p.op) ∨ ∀ i : Counter, i.record ∉ op.records := by
  cases op with
  | nextSeq channelID => exact string_or_apart .nextSeq .nextSeq channelID (fun _ => rfl) rfl seq_ne
  | incrBy channelID delta =>
    exact string_or_apart (.incrBy · delta) (.incrBy · delta) channelID (fun _ => rfl) rfl seq_ne
  | getCurrentSeq channelID => exact string_or_apart .getCurrentSeq .getCurrentSeq channelID (fun _ => rfl) rfl seq_ne
  | checkDedup clientMsgID => exact string_or_apart .checkDedup .checkDedup clientMsgID (fun _ => rfl) rfl dedup_ne
  | setDedup clientMsgID msgID =>
    exact string_or_apart (.setDedup · msgID) (.setDedup · msgID) clientMsgID (fun _ => rfl) rfl dedup_ne
  | checkRateLimit uid maxPerSecond => exact Or.inl ⟨.checkRateLimit uid maxPerSecond, rfl⟩
  | dedupAndRateCheck clientMsgID uid rateLimit seqHint =>
    obtain ⟨id, rfl⟩ := text
    exact Or.inl ⟨.dedupAndRateCheck id uid rateLimit seqHint, rfl⟩
  | batchGetPresence uids =>
    right
    intro i member
    obtain ⟨uid, _, same⟩ := List.mem_map.mp member
    cases i <;> contradiction
  | _ =>
    right
    intro i member
    cases i <;> simp [Op.records, Counter.record] at member

def counterModel (pkg : Packages) : Model Bytes Reply (Option Cell) Op Redis CounterOp (Outcome Answer) where
  act := CounterOp.act pkg.lua
  pass _ r := r
  view _ := Counters
  part op j p := op = p.op ∧ j = 0 ∧ op.Exact
  means p a o := (p.op.request pkg).read [a] = o

theorem counters_follow (pkg : Packages) : Follows (system pkg Command.apply) (counterModel pkg) := by
  refine ⟨?_, ?_, ?_⟩
  · rintro op j p p' ⟨rfl, _⟩ ⟨same, _⟩
    exact CounterOp.op_injective same
  · intro now ms store r holds
    exact holds
  · rintro op j p script ⟨rfl, rfl, exact⟩ sent now store r holds
    exact (p.refines pkg exact).acts sent holds

theorem counters_known (pkg : Packages) {op : Op} (text : op.Text) (exact : op.Exact) :
    Known (system pkg Command.apply) (counterModel pkg) op := by
  intro j script sent
  rcases counterOp_or_apart text with ⟨p, rfl⟩ | apart
  · obtain ⟨only, batch, _⟩ := p.refines pkg exact
    exact Or.inl ⟨p, rfl, single_place batch sent, exact⟩
  · exact Or.inr fun now store r holds => ⟨shows_exec apart sent now holds.shows, holds.within⟩

section Run

variable {pkg : Packages} {s t : State (Option Cell)} {as : List Action} {r : Redis} (idle : s.calls = [])
  (holds : Counters s.store r) (texts : ∀ op, .start op ∈ as → op.Text) (exact : ∀ op, .start op ∈ as → op.Exact)
  (taken : run (step (system pkg Command.apply)) s as = some t)
include idle holds texts exact taken

theorem run_counters :
    ∃ bs n, run (counterModel pkg).step ⟨s.now, r, []⟩ bs = some n ∧
      Linear (system pkg Command.apply) (counterModel pkg) t n ∧
      (∀ i j p, .take i j p ∈ bs → .start (CounterOp.op p) ∈ as) ∧ ((∀ i, .resend i ∉ as) → Once t n.log) ∧
      ∀ i call p o, t.calls[i]? = some call → call.op = CounterOp.op p → call.answer = some o →
        (∃ text, o = .error (.network text)) ∨ ⟨i, 0, p, o⟩ ∈ n.log := by
  obtain ⟨bs, n, reached, linear, parts, once⟩ := run_linear (counters_follow pkg) (fun op => .start op ∈ as)
    (linear_idle idle holds) (by rw [idle]; exact fun _ none => nomatch none)
    (fun op started => ⟨counters_known pkg (texts op started) (exact op started), started⟩) taken
  refine ⟨bs, n, reached, linear, ?_, once ⟨.nil, fun _ none => nomatch none⟩, ?_⟩
  · intro i j p listed
    obtain ⟨op, started, rfl, _⟩ := parts i j p listed
    exact started
  intro i call p o found same answer
  have proper : call.op.Exact := run_ops Op.Exact (by rw [idle]; exact fun _ none => nomatch none) exact taken call
    (List.mem_of_getElem? found)
  obtain ⟨only, batch, _⟩ := p.refines pkg (same ▸ proper)
  rw [← same] at batch
  have part : (counterModel pkg).part call.op 0 p := ⟨same, rfl, proper⟩
  obtain ⟨a, rfl, ⟨o, listed, result⟩ | ⟨text, rfl⟩⟩ := linear.answer found batch part answer
  · right
    rw [same]
    exact result ▸ listed
  · left
    rw [same]
    exact ⟨text, p.read_lost pkg text⟩

end Run

theorem nothing_counted : Counters (fun _ => none) ⟨fun _ => none⟩ :=
  ⟨fun _ => rfl, fun _ _ none => nomatch none⟩

end GameIM.Store.RedisStore
