import GameIM.Lib.Owed
import GameIM.Store.Keyspace

/-! Which records of Redis expire. Counters, members and switches are kept for good; everything
else has a deadline, apart from what a pipeline writes before its EXPIRE. -/
namespace GameIM.Store.RedisStore
open Lib Lib.Text Lib.Keyed Api Keys

inductive Lifetime where
  | forever | timed
  deriving DecidableEq, Repr

def lifetime : Keys.Kind → Lifetime
  | .seq | .channelMembers | .channelAvail | .serverReg => .forever
  | .presence | .ban | .userChannels | .msgCache | .dedup | .rateLimit | .channelState => .timed

def Lifetime.allows : Lifetime → Option Nat → Bool
  | forever, deadline => deadline.isNone
  | timed, deadline => deadline.isSome

def Lasts (life : Lifetime) (cell : Option Cell) : Prop := ∀ e, cell = some e → life.allows e.deadline = true

/- The commands that leave a deadline where there is to be one, and none elsewhere. -/
def Lifetime.keeps : Lifetime → Command → Bool
  | _, .hgetall | _, .get | _, .smembers | _, .lrange _ _ | _, .del | _, .srem _ | _, .ltrim _ _ => true
  | forever, .incr | forever, .incrby _ | forever, .sadd _ | forever, .set _ none => true
  | timed, .expire _ | timed, .set _ (some _) => true
  | _, _ => false

section Lasts

variable {life : Lifetime} {cell : Option Cell} {now : Nat}

theorem lasts_none : Lasts life none := fun _ absent => nomatch absent

theorem lasts_some {value : Value} {deadline : Option Nat} (allowed : life.allows deadline = true) :
    Lasts life (some ⟨value, deadline⟩) := by
  intro e same
  cases Option.some.inj same
  exact allowed

theorem lasts_keep {value : Value} {deadline : Option Nat} (allowed : life.allows deadline = true) :
    Lasts life (keep value deadline) := by
  unfold keep
  split
  · exact lasts_none
  · exact lasts_none
  · exact lasts_some allowed

theorem Lasts.found (lasts : Lasts life cell) {e : Cell} (found : cell.filter (·.live now) = some e) :
    life.allows e.deadline = true :=
  lasts e (Option.filter_eq_some_iff.mp found).1

theorem lasts_dead (dead : cell.filter (·.live now) = none) : Lasts .timed cell := by
  intro e same
  have passed : e.live now = false := by
    have none := Option.filter_eq_none_iff.mp dead e same
    exact Bool.eq_false_of_not_eq_true none
  cases deadline : e.deadline with
  | none => simp [Cell.live, deadline] at passed
  | some d => rfl

theorem expire_lasts (seconds : Int) (cell : Option Cell) :
    Lasts .timed ((Command.expire seconds).apply now cell).2 := by
  simp only [Command.apply]
  cases found : cell.filter (·.live now) with
  | none => exact lasts_dead found
  | some e =>
    simp only
    split
    · exact lasts_none
    · exact lasts_some rfl

section Typed

variable {absent : Reply × Option Cell} (lasts : Lasts life cell)
include lasts

theorem onStr_lasts {present : Bytes → Option Nat → Reply × Option Cell} (nothing : Lasts life absent.2)
    (there : ∀ text d, life.allows d = true → Lasts life (present text d).2) :
    Lasts life (onStr cell (cell.filter (·.live now)) absent present).2 := by
  cases found : cell.filter (·.live now) with
  | none => exact nothing
  | some e =>
    have allowed := lasts.found found
    obtain ⟨value, d⟩ := e
    cases value with
    | str text => exact there text d allowed
    | _ => exact lasts

theorem onSet_lasts {present : List Bytes → Option Nat → Reply × Option Cell} (nothing : Lasts life absent.2)
    (there : ∀ members d, life.allows d = true → Lasts life (present members d).2) :
    Lasts life (onSet cell (cell.filter (·.live now)) absent present).2 := by
  cases found : cell.filter (·.live now) with
  | none => exact nothing
  | some e =>
    have allowed := lasts.found found
    obtain ⟨value, d⟩ := e
    cases value with
    | set members => exact there members d allowed
    | _ => exact lasts

theorem onList_lasts {present : List Bytes → Option Nat → Reply × Option Cell} (nothing : Lasts life absent.2)
    (there : ∀ entries d, life.allows d = true → Lasts life (present entries d).2) :
    Lasts life (onList cell (cell.filter (·.live now)) absent present).2 := by
  cases found : cell.filter (·.live now) with
  | none => exact nothing
  | some e =>
    have allowed := lasts.found found
    obtain ⟨value, d⟩ := e
    cases value with
    | list entries => exact there entries d allowed
    | _ => exact lasts

theorem hgetall_lasts : Lasts life (Command.hgetall.apply now cell).2 := by
  simp only [Command.apply]
  cases cell.filter (·.live now) with
  | none => exact lasts
  | some e =>
    obtain ⟨value, d⟩ := e
    cases value <;> exact lasts

theorem addTo_lasts (old delta : Int) {deadline : Option Nat} (allowed : life.allows deadline = true) :
    Lasts life (addTo cell old delta deadline).2 := by
  unfold addTo
  split
  · exact lasts
  · exact lasts_some allowed

theorem incrCell_found {text : Bytes} {deadline : Option Nat} (delta : Int) (allowed : life.allows deadline = true) :
    Lasts life (incrCell cell (some ⟨.str text, deadline⟩) delta).2 := by
  simp only [incrCell, onStr]
  split
  · exact addTo_lasts lasts _ delta allowed
  · exact lasts

theorem incrCell_lasts (delta : Int) (created : life.allows none = true) :
    Lasts life (incrCell cell (cell.filter (·.live now)) delta).2 :=
  onStr_lasts lasts (addTo_lasts lasts 0 delta created) fun _ _ allowed => incrCell_found lasts delta allowed

theorem apply_lasts {c : Command} (keeps : life.keeps c = true) : Lasts life (c.apply now cell).2 := by
  cases c with
  | hgetall => exact hgetall_lasts lasts
  | get => exact onStr_lasts lasts lasts fun _ _ _ => lasts
  | smembers => exact onSet_lasts lasts lasts fun _ _ _ => lasts
  | lrange start stop => exact onList_lasts lasts lasts fun _ _ _ => lasts
  | srem member => exact onSet_lasts lasts lasts fun _ _ allowed => lasts_keep allowed
  | ltrim start stop => exact onList_lasts lasts lasts fun _ _ allowed => lasts_keep allowed
  | del =>
    simp only [Command.apply]
    cases cell.filter (·.live now) <;> exact lasts_none
  | expire seconds =>
    cases life with
    | forever => contradiction
    | timed => exact expire_lasts seconds cell
  | set value ex =>
    cases life with
    | forever => cases ex with
      | none => exact lasts_some rfl
      | some seconds => contradiction
    | timed => cases ex with
      | none => contradiction
      | some seconds => exact lasts_some rfl
  | incr =>
    cases life with
    | forever => exact incrCell_lasts lasts 1 rfl
    | timed => contradiction
  | incrby delta =>
    cases life with
    | forever => exact incrCell_lasts lasts delta rfl
    | timed => contradiction
  | sadd member =>
    cases life with
    | forever => exact onSet_lasts lasts (lasts_some rfl) fun _ _ allowed => lasts_some allowed
    | timed => contradiction
  | hset fields => cases life <;> contradiction
  | lpush value => cases life <;> contradiction

end Typed

theorem incr_lasts (now : Nat) (lasts : Lasts .timed cell) :
    (Command.incr.apply now cell).1 = .int 1 ∨ Lasts .timed (Command.incr.apply now cell).2 := by
  simp only [Command.apply]
  cases found : cell.filter (·.live now) with
  | none => exact Or.inl rfl
  | some e =>
    have allowed := lasts.found found
    obtain ⟨value, d⟩ := e
    right
    cases value with
    | str text => exact incrCell_found lasts 1 allowed
    | _ => exact lasts

end Lasts

section Scripts

variable {lua : Lua} {r : Record} {now : Nat}

/-- Run as a whole, the script leaves the record with a deadline, or without one, as it should
be. -/
def Keeps (r : Record) (now : Nat) (script : Script Bytes Command Reply) : Prop :=
  ∀ store, Lasts (lifetime r.kind) (store r.key) →
    Lasts (lifetime r.kind) ((script.exec (Command.apply now) store).2 r.key)

theorem keeps_ret (a : Reply) : Keeps r now (.ret a) := fun _ lasts => lasts

theorem update_lasts {key : Bytes} {c : Command} {store : Bytes → Option Cell}
    (allowed : key = r.key → (lifetime r.kind).keeps c = true) (lasts : Lasts (lifetime r.kind) (store r.key)) :
    Lasts (lifetime r.kind) (Function.update store key (c.apply now (store key)).2 r.key) := by
  by_cases here : key = r.key
  · subst here
    rw [Function.update_self]
    exact apply_lasts lasts (allowed rfl)
  · rw [Function.update_of_ne (Ne.symm here)]
    exact lasts

theorem keeps_on {script : Script Bytes Command Reply}
    (on : script.On fun key c => key = r.key → (lifetime r.kind).keeps c = true) : Keeps r now script := by
  induction script with
  | ret a => exact keeps_ret a
  | call key c next ih => exact fun store lasts => ih _ (on.2 _) _ (update_lasts on.1 lasts)

theorem redisCall_lasts {key : Bytes} {c : Command} {next : Reply → Script Bytes Command Reply}
    (later : ∀ a, Keeps r now (next a)) {store : Bytes → Option Cell}
    (after : Lasts (lifetime r.kind) (Function.update store key (c.apply now (store key)).2 r.key)) :
    Lasts (lifetime r.kind) (((redisCall lua key c next).exec (Command.apply now) store).2 r.key) := by
  simp only [redisCall, Script.exec]
  cases (c.apply now (store key)).1 with
  | error text => exact after
  | _ => exact later _ _ after

theorem keeps_redisCall {key : Bytes} {c : Command} {next : Reply → Script Bytes Command Reply}
    (allowed : key = r.key → (lifetime r.kind).keeps c = true) (later : ∀ a, Keeps r now (next a)) :
    Keeps r now (redisCall lua key c next) :=
  fun _ lasts => redisCall_lasts later (update_lasts allowed lasts)

/-- A script that counts, and sets the deadline of a counter that it has begun. -/
theorem keeps_count {ttl : Nat} {next : Reply → Script Bytes Command Reply} (timed : lifetime r.kind = .timed)
    (later : ∀ a, Keeps r now (next a))
    (first : ∃ after, next (.int 1) = redisCall lua r.key (.expire ttl) after ∧ ∀ a, Keeps r now (after a)) :
    Keeps r now (redisCall lua r.key .incr next) := by
  intro store lasts
  rw [timed] at lasts
  rcases incr_lasts now lasts with one | kept
  · obtain ⟨after, same, keeps⟩ := first
    simp only [redisCall, Script.exec, one]
    rw [same]
    refine redisCall_lasts keeps ?_
    rw [Function.update_self, timed]
    exact expire_lasts _ _
  · refine redisCall_lasts later ?_
    rw [Function.update_self, timed]
    exact kept

theorem rateLimitScript_keeps (uid : Int) (ttl : Nat) :
    Keeps (.rateLimit uid) now (rateLimitScript lua (Keys.keyRateLimit uid) ttl) := by
  refine keeps_count (r := .rateLimit uid) rfl ?_ ⟨_, if_pos rfl, fun _ => keeps_ret _⟩
  intro counted
  cases counted with
  | int count =>
    dsimp only
    split
    · exact keeps_redisCall (fun _ => rfl) fun _ => keeps_ret _
    · exact keeps_ret _
  | _ => exact keeps_ret _

theorem markScript_keeps {key : Bytes} {ttl : Nat} {seqHint count : Int}
    (marks : key = r.key → (lifetime r.kind).keeps (.set (lua.text seqHint) (some ttl)) = true) :
    Keeps r now (markScript lua key ttl seqHint count) :=
  keeps_on (markScript_on marks)

theorem rate_ne_dedup (uid : Int) (clientMsgID : Bytes) : Keys.keyRateLimit uid ≠ (Record.dedup clientMsgID).key :=
  fun same => nomatch (key_inj (r := .rateLimit uid)).mp same

theorem dedupRateScript_keeps_dedup (clientMsgID : Bytes) (uid : Int) (rateTTL dedupTTLSec : Nat) (seqHint : Int) :
    Keeps (.dedup clientMsgID) now (dedupRateScript lua (Keys.keyDedup clientMsgID) (Keys.keyRateLimit uid) rateTTL
      dedupTTLSec seqHint) :=
  keeps_on (dedupRateScript_on (fun _ => rfl) (fun same => absurd same (rate_ne_dedup uid clientMsgID))
    (fun same => absurd same (rate_ne_dedup uid clientMsgID)) fun _ => rfl)

theorem dedupRateScript_keeps_rate (clientMsgID : Bytes) (uid : Int) (rateTTL dedupTTLSec : Nat) (seqHint : Int) :
    Keeps (.rateLimit uid) now (dedupRateScript lua (Keys.keyDedup clientMsgID) (Keys.keyRateLimit uid) rateTTL
      dedupTTLSec seqHint) := by
  have apart : Keys.keyDedup clientMsgID ≠ (Record.rateLimit uid).key := (rate_ne_dedup uid clientMsgID).symm
  have marks : ∀ count, Keeps (.rateLimit uid) now
      (markScript lua (Keys.keyDedup clientMsgID) dedupTTLSec seqHint count) :=
    fun count => markScript_keeps fun same => absurd same apart
  refine keeps_redisCall (fun same => absurd same apart) ?_
  intro found
  cases found with
  | nil =>
    refine keeps_count (r := .rateLimit uid) rfl ?_ ⟨_, if_pos rfl, fun _ => marks _⟩
    intro counted
    cases counted with
    | int count =>
      dsimp only
      split
      · exact keeps_redisCall (fun _ => rfl) fun _ => marks _
      · exact marks _
    | _ => exact keeps_ret _
  | bulk dedupVal =>
    dsimp only
    split <;> exact keeps_ret _
  | _ => exact keeps_ret _

end Scripts

/-- The operations whose pipeline ends with the EXPIRE of the record it writes. -/
def Op.owes : Op → Option Record
  | setPresence uid _ => some (.presence uid)
  | setBan _ uid _ _ => some (.ban uid)
  | addUserChannel uid _ => some (.userChannels uid)
  | pushMsgCache channelID _ | postSendAsync channelID _ => some (.msgCache channelID)
  | _ => none

section Requests

variable {pkg : Packages} {r : Record}

theorem frame_keeps {op : Op} (other : r ∉ op.records) {script : Script Bytes Command Reply}
    (sent : script ∈ (op.request pkg).batch) (now : Nat) : Keeps r now script := by
  refine keeps_on ((request_on pkg op (marks_any pkg op) script sent).imp ?_)
  intro key c sends same
  exact absurd same (sends_ne other key c sends)

theorem ask_keeps {α : Type} {key : Bytes} {c : Command} {read : Reply → Outcome α} {make : α → Answer}
    (allowed : (lifetime r.kind).keeps c = true) {script : Script Bytes Command Reply}
    (sent : script ∈ (answered make (ask key c read)).batch) (now : Nat) : Keeps r now script := by
  cases List.mem_singleton.mp sent
  exact keeps_on ⟨fun _ => allowed, fun _ => trivial⟩

theorem request_keeps {op : Op} (free : op.owes ≠ some r) {script : Script Bytes Command Reply}
    (sent : script ∈ (op.request pkg).batch) (now : Nat) : Keeps r now script := by
  by_cases own : r ∈ op.records
  · cases op with
    | setPresence uid data => exact absurd (congrArg some (List.mem_singleton.mp own).symm) free
    | setBan time uid duration reason => exact absurd (congrArg some (List.mem_singleton.mp own).symm) free
    | addUserChannel uid channelID => exact absurd (congrArg some (List.mem_singleton.mp own).symm) free
    | pushMsgCache channelID msg => exact absurd (congrArg some (List.mem_singleton.mp own).symm) free
    | postSendAsync channelID msg => exact absurd (congrArg some (List.mem_singleton.mp own).symm) free
    | batchGetPresence uids =>
      obtain ⟨uid, listed, rfl⟩ := List.mem_map.mp own
      have some : uids ≠ [] := List.ne_nil_of_mem listed
      have batch : ((Op.batchGetPresence uids).request pkg).batch =
          uids.map fun uid => .call (keyPresence uid) .hgetall .ret := by
        simp only [Op.request, answered, Request.map, batchGetPresence, if_neg some]
      rw [batch] at sent
      obtain ⟨_, _, rfl⟩ := List.mem_map.mp sent
      exact keeps_on ⟨fun _ => rfl, fun _ => trivial⟩
    | checkRateLimit uid maxPerSecond =>
      cases List.mem_singleton.mp own
      cases List.mem_singleton.mp sent
      exact rateLimitScript_keeps uid rateLimitTTL
    | dedupAndRateCheck clientMsgID uid rateLimit seqHint =>
      cases List.mem_singleton.mp sent
      rcases List.mem_pair.mp own with rfl | rfl
      · exact dedupRateScript_keeps_dedup clientMsgID uid _ _ seqHint
      · exact dedupRateScript_keeps_rate clientMsgID uid _ _ seqHint
    | setChannelState state =>
      cases List.mem_singleton.mp own
      simp only [Op.request, setChannelState] at sent
      split at sent
      · contradiction
      · exact ask_keeps rfl sent now
    | _ =>
      cases List.mem_singleton.mp own
      exact ask_keeps rfl sent now
  · exact frame_keeps own sent now

theorem pipeline_settles {commands : List Command} {seconds : Int} (timed : lifetime r.kind = .timed)
    (expires : commands.getLast? = some (.expire seconds)) {j : Nat} {script : Script Bytes Command Reply}
    (sent : (pipeline r.key commands).batch[j]? = some script)
    (last : j + 1 = (pipeline r.key commands).batch.length) (now : Nat) (store : Bytes → Option Cell) :
    Lasts (lifetime r.kind) ((script.exec (Command.apply now) store).2 r.key) := by
  rw [pipeline, List.getElem?_map] at sent
  obtain ⟨c, place, rfl⟩ := Option.map_eq_some_iff.mp sent
  rw [pipeline, List.length_map] at last
  have same : j = commands.length - 1 := by omega
  rw [same, ← List.getLast?_eq_getElem?, expires] at place
  cases Option.some.inj place
  simp only [Script.exec]
  rw [Function.update_self, timed]
  exact expire_lasts seconds _

theorem request_settles {op : Op} (debtor : op.owes = some r) {j : Nat} {script : Script Bytes Command Reply}
    (sent : (op.request pkg).batch[j]? = some script) (last : j + 1 = (op.request pkg).batch.length) (now : Nat)
    (store : Bytes → Option Cell) : Lasts (lifetime r.kind) ((script.exec (Command.apply now) store).2 r.key) := by
  have cache : ∀ channelID msg, (pushMsgCache pkg channelID msg).batch[j]? = some script →
      j + 1 = (pushMsgCache pkg channelID msg).batch.length → Lasts (lifetime (Record.msgCache channelID).kind)
        ((script.exec (Command.apply now) store).2 (Record.msgCache channelID).key) := by
    intro channelID msg sent last
    unfold pushMsgCache at sent last
    split at sent
    · contradiction
    · rename_i data made
      simp only [made] at last
      exact pipeline_settles (r := .msgCache channelID) rfl rfl sent last now store
  cases op with
  | setPresence uid data =>
    cases Option.some.inj debtor
    exact pipeline_settles (r := .presence uid) rfl rfl sent last now store
  | setBan time uid duration reason =>
    cases Option.some.inj debtor
    exact pipeline_settles (r := .ban uid) rfl rfl sent last now store
  | addUserChannel uid channelID =>
    cases Option.some.inj debtor
    exact pipeline_settles (r := .userChannels uid) rfl rfl sent last now store
  | pushMsgCache channelID msg =>
    cases Option.some.inj debtor
    exact cache channelID msg sent last
  | postSendAsync channelID msg =>
    cases Option.some.inj debtor
    exact cache channelID msg sent last
  | _ => contradiction

end Requests

theorem lasts_settles (pkg : Packages) : Settles (system pkg Command.apply)
    (fun key cell => ∀ r : Record, key = r.key → Lasts (lifetime r.kind) cell)
    fun op key => ∃ r : Record, key = r.key ∧ op.owes = some r := by
  refine ⟨?_, ?_⟩
  · rintro op j script sent _ free now store lasts r rfl
    exact request_keeps (fun debtor => free ⟨r, rfl, debtor⟩) (List.mem_of_getElem? sent) now store (lasts r rfl)
  · rintro op j script sent last _ ⟨r, rfl, debtor⟩ now store q same
    cases key_inj.mp same
    exact request_settles debtor sent last now store

/-- However calls are mixed, resent and lost: a sequence counter, a member list and a switch never
get a deadline, and every other record has one, unless it is written by a pipeline whose commands
were not all executed. Where no connection fails and all calls have returned, there is no such
pipeline. -/
theorem deadlines_kept {pkg : Packages} {s t : State (Option Cell)} {as : List Action} (idle : s.calls = [])
    (lasting : ∀ r : Record, Lasts (lifetime r.kind) (s.store r.key))
    (taken : run (step (system pkg Command.apply)) s as = some t) :
    (∀ r : Record, Lasts (lifetime r.kind) (t.store r.key) ∨
      ∃ call ∈ t.calls, call.op.owes = some r ∧ Unfinished (system pkg Command.apply) call) ∧
    ((∀ a ∈ as, a.isFail = false) → (∀ call ∈ t.calls, call.answer.isSome = true) →
      ∀ r : Record, Lasts (lifetime r.kind) (t.store r.key)) := by
  have owed : ∀ r : Record, Lasts (lifetime r.kind) (t.store r.key) ∨
      ∃ call ∈ t.calls, call.op.owes = some r ∧ Unfinished (system pkg Command.apply) call := by
    intro r
    have start : Owed (system pkg Command.apply)
        (fun key cell => ∀ r : Record, key = r.key → Lasts (lifetime r.kind) cell)
        (fun op key => ∃ r : Record, key = r.key ∧ op.owes = some r) r.key s :=
      Or.inl fun q same => same ▸ lasting q
    rcases run_owed (lasts_settles pkg) start taken with lasts | ⟨i, call, found, ⟨q, same, debtor⟩, unfinished⟩
    · exact Or.inl (lasts r rfl)
    · cases key_inj.mp same
      exact Or.inr ⟨call, List.mem_of_getElem? found, debtor, unfinished⟩
  refine ⟨owed, ?_⟩
  intro kept returned r
  rcases owed r with lasts | ⟨call, member, _, unfinished⟩
  · exact lasts
  · exact absurd unfinished (run_complete idle kept taken call member (returned call member))

/- A pipeline that is sent again after its first command, and a counter beside it. -/
def resentPresence : List Action :=
  [.start (.setPresence 7 ⟨utf8 "node", utf8 "c", utf8 "online", 5⟩), .serve 0, .start (.nextSeq (utf8 "world")),
    .serve 1, .resend 0, .tick 10, .serve 0, .answer 1, .serve 0, .answer 0]

theorem deadlines_kept_resentPresence : ∃ t,
    run (step (system decimalPackages Command.apply)) empty resentPresence = some t ∧
    (t.store (keyPresence 7)).map Cell.deadline = some (some 30010) ∧
    (t.store (Keys.keySeq (utf8 "world"))).map Cell.deadline = some none ∧
    ∀ r : Record, Lasts (lifetime r.kind) (t.store r.key) := by
  have done : (run (step (system decimalPackages Command.apply)) empty resentPresence).map
      (fun t => decide ((t.store (keyPresence 7)).map Cell.deadline = some (some 30010) ∧
        (t.store (Keys.keySeq (utf8 "world"))).map Cell.deadline = some none ∧
        ∀ call ∈ t.calls, call.answer.isSome = true)) = some true := by decide +kernel
  obtain ⟨t, taken, seen⟩ := Option.map_eq_some_iff.mp done
  obtain ⟨presence, seq, returned⟩ := of_decide_eq_true seen
  have kept := (deadlines_kept rfl (fun _ => lasts_none) taken).2 (by decide) returned
  exact ⟨t, taken, presence, seq, kept⟩

end GameIM.Store.RedisStore
