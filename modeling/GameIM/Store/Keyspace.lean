import GameIM.Store.RedisStore

/-! The keyspace of Redis with the operations of RedisStore on it, over whole runs: any calls,
mixed in any way. Times are in milliseconds. -/
namespace GameIM.Store.RedisStore
open Lib Lib.Text Lib.Keyed Api Keys Service

inductive Value where
  | str (text : Bytes)
  | hash (fields : List (Bytes × Bytes))
  | set (members : List Bytes)
  | list (entries : List Bytes)
  deriving DecidableEq, Repr

structure Cell where
  value : Value
  deadline : Option Nat
  deriving DecidableEq, Repr

def Cell.live (now : Nat) (cell : Cell) : Bool :=
  match cell.deadline with
  | none => true
  | some d => decide (now < d)

def wrongType : Reply :=
  .error (utf8 "WRONGTYPE Operation against a key holding the wrong kind of value")

def notInteger : Reply := .error (utf8 "ERR value is not an integer or out of range")

def overflow : Bytes := utf8 "ERR increment or decrement would overflow"

def setField (fields : List (Bytes × Bytes)) (f : Bytes × Bytes) : List (Bytes × Bytes) :=
  if fields.any (·.1 = f.1) then fields.map fun g => if g.1 = f.1 then f else g else fields ++ [f]

/- A collection that has become empty is deleted. -/
def keep (value : Value) (deadline : Option Nat) : Option Cell :=
  match value with
  | .set [] | .list [] => none
  | value => some ⟨value, deadline⟩

section Typed

variable (cell found : Option Cell) (absent : Reply × Option Cell)

def onStr (present : Bytes → Option Nat → Reply × Option Cell) : Reply × Option Cell :=
  match found with
  | none => absent
  | some ⟨.str text, deadline⟩ => present text deadline
  | some _ => (wrongType, cell)

def onHash (present : List (Bytes × Bytes) → Option Nat → Reply × Option Cell) : Reply × Option Cell :=
  match found with
  | none => absent
  | some ⟨.hash fields, deadline⟩ => present fields deadline
  | some _ => (wrongType, cell)

def onSet (present : List Bytes → Option Nat → Reply × Option Cell) : Reply × Option Cell :=
  match found with
  | none => absent
  | some ⟨.set members, deadline⟩ => present members deadline
  | some _ => (wrongType, cell)

def onList (present : List Bytes → Option Nat → Reply × Option Cell) : Reply × Option Cell :=
  match found with
  | none => absent
  | some ⟨.list entries, deadline⟩ => present entries deadline
  | some _ => (wrongType, cell)

def addTo (old delta : Int) (deadline : Option Nat) : Reply × Option Cell :=
  if Overflows old delta then (.error overflow, cell)
  else (.int (old + delta), some ⟨.str (decimal (old + delta)), deadline⟩)

/- INCRBY keeps the deadline. -/
def incrCell (delta : Int) : Reply × Option Cell :=
  onStr cell found (addTo cell 0 delta none) fun text deadline =>
    match readInt64 text with
    | some n => addTo cell n delta deadline
    | none => (notInteger, cell)

end Typed

/-- A command on what is under its key. A cell whose deadline has passed is absent. -/
def Command.apply (now : Nat) (c : Command) (cell : Option Cell) : Reply × Option Cell :=
  let found := cell.filter (·.live now)
  match c with
  | hset fields =>
    let new := fields.foldl setField []
    onHash cell found (.int new.length, some ⟨.hash new, none⟩) fun old deadline =>
      let new := fields.foldl setField old
      (.int (new.length - old.length : Nat), some ⟨.hash new, deadline⟩)
  | hgetall => onHash cell found (.pairs [], cell) fun fields _ => (.pairs fields, cell)
  | expire seconds => match found with
    | none => (.int 0, cell)
    | some e =>
      if seconds ≤ 0 then (.int 1, none)
      else (.int 1, some ⟨e.value, some (now + 1000 * seconds.toNat)⟩)
  | del => match found with
    | none => (.int 0, none)
    | some _ => (.int 1, none)
  | incr => incrCell cell found 1
  | incrby delta => incrCell cell found delta
  | get => onStr cell found (.nil, cell) fun text _ => (.bulk text, cell)
  | set value ex => (.ok, some ⟨.str value, ex.map fun seconds => now + 1000 * seconds⟩)
  | sadd member =>
    onSet cell found (.int 1, some ⟨.set [member], none⟩) fun members deadline =>
      (.int (if member ∈ members then 0 else 1), some ⟨.set (Channels.sadd members member), deadline⟩)
  | srem member =>
    onSet cell found (.int 0, cell) fun members deadline =>
      (.int (if member ∈ members then 1 else 0), keep (.set (Channels.srem members member)) deadline)
  | smembers => onSet cell found (.bulks [], cell) fun members _ => (.bulks members, cell)
  | lpush value =>
    onList cell found (.int 1, some ⟨.list [value], none⟩) fun entries deadline =>
      (.int (entries.length + 1 : Nat), some ⟨.list (value :: entries), deadline⟩)
  | ltrim start stop =>
    onList cell found (.ok, cell) fun entries deadline =>
      (.ok, keep (.list ((entries.take (stop + 1)).drop start)) deadline)
  | lrange start stop =>
    onList cell found (.bulks [], cell) fun entries _ => (.bulks ((entries.take (stop + 1)).drop start), cell)

abbrev State (V : Type) := Keyed.State Bytes V Op Reply (Outcome Answer)
abbrev Action := Keyed.Action Op Bytes

def system {V : Type} (pkg : Packages) (apply : Nat → Command → V → Reply × V) :
    System Bytes Command Reply V (Outcome Answer) Op Bytes :=
  ⟨apply, Op.request pkg, .lost⟩

section Separate

variable {V : Type} (pkg : Packages) (apply : Nat → Command → V → Reply × V)

/-- The step is not one of a call that is about the record. -/
def Apart (r : Record) (s : State V) : Action → Prop
  | .serve i => ∀ call ∈ s.calls[i]?, r ∉ call.op.records
  | _ => True

instance (r : Record) (s : State V) (a : Action) : Decidable (Apart r s a) := by
  cases a with
  | serve i => exact inferInstanceAs (Decidable (∀ call ∈ s.calls[i]?, r ∉ call.op.records))
  | _ => exact isTrue trivial

theorem sends_ne {good : Bytes → Bool} {records : List Record} {r : Record} (other : r ∉ records) (key : Bytes)
    (c : Command) (sent : Sends good records key c) : key ≠ r.key := by
  obtain ⟨q, listed, rfl, _⟩ := sent
  intro same
  exact other (key_inj.mp same ▸ listed)

theorem apart_key {r : Record} {s : State V} {a : Action} (apart : Apart r s a) :
    Keyed.Apart (system pkg apply) r.key s a := by
  cases a with
  | serve i =>
    intro call found script member
    exact (request_on pkg call.op (marks_any pkg call.op) script member).imp (sends_ne (apart call found))
  | _ => trivial

theorem apart_keys {r : Record} {s : State V} {as : List Action}
    (apart : Meets (step (system pkg apply)) (Apart r) s as) :
    Meets (step (system pkg apply)) (Keyed.Apart (system pkg apply) r.key) s as :=
  apart.imp fun _ _ _ ok => apart_key pkg apply ok

/-- The keys of different records are different. So a run in which no call about a record takes
a step is the same run whatever the record is: nothing of it is read, and it is left as it
is. -/
theorem records_separate :
    (∀ r q : Record, r.key = q.key ↔ r = q) ∧
    ∀ (r : Record) (s : State V) (as : List Action), Meets (step (system pkg apply)) (Apart r) s as →
      (∀ t, run (step (system pkg apply)) s as = some t → t.store r.key = s.store r.key) ∧
      ∀ v, run (step (system pkg apply)) (s.put r.key v) as =
        (run (step (system pkg apply)) s as).map (·.put r.key v) := by
  refine ⟨fun r q => key_inj, ?_⟩
  intro r s as apart
  have keys := apart_keys pkg apply apart
  refine ⟨?_, ?_⟩
  · intro t taken
    exact run_store keys taken
  · intro v
    exact run_put keys v

end Separate

/- Decimals for every number, and no message that can be marshalled. -/
def decimalPackages : Packages where
  lua :=
    { tonumber := readDecimal
      text := decimal
      int := id
      raised := id
      tonumber_exact := fun n _ => readDecimal_decimal n
      text_exact := fun _ _ => rfl
      int_exact := fun _ _ => rfl }
  formatSec duration := duration / 1000000000
  marshalState _ := none
  unmarshalState _ := none
  proto := ⟨fun _ => none, fun _ => none, fun _ _ none => nomatch none⟩

def empty : State (Option Cell) := ⟨0, fun _ => none, []⟩

/- Ids that look like the key of another record. -/
def disguised : List Action :=
  [.start (.nextSeq (utf8 "im:channel:members:1")), .serve 0, .answer 0,
    .start (.dedupAndRateCheck (utf8 "channel:members:1") 1 10 5), .serve 1, .resend 1, .serve 1]

theorem records_separate_disguised :
    Meets (step (system decimalPackages Command.apply)) (Apart (.channelMembers (utf8 "1"))) empty disguised ∧
    (run (step (system decimalPackages Command.apply)) empty disguised).isSome = true ∧
    ∀ t, run (step (system decimalPackages Command.apply)) empty disguised = some t →
      t.store (channelMembersKey (utf8 "1")) = none :=
  have apart : Meets (step (system decimalPackages Command.apply)) (Apart (.channelMembers (utf8 "1")))
      empty disguised := by decide +kernel
  ⟨apart, by decide +kernel, ((records_separate decimalPackages Command.apply).2 (.channelMembers (utf8 "1")) empty
    disguised apart).1⟩

def isMark (text : Bytes) : Bool := ((readDecimal text).filter fun n => decide (IsExact n)).isSome

theorem isMark_iff {text : Bytes} : isMark text = true ↔ ∃ n, text = decimal n ∧ IsExact n := by
  rw [isMark, Option.isSome_iff_exists]
  refine exists_congr ?_
  intro n
  rw [Option.filter_eq_some_iff, readDecimal_eq_some, decide_eq_true_iff]

theorem isMark_decimal {n : Int} (exact : IsExact n) : isMark (decimal n) = true :=
  isMark_iff.mpr ⟨n, rfl, exact⟩

def Value.fits : Value → Shape → Bool
  | str text, .number => (readInt64 text).isSome
  | str text, .mark => isMark text
  | str _, .text => true
  | hash _, .hash => true
  | set _, .set => true
  | list _, .list => true
  | _, _ => false

def Command.suits (shape : Shape) : Command → Reply → Bool
  | get, .nil => true
  | get, .bulk text => (Value.str text).fits shape
  | set _ _, .ok | ltrim _ _, .ok => true
  | incr, .int _ | incrby _, .int _ => true
  | incr, .error text | incrby _, .error text => text = overflow
  | hset _, .int _ | expire _, .int _ | del, .int _ => true
  | sadd _, .int _ | srem _, .int _ | lpush _, .int _ => true
  | hgetall, .pairs _ => true
  | smembers, .bulks _ | lrange _ _, .bulks _ => true
  | _, _ => false

def Fits (shape : Shape) (cell : Option Cell) : Prop := ∀ e, cell = some e → e.value.fits shape = true

/-- The reply is one of the command, and what is left fits. -/
structure Proper (kind : Shape) (c : Command) (done : Reply × Option Cell) : Prop where
  reply : c.suits kind done.1 = true
  cell : Fits kind done.2

section Fits

variable {kind : Shape} {cell : Option Cell} {now : Nat}

theorem fits_none : Fits kind none := fun _ absent => nomatch absent

theorem fits_some {value : Value} {deadline : Option Nat} (fits : value.fits kind = true) :
    Fits kind (some ⟨value, deadline⟩) := by
  intro e same
  cases Option.some.inj same
  exact fits

theorem fits_keep {value : Value} {deadline : Option Nat} (fits : value.fits kind = true) :
    Fits kind (keep value deadline) := by
  unfold keep
  split
  · exact fits_none
  · exact fits_none
  · exact fits_some fits

theorem Fits.found (now : Nat) (fits : Fits kind cell) : Fits kind (cell.filter (·.live now)) := by
  intro e found
  exact fits e (Option.filter_eq_some_iff.mp found).1

theorem decimal_fits {n : Int} (fits : IsInt64 n) : (Value.str (decimal n)).fits .number = true := by
  simp only [Value.fits, readInt64_decimal fits, Option.isSome_some]

/- On a key of its kind a command finds nothing, or what it expects. -/
section Expected

variable {found : Option Cell} {absent : Reply × Option Cell} (Q : Reply × Option Cell → Prop)

theorem onHash_fits {present : List (Bytes × Bytes) → Option Nat → Reply × Option Cell}
    (fits : Fits .hash found) (nothing : Q absent) (there : ∀ fields d, Q (present fields d)) :
    Q (onHash cell found absent present) := by
  rcases found with _ | ⟨value, d⟩
  · exact nothing
  · have ok := fits _ rfl
    cases value with
    | hash fields => exact there fields d
    | _ => contradiction

theorem onText_fits {present : Bytes → Option Nat → Reply × Option Cell}
    (fits : Fits .text found) (nothing : Q absent) (there : ∀ text d, Q (present text d)) :
    Q (onStr cell found absent present) := by
  rcases found with _ | ⟨value, d⟩
  · exact nothing
  · have ok := fits _ rfl
    cases value with
    | str text => exact there text d
    | _ => contradiction

theorem onNumber_fits {present : Bytes → Option Nat → Reply × Option Cell}
    (fits : Fits .number found) (nothing : Q absent) (there : ∀ n d, IsInt64 n → Q (present (decimal n) d)) :
    Q (onStr cell found absent present) := by
  rcases found with _ | ⟨value, d⟩
  · exact nothing
  · have ok := fits _ rfl
    cases value with
    | str text =>
      obtain ⟨n, reads⟩ := Option.isSome_iff_exists.mp ok
      obtain ⟨rfl, within⟩ := readInt64_eq_some.mp reads
      exact there n d within
    | _ => contradiction

theorem onMark_fits {present : Bytes → Option Nat → Reply × Option Cell}
    (fits : Fits .mark found) (nothing : Q absent) (there : ∀ text d, isMark text = true → Q (present text d)) :
    Q (onStr cell found absent present) := by
  rcases found with _ | ⟨value, d⟩
  · exact nothing
  · have ok := fits _ rfl
    cases value with
    | str text => exact there text d ok
    | _ => contradiction

theorem onSet_fits {present : List Bytes → Option Nat → Reply × Option Cell}
    (fits : Fits .set found) (nothing : Q absent) (there : ∀ members d, Q (present members d)) :
    Q (onSet cell found absent present) := by
  rcases found with _ | ⟨value, d⟩
  · exact nothing
  · have ok := fits _ rfl
    cases value with
    | set members => exact there members d
    | _ => contradiction

theorem onList_fits {present : List Bytes → Option Nat → Reply × Option Cell}
    (fits : Fits .list found) (nothing : Q absent) (there : ∀ entries d, Q (present entries d)) :
    Q (onList cell found absent present) := by
  rcases found with _ | ⟨value, d⟩
  · exact nothing
  · have ok := fits _ rfl
    cases value with
    | list entries => exact there entries d
    | _ => contradiction

end Expected

section Count

variable {c : Command} (numbers : ∀ n, c.suits .number (.int n) = true)
  (refuses : c.suits .number (.error overflow) = true)
include numbers refuses

theorem addTo_proper {old : Int} (delta : Int) (deadline : Option Nat) (within : IsInt64 old)
    (fits : Fits .number cell) : Proper .number c (addTo cell old delta deadline) := by
  unfold addTo
  split
  · exact ⟨refuses, fits⟩
  · rename_i room
    exact ⟨numbers (old + delta), fits_some (decimal_fits (isInt64_add within room))⟩

theorem incrCell_proper (delta : Int) (fits : Fits .number cell) :
    Proper .number c (incrCell cell (cell.filter (·.live now)) delta) := by
  refine onNumber_fits (Proper .number c) (fits.found now) ?_ ?_
  · exact addTo_proper numbers refuses delta none (by decide) fits
  · intro n d within
    rw [readInt64_decimal within]
    exact addTo_proper numbers refuses delta d within fits

end Count

theorem expire_proper (now : Nat) (seconds : Int) (fits : Fits kind cell) :
    Proper kind (.expire seconds) ((Command.expire seconds).apply now cell) := by
  simp only [Command.apply]
  cases found : cell.filter (·.live now) with
  | none => exact ⟨rfl, fits⟩
  | some e =>
    simp only
    split
    · exact ⟨rfl, fits_none⟩
    · exact ⟨rfl, fits_some (fits.found now e found)⟩

theorem del_proper (now : Nat) (cell : Option Cell) : Proper kind .del (Command.del.apply now cell) := by
  simp only [Command.apply]
  cases cell.filter (·.live now) with
  | none => exact ⟨rfl, fits_none⟩
  | some e => exact ⟨rfl, fits_none⟩

theorem hash_proper (now : Nat) {c : Command} (takes : Shape.hash.takes isMark c = true) (fits : Fits .hash cell) :
    Proper .hash c (c.apply now cell) := by
  have found := fits.found now
  cases c with
  | expire seconds => exact expire_proper now seconds fits
  | del => exact del_proper now cell
  | hset fields =>
    exact onHash_fits (Proper .hash (.hset fields)) found ⟨rfl, fits_some rfl⟩ fun _ _ => ⟨rfl, fits_some rfl⟩
  | hgetall => exact onHash_fits (Proper .hash .hgetall) found ⟨rfl, fits⟩ fun _ _ => ⟨rfl, fits⟩
  | _ => contradiction

theorem number_proper (now : Nat) {c : Command} (takes : Shape.number.takes isMark c = true)
    (fits : Fits .number cell) : Proper .number c (c.apply now cell) := by
  cases c with
  | expire seconds => exact expire_proper now seconds fits
  | del => exact del_proper now cell
  | get =>
    refine onNumber_fits (Proper .number .get) (fits.found now) ⟨rfl, fits⟩ ?_
    intro n d within
    exact ⟨decimal_fits within, fits⟩
  | incr => exact incrCell_proper (fun _ => rfl) (by simp [Command.suits]) 1 fits
  | incrby delta => exact incrCell_proper (fun _ => rfl) (by simp [Command.suits]) delta fits
  | _ => contradiction

theorem mark_proper (now : Nat) {c : Command} (takes : Shape.mark.takes isMark c = true) (fits : Fits .mark cell) :
    Proper .mark c (c.apply now cell) := by
  cases c with
  | expire seconds => exact expire_proper now seconds fits
  | del => exact del_proper now cell
  | get => exact onMark_fits (Proper .mark .get) (fits.found now) ⟨rfl, fits⟩ fun _ _ marked => ⟨marked, fits⟩
  | set value ex => exact ⟨rfl, fits_some takes⟩
  | _ => contradiction

theorem text_proper (now : Nat) {c : Command} (takes : Shape.text.takes isMark c = true) (fits : Fits .text cell) :
    Proper .text c (c.apply now cell) := by
  have found := fits.found now
  cases c with
  | expire seconds => exact expire_proper now seconds fits
  | del => exact del_proper now cell
  | get => exact onText_fits (Proper .text .get) found ⟨rfl, fits⟩ fun _ _ => ⟨rfl, fits⟩
  | set value ex => exact ⟨rfl, fits_some rfl⟩
  | _ => contradiction

theorem set_proper (now : Nat) {c : Command} (takes : Shape.set.takes isMark c = true) (fits : Fits .set cell) :
    Proper .set c (c.apply now cell) := by
  have found := fits.found now
  cases c with
  | expire seconds => exact expire_proper now seconds fits
  | del => exact del_proper now cell
  | sadd member =>
    exact onSet_fits (Proper .set (.sadd member)) found ⟨rfl, fits_some rfl⟩ fun _ _ => ⟨rfl, fits_some rfl⟩
  | srem member =>
    exact onSet_fits (Proper .set (.srem member)) found ⟨rfl, fits⟩ fun _ _ => ⟨rfl, fits_keep rfl⟩
  | smembers => exact onSet_fits (Proper .set .smembers) found ⟨rfl, fits⟩ fun _ _ => ⟨rfl, fits⟩
  | _ => contradiction

theorem list_proper (now : Nat) {c : Command} (takes : Shape.list.takes isMark c = true) (fits : Fits .list cell) :
    Proper .list c (c.apply now cell) := by
  have found := fits.found now
  cases c with
  | expire seconds => exact expire_proper now seconds fits
  | del => exact del_proper now cell
  | lpush value =>
    exact onList_fits (Proper .list (.lpush value)) found ⟨rfl, fits_some rfl⟩ fun _ _ => ⟨rfl, fits_some rfl⟩
  | ltrim start stop =>
    exact onList_fits (Proper .list (.ltrim start stop)) found ⟨rfl, fits⟩ fun _ _ => ⟨rfl, fits_keep rfl⟩
  | lrange start stop =>
    exact onList_fits (Proper .list (.lrange start stop)) found ⟨rfl, fits⟩ fun _ _ => ⟨rfl, fits⟩
  | _ => contradiction

/-- A command that belongs to what is under its key replies as it should, and leaves there what
belongs there. -/
theorem apply_proper (now : Nat) {c : Command} (takes : kind.takes isMark c = true) (fits : Fits kind cell) :
    Proper kind c (c.apply now cell) := by
  cases kind with
  | hash => exact hash_proper now takes fits
  | number => exact number_proper now takes fits
  | mark => exact mark_proper now takes fits
  | text => exact text_proper now takes fits
  | set => exact set_proper now takes fits
  | list => exact list_proper now takes fits

end Fits

end GameIM.Store.RedisStore
