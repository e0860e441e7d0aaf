import GameIM.Store.Views
import GameIM.Service.CachedChecks

/-! The bans and the availability of channel types are cells of the keyspace. However the calls of
RedisStore are mixed, they are a run of the records that the checks of SendMsg read. -/
namespace GameIM.Store.RedisStore
open Lib Lib.Text Lib.Keyed Api Keys Service

open CachedChecks (BanRecord)

inductive Check where
  | ban (uid : Int)
  | avail (channelType : ChannelType)

def Check.record : Check → Record
  | ban uid => .ban uid
  | avail channelType => .channelAvail channelType.number

theorem check_injective : Function.Injective fun i : Check => i.record.key := by
  intro i j same
  have records := key_inj.mp same
  cases i with
  | ban uid => cases j with
    | ban other =>
      cases records
      rfl
    | avail channelType => contradiction
  | avail channelType => cases j with
    | ban other => contradiction
    | avail other =>
      cases channelType
      cases other
      cases records
      rfl

def banCell (b : BanRecord) : Cell :=
  ⟨.hash [(utf8 "reason", utf8 b.reason), (utf8 "expire_at", decimal b.expireAt)], b.deadline⟩

def availCell (val : String) : Cell := ⟨.str (utf8 val), none⟩

def checkCell (s : CachedChecks.State) : Check → Option Cell
  | .ban uid => (s.bans uid).map banCell
  | .avail channelType => (s.avail channelType).map availCell

/-- The keyspace holds the bans and the availability that the checks of SendMsg read. -/
structure Checks (now : Nat) (store : Bytes → Option Cell) (s : CachedChecks.State) : Prop where
  clock : s.now = now
  shows : Shows (fun i : Check => i.record.key) store (checkCell s)
  within : ∀ uid b, s.bans uid = some b → IsInt64 b.expireAt

variable {now : Nat} {store : Bytes → Option Cell} {s : CachedChecks.State}

theorem Checks.writeBan (shown : Checks now store s) (uid : Int) (b : Option BanRecord)
    (within : ∀ r, b = some r → IsInt64 r.expireAt) :
    Checks now (Function.update store (keyBan uid) (b.map banCell))
      { s with bans := Function.update s.bans uid b } := by
  have cell : checkCell { s with bans := Function.update s.bans uid b } (.ban uid) = b.map banCell := by
    simp only [checkCell, Function.update_self]
  rw [← cell]
  refine ⟨shown.clock, Shows.change shown.shows check_injective (.ban uid) _ ?_, ?_⟩
  · intro j differ
    cases j with
    | ban other =>
      have apart : other ≠ uid := fun same => differ (congrArg Check.ban same)
      simp only [checkCell, Function.update_of_ne apart]
    | avail channelType => rfl
  · intro other r (held : Function.update s.bans uid b other = some r)
    by_cases same : other = uid
    · rw [same, Function.update_self] at held
      exact within r held
    · rw [Function.update_of_ne same] at held
      exact shown.within other r held

theorem Checks.ban (shown : Checks now store s) (uid : Int) :
    (store (keyBan uid)).filter (·.live now) = (s.banRecord uid).map banCell := by
  have cell : store (keyBan uid) = (s.bans uid).map banCell := shown.shows (.ban uid)
  rw [cell, CachedChecks.State.banRecord, shown.clock]
  exact Option.filter_map

theorem Checks.found (shown : Checks now store s) {uid : Int} {b : BanRecord} (found : s.banRecord uid = some b) :
    IsInt64 b.expireAt :=
  shown.within uid b (Option.filter_eq_some_iff.mp found).1

theorem reason_ne_expireAt : utf8 "reason" ≠ utf8 "expire_at" := by
  decide +kernel

theorem hset_new (reason expireAt : Bytes) :
    [(utf8 "reason", reason), (utf8 "expire_at", expireAt)].foldl setField [] =
      [(utf8 "reason", reason), (utf8 "expire_at", expireAt)] := by
  simp [setField, reason_ne_expireAt]

theorem hset_again (reason expireAt reason' expireAt' : Bytes) :
    [(utf8 "reason", reason), (utf8 "expire_at", expireAt)].foldl setField
        [(utf8 "reason", reason'), (utf8 "expire_at", expireAt')] =
      [(utf8 "reason", reason), (utf8 "expire_at", expireAt)] := by
  simp [setField, reason_ne_expireAt, reason_ne_expireAt.symm]

theorem Checks.hset (shown : Checks now store s) (uid : Int) (reason : String) {expireAt : Int}
    (within : IsInt64 expireAt) : ∃ n cell,
    (Command.hset [(utf8 "reason", utf8 reason), (utf8 "expire_at", decimal expireAt)]).apply now
        (store (keyBan uid)) = (.int n, cell) ∧
      Checks now (Function.update store (keyBan uid) cell) (s.hsetBan uid reason expireAt) := by
  simp only [Command.apply, shown.ban, CachedChecks.State.hsetBan]
  cases found : s.banRecord uid with
  | none =>
    refine ⟨2, _, ?_, shown.writeBan uid (some ⟨reason, expireAt, none⟩) fun _ same => Option.some.inj same ▸ within⟩
    simp only [Option.map_none, onHash, hset_new]
    rfl
  | some b =>
    refine ⟨0, _, ?_, shown.writeBan uid (some ⟨reason, expireAt, b.deadline⟩) fun _ same =>
      Option.some.inj same ▸ within⟩
    simp only [Option.map_some, onHash, banCell, hset_again]
    rfl

theorem Checks.expire (shown : Checks now store s) (uid seconds : Int) : ∃ n cell,
    (Command.expire seconds).apply now (store (keyBan uid)) = (.int n, cell) ∧
      Checks now (Function.update store (keyBan uid) cell) (s.expireBan uid seconds) := by
  obtain rfl := shown.clock
  simp only [Command.apply, shown.ban, CachedChecks.State.expireBan]
  cases found : s.banRecord uid with
  | none =>
    refine ⟨0, store (keyBan uid), rfl, ?_⟩
    rw [Function.update_eq_self]
    exact shown
  | some b =>
    simp only [Option.map_some]
    split
    · exact ⟨1, none, rfl, shown.writeBan uid none (by simp)⟩
    · refine ⟨1, _, rfl, shown.writeBan uid (some { b with deadline := some (s.now + 1000 * seconds.toNat) }) ?_⟩
      intro r same
      have kept := shown.found found
      cases Option.some.inj same
      exact kept

theorem Checks.del (shown : Checks now store s) (uid : Int) : ∃ n,
    Command.del.apply now (store (keyBan uid)) = (.int n, none) ∧
      Checks now (Function.update store (keyBan uid) none) (s.deleteBan uid) := by
  simp only [Command.apply]
  cases (store (keyBan uid)).filter (·.live now) with
  | none => exact ⟨0, rfl, shown.writeBan uid none (by simp)⟩
  | some e => exact ⟨1, rfl, shown.writeBan uid none (by simp)⟩

theorem Checks.hgetall (shown : Checks now store s) (uid : Int) :
    Command.hgetall.apply now (store (keyBan uid)) =
      (.pairs (match s.banRecord uid with
        | none => []
        | some b => [(utf8 "reason", utf8 b.reason), (utf8 "expire_at", decimal b.expireAt)]),
        store (keyBan uid)) := by
  simp only [Command.apply, shown.ban]
  cases s.banRecord uid <;> rfl

/-- The commands of the checks; SetBan is two of them. -/
inductive CheckPart where
  | hsetBan (uid : Int) (reason : String) (expireAt : Int)
  | expireBan (uid seconds : Int)
  | deleteBan (uid : Int)
  | isBanned (uid : Int)
  | setChannelAvailable (channelType : ChannelType) (available : Bool)
  | isChannelAvailable (channelType : ChannelType)

namespace CheckPart

def act : CheckPart → CachedChecks.State → Answer × CachedChecks.State
  | hsetBan uid reason expireAt, s => (.done, s.hsetBan uid reason expireAt)
  | expireBan uid seconds, s => (.done, s.expireBan uid seconds)
  | deleteBan uid, s => (.done, s.deleteBan uid)
  | isBanned uid, s => (.flagged (s.isBanned uid).1 (s.isBanned uid).2, s)
  | setChannelAvailable channelType available, s => (.done, s.setChannelAvailable channelType available)
  | isChannelAvailable channelType, s => (.flag (s.isChannelAvailable channelType), s)

def read (pkg : Packages) : CheckPart → Reply → Outcome Answer
  | isBanned uid, a => ((Op.isBanned uid).request pkg).read [a]
  | isChannelAvailable channelType, a => ((Op.isChannelAvailable channelType.number).request pkg).read [a]
  | _, a => a.err.map fun _ => .done

inductive Of (pkg : Packages) : Op → Nat → CheckPart → Prop where
  | hset (time uid duration : Int) (reason : String) (within : IsInt64 ((time + duration) / 1000000)) :
      Of pkg (.setBan time uid duration (utf8 reason)) 0 (.hsetBan uid reason ((time + duration) / 1000000))
  | expire (time uid duration : Int) (reason : String) :
      Of pkg (.setBan time uid duration (utf8 reason)) 1 (.expireBan uid (pkg.formatSec duration))
  | delete (uid : Int) : Of pkg (.deleteBan uid) 0 (.deleteBan uid)
  | banned (uid : Int) : Of pkg (.isBanned uid) 0 (.isBanned uid)
  | set (channelType : Int) (available : Bool) :
      Of pkg (.setChannelAvailable channelType available) 0 (.setChannelAvailable ⟨channelType⟩ available)
  | available (channelType : Int) :
      Of pkg (.isChannelAvailable channelType) 0 (.isChannelAvailable ⟨channelType⟩)

theorem Of.place {pkg : Packages} {op : Op} {j : Nat} {p : CheckPart} (of : Of pkg op j p) : j < 2 := by
  cases of <;> decide

theorem Of.unique {pkg : Packages} {op : Op} {j : Nat} {p p' : CheckPart} (of : Of pkg op j p)
    (of' : Of pkg op j p') : p = p' := by
  generalize same : op = op' at of'
  cases of <;> cases of' <;> simp_all [utf8_inj]

end CheckPart

theorem CheckPart.Of.parts {pkg : Packages} {op : Op} {p : CheckPart} (of : CheckPart.Of pkg op 0 p)
    {only : Script Bytes Command Reply} (batch : (op.request pkg).batch = [only]) (j : Nat)
    (script : Script Bytes Command Reply) (sent : (op.request pkg).batch[j]? = some script) :
    ∃ p, CheckPart.Of pkg op j p := by
  rw [single_place batch sent]
  exact ⟨p, of⟩

/-- The call failed for the connection, or it returned the result of each of its parts, as they
were taken for it. -/
def Backed (part : Nat → CheckPart → Prop) (log : List (Taken CheckPart Answer)) (i : Nat)
    (o : Outcome Answer) : Prop :=
  (∃ text, o = .error (.network text)) ∨ ∃ ans, o = .ok ans ∧ ∀ j p, part j p → ⟨i, j, p, ans⟩ ∈ log

theorem CheckPart.read_lost (pkg : Packages) (p : CheckPart) (text : Bytes) :
    p.read pkg (.lost text) = .error (.network text) := by
  cases p <;> rfl

end GameIM.Store.RedisStore
