import Mathlib.Data.Sym.Sym2
import Mathlib.Order.Lattice
import GameIM.Lib.Format
import GameIM.Api.Wire

/-! The channel id builders of pkg/util/chanid.go. A channel id is a Go string, any bytes. -/
namespace GameIM.Util
open Lib.Text Api

def worldChannelID : Bytes := utf8 "world"

def allianceChannelID (allianceID : Int) : Bytes := utf8 "alliance:" ++ decimal allianceID

def activityChannelID (activityType : Bytes) (groupID : Int) : Bytes :=
  utf8 "activity:" ++ activityType ++ utf8 ":" ++ decimal groupID

def privateChannelID (uid1 uid2 : Int) : Bytes :=
  let (uid1, uid2) := if uid1 > uid2 then (uid2, uid1) else (uid1, uid2)
  utf8 "private:" ++ decimal uid1 ++ utf8 ":" ++ decimal uid2

def systemChannelID : Bytes := utf8 "system:global"

/-- A call of one of the builders. -/
inductive Call where
  | world
  | alliance (allianceID : Int)
  | activity (activityType : Bytes) (groupID : Int)
  | «private» (uid1 uid2 : Int)
  | system
  deriving DecidableEq, Repr

def Call.channelID : Call → Bytes
  | world => worldChannelID
  | alliance allianceID => allianceChannelID allianceID
  | activity activityType groupID => activityChannelID activityType groupID
  | «private» uid1 uid2 => privateChannelID uid1 uid2
  | system => systemChannelID

/-- What a channel id stands for. A private chat has two ends and no first one. -/
inductive Conversation where
  | world
  | alliance (allianceID : Int)
  | activity (activityType : Bytes) (groupID : Int)
  | «private» (uids : Sym2 Int)
  | system
  deriving DecidableEq

def Call.conversation : Call → Conversation
  | world => .world
  | alliance allianceID => .alliance allianceID
  | activity activityType groupID => .activity activityType groupID
  | «private» uid1 uid2 => .private s(uid1, uid2)
  | system => .system

inductive Builder where
  | world | alliance | activity | «private» | system
  deriving DecidableEq

def Builder.head : Builder → Bytes
  | world => utf8 "world"
  | alliance => utf8 "alliance:"
  | activity => utf8 "activity:"
  | «private» => utf8 "private:"
  | system => utf8 "system:global"

def Call.builder : Call → Builder
  | world => .world
  | alliance _ => .alliance
  | activity _ _ => .activity
  | «private» _ _ => .private
  | system => .system

def Call.arguments : Call → Bytes
  | world => []
  | alliance allianceID => decimal allianceID
  | activity activityType groupID => activityType ++ 58 :: decimal groupID
  | «private» uid1 uid2 => decimal (min uid1 uid2) ++ 58 :: decimal (max uid1 uid2)
  | system => []

theorem head_code : ∀ b c : Builder, b.head <+: c.head → b = c := by
  intro b c
  cases b <;> cases c <;> decide +kernel

theorem utf8_colon : utf8 ":" = [58] := by
  decide +kernel

theorem privateChannelID_eq (uid1 uid2 : Int) : privateChannelID uid1 uid2 =
    utf8 "private:" ++ decimal (min uid1 uid2) ++ utf8 ":" ++ decimal (max uid1 uid2) := by
  by_cases swapped : uid1 > uid2
  · rw [min_eq_right (le_of_lt swapped), max_eq_left (le_of_lt swapped)]
    simp only [privateChannelID, if_pos swapped]
  · rw [min_eq_left (not_lt.mp swapped), max_eq_right (not_lt.mp swapped)]
    simp only [privateChannelID, if_neg swapped]

theorem channelID_eq (c : Call) : c.channelID = c.builder.head ++ c.arguments := by
  cases c with
  | world => exact (List.append_nil _).symm
  | alliance allianceID => rfl
  | activity activityType groupID =>
    simp only [Call.channelID, activityChannelID, Call.builder, Builder.head, Call.arguments, utf8_colon,
      List.append_assoc, List.singleton_append]
  | «private» uid1 uid2 =>
    simp only [Call.channelID, privateChannelID_eq, Call.builder, Builder.head, Call.arguments, utf8_colon,
      List.append_assoc, List.singleton_append]
  | system => exact (List.append_nil _).symm

/- The last colon is in front of the last number. -/
theorem numbered_inj {x y : Bytes} {m n : Int} :
    x ++ 58 :: decimal m = y ++ 58 :: decimal n ↔ x = y ∧ m = n := by
  rw [separated_inj (colon_notMem_decimal m) (colon_notMem_decimal n), decimal_inj]

theorem ends_inj {u v x y : Int} : min u v = min x y ∧ max u v = max x y ↔ s(u, v) = s(x, y) := by
  rw [Sym2.eq_iff]
  omega

theorem channelID_eq_iff_conversation (c d : Call) :
    c.channelID = d.channelID ↔ c.conversation = d.conversation := by
  rw [channelID_eq, channelID_eq, tagged_inj head_code]
  cases c <;> cases d <;>
    simp [Call.builder, Call.arguments, Call.conversation, numbered_inj, ends_inj, -Sym2.eq]

theorem channelID_eq_iff (c d : Call) : c.channelID = d.channelID ↔
    c = d ∨ ∃ u v x y, c = .private u v ∧ d = .private x y ∧ s(u, v) = s(x, y) := by
  rw [channelID_eq_iff_conversation]
  cases c <;> cases d <;> simp [Call.conversation]

end GameIM.Util
