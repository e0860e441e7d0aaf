import GameIM.Api.Types

/-! The protobuf runtime, as the modelled functions use it. -/
namespace GameIM.Api

/-- Marshal and Unmarshal of one message type. Marshal refuses some values, a string
that is not UTF-8 for one; what it produces, Unmarshal reads back. -/
structure Proto (α : Type) where
  marshal : α → Option Bytes
  unmarshal : Bytes → Option α
  undoes : ∀ a data, marshal a = some data → unmarshal data = some a

end GameIM.Api
