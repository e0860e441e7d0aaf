import Mathlib.Logic.Basic

/-! Exclusive ownership of indivisible tokens. A relation says which holder has
which token; a step may hand tokens from one holder to another, drop them, or
give one holder tokens that nobody had. -/
namespace GameIM.Lib

variable {H N : Type}

def Exclusive (O : H → N → Prop) : Prop := ∀ h k n, O h n → O k n → h = k

/-- The giver loses every moved token, so the receiver is its only holder. -/
theorem Exclusive.transfer {O O' : H → N → Prop} (ex : Exclusive O) (giver receiver : H)
    (moved : N → Prop)
    (accounts : ∀ k n, O' k n → (O k n ∧ ¬ (k = giver ∧ moved n)) ∨
      (k = receiver ∧ O giver n ∧ moved n)) : Exclusive O' := by
  intro h k n hh hk
  rcases accounts h n hh with ⟨oldH, stayH⟩ | ⟨rfl, giveH, moveH⟩
  · rcases accounts k n hk with ⟨oldK, _⟩ | ⟨_, giveK, moveK⟩
    · exact ex h k n oldH oldK
    · exact absurd ⟨ex h giver n oldH giveK, moveK⟩ stayH
  · rcases accounts k n hk with ⟨oldK, stayK⟩ | ⟨rfl, _, _⟩
    · exact absurd ⟨ex k giver n oldK giveH, moveH⟩ stayK
    · rfl

theorem Exclusive.fresh {O O' : H → N → Prop} (ex : Exclusive O) (receiver : H)
    (unowned : N → Prop) (free : ∀ k n, O k n → ¬ unowned n)
    (accounts : ∀ k n, O' k n → O k n ∨ (k = receiver ∧ unowned n)) : Exclusive O' := by
  intro h k n hh hk
  rcases accounts h n hh with oldH | ⟨rfl, newH⟩
  · rcases accounts k n hk with oldK | ⟨_, newK⟩
    · exact ex h k n oldH oldK
    · exact absurd newK (free h n oldH)
  · rcases accounts k n hk with oldK | ⟨rfl, _⟩
    · exact absurd newH (free k n oldK)
    · rfl

end GameIM.Lib
