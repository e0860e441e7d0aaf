import GameIM.Lib.Machine

/-! Noninterference of one deterministic service. Each call gives an output and a next
state; some of the calls are the observer's own. If a relation between states survives
an own call made on both sides and a stranger's call made on one side, then two runs
with the same own calls look the same to the observer. -/
namespace GameIM.Lib

variable {S A O V : Type}

/-- The calls of a run with their outputs. -/
def outputs (f : S → A → O × S) : S → List A → List (A × O)
  | _, [] => []
  | s, a :: rest => (a, (f s a).1) :: outputs f (f s a).2 rest

/-- What the observer sees of a run: its own outputs, up to a view. -/
def observed (f : S → A → O × S) (mine : A → Bool) (view : O → V) (s : S) (as : List A) : List V :=
  ((outputs f s as).filter (mine ·.1)).map (view ·.2)

/-- The service as a machine that refuses nothing. -/
def proceed (f : S → A → O × S) (s : S) (a : A) : Option S := some (f s a).2

/-- The calls may be held to a condition on the state in which they are made. -/
structure Unwinding (f : S → A → O × S) (mine : A → Bool) (view : O → V) (P : S → A → Prop)
    (R : S → S → Prop) : Prop where
  symm : ∀ s t, R s t → R t s
  own : ∀ s t a, R s t → P s a → P t a → mine a = true →
    view (f s a).1 = view (f t a).1 ∧ R (f s a).2 (f t a).2
  stranger : ∀ s t a, R s t → P s a → mine a = false → R (f s a).2 t

section View

variable {f : S → A → O × S} {mine : A → Bool} {view : O → V} {P : S → A → Prop} {R : S → S → Prop}

theorem observed_own (s : S) {a : A} (own : mine a = true) (rest : List A) :
    observed f mine view s (a :: rest) = view (f s a).1 :: observed f mine view (f s a).2 rest := by
  simp [observed, outputs, own]

theorem observed_stranger (s : S) {a : A} (other : mine a = false) (rest : List A) :
    observed f mine view s (a :: rest) = observed f mine view (f s a).2 rest := by
  simp [observed, outputs, other]

theorem Unwinding.first_own (u : Unwinding f mine view P R) {s t : S} {bs : List A} (related : R s t)
    (allowed : Meets (proceed f) P t bs) :
    (bs.filter mine = [] ∧ observed f mine view t bs = []) ∨
      ∃ v b rest, R s v ∧ mine b = true ∧ Meets (proceed f) P v (b :: rest) ∧
        bs.filter mine = b :: rest.filter mine ∧
        observed f mine view t bs = observed f mine view v (b :: rest) := by
  induction bs generalizing t with
  | nil => exact Or.inl ⟨rfl, rfl⟩
  | cons b rest ih =>
    cases own : mine b with
    | true => exact Or.inr ⟨t, b, rest, related, own, allowed, List.filter_cons_of_pos own, rfl⟩
    | false =>
      have next := u.stranger t s b (u.symm s t related) allowed.1 own
      rw [observed_stranger t own, List.filter_cons_of_neg (by simp [own])]
      exact ih (u.symm _ _ next) allowed.2

/-- Two runs with the same own calls look the same. -/
theorem Unwinding.same_view (u : Unwinding f mine view P R) {s t : S} {as bs : List A} (related : R s t)
    (allowedA : Meets (proceed f) P s as) (allowedB : Meets (proceed f) P t bs)
    (same : as.filter mine = bs.filter mine) :
    observed f mine view s as = observed f mine view t bs := by
  induction as generalizing s t bs with
  | nil =>
    rcases u.first_own related allowedB with ⟨_, unseen⟩ | ⟨_, _, _, _, _, _, calls, _⟩
    · exact unseen.symm
    · rw [← same] at calls
      contradiction
  | cons a rest ih =>
    cases own : mine a with
    | false =>
      rw [observed_stranger s own]
      rw [List.filter_cons_of_neg (by simp [own])] at same
      exact ih (u.stranger s t a related allowedA.1 own) allowedA.2 allowedB same
    | true =>
      rw [List.filter_cons_of_pos own] at same
      rcases u.first_own related allowedB with ⟨calls, _⟩ | ⟨v, b, more, next, _, allowed, calls, seen⟩
      · rw [← same] at calls
        contradiction
      · rw [← same] at calls
        obtain ⟨rfl, tail⟩ := List.cons.inj calls
        obtain ⟨answer, after⟩ := u.own s v a next allowedA.1 allowed.1 own
        rw [seen, observed_own s own, observed_own v own, answer, ih after allowedA.2 allowed.2 tail]

theorem meets_proceed {Q : A → Prop} (s : S) {as : List A} (all : ∀ a ∈ as, Q a) :
    Meets (proceed f) (fun _ a => Q a) s as := by
  induction as generalizing s with
  | nil => trivial
  | cons a rest ih => exact ⟨all a (by simp), ih _ (fun b hb => all b (by simp [hb]))⟩

end View

end GameIM.Lib
