import Mathlib.Data.List.Basic
import Mathlib.Data.List.Induction

/-! Partial step functions and their runs. A step that is not enabled gives no
next state, so a run is a list of actions each of which was enabled in its turn.
Nothing here is about a particular program. -/
namespace GameIM.Lib

variable {S A : Type}

def run (step : S → A → Option S) : S → List A → Option S
  | s, [] => some s
  | s, a :: rest => (step s a).bind (run step · rest)

/-- Every action of the list is taken in a state that meets the condition. -/
def Meets (step : S → A → Option S) (P : S → A → Prop) : S → List A → Prop
  | _, [] => True
  | s, a :: rest => P s a ∧ match step s a with
    | none => True
    | some t => Meets step P t rest

instance decidableMeets (step : S → A → Option S) (P : S → A → Prop)
    [∀ s a, Decidable (P s a)] : ∀ s as, Decidable (Meets step P s as)
  | _, [] => inferInstanceAs (Decidable True)
  | s, a :: rest =>
    have _ : Decidable (match step s a with
        | none => True
        | some t => Meets step P t rest) :=
      match step s a with
      | none => inferInstanceAs (Decidable True)
      | some t => decidableMeets step P t rest
    inferInstanceAs (Decidable (_ ∧ _))

variable {step : S → A → Option S} {P : S → A → Prop}

@[simp] theorem run_nil (s : S) : run step s [] = some s := rfl

theorem run_cons_some {s t : S} {a : A} {rest : List A} :
    run step s (a :: rest) = some t ↔ ∃ u, step s a = some u ∧ run step u rest = some t := by
  simp only [run, Option.bind_eq_some_iff]

theorem run_append_some {s t : S} {as bs : List A} :
    run step s (as ++ bs) = some t ↔ ∃ u, run step s as = some u ∧ run step u bs = some t := by
  induction as generalizing s with
  | nil => simp
  | cons a rest ih =>
    simp only [List.cons_append, run_cons_some, ih]
    constructor
    · rintro ⟨u, hu, v, hv, ht⟩
      exact ⟨v, ⟨u, hu, hv⟩, ht⟩
    · rintro ⟨v, ⟨u, hu, hv⟩, ht⟩
      exact ⟨u, hu, v, hv, ht⟩

theorem run_total (f : S → A → S) (s : S) (as : List A) :
    run (fun s a => some (f s a)) s as = some (as.foldl f s) := by
  induction as generalizing s with
  | nil => rfl
  | cons a rest ih => exact ih (f s a)

theorem meets_cons {s t : S} {a : A} {rest : List A} (taken : step s a = some t) :
    Meets step P s (a :: rest) ↔ P s a ∧ Meets step P t rest := by
  simp only [Meets, taken]

theorem meets_append {s t : S} {as bs : List A} (taken : run step s as = some t) :
    Meets step P s (as ++ bs) ↔ Meets step P s as ∧ Meets step P t bs := by
  induction as generalizing s with
  | nil =>
    cases Option.some.inj taken
    simp [Meets]
  | cons a rest ih =>
    obtain ⟨u, hu, hr⟩ := run_cons_some.mp taken
    simp only [List.cons_append, meets_cons hu, ih hr, and_assoc]

theorem Meets.imp {Q : S → A → Prop} {s : S} {as : List A} (h : Meets step P s as)
    (implies : ∀ s, ∀ a ∈ as, P s a → Q s a) : Meets step Q s as := by
  induction as generalizing s with
  | nil => trivial
  | cons a rest ih =>
    refine ⟨implies s a (by simp) h.1, ?_⟩
    cases taken : step s a with
    | none => trivial
    | some t =>
      have tail := h.2
      rw [taken] at tail
      exact ih tail (fun u b hb => implies u b (by simp [hb]))

theorem Meets.and {Q : S → A → Prop} {s : S} {as : List A} (h : Meets step P s as)
    (also : Meets step Q s as) : Meets step (fun s a => P s a ∧ Q s a) s as := by
  induction as generalizing s with
  | nil => trivial
  | cons a rest ih =>
    refine ⟨⟨h.1, also.1⟩, ?_⟩
    have left := h.2
    have right := also.2
    cases taken : step s a with
    | none => trivial
    | some t =>
      rw [taken] at left right
      exact ih left right

/-- The invariant rule for guarded runs: what one step keeps when its condition
is met, a whole run keeps when every step meets its condition. -/
theorem run_invariant_meets (Inv : S → Prop)
    (keeps : ∀ s a t, Inv s → P s a → step s a = some t → Inv t)
    {s t : S} {as : List A} (initial : Inv s) (guarded : Meets step P s as)
    (taken : run step s as = some t) : Inv t := by
  induction as generalizing s with
  | nil => exact Option.some.inj taken ▸ initial
  | cons a rest ih =>
    obtain ⟨u, hu, hr⟩ := run_cons_some.mp taken
    have split := (meets_cons hu).mp guarded
    exact ih (keeps s a u initial split.1 hu) split.2 hr

theorem meets_true (s : S) (as : List A) : Meets step (fun _ _ => True) s as := by
  induction as generalizing s with
  | nil => trivial
  | cons a rest ih =>
    refine ⟨trivial, ?_⟩
    split
    · trivial
    · exact ih _

theorem run_invariant (Inv : S → Prop)
    (keeps : ∀ s a t, Inv s → step s a = some t → Inv t)
    {s t : S} {as : List A} (initial : Inv s) (taken : run step s as = some t) : Inv t :=
  run_invariant_meets (P := fun _ _ => True) Inv (fun s a t hs _ ht => keeps s a t hs ht)
    initial (meets_true s as) taken

theorem countP_cons_toNat (p : A → Bool) (a : A) (as : List A) :
    (a :: as).countP p = as.countP p + (p a).toNat := by
  rw [List.countP_cons]
  cases p a <;> rfl

/-- Work that is done and work that comes in: if a step that counts as done takes one off the work
that is left, and none adds more than `k`, for a step that counts as new, then no run does more
than was there and came in. -/
theorem run_work {Inv : S → Prop} {work : S → Nat} {own new : A → Bool} {k : Nat}
    (keeps : ∀ s a t, Inv s → step s a = some t → Inv t ∧ work t + (own a).toNat ≤ work s + k * (new a).toNat)
    {s t : S} {as : List A} (initial : Inv s) (taken : run step s as = some t) :
    Inv t ∧ work t + as.countP own ≤ work s + k * as.countP new := by
  induction as generalizing s with
  | nil =>
    cases Option.some.inj taken
    exact ⟨initial, Nat.le_refl _⟩
  | cons a rest ih =>
    obtain ⟨u, first, later⟩ := run_cons_some.mp taken
    obtain ⟨next, done⟩ := keeps s a u initial first
    obtain ⟨last, total⟩ := ih next later
    refine ⟨last, ?_⟩
    rw [countP_cons_toNat own, countP_cons_toNat new, Nat.mul_add]
    omega

/-- Where a step outside the condition breaks the invariant at once, the condition is
exactly what a run needs for the invariant to hold all along. The steps may be taken
under an assumption. -/
theorem always_iff_meets_under {Q : S → A → Prop} (Inv : S → Prop)
    (keeps : ∀ s a t, Inv s → Q s a → P s a → step s a = some t → Inv t)
    (breaks : ∀ s a t, Inv s → Q s a → ¬ P s a → step s a = some t → ¬ Inv t)
    {s t : S} {as : List A} (initial : Inv s) (assumed : Meets step Q s as)
    (taken : run step s as = some t) :
    (∀ before u, before <+: as → run step s before = some u → Inv u) ↔ Meets step P s as := by
  constructor
  · intro always
    induction as generalizing s with
    | nil => trivial
    | cons a rest ih =>
      obtain ⟨u, hu, hr⟩ := run_cons_some.mp taken
      obtain ⟨here, later⟩ := (meets_cons hu).mp assumed
      have next : Inv u := always [a] u (List.prefix_append [a] rest) (run_cons_some.mpr ⟨u, hu, rfl⟩)
      have ok : P s a := by
        by_contra outside
        exact breaks s a u initial here outside hu next
      refine (meets_cons hu).mpr ⟨ok, ih next later hr ?_⟩
      intro before v part reached
      exact always (a :: before) v ((List.prefix_cons_inj a).mpr part)
        (run_cons_some.mpr ⟨u, hu, reached⟩)
  · rintro guarded before u ⟨after, rfl⟩ reached
    have both : Meets step (fun s a => Q s a ∧ P s a) s before :=
      ((meets_append reached).mp assumed).1.and ((meets_append reached).mp guarded).1
    exact run_invariant_meets Inv (fun s a t hs ok ht => keeps s a t hs ok.1 ok.2 ht) initial both
      reached

theorem always_iff_meets (Inv : S → Prop)
    (keeps : ∀ s a t, Inv s → P s a → step s a = some t → Inv t)
    (breaks : ∀ s a t, Inv s → ¬ P s a → step s a = some t → ¬ Inv t)
    {s t : S} {as : List A} (initial : Inv s) (taken : run step s as = some t) :
    (∀ before u, before <+: as → run step s before = some u → Inv u) ↔ Meets step P s as :=
  always_iff_meets_under (Q := fun _ _ => True) Inv (fun s a t hs _ ok ht => keeps s a t hs ok ht)
    (fun s a t hs _ outside ht => breaks s a t hs outside ht) initial (meets_true s as) taken

/-- A state that the run has been in. -/
def Visited (step : S → A → Option S) (s : S) (as : List A) (u : S) : Prop :=
  ∃ before, before <+: as ∧ run step s before = some u

theorem visited_last {s t : S} {as : List A} (taken : run step s as = some t) :
    Visited step s as t :=
  ⟨as, List.prefix_rfl, taken⟩

theorem Visited.append {s u : S} {as : List A} (visited : Visited step s as u) (more : List A) :
    Visited step s (as ++ more) u := by
  obtain ⟨before, part, reached⟩ := visited
  exact ⟨before, part.trans (List.prefix_append as more), reached⟩

/-- A history variable: what is noted along the run, step by step. -/
def noted {H : Type} (step : S → A → Option S) (note : H → S → A → S → H) : H → S → List A → H
  | h, _, [] => h
  | h, s, a :: rest => match step s a with
    | none => h
    | some t => noted step note (note h s a t) t rest

theorem noted_concat {H : Type} {note : H → S → A → S → H} (h : H) {s u v : S} {as : List A} {a : A}
    (taken : run step s as = some u) (next : step u a = some v) :
    noted step note h s (as ++ [a]) = note (noted step note h s as) u a v := by
  induction as generalizing h s with
  | nil =>
    cases Option.some.inj taken
    simp only [List.nil_append, noted, next]
  | cons b rest ih =>
    obtain ⟨w, first, later⟩ := run_cons_some.mp taken
    simp only [List.cons_append, noted, first]
    exact ih (note h s b w) later

/-- The rule for an invariant that speaks of the actions already taken. -/
theorem run_history (Inv : List A → S → Prop)
    {s t : S} {as : List A} (initial : Inv [] s)
    (keeps : ∀ as u a v, run step s as = some u → Inv as u → step u a = some v → Inv (as ++ [a]) v)
    (taken : run step s as = some t) : Inv as t := by
  induction as using List.reverseRecOn generalizing t with
  | nil => exact Option.some.inj taken ▸ initial
  | append_singleton as a ih =>
    obtain ⟨u, reached, last⟩ := run_append_some.mp taken
    obtain ⟨v, hv, rest⟩ := run_cons_some.mp last
    cases Option.some.inj rest
    exact keeps as u a t reached (ih reached) hv

/-- The rule for an invariant that speaks of the states already visited: a step keeps it
when the new state joins them. -/
theorem run_visited (Inv : (S → Prop) → S → Prop)
    (grows : ∀ V W s, (∀ u, V u → W u) → Inv V s → Inv W s)
    (keeps : ∀ V s a t, V s → V t → Inv V s → step s a = some t → Inv V t)
    {s t : S} {as : List A} (initial : Inv (· = s) s) (taken : run step s as = some t) :
    Inv (Visited step s as) t := by
  refine run_history (fun as t => Inv (Visited step s as) t) ?_ ?_ taken
  · refine grows _ _ _ ?_ initial
    intro u same
    exact ⟨[], List.prefix_rfl, congrArg some same.symm⟩
  · intro as u a v reached inv hv
    have old := grows _ _ _ (fun w visited => Visited.append visited [a]) inv
    have next : run step s (as ++ [a]) = some v :=
      run_append_some.mpr ⟨u, reached, run_cons_some.mpr ⟨v, hv, rfl⟩⟩
    exact keeps _ u a v ((visited_last reached).append [a]) (visited_last next) old hv

/-- A machine each of whose steps another machine can imitate with a run. -/
theorem run_simulates {T B : Type} {coarse : T → B → Option T} (R : T → S → Prop)
    (imitates : ∀ t b t' s, R t s → coarse t b = some t' →
      ∃ as s', run step s as = some s' ∧ R t' s')
    {t t' : T} {bs : List B} {s : S} (related : R t s) (taken : run coarse t bs = some t') :
    ∃ as s', run step s as = some s' ∧ R t' s' := by
  induction bs generalizing t s with
  | nil => exact ⟨[], s, rfl, Option.some.inj taken ▸ related⟩
  | cons b rest ih =>
    obtain ⟨u, hu, hr⟩ := run_cons_some.mp taken
    obtain ⟨as, v, hv, next⟩ := imitates t b u s related hu
    obtain ⟨more, s', hs, final⟩ := ih next hr
    exact ⟨as ++ more, s', run_append_some.mpr ⟨v, hv, hs⟩, final⟩

end GameIM.Lib
