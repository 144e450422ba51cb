import Mathlib.Data.List.Forall2

/-!
# Answers of computations that may fail

When a computation made of steps succeeds, when it fails, and with what: one equivalence for each
way in which steps are put together.
-/

namespace UdfBridge

variable {ε ε' α β : Type}

/-- A computation in two steps succeeds if both do. -/
theorem bind_eq_ok {x : Except ε α} {g : α → Except ε β} {y : β} :
    x >>= g = .ok y ↔ ∃ a, x = .ok a ∧ g a = .ok y := by
  cases x with
  | error e => simp [bind, Except.bind]
  | ok a => simp [bind, Except.bind]

/-- A result is mapped if there is one. -/
theorem map_eq_ok {x : Except ε α} {g : α → β} {y : β} :
    g <$> x = .ok y ↔ ∃ a, x = .ok a ∧ g a = y := by
  cases x with
  | error e => simp [Functor.map, Except.map]
  | ok a => simp [Functor.map, Except.map]

/-- A computation in two steps fails if one of them does. -/
theorem bind_eq_error {x : Except ε α} {g : α → Except ε β} {e : ε} :
    x >>= g = .error e ↔ x = .error e ∨ ∃ a, x = .ok a ∧ g a = .error e := by
  cases x with
  | error e' => simp [bind, Except.bind]
  | ok a => simp [bind, Except.bind]

/-- Two computations in two steps end alike, if the first of them does not end with the error `e` and
their steps end alike as long as those of the first do not end with it. -/
theorem bind_eq_bind_of_ne_error {e : ε} {x x' : Except ε α} {g g' : α → Except ε β}
    (h : x >>= g ≠ .error e) (hx : x ≠ .error e → x' = x)
    (hg : ∀ a, x = .ok a → g a ≠ .error e → g' a = g a) : x' >>= g' = x >>= g := by
  cases x with
  | error e' =>
    have hne : (Except.error e' : Except ε α) ≠ .error e := fun heq => h (by cases heq; rfl)
    rw [hx hne]
    rfl
  | ok a =>
    rw [hx (by simp)]
    exact hg a rfl h

/-- What holds of the first state and is kept by every step holds of the last state. -/
theorem foldlM_invariant {P : β → Prop} {step : β → α → Except ε β} {as : List α}
    (hstep : ∀ b, ∀ a ∈ as, ∀ b', P b → step b a = .ok b' → P b') {b b' : β} (hb : P b)
    (h : as.foldlM step b = .ok b') : P b' := by
  induction as generalizing b with
  | nil =>
    rw [List.foldlM_nil] at h
    rwa [← Except.ok.inj h]
  | cons a as ih =>
    rw [List.foldlM_cons] at h
    obtain ⟨c, hc, hrest⟩ := bind_eq_ok.mp h
    exact ih (fun b a ha => hstep b a (List.mem_cons_of_mem _ ha))
      (hstep b a List.mem_cons_self c hb hc) hrest

/-- What every step leaves as it is, a computation over a list leaves as it is. -/
theorem foldlM_keeps {γ : Type} (part : β → γ) {step : β → α → Except ε β} {as : List α}
    (hstep : ∀ b, ∀ a ∈ as, ∀ b', step b a = .ok b' → part b' = part b) {b b' : β}
    (h : as.foldlM step b = .ok b') : part b' = part b :=
  foldlM_invariant (P := fun c => part c = part b)
    (fun c a ha c' hc hrun => (hstep c a ha c' hrun).trans hc) rfl h

/-- A fold over related elements that starts with a translated state gives the translated answer, if
every step does. -/
theorem foldlM_of_forall₂ {α' γ : Type} {R : α → α' → Prop} {translate : β → γ}
    {step : β → α → Except ε β} {step' : γ → α' → Except ε γ}
    (hstep : ∀ b a a', R a a' → step' (translate b) a' = translate <$> step b a) {as : List α}
    {as' : List α'} (h : List.Forall₂ R as as') (b : β) :
    as'.foldlM step' (translate b) = translate <$> as.foldlM step b := by
  induction h generalizing b with
  | nil => rfl
  | cons ha _ ih =>
    rw [List.foldlM_cons, List.foldlM_cons, hstep b _ _ ha]
    cases step b _ with
    | error e => rfl
    | ok c => exact ih c

/-- Related elements have translated answers, if every two of them have. -/
theorem mapM_of_forall₂ {α' γ : Type} {R : α → α' → Prop} {translate : β → γ}
    {answer : α → Except ε β} {answer' : α' → Except ε γ}
    (hanswer : ∀ a a', R a a' → answer' a' = translate <$> answer a) {as : List α} {as' : List α'}
    (h : List.Forall₂ R as as') : as'.mapM answer' = List.map translate <$> as.mapM answer := by
  induction h with
  | nil => rfl
  | cons ha _ ih =>
    rw [List.mapM_cons, List.mapM_cons, hanswer _ _ ha, ih]
    cases answer _ with
    | error e => rfl
    | ok b => cases List.mapM answer _ <;> rfl

/-- A fold over related elements that starts with related states gives related answers, if every
step does. -/
theorem foldlM_related {α' β' : Type} {R : α → α' → Prop} {S : β → β' → Prop}
    {step : β → α → Except ε β} {step' : β' → α' → Except ε β'}
    (hstep : ∀ b b' a a' c, S b b' → R a a' → step b a = .ok c →
      ∃ c', step' b' a' = .ok c' ∧ S c c')
    {as : List α} {as' : List α'} (h : List.Forall₂ R as as') {b c : β} {b' : β'} (hb : S b b')
    (hfold : as.foldlM step b = .ok c) : ∃ c', as'.foldlM step' b' = .ok c' ∧ S c c' := by
  induction h generalizing b b' with
  | nil =>
    obtain rfl := Except.ok.inj hfold
    exact ⟨b', rfl, hb⟩
  | cons ha _ ih =>
    rw [List.foldlM_cons] at hfold
    obtain ⟨d, hd, hrest⟩ := bind_eq_ok.mp hfold
    obtain ⟨d', hd', hsame⟩ := hstep _ _ _ _ _ hb ha hd
    obtain ⟨c', hc', hsame'⟩ := ih hsame hrest
    exact ⟨c', by rw [List.foldlM_cons]; exact bind_eq_ok.mpr ⟨d', hd', hc'⟩, hsame'⟩

/-- Related elements have related answers, if every two of them have. -/
theorem mapM_related {α' β' : Type} {R : α → α' → Prop} {S : β → β' → Prop}
    {answer : α → Except ε β} {answer' : α' → Except ε β'}
    (hanswer : ∀ a a' b, R a a' → answer a = .ok b → ∃ b', answer' a' = .ok b' ∧ S b b')
    {as : List α} {as' : List α'} (h : List.Forall₂ R as as') {bs : List β}
    (hmap : as.mapM answer = .ok bs) : ∃ bs', as'.mapM answer' = .ok bs' ∧ List.Forall₂ S bs bs' := by
  induction h generalizing bs with
  | nil =>
    obtain rfl := Except.ok.inj hmap
    exact ⟨[], rfl, .nil⟩
  | cons ha _ ih =>
    rw [List.mapM_cons] at hmap
    obtain ⟨b, hb, hrest⟩ := bind_eq_ok.mp hmap
    obtain ⟨cs, hcs, hcons⟩ := bind_eq_ok.mp hrest
    obtain rfl := Except.ok.inj hcons
    obtain ⟨b', hb', hsame⟩ := hanswer _ _ _ ha hb
    obtain ⟨cs', hcs', hsames⟩ := ih hcs
    refine ⟨b' :: cs', ?_, .cons hsame hsames⟩
    rw [List.mapM_cons, hb', hcs']
    rfl

/-- Each answer is the answer of an element. -/
theorem exists_of_mem_mapM {answer : α → Except ε β} {as : List α} {bs : List β}
    (h : as.mapM answer = .ok bs) {b : β} (hb : b ∈ bs) : ∃ a ∈ as, answer a = .ok b := by
  induction as generalizing bs with
  | nil =>
    obtain rfl := Except.ok.inj h
    simp at hb
  | cons a as ih =>
    rw [List.mapM_cons] at h
    obtain ⟨c, hc, hrest⟩ := bind_eq_ok.mp h
    obtain ⟨cs, hcs, hcons⟩ := bind_eq_ok.mp hrest
    obtain rfl := Except.ok.inj hcons
    rcases List.mem_cons.mp hb with rfl | hb
    · exact ⟨a, List.mem_cons_self, hc⟩
    · obtain ⟨a', ha', hanswer⟩ := ih hcs hb
      exact ⟨a', List.mem_cons_of_mem _ ha', hanswer⟩

/-- A computation over a list succeeds if every step does, from any state. -/
theorem exists_foldlM_eq_ok {step : β → α → Except ε β} {as : List α}
    (hstep : ∀ b, ∀ a ∈ as, ∃ b', step b a = .ok b') (b : β) : ∃ b', as.foldlM step b = .ok b' := by
  induction as generalizing b with
  | nil => exact ⟨b, rfl⟩
  | cons a as ih =>
    obtain ⟨c, hc⟩ := hstep b a List.mem_cons_self
    obtain ⟨b', hb'⟩ := ih (fun b a ha => hstep b a (List.mem_cons_of_mem _ ha)) c
    exact ⟨b', by rw [List.foldlM_cons]; exact bind_eq_ok.mpr ⟨c, hc, hb'⟩⟩

/-- There are answers for a list if there is one for every element. -/
theorem exists_mapM_eq_ok {answer : α → Except ε β} {as : List α}
    (h : ∀ a ∈ as, ∃ b, answer a = .ok b) : ∃ bs, as.mapM answer = .ok bs := by
  induction as with
  | nil => exact ⟨[], rfl⟩
  | cons a as ih =>
    obtain ⟨b, hb⟩ := h a List.mem_cons_self
    obtain ⟨bs, hbs⟩ := ih fun a ha => h a (List.mem_cons_of_mem _ ha)
    refine ⟨b :: bs, ?_⟩
    rw [List.mapM_cons, hb, hbs]
    rfl

/-- A computation fails if it does not succeed. -/
theorem exists_eq_error_iff {x : Except ε α} :
    (∃ e, x = .error e) ↔ ¬ ∃ a, x = .ok a := by
  cases x <;> simp

/-- Wording an error anew changes no result. -/
theorem mapError_eq_ok {x : Except ε α} {g : ε → ε'} {a : α} :
    x.mapError g = .ok a ↔ x = .ok a := by
  cases x with
  | error e => constructor <;> intro h <;> cases h
  | ok a' =>
    have hmap : (Except.ok a' : Except ε α).mapError g = .ok a' := rfl
    rw [hmap, Except.ok.injEq, Except.ok.injEq]

/-- An error in other words comes from an error. -/
theorem mapError_eq_error {x : Except ε α} {g : ε → ε'} {e : ε'} :
    x.mapError g = .error e ↔ ∃ e', x = .error e' ∧ g e' = e := by
  cases x with
  | error e' =>
    have hmap : (Except.error e' : Except ε α).mapError g = .error (g e') := rfl
    rw [hmap]
    simp
  | ok a =>
    have hmap : (Except.ok a : Except ε α).mapError g = .ok a := rfl
    rw [hmap]
    simp

/-! ## Failures -/

/-- What a computation fails with, if it does. -/
def failure? : Except ε α → Option ε
  | .error e => some e
  | .ok _ => none

/-- A computation has a failure if it fails. -/
theorem failure?_eq_some {x : Except ε α} {e : ε} : failure? x = some e ↔ x = .error e := by
  cases x <;> simp [failure?]

/-- A computation has no failure if it succeeds. -/
theorem failure?_eq_none {x : Except ε α} : failure? x = none ↔ ∃ a, x = .ok a := by
  cases x <;> simp [failure?]

/-- What is made of a result does not change how the computation fails. -/
theorem failure?_map (g : α → β) (x : Except ε α) : failure? (g <$> x) = failure? x := by
  cases x <;> rfl

/-- A last step that cannot fail does not change how the computation fails. -/
theorem failure?_bind_pure (g : α → β) (x : Except ε α) :
    failure? (do return g (← x)) = failure? x := by
  cases x <;> rfl

/-- A computation in two steps fails as the first step does, or else as the second one, if that is
the same whatever the first one gives. -/
theorem failure?_bind {x : Except ε α} {g : α → Except ε β} {o : Option ε}
    (h : ∀ a, failure? (g a) = o) : failure? (x >>= g) = (failure? x).or o := by
  cases x with
  | error e => rfl
  | ok a => exact h a

end UdfBridge
