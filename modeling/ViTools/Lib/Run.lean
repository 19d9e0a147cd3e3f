import Mathlib.Data.List.Basic

/-!
# Runs

Sequences of steps of a partial step function. `run` keeps the last state only, `transduce` also
collects what the steps output. An invariant of single steps is one of whole runs; for `transduce`
it may speak about all the inputs so far. A relation between states that single steps keep is kept by
whole runs. `Guarded` restricts a run to steps taken under a condition.
-/

namespace ViTools

variable {σ ι ο : Type*}

/-! ## Runs of a transition system -/

/-- The state after the given actions, or `none` if one of them cannot be taken. -/
def run (step : σ → ι → Option σ) : σ → List ι → Option σ
  | s, [] => some s
  | s, a :: l => (step s a).bind fun s' ↦ run step s' l

/-- Every action is taken in a state in which `guard` allows it. -/
def Guarded (step : σ → ι → Option σ) (guard : σ → ι → Prop) : σ → List ι → Prop
  | _, [] => True
  | s, a :: l => guard s a ∧ ∀ s', step s a = some s' → Guarded step guard s' l

instance Guarded.decidable {step : σ → ι → Option σ} {guard : σ → ι → Prop}
    [∀ s a, Decidable (guard s a)] : ∀ s l, Decidable (Guarded step guard s l)
  | _, [] => .isTrue trivial
  | s, a :: l =>
    match h : step s a with
    | none => decidable_of_iff (guard s a) ⟨fun hg ↦ ⟨hg, fun _ hs ↦ nomatch h.symm.trans hs⟩, And.left⟩
    | some s' =>
      have : Decidable (Guarded step guard s' l) := Guarded.decidable s' l
      decidable_of_iff (guard s a ∧ Guarded step guard s' l)
        ⟨fun hg ↦ ⟨hg.1, fun _ hs ↦ Option.some.inj (h.symm.trans hs) ▸ hg.2⟩,
          fun hg ↦ ⟨hg.1, hg.2 s' h⟩⟩

theorem guarded_true (step : σ → ι → Option σ) (s : σ) (l : List ι) :
    Guarded step (fun _ _ ↦ True) s l := by
  induction l generalizing s with
  | nil => trivial
  | cons a l ih => exact ⟨trivial, fun s' _ ↦ ih s'⟩

theorem run_concat (step : σ → ι → Option σ) (s : σ) (l : List ι) (a : ι) :
    run step s (l ++ [a]) = (run step s l).bind fun s' ↦ step s' a := by
  induction l generalizing s with
  | nil => exact Option.bind_fun_some (step s a)
  | cons b l ih => simp only [List.cons_append, run, ih, Option.bind_assoc]

/-- What every guarded step preserves holds after every guarded run. -/
theorem run_invariant {step : σ → ι → Option σ} {guard : σ → ι → Prop} (P : σ → Prop)
    (hstep : ∀ s a s', P s → guard s a → step s a = some s' → P s') {s s' : σ} {l : List ι}
    (hs : P s) (hg : Guarded step guard s l) (hrun : run step s l = some s') : P s' := by
  induction l generalizing s with
  | nil =>
    cases hrun
    exact hs
  | cons a l ih =>
    obtain ⟨s₁, h₁, hrest⟩ := Option.bind_eq_some_iff.mp hrun
    exact ih (hstep s a s₁ hs hg.1 h₁) (hg.2 s₁ h₁) hrest

/-! ## Runs with outputs -/

/-- The outputs of the given inputs and the last state, or `none` if one of the steps fails. -/
def transduce (step : σ → ι → Option (ο × σ)) : σ → List ι → Option (List ο × σ)
  | s, [] => some ([], s)
  | s, i :: l => (step s i).bind fun p ↦ (transduce step p.2 l).map fun q ↦ (p.1 :: q.1, q.2)

section Transduce

variable {step : σ → ι → Option (ο × σ)}

theorem transduce_cons_eq_some {s s' : σ} {i : ι} {l : List ι} {os : List ο} :
    transduce step s (i :: l) = some (os, s') ↔
      ∃ o s₁ os', step s i = some (o, s₁) ∧ transduce step s₁ l = some (os', s') ∧ os = o :: os' := by
  rw [transduce, Option.bind_eq_some_iff]
  constructor
  · rintro ⟨⟨o, s₁⟩, h₁, hrest⟩
    obtain ⟨⟨os', t⟩, h₂, heq⟩ := Option.map_eq_some_iff.mp hrest
    cases heq
    exact ⟨o, s₁, os', h₁, h₂, rfl⟩
  · rintro ⟨o, s₁, os', h₁, h₂, rfl⟩
    exact ⟨(o, s₁), h₁, Option.map_eq_some_iff.mpr ⟨(os', s'), h₂, rfl⟩⟩

/-- Inputs that are given in another form. -/
theorem transduce_map {κ : Type*} (f : κ → ι) (s : σ) (l : List κ) :
    transduce (fun s x ↦ step s (f x)) s l = transduce step s (l.map f) := by
  induction l generalizing s with
  | nil => rfl
  | cons x l ih => simp only [List.map_cons, transduce, ih]

/-- An invariant of single steps that speaks about the inputs so far. -/
theorem transduce_invariant {P : List ι → σ → Prop}
    (hstep : ∀ hist s i o s', P hist s → step s i = some (o, s') → P (hist ++ [i]) s')
    {hist l : List ι} {s s' : σ} {os : List ο} (h : P hist s)
    (hrun : transduce step s l = some (os, s')) : P (hist ++ l) s' := by
  induction l generalizing hist s os with
  | nil =>
    cases hrun
    rwa [List.append_nil]
  | cons i l ih =>
    obtain ⟨o, s₁, os', h₁, hrest, rfl⟩ := transduce_cons_eq_some.mp hrun
    rw [← List.singleton_append, ← List.append_assoc]
    exact ih (hstep hist s i o s₁ h h₁) hrest

/-- The run up to an input, its step, and the output it produced. -/
theorem transduce_split {s s' : σ} {l₁ l₂ : List ι} {i : ι} {os : List ο}
    (h : transduce step s (l₁ ++ i :: l₂) = some (os, s')) :
    ∃ os₁ s₁ o s₂, transduce step s l₁ = some (os₁, s₁) ∧ step s₁ i = some (o, s₂) ∧
      os[l₁.length]? = some o := by
  induction l₁ generalizing s os with
  | nil =>
    obtain ⟨o, s₁, os', hstep, -, rfl⟩ := transduce_cons_eq_some.mp h
    exact ⟨[], s, o, s₁, rfl, hstep, rfl⟩
  | cons j l₁ ih =>
    obtain ⟨p, t, os', hstep, hrest, rfl⟩ := transduce_cons_eq_some.mp h
    obtain ⟨os₁, s₁, o, s₂, hrun, hi, hget⟩ := ih hrest
    exact ⟨p :: os₁, s₁, o, s₂, transduce_cons_eq_some.mpr ⟨p, t, os₁, hstep, hrun, rfl⟩, hi, hget⟩

/-- The run up to an output, and the step that made it. -/
theorem transduce_split_output {s s' : σ} {l : List ι} {os₁ os₂ : List ο} {o : ο}
    (h : transduce step s l = some (os₁ ++ o :: os₂, s')) :
    ∃ l₁ i s₁ s₂, l[os₁.length]? = some i ∧ transduce step s l₁ = some (os₁, s₁) ∧
      step s₁ i = some (o, s₂) := by
  induction os₁ generalizing s l with
  | nil =>
    cases l with
    | nil => cases h
    | cons i l =>
      obtain ⟨o', s₁, os', hstep, -, heq⟩ := transduce_cons_eq_some.mp h
      cases heq
      exact ⟨[], i, s, s₁, rfl, rfl, hstep⟩
  | cons p os₁ ih =>
    cases l with
    | nil => cases h
    | cons j l =>
      obtain ⟨o', t, os', hstep, hrest, heq⟩ := transduce_cons_eq_some.mp h
      cases heq
      obtain ⟨l₁, i, s₁, s₂, hget, hrun, hi⟩ := ih hrest
      exact ⟨j :: l₁, i, s₁, s₂, hget, transduce_cons_eq_some.mpr ⟨p, t, os₁, hstep, hrun, rfl⟩, hi⟩

/-- An invariant of single steps that speaks about the outputs so far. -/
theorem transduce_outputs {P : List ο → σ → Prop}
    (hstep : ∀ os s i o s', P os s → step s i = some (o, s') → P (os ++ [o]) s')
    {before os : List ο} {l : List ι} {s s' : σ} (h : P before s)
    (hrun : transduce step s l = some (os, s')) : P (before ++ os) s' := by
  induction l generalizing before s os with
  | nil =>
    cases hrun
    rwa [List.append_nil]
  | cons i l ih =>
    obtain ⟨o, s₁, os', h₁, hrest, rfl⟩ := transduce_cons_eq_some.mp hrun
    rw [← List.singleton_append, ← List.append_assoc]
    exact ih (hstep before s i o s₁ h h₁) hrest

/-- **Two runs.** If steps from related states output the same and lead to related states, so do runs. -/
theorem transduce_related {R : σ → σ → Prop} {l : List ι}
    (hstep : ∀ i ∈ l, ∀ s t, R s t → ∃ o s' t', step s i = some (o, s') ∧ step t i = some (o, t') ∧ R s' t')
    {s t : σ} (h : R s t) :
    ∃ os s' t', transduce step s l = some (os, s') ∧ transduce step t l = some (os, t') ∧ R s' t' := by
  induction l generalizing s t with
  | nil => exact ⟨[], s, t, rfl, rfl, h⟩
  | cons i l ih =>
    obtain ⟨o, s₁, t₁, hs, ht, h₁⟩ := hstep i List.mem_cons_self s t h
    obtain ⟨os, s', t', hs', ht', h'⟩ := ih (fun j hj ↦ hstep j (List.mem_cons_of_mem i hj)) h₁
    exact ⟨o :: os, s', t', transduce_cons_eq_some.mpr ⟨o, s₁, os, hs, hs', rfl⟩,
      transduce_cons_eq_some.mpr ⟨o, t₁, os, ht, ht', rfl⟩, h'⟩

end Transduce

end ViTools
