import Mathlib.Data.List.Induction
import Mathlib.Logic.Function.Basic

/-!
# Tables of independent machines

A table with one entry for each key, and a step function that reads and writes the entry of the
input's key only. Every entry then runs on its own: it goes through the states, and its inputs get
the outputs, that a machine without a table would have on the inputs with that key.
-/

namespace ViTools

/-- A machine for each key, with its inputs told apart by their keys. -/
structure Keyed (κ σ ι ο : Type*) where
  /-- Which entry an input is for. -/
  key : ι → κ
  /-- The output and the new entry. -/
  step : σ → ι → ο × σ

namespace Keyed

variable {κ σ ι ο : Type*} (M : Keyed κ σ ι ο)

/-- One machine on its own, with each input paired with its output. -/
def solo : σ → List ι → List (ι × ο) × σ
  | s, [] => ([], s)
  | s, i :: l => ((i, (M.step s i).1) :: (solo (M.step s i).2 l).1, (solo (M.step s i).2 l).2)

theorem solo_append_singleton (s : σ) (l : List ι) (i : ι) :
    (M.solo s (l ++ [i])).2 = (M.step (M.solo s l).2 i).2 := by
  induction l generalizing s with
  | nil => rfl
  | cons j l ih => exact ih (M.step s j).2

/-- What every step preserves holds after any number of them, also of the inputs so far. -/
theorem solo_history (P : List ι → σ → Prop)
    (hstep : ∀ hist s i, P hist s → P (hist ++ [i]) (M.step s i).2) {s : σ} (hs : P [] s)
    (l : List ι) : P l (M.solo s l).2 := by
  induction l using List.reverseRecOn with
  | nil => exact hs
  | append_singleton l i ih =>
    rw [solo_append_singleton]
    exact hstep l _ i ih

variable [DecidableEq κ]

/-- The inputs for one key. -/
def inputs (k : κ) (l : List ι) : List ι := l.filter fun i ↦ M.key i = k

/-- The whole table, with each input paired with its output. -/
def table : (κ → σ) → List ι → List (ι × ο) × (κ → σ)
  | T, [] => ([], T)
  | T, i :: l =>
    let T' := Function.update T (M.key i) (M.step (T (M.key i)) i).2
    ((i, (M.step (T (M.key i)) i).1) :: (table T' l).1, (table T' l).2)

/-- What the inputs for one key were answered. -/
def answers (k : κ) (l : List (ι × ο)) : List (ι × ο) := l.filter fun p ↦ M.key p.1 = k

/-- **Independence.** Every entry behaves like a machine on its own. -/
theorem table_eq_solo (k : κ) (T : κ → σ) (l : List ι) :
    (M.answers k (M.table T l).1, (M.table T l).2 k) = M.solo (T k) (M.inputs k l) := by
  induction l generalizing T with
  | nil => rfl
  | cons i l ih =>
    have hrest := ih (Function.update T (M.key i) (M.step (T (M.key i)) i).2)
    rw [Prod.ext_iff] at hrest ⊢
    by_cases hk : M.key i = k
    · subst hk
      rw [Function.update_self] at hrest
      rw [inputs, List.filter_cons_of_pos (by simp), ← inputs, solo, table, answers,
        List.filter_cons_of_pos (by simp), ← answers]
      exact ⟨congrArg (List.cons _) hrest.1, hrest.2⟩
    · rw [Function.update_of_ne (Ne.symm hk)] at hrest
      rw [inputs, List.filter_cons_of_neg (by simpa using hk), ← inputs, table, answers,
        List.filter_cons_of_neg (by simpa using hk), ← answers]
      exact hrest

/-- **Noninterference.** What the inputs for one key are answered depends on nothing but them. -/
theorem answers_congr {k : κ} {T T' : κ → σ} {l l' : List ι} (hT : T k = T' k)
    (hl : M.inputs k l = M.inputs k l') :
    M.answers k (M.table T l).1 = M.answers k (M.table T' l').1 := by
  have h := (M.table_eq_solo k T l).trans (hT ▸ hl ▸ (M.table_eq_solo k T' l').symm)
  exact congrArg Prod.fst h

theorem map_fst_table (T : κ → σ) (l : List ι) : (M.table T l).1.map Prod.fst = l := by
  induction l generalizing T with
  | nil => rfl
  | cons i l ih =>
    rw [table, List.map_cons, ih]

theorem table_snd (k : κ) (T : κ → σ) (l : List ι) :
    (M.table T l).2 k = (M.solo (T k) (M.inputs k l)).2 := congrArg Prod.snd (M.table_eq_solo k T l)

end Keyed

end ViTools
