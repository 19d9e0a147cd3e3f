import Mathlib.Data.List.Basic
import Mathlib.Data.List.Induction
import Mathlib.Logic.Function.Basic

/-!
# The latest entry with a key

In a list that grows at its end, the latest entry with a key is the one after which the key does not
come again. A table that every entry overwrites at its key holds, for each key, the value of the
latest entry with that key, and still what it held at first for the keys that have not come.

`histories` pairs each entry of a list with the entries before it.
-/

namespace ViTools

variable {α β κ : Type*}

/-- The last entry with key `k` is `a`. -/
def Latest (key : α → κ) (k : κ) (hist : List α) (a : α) : Prop :=
  ∃ earlier later, hist = earlier ++ a :: later ∧ key a = k ∧ ∀ b ∈ later, key b ≠ k

section Latest

variable {key : α → κ} {k : κ} {hist : List α} {a b : α}

theorem not_latest_nil : ¬Latest key k [] a := by
  rintro ⟨earlier, later, heq, -, -⟩
  exact List.append_ne_nil_of_right_ne_nil earlier (List.cons_ne_nil a later) heq.symm

theorem Latest.mem (h : Latest key k hist a) : a ∈ hist := by
  obtain ⟨earlier, later, rfl, -, -⟩ := h
  exact List.mem_append_right _ List.mem_cons_self

/-- An entry with the key is the latest one as soon as it has come. -/
theorem latest_concat_self : Latest key (key a) (hist ++ [a]) a :=
  ⟨hist, [], rfl, rfl, by simp⟩

/-- An entry with another key changes nothing. -/
theorem latest_concat_of_ne (hb : key b ≠ k) :
    Latest key k (hist ++ [b]) a ↔ Latest key k hist a := by
  constructor
  · rintro ⟨earlier, later, heq, ha, hlater⟩
    obtain rfl | ⟨later, c, rfl⟩ := List.eq_nil_or_concat' later
    · obtain ⟨-, hlast⟩ := List.append_inj' heq rfl
      rw [List.singleton_inj.mp hlast, ha] at hb
      exact absurd rfl hb
    · rw [← List.cons_append, ← List.append_assoc] at heq
      refine ⟨earlier, later, (List.append_inj' heq rfl).1, ha, fun c hc ↦ ?_⟩
      exact hlater c (List.mem_append_left _ hc)
  · rintro ⟨earlier, later, rfl, ha, hlater⟩
    refine ⟨earlier, later ++ [b], by simp, ha, fun c hc ↦ ?_⟩
    rcases List.mem_append.mp hc with hc | hc
    · exact hlater c hc
    · rwa [List.mem_singleton.mp hc]

theorem latest_concat_self_iff : Latest key (key b) (hist ++ [b]) a ↔ a = b := by
  constructor
  · rintro ⟨earlier, later, heq, -, hlater⟩
    obtain rfl | ⟨later, c, rfl⟩ := List.eq_nil_or_concat' later
    · obtain ⟨-, hlast⟩ := List.append_inj' heq rfl
      exact (List.singleton_inj.mp hlast).symm
    · rw [← List.cons_append, ← List.append_assoc] at heq
      obtain ⟨-, hlast⟩ := List.append_inj' heq rfl
      rw [List.singleton_inj.mp hlast] at hlater
      exact absurd rfl (hlater c (List.mem_append_right _ List.mem_cons_self))
  · rintro rfl
    exact latest_concat_self

/-- There is a latest entry with a key as soon as there is one at all. -/
theorem exists_latest_iff : (∃ a, Latest key k hist a) ↔ ∃ a ∈ hist, key a = k := by
  constructor
  · rintro ⟨a, h⟩
    refine ⟨a, h.mem, ?_⟩
    obtain ⟨-, -, -, ha, -⟩ := h
    exact ha
  · rintro ⟨a, ha, hk⟩
    induction hist using List.reverseRecOn with
    | nil => exact absurd ha List.not_mem_nil
    | append_singleton hist b ih =>
      by_cases hb : key b = k
      · subst hb
        exact ⟨b, latest_concat_self⟩
      · have hmem : a ∈ hist := by
          rcases List.mem_append.mp ha with ha | ha
          · exact ha
          · rw [List.mem_singleton.mp ha] at hk
            exact absurd hk hb
        obtain ⟨c, hc⟩ := ih hmem
        exact ⟨c, (latest_concat_of_ne hb).mpr hc⟩

end Latest

/-- What a table holds after the entries of `hist` have overwritten what it held at first. -/
structure Remembers (key : α → κ) (val : α → β) (first : κ → β) (hist : List α) (T : κ → β) :
    Prop where
  latest : ∀ k a, Latest key k hist a → T k = val a
  fresh : ∀ k, (∀ a ∈ hist, key a ≠ k) → T k = first k

namespace Remembers

variable {key : α → κ} {val : α → β} {first T : κ → β} {hist : List α}

theorem nil : Remembers key val first [] first where
  latest _ _ h := absurd h not_latest_nil
  fresh _ _ := rfl

variable [DecidableEq κ]

theorem concat (h : Remembers key val first hist T) (a : α) :
    Remembers key val first (hist ++ [a]) (Function.update T (key a) (val a)) where
  latest k b hb := by
    by_cases hk : key a = k
    · subst hk
      rw [latest_concat_self_iff.mp hb, Function.update_self]
    · rw [Function.update_of_ne (Ne.symm hk)]
      exact h.latest k b ((latest_concat_of_ne hk).mp hb)
  fresh k hk := by
    rw [Function.update_of_ne (hk a (List.mem_append_right _ List.mem_cons_self)).symm]
    exact h.fresh k fun b hb ↦ hk b (List.mem_append_left _ hb)

end Remembers

/-! ## Histories -/

/-- Each entry of a list that comes after `hist`, with all the entries before it. -/
def histories (hist : List α) : List α → List (List α × α)
  | [] => []
  | a :: l => (hist, a) :: histories (hist ++ [a]) l

theorem histories_concat (hist l : List α) (a : α) :
    histories hist (l ++ [a]) = histories hist l ++ [(hist ++ l, a)] := by
  induction l generalizing hist with
  | nil =>
    rw [List.append_nil]
    rfl
  | cons b l ih =>
    rw [List.cons_append, histories, ih, histories, List.append_assoc]
    rfl

/-- A property of the pairs that a relation determines holds of all of them together. -/
theorem forall₂_congr_of_forall₂ {R S : α → β → Prop} {P : α → Prop} {l : List α} {m : List β}
    (h : List.Forall₂ R l m) (hiff : ∀ a b, R a b → (S a b ↔ P a)) :
    List.Forall₂ S l m ↔ ∀ a ∈ l, P a := by
  induction h with
  | nil => exact iff_of_true .nil (by simp)
  | cons hab _ ih => rw [List.forall₂_cons, ih, hiff _ _ hab, List.forall_mem_cons]

end ViTools
