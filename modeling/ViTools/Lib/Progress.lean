import Mathlib.Data.List.Basic

/-!
# Processes and messages

A list of processes that are only added and only go on: whatever one of them has done stays done, at
its place in the list. And a network that loses, delays, duplicates and reorders messages: it holds
nothing that was not sent.
-/

namespace ViTools

variable {α : Type*}

/-! ## Processes -/

/-- Every process is still at its place and has gone on, in the sense of `r`. -/
def Progress (r : α → α → Prop) (l l' : List α) : Prop :=
  ∀ (i : ℕ) (a : α), l[i]? = some a → ∃ b, l'[i]? = some b ∧ r a b

namespace Progress

variable {r : α → α → Prop} {l : List α}

/-- A new process. -/
theorem append (hr : ∀ a, r a a) (l l' : List α) : Progress r l (l ++ l') := by
  intro i a ha
  obtain ⟨hi, -⟩ := List.getElem?_eq_some_iff.mp ha
  exact ⟨a, by rw [List.getElem?_append_left hi, ha], hr a⟩

/-- One process goes on. -/
theorem set (hr : ∀ a, r a a) {i : ℕ} {a b : α} (ha : l[i]? = some a) (hab : r a b) :
    Progress r l (l.set i b) := by
  intro j c hc
  by_cases hij : i = j
  · subst hij
    obtain ⟨hi, -⟩ := List.getElem?_eq_some_iff.mp ha
    rw [ha] at hc
    cases hc
    exact ⟨b, List.getElem?_set_self hi, hab⟩
  · exact ⟨c, by rw [List.getElem?_set_ne hij, hc], hr c⟩

end Progress

/-! ## Messages -/

/-- One of the messages is duplicated. -/
def duplicate (l : List α) (i : ℕ) : List α := l ++ l[i]?.toList

theorem duplicate_subset (l : List α) (i : ℕ) : duplicate l i ⊆ l := by
  intro a ha
  rcases List.mem_append.mp ha with ha | ha
  · exact ha
  · rw [Option.mem_toList] at ha
    exact List.mem_of_getElem? ha

end ViTools
