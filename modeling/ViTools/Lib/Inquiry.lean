import Mathlib.Data.List.Infix
import Mathlib.Order.Basic

/-!
# Questions with unreliable answers

Yes/no questions about the values of a type are asked one after the other. An answer may depend on
all the questions and answers before it, so the same question may get both answers. All that is left
of an inquiry is its record.

A search for the place where the answer changes keeps a value that got a yes and a larger one that got
a no. With unreliable answers such a *bracket* does not enclose anything, but it is on record.
-/

namespace ViTools

variable {α : Type*}

/-- What was asked and answered so far. -/
abbrev Record (α : Type*) := List (α × Bool)

/-- The next answer, given the record and the question. -/
abbrev Answers (α : Type*) := Record α → α → Bool

/-- Ask a question and put it on record. -/
def ask (answers : Answers α) (record : Record α) (x : α) : Bool × Record α :=
  (answers record x, record ++ [(x, answers record x)])

/-- Every entry of the record is an answer as it was given. -/
def Recorded (answers : Answers α) (record : Record α) : Prop :=
  ∀ p x b l, record = p ++ (x, b) :: l → b = answers p x

theorem Recorded.nil (answers : Answers α) : Recorded answers [] := by
  intro p x b l h
  have hlength := congrArg List.length h
  rw [List.length_append] at hlength
  exact nomatch hlength

theorem Recorded.ask {answers : Answers α} {record : Record α} (h : Recorded answers record) (x : α) :
    Recorded answers (ask answers record x).2 := by
  intro p y b l heq
  rcases List.eq_nil_or_concat' l with rfl | ⟨l, c, rfl⟩
  · obtain ⟨rfl, hlast⟩ := List.append_inj' heq rfl
    cases hlast
    rfl
  · rw [← List.cons_append, ← List.append_assoc] at heq
    obtain ⟨hfirst, -⟩ := List.append_inj' heq rfl
    exact h p y b l hfirst

theorem Recorded.of_prefix {answers : Answers α} {record p : Record α} (h : Recorded answers record)
    (hpre : p <+: record) : Recorded answers p := by
  obtain ⟨l, rfl⟩ := hpre
  rintro p' x b l' rfl
  exact h p' x b (l' ++ l) (List.append_assoc _ _ _)

/-- The answer to the question after a beginning of the record. -/
theorem Recorded.answer_eq {answers : Answers α} {record p : Record α} {x : α} {b : Bool}
    (h : Recorded answers record) (hpre : p ++ [(x, b)] <+: record) : answers p x = b := by
  obtain ⟨l, rfl⟩ := hpre
  rw [h p x b l (by rw [List.append_assoc]; rfl)]

/-- What the questions on record cost, if a question `x` costs `w x`. -/
def cost (w : α → ℕ) (record : Record α) : ℕ := record.foldr (fun entry sum ↦ w entry.1 + sum) 0

theorem cost_cons (w : α → ℕ) (entry : α × Bool) (record : Record α) :
    cost w (entry :: record) = w entry.1 + cost w record := rfl

theorem cost_append (w : α → ℕ) (record record' : Record α) :
    cost w (record ++ record') = cost w record + cost w record' := by
  induction record with
  | nil => exact (Nat.zero_add _).symm
  | cons entry record ih => rw [List.cons_append, cost_cons, cost_cons, ih, Nat.add_assoc]

theorem cost_concat (w : α → ℕ) (record : Record α) (x : α) (b : Bool) :
    cost w (record ++ [(x, b)]) = cost w record + w x := by
  rw [cost_append]
  rfl

/-- A value with a yes and a larger one with a no, both on record. -/
structure Bracket [Preorder α] (record : Record α) (lo hi : α) : Prop where
  /-- The bracket is not empty. -/
  lt : lo < hi
  /-- The lower end got a yes. -/
  lo_mem : (lo, true) ∈ record
  /-- The upper end got a no. -/
  hi_mem : (hi, false) ∈ record

namespace Bracket

variable [Preorder α] {record : Record α} {lo hi x : α}

/-- A yes raises the lower end. -/
theorem raise (h : Bracket record lo hi) (hx : x < hi) : Bracket (record ++ [(x, true)]) x hi where
  lt := hx
  lo_mem := List.mem_append_right _ List.mem_cons_self
  hi_mem := List.mem_append_left _ h.hi_mem

/-- A no lowers the upper end. -/
theorem lower (h : Bracket record lo hi) (hx : lo < x) : Bracket (record ++ [(x, false)]) lo x where
  lt := hx
  lo_mem := List.mem_append_left _ h.lo_mem
  hi_mem := List.mem_append_right _ List.mem_cons_self

end Bracket

end ViTools
