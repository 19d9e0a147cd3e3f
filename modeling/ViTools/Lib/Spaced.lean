import Mathlib.Data.List.Basic
import Mathlib.Tactic.Ring

/-!
# Spaced arrivals

Something that comes at most once in a time `d` and stays for a time `L` at most is there no more than
`L / d` times at once, rounded up. The times are a list, the newest one first.
-/

namespace ViTools

/-- Each time is at least `d` after the ones before it. -/
def Spaced (d : ℕ) (times : List ℕ) : Prop := times.Pairwise fun b a ↦ a + d ≤ b

section Spaced

variable {d : ℕ} {times : List ℕ}

theorem spaced_cons {b : ℕ} : Spaced d (b :: times) ↔ (∀ a ∈ times, a + d ≤ b) ∧ Spaced d times :=
  List.pairwise_cons

/-- From the oldest time to the newest one there are all the steps between. -/
theorem Spaced.getLast_add_le {b : ℕ} (h : Spaced d (b :: times)) :
    (b :: times).getLast (List.cons_ne_nil b times) + times.length * d ≤ b := by
  induction times generalizing b with
  | nil => exact (congrArg (b + ·) (Nat.zero_mul d)).le
  | cons c times ih =>
    obtain ⟨hstep, hrest⟩ := spaced_cons.mp h
    have hoff := hstep c List.mem_cons_self
    have hlast := ih hrest
    rw [List.getLast_cons (List.cons_ne_nil c times), List.length_cons, Nat.add_one_mul]
    omega

/-- The times that are less than `L` ago. -/
def recent (L t : ℕ) (times : List ℕ) : List ℕ := times.filter fun a ↦ a ≤ t ∧ t < a + L

theorem mem_recent {L t a : ℕ} : a ∈ recent L t times ↔ a ∈ times ∧ a ≤ t ∧ t < a + L := by
  rw [recent, List.mem_filter, decide_eq_true_eq]

/-- **How many there are at once.** -/
theorem Spaced.length_recent_le (h : Spaced d times) (hd : 0 < d) (L t : ℕ) :
    (recent L t times).length ≤ (L + (d - 1)) / d := by
  have hspaced : Spaced d (recent L t times) := List.Pairwise.filter _ h
  cases hrecent : recent L t times with
  | nil => exact Nat.zero_le _
  | cons b rest =>
    rw [hrecent] at hspaced
    have hfirst : b ∈ recent L t times := hrecent ▸ List.mem_cons_self
    have hlast : (b :: rest).getLast (List.cons_ne_nil b rest) ∈ recent L t times := by
      simp only [hrecent]
      exact List.getLast_mem _
    obtain ⟨-, hb, -⟩ := mem_recent.mp hfirst
    obtain ⟨-, -, ha⟩ := mem_recent.mp hlast
    have hsteps := hspaced.getLast_add_le
    rw [Nat.le_div_iff_mul_le hd, List.length_cons, Nat.add_one_mul]
    omega

end Spaced

end ViTools
