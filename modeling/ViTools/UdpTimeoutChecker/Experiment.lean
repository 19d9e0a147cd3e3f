import Mathlib.Algebra.Ring.Parity
import ViTools.Lib.Inquiry

/-!
# Searching for the timeout

`one_experiment` doubles the number of seconds until `try` fails three times in a row, and then
bisects between the last number that worked and the first that did not. Datagrams are lost now and
then, so `try` may fail for no reason, and nothing makes its outcomes consistent. The search ends all
the same, and its result is bracketed by two of the outcomes.
-/

namespace ViTools.UdpTimeoutChecker

/-! ## The search -/

/-- The outcomes of `try`, where `true` stands for the return value 0. -/
abbrev Outcomes := Answers ℕ

/-- The calls of `try`, with their seconds. -/
abbrev Calls := Record ℕ

/-- How the first loop is left. -/
inductive Exit
  /-- By `return max_to`. -/
  | returned (max_to : ℕ)
  /-- By `break`. -/
  | broke (max_to : ℕ)
  deriving DecidableEq

/-- The first loop: double the timeout until it fails. -/
def phase1 (outcomes : Outcomes) : ℕ → ℕ → ℕ → Calls → Option (Exit × Calls)
  | 0, _, _, _ => none
  | fuel + 1, max_to, num_fails, calls =>
    match ask outcomes calls max_to with
    | (true, calls) =>
      if 512 ≤ max_to then some (.returned max_to, calls)
      else phase1 outcomes fuel (max_to * 2) 0 calls
    | (false, calls) =>
      if num_fails + 1 = 3 then some (.broke max_to, calls)
      else phase1 outcomes fuel max_to (num_fails + 1) calls

/-- The second loop: bisect. -/
def phase2 (outcomes : Outcomes) : ℕ → ℕ → ℕ → Calls → Option (ℕ × Calls)
  | 0, _, _, _ => none
  | fuel + 1, min_to, max_to, calls =>
    if max_to - min_to ≤ 2 then some (min_to, calls)
    else
      let candidate := (min_to + max_to) / 2
      match ask outcomes calls candidate with
      | (true, calls) => phase2 outcomes fuel candidate max_to calls
      | (false, calls) => phase2 outcomes fuel min_to candidate calls

/-- The result of an experiment, with the calls it made. Both loops get the same fuel. -/
def one_experiment (outcomes : Outcomes) (fuel : ℕ) : Option (ℕ × Calls) := do
  match ← phase1 outcomes fuel 1 0 [] with
  | (.returned max_to, calls) => some (max_to, calls)
  | (.broke max_to, calls) =>
    if max_to = 1 then some (0, calls) else phase2 outcomes fuel (max_to / 2) max_to calls

/-! ### One turn of a loop -/

theorem phase1_succ (outcomes : Outcomes) (fuel max_to num_fails : ℕ) (calls : Calls) :
    phase1 outcomes (fuel + 1) max_to num_fails calls =
      if outcomes calls max_to then
        if 512 ≤ max_to then some (.returned max_to, calls ++ [(max_to, true)])
        else phase1 outcomes fuel (max_to * 2) 0 (calls ++ [(max_to, true)])
      else if num_fails + 1 = 3 then some (.broke max_to, calls ++ [(max_to, false)])
      else phase1 outcomes fuel max_to (num_fails + 1) (calls ++ [(max_to, false)]) := by
  rw [phase1, ask]
  cases outcomes calls max_to <;> rfl

theorem phase2_succ (outcomes : Outcomes) (fuel min_to max_to : ℕ) (calls : Calls) :
    phase2 outcomes (fuel + 1) min_to max_to calls =
      if max_to - min_to ≤ 2 then some (min_to, calls)
      else if outcomes calls ((min_to + max_to) / 2) then
        phase2 outcomes fuel ((min_to + max_to) / 2) max_to (calls ++ [((min_to + max_to) / 2, true)])
      else
        phase2 outcomes fuel min_to ((min_to + max_to) / 2)
          (calls ++ [((min_to + max_to) / 2, false)]) := by
  rw [phase2]
  dsimp only
  rw [ask]
  cases outcomes calls ((min_to + max_to) / 2) <;> rfl

/-! ### The calls are on record -/

theorem recorded_phase1 {outcomes : Outcomes} {fuel max_to num_fails : ℕ} {calls doubling : Calls}
    {exit : Exit} (h : Recorded outcomes calls)
    (hrun : phase1 outcomes fuel max_to num_fails calls = some (exit, doubling)) :
    Recorded outcomes doubling := by
  induction fuel generalizing max_to num_fails calls with
  | zero => cases hrun
  | succ fuel ih =>
    have hask := h.ask max_to
    rw [phase1] at hrun
    split at hrun
    · next heq =>
      rw [heq] at hask
      split at hrun
      · cases hrun
        exact hask
      · exact ih hask hrun
    · next heq =>
      rw [heq] at hask
      split at hrun
      · cases hrun
        exact hask
      · exact ih hask hrun

theorem recorded_phase2 {outcomes : Outcomes} {fuel min_to max_to r : ℕ} {calls calls' : Calls}
    (h : Recorded outcomes calls)
    (hrun : phase2 outcomes fuel min_to max_to calls = some (r, calls')) :
    Recorded outcomes calls' := by
  induction fuel generalizing min_to max_to calls with
  | zero => cases hrun
  | succ fuel ih =>
    have hask := h.ask ((min_to + max_to) / 2)
    rw [phase2] at hrun
    split at hrun
    · cases hrun
      exact h
    · dsimp only at hrun
      split at hrun
      · next heq =>
        rw [heq] at hask
        exact ih hask hrun
      · next heq =>
        rw [heq] at hask
        exact ih hask hrun

/-! ### Only the calls made matter -/

/-- The calls of the first loop go on from those before, and other outcomes that are on record for them give
the same ones. -/
theorem phase1_congr {outcomes : Outcomes} (outcomes' : Outcomes) {fuel max_to num_fails : ℕ}
    {calls doubling : Calls} {exit : Exit}
    (hrun : phase1 outcomes fuel max_to num_fails calls = some (exit, doubling)) :
    calls <+: doubling ∧ (Recorded outcomes' doubling →
      phase1 outcomes' fuel max_to num_fails calls = some (exit, doubling)) := by
  induction fuel generalizing max_to num_fails calls with
  | zero => cases hrun
  | succ fuel ih =>
    rw [phase1_succ] at hrun ⊢
    split at hrun
    · split at hrun
      · next htop =>
        cases hrun
        refine ⟨List.prefix_append _ _, fun h ↦ ?_⟩
        rw [if_pos (h.answer_eq (List.prefix_refl _)), if_pos htop]
      · next htop =>
        obtain ⟨hpre, hsame⟩ := ih hrun
        refine ⟨(List.prefix_append _ _).trans hpre, fun h ↦ ?_⟩
        rw [if_pos (h.answer_eq hpre), if_neg htop]
        exact hsame h
    · split at hrun
      · next hthird =>
        cases hrun
        refine ⟨List.prefix_append _ _, fun h ↦ ?_⟩
        rw [if_neg (ne_true_of_eq_false (h.answer_eq (List.prefix_refl _))), if_pos hthird]
      · next hthird =>
        obtain ⟨hpre, hsame⟩ := ih hrun
        refine ⟨(List.prefix_append _ _).trans hpre, fun h ↦ ?_⟩
        rw [if_neg (ne_true_of_eq_false (h.answer_eq hpre)), if_neg hthird]
        exact hsame h

theorem phase2_congr {outcomes : Outcomes} (outcomes' : Outcomes) {fuel min_to max_to r : ℕ}
    {calls calls' : Calls} (hrun : phase2 outcomes fuel min_to max_to calls = some (r, calls')) :
    calls <+: calls' ∧ (Recorded outcomes' calls' →
      phase2 outcomes' fuel min_to max_to calls = some (r, calls')) := by
  induction fuel generalizing min_to max_to calls with
  | zero => cases hrun
  | succ fuel ih =>
    rw [phase2_succ] at hrun ⊢
    split at hrun
    · next hnarrow =>
      cases hrun
      exact ⟨List.prefix_refl _, fun _ ↦ if_pos hnarrow⟩
    · next hnarrow =>
      rw [if_neg hnarrow]
      split at hrun
      · obtain ⟨hpre, hsame⟩ := ih hrun
        refine ⟨(List.prefix_append _ _).trans hpre, fun h ↦ ?_⟩
        rw [if_pos (h.answer_eq hpre)]
        exact hsame h
      · obtain ⟨hpre, hsame⟩ := ih hrun
        refine ⟨(List.prefix_append _ _).trans hpre, fun h ↦ ?_⟩
        rw [if_neg (ne_true_of_eq_false (h.answer_eq hpre))]
        exact hsame h

/-- **Only the calls made matter.** -/
theorem one_experiment_congr {outcomes outcomes' : Outcomes} {fuel r : ℕ} {calls : Calls}
    (hrun : one_experiment outcomes fuel = some (r, calls)) (h : Recorded outcomes' calls) :
    one_experiment outcomes' fuel = some (r, calls) := by
  rw [one_experiment] at hrun ⊢
  obtain ⟨⟨exit, doubling⟩, hphase1, hrest⟩ := Option.bind_eq_some_iff.mp hrun
  obtain ⟨-, hsame₁⟩ := phase1_congr outcomes' hphase1
  cases exit with
  | returned max_to =>
    cases hrest
    rw [hsame₁ h]
    rfl
  | broke max_to =>
    dsimp only at hrest
    split at hrest
    · next hone =>
      cases hrest
      rw [hsame₁ h, Option.bind_eq_bind, Option.bind_some]
      exact if_pos hone
    · next hone =>
      obtain ⟨hpre, hsame₂⟩ := phase2_congr outcomes' hrest
      rw [hsame₁ (h.of_prefix hpre), Option.bind_eq_bind, Option.bind_some]
      exact (if_neg hone).trans (hsame₂ h)

/-! ## Doubling -/

/-- Some call with one second succeeded, before three of them failed. -/
def Responded (calls : Calls) : Prop :=
  ∃ f < 3, List.replicate f (1, false) ++ [(1, true)] <+: calls

theorem Responded.append {calls : Calls} (h : Responded calls) (l : Calls) : Responded (calls ++ l) := by
  obtain ⟨f, hf, hpre⟩ := h
  exact ⟨f, hf, hpre.trans (List.prefix_append _ _)⟩

theorem Responded.take_ne {calls : Calls} (h : Responded calls) :
    calls.take 3 ≠ List.replicate 3 (1, false) := by
  obtain ⟨f, hf, hpre⟩ := h
  intro htake
  -- the success is among the first three calls
  have hfirst : List.replicate f (1, false) ++ [(1, true)] <+: calls.take 3 := by
    rw [List.prefix_take_iff, List.length_append, List.length_replicate]
    exact ⟨hpre, hf⟩
  have hmem := hfirst.subset (List.mem_append_right _ List.mem_cons_self)
  rw [htake, List.mem_replicate] at hmem
  exact absurd hmem.2 (by decide)

/-- **The invariant of the first loop**, before it tries `2 ^ k` seconds. -/
structure Doubling (k num_fails : ℕ) (calls : Calls) : Prop where
  /-- There is nothing above 512. -/
  exponent_le : k ≤ 9
  /-- The third failure ends the loop. -/
  num_fails_lt : num_fails < 3
  /-- No number is tried more than three times. -/
  length_le : calls.length ≤ 3 * k + num_fails
  /-- Powers of two were tried. -/
  tried : ∀ c ∈ calls, ∃ i ≤ k, c.1 = 2 ^ i
  /-- Success goes on to the next power. -/
  succeeded : ∀ c ∈ calls, c.2 = true → c.1 < 2 ^ k
  /-- The failures counted are the last calls. -/
  failed : List.replicate num_fails (2 ^ k, false) <:+ calls
  /-- The power before was a success. -/
  half : ∀ i, k = i + 1 → (2 ^ i, true) ∈ calls
  /-- The first calls. -/
  start : (k = 0 ∧ calls = List.replicate num_fails (1, false)) ∨ Responded calls

theorem doubling_start : Doubling 0 0 [] where
  exponent_le := by decide
  num_fails_lt := by decide
  length_le := le_refl _
  tried := List.forall_mem_nil _
  succeeded := List.forall_mem_nil _
  failed := List.nil_suffix
  half i hi := nomatch hi
  start := .inl ⟨rfl, rfl⟩

namespace Doubling

variable {k num_fails : ℕ} {calls : Calls}

theorem tried_append (h : Doubling k num_fails calls) (ok : Bool) :
    ∀ c ∈ calls ++ [(2 ^ k, ok)], ∃ i ≤ k, c.1 = 2 ^ i := by
  intro c hc
  rcases List.mem_append.mp hc with hc | hc
  · exact h.tried c hc
  · rw [List.mem_singleton] at hc
    exact ⟨k, le_refl k, by rw [hc]⟩

theorem failed_append (h : Doubling k num_fails calls) :
    List.replicate (num_fails + 1) (2 ^ k, false) <:+ calls ++ [(2 ^ k, false)] := by
  obtain ⟨p, hp⟩ := h.failed
  exact ⟨p, by rw [List.replicate_succ', ← List.append_assoc, hp]⟩

theorem responded (h : Doubling k num_fails calls) : Responded (calls ++ [(2 ^ k, true)]) := by
  rcases h.start with ⟨rfl, rfl⟩ | hresponded
  · exact ⟨num_fails, h.num_fails_lt, List.prefix_refl _⟩
  · exact hresponded.append _

/-- A success doubles the number. -/
theorem success (h : Doubling k num_fails calls) (hk : k < 9) :
    Doubling (k + 1) 0 (calls ++ [(2 ^ k, true)]) where
  exponent_le := hk
  num_fails_lt := by decide
  length_le := by
    have hlength := h.length_le
    have hfails := h.num_fails_lt
    rw [List.length_append, List.length_singleton]
    omega
  tried c hc := by
    obtain ⟨i, hi, hc⟩ := h.tried_append true c hc
    exact ⟨i, hi.trans (Nat.le_succ k), hc⟩
  succeeded c hc _ := by
    obtain ⟨i, hi, hc⟩ := h.tried_append true c hc
    rw [hc]
    exact Nat.pow_lt_pow_right (by decide) (Nat.lt_succ_of_le hi)
  failed := List.nil_suffix
  half i hi := by
    cases hi
    exact List.mem_append_right _ List.mem_cons_self
  start := .inr h.responded

/-- A failure is counted. -/
theorem failure (h : Doubling k num_fails calls) (hfails : num_fails + 1 ≠ 3) :
    Doubling k (num_fails + 1) (calls ++ [(2 ^ k, false)]) where
  exponent_le := h.exponent_le
  num_fails_lt := by
    have hlt := h.num_fails_lt
    omega
  length_le := by
    rw [List.length_append, List.length_singleton]
    exact Nat.succ_le_succ h.length_le
  tried := h.tried_append false
  succeeded c hc hok := by
    rcases List.mem_append.mp hc with hc | hc
    · exact h.succeeded c hc hok
    · rw [List.mem_singleton] at hc
      rw [hc] at hok
      cases hok
  failed := h.failed_append
  half i hi := List.mem_append_left _ (h.half i hi)
  start := by
    rcases h.start with ⟨rfl, rfl⟩ | hresponded
    · exact .inl ⟨rfl, List.replicate_succ'.symm⟩
    · exact .inr (hresponded.append _)

end Doubling

/-- How the first loop ends: with a success at 512 seconds, or with a third failure. -/
inductive Doubled : Exit → Calls → Prop
  | returned {num_fails : ℕ} {calls : Calls} (h : Doubling 9 num_fails calls) :
      Doubled (.returned 512) (calls ++ [(512, true)])
  | broke {k : ℕ} {calls : Calls} (h : Doubling k 2 calls) :
      Doubled (.broke (2 ^ k)) (calls ++ [(2 ^ k, false)])

/-- The first loop ends: there are ten numbers to try, each at most three times. -/
theorem phase1_spec (outcomes : Outcomes) {fuel k num_fails : ℕ} {calls : Calls}
    (hfuel : 30 ≤ 3 * k + num_fails + fuel) (h : Doubling k num_fails calls) :
    ∃ exit doubling, phase1 outcomes fuel (2 ^ k) num_fails calls = some (exit, doubling) ∧
      Doubled exit doubling := by
  induction fuel generalizing k num_fails calls with
  | zero =>
    have hk := h.exponent_le
    have hfails := h.num_fails_lt
    omega
  | succ fuel ih =>
    have hfails := h.num_fails_lt
    rw [phase1_succ]
    cases outcomes calls (2 ^ k) with
    | true =>
      rw [if_pos rfl]
      by_cases hk : k < 9
      · have hlt : 2 ^ k < 512 := Nat.pow_lt_pow_right (n := 9) (by decide) hk
        rw [if_neg (not_le.mpr hlt), ← pow_succ]
        exact ih (by omega) (h.success hk)
      · obtain rfl : k = 9 := le_antisymm h.exponent_le (not_lt.mp hk)
        exact ⟨_, _, rfl, .returned h⟩
    | false =>
      rw [if_neg Bool.false_ne_true]
      by_cases hthird : num_fails + 1 = 3
      · obtain rfl : num_fails = 2 := Nat.succ_injective hthird
        exact ⟨_, _, rfl, .broke h⟩
      · rw [if_neg hthird]
        exact ih (by omega) (h.failure hthird)

/-! ## Bisection -/

/-- The second loop halves the bracket until it is two wide, and its lower end stays even. -/
theorem phase2_spec (outcomes : Outcomes) {j fuel min_to : ℕ} {calls : Calls} (hfuel : j < fuel)
    (heven : Even min_to) (h : Bracket calls min_to (min_to + 2 ^ (j + 1))) :
    ∃ r bisection, phase2 outcomes fuel min_to (min_to + 2 ^ (j + 1)) calls = some (r, calls ++ bisection) ∧
      bisection.length = j ∧ Even r ∧ min_to ≤ r ∧ r + 2 ≤ min_to + 2 ^ (j + 1) ∧
      Bracket (calls ++ bisection) r (r + 2) ∧
      ∀ c ∈ bisection, min_to < c.1 ∧ c.1 < min_to + 2 ^ (j + 1) := by
  induction j generalizing fuel min_to calls with
  | zero =>
    obtain ⟨fuel, rfl⟩ := Nat.exists_eq_succ_of_ne_zero (Nat.ne_of_gt hfuel)
    refine ⟨min_to, [], ?_, rfl, heven, le_refl _, le_refl _, ?_, List.forall_mem_nil _⟩
    · rw [phase2, if_pos (by omega), List.append_nil]
    · rwa [List.append_nil]
  | succ j ih =>
    obtain ⟨fuel, rfl⟩ := Nat.exists_eq_succ_of_ne_zero (Nat.ne_of_gt (Nat.zero_lt_of_lt hfuel))
    have hwidth : 2 ≤ 2 ^ (j + 1) := Nat.le_self_pow (Nat.succ_ne_zero j) 2
    have hdouble : 2 ^ (j + 1 + 1) = 2 ^ (j + 1) + 2 ^ (j + 1) := by rw [pow_succ, mul_two]
    have hcandidate : (min_to + (min_to + 2 ^ (j + 1 + 1))) / 2 = min_to + 2 ^ (j + 1) := by omega
    rw [phase2_succ, if_neg (by omega), hcandidate, hdouble]
    rw [hdouble] at h
    cases outcomes calls (min_to + 2 ^ (j + 1)) with
    | true =>
      rw [if_pos rfl]
      have heven' : Even (min_to + 2 ^ (j + 1)) :=
        heven.add (even_two.pow_of_ne_zero (Nat.succ_ne_zero j))
      have hbracket := h.raise (x := min_to + 2 ^ (j + 1)) (by omega)
      rw [← add_assoc] at hbracket ⊢
      obtain ⟨r, bisection, hrun, hlength, hr, hlo, hhi, hfinal, hbetween⟩ :=
        ih (Nat.lt_of_succ_lt_succ hfuel) heven' hbracket
      refine ⟨r, (min_to + 2 ^ (j + 1), true) :: bisection, ?_, ?_, hr, by omega, hhi, ?_, ?_⟩
      · rw [hrun, List.append_assoc]
        rfl
      · rw [List.length_cons, hlength]
      · rwa [List.append_assoc] at hfinal
      · rw [List.forall_mem_cons]
        exact ⟨by omega, fun c hc ↦ ⟨by have := (hbetween c hc).1; omega, (hbetween c hc).2⟩⟩
    | false =>
      rw [if_neg Bool.false_ne_true]
      have hbracket := h.lower (x := min_to + 2 ^ (j + 1)) (by omega)
      obtain ⟨r, bisection, hrun, hlength, hr, hlo, hhi, hfinal, hbetween⟩ :=
        ih (Nat.lt_of_succ_lt_succ hfuel) heven hbracket
      refine ⟨r, (min_to + 2 ^ (j + 1), false) :: bisection, ?_, ?_, hr, hlo, by omega, ?_, ?_⟩
      · rw [hrun, List.append_assoc]
        rfl
      · rw [List.length_cons, hlength]
      · rwa [List.append_assoc] at hfinal
      · rw [List.forall_mem_cons]
        exact ⟨by omega, fun c hc ↦ ⟨(hbetween c hc).1, by have := (hbetween c hc).2; omega⟩⟩

/-! ## Results -/

/-- What the result of an experiment means, given its calls and those of them made while doubling. -/
structure Bracketed (doubling calls : Calls) (r : ℕ) : Prop where
  /-- The experiment is short. -/
  length_le : calls.length ≤ 37
  /-- All calls are in range. -/
  seconds : ∀ c ∈ calls, 1 ≤ c.1 ∧ c.1 ≤ 512
  /-- Nothing works. -/
  zero_iff : r = 0 ↔ calls.take 3 = List.replicate 3 (1, false)
  /-- Everything works. -/
  top_iff : r = 512 ↔ (512, true) ∈ calls
  /-- Something works. -/
  between : r ≠ 0 → r ≠ 512 → 1 ≤ r ∧ r ≤ 510 ∧ (r, true) ∈ calls ∧
    (r = 1 ∧ List.replicate 3 (2, false) <:+: calls ∨
      Even r ∧ (r + 2, false) ∈ calls ∧
        (r + 2 ∈ doubling.map Prod.fst → List.replicate 3 (r + 2, false) <:+: calls))

theorem Doubling.seconds_append {k num_fails : ℕ} {calls : Calls} (h : Doubling k num_fails calls)
    (ok : Bool) : ∀ c ∈ calls ++ [(2 ^ k, ok)], 1 ≤ c.1 ∧ c.1 ≤ 512 := by
  intro c hc
  obtain ⟨i, hi, hc⟩ := h.tried_append ok c hc
  rw [hc]
  exact ⟨Nat.one_le_two_pow, Nat.pow_le_pow_right (n := 2) (j := 9) (by decide) (hi.trans h.exponent_le)⟩

/-- The experiment ends with 512. -/
theorem bracketed_returned {num_fails : ℕ} {calls : Calls} (h : Doubling 9 num_fails calls) :
    Bracketed (calls ++ [(512, true)]) (calls ++ [(512, true)]) 512 where
  length_le := by
    have hlength := h.length_le
    have hfails := h.num_fails_lt
    rw [List.length_append, List.length_singleton]
    omega
  seconds := h.seconds_append true
  zero_iff := iff_of_false (by decide) h.responded.take_ne
  top_iff := iff_of_true rfl (List.mem_append_right _ List.mem_cons_self)
  between _ htop := absurd rfl htop

/-- The experiment ends with 0. -/
theorem bracketed_zero {calls : Calls} (h : Doubling 0 2 calls) :
    Bracketed (calls ++ [(1, false)]) (calls ++ [(1, false)]) 0 := by
  obtain rfl : calls = List.replicate 2 (1, false) := by
    rcases h.start with ⟨-, hstart⟩ | ⟨f, -, hpre⟩
    · exact hstart
    · have hmem := hpre.subset (List.mem_append_right _ List.mem_cons_self)
      exact absurd (h.succeeded _ hmem rfl) (lt_irrefl 1)
  exact ⟨by decide, h.seconds_append false, by decide, by decide, fun hzero ↦ absurd rfl hzero⟩

/-- The second loop, after the first has failed at a power of two above 1. -/
theorem phase2_bracket (outcomes : Outcomes) {fuel k : ℕ} {calls : Calls} (hfuel : k < fuel)
    (h : Doubling (k + 1) 2 calls) :
    ∃ r bisection, phase2 outcomes fuel (2 ^ k) (2 ^ (k + 1)) (calls ++ [(2 ^ (k + 1), false)]) =
        some (r, calls ++ [(2 ^ (k + 1), false)] ++ bisection) ∧
      bisection.length ≤ k - 1 ∧ 2 ^ k ≤ r ∧ r < 2 ^ (k + 1) ∧
      (∀ c ∈ bisection, 1 ≤ c.1 ∧ c.1 < 2 ^ (k + 1)) ∧
      ((r = 1 ∧ k = 0) ∨ Even r ∧
        Bracket (calls ++ [(2 ^ (k + 1), false)] ++ bisection) r (r + 2)) := by
  cases k with
  | zero =>
    obtain ⟨fuel, rfl⟩ := Nat.exists_eq_succ_of_ne_zero (Nat.ne_of_gt hfuel)
    refine ⟨1, [], ?_, le_refl _, le_refl _, by decide, List.forall_mem_nil _, .inl ⟨rfl, rfl⟩⟩
    rw [List.append_nil]
    rfl
  | succ j =>
    have hdouble : 2 ^ (j + 1 + 1) = 2 ^ (j + 1) + 2 ^ (j + 1) := by rw [pow_succ, mul_two]
    have hpos : 0 < 2 ^ (j + 1) := Nat.two_pow_pos _
    have hbracket : Bracket (calls ++ [(2 ^ (j + 1 + 1), false)]) (2 ^ (j + 1)) (2 ^ (j + 1 + 1)) :=
      ⟨by omega, List.mem_append_left _ (h.half _ rfl), List.mem_append_right _ List.mem_cons_self⟩
    have heven : Even (2 ^ (j + 1)) := even_two.pow_of_ne_zero (Nat.succ_ne_zero j)
    rw [hdouble] at hbracket ⊢
    obtain ⟨r, bisection, hrun, hlength, hr, hlo, hhi, hfinal, hbetween⟩ :=
      phase2_spec outcomes (Nat.lt_of_succ_lt hfuel) heven hbracket
    refine ⟨r, bisection, hrun, hlength.le, hlo, by omega, ?_, .inr ⟨hr, hfinal⟩⟩
    intro c hc
    have hc := hbetween c hc
    omega

/-- The only power of two above `2 ^ k` that was tried is the last one, which failed three times. -/
theorem Doubling.failed_of_gt {k x : ℕ} {calls : Calls} (h : Doubling (k + 1) 2 calls) (hx : 2 ^ k < x)
    (hmem : x ∈ (calls ++ [(2 ^ (k + 1), false)]).map Prod.fst) :
    List.replicate 3 (x, false) <:+ calls ++ [(2 ^ (k + 1), false)] := by
  obtain ⟨c, hc, rfl⟩ := List.mem_map.mp hmem
  obtain ⟨i, hi, hci⟩ := h.tried_append false c hc
  have hik : i = k + 1 := by
    refine le_antisymm hi ((Nat.pow_lt_pow_iff_right (a := 2) (by decide)).mp ?_)
    rwa [← hci]
  rw [hci, hik]
  exact h.failed_append

/-- The experiment ends with something in between. -/
theorem bracketed_between {k r : ℕ} {calls bisection : Calls} (h : Doubling (k + 1) 2 calls)
    (hlength : bisection.length ≤ k - 1) (hlo : 2 ^ k ≤ r) (hhi : r < 2 ^ (k + 1))
    (hbisection : ∀ c ∈ bisection, 1 ≤ c.1 ∧ c.1 < 2 ^ (k + 1))
    (hresult : (r = 1 ∧ k = 0) ∨
      Even r ∧ Bracket (calls ++ [(2 ^ (k + 1), false)] ++ bisection) r (r + 2)) :
    Bracketed (calls ++ [(2 ^ (k + 1), false)])
      (calls ++ [(2 ^ (k + 1), false)] ++ bisection) r := by
  have hmax : 2 ^ (k + 1) ≤ 512 := Nat.pow_le_pow_right (j := 9) (by decide) h.exponent_le
  have hpos : 0 < 2 ^ k := Nat.two_pow_pos k
  have hexponent := h.exponent_le
  refine ⟨?_, ?_, ?_, ?_, ?_⟩
  · have hlength' := h.length_le
    rw [List.length_append, List.length_append, List.length_singleton]
    omega
  · intro c hc
    rcases List.mem_append.mp hc with hc | hc
    · exact h.seconds_append false c hc
    · exact ⟨(hbisection c hc).1, (hbisection c hc).2.le.trans hmax⟩
  · have hresponded : Responded calls := by
      rcases h.start with ⟨hzero, -⟩ | hresponded
      · exact absurd hzero (Nat.succ_ne_zero k)
      · exact hresponded
    exact iff_of_false (by omega) ((hresponded.append _).append _).take_ne
  · refine iff_of_false (by omega) ?_
    intro hmem
    rw [List.append_assoc] at hmem
    rcases List.mem_append.mp hmem with hmem | hmem
    · exact absurd (h.succeeded _ hmem rfl) (not_lt.mpr hmax)
    · rcases List.mem_cons.mp hmem with hmem | hmem
      · exact absurd (congrArg Prod.snd hmem) Bool.noConfusion
      · exact absurd (hbisection _ hmem).2 (not_lt.mpr hmax)
  · intro _ _
    -- three failures in a row ended the first loop
    have hfailed : List.replicate 3 (2 ^ (k + 1), false) <:+:
        calls ++ [(2 ^ (k + 1), false)] ++ bisection :=
      h.failed_append.isInfix.trans (List.prefix_append _ _).isInfix
    rcases hresult with ⟨rfl, rfl⟩ | ⟨heven, hbracket⟩
    · exact ⟨le_refl _, by decide, List.mem_append_left _ (List.mem_append_left _ (h.half 0 rfl)),
        .inl ⟨rfl, hfailed⟩⟩
    · have hr : r ≤ 510 := by
        obtain ⟨i, hi⟩ := heven
        omega
      refine ⟨by omega, hr, hbracket.lo_mem, .inr ⟨heven, hbracket.hi_mem, ?_⟩⟩
      intro hmem
      exact (h.failed_of_gt (by omega) hmem).isInfix.trans (List.prefix_append _ _).isInfix

/-- The experiment ends, and all its calls are accounted for. -/
theorem one_experiment_spec (outcomes : Outcomes) {fuel : ℕ} (hfuel : 30 ≤ fuel) :
    ∃ r calls exit doubling, one_experiment outcomes fuel = some (r, calls) ∧
      phase1 outcomes fuel 1 0 [] = some (exit, doubling) ∧ doubling <+: calls ∧
      Recorded outcomes calls ∧ Bracketed doubling calls r := by
  obtain ⟨exit, doubling, hphase1, hdoubled⟩ :=
    phase1_spec outcomes (hfuel.trans (Nat.le_add_left fuel (3 * 0 + 0))) doubling_start
  rw [pow_zero] at hphase1
  have hrecorded := recorded_phase1 (.nil outcomes) hphase1
  rw [one_experiment, hphase1]
  cases hdoubled with
  | returned h =>
    exact ⟨_, _, _, _, rfl, rfl, List.prefix_refl _, hrecorded, bracketed_returned h⟩
  | @broke k calls h =>
    cases k with
    | zero => exact ⟨_, _, _, _, rfl, rfl, List.prefix_refl _, hrecorded, bracketed_zero h⟩
    | succ k =>
      have hexponent := h.exponent_le
      have hk : k < fuel := by omega
      obtain ⟨r, bisection, hphase2, hlength, hlo, hhi, hbisection, hresult⟩ :=
        phase2_bracket outcomes hk h
      have hne : 2 ^ (k + 1) ≠ 1 := Nat.one_lt_two_pow_iff.mpr (Nat.succ_ne_zero k) |>.ne'
      have hhalf : 2 ^ (k + 1) / 2 = 2 ^ k := by rw [pow_succ, Nat.mul_div_cancel _ (by decide)]
      refine ⟨r, _, _, _, ?_, rfl, List.prefix_append _ bisection, recorded_phase2 hrecorded hphase2,
        bracketed_between h hlength hlo hhi hbisection hresult⟩
      rw [← hphase2, ← hhalf]
      exact if_neg hne

/-- **The result of an experiment.** Whatever the calls of `try` return, the experiment ends, and its
result is bracketed by the calls it made. -/
theorem one_experiment_bracketed (outcomes : Outcomes) {fuel : ℕ} (hfuel : 30 ≤ fuel) :
    ∃ r calls exit doubling, one_experiment outcomes fuel = some (r, calls) ∧
      phase1 outcomes fuel 1 0 [] = some (exit, doubling) ∧ doubling <+: calls ∧
      Recorded outcomes calls ∧ Bracketed doubling calls r :=
  one_experiment_spec outcomes hfuel

/-- The NAT forgets the connection after 90 seconds, and every fifth call fails for no reason. -/
private def spurious : Outcomes := fun calls seconds ↦ seconds ≤ 90 && calls.length % 5 != 4

/-- An experiment with a spurious failure, and another one while bisecting. -/
theorem one_experiment_bracketed_spurious :
    ∃ r calls exit doubling, one_experiment spurious 30 = some (r, calls) ∧
      phase1 spurious 30 1 0 [] = some (exit, doubling) ∧ doubling <+: calls ∧
      Recorded spurious calls ∧ Bracketed doubling calls r :=
  one_experiment_bracketed spurious (le_refl 30)

end ViTools.UdpTimeoutChecker
