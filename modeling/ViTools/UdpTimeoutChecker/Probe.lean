import Mathlib.Algebra.Order.Floor.Semiring
import Mathlib.Data.Rat.Floor
import Mathlib.Algebra.Order.Field.Basic
import Mathlib.Data.List.Sort
import Mathlib.Data.Fintype.Basic
import Mathlib.Tactic.FinCases
import ViTools.Lib.CInt
import ViTools.UdpTimeoutChecker.Experiment

/-!
# Three experiments and their median

`probe` makes three experiments and prints the middle one of their results. If the connection stays open
for `T` seconds and two of the experiments are not disturbed by more lost datagrams than the first loop
makes up for, then it prints the largest number up to `T` that an experiment can come to: 0, 1, an even
number or 512.
-/

namespace ViTools.UdpTimeoutChecker

/-- The comparator of `qsort`: a difference of type `int`. -/
def numcmp (p1 p2 : ℕ) : ℤ := twos 32 (p1 - p2)

/-- `qsort` with the comparator `numcmp`. -/
def qsort (exps : List ℕ) : List ℕ := exps.insertionSort fun p1 p2 ↦ numcmp p1 p2 ≤ 0

/-- `probe`, with the outcomes of `try` in each of its experiments. Those of one may depend on the
experiments before it, which are over when it starts. The result is the number it prints. -/
def probe (outcomes : Fin 3 → Outcomes) (fuel : ℕ) : Option ℕ := do
  let (exp0, _) ← one_experiment (outcomes 0) fuel
  let (exp1, _) ← one_experiment (outcomes 1) fuel
  let (exp2, _) ← one_experiment (outcomes 2) fuel
  (qsort [exp0, exp1, exp2])[1]?

/-! ## One experiment -/

section Threshold

variable {α : Type*} [Field α] [LinearOrder α]

/-- The calls of an experiment say that the connection stays open for `T` seconds. While doubling, up to
two calls with the same number fail for no reason. -/
structure Reliable (T : α) (doubling calls : Calls) : Prop where
  /-- No call above `T` succeeds. -/
  above : ∀ c ∈ calls, T < c.1 → c.2 = false
  /-- While bisecting all calls up to `T` succeed. -/
  below : ∀ c ∈ calls.drop doubling.length, (c.1 : α) ≤ T → c.2 = true
  /-- While doubling a call up to `T` succeeds after two failures at most. -/
  doubled : ∀ x : ℕ, (x : α) ≤ T → doubling.count (x, false) ≤ 2

/-- An experiment with these outcomes is reliable. -/
def ReliableExperiment (T : α) (outcomes : Outcomes) (fuel : ℕ) : Prop :=
  ∀ exit doubling r calls, phase1 outcomes fuel 1 0 [] = some (exit, doubling) →
    one_experiment outcomes fuel = some (r, calls) → Reliable T doubling calls

variable {T : α} {doubling calls : Calls}

/-- Only the numbers that were tried matter. -/
theorem reliable_iff : Reliable T doubling calls ↔
    (∀ c ∈ calls, T < c.1 → c.2 = false) ∧
      (∀ c ∈ calls.drop doubling.length, (c.1 : α) ≤ T → c.2 = true) ∧
      ∀ c ∈ doubling, (c.1 : α) ≤ T → doubling.count (c.1, false) ≤ 2 := by
  constructor
  · intro h
    exact ⟨h.above, h.below, fun c _ hc ↦ h.doubled c.1 hc⟩
  · rintro ⟨habove, hbelow, hdoubled⟩
    refine ⟨habove, hbelow, fun x hx ↦ ?_⟩
    by_cases hmem : (x, false) ∈ doubling
    · exact hdoubled _ hmem hx
    · rw [List.count_eq_zero.mpr hmem]
      exact Nat.zero_le 2

instance : Decidable (Reliable T doubling calls) := decidable_of_iff _ reliable_iff.symm

instance (outcomes : Outcomes) (fuel : ℕ) : Decidable (ReliableExperiment T outcomes fuel) :=
  match h1 : phase1 outcomes fuel 1 0 [], h2 : one_experiment outcomes fuel with
  | some (exit, doubling), some (r, calls) =>
    decidable_of_iff (Reliable T doubling calls)
      ⟨fun h _ _ _ _ h1' h2' ↦ by
        rw [h1] at h1'
        rw [h2] at h2'
        cases h1'
        cases h2'
        exact h, fun h ↦ h exit doubling r calls h1 h2⟩
  | none, _ => .isTrue fun _ _ _ _ h1' _ ↦ nomatch h1.symm.trans h1'
  | _, none => .isTrue fun _ _ _ _ _ h2' ↦ nomatch h2.symm.trans h2'

/-- Three failures are above the threshold. -/
theorem Reliable.lt_of_three (h : Reliable T doubling calls) (hpre : doubling <+: calls) {x : ℕ}
    (hthree : 3 ≤ calls.count (x, false)) : T < x := by
  by_contra hle
  rw [not_lt] at hle
  obtain ⟨rest, rfl⟩ := hpre
  have hdoubled := h.doubled x hle
  have hrest : rest.count (x, false) = 0 := by
    refine List.count_eq_zero.mpr fun hmem ↦ ?_
    have hbelow := h.below (x, false) (by rwa [List.drop_left]) hle
    cases hbelow
  rw [List.count_append] at hthree
  omega

/-- A failure is above the threshold unless it was met while doubling. -/
theorem Reliable.lt_of_failure (h : Reliable T doubling calls) (hpre : doubling <+: calls) {x : ℕ}
    (hfail : (x, false) ∈ calls)
    (hthree : x ∈ doubling.map Prod.fst → List.replicate 3 (x, false) <:+: calls) : T < x := by
  by_cases hmem : x ∈ doubling.map Prod.fst
  · refine h.lt_of_three hpre ?_
    have hcount := (hthree hmem).sublist.count_le (x, false)
    rwa [List.count_replicate_self] at hcount
  · by_contra hle
    rw [not_lt] at hle
    obtain ⟨rest, rfl⟩ := hpre
    rcases List.mem_append.mp hfail with hin | hin
    · exact hmem (List.mem_map_of_mem hin)
    · have hbelow := h.below (x, false) (by rwa [List.drop_left]) hle
      cases hbelow

theorem Reliable.le_of_success (h : Reliable T doubling calls) {x : ℕ} (hok : (x, true) ∈ calls) :
    (x : α) ≤ T := by
  by_contra hlt
  rw [not_le] at hlt
  cases h.above _ hok hlt

variable [IsStrictOrderedRing α] [FloorSemiring α]

/-- What an experiment comes to if the connection stays open for `T` seconds. -/
def supported (T : α) : ℕ :=
  if T < 1 then 0 else if T < 2 then 1 else if T < 512 then 2 * ⌊T / 2⌋₊ else 512

/-- The result of a reliable experiment. -/
theorem Bracketed.eq_supported {r : ℕ} (h : Bracketed doubling calls r) (hpre : doubling <+: calls)
    (hreliable : Reliable T doubling calls) : r = supported T := by
  rw [supported]
  by_cases hzero : r = 0
  · have hthree : 3 ≤ calls.count (1, false) := by
      have hcount := (List.take_sublist 3 calls).count_le (1, false)
      rwa [h.zero_iff.mp hzero, List.count_replicate_self] at hcount
    have hlt := hreliable.lt_of_three hpre hthree
    rw [Nat.cast_one] at hlt
    rw [if_pos hlt, hzero]
  by_cases htop : r = 512
  · have hle := hreliable.le_of_success (h.top_iff.mp htop)
    rw [Nat.cast_ofNat] at hle
    rw [if_neg (by linarith), if_neg (by linarith), if_neg (by linarith), htop]
  obtain ⟨hlo, hhi, hok, hcase⟩ := h.between hzero htop
  have hle := hreliable.le_of_success hok
  rcases hcase with ⟨rfl, hthree⟩ | ⟨heven, hfail, hthree⟩
  · have hcount := hthree.sublist.count_le (2, false)
    rw [List.count_replicate_self] at hcount
    have hlt := hreliable.lt_of_three hpre hcount
    rw [Nat.cast_one] at hle
    rw [Nat.cast_ofNat] at hlt
    rw [if_neg (by linarith), if_pos hlt]
  · have hlt := hreliable.lt_of_failure hpre hfail hthree
    obtain ⟨m, rfl⟩ := heven
    have hm : (1 : α) ≤ m := by exact_mod_cast (by omega : 1 ≤ m)
    have hm' : (m : α) ≤ 255 := by exact_mod_cast (by omega : m ≤ 255)
    push_cast at hle hlt
    have hfloor : ⌊T / 2⌋₊ = m := by
      rw [Nat.floor_eq_iff (by linarith)]
      constructor <;> linarith
    rw [if_neg (by linarith), if_neg (by linarith), if_pos (by linarith), hfloor, two_mul]

theorem ReliableExperiment.result {outcomes : Outcomes} {fuel : ℕ} (hfuel : 30 ≤ fuel)
    (h : ReliableExperiment T outcomes fuel) :
    ∃ calls, one_experiment outcomes fuel = some (supported T, calls) := by
  obtain ⟨r, calls, exit, doubling, hrun, hphase1, hpre, -, hbracketed⟩ :=
    one_experiment_spec outcomes hfuel
  rw [← hbracketed.eq_supported hpre (h _ _ _ _ hphase1 hrun)]
  exact ⟨calls, hrun⟩

end Threshold

/-! ## The median -/

/-- Differences between results do not overflow. -/
theorem numcmp_le_zero {p1 p2 : ℕ} (h1 : p1 ≤ 512) (h2 : p2 ≤ 512) : numcmp p1 p2 ≤ 0 ↔ p1 ≤ p2 := by
  rw [numcmp, twos_eq_self (by decide) (fits_32.mpr (by omega))]
  omega

/-- Two of three results that agree are the middle one. -/
theorem qsort_middle {a b c v : ℕ} (ha : a ≤ 512) (hb : b ≤ 512) (hc : c ≤ 512)
    (h : a = v ∧ b = v ∨ a = v ∧ c = v ∨ b = v ∧ c = v) : (qsort [a, b, c])[1]? = some v := by
  simp only [qsort, List.insertionSort_cons, List.insertionSort_nil, List.orderedInsert_nil,
    List.orderedInsert_cons, numcmp_le_zero hb hc]
  split
  · next hbc =>
    simp only [List.orderedInsert_cons, List.orderedInsert_nil, numcmp_le_zero ha hb,
      numcmp_le_zero ha hc]
    split
    · exact congrArg some (by omega)
    split
    · exact congrArg some (by omega)
    · exact congrArg some (by omega)
  · next hcb =>
    simp only [List.orderedInsert_cons, List.orderedInsert_nil, numcmp_le_zero ha hb,
      numcmp_le_zero ha hc]
    split
    · exact congrArg some (by omega)
    split
    · exact congrArg some (by omega)
    · exact congrArg some (by omega)

/-- **Lost datagrams that `probe` tolerates.** If two of its experiments are reliable, `probe` prints what
the threshold supports. -/
theorem probe_prints {α : Type*} [Field α] [LinearOrder α] [IsStrictOrderedRing α] [FloorSemiring α]
    (outcomes : Fin 3 → Outcomes) {fuel : ℕ} (hfuel : 30 ≤ fuel) {T : α} {i j : Fin 3} (hij : i ≠ j)
    (hi : ReliableExperiment T (outcomes i) fuel) (hj : ReliableExperiment T (outcomes j) fuel) :
    probe outcomes fuel = some (supported T) := by
  have hall : ∀ k, ∃ r calls, one_experiment (outcomes k) fuel = some (r, calls) ∧ r ≤ 512 := by
    intro k
    obtain ⟨r, calls, exit, doubling, hrun, -, -, -, hbracketed⟩ :=
      one_experiment_spec (outcomes k) hfuel
    refine ⟨r, calls, hrun, ?_⟩
    by_cases hzero : r = 0
    · omega
    by_cases htop : r = 512
    · omega
    have hbetween := (hbracketed.between hzero htop).2.1
    omega
  choose r calls hrun hle using hall
  have hresult : ∀ k, ReliableExperiment T (outcomes k) fuel → r k = supported T := by
    intro k hk
    obtain ⟨calls', hrun'⟩ := hk.result hfuel
    rw [hrun k] at hrun'
    exact congrArg Prod.fst (Option.some.inj hrun')
  have hprobe : probe outcomes fuel = (qsort [r 0, r 1, r 2])[1]? := by
    simp only [probe, hrun, Option.bind_eq_bind, Option.bind_some]
  rw [hprobe]
  refine qsort_middle (hle 0) (hle 1) (hle 2) ?_
  have hri := hresult i hi
  have hrj := hresult j hj
  revert hij hri hrj
  -- which two of the three experiments are reliable
  fin_cases i <;> fin_cases j <;> simp +contextual

/-- The connection stays open for 90 seconds and a half; the first experiment finds no server at all,
and in the second each number fails twice before it succeeds while doubling. -/
private def unlucky (i : Fin 3) : Outcomes := fun calls seconds ↦
  if i = 0 then false
  else if i = 1 then seconds ≤ 90 && (calls.count (seconds, false) == 2 || (128, false) ∈ calls)
  else seconds ≤ 90

/-- Two unlucky experiments out of three, one of them beyond help. -/
theorem probe_prints_unlucky : probe unlucky 30 = some (supported (181 / 2 : ℚ)) :=
  probe_prints unlucky (le_refl 30) (show (1 : Fin 3) ≠ 2 by decide) (by decide +kernel)
    (by decide +kernel)

end ViTools.UdpTimeoutChecker
