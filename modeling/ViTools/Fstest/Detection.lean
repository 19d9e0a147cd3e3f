import ViTools.Fstest.Verdict
import ViTools.Lib.ParityCode
import Mathlib.Algebra.BigOperators.Group.Finset.Piecewise

/-!
# How many wrong reads fstest can miss

The nine checksums are the parity checks of the deviations, taken by their positions modulo 256: the
deviations at positions that agree modulo 256 merge into one *class*, and the checks are those of an
extended Hamming code over the 256 classes. So what is missed depends only on the classes whose
deviations do not cancel, and no run with one, two or three of them is missed.

The checksums also say more than the verdict: of the runs with at most two wrong classes they tell the
ones with a single wrong class apart, and give its positions modulo 256 and its deviation.
-/

namespace ViTools.Fstest

open Access ParityCode

/-- The exclusive or of the deviations at positions that are `r` modulo 256. -/
def classXor (r : ℕ) : List (ℕ × UInt8) → UInt8
  | [] => 0
  | (q, d) :: l => (if q % 256 = r then d else 0) ^^^ classXor r l

/-- The classes whose deviations do not cancel. -/
def wrongClasses (l : List (ℕ × UInt8)) : Finset ℕ :=
  (Finset.range 256).filter fun r ↦ classXor r l ≠ 0

/-- The deviations by class, in the group of bytes under exclusive or. -/
def pattern (l : List (ℕ × UInt8)) (r : ℕ) : XorByte := .of (classXor r l)

/-- The class the first eight checksums point to. -/
def located (xors : Fin 9 → UInt8) : ℕ := Nat.ofBits fun k : Fin 8 ↦ decide (xors k.castSucc ≠ 0)

theorem pattern_cons (q : ℕ) (d : UInt8) (l : List (ℕ × UInt8)) (r : ℕ) :
    pattern ((q, d) :: l) r = (if q % 256 = r then XorByte.of d else 0) + pattern l r := by
  rw [pattern, classXor, XorByte.of_xor, ← pattern]
  split <;> rfl

theorem pattern_eq_zero_iff {l : List (ℕ × UInt8)} {r : ℕ} : pattern l r = 0 ↔ classXor r l = 0 :=
  XorByte.of_inj

theorem mem_wrongClasses {l : List (ℕ × UInt8)} {r : ℕ} :
    r ∈ wrongClasses l ↔ r < 256 ∧ classXor r l ≠ 0 := by
  rw [wrongClasses, Finset.mem_filter, Finset.mem_range]

theorem lt_of_mem_wrongClasses {l : List (ℕ × UInt8)} : ∀ r ∈ wrongClasses l, r < 2 ^ 8 :=
  fun _ hr ↦ (mem_wrongClasses.mp hr).1

theorem pattern_ne_zero {l : List (ℕ × UInt8)} : ∀ r ∈ wrongClasses l, pattern l r ≠ 0 :=
  fun _ hr h ↦ (mem_wrongClasses.mp hr).2 (pattern_eq_zero_iff.mp h)

/-! ## The checksums are parity checks -/

theorem bit_set_iff (q k : ℕ) (hk : k < 8) : q / 2 ^ k % 2 = 1 ↔ (q % 256).testBit k = true := by
  rw [show 256 = 2 ^ 8 from rfl, Nat.testBit_mod_two_pow, Nat.testBit_eq_decide_div_mod_eq]
  simp [hk]

theorem of_xorOver (l : List (ℕ × UInt8)) (k : Fin 9) :
    XorByte.of (xorOver k l) = ∑ r ∈ (Finset.range 256).filter
      (fun r ↦ k = 8 ∨ r.testBit k = true), pattern l r := by
  induction l with
  | nil => exact (Finset.sum_eq_zero fun r _ ↦ rfl).symm
  | cons p l ih =>
    obtain ⟨q, d⟩ := p
    have hq : q % 256 < 256 := Nat.mod_lt q (by decide)
    have hbit : (k = 8 ∨ q / 2 ^ (k : ℕ) % 2 = 1) ↔ (k = 8 ∨ (q % 256).testBit k = true) := by
      by_cases hk : k = 8
      · simp [hk]
      · rw [bit_set_iff q k (by omega)]
    simp only [pattern_cons, Finset.sum_add_distrib, ← ih, Finset.sum_ite_eq, Finset.mem_filter,
      Finset.mem_range, hq, true_and]
    rw [xorOver, XorByte.of_xor]
    simp only [hbit]
    split <;> rfl

theorem xorOver_eq_parity (l : List (ℕ × UInt8)) (k : Fin 8) :
    XorByte.of (xorOver k.castSucc l) = parity (pattern l) (wrongClasses l) k := by
  have hk : (k.castSucc : Fin 9) ≠ 8 := by
    rw [ne_eq, Fin.ext_iff]
    exact k.isLt.ne
  rw [of_xorOver, parity]
  refine (Finset.sum_subset (fun r hr ↦ ?_) fun r hr hnot ↦ ?_).symm
  · obtain ⟨hr, hbit⟩ := mem_side.mp hr
    exact Finset.mem_filter.mpr ⟨Finset.mem_range.mpr (mem_wrongClasses.mp hr).1, .inr hbit⟩
  · rw [Finset.mem_filter, Finset.mem_range] at hr
    refine pattern_eq_zero_iff.mpr (by_contra fun hne ↦ hnot ?_)
    exact mem_side.mpr ⟨mem_wrongClasses.mpr ⟨hr.1, hne⟩, hr.2.resolve_left hk⟩

theorem xorOver_eq_total (l : List (ℕ × UInt8)) :
    XorByte.of (xorOver 8 l) = ∑ r ∈ wrongClasses l, pattern l r := by
  rw [of_xorOver]
  refine (Finset.sum_subset (fun r hr ↦ ?_) fun r hr hnot ↦ ?_).symm
  · exact Finset.mem_filter.mpr ⟨Finset.mem_range.mpr (mem_wrongClasses.mp hr).1, .inl rfl⟩
  · rw [Finset.mem_filter, Finset.mem_range] at hr
    exact pattern_eq_zero_iff.mpr (by_contra fun hne ↦ hnot (mem_wrongClasses.mpr ⟨hr.1, hne⟩))

theorem xorOver_eq_zero_iff_unseen (l : List (ℕ × UInt8)) :
    (∀ k, xorOver k l = 0) ↔ Unseen 8 (pattern l) (wrongClasses l) := by
  have hzero : ∀ k, xorOver k l = 0 ↔ XorByte.of (xorOver k l) = 0 := fun k ↦ XorByte.of_inj.symm
  constructor
  · intro h
    refine ⟨?_, fun k hk ↦ ?_⟩
    · rw [← xorOver_eq_total, ← hzero]
      exact h 8
    · have hcheck := xorOver_eq_parity l ⟨k, hk⟩
      rw [← hcheck, ← hzero]
      exact h _
  · rintro ⟨htotal, hcheck⟩ k
    rw [hzero]
    refine Fin.lastCases ?_ (fun k ↦ ?_) k
    · exact (xorOver_eq_total l).trans htotal
    · exact (xorOver_eq_parity l k).trans (hcheck k k.isLt)

/-! ## Wrong reads in different classes -/

theorem classXor_wrongReads (r : ℕ) (l : List (ℕ × UInt8)) :
    classXor r (wrongReads l) = classXor r l := by
  induction l with
  | nil => rfl
  | cons p l ih =>
    obtain ⟨q, d⟩ := p
    by_cases hd : d = 0
    · subst hd
      rw [wrongReads, List.filter_cons_of_neg (by simp), ← wrongReads, ih, classXor, ite_self,
        UInt8.zero_xor]
    · rw [wrongReads, List.filter_cons_of_pos (by simpa using hd), ← wrongReads, classXor, ih, classXor]

theorem classXor_ne_zero_iff {l : List (ℕ × UInt8)} (hnd : (l.map fun p ↦ p.1 % 256).Nodup)
    (hd : ∀ p ∈ l, p.2 ≠ 0) (r : ℕ) : classXor r l ≠ 0 ↔ r ∈ l.map fun p ↦ p.1 % 256 := by
  induction l with
  | nil => simp [classXor]
  | cons p l ih =>
    obtain ⟨q, d⟩ := p
    rw [List.map_cons, List.nodup_cons] at hnd
    rw [List.forall_mem_cons] at hd
    have hrest := ih hnd.2 hd.2
    rw [List.map_cons, List.mem_cons, classXor]
    by_cases hq : q % 256 = r
    · -- no other read is in this class
      have hzero : classXor r l = 0 := by
        by_contra hne
        exact hnd.1 (hq ▸ hrest.mp hne)
      rw [if_pos hq, hzero, UInt8.xor_zero]
      exact ⟨fun _ ↦ .inl hq.symm, fun _ ↦ hd.1⟩
    · rw [if_neg hq, UInt8.zero_xor, hrest, or_iff_right (Ne.symm hq)]

/-- Wrong reads no two of which are in one class make as many wrong classes. -/
theorem card_wrongClasses {l : List (ℕ × UInt8)}
    (hnd : ((wrongReads l).map fun p ↦ p.1 % 256).Nodup) :
    (wrongClasses l).card = (wrongReads l).length := by
  have heq : wrongClasses l = ((wrongReads l).map fun p ↦ p.1 % 256).toFinset := by
    ext r
    rw [mem_wrongClasses, ← classXor_wrongReads,
      classXor_ne_zero_iff hnd fun p hp ↦ ne_zero_of_mem_wrongReads hp, List.mem_toFinset]
    refine and_iff_right_of_imp fun hr ↦ ?_
    obtain ⟨p, -, rfl⟩ := List.mem_map.mp hr
    exact Nat.mod_lt _ (by decide)
  rw [heq, List.toFinset_card_of_nodup hnd, List.length_map]

theorem wrongClasses_singleton (q : ℕ) {d : UInt8} (hd : d ≠ 0) :
    wrongClasses [(q, d)] = {q % 256} ∧ classXor (q % 256) [(q, d)] = d := by
  refine ⟨?_, by rw [classXor, if_pos rfl, classXor, UInt8.xor_zero]⟩
  ext r
  rw [mem_wrongClasses, classXor, classXor, UInt8.xor_zero, Finset.mem_singleton]
  constructor
  · rintro ⟨-, hr⟩
    by_contra hne
    exact hr (if_neg (Ne.symm hne))
  · rintro rfl
    exact ⟨Nat.mod_lt q (by decide), by rwa [if_pos rfl]⟩

/-! ## What the checksums of a run say

Here the final checksums are taken over some list of deviations, whatever it stands for. -/

section Checksums

variable {p : Params} {env : Env} {exit : Exit} {ds : List (ℕ × UInt8)} (hrun : main p env = .ok exit)
  (hfinal : exit.verdict.isSome) (hxors : ∀ k, exit.xors k = xorOver k ds)
include hrun hfinal hxors

theorem verdict_eq_OK_iff_unseen :
    exit.verdict = some .OK ↔ Unseen 8 (pattern ds) (wrongClasses ds) := by
  rw [verdict_eq_OK_iff hrun hfinal, ← xorOver_eq_zero_iff_unseen]
  simp only [hxors]

theorem wrongClasses_of_OK (h : exit.verdict = some .OK) :
    wrongClasses ds = ∅ ∨ 4 ≤ (wrongClasses ds).card := by
  refine (wrongClasses ds).eq_empty_or_nonempty.imp_right fun hne ↦ ?_
  exact ((verdict_eq_OK_iff_unseen hrun hfinal hxors).mp h).four_le_card lt_of_mem_wrongClasses
    pattern_ne_zero hne

theorem fail_of_card (hpos : 1 ≤ (wrongClasses ds).card) (hthree : (wrongClasses ds).card ≤ 3) :
    exit.verdict = some .fail := by
  refine (verdict_eq_fail_iff hrun hfinal).mpr fun hall ↦ ?_
  rcases wrongClasses_of_OK hrun hfinal hxors ((verdict_eq_OK_iff hrun hfinal).mpr hall) with h | h
  · rw [h, Finset.card_empty] at hpos
    omega
  · omega

omit hrun hfinal in
theorem of_xors_eq_total : XorByte.of (exit.xors 8) = ∑ r ∈ wrongClasses ds, pattern ds r :=
  (congrArg XorByte.of (hxors 8)).trans (xorOver_eq_total ds)

omit hrun hfinal in
theorem of_xors_eq_parity (k : Fin 8) :
    XorByte.of (exit.xors k.castSucc) = parity (pattern ds) (wrongClasses ds) k :=
  (congrArg XorByte.of (hxors k.castSucc)).trans (xorOver_eq_parity ds k)

omit hrun hfinal in
/-- The checksums of a single wrong class give the class and its deviation. -/
theorem located_eq {r : ℕ} (hr : wrongClasses ds = {r}) :
    located exit.xors = r ∧ exit.xors 8 = classXor r ds := by
  have hmem : r ∈ wrongClasses ds := hr ▸ Finset.mem_singleton_self r
  have htotal := of_xors_eq_total hxors
  rw [hr, Finset.sum_singleton] at htotal
  have hbits : (fun k : Fin 8 ↦ decide (exit.xors k.castSucc ≠ 0))
      = fun k : Fin 8 ↦ decide (parity (pattern ds) {r} k ≠ 0) := by
    funext k
    refine decide_eq_decide.mpr (not_congr ?_)
    rw [← hr, ← of_xors_eq_parity hxors]
    rfl
  refine ⟨?_, htotal⟩
  rw [located, hbits]
  exact ofBits_parity_singleton (lt_of_mem_wrongClasses r hmem) (pattern_ne_zero r hmem)

omit hrun hfinal in
theorem card_wrongClasses_eq_one_iff (htwo : (wrongClasses ds).card ≤ 2) :
    (wrongClasses ds).card = 1 ↔
      exit.xors 8 ≠ 0 ∧ ∀ k, exit.xors k = 0 ∨ exit.xors k = exit.xors 8 := by
  rw [card_eq_one_iff lt_of_mem_wrongClasses pattern_ne_zero htwo, ← of_xors_eq_total hxors]
  refine and_congr_right fun h8 ↦ ⟨fun h k ↦ ?_, fun h k hk ↦ ?_⟩
  · refine Fin.lastCases (.inr rfl) (fun k ↦ ?_) k
    have hk := h k k.isLt
    rw [← of_xors_eq_parity hxors] at hk
    exact hk
  · have hk' := of_xors_eq_parity hxors ⟨k, hk⟩
    rw [← hk']
    exact h _

end Checksums

/-! ## Runs -/

/-- The final checksums of a run without hard errors and zero writes are taken over its deviations. -/
theorem exit_xors_eq {p : Params} {env : Env} {exit : Exit} (hsize : 0 ≤ p.size)
    (hrun : main p env = .ok exit) (hfinal : exit.verdict.isSome)
    (hclean : ∀ e ∈ exit.preread ++ exit.rest, ¬e.HardError ∧ ¬e.ZeroWrite) (k : Fin 9) :
    exit.xors k = xorOver k (deviations (prereadBytes exit.preread) (accesses exit.rest)) := by
  obtain ⟨-, hread, hbal⟩ := exit_sums hsize hrun hfinal (fun e he ↦ (hclean e he).2)
    fun q n errno _ h1 h2 hmem ↦ (hclean _ (List.mem_append_left _ hmem)).1 ⟨h1, h2⟩
  have hk := congrFun (hbal (prereadBytes exit.preread)) k
  rwa [← booked_preread (sweep_end_mono _ (sweep_size_le p _ _)) hread, xor_add_self, zero_add,
    discrepancy_eq_xorOver, XorByte.of_inj] at hk

/-- **Distance four.** A run is missed only if no class or at least four classes are wrong; one to three
wrong reads in different classes end in `fail`; and with exactly four wrong classes a run is missed if
and only if their deviations are the same and each of the eight bits is set in an even number of them. -/
theorem main_distance_four {p : Params} {env : Env} {exit : Exit} (hsize : 0 ≤ p.size)
    (hrun : main p env = .ok exit) (hfinal : exit.verdict.isSome)
    (hclean : ∀ e ∈ exit.preread ++ exit.rest, ¬e.HardError ∧ ¬e.ZeroWrite) :
    let ds := deviations (prereadBytes exit.preread) (accesses exit.rest)
    (exit.verdict = some .OK → wrongClasses ds = ∅ ∨ 4 ≤ (wrongClasses ds).card) ∧
      (1 ≤ (wrongReads ds).length → (wrongReads ds).length ≤ 3 →
        ((wrongReads ds).map fun d ↦ d.1 % 256).Nodup → exit.verdict = some .fail) ∧
      ((wrongClasses ds).card = 4 → (exit.verdict = some .OK ↔
        (∃ d, ∀ r ∈ wrongClasses ds, classXor r ds = d) ∧
          ∀ k < 8, Even ((wrongClasses ds).filter fun r ↦ r.testBit k).card)) := by
  intro ds
  have hxors := exit_xors_eq hsize hrun hfinal hclean
  refine ⟨wrongClasses_of_OK hrun hfinal hxors, fun hpos hthree hnd ↦ ?_, fun hfour ↦ ?_⟩
  · have hcard := card_wrongClasses hnd
    exact fail_of_card hrun hfinal hxors (hcard ▸ hpos) (hcard ▸ hthree)
  · exact (verdict_eq_OK_iff_unseen hrun hfinal hxors).trans
      (unseen_iff_of_card_eq_four XorByte.add_self lt_of_mem_wrongClasses pattern_ne_zero hfour)

/-- **Locating a wrong class.** Of the runs with at most two wrong classes, those with a single one are
the runs in which `xors[8]` is not zero and every other checksum is zero or equal to it. The checksums
then give the class and its deviation. -/
theorem main_locates {p : Params} {env : Env} {exit : Exit} (hsize : 0 ≤ p.size)
    (hrun : main p env = .ok exit) (hfinal : exit.verdict.isSome)
    (hclean : ∀ e ∈ exit.preread ++ exit.rest, ¬e.HardError ∧ ¬e.ZeroWrite) :
    let ds := deviations (prereadBytes exit.preread) (accesses exit.rest)
    ((wrongClasses ds).card ≤ 2 → ((wrongClasses ds).card = 1 ↔
      exit.xors 8 ≠ 0 ∧ ∀ k, exit.xors k = 0 ∨ exit.xors k = exit.xors 8)) ∧
      ∀ r, wrongClasses ds = {r} → located exit.xors = r ∧ exit.xors 8 = classXor r ds := by
  intro ds
  have hxors := exit_xors_eq hsize hrun hfinal hclean
  exact ⟨card_wrongClasses_eq_one_iff hxors, fun r hr ↦ located_eq hxors hr⟩

/-! ### Concrete runs -/

/-- Four bytes in one block, and no iterations. -/
private def fourParams : Params where
  size := 3
  num_iterations := 0
  max_blocksize := 4
  max_chainlen := 1
  sync_part := 0
  size_off64 := three_off64

/-- A file of the bytes 1, 2, 3 and 4, which the final sweep reads as `last`. -/
private def fourEnv (last : List UInt8) : Env where
  file_opens := true
  random_opens := true
  st_size := 4
  interrupted _ := false
  garbage _ := 0
  script := [.ok [1, 2, 3, 4], .ok last]

private theorem main_fourEnv_flipped : (main fourParams (fourEnv [0, 3, 2, 5])).map
    (fun exit ↦ (exit.verdict, exit.preread, exit.rest))
      = .ok (some .OK, [.pread 0 4 (.ok [1, 2, 3, 4])], [.pread 0 4 (.ok [0, 3, 2, 5])]) := by
  decide +kernel

private theorem main_fourEnv_wrong : (main fourParams (fourEnv [1, 2, 9, 4])).map
    (fun exit ↦ (exit.verdict, exit.preread, exit.rest))
      = .ok (some .fail, [.pread 0 4 (.ok [1, 2, 3, 4])], [.pread 0 4 (.ok [1, 2, 9, 4])]) := by
  decide +kernel

/-- The same bit read wrong at the positions 0 to 3 is missed. -/
theorem main_distance_four_flipped : ∃ exit, main fourParams (fourEnv [0, 3, 2, 5]) = .ok exit ∧
    exit.verdict = some .OK ∧
    wrongClasses (deviations (prereadBytes exit.preread) (accesses exit.rest)) = {0, 1, 2, 3} := by
  obtain ⟨exit, hrun, hexit⟩ := exceptMap_eq_ok.mp main_fourEnv_flipped
  simp only [Prod.mk.injEq] at hexit
  obtain ⟨hverdict, hpre, hrest⟩ := hexit
  have hclean : ∀ e ∈ exit.preread ++ exit.rest, ¬e.HardError ∧ ¬e.ZeroWrite := by
    rw [hpre, hrest]
    simp [Event.HardError, Event.ZeroWrite]
  have hmain := main_distance_four (by decide) hrun (by rw [hverdict]; rfl) hclean
  have hds : deviations (prereadBytes exit.preread) (accesses exit.rest)
      = [(0, 1), (1, 1), (2, 1), (3, 1)] := by
    rw [hpre, hrest]
    decide +kernel
  have hwrong : wrongClasses [(0, 1), (1, 1), (2, 1), (3, 1)] = {0, 1, 2, 3} := by decide +kernel
  rw [← hds] at hwrong
  refine ⟨exit, hrun, (hmain.2.2 (by rw [hwrong]; rfl)).mpr ⟨⟨1, ?_⟩, ?_⟩, hwrong⟩
  · rw [hwrong, hds]
    decide
  · rw [hwrong]
    decide

/-- One byte read wrong, as 9 instead of 3. -/
theorem main_locates_wrong : ∃ exit, main fourParams (fourEnv [1, 2, 9, 4]) = .ok exit ∧
    exit.verdict = some .fail ∧ located exit.xors = 2 ∧ exit.xors 8 = 10 := by
  obtain ⟨exit, hrun, hexit⟩ := exceptMap_eq_ok.mp main_fourEnv_wrong
  simp only [Prod.mk.injEq] at hexit
  obtain ⟨hverdict, hpre, hrest⟩ := hexit
  have hclean : ∀ e ∈ exit.preread ++ exit.rest, ¬e.HardError ∧ ¬e.ZeroWrite := by
    rw [hpre, hrest]
    simp [Event.HardError, Event.ZeroWrite]
  have hmain := main_locates (by decide) hrun (by rw [hverdict]; rfl) hclean
  have hds : deviations (prereadBytes exit.preread) (accesses exit.rest)
      = [(0, 0), (1, 0), (2, 10), (3, 0)] := by
    rw [hpre, hrest]
    decide +kernel
  rw [hds] at hmain
  obtain ⟨hlocated, htotal⟩ := hmain.2 2 (by decide +kernel)
  exact ⟨exit, hrun, hverdict, hlocated, htotal.trans (by decide)⟩

end ViTools.Fstest
