import ViTools.Fstest.Accounting
import ViTools.Fstest.File

/-!
# What the verdict of fstest says

The checksums of a run that reaches the final check are a ledger of the tested file: the pre-read
enters the bytes it finds, every `insert_block` swaps the bytes it reads for the bytes it writes, and
the final cleanup takes everything out again. `exit_sums` is the balance of that ledger against any
contents `E` one may expect the file to have at the end of the pre-read.

Two choices of `E` give the two results.

* With the bytes the pre-read returned, the checksums are the deviations of the bytes read later from
  the bytes expected, whatever the file system does. The positions enter through their low eight bits
  only, so two equal deviations whose positions agree modulo 256 cancel.
* With the bytes of a correctly behaving file there are no deviations, and what remains is whether
  the pre-read entered the whole file. It does, unless `st_size` plus one block exceeds the range of
  `off_t`: then its limit comes out negative and nothing is pre-read.
-/

namespace ViTools.Fstest

open Access

section Balance

variable {p : Params} {env : Env} {exit : Exit}

/-- **The balance of a run.** The pre-read is a read of its range, and the final checksums are what it
entered, plus what the expected contents hold, plus the discrepancies. -/
theorem exit_sums (hsize : 0 ≤ p.size) (hrun : main p env = .ok exit) (hfinal : exit.verdict.isSome)
    (hzero : ∀ e ∈ exit.preread ++ exit.rest, ¬e.ZeroWrite)
    (hpre : ∀ q n errno, (p.size + p.max_blocksize < 2 ^ 63 → 0 ≤ q) → errno ≠ .EAGAIN →
      errno ≠ .EINTR → .pread q n (.error errno) ∉ exit.preread) :
    p.max_blocksize ≠ 0 ∧
    ReadsBlock 0 (sweep_end (sweep_size p env.st_size 1) p.max_blocksize) (accesses exit.preread) ∧
    ∀ E, (fun k ↦ XorByte.of (exit.xors k)) = booked contrib (accesses exit.preread)
      + held contrib (Finset.range (sweep_end p.size p.max_blocksize)) E
      + discrepancy contrib E (accesses exit.rest) := by
  obtain ⟨hblock, failed, m₁, m₂, hclean, hcheck, rfl⟩ := main_verdict hrun hfinal
  have hfields : (final_check m₁.trace m₂).preread = m₁.trace ∧
      (final_check m₁.trace m₂).rest = m₂.trace ∧
      (final_check m₁.trace m₂).xors = m₂.st.xors := by
    rw [final_check]
    split <;> exact ⟨rfl, rfl, rfl⟩
  obtain ⟨hpr, hre, hxo⟩ := hfields
  rw [hpr, hre] at hzero
  rw [hpr] at hpre
  rw [hpr, hre, hxo]
  cases failed with
  | true =>
    obtain ⟨q, n, errno, hq, h1, h2, hmem⟩ := cleanup_failed hclean
    exact absurd hmem (hpre q n errno hq h1 h2)
  | false =>
    obtain ⟨⟨es, htr, hes⟩, hne⟩ := cleanup_ok hblock hclean
    have htr' : m₁.trace = es := by rw [htr]; rfl
    subst htr'
    obtain ⟨hsum, hread⟩ := hes fun e he ↦ hzero e (List.mem_append_left _ he)
    obtain ⟨fs, hfs, hrest⟩ := check_ok hsize hblock hcheck
    have hfs' : m₂.trace = fs := by rw [hfs]; rfl
    subst hfs'
    obtain ⟨hsum', k₁, k₂, hswaps, ⟨vs, hlen, rfl⟩, hk⟩ :=
      hrest fun e he ↦ hzero e (List.mem_append_right _ he)
    refine ⟨hne, hread, fun E ↦ ?_⟩
    have hbal := balance_swaps_reads contrib (k := vs.zipIdx 0) hswaps
      (by rw [addresses_zipIdx]; exact List.nodup_range')
      (by rw [addresses_zipIdx, hlen]; ext; simp) E
    rw [← hk, xor_neg_eq] at hbal
    have hstart : m₁.st.sums = booked contrib (accesses m₁.trace) := by
      rw [hsum]
      exact zero_add _
    calc m₂.st.sums = booked contrib (accesses m₁.trace) + booked contrib (accesses m₂.trace) := by
          rw [hsum', hstart]
      _ = booked contrib (accesses m₁.trace)
          + (booked contrib (accesses m₂.trace) + discrepancy contrib E (accesses m₂.trace))
          + discrepancy contrib E (accesses m₂.trace) := by
          rw [add_assoc, add_assoc, xor_add_self, add_zero]
      _ = _ := by rw [hbal]

/-- A run that reaches the final check prints `OK` if all checksums are zero, and `fail` if not. -/
theorem verdict_eq (hrun : main p env = .ok exit) (hfinal : exit.verdict.isSome) :
    exit.verdict = if ∀ k, exit.xors k = 0 then some .OK else some .fail := by
  obtain ⟨-, failed, m₁, m₂, -, -, rfl⟩ := main_verdict hrun hfinal
  rw [final_check]
  split <;> rfl

theorem verdict_eq_OK_iff (hrun : main p env = .ok exit) (hfinal : exit.verdict.isSome) :
    exit.verdict = some .OK ↔ ∀ k, exit.xors k = 0 := by
  rw [verdict_eq hrun hfinal]
  split <;> simp_all

theorem verdict_eq_fail_iff (hrun : main p env = .ok exit) (hfinal : exit.verdict.isSome) :
    exit.verdict = some .fail ↔ ¬∀ k, exit.xors k = 0 := by
  rw [verdict_eq hrun hfinal]
  split <;> simp_all

end Balance

/-! ## Deviations -/

/-- An access that stores the byte it reads. -/
def recordAccess : Access ℕ UInt8 → Access ℕ UInt8
  | .rd q v | .wr q v => .wr q v

/-- The byte the pre-read returned at each position, and 0 where it did not read. -/
def prereadBytes (preread : List Event) : ℕ → UInt8 :=
  Access.after (fun _ ↦ 0) ((accesses preread).map recordAccess)

/-- The bytes read, each with its position, as deviations from the bytes expected: a byte written is
expected from then on. -/
def deviations (E : ℕ → UInt8) : List (Access ℕ UInt8) → List (ℕ × UInt8)
  | [] => []
  | .rd q r :: l => (q, r ^^^ E q) :: deviations E l
  | .wr q w :: l => deviations (Function.update E q w) l

/-- The exclusive or of the deviations that count for checksum `k`: all of them for `k = 8`, and those
at positions with bit `k` set for `k < 8`. -/
def xorOver (k : Fin 9) : List (ℕ × UInt8) → UInt8
  | [] => 0
  | (q, d) :: l => (if k = 8 ∨ q / 2 ^ (k : ℕ) % 2 = 1 then d else 0) ^^^ xorOver k l

/-- The wrong reads among the deviations. -/
def wrongReads (l : List (ℕ × UInt8)) : List (ℕ × UInt8) := l.filter fun d ↦ d.2 ≠ 0

theorem of_xorOver_cons (k : Fin 9) (q : ℕ) (d : UInt8) (l : List (ℕ × UInt8)) :
    XorByte.of (xorOver k ((q, d) :: l)) = contrib q d k + XorByte.of (xorOver k l) := by
  rw [xorOver, XorByte.of_xor, contrib]
  split <;> rfl

theorem discrepancy_eq_xorOver (E : ℕ → UInt8) (l : List (Access ℕ UInt8)) :
    discrepancy contrib E l = fun k ↦ XorByte.of (xorOver k (deviations E l)) := by
  induction l generalizing E with
  | nil => rfl
  | cons x l ih =>
    cases x with
    | rd q r =>
      rw [discrepancy, ih, xor_sub_eq_add, ← contrib_xor]
      funext k
      rw [deviations, of_xorOver_cons, Pi.add_apply]
    | wr q w => exact ih _

theorem xorOver_wrongReads (k : Fin 9) (l : List (ℕ × UInt8)) :
    xorOver k (wrongReads l) = xorOver k l := by
  induction l with
  | nil => rfl
  | cons p l ih =>
    obtain ⟨q, d⟩ := p
    by_cases hd : d = 0
    · subst hd
      rw [wrongReads, List.filter_cons_of_neg (by simp), ← wrongReads, ih, xorOver, ite_self,
        UInt8.zero_xor]
    · rw [wrongReads, List.filter_cons_of_pos (by simpa using hd), ← wrongReads, xorOver, ih, xorOver]

theorem ne_zero_of_mem_wrongReads {l : List (ℕ × UInt8)} {q : ℕ} {d : UInt8}
    (h : (q, d) ∈ wrongReads l) : d ≠ 0 := by simpa using (List.mem_filter.mp h).2

/-- What the pre-read entered into the checksums is what the bytes it returned hold. -/
theorem booked_preread {n m : ℕ} (hmn : m ≤ n) {preread : List Event}
    (h : ReadsBlock 0 m (accesses preread)) :
    booked contrib (accesses preread) = held contrib (Finset.range n) (prereadBytes preread) := by
  obtain ⟨vs, hlen, hk⟩ := h
  have hrec : ∀ l : List (UInt8 × ℕ), (reads l).map recordAccess = writes l := fun l ↦ by
    rw [reads, writes, List.map_map]
    rfl
  have haddr := addresses_zipIdx vs 0
  have hzero : held contrib (Finset.range n) (fun _ ↦ 0) = 0 :=
    Finset.sum_eq_zero fun q _ ↦ contrib_zero q
  have hold : ((vs.zipIdx 0).map fun p ↦ contrib p.2 0).sum = 0 :=
    List.sum_eq_zero fun x hx ↦ by
      obtain ⟨p, -, rfl⟩ := List.mem_map.mp hx
      exact contrib_zero _
  rw [prereadBytes, hk, hrec, held_after_writes contrib (by rw [haddr]; exact List.nodup_range')
    (fun a ha ↦ by rw [haddr, List.mem_range'_1] at ha; rw [Finset.mem_range]; omega), hzero, hold,
    booked_reads_zipIdx, zero_sub, neg_zero, zero_add]

/-! ## Which deviations cancel -/

theorem mod_256_eq_iff {q r : ℕ} :
    q % 256 = r % 256 ↔ ∀ k : Fin 9, k ≠ 8 → (q / 2 ^ (k : ℕ) % 2 = 1 ↔ r / 2 ^ (k : ℕ) % 2 = 1) := by
  have hlow : ∀ x k : ℕ, (x % 256).testBit k = (decide (k < 8) && decide (x / 2 ^ k % 2 = 1)) :=
    fun x k ↦ by
      rw [show 256 = 2 ^ 8 from rfl, Nat.testBit_mod_two_pow, Nat.testBit_eq_decide_div_mod_eq]
  constructor
  · intro h k hk
    have hk8 : (k : ℕ) < 8 := by omega
    have hbit := congrArg (Nat.testBit · k) h
    simpa only [hlow, hk8, decide_true, Bool.true_and, decide_eq_decide] using hbit
  · intro h
    refine Nat.eq_of_testBit_eq fun k ↦ ?_
    rw [hlow, hlow]
    by_cases hk : k < 8
    · have hbit := h ⟨k, by omega⟩ (by rw [ne_eq, Fin.ext_iff]; exact hk.ne)
      simp only [hbit]
    · simp [hk]

/-- Two nonzero deviations cancel in every checksum exactly if they are equal and their positions have
the same low eight bits. -/
theorem xorOver_pair_eq_zero {q₁ q₂ : ℕ} {d₁ d₂ : UInt8} (h₁ : d₁ ≠ 0) :
    (∀ k, xorOver k [(q₁, d₁), (q₂, d₂)] = 0) ↔ d₁ = d₂ ∧ q₁ % 256 = q₂ % 256 := by
  have hpair : ∀ k, xorOver k [(q₁, d₁), (q₂, d₂)] = 0 ↔
      (if k = 8 ∨ q₁ / 2 ^ (k : ℕ) % 2 = 1 then d₁ else 0)
        = (if k = 8 ∨ q₂ / 2 ^ (k : ℕ) % 2 = 1 then d₂ else 0) := fun k ↦ by
    rw [xorOver, xorOver, xorOver, UInt8.xor_zero, UInt8.xor_eq_zero_iff]
  simp only [hpair]
  constructor
  · intro h
    have hd : d₁ = d₂ := by simpa using h 8
    subst hd
    refine ⟨rfl, mod_256_eq_iff.mpr fun k hk ↦ ?_⟩
    have := h k
    simp only [hk, false_or] at this
    by_cases hb₁ : q₁ / 2 ^ (k : ℕ) % 2 = 1 <;> by_cases hb₂ : q₂ / 2 ^ (k : ℕ) % 2 = 1 <;> simp_all
  · rintro ⟨rfl, hmod⟩ k
    by_cases hk : k = 8
    · simp [hk]
    · simp only [hk, false_or, mod_256_eq_iff.mp hmod k hk]

/-! ## What fstest detects -/

/-- **Detection.** On any file system, the final checksums of a run without hard errors and zero
writes are the exclusive ors of the deviations of the bytes read after the pre-read. One wrong read
always shows, and two wrong reads go unnoticed exactly if their deviations are equal and their
positions agree modulo 256. -/
theorem main_xors_eq_xorOver {p : Params} {env : Env} {exit : Exit} (hsize : 0 ≤ p.size)
    (hrun : main p env = .ok exit) (hfinal : exit.verdict.isSome)
    (hclean : ∀ e ∈ exit.preread ++ exit.rest, ¬e.HardError ∧ ¬e.ZeroWrite) :
    let ds := deviations (prereadBytes exit.preread) (accesses exit.rest)
    (∀ k, exit.xors k = xorOver k ds) ∧
      ((wrongReads ds).length = 1 → exit.verdict = some .fail) ∧
      ∀ q₁ d₁ q₂ d₂, wrongReads ds = [(q₁, d₁), (q₂, d₂)] →
        (exit.verdict = some .OK ↔ d₁ = d₂ ∧ q₁ % 256 = q₂ % 256) := by
  intro ds
  obtain ⟨-, hread, hbal⟩ := exit_sums hsize hrun hfinal (fun e he ↦ (hclean e he).2)
    fun q n errno _ h1 h2 hmem ↦ (hclean _ (List.mem_append_left _ hmem)).1 ⟨h1, h2⟩
  have hxors : ∀ k, exit.xors k = xorOver k ds := fun k ↦ by
    have hk := congrFun (hbal (prereadBytes exit.preread)) k
    rwa [← booked_preread (sweep_end_mono _ (sweep_size_le p _ _)) hread, xor_add_self, zero_add,
      discrepancy_eq_xorOver, XorByte.of_inj] at hk
  refine ⟨hxors, fun hone ↦ ?_, fun q₁ d₁ q₂ d₂ htwo ↦ ?_⟩
  · obtain ⟨⟨q, d⟩, hqd⟩ := List.length_eq_one_iff.mp hone
    refine (verdict_eq_fail_iff hrun hfinal).mpr fun hall ↦ ?_
    have hd : d ≠ 0 := ne_zero_of_mem_wrongReads (hqd ▸ List.mem_singleton_self _)
    have h8 := hall 8
    rw [hxors, ← xorOver_wrongReads, hqd, xorOver, xorOver, UInt8.xor_zero, if_pos (.inl rfl)] at h8
    exact hd h8
  · have hd₁ : d₁ ≠ 0 := ne_zero_of_mem_wrongReads (htwo ▸ List.mem_cons_self)
    rw [verdict_eq_OK_iff hrun hfinal, ← xorOver_pair_eq_zero hd₁]
    simp only [hxors, ← xorOver_wrongReads _ ds, htwo]

/-! ### Concrete runs -/

/-- Three bytes in blocks of at most two, with one chain. -/
private def smallParams : Params where
  size := 3
  num_iterations := 1
  max_blocksize := 2
  max_chainlen := 2
  sync_part := 0
  size_off64 := three_off64

/-- An opened file and a random source, with the answers they give. -/
private def answers (st_size : ℤ) (script : List Reply) : Env where
  file_opens := true
  random_opens := true
  st_size := st_size
  interrupted _ := false
  garbage _ := 0
  script := script

/-- A file that starts with 5 and 9; a chain of two blocks of one byte 7 is written at position 1,
with short and interrupted transfers. The last read of position 2 returns `r`. -/
private def smallEnv (r : UInt8) : Env := answers 2
  [.ok [5], .ok [9], .ok [],
    .ok [1, 0, 0, 0, 0, 0, 0, 0], .ok [1, 0, 0, 0], .ok [1, 0, 0, 0, 0, 0, 0, 0], .ok [2], .ok [7],
    .ok [9], .error .EINTR, .ok [0], .ok [], .ok [0],
    .ok [5, 7], .ok [r], .ok []]

/-- The calls of the pre-read of `smallEnv`. -/
private def smallPreread : List Event :=
  [.pread 0 2 (.ok [5]), .pread 1 1 (.ok [9]), .pread 2 2 (.ok [])]

/-- The calls of `smallEnv` after the pre-read. -/
private def smallRest (r : UInt8) : List Event :=
  [.read 8 (.ok [1, 0, 0, 0, 0, 0, 0, 0]), .read 4 (.ok [1, 0, 0, 0]),
    .read 8 (.ok [1, 0, 0, 0, 0, 0, 0, 0]), .read 1 (.ok [2]), .read 1 (.ok [7]),
    .pread 1 1 (.ok [9]), .pwrite 1 [7] (.error .EINTR), .pwrite 1 [7] (.ok [7]),
    .pread 2 1 (.ok []), .pwrite 2 [7] (.ok [7]),
    .pread 0 2 (.ok [5, 7]), .pread 2 2 (.ok [r]), .pread 3 1 (.ok [])]

private theorem main_smallEnv_wrong : (main smallParams (smallEnv 6)).map
    (fun exit ↦ (exit.verdict, exit.preread, exit.rest))
      = .ok (some .fail, smallPreread, smallRest 6) := by decide +kernel

private theorem main_smallEnv_right : (main smallParams (smallEnv 7)).map
    (fun exit ↦ (exit.verdict, exit.preread, exit.rest))
      = .ok (some .OK, smallPreread, smallRest 7) := by decide +kernel

/-- One byte read wrong, as 6 instead of 7. -/
theorem main_xors_eq_xorOver_wrong : ∃ exit, main smallParams (smallEnv 6) = .ok exit ∧
    (∀ k, exit.xors k = xorOver k [(1, 0), (2, 0), (0, 0), (1, 0), (2, 1), (3, 0)]) ∧
    exit.verdict = some .fail := by
  obtain ⟨exit, hrun, hexit⟩ := exceptMap_eq_ok.mp main_smallEnv_wrong
  simp only [Prod.mk.injEq] at hexit
  obtain ⟨hverdict, hpre, hrest⟩ := hexit
  have hclean : ∀ e ∈ exit.preread ++ exit.rest, ¬e.HardError ∧ ¬e.ZeroWrite := by
    rw [hpre, hrest]
    simp [smallPreread, smallRest, Event.HardError, Event.ZeroWrite]
  have hmain := main_xors_eq_xorOver (by decide) hrun (by rw [hverdict]; rfl) hclean
  have hds : deviations (prereadBytes exit.preread) (accesses exit.rest)
      = [(1, 0), (2, 0), (0, 0), (1, 0), (2, 1), (3, 0)] := by
    rw [hpre, hrest]
    decide +kernel
  rw [hds] at hmain
  exact ⟨exit, hrun, hmain.1, hmain.2.1 (by decide)⟩

/-- With a negative size nothing is swept. A chain of one block is then still in the checksums at the
end, although every byte read was the byte expected. -/
theorem main_negative_size : ∃ (p : Params) (env : Env) (exit : Exit), p.size = -5 ∧
    main p env = .ok exit ∧ exit.verdict = some .fail ∧
    (∀ e ∈ exit.preread ++ exit.rest, ¬e.HardError ∧ ¬e.ZeroWrite) ∧
    wrongReads (deviations (prereadBytes exit.preread) (accesses exit.rest)) = [] ∧
    exit.xors 8 ≠ xorOver 8 (deviations (prereadBytes exit.preread) (accesses exit.rest)) := by
  let p : Params :=
    { size := -5, num_iterations := 1, max_blocksize := 2, max_chainlen := 1, sync_part := 0 }
  let env := answers 0
    [.ok [0, 0, 0, 0, 0, 0, 0, 0], .ok [0, 0, 0, 0], .ok [1, 0, 0, 0, 0, 0, 0, 0], .ok [2], .ok [7],
      .ok [], .ok [0]]
  have hmain : (main p env).map (fun exit ↦ (exit.verdict, exit.xors 8, exit.preread, exit.rest))
      = .ok (some .fail, 7, [],
        [.read 8 (.ok [0, 0, 0, 0, 0, 0, 0, 0]), .read 4 (.ok [0, 0, 0, 0]),
          .read 8 (.ok [1, 0, 0, 0, 0, 0, 0, 0]), .read 1 (.ok [2]), .read 1 (.ok [7]),
          .pread 0 1 (.ok []), .pwrite 0 [7] (.ok [7])]) := by decide +kernel
  obtain ⟨exit, hrun, hexit⟩ := exceptMap_eq_ok.mp hmain
  simp only [Prod.mk.injEq] at hexit
  obtain ⟨hverdict, hxor, hpre, hrest⟩ := hexit
  refine ⟨p, env, exit, rfl, hrun, hverdict, ?_, ?_, ?_⟩
  · rw [hpre, hrest]
    simp [Event.HardError, Event.ZeroWrite]
  · rw [hpre, hrest]
    decide +kernel
  · rw [hxor, hpre, hrest]
    decide +kernel

/-! ## No false alarm -/

/-- The bytes past the pre-read of a file whose limit does not overflow are zero, or the pre-read
covers as much as the final cleanup. -/
theorem held_preread {p : Params} {f : File} (hne : p.max_blocksize ≠ 0)
    (hlen : f.len + p.max_blocksize < 2 ^ 63) :
    held contrib (Finset.range (sweep_end (sweep_size p f.len 1) p.max_blocksize)) f.byte
      = held contrib (Finset.range (sweep_end p.size p.max_blocksize)) f.byte := by
  have hwrap : wrap64 ((f.len : ℤ) + p.max_blocksize) = f.len + p.max_blocksize :=
    wrap64_eq_self (by omega) (by omega)
  simp only [sweep_size, if_true, hwrap]
  split
  · rfl
  · next hle =>
    have hend : (f.len : ℤ) + p.max_blocksize < sweep_end (f.len + p.max_blocksize) p.max_blocksize :=
      lt_sweep_end (by omega) hne
    refine Finset.sum_subset (Finset.range_subset_range.mpr (sweep_end_mono _ (by omega)))
      fun q _ hq ↦ ?_
    rw [Finset.mem_range, not_lt] at hq
    rw [f.byte_eq_zero q (by omega), contrib_zero]

/-- **No false alarm, and the one exception.** On a correctly behaving file, a run that reaches the
final check has all checksums zero and prints `OK` exactly if the length of the file plus one block
is in the range of `off_t`, or else the file as it was at first has zero checksums. -/
theorem main_OK_iff {p : Params} {env : Env} {exit : Exit} {f : File} (hsize : 1 ≤ p.size)
    (hfit : p.size + p.max_blocksize < 2 ^ 63) (hlen : f.len < 2 ^ 63) (hstat : env.st_size = f.len)
    (hrun : main p env = .ok exit) (hcorrect : Correct f (exit.preread ++ exit.rest))
    (hfinal : exit.verdict.isSome) :
    ((∀ k, exit.xors k = 0) ∧ exit.verdict = some .OK) ↔
      (f.len + p.max_blocksize < 2 ^ 63 ∨
        ∀ k, f.checksum (sweep_end p.size p.max_blocksize) k = 0) := by
  obtain ⟨hpre, hrest⟩ := correct_append.mp hcorrect
  obtain ⟨hne, ⟨vs, hvs, hread⟩, hbal⟩ := exit_sums (by omega) hrun hfinal
    (hcorrect.forall_mem fun _ _ he ↦ he.not_zeroWrite) fun q n errno hq h1 h2 hmem ↦ by
      refine hpre.forall_mem (P := fun e ↦ e ≠ .pread q n (.error errno)) (fun f' e he heq ↦ ?_) _
        hmem rfl
      subst heq
      exact (he.pread_error (hq hfit)).elim h1 h2
  -- what the pre-read entered is what the file holds in its range
  have hentered : booked contrib (accesses exit.preread)
      = held contrib (Finset.range (sweep_end (sweep_size p f.len 1) p.max_blocksize)) f.byte := by
    have h := balance_reads contrib (S := Finset.range vs.length) (l := vs.zipIdx 0)
      (by rw [addresses_zipIdx]; exact List.nodup_range') (by rw [addresses_zipIdx]; ext; simp) f.byte
    rwa [← hread, hpre.accesses.1, add_zero, xor_neg_eq, hvs, hstat] at h
  have hfile : (f.afterAll exit.preread).byte = f.byte := by
    rw [← hpre.accesses.2, hread, after_reads]
  have hsums := hbal (f.afterAll exit.preread).byte
  rw [hrest.accesses.1, add_zero, hfile, hentered] at hsums
  have hzero : (∀ k, exit.xors k = 0) ↔ (fun k ↦ XorByte.of (exit.xors k)) = 0 := funext_iff.symm
  rw [← verdict_eq_OK_iff hrun hfinal, and_self, verdict_eq_OK_iff hrun hfinal, hzero, hsums]
  by_cases hover : f.len + p.max_blocksize < 2 ^ 63
  · rw [held_preread hne hover, xor_add_self]
    exact ⟨fun _ ↦ .inl hover, fun _ ↦ rfl⟩
  · -- the limit of the pre-read is negative: nothing was entered
    have hneg : sweep_size p f.len 1 < 0 := by
      have hblk := (main_verdict hrun hfinal).1
      have hwrap := wrap64_eq_sub (x := (f.len : ℤ) + p.max_blocksize) (by omega) (by omega)
      simp only [sweep_size, if_true]
      split <;> omega
    have hnone : held contrib (Finset.range (sweep_end (sweep_size p f.len 1) p.max_blocksize)) f.byte
        = 0 := by
      rw [sweep_end, if_pos hneg]
      rfl
    rw [hnone, zero_add, ← sums_checksum]
    exact ⟨fun h ↦ .inr (funext_iff.mp h), fun h ↦ h.elim (absurd · hover) funext⟩

/-- A file with the bytes 5 and 9. -/
private def smallFile : File where
  len := 2
  byte q := if q = 0 then 5 else if q = 1 then 9 else 0
  byte_eq_zero q hq := by rw [if_neg (by omega), if_neg (by omega)]

/-- A run on a correct file, with short and interrupted transfers and a hole. -/
theorem main_OK_small : ∃ exit, main smallParams (smallEnv 7) = .ok exit ∧
    (∀ k, exit.xors k = 0) ∧ exit.verdict = some .OK := by
  obtain ⟨exit, hrun, hexit⟩ := exceptMap_eq_ok.mp main_smallEnv_right
  simp only [Prod.mk.injEq] at hexit
  obtain ⟨hverdict, hpre, hrest⟩ := hexit
  have hcorrect : Correct smallFile (exit.preread ++ exit.rest) := by
    rw [hpre, hrest]
    simp only [smallPreread, smallRest, List.cons_append, List.nil_append, Correct, Event.Correct]
    decide +kernel
  exact ⟨exit, hrun, (main_OK_iff (f := smallFile) (by decide) (by decide) (by decide) rfl hrun hcorrect (by rw [hverdict]; rfl)).mpr (.inl (by decide))⟩

/-- A sparse file of the greatest length there is, with a single byte 1 at its start. -/
private def hugeFile : File where
  len := 2 ^ 63 - 1
  byte q := if q = 0 then 1 else 0
  byte_eq_zero q hq := if_neg (by omega)

/-- On the greatest possible file the pre-read is skipped, and a run without any iteration ends in
`fail` although the file behaves correctly. -/
theorem main_false_alarm : ∃ (p : Params) (env : Env) (exit : Exit) (f : File), 1 ≤ p.size ∧
    1 ≤ p.max_blocksize ∧ 1 ≤ p.max_chainlen ∧ p.size + p.max_blocksize < 2 ^ 63 ∧
    f.len < 2 ^ 63 ∧ env.st_size = f.len ∧ main p env = .ok exit ∧
    Correct f (exit.preread ++ exit.rest) ∧ exit.xors 8 = 1 ∧ exit.verdict = some .fail := by
  let p : Params :=
    { size := 1, num_iterations := 0, max_blocksize := 1, max_chainlen := 1, sync_part := 0 }
  let env := answers (2 ^ 63 - 1) [.ok [1], .ok [0]]
  have hmain : (main p env).map (fun exit ↦ (exit.verdict, exit.xors 8, exit.preread, exit.rest))
      = .ok (some .fail, 1, [], [.pread 0 1 (.ok [1]), .pread 1 1 (.ok [0])]) := by decide +kernel
  obtain ⟨exit, hrun, hexit⟩ := exceptMap_eq_ok.mp hmain
  simp only [Prod.mk.injEq] at hexit
  obtain ⟨hverdict, hxor, hpre, hrest⟩ := hexit
  refine ⟨p, env, exit, hugeFile, by decide, by decide, by decide, by decide, by decide, rfl, hrun,
    ?_, hxor, hverdict⟩
  rw [hpre, hrest]
  exact ⟨⟨by decide, by decide, rfl⟩, ⟨by decide, by decide, rfl⟩, trivial⟩

end ViTools.Fstest
