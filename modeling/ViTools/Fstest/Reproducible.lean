import ViTools.Fstest.Plan
import ViTools.Fstest.Errors
import Mathlib.Data.ENat.Basic

/-!
# The same random source, the same blocks

A source of random bytes is read from its start, in whatever pieces the kernel likes, and when it has come
to its end every read returns `0`. The program sees a stream that goes on with zeros forever: it counts a
read at the end as all the bytes it asked for, so what it has drawn and what was read part company
there, but only there.

A run draws the stream from its start and performs the plan of its iterations. So all it writes is
determined by its parameters, the number of its iterations and the source.
-/

namespace ViTools.Fstest

/-! ## Random sources -/

/-- A source of random bytes, which may come to an end. -/
structure Source where
  /-- How many bytes it has. -/
  len : ℕ∞
  /-- Its bytes. -/
  byte : ℕ → UInt8
  /-- There is nothing past the end. -/
  byte_eq_zero : ∀ i : ℕ, len ≤ i → byte i = 0

/-- The calls read a source of which `k` bytes have been read before. Any number of bytes may come at a
time, and none only at the end. -/
def FromSource (src : Source) : ℕ → List Event → Prop
  | _, [] => True
  | k, .read _ (.ok data) :: es =>
    (data = [] → src.len ≤ k) ∧ ((k + data.length : ℕ) : ℕ∞) ≤ src.len ∧
      data = stretch src.byte k data.length ∧ FromSource src (k + data.length) es
  | k, .read _ (.error _) :: es => FromSource src k es
  | k, .pread _ _ _ :: es => FromSource src k es
  | k, .pwrite _ _ _ :: es => FromSource src k es
  | k, .fsync :: es => FromSource src k es

/-- `k` bytes of the source are read when `q` bytes of the stream are drawn. -/
def Source.At (src : Source) (q k : ℕ) : Prop := q = k ∨ (src.len ≤ k ∧ src.len ≤ q)

theorem Source.stretch_eq_replicate (src : Source) {q : ℕ} (h : src.len ≤ q) (n : ℕ) :
    stretch src.byte q n = List.replicate n 0 := by
  refine List.eq_replicate_iff.mpr ⟨length_stretch .., fun b hb ↦ ?_⟩
  obtain ⟨i, hi, rfl⟩ := List.mem_map.mp hb
  rw [List.mem_range'_1] at hi
  exact src.byte_eq_zero i (h.trans (Nat.cast_le.mpr hi.1))

/-- What is drawn from a source is its stream. -/
theorem FromSource.drawn_eq {src : Source} {es : List Event} {q k : ℕ} (hat : src.At q k)
    (h : FromSource src k es) : drawn es = stretch src.byte q (drawn es).length := by
  induction es generalizing q k with
  | nil => rfl
  | cons e es ih =>
    rcases e with ⟨pos, len, reply⟩ | ⟨pos, data, reply⟩ | ⟨len, data | errno⟩ | _
    case pread | pwrite | read.error | fsync => exact ih hat h
    case read.ok =>
      obtain ⟨hempty, hle, hdata, hrest⟩ := h
      rw [drawn_cons, Event.drawn, List.length_append, stretch_add]
      split
      · next hnil =>
        -- at the end of the source
        subst hnil
        have hk : src.len ≤ k := hempty rfl
        have hq : src.len ≤ q := by
          rcases hat with rfl | hat
          · exact hk
          · exact hat.2
        have hat' : src.At (q + len) (k + 0) := .inr ⟨hk, hq.trans (Nat.cast_le.mpr (Nat.le_add_right ..))⟩
        rw [List.length_replicate, src.stretch_eq_replicate hq]
        exact congrArg _ (ih hat' hrest)
      · next hne =>
        have hpos : 0 < data.length := List.length_pos_iff.mpr hne
        have hqk : q = k := by
          rcases hat with hat | ⟨hk, -⟩
          · exact hat
          · have := Nat.cast_le.mp (hle.trans hk)
            omega
        subst hqk
        rw [← hdata]
        exact congrArg _ (ih (.inl rfl) hrest)

/-! ## Runs -/

/-- A run of `n` iterations on a source, without errors, in which every `pwrite` stores something or is
interrupted. -/
structure RunsOn (p : Params) (src : Source) (n : ℕ) (env : Env) (exit : Exit) : Prop where
  /-- The files can be opened. -/
  opened : prepare env = false
  /-- This is the run. -/
  run : main p env = .ok exit
  /-- So many iterations are executed. -/
  executed_eq : executed env.interrupted p.num_iterations.toNat 0 = n
  /-- No call fails for good or stores nothing. -/
  quiet : ∀ e ∈ exit.preread ++ exit.rest, ¬e.IOError ∧ ¬e.ZeroWrite
  /-- The source is read from its start. -/
  fromSource : FromSource src 0 (exit.preread ++ exit.rest)

/-- A run performs the plan of its iterations. -/
theorem RunsOn.written {p : Params} {src : Source} {n : ℕ} {env : Env} {exit : Exit}
    (h : RunsOn p src n env exit) :
    Written 0 (plan p src.byte n 0).2 (plan p src.byte n 0).1 (exit.preread ++ exit.rest) := by
  have hquiet : ¬∃ e ∈ exit.preread ++ exit.rest, e.IOError := fun ⟨e, he, herr⟩ ↦ (h.quiet e he).1 herr
  have hclean : Clean src.byte 0 (exit.preread ++ exit.rest) :=
    ⟨h.fromSource.drawn_eq (.inl rfl), fun e he ↦ (h.quiet e he).2⟩
  rcases main_inv h.run with ⟨hclosed, -⟩ | ⟨failed, m₁, failed', m₂, hpre, hcheck, hpreread, hrest, -⟩
  · exact absurd (hclosed.symm.trans h.opened) (by decide)
  rw [hpreread, hrest] at hquiet hclean ⊢
  -- without errors neither the pre-read nor the rest has failed
  have hm₁ := (cleanup_reports p env.st_size 1).sized (sized_start p env) hpre
  have hok : failed = false := by
    rw [← Bool.not_eq_true, show (failed = true ↔ _) from
      (cleanup_reports p env.st_size 1).failed_iff (sized_start p env) hpre (List.nil_append _).symm]
    exact fun ⟨e, he, herr⟩ ↦ hquiet ⟨e, List.mem_append_left _ he, herr⟩
  have hok' : failed' = false := by
    have hm : Machine.Sized p.max_blocksize { m₁ with trace := [] } := ⟨hm₁.buf1, hm₁.buf2⟩
    rw [← Bool.not_eq_true, show (failed' = true ↔ _) from
      (check_reports p env).failed_iff hm hcheck (List.nil_append _).symm]
    exact fun ⟨e, he, herr⟩ ↦ hquiet ⟨e, List.mem_append_right _ he, herr⟩
  subst hok hok'
  obtain ⟨es, htr, hsweep⟩ := cleanup_performs (s := src.byte) (q := 0) hpre
  obtain ⟨fs, htr', hchains⟩ := check_performs (s := src.byte) (q := 0) hcheck
  have hes : m₁.trace = es := htr
  have hfs : m₂.trace = fs := htr'
  subst hes hfs
  obtain ⟨hleft, hright⟩ := hclean.append_left
  -- the pre-read draws nothing, so the chains start at the start of the stream
  have hnone := (hsweep hleft).1
  rw [hnone.drawn_to] at hright
  rw [← h.executed_eq]
  exact hnone.append (hchains hright).1

/-- **Reproducibility.** Two runs of equally many iterations on the same source write the same blocks: those
of the plan. -/
theorem main_reproducible {p : Params} {src : Source} {n : ℕ} {env env' : Env} {exit exit' : Exit}
    (h : RunsOn p src n env exit) (h' : RunsOn p src n env' exit') :
    issued (exit.preread ++ exit.rest) = issued (exit'.preread ++ exit'.rest) ∧
      issued (exit.preread ++ exit.rest) = (plan p src.byte n 0).1.flatMap Block.issues := by
  have hplan : issued (exit.preread ++ exit.rest) = (plan p src.byte n 0).1.flatMap Block.issues :=
    congrArg Prod.fst h.written.scan_eq
  have hplan' : issued (exit'.preread ++ exit'.rest) = (plan p src.byte n 0).1.flatMap Block.issues :=
    congrArg Prod.fst h'.written.scan_eq
  exact ⟨hplan.trans hplan'.symm, hplan⟩

/-! ### Concrete runs -/

/-- Three bytes in blocks of at most two, with one chain, every block of which is synced. -/
private def syncedParams : Params where
  size := 3
  num_iterations := 1
  max_blocksize := 2
  max_chainlen := 2
  sync_part := 1000000
  size_off64 := three_off64

/-- A source that ends just before the byte the blocks are filled with. -/
private def shortSource : Source where
  len := (21 : ℕ)
  byte i := if i = 0 ∨ i = 8 ∨ i = 12 then 1 else if i = 20 then 2 else 0
  byte_eq_zero i hi := by
    have hi' : 21 ≤ i := Nat.cast_le.mp hi
    rw [if_neg (by omega), if_neg (by omega)]

/-- A file of the given size, with the answers of the kernel. -/
private def kernel (st_size : ℤ) (script : List Reply) : Env where
  file_opens := true
  random_opens := true
  st_size := st_size
  interrupted _ := false
  garbage _ := 0
  script := script

/-- An empty file, and all transfers in one piece. -/
private def wholeEnv : Env := kernel 0
  [.ok [], .ok [],
    .ok [1, 0, 0, 0, 0, 0, 0, 0], .ok [1, 0, 0, 0], .ok [1, 0, 0, 0, 0, 0, 0, 0], .ok [2], .ok [],
    .ok [], .ok [0], .ok [], .ok [0],
    .ok [0, 0], .ok [0], .ok []]

/-- A longer file, and transfers in pieces. -/
private def splitEnv : Env := kernel 9
  [.ok [9], .error .EINTR, .ok [8], .ok [7, 6],
    .ok [1, 0, 0], .ok [0, 0, 0, 0, 0], .error .EAGAIN, .ok [1, 0, 0, 0], .ok [1, 0, 0, 0, 0, 0, 0, 0],
    .ok [2], .ok [],
    .ok [8], .error .EINTR, .ok [0], .ok [7], .ok [0],
    .ok [9, 0], .ok [0, 6]]

private theorem main_wholeEnv : (main syncedParams wholeEnv).map
    (fun exit ↦ (exit.preread, exit.rest)) = .ok
      ([.pread 0 2 (.ok []), .pread 2 2 (.ok [])],
        [.read 8 (.ok [1, 0, 0, 0, 0, 0, 0, 0]), .read 4 (.ok [1, 0, 0, 0]),
          .read 8 (.ok [1, 0, 0, 0, 0, 0, 0, 0]), .read 1 (.ok [2]), .read 1 (.ok []),
          .pread 1 1 (.ok []), .pwrite 1 [0] (.ok [0]), .fsync,
          .pread 2 1 (.ok []), .pwrite 2 [0] (.ok [0]), .fsync,
          .pread 0 2 (.ok [0, 0]), .pread 2 2 (.ok [0]), .pread 3 1 (.ok [])]) := by decide +kernel

private theorem main_splitEnv : (main syncedParams splitEnv).map
    (fun exit ↦ (exit.preread, exit.rest)) = .ok
      ([.pread 0 2 (.ok [9]), .pread 1 1 (.error .EINTR), .pread 1 1 (.ok [8]), .pread 2 2 (.ok [7, 6])],
        [.read 8 (.ok [1, 0, 0]), .read 5 (.ok [0, 0, 0, 0, 0]), .read 4 (.error .EAGAIN),
          .read 4 (.ok [1, 0, 0, 0]), .read 8 (.ok [1, 0, 0, 0, 0, 0, 0, 0]), .read 1 (.ok [2]),
          .read 1 (.ok []),
          .pread 1 1 (.ok [8]), .pwrite 1 [0] (.error .EINTR), .pwrite 1 [0] (.ok [0]), .fsync,
          .pread 2 1 (.ok [7]), .pwrite 2 [0] (.ok [0]), .fsync,
          .pread 0 2 (.ok [9, 0]), .pread 2 2 (.ok [0, 6])]) := by decide +kernel

/-- The two runs issue the same two blocks. -/
theorem main_reproducible_short : ∃ exit exit', main syncedParams wholeEnv = .ok exit ∧
    main syncedParams splitEnv = .ok exit' ∧
    issued (exit.preread ++ exit.rest) = issued (exit'.preread ++ exit'.rest) ∧
    issued (exit.preread ++ exit.rest) = [.write 1 [0], .fsync, .write 2 [0], .fsync] := by
  obtain ⟨exit, hrun, hexit⟩ := exceptMap_eq_ok.mp main_wholeEnv
  obtain ⟨exit', hrun', hexit'⟩ := exceptMap_eq_ok.mp main_splitEnv
  obtain ⟨hpre, hrest⟩ := Prod.mk.inj hexit
  obtain ⟨hpre', hrest'⟩ := Prod.mk.inj hexit'
  have h : RunsOn syncedParams shortSource 1 wholeEnv exit := by
    refine ⟨rfl, hrun, rfl, ?_, ?_⟩
    · rw [hpre, hrest]
      simp [Event.IOError, Event.ZeroWrite]
    · rw [hpre, hrest]
      simp only [List.cons_append, List.nil_append, FromSource, shortSource, Nat.cast_le]
      decide +kernel
  have h' : RunsOn syncedParams shortSource 1 splitEnv exit' := by
    refine ⟨rfl, hrun', rfl, ?_, ?_⟩
    · rw [hpre', hrest']
      simp [Event.IOError, Event.ZeroWrite, Errno.Hard]
    · rw [hpre', hrest']
      simp only [List.cons_append, List.nil_append, FromSource, shortSource, Nat.cast_le]
      decide +kernel
  obtain ⟨hsame, hplan⟩ := main_reproducible h h'
  exact ⟨exit, exit', hrun, hrun', hsame, hplan.trans (by decide +kernel)⟩

end ViTools.Fstest
