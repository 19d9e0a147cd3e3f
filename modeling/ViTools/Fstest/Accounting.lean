import ViTools.Fstest.Trace

/-!
# What the functions of fstest book

Every function of `fstest` that comes to a successful end leaves checksums that have moved by exactly
what its accesses book, and each has its own shape of accesses: `cleanup` reads a range from the
start of the file, `insert_block` reads a block and writes the same block, and `insert_chain` is a
list of such swaps that stays inside the range of the final sweep.

`Runs m m' P` is the form all of these take. The proviso in it, that no `pwrite` returned `0`, is
what `safe_fileop` needs to leave the data it writes alone.
-/

namespace ViTools.Fstest

open Access

/-! ## Inverting computations -/

section Monad

variable {α β : Type} {m : Machine}

theorem bind_eq_ok {x : Sys α} {f : α → Sys β} {r : β × Machine} :
    (x >>= f) m = .ok r ↔ ∃ a m₁, x m = .ok (a, m₁) ∧ f a m₁ = .ok r := by
  have hbind : (x >>= f) m = (x m).bind fun p ↦ f p.1 p.2 := rfl
  rw [hbind]
  cases hx : x m with
  | error stop => simp [Except.bind]
  | ok p =>
    obtain ⟨a, m₁⟩ := p
    constructor
    · exact fun h ↦ ⟨a, m₁, rfl, h⟩
    · rintro ⟨a', m₁', hp, h⟩
      cases hp
      exact h

theorem pure_eq_ok {a b : α} {m' : Machine} :
    (pure a : Sys α) m = .ok (b, m') ↔ a = b ∧ m = m' := by
  have hpure : (pure a : Sys α) m = .ok (a, m) := rfl
  rw [hpure, Except.ok.injEq, Prod.mk.injEq]

/-- A caller that returns at once after a failure has not met one. -/
theorem orReturn_ok {x y : Sys Bool} {m' : Machine}
    (h : (x >>= fun failed ↦ if failed = true then pure true else y) m = .ok (false, m')) :
    ∃ m₁, x m = .ok (false, m₁) ∧ y m₁ = .ok (false, m') := by
  obtain ⟨failed, m₁, hx, hk⟩ := bind_eq_ok.mp h
  cases failed with
  | true => exact absurd (pure_eq_ok.mp hk).1 (by decide)
  | false => exact ⟨m₁, hx, hk⟩

/-- The same where the failure is a flag beside a result. -/
theorem flag_ok {x : Sys (Bool × α)} {k : Bool × α → Sys Bool} {m' : Machine}
    (hfail : ∀ a, k (true, a) = pure true) (h : (x >>= k) m = .ok (false, m')) :
    ∃ a m₁, x m = .ok ((false, a), m₁) ∧ k (false, a) m₁ = .ok (false, m') := by
  obtain ⟨⟨failed, a⟩, m₁, hx, hk⟩ := bind_eq_ok.mp h
  cases failed with
  | true =>
    rw [hfail] at hk
    exact absurd (pure_eq_ok.mp hk).1 (by decide)
  | false => exact ⟨a, m₁, hx, hk⟩

theorem get_eq_ok {a m' : Machine} : (get : Sys Machine) m = .ok (a, m') ↔ m = a ∧ m = m' :=
  pure_eq_ok

theorem modify_eq_ok {f : Machine → Machine} {u : Unit} {m' : Machine} :
    (modify f : Sys Unit) m = .ok (u, m') ↔ f m = m' := by
  have hmod : (modify f : Sys Unit) m = .ok ((), f m) := rfl
  rw [hmod, Except.ok.injEq, Prod.mk.injEq]
  exact ⟨fun h ↦ h.2, fun h ↦ ⟨rfl, h⟩⟩

theorem orStop_eq_ok {c : Prop} [Decidable c] {stop : Stop} {u : Unit} {m' : Machine} :
    orStop c stop m = .ok (u, m') ↔ c ∧ m = m' := by
  rw [orStop]
  split <;> simp_all

theorem safe_fileop_eq_ok {func : PFunc} {pos : ℤ} {len : ℕ} {buf buf' : Buffer} {failed : Bool}
    {m' : Machine} :
    safe_fileop func pos len buf m = .ok ((failed, buf'), m') ↔
      ∃ t, safe_fileop_loop func m.script buf 0 len pos = .ok t ∧ t.failed = failed ∧
        t.buf = buf' ∧ { m with script := t.script, trace := m.trace ++ t.events } = m' := by
  rw [safe_fileop, exceptMap_eq_ok]
  simp only [Prod.mk.injEq, and_assoc]

end Monad

/-! ## Runs and what they book -/

/-- From `m` to `m'` the checksums moved by what the calls in between book, and the accesses of these
calls satisfy `P`, unless a `pwrite` returned `0`. -/
def Runs (m m' : Machine) (P : List (Access ℕ UInt8) → Prop) : Prop :=
  ∃ es, m'.trace = m.trace ++ es ∧ ((∀ e ∈ es, ¬e.ZeroWrite) →
    m'.st.sums = m.st.sums + booked contrib (accesses es) ∧ P (accesses es))

section Runs

variable {m m₁ m₂ : Machine} {P Q R : List (Access ℕ UInt8) → Prop}

theorem Runs.trans (h₁ : Runs m m₁ P) (h₂ : Runs m₁ m₂ Q) (hR : ∀ k l, P k → Q l → R (k ++ l)) :
    Runs m m₂ R := by
  obtain ⟨es, htr, hes⟩ := h₁
  obtain ⟨fs, htr', hfs⟩ := h₂
  refine ⟨es ++ fs, by rw [htr', htr, List.append_assoc], fun hz ↦ ?_⟩
  obtain ⟨hsum, hP⟩ := hes fun e he ↦ hz e (List.mem_append_left _ he)
  obtain ⟨hsum', hQ⟩ := hfs fun e he ↦ hz e (List.mem_append_right _ he)
  rw [accesses_append, booked_append, ← add_assoc, ← hsum]
  exact ⟨hsum', hR _ _ hP hQ⟩

theorem Runs.mono (h : Runs m m₁ P) (hR : ∀ k, P k → R k) : Runs m m₁ R := by
  obtain ⟨es, htr, hes⟩ := h
  exact ⟨es, htr, fun hz ↦ ⟨(hes hz).1, hR _ (hes hz).2⟩⟩

/-- Nothing at all happened to the checksums and the trace. -/
theorem Runs.of_eq (htr : m₁.trace = m.trace) (hst : m₁.st = m.st) : Runs m m₁ (· = []) :=
  ⟨[], by rw [htr, List.append_nil], fun _ ↦ ⟨by rw [hst]; exact (add_zero _).symm, rfl⟩⟩

/-- Calls that access nothing in front of a run. -/
theorem Runs.quiet_trans (h₁ : Runs m m₁ (· = [])) (h₂ : Runs m₁ m₂ P) : Runs m m₂ P :=
  h₁.trans h₂ fun k l hk hl ↦ by rwa [hk, List.nil_append]

/-- Calls that access nothing after a run. -/
theorem Runs.trans_quiet (h₁ : Runs m m₁ P) (h₂ : Runs m₁ m₂ (· = [])) : Runs m m₂ P :=
  h₁.trans h₂ fun k l hk hl ↦ by rwa [hl, List.append_nil]

end Runs

/-! ## Blocks -/

/-- A block of `len` bytes at `q` was read. -/
def ReadsBlock (q len : ℕ) (k : List (Access ℕ UInt8)) : Prop :=
  ∃ vs : List UInt8, vs.length = len ∧ k = reads (vs.zipIdx q)

/-- A block of `len` bytes at `q` was written. -/
def WritesBlock (q len : ℕ) (k : List (Access ℕ UInt8)) : Prop :=
  ∃ vs : List UInt8, vs.length = len ∧ k = writes (vs.zipIdx q)

theorem addresses_zipIdx (vs : List UInt8) (q : ℕ) :
    (vs.zipIdx q).map Prod.snd = List.range' q vs.length := List.zipIdx_map_snd ..

/-- Booking a block: it is added to the checksums whether it is read or written. -/
theorem booked_reads_zipIdx (vs : List UInt8) (q : ℕ) :
    booked contrib (reads (vs.zipIdx q)) = ((vs.zipIdx q).map fun p ↦ contrib p.2 p.1).sum := by
  rw [booked_reads, xor_neg_eq]

/-- The checksums after a block whose position is only known to be nonnegative if it is not empty. -/
theorem sums_update_xors_of_pos {s : State} {pos : ℤ} {vs : List UInt8}
    (hpos : vs.length ≠ 0 → 0 ≤ pos) :
    (update_xors s pos vs).sums = s.sums + ((vs.zipIdx pos.toNat).map fun p ↦ contrib p.2 p.1).sum := by
  by_cases hlen : vs.length = 0
  · rw [List.length_eq_zero_iff.mp hlen]
    exact (add_zero _).symm
  · rw [← sums_update_xors, Int.toNat_of_nonneg (hpos hlen)]

theorem read_block_ok {pos : ℤ} {len : ℕ} {m m' : Machine}
    (h : read_block pos len m = .ok (false, m')) :
    Runs m m' (ReadsBlock pos.toNat len) ∧ (len ≠ 0 → 0 ≤ pos) := by
  simp only [read_block, bind_eq_ok, get_eq_ok, safe_fileop_eq_ok, modify_eq_ok, Prod.exists] at h
  obtain ⟨_, _, ⟨rfl, rfl⟩, failed, buf, m₁, ⟨t, ht, rfl, rfl, rfl⟩, _, m₂, rfl, h⟩ := h
  split at h
  · cases (pure_eq_ok.mp h).1
  · next hok =>
    simp only [bind_eq_ok, orStop_eq_ok, modify_eq_ok, pure_eq_ok] at h
    obtain ⟨_, _, ⟨-, rfl⟩, _, _, rfl, -, rfl⟩ := h
    have hdone := safe_fileop_loop_pread ht (by simpa using hok)
    have hacc := hdone.accesses_eq
    have hpos := hdone.nonneg
    refine ⟨⟨t.events, rfl, fun _ ↦ ⟨?_, _, Buffer.length_slice _ _ _, hacc⟩⟩, hpos⟩
    rw [hacc, booked_reads_zipIdx, sums_update_xors_of_pos (by rwa [Buffer.length_slice])]

theorem write_block_ok {pos : ℤ} {len : ℕ} {m m' : Machine}
    (h : write_block pos len m = .ok (false, m')) :
    Runs m m' (WritesBlock pos.toNat len) := by
  simp only [write_block, bind_eq_ok, get_eq_ok, safe_fileop_eq_ok, modify_eq_ok, Prod.exists] at h
  obtain ⟨_, _, ⟨rfl, rfl⟩, failed, buf, m₁, ⟨t, ht, rfl, rfl, rfl⟩, _, m₂, rfl, h⟩ := h
  split at h
  · cases (pure_eq_ok.mp h).1
  · next hok =>
    simp only [bind_eq_ok, orStop_eq_ok, modify_eq_ok, pure_eq_ok] at h
    obtain ⟨_, _, ⟨-, rfl⟩, _, _, rfl, -, rfl⟩ := h
    refine ⟨t.events, rfl, fun hz ↦ ?_⟩
    have hbuf := safe_fileop_loop_pwrite_buf ht hz
    obtain ⟨hacc, hpos⟩ := safe_fileop_loop_pwrite ht (by simpa using hok) hz
    refine ⟨?_, _, Buffer.length_slice _ _ _, hacc⟩
    simp only [hbuf]
    rw [hacc, booked_writes, sums_update_xors_of_pos (by rwa [Buffer.length_slice])]

theorem fsync_ok {m m' : Machine} {u : Unit} (h : fsync m = .ok (u, m')) :
    Runs m m' (· = []) := by
  rw [fsync, modify_eq_ok] at h
  subst h
  exact ⟨[.fsync], rfl, fun _ ↦ ⟨(add_zero _).symm, rfl⟩⟩

/-- In mode 1 a block is only read. -/
theorem insert_block_read_ok {pos : ℤ} {len : ℕ} {m m' : Machine}
    (h : insert_block pos len 1 m = .ok (false, m')) :
    Runs m m' (ReadsBlock pos.toNat len) ∧ (len ≠ 0 → 0 ≤ pos) := by
  rw [insert_block] at h
  obtain ⟨m₁, hread, h⟩ := orReturn_ok h
  obtain ⟨-, rfl⟩ := pure_eq_ok.mp h
  exact read_block_ok hread

/-- A block is read and the same block is written. -/
def SwapsBlock (q len : ℕ) (k : List (Access ℕ UInt8)) : Prop :=
  ∃ k₁ k₂, ReadsBlock q len k₁ ∧ WritesBlock q len k₂ ∧ k = k₁ ++ k₂

theorem SwapsBlock.swaps {q len n : ℕ} {k : List (Access ℕ UInt8)} (h : SwapsBlock q len k)
    (hn : len ≠ 0 → q + len ≤ n) : Swaps (Finset.range n) k := by
  obtain ⟨_, _, ⟨olds, holds, rfl⟩, ⟨news, hnews, rfl⟩, rfl⟩ := h
  refine .single ?_ ?_ fun a ha ↦ ?_
  · rw [addresses_zipIdx, addresses_zipIdx, holds, hnews]
  · rw [addresses_zipIdx]
    exact List.nodup_range'
  · rw [addresses_zipIdx, List.mem_range'_1] at ha
    rw [Finset.mem_range]
    omega

theorem insert_block_swap_ok {pos : ℤ} {len mode : ℕ} (hmode : mode ≠ 1) {m m' : Machine}
    (h : insert_block pos len mode m = .ok (false, m')) :
    Runs m m' (SwapsBlock pos.toNat len) ∧ (len ≠ 0 → 0 ≤ pos) := by
  rw [insert_block] at h
  obtain ⟨m₁, hread, h⟩ := orReturn_ok h
  rw [if_pos hmode] at h
  obtain ⟨m₂, hwrite, h⟩ := orReturn_ok h
  obtain ⟨hr, hpos⟩ := read_block_ok hread
  have hswap : Runs m m₂ (SwapsBlock pos.toNat len) :=
    hr.trans (write_block_ok hwrite) fun k l hk hl ↦ ⟨k, l, hk, hl, rfl⟩
  refine ⟨?_, hpos⟩
  by_cases hsync : mode = 0
  · rw [if_pos hsync, bind_eq_ok] at h
    obtain ⟨_, m₃, hfs, h⟩ := h
    obtain ⟨-, rfl⟩ := pure_eq_ok.mp h
    exact hswap.trans_quiet (fsync_ok hfs)
  · rw [if_neg hsync] at h
    obtain ⟨-, rfl⟩ := pure_eq_ok.mp h
    exact hswap

/-! ## The random source -/

theorem accesses_of_reads {es : List Event} (h : ∀ e ∈ es, ∃ len reply, e = .read len reply) :
    accesses es = [] := by
  refine List.flatMap_eq_nil_iff.mpr fun e he ↦ ?_
  obtain ⟨len, reply, rfl⟩ := h e he
  rfl

theorem safe_fileop_fake_pread_ok {pos : ℤ} {len : ℕ} {buf : Buffer} {m m' : Machine}
    {r : Bool × Buffer} (h : safe_fileop .fake_pread pos len buf m = .ok (r, m')) :
    Runs m m' (· = []) := by
  obtain ⟨t, ht, -, -, rfl⟩ := safe_fileop_eq_ok.mp h
  have hacc := accesses_of_reads (safe_fileop_loop_fake_pread ht)
  exact ⟨t.events, rfl, fun _ ↦ ⟨by rw [hacc]; exact (add_zero _).symm, hacc⟩⟩

theorem RANDOMIZE_ok {size : ℕ} {m m' : Machine} {r : Bool × ℕ}
    (h : RANDOMIZE size m = .ok (r, m')) : Runs m m' (· = []) := by
  simp only [RANDOMIZE, bind_eq_ok] at h
  obtain ⟨_, m₁, hread, h⟩ := h
  obtain ⟨-, rfl⟩ := pure_eq_ok.mp h
  exact safe_fileop_fake_pread_ok hread

theorem fill_block_ok {data : List UInt8} {m m' : Machine} {u : Unit}
    (h : fill_block data m = .ok (u, m')) :
    Runs m m' (· = []) ∧ m'.buf2.size = m.buf2.size := by
  simp only [fill_block, bind_eq_ok, get_eq_ok, orStop_eq_ok, modify_eq_ok] at h
  obtain ⟨_, _, ⟨rfl, rfl⟩, _, _, ⟨-, rfl⟩, rfl⟩ := h
  exact ⟨.of_eq rfl rfl, rfl⟩

theorem generate_block_ok {len : ℕ} {m m' : Machine} {failed : Bool}
    (h : generate_block len m = .ok (failed, m')) : Runs m m' (· = []) := by
  simp only [generate_block, bind_eq_ok] at h
  obtain ⟨⟨failed₁, mode⟩, m₁, hmode, h⟩ := h
  refine (RANDOMIZE_ok hmode).quiet_trans ?_
  dsimp only at h
  split at h
  · obtain ⟨-, rfl⟩ := pure_eq_ok.mp h
    exact .of_eq rfl rfl
  · split at h
    · simp only [bind_eq_ok, get_eq_ok, modify_eq_ok, Prod.exists] at h
      obtain ⟨_, _, ⟨rfl, rfl⟩, _, _, m₂, hread, _, _, rfl, h⟩ := h
      obtain ⟨-, rfl⟩ := pure_eq_ok.mp h
      exact (safe_fileop_fake_pread_ok hread).trans_quiet (.of_eq rfl rfl)
    · split at h <;>
      · simp only [bind_eq_ok] at h
        obtain ⟨⟨failed₂, c⟩, m₂, hc, h⟩ := h
        refine (RANDOMIZE_ok hc).quiet_trans ?_
        dsimp only at h
        split at h
        · obtain ⟨-, rfl⟩ := pure_eq_ok.mp h
          exact .of_eq rfl rfl
        · simp only [bind_eq_ok] at h
          obtain ⟨_, m₃, hfill, h⟩ := h
          obtain ⟨-, rfl⟩ := pure_eq_ok.mp h
          exact (fill_block_ok hfill).1

theorem choose_sync_ok {p : Params} {m m' : Machine} {r : Bool × Bool}
    (h : choose_sync p m = .ok (r, m')) : Runs m m' (· = []) := by
  rw [choose_sync] at h
  split at h
  · obtain ⟨-, rfl⟩ := pure_eq_ok.mp h
    exact .of_eq rfl rfl
  · split at h
    · obtain ⟨-, rfl⟩ := pure_eq_ok.mp h
      exact .of_eq rfl rfl
    · simp only [bind_eq_ok] at h
      obtain ⟨_, m₁, hsync, h⟩ := h
      obtain ⟨-, rfl⟩ := pure_eq_ok.mp h
      exact RANDOMIZE_ok hsync

/-! ## Chains -/

theorem insert_link_ok {p : Params} {length : ℕ} {offset : ℤ} {m m' : Machine}
    (h : insert_link p length offset m = .ok (false, m')) :
    Runs m m' (SwapsBlock offset.toNat length) ∧ (length ≠ 0 → 0 ≤ offset) := by
  rw [insert_link] at h
  obtain ⟨sync, m₁, hsync, h⟩ := flag_ok (fun _ ↦ rfl) h
  obtain ⟨hrun, hpos⟩ := insert_block_swap_ok (by cases sync <;> decide) h
  exact ⟨(choose_sync_ok hsync).quiet_trans hrun, hpos⟩

/-- A chain stays below any `n` that leaves room for the size and for a block at position 0. The
offset is negative only for the one random number that has no nonnegative counterpart; then either
the block is empty, or it does not fit, or reading it fails. -/
theorem insert_links_ok {p : Params} {length n : ℕ} (hsize : 0 ≤ p.size) (hlen : length < 2 ^ 63)
    (hn : p.size ≤ n) (hblock : length ≤ n) {rep : ℕ} {offset : ℤ} (hoff : offset < 2 ^ 63)
    {m m' : Machine} (h : insert_links p length rep offset m = .ok (false, m')) :
    Runs m m' (Swaps (Finset.range n)) := by
  induction rep generalizing offset m with
  | zero =>
    obtain ⟨-, rfl⟩ := pure_eq_ok.mp h
    exact (Runs.of_eq rfl rfl).mono fun k hk ↦ hk ▸ .nil
  | succ rep ih =>
    rw [insert_links] at h
    split at h
    · refine (insert_link_ok h).1.mono fun k hk ↦ hk.swaps fun _ ↦ ?_
      simpa using hblock
    · next hfits =>
      obtain ⟨m₁, hlink, h⟩ := orReturn_ok h
      obtain ⟨hrun, hpos⟩ := insert_link_ok hlink
      refine hrun.trans (ih (wrap64_lt _) h) fun k l hk hl ↦ (hk.swaps fun hne ↦ ?_).append hl
      have hnonneg := hpos hne
      have hsum := toU64_eq_self (x := offset + length) (by omega) (by omega)
      have hmax := toU64_eq_self hsize (by have := p.size_off64.2; omega)
      omega

theorem remainder_ok {x k r : ℕ} {m m' : Machine} (h : remainder x k m = .ok (r, m')) :
    r < k ∧ m = m' := by
  simp only [remainder, bind_eq_ok, orStop_eq_ok] at h
  obtain ⟨_, _, ⟨hk, rfl⟩, h⟩ := h
  obtain ⟨rfl, rfl⟩ := pure_eq_ok.mp h
  exact ⟨Nat.mod_lt _ (Nat.pos_of_ne_zero hk), rfl⟩

theorem reduce_offset_ok {p : Params} (hsize : 0 ≤ p.size) {r : ℕ} {offset : ℤ} {m m' : Machine}
    (h : reduce_offset p r m = .ok (offset, m')) : offset < p.size ∧ m = m' := by
  simp only [reduce_offset, bind_eq_ok, orStop_eq_ok] at h
  obtain ⟨_, _, ⟨⟨hne, -⟩, rfl⟩, h⟩ := h
  obtain ⟨rfl, rfl⟩ := pure_eq_ok.mp h
  exact ⟨Int.tmod_lt_of_pos _ (by omega), rfl⟩

theorem insert_chain_ok {p : Params} {n : ℕ} (hsize : 0 ≤ p.size) (hblock : p.max_blocksize < 2 ^ 63)
    (hn : p.size ≤ n) (hn' : p.max_blocksize ≤ n) {m m' : Machine}
    (h : insert_chain p m = .ok (false, m')) : Runs m m' (Swaps (Finset.range n)) := by
  rw [insert_chain] at h
  obtain ⟨o, m₁, ho, h₁⟩ := flag_ok (fun _ ↦ rfl) h
  obtain ⟨c, m₂, hc, h₂⟩ := flag_ok (fun _ ↦ rfl) h₁
  obtain ⟨l, m₃, hl, h₃⟩ := flag_ok (fun _ ↦ rfl) h₂
  simp only [Bool.false_eq_true, if_false, bind_eq_ok] at h₃
  obtain ⟨offset, _, hoff, length, _, hlen, rep, _, hrep, failed, m₄, hgen, h₄⟩ := h₃
  obtain ⟨hoff, rfl⟩ := reduce_offset_ok hsize hoff
  obtain ⟨hlen, rfl⟩ := remainder_ok hlen
  obtain ⟨-, rfl⟩ := remainder_ok hrep
  split at h₄
  · exact absurd (pure_eq_ok.mp h₄).1 (by decide)
  have hlinks := insert_links_ok hsize (by omega) hn (by omega)
    (by have := p.size_off64.2; omega) h₄
  exact (RANDOMIZE_ok ho).quiet_trans <| (RANDOMIZE_ok hc).quiet_trans <|
    (RANDOMIZE_ok hl).quiet_trans <| (generate_block_ok hgen).quiet_trans hlinks

theorem iterate_ok {p : Params} {env : Env} {n : ℕ} (hsize : 0 ≤ p.size)
    (hblock : p.max_blocksize < 2 ^ 63) (hn : p.size ≤ n) (hn' : p.max_blocksize ≤ n) {j i : ℕ}
    {m m' : Machine} (h : iterate p env j i m = .ok (false, m')) :
    Runs m m' (Swaps (Finset.range n)) := by
  induction j generalizing i m with
  | zero =>
    obtain ⟨-, rfl⟩ := pure_eq_ok.mp h
    exact (Runs.of_eq rfl rfl).mono fun k hk ↦ hk ▸ .nil
  | succ j ih =>
    rw [iterate] at h
    split at h
    · obtain ⟨-, rfl⟩ := pure_eq_ok.mp h
      exact (Runs.of_eq rfl rfl).mono fun k hk ↦ hk ▸ .nil
    · obtain ⟨m₁, hchain, h⟩ := orReturn_ok h
      exact (insert_chain_ok hsize hblock hn hn' hchain).trans (ih h) fun k l hk hl ↦ hk.append hl

/-! ## Sweeps -/

theorem ReadsBlock.append {q n n' : ℕ} {k l : List (Access ℕ UInt8)} (hk : ReadsBlock q n k)
    (hl : ReadsBlock (q + n) n' l) : ReadsBlock q (n + n') (k ++ l) := by
  obtain ⟨vs, rfl, rfl⟩ := hk
  obtain ⟨ws, rfl, rfl⟩ := hl
  exact ⟨vs ++ ws, List.length_append, by rw [List.zipIdx_append, reads_append]⟩

/-- The end of the range `cleanup` reads: the first multiple of the block size past `size`. -/
def sweep_end (size : ℤ) (block : ℕ) : ℕ := if size < 0 then 0 else (size.toNat / block + 1) * block

theorem lt_sweep_end {size : ℤ} {block : ℕ} (hsize : 0 ≤ size) (hblock : block ≠ 0) :
    size < sweep_end size block := by
  rw [sweep_end, if_neg (by omega)]
  have h := Nat.lt_mul_div_succ size.toNat (Nat.pos_of_ne_zero hblock)
  rw [mul_comm] at h
  omega

theorem le_sweep_end {size : ℤ} (block : ℕ) (hsize : 0 ≤ size) : block ≤ sweep_end size block := by
  rw [sweep_end, if_neg (by omega), add_mul, one_mul]
  exact Nat.le_add_left _ _

theorem sweep_end_mono {size size' : ℤ} (block : ℕ) (h : size ≤ size') :
    sweep_end size block ≤ sweep_end size' block := by
  rw [sweep_end, sweep_end]
  split
  · exact Nat.zero_le _
  · rw [if_neg (by omega)]
    exact Nat.mul_le_mul_right _ (Nat.succ_le_succ (Nat.div_le_div_right (by omega)))

/-- From the `j`'th block on, a successful sweep reads the rest of its range. The offset does not
wrap: it would become negative, and reading there fails. -/
theorem sweep_ok {p : Params} {size : ℤ} (hsize : 0 ≤ size) (hmax : size < 2 ^ 63)
    (hne : p.max_blocksize ≠ 0) (hblock : p.max_blocksize < 2 ^ 63) {fuel j : ℕ}
    (hj : j ≤ size.toNat / p.max_blocksize + 1) {m m' : Machine}
    (h : sweep p size fuel ((j * p.max_blocksize : ℕ) : ℤ) m = .ok (false, m')) :
    Runs m m' (ReadsBlock (j * p.max_blocksize)
      (sweep_end size p.max_blocksize - j * p.max_blocksize)) := by
  have hend : sweep_end size p.max_blocksize
      = (size.toNat / p.max_blocksize + 1) * p.max_blocksize := if_neg (by omega)
  induction fuel generalizing j m with
  | zero => cases h
  | succ fuel ih =>
    rw [sweep] at h
    split at h
    · next hle =>
      obtain ⟨m₁, hins, h⟩ := orReturn_ok h
      have hwrap : ((j * p.max_blocksize : ℕ) : ℤ) + p.max_blocksize < 2 ^ 63 := by
        by_contra hge
        rw [wrap64_eq_sub (by omega) (by omega)] at h
        cases fuel with
        | zero => cases h
        | succ fuel =>
          rw [sweep, if_pos (by omega)] at h
          obtain ⟨m₂, hins', h⟩ := orReturn_ok h
          have := (insert_block_read_ok hins').2 hne
          omega
      have hj' : j < size.toNat / p.max_blocksize + 1 := by
        have := (Nat.le_div_iff_mul_le (Nat.pos_of_ne_zero hne)).mpr
          (show j * p.max_blocksize ≤ size.toNat by omega)
        omega
      have hnext : wrap64 (((j * p.max_blocksize : ℕ) : ℤ) + p.max_blocksize)
          = (((j + 1) * p.max_blocksize : ℕ) : ℤ) := by
        rw [wrap64_eq_self (by omega) hwrap]
        push_cast
        ring
      rw [hnext] at h
      have hrest := ih (j := j + 1) (by omega) h
      have hle' : (j + 1) * p.max_blocksize ≤ sweep_end size p.max_blocksize := by
        rw [hend]
        exact Nat.mul_le_mul_right _ (by omega)
      rw [Nat.succ_mul] at hrest hle'
      refine (insert_block_read_ok hins).1.trans hrest fun k l hk hl ↦ ?_
      have hsum := hk.append hl
      rwa [show p.max_blocksize
          + (sweep_end size p.max_blocksize - (j * p.max_blocksize + p.max_blocksize))
        = sweep_end size p.max_blocksize - j * p.max_blocksize by omega] at hsum
    · next hgt =>
      obtain ⟨-, rfl⟩ := pure_eq_ok.mp h
      refine (Runs.of_eq rfl rfl).mono fun k hk ↦ ⟨[], ?_, hk⟩
      have hjeq : size.toNat / p.max_blocksize < j :=
        (Nat.div_lt_iff_lt_mul (Nat.pos_of_ne_zero hne)).mpr (by omega)
      rw [hend, show j = size.toNat / p.max_blocksize + 1 by omega, Nat.sub_self]
      rfl

theorem sweep_size_lt (p : Params) (st_size : ℤ) (mode : ℕ) : sweep_size p st_size mode < 2 ^ 63 := by
  have hp := p.size_off64.2
  have hw := wrap64_lt (st_size + p.max_blocksize)
  simp only [sweep_size]
  split
  · split <;> omega
  · exact hp

theorem sweep_size_le (p : Params) (st_size : ℤ) (mode : ℕ) : sweep_size p st_size mode ≤ p.size := by
  simp only [sweep_size]
  split
  · split <;> omega
  · exact le_refl _

theorem cleanup_ok {p : Params} {st_size : ℤ} {mode : ℕ} (hblock : p.max_blocksize < 2 ^ 63)
    {m m' : Machine} (h : cleanup p st_size mode m = .ok (false, m')) :
    Runs m m' (ReadsBlock 0 (sweep_end (sweep_size p st_size mode) p.max_blocksize)) ∧
      p.max_blocksize ≠ 0 := by
  simp only [cleanup, bind_eq_ok, orStop_eq_ok, get_eq_ok] at h
  obtain ⟨_, m₁, hfill, _, _, ⟨hne, rfl⟩, _, _, ⟨rfl, rfl⟩, h⟩ := h
  refine ⟨(fill_block_ok hfill).1.quiet_trans ?_, hne⟩
  by_cases hneg : sweep_size p st_size mode < 0
  · rw [sweep, if_neg (by omega)] at h
    obtain ⟨-, rfl⟩ := pure_eq_ok.mp h
    rw [sweep_end, if_pos hneg]
    exact (Runs.of_eq rfl rfl).mono fun k hk ↦ ⟨[], rfl, hk⟩
  · have hrun := sweep_ok (j := 0) (by omega) (sweep_size_lt p st_size mode) hne hblock
      (Nat.zero_le _) (by rwa [Nat.zero_mul])
    rwa [Nat.zero_mul, Nat.sub_zero] at hrun

/-! ## Failing sweeps -/

theorem insert_block_read_failed {pos : ℤ} {len : ℕ} {m m' : Machine}
    (h : insert_block pos len 1 m = .ok (true, m')) :
    ∃ q n errno, pos ≤ q ∧ errno ≠ .EAGAIN ∧ errno ≠ .EINTR ∧
      .pread q n (.error errno) ∈ m'.trace := by
  simp only [insert_block, bind_eq_ok] at h
  obtain ⟨failed, m₁, hread, h⟩ := h
  cases failed with
  | false => exact absurd (pure_eq_ok.mp h).1 (by decide)
  | true =>
    obtain ⟨-, rfl⟩ := pure_eq_ok.mp h
    simp only [read_block, bind_eq_ok, get_eq_ok, safe_fileop_eq_ok, modify_eq_ok, Prod.exists]
      at hread
    obtain ⟨_, _, ⟨rfl, rfl⟩, failed, buf, m₁, ⟨t, ht, rfl, rfl, rfl⟩, _, m₂, rfl, h⟩ := hread
    split at h
    · next hfail =>
      obtain ⟨-, rfl⟩ := pure_eq_ok.mp h
      obtain ⟨q, n, errno, hq, h1, h2, hmem⟩ := safe_fileop_loop_pread_failed ht hfail
      exact ⟨q, n, errno, hq, h1, h2, List.mem_append_right _ hmem⟩
    · simp only [bind_eq_ok, orStop_eq_ok, modify_eq_ok, pure_eq_ok] at h
      obtain ⟨_, _, _, _, _, _, hfalse, -⟩ := h
      cases hfalse

/-- A sweep that fails has met a hard error, and at a nonnegative position if its offset cannot
wrap. -/
theorem sweep_failed {p : Params} {size : ℤ} {fuel : ℕ} {off : ℤ} {m m' : Machine}
    (hoff : size + p.max_blocksize < 2 ^ 63 → 0 ≤ off)
    (h : sweep p size fuel off m = .ok (true, m')) :
    ∃ q n errno, (size + p.max_blocksize < 2 ^ 63 → 0 ≤ q) ∧ errno ≠ .EAGAIN ∧ errno ≠ .EINTR ∧
      .pread q n (.error errno) ∈ m'.trace := by
  induction fuel generalizing off m with
  | zero => cases h
  | succ fuel ih =>
    rw [sweep] at h
    split at h
    · next hle =>
      simp only [bind_eq_ok] at h
      obtain ⟨failed, m₁, hins, h⟩ := h
      split at h
      · next hfail =>
        obtain ⟨-, rfl⟩ := pure_eq_ok.mp h
        subst hfail
        obtain ⟨q, n, errno, hq, hrest⟩ := insert_block_read_failed hins
        exact ⟨q, n, errno, fun hfit ↦ (hoff hfit).trans hq, hrest⟩
      · refine ih (fun hfit ↦ ?_) h
        have := hoff hfit
        rw [wrap64_eq_self (by omega) (by omega)]
        omega
    · exact absurd (pure_eq_ok.mp h).1 (by decide)

theorem cleanup_failed {p : Params} {st_size : ℤ} {mode : ℕ} {m m' : Machine}
    (h : cleanup p st_size mode m = .ok (true, m')) :
    ∃ q n errno, (p.size + p.max_blocksize < 2 ^ 63 → 0 ≤ q) ∧ errno ≠ .EAGAIN ∧ errno ≠ .EINTR ∧
      .pread q n (.error errno) ∈ m'.trace := by
  simp only [cleanup, bind_eq_ok, orStop_eq_ok, get_eq_ok] at h
  obtain ⟨_, m₁, hfill, _, _, ⟨hne, rfl⟩, _, _, ⟨rfl, rfl⟩, h⟩ := h
  obtain ⟨q, n, errno, hq, hrest⟩ := sweep_failed (fun _ ↦ le_refl 0) h
  have hle := sweep_size_le p st_size mode
  exact ⟨q, n, errno, fun hfit ↦ hq (by omega), hrest⟩

/-! ## The whole program -/

/-- A run that reaches the final check came through the iterations and the final cleanup without
failure. -/
theorem main_verdict {p : Params} {env : Env} {exit : Exit} (h : main p env = .ok exit)
    (hfinal : exit.verdict.isSome) :
    p.max_blocksize < 2 ^ 63 ∧ ∃ failed m₁ m₂,
      cleanup p env.st_size 1 (start p env) = .ok (failed, m₁) ∧
      check p env { m₁ with trace := [] } = .ok (false, m₂) ∧ exit = final_check m₁.trace m₂ := by
  rw [main] at h
  split at h
  · cases h
    cases hfinal
  split at h
  · cases h
  next hblock =>
  refine ⟨by omega, ?_⟩
  split at h
  · cases h
  next failed m₁ hpre =>
  split at h
  · cases h
  next failed' m₂ hcheck =>
  cases failed' with
  | true =>
    cases h
    cases hfinal
  | false =>
    cases h
    exact ⟨failed, m₁, m₂, hpre, hcheck, rfl⟩

/-- Swaps inside a range and then a read of the whole range. -/
def SwapsThenReads (n : ℕ) (k : List (Access ℕ UInt8)) : Prop :=
  ∃ k₁ k₂, Swaps (Finset.range n) k₁ ∧ ReadsBlock 0 n k₂ ∧ k = k₁ ++ k₂

theorem check_ok {p : Params} {env : Env} (hsize : 0 ≤ p.size) (hblock : p.max_blocksize < 2 ^ 63)
    {m m' : Machine} (h : check p env m = .ok (false, m')) :
    Runs m m' (SwapsThenReads (sweep_end p.size p.max_blocksize)) := by
  rw [check] at h
  obtain ⟨m₁, hiter, h⟩ := orReturn_ok h
  obtain ⟨hsweep, hne⟩ := cleanup_ok hblock h
  have hchains := iterate_ok hsize hblock (lt_sweep_end hsize hne).le (le_sweep_end _ hsize) hiter
  exact hchains.trans hsweep fun k l hk hl ↦ ⟨k, l, hk, hl, rfl⟩

end ViTools.Fstest
