import ViTools.Fstest.Errors
import ViTools.Fstest.Plan

/-!
# What the parameters must be

Nothing looks at the parameters before they become divisors, the size of the buffers and the step of a
loop. So whether a run is safe depends on them: whether it comes to a division by zero, whether it leaves
its buffers, and whether its loops end.

The buffers and the loops are safe as soon as there are buffers. A buffer is never accessed past the
length a function is called with, and these lengths are remainders by the size of the buffers. The sweep
moves on in steps of that size, until it is past the end or its position becomes negative, where it
fails. The parameters that are safe are then those which no division refuses.
-/

namespace ViTools.Fstest

/-! ## Staying inside the buffers -/

/-- A computation does not end for the reason `stop`. -/
def Avoids (B : ℕ) (stop : Stop) {α : Type} (x : Sys α) : Prop :=
  ∀ m : Machine, m.Sized B → x m ≠ .error stop

namespace Avoids

variable {B : ℕ} {stop : Stop} {α β : Type} {failed : α → Bool}

theorem pure (a : α) : Avoids B stop (pure a) := fun _ _ h ↦ nomatch h

theorem modify (f : Machine → Machine) : Avoids B stop (modify f) := fun _ _ h ↦ nomatch h

theorem orStop {c : Prop} [Decidable c] {stop' : Stop} (h : c ∨ stop' ≠ stop) :
    Avoids B stop (orStop c stop') := by
  intro m _ hstop
  rw [Fstest.orStop] at hstop
  split at hstop
  · cases hstop
  · next hc => exact h.resolve_left hc (Except.error.inj hstop)

theorem get {k : Machine → Sys α} (h : ∀ m : Machine, m.Sized B → Avoids B stop (k m)) :
    Avoids B stop (get >>= k) := fun m hm ↦ h m hm m hm

theorem ite {c : Prop} [Decidable c] {x y : Sys α} (hx : c → Avoids B stop x)
    (hy : ¬c → Avoids B stop y) : Avoids B stop (if c then x else y) := by
  split
  · next hc => exact hx hc
  · next hc => exact hy hc

theorem bind {x : Sys α} {k : α → Sys β} (hx : Avoids B stop x) (hr : Reports B x failed)
    (hk : ∀ a, Returns B x a → Avoids B stop (k a)) : Avoids B stop (x >>= k) := by
  intro m hm h
  rcases bind_eq_error.mp h with hstop | ⟨a, m₁, hrun, hstop⟩
  · exact hx m hm hstop
  · exact hk a ⟨m, m₁, hm, hrun⟩ m₁ (hr.sized hm hrun) hstop

/-- The caller's test of a result. -/
theorem orReturn {x y : Sys Bool} (hx : Avoids B stop x) (hr : Reports B x id)
    (hy : Avoids B stop y) :
    Avoids B stop (x >>= fun failed ↦ if failed = true then Pure.pure true else y) :=
  hx.bind hr fun _ _ ↦ .ite (fun _ ↦ .pure _) fun _ ↦ hy

end Avoids

/-- A transfer stays in its range. -/
theorem safe_fileop_loop_ne_bounds (func : PFunc) {script : List Reply} {buf : Buffer} {i rest : ℕ}
    {ppos : ℤ} (hbuf : i + rest ≤ buf.size) {stop : Stop} (hstop : stop ≠ .script) :
    safe_fileop_loop func script buf i rest ppos ≠ .error stop := by
  induction script generalizing buf i rest ppos with
  | nil =>
    cases rest with
    | zero => exact fun h ↦ nomatch h
    | succ rest => exact fun h ↦ hstop (Except.error.inj h).symm
  | cons r script ih =>
    cases rest with
    | zero => exact fun h ↦ nomatch h
    | succ rest =>
      intro h
      rw [safe_fileop_loop, Buffer.load_of_le hbuf] at h
      dsimp only at h
      split at h
      · cases h
      · next data _ heq =>
        have hlen := length_le_of_answer heq
        rw [Buffer.length_slice] at hlen
        have hroom : i + data.length + (rest + 1 - data.length)
            ≤ (if func = .pwrite then buf else buf.put i data).size := by
          split
          · omega
          · rw [Buffer.size_put]
            omega
        exact ih hroom (exceptMap_eq_error.mp h)
      · split at h
        · exact ih hbuf (exceptMap_eq_error.mp h)
        · cases h

section Functions

variable {B : ℕ} {stop : Stop} (hstop : stop ≠ .script)
include hstop

theorem safe_fileop_avoids (func : PFunc) (pos : ℤ) {len : ℕ} {buf : Buffer} (hlen : len ≤ buf.size) :
    Avoids B stop (safe_fileop func pos len buf) := by
  intro m _ h
  refine safe_fileop_loop_ne_bounds func ?_ hstop (exceptMap_eq_error.mp h)
  rwa [Nat.zero_add]

omit hstop in
/-- After a transfer the bytes go into the checksums. -/
theorem checked_avoids {f : Machine → Machine} (hf : Keeps B f) {c : Prop} [Decidable c] (hc : c)
    (failed : Bool) (pos : ℤ) (vs : List UInt8) : Avoids B stop (do
      modify f
      if failed then return true
      orStop c .bounds
      modify fun m ↦ { m with st := update_xors m.st pos vs }
      return false) := by
  have hst : Keeps B fun m ↦ { m with st := update_xors m.st pos vs } :=
    ⟨fun _ hm ↦ ⟨hm.buf1, hm.buf2⟩, fun _ ↦ rfl, fun _ _ ↦ rfl⟩
  refine .bind (.modify f) (.modify hf) fun _ _ ↦ .ite (fun _ ↦ .pure _) fun _ ↦ ?_
  refine .bind (.orStop (.inl hc)) (.orStop (by decide)) fun _ _ ↦ ?_
  exact .bind (.modify _) (.modify hst) fun _ _ ↦ .pure _

theorem read_block_avoids (pos : ℤ) {len : ℕ} (hlen : len ≤ B) :
    Avoids B stop (read_block pos len) := by
  refine .get fun m hm ↦ ?_
  have hbuf : len ≤ m.buf1.size := by rwa [hm.buf1]
  refine .bind (safe_fileop_avoids hstop _ _ hbuf) (safe_fileop_reports hbuf) ?_
  rintro ⟨failed, buf⟩ hret
  have hsize := size_of_returns hret
  exact checked_avoids (keeps_buf1 (hsize.trans hm.buf1)) (hbuf.trans_eq hsize.symm) _ _ _

theorem write_block_avoids (pos : ℤ) {len : ℕ} (hlen : len ≤ B) :
    Avoids B stop (write_block pos len) := by
  refine .get fun m hm ↦ ?_
  have hbuf : len ≤ m.buf2.size := by rwa [hm.buf2]
  refine .bind (safe_fileop_avoids hstop _ _ hbuf) (safe_fileop_reports hbuf) ?_
  rintro ⟨failed, buf⟩ hret
  have hsize := size_of_returns hret
  exact checked_avoids (keeps_buf2 (hsize.trans hm.buf2)) (hbuf.trans_eq hsize.symm) _ _ _

theorem insert_block_avoids (pos : ℤ) {len : ℕ} (hlen : len ≤ B) (mode : ℕ) :
    Avoids B stop (insert_block pos len mode) := by
  have hlast : Avoids B stop
      (if mode = 0 then fsync >>= fun _ ↦ pure false else pure false : Sys Bool) :=
    .ite (fun _ ↦ .bind (.modify _) fsync_reports fun _ _ ↦ .pure _) fun _ ↦ .pure _
  have hwrite := (write_block_avoids hstop pos hlen).orReturn (write_block_reports pos hlen) hlast
  exact (read_block_avoids hstop pos hlen).orReturn (read_block_reports pos hlen)
    (.ite (fun _ ↦ hwrite) fun _ ↦ hlast)

theorem RANDOMIZE_avoids (size : ℕ) : Avoids B stop (RANDOMIZE size) :=
  .bind (safe_fileop_avoids hstop _ _ (le_refl size)) (safe_fileop_reports (le_refl size))
    fun _ _ ↦ .pure _

omit hstop in
theorem fill_block_avoids {data : List UInt8} (hlen : data.length ≤ B) :
    Avoids B stop (fill_block data) := by
  refine .get fun m hm ↦ ?_
  have hbuf : data.length ≤ m.buf2.size := by rwa [hm.buf2]
  exact .bind (.orStop (.inl hbuf)) (.orStop (by decide)) fun _ _ ↦ .modify _

theorem generate_block_avoids {len : ℕ} (hlen : len ≤ B) : Avoids B stop (generate_block len) := by
  have hfilled : ∀ data : List UInt8, data.length ≤ B →
      Avoids B stop (fill_block data >>= fun _ ↦ pure false) :=
    fun data hdata ↦ .bind (fill_block_avoids hdata) (fill_block_reports data) fun _ _ ↦ .pure _
  refine .bind (RANDOMIZE_avoids hstop 1) (RANDOMIZE_reports 1) fun mode _ ↦ ?_
  refine .ite (fun _ ↦ .pure _) fun _ ↦ .ite (fun _ ↦ ?random) fun _ ↦
    .ite (fun _ ↦ ?byte) fun _ ↦ ?pattern
  case random =>
    refine .get fun m hm ↦ ?_
    have hbuf : len ≤ m.buf2.size := by rwa [hm.buf2]
    refine .bind (safe_fileop_avoids hstop _ _ hbuf) (safe_fileop_reports hbuf) ?_
    rintro ⟨failed, buf⟩ hret
    exact .bind (.modify _) (.modify (keeps_buf2 ((size_of_returns hret).trans hm.buf2))) fun _ _ ↦
      .pure _
  case byte =>
    refine .bind (RANDOMIZE_avoids hstop 1) (RANDOMIZE_reports 1) fun c _ ↦ ?_
    exact .ite (fun _ ↦ .pure _) fun _ ↦ hfilled _ (by rwa [List.length_replicate])
  case pattern =>
    refine .bind (RANDOMIZE_avoids hstop 4) (RANDOMIZE_reports 4) fun c _ ↦ ?_
    exact .ite (fun _ ↦ .pure _) fun _ ↦ hfilled _ (by rwa [List.length_map, List.length_range])

theorem insert_link_avoids (p : Params) {length : ℕ} (hlen : length ≤ B) (offset : ℤ) :
    Avoids B stop (insert_link p length offset) := by
  have hsync : Avoids B stop (choose_sync p) := by
    refine .ite (fun _ ↦ .pure _) fun _ ↦ .ite (fun _ ↦ .pure _) fun _ ↦ ?_
    exact .bind (RANDOMIZE_avoids hstop 4) (RANDOMIZE_reports 4) fun _ _ ↦ .pure _
  refine .bind hsync (choose_sync_reports p) fun r _ ↦ ?_
  exact .ite (fun _ ↦ .pure _) fun _ ↦ insert_block_avoids hstop offset hlen _

theorem insert_links_avoids (p : Params) {length : ℕ} (hlen : length ≤ B) (repetitions_count : ℕ)
    (offset : ℤ) : Avoids B stop (insert_links p length repetitions_count offset) := by
  induction repetitions_count generalizing offset with
  | zero => exact .pure _
  | succ n ih =>
    exact .ite (fun _ ↦ insert_link_avoids hstop p hlen 0) fun _ ↦
      (insert_link_avoids hstop p hlen offset).orReturn (insert_link_reports p hlen offset) (ih _)

/-- A sweep stays in the buffers, which have the size of its blocks. -/
theorem sweep_avoids {p : Params} (hB : p.max_blocksize = B) {size : ℤ} {fuel : ℕ} {off : ℤ} {m : Machine}
    (hm : m.Sized B) : sweep p size fuel off m ≠ .error stop := by
  subst hB
  induction fuel generalizing off m with
  | zero => exact fun h ↦ hstop (Except.error.inj h).symm
  | succ fuel ih =>
    intro h
    rw [sweep] at h
    split at h
    · rcases bind_eq_error.mp h with herr | ⟨failed, m₁, hins, herr⟩
      · exact insert_block_avoids hstop off (le_refl _) 1 m hm herr
      · cases failed with
        | true => cases herr
        | false => exact ih ((insert_block_reports off (le_refl _) 1).sized hm hins) herr
    · cases h

end Functions

section Bounds

variable (p : Params)

theorem insert_chain_bounds : Avoids p.max_blocksize .bounds (insert_chain p) := by
  have hstop : Stop.bounds ≠ .script := by decide
  have hreduce (r : ℕ) : Avoids p.max_blocksize .bounds (reduce_offset p r) :=
    .bind (.orStop (.inr (by decide))) (.orStop (by decide)) fun _ _ ↦ .pure _
  have hrem (x m : ℕ) : Avoids p.max_blocksize .bounds (remainder x m) :=
    .bind (.orStop (.inr (by decide))) (.orStop (by decide)) fun _ _ ↦ .pure _
  refine .bind (RANDOMIZE_avoids hstop 8) (RANDOMIZE_reports 8) fun r _ ↦ .ite (fun _ ↦ .pure _) fun _ ↦ ?_
  refine .bind (RANDOMIZE_avoids hstop 4) (RANDOMIZE_reports 4) fun c _ ↦ .ite (fun _ ↦ .pure _) fun _ ↦ ?_
  refine .bind (RANDOMIZE_avoids hstop 8) (RANDOMIZE_reports 8) fun x _ ↦ .ite (fun _ ↦ .pure _) fun _ ↦ ?_
  refine .bind (hreduce _) (reduce_offset_reports p _) fun offset _ ↦ ?_
  refine .bind (hrem _ _) (remainder_reports _ _) ?_
  rintro length ⟨m, m', -, hlength⟩
  have hlen : length ≤ p.max_blocksize := (remainder_ok hlength).1.le
  refine .bind (hrem _ _) (remainder_reports _ _) fun count _ ↦ ?_
  exact (generate_block_avoids hstop hlen).orReturn (generate_block_reports hlen)
    (insert_links_avoids hstop p hlen _ _)

theorem iterate_bounds (env : Env) (n i : ℕ) : Avoids p.max_blocksize .bounds (iterate p env n i) := by
  induction n generalizing i with
  | zero => exact .pure _
  | succ n ih =>
    exact .ite (fun _ ↦ .pure _) fun _ ↦ (insert_chain_bounds p).orReturn (insert_chain_reports p) (ih _)

theorem cleanup_bounds (st_size : ℤ) (mode : ℕ) :
    Avoids p.max_blocksize .bounds (cleanup p st_size mode) := by
  refine .bind (fill_block_avoids (by rw [List.length_replicate])) (fill_block_reports _) fun _ _ ↦ ?_
  refine .bind (.orStop (.inr (by decide))) (.orStop (by decide)) fun _ _ ↦ ?_
  exact .get fun m hm m' hm' ↦ sweep_avoids (by decide) rfl hm'

/-- **No access outside the buffers**, as soon as they can be allocated. -/
theorem main_bounds (hblock : p.max_blocksize < 2 ^ 63) (env : Env) : main p env ≠ .error .bounds := by
  have hcheck : Avoids p.max_blocksize .bounds (check p env) :=
    (iterate_bounds p env _ _).orReturn (iterate_reports p env _ _) (cleanup_bounds p _ _)
  intro h
  rw [main] at h
  split at h
  · cases h
  rw [if_neg (by omega)] at h
  split at h
  · next stop hpre =>
    obtain rfl := Except.error.inj h
    exact cleanup_bounds p _ _ _ (sized_start p env) hpre
  next failed m₁ hpre =>
  have hm₁ := (cleanup_reports p env.st_size 1).sized (sized_start p env) hpre
  split at h
  · next stop herr =>
    obtain rfl := Except.error.inj h
    exact hcheck { m₁ with trace := [] } ⟨hm₁.buf1, hm₁.buf2⟩ herr
  · cases h

end Bounds

/-! ## Ending the loops -/

section Sweep

variable {p : Params} {size : ℤ}

/-- Where the position is negative the sweep fails. -/
theorem sweep_of_neg (hne : p.max_blocksize ≠ 0) {off : ℤ} (hoff : off < 0) (fuel fuel' : ℕ) :
    sweep p size (fuel + 1) off = sweep p size (fuel' + 1) off := by
  funext m
  rw [sweep, sweep]
  split
  · refine bind_congr_ok fun failed m₁ hins ↦ ?_
    cases failed with
    | true => rfl
    | false => exact absurd ((insert_block_read_ok hins).2 hne) (not_le.mpr hoff)
  · rfl

/-- **The sweep ends.** Its rounds are bounded by the blocks up to the size, however the calls are
answered. -/
theorem sweep_congr (hne : p.max_blocksize ≠ 0) (hblock : p.max_blocksize < 2 ^ 63) {rounds : ℕ} {off : ℤ}
    (hlo : 0 ≤ off) (hhi : off < 2 ^ 63) (hrounds : size < off + rounds * p.max_blocksize) {fuel fuel' : ℕ}
    (hfuel : rounds < fuel) (hfuel' : rounds < fuel') :
    sweep p size fuel off = sweep p size fuel' off := by
  induction rounds generalizing off fuel fuel' with
  | zero =>
    obtain ⟨k, rfl⟩ := Nat.exists_eq_succ_of_ne_zero hfuel.ne'
    obtain ⟨k', rfl⟩ := Nat.exists_eq_succ_of_ne_zero hfuel'.ne'
    -- the position is past the size already
    rw [sweep, sweep, if_neg (by omega), if_neg (by omega)]
  | succ rounds ih =>
    obtain ⟨k, rfl⟩ := Nat.exists_eq_add_of_lt hfuel
    obtain ⟨k', rfl⟩ := Nat.exists_eq_add_of_lt hfuel'
    have hnext : sweep p size (rounds + 1 + k) (wrap64 (off + p.max_blocksize))
        = sweep p size (rounds + 1 + k') (wrap64 (off + p.max_blocksize)) := by
      by_cases hfits : off + p.max_blocksize < 2 ^ 63
      · rw [wrap64_eq_self (by omega) hfits]
        refine ih (by omega) hfits ?_ (by omega) (by omega)
        rw [Nat.cast_succ, add_mul, one_mul] at hrounds
        omega
      -- past the last offset the position wraps to a negative one
      · have hneg : wrap64 (off + p.max_blocksize) < 0 := by
          rw [wrap64_eq_sub (by omega) (by omega)]
          omega
        rw [Nat.add_right_comm, Nat.add_right_comm rounds 1 k']
        exact sweep_of_neg hne hneg _ _
    rw [sweep, sweep, hnext]

/-- Fuel for every answer is enough, too. -/
theorem sweep_congr_script (hne : p.max_blocksize ≠ 0) {fuel fuel' : ℕ} {off : ℤ} {m : Machine}
    (hfuel : m.script.length < fuel) (hfuel' : m.script.length < fuel') :
    sweep p size fuel off m = sweep p size fuel' off m := by
  induction fuel generalizing fuel' off m with
  | zero => omega
  | succ fuel ih =>
    obtain ⟨k', rfl⟩ := Nat.exists_eq_succ_of_ne_zero (show fuel' ≠ 0 by omega)
    rw [sweep, sweep]
    split
    · refine bind_congr_ok fun failed m₁ hins ↦ ?_
      cases failed with
      | true => rfl
      | false =>
        have hused := insert_block_script hne hins
        exact ih (by omega) (by omega)
    · rfl

end Sweep

/-- `cleanup` with a bound on the rounds of its loop. -/
def cleanup_within (rounds : ℕ) (p : Params) (st_size : ℤ) (mode : ℕ) : Sys Bool := do
  fill_block (List.replicate p.max_blocksize 0)
  orStop (p.max_blocksize ≠ 0) .sigfpe
  sweep p (sweep_size p st_size mode) rounds 0

theorem cleanup_within_eq {p : Params} (hblock : p.max_blocksize < 2 ^ 63) {st_size : ℤ} {mode : ℕ}
    {rounds : ℕ} (hrounds : (sweep_size p st_size mode).toNat + 1 < rounds) :
    cleanup_within rounds p st_size mode = cleanup p st_size mode := by
  funext m
  refine bind_congr_ok fun _ m₁ _ ↦ bind_congr_ok fun _ m₂ hstop ↦ ?_
  obtain ⟨hne, rfl⟩ := orStop_eq_ok.mp hstop
  -- the bound of the model is a number of answers, so compare both with a larger one
  let fuel := max rounds (m₁.script.length + 1)
  have hsize : sweep_size p st_size mode
      < 0 + ((sweep_size p st_size mode).toNat + 1 : ℕ) * p.max_blocksize := by
    have hle := Nat.le_mul_of_pos_right ((sweep_size p st_size mode).toNat + 1) (Nat.pos_of_ne_zero hne)
    have hle' : (((sweep_size p st_size mode).toNat + 1 : ℕ) : ℤ)
        ≤ ((sweep_size p st_size mode).toNat + 1 : ℕ) * p.max_blocksize := by exact_mod_cast hle
    omega
  have hmany : sweep p (sweep_size p st_size mode) rounds 0
      = sweep p (sweep_size p st_size mode) fuel 0 :=
    sweep_congr hne hblock (le_refl 0) (by norm_num) hsize hrounds
      (hrounds.trans_le (le_max_left _ _))
  rw [hmany]
  exact sweep_congr_script hne (Nat.lt_of_succ_le (le_max_right _ _)) (Nat.lt_succ_self _)

/-- The loop of `insert_chain` as it is written: a block that would cross the end makes itself the last
one. The fuel bounds the rounds. -/
def chain_loop (p : Params) (length : ℕ) : ℕ → ℤ → ℕ → Sys Bool
  | 0, _, _ => fun _ ↦ .error .script
  | fuel + 1, offset, repetitions_count =>
    if repetitions_count = 0 then return false
    else do
      let crosses := toU64 (offset + length) > toU64 p.size
      let offset := if crosses then 0 else offset
      let repetitions_count := if crosses then 1 else repetitions_count
      if ← insert_link p length offset then return true
      chain_loop p length fuel (wrap64 (offset + length)) (repetitions_count - 1)

/-- **The loop of a chain ends** after as many rounds as there are repetitions, at most. -/
theorem chain_loop_eq (p : Params) (length : ℕ) {fuel : ℕ} {offset : ℤ} {repetitions_count : ℕ}
    (hfuel : repetitions_count < fuel) : chain_loop p length fuel offset repetitions_count
      = insert_links p length repetitions_count offset := by
  induction repetitions_count generalizing fuel offset with
  | zero =>
    obtain ⟨k, rfl⟩ := Nat.exists_eq_succ_of_ne_zero hfuel.ne'
    rfl
  | succ n ih =>
    obtain ⟨k, rfl⟩ := Nat.exists_eq_add_of_lt hfuel
    rw [chain_loop, if_neg (Nat.succ_ne_zero n), insert_links]
    -- after a block at the start the count is 0
    by_cases hcross : toU64 (offset + length) > toU64 p.size
    · have hdone : chain_loop p length (n + 1 + k) (wrap64 (0 + length)) (1 - 1) = pure false := by
        rw [Nat.add_right_comm]
        rfl
      simp only [hcross, if_true, hdone]
      exact insert_all_singleton p length 0
    · simp only [hcross, if_false, Nat.add_sub_cancel]
      rw [ih (show n < n + 1 + k by omega)]

/-! ## Divisions -/

/-- `main` comes to its iteration `i` in the state `m`. -/
inductive ComesTo (p : Params) (env : Env) : ℕ → Machine → Prop
  /-- After the pre-read, whatever that returned. -/
  | first {failed : Bool} {m : Machine} (opened : prepare env = false)
      (allocated : p.max_blocksize < 2 ^ 63)
      (preread : cleanup p env.st_size 1 (start p env) = .ok (failed, m)) :
      ComesTo p env 0 { m with trace := [] }
  /-- After a chain that did not fail. -/
  | next {i : ℕ} {m m' : Machine} (before : ComesTo p env i m) (more : i < p.num_iterations)
      (uninterrupted : env.interrupted i = false) (chain : insert_chain p m = .ok (false, m')) :
      ComesTo p env (i + 1) m'

/-- `main` calls `insert_chain` in the state `m`. -/
def CallsChain (p : Params) (env : Env) (m : Machine) : Prop :=
  ∃ i : ℕ, ComesTo p env i m ∧ i < p.num_iterations ∧ env.interrupted i = false

/-- `main` calls `cleanup` for the last time in the state `m`. -/
def CallsCleanup (p : Params) (env : Env) (m : Machine) : Prop :=
  ∃ i : ℕ, ComesTo p env i m ∧ (p.num_iterations ≤ i ∨ env.interrupted i = true)

/-- A division or remainder in `cleanup` or `insert_chain` that a run of `main` comes to, by its divisor.
The division of `syncp` by the constant `MAX_FSYNC_PART` is not listed. -/
inductive DividesBy (p : Params) (env : Env) : ℤ → Prop
  /-- `size / p->max_blocksize` in the pre-read. -/
  | preread {m : Machine} (opened : prepare env = false) (allocated : p.max_blocksize < 2 ^ 63)
      (filled : fill_block (List.replicate p.max_blocksize 0) (start p env) = .ok ((), m)) :
      DividesBy p env p.max_blocksize
  /-- `offset %= p->size`. -/
  | offset {m m' : Machine} {o c l : ℕ} (chain : CallsChain p env m) (draws : Draws m m' o c l) :
      DividesBy p env p.size
  /-- `length %= p->max_blocksize`. -/
  | length {m m' : Machine} {o c l : ℕ} {offset : ℤ} (chain : CallsChain p env m)
      (draws : Draws m m' o c l) (reduced : reduce_offset p o m' = .ok (offset, m')) :
      DividesBy p env p.max_blocksize
  /-- `repetitions_count %= p->max_chainlen`, by an unsigned number. -/
  | repetitions {m m' : Machine} {o c l length : ℕ} {offset : ℤ} (chain : CallsChain p env m)
      (draws : Draws m m' o c l) (reduced : reduce_offset p o m' = .ok (offset, m'))
      (reduced' : remainder l p.max_blocksize m' = .ok (length, m')) :
      DividesBy p env (toU32 p.max_chainlen)
  /-- `size / p->max_blocksize` in the final cleanup. -/
  | cleanup {m m' : Machine} (last : CallsCleanup p env m)
      (filled : fill_block (List.replicate p.max_blocksize 0) m = .ok ((), m')) :
      DividesBy p env p.max_blocksize

section Traps

variable {p : Params} {env : Env} {m : Machine}

theorem ComesTo.sized {i : ℕ} (h : ComesTo p env i m) : m.Sized p.max_blocksize := by
  induction h with
  | first _ _ hpre =>
    have hm := (cleanup_reports p env.st_size 1).sized (sized_start p env) hpre
    exact ⟨hm.buf1, hm.buf2⟩
  | next _ _ _ hchain ih => exact (insert_chain_reports p).sized ih hchain

/-- A caller of the random source stops where that does, or later. -/
theorem flag_error {α : Type} {x : Sys (Bool × α)} {k : Bool × α → Sys Bool} {stop : Stop}
    (hk : ∀ a, k (true, a) = pure true) (hx : x m ≠ .error stop) (h : (x >>= k) m = .error stop) :
    ∃ a m', x m = .ok ((false, a), m') ∧ k (false, a) m' = .error stop := by
  rcases bind_eq_error.mp h with herr | ⟨⟨failed, a⟩, m', hrun, herr⟩
  · exact absurd herr hx
  · cases failed with
    | true =>
      rw [hk] at herr
      cases herr
    | false => exact ⟨a, m', hrun, herr⟩

theorem orStop_error {c : Prop} [Decidable c] {stop stop' : Stop} (h : orStop c stop m = .error stop') :
    ¬c := by
  rw [orStop] at h
  split at h
  · cases h
  · next hc => exact hc

/-- The remainder by the size is the one that can also overflow. -/
theorem reduce_offset_error {o : ℕ} {stop : Stop} (h : reduce_offset p o m = .error stop) :
    p.size = 0 ∨ p.size = -1 := by
  rcases bind_eq_error.mp h with herr | ⟨_, _, -, herr⟩
  · by_contra hne
    rw [not_or] at hne
    exact orStop_error herr ⟨hne.1, fun h ↦ hne.2 h.1⟩
  · cases herr

theorem remainder_error {x k : ℕ} {stop : Stop} (h : remainder x k m = .error stop) : k = 0 := by
  rcases bind_eq_error.mp h with herr | ⟨_, _, -, herr⟩
  · exact not_not.mp (orStop_error herr)
  · cases herr

/-- A chain traps at one of its three divisions. -/
theorem insert_chain_sigfpe (hcall : CallsChain p env m) (h : insert_chain p m = .error .sigfpe) :
    DividesBy p env 0 ∨ p.size = -1 := by
  have hstop : Stop.sigfpe ≠ .script := by decide
  obtain ⟨i, hcomes, -⟩ := id hcall
  have hm := hcomes.sized
  obtain ⟨o, m₁, ho, h⟩ := flag_error (fun _ ↦ rfl) (RANDOMIZE_avoids hstop 8 m hm) h
  have hm₁ := (RANDOMIZE_reports 8).sized hm ho
  obtain ⟨c, m₂, hc, h⟩ := flag_error (fun _ ↦ rfl) (RANDOMIZE_avoids hstop 4 m₁ hm₁) h
  have hm₂ := (RANDOMIZE_reports 4).sized hm₁ hc
  obtain ⟨l, m₃, hl, h⟩ := flag_error (fun _ ↦ rfl) (RANDOMIZE_avoids hstop 8 m₂ hm₂) h
  have hdraws : Draws m m₃ o c l := ⟨ho, hc, hl⟩
  rcases bind_eq_error.mp h with herr | ⟨offset, m₄, hoffset, h⟩
  · rcases reduce_offset_error herr with hzero | hone
    · exact .inl (hzero ▸ .offset hcall hdraws)
    · exact .inr hone
  obtain ⟨-, rfl⟩ := reduce_offset_eq_ok hoffset
  rcases bind_eq_error.mp h with herr | ⟨length, m₅, hlength, h⟩
  · have hdiv := DividesBy.length hcall hdraws hoffset
    rw [remainder_error herr] at hdiv
    exact .inl hdiv
  obtain ⟨hlt, rfl⟩ := remainder_ok hlength
  rcases bind_eq_error.mp h with herr | ⟨count, m₆, hcount, h⟩
  · have hdiv := DividesBy.repetitions hcall hdraws hoffset hlength
    rw [remainder_error herr] at hdiv
    exact .inl hdiv
  obtain ⟨-, rfl⟩ := remainder_ok hcount
  exact absurd h ((generate_block_avoids hstop hlt.le).orReturn (generate_block_reports hlt.le)
    (insert_links_avoids hstop p hlt.le _ _) m₃ (hdraws.sized hm))

theorem cleanup_sigfpe {st_size : ℤ} {mode : ℕ} (hm : m.Sized p.max_blocksize)
    (h : cleanup p st_size mode m = .error .sigfpe) : p.max_blocksize = 0 ∧
      ∃ m', fill_block (List.replicate p.max_blocksize 0) m = .ok ((), m') := by
  have hfill : (List.replicate p.max_blocksize (0 : UInt8)).length ≤ p.max_blocksize := by
    rw [List.length_replicate]
  rcases bind_eq_error.mp h with herr | ⟨_, m₁, hfilled, h⟩
  · exact absurd herr (fill_block_avoids hfill m hm)
  have hm₁ := (fill_block_reports _).sized hm hfilled
  rcases bind_eq_error.mp h with herr | ⟨_, m₂, hne, h⟩
  · exact ⟨not_not.mp (orStop_error herr), m₁, hfilled⟩
  obtain ⟨-, rfl⟩ := orStop_eq_ok.mp hne
  exact absurd h (sweep_avoids (by decide) rfl hm₁)

/-- Iterations from `i` on trap in a chain, or come to the final cleanup. -/
theorem iterate_sigfpe {n i : ℕ} (hcomes : ComesTo p env i m) (hn : n + i = p.num_iterations.toNat) :
    (iterate p env n i m = .error .sigfpe → DividesBy p env 0 ∨ p.size = -1) ∧
      ∀ m', iterate p env n i m = .ok (false, m') → CallsCleanup p env m' := by
  induction n generalizing i m with
  | zero =>
    constructor
    · intro h
      cases h
    · intro m' h
      obtain ⟨-, rfl⟩ := pure_eq_ok.mp h
      exact ⟨i, hcomes, .inl (by omega)⟩
  | succ n ih =>
    rw [iterate]
    split
    · next hintr =>
      constructor
      · intro h
        cases h
      · intro m' h
        obtain ⟨-, rfl⟩ := pure_eq_ok.mp h
        exact ⟨i, hcomes, .inr hintr⟩
    · next hintr =>
      have hmore : i < p.num_iterations := by omega
      have hcall : CallsChain p env m := ⟨i, hcomes, hmore, Bool.eq_false_iff.mpr hintr⟩
      constructor
      · intro h
        rcases bind_eq_error.mp h with herr | ⟨failed, m₁, hchain, h⟩
        · exact insert_chain_sigfpe hcall herr
        · cases failed with
          | true => cases h
          | false => exact (ih (.next hcomes hmore (Bool.eq_false_iff.mpr hintr) hchain) (by omega)).1 h
      · intro m' h
        obtain ⟨m₁, hchain, h⟩ := orReturn_ok h
        exact (ih (.next hcomes hmore (Bool.eq_false_iff.mpr hintr) hchain) (by omega)).2 m' h

/-- **Every trap of a run** is a division by zero, if it is not the remainder by a size of `-1`. -/
theorem main_sigfpe (h : main p env = .error .sigfpe) : DividesBy p env 0 ∨ p.size = -1 := by
  rw [main] at h
  split at h
  · cases h
  next hopen =>
  have hopened : prepare env = false := Bool.eq_false_iff.mpr hopen
  split at h
  · cases h
  next hblock =>
  have hallocated : p.max_blocksize < 2 ^ 63 := by omega
  split at h
  · next stop hpre =>
    obtain rfl := Except.error.inj h
    obtain ⟨hzero, m', hfilled⟩ := cleanup_sigfpe (sized_start p env) hpre
    have hdiv := DividesBy.preread hopened hallocated hfilled
    rw [hzero] at hdiv
    exact .inl hdiv
  next failed m₁ hpre =>
  have hfirst := ComesTo.first hopened hallocated hpre
  obtain ⟨htrap, hlast⟩ := iterate_sigfpe hfirst (Nat.add_zero _)
  split at h
  · next stop hcheck =>
    obtain rfl := Except.error.inj h
    rcases bind_eq_error.mp hcheck with herr | ⟨failed', m₂, hiter, hcheck⟩
    · exact htrap herr
    · cases failed' with
      | true => cases hcheck
      | false =>
        obtain ⟨i, hcomes, hover⟩ := hlast m₂ hiter
        obtain ⟨hzero, m', hfilled⟩ := cleanup_sigfpe hcomes.sized hcheck
        have hdiv := DividesBy.cleanup ⟨i, hcomes, hover⟩ hfilled
        rw [hzero] at hdiv
        exact .inl hdiv
  · cases h

end Traps

/-! ## Safe parameters -/

/-- **A safe run.** -/
structure Safe (p : Params) (env : Env) : Prop where
  /-- No division or remainder in `cleanup` or `insert_chain` has a zero divisor. -/
  divisors : ∀ d, DividesBy p env d → d ≠ 0
  /-- The buffers, of `max_blocksize` bytes, are not left. -/
  bounds : main p env ≠ .error .bounds
  /-- The loop of `cleanup` ends: from some number on, it makes no difference how many rounds it has. -/
  cleanup_ends : ∀ mode, ∃ rounds, ∀ more, rounds ≤ more →
    cleanup_within more p env.st_size mode = cleanup p env.st_size mode
  /-- So does the loop of `insert_chain`, wherever it starts. -/
  chain_ends : ∀ length offset repetitions_count, ∃ rounds, ∀ more, rounds ≤ more →
    chain_loop p length more offset repetitions_count = insert_links p length repetitions_count offset

/-- The parameters a run can cope with. -/
structure Params.Valid (p : Params) : Prop where
  block_pos : 1 ≤ p.max_blocksize
  /-- A buffer can be allocated. -/
  block_lt : p.max_blocksize < 2 ^ 63
  /-- If there are chains, there are divisors for them. -/
  divisors : 0 < p.num_iterations → p.size ≠ 0 ∧ toU32 p.max_chainlen ≠ 0

theorem Params.Valid.safe {p : Params} (h : p.Valid) (env : Env) : Safe p env where
  divisors := by
    have hblock : (p.max_blocksize : ℤ) ≠ 0 := Nat.cast_ne_zero.mpr (Nat.one_le_iff_ne_zero.mp h.block_pos)
    have hchain {m : Machine} (hcall : CallsChain p env m) : p.size ≠ 0 ∧ toU32 p.max_chainlen ≠ 0 := by
      obtain ⟨i, -, hmore, -⟩ := hcall
      exact h.divisors (by omega)
    intro d hdiv
    cases hdiv with
    | preread => exact hblock
    | offset hcall => exact (hchain hcall).1
    | length => exact hblock
    | repetitions hcall => exact Nat.cast_ne_zero.mpr (hchain hcall).2
    | cleanup => exact hblock
  bounds := main_bounds p h.block_lt env
  cleanup_ends mode := ⟨_, fun _ hmore ↦ cleanup_within_eq h.block_lt (Nat.lt_of_succ_le hmore)⟩
  chain_ends length _ count := ⟨count + 1, fun _ hmore ↦ chain_loop_eq p length (Nat.lt_of_succ_le hmore)⟩

/-! ### Unsafe parameters -/

section Unsafe

open Errno

/-- A file that cannot be read, and a random source of zeros. -/
def zeroSource (p : Params) : Env where
  file_opens := true
  random_opens := true
  st_size := 0
  interrupted _ := false
  garbage _ := 0
  script := (if 0 ≤ p.size then [.error EIO] else []) ++
    [.ok (List.replicate 8 0), .ok (List.replicate 4 0), .ok (List.replicate 8 0)]

variable {p : Params}

/-- A block that cannot be read. -/
theorem insert_block_unreadable {len : ℕ} (hlen : len ≠ 0) {m : Machine} (hbuf : len ≤ m.buf1.size)
    {script : List Reply} (hscript : m.script = .error EIO :: script) :
    ∃ m', insert_block 0 len 1 m = .ok (true, m') ∧ m'.script = script := by
  obtain ⟨n, rfl⟩ := Nat.exists_eq_succ_of_ne_zero hlen
  have hload : m.buf1.load 0 (n + 1) = some (m.buf1.slice 0 (n + 1)) :=
    Buffer.load_of_le (by rwa [Nat.zero_add])
  have hloop : safe_fileop_loop .pread m.script m.buf1 0 (n + 1) 0
      = .ok ⟨true, m.buf1, script, [.pread 0 (m.buf1.slice 0 (n + 1)).length (.error EIO)]⟩ := by
    rw [hscript, safe_fileop_loop, hload]
    rfl
  have hop := safe_fileop_eq_ok.mpr ⟨_, hloop, rfl, rfl, rfl⟩
  have hread : read_block 0 (n + 1) m = .ok (true, { m with
      script := script, trace := m.trace ++ [.pread 0 (m.buf1.slice 0 (n + 1)).length (.error EIO)] }) := by
    simp only [read_block, bind_eq_ok, get_eq_ok, modify_eq_ok, Prod.exists]
    exact ⟨_, _, ⟨rfl, rfl⟩, true, m.buf1, _, hop, (), _, rfl, rfl⟩
  exact ⟨_, bind_of_ok hread, rfl⟩

theorem fill_block_eq {data : List UInt8} {m : Machine} (h : data.length ≤ m.buf2.size) :
    fill_block data m = .ok ((), { m with buf2 := m.buf2.put 0 data }) := by
  simp only [fill_block, bind_eq_ok, get_eq_ok, orStop_eq_ok, modify_eq_ok]
  exact ⟨_, _, ⟨rfl, rfl⟩, (), _, ⟨h, rfl⟩, rfl⟩

/-- `cleanup` fills `buf2` with zeros and then sweeps. -/
theorem cleanup_eq_sweep (hne : p.max_blocksize ≠ 0) (st_size : ℤ) (mode : ℕ) {m : Machine}
    (hm : m.Sized p.max_blocksize) : cleanup p st_size mode m
      = sweep p (sweep_size p st_size mode) (m.script.length + 1) 0
        { m with buf2 := m.buf2.put 0 (List.replicate p.max_blocksize 0) } := by
  have hlen : (List.replicate p.max_blocksize (0 : UInt8)).length ≤ m.buf2.size := by
    rw [List.length_replicate, hm.buf2]
  rw [cleanup, bind_of_ok (fill_block_eq hlen), bind_of_ok (a := ()) (orStop_eq_ok.mpr ⟨hne, rfl⟩),
    bind_of_ok (get_eq_ok.mpr ⟨rfl, rfl⟩)]

/-- An empty file is swept as far as the size that is asked for. -/
theorem sweep_size_empty_nonneg_iff (hpos : 1 ≤ p.max_blocksize) (hlt : p.max_blocksize < 2 ^ 63) :
    0 ≤ sweep_size p 0 1 ↔ 0 ≤ p.size := by
  rw [sweep_size, if_pos rfl, zero_add, wrap64_eq_self (by omega) (by omega)]
  dsimp only
  split <;> omega

/-- The answers of `zeroSource` to a chain. -/
abbrev zeroReplies : List Reply :=
  [.ok (List.replicate 8 0), .ok (List.replicate 4 0), .ok (List.replicate 8 0)]

/-- The pre-read is over after its first block, which cannot be read, or without any. -/
theorem exists_preread (hpos : 1 ≤ p.max_blocksize) (hlt : p.max_blocksize < 2 ^ 63) :
    ∃ failed m, cleanup p 0 1 (start p (zeroSource p)) = .ok (failed, m) ∧ m.script = zeroReplies := by
  have hne : p.max_blocksize ≠ 0 := Nat.one_le_iff_ne_zero.mp hpos
  have hsize := sweep_size_empty_nonneg_iff hpos hlt
  rw [cleanup_eq_sweep hne 0 1 (sized_start p _), sweep]
  by_cases hp : 0 ≤ p.size
  -- the first block cannot be read
  · have hscript : (start p (zeroSource p)).script = .error EIO :: zeroReplies := by
      change (if 0 ≤ p.size then _ else _) ++ _ = _
      rw [if_pos hp, List.singleton_append]
    obtain ⟨m, hins, hm⟩ := insert_block_unreadable hne (m := { start p (zeroSource p) with
      buf2 := (start p (zeroSource p)).buf2.put 0 (List.replicate p.max_blocksize 0) }) (le_refl _) hscript
    rw [if_pos (hsize.mpr hp), bind_of_ok hins]
    exact ⟨true, m, rfl, hm⟩
  -- there is no block to read
  · have hscript : (start p (zeroSource p)).script = zeroReplies := by
      change (if 0 ≤ p.size then _ else _) ++ _ = _
      rw [if_neg hp, List.nil_append]
    rw [if_neg (mt hsize.mp hp)]
    exact ⟨false, _, rfl, hscript⟩

theorem exists_draws {m : Machine} (h : m.script = zeroReplies) : ∃ m', Draws m m' 0 0 0 := by
  obtain ⟨st, buf1, buf2, script, trace⟩ := m
  obtain rfl : script = _ := h
  exact ⟨_, ⟨rfl, rfl, rfl⟩⟩

/-- A chain whose numbers are all 0. -/
theorem exists_callsChain (hpos : 1 ≤ p.max_blocksize) (hlt : p.max_blocksize < 2 ^ 63)
    (hiter : 0 < p.num_iterations) :
    ∃ m m', CallsChain p (zeroSource p) m ∧ Draws m m' 0 0 0 := by
  obtain ⟨failed, m, hpre, hscript⟩ := exists_preread hpos hlt
  obtain ⟨m', hdraws⟩ := exists_draws (m := { m with trace := [] }) hscript
  exact ⟨_, m', ⟨0, .first rfl hlt hpre, by rwa [Nat.cast_zero], rfl⟩, hdraws⟩

theorem valid_of_safe (h : Safe p (zeroSource p)) : p.Valid := by
  have hlt : p.max_blocksize < 2 ^ 63 := by
    by_contra hge
    refine h.bounds ?_
    rw [main, if_neg (show ¬prepare (zeroSource p) = true from Bool.false_ne_true), if_pos (by omega)]
  have hpos : 1 ≤ p.max_blocksize := by
    by_contra hzero
    obtain hzero : p.max_blocksize = 0 := by omega
    have hdiv : DividesBy p (zeroSource p) p.max_blocksize :=
      .preread rfl hlt (fill_block_eq List.length_replicate.le)
    exact h.divisors _ hdiv (by rw [hzero, Nat.cast_zero])
  refine ⟨hpos, hlt, fun hiter ↦ ?_⟩
  obtain ⟨m, m', hcall, hdraws⟩ := exists_callsChain hpos hlt hiter
  have hsize : p.size ≠ 0 := h.divisors _ (.offset hcall hdraws)
  -- with an offset and a length the chain comes to its third division
  have hreduced : reduce_offset p 0 m' = .ok (chain_offset p 0, m') := by
    simp only [reduce_offset, bind_eq_ok, orStop_eq_ok]
    exact ⟨(), m', ⟨⟨hsize, fun h ↦ absurd h.2 (by decide)⟩, rfl⟩, rfl⟩
  have hreduced' : remainder 0 p.max_blocksize m' = .ok (0 % p.max_blocksize, m') := by
    rw [remainder_eq (Nat.one_le_iff_ne_zero.mp hpos)]
    rfl
  exact ⟨hsize, Nat.cast_ne_zero.mp (h.divisors _ (.repetitions hcall hdraws hreduced hreduced'))⟩

end Unsafe

/-- **Which parameters are safe.** -/
theorem safe_iff_valid (p : Params) : (∀ env, Safe p env) ↔ p.Valid :=
  ⟨fun h ↦ valid_of_safe (h _), fun h env ↦ h.safe env⟩

end ViTools.Fstest
