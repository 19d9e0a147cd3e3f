import ViTools.Fstest.Reports
import ViTools.Fstest.Chain
import ViTools.Fstest.File

/-!
# Errors and verdicts

Every function of `fstest` keeps the contract `Reports`, up to the iterations and the final sweep. The
exception is in `main`: it calls `cleanup` for the pre-read and drops what that returns. After an error
there the run goes on, with bytes missing in the checksums that the final sweep will find, and a file
that is read correctly from then on ends in `fail`.
-/

namespace ViTools.Fstest

/-! ## The functions -/

section Functions

variable {B : ℕ}

theorem safe_fileop_reports {func : PFunc} {pos : ℤ} {len : ℕ} {buf : Buffer} (hlen : len ≤ buf.size) :
    Reports B (safe_fileop func pos len buf) Prod.fst where
  done := by
    intro m a m' hm h
    obtain ⟨t, ht, hfailed, -, rfl⟩ := safe_fileop_eq_ok.mp h
    refine ⟨⟨hm.buf1, hm.buf2⟩, t.events, rfl, ?_⟩
    rw [← hfailed]
    exact safe_fileop_loop_failed_iff ht
  extend := by
    intro m a m' l hm h
    obtain ⟨t, ht, hfailed, hbuf, rfl⟩ := safe_fileop_eq_ok.mp h
    exact safe_fileop_eq_ok.mpr ⟨_, safe_fileop_loop_extend l ht, hfailed, hbuf, rfl⟩
  waits := by
    intro m errno hm hhard h
    have hloop := exceptMap_eq_error.mp h
    obtain ⟨t, ht, hfailed⟩ := safe_fileop_loop_waits hhard (by rwa [Nat.zero_add]) hloop
    exact ⟨(t.failed, t.buf), _, safe_fileop_eq_ok.mpr ⟨t, ht, rfl, rfl, rfl⟩, hfailed⟩

theorem size_of_returns {func : PFunc} {pos : ℤ} {len : ℕ} {buf : Buffer} {a : Bool × Buffer}
    (h : Returns B (safe_fileop func pos len buf) a) : a.2.size = buf.size := by
  obtain ⟨m, m', -, hx⟩ := h
  obtain ⟨t, ht, -, hbuf, -⟩ := safe_fileop_eq_ok.mp hx
  rw [← hbuf]
  exact safe_fileop_loop_size ht

theorem keeps_buf1 {b : Buffer} (hb : b.size = B) : Keeps B fun m ↦ { m with buf1 := b } :=
  ⟨fun _ hm ↦ ⟨hb, hm.buf2⟩, fun _ ↦ rfl, fun _ _ ↦ rfl⟩

theorem keeps_buf2 {b : Buffer} (hb : b.size = B) : Keeps B fun m ↦ { m with buf2 := b } :=
  ⟨fun _ hm ↦ ⟨hm.buf1, hb⟩, fun _ ↦ rfl, fun _ _ ↦ rfl⟩

/-- After a transfer the bytes go into the checksums. -/
theorem checked_reports {f : Machine → Machine} (hf : Keeps B f) (c : Prop) [Decidable c] (pos : ℤ)
    (vs : List UInt8) : Reports B (do
      modify f
      orStop c .bounds
      modify fun m ↦ { m with st := update_xors m.st pos vs }
      return false) id := by
  have hst : Keeps B fun m ↦ { m with st := update_xors m.st pos vs } :=
    ⟨fun _ hm ↦ ⟨hm.buf1, hm.buf2⟩, fun _ ↦ rfl, fun _ _ ↦ rfl⟩
  refine .andThen (.modify hf) fun _ ↦ ?_
  refine .andThen (.orStop (by decide)) fun _ ↦ ?_
  exact .andThen (.modify hst) fun _ ↦ .pure rfl

theorem read_block_reports (pos : ℤ) {len : ℕ} (hlen : len ≤ B) : Reports B (read_block pos len) id := by
  refine .get (fun m hm ↦ .bindFlag (safe_fileop_reports (by rwa [hm.buf1])) ?_ ?_) fun _ _ ↦ rfl
  · intro buf hret
    exact checked_reports (keeps_buf1 ((size_of_returns hret).trans hm.buf1)) _ _ _
  · intro buf hret
    exact .modify (keeps_buf1 ((size_of_returns hret).trans hm.buf1)) (.pure rfl)

theorem write_block_reports (pos : ℤ) {len : ℕ} (hlen : len ≤ B) :
    Reports B (write_block pos len) id := by
  refine .get (fun m hm ↦ .bindFlag (safe_fileop_reports (by rwa [hm.buf2])) ?_ ?_) fun _ _ ↦ rfl
  · intro buf hret
    exact checked_reports (keeps_buf2 ((size_of_returns hret).trans hm.buf2)) _ _ _
  · intro buf hret
    exact .modify (keeps_buf2 ((size_of_returns hret).trans hm.buf2)) (.pure rfl)

theorem fsync_reports : Reports B fsync fun _ ↦ false where
  done := by
    intro m b m' hm h
    obtain rfl := modify_eq_ok.mp h
    exact ⟨⟨hm.buf1, hm.buf2⟩, [.fsync], rfl, fun h ↦ absurd h Bool.false_ne_true,
      fun ⟨e, he, herr⟩ ↦ by rw [List.mem_singleton.mp he] at herr; exact absurd herr id⟩
  extend := by
    intro m b m' l hm h
    obtain rfl := modify_eq_ok.mp h
    rfl
  waits := by
    intro m errno hm hhard h
    cases h

theorem insert_block_reports (pos : ℤ) {len : ℕ} (hlen : len ≤ B) (mode : ℕ) :
    Reports B (insert_block pos len mode) id := by
  have hsync : Reports B (if mode = 0 then (do fsync; return false) else return false) id :=
    .ite (fun _ ↦ .andThen fsync_reports fun _ ↦ .pure rfl) fun _ ↦ .pure rfl
  rw [insert_block]
  refine .orReturn (read_block_reports pos hlen) ?_
  exact .ite (fun _ ↦ .orReturn (write_block_reports pos hlen) hsync) fun _ ↦ hsync

theorem RANDOMIZE_reports (size : ℕ) : Reports B (RANDOMIZE size) Prod.fst :=
  .bindFlag (safe_fileop_reports (le_refl size)) (fun _ _ ↦ .pure rfl) fun _ _ ↦ .pure rfl

theorem fill_block_reports (data : List UInt8) : Reports B (fill_block data) fun _ ↦ false := by
  refine .get (fun m hm ↦ .andThen (.orStop (by decide)) fun _ ↦ .modify ?_) fun _ _ ↦ rfl
  exact ⟨fun m hm ↦ ⟨hm.buf1, hm.buf2⟩, fun _ ↦ rfl, fun _ _ ↦ rfl⟩

/-- A caller of `RANDOMIZE` returns at once if there is no number. -/
theorem RANDOMIZE_orReturn {size : ℕ} {k : Bool × ℕ → Sys Bool}
    (hfail : ∀ n, k (true, n) = Pure.pure true) (hk : ∀ n, Reports B (k (false, n)) id) :
    Reports B (RANDOMIZE size >>= k) id := by
  refine .bindFlag (RANDOMIZE_reports size) (fun n _ ↦ hk n) fun n _ ↦ ?_
  rw [hfail]
  exact .pure rfl

theorem generate_block_reports {len : ℕ} (hlen : len ≤ B) : Reports B (generate_block len) id := by
  refine RANDOMIZE_orReturn (fun _ ↦ rfl) fun mode ↦ ?_
  simp only [Bool.false_eq_true, if_false]
  refine .ite (fun _ ↦ ?_) fun _ ↦ .ite (fun _ ↦ ?_) fun _ ↦ ?_
  · refine .get (fun m hm ↦ .bindFlag (safe_fileop_reports (by rwa [hm.buf2])) ?_ ?_) fun _ _ ↦ rfl
    · intro buf hret
      exact .andThen (.modify (keeps_buf2 ((size_of_returns hret).trans hm.buf2))) fun _ ↦ .pure rfl
    · intro buf hret
      exact .modify (keeps_buf2 ((size_of_returns hret).trans hm.buf2)) (.pure rfl)
  · refine RANDOMIZE_orReturn (fun _ ↦ rfl) fun c ↦ ?_
    exact .andThen (fill_block_reports (List.replicate len (UInt8.ofNat c))) fun _ ↦ .pure rfl
  · refine RANDOMIZE_orReturn (fun _ ↦ rfl) fun c ↦ ?_
    exact .andThen (fill_block_reports _) fun _ ↦ .pure rfl

theorem choose_sync_reports (p : Params) : Reports B (choose_sync p) Prod.fst := by
  refine .ite (fun _ ↦ .pure rfl) fun _ ↦ .ite (fun _ ↦ .pure rfl) fun _ ↦ ?_
  exact .bindFlag (RANDOMIZE_reports 4) (fun _ _ ↦ .pure rfl) fun _ _ ↦ .pure rfl

theorem insert_link_reports (p : Params) {length : ℕ} (hlen : length ≤ B) (offset : ℤ) :
    Reports B (insert_link p length offset) id :=
  .bindFlag (choose_sync_reports p) (fun _ _ ↦ insert_block_reports offset hlen _) fun _ _ ↦ .pure rfl

theorem insert_links_reports (p : Params) {length : ℕ} (hlen : length ≤ B) (repetitions_count : ℕ)
    (offset : ℤ) : Reports B (insert_links p length repetitions_count offset) id := by
  induction repetitions_count generalizing offset with
  | zero => exact .pure rfl
  | succ n ih =>
    exact .ite (fun _ ↦ insert_link_reports p hlen 0) fun _ ↦
      .orReturn (insert_link_reports p hlen offset) (ih _)

theorem reduce_offset_reports (p : Params) (r : ℕ) :
    Reports B (reduce_offset p r) fun _ ↦ false :=
  .andThen (.orStop (by decide)) fun _ ↦ .pure rfl

theorem remainder_reports (x m : ℕ) : Reports B (remainder x m) fun _ ↦ false :=
  .andThen (.orStop (by decide)) fun _ ↦ .pure rfl

section Draws

variable {m m' : Machine} {o c l : ℕ} (hm : m.Sized B)
include hm

theorem Draws.sized (h : Draws m m' o c l) : m'.Sized B := by
  obtain ⟨hoffset, hcount, hlength⟩ := h
  have hm₁ := (RANDOMIZE_reports 8).sized hm hoffset
  have hm₂ := (RANDOMIZE_reports 4).sized hm₁ hcount
  exact (RANDOMIZE_reports 8).sized hm₂ hlength

theorem Draws.extend (h : Draws m m' o c l) (script : List Reply) :
    Draws (m.extend script) (m'.extend script) o c l := by
  obtain ⟨hoffset, hcount, hlength⟩ := h
  have hm₁ := (RANDOMIZE_reports 8).sized hm hoffset
  have hm₂ := (RANDOMIZE_reports 4).sized hm₁ hcount
  exact ⟨(RANDOMIZE_reports 8).extend script hm hoffset, (RANDOMIZE_reports 4).extend script hm₁ hcount,
    (RANDOMIZE_reports 8).extend script hm₂ hlength⟩

end Draws

theorem insert_chain_reports (p : Params) : Reports p.max_blocksize (insert_chain p) id := by
  refine RANDOMIZE_orReturn (fun _ ↦ rfl) fun offset ↦ ?_
  refine RANDOMIZE_orReturn (fun _ ↦ rfl) fun repetitions_count ↦ ?_
  refine RANDOMIZE_orReturn (fun _ ↦ rfl) fun length ↦ ?_
  refine .andThen (reduce_offset_reports p offset) fun offset ↦ ?_
  refine .bind (remainder_reports length p.max_blocksize) ?_ fun _ _ h ↦ absurd h Bool.false_ne_true
  rintro length ⟨m, m', -, hlength⟩ -
  have hlen : length ≤ p.max_blocksize := (remainder_ok hlength).1.le
  refine .andThen (remainder_reports _ _) fun repetitions_count ↦ ?_
  exact .orReturn (generate_block_reports hlen) (insert_links_reports p hlen _ _)

theorem iterate_reports (p : Params) (env : Env) (n i : ℕ) :
    Reports p.max_blocksize (iterate p env n i) id := by
  induction n generalizing i with
  | zero => exact .pure rfl
  | succ n ih =>
    exact .ite (fun _ ↦ .pure rfl) fun _ ↦ .orReturn (insert_chain_reports p) (ih _)

/-! ### The sweep -/

/-- Reading a block uses up an answer. -/
theorem insert_block_script {pos : ℤ} {len : ℕ} (hlen : len ≠ 0) {m m' : Machine}
    (h : insert_block pos len 1 m = .ok (false, m')) : m'.script.length < m.script.length := by
  rw [insert_block] at h
  obtain ⟨m₁, hread, h⟩ := orReturn_ok h
  obtain ⟨-, rfl⟩ := pure_eq_ok.mp h
  simp only [read_block, bind_eq_ok, get_eq_ok, safe_fileop_eq_ok, modify_eq_ok, Prod.exists] at hread
  obtain ⟨_, _, ⟨rfl, rfl⟩, failed, buf, m₂, ⟨t, ht, rfl, rfl, rfl⟩, _, m₃, rfl, h⟩ := hread
  have hused := (safe_fileop_loop_script ht).2 hlen
  split at h
  · exact absurd (pure_eq_ok.mp h).1 (by decide)
  · simp only [bind_eq_ok, orStop_eq_ok, modify_eq_ok, pure_eq_ok] at h
    obtain ⟨_, _, ⟨-, rfl⟩, _, _, rfl, -, rfl⟩ := h
    exact hused

variable {p : Params} {size : ℤ}

theorem sweep_done {fuel : ℕ} {off : ℤ} {m m' : Machine} {failed : Bool}
    (hm : m.Sized p.max_blocksize) (h : sweep p size fuel off m = .ok (failed, m')) :
    m'.Sized p.max_blocksize ∧
      ∃ es, m'.trace = m.trace ++ es ∧ (failed = true ↔ ∃ e ∈ es, e.IOError) := by
  induction fuel generalizing off m with
  | zero => cases h
  | succ fuel ih =>
    have hstop : Reports p.max_blocksize (Pure.pure false : Sys Bool) id := .pure rfl
    rw [sweep] at h
    split at h
    · obtain ⟨failed₁, m₁, hins, hk⟩ := bind_eq_ok.mp h
      obtain ⟨hm₁, es, hes, hiff⟩ := (insert_block_reports off (le_refl _) 1).done hm hins
      cases failed₁ with
      | true =>
        obtain ⟨rfl, rfl⟩ := pure_eq_ok.mp hk
        exact ⟨hm₁, es, hes, hiff⟩
      | false =>
        obtain ⟨hm', fs, hfs, hiff'⟩ := ih hm₁ hk
        have hquiet : ¬∃ e ∈ es, e.IOError := by
          rw [← hiff]
          exact Bool.false_ne_true
        refine ⟨hm', es ++ fs, by rw [hfs, hes, List.append_assoc], ?_⟩
        rw [hiff', exists_ioError_append hquiet]
    · exact hstop.done hm h

/-- More answers and more fuel change nothing. -/
theorem sweep_extend {fuel : ℕ} {off : ℤ} {m m' : Machine} {failed : Bool} (k : ℕ) (l : List Reply)
    (hm : m.Sized p.max_blocksize) (h : sweep p size fuel off m = .ok (failed, m')) :
    sweep p size (fuel + k) off (m.extend l) = .ok (failed, m'.extend l) := by
  induction fuel generalizing off m with
  | zero => cases h
  | succ fuel ih =>
    rw [Nat.succ_add]
    rw [sweep] at h ⊢
    split at h
    · next hle =>
      obtain ⟨failed₁, m₁, hins, hk⟩ := bind_eq_ok.mp h
      have hreports := insert_block_reports off (le_refl p.max_blocksize) 1
      have hm₁ := hreports.sized hm hins
      rw [if_pos hle, bind_of_ok (hreports.extend l hm hins)]
      cases failed₁ with
      | true =>
        obtain ⟨rfl, rfl⟩ := pure_eq_ok.mp hk
        rfl
      | false => exact ih hm₁ hk
    · next hgt =>
      obtain ⟨rfl, rfl⟩ := pure_eq_ok.mp h
      rw [if_neg hgt]
      rfl

/-- A sweep with fuel to spare waits only for answers. -/
theorem sweep_waits (hne : p.max_blocksize ≠ 0) {fuel fuel' : ℕ} {off : ℤ} {m : Machine}
    {errno : Errno} (hm : m.Sized p.max_blocksize) (hfuel : m.script.length < fuel)
    (hfuel' : fuel ≤ fuel') (hhard : errno.Hard) (h : sweep p size fuel off m = .error .script) :
    ∃ failed m', sweep p size fuel' off (m.extend [.error errno]) = .ok (failed, m') ∧
      failed = true := by
  induction fuel generalizing fuel' off m with
  | zero => omega
  | succ fuel ih =>
    obtain ⟨fuel', rfl⟩ := Nat.exists_eq_succ_of_ne_zero (show fuel' ≠ 0 by omega)
    have hreports := insert_block_reports off (le_refl p.max_blocksize) 1
    rw [sweep] at h ⊢
    split at h
    · next hle =>
      rw [if_pos hle]
      rcases bind_eq_error.mp h with hwait | ⟨failed, m₁, hins, hwait⟩
      · obtain ⟨failed, m₁, hins, hfailed⟩ := hreports.waits hm hhard hwait
        rw [bind_of_ok hins, show failed = true from hfailed]
        exact ⟨true, m₁, rfl, rfl⟩
      · have hm₁ := hreports.sized hm hins
        rw [bind_of_ok (hreports.extend _ hm hins)]
        cases failed with
        | true => cases hwait
        | false =>
          have hused := insert_block_script hne hins
          exact ih hm₁ (by omega) (by omega) hwait
    · cases h

theorem cleanup_reports (p : Params) (st_size : ℤ) (mode : ℕ) :
    Reports p.max_blocksize (cleanup p st_size mode) id := by
  refine .andThen (fill_block_reports _) fun _ ↦ ?_
  by_cases hne : p.max_blocksize ≠ 0
  · refine .andThen (.orStop (by decide)) fun _ ↦ ?_
    -- the fuel is the number of answers, which grows with them
    constructor
    · intro m a m' hm h
      exact sweep_done hm h
    · intro m a m' l hm h
      have hmore := sweep_extend l.length l hm h
      have hlen : (m.extend l).script.length + 1 = m.script.length + 1 + l.length := by
        rw [Machine.extend, List.length_append, Nat.add_right_comm]
      rw [← hlen] at hmore
      exact hmore
    · intro m errno hm hhard h
      refine sweep_waits hne hm (Nat.lt_succ_self _) ?_ hhard h
      rw [Machine.extend, List.length_append]
      omega
  · constructor
    · intro m a m' hm h
      obtain ⟨_, _, hstop, -⟩ := bind_eq_ok.mp h
      exact absurd (orStop_eq_ok.mp hstop).1 hne
    · intro m a m' l hm h
      obtain ⟨_, _, hstop, -⟩ := bind_eq_ok.mp h
      exact absurd (orStop_eq_ok.mp hstop).1 hne
    · intro m errno hm hhard h
      rcases bind_eq_error.mp h with hstop | ⟨_, _, hstop, -⟩
      · rw [orStop, if_neg hne] at hstop
        cases hstop
      · exact absurd (orStop_eq_ok.mp hstop).1 hne

theorem check_reports (p : Params) (env : Env) : Reports p.max_blocksize (check p env) id :=
  .orReturn (iterate_reports p env _ 0) (cleanup_reports p env.st_size 0)

end Functions

/-! ## The whole program -/

/-- The environment with one more answer. -/
def Env.answering (env : Env) (r : Reply) : Env := { env with script := env.script ++ [r] }

/-- The program does not look ahead. -/
theorem iterate_answering (p : Params) (env : Env) (r : Reply) (n i : ℕ) :
    iterate p (env.answering r) n i = iterate p env n i := by
  induction n generalizing i with
  | zero => rfl
  | succ n ih =>
    have hinterrupted : (env.answering r).interrupted i = env.interrupted i := rfl
    rw [iterate, iterate, hinterrupted]
    simp only [ih]

theorem check_answering (p : Params) (env : Env) (r : Reply) :
    check p (env.answering r) = check p env := by
  rw [check, check, iterate_answering]
  rfl

theorem sized_start (p : Params) (env : Env) : (start p env).Sized p.max_blocksize := ⟨rfl, rfl⟩

/-- An error of a run is one that `main` reports. -/
def Exit.Reported (exit : Exit) : Prop :=
  (∃ e ∈ exit.preread ++ exit.rest, e.IOError) → exit.code = 1 ∧ exit.verdict = none

/-- A run that made calls has gone through the pre-read and the rest. -/
theorem main_inv {p : Params} {env : Env} {exit : Exit} (h : main p env = .ok exit) :
    (prepare env = true ∧ exit.code = 1 ∧ exit.verdict = none ∧ exit.preread = [] ∧ exit.rest = []) ∨
      ∃ failed m₁ failed' m₂, cleanup p env.st_size 1 (start p env) = .ok (failed, m₁) ∧
        check p env { m₁ with trace := [] } = .ok (failed', m₂) ∧ exit.preread = m₁.trace ∧
        exit.rest = m₂.trace ∧ (failed' = true ↔ exit.code = 1 ∧ exit.verdict = none) := by
  rw [main] at h
  split at h
  · next hclosed =>
    cases h
    exact .inl ⟨hclosed, rfl, rfl, rfl, rfl⟩
  split at h
  · cases h
  split at h
  · cases h
  next failed m₁ hpre =>
  split at h
  · cases h
  next failed' m₂ hcheck =>
  refine .inr ⟨failed, m₁, failed', m₂, hpre, hcheck, ?_⟩
  cases failed' with
  | true =>
    cases h
    exact ⟨rfl, rfl, fun _ ↦ ⟨rfl, rfl⟩, fun _ ↦ rfl⟩
  | false =>
    cases h
    rw [if_neg Bool.false_ne_true, final_check]
    split
    · exact ⟨rfl, rfl, fun h ↦ absurd h Bool.false_ne_true, fun h ↦ absurd h.1 Nat.zero_ne_one⟩
    · exact ⟨rfl, rfl, fun h ↦ absurd h Bool.false_ne_true, fun h ↦ absurd h.1 (Nat.succ_ne_self 1)⟩

/-- After the pre-read, an error is what makes `main` return 1. -/
theorem reported_iff {p : Params} {env : Env} {exit : Exit} (h : main p env = .ok exit) :
    exit.Reported ↔ (∀ e ∈ exit.preread, ¬e.IOError) ∨ ∃ e ∈ exit.rest, e.IOError := by
  rw [Exit.Reported]
  rcases main_inv h with ⟨-, hcode, hverdict, hpre, hrest⟩ |
    ⟨failed, m₁, failed', m₂, hcleanup, hcheck, hpre, hrest, hfailed⟩
  · rw [hpre]
    exact ⟨fun _ ↦ .inl (List.forall_mem_nil _), fun _ _ ↦ ⟨hcode, hverdict⟩⟩
  · have hm₁ := (cleanup_reports p env.st_size 1).sized (sized_start p env) hcleanup
    have hm : Machine.Sized p.max_blocksize { m₁ with trace := [] } := ⟨hm₁.buf1, hm₁.buf2⟩
    have hiff : failed' = true ↔ ∃ e ∈ exit.rest, e.IOError := by
      rw [hrest]
      exact (check_reports p env).failed_iff hm hcheck (List.nil_append _).symm
    rw [← hfailed, hiff]
    simp only [List.mem_append, or_and_right, exists_or]
    constructor
    · intro hreported
      by_cases herr : ∃ e ∈ exit.preread, e.IOError
      · exact .inr (hreported (.inl herr))
      · exact .inl fun e he herror ↦ herr ⟨e, he, herror⟩
    · rintro (hquiet | hrest) (⟨e, he, herror⟩ | hrest')
      · exact absurd herror (hquiet e he)
      · exact hrest'
      · exact hrest
      · exact hrest

/-- A run that waits for an answer after the pre-read ends when that is an error. -/
theorem main_waits {p : Params} {env : Env} {errno : Errno} (hhard : errno.Hard) {failed : Bool}
    {m₁ : Machine} (hpre : cleanup p env.st_size 1 (start p env) = .ok (failed, m₁))
    (hwait : main p env = .error .script) :
    ∃ exit, main p (env.answering (.error errno)) = .ok exit ∧ exit.code = 1 ∧
      exit.verdict = none := by
  have hstart : start p (env.answering (.error errno)) = (start p env).extend [.error errno] := rfl
  have hcleanup := cleanup_reports p env.st_size 1
  have hm₁ := hcleanup.sized (sized_start p env) hpre
  have hpre' := hcleanup.extend [.error errno] (sized_start p env) hpre
  rw [main] at hwait
  split at hwait
  · cases hwait
  next hprepared =>
  split at hwait
  · cases hwait
  next hblock =>
  rw [hpre] at hwait
  dsimp only at hwait
  split at hwait
  · next stop hcheck =>
    cases hwait
    have hm : Machine.Sized p.max_blocksize { m₁ with trace := [] } := ⟨hm₁.buf1, hm₁.buf2⟩
    obtain ⟨failed', m₂, hcheck', hfailed⟩ := (check_reports p env).waits hm hhard hcheck
    refine ⟨failure m₁.trace m₂, ?_, rfl, rfl⟩
    have hrest : check p (env.answering (.error errno))
        { m₁.extend [.error errno] with trace := [] } = .ok (true, m₂) := by
      rw [check_answering, ← show failed' = true from hfailed]
      exact hcheck'
    have hfirst : cleanup p (env.answering (.error errno)).st_size 1
        (start p (env.answering (.error errno))) = .ok (failed, m₁.extend [.error errno]) := by
      rw [hstart]
      exact hpre'
    have hprepared' : ¬prepare (env.answering (.error errno)) = true := hprepared
    rw [main, if_neg hprepared', if_neg hblock, hfirst]
    dsimp only
    rw [hrest]
    rfl
  · cases hwait

/-- **Errors and verdicts.** A run reports its errors exactly if there was none in the pre-read or there
was one after it; and the first error after the pre-read ends the run. -/
theorem errors_reported (p : Params) (env : Env) :
    (∀ exit, main p env = .ok exit →
      (exit.Reported ↔ (∀ e ∈ exit.preread, ¬e.IOError) ∨ ∃ e ∈ exit.rest, e.IOError)) ∧
    ∀ errno, errno.Hard → (∃ r, cleanup p env.st_size 1 (start p env) = .ok r) →
      main p env = .error .script →
      ∃ exit, main p (env.answering (.error errno)) = .ok exit ∧ exit.code = 1 ∧
        exit.verdict = none := by
  refine ⟨fun exit h ↦ reported_iff h, ?_⟩
  rintro errno hhard ⟨⟨failed, m₁⟩, hpre⟩ hwait
  exact main_waits hhard hpre hwait

/-- A file with the byte 7. -/
private def byteFile : File where
  len := 1
  byte q := if q = 0 then 7 else 0
  byte_eq_zero q hq := if_neg (by omega)

open Errno in
/-- A read error in the pre-read, on a file that is read correctly afterwards. The run ends in `fail`. -/
theorem preread_error_fail : ∃ (p : Params) (env : Env) (exit : Exit), main p env = .ok exit ∧
    exit.preread = [.pread 0 1 (.error EIO)] ∧ Correct byteFile exit.rest ∧
    exit.code = 2 ∧ exit.verdict = some .fail ∧ ¬exit.Reported := by
  let p : Params :=
    { size := 1, num_iterations := 0, max_blocksize := 1, max_chainlen := 1, sync_part := 0 }
  let env : Env :=
    { file_opens := true, random_opens := true, st_size := 1, interrupted := fun _ ↦ false
      garbage := fun _ ↦ 0, script := [.error EIO, .ok [7], .ok []] }
  have hmain : (main p env).map (fun exit ↦ (exit.code, exit.verdict, exit.preread, exit.rest))
      = .ok (2, some .fail, [.pread 0 1 (.error EIO)],
        [.pread 0 1 (.ok [7]), .pread 1 1 (.ok [])]) := by decide +kernel
  obtain ⟨exit, hrun, hexit⟩ := exceptMap_eq_ok.mp hmain
  simp only [Prod.mk.injEq] at hexit
  obtain ⟨hcode, hverdict, hpre, hrest⟩ := hexit
  refine ⟨p, env, exit, hrun, hpre, ?_, hcode, hverdict, ?_⟩
  · rw [hrest]
    exact ⟨⟨by decide, by decide, rfl⟩, ⟨by decide, by decide⟩, trivial⟩
  · intro hreported
    have hone := (hreported ⟨.pread 0 1 (.error EIO), by rw [hpre]; exact List.mem_cons_self,
      by decide⟩).1
    omega

end ViTools.Fstest
