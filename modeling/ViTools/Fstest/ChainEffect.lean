import ViTools.Fstest.Plan
import ViTools.Fstest.Errors

/-!
# What a chain does to a file

From an offset inside the file on, a chain puts its block side by side as often as it fits before the end,
and if there are more repetitions left, once more at the start of the file. After it, the bytes of the file
are those of the blocks, the one at the start on top, and otherwise what they were before.

On a correctly behaving file a chain does not fail: all its positions are in the file, so that no call has
a reason to. And it comes to its end, as soon as the kernel answers its calls.
-/

namespace ViTools.Fstest

/-! ## Where the blocks are -/

/-- How many of `n` blocks of length `l` fit between an offset and the end, side by side. -/
def fitting (size o l n : ℕ) : ℕ := min n ((size - o) / l)

theorem fitting_of_gt {size o l : ℕ} (hl : 1 ≤ l) (h : size < o + l) (n : ℕ) : fitting size o l n = 0 := by
  rw [fitting, Nat.div_eq_of_lt (by omega), Nat.min_zero]

theorem fitting_succ {size o l : ℕ} (hl : 1 ≤ l) (h : o + l ≤ size) (n : ℕ) :
    fitting size o l (n + 1) = fitting size (o + l) l n + 1 := by
  have hdiv : (size - o) / l = (size - (o + l)) / l + 1 := by
    rw [← Nat.add_div_right _ hl]
    congr 1
    omega
  rw [fitting, fitting, hdiv, Nat.succ_min_succ]

/-- **The positions of a chain**, in closed form. -/
theorem link_offsets_eq {p : Params} {o l : ℕ} (hl : 1 ≤ l) (hlen : l < 2 ^ 63) (n : ℕ)
    (ho : (o : ℤ) ≤ p.size) :
    link_offsets p l n o = ((List.range (fitting p.size.toNat o l n)).map fun i ↦ ((o + i * l : ℕ) : ℤ))
      ++ if fitting p.size.toNat o l n < n then [0] else [] := by
  have hsize63 := p.size_off64.2
  have hU : (toU64 p.size : ℤ) = p.size := toU64_eq_self (by omega) (by omega)
  induction n generalizing o with
  | zero => rfl
  | succ n ih =>
    -- neither side of the unsigned comparison wraps
    have hU' : (toU64 ((o : ℤ) + l) : ℤ) = o + l := toU64_eq_self (by omega) (by omega)
    rw [link_offsets]
    split
    · next hcross =>
      rw [fitting_of_gt hl (by omega), if_pos (Nat.succ_pos n)]
      rfl
    · next hfits =>
      have hnext : wrap64 ((o : ℤ) + l) = ((o + l : ℕ) : ℤ) := by
        rw [wrap64_eq_self (by omega) (by omega)]
        push_cast
        rfl
      have hpos : ∀ i, ((o + l + i * l : ℕ) : ℤ) = ((o + (i + 1) * l : ℕ) : ℤ) := by
        intro i
        rw [Nat.add_mul, Nat.one_mul, Nat.add_assoc, Nat.add_comm l]
      rw [hnext, ih (by omega), fitting_succ hl (by omega), List.range_succ_eq_map, List.map_cons,
        List.map_map]
      simp only [hpos, Nat.succ_lt_succ_iff, Nat.zero_mul, Nat.add_zero, List.cons_append]
      rfl

theorem nonneg_of_mem_link_offsets {p : Params} {o l : ℕ} (hl : 1 ≤ l) (hlen : l < 2 ^ 63) (n : ℕ)
    (ho : (o : ℤ) ≤ p.size) : ∀ pos ∈ link_offsets p l n o, 0 ≤ pos := by
  intro pos hpos
  rw [link_offsets_eq hl hlen n ho] at hpos
  rcases List.mem_append.mp hpos with h | h
  · obtain ⟨i, -, rfl⟩ := List.mem_map.mp h
    exact Int.natCast_nonneg _
  · split at h
    · rw [List.mem_singleton.mp h]
    · cases h

/-! ## What the blocks make of a file -/

section Blocks

variable (p : Params) (s : ℕ → UInt8) {data : List UInt8} (hdata : data ≠ [])
include hdata

/-- The blocks of a chain, without the syncs. -/
theorem planLinks_writes (offsets : List ℤ) (q : ℕ) :
    ((planLinks p s data offsets q).1.flatMap Block.issues).filter (· ≠ .fsync)
      = offsets.map fun pos ↦ .write pos data := by
  induction offsets generalizing q with
  | nil => rfl
  | cons offset offsets ih =>
    rw [planLinks, List.flatMap_cons, List.filter_append, ih, Block.issues, if_neg hdata]
    cases (planSync p s q).1 <;> rfl

theorem planLinks_store (offsets : List ℤ) (q : ℕ) (f : File) :
    (planLinks p s data offsets q).1.foldl File.store f
      = offsets.foldl (fun f pos ↦ f.write pos.toNat data) f := by
  induction offsets generalizing q f with
  | nil => rfl
  | cons offset offsets ih =>
    rw [planLinks, List.foldl_cons, List.foldl_cons, ih, File.store, if_neg hdata]

end Blocks

theorem File.byte_write (f : File) (q : ℕ) (data : List UInt8) (j : ℕ) :
    (f.write q data).byte j = if q ≤ j ∧ j < q + data.length then data.getD (j - q) 0 else f.byte j :=
  rfl

/-- Blocks side by side. -/
theorem byte_foldl_write (f : File) (o k : ℕ) (data : List UInt8) (q : ℕ) :
    (((List.range k).map fun i ↦ ((o + i * data.length : ℕ) : ℤ)).foldl
        (fun f pos ↦ f.write pos.toNat data) f).byte q
      = if o ≤ q ∧ q < o + k * data.length then data.getD ((q - o) % data.length) 0 else f.byte q := by
  induction k with
  | zero =>
    rw [if_neg (by omega)]
    rfl
  | succ k ih =>
    rw [List.range_succ, List.map_append, List.foldl_append, List.map_singleton, List.foldl_cons,
      List.foldl_nil, Int.toNat_natCast, File.byte_write, ih, Nat.add_mul, Nat.one_mul]
    -- in the last block, in one before it, or in none
    by_cases hlast : o + k * data.length ≤ q ∧ q < o + k * data.length + data.length
    · have hidx : (q - o) % data.length = q - (o + k * data.length) := by
        rw [show q - o = q - (o + k * data.length) + k * data.length by omega, Nat.add_mul_mod_self_right,
          Nat.mod_eq_of_lt (by omega)]
      rw [if_pos hlast, if_pos (by omega), hidx]
    · rw [if_neg hlast]
      by_cases hbefore : o ≤ q ∧ q < o + k * data.length
      · rw [if_pos hbefore, if_pos (by omega)]
      · rw [if_neg hbefore, if_neg (by omega)]

/-- What the calls of a chain do: `n` blocks `data`, of which as many as fit go from the offset `o` on and
one more, if there is one, to the start. -/
structure ChainEffect (size : ℕ) (f : File) (o n : ℕ) (data : List UInt8) (es : List Event) : Prop where
  /-- These blocks are written, in this order. -/
  writes_eq : (issued es).filter (· ≠ .fsync)
    = ((List.range (fitting size o data.length n)).map fun i ↦ .write ((o + i * data.length : ℕ) : ℤ) data)
      ++ if fitting size o data.length n < n then [.write 0 data] else []
  /-- Their bytes are in the file, and otherwise it is unchanged. -/
  byte_eq : ∀ q, (f.afterAll es).byte q =
    if fitting size o data.length n < n ∧ q < data.length then data.getD q 0
    else if o ≤ q ∧ q < o + fitting size o data.length n * data.length then
      data.getD ((q - o) % data.length) 0
    else f.byte q

/-- Blocks at the positions of a chain have its effect. -/
theorem chainEffect_of_written {p : Params} {s : ℕ → UInt8} {o l n q q' : ℕ} {data : List UInt8}
    (hdata : data ≠ []) (hlength : data.length = l) (hlen : l < 2 ^ 63) (ho : (o : ℤ) ≤ p.size)
    {es : List Event} (h : Written q q' (planLinks p s data (link_offsets p l n o) q).1 es) (f : File) :
    ChainEffect p.size.toNat f o n data es := by
  subst hlength
  have hl : 1 ≤ data.length := List.length_pos_iff.mpr hdata
  have hoffsets := link_offsets_eq hl hlen n ho
  constructor
  · rw [issued, h.scan_eq, planLinks_writes p s hdata, hoffsets, List.map_append, List.map_map]
    split <;> rfl
  · intro q
    rw [h.afterAll_eq, planLinks_store p s hdata, hoffsets, List.foldl_append]
    split
    · next hmore =>
      rw [List.foldl_cons, List.foldl_nil, File.byte_write, byte_foldl_write]
      simp [hmore]
    · next hall =>
      rw [List.foldl_nil, byte_foldl_write]
      exact (if_neg fun h ↦ hall h.1).symm

/-! ## No failure -/

/-- All calls a computation makes satisfy `P`. -/
def Calls (P : Event → Prop) {α : Type} (x : Sys α) : Prop := ∀ (m : Machine) (a : α) (m' : Machine),
  x m = .ok (a, m') → ∃ es, m'.trace = m.trace ++ es ∧ ∀ e ∈ es, P e

namespace Calls

variable {P : Event → Prop} {α β : Type}

/-- No call at all. -/
theorem of_trace {x : Sys α} (h : ∀ m a m', x m = .ok (a, m') → m'.trace = m.trace) : Calls P x :=
  fun m a m' hx ↦ ⟨[], by rw [h m a m' hx, List.append_nil], List.forall_mem_nil _⟩

theorem pure (a : α) : Calls P (pure a) := of_trace fun _ _ _ h ↦ (pure_eq_ok.mp h).2 ▸ rfl

theorem get : Calls P get := of_trace fun _ _ _ h ↦ (get_eq_ok.mp h).2 ▸ rfl

theorem modify {f : Machine → Machine} (hf : ∀ m, (f m).trace = m.trace) : Calls P (modify f) :=
  of_trace fun m _ _ h ↦ modify_eq_ok.mp h ▸ hf m

theorem orStop (c : Prop) [Decidable c] (stop : Stop) : Calls P (orStop c stop) :=
  of_trace fun _ _ _ h ↦ (orStop_eq_ok.mp h).2 ▸ rfl

theorem bind {x : Sys α} {k : α → Sys β} (hx : Calls P x) (hk : ∀ a, Calls P (k a)) :
    Calls P (x >>= k) := by
  intro m b m' h
  obtain ⟨a, m₁, h₁, h₂⟩ := bind_eq_ok.mp h
  obtain ⟨es, htr, hes⟩ := hx m a m₁ h₁
  obtain ⟨fs, htr', hfs⟩ := hk a m₁ b m' h₂
  exact ⟨es ++ fs, by rw [htr', htr, List.append_assoc], List.forall_mem_append.mpr ⟨hes, hfs⟩⟩

theorem ite {c : Prop} [Decidable c] {x y : Sys α} (hx : Calls P x) (hy : Calls P y) :
    Calls P (if c then x else y) := by
  split
  · exact hx
  · exact hy

theorem safe_fileop {func : PFunc} {pos : ℤ} {len : ℕ} {buf : Buffer}
    (h : ∀ script t, safe_fileop_loop func script buf 0 len pos = .ok t → ∀ e ∈ t.events, P e) :
    Calls P (safe_fileop func pos len buf) := by
  rintro m ⟨failed, buf'⟩ m' hx
  obtain ⟨t, ht, -, -, rfl⟩ := safe_fileop_eq_ok.mp hx
  exact ⟨t.events, rfl, h _ t ht⟩

end Calls

/-- A call is not on a position before the file. -/
def Event.Above : Event → Prop
  | .pread pos _ _ | .pwrite pos _ _ => 0 ≤ pos
  | .read _ _ | .fsync => True

theorem above_event (func : PFunc) (out : List UInt8) {pos : ℤ} (hpos : 0 ≤ pos) (reply : Reply) :
    (func.event out pos reply).Above := by
  cases func with
  | pread => exact hpos
  | pwrite => exact hpos
  | fake_pread => trivial

theorem safe_fileop_loop_above {func : PFunc} {script : List Reply} {buf : Buffer} {i rest : ℕ}
    {ppos : ℤ} {t : Transfer} (h : safe_fileop_loop func script buf i rest ppos = .ok t)
    (hpos : 0 ≤ ppos) : ∀ e ∈ t.events, e.Above := by
  revert hpos
  refine safe_fileop_loop_induction
    (motive := fun _ _ _ ppos t ↦ 0 ≤ ppos → ∀ e ∈ t.events, e.Above)
    ?done ?eof ?moved ?again ?hard h
  case done =>
    intro script buf i ppos _
    exact List.forall_mem_nil _
  case eof =>
    intro r script buf i rest ppos _ hpos
    exact List.forall_mem_singleton.mpr (above_event _ _ hpos _)
  case moved =>
    intro r buf i rest ppos data t _ _ _ ih hpos
    exact List.forall_mem_cons.mpr ⟨above_event _ _ hpos _, ih (by omega)⟩
  case again =>
    intro errno buf i rest ppos t _ ih hpos
    exact List.forall_mem_cons.mpr ⟨above_event _ _ hpos _, ih hpos⟩
  case hard =>
    intro errno script buf i rest ppos _ _ hpos
    exact List.forall_mem_singleton.mpr (above_event _ _ hpos _)

section Functions

variable {pos : ℤ} (hpos : 0 ≤ pos) (len : ℕ)
include hpos

theorem safe_fileop_above (func : PFunc) (buf : Buffer) :
    Calls Event.Above (safe_fileop func pos len buf) :=
  .safe_fileop fun _ _ ht ↦ safe_fileop_loop_above ht hpos

theorem read_block_above : Calls Event.Above (read_block pos len) := by
  refine .bind .get fun m ↦ .bind (safe_fileop_above hpos len _ _) fun r ↦ ?_
  refine .bind (.modify fun _ ↦ rfl) fun _ ↦ .ite (.pure _) (.bind (.orStop _ _) fun _ ↦ ?_)
  exact .bind (.modify fun _ ↦ rfl) fun _ ↦ .pure _

theorem write_block_above : Calls Event.Above (write_block pos len) := by
  refine .bind .get fun m ↦ .bind (safe_fileop_above hpos len _ _) fun r ↦ ?_
  refine .bind (.modify fun _ ↦ rfl) fun _ ↦ .ite (.pure _) (.bind (.orStop _ _) fun _ ↦ ?_)
  exact .bind (.modify fun _ ↦ rfl) fun _ ↦ .pure _

theorem insert_block_above (mode : ℕ) : Calls Event.Above (insert_block pos len mode) := by
  have hsync : Calls Event.Above fsync := by
    intro m u m' h
    obtain rfl := modify_eq_ok.mp h
    exact ⟨[.fsync], rfl, List.forall_mem_singleton.mpr trivial⟩
  have hlast : Calls Event.Above
      (if mode = 0 then fsync >>= fun _ ↦ pure false else pure false : Sys Bool) :=
    .ite (.bind hsync fun _ ↦ .pure _) (.pure _)
  refine .bind (read_block_above hpos len) fun _ ↦ .ite (.pure _) (.ite ?_ hlast)
  exact .bind (write_block_above hpos len) fun _ ↦ .ite (.pure _) hlast

theorem insert_link_above (p : Params) : Calls Event.Above (insert_link p len pos) := by
  have hsync : Calls Event.Above (choose_sync p) := by
    refine .ite (.pure _) (.ite (.pure _) (.bind ?_ fun _ ↦ .pure _))
    exact .bind (safe_fileop_above (le_refl 0) 4 _ _) fun _ ↦ .pure _
  exact .bind hsync fun _ ↦ .ite (.pure _) (insert_block_above hpos len _)

omit hpos in
theorem insert_all_above (p : Params) {offsets : List ℤ} (h : ∀ pos ∈ offsets, 0 ≤ pos) :
    Calls Event.Above (insert_all p len offsets) := by
  induction offsets with
  | nil => exact .pure _
  | cons offset offsets ih =>
    obtain ⟨hoffset, hoffsets⟩ := List.forall_mem_cons.mp h
    exact .bind (insert_link_above hoffset len p) fun _ ↦ .ite (.pure _) (ih hoffsets)

end Functions

/-- The random source does not fail for good. -/
def SourceWorks (es : List Event) : Prop := ∀ len errno, .read len (.error errno) ∈ es → ¬errno.Hard

/-- On a correct file a call at one of its positions has no reason to fail. -/
theorem not_iOError {f : File} {es : List Event} (hcorrect : Correct f es) (habove : ∀ e ∈ es, e.Above)
    (hsource : SourceWorks es) : ∀ e ∈ es, ¬e.IOError := by
  intro e he herr
  have hcase : e.Above → e.IOError → ∃ len errno, e = .read len (.error errno) ∧ errno.Hard := by
    refine hcorrect.forall_mem (P := fun e ↦ e.Above → e.IOError →
      ∃ len errno, e = .read len (.error errno) ∧ errno.Hard) (fun f e hcorrect hpos herr ↦ ?_) e he
    rcases e with ⟨pos, len, data | errno⟩ | ⟨pos, data, stored | errno⟩ | ⟨len, data | errno⟩ | _
    case read.error => exact ⟨len, errno, rfl, herr⟩
    case pread.error | pwrite.error =>
      rcases hcorrect with rfl | rfl | ⟨-, hneg⟩
      · exact absurd rfl herr.1
      · exact absurd rfl herr.2
      · exact absurd hpos (not_le.mpr hneg)
    all_goals exact absurd herr id
  obtain ⟨len, errno, rfl, hhard⟩ := hcase (habove e he) herr
  exact hsource len errno he hhard

/-- A trace is clean for the stream of what it draws, on a correct file. -/
theorem clean_of_correct {f : File} {es : List Event} (h : Correct f es) :
    Clean (fun i ↦ (drawn es).getD i 0) 0 es where
  drawn_eq := by
    refine List.ext_getElem (length_stretch ..).symm fun i hi hi' ↦ ?_
    simp [stretch, hi]
  no_zeroWrite := h.forall_mem fun _ _ he ↦ he.not_zeroWrite

/-- On a correct file, the calls of a computation at its positions fail exactly if the random source
does. -/
theorem failed_eq_false_iff {B : ℕ} {x : Sys Bool} (hx : Reports B x id) {m m' : Machine} (hm : m.Sized B)
    {failed : Bool} (h : x m = .ok (failed, m')) {es : List Event} (htr : m'.trace = m.trace ++ es)
    {f : File} (hcorrect : Correct f es) (habove : ∀ e ∈ es, e.Above) :
    failed = false ↔ SourceWorks es := by
  rw [← Bool.not_eq_true, show (failed = true ↔ _) from hx.failed_iff hm h htr]
  constructor
  · intro hnone len errno he hhard
    exact hnone ⟨_, he, hhard⟩
  · rintro hsource ⟨e, he, herr⟩
    exact not_iOError hcorrect habove hsource e he herr

/-- From the state `m` on, a computation does to every correct file what a chain is to do, unless the
random source fails. -/
def HasEffect (x : Sys Bool) (m : Machine) (size o n : ℕ) (data : List UInt8) : Prop :=
  ∀ (f : File) (es : List Event) (failed : Bool) (m' : Machine), x m = .ok (failed, m') →
    m'.trace = m.trace ++ es → Correct f es →
    (failed = false ↔ SourceWorks es) ∧ (failed = false → ChainEffect size f o n data es)

section Loop

variable {p : Params} {o l : ℕ} (ho : (o : ℤ) < p.size) (hl : 1 ≤ l) (hlen : l < p.max_blocksize)
  (hblock : p.max_blocksize < 2 ^ 63)
include ho hl hlen hblock

theorem insert_links_above (n : ℕ) : Calls Event.Above (insert_links p l n o) := by
  rw [insert_links_eq]
  exact insert_all_above l p (nonneg_of_mem_link_offsets hl (by omega) n ho.le)

/-- The loop of `insert_chain`. -/
theorem insert_links_effect (n : ℕ) {m : Machine} (hm : m.Sized p.max_blocksize) :
    HasEffect (insert_links p l n o) m p.size.toNat o n (m.buf2.slice 0 l) := by
  intro f es failed m' h htr hcorrect
  constructor
  · obtain ⟨fs, htr', hfs⟩ := insert_links_above ho hl hlen hblock n m failed m' h
    obtain rfl := List.append_cancel_left (htr.symm.trans htr')
    exact failed_eq_false_iff (insert_links_reports p hlen.le n o) hm h htr hcorrect hfs
  · rintro rfl
    have hdata : (m.buf2.slice 0 l).length = l := Buffer.length_slice ..
    have hne : m.buf2.slice 0 l ≠ [] := mt slice_eq_nil_iff.mp (by omega)
    rw [insert_links_eq] at h
    obtain ⟨fs, htr', hfs⟩ := insert_all_performs (s := fun i ↦ (drawn es).getD i 0) (q := 0) h
    obtain rfl := List.append_cancel_left (htr.symm.trans htr')
    have hwritten := (hfs (clean_of_correct hcorrect)).1
    exact chainEffect_of_written hne hdata (by omega) ho.le hwritten f

end Loop

/-! ## Before the loop -/

/-- Started in the state `m₀`, `insert_chain` comes to its loop in the state `m`, with a first offset, a
length and a number of repetitions. -/
inductive ReachesLoop (p : Params) (m₀ m : Machine) (o : ℤ) (l : ℕ) : ℕ → Prop
  /-- Three random numbers, reduced, and the contents of the block. -/
  | intro {r c x k : ℕ} {m₁ : Machine} (draws : Draws m₀ m₁ r c x)
      (offset : reduce_offset p r m₁ = .ok (o, m₁))
      (length : remainder x p.max_blocksize m₁ = .ok (l, m₁))
      (repetitions : remainder c (toU32 p.max_chainlen) m₁ = .ok (k, m₁))
      (block : generate_block l m₁ = .ok (false, m)) : ReachesLoop p m₀ m o l (k + 1)

/-- A call on the random source. -/
def Event.IsRead (e : Event) : Prop := ∃ len reply, e = .read len reply

theorem Event.IsRead.above {e : Event} (h : e.IsRead) : e.Above := by
  obtain ⟨len, reply, rfl⟩ := h
  trivial

theorem RANDOMIZE_isRead (size : ℕ) : Calls Event.IsRead (RANDOMIZE size) :=
  .bind (.safe_fileop fun _ _ ht ↦ safe_fileop_loop_fake_pread ht) fun _ ↦ .pure _

theorem fill_block_isRead (data : List UInt8) : Calls Event.IsRead (fill_block data) :=
  .bind .get fun _ ↦ .bind (.orStop _ _) fun _ ↦ .modify fun _ ↦ rfl

theorem generate_block_isRead (len : ℕ) : Calls Event.IsRead (generate_block len) := by
  have hfilled : ∀ data, Calls Event.IsRead (fill_block data >>= fun _ ↦ pure false) :=
    fun data ↦ .bind (fill_block_isRead data) fun _ ↦ .pure _
  refine .bind (RANDOMIZE_isRead 1) fun mode ↦ .ite (.pure _) (.ite ?_ (.ite ?_ ?_))
  · refine .bind .get fun m ↦ .bind (.safe_fileop fun _ _ ht ↦ safe_fileop_loop_fake_pread ht) fun r ↦ ?_
    exact .bind (.modify fun _ ↦ rfl) fun _ ↦ .pure _
  · exact .bind (RANDOMIZE_isRead 1) fun c ↦ .ite (.pure _) (hfilled _)
  · exact .bind (RANDOMIZE_isRead 4) fun c ↦ .ite (.pure _) (hfilled _)

namespace ReachesLoop

variable {p : Params} {m₀ m : Machine} {o : ℤ} {l n : ℕ}

/-- From there on the loop decides. -/
theorem insert_chain_eq (h : ReachesLoop p m₀ m o l n) : insert_chain p m₀ = insert_links p l n o m := by
  obtain ⟨⟨hoffset, hcount, hlength⟩, hreduce, hrem, hrem', hblock⟩ := h
  exact (bind_of_ok hoffset).trans <| (bind_of_ok hcount).trans <| (bind_of_ok hlength).trans <|
    (bind_of_ok hreduce).trans <| (bind_of_ok hrem).trans <| (bind_of_ok hrem').trans (bind_of_ok hblock)

/-- The file has not been called. -/
theorem calls (h : ReachesLoop p m₀ m o l n) :
    ∃ es, m.trace = m₀.trace ++ es ∧ ∀ e ∈ es, e.IsRead := by
  obtain ⟨⟨hoffset, hcount, hlength⟩, -, -, -, hblock⟩ := h
  obtain ⟨es₁, htr₁, hes₁⟩ := RANDOMIZE_isRead 8 _ _ _ hoffset
  obtain ⟨es₂, htr₂, hes₂⟩ := RANDOMIZE_isRead 4 _ _ _ hcount
  obtain ⟨es₃, htr₃, hes₃⟩ := RANDOMIZE_isRead 8 _ _ _ hlength
  obtain ⟨es₄, htr₄, hes₄⟩ := generate_block_isRead _ _ _ _ hblock
  refine ⟨es₁ ++ (es₂ ++ (es₃ ++ es₄)), by rw [htr₄, htr₃, htr₂, htr₁]; simp only [List.append_assoc], ?_⟩
  simp only [List.forall_mem_append]
  exact ⟨hes₁, hes₂, hes₃, hes₄⟩

section Sized

variable (hm₀ : m₀.Sized p.max_blocksize)
include hm₀

theorem sized (h : ReachesLoop p m₀ m o l n) (hlen : l ≤ p.max_blocksize) : m.Sized p.max_blocksize := by
  obtain ⟨hdraws, -, -, -, hblock⟩ := h
  exact (generate_block_reports hlen).sized (hdraws.sized hm₀) hblock

/-- Answers for the loop to come do not matter before it. -/
theorem extend (h : ReachesLoop p m₀ m o l n) (hlen : l ≤ p.max_blocksize) (script : List Reply) :
    ReachesLoop p (m₀.extend script) (m.extend script) o l n := by
  obtain ⟨hdraws, hreduce, hrem, hrem', hblock⟩ := h
  have hm₁ := hdraws.sized hm₀
  exact ⟨hdraws.extend hm₀ script, (reduce_offset_reports p _).extend script hm₁ hreduce,
    (remainder_reports _ _).extend script hm₁ hrem, (remainder_reports _ _).extend script hm₁ hrem',
    (generate_block_reports hlen).extend script hm₁ hblock⟩

end Sized

end ReachesLoop

/-- Whatever the random source answers, the file is correct. -/
theorem correct_of_isRead {es : List Event} (h : ∀ e ∈ es, e.IsRead) (f : File) : Correct f es := by
  induction es with
  | nil => trivial
  | cons e es ih =>
    obtain ⟨⟨len, reply, rfl⟩, hes⟩ := List.forall_mem_cons.mp h
    exact ⟨trivial, ih hes⟩

/-- The calls before the loop do nothing to the file. -/
theorem ChainEffect.after_reads {size o n : ℕ} {f : File} {data : List UInt8} {es fs : List Event}
    (hes : ∀ e ∈ es, e.IsRead) (h : ChainEffect size f o n data fs) :
    ChainEffect size f o n data (es ++ fs) := by
  obtain ⟨hscan, hafter⟩ := scanIssues_of_readsOnly (readsOnly_of_reads hes)
  constructor
  · rw [issued, scanIssues_append, hscan 0]
    exact h.writes_eq
  · rw [afterAll_append, hafter]
    exact h.byte_eq

/-- **A run of** `insert_chain`. -/
theorem insert_chain_hasEffect {p : Params} {o l n : ℕ} (ho : (o : ℤ) < p.size) (hl : 1 ≤ l)
    (hlen : l < p.max_blocksize) (hblock : p.max_blocksize < 2 ^ 63) {m₀ m : Machine}
    (hm₀ : m₀.Sized p.max_blocksize) (hreach : ReachesLoop p m₀ m o l n) :
    HasEffect (insert_chain p) m₀ p.size.toNat o n (m.buf2.slice 0 l) := by
  intro f es failed m' h htr hcorrect
  have hm := hreach.sized hm₀ hlen.le
  have hloop := h
  rw [hreach.insert_chain_eq] at hloop
  obtain ⟨es₀, htr₀, hes₀⟩ := hreach.calls
  obtain ⟨es₁, htr₁, hes₁⟩ := insert_links_above ho hl hlen hblock n m failed m' hloop
  have hes : es = es₀ ++ es₁ := by
    rw [htr₀, List.append_assoc] at htr₁
    exact List.append_cancel_left (htr.symm.trans htr₁)
  subst hes
  constructor
  · refine failed_eq_false_iff (insert_chain_reports p) hm₀ h htr hcorrect ?_
    exact List.forall_mem_append.mpr ⟨fun e he ↦ (hes₀ e he).above, hes₁⟩
  · intro hok
    obtain ⟨-, hafter⟩ := scanIssues_of_readsOnly (readsOnly_of_reads hes₀)
    have hcorrect₁ := (correct_append.mp hcorrect).2
    rw [hafter f] at hcorrect₁
    exact ((insert_links_effect ho hl hlen hblock n hm f es₁ failed m' hloop htr₁ hcorrect₁).2 hok).after_reads
      hes₀

/-! ## Coming to an end -/

/-- A correct file can answer the calls of a computation so that it ends without failure. -/
def Completes (B : ℕ) {α : Type} (x : Sys α) (failed : α → Bool) : Prop :=
  ∀ (m : Machine) (f : File), m.Sized B → ∃ script a m' es, x { m with script } = .ok (a, m') ∧
    failed a = false ∧ m'.script = [] ∧ m'.trace = m.trace ++ es ∧ Correct f es

/-- One byte of a transfer that is not at the end of the file. -/
theorem exists_answer_byte (func : PFunc) (f : File) (buf : Buffer) (i rest : ℕ) {ppos : ℤ}
    (hpos : 0 ≤ ppos) (hend : ¬(func = .pread ∧ f.len ≤ ppos.toNat)) :
    ∃ r b, func.answer (buf.slice i (rest + 1)) ppos r = .ok [b] ∧
      (func.event (buf.slice i (rest + 1)) ppos (.ok [b])).Correct f := by
  have hneg : ¬(ppos < 0 ∧ func ≠ .fake_pread) := fun h ↦ by omega
  have hout : buf.slice i (rest + 1) = buf.byte i :: buf.slice (i + 1) rest := by
    rw [Nat.add_comm, Buffer.slice_add, Buffer.slice_one, List.singleton_append]
  cases func with
  | pread =>
    refine ⟨.ok [f.byte ppos.toNat], f.byte ppos.toNat, ?_, hpos, ?_, rfl⟩
    · rw [PFunc.answer, if_neg hneg, if_neg (by decide), hout, List.length_cons, List.take_succ_cons,
        List.take_nil]
    · simp only [true_and, not_le] at hend
      exact hend
  | pwrite =>
    refine ⟨.ok [0], buf.byte i, ?_, hpos, List.cons_ne_nil _ _, ?_⟩
    · rw [PFunc.answer, if_neg hneg, if_pos rfl, hout]
      rfl
    · rw [hout]
      exact ⟨_, rfl⟩
  | fake_pread =>
    refine ⟨.ok [0], 0, ?_, trivial⟩
    rw [PFunc.answer, if_neg hneg, if_neg (by decide), hout, List.length_cons, List.take_succ_cons,
      List.take_nil]

/-- A transfer ends if it is answered byte by byte. -/
theorem safe_fileop_loop_completes (func : PFunc) (f : File) {buf : Buffer} {i rest : ℕ} {ppos : ℤ}
    (hbuf : i + rest ≤ buf.size) (hpos : 0 ≤ ppos) : ∃ script t,
      safe_fileop_loop func script buf i rest ppos = .ok t ∧ t.failed = false ∧ t.script = [] ∧
        Correct f t.events := by
  induction rest generalizing f buf i ppos with
  | zero => exact ⟨[], _, safe_fileop_loop_zero, rfl, rfl, trivial⟩
  | succ rest ih =>
    by_cases hend : func = .pread ∧ f.len ≤ ppos.toNat
    · have hreply : func.answer (buf.slice i (rest + 1)) ppos (.ok []) = .ok [] := by
        rw [PFunc.answer, if_neg fun h ↦ by omega, if_neg fun h ↦ ?_]
        · exact congrArg _ List.take_nil
        · rw [hend.1] at h
          cases h
      have hloop : safe_fileop_loop func [.ok []] buf i (rest + 1) ppos
          = .ok ⟨false, buf.put i (List.replicate (rest + 1) 0), [],
            [func.event (buf.slice i (rest + 1)) ppos (.ok [])]⟩ := by
        rw [safe_fileop_loop, Buffer.load_of_le hbuf]
        dsimp only
        rw [hreply]
      refine ⟨_, _, hloop, rfl, rfl, ?_, trivial⟩
      rw [hend.1]
      exact ⟨hpos, hend.2⟩
    -- one byte at a time is enough
    · obtain ⟨r, b, hreply, hcorrect⟩ := exists_answer_byte func f buf i rest hpos hend
      have hsize : (if func = .pwrite then buf else buf.put i [b]).size = buf.size := by
        split <;> rfl
      have hroom : i + 1 + rest ≤ (if func = .pwrite then buf else buf.put i [b]).size := by
        rw [hsize]
        omega
      have hnext : 0 ≤ ppos + 1 := by omega
      obtain ⟨script, t, ht, hok, hscript, hrest⟩ :=
        ih (f.after (func.event (buf.slice i (rest + 1)) ppos (.ok [b]))) hroom hnext
      have hloop : safe_fileop_loop func (r :: script) buf i (rest + 1) ppos
          = .ok (t.push (func.event (buf.slice i (rest + 1)) ppos (.ok [b]))) := by
        rw [safe_fileop_loop, Buffer.load_of_le hbuf]
        dsimp only
        rw [hreply]
        dsimp only [List.length_singleton]
        rw [Nat.add_sub_cancel, Nat.cast_one, ht]
        rfl
      exact ⟨_, _, hloop, hok, hscript, hcorrect, hrest⟩

namespace Completes

variable {B : ℕ} {α β : Type} {failed : α → Bool} {failed' : β → Bool}

theorem pure {a : α} (ha : failed a = false) : Completes B (pure a) failed :=
  fun m _ _ ↦ ⟨[], a, { m with script := [] }, [], rfl, ha, rfl, (List.append_nil _).symm, trivial⟩

/-- One computation after another. -/
theorem bind {x : Sys α} {k : α → Sys β} (hx : Completes B x failed) (hr : Reports B x failed)
    (hk : ∀ a, failed a = false → Completes B (k a) failed') : Completes B (x >>= k) failed' := by
  intro m f hm
  obtain ⟨script, a, m₁, es, hrun, ha, hscript, htr, hes⟩ := hx m f hm
  have hm₁ := hr.sized (m := { m with script }) ⟨hm.buf1, hm.buf2⟩ hrun
  obtain ⟨script', b, m', fs, hrun', hb, hscript', htr', hfs⟩ := hk a ha m₁ (f.afterAll es) hm₁
  have hmore := hr.extend (m := { m with script }) script' ⟨hm.buf1, hm.buf2⟩ hrun
  have hext : m₁.extend script' = { m₁ with script := script' } := by
    rw [Machine.extend, hscript, List.nil_append]
  refine ⟨script ++ script', b, m', es ++ fs, ?_, hb, hscript', ?_, correct_append.mpr ⟨hes, hfs⟩⟩
  · rw [← hrun', ← hext]
    exact bind_of_ok hmore
  · rw [htr', htr, List.append_assoc]

theorem ite {c : Prop} [Decidable c] {x y : Sys α} (hx : Completes B x failed)
    (hy : Completes B y failed) : Completes B (if c then x else y) failed := by
  split
  · exact hx
  · exact hy

/-- The caller's test of a result. -/
theorem orReturn {x y : Sys Bool} (hx : Completes B x id) (hr : Reports B x id)
    (hy : Completes B y id) :
    Completes B (x >>= fun failed ↦ if failed = true then Pure.pure true else y) id := by
  refine hx.bind hr fun failed hfailed ↦ ?_
  rw [show failed = false from hfailed, if_neg Bool.false_ne_true]
  exact hy

end Completes

section Functions

variable {B : ℕ} {pos : ℤ} (hpos : 0 ≤ pos) {len : ℕ} (hlen : len ≤ B)
include hpos hlen

omit hlen in
/-- The call of `safe_fileop`, on any buffer that is long enough. -/
theorem exists_safe_fileop (func : PFunc) {buf : Buffer} (hbuf : len ≤ buf.size) (m : Machine) (f : File) :
    ∃ script buf' es, safe_fileop func pos len buf { m with script }
        = .ok ((false, buf'), { m with script := [], trace := m.trace ++ es }) ∧
      buf'.size = buf.size ∧ Correct f es := by
  have hrange : 0 + len ≤ buf.size := by rwa [Nat.zero_add]
  obtain ⟨script, t, ht, hok, hscript, hcorrect⟩ := safe_fileop_loop_completes func f hrange hpos
  refine ⟨script, t.buf, t.events, ?_, safe_fileop_loop_size ht, hcorrect⟩
  exact safe_fileop_eq_ok.mpr ⟨t, ht, hok, rfl, by rw [hscript]⟩

omit hlen in
theorem safe_fileop_completes (func : PFunc) {buf : Buffer} (hbuf : len ≤ buf.size) :
    Completes B (safe_fileop func pos len buf) Prod.fst := by
  intro m f _
  obtain ⟨script, buf', es, hop, -, hcorrect⟩ := exists_safe_fileop hpos func hbuf m f
  exact ⟨script, _, _, es, hop, rfl, rfl, rfl, hcorrect⟩

omit hpos hlen in
/-- After a transfer that did not fail the bytes go into the checksums. -/
theorem checked_ok (f : Machine → Machine) {c : Prop} [Decidable c] (hc : c) (vs : List UInt8)
    (m : Machine) : (do
      modify f
      if false then return true
      orStop c .bounds
      modify fun m ↦ { m with st := update_xors m.st pos vs }
      return false : Sys Bool) m = .ok (false, { f m with st := update_xors (f m).st pos vs }) := by
  simp only [bind_eq_ok, modify_eq_ok, Bool.false_eq_true, if_false, orStop_eq_ok, pure_eq_ok]
  exact ⟨(), f m, rfl, (), f m, ⟨hc, rfl⟩, (), _, rfl, trivial, rfl⟩

theorem read_block_completes : Completes B (read_block pos len) id := by
  intro m f hm
  have hbuf : len ≤ m.buf1.size := hm.buf1 ▸ hlen
  obtain ⟨script, buf, es, hop, hsize, hcorrect⟩ := exists_safe_fileop hpos .pread hbuf m f
  have hrun : read_block pos len { m with script } = .ok (false, { m with
      st := update_xors m.st pos (buf.slice 0 len), buf1 := buf, script := []
      trace := m.trace ++ es }) := by
    rw [read_block, bind_of_ok (get_eq_ok.mpr ⟨rfl, rfl⟩), bind_of_ok hop]
    exact checked_ok _ (hsize ▸ hbuf) _ _
  exact ⟨script, false, _, es, hrun, rfl, rfl, rfl, hcorrect⟩

theorem write_block_completes : Completes B (write_block pos len) id := by
  intro m f hm
  have hbuf : len ≤ m.buf2.size := hm.buf2 ▸ hlen
  obtain ⟨script, buf, es, hop, hsize, hcorrect⟩ := exists_safe_fileop hpos .pwrite hbuf m f
  have hrun : write_block pos len { m with script } = .ok (false, { m with
      st := update_xors m.st pos (buf.slice 0 len), buf2 := buf, script := []
      trace := m.trace ++ es }) := by
    rw [write_block, bind_of_ok (get_eq_ok.mpr ⟨rfl, rfl⟩), bind_of_ok hop]
    exact checked_ok _ (hsize ▸ hbuf) _ _
  exact ⟨script, false, _, es, hrun, rfl, rfl, rfl, hcorrect⟩

theorem insert_block_completes (mode : ℕ) : Completes B (insert_block pos len mode) id := by
  have hsync : Completes B fsync fun _ ↦ false :=
    fun m f _ ↦ ⟨[], (), { m with script := [], trace := m.trace ++ [.fsync] }, [.fsync], rfl, rfl, rfl,
      rfl, trivial, trivial⟩
  have hlast : Completes B
      (if mode = 0 then fsync >>= fun _ ↦ pure false else pure false : Sys Bool) id :=
    .ite (hsync.bind fsync_reports fun _ _ ↦ .pure rfl) (.pure rfl)
  have hwrite := (write_block_completes hpos hlen).orReturn (write_block_reports pos hlen) hlast
  exact (read_block_completes hpos hlen).orReturn (read_block_reports pos hlen) (.ite hwrite hlast)

theorem insert_link_completes (p : Params) : Completes B (insert_link p len pos) id := by
  have hbytes : Completes B (RANDOMIZE 4) Prod.fst :=
    (safe_fileop_completes (le_refl 0) _ (le_refl 4)).bind (safe_fileop_reports (le_refl 4))
      fun r hr ↦ .pure hr
  have hsync : Completes B (choose_sync p) Prod.fst :=
    .ite (.pure rfl) (.ite (.pure rfl) (hbytes.bind (RANDOMIZE_reports 4) fun r hr ↦ .pure hr))
  refine hsync.bind (choose_sync_reports p) ?_
  rintro ⟨failed, sync⟩ (rfl : failed = false)
  exact insert_block_completes hpos hlen _

omit hpos in
theorem insert_all_completes (p : Params) {offsets : List ℤ} (h : ∀ pos ∈ offsets, 0 ≤ pos) :
    Completes B (insert_all p len offsets) id := by
  induction offsets with
  | nil => exact .pure rfl
  | cons offset offsets ih =>
    obtain ⟨hoffset, hoffsets⟩ := List.forall_mem_cons.mp h
    exact (insert_link_completes hoffset hlen p).orReturn (insert_link_reports p hlen offset) (ih hoffsets)

end Functions

/-- **What a chain does to a file.** On a correct file `insert_chain` writes its block at `o`, `o + l`, and so
on as long as it fits, and exactly if that is not often enough, once more at the start; nothing else
changes in the file. It does not fail unless the random source does, and it comes to an end. -/
theorem insert_chain_effect {p : Params} {o l : ℕ} (ho : (o : ℤ) < p.size) (hl : 1 ≤ l)
    (hlen : l < p.max_blocksize) (hblock : p.max_blocksize < 2 ^ 63) :
    (∀ (n : ℕ) (m : Machine), m.Sized p.max_blocksize →
      HasEffect (insert_links p l n o) m p.size.toNat o n (m.buf2.slice 0 l)) ∧
    ∀ (n : ℕ) (m₀ m : Machine), m₀.Sized p.max_blocksize → ReachesLoop p m₀ m o l n →
      HasEffect (insert_chain p) m₀ p.size.toNat o n (m.buf2.slice 0 l) ∧
      (m.script = [] → ∀ f : File, ∃ script m' es, insert_chain p (m₀.extend script) = .ok (false, m') ∧
        m'.trace = m₀.trace ++ es ∧ Correct f es) := by
  refine ⟨fun n m hm ↦ insert_links_effect ho hl hlen hblock n hm, fun n m₀ m hm₀ hreach ↦ ⟨?_, ?_⟩⟩
  · exact insert_chain_hasEffect ho hl hlen hblock hm₀ hreach
  · intro hscript f
    have hoffsets := nonneg_of_mem_link_offsets hl (hlen.trans hblock) n ho.le
    obtain ⟨script, failed, m', es, hrun, (rfl : failed = false), -, htr, hes⟩ :=
      insert_all_completes hlen.le p hoffsets m f (hreach.sized hm₀ hlen.le)
    obtain ⟨es₀, htr₀, hes₀⟩ := hreach.calls
    obtain ⟨-, hafter⟩ := scanIssues_of_readsOnly (readsOnly_of_reads hes₀)
    have hext : m.extend script = { m with script } := by
      rw [Machine.extend, hscript, List.nil_append]
    refine ⟨script, m', es₀ ++ es, ?_, ?_, correct_append.mpr ⟨?_, ?_⟩⟩
    · rw [(hreach.extend hm₀ hlen.le script).insert_chain_eq, insert_links_eq, hext, hrun]
    · rw [htr, htr₀, List.append_assoc]
    · exact correct_of_isRead hes₀ f
    · rwa [hafter f]

/-- A file of three bytes, which takes a block of two bytes at offset 1, and then the same block again at its
start. -/
private def threeBytes : Params :=
  { size := 3, num_iterations := 1, max_blocksize := 3, max_chainlen := 4, sync_part := 0,
    size_off64 := three_off64 }

/-- The bytes 1, 2 and 3. -/
private def threeBytesFile : File where
  len := 3
  byte q := [1, 2, 3].getD q 0
  byte_eq_zero _ hq := List.getD_eq_default _ _ hq

/-- The offset 1, two repetitions, the length 2, and twice the byte 7. Then the file answers. -/
private def threeBytesStart : Machine :=
  ⟨.zero, .zeros 3, .zeros 3, [.ok [1, 0, 0, 0, 0, 0, 0, 0], .ok [1, 0, 0, 0],
    .ok [2, 0, 0, 0, 0, 0, 0, 0], .ok [2], .ok [7],
    .ok [2, 3], .ok [0, 0], .ok [1, 7], .ok [0, 0]], []⟩

private def threeBytesCalls : List Event :=
  [.read 8 (.ok [1, 0, 0, 0, 0, 0, 0, 0]), .read 4 (.ok [1, 0, 0, 0]),
    .read 8 (.ok [2, 0, 0, 0, 0, 0, 0, 0]), .read 1 (.ok [2]), .read 1 (.ok [7]),
    .pread 1 2 (.ok [2, 3]), .pwrite 1 [7, 7] (.ok [7, 7]),
    .pread 0 2 (.ok [1, 7]), .pwrite 0 [7, 7] (.ok [7, 7])]

private theorem run_threeBytes : (insert_chain threeBytes threeBytesStart).map
    (fun r ↦ (r.1, r.2.trace)) = .ok (false, threeBytesCalls) := by decide +kernel

private theorem correct_threeBytes : Correct threeBytesFile threeBytesCalls := by
  simp only [threeBytesCalls, Correct, Event.Correct]
  decide +kernel

private theorem reachesLoop_threeBytes :
    ∃ m, ReachesLoop threeBytes threeBytesStart m 1 2 2 ∧ m.buf2.slice 0 2 = [7, 7] := by
  have hreduce (m : Machine) : reduce_offset threeBytes 1 m = .ok (1, m) := by
    have hoffset : chain_offset threeBytes 1 = 1 := by decide
    rw [reduce_offset_eq (by decide), hoffset]
    rfl
  have hrem (m : Machine) : remainder 1 (toU32 threeBytes.max_chainlen) m = .ok (1, m) := by
    have hchain : toU32 threeBytes.max_chainlen = 4 := by decide
    rw [hchain, remainder_eq (by decide)]
    rfl
  exact ⟨_, .intro (r := 1) (c := 1) (x := 2) (k := 1) ⟨rfl, rfl, rfl⟩ (hreduce _) rfl (hrem _) rfl, rfl⟩

/-- The second block does not fit after the first one, so it goes to the start, and all three bytes are 7. -/
theorem insert_chain_effect_threeBytes :
    ∃ m', insert_chain threeBytes threeBytesStart = .ok (false, m') ∧ m'.trace = threeBytesCalls ∧
      Correct threeBytesFile threeBytesCalls ∧ ChainEffect 3 threeBytesFile 1 2 [7, 7] threeBytesCalls ∧
      ∀ q < 3, (threeBytesFile.afterAll threeBytesCalls).byte q = 7 := by
  obtain ⟨⟨failed, m'⟩, hrun, hresult⟩ := exceptMap_eq_ok.mp run_threeBytes
  obtain ⟨rfl, htrace⟩ := Prod.mk.inj hresult
  obtain ⟨m, hreach, hblock⟩ := reachesLoop_threeBytes
  have h := ((insert_chain_effect (p := threeBytes) (o := 1) (l := 2) (by decide) (by decide) (by decide)
    (by decide)).2 2 threeBytesStart m ⟨rfl, rfl⟩ hreach).1
  rw [hblock] at h
  have heffect : ChainEffect 3 threeBytesFile 1 2 [7, 7] threeBytesCalls :=
    (h threeBytesFile threeBytesCalls false m' hrun htrace correct_threeBytes).2 rfl
  have hfitting : fitting 3 1 (1 + 1) 2 = 1 := by decide
  refine ⟨m', hrun, htrace, correct_threeBytes, heffect, fun q hq ↦ ?_⟩
  rw [heffect.byte_eq, List.length_cons, List.length_singleton, hfitting]
  obtain rfl | rfl | rfl : q = 0 ∨ q = 1 ∨ q = 2 := by omega
  · rfl
  · rfl
  · rfl

end ViTools.Fstest
