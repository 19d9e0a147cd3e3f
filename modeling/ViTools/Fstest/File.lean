import ViTools.Fstest.Trace

/-!
# Correctly behaving files

A file is a length and a content that is zero from there on, so that reading past the end and reading
a hole give the same bytes. A trace is `Correct` for a file if each call got an answer this file can
give: a read returns a nonempty prefix of the stored bytes, and `0` only at the end of the file; a
write stores a nonempty prefix of its data, extending the file as needed; and a call fails only by
interruption, or because its position is negative.

Seen from the checksums a correct file is one without discrepancies: every byte read is the byte of
the file.
-/

namespace ViTools.Fstest

open Access

/-- The content of a regular file. -/
structure File where
  /-- The length in bytes. -/
  len : ℕ
  /-- The byte at each position. -/
  byte : ℕ → UInt8
  /-- There is nothing past the end. -/
  byte_eq_zero : ∀ q, len ≤ q → byte q = 0

namespace File

/-- The file after `data` was stored at position `q`. -/
def write (f : File) (q : ℕ) (data : List UInt8) : File where
  len := max f.len (q + data.length)
  byte j := if q ≤ j ∧ j < q + data.length then data.getD (j - q) 0 else f.byte j
  byte_eq_zero j hj := by
    rw [if_neg (by omega)]
    exact f.byte_eq_zero j (by omega)

/-- The stored bytes from position `q` on, `n` of them. -/
def slice (f : File) (q n : ℕ) : List UInt8 := (List.range' q n).map f.byte

/-- The file after a call. -/
def after (f : File) : Event → File
  | .pwrite pos _ (.ok stored) => f.write pos.toNat stored
  | _ => f

/-- The file after a list of calls. -/
def afterAll (f : File) : List Event → File
  | [] => f
  | e :: es => (f.after e).afterAll es

/-- The nine checksums of the first `n` bytes, as the program computes them. -/
def checksum (f : File) (n : ℕ) : Fin 9 → UInt8 := (update_xors .zero 0 (f.slice 0 n)).xors

end File

/-- The call got an answer the file can give. -/
def Event.Correct (f : File) : Event → Prop
  | .pread pos _ (.ok []) => 0 ≤ pos ∧ f.len ≤ pos.toNat
  | .pread pos _ (.ok data) =>
    0 ≤ pos ∧ pos.toNat + data.length ≤ f.len ∧ data = f.slice pos.toNat data.length
  | .pwrite pos data (.ok stored) => 0 ≤ pos ∧ stored ≠ [] ∧ stored <+: data
  | .pread pos _ (.error e) | .pwrite pos _ (.error e) =>
    e = .EAGAIN ∨ e = .EINTR ∨ (e = .EINVAL ∧ pos < 0)
  | .read _ _ | .fsync => True

/-- Every call got an answer the file can give at the time. -/
def Correct : File → List Event → Prop
  | _, [] => True
  | f, e :: es => e.Correct f ∧ Correct (f.after e) es

theorem correct_append {f : File} {es fs : List Event} :
    Correct f (es ++ fs) ↔ Correct f es ∧ Correct (f.afterAll es) fs := by
  induction es generalizing f with
  | nil => exact (and_iff_right trivial).symm
  | cons e es ih => rw [List.cons_append, Correct, Correct, ih, and_assoc, File.afterAll]

/-- A property of single calls that holds for every file holds for all calls of a correct trace. -/
theorem Correct.forall_mem {f : File} {es : List Event} (h : Correct f es) {P : Event → Prop}
    (hP : ∀ f e, e.Correct f → P e) : ∀ e ∈ es, P e := by
  induction es generalizing f with
  | nil => exact fun e he ↦ absurd he List.not_mem_nil
  | cons e es ih => exact List.forall_mem_cons.mpr ⟨hP f e h.1, ih h.2⟩

theorem Event.Correct.not_zeroWrite {f : File} {e : Event} (h : e.Correct f) : ¬e.ZeroWrite := by
  rcases e with _ | ⟨pos, data, (_ | _) | _⟩ | _ | _
  case pwrite.ok.nil => exact absurd rfl h.2.1
  all_goals exact id

theorem Event.Correct.pread_error {f : File} {q : ℤ} {n : ℕ} {errno : Errno}
    (h : (Event.pread q n (.error errno)).Correct f) (hq : 0 ≤ q) :
    errno = .EAGAIN ∨ errno = .EINTR := by
  rcases h with h | h | ⟨-, hneg⟩
  · exact .inl h
  · exact .inr h
  · omega

/-! ## No discrepancies -/

/-- A block read with the bytes of `E` has no discrepancy. -/
theorem discrepancy_reads_eq_zero {E : ℕ → UInt8} {vs : List UInt8} {q : ℕ}
    (h : ∀ i (hi : i < vs.length), vs[i] = E (q + i)) :
    discrepancy contrib E (reads (vs.zipIdx q)) = 0 := by
  rw [discrepancy_reads, sub_eq_zero]
  refine congrArg _ (List.map_congr_left fun p hp ↦ ?_)
  obtain ⟨hle, hget⟩ := List.mk_mem_zipIdx_iff_le_and_getElem?_sub.mp hp
  obtain ⟨hi, hv⟩ := List.getElem?_eq_some_iff.mp hget
  rw [← hv, h _ hi, Nat.add_sub_cancel' hle]

theorem after_writes_zipIdx (E : ℕ → UInt8) (vs : List UInt8) (q j : ℕ) :
    after E (writes (vs.zipIdx q)) j
      = if q ≤ j ∧ j < q + vs.length then vs.getD (j - q) 0 else E j := by
  induction vs generalizing E q with
  | nil => exact (if_neg (by simp)).symm
  | cons v vs ih =>
    have hstep : after E (writes ((v :: vs).zipIdx q))
        = after (Function.update E q v) (writes (vs.zipIdx (q + 1))) := rfl
    rw [hstep, ih, List.length_cons]
    by_cases hj : j = q
    · subst hj
      rw [if_neg (by omega), Function.update_self, if_pos (by omega), Nat.sub_self]
      rfl
    · rw [Function.update_of_ne hj]
      by_cases hin : q + 1 ≤ j ∧ j < q + 1 + vs.length
      · rw [if_pos hin, if_pos (by omega), show j - q = j - (q + 1) + 1 by omega]
        rfl
      · rw [if_neg hin, if_neg (by omega)]

theorem Event.Correct.accesses {f : File} {e : Event} (h : e.Correct f) :
    discrepancy contrib f.byte e.accesses = 0 ∧ Access.after f.byte e.accesses = (f.after e).byte := by
  rcases e with ⟨pos, len, data | errno⟩ | ⟨pos, data, stored | errno⟩ | _ | _
  case pread.ok =>
    refine ⟨discrepancy_reads_eq_zero fun i hi ↦ ?_, after_reads _ _⟩
    cases data with
    | nil =>
      obtain ⟨hpos, hend⟩ := h
      simp only [if_true, List.getElem_replicate]
      exact (f.byte_eq_zero _ (by omega)).symm
    | cons v data =>
      obtain ⟨-, -, hdata⟩ := h
      simp only [if_neg (List.cons_ne_nil v data)] at hi ⊢
      rw [List.getElem_of_eq hdata]
      simp [File.slice]
  case pwrite.ok => exact ⟨discrepancy_writes _ _ _, funext fun j ↦ after_writes_zipIdx _ _ _ _⟩
  all_goals exact ⟨rfl, rfl⟩

/-- A correct file has no discrepancies, and the bytes expected are the bytes of the file. -/
theorem Correct.accesses {f : File} {es : List Event} (h : Correct f es) :
    discrepancy contrib f.byte (accesses es) = 0 ∧
      Access.after f.byte (Fstest.accesses es) = (f.afterAll es).byte := by
  induction es generalizing f with
  | nil => exact ⟨rfl, rfl⟩
  | cons e es ih =>
    obtain ⟨hdisc, hafter⟩ := Event.Correct.accesses h.1
    obtain ⟨hdisc', hafter'⟩ := ih h.2
    rw [accesses_cons, discrepancy_append, Access.after_append, hdisc, hafter, hdisc', hafter',
      add_zero]
    exact ⟨rfl, rfl⟩

theorem sums_checksum (f : File) (n : ℕ) :
    (fun k ↦ XorByte.of (f.checksum n k)) = held contrib (Finset.range n) f.byte := by
  have hsums := sums_update_xors .zero 0 (f.slice 0 n)
  rw [sums_zero, zero_add, Nat.cast_zero] at hsums
  refine Eq.trans hsums ?_
  have hlist : ((f.slice 0 n).zipIdx 0).map (fun p ↦ contrib p.2 p.1)
      = (List.range n).map fun q ↦ contrib q (f.byte q) := by
    rw [File.slice, List.zipIdx_map, List.map_map, ← List.range_eq_range']
    refine List.ext_getElem (by simp) fun i hi hi' ↦ ?_
    simp
  rw [hlist, held, ← List.sum_toFinset _ List.nodup_range]
  exact Finset.sum_congr (by ext; simp) fun _ _ ↦ rfl

end ViTools.Fstest
