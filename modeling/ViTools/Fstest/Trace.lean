import ViTools.Fstest.Program
import ViTools.Lib.Ledger
import ViTools.Lib.XorByte

/-!
# The byte accesses of a trace

A trace is a list of calls; what the checksums see of it is the list of bytes read and written at
positions of the tested file. `accesses` extracts that list, in which a `pread` that returns `0`
counts as reading zeros to the end of what was asked for, because that is what `safe_fileop` makes of
it. The transfer loop is described in these terms: a successful read accesses exactly the block it
leaves in the buffer, and a successful write exactly the block that was in it.

The nine checksums of a state are one element of the group of byte tuples under exclusive or, and
`update_xor` adds `contrib` to it.
-/

namespace ViTools.Fstest

open Access

/-! ## Checksums as group elements -/

/-- The checksums of a state, as a group element. -/
def State.sums (s : State) : Fin 9 → XorByte := fun k ↦ .of (s.xors k)

/-- What the byte `v` at position `q` contributes to the checksums. -/
def contrib (q : ℕ) (v : UInt8) : Fin 9 → XorByte := fun k ↦
  if k = 8 ∨ q / 2 ^ (k : ℕ) % 2 = 1 then .of v else 0

theorem contrib_xor (q : ℕ) (v w : UInt8) : contrib q (v ^^^ w) = contrib q v + contrib q w := by
  funext k
  rw [Pi.add_apply, contrib, contrib, contrib]
  split
  · exact XorByte.of_xor v w
  · exact (add_zero _).symm

@[simp] theorem contrib_zero (q : ℕ) : contrib q 0 = 0 := by
  funext k
  rw [contrib, XorByte.of_zero, ite_self]
  rfl

@[simp] theorem sums_zero : State.zero.sums = 0 := rfl

theorem sums_update_xor (s : State) (v : UInt8) (q : ℕ) :
    (update_xor s v q).sums = s.sums + contrib q v := by
  funext k
  have hbit : ((q : ℤ) / 2 ^ (k : ℕ) % 2 = 1) ↔ q / 2 ^ (k : ℕ) % 2 = 1 := by
    exact_mod_cast Iff.rfl
  rw [Pi.add_apply, State.sums, State.sums, update_xor, contrib]
  by_cases hk : k = 8
  · subst hk
    simp only [if_true, true_or]
    exact XorByte.of_xor _ _
  · simp only [hk, if_false, false_or, hbit]
    split
    · exact XorByte.of_xor _ _
    · rw [add_zero, UInt8.xor_zero]

theorem sums_update_xors (s : State) (q : ℕ) (vs : List UInt8) :
    (update_xors s q vs).sums = s.sums + ((vs.zipIdx q).map fun p ↦ contrib p.2 p.1).sum := by
  induction vs generalizing s q with
  | nil => exact (add_zero _).symm
  | cons v vs ih =>
    rw [update_xors, show ((q : ℤ) + 1) = ((q + 1 : ℕ) : ℤ) by push_cast; rfl, ih, sums_update_xor,
      List.zipIdx_cons, List.map_cons, List.sum_cons, add_assoc]

/-! ## Accesses -/

/-- The bytes a call accesses in the tested file. -/
def Event.accesses : Event → List (Access ℕ UInt8)
  | .pread pos len (.ok data) =>
    reads ((if data = [] then List.replicate len 0 else data).zipIdx pos.toNat)
  | .pwrite pos _ (.ok data) => writes (data.zipIdx pos.toNat)
  | _ => []

/-- The bytes a list of calls accesses in the tested file, in order. -/
def accesses (es : List Event) : List (Access ℕ UInt8) := es.flatMap Event.accesses

@[simp] theorem accesses_nil : accesses [] = [] := rfl

@[simp] theorem accesses_cons (e : Event) (es : List Event) :
    accesses (e :: es) = e.accesses ++ accesses es := List.flatMap_cons

theorem accesses_append (es fs : List Event) : accesses (es ++ fs) = accesses es ++ accesses fs :=
  List.flatMap_append

/-- A `pwrite` that returned `0`. -/
def Event.ZeroWrite : Event → Prop
  | .pwrite _ _ (.ok []) => True
  | _ => False

/-- A `pread` or `pwrite` that failed for good. -/
def Event.HardError : Event → Prop
  | .pread _ _ (.error e) | .pwrite _ _ (.error e) => e ≠ .EAGAIN ∧ e ≠ .EINTR
  | _ => False

/-- The bytes of two adjoining blocks, with their positions. -/
theorem zipIdx_slice_add (b : Buffer) (i n k q : ℕ) :
    (b.slice i (n + k)).zipIdx q = (b.slice i n).zipIdx q ++ (b.slice (i + n) k).zipIdx (q + n) := by
  rw [Buffer.slice_add, List.zipIdx_append, Buffer.length_slice]

/-! ## The transfer loop -/

/-- What the loop leaves of a block it has read: its accesses, the bytes before it, and where it was. -/
structure PreadDone (buf : Buffer) (i rest : ℕ) (ppos : ℤ) (t : Transfer) : Prop where
  /-- It read the bytes it leaves in the buffer, at their positions. -/
  accesses_eq : accesses t.events = reads ((t.buf.slice i rest).zipIdx ppos.toNat)
  /-- It changed nothing before them. -/
  before : ∀ j < i, t.buf.byte j = buf.byte j
  /-- The buffer has its size. -/
  size_eq : t.buf.size = buf.size
  /-- The position is not negative, if anything was read. -/
  nonneg : rest ≠ 0 → 0 ≤ ppos

/-- A successful `pread` of a block reads the bytes it leaves in the buffer. -/
theorem safe_fileop_loop_pread {script : List Reply} {buf : Buffer} {i rest : ℕ} {ppos : ℤ}
    {t : Transfer} (h : safe_fileop_loop .pread script buf i rest ppos = .ok t)
    (hok : t.failed = false) : PreadDone buf i rest ppos t := by
  revert hok
  refine safe_fileop_loop_induction
    (motive := fun buf i rest ppos t ↦ t.failed = false → PreadDone buf i rest ppos t)
    ?done ?eof ?moved ?again ?hard h
  case done =>
    intro script buf i ppos _
    exact ⟨rfl, fun _ _ ↦ rfl, rfl, fun hne ↦ absurd rfl hne⟩
  case eof =>
    -- the rest of the block is read as zeros
    intro r script buf i rest ppos hreply _
    refine ⟨?_, fun j hj ↦ Buffer.byte_put_of_lt _ _ hj, rfl, fun _ ↦
      nonneg_of_answer (by decide) hreply.symm⟩
    rw [Buffer.slice_put_eq _ List.length_replicate]
    simp [PFunc.event, Event.accesses]
  case moved =>
    -- the bytes that came in are the first ones of the block
    intro r buf i rest ppos data t hreply hne hlen ih hok
    have hpos : 0 ≤ ppos := nonneg_of_answer (by decide) hreply.symm
    obtain ⟨hacc, hbefore, hsize, -⟩ := ih hok
    simp only [if_neg (show PFunc.pread ≠ .pwrite by decide)] at hbefore hsize
    refine ⟨?_, fun j hj ↦ ?_, by simpa using hsize, fun _ ↦ hpos⟩
    · have hfirst : t.buf.slice i data.length = data := by
        rw [Buffer.slice_congr fun j _ hj ↦ hbefore j hj, Buffer.slice_put_self]
      have hsplit : rest + 1 = data.length + (rest + 1 - data.length) := by omega
      have hidx : (ppos + data.length).toNat = ppos.toNat + data.length := by omega
      have hev : (PFunc.pread.event (buf.slice i (rest + 1)) ppos (.ok data)).accesses
          = reads (data.zipIdx ppos.toNat) := by
        rw [PFunc.event, Event.accesses, if_neg hne]
      rw [Transfer.events_push, Transfer.buf_push, accesses_cons, hacc, hev, hidx, hsplit,
        zipIdx_slice_add, reads_append, hfirst, ← hsplit]
    · rw [Transfer.buf_push, hbefore j (by omega), Buffer.byte_put_of_lt _ _ hj]
  case again =>
    intro errno buf i rest ppos t _ ih hok
    obtain ⟨hacc, hbefore, hsize, hpos⟩ := ih hok
    refine ⟨?_, hbefore, hsize, hpos⟩
    rw [Transfer.events_push, accesses_cons, hacc]
    rfl
  case hard =>
    intro errno script buf i rest ppos _ _ hok
    cases hok

/-- The bytes a `pwrite` stored are the first ones it was given. -/
theorem slice_of_pwrite_answer {buf : Buffer} {i rest : ℕ} {ppos : ℤ} {r : Reply}
    {data : List UInt8} (h : .ok data = PFunc.pwrite.answer (buf.slice i (rest + 1)) ppos r)
    (hlen : data.length ≤ rest + 1) : buf.slice i data.length = data := by
  have hpos : 0 ≤ ppos := nonneg_of_answer (by decide) h.symm
  have hd : data = (buf.slice i (rest + 1)).take data.length := by
    cases r with
    | error e =>
      rw [PFunc.answer] at h
      split at h <;> cases h
    | ok d =>
      rw [PFunc.answer, if_neg (by omega), if_pos rfl] at h
      cases h
      simp [List.take_eq_take_iff]
  rw [show rest + 1 = data.length + (rest + 1 - data.length) by omega,
    Buffer.slice_add, List.take_left' (by simp)] at hd
  exact hd.symm

/-- A `pwrite` of a block, none of whose calls returned `0`, leaves the buffer alone, whether it succeeds
or not. -/
theorem safe_fileop_loop_pwrite_buf {script : List Reply} {buf : Buffer} {i rest : ℕ} {ppos : ℤ}
    {t : Transfer} (h : safe_fileop_loop .pwrite script buf i rest ppos = .ok t)
    (hzero : ∀ e ∈ t.events, ¬e.ZeroWrite) : t.buf = buf := by
  revert hzero
  refine safe_fileop_loop_induction
    (motive := fun buf _ _ _ t ↦ (∀ e ∈ t.events, ¬e.ZeroWrite) → t.buf = buf)
    ?done ?eof ?moved ?again ?hard h
  case done =>
    intro script buf i ppos _
    rfl
  case eof =>
    intro r script buf i rest ppos _ hzero
    exact absurd trivial (hzero _ (List.mem_singleton_self _))
  case moved =>
    intro r buf i rest ppos data t _ _ _ ih hzero
    exact ih fun e he ↦ hzero e (List.mem_cons_of_mem _ he)
  case again =>
    intro errno buf i rest ppos t _ ih hzero
    exact ih fun e he ↦ hzero e (List.mem_cons_of_mem _ he)
  case hard =>
    intro errno script buf i rest ppos _ _ _
    rfl

/-- A successful `pwrite` of a block, none of whose calls returned `0`, writes its bytes at their
positions. -/
theorem safe_fileop_loop_pwrite {script : List Reply} {buf : Buffer} {i rest : ℕ} {ppos : ℤ}
    {t : Transfer} (h : safe_fileop_loop .pwrite script buf i rest ppos = .ok t)
    (hok : t.failed = false) (hzero : ∀ e ∈ t.events, ¬e.ZeroWrite) :
    accesses t.events = writes ((buf.slice i rest).zipIdx ppos.toNat) ∧ (rest ≠ 0 → 0 ≤ ppos) := by
  revert hok hzero
  refine safe_fileop_loop_induction
    (motive := fun buf i rest ppos t ↦ t.failed = false → (∀ e ∈ t.events, ¬e.ZeroWrite) →
      accesses t.events = writes ((buf.slice i rest).zipIdx ppos.toNat) ∧ (rest ≠ 0 → 0 ≤ ppos))
    ?done ?eof ?moved ?again ?hard h
  case done =>
    intro script buf i ppos _ _
    exact ⟨rfl, fun hne ↦ absurd rfl hne⟩
  case eof =>
    intro r script buf i rest ppos _ _ hzero
    exact absurd trivial (hzero _ (List.mem_singleton_self _))
  case moved =>
    intro r buf i rest ppos data t hreply _ hlen ih hok hzero
    have hpos : 0 ≤ ppos := nonneg_of_answer (by decide) hreply.symm
    obtain ⟨hacc, -⟩ := ih hok fun e he ↦ hzero e (List.mem_cons_of_mem _ he)
    rw [if_pos rfl] at hacc
    refine ⟨?_, fun _ ↦ hpos⟩
    have hfirst := slice_of_pwrite_answer hreply hlen
    have hsplit : rest + 1 = data.length + (rest + 1 - data.length) := by omega
    have hidx : (ppos + data.length).toNat = ppos.toNat + data.length := by omega
    have hev : (PFunc.pwrite.event (buf.slice i (rest + 1)) ppos (.ok data)).accesses
        = writes (data.zipIdx ppos.toNat) := rfl
    rw [Transfer.events_push, accesses_cons, hacc, hev, hidx, hsplit, zipIdx_slice_add,
      writes_append, hfirst, ← hsplit]
  case again =>
    intro errno buf i rest ppos t _ ih hok hzero
    obtain ⟨hacc, hpos⟩ := ih hok fun e he ↦ hzero e (List.mem_cons_of_mem _ he)
    refine ⟨?_, hpos⟩
    rw [Transfer.events_push, accesses_cons, hacc]
    rfl
  case hard =>
    intro errno script buf i rest ppos _ _ hok
    cases hok

/-- Reading the random source does not access the tested file. -/
theorem safe_fileop_loop_fake_pread {script : List Reply} {buf : Buffer} {i rest : ℕ} {ppos : ℤ}
    {t : Transfer} (h : safe_fileop_loop .fake_pread script buf i rest ppos = .ok t) :
    ∀ e ∈ t.events, ∃ len reply, e = .read len reply := by
  refine safe_fileop_loop_induction
    (motive := fun _ _ _ _ t ↦ ∀ e ∈ t.events, ∃ len reply, e = .read len reply)
    ?done ?eof ?moved ?again ?hard h
  case done =>
    intro script buf i ppos e he
    exact absurd he List.not_mem_nil
  case eof =>
    intro r script buf i rest ppos _
    exact List.forall_mem_singleton.mpr ⟨_, _, rfl⟩
  case moved =>
    intro r buf i rest ppos data t _ _ _ ih
    exact List.forall_mem_cons.mpr ⟨⟨_, _, rfl⟩, ih⟩
  case again =>
    intro errno buf i rest ppos t _ ih
    exact List.forall_mem_cons.mpr ⟨⟨_, _, rfl⟩, ih⟩
  case hard =>
    intro errno script buf i rest ppos _ _
    exact List.forall_mem_singleton.mpr ⟨_, _, rfl⟩

/-- A failed `pread` of a block has met a hard error at one of its positions. -/
theorem safe_fileop_loop_pread_failed {script : List Reply} {buf : Buffer} {i rest : ℕ} {ppos : ℤ}
    {t : Transfer} (h : safe_fileop_loop .pread script buf i rest ppos = .ok t)
    (hfail : t.failed = true) :
    ∃ q len errno, ppos ≤ q ∧ errno ≠ .EAGAIN ∧ errno ≠ .EINTR ∧
      .pread q len (.error errno) ∈ t.events := by
  revert hfail
  refine safe_fileop_loop_induction
    (motive := fun _ _ _ ppos t ↦ t.failed = true → ∃ q len errno, ppos ≤ q ∧ errno ≠ .EAGAIN ∧
      errno ≠ .EINTR ∧ .pread q len (.error errno) ∈ t.events)
    ?done ?eof ?moved ?again ?hard h
  case done =>
    intro script buf i ppos hfail
    cases hfail
  case eof =>
    intro r script buf i rest ppos _ hfail
    cases hfail
  case moved =>
    intro r buf i rest ppos data t _ _ _ ih hfail
    obtain ⟨q, len, errno, hq, h1, h2, hmem⟩ := ih hfail
    exact ⟨q, len, errno, by omega, h1, h2, List.mem_cons_of_mem _ hmem⟩
  case again =>
    intro errno buf i rest ppos t _ ih hfail
    obtain ⟨q, len, errno, hq, h1, h2, hmem⟩ := ih hfail
    exact ⟨q, len, errno, hq, h1, h2, List.mem_cons_of_mem _ hmem⟩
  case hard =>
    intro errno script buf i rest ppos hagain hintr _
    exact ⟨ppos, _, errno, le_refl _, hagain, hintr, List.mem_singleton_self _⟩

end ViTools.Fstest
