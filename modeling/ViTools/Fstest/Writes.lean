import ViTools.Fstest.Accounting

/-!
# Complete writes

`safe_fileop` is written for reads, where a return value of `0` means the end of the file and the rest of
the block counts as zeros. It is used for writes too, and a `pwrite` that returns `0` takes the same
branch: the rest of the caller's buffer is overwritten with zeros, nothing of it is stored, and the
caller is told that all went well. That is the only way in which a write can go wrong unnoticed.
-/

namespace ViTools.Fstest

open Access

/-- The calls stored the first `len` bytes of the buffer, each of them once and at its own position. -/
structure StoredAll (buf : Buffer) (pos : ℤ) (len : ℕ) (es : List Event) : Prop where
  /-- These bytes went to these positions, and no others anywhere. -/
  accesses_eq : accesses es = writes ((buf.slice 0 len).zipIdx pos.toNat)
  /-- The positions are those of the block. -/
  nonneg : len ≠ 0 → 0 ≤ pos

/-- After a `pwrite` that returned `0` the loop reports success, and some of the block is not stored. -/
theorem safe_fileop_loop_pwrite_zero {script : List Reply} {buf : Buffer} {i rest : ℕ} {ppos : ℤ}
    {t : Transfer} (h : safe_fileop_loop .pwrite script buf i rest ppos = .ok t)
    (hzero : ∃ e ∈ t.events, e.ZeroWrite) :
    t.failed = false ∧ (accesses t.events).length < rest := by
  revert hzero
  refine safe_fileop_loop_induction
    (motive := fun _ _ rest _ t ↦ (∃ e ∈ t.events, e.ZeroWrite) →
      t.failed = false ∧ (accesses t.events).length < rest)
    ?done ?eof ?moved ?again ?hard h
  case done =>
    rintro script buf i ppos ⟨e, he, -⟩
    exact absurd he List.not_mem_nil
  case eof =>
    intro r script buf i rest ppos _ _
    exact ⟨rfl, Nat.succ_pos rest⟩
  case moved =>
    intro r buf i rest ppos data t _ hne hlen ih hzero
    have hlater : ∃ e ∈ t.events, e.ZeroWrite := by
      obtain ⟨e, he, hwrite⟩ := hzero
      rcases List.mem_cons.mp he with rfl | he
      · cases data with
        | nil => exact absurd rfl hne
        | cons v data => exact absurd hwrite id
      · exact ⟨e, he, hwrite⟩
    obtain ⟨hok, hlt⟩ := ih hlater
    refine ⟨hok, ?_⟩
    have hev : (PFunc.pwrite.event (buf.slice i (rest + 1)) ppos (.ok data)).accesses.length =
        data.length := by
      rw [PFunc.event, Event.accesses, writes, List.length_map, List.length_zipIdx]
    rw [Transfer.events_push, accesses_cons, List.length_append, hev]
    omega
  case again =>
    intro errno buf i rest ppos t _ ih hzero
    obtain ⟨e, he, hwrite⟩ := hzero
    rcases List.mem_cons.mp he with rfl | he
    · exact absurd hwrite id
    · exact ih ⟨e, he, hwrite⟩
  case hard =>
    rintro errno script buf i rest ppos _ _ ⟨e, he, hwrite⟩
    rw [List.mem_singleton.mp he] at hwrite
    exact absurd hwrite id

/-- **Writes through `safe_fileop`.** A write that returns 0 has stored its whole block, and no write
changes its buffer, exactly if no call of `pwrite` returned 0. -/
theorem safe_fileop_pwrite_iff {pos : ℤ} {len : ℕ} {buf buf' : Buffer} {m m' : Machine} {failed : Bool}
    (h : safe_fileop .pwrite pos len buf m = .ok ((failed, buf'), m')) :
    ∃ es, m'.trace = m.trace ++ es ∧
      (((failed = false → StoredAll buf pos len es) ∧ buf' = buf) ↔ ∀ e ∈ es, ¬e.ZeroWrite) := by
  obtain ⟨t, ht, rfl, rfl, rfl⟩ := safe_fileop_eq_ok.mp h
  refine ⟨t.events, rfl, ?_⟩
  constructor
  · rintro ⟨hstored, -⟩ e he hwrite
    obtain ⟨hok, hlt⟩ := safe_fileop_loop_pwrite_zero ht ⟨e, he, hwrite⟩
    have hlen := congrArg List.length (hstored hok).accesses_eq
    rw [writes, List.length_map, List.length_zipIdx, Buffer.length_slice] at hlen
    omega
  · intro hzero
    refine ⟨fun hok ↦ ?_, safe_fileop_loop_pwrite_buf ht hzero⟩
    obtain ⟨hacc, hpos⟩ := safe_fileop_loop_pwrite ht hok hzero
    exact ⟨hacc, hpos⟩

/-- A buffer of two sevens. -/
private def sevens : Buffer := ⟨2, fun _ ↦ 7⟩

/-- A machine with the given answers. -/
private def answering (script : List Reply) : Machine := ⟨.zero, sevens, sevens, script, []⟩

/-- A write in two parts, with an interruption in between. -/
theorem safe_fileop_pwrite_iff_interrupted :
    ∃ es, [.pwrite 0 [7, 7] (.ok [7]), .pwrite 1 [7] (.error .EINTR), .pwrite 1 [7] (.ok [7])] =
        [] ++ es ∧
      (((false = false → StoredAll sevens 0 2 es) ∧ sevens = sevens) ↔ ∀ e ∈ es, ¬e.ZeroWrite) :=
  safe_fileop_pwrite_iff (show safe_fileop .pwrite 0 2 sevens
      (answering [.ok [1], .error .EINTR, .ok [1, 2]]) = .ok ((false, sevens), { answering [] with
    trace := [.pwrite 0 [7, 7] (.ok [7]), .pwrite 1 [7] (.error .EINTR), .pwrite 1 [7] (.ok [7])] })
    from rfl)

/-- A `pwrite` that returns 0: success is reported, nothing is stored, and the buffer is zeros. -/
theorem safe_fileop_pwrite_zero :
    safe_fileop .pwrite 0 2 sevens (answering [.ok []]) =
        .ok ((false, sevens.put 0 [0, 0]),
          { answering [] with trace := [.pwrite 0 [7, 7] (.ok [])] }) ∧
      ¬StoredAll sevens 0 2 [.pwrite 0 [7, 7] (.ok [])] ∧ sevens.put 0 [0, 0] ≠ sevens := by
  refine ⟨rfl, ?_, ?_⟩
  · intro h
    exact absurd (congrArg List.length h.accesses_eq) (by decide)
  · intro h
    exact absurd (congrArg (fun b ↦ b.byte 0) h) (by decide)

end ViTools.Fstest
