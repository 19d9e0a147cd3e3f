import ViTools.Lib.Buffer

/-!
# System calls of fstest and the transfer loop around them

`fstest` touches the outside world through `pread` and `pwrite` on the tested file and `read` on the
random source. A run of the model is driven by a *script*, the list of what the kernel answers to
these calls in the order they are made, and it leaves a *trace* of the calls with the answers given.
Every finite run of the program is the run of some script, so a statement about all scripts is a
statement about all behaviours of the file system, however faulty.

`safe_fileop` is the one loop all transfers go through. It is recursive in the script, since every
round of it makes a call.

## What the kernel decides by itself

Two things are not up to the script. A call never transfers more than the bytes asked for, so longer
answers are cut; and `pread` and `pwrite` refuse a negative position with `EINVAL` before the file
system is asked.
-/

namespace ViTools.Fstest

/-- The values of `errno` the program distinguishes; `EIO` stands for every other error. -/
inductive Errno
  | EAGAIN
  | EINTR
  | EINVAL
  | EIO
  deriving DecidableEq

/-- The outcome of a call: either it moved some bytes, none of them being the return value `0`, or
it returned `-1` with an error. In a script the bytes matter to reads only; a write is told by their
number how much it stored. -/
inductive Reply
  | ok (data : List UInt8)
  | error (e : Errno)
  deriving DecidableEq

/-- The functions passed to `safe_fileop`. -/
inductive PFunc
  | pread
  | pwrite
  | fake_pread
  deriving DecidableEq

/-- A system call with its outcome. The bytes of an outcome are those moved: the bytes read, or the
prefix of `data` that was stored. -/
inductive Event
  | pread (pos : ℤ) (len : ℕ) (reply : Reply)
  | pwrite (pos : ℤ) (data : List UInt8) (reply : Reply)
  | read (len : ℕ) (reply : Reply)
  | fsync
  deriving DecidableEq

/-- Why a run of the model ends before the program does: the script has no answer left, an access
falls outside its buffer, or the processor traps a division. -/
inductive Stop
  | script
  | bounds
  | sigfpe
  deriving DecidableEq

/-- What the kernel makes of an answer of the script when it is given the buffer contents `out`. -/
def PFunc.answer (func : PFunc) (out : List UInt8) (ppos : ℤ) : Reply → Reply
  | .error e => if ppos < 0 ∧ func ≠ .fake_pread then .error .EINVAL else .error e
  | .ok data =>
    if ppos < 0 ∧ func ≠ .fake_pread then .error .EINVAL
    else if func = .pwrite then .ok (out.take data.length)
    else .ok (data.take out.length)

/-- The trace entry of a call. -/
def PFunc.event (func : PFunc) (out : List UInt8) (ppos : ℤ) (reply : Reply) : Event :=
  match func with
  | .pread => .pread ppos out.length reply
  | .pwrite => .pwrite ppos out reply
  | .fake_pread => .read out.length reply

/-- What `safe_fileop` leaves: its return value, the buffer, the rest of the script and the calls
made. -/
structure Transfer where
  /-- Whether it returned nonzero. -/
  failed : Bool
  /-- The caller's buffer afterwards. -/
  buf : Buffer
  /-- The answers not used yet. -/
  script : List Reply
  /-- The calls it made. -/
  events : List Event

/-- A transfer with one more call in front of it. -/
def Transfer.push (e : Event) (t : Transfer) : Transfer := { t with events := e :: t.events }

@[simp] theorem Transfer.failed_push (e : Event) (t : Transfer) : (t.push e).failed = t.failed := rfl

@[simp] theorem Transfer.buf_push (e : Event) (t : Transfer) : (t.push e).buf = t.buf := rfl

@[simp] theorem Transfer.events_push (e : Event) (t : Transfer) :
    (t.push e).events = e :: t.events := rfl

/-- The loop of `safe_fileop`: `rest` bytes remain, to be moved from or to index `i` of the buffer
and position `ppos` of the file. -/
def safe_fileop_loop (func : PFunc) :
    List Reply → Buffer → ℕ → ℕ → ℤ → Except Stop Transfer
  | script, buf, _, 0, _ => .ok ⟨false, buf, script, []⟩
  | [], _, _, _ + 1, _ => .error .script
  | r :: script, buf, i, rest + 1, ppos =>
    match buf.load i (rest + 1) with
    | none => .error .bounds
    | some out =>
      let reply := func.answer out ppos r
      let e := func.event out ppos reply
      match reply with
      | .ok [] =>
        -- end of file: the remaining bytes of the buffer become zero, in a write too
        .ok ⟨false, buf.put i (List.replicate (rest + 1) 0), script, [e]⟩
      | .ok data =>
        let buf' := if func = .pwrite then buf else buf.put i data
        (safe_fileop_loop func script buf' (i + data.length) (rest + 1 - data.length)
          (ppos + data.length)).map (.push e)
      | .error errno =>
        if errno = .EAGAIN ∨ errno = .EINTR then
          (safe_fileop_loop func script buf i (rest + 1) ppos).map (.push e)
        else .ok ⟨true, buf, script, [e]⟩

/-! ## Inverting the loop -/

section Inversion

variable {func : PFunc} {script : List Reply} {buf : Buffer} {i rest : ℕ} {ppos : ℤ} {t : Transfer}

theorem safe_fileop_loop_zero :
    safe_fileop_loop func script buf i 0 ppos = .ok ⟨false, buf, script, []⟩ := by
  cases script <;> rfl

theorem exceptMap_eq_ok {α β ε : Type*} {f : α → β} {x : Except ε α} {b : β} :
    x.map f = .ok b ↔ ∃ a, x = .ok a ∧ f a = b := by
  cases x <;> simp [Except.map]

/-- A completed round of the loop: the buffer range was there, and the call came to an end of file,
moved some bytes, was interrupted, or failed. -/
theorem safe_fileop_loop_cons {r : Reply}
    (h : safe_fileop_loop func (r :: script) buf i (rest + 1) ppos = .ok t) :
    i + (rest + 1) ≤ buf.size ∧ ∃ reply, reply = func.answer (buf.slice i (rest + 1)) ppos r ∧
      ((reply = .ok [] ∧ t = ⟨false, buf.put i (List.replicate (rest + 1) 0), script,
          [func.event (buf.slice i (rest + 1)) ppos reply]⟩) ∨
        (∃ data t', reply = .ok data ∧ data ≠ [] ∧
          safe_fileop_loop func script (if func = .pwrite then buf else buf.put i data)
            (i + data.length) (rest + 1 - data.length) (ppos + data.length) = .ok t' ∧
          t = t'.push (func.event (buf.slice i (rest + 1)) ppos reply)) ∨
        (∃ t', (reply = .error .EAGAIN ∨ reply = .error .EINTR) ∧
          safe_fileop_loop func script buf i (rest + 1) ppos = .ok t' ∧
          t = t'.push (func.event (buf.slice i (rest + 1)) ppos reply)) ∨
        (∃ errno, reply = .error errno ∧ errno ≠ .EAGAIN ∧ errno ≠ .EINTR ∧
          t = ⟨true, buf, script, [func.event (buf.slice i (rest + 1)) ppos reply]⟩)) := by
  rw [safe_fileop_loop] at h
  split at h
  · cases h
  · next out hload =>
    obtain ⟨hle, rfl⟩ := Buffer.load_eq_some.mp hload
    refine ⟨hle, _, rfl, ?_⟩
    simp only at h
    split at h
    · next heq =>
      rw [heq] at h
      cases h
      exact .inl ⟨heq, by rw [heq]⟩
    · next data hne heq =>
      rw [exceptMap_eq_ok] at h
      obtain ⟨t', ht', rfl⟩ := h
      exact .inr (.inl ⟨data, t', heq, hne, ht', rfl⟩)
    · next errno heq =>
      split at h
      · next hagain =>
        rw [exceptMap_eq_ok] at h
        obtain ⟨t', ht', rfl⟩ := h
        exact .inr (.inr (.inl ⟨t', by rw [heq]; rcases hagain with rfl | rfl <;> simp, ht', rfl⟩))
      · next hhard =>
        rw [not_or] at hhard
        cases h
        exact .inr (.inr (.inr ⟨errno, heq, hhard.1, hhard.2, rfl⟩))

/-- At most the bytes asked for are moved. -/
theorem length_le_of_answer {out data : List UInt8} {r : Reply}
    (h : func.answer out ppos r = .ok data) : data.length ≤ out.length := by
  cases r with
  | error e =>
    rw [PFunc.answer] at h
    split at h <;> cases h
  | ok d =>
    rw [PFunc.answer] at h
    split at h
    · cases h
    · split at h <;> cases h <;> simp

/-- Bytes are moved at nonnegative positions only. -/
theorem nonneg_of_answer {out data : List UInt8} {r : Reply} (hfunc : func ≠ .fake_pread)
    (h : func.answer out ppos r = .ok data) : 0 ≤ ppos := by
  by_contra hneg
  have hcond : ppos < 0 ∧ func ≠ .fake_pread := ⟨by omega, hfunc⟩
  cases r <;> rw [PFunc.answer, if_pos hcond] at h <;> cases h

/-- **Induction along a completed loop.** A property of the loop's state and of what it leaves holds if it
holds where a round ends the loop and is carried back over the rounds that go on. -/
theorem safe_fileop_loop_induction {motive : Buffer → ℕ → ℕ → ℤ → Transfer → Prop}
    (done : ∀ script buf i ppos, motive buf i 0 ppos ⟨false, buf, script, []⟩)
    (eof : ∀ r script buf i rest ppos, .ok [] = func.answer (buf.slice i (rest + 1)) ppos r →
      motive buf i (rest + 1) ppos ⟨false, buf.put i (List.replicate (rest + 1) 0), script,
        [func.event (buf.slice i (rest + 1)) ppos (.ok [])]⟩)
    (moved : ∀ r buf i rest ppos data t, .ok data = func.answer (buf.slice i (rest + 1)) ppos r →
      data ≠ [] → data.length ≤ rest + 1 →
      motive (if func = .pwrite then buf else buf.put i data) (i + data.length)
        (rest + 1 - data.length) (ppos + data.length) t →
      motive buf i (rest + 1) ppos (t.push (func.event (buf.slice i (rest + 1)) ppos (.ok data))))
    (again : ∀ errno buf i rest ppos t, errno = .EAGAIN ∨ errno = .EINTR →
      motive buf i (rest + 1) ppos t →
      motive buf i (rest + 1) ppos
        (t.push (func.event (buf.slice i (rest + 1)) ppos (.error errno))))
    (hard : ∀ errno script buf i rest ppos, errno ≠ .EAGAIN → errno ≠ .EINTR →
      motive buf i (rest + 1) ppos ⟨true, buf, script,
        [func.event (buf.slice i (rest + 1)) ppos (.error errno)]⟩)
    (h : safe_fileop_loop func script buf i rest ppos = .ok t) : motive buf i rest ppos t := by
  induction script generalizing buf i rest ppos t with
  | nil =>
    cases rest with
    | zero =>
      rw [safe_fileop_loop_zero] at h
      cases h
      exact done _ _ _ _
    | succ rest => cases h
  | cons r script ih =>
    cases rest with
    | zero =>
      rw [safe_fileop_loop_zero] at h
      cases h
      exact done _ _ _ _
    | succ rest =>
      obtain ⟨-, reply, hreply, hcase⟩ := safe_fileop_loop_cons h
      rcases hcase with ⟨rfl, rfl⟩ | ⟨data, t', rfl, hne, ht', rfl⟩ | ⟨t', hagain, ht', rfl⟩ |
        ⟨errno, rfl, hagain, hintr, rfl⟩
      · exact eof r _ _ _ _ _ hreply
      · have hlen : data.length ≤ rest + 1 := by
          simpa using length_le_of_answer hreply.symm
        exact moved r _ _ _ _ _ _ hreply hne hlen (ih ht')
      · rcases hagain with rfl | rfl
        · exact again _ _ _ _ _ _ (.inl rfl) (ih ht')
        · exact again _ _ _ _ _ _ (.inr rfl) (ih ht')
      · exact hard _ _ _ _ _ _ hagain hintr

end Inversion

end ViTools.Fstest
