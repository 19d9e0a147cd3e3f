import ViTools.Fstest.Sys
import ViTools.Lib.MachineInt
import ViTools.Lib.Bytes

/-!
# The program fstest

The functions of `fstest.c` under their own names. The machine state they share holds the checker
state that is passed around by pointer, the two buffers of `main`, what is left of the script and
the trace so far. A function that returns `int` for "nonzero if failure" returns `true` for failure.

Left out is what only feeds the progress lines: `statoutput`, its counters, and the number of sweeps
`cleanup` announces, of which the division that can trap is kept.
-/

namespace ViTools.Fstest

/-- `MAX_FSYNC_PART`. -/
def MAX_FSYNC_PART : ℤ := 1000000

/-- User-definable program parameters, each within its C type. -/
structure Params where
  /-- The `off64_t` the offsets are reduced by. -/
  size : ℤ
  /-- The number of chains to insert. -/
  num_iterations : ℤ
  /-- The `size_t` the buffers are allocated with. -/
  max_blocksize : ℕ
  /-- The bound on the blocks of a chain. -/
  max_chainlen : ℤ
  /-- The share of blocks that are synced, in millionths. -/
  sync_part : ℤ
  /-- `size` fits its type. -/
  size_off64 : -2 ^ 63 ≤ size ∧ size < 2 ^ 63 := by decide

/-- A file of three bytes, which is what the examples have. -/
theorem three_off64 : -2 ^ 63 ≤ (3 : ℤ) ∧ (3 : ℤ) < 2 ^ 63 := by decide

/-- There are nine checksums. -/
instance neZero_nine : NeZero 9 := ⟨by decide⟩

/-- Checker state. Elements `k` from 0 to 7: xor of bytes with position with `k`'th bit set.
Element 8: global xor. -/
structure State where
  /-- The nine checksums. -/
  xors : Fin 9 → UInt8

/-- The state `main` starts from. -/
def State.zero : State := ⟨fun _ ↦ 0⟩

def update_xor (s : State) (v : UInt8) (pos : ℤ) : State where
  xors k :=
    if k = 8 then s.xors 8 ^^^ v
    else s.xors k ^^^ (if pos / 2 ^ (k : ℕ) % 2 = 1 then v else 0)

/-- The loop that calls `update_xor` for the bytes of a block at position `pos`. -/
def update_xors (s : State) (pos : ℤ) : List UInt8 → State
  | [] => s
  | v :: vs => update_xors (update_xor s v pos) (pos + 1) vs

/-- What the functions of the program share. -/
structure Machine where
  /-- The checker state. -/
  st : State
  /-- The buffer blocks are read into. -/
  buf1 : Buffer
  /-- The buffer blocks are written from. -/
  buf2 : Buffer
  /-- The answers not used yet. -/
  script : List Reply
  /-- The calls made so far. -/
  trace : List Event

/-- A computation of the program. -/
abbrev Sys (α : Type) := StateT Machine (Except Stop) α

/-- Stop unless a condition holds. -/
def orStop (c : Prop) [Decidable c] (stop : Stop) : Sys Unit := fun m ↦
  if c then .ok ((), m) else .error stop

/-- Call pread or pwrite for the full buffer, handling signal interrupts. Nonzero if failure. -/
def safe_fileop (func : PFunc) (pos : ℤ) (len : ℕ) (buf : Buffer) : Sys (Bool × Buffer) := fun m ↦
  (safe_fileop_loop func m.script buf 0 len pos).map fun t ↦
    ((t.failed, t.buf), { m with script := t.script, trace := m.trace ++ t.events })

/-- Read a block into `buf1` and take its bytes out of the checksums. -/
def read_block (pos : ℤ) (len : ℕ) : Sys Bool := do
  let (failed, buf) ← safe_fileop .pread pos len (← get).buf1
  modify fun m ↦ { m with buf1 := buf }
  if failed then return true
  orStop (len ≤ buf.size) .bounds
  modify fun m ↦ { m with st := update_xors m.st pos (buf.slice 0 len) }
  return false

/-- Write a block from `buf2` and put its bytes into the checksums. The bytes are taken from the
buffer after the write, which is where an end of file reported by `pwrite` has left zeros. -/
def write_block (pos : ℤ) (len : ℕ) : Sys Bool := do
  let (failed, newdata) ← safe_fileop .pwrite pos len (← get).buf2
  modify fun m ↦ { m with buf2 := newdata }
  if failed then return true
  orStop (len ≤ newdata.size) .bounds
  modify fun m ↦ { m with st := update_xors m.st pos (newdata.slice 0 len) }
  return false

/-- `fsync`, whose result nobody looks at. -/
def fsync : Sys Unit := modify fun m ↦ { m with trace := m.trace ++ [.fsync] }

/-- Read and "neutralize" specified block, then "register" and write the new block. The mode is 0 for
normal, 1 for just read, 2 for nosync. -/
def insert_block (pos : ℤ) (len mode : ℕ) : Sys Bool := do
  if ← read_block pos len then return true
  if mode ≠ 1 then
    if ← write_block pos len then return true
  if mode = 0 then fsync
  return false

/-- `RANDOMIZE` of a variable of `size` bytes, which the caller leaves with 1 if it fails. -/
def RANDOMIZE (size : ℕ) : Sys (Bool × ℕ) := do
  let (failed, buf) ← safe_fileop .fake_pread 0 size (.zeros size)
  return (failed, leNat (buf.slice 0 size))

/-- Fill the start of `buf2`. -/
def fill_block (data : List UInt8) : Sys Unit := do
  orStop (data.length ≤ (← get).buf2.size) .bounds
  modify fun m ↦ { m with buf2 := m.buf2.put 0 data }

/-- Generate a block of `len` bytes in `buf2`: random fill, byte fill or 32-bit pattern fill. -/
def generate_block (len : ℕ) : Sys Bool := do
  let (failed, mode) ← RANDOMIZE 1
  if failed then return true
  if mode % 4 = 0 ∨ mode % 4 = 1 then
    let (failed, buf) ← safe_fileop .fake_pread 0 len (← get).buf2
    modify fun m ↦ { m with buf2 := buf }
    return failed
  else if mode % 4 = 2 then
    let (failed, c) ← RANDOMIZE 1
    if failed then return true
    fill_block (List.replicate len (UInt8.ofNat c))
    return false
  else
    let (failed, c) ← RANDOMIZE 4
    if failed then return true
    fill_block ((List.range len).map fun i ↦ (leBytes 4 c).getD (i % 4) 0)
    return false

/-- Whether to sync the next block, after the failure flag of the random source. -/
def choose_sync (p : Params) : Sys (Bool × Bool) := do
  if p.sync_part = MAX_FSYNC_PART then return (false, true)
  else if p.sync_part = 0 then return (false, false)
  else
    let (failed, syncv) ← RANDOMIZE 4
    let syncp := toU64 p.sync_part * 2 ^ 32 % 2 ^ 64 / 1000000
    return (failed, decide (syncv < syncp))

/-- The body of the loop of `insert_chain`, once the offset of the block is settled. -/
def insert_link (p : Params) (length : ℕ) (offset : ℤ) : Sys Bool := do
  let (failed, sync) ← choose_sync p
  if failed then return true
  insert_block offset length (if sync then 0 else 2)

/-- The loop of `insert_chain`. A block that would cross the end goes to the start of the file and is
the last one. The comparison is between unsigned numbers, since `length` is a `size_t`. -/
def insert_links (p : Params) (length : ℕ) : ℕ → ℤ → Sys Bool
  | 0, _ => return false
  | repetitions_count + 1, offset =>
    if toU64 (offset + length) > toU64 p.size then insert_link p length 0
    else do
      if ← insert_link p length offset then return true
      insert_links p length repetitions_count (wrap64 (offset + length))

/-- The random `off64_t` made nonnegative, as far as it has a nonnegative counterpart, and reduced by
the size. -/
def reduce_offset (p : Params) (r : ℕ) : Sys ℤ := do
  let offset := wrap64 r
  let offset := if offset < 0 then wrap64 (-offset) else offset
  orStop (p.size ≠ 0 ∧ ¬(p.size = -1 ∧ offset = -2 ^ 63)) .sigfpe
  return offset.tmod p.size

/-- An unsigned remainder. -/
def remainder (x m : ℕ) : Sys ℕ := do
  orStop (m ≠ 0) .sigfpe
  return x % m

/-- Insert series of equal generated buffers at ascending offsets at random place in file. -/
def insert_chain (p : Params) : Sys Bool := do
  let (failed, offset) ← RANDOMIZE 8
  if failed then return true
  let (failed, repetitions_count) ← RANDOMIZE 4
  if failed then return true
  let (failed, length) ← RANDOMIZE 8
  if failed then return true
  let offset ← reduce_offset p offset
  let length ← remainder length p.max_blocksize
  let repetitions_count ← remainder repetitions_count (toU32 p.max_chainlen)
  if ← generate_block length then return true
  insert_links p length (repetitions_count + 1) offset

/-- The loop of `cleanup`, from offset `off` on. The fuel bounds the rounds. -/
def sweep (p : Params) (size : ℤ) : ℕ → ℤ → Sys Bool
  | 0, _ => fun _ ↦ .error .script
  | fuel + 1, off =>
    if off ≤ size then do
      if ← insert_block off p.max_blocksize 1 then return true
      sweep p size fuel (wrap64 (off + p.max_blocksize))
    else return false

/-- How far `cleanup` reads: up to `size`, and in mode 1 at most one block past the `st_size` that
`fstat` reports. -/
def sweep_size (p : Params) (st_size : ℤ) (mode : ℕ) : ℤ :=
  if mode = 1 then
    let size := wrap64 (st_size + p.max_blocksize)
    if p.size < size then p.size else size
  else p.size

/-- Read the whole file once, to take it out of the checksums. Every round uses an answer of the
script, which is why its length is fuel enough. -/
def cleanup (p : Params) (st_size : ℤ) (mode : ℕ) : Sys Bool := do
  fill_block (List.replicate p.max_blocksize 0)
  orStop (p.max_blocksize ≠ 0) .sigfpe
  sweep p (sweep_size p st_size mode) ((← get).script.length + 1) 0

/-- What a run depends on besides its parameters. -/
structure Env where
  /-- Whether the tested file can be opened. -/
  file_opens : Bool
  /-- Whether the random source can be opened. -/
  random_opens : Bool
  /-- The `st_size` that `fstat` reports. -/
  st_size : ℤ
  /-- The value of `interrupted` at the start of each iteration. -/
  interrupted : ℕ → Bool
  /-- What the allocated buffers hold at first. -/
  garbage : ℕ → UInt8
  /-- The answers to the calls on the two files. -/
  script : List Reply

/-- Open file and random numbers source. Nonzero if failure. -/
def prepare (env : Env) : Bool := !env.file_opens || !env.random_opens

/-- The loop of `main`, with iteration `i` next. -/
def iterate (p : Params) (env : Env) : ℕ → ℕ → Sys Bool
  | 0, _ => return false
  | n + 1, i =>
    if env.interrupted i then return false
    else do
      if ← insert_chain p then return true
      iterate p env n (i + 1)

/-- The last line `main` prints. -/
inductive Verdict
  | OK
  | fail
  deriving DecidableEq

/-- What is left of a run of `main`. -/
structure Exit where
  /-- The exit code. -/
  code : ℕ
  /-- The verdict, if the run reached the final check. -/
  verdict : Option Verdict
  /-- The checksums at the end. -/
  xors : Fin 9 → UInt8
  /-- The calls of the pre-read. -/
  preread : List Event
  /-- The calls after it. -/
  rest : List Event

/-- The final check. -/
def final_check (preread : List Event) (m : Machine) : Exit :=
  if ∀ k, m.st.xors k = 0 then ⟨0, some .OK, m.st.xors, preread, m.trace⟩
  else ⟨2, some .fail, m.st.xors, preread, m.trace⟩

/-- The exit after a failure. -/
def failure (preread : List Event) (m : Machine) : Exit := ⟨1, none, m.st.xors, preread, m.trace⟩

/-- The iterations and the final cleanup. -/
def check (p : Params) (env : Env) : Sys Bool := do
  if ← iterate p env p.num_iterations.toNat 0 then return true
  cleanup p env.st_size 0

/-- The state of `main` after its allocations. -/
def start (p : Params) (env : Env) : Machine :=
  ⟨.zero, ⟨p.max_blocksize, env.garbage⟩, ⟨p.max_blocksize, env.garbage⟩, env.script, []⟩

/-- `main`, from the parsed arguments on. An allocation of `2 ^ 63` bytes or more fails, and the
program then writes through the null pointer it gets. The result of the pre-read is not looked at. -/
def main (p : Params) (env : Env) : Except Stop Exit :=
  if prepare env then .ok ⟨1, none, fun _ ↦ 0, [], []⟩
  else if p.max_blocksize ≥ 2 ^ 63 then .error .bounds
  else
    match cleanup p env.st_size 1 (start p env) with
    | .error stop => .error stop
    | .ok (_, m₁) =>
      match check p env { m₁ with trace := [] } with
      | .error stop => .error stop
      | .ok (failed, m₂) =>
        .ok (if failed then failure m₁.trace m₂ else final_check m₁.trace m₂)

end ViTools.Fstest
