import ViTools.Lib.Buffer
import ViTools.Lib.MachineInt
import ViTools.Lib.Strtol

/-!
# The program uksm_tease

The program fills memory with copies of one block that it reads from its standard input, so that the kernel can
merge the pages. `calloc` does not align what it returns with the pages. That does no harm: the contents have
the length of the block as their period, and all whole pages are equal wherever they start.

The block is an array on the stack, and its size is not checked. If there is no room for it, then the program
leaves its memory as soon as it goes on.
-/

namespace ViTools.UksmTease

/-- What there is of memory, in bytes. -/
structure Machine where
  /-- On the stack. -/
  stack : ℕ
  /-- For `calloc`. -/
  heap : ℕ
  /-- No object is larger than `PTRDIFF_MAX`. -/
  stack_lt : stack < 2 ^ 63
  heap_lt : heap < 2 ^ 63

/-- What becomes of the program. -/
inductive Outcome
  /-- It explains its usage and exits with 1. -/
  | usage
  /-- The array `buf` has no elements, which is undefined. -/
  | undefined
  /-- `calloc` fails, and the program exits with 1. -/
  | perror
  /-- It writes outside of the array on the stack or of the memory. -/
  | out_of_bounds
  /-- It says `finished` and sleeps. This is what is in the memory. -/
  | finished (a : Buffer)

/-- The array `buf`, with what was on the stack. Without room for it already the call of `fread` writes outside
of the stack. -/
def declare (machine : Machine) (garbage : ℕ → UInt8) (page_size : ℕ) : Option Buffer :=
  if page_size ≤ machine.stack then some ⟨page_size, garbage⟩ else none

/-- `fread`, which may get less than it is asked for. -/
def fread (stdin : List UInt8) (buf : Buffer) (page_size : ℕ) : Option Buffer :=
  buf.store 0 (stdin.take page_size)

/-- `calloc`: zeros, if the product does not overflow and there is room. -/
def calloc (machine : Machine) (nmemb size : ℕ) : Option Buffer :=
  if nmemb * size ≤ machine.heap then some (.zeros (nmemb * size)) else none

/-- The loop, up to `i`. The offset is of type `size_t`. -/
def fill (page_size : ℕ) (buf a : Buffer) (i : ℕ) : Option Buffer :=
  (List.range i).foldlM (fun a i ↦ do a.store (page_size * i % 2 ^ 64) (← buf.load 0 page_size)) a

/-- `main`, with the arguments after the name of the program. -/
def main (argv : List (List Char)) (machine : Machine) (stdin : List UInt8) (garbage : ℕ → UInt8) : Outcome :=
  match argv with
  | page_size :: number_of_pages :: _ =>
    let page_size := toU64 (atoi page_size)
    let number_of_pages := atoi number_of_pages
    if page_size = 0 then .undefined
    else
      match (declare machine garbage page_size).bind fun buf ↦ fread stdin buf page_size with
      | none => .out_of_bounds
      | some buf =>
        match calloc machine (toU64 number_of_pages) page_size with
        | none => .perror
        | some a =>
          match fill page_size buf a number_of_pages.toNat with
          | none => .out_of_bounds
          | some a => .finished a
  | _ => .usage

/-! ## The loop -/

section Fill

variable {block : List UInt8} {a : Buffer} {n : ℕ}

/-- What the loop does up to `n`: copies of the block, one after the other. -/
structure Filled (block : List UInt8) (a a' : Buffer) (n : ℕ) : Prop where
  size : a'.size = a.size
  slice : ∀ k < n, a'.slice (block.length * k) block.length = block

/-- The contents have the length of the block as their period. -/
theorem Filled.byte {a' : Buffer} (h : Filled block a a' n) {j : ℕ} (hj : j < block.length * n) :
    a'.byte j = block.getD (j % block.length) 0 := by
  have hpos : 0 < block.length := by
    rw [Nat.pos_iff_ne_zero]
    intro h0
    rw [h0, Nat.zero_mul] at hj
    exact Nat.not_lt_zero j hj
  have hk : j / block.length < n := Nat.div_lt_of_lt_mul hj
  have hmod : j % block.length < block.length := Nat.mod_lt _ hpos
  have hcopy : (a'.slice (block.length * (j / block.length)) block.length).getD (j % block.length) 0 =
      block.getD (j % block.length) 0 := by
    rw [h.slice _ hk]
  rw [← hcopy, Buffer.slice, List.getD_eq_getElem _ _ (by simpa using hmod), List.getElem_map, List.getElem_range',
    Nat.one_mul, Nat.div_add_mod]

end Fill

/-! ## The program -/

section Main

variable {machine : Machine} {stdin : List UInt8} {garbage : ℕ → UInt8}

theorem fits_atoi (text : List Char) : Fits 32 (atoi text) := by
  rw [atoi]
  cases scan_number text with
  | none => decide
  | some y => exact fits_twos (by decide) _

end Main

end ViTools.UksmTease
