import Mathlib.Data.List.GetD
import Mathlib.Tactic.Ring

/-!
# Memory buffers with checked accesses

A buffer is a fixed number of bytes. Reading or writing a range of it yields `none` when the range
does not lie inside the buffer, so a program modelled over buffers shows its out-of-bounds accesses
as failures instead of hiding them.

The contents are a function of the index rather than a list. A buffer of `65536` bytes is then as
cheap to evaluate as the few bytes that are looked at.
-/

namespace ViTools

/-- A block of memory of `size` bytes. -/
structure Buffer where
  /-- How many bytes may be accessed. -/
  size : ℕ
  /-- The byte at each index. -/
  byte : ℕ → UInt8

namespace Buffer

/-- A buffer of zero bytes. -/
def zeros (n : ℕ) : Buffer := ⟨n, fun _ ↦ 0⟩

/-- The `n` bytes from index `i` on, without a bounds check. -/
def slice (b : Buffer) (i n : ℕ) : List UInt8 := (List.range' i n).map b.byte

/-- Read `n` bytes at index `i`. -/
def load (b : Buffer) (i n : ℕ) : Option (List UInt8) :=
  if i + n ≤ b.size then some (b.slice i n) else none

/-- Read the byte at index `i`. -/
def get (b : Buffer) (i : ℕ) : Option UInt8 := if i < b.size then some (b.byte i) else none

/-- The contents after `data` was written at index `i`, without a bounds check. -/
def put (b : Buffer) (i : ℕ) (data : List UInt8) : Buffer :=
  { b with byte := fun j ↦ if i ≤ j ∧ j < i + data.length then data.getD (j - i) 0 else b.byte j }

/-- Write `data` at index `i`. -/
def store (b : Buffer) (i : ℕ) (data : List UInt8) : Option Buffer :=
  if i + data.length ≤ b.size then some (b.put i data) else none

/-- Copy `n` bytes from index `src` to index `dst`; the two ranges may overlap. -/
def move (b : Buffer) (dst src n : ℕ) : Option Buffer := do
  let data ← b.load src n
  b.store dst data

@[simp] theorem length_slice (b : Buffer) (i n : ℕ) : (b.slice i n).length = n := by
  rw [slice, List.length_map, List.length_range']

@[simp] theorem size_put (b : Buffer) (i : ℕ) (data : List UInt8) : (b.put i data).size = b.size :=
  rfl

@[simp] theorem size_zeros (n : ℕ) : (zeros n).size = n := rfl

@[simp] theorem slice_zero (b : Buffer) (i : ℕ) : b.slice i 0 = [] := rfl

theorem slice_add (b : Buffer) (i n k : ℕ) :
    b.slice i (n + k) = b.slice i n ++ b.slice (i + n) k := by
  rw [slice, slice, slice, ← List.map_append, List.range'_append_1]

theorem slice_congr {b c : Buffer} {i n : ℕ} (h : ∀ j, i ≤ j → j < i + n → b.byte j = c.byte j) :
    b.slice i n = c.slice i n := by
  refine List.map_congr_left fun j hj ↦ ?_
  rw [List.mem_range'_1] at hj
  exact h j hj.1 hj.2

theorem byte_put_of_lt (b : Buffer) {i j : ℕ} (data : List UInt8) (h : j < i) :
    (b.put i data).byte j = b.byte j := if_neg (by omega)

theorem byte_put_of_ge (b : Buffer) {i j : ℕ} (data : List UInt8) (h : i + data.length ≤ j) :
    (b.put i data).byte j = b.byte j := if_neg (by omega)

theorem slice_put_self (b : Buffer) (i : ℕ) (data : List UInt8) :
    (b.put i data).slice i data.length = data := by
  refine List.ext_getElem (by simp) fun k hk hk' ↦ ?_
  simp only [slice, List.getElem_map, List.getElem_range', put]
  rw [if_pos (by omega), show i + 1 * k - i = k by omega, List.getD_eq_getElem _ _ hk']

/-- The form rewriting uses when only the length of the data is known. -/
theorem slice_put_eq (b : Buffer) {i n : ℕ} {data : List UInt8} (h : data.length = n) :
    (b.put i data).slice i n = data := h ▸ slice_put_self b i data

/-- A part of what was written. -/
theorem slice_put_part (b : Buffer) {i k n : ℕ} {data : List UInt8} (h : k + n ≤ data.length) :
    (b.put i data).slice (i + k) n = (data.drop k).take n := by
  refine List.ext_getElem ?_ fun m hm hm' ↦ ?_
  · rw [length_slice, List.length_take, List.length_drop]
    omega
  · rw [length_slice] at hm
    simp only [slice, List.getElem_map, List.getElem_range', put, List.getElem_take,
      List.getElem_drop]
    rw [if_pos (by omega), show i + k + 1 * m - i = k + m by omega,
      List.getD_eq_getElem _ _ (by omega)]

theorem slice_put_of_le (b : Buffer) {i j n : ℕ} (data : List UInt8) (h : j + n ≤ i) :
    (b.put i data).slice j n = b.slice j n :=
  slice_congr fun _ _ hk ↦ byte_put_of_lt b data (by omega)

theorem slice_put_of_ge (b : Buffer) {i j n : ℕ} (data : List UInt8) (h : i + data.length ≤ j) :
    (b.put i data).slice j n = b.slice j n :=
  slice_congr fun _ hk _ ↦ byte_put_of_ge b data (by omega)

theorem put_nil (b : Buffer) (i : ℕ) : b.put i [] = b := by
  have hbyte : (b.put i []).byte = b.byte := funext fun j ↦ if_neg (by simp)
  cases b
  rw [mk.injEq]
  exact ⟨rfl, hbyte⟩

/-- Adjacent writes are one write. -/
theorem put_put_append (b : Buffer) (i : ℕ) (x y : List UInt8) :
    (b.put i x).put (i + x.length) y = b.put i (x ++ y) := by
  simp only [put, mk.injEq, true_and]
  funext j
  rw [List.length_append]
  by_cases hy : i + x.length ≤ j
  · rw [List.getD_append_right _ _ _ _ (by omega), Nat.sub_sub]
    by_cases hj : j < i + x.length + y.length
    · rw [if_pos ⟨hy, hj⟩, if_pos (by omega)]
    · rw [if_neg (by omega), if_neg (by omega), if_neg (by omega)]
  · rw [if_neg (by omega)]
    by_cases hx : i ≤ j
    · rw [if_pos (by omega), if_pos (by omega), List.getD_append _ _ _ _ (by omega)]
    · rw [if_neg (by omega), if_neg (by omega)]

/-- A header written in front of the data that starts where the header ends. -/
theorem slice_put_header (b : Buffer) (header data : List UInt8) {i : ℕ} (h : header.length = i) :
    ((b.put i data).put 0 header).slice 0 (i + data.length) = header ++ data := by
  rw [slice_add, slice_put_eq _ h, slice_put_of_ge _ _ (by omega), Nat.zero_add, slice_put_self]

/-! ## Checked accesses -/

theorem load_eq_some {b : Buffer} {i n : ℕ} {data : List UInt8} :
    b.load i n = some data ↔ i + n ≤ b.size ∧ b.slice i n = data := by
  rw [load]
  split <;> simp_all

theorem load_of_le {b : Buffer} {i n : ℕ} (h : i + n ≤ b.size) : b.load i n = some (b.slice i n) :=
  if_pos h

theorem store_of_le {b : Buffer} {i : ℕ} {data : List UInt8} (h : i + data.length ≤ b.size) :
    b.store i data = some (b.put i data) := if_pos h

theorem get_of_lt {b : Buffer} {i : ℕ} (h : i < b.size) : b.get i = some (b.byte i) := if_pos h

theorem slice_one (b : Buffer) (i : ℕ) : b.slice i 1 = [b.byte i] := rfl

theorem move_of_le {b : Buffer} {dst src n : ℕ} (hs : src + n ≤ b.size) (hd : dst + n ≤ b.size) :
    b.move dst src n = some (b.put dst (b.slice src n)) := by
  rw [move, load_of_le hs]
  exact store_of_le (by rwa [length_slice])

end Buffer

end ViTools
