import Mathlib.Data.Nat.ModEq
import Mathlib.Tactic.Ring

/-!
# Numbers in memory

A number of `k` bytes as a little-endian machine lays it out in memory, and back. Network byte order
is the same list reversed, so the conversions between host and network order reverse the bytes of a
number, and are their own inverses.
-/

namespace ViTools

/-- The number a little-endian machine reads from bytes. -/
def leNat : List UInt8 → ℕ
  | [] => 0
  | b :: bs => b.toNat + 256 * leNat bs

/-- The `k` low bytes of a number, as a little-endian machine stores them. -/
def leBytes : ℕ → ℕ → List UInt8
  | 0, _ => []
  | k + 1, x => UInt8.ofNat x :: leBytes k (x / 256)

@[simp] theorem length_leBytes (k x : ℕ) : (leBytes k x).length = k := by
  induction k generalizing x with
  | zero => rfl
  | succ k ih => rw [leBytes, List.length_cons, ih]

theorem leNat_lt (l : List UInt8) : leNat l < 256 ^ l.length := by
  induction l with
  | nil => exact Nat.one_pos
  | cons b l ih =>
    have hb := b.toNat_lt
    rw [leNat, List.length_cons, pow_succ]
    omega

theorem leNat_leBytes (k x : ℕ) : leNat (leBytes k x) = x % 256 ^ k := by
  induction k generalizing x with
  | zero => rw [leBytes, leNat, pow_zero, Nat.mod_one]
  | succ k ih =>
    have hlow : (UInt8.ofNat x).toNat = x % 256 := UInt8.toNat_ofNat'
    rw [leBytes, leNat, ih, hlow, pow_succ', ← Nat.mod_mul]

theorem leNat_leBytes_of_lt {k x : ℕ} (h : x < 256 ^ k) : leNat (leBytes k x) = x := by
  rw [leNat_leBytes, Nat.mod_eq_of_lt h]

theorem leBytes_leNat (l : List UInt8) : leBytes l.length (leNat l) = l := by
  induction l with
  | nil => rfl
  | cons b l ih =>
    have hb := b.toNat_lt
    have hlow : UInt8.ofNat (b.toNat + 256 * leNat l) = b := by
      refine UInt8.toNat_inj.mp ?_
      rw [UInt8.toNat_ofNat']
      omega
    rw [List.length_cons, leNat, leBytes, hlow,
      show (b.toNat + 256 * leNat l) / 256 = leNat l by omega, ih]

/-! ## Network byte order -/

/-- A 32-bit number with its four bytes reversed. -/
def byteSwap32 (x : UInt32) : UInt32 := UInt32.ofNat (leNat (leBytes 4 x.toNat).reverse)

/-- The four bytes of a 32-bit number in memory. -/
def memBytes32 (x : UInt32) : List UInt8 := leBytes 4 x.toNat

/-- The 32-bit number found in four bytes of memory. -/
def memNat32 (l : List UInt8) : UInt32 := UInt32.ofNat (leNat l)

@[simp] theorem length_memBytes32 (x : UInt32) : (memBytes32 x).length = 4 := length_leBytes _ _

theorem memNat32_memBytes32 (x : UInt32) : memNat32 (memBytes32 x) = x := by
  rw [memNat32, memBytes32, leNat_leBytes_of_lt (x := x.toNat) (by exact x.toNat_lt),
    UInt32.ofNat_toNat]

/-- Four bytes can be told from their number. -/
theorem memBytes32_memNat32 {l : List UInt8} (h : l.length = 4) : memBytes32 (memNat32 l) = l := by
  have hlt := leNat_lt l
  rw [h] at hlt
  have hnat : (UInt32.ofNat (leNat l)).toNat = leNat l := by
    rw [UInt32.toNat_ofNat']
    exact Nat.mod_eq_of_lt hlt
  rw [memBytes32, memNat32, hnat, ← h]
  exact leBytes_leNat l

theorem toNat_byteSwap32 (x : UInt32) :
    (byteSwap32 x).toNat = leNat (leBytes 4 x.toNat).reverse := by
  have h := leNat_lt (leBytes 4 x.toNat).reverse
  rw [List.length_reverse, length_leBytes] at h
  rw [byteSwap32, UInt32.toNat_ofNat']
  exact Nat.mod_eq_of_lt h

theorem byteSwap32_byteSwap32 (x : UInt32) : byteSwap32 (byteSwap32 x) = x := by
  have hlen : (leBytes 4 x.toNat).reverse.length = 4 := by simp
  have hrev := leBytes_leNat (leBytes 4 x.toNat).reverse
  rw [hlen] at hrev
  rw [byteSwap32, toNat_byteSwap32, hrev, List.reverse_reverse]
  exact memNat32_memBytes32 x

end ViTools
