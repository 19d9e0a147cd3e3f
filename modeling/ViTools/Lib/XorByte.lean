import Mathlib.Algebra.Group.Basic
import Mathlib.Algebra.Group.Pi.Basic
import Mathlib.Tactic.Abel

/-!
# Bytes as an additive group under exclusive or

Exclusive or makes the bytes a commutative group in which every element is its own negative.
`XorByte` carries that structure, so that running checksums can be computed with Mathlib's finite
sums and commutative-group normalization instead of with reassociations by hand.
-/

namespace ViTools

/-- A byte whose addition is exclusive or. -/
def XorByte : Type := UInt8

namespace XorByte

/-- A byte, seen in the group. -/
def of (b : UInt8) : XorByte := b

instance : DecidableEq XorByte := inferInstanceAs (DecidableEq UInt8)

instance : Add XorByte := ⟨fun a b ↦ of (UInt8.xor a b)⟩

instance : Zero XorByte := ⟨of 0⟩

instance : Neg XorByte := ⟨fun a ↦ a⟩

instance : AddCommGroup XorByte where
  nsmul := nsmulRec
  zsmul := zsmulRec
  add_assoc := UInt8.xor_assoc
  zero_add _ := UInt8.zero_xor
  add_zero _ := UInt8.xor_zero
  neg_add_cancel _ := UInt8.xor_self
  add_comm := UInt8.xor_comm

theorem of_xor (a b : UInt8) : of (a ^^^ b) = of a + of b := rfl

@[simp] theorem of_zero : of 0 = 0 := rfl

theorem of_inj {a b : UInt8} : of a = of b ↔ a = b := Iff.rfl

@[simp] theorem add_self (a : XorByte) : a + a = 0 := UInt8.xor_self

end XorByte

/-! ## Vectors of bytes

What holds of one byte holds of every coordinate of a tuple of running checksums. -/

theorem xor_neg_eq {ι : Type*} (x : ι → XorByte) : -x = x := rfl

@[simp] theorem xor_add_self {ι : Type*} (x : ι → XorByte) : x + x = 0 :=
  funext fun i ↦ XorByte.add_self (x i)

theorem xor_sub_eq_add {ι : Type*} (x y : ι → XorByte) : x - y = x + y := by
  rw [sub_eq_add_neg, xor_neg_eq]

end ViTools
