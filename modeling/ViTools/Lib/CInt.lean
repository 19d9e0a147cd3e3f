import Mathlib.Tactic.Ring
import Mathlib.Tactic.Linarith

/-!
# Evaluating expressions of a signed type

An operation of a signed type of C has a meaning only if its exact result is a value of the type, and
a division only if the divisor is not zero. Processors compute something all the same: the result in
two's complement. `CInt w` keeps both, the value a processor comes to and whether C gives the
evaluation a meaning, so that code that checks a number can be followed past the point where the
number has become wrong.

The two agree as long as the evaluation is defined: then the value is the exact one.
-/

namespace ViTools

/-- The values of the signed type of `w` bits. -/
def Fits (w : ℕ) (x : ℤ) : Prop := -2 ^ (w - 1) ≤ x ∧ x < 2 ^ (w - 1)

instance (w : ℕ) (x : ℤ) : Decidable (Fits w x) := inferInstanceAs (Decidable (_ ∧ _))

/-- The number of `w` bits that a number becomes in two's complement. -/
def twos (w : ℕ) (x : ℤ) : ℤ := (x + 2 ^ (w - 1)) % 2 ^ w - 2 ^ (w - 1)

theorem two_pow_eq_add {w : ℕ} (hw : 0 < w) : (2 : ℤ) ^ w = 2 ^ (w - 1) + 2 ^ (w - 1) := by
  obtain ⟨v, rfl⟩ := Nat.exists_eq_succ_of_ne_zero hw.ne'
  rw [Nat.succ_sub_one, pow_succ]
  ring

/-- A value of the type is kept. -/
theorem twos_eq_self {w : ℕ} {x : ℤ} (hw : 0 < w) (hx : Fits w x) : twos w x = x := by
  have hhalf := two_pow_eq_add hw
  obtain ⟨hlo, hhi⟩ := hx
  rw [twos, Int.emod_eq_of_lt (by omega) (by omega)]
  ring

/-- Every number becomes a value of the type. -/
theorem fits_twos {w : ℕ} (hw : 0 < w) (x : ℤ) : Fits w (twos w x) := by
  have hhalf := two_pow_eq_add hw
  have hpos : (0 : ℤ) < 2 ^ w := by positivity
  have hlo := Int.emod_nonneg (x + 2 ^ (w - 1)) hpos.ne'
  have hhi := Int.emod_lt_of_pos (x + 2 ^ (w - 1)) hpos
  rw [twos]
  constructor <;> omega

/-- A product does not tell whether a factor was wrapped before. -/
theorem twos_mul_twos (w : ℕ) (x k : ℤ) : twos w (twos w x * k) = twos w (x * k) := by
  have hdiv : twos w x = x - 2 ^ w * ((x + 2 ^ (w - 1)) / 2 ^ w) := by
    rw [twos, Int.emod_def]
    ring
  generalize (x + 2 ^ (w - 1)) / 2 ^ w = q at hdiv
  have hexact : twos w x * k + 2 ^ (w - 1) = x * k + 2 ^ (w - 1) - 2 ^ w * (q * k) := by
    rw [hdiv]
    ring
  rw [twos, hexact, Int.sub_mul_emod_self_left, twos]

theorem fits_32 {x : ℤ} : Fits 32 x ↔ -2147483648 ≤ x ∧ x ≤ 2147483647 := by
  rw [Fits]
  omega

/-- An expression of the signed type of `w` bits under evaluation. -/
structure CInt (w : ℕ) where
  /-- The value in two's complement. -/
  val : ℤ
  /-- Whether no operation so far has overflowed or divided by zero. -/
  defined : Bool
  deriving DecidableEq

namespace CInt

variable {w : ℕ}

/-- A variable or a constant. -/
def lit (x : ℤ) : CInt w := ⟨x, true⟩

/-- An operation, by its exact result and its own condition. -/
def op (a b : CInt w) (exact : ℤ) (c : Bool) : CInt w :=
  ⟨twos w exact, a.defined && b.defined && c && decide (Fits w exact)⟩

instance : Add (CInt w) := ⟨fun a b ↦ op a b (a.val + b.val) true⟩

instance : Mul (CInt w) := ⟨fun a b ↦ op a b (a.val * b.val) true⟩

/-- Division truncates. -/
instance : Div (CInt w) := ⟨fun a b ↦ op a b (a.val.tdiv b.val) (b.val ≠ 0)⟩

@[simp] theorem val_lit (x : ℤ) : (lit x : CInt w).val = x := rfl

@[simp] theorem defined_lit (x : ℤ) : (lit x : CInt w).defined = true := rfl

theorem val_add (a b : CInt w) : (a + b).val = twos w (a.val + b.val) := rfl

theorem val_mul (a b : CInt w) : (a * b).val = twos w (a.val * b.val) := rfl

theorem val_div (a b : CInt w) : (a / b).val = twos w (a.val.tdiv b.val) := rfl

theorem defined_op {a b : CInt w} {exact : ℤ} {c : Bool} :
    (op a b exact c).defined = true ↔
      a.defined = true ∧ b.defined = true ∧ c = true ∧ Fits w exact := by
  simp only [op, Bool.and_eq_true, decide_eq_true_eq, and_assoc]

theorem defined_add {a b : CInt w} : (a + b).defined = true ↔
    a.defined = true ∧ b.defined = true ∧ Fits w (a.val + b.val) := by
  have h := @defined_op w a b (a.val + b.val) true
  rwa [eq_self, true_and] at h

theorem defined_mul {a b : CInt w} : (a * b).defined = true ↔
    a.defined = true ∧ b.defined = true ∧ Fits w (a.val * b.val) := by
  have h := @defined_op w a b (a.val * b.val) true
  rwa [eq_self, true_and] at h

theorem defined_div {a b : CInt w} : (a / b).defined = true ↔
    a.defined = true ∧ b.defined = true ∧ b.val ≠ 0 ∧ Fits w (a.val.tdiv b.val) := by
  have h := @defined_op w a b (a.val.tdiv b.val) (decide (b.val ≠ 0))
  rwa [decide_eq_true_eq] at h

end CInt

end ViTools
