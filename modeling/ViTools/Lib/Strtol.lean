import ViTools.Lib.CInt
import ViTools.Lib.Scan

/-!
# Signed decimal numbers in text

`%d` of `scanf`, `atoi` and `atoll` read a decimal number as `strtol` does: white space is skipped, a sign
is allowed, and a number that does not fit in 64 bits is replaced by the nearest one that does. What is to
be an `int` is then reduced to 32 bits, so numbers outside of an `int` are read as other numbers.

A `Spelling` is a number as it is written down, with any number of leading zeros. Texts are lists of
characters, one for each byte.
-/

namespace ViTools

/-! ## Numbers as they are written -/

/-- The sign in front of a number, if there is one. -/
inductive Sign
  | none
  | plus
  | minus
  deriving DecidableEq

def Sign.text : Sign → List Char
  | .none => []
  | .plus => ['+']
  | .minus => ['-']

/-- The number with a sign. -/
def Sign.apply : Sign → ℕ → ℤ
  | .minus, n => -n
  | _, n => n

theorem Sign.natAbs_apply (sign : Sign) (n : ℕ) : (sign.apply n).natAbs = n := by
  cases sign with
  | none => rfl
  | plus => rfl
  | minus => exact Int.natAbs_neg _

/-- A decimal number, with or without a sign. -/
structure Spelling where
  sign : Sign
  digits : List Char
  isDigit : ∀ c ∈ digits, c.isDigit
  ne_nil : digits ≠ []

namespace Spelling

def text (s : Spelling) : List Char := s.sign.text ++ s.digits

/-- The number that is meant. -/
def value (s : Spelling) : ℤ := s.sign.apply (Nat.ofDigitChars 10 s.digits 0)

theorem natAbs_value (s : Spelling) : s.value.natAbs = Nat.ofDigitChars 10 s.digits 0 :=
  s.sign.natAbs_apply _

/-- What `%d` of `printf` writes. -/
def canonical (x : ℤ) : Spelling where
  sign := if x < 0 then .minus else .none
  digits := Nat.toDigits 10 x.natAbs
  isDigit _ hc := Nat.isDigit_of_mem_toDigits (by decide) (by decide) hc
  ne_nil := Nat.toDigits_ne_nil

theorem value_canonical (x : ℤ) : (canonical x).value = x := by
  rw [value, canonical]
  dsimp only
  rw [Nat.ofDigitChars_ten_toDigits]
  split
  · rw [Sign.apply]
    omega
  · rw [Sign.apply]
    · omega
    · exact Sign.noConfusion

end Spelling

/-- `printf` with `%d`. -/
def print_d (x : ℤ) : List Char := (Spelling.canonical x).text

/-- An `int` takes eleven characters at most. -/
theorem length_print_d_le {x : ℤ} (h : Fits 32 x) : (print_d x).length ≤ 11 := by
  obtain ⟨hlo, hhi⟩ := fits_32.mp h
  have hdigits : (Nat.toDigits 10 x.natAbs).length ≤ 10 :=
    (Nat.length_toDigits_le_iff (by decide) (by decide)).mpr (by omega)
  have hsign : (Spelling.canonical x).sign.text.length ≤ 1 := by
    rw [Spelling.canonical]
    split
    · exact le_refl 1
    · exact Nat.zero_le 1
  rw [print_d, Spelling.text, List.length_append]
  exact Nat.add_le_add hsign hdigits |>.trans (by decide)

/-! ## Reading -/

def scan_sign : List Char → Sign × List Char
  | '-' :: text => (.minus, text)
  | '+' :: text => (.plus, text)
  | text => (.none, text)

/-- The number at the start of a text, and the text after it. -/
def scan_number (text : List Char) : Option (ℤ × List Char) :=
  let (sign, text) := scan_sign (text.dropWhile isspace)
  if text.takeWhile Char.isDigit = [] then none
  else some (sign.apply (Nat.ofDigitChars 10 (text.takeWhile Char.isDigit) 0),
    text.dropWhile Char.isDigit)

/-- The nearest number that fits in 64 bits. -/
def clamp64 (x : ℤ) : ℤ := max (-2 ^ 63) (min x (2 ^ 63 - 1))

/-- What becomes of a number that is read as an `int`. -/
def narrow (x : ℤ) : ℤ := twos 32 (clamp64 x)

/-- The conversion `%d` of `scanf`. -/
def scan_d (text : List Char) : Option (ℤ × List Char) :=
  (scan_number text).map fun y ↦ (narrow y.1, y.2)

/-- `atoi`: the number in front, or 0. -/
def atoi (text : List Char) : ℤ := (scan_number text).elim 0 fun y ↦ narrow y.1

/-- `atoll`: the number in front, or 0. -/
def atoll (text : List Char) : ℤ := (scan_number text).elim 0 fun y ↦ clamp64 y.1

section Read

variable {c : Char} {digits rest blanks : List Char} {sign : Sign}

theorem scan_sign_of_isDigit (hc : c.isDigit) (rest : List Char) :
    scan_sign (c :: rest) = (.none, c :: rest) := by
  unfold scan_sign
  split
  · next heq =>
    cases heq
    exact absurd hc (by decide)
  · next heq =>
    cases heq
    exact absurd hc (by decide)
  · rfl

/-- A sign in front of digits. -/
theorem scan_sign_append (sign : Sign) (hdigits : ∀ c ∈ digits, c.isDigit)
    (hend : digits = [] → rest = []) :
    scan_sign (sign.text ++ (digits ++ rest)) = (sign, digits ++ rest) := by
  cases sign with
  | none =>
    cases digits with
    | nil =>
      rw [hend rfl]
      rfl
    | cons c digits => exact scan_sign_of_isDigit (hdigits c List.mem_cons_self) _
  | plus => rfl
  | minus => rfl

/-- The text of a number does not start with white space. -/
theorem isspace_head (sign : Sign) (hdigits : ∀ c ∈ digits, c.isDigit) (hend : digits = [] → rest = []) :
    ∀ c ∈ (sign.text ++ (digits ++ rest)).head?, isspace c = false := by
  intro c hc
  cases sign with
  | none =>
    cases digits with
    | nil =>
      rw [hend rfl] at hc
      cases hc
    | cons d digits =>
      cases hc
      exact isspace_of_isDigit (hdigits _ List.mem_cons_self)
  | plus =>
    cases hc
    rfl
  | minus =>
    cases hc
    rfl

/-- **Reading a number**, or what is left of one: without digits nothing is read. -/
theorem scan_number_append (hblanks : ∀ c ∈ blanks, isspace c) (sign : Sign)
    (hdigits : ∀ c ∈ digits, c.isDigit) (hrest : ∀ c ∈ rest.head?, c.isDigit = false)
    (hend : digits = [] → rest = []) :
    scan_number (blanks ++ (sign.text ++ (digits ++ rest))) =
      if digits = [] then none else some (sign.apply (Nat.ofDigitChars 10 digits 0), rest) := by
  obtain ⟨-, hskip⟩ := span_append hblanks (isspace_head sign hdigits hend)
  obtain ⟨htake, hdrop⟩ := span_append hdigits hrest
  rw [scan_number, hskip, scan_sign_append sign hdigits hend]
  dsimp only
  rw [htake, hdrop]

/-- A number that is written is read. -/
theorem scan_number_spelling (hblanks : ∀ c ∈ blanks, isspace c) (s : Spelling)
    (hrest : ∀ c ∈ rest.head?, c.isDigit = false) :
    scan_number (blanks ++ (s.text ++ rest)) = some (s.value, rest) := by
  have hscan := scan_number_append hblanks s.sign s.isDigit hrest fun h ↦ absurd h s.ne_nil
  rwa [if_neg s.ne_nil, ← List.append_assoc s.sign.text] at hscan

/-- Different numbers are printed differently. -/
theorem print_d_injective {x y : ℤ} (h : print_d x = print_d y) : x = y := by
  -- what is printed is read back
  have hread : ∀ x, scan_number (print_d x) = some (x, []) := by
    intro x
    have hscan : scan_number ([] ++ ((Spelling.canonical x).text ++ [])) = _ :=
      scan_number_spelling (List.forall_mem_nil _) (.canonical x) (by simp)
    rwa [Spelling.value_canonical, List.append_nil] at hscan
  have hsame := hread x
  rw [h, hread y] at hsame
  exact (Prod.mk.inj (Option.some.inj hsame)).1.symm

end Read

/-! ## Numbers that do not fit -/

theorem clamp64_eq_self {x : ℤ} (hlo : -2 ^ 63 ≤ x) (hhi : x < 2 ^ 63) : clamp64 x = x := by
  rw [clamp64]
  omega

/-- A number is read as an `int` exactly if it is one. -/
theorem narrow_eq_self_iff {x : ℤ} : narrow x = x ↔ Fits 32 x := by
  constructor
  · intro h
    rw [← h]
    exact fits_twos (by decide) _
  · intro h
    obtain ⟨hlo, hhi⟩ := fits_32.mp h
    rw [narrow, clamp64_eq_self (by omega) (by omega), twos_eq_self (by decide) h]

end ViTools
