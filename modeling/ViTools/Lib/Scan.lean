import Mathlib.Algebra.Group.Nat.Defs
import Mathlib.Data.List.TakeWhile
import Mathlib.Order.Nat

/-!
# Unsigned decimal numbers in text

What `printf` writes for a nonnegative number, `scanf` reads again. Texts are lists of characters, one
for each byte.
-/

namespace ViTools

/-- The longest prefix that satisfies `p` ends where `p` fails. -/
theorem span_append {α : Type*} {p : α → Bool} {l rest : List α} (hl : ∀ a ∈ l, p a)
    (hrest : ∀ a ∈ rest.head?, p a = false) :
    (l ++ rest).takeWhile p = l ∧ (l ++ rest).dropWhile p = rest := by
  rw [List.takeWhile_append_of_pos hl, List.dropWhile_append_of_pos hl]
  cases rest with
  | nil => exact ⟨List.append_nil l, rfl⟩
  | cons a rest =>
    have ha : ¬p a = true := Bool.eq_false_iff.mp (hrest a rfl)
    rw [List.takeWhile_cons_of_neg ha, List.dropWhile_cons_of_neg ha, List.append_nil]
    exact ⟨rfl, rfl⟩

/-- `isspace`: the blank, and the tabulator up to the carriage return. -/
def isspace (c : Char) : Bool := c.toNat = 32 ∨ 9 ≤ c.toNat ∧ c.toNat ≤ 13

/-- The conversion `%lu` of `scanf`: the number, and the text after it. White space is skipped, a sign is
allowed, and a number that does not fit is replaced by the largest one that does. -/
def scan_lu (text : List Char) : Option (ℕ × List Char) :=
  let text := text.dropWhile isspace
  let negative := text.head? = some '-'
  let text := if negative ∨ text.head? = some '+' then text.tail else text
  let number := Nat.ofDigitChars 10 (text.takeWhile Char.isDigit) 0
  if text.takeWhile Char.isDigit = [] then none
  else if 2 ^ 64 ≤ number then some (2 ^ 64 - 1, text.dropWhile Char.isDigit)
  else if negative then some ((2 ^ 64 - number) % 2 ^ 64, text.dropWhile Char.isDigit)
  else some (number, text.dropWhile Char.isDigit)

theorem isspace_of_isDigit {c : Char} (hc : c.isDigit) : isspace c = false := by
  have hzero : '0'.toNat = 48 := rfl
  have hcode := (Char.isDigit_iff_toNat.mp hc).1
  rw [isspace, decide_eq_false_iff_not]
  omega

/-- A written number starts with a digit. -/
theorem head_toDigits {n : ℕ} {rest : List Char} {c : Char}
    (hc : c ∈ (Nat.toDigits 10 n ++ rest).head?) : c.isDigit := by
  have hmem : c ∈ Nat.toDigits 10 n := by
    cases hdigits : Nat.toDigits 10 n with
    | nil => exact absurd hdigits Nat.toDigits_ne_nil
    | cons d l =>
      rw [hdigits] at hc
      cases hc
      exact List.mem_cons_self
  exact Nat.isDigit_of_mem_toDigits (by decide) (by decide) hmem

/-- A number that was written is read again. -/
theorem scan_lu_toDigits {blanks rest : List Char} {n : ℕ} (hblanks : ∀ c ∈ blanks, isspace c)
    (hn : n < 2 ^ 64) (hrest : ∀ c ∈ rest.head?, c.isDigit = false) :
    scan_lu (blanks ++ (Nat.toDigits 10 n ++ rest)) = some (n, rest) := by
  have hdigits : ∀ c ∈ Nat.toDigits 10 n, c.isDigit := by
    intro c hc
    exact Nat.isDigit_of_mem_toDigits (by decide) (by decide) hc
  have hhead : ∀ c ∈ (Nat.toDigits 10 n ++ rest).head?, isspace c = false := by
    intro c hc
    exact isspace_of_isDigit (head_toDigits hc)
  obtain ⟨-, hskip⟩ := span_append hblanks hhead
  obtain ⟨htake, hdrop⟩ := span_append hdigits hrest
  have hminus : (Nat.toDigits 10 n ++ rest).head? ≠ some '-' := by
    intro h
    exact absurd (head_toDigits h) (by decide)
  have hplus : (Nat.toDigits 10 n ++ rest).head? ≠ some '+' := by
    intro h
    exact absurd (head_toDigits h) (by decide)
  rw [scan_lu, hskip, if_neg (not_or.mpr ⟨hminus, hplus⟩), htake, hdrop, if_neg Nat.toDigits_ne_nil,
    Nat.ofDigitChars_ten_toDigits, if_neg (not_le.mpr hn), if_neg hminus]

/-- What is read fits in 64 bits. -/
theorem scan_lu_lt {text rest : List Char} {n : ℕ} (h : scan_lu text = some (n, rest)) :
    n < 2 ^ 64 := by
  unfold scan_lu at h
  extract_lets skipped negative digits number at h
  split at h
  · cases h
  split at h
  · obtain ⟨rfl, -⟩ := Prod.mk.inj (Option.some.inj h)
    exact Nat.sub_one_lt (by omega)
  next hlt =>
  split at h
  · obtain ⟨rfl, -⟩ := Prod.mk.inj (Option.some.inj h)
    exact Nat.mod_lt _ (by omega)
  · obtain ⟨rfl, -⟩ := Prod.mk.inj (Option.some.inj h)
    omega

end ViTools
