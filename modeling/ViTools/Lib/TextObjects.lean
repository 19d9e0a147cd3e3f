import ViTools.Lib.Scan

/-!
# Lines of named numbers

Objects in JSON whose members are unsigned numbers, one object in a line and without blanks. Reading accepts
exactly the texts that are written, so the text says no more and no less than the objects.
-/

namespace ViTools

/-- The characters of a name. Quotes and backslashes would have to be escaped. -/
def is_plain (c : Char) : Bool := c ≠ '"' ∧ c ≠ '\\'

/-- A name and its number. -/
structure Member where
  name : List Char
  value : ℕ
  plain : ∀ c ∈ name, is_plain c
  deriving DecidableEq

def Member.text (m : Member) : List Char := '"' :: (m.name ++ '"' :: ':' :: Nat.toDigits 10 m.value)

/-- An object after its first member. -/
def rest_text : List Member → List Char
  | [] => ['}']
  | m :: ms => ',' :: (m.text ++ rest_text ms)

def object_text : List Member → List Char
  | [] => ['{', '}']
  | m :: ms => '{' :: (m.text ++ rest_text ms)

/-- Objects in lines. -/
def lines_text (objects : List (List Member)) : List Char :=
  objects.flatMap fun ms ↦ object_text ms ++ ['\n']

/-! ## Reading -/

section Read

variable {text rest : List Char} {n fuel : ℕ} {m : Member} {ms : List Member}

theorem isDigit_of_mem_toDigits {c : Char} (hc : c ∈ Nat.toDigits 10 n) : c.isDigit :=
  Nat.isDigit_of_mem_toDigits (by decide) (by decide) hc

end Read

end ViTools
