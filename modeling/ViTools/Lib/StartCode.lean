import Mathlib.Algebra.Ring.Parity
import Mathlib.Data.List.DropRight
import Mathlib.Data.List.TakeWhile

/-!
# Escaping start codes

In a stream of units that are found by their start codes, two zero bytes and one of the bytes 0, 1 and 2
must not come in a unit, and its last byte must not be zero. A unit with other contents is escaped: a
byte 3 after two zeros does not count, the decoder removes it.

`escape` puts a 3 after every pair of zeros, taking the pairs from the left, and `protect` adds a stop
byte where a single zero is left over at the end. `unescape` counts the zeros it has just seen. It gets
back what was escaped, and the stop byte.
-/

namespace ViTools

/-! ## Escaping -/

/-- A 3 after each pair of zeros. -/
def escape : List UInt8 → List UInt8
  | [] => []
  | [a] => [a]
  | a :: b :: l => if a = 0 ∧ b = 0 then 0 :: 0 :: 3 :: escape l else a :: escape (b :: l)

/-- What comes after the escaped bytes, so that the last one is not zero. -/
def stop (l : List UInt8) : List UInt8 := if (escape l).getLast? = some 0 then [0x80] else []

/-- A unit with the contents `l`. -/
def protect (l : List UInt8) : List UInt8 := escape l ++ stop l

/-- Remove each 3 after two zeros; `z` zeros came right before. -/
def unescape : ℕ → List UInt8 → List UInt8
  | _, [] => []
  | z, a :: l => if 2 ≤ z ∧ a = 3 then unescape 0 l else a :: unescape (if a = 0 then z + 1 else 0) l

theorem head?_escape (l : List UInt8) : (escape l).head? = l.head? := by
  match l with
  | [] => rfl
  | [a] => rfl
  | a :: b :: l =>
    rw [escape]
    split_ifs with h
    · rw [h.1]
      rfl
    · rfl

theorem escape_ne_nil {l : List UInt8} (h : l ≠ []) : escape l ≠ [] := by
  intro hnil
  have hhead := head?_escape l
  rw [hnil, List.head?_nil, eq_comm, List.head?_eq_none_iff] at hhead
  exact h hhead

/-- There is room for the stop byte in twice the length. -/
theorem length_escape_lt {l : List UInt8} (h : l ≠ []) : (escape l).length < 2 * l.length := by
  induction l using escape.induct with
  | case1 => exact absurd rfl h
  | case2 a => exact Nat.one_lt_two
  | case3 a b l hzero ih =>
    rw [escape, if_pos hzero]
    simp only [List.length_cons]
    by_cases hl : l = []
    · subst hl
      exact (by decide : 3 < 4)
    · have hlt := ih hl
      omega
  | case4 a b l hzero ih =>
    have hlt := ih (List.cons_ne_nil b l)
    rw [escape, if_neg hzero]
    simp only [List.length_cons] at hlt ⊢
    omega

theorem length_protect_le (l : List UInt8) : (protect l).length ≤ 2 * l.length := by
  by_cases h : l = []
  · subst h
    exact le_rfl
  · have hlt := length_escape_lt h
    have hstop : (stop l).length ≤ 1 := by
      rw [stop]
      split_ifs <;> simp
    rw [protect, List.length_append]
    omega

/-! ## The decoder gets the contents back -/

/-- The zeros that the decoder has counted between two pieces of the escaped bytes are at most one, and
then a byte other than zero follows. -/
theorem unescape_escape_append {z : ℕ} {l t : List UInt8}
    (hz : z = 0 ∨ z = 1 ∧ l.head? ≠ some 0) (ht : ∀ z, unescape z t = t) :
    unescape z (escape l ++ t) = l ++ t := by
  induction l using escape.induct generalizing z with
  | case1 => exact ht z
  | case2 a =>
    rw [escape, List.singleton_append, unescape, if_neg (by omega), ht]
  | case3 a b l hzero ih =>
    obtain ⟨rfl, rfl⟩ := hzero
    have hz0 : z = 0 := by
      rcases hz with hz | ⟨-, hhead⟩
      · exact hz
      · exact absurd rfl hhead
    subst hz0
    rw [escape, if_pos ⟨rfl, rfl⟩]
    -- the two zeros are counted, and the 3 that follows them is removed
    calc unescape 0 (0 :: 0 :: 3 :: escape l ++ t)
        = 0 :: 0 :: unescape 0 (escape l ++ t) := rfl
      _ = 0 :: 0 :: (l ++ t) := by rw [ih (.inl rfl)]
  | case4 a b l hzero ih =>
    have hnext : (if a = 0 then z + 1 else 0) = 0 ∨
        (if a = 0 then z + 1 else 0) = 1 ∧ (b :: l).head? ≠ some 0 := by
      by_cases ha : a = 0
      · rw [if_pos ha]
        have hb : b ≠ 0 := fun hb ↦ hzero ⟨ha, hb⟩
        rcases hz with rfl | ⟨-, hhead⟩
        · exact .inr ⟨rfl, fun h ↦ hb (Option.some.inj h)⟩
        · exact absurd (congrArg some ha) hhead
      · exact .inl (if_neg ha)
    rw [escape, if_neg hzero, List.cons_append, unescape, if_neg (by omega), ih hnext]
    rfl

theorem unescape_protect (l : List UInt8) : unescape 0 (protect l) = l ++ stop l := by
  refine unescape_escape_append (.inl rfl) fun z ↦ ?_
  rw [stop]
  split_ifs
  · rw [unescape, if_neg (by simp)]
    rfl
  · rfl

/-! ## No start code -/

/-- Two zeros are never followed by 0, 1 or 2. -/
def StartCodeFree (l : List UInt8) : Prop := ∀ c : UInt8, c ≤ 2 → ¬[0, 0, c] <:+: l

theorem startCodeFree_nil : StartCodeFree [] := by
  intro c _ h
  exact absurd (List.infix_nil.mp h) (List.cons_ne_nil 0 [0, c])

theorem StartCodeFree.cons {a : UInt8} {l : List UInt8} (h : StartCodeFree l)
    (hne : a = 0 → l.head? ≠ some 0) : StartCodeFree (a :: l) := by
  intro c hc hinfix
  rcases List.infix_cons_iff.mp hinfix with hstart | hinfix
  · obtain ⟨ha, htail⟩ := List.cons_prefix_cons.mp hstart
    refine hne ha.symm ?_
    obtain ⟨t, rfl⟩ := htail
    rfl
  · exact h c hc hinfix

theorem StartCodeFree.pair {l : List UInt8} (h : StartCodeFree l) :
    StartCodeFree (0 :: 0 :: 3 :: l) := by
  have hzero : StartCodeFree (0 :: 3 :: l) :=
    (h.cons fun h3 ↦ absurd h3 (by decide)).cons fun _ ↦ by simp
  intro c hc hinfix
  rcases List.infix_cons_iff.mp hinfix with hstart | hinfix
  · simp only [List.cons_prefix_cons, true_and] at hstart
    rw [hstart.1] at hc
    exact absurd hc (by decide)
  · exact hzero c hc hinfix

theorem startCodeFree_escape_append (l : List UInt8) {t : List UInt8} (ht : StartCodeFree t)
    (hhead : t.head? ≠ some 0) : StartCodeFree (escape l ++ t) := by
  induction l using escape.induct with
  | case1 => exact ht
  | case2 a => exact ht.cons fun _ ↦ hhead
  | case3 a b l hzero ih =>
    rw [escape, if_pos hzero]
    exact ih.pair
  | case4 a b l hzero ih =>
    rw [escape, if_neg hzero]
    refine ih.cons fun ha hb ↦ ?_
    -- the next byte is the one that is not zero
    rw [List.head?_append, head?_escape] at hb
    exact hzero ⟨ha, Option.some.inj hb⟩

theorem startCodeFree_protect (l : List UInt8) : StartCodeFree (protect l) := by
  rw [protect, stop]
  split_ifs
  · refine startCodeFree_escape_append l ?_ (by decide)
    exact startCodeFree_nil.cons fun h ↦ absurd h (by decide)
  · exact startCodeFree_escape_append l startCodeFree_nil (by decide)

/-! ## The last byte -/

theorem getLast?_protect_ne (l : List UInt8) : (protect l).getLast? ≠ some 0 := by
  rw [protect, stop]
  split_ifs with h
  · rw [List.getLast?_concat]
    decide
  · rwa [List.append_nil]

/-- How many zeros a list ends in. -/
def zerosAtEnd (l : List UInt8) : ℕ := (l.rtakeWhile (· = 0)).length

theorem zerosAtEnd_eq_length_iff {l : List UInt8} :
    zerosAtEnd l = l.length ↔ ∀ a ∈ l, a = 0 := by
  have hsuffix : l.rtakeWhile (· = 0) <:+ l := List.rtakeWhile_suffix _ _
  calc zerosAtEnd l = l.length
      ↔ l.rtakeWhile (· = 0) = l := ⟨hsuffix.eq_of_length, congrArg List.length⟩
    _ ↔ ∀ a ∈ l, a = 0 := by simp only [List.rtakeWhile_eq_self_iff, decide_eq_true_eq]

theorem zerosAtEnd_append (p l : List UInt8) :
    zerosAtEnd (p ++ l) = if zerosAtEnd l = l.length then zerosAtEnd p + l.length else zerosAtEnd l := by
  simp only [zerosAtEnd, List.rtakeWhile, List.length_reverse, List.reverse_append,
    List.takeWhile_append]
  split_ifs with h
  · rw [List.length_append, List.length_reverse, add_comm]
  · rfl

theorem zerosAtEnd_singleton_of_ne {a : UInt8} (ha : a ≠ 0) : zerosAtEnd [a] = 0 := by
  simp [zerosAtEnd, List.rtakeWhile, ha]

/-- A zero is left over at the end exactly if the zeros there cannot be paired. -/
theorem getLast?_escape_iff (l : List UInt8) :
    (escape l).getLast? = some 0 ↔ Odd (zerosAtEnd l) := by
  induction l using escape.induct with
  | case1 => decide
  | case2 a =>
    by_cases ha : a = 0
    · subst ha
      decide
    · rw [zerosAtEnd_singleton_of_ne ha]
      exact iff_of_false (fun h ↦ ha (Option.some.inj h)) (by decide)
  | case3 a b l hzero ih =>
    obtain ⟨rfl, rfl⟩ := hzero
    have hlast : ([0, 0, 3] ++ escape l).getLast? = some 0 ↔ (escape l).getLast? = some 0 := by
      rw [List.getLast?_append]
      cases (escape l).getLast? with
      | none => decide
      | some x => rfl
    have hparity : Odd (zerosAtEnd ([0, 0] ++ l)) ↔ Odd (zerosAtEnd l) := by
      rw [zerosAtEnd_append]
      split_ifs with hall
      · have htwo : zerosAtEnd [0, 0] = 2 := by decide
        rw [htwo, hall, add_comm]
        simp only [Nat.odd_add, even_two, iff_true]
      · rfl
    rw [escape, if_pos ⟨rfl, rfl⟩]
    exact hlast.trans (ih.trans hparity.symm)
  | case4 a b l hzero ih =>
    have hlast : ([a] ++ escape (b :: l)).getLast? = (escape (b :: l)).getLast? := by
      rw [List.getLast?_append, List.getLast?_eq_some_getLast (escape_ne_nil (List.cons_ne_nil b l))]
      rfl
    have hzeros : zerosAtEnd ([a] ++ b :: l) = zerosAtEnd (b :: l) := by
      rw [zerosAtEnd_append]
      split_ifs with hall
      · have hb : b = 0 := zerosAtEnd_eq_length_iff.mp hall b List.mem_cons_self
        have ha : a ≠ 0 := fun ha ↦ hzero ⟨ha, hb⟩
        rw [zerosAtEnd_singleton_of_ne ha, hall, zero_add]
      · rfl
    rw [escape, if_neg hzero]
    exact (iff_of_eq (congrArg (· = some 0) hlast)).trans (ih.trans (by rw [← hzeros]; rfl))

/-- The stop byte is there exactly if the contents end in an odd number of zeros. -/
theorem stop_eq (l : List UInt8) : stop l = if Odd (zerosAtEnd l) then [0x80] else [] := by
  rw [stop]
  simp only [getLast?_escape_iff]

/-! ## What a unit tells about its contents -/

theorem escape_concat_of_ne {c : UInt8} (hc : c ≠ 0) (l : List UInt8) : escape (l ++ [c]) = escape l ++ [c] := by
  induction l using escape.induct with
  | case1 => rfl
  | case2 a =>
    have hne : ¬(a = 0 ∧ c = 0) := fun h ↦ hc h.2
    exact if_neg hne
  | case3 a b l hzero ih =>
    rw [List.cons_append, List.cons_append, escape, escape, if_pos hzero, if_pos hzero, ih]
    rfl
  | case4 a b l hzero ih =>
    rw [List.cons_append, List.cons_append, escape, escape, if_neg hzero, if_neg hzero,
      ← List.cons_append, ih]
    rfl

/-- The stop byte looks like a byte of the contents. -/
theorem protect_concat {l : List UInt8} (h : Odd (zerosAtEnd l)) : protect (l ++ [0x80]) = protect l := by
  have hstop : stop (l ++ [0x80]) = [] := by
    rw [stop, escape_concat_of_ne (by decide), List.getLast?_concat]
    rfl
  rw [protect, protect, hstop, List.append_nil, escape_concat_of_ne (by decide), stop_eq, if_pos h]

/-- **Units tell their contents**, but for a stop byte: it may also be the last byte of the contents. -/
theorem protect_eq_protect_iff {l l' : List UInt8} : protect l = protect l' ↔
    l = l' ∨ (Odd (zerosAtEnd l) ∧ l' = l ++ [0x80]) ∨ (Odd (zerosAtEnd l') ∧ l = l' ++ [0x80]) := by
  constructor
  · intro h
    have hcontents : l ++ stop l = l' ++ stop l' := by
      rw [← unescape_protect, h, unescape_protect]
    rw [stop_eq, stop_eq] at hcontents
    split_ifs at hcontents with hodd hodd' hodd'
    · exact .inl (List.append_cancel_right hcontents)
    · rw [List.append_nil] at hcontents
      exact .inr (.inl ⟨hodd, hcontents.symm⟩)
    · rw [List.append_nil] at hcontents
      exact .inr (.inr ⟨hodd', hcontents⟩)
    · rw [List.append_nil, List.append_nil] at hcontents
      exact .inl hcontents
  · rintro (rfl | ⟨hodd, rfl⟩ | ⟨hodd, rfl⟩)
    · rfl
    · exact (protect_concat hodd).symm
    · exact protect_concat hodd

/-! ## Streams of units -/

/-- A unit that does not look like the start of another one. -/
structure IsUnit (u : List UInt8) : Prop where
  startCodeFree : StartCodeFree u
  getLast?_ne : u.getLast? ≠ some 0

theorem isUnit_protect (l : List UInt8) : IsUnit (protect l) :=
  ⟨startCodeFree_protect l, getLast?_protect_ne l⟩

/-- A unit does not go on with a part of a start code. -/
theorem IsUnit.eq_nil_of_append {u a s t : List UInt8} (h : IsUnit (u ++ a))
    (heq : [0, 0, 0, 1] ++ s = a ++ t) : a = [] := by
  have hlast : ∀ b, a ≠ b ++ [0] := by
    rintro b rfl
    apply h.getLast?_ne
    rw [← List.append_assoc, List.getLast?_concat]
  match a, heq with
  | [], _ => rfl
  | [x], heq =>
    cases heq
    exact absurd rfl (hlast [])
  | [x, y], heq =>
    cases heq
    exact absurd rfl (hlast [0])
  | x :: y :: z :: a, heq =>
    obtain ⟨hx, hyz⟩ := List.cons.inj heq
    obtain ⟨hy, hz⟩ := List.cons.inj hyz
    have hzeros : [0, 0, 0] <:+: u ++ x :: y :: z :: a := by
      rw [← hx, ← hy, ← (List.cons.inj hz).1]
      exact ⟨u, a, by simp⟩
    exact absurd hzeros (h.startCodeFree 0 (by decide))

/-- **A stream can be cut** in front of a start code in one way only. -/
theorem IsUnit.append_inj {u v s t : List UInt8} (hu : IsUnit u) (hv : IsUnit v)
    (h : u ++ ([0, 0, 0, 1] ++ s) = v ++ ([0, 0, 0, 1] ++ t)) : u = v ∧ s = t := by
  rcases List.append_eq_append_iff.mp h with ⟨a, rfl, heq⟩ | ⟨a, rfl, heq⟩
  · obtain rfl := hv.eq_nil_of_append heq
    exact ⟨(List.append_nil u).symm, List.append_cancel_left heq⟩
  · obtain rfl := hu.eq_nil_of_append heq
    exact ⟨List.append_nil v, (List.append_cancel_left heq).symm⟩

end ViTools
