import ViTools.Fstest.Program
import Mathlib.Data.Nat.Cast.Order.Ring

/-!
# Where a chain of blocks goes

`insert_chain` draws an offset, a number of repetitions and a length, reduces them by the parameters and
inserts blocks of that length one after the other. What it passes to `insert_block` depends on these
three numbers only, so it is a list that can be computed beforehand.

The blocks are meant to stay inside the range of the final sweep. They do but for two corners of the
64-bit range: the one offset without a positive counterpart is reduced to a negative position, and a
block of `2 ^ 63` bytes or more can wrap around the end of the unsigned numbers.
-/

namespace ViTools.Fstest

/-! ## The positions of a chain -/

/-- Insert blocks at the given positions, until one fails. -/
def insert_all (p : Params) (length : ℕ) : List ℤ → Sys Bool
  | [] => return false
  | offset :: offsets => do
    if ← insert_link p length offset then return true
    insert_all p length offsets

/-- The positions of the loop of `insert_chain`. -/
def link_offsets (p : Params) (length : ℕ) : ℕ → ℤ → List ℤ
  | 0, _ => []
  | repetitions_count + 1, offset =>
    if toU64 (offset + length) > toU64 p.size then [0]
    else offset :: link_offsets p length repetitions_count (wrap64 (offset + length))

/-- The first position, from the random number drawn for it. -/
def chain_offset (p : Params) (o : ℕ) : ℤ :=
  (if wrap64 o < 0 then wrap64 (-wrap64 o) else wrap64 o).tmod p.size

/-- The positions of a chain, from the random numbers drawn for the offset, the repetitions and the
length. -/
def chain_offsets (p : Params) (o c l : ℕ) : List ℤ :=
  link_offsets p (l % p.max_blocksize) (c % toU32 p.max_chainlen + 1) (chain_offset p o)

/-- `insert_chain` with the blocks laid out beforehand: random numbers, the contents of the blocks, and then
equal blocks at the positions of the chain. -/
def insert_chain_at (p : Params) : Sys Bool := do
  let (failed, o) ← RANDOMIZE 8
  if failed then return true
  let (failed, c) ← RANDOMIZE 4
  if failed then return true
  let (failed, l) ← RANDOMIZE 8
  if failed then return true
  if ← generate_block (l % p.max_blocksize) then return true
  insert_all p (l % p.max_blocksize) (chain_offsets p o c l)

/-- Before anything else `insert_chain` draws the numbers for the offset, the repetitions and the length. -/
inductive Draws (m m' : Machine) (o c l : ℕ) : Prop
  | intro {m₁ m₂ : Machine} (offset : RANDOMIZE 8 m = .ok ((false, o), m₁))
      (repetitions : RANDOMIZE 4 m₁ = .ok ((false, c), m₂))
      (length : RANDOMIZE 8 m₂ = .ok ((false, l), m'))

theorem insert_all_singleton (p : Params) (length : ℕ) (offset : ℤ) :
    insert_all p length [offset] = insert_link p length offset := by
  have hlast : (fun failed : Bool ↦ (if failed then return true else return false : Sys Bool)) =
      pure := by
    funext failed
    cases failed <;> rfl
  rw [insert_all, insert_all, hlast, bind_pure]

/-- The loop inserts blocks at its positions. -/
theorem insert_links_eq (p : Params) (length repetitions_count : ℕ) (offset : ℤ) :
    insert_links p length repetitions_count offset =
      insert_all p length (link_offsets p length repetitions_count offset) := by
  induction repetitions_count generalizing offset with
  | zero => rfl
  | succ n ih =>
    rw [insert_links, link_offsets]
    split
    · rw [insert_all_singleton]
    · rw [insert_all]
      simp only [ih]

theorem reduce_offset_eq {p : Params} (hsize : 1 ≤ p.size) (o : ℕ) :
    reduce_offset p o = pure (chain_offset p o) := by
  have hstop : orStop (p.size ≠ 0 ∧ ¬(p.size = -1 ∧
      (if wrap64 o < 0 then wrap64 (-wrap64 o) else wrap64 o) = -2 ^ 63)) .sigfpe = pure () := by
    funext m
    rw [orStop, if_pos ⟨by omega, fun h ↦ by omega⟩]
    rfl
  rw [reduce_offset, hstop, pure_bind, chain_offset]

theorem remainder_eq {x m : ℕ} (hm : m ≠ 0) : remainder x m = pure (x % m) := by
  have hstop : orStop (m ≠ 0) .sigfpe = pure () := by
    funext s
    rw [orStop, if_pos hm]
    rfl
  rw [remainder, hstop, pure_bind]

/-- What `insert_chain` passes to `insert_block`. -/
theorem insert_chain_eq {p : Params} (hsize : 1 ≤ p.size) (hblock : p.max_blocksize ≠ 0)
    (hchain : toU32 p.max_chainlen ≠ 0) : insert_chain p = insert_chain_at p := by
  rw [insert_chain, insert_chain_at]
  simp only [reduce_offset_eq hsize, remainder_eq hblock, remainder_eq hchain, pure_bind,
    insert_links_eq, chain_offsets]

/-! ## The first position -/

/-- How far a 64-bit number is from zero as a signed one. -/
def magnitude (o : ℕ) : ℕ := if o < 2 ^ 63 then o else 2 ^ 64 - o

/-- The offset is reduced to what its magnitude leaves modulo the size. -/
theorem chain_offset_of_ne (p : Params) {o : ℕ} (ho : o < 2 ^ 64)
    (hne : o ≠ 2 ^ 63) : chain_offset p o = magnitude o % p.size := by
  rw [chain_offset, magnitude]
  by_cases hsmall : o < 2 ^ 63
  · rw [wrap64_eq_self (by omega) (by omega), if_neg (by omega), if_pos hsmall,
      Int.tmod_eq_emod_of_nonneg (by omega)]
  · rw [wrap64_eq_sub (by omega) (by omega), if_pos (by omega), wrap64_eq_self (by omega) (by omega),
      if_neg hsmall, Int.tmod_eq_emod_of_nonneg (by omega)]
    congr 1
    omega

/-- The offset without a positive counterpart stays negative, unless the size divides it. -/
theorem chain_offset_min (p : Params) : chain_offset p (2 ^ 63) = -((2 ^ 63 : ℤ) % p.size) := by
  have hmin : wrap64 ((2 ^ 63 : ℕ) : ℤ) = -2 ^ 63 := by decide
  have hneg : wrap64 (-(-2 ^ 63)) = -2 ^ 63 := by decide
  rw [chain_offset, hmin, if_pos (by norm_num), hneg, Int.neg_tmod,
    Int.tmod_eq_emod_of_nonneg (by norm_num)]

/-! ## All positions -/

theorem length_link_offsets (p : Params) (length repetitions_count : ℕ) (offset : ℤ) :
    (link_offsets p length repetitions_count offset).length ≤ repetitions_count := by
  induction repetitions_count generalizing offset with
  | zero => exact le_refl _
  | succ n ih =>
    rw [link_offsets]
    split
    · exact Nat.succ_le_succ (Nat.zero_le n)
    · exact Nat.succ_le_succ (ih _)

/-- From a position in the file on, if no sum leaves the unsigned numbers, every block is inside the file or
at its start. -/
theorem inside_link_offsets {p : Params} (hsize : 0 ≤ p.size) {length : ℕ} {repetitions_count : ℕ}
    {offset : ℤ} (hlo : 0 ≤ offset) (hhi : offset ≤ p.size) (hsum : offset + length < 2 ^ 64) :
    ∀ pos ∈ link_offsets p length repetitions_count offset,
      0 ≤ pos ∧ pos + length ≤ max p.size length := by
  have hsize63 := p.size_off64.2
  have hU : (toU64 p.size : ℤ) = p.size := toU64_eq_self hsize (by omega)
  induction repetitions_count generalizing offset with
  | zero => exact List.forall_mem_nil _
  | succ n ih =>
    have hU' : (toU64 (offset + length) : ℤ) = offset + length := toU64_eq_self (by omega) hsum
    rw [link_offsets]
    split
    · refine List.forall_mem_singleton.mpr ⟨le_refl 0, ?_⟩
      rw [zero_add]
      exact le_max_right _ _
    · next hfits =>
      have hle : offset + length ≤ p.size := by omega
      refine List.forall_mem_cons.mpr ⟨⟨hlo, hle.trans (le_max_left _ _)⟩, ?_⟩
      rw [wrap64_eq_self (by omega) (by omega)]
      exact ih (by omega) hle (by omega)

/-- The first block is at the first position, unless it would cross the end. -/
theorem mem_link_offsets {p : Params} {length : ℕ} (repetitions_count : ℕ) {offset : ℤ}
    (hfits : toU64 (offset + length) ≤ toU64 p.size) :
    offset ∈ link_offsets p length (repetitions_count + 1) offset := by
  rw [link_offsets, if_neg (not_lt.mpr hfits)]
  exact List.mem_cons_self

/-- A chain is inside the range of the final sweep. -/
structure Inside (p : Params) (length : ℕ) (offsets : List ℤ) : Prop where
  /-- No block starts before the file. -/
  nonneg : ∀ pos ∈ offsets, 0 ≤ pos
  /-- No block ends after the file and after a block at its start. -/
  le : ∀ pos ∈ offsets, pos + length ≤ max p.size (p.max_blocksize - 1)
  /-- There are not too many blocks. -/
  few : offsets.length ≤ p.max_chainlen

/-- The numbers with which a chain stays inside. -/
def Tame (p : Params) (o l : ℕ) : Prop :=
  if o = 2 ^ 63 then
    ¬(0 < (2 ^ 63 : ℤ) % p.size ∧ (2 ^ 63 : ℤ) % p.size ≤ (l % p.max_blocksize : ℕ) ∧
      (l % p.max_blocksize : ℕ) ≤ p.size + (2 ^ 63 : ℤ) % p.size)
  else magnitude o % p.size + (l % p.max_blocksize : ℕ) < 2 ^ 64

/-- The unsigned value of a sum that is negative by less than `2 ^ 64`. -/
theorem toU64_of_neg {x : ℤ} (hlo : -2 ^ 64 ≤ x) (hhi : x < 0) : (toU64 x : ℤ) = x + 2 ^ 64 := by
  rw [toU64]
  omega

/-- The unsigned value of a sum that wraps once. -/
theorem toU64_of_ge {x : ℤ} (hlo : 2 ^ 64 ≤ x) (hhi : x < 2 ^ 65) : (toU64 x : ℤ) = x - 2 ^ 64 := by
  rw [toU64]
  omega

section Inside

variable {p : Params} {length repetitions_count : ℕ}

theorem few_chain_offsets (hchain : 1 ≤ p.max_chainlen) (hchain' : p.max_chainlen < 2 ^ 31)
    (o c l : ℕ) : (chain_offsets p o c l).length ≤ p.max_chainlen := by
  have hlen := length_link_offsets p (l % p.max_blocksize) (c % toU32 p.max_chainlen + 1)
    (chain_offset p o)
  have hU : (toU32 p.max_chainlen : ℤ) = p.max_chainlen := by
    rw [toU32]
    omega
  have hmod := Nat.mod_lt c (show 0 < toU32 p.max_chainlen by omega)
  rw [chain_offsets]
  omega

/-- A chain that starts at the negative offset `-r`. -/
theorem link_offsets_neg (hsize : 1 ≤ p.size) (hlen : length < 2 ^ 64) {r : ℤ} (hr : 0 ≤ r)
    (hrsize : r < p.size) (hgood : ¬(0 < r ∧ r ≤ length ∧ length ≤ p.size + r)) :
    ∀ pos ∈ link_offsets p length repetitions_count (-r),
      0 ≤ pos ∧ pos + length ≤ max p.size length := by
  have hsize63 := p.size_off64.2
  have hU : (toU64 p.size : ℤ) = p.size := toU64_eq_self (by omega) (by omega)
  by_cases hzero : r = 0
  · subst hzero
    exact inside_link_offsets (by omega) (le_refl 0) (by omega) (by omega)
  · cases repetitions_count with
    | zero => exact List.forall_mem_nil _
    | succ n =>
      have hcross : toU64 (-r + length) > toU64 p.size := by
        by_cases hshort : (length : ℤ) < r
        · have hwrap := toU64_of_neg (x := -r + length) (by omega) (by omega)
          omega
        · have hself := toU64_eq_self (x := -r + length) (by omega) (by omega)
          omega
      rw [link_offsets, if_pos hcross]
      refine List.forall_mem_singleton.mpr ⟨le_refl 0, ?_⟩
      rw [zero_add]
      exact le_max_right _ _

/-- A chain is inside if none of its blocks ends after the file and after a block at its start. -/
theorem inside_of_forall {offsets : List ℤ} (hlen : length < p.max_blocksize)
    (hall : ∀ pos ∈ offsets, 0 ≤ pos ∧ pos + length ≤ max p.size length)
    (hfew : offsets.length ≤ p.max_chainlen) : Inside p length offsets where
  nonneg pos hpos := (hall pos hpos).1
  le pos hpos := (hall pos hpos).2.trans (max_le_max (le_refl _) (by omega))
  few := hfew

/-- A chain that starts at the negative offset `-r` is inside unless that passes the comparison. -/
theorem inside_neg_iff (hsize : 1 ≤ p.size) (hlen : length < p.max_blocksize)
    (hblock : p.max_blocksize < 2 ^ 64) {r : ℤ} (hr : 0 ≤ r) (hrsize : r < p.size) {n : ℕ}
    (hfew : (link_offsets p length (n + 1) (-r)).length ≤ p.max_chainlen) :
    Inside p length (link_offsets p length (n + 1) (-r)) ↔
      ¬(0 < r ∧ r ≤ length ∧ length ≤ p.size + r) := by
  constructor
  · rintro hins ⟨hpos, hrle, hle⟩
    have hU : (toU64 p.size : ℤ) = p.size := toU64_eq_self (by omega) (by have := p.size_off64.2; omega)
    have hself := toU64_eq_self (x := -r + length) (by omega) (by omega)
    have hneg := hins.nonneg _ (mem_link_offsets n (by omega))
    omega
  · intro hgood
    exact inside_of_forall hlen (link_offsets_neg hsize (by omega) hr hrsize hgood) hfew

/-- A chain that starts at the offset `x` is inside unless the end of its first block wraps around. -/
theorem inside_nonneg_iff (hsize : 1 ≤ p.size) (hlen : length < p.max_blocksize)
    (hblock : p.max_blocksize < 2 ^ 64) {x : ℤ} (hx : 0 ≤ x) (hxsize : x < p.size) {n : ℕ}
    (hfew : (link_offsets p length (n + 1) x).length ≤ p.max_chainlen) :
    Inside p length (link_offsets p length (n + 1) x) ↔ x + length < 2 ^ 64 := by
  have hsize63 := p.size_off64.2
  constructor
  · intro hins
    by_contra hge
    have hU : (toU64 p.size : ℤ) = p.size := toU64_eq_self (by omega) (by omega)
    have hwrap := toU64_of_ge (x := x + length) (by omega) (by omega)
    have hend := hins.le _ (mem_link_offsets n (by omega))
    omega
  · intro hsum
    exact inside_of_forall hlen (inside_link_offsets (by omega) hx hxsize.le hsum) hfew

end Inside

theorem inside_chain_offsets_iff {p : Params} (hsize : 1 ≤ p.size) (hblock : 1 ≤ p.max_blocksize)
    (hblock' : p.max_blocksize < 2 ^ 64) (hchain : 1 ≤ p.max_chainlen)
    (hchain' : p.max_chainlen < 2 ^ 31) {o : ℕ} (ho : o < 2 ^ 64) (c l : ℕ) :
    Inside p (l % p.max_blocksize) (chain_offsets p o c l) ↔ Tame p o l := by
  have hlen := Nat.mod_lt l hblock
  have hfew := few_chain_offsets hchain hchain' o c l
  have hne : p.size ≠ 0 := by omega
  have hpos : 0 < p.size := by omega
  rw [chain_offsets] at hfew ⊢
  rw [Tame]
  by_cases hmin : o = 2 ^ 63
  · have hr := Int.emod_nonneg (2 ^ 63) hne
    have hr' := Int.emod_lt_of_pos (2 ^ 63) hpos
    rw [if_pos hmin]
    subst hmin
    rw [chain_offset_min] at hfew ⊢
    exact inside_neg_iff hsize hlen hblock' hr hr' hfew
  · have hx := Int.emod_nonneg (magnitude o) hne
    have hx' := Int.emod_lt_of_pos (magnitude o) hpos
    rw [if_neg hmin]
    rw [chain_offset_of_ne p ho hmin] at hfew ⊢
    exact inside_nonneg_iff hsize hlen hblock' hx hx' hfew

/-- **Where chains go.** `insert_chain` inserts its blocks at the positions of a chain, and these are inside
the range of the final sweep exactly if the random numbers are tame. -/
theorem inside_iff_tame {p : Params} (hsize : 1 ≤ p.size) (hblock : 1 ≤ p.max_blocksize)
    (hblock' : p.max_blocksize < 2 ^ 64) (hchain : 1 ≤ p.max_chainlen)
    (hchain' : p.max_chainlen < 2 ^ 31) :
    insert_chain p = insert_chain_at p ∧ ∀ o < 2 ^ 64, ∀ c l : ℕ,
      (Inside p (l % p.max_blocksize) (chain_offsets p o c l) ↔ Tame p o l) := by
  constructor
  · have hU : (toU32 p.max_chainlen : ℤ) = p.max_chainlen := by
      rw [toU32]
      omega
    exact insert_chain_eq hsize (by omega) (by omega)
  · intro o ho c l
    exact inside_chain_offsets_iff hsize hblock hblock' hchain hchain' ho c l

/-- A file of three bytes. -/
private def tiny : Params :=
  { size := 3, num_iterations := 1, max_blocksize := 3, max_chainlen := 4, sync_part := 0,
    size_off64 := three_off64 }

theorem inside_tiny : Inside tiny (5 % 3) (chain_offsets tiny 7 9 5) ↔ Tame tiny 7 5 :=
  (inside_iff_tame (by decide) (by decide) (by decide) (by decide) (by decide)).2 7 (by decide) 9 5

/-- The offset without a positive counterpart puts the first block two bytes before the file. -/
theorem not_inside_tiny :
    chain_offsets tiny (2 ^ 63) 9 5 = [-2, 0] ∧ ¬Inside tiny (5 % 3) (chain_offsets tiny (2 ^ 63) 9 5) := by
  have hoffsets : chain_offsets tiny (2 ^ 63) 9 5 = [-2, 0] := by decide
  refine ⟨hoffsets, fun h ↦ ?_⟩
  have hneg := h.nonneg (-2) (by rw [hoffsets]; exact List.mem_cons_self)
  omega

end ViTools.Fstest
