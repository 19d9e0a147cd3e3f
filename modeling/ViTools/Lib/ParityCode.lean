import Mathlib.Algebra.BigOperators.Group.Finset.Basic
import Mathlib.Algebra.Group.Nat.Even
import Mathlib.Data.Finset.Card
import Mathlib.Data.Nat.Bitwise

/-!
# Parity checks over binary addresses

A pattern gives a value of a commutative group to each address of a finite set `S`. Its *checks* are
the sum over all of `S` and, for each of the first `n` bits, the sum over the addresses that have the
bit set. A pattern is *unseen* if all its checks are zero.

Over addresses below `2 ^ n` these are the checks of an extended Hamming code: an unseen pattern of
nonzero values has at least four addresses (`Unseen.four_le_card`). Where every element of the group is
its own negative, the unseen patterns on exactly four addresses are the ones with a single value whose
addresses have each bit set an even number of times (`unseen_iff_of_card_eq_four`). A pattern on one
address can be located from its checks (`ofBits_parity_singleton`), and `card_eq_one_iff` tells it from
one on two addresses.

The argument throughout is that each bit divides the set into two sides, and that an unseen pattern sums
to zero on either side.
-/

open scoped BigOperators

namespace ViTools.ParityCode

variable {G : Type*} [AddCommGroup G]

/-- The addresses of `S` whose bit `k` is `b`. -/
def side (S : Finset ℕ) (k : ℕ) (b : Bool) : Finset ℕ := S.filter fun a ↦ a.testBit k = b

/-- The sum over the addresses that have bit `k` set. -/
def parity (v : ℕ → G) (S : Finset ℕ) (k : ℕ) : G := ∑ a ∈ side S k true, v a

/-- All checks are zero. -/
structure Unseen (n : ℕ) (v : ℕ → G) (S : Finset ℕ) : Prop where
  total : ∑ a ∈ S, v a = 0
  parity : ∀ k < n, parity v S k = 0

theorem mem_side {S : Finset ℕ} {k : ℕ} {b : Bool} {a : ℕ} :
    a ∈ side S k b ↔ a ∈ S ∧ a.testBit k = b := Finset.mem_filter

/-! ## The two sides of a bit -/

theorem side_false (S : Finset ℕ) (k : ℕ) :
    side S k false = S.filter fun a ↦ ¬a.testBit k = true :=
  Finset.filter_congr fun a _ ↦ by rw [Bool.not_eq_true]

theorem card_sides (S : Finset ℕ) (k : ℕ) (b : Bool) :
    (side S k b).card + (side S k (!b)).card = S.card := by
  have h := Finset.card_filter_add_card_filter_not (s := S) fun a ↦ a.testBit k = true
  cases b with
  | true => rwa [Bool.not_true, side_false]
  | false => rwa [Bool.not_false, side_false, add_comm]

theorem sum_sides (v : ℕ → G) (S : Finset ℕ) (k : ℕ) :
    parity v S k + ∑ a ∈ side S k false, v a = ∑ a ∈ S, v a := by
  rw [side_false]
  exact Finset.sum_filter_add_sum_filter_not S (fun a ↦ a.testBit k = true) v

/-- Distinct addresses lie on different sides of one of the bits. -/
theorem exists_sides {n a b : ℕ} (ha : a < 2 ^ n) (hb : b < 2 ^ n) (hab : a ≠ b) :
    ∃ k < n, b.testBit k = !a.testBit k := by
  obtain ⟨k, hk⟩ := Nat.exists_testBit_ne_of_ne hab
  refine ⟨k, ?_, Bool.eq_not_of_ne hk.symm⟩
  by_contra hle
  have hpow : 2 ^ n ≤ 2 ^ k := Nat.pow_le_pow_right (by decide) (not_lt.mp hle)
  rw [Nat.testBit_lt_two_pow (ha.trans_le hpow), Nat.testBit_lt_two_pow (hb.trans_le hpow)] at hk
  exact hk rfl

section Patterns

variable {n : ℕ} {v : ℕ → G} {S : Finset ℕ}

theorem Unseen.sum_side (h : Unseen n v S) {k : ℕ} (hk : k < n) (b : Bool) :
    ∑ a ∈ side S k b, v a = 0 := by
  cases b with
  | true => exact h.parity k hk
  | false =>
    have hsum := sum_sides v S k
    rwa [h.parity k hk, h.total, zero_add] at hsum

/-- A single nonzero value does not sum to zero. -/
theorem two_le_card {T : Finset ℕ} {a : ℕ} (ha : a ∈ T) (hv : ∀ b ∈ T, v b ≠ 0)
    (hsum : ∑ b ∈ T, v b = 0) : 2 ≤ T.card := by
  by_contra hlt
  have hle : T.card ≤ 1 := Nat.le_of_lt_succ (not_le.mp hlt)
  have hone : T = {a} :=
    Finset.eq_singleton_iff_unique_mem.mpr ⟨ha, fun b hb ↦ Finset.card_le_one.mp hle b hb a ha⟩
  rw [hone, Finset.sum_singleton] at hsum
  exact hv a ha hsum

theorem Unseen.two_le_card_side (h : Unseen n v S) (hv : ∀ b ∈ S, v b ≠ 0) {k a : ℕ} (hk : k < n)
    (ha : a ∈ S) : 2 ≤ (side S k (a.testBit k)).card :=
  two_le_card (mem_side.mpr ⟨ha, rfl⟩) (fun b hb ↦ hv b (mem_side.mp hb).1) (h.sum_side hk _)

/-- **Distance four.** An unseen pattern of nonzero values has no address or at least four. -/
theorem Unseen.four_le_card (h : Unseen n v S) (hS : ∀ a ∈ S, a < 2 ^ n) (hv : ∀ a ∈ S, v a ≠ 0)
    (hne : S.Nonempty) : 4 ≤ S.card := by
  obtain ⟨a, ha⟩ := hne
  obtain ⟨b, hb, hba⟩ := Finset.exists_mem_ne (two_le_card ha hv h.total) a
  obtain ⟨k, hk, hbit⟩ := exists_sides (hS a ha) (hS b hb) hba.symm
  have hside := h.two_le_card_side hv hk ha
  have hside' := h.two_le_card_side hv hk hb
  rw [hbit] at hside'
  have hsum := card_sides S k (a.testBit k)
  omega

/-! ## Patterns on four addresses -/

/-- On four addresses each side of a bit that divides them has two, with opposite values. -/
theorem Unseen.exists_partner (h : Unseen n v S) (hv : ∀ a ∈ S, v a ≠ 0) (hfour : S.card = 4)
    {k a b : ℕ} (hk : k < n) (ha : a ∈ S) (hb : b ∈ S) (hbit : b.testBit k = !a.testBit k) :
    ∃ c ∈ S, c ≠ a ∧ c ≠ b ∧ side S k (a.testBit k) = {a, c} ∧ v a + v c = 0 := by
  have hside := h.two_le_card_side hv hk ha
  have hside' := h.two_le_card_side hv hk hb
  rw [hbit] at hside'
  have hsum := card_sides S k (a.testBit k)
  have hmem : a ∈ side S k (a.testBit k) := mem_side.mpr ⟨ha, rfl⟩
  obtain ⟨c, hc, hca⟩ := Finset.exists_mem_ne hside a
  have hpair : side S k (a.testBit k) = {a, c} := by
    refine (Finset.eq_of_subset_of_card_le (Finset.insert_subset hmem
      (Finset.singleton_subset_iff.mpr hc)) ?_).symm
    rw [Finset.card_pair hca.symm]
    omega
  refine ⟨c, (mem_side.mp hc).1, hca, ?_, hpair, ?_⟩
  · rintro rfl
    have hbit' := (mem_side.mp hc).2
    rw [hbit] at hbit'
    exact Bool.not_ne_self _ hbit'
  · have hzero := h.sum_side hk (a.testBit k)
    rwa [hpair, Finset.sum_pair hca.symm] at hzero

variable (htwo : ∀ x : G, x + x = 0)
include htwo

theorem eq_of_add_self_eq_zero {x y : G} (h : x + y = 0) : x = y := by
  rw [← add_left_inj y, h, htwo]

/-- All values of an unseen pattern on four addresses are the same. -/
theorem Unseen.eq_of_card_eq_four (h : Unseen n v S) (hS : ∀ a ∈ S, a < 2 ^ n)
    (hv : ∀ a ∈ S, v a ≠ 0) (hfour : S.card = 4) {a b : ℕ} (ha : a ∈ S) (hb : b ∈ S) : v a = v b := by
  by_cases hab : a = b
  · rw [hab]
  -- `k` divides `{a, c}` from `{b, d}`
  obtain ⟨k, hk, hbit⟩ := exists_sides (hS a ha) (hS b hb) hab
  obtain ⟨c, hc, hca, hcb, hpair, hac⟩ := h.exists_partner hv hfour hk ha hb hbit
  obtain ⟨d, hd, hdb, hda, hpair', hbd⟩ :=
    h.exists_partner hv hfour hk hb ha (by rw [hbit, Bool.not_not])
  -- `l` divides `a` from `c`, so that the partner of `a` is now `b` or `d`
  obtain ⟨l, hl, hbit'⟩ := exists_sides (hS a ha) (hS c hc) hca.symm
  obtain ⟨e, he, hea, hec, -, hae⟩ := h.exists_partner hv hfour hl ha hc hbit'
  have hebd : e = b ∨ e = d := by
    have hside : e ∈ side S k (b.testBit k) := by
      rw [mem_side, hbit]
      refine ⟨he, Bool.eq_not_of_ne fun heq ↦ ?_⟩
      have hmem : e ∈ ({a, c} : Finset ℕ) := hpair ▸ mem_side.mpr ⟨he, heq⟩
      rw [Finset.mem_insert, Finset.mem_singleton] at hmem
      exact hmem.elim hea hec
    rwa [hpair', Finset.mem_insert, Finset.mem_singleton] at hside
  rcases hebd with rfl | rfl
  · exact eq_of_add_self_eq_zero htwo hae
  · rw [eq_of_add_self_eq_zero htwo hae, eq_of_add_self_eq_zero htwo hbd]

/-- A nonzero value added to itself is zero exactly an even number of times. -/
theorem nsmul_eq_zero_iff_even {x : G} (hx : x ≠ 0) (m : ℕ) : m • x = 0 ↔ Even m := by
  have hpair : ∀ i : ℕ, (i + i) • x = 0 := fun i ↦ by rw [add_nsmul, htwo]
  rcases Nat.even_or_odd' m with ⟨i, rfl | rfl⟩
  · rw [two_mul]
    exact ⟨fun _ ↦ ⟨i, rfl⟩, fun _ ↦ hpair i⟩
  · rw [two_mul, add_nsmul, hpair, zero_add, one_nsmul]
    refine ⟨fun h ↦ absurd h hx, fun h ↦ ?_⟩
    rw [Nat.even_add_one] at h
    exact absurd ⟨i, rfl⟩ h

/-- **Unseen patterns on four addresses.** -/
theorem unseen_iff_of_card_eq_four (hS : ∀ a ∈ S, a < 2 ^ n) (hv : ∀ a ∈ S, v a ≠ 0)
    (hfour : S.card = 4) :
    Unseen n v S ↔ (∃ x, ∀ a ∈ S, v a = x) ∧ ∀ k < n, Even (side S k true).card := by
  obtain ⟨a, ha⟩ := Finset.card_pos.mp (by omega : 0 < S.card)
  have hcheck : ∀ {x : G} {T : Finset ℕ}, T ⊆ S → (∀ b ∈ S, v b = x) → ∑ b ∈ T, v b = T.card • x :=
    fun hT hx ↦ Finset.sum_eq_card_nsmul fun b hb ↦ hx b (hT hb)
  have hside : ∀ k, side S k true ⊆ S := fun k ↦ Finset.filter_subset _ _
  constructor
  · intro h
    have hx : ∀ b ∈ S, v b = v a := fun b hb ↦ h.eq_of_card_eq_four htwo hS hv hfour hb ha
    refine ⟨⟨v a, hx⟩, fun k hk ↦ (nsmul_eq_zero_iff_even htwo (hv a ha) _).mp ?_⟩
    rw [← hcheck (hside k) hx]
    exact h.parity k hk
  · rintro ⟨⟨x, hx⟩, heven⟩
    have hx0 : x ≠ 0 := hx a ha ▸ hv a ha
    refine ⟨?_, fun k hk ↦ ?_⟩
    · rw [hcheck subset_rfl hx, hfour]
      exact (nsmul_eq_zero_iff_even htwo hx0 4).mpr ⟨2, rfl⟩
    · rw [parity, hcheck (hside k) hx]
      exact (nsmul_eq_zero_iff_even htwo hx0 _).mpr (heven k hk)

end Patterns

/-! ## Locating a single address -/

section Single

variable {n : ℕ} {v : ℕ → G} {S : Finset ℕ}

theorem parity_singleton (v : ℕ → G) (a k : ℕ) :
    parity v {a} k = if a.testBit k then v a else 0 := by
  rw [parity, side, Finset.filter_singleton]
  split
  · rw [Finset.sum_singleton]
  · rfl

/-- The address of a pattern on one address has the bits whose checks are not zero. -/
theorem ofBits_parity_singleton [DecidableEq G] {a : ℕ} (ha : a < 2 ^ n) (hv : v a ≠ 0) :
    Nat.ofBits (fun k : Fin n ↦ decide (parity v {a} k ≠ 0)) = a := by
  refine Nat.eq_of_testBit_eq fun k ↦ ?_
  by_cases hk : k < n
  · rw [Nat.testBit_ofBits_lt _ _ hk, parity_singleton]
    cases a.testBit k <;> simp [hv]
  · have hpow : 2 ^ n ≤ 2 ^ k := Nat.pow_le_pow_right (by decide) (not_lt.mp hk)
    rw [Nat.testBit_lt_two_pow (ha.trans_le hpow),
      Nat.testBit_lt_two_pow ((Nat.ofBits_lt_two_pow _).trans_le hpow)]

/-- Of the patterns on at most two addresses, the ones on one address are those whose total is not zero
and whose checks are each zero or equal to the total. -/
theorem card_eq_one_iff (hS : ∀ a ∈ S, a < 2 ^ n) (hv : ∀ a ∈ S, v a ≠ 0) (htwo : S.card ≤ 2) :
    S.card = 1 ↔ ∑ a ∈ S, v a ≠ 0 ∧ ∀ k < n, parity v S k = 0 ∨ parity v S k = ∑ a ∈ S, v a := by
  constructor
  · intro hone
    obtain ⟨a, rfl⟩ := Finset.card_eq_one.mp hone
    rw [Finset.sum_singleton]
    refine ⟨hv a (Finset.mem_singleton_self a), fun k _ ↦ ?_⟩
    rw [parity_singleton]
    split
    · exact .inr rfl
    · exact .inl rfl
  · rintro ⟨htotal, hchecks⟩
    have hpos : S.card ≠ 0 := fun h ↦ htotal (by rw [Finset.card_eq_zero.mp h, Finset.sum_empty])
    by_contra hne
    obtain ⟨a, b, hab, rfl⟩ := Finset.card_eq_two.mp (by omega : S.card = 2)
    have ha := Finset.mem_insert_self a {b}
    have hb := Finset.mem_insert_of_mem (a := b) (b := a) (Finset.mem_singleton_self b)
    -- a bit that divides the two checks exactly one of their values
    obtain ⟨k, hk, hbit⟩ := exists_sides (hS a ha) (hS b hb) hab
    have hcheck : parity v {a, b} k = if a.testBit k then v a else v b := by
      rw [parity, side, Finset.filter_insert, Finset.filter_singleton, hbit]
      cases a.testBit k <;> simp
    have hk' := hchecks k hk
    rw [hcheck, Finset.sum_pair hab] at hk'
    split at hk'
    · exact hk'.elim (hv a ha) fun h ↦ hv b hb (left_eq_add.mp h)
    · exact hk'.elim (hv b hb) fun h ↦ hv a ha (right_eq_add.mp h)

end Single

end ViTools.ParityCode
