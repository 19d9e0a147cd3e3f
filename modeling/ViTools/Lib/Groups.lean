import Mathlib.Data.List.Basic
import Mathlib.Order.Nat
import Mathlib.Tactic.Ring

/-!
# Numbers in groups of seven bits

A number is written as groups of seven bits, the highest group first, one group to a byte. The top bit
of a byte says that the number goes on, so a field ends by itself and nothing else has to say where.

Leading groups of zeros are allowed, so a number has a field of every length that is long enough.
-/

namespace ViTools

/-- The number whose groups are the low seven bits of the bytes. -/
def groups (bytes : List UInt8) : ℕ := bytes.foldl (fun n c ↦ 128 * n + c.toNat % 128) 0

/-- The top bit is set on all bytes but the last. -/
inductive IsField : List UInt8 → Prop
  | last {c : UInt8} : c < 0x80 → IsField [c]
  | more {c : UInt8} {bytes : List UInt8} : 0x80 ≤ c → IsField bytes → IsField (c :: bytes)

theorem foldl_groups (bytes : List UInt8) (n : ℕ) :
    bytes.foldl (fun n c ↦ 128 * n + c.toNat % 128) n = n * 128 ^ bytes.length + groups bytes := by
  induction bytes generalizing n with
  | nil => exact (Nat.mul_one n).symm
  | cons c bytes ih =>
    rw [groups, List.foldl_cons, List.foldl_cons, ih, ih (128 * 0 + c.toNat % 128), List.length_cons,
      pow_succ]
    ring

theorem groups_cons (c : UInt8) (bytes : List UInt8) :
    groups (c :: bytes) = c.toNat % 128 * 128 ^ bytes.length + groups bytes := by
  rw [groups, List.foldl_cons, foldl_groups, Nat.mul_zero, Nat.zero_add]

theorem groups_singleton (c : UInt8) : groups [c] = c.toNat % 128 := Nat.zero_add _

/-- A field is where it ends, whatever follows it. -/
theorem IsField.append_inj {bytes bytes' rest rest' : List UInt8} (h : IsField bytes)
    (h' : IsField bytes') (heq : bytes ++ rest = bytes' ++ rest') : bytes = bytes' ∧ rest = rest' := by
  induction h generalizing bytes' with
  | last hc =>
    cases h' with
    | last => exact ⟨by rw [(List.cons.inj heq).1], (List.cons.inj heq).2⟩
    | more hc' => exact absurd ((List.cons.inj heq).1 ▸ hc) (UInt8.not_lt.mpr hc')
  | more hc _ ih =>
    cases h' with
    | last hc' => exact absurd ((List.cons.inj heq).1 ▸ hc) (UInt8.not_le.mpr hc')
    | more _ h' =>
      obtain ⟨rfl, htail⟩ := List.cons.inj heq
      obtain ⟨rfl, hrest⟩ := ih h' htail
      exact ⟨rfl, hrest⟩

/-- The last byte shows. -/
theorem IsField.exists_lt {bytes : List UInt8} (h : IsField bytes) : ∃ c ∈ bytes, c < 0x80 := by
  induction h with
  | last hc => exact ⟨_, List.mem_singleton_self _, hc⟩
  | more _ _ ih =>
    obtain ⟨c, hmem, hc⟩ := ih
    exact ⟨c, List.mem_cons_of_mem _ hmem, hc⟩

/-- Before the end of a field every byte has the top bit. -/
theorem IsField.forall_mem_take {bytes : List UInt8} (h : IsField bytes) {k : ℕ}
    (hk : k < bytes.length) : ∀ c ∈ bytes.take k, 0x80 ≤ c := by
  induction h generalizing k with
  | last =>
    rw [Nat.lt_one_iff.mp hk]
    exact List.forall_mem_nil _
  | more hc _ ih =>
    cases k with
    | zero => exact List.forall_mem_nil _
    | succ k => exact List.forall_mem_cons.mpr ⟨hc, ih (Nat.lt_of_succ_lt_succ hk)⟩

/-- What a reader of at most `i` bytes takes of its input: up to the end of a field, if it gets there. -/
def front : ℕ → List UInt8 → List UInt8
  | 0, _ => []
  | _ + 1, [] => []
  | i + 1, c :: s => if c < 0x80 then [c] else c :: front i s

/-- A field that is not too long is taken whole. -/
theorem IsField.front_append {bytes : List UInt8} (h : IsField bytes) {i : ℕ} (hi : bytes.length ≤ i)
    (rest : List UInt8) : front i (bytes ++ rest) = bytes := by
  induction h generalizing i with
  | last hc =>
    cases i with
    | zero => exact absurd hi (Nat.not_succ_le_zero _)
    | succ i =>
      rw [List.singleton_append, front, if_pos hc]
  | more hc _ ih =>
    cases i with
    | zero => exact absurd hi (Nat.not_succ_le_zero _)
    | succ i => rw [List.cons_append, front, if_neg (UInt8.not_lt.mpr hc), ih (Nat.le_of_succ_le_succ hi)]

/-- There is a field in front, or it never ends. -/
theorem exists_isField_append (s : List UInt8) :
    (∃ bytes rest, s = bytes ++ rest ∧ IsField bytes) ∨ ∀ c ∈ s, 0x80 ≤ c := by
  induction s with
  | nil => exact .inr (List.forall_mem_nil _)
  | cons c s ih =>
    rcases UInt8.lt_or_le c 0x80 with hc | hc
    · exact .inl ⟨[c], s, rfl, .last hc⟩
    · rcases ih with ⟨bytes, rest, rfl, h⟩ | h
      · exact .inl ⟨c :: bytes, rest, rfl, .more hc h⟩
      · exact .inr (List.forall_mem_cons.mpr ⟨hc, h⟩)

/-- A number has a field of every length that is long enough. -/
theorem exists_isField (k : ℕ) {n : ℕ} (hn : n < 128 ^ (k + 1)) :
    ∃ bytes, IsField bytes ∧ bytes.length = k + 1 ∧ groups bytes = n := by
  induction k generalizing n with
  | zero =>
    have hbyte : (UInt8.ofNat n).toNat = n := by
      rw [UInt8.toNat_ofNat']
      omega
    refine ⟨[UInt8.ofNat n], .last ?_, rfl, ?_⟩
    · rw [UInt8.lt_iff_toNat_lt, hbyte]
      exact hn
    · rw [groups_singleton, hbyte]
      exact Nat.mod_eq_of_lt hn
  | succ k ih =>
    -- the highest group goes in front of a field of the rest
    have hpos : 0 < 128 ^ (k + 1) := Nat.pow_pos (by decide)
    obtain ⟨bytes, hfield, hlen, hgroups⟩ := ih (Nat.mod_lt n hpos)
    have hhigh : n / 128 ^ (k + 1) < 128 := by
      rw [Nat.div_lt_iff_lt_mul hpos, ← pow_succ']
      exact hn
    have hbyte : (UInt8.ofNat (128 + n / 128 ^ (k + 1))).toNat = 128 + n / 128 ^ (k + 1) := by
      rw [UInt8.toNat_ofNat']
      exact Nat.mod_eq_of_lt (Nat.add_lt_add_left hhigh 128)
    refine ⟨UInt8.ofNat (128 + n / 128 ^ (k + 1)) :: bytes, .more ?_ hfield, ?_, ?_⟩
    · rw [UInt8.le_iff_toNat_le, hbyte]
      exact Nat.le_add_right 128 _
    · rw [List.length_cons, hlen]
    · rw [groups_cons, hbyte, hlen, hgroups, Nat.add_mod_left, Nat.mod_eq_of_lt hhigh]
      exact Nat.div_add_mod' n _

end ViTools
