import ViTools.Bpg2hevc.BuildMsps
import ViTools.Lib.Groups

/-!
# The numbers in a BPG header

`ue7_32` reads a number in groups of seven bits, of at most five bytes. Its 32 bits drop what is shifted
out of them, so it computes modulo `2 ^ 32` whatever it reads, and of a number that fits nothing is lost:
five groups leave room for three bits more than a number can have.

The loop stops at the first byte without the top bit, so it consumes exactly the bytes of the number and
the next field starts where it should.
-/

namespace ViTools.Bpg2hevc

/-! ## One byte -/

theorem toNat_and_7F (c : UInt8) : (c &&& 0x7F).toNat = c.toNat % 128 := by
  rw [UInt8.toNat_and]
  exact Nat.and_two_pow_sub_one_eq_mod c.toNat 7

theorem and_80_eq_zero_iff (c : UInt8) : c &&& 0x80 = 0 ↔ c < 0x80 := by
  have hall : ∀ i : Fin 256, i.val &&& 0x80 = 0 ↔ i.val < 0x80 := by decide +kernel
  rw [← UInt8.toNat_inj, UInt8.toNat_and, UInt8.lt_iff_toNat_lt]
  exact hall ⟨c.toNat, c.toNat_lt⟩

/-- One round shifts a group in, modulo `2 ^ 32`. -/
theorem shift_group (n : ℕ) (c : UInt8) :
    UInt32.ofNat n <<< 7 ||| (c &&& 0x7F).toUInt32 = UInt32.ofNat (128 * n + c.toNat % 128) := by
  -- the top seven of the 32 bits are shifted out
  have hshift : (n % 2 ^ 32) <<< 7 % 2 ^ 32 = (n % 2 ^ 25) <<< 7 := by
    rw [Nat.shiftLeft_eq, Nat.shiftLeft_eq]
    omega
  have hlow : c.toNat % 128 < 2 ^ 7 := Nat.mod_lt _ (by decide)
  refine UInt32.toNat_inj.mp ?_
  rw [UInt32.toNat_or, UInt32.toNat_shiftLeft, UInt8.toNat_toUInt32, toNat_and_7F, UInt32.toNat_ofNat',
    UInt32.toNat_ofNat']
  change (n % 2 ^ 32) <<< 7 % 2 ^ 32 ||| c.toNat % 128 = _
  rw [hshift, ← Nat.shiftLeft_add_eq_or_of_lt hlow, Nat.shiftLeft_eq]
  omega

/-! ## One number -/

/-- The loop computes the number of the groups it takes, after those of `n`. -/
theorem ue7_32_loop_eq (i n : ℕ) (stdin : List UInt8) :
    ue7_32_loop i (.ofNat n) stdin =
      (.ofNat (n * 128 ^ (front i stdin).length + groups (front i stdin)),
        stdin.drop (front i stdin).length) := by
  induction i generalizing n stdin with
  | zero =>
    rw [ue7_32_loop, front]
    exact congrArg (fun k ↦ (UInt32.ofNat k, stdin)) (Nat.mul_one n).symm
  | succ i ih =>
    cases stdin with
    | nil =>
      rw [ue7_32_loop, front]
      exact congrArg (fun k ↦ (UInt32.ofNat k, [])) (Nat.mul_one n).symm
    | cons c stdin =>
      rw [ue7_32_loop, front, shift_group]
      by_cases hc : c < 0x80
      · rw [if_pos ((and_80_eq_zero_iff c).mpr hc), if_pos hc, groups_singleton, List.length_singleton,
          pow_one, Nat.mul_comm]
        rfl
      · rw [if_neg (mt (and_80_eq_zero_iff c).mp hc), if_neg hc, ih, groups_cons, List.length_cons,
          List.drop_succ_cons, pow_succ]
        congr 2
        ring

/-- **What is read**, of any input: the number of the groups up to the end of the field, of five bytes or of
the input, modulo `2 ^ 32`. -/
theorem ue7_32_eq (stdin : List UInt8) :
    ue7_32 stdin = (.ofNat (groups (front 5 stdin)), stdin.drop (front 5 stdin).length) := by
  have hloop := ue7_32_loop_eq 5 0 stdin
  rwa [Nat.zero_mul, Nat.zero_add] at hloop

/-- The number `n` as a field of at most five bytes. -/
structure Encodes (bytes : List UInt8) (n : ℕ) : Prop where
  isField : IsField bytes
  length_le : bytes.length ≤ 5
  groups_eq : groups bytes = n

/-- What is read of a field is its number modulo `2 ^ 32`. -/
theorem Encodes.ue7_32 {bytes : List UInt8} {n : ℕ} (h : Encodes bytes n) (rest : List UInt8) :
    ue7_32 (bytes ++ rest) = (.ofNat n, rest) := by
  rw [ue7_32_eq, h.isField.front_append h.length_le, h.groups_eq, List.drop_left]

/-- Every number of 32 bits has a field. -/
theorem exists_encodes {n : ℕ} (hn : n < 2 ^ 32) : ∃ bytes, Encodes bytes n := by
  obtain ⟨bytes, hfield, hlen, hgroups⟩ := exists_isField 4 (hn.trans (by decide))
  exact ⟨bytes, hfield, hlen.le, hgroups⟩

/-! ## Several numbers -/

/-- Read `k` numbers one after the other. -/
def ue7_32s : ℕ → List UInt8 → List UInt32 × List UInt8
  | 0, stdin => ([], stdin)
  | k + 1, stdin =>
    let (n, stdin) := ue7_32 stdin
    let (ns, stdin) := ue7_32s k stdin
    (n :: ns, stdin)

/-- Fields in sequence are read back. -/
theorem ue7_32s_flatMap {fields : List (ℕ × List UInt8)} (h : ∀ f ∈ fields, Encodes f.2 f.1)
    (rest : List UInt8) :
    ue7_32s fields.length (fields.flatMap Prod.snd ++ rest) =
      (fields.map fun f ↦ .ofNat f.1, rest) := by
  induction fields with
  | nil => rfl
  | cons f fields ih =>
    obtain ⟨hf, hfields⟩ := List.forall_mem_cons.mp h
    rw [List.flatMap_cons, List.append_assoc, List.length_cons, ue7_32s, hf.ue7_32]
    dsimp only
    rw [ih hfields, List.map_cons]

/-- **Numbers are read back.** Every number of 32 bits has a field, and whatever field it is given in and
whatever follows, `ue7_32` returns it and consumes exactly the field; so fields in sequence are read back,
as many as there are. -/
theorem ue7_32_decodes {n : ℕ} (hn : n < 2 ^ 32) :
    (∃ bytes, Encodes bytes n) ∧
    (∀ bytes rest, Encodes bytes n →
      (ue7_32 (bytes ++ rest)).1.toNat = n ∧ (ue7_32 (bytes ++ rest)).2 = rest) ∧
    ∀ fields : List (ℕ × List UInt8), (∀ f ∈ fields, f.1 < 2 ^ 32 ∧ Encodes f.2 f.1) → ∀ rest,
      (ue7_32s fields.length (fields.flatMap Prod.snd ++ rest)).1.map UInt32.toNat =
          fields.map Prod.fst ∧
        (ue7_32s fields.length (fields.flatMap Prod.snd ++ rest)).2 = rest := by
  have hback : ∀ n < 2 ^ 32, (UInt32.ofNat n).toNat = n := by
    intro n hn
    rw [UInt32.toNat_ofNat']
    exact Nat.mod_eq_of_lt hn
  refine ⟨exists_encodes hn, ?_, ?_⟩
  · intro bytes rest h
    rw [h.ue7_32]
    exact ⟨hback n hn, rfl⟩
  · intro fields h rest
    rw [ue7_32s_flatMap fun f hf ↦ (h f hf).2, List.map_map]
    exact ⟨List.map_congr_left fun f hf ↦ hback f.1 (h f hf).1, rfl⟩

/-- 300 with a leading group of zeros, in front of 5. -/
theorem ue7_32_decodes_300 :
    (∃ bytes, Encodes bytes 300) ∧
      (ue7_32 ([0x80, 0x82, 0x2C] ++ [0x05])).1.toNat = 300 ∧
        (ue7_32 ([0x80, 0x82, 0x2C] ++ [0x05])).2 = [0x05] :=
  have hdecodes := ue7_32_decodes (n := 300) (by decide)
  have hbytes : Encodes [0x80, 0x82, 0x2C] 300 :=
    ⟨.more (by decide) (.more (by decide) (.last (by decide))), by decide, by decide⟩
  ⟨hdecodes.1, hdecodes.2.1 _ [0x05] hbytes⟩

end ViTools.Bpg2hevc
