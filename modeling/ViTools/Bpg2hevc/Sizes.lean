import ViTools.Bpg2hevc.Fields
import ViTools.Bpg2hevc.Nal

/-!
# The sizes of the two buffers

The length of the header is any number of 32 bits, and both sizes are computed from it in `int`. They are
the sizes meant as long as the second one is an `int`; then everything is written inside the buffers, also
when the input ends inside the header.

From there on nothing goes right. The second size comes out as less than the six bytes that are stored
first; with ten more bytes than an `int` can count, so does the first.
-/

namespace ViTools.Bpg2hevc

/-- The sizes are the ones meant, and what is written to each buffer is at most its size. -/
structure SizesHold (stdin : List UInt8) (a : Assembled) (out : List UInt8) : Prop where
  msps_len_eq : a.msps_len = 10 + (ue7_32 stdin).1.toNat
  buf_len_eq : (buf_len a.msps_len).val = 6 + 2 * (10 + (ue7_32 stdin).1.toNat)
  size_eq : (a.msps_buf.size : ℤ) = a.msps_len
  msps_written : 10 + ((ue7_32 stdin).2.take (ue7_32 stdin).1.toNat).length ≤ a.msps_buf.size
  buf_written : (out.length : ℤ) ≤ (buf_len a.msps_len).val

/-- Everything fits, however much of the header there is. -/
theorem sizesHold_of_small (h : Heap) (p : Picture) {stdin rest : List UInt8} {len : UInt32}
    (hlen : ue7_32 stdin = (len, rest)) (hsmall : 10 + len.toNat ≤ 2 ^ 30 - 4) :
    ∃ a out rest, assemble h p stdin = some a ∧ build_msps h p stdin = some (out, rest) ∧
      SizesHold stdin a out := by
  have hassemble := assemble_some h p hlen (by omega)
  set a : Assembled := ⟨(Buffer.mk (10 + len.toNat) h.msps_buf).put 0
    (p.fields ++ rest.take len.toNat), 10 + len.toNat, rest.drop len.toNat⟩ with ha
  have hmsps_len : a.msps_len = 10 + len.toNat := rfl
  refine ⟨a, _, _, hassemble, build_msps_of_assemble h p hassemble (by omega) (by omega), ?_⟩
  constructor
  · rw [hlen, hmsps_len]
  · rw [hlen, hmsps_len]
    exact buf_len_of_small (by omega) (by omega)
  · exact Nat.cast_add 10 _
  · rw [hlen]
    exact Nat.add_le_add_left (List.length_take_le _ _) 10
  · exact length_output_le (by omega) (by omega)

/-- **The sizes of the buffers.** They are the ones meant, and nothing is written past them, exactly if the
length of the header, as the first field of the input has it, is at most `2 ^ 30 - 14`. -/
theorem sizes_hold_iff (h : Heap) (p : Picture) (stdin : List UInt8) :
    (∃ a out rest, assemble h p stdin = some a ∧ build_msps h p stdin = some (out, rest) ∧
      SizesHold stdin a out) ↔ groups (front 5 stdin) % 2 ^ 32 ≤ 2 ^ 30 - 14 := by
  have hlen := ue7_32_eq stdin
  have hnat : (UInt32.ofNat (groups (front 5 stdin))).toNat = groups (front 5 stdin) % 2 ^ 32 :=
    UInt32.toNat_ofNat'
  constructor
  · rintro ⟨a, out, rest, -, hbuild, -⟩
    by_contra hlarge
    rw [build_msps_of_large h p hlen (by omega)] at hbuild
    exact absurd hbuild (by simp)
  · intro hsmall
    exact sizesHold_of_small h p hlen (by omega)

/-- A picture of two by two pixels, with 10 bits and no chroma. -/
private def square : Picture where
  width := 2
  height := 2
  chroma_format_idc := 0
  bit_depth := 10
  fits_width := by decide
  fits_height := by decide
  chroma_bounds := by decide
  bit_depth_bounds := by decide

/-- The largest length makes a first buffer of nine bytes, of which ten are written. -/
theorem not_sizes_hold_max : ue7_32 [0x8F, 0xFF, 0xFF, 0xFF, 0x7F] = (4294967295, []) ∧
    (buf_len (twos 32 (10 + 4294967295))).val ≠ 6 + 2 * (10 + 4294967295) ∧
    ¬∃ a out rest, assemble ⟨fun _ ↦ 7, fun _ ↦ 7⟩ square [0x8F, 0xFF, 0xFF, 0xFF, 0x7F] = some a ∧
      build_msps ⟨fun _ ↦ 7, fun _ ↦ 7⟩ square [0x8F, 0xFF, 0xFF, 0xFF, 0x7F] = some (out, rest) ∧
        SizesHold [0x8F, 0xFF, 0xFF, 0xFF, 0x7F] a out := by
  have hlen : ue7_32 [0x8F, 0xFF, 0xFF, 0xFF, 0x7F] = (4294967295, []) := rfl
  refine ⟨hlen, by decide, ?_⟩
  rintro ⟨a, out, rest, hassemble, -, -⟩
  rw [assemble_none _ square hlen (by decide)] at hassemble
  exact absurd hassemble (by simp)

end ViTools.Bpg2hevc
