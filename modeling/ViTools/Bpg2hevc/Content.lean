import ViTools.Bpg2hevc.Main
import ViTools.Bpg2hevc.Nal

/-!
# What is left of a picture

The output has no lengths. The header unit comes first, and the data after the start code that follows it,
so where one ends is only known from the escapes. They are enough: from the output of a well-formed input
one can read back the byte with the chroma format and the bit depth, the width, the height, the data, and
the header but for one byte. The stop byte that is added after a single zero looks like a byte of the
header, so a header that ends in such a zero and the same header with that byte come out alike.

Nothing else is left: not the second byte of flags, not the length of the data, and not the way the
numbers were written.
-/

namespace ViTools.Bpg2hevc

/-- What a file says, as far as the program goes into it. -/
@[ext]
structure Content where
  /-- The chroma format, the first flag for an alpha channel and the bit depth. -/
  flags : UInt8
  width : ℕ
  height : ℕ
  /-- The hevc header. -/
  hdr : List UInt8
  /-- What follows the header. -/
  data : List UInt8
  deriving DecidableEq

/-- The input is a file with this content and no alpha channel. The second byte of flags, the length of the
data and the bytes that the numbers are written in may be any. -/
def IsFile (stdin : List UInt8) (c : Content) : Prop :=
  ∃ flags2 datalen s, stdin = signature ++ c.flags :: flags2 :: s ∧ c.flags &&& 0x10 = 0 ∧
    flags2 &&& 0x04 = 0 ∧ Fields [c.width, c.height, datalen, c.hdr.length] s (c.hdr ++ c.data)

/-- The bytes of the header unit before they are escaped. -/
def Content.msps (c : Content) : List UInt8 :=
  (picture c.flags (.ofNat c.width) (.ofNat c.height)).fields ++ c.hdr

/-- The output. -/
def Content.output (c : Content) : List UInt8 :=
  nal_header ++ (protect c.msps ++ ([0, 0, 0, 1] ++ c.data))

/-! ## The output of a file -/

theorem Fields.ue7_32 {n : ℕ} {ns : List ℕ} {s rest : List UInt8} (h : Fields (n :: ns) s rest) :
    ∃ s', ue7_32 s = (.ofNat n, s') ∧ n < 2 ^ 32 ∧ Fields ns s' rest := by
  obtain ⟨bytes, s', rfl, henc, hn, hrest⟩ := h
  exact ⟨s', henc.ue7_32 s', hn, hrest⟩

/-- **What is written** for a file. -/
theorem IsFile.main_eq {stdin : List UInt8} {c : Content} (h : IsFile stdin c) (heap : Heap)
    (hsmall : 10 + c.hdr.length ≤ 2 ^ 30 - 4) : main 1 heap stdin = some ⟨0, c.output⟩ := by
  obtain ⟨flags2, datalen, s, rfl, halpha1, halpha2, hfields⟩ := h
  obtain ⟨s₁, hwidth, -, hfields⟩ := hfields.ue7_32
  obtain ⟨s₂, hheight, -, hfields⟩ := hfields.ue7_32
  obtain ⟨s₃, hdatalen, -, hfields⟩ := hfields.ue7_32
  obtain ⟨s₄, hlen, hfits, hfields⟩ := hfields.ue7_32
  obtain rfl : s₄ = c.hdr ++ c.data := hfields
  have hlength : c.hdr.length = (UInt32.ofNat c.hdr.length).toNat := by
    rw [UInt32.toNat_ofNat', Nat.mod_eq_of_lt hfits]
  have hbuild := build_msps_eq heap (picture c.flags (.ofNat c.width) (.ofNat c.height)) hlen hlength
    hsmall
  have hsig : fread [0, 0, 0, 0] 4 (signature ++ c.flags :: flags2 :: s) =
      (signature, c.flags :: flags2 :: s) := rfl
  have hflags : fread signature 2 (c.flags :: flags2 :: s) = ([c.flags, flags2, 0x47, 0xFB], s) := rfl
  have hget0 : [c.flags, flags2, 0x47, 0xFB].getD 0 0 = c.flags := rfl
  have hget1 : [c.flags, flags2, 0x47, 0xFB].getD 1 0 = flags2 := rfl
  have halpha : ¬(c.flags &&& 0x10 ≠ 0 ∨ flags2 &&& 0x04 ≠ 0) := by
    rw [not_or, not_not, not_not]
    exact ⟨halpha1, halpha2⟩
  rw [main, if_neg (not_not.mpr rfl), hsig]
  dsimp only
  rw [if_neg (not_not.mpr rfl), hflags]
  dsimp only
  rw [hwidth]
  dsimp only
  rw [hheight]
  dsimp only
  rw [hdatalen]
  dsimp only
  rw [hget0, hget1, if_neg halpha, hbuild, Content.output, Content.msps]
  simp only [Option.bind_eq_bind, Option.bind_some, List.append_assoc]

/-! ## What the output tells -/

/-- The parameters are the byte of flags, except for the alpha channel. -/
theorem flags_eq {b b' : UInt8} (hb : b &&& 0x10 = 0) (hb' : b' &&& 0x10 = 0)
    (hchroma : (b &&& 0xE0) >>> 5 = (b' &&& 0xE0) >>> 5) (hdepth : b &&& 0x0F = b' &&& 0x0F) :
    b = b' := by
  have hparts : ∀ i : Fin 256, UInt8.ofNat i &&& 0x10 = 0 →
      UInt8.ofNat i = ((UInt8.ofNat i &&& 0xE0) >>> 5) <<< 5 ||| (UInt8.ofNat i &&& 0x0F) := by
    decide +kernel
  have hsplit : ∀ c : UInt8, c &&& 0x10 = 0 → c = ((c &&& 0xE0) >>> 5) <<< 5 ||| (c &&& 0x0F) := by
    intro c hc
    have h := hparts ⟨c.toNat, c.toNat_lt⟩
    rw [UInt8.ofNat_toNat] at h
    exact h hc
  rw [hsplit b hb, hsplit b' hb', hchroma, hdepth]

theorem twos_toNat_inj {a b : UInt32} (h : twos 32 a.toNat = twos 32 b.toNat) : a = b := by
  have ha := a.toNat_lt
  have hb := b.toNat_lt
  rw [twos, twos] at h
  refine UInt32.toNat_inj.mp ?_
  omega

theorem picture_inj {b b' : UInt8} {w w' h h' : UInt32} (hb : b &&& 0x10 = 0) (hb' : b' &&& 0x10 = 0)
    (heq : picture b w h = picture b' w' h') : b = b' ∧ w = w' ∧ h = h' := by
  rw [picture, picture, Picture.mk.injEq] at heq
  obtain ⟨hwidth, hheight, hchroma, hdepth⟩ := heq
  refine ⟨flags_eq hb hb' ?_ ?_, twos_toNat_inj hwidth, twos_toNat_inj hheight⟩
  · exact UInt8.toNat_inj.mp (Nat.cast_inj.mp hchroma)
  · exact UInt8.toNat_inj.mp (Nat.cast_inj.mp (add_left_cancel hdepth))

theorem IsFile.bounds {stdin : List UInt8} {c : Content} (h : IsFile stdin c) :
    c.flags &&& 0x10 = 0 ∧ c.width < 2 ^ 32 ∧ c.height < 2 ^ 32 := by
  obtain ⟨flags2, datalen, s, -, halpha, -, hfields⟩ := h
  obtain ⟨s₁, -, hwidth, hfields⟩ := hfields.ue7_32
  obtain ⟨s₂, -, hheight, -⟩ := hfields.ue7_32
  exact ⟨halpha, hwidth, hheight⟩

/-- The same content, but for the byte 80 at the end of the second header, where the first one ends in an odd
number of zeros. -/
def Stopped (c c' : Content) : Prop :=
  Odd (zerosAtEnd c.msps) ∧ c' = { c with hdr := c.hdr ++ [0x80] }

/-- The parameters in front of the header have a fixed length, so they are the same ones. -/
theorem eq_of_msps_append {stdin stdin' : List UInt8} {c c' : Content} (h : IsFile stdin c)
    (h' : IsFile stdin' c') (x : List UInt8) (hmsps : c'.msps = c.msps ++ x) (hdata : c'.data = c.data) :
    c' = { c with hdr := c.hdr ++ x } := by
  obtain ⟨halpha, hwidth, hheight⟩ := h.bounds
  obtain ⟨halpha', hwidth', hheight'⟩ := h'.bounds
  rw [Content.msps, Content.msps, List.append_assoc] at hmsps
  have hdecode := decode_fields (picture c'.flags (.ofNat c'.width) (.ofNat c'.height)) c'.hdr
  rw [hmsps, decode_fields] at hdecode
  obtain ⟨hpicture, hhdr⟩ := Prod.mk.inj (Option.some.inj hdecode)
  obtain ⟨hflags, hw, hh⟩ := picture_inj halpha halpha' hpicture
  have hofNat : ∀ m n : ℕ, m < 2 ^ 32 → n < 2 ^ 32 → UInt32.ofNat m = UInt32.ofNat n → m = n := by
    intro m n hm hn heq
    have hnat := congrArg UInt32.toNat heq
    rwa [UInt32.toNat_ofNat', UInt32.toNat_ofNat', Nat.mod_eq_of_lt hm, Nat.mod_eq_of_lt hn] at hnat
  ext1
  · exact hflags.symm
  · exact (hofNat _ _ hwidth hwidth' hw).symm
  · exact (hofNat _ _ hheight hheight' hh).symm
  · exact hhdr.symm
  · exact hdata

theorem Stopped.output_eq {c c' : Content} (h : Stopped c c') : c.output = c'.output := by
  obtain ⟨hodd, rfl⟩ := h
  have hmsps : Content.msps { c with hdr := c.hdr ++ [0x80] } = c.msps ++ [0x80] :=
    (List.append_assoc _ _ _).symm
  rw [Content.output, Content.output, hmsps, protect_concat hodd]

/-- **What the output tells.** Two files give the same output, whatever the memory held, exactly if they
have the same content, or if the header of one is that of the other and the stop byte after an odd number of
zeros. -/
theorem main_eq_main_iff {stdin stdin' : List UInt8} {c c' : Content} (heap heap' : Heap)
    (h : IsFile stdin c) (h' : IsFile stdin' c') (hsmall : c.hdr.length ≤ 2 ^ 30 - 14)
    (hsmall' : c'.hdr.length ≤ 2 ^ 30 - 14) :
    main 1 heap stdin = main 1 heap' stdin' ↔ c = c' ∨ Stopped c c' ∨ Stopped c' c := by
  rw [h.main_eq heap (by omega), h'.main_eq heap' (by omega), Option.some_inj, Exit.mk.injEq,
    and_iff_right rfl]
  constructor
  · intro hout
    rw [Content.output, Content.output] at hout
    obtain ⟨hunit, hdata⟩ :=
      (isUnit_protect c.msps).append_inj (isUnit_protect c'.msps) (List.append_cancel_left hout)
    rcases protect_eq_protect_iff.mp hunit with hmsps | ⟨hodd, hmsps⟩ | ⟨hodd, hmsps⟩
    · have heq := eq_of_msps_append h h' [] (by rw [hmsps, List.append_nil]) hdata.symm
      rw [List.append_nil] at heq
      exact .inl heq.symm
    · exact .inr (.inl ⟨hodd, eq_of_msps_append h h' [0x80] hmsps hdata.symm⟩)
    · exact .inr (.inr ⟨hodd, eq_of_msps_append h' h [0x80] hmsps hdata⟩)
  · rintro (rfl | hstopped | hstopped)
    · rfl
    · exact hstopped.output_eq
    · exact hstopped.output_eq.symm

/-- A file, and the same with limited range, another length of the data and a stop byte in its header. -/
theorem main_eq_main_dot :
    main 1 ⟨fun _ ↦ 7, fun _ ↦ 7⟩ [0x42, 0x50, 0x47, 0xFB, 0x22, 0x00, 1, 1, 9, 1, 0, 5] =
      main 1 ⟨fun _ ↦ 3, fun _ ↦ 3⟩ [0x42, 0x50, 0x47, 0xFB, 0x22, 0x02, 1, 0x80, 1, 7, 2, 0, 0x80, 5] := by
  have hone : Encodes [1] 1 := ⟨.last (by decide), by decide, rfl⟩
  have hlong : Encodes [0x80, 1] 1 := ⟨.more (by decide) (.last (by decide)), by decide, rfl⟩
  have htwo : Encodes [2] 2 := ⟨.last (by decide), by decide, rfl⟩
  have hseven : Encodes [7] 7 := ⟨.last (by decide), by decide, rfl⟩
  have hnine : Encodes [9] 9 := ⟨.last (by decide), by decide, rfl⟩
  have h : IsFile [0x42, 0x50, 0x47, 0xFB, 0x22, 0x00, 1, 1, 9, 1, 0, 5] ⟨0x22, 1, 1, [0], [5]⟩ :=
    ⟨0x00, 9, _, rfl, rfl, rfl, _, _, rfl, hone, by decide, _, _, rfl, hone, by decide, _, _, rfl, hnine,
      by decide, _, _, rfl, hone, by decide, rfl⟩
  have h' : IsFile [0x42, 0x50, 0x47, 0xFB, 0x22, 0x02, 1, 0x80, 1, 7, 2, 0, 0x80, 5]
      ⟨0x22, 1, 1, [0, 0x80], [5]⟩ :=
    ⟨0x02, 7, _, rfl, rfl, rfl, _, _, rfl, hone, by decide, _, _, rfl, hlong, by decide, _, _, rfl, hseven,
      by decide, _, _, rfl, htwo, by decide, rfl⟩
  refine (main_eq_main_iff _ _ h h' (by decide) (by decide)).mpr (.inr (.inl ⟨?_, rfl⟩))
  decide

end ViTools.Bpg2hevc
