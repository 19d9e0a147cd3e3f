import ViTools.Bpg2hevc.BuildMsps
import ViTools.Lib.Bytes
import ViTools.Lib.StartCode

/-!
# The header unit of bpg2hevc

The loop over the two buffers writes the escaped bytes of the modified SPS header, and the header can
be read back from them. This holds as long as the size of the second buffer is an `int`. The largest
headers with a length below `2 ^ 30` are too long for that by a few bytes: the size comes out negative,
there is no second buffer, and the program writes to the null pointer.
-/

namespace ViTools.Bpg2hevc

/-! ## The two buffers -/

theorem malloc_of_nonneg (contents : ℕ → UInt8) {size : ℤ} (h0 : 0 ≤ size) (h : size < 2 ^ 31) :
    malloc contents size = some ⟨size.toNat, contents⟩ := by
  have hsize : toU64 size = size.toNat := by
    rw [toU64, Int.emod_eq_of_lt h0 (by omega)]
  rw [malloc, hsize, if_pos (by omega)]

theorem malloc_of_neg (contents : ℕ → UInt8) {size : ℤ} (h0 : -2 ^ 31 ≤ size) (h : size < 0) :
    malloc contents size = none := by
  rw [malloc, if_neg]
  rw [toU64]
  omega

/-- Whatever the size, there is a buffer of that size or none. -/
theorem malloc_cases (contents : ℕ → UInt8) (size : ℤ) (h0 : -2 ^ 31 ≤ size) (h : size < 2 ^ 31) :
    malloc contents size = none ∨ ∃ b, malloc contents size = some b ∧ (b.size : ℤ) = size := by
  rcases lt_or_ge size 0 with hneg | hnonneg
  · exact .inl (malloc_of_neg contents h0 hneg)
  · exact .inr ⟨_, malloc_of_nonneg contents hnonneg h, Int.toNat_of_nonneg hnonneg⟩

/-- One step of the loop: some bytes are stored, and the rest goes after them. -/
theorem store_bind_escape_loop {x l : List UInt8} {idx : ℕ} {buf : Buffer}
    (h : idx + (x ++ escape l).length ≤ buf.size)
    (ih : ∀ {buf : Buffer}, idx + x.length + (escape l).length ≤ buf.size →
      escape_loop l (idx + x.length) buf =
        some (idx + x.length + (escape l).length, buf.put (idx + x.length) (escape l))) :
    ((buf.store idx x).bind fun buf ↦ escape_loop l (idx + x.length) buf) =
      some (idx + (x ++ escape l).length, buf.put idx (x ++ escape l)) := by
  rw [List.length_append] at h ⊢
  rw [Buffer.store_of_le (by omega), Option.bind_some, ih (by rw [Buffer.size_put]; omega),
    Buffer.put_put_append, Nat.add_assoc]

/-- As long as there is room, the loop writes the escaped bytes. -/
theorem escape_loop_eq (l : List UInt8) {idx : ℕ} {buf : Buffer}
    (h : idx + (escape l).length ≤ buf.size) :
    escape_loop l idx buf = some (idx + (escape l).length, buf.put idx (escape l)) := by
  induction l using escape.induct generalizing idx buf with
  | case1 =>
    rw [escape, Buffer.put_nil]
    rfl
  | case2 a =>
    have hstore : buf.store idx [a] = some (buf.put idx [a]) := Buffer.store_of_le h
    rw [escape_loop, escape, hstore]
    rfl
  | case3 a b l hzero ih =>
    rw [escape, if_pos hzero] at h ⊢
    rw [escape_loop, if_pos hzero]
    exact store_bind_escape_loop (x := [0, 0, 3]) h ih
  | case4 a b l hzero ih =>
    rw [escape, if_neg hzero] at h ⊢
    rw [escape_loop, if_neg hzero]
    exact store_bind_escape_loop (x := [a]) h ih

/-- The stop byte is written if the last byte before it is zero. -/
theorem stop_byte_eq {idx : ℕ} {buf : Buffer} {x : List UInt8} (hx : x ≠ [])
    (hidx : idx = x.length) (hslice : buf.slice 0 idx = x) (h : idx < buf.size) :
    ∃ idx' buf', stop_byte idx buf = some (idx', buf') ∧
      buf'.slice 0 idx' = x ++ if x.getLast? = some 0 then [0x80] else [] := by
  obtain rfl | ⟨y, a, rfl⟩ := List.eq_nil_or_concat' x
  · exact absurd rfl hx
  rw [List.length_append, List.length_singleton] at hidx
  subst hidx
  have hbyte : buf.byte y.length = a := by
    rw [Buffer.slice_add, Nat.zero_add, Buffer.slice_one] at hslice
    exact List.singleton_inj.mp (List.append_inj' hslice rfl).2
  rw [stop_byte, List.getLast?_concat, Nat.add_sub_cancel, hbyte]
  by_cases ha : a = 0
  · refine ⟨y.length + 1 + 1, buf.put (y.length + 1) [0x80], ?_, ?_⟩
    · rw [if_pos (.inr ha), Buffer.store_of_le h]
      rfl
    · rw [if_pos (congrArg some ha), Buffer.slice_add, Nat.zero_add,
        Buffer.slice_put_of_le _ _ (by omega), hslice]
      exact congrArg (y ++ [a] ++ ·) (Buffer.slice_put_self buf _ [0x80])
  · have hneg : ¬(y.length + 1 = 0 ∨ a = 0) := by
      rintro (h0 | h0)
      · omega
      · exact ha h0
    refine ⟨y.length + 1, buf, if_neg hneg, ?_⟩
    rw [if_neg (fun h0 ↦ ha (Option.some.inj h0)), hslice, List.append_nil]

/-! ## The first half -/

theorem length_fields (p : Picture) : p.fields.length = 10 := rfl

section

variable (h : Heap) (p : Picture) {stdin hdr rest : List UInt8} {len : UInt32}

/-- The first buffer is filled with the parameters and what there is of the header. -/
theorem assemble_some (hlen : ue7_32 stdin = (len, rest)) (hfits : 10 + len.toNat < 2 ^ 31) :
    assemble h p stdin = some ⟨(Buffer.mk (10 + len.toNat) h.msps_buf).put 0
      (p.fields ++ rest.take len.toNat), 10 + len.toNat, rest.drop len.toNat⟩ := by
  have hsum : (1 + 4 + 4 + 1 + len.toNat : ℤ) = 10 + len.toNat := by ring
  have hmsps_len : twos 32 (10 + len.toNat) = 10 + len.toNat :=
    twos_eq_self (by norm_num) (fits_32.mpr (by omega))
  have hmalloc : malloc h.msps_buf (10 + len.toNat) = some ⟨10 + len.toNat, h.msps_buf⟩ :=
    malloc_of_nonneg _ (by omega) (by omega)
  set b : Buffer := ⟨10 + len.toNat, h.msps_buf⟩ with hb
  have hstore : b.store 0 p.fields = some (b.put 0 p.fields) :=
    Buffer.store_of_le (by rw [length_fields]; exact Nat.le_add_right 10 _)
  have hfread : (b.put 0 p.fields).store 10 (rest.take len.toNat) =
      some (b.put 0 (p.fields ++ rest.take len.toNat)) := by
    have hgot : (rest.take len.toNat).length ≤ len.toNat := List.length_take_le _ _
    rw [Buffer.store_of_le (by rw [Buffer.size_put]; exact Nat.add_le_add_left hgot 10),
      ← Buffer.put_put_append]
    rfl
  rw [assemble, hlen]
  dsimp only
  rw [hsum, hmsps_len, hmalloc, Option.bind_eq_bind, Option.bind_some, hstore, Option.bind_some,
    hfread, Option.bind_some, guard, if_pos rfl]
  rfl

/-- A length that is too long for an `int` comes out too small. -/
theorem assemble_none (hlen : ue7_32 stdin = (len, rest)) (hlarge : 2 ^ 31 ≤ 10 + len.toNat) :
    assemble h p stdin = none := by
  have hlt := len.toNat_lt
  have hsum : (1 + 4 + 4 + 1 + len.toNat : ℤ) = 10 + len.toNat := by ring
  have hmsps_len : twos 32 (10 + len.toNat) = 10 + len.toNat - 2 ^ 32 := by
    rw [twos]
    omega
  rw [assemble, hlen]
  dsimp only
  rw [hsum, hmsps_len, Option.bind_eq_bind]
  rcases malloc_cases h.msps_buf (10 + len.toNat - 2 ^ 32) (by omega) (by omega) with
    hmalloc | ⟨b, hmalloc, hsize⟩
  · rw [hmalloc]
    rfl
  · have hstore : b.store 0 p.fields = none := if_neg (by rw [length_fields]; omega)
    rw [hmalloc, Option.bind_some, hstore]
    rfl

/-- The whole header is there. -/
theorem assemble_eq (hlen : ue7_32 stdin = (len, hdr ++ rest)) (hhdr : hdr.length = len.toNat)
    (hfits : 10 + hdr.length < 2 ^ 31) :
    ∃ a, assemble h p stdin = some a ∧ a.msps = p.fields ++ hdr ∧ a.msps_len = 10 + hdr.length ∧
      a.stdin = rest := by
  have htotal : (p.fields ++ hdr).length = 10 + hdr.length := by
    rw [List.length_append, length_fields]
  refine ⟨_, assemble_some h p hlen (by omega), ?_, by rw [hhdr], by rw [← hhdr, List.drop_left]⟩
  rw [Assembled.msps, ← hhdr, List.take_left]
  exact Buffer.slice_put_eq _ htotal

/-! ## The second half -/

/-- What comes first in the output: a start code and the header of an application specific unit. -/
def nal_header : List UInt8 := [0x00, 0x00, 0x00, 0x01, 0x60, 0x01]

theorem buf_len_of_small {n : ℤ} (h0 : 0 ≤ n) (h : n ≤ 2 ^ 30 - 4) : (buf_len n).val = 6 + 2 * n := by
  have hmul : twos 32 (n * 2) = n * 2 := twos_eq_self (by norm_num) (fits_32.mpr (by omega))
  have hsix : twos 32 (4 + 2) = 6 := by decide
  rw [buf_len, CInt.val_add, CInt.val_add, CInt.val_mul, CInt.val_lit, CInt.val_lit, CInt.val_lit,
    hmul, hsix, twos_eq_self (by norm_num) (fits_32.mpr (by omega)), mul_comm]

/-- The size of the second buffer leaves the range of an `int`, and comes out less than what is stored
first. -/
theorem buf_len_of_large {n : ℤ} (h0 : 2 ^ 30 - 4 < n) (h : n < 2 ^ 31) :
    (buf_len n).val = 6 + 2 * n - 2 ^ 32 := by
  have hsix : twos 32 (4 + 2) = 6 := by decide
  rw [buf_len, CInt.val_add, CInt.val_add, CInt.val_mul, CInt.val_lit, CInt.val_lit, CInt.val_lit,
    hsix, twos, twos]
  omega

/-- The second half, once the first has come to an end. -/
theorem build_msps_bind {a : Assembled} (hassemble : assemble h p stdin = some a) :
    build_msps h p stdin = (malloc h.buf (buf_len a.msps_len).val).bind fun buf ↦
      (buf.store 0 nal_header).bind fun buf ↦ (escape_loop a.msps 6 buf).bind fun y ↦
        (stop_byte y.1 y.2).bind fun y ↦ some (y.2.slice 0 y.1, a.stdin) := by
  rw [build_msps, hassemble]
  rfl

/-- Whatever was assembled, the output is that with escapes, if its size is an `int`. -/
theorem build_msps_of_assemble {a : Assembled} (hassemble : assemble h p stdin = some a)
    (hpos : 0 < a.msps_len) (hsmall : a.msps_len ≤ 2 ^ 30 - 4) :
    build_msps h p stdin = some (nal_header ++ protect a.msps, a.stdin) := by
  have hlen : a.msps.length = a.msps_len.toNat := Buffer.length_slice _ _ _
  have hne : a.msps ≠ [] := List.ne_nil_of_length_pos (by omega)
  have hroom := length_escape_lt hne
  set b : Buffer := ⟨6 + 2 * a.msps.length, h.buf⟩ with hb
  have hsize : b.size = 6 + 2 * a.msps.length := rfl
  have hmalloc : malloc h.buf (buf_len a.msps_len).val = some b := by
    rw [buf_len_of_small hpos.le hsmall, malloc_of_nonneg _ (by omega) (by omega)]
    exact congrArg (fun n ↦ some (Buffer.mk n h.buf)) (by omega)
  have hstore : b.store 0 nal_header = some (b.put 0 nal_header) :=
    Buffer.store_of_le (Nat.le_add_right 6 _)
  set x := nal_header ++ escape a.msps with hx
  have hlength : x.length = 6 + (escape a.msps).length := List.length_append
  have hloop : escape_loop a.msps 6 (b.put 0 nal_header) = some (x.length, b.put 0 x) := by
    rw [escape_loop_eq _ (by rw [Buffer.size_put, hsize]; omega), hlength, hx,
      ← Buffer.put_put_append]
    rfl
  have hxne : x ≠ [] := List.append_ne_nil_of_left_ne_nil (List.cons_ne_nil _ _) _
  obtain ⟨idx, buf, hstop, hslice⟩ := stop_byte_eq hxne rfl (Buffer.slice_put_self b 0 x)
    (by rw [Buffer.size_put, hsize]; omega)
  have hlast : x.getLast? = (escape a.msps).getLast? := by
    rw [hx, List.getLast?_append, List.getLast?_eq_some_getLast (escape_ne_nil hne)]
    rfl
  have hout : buf.slice 0 idx = nal_header ++ protect a.msps := by
    rw [hslice, hlast, hx, List.append_assoc]
    rfl
  rw [build_msps_bind h p hassemble, hmalloc, Option.bind_some, hstore, Option.bind_some, hloop, Option.bind_some, hstop,
    Option.bind_some, hout]

/-- The output is not longer than the size of the second buffer. -/
theorem length_output_le {a : Assembled} (hpos : 0 < a.msps_len) (hsmall : a.msps_len ≤ 2 ^ 30 - 4) :
    ((nal_header ++ protect a.msps).length : ℤ) ≤ (buf_len a.msps_len).val := by
  have hprotect := length_protect_le a.msps
  have hsix : nal_header.length = 6 := rfl
  rw [Assembled.msps, Buffer.length_slice] at hprotect
  rw [buf_len_of_small hpos.le hsmall, List.length_append, hsix, Assembled.msps]
  omega

/-- The output is the escaped header, if its size is an `int`. -/
theorem build_msps_eq (hlen : ue7_32 stdin = (len, hdr ++ rest)) (hhdr : hdr.length = len.toNat)
    (hsmall : 10 + hdr.length ≤ 2 ^ 30 - 4) :
    build_msps h p stdin = some (nal_header ++ protect (p.fields ++ hdr), rest) := by
  obtain ⟨a, hassemble, hmsps, hmsps_len, hrest⟩ := assemble_eq h p hlen hhdr (by omega)
  rw [build_msps_of_assemble h p hassemble (by omega) (by omega), hmsps, hrest]

/-- Otherwise a buffer is missing or too small for what is stored first. -/
theorem build_msps_of_large (hlen : ue7_32 stdin = (len, rest)) (hlarge : 2 ^ 30 - 4 < 10 + len.toNat) :
    build_msps h p stdin = none := by
  rcases lt_or_ge (10 + len.toNat) (2 ^ 31) with hfits | hhuge
  · have hval : (buf_len (10 + len.toNat)).val = 6 + 2 * (10 + len.toNat) - 2 ^ 32 :=
      buf_len_of_large (by omega) (by omega)
    rw [build_msps_bind h p (assemble_some h p hlen hfits), hval]
    rcases malloc_cases h.buf (6 + 2 * (10 + len.toNat) - 2 ^ 32) (by omega) (by omega) with
      hmalloc | ⟨b, hmalloc, hsize⟩
    · rw [hmalloc]
      rfl
    · have hstore : b.store 0 nal_header = none :=
        if_neg (by rw [show nal_header.length = 6 from rfl]; omega)
      rw [hmalloc, Option.bind_some, hstore]
      rfl
  · rw [build_msps, assemble_none h p hlen hhuge]
    rfl

end

/-! ## Reading the header back -/

/-- Read the parameters and the header from a modified SPS header. -/
def decode : List UInt8 → Option (Picture × List UInt8)
  | c :: w3 :: w2 :: w1 :: w0 :: h3 :: h2 :: h1 :: h0 :: d :: hdr =>
    some ({
      width := twos 32 (leNat [w0, w1, w2, w3])
      height := twos 32 (leNat [h0, h1, h2, h3])
      chroma_format_idc := c.toNat
      bit_depth := 8 + d.toNat
      fits_width := fits_twos (by decide) _
      fits_height := fits_twos (by decide) _
      chroma_bounds := by have hc := c.toNat_lt; omega
      bit_depth_bounds := by have hd := d.toNat_lt; omega }, hdr)
  | _ => none

theorem toNat_ofInt (x : ℤ) : ((UInt8.ofInt x).toNat : ℤ) = x % 256 := by
  rw [UInt8.ofInt, UInt8.toNat_ofNat']
  omega

/-- A number is its four bytes. -/
theorem twos_leNat_ofInt {x : ℤ} (hx : Fits 32 x) :
    twos 32 (leNat [.ofInt (x >>> (0 : ℕ)), .ofInt (x >>> (8 : ℕ)), .ofInt (x >>> (16 : ℕ)),
      .ofInt (x >>> (24 : ℕ))]) = x := by
  obtain ⟨hlo, hhi⟩ := fits_32.mp hx
  simp only [leNat, Nat.cast_add, Nat.cast_mul, toNat_ofInt, Int.shiftRight_eq_div_pow]
  rw [twos]
  omega

theorem decode_fields (p : Picture) (hdr : List UInt8) : decode (p.fields ++ hdr) = some (p, hdr) := by
  have hchroma : p.chroma_format_idc % 256 = p.chroma_format_idc := by
    have hbounds := p.chroma_bounds
    omega
  have hdepth : 8 + (p.bit_depth - 8) % 256 = p.bit_depth := by
    have hbounds := p.bit_depth_bounds
    omega
  refine congrArg some (Prod.ext ?_ rfl)
  ext
  · exact twos_leNat_ofInt p.fits_width
  · exact twos_leNat_ofInt p.fits_height
  · exact (toNat_ofInt _).trans hchroma
  · exact (congrArg (8 + ·) (toNat_ofInt _)).trans hdepth

/-! ## The unit -/

/-- The output is a header unit for the bytes that were assembled, and these are a header for the
picture. -/
structure Correct (p : Picture) (hdr : List UInt8) (a : Assembled) (out : List UInt8) : Prop where
  length_msps : a.msps.length = 10 + hdr.length
  decodes : decode a.msps = some (p, hdr)
  length_le : (out.length : ℤ) ≤ (buf_len a.msps_len).val
  header : nal_header <+: out
  startCodeFree : StartCodeFree (out.drop 6)
  getLast_ne : (out.drop 6).getLast? ≠ some 0
  unescapes : unescape 0 (out.drop 6) =
    if Odd (zerosAtEnd a.msps) then a.msps ++ [0x80] else a.msps

theorem correct_protect {p : Picture} {hdr : List UInt8} {a : Assembled}
    (hmsps : a.msps = p.fields ++ hdr) (hmsps_len : a.msps_len = 10 + hdr.length)
    (hsmall : 10 + hdr.length ≤ 2 ^ 30 - 4) :
    Correct p hdr a (nal_header ++ protect (p.fields ++ hdr)) := by
  have hlength : (p.fields ++ hdr).length = 10 + hdr.length := by
    rw [List.length_append, length_fields]
  have hdrop : (nal_header ++ protect (p.fields ++ hdr)).drop 6 = protect (p.fields ++ hdr) := rfl
  constructor
  · rw [hmsps, hlength]
  · rw [hmsps]
    exact decode_fields p hdr
  · rw [← hmsps]
    exact length_output_le (by omega) (by omega)
  · exact List.prefix_append _ _
  · rw [hdrop]
    exact startCodeFree_protect _
  · rw [hdrop]
    exact getLast?_protect_ne _
  · rw [hdrop, unescape_protect, stop_eq, hmsps]
    split_ifs
    · rfl
    · exact List.append_nil _

/-- **The header unit.** For a header with a length below `2 ^ 30`, all goes well exactly if the size of
the second buffer is an `int`. -/
theorem build_msps_iff (h : Heap) (p : Picture) {stdin hdr rest : List UInt8} {len : UInt32}
    (hlen : ue7_32 stdin = (len, hdr ++ rest)) (hhdr : hdr.length = len.toNat)
    (h30 : 10 + hdr.length < 2 ^ 30) :
    (∃ a out, assemble h p stdin = some a ∧ build_msps h p stdin = some (out, rest) ∧
      Correct p hdr a out) ↔ 10 + hdr.length ≤ 2 ^ 30 - 4 := by
  constructor
  · rintro ⟨a, out, -, hbuild, -⟩
    by_contra hlarge
    rw [build_msps_of_large h p hlen (by omega)] at hbuild
    exact absurd hbuild (by simp)
  · intro hsmall
    obtain ⟨a, hassemble, hmsps, hmsps_len, -⟩ := assemble_eq h p hlen hhdr (by omega)
    exact ⟨a, _, hassemble, build_msps_eq h p hlen hhdr hsmall,
      correct_protect hmsps hmsps_len hsmall⟩

/-- A picture of one pixel, with 8 bits and 4:2:0 chroma. -/
private def pixel : Picture where
  width := 1
  height := 1
  chroma_format_idc := 1
  bit_depth := 8
  fits_width := by decide
  fits_height := by decide
  chroma_bounds := by decide
  bit_depth_bounds := by decide

/-- A header of two zeros, of which one is left over after the zero before them. -/
theorem build_msps_two : ∃ a out, assemble ⟨fun _ ↦ 7, fun _ ↦ 7⟩ pixel [2, 0, 0, 9] = some a ∧
    build_msps ⟨fun _ ↦ 7, fun _ ↦ 7⟩ pixel [2, 0, 0, 9] = some (out, [9]) ∧
      Correct pixel [0, 0] a out :=
  have hlen : ue7_32 [2, 0, 0, 9] = (2, [0, 0] ++ [9]) := rfl
  (build_msps_iff _ pixel hlen rfl (by norm_num)).mpr (by norm_num)

theorem ue7_32_long (rest : List UInt8) :
    ue7_32 (0x83 :: 0xFF :: 0xFF :: 0xFF :: 0x75 :: rest) = (1073741813, rest) := rfl

/-- A header of `2 ^ 30 - 11` bytes. -/
theorem not_build_msps_long :
    10 + (List.replicate (2 ^ 30 - 11) (0 : UInt8)).length < 2 ^ 30 ∧
      ue7_32 (0x83 :: 0xFF :: 0xFF :: 0xFF :: 0x75 :: List.replicate (2 ^ 30 - 11) 0) =
        (1073741813, List.replicate (2 ^ 30 - 11) 0) ∧
      build_msps ⟨fun _ ↦ 7, fun _ ↦ 7⟩ pixel
        (0x83 :: 0xFF :: 0xFF :: 0xFF :: 0x75 :: List.replicate (2 ^ 30 - 11) 0) = none := by
  have hlength : (List.replicate (2 ^ 30 - 11) (0 : UInt8)).length = 2 ^ 30 - 11 :=
    List.length_replicate
  have hlen := ue7_32_long (List.replicate (2 ^ 30 - 11) 0 ++ [])
  refine ⟨by omega, ue7_32_long _, ?_⟩
  have hnone := build_msps_of_large ⟨fun _ ↦ 7, fun _ ↦ 7⟩ pixel hlen (by decide)
  rwa [List.append_nil] at hnone

end ViTools.Bpg2hevc
