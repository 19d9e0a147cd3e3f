import ViTools.Bpg2hevc.Fields
import ViTools.Lib.Bytes

/-!
# The program bpg2hevc

`main` reads the start of a file, decodes six bytes and three numbers, has the header unit built and
copies the rest. What it prints to `stderr` is left out, and with it the flags of the sixth byte that are
only printed.

An input can go wrong in many places: it can end in any of the fields or in the header, and a number can
be too long or too large. None of the reads says so. All the program looks at is the signature and the two
flags for an alpha channel, and these decide alone whether it refuses an input.
-/

namespace ViTools.Bpg2hevc

/-- The exit code, and what was written to `stdout`. -/
structure Exit where
  code : ℕ
  stdout : List UInt8
  deriving DecidableEq

/-- The characters `BPG`, and a byte that is none. -/
def signature : List UInt8 := [0x42, 0x50, 0x47, 0xFB]

/-- `fread` of `n` bytes to the start of `buf`, which keeps what it has where the input ends. -/
def fread (buf : List UInt8) (n : ℕ) (stdin : List UInt8) : List UInt8 × List UInt8 :=
  (stdin.take n ++ buf.drop (stdin.take n).length, stdin.drop n)

/-- What `main` passes to `build_msps`, from a byte and two unsigned numbers. -/
def picture (b : UInt8) (width height : UInt32) : Picture where
  width := twos 32 width.toNat
  height := twos 32 height.toNat
  chroma_format_idc := ((b &&& 0xE0) >>> 5).toNat
  bit_depth := 8 + (b &&& 0x0F).toNat
  fits_width := fits_twos (by decide) _
  fits_height := fits_twos (by decide) _
  chroma_bounds := by have hlt := ((b &&& 0xE0) >>> 5).toNat_lt; omega
  bit_depth_bounds := by have hlt := (b &&& 0x0F).toNat_lt; omega

/-- `main`. There is no exit with 4: `build_msps` leaves no null pointer when it returns. -/
def main (argc : ℕ) (h : Heap) (stdin : List UInt8) : Option Exit :=
  if argc ≠ 1 then some ⟨1, []⟩
  else
    let (buf, stdin) := fread [0, 0, 0, 0] 4 stdin
    if buf ≠ signature then some ⟨2, []⟩
    else
      let (buf, stdin) := fread buf 2 stdin
      let alpha1 := buf.getD 0 0 &&& 0x10 ≠ 0
      let alpha2 := buf.getD 1 0 &&& 0x04 ≠ 0
      let (width, stdin) := ue7_32 stdin
      let (height, stdin) := ue7_32 stdin
      let (_datalen, stdin) := ue7_32 stdin
      if alpha1 ∨ alpha2 then some ⟨3, []⟩
      else do
        let (spsbuf, stdin) ← build_msps h (picture (buf.getD 0 0) width height) stdin
        some ⟨0, spsbuf ++ [0x00, 0x00, 0x00, 0x01] ++ stdin⟩

/-! ## The format -/

/-- The input `s` starts with the fields of some numbers of 32 bits. -/
def Fields : List ℕ → List UInt8 → List UInt8 → Prop
  | [], s, rest => s = rest
  | n :: ns, s, rest => ∃ bytes s', s = bytes ++ s' ∧ Encodes bytes n ∧ n < 2 ^ 32 ∧ Fields ns s' rest

/-- What comes next is not the field of a number of 32 bits. -/
inductive BadField (s : List UInt8) : Prop
  /-- The input ends in the field. -/
  | truncated : s.length < 5 → (∀ c ∈ s, 0x80 ≤ c) → BadField s
  /-- The top bit is set on all of five bytes. -/
  | overlong : 5 ≤ s.length → (∀ c ∈ s.take 5, 0x80 ≤ c) → BadField s
  /-- The number is too large. -/
  | overflow {bytes rest : List UInt8} {n : ℕ} : s = bytes ++ rest → Encodes bytes n → 2 ^ 32 ≤ n →
    BadField s

/-- What can be wrong with an input after its first four bytes: the width, the height, the two lengths and
the header of the latter length. -/
inductive Malformed (stdin : List UInt8) : Prop
  /-- The input ends in the fixed part. -/
  | fixed : stdin.length < 6 → Malformed stdin
  /-- One of the four numbers is bad. -/
  | field {ns : List ℕ} {rest : List UInt8} : 6 ≤ stdin.length → Fields ns (stdin.drop 6) rest →
    ns.length < 4 → BadField rest → Malformed stdin
  /-- The input ends in the header. -/
  | header {width height datalen len : ℕ} {rest : List UInt8} : 6 ≤ stdin.length →
    Fields [width, height, datalen, len] (stdin.drop 6) rest → rest.length < len → Malformed stdin

/-- All parts are there. -/
def WellFormed (stdin : List UInt8) : Prop :=
  6 ≤ stdin.length ∧ ∃ width height datalen len rest,
    Fields [width, height, datalen, len] (stdin.drop 6) rest ∧ len ≤ rest.length

section Format

variable {s rest rest' stdin : List UInt8} {ns : List ℕ}

/-- A field is there or it is bad. -/
theorem encodes_or_badField (s : List UInt8) :
    (∃ bytes rest n, s = bytes ++ rest ∧ Encodes bytes n ∧ n < 2 ^ 32) ∨ BadField s := by
  rcases exists_isField_append s with ⟨bytes, rest, rfl, hfield⟩ | hall
  · rcases Nat.lt_or_ge 5 bytes.length with hlong | hshort
    -- a field of more than five bytes, which is not read to its end
    · refine .inr (.overlong (by rw [List.length_append]; omega) ?_)
      rw [List.take_append_of_le_length hlong.le]
      exact hfield.forall_mem_take hlong
    · rcases Nat.lt_or_ge (groups bytes) (2 ^ 32) with hlt | hge
      · exact .inl ⟨bytes, rest, _, rfl, ⟨hfield, hshort, rfl⟩, hlt⟩
      · exact .inr (.overflow rfl ⟨hfield, hshort, rfl⟩ hge)
  · rcases Nat.lt_or_ge s.length 5 with hshort | hlong
    · exact .inr (.truncated hshort hall)
    · exact .inr (.overlong hlong fun c hc ↦ hall c (List.mem_of_mem_take hc))

/-- It is not both. -/
theorem not_badField {bytes : List UInt8} {n : ℕ} (h : Encodes bytes n) (hn : n < 2 ^ 32) :
    ¬BadField (bytes ++ rest) := by
  obtain ⟨c, hc, hlast⟩ := h.isField.exists_lt
  rintro (⟨-, hall⟩ | ⟨-, hall⟩ | ⟨heq, h', hge⟩)
  · exact UInt8.not_lt.mpr (hall c (List.mem_append_left _ hc)) hlast
  · rw [List.take_append, List.take_of_length_le h.length_le] at hall
    exact UInt8.not_lt.mpr (hall c (List.mem_append_left _ hc)) hlast
  · obtain ⟨rfl, -⟩ := h.isField.append_inj h'.isField heq
    rw [← h.groups_eq, h'.groups_eq] at hn
    omega

/-- Some numbers are there, or one of them is bad. -/
theorem fields_or_badField (k : ℕ) (s : List UInt8) :
    (∃ ns rest, ns.length = k ∧ Fields ns s rest) ∨
      ∃ ns rest, ns.length < k ∧ Fields ns s rest ∧ BadField rest := by
  induction k generalizing s with
  | zero => exact .inl ⟨[], s, rfl, rfl⟩
  | succ k ih =>
    rcases encodes_or_badField s with ⟨bytes, s', n, heq, henc, hn⟩ | hbad
    · rcases ih s' with ⟨ns, rest, hlen, hfields⟩ | ⟨ns, rest, hlen, hfields, hbad⟩
      · exact .inl ⟨n :: ns, rest, congrArg (· + 1) hlen, bytes, s', heq, henc, hn, hfields⟩
      · exact .inr ⟨n :: ns, rest, Nat.succ_lt_succ hlen, ⟨bytes, s', heq, henc, hn, hfields⟩, hbad⟩
    · exact .inr ⟨[], s, Nat.succ_pos k, rfl, hbad⟩

/-- Where numbers are there, none of them is bad, and they can be told in one way only. -/
theorem Fields.unique {ns' : List ℕ} (h : Fields ns s rest) (h' : Fields ns' s rest') :
    (ns'.length = ns.length → ns' = ns ∧ rest' = rest) ∧
      (ns'.length < ns.length → ¬BadField rest') := by
  induction ns generalizing s ns' with
  | nil =>
    cases ns' with
    | nil => exact ⟨fun _ ↦ ⟨rfl, h'.symm.trans h⟩, fun hlt ↦ absurd hlt (Nat.lt_irrefl 0)⟩
    | cons n' ns' =>
      exact ⟨fun hlen ↦ absurd hlen (Nat.succ_ne_zero _), fun hlt ↦ absurd hlt (Nat.not_lt_zero _)⟩
  | cons n ns ih =>
    obtain ⟨bytes, t, rfl, henc, hn, h⟩ := h
    cases ns' with
    | nil =>
      refine ⟨fun hlen ↦ absurd hlen.symm (Nat.succ_ne_zero _), fun _ ↦ ?_⟩
      obtain rfl : bytes ++ t = rest' := h'
      exact not_badField henc hn
    | cons n' ns' =>
      obtain ⟨bytes', t', heq, henc', hn', h'⟩ := h'
      -- a field ends by itself, so both inputs start with the same one
      obtain ⟨rfl, rfl⟩ := henc.isField.append_inj henc'.isField heq
      obtain ⟨hsame, hbad⟩ := ih h h'
      refine ⟨fun hlen ↦ ?_, fun hlt ↦ hbad (Nat.lt_of_succ_lt_succ hlt)⟩
      obtain ⟨rfl, rfl⟩ := hsame (Nat.succ.inj hlen)
      exact ⟨by rw [← henc.groups_eq, henc'.groups_eq], rfl⟩

/-- **An input is well formed or something is wrong with it.** -/
theorem malformed_iff_not_wellFormed : Malformed stdin ↔ ¬WellFormed stdin := by
  constructor
  · rintro (hshort | ⟨-, hfields, hlen, hbad⟩ | ⟨-, hfields, hlen⟩) ⟨hsix, w, h, d, l, rest, hall, hle⟩
    · exact absurd hsix (Nat.not_le.mpr hshort)
    · exact (hall.unique hfields).2 hlen hbad
    · obtain ⟨heq, rfl⟩ := (hall.unique hfields).1 rfl
      rw [List.cons.injEq, List.cons.injEq, List.cons.injEq, List.cons.injEq] at heq
      omega
  · intro hnot
    rcases Nat.lt_or_ge stdin.length 6 with hshort | hsix
    · exact .fixed hshort
    · rcases fields_or_badField 4 (stdin.drop 6) with ⟨ns, rest, hlen, hfields⟩ | ⟨ns, rest, hlen, hfields, hbad⟩
      · match ns, hlen with
        | [w, h, d, l], _ =>
          refine .header hsix hfields (Nat.lt_of_not_le fun hle ↦ ?_)
          exact hnot ⟨hsix, w, h, d, l, rest, hfields, hle⟩
      · exact .field hsix hfields hlen hbad

end Format

/-! ## What is refused -/

/-- The program fails and writes nothing. -/
def Refuses (argc : ℕ) (h : Heap) (stdin : List UInt8) : Prop :=
  ∃ code, main argc h stdin = some ⟨code, []⟩ ∧ code ≠ 0

/-- The signature is wrong, or there is a flag for an alpha channel. -/
def TurnedDown (stdin : List UInt8) : Prop :=
  ¬signature <+: stdin ∨ (∃ c ∈ stdin[4]?, c &&& 0x10 ≠ 0) ∨ ∃ c ∈ stdin[5]?, c &&& 0x04 ≠ 0

/-- The array has the signature exactly if the input does. -/
theorem fread_eq_signature_iff (stdin : List UInt8) :
    (fread [0, 0, 0, 0] 4 stdin).1 = signature ↔ signature <+: stdin := by
  rcases stdin with _ | ⟨a, _ | ⟨b, _ | ⟨c, _ | ⟨d, s⟩⟩⟩⟩
  · decide
  · simp [fread, signature]
  · simp [fread, signature]
  · simp [fread, signature]
  · simp [fread, signature, eq_comm]

/-- The two bytes after the signature, or what the array has in their place. -/
theorem alpha_iff (s : List UInt8) :
    ((fread signature 2 s).1.getD 0 0 &&& 0x10 ≠ 0 ∨ (fread signature 2 s).1.getD 1 0 &&& 0x04 ≠ 0) ↔
      (∃ c ∈ (signature ++ s)[4]?, c &&& 0x10 ≠ 0) ∨ ∃ c ∈ (signature ++ s)[5]?, c &&& 0x04 ≠ 0 := by
  have hB : (0x42 : UInt8) &&& 0x10 = 0 := rfl
  have hP : (0x50 : UInt8) &&& 0x04 = 0 := rfl
  rcases s with _ | ⟨e, _ | ⟨f, s⟩⟩
  · simp [fread, signature, hB, hP]
  · simp [fread, signature, hP]
  · simp [fread, signature]

/-- A run that gets to the header unit does not fail with an exit code. -/
theorem not_refuses_of_build (h : Heap) (p : Picture) (s : List UInt8) :
    ¬∃ code, ((build_msps h p s).bind fun y ↦ some (Exit.mk 0 (y.1 ++ [0x00, 0x00, 0x00, 0x01] ++ y.2)))
      = some ⟨code, []⟩ ∧ code ≠ 0 := by
  rintro ⟨code, hrun, hcode⟩
  obtain ⟨y, -, hexit⟩ := Option.bind_eq_some_iff.mp hrun
  exact hcode (Exit.mk.inj (Option.some.inj hexit)).1.symm

/-- What the program looks at. -/
theorem refuses_iff (argc : ℕ) (h : Heap) (stdin : List UInt8) :
    Refuses argc h stdin ↔ argc ≠ 1 ∨ TurnedDown stdin := by
  rw [Refuses, main]
  by_cases hargc : argc ≠ 1
  · rw [if_pos hargc]
    exact iff_of_true ⟨1, rfl, Nat.one_ne_zero⟩ (.inl hargc)
  rw [if_neg hargc, or_iff_right hargc, TurnedDown]
  dsimp only
  by_cases hsig : signature <+: stdin
  · obtain ⟨s, rfl⟩ := hsig
    rw [if_neg (not_not.mpr ((fread_eq_signature_iff _).mpr (List.prefix_append _ _))),
      (fread_eq_signature_iff _).mpr (List.prefix_append _ _),
      or_iff_right (not_not.mpr (List.prefix_append _ _)), ← alpha_iff]
    have hdrop : (fread [0, 0, 0, 0] 4 (signature ++ s)).2 = s := rfl
    rw [hdrop]
    split
    · next halpha => exact iff_of_true ⟨3, rfl, by decide⟩ halpha
    · next halpha => exact iff_of_false (not_refuses_of_build h _ _) halpha
  · rw [if_pos (mt (fread_eq_signature_iff stdin).mp hsig)]
    exact iff_of_true ⟨2, rfl, by decide⟩ (.inl hsig)

/-- **Malformed inputs** are refused exactly if they would be anyway: for a wrong signature or a flag for an
alpha channel, as far as the input goes. -/
theorem malformed_refused_iff (argc : ℕ) (h : Heap) (stdin : List UInt8) :
    (Malformed stdin → Refuses argc h stdin) ↔ (Malformed stdin → argc ≠ 1 ∨ TurnedDown stdin) :=
  forall_congr' fun _ ↦ refuses_iff argc h stdin

/-- An input that ends before its first number: a picture without pixels is written. -/
theorem not_malformed_refused : Malformed [0x42, 0x50, 0x47, 0xFB, 0x20, 0x00] ∧
    main 1 ⟨fun _ ↦ 7, fun _ ↦ 7⟩ [0x42, 0x50, 0x47, 0xFB, 0x20, 0x00] =
      some ⟨0, [0, 0, 0, 1, 0x60, 1, 1, 0, 0, 3, 0, 0, 3, 0, 0, 3, 0, 0, 3, 0, 0x80, 0, 0, 0, 1]⟩ ∧
    ¬Refuses 1 ⟨fun _ ↦ 7, fun _ ↦ 7⟩ [0x42, 0x50, 0x47, 0xFB, 0x20, 0x00] := by
  have hmain : main 1 ⟨fun _ ↦ 7, fun _ ↦ 7⟩ [0x42, 0x50, 0x47, 0xFB, 0x20, 0x00] =
      some ⟨0, [0, 0, 0, 1, 0x60, 1, 1, 0, 0, 3, 0, 0, 3, 0, 0, 3, 0, 0, 3, 0, 0x80, 0, 0, 0, 1]⟩ := by
    decide +kernel
  have hfields : Fields [] [] [] := rfl
  refine ⟨.field (le_refl 6) hfields (by decide) (.truncated (by decide) ?_), hmain, ?_⟩
  · exact List.forall_mem_nil _
  · rintro ⟨code, hrun, hcode⟩
    rw [hmain] at hrun
    exact hcode (Exit.mk.inj (Option.some.inj hrun)).1.symm

end ViTools.Bpg2hevc
