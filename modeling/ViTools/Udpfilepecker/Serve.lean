import ViTools.Lib.Strtol

/-!
# The program udpfilepecker

`serve1` takes one datagram of two numbers, a file descriptor and a value, and writes the value to the
descriptor if that is one of those meant for it.

What it checks are two numbers of type `int`, and these need not be the numbers that were sent. A number
that does not fit in an `int` becomes another one. A datagram of more than 127 bytes is cut, and with it
the second number, if that is where the cut is; one that is cut before the second number is ignored.
-/

namespace ViTools.Udpfilepecker

/-- What `recv` does. -/
inductive Received
  | datagram (bytes : List Char)
  /-- The timeout of the socket expired. -/
  | eagain
  /-- Another error. -/
  | error

/-- A call that `serve1` makes. -/
inductive Action
  /-- `sendto` of an empty datagram. -/
  | sendto
  | write (fd : ℤ) (buf : List Char)
  deriving DecidableEq

/-- What `sscanf` makes of a text, if it finds two numbers. -/
def sscanf (buf : List Char) : Option (ℤ × ℤ) := do
  let (fdnum, buf) ← scan_d buf
  let (val, _) ← scan_d buf
  some (fdnum, val)

def fd_allowed (fdnum : ℤ) : Bool := fdnum = 1 ∨ 3 ≤ fdnum ∧ fdnum ≤ 1000

/-- One round of the server. The last byte of `buf` stays zero, and the text ends at the first zero. -/
def serve1 : Received → List Action
  | .error => []
  | .eagain => [.sendto]
  | .datagram bytes =>
    let buf := (bytes.take 127).takeWhile fun c ↦ c.toNat ≠ 0
    match sscanf buf with
    | none => []
    | some (fdnum, val) =>
      if !fd_allowed fdnum then []
      else
        let buf := print_d val ++ ['\n']
        if buf.length = 0 ∨ 128 < buf.length then []
        else [.write fdnum buf]

/-- Only a timeout is answered. -/
theorem sendto_notMem_serve1 (bytes : List Char) : .sendto ∉ serve1 (.datagram bytes) := by
  rw [serve1]
  dsimp only
  split
  · exact List.not_mem_nil
  · split
    · exact List.not_mem_nil
    · split
      · exact List.not_mem_nil
      · intro h
        cases List.mem_singleton.mp h

/-! ## Datagrams of two numbers -/

/-- Two numbers with white space before, between and after them. -/
structure Message where
  lead : List Char
  x : Spelling
  sep : List Char
  y : Spelling
  tail : List Char
  isspace_lead : ∀ c ∈ lead, isspace c
  isspace_sep : ∀ c ∈ sep, isspace c
  isspace_tail : ∀ c ∈ tail, isspace c
  sep_ne_nil : sep ≠ []

namespace Message

variable (m : Message)

def text : List Char := m.lead ++ (m.x.text ++ (m.sep ++ (m.y.text ++ m.tail)))

/-- Where the digits of the second number start. -/
def digits_start : ℕ := m.lead.length + m.x.text.length + m.sep.length + m.y.sign.text.length

/-- Where they end. -/
def digits_end : ℕ := m.digits_start + m.y.digits.length

/-- What the second number is read as, if the text is cut after `n` bytes. -/
def cut_y (n : ℕ) : ℤ := m.y.sign.apply (Nat.ofDigitChars 10 (m.y.digits.take (n - m.digits_start)) 0)

end Message

/-- A part of a sign is a sign. -/
theorem exists_take_text (sign : Sign) (k : ℕ) :
    ∃ sign' : Sign, sign.text.take k = sign'.text ∧ (sign.text.length ≤ k → sign' = sign) := by
  cases k with
  | zero =>
    refine ⟨.none, List.take_zero, fun h ↦ ?_⟩
    cases sign with
    | none => rfl
    | plus => exact absurd h (by decide)
    | minus => exact absurd h (by decide)
  | succ k =>
    refine ⟨sign, List.take_of_length_le ?_, fun _ ↦ rfl⟩
    cases sign with
    | none => exact Nat.zero_le _
    | plus => exact Nat.succ_le_succ (Nat.zero_le k)
    | minus => exact Nat.succ_le_succ (Nat.zero_le k)

/-- What follows the first number is not a digit. -/
theorem head_not_isDigit {sep digits tail : List Char} (sign : Sign) (hsep : ∀ c ∈ sep, isspace c)
    (hnil : sep = [] → digits = [] ∧ tail = []) :
    ∀ c ∈ (sep ++ (sign.text ++ (digits ++ tail))).head?, c.isDigit = false := by
  intro c hc
  cases sep with
  | nil =>
    obtain ⟨rfl, rfl⟩ := hnil rfl
    cases sign with
    | none => cases hc
    | plus =>
      cases hc
      rfl
    | minus =>
      cases hc
      rfl
  | cons d sep =>
    cases hc
    refine Bool.eq_false_iff.mpr fun hdigit ↦ ?_
    have hblank := hsep c List.mem_cons_self
    rw [isspace_of_isDigit hdigit] at hblank
    exact Bool.false_ne_true hblank

/-- Two numbers, or what is left of them: nothing follows where something is missing. -/
theorem sscanf_append {lead dx sep dy tail : List Char} (sx sy : Sign)
    (hlead : ∀ c ∈ lead, isspace c) (hdx : ∀ c ∈ dx, c.isDigit) (hsep : ∀ c ∈ sep, isspace c)
    (hdy : ∀ c ∈ dy, c.isDigit) (htail : ∀ c ∈ tail, isspace c)
    (hdx_nil : dx = [] → sep = [] ∧ sy.text = []) (hsep_nil : sep = [] → dy = [])
    (hdy_nil : dy = [] → tail = []) :
    sscanf (lead ++ (sx.text ++ (dx ++ (sep ++ (sy.text ++ (dy ++ tail)))))) =
      if dy = [] then none
      else some (narrow (sx.apply (Nat.ofDigitChars 10 dx 0)),
        narrow (sy.apply (Nat.ofDigitChars 10 dy 0))) := by
  have hfirst : scan_number (lead ++ (sx.text ++ (dx ++ (sep ++ (sy.text ++ (dy ++ tail)))))) = _ :=
    scan_number_append hlead sx hdx
    (head_not_isDigit sy hsep fun h ↦ ⟨hsep_nil h, hdy_nil (hsep_nil h)⟩) (by
      intro h
      obtain ⟨hs, hsy⟩ := hdx_nil h
      rw [hs, hsy, hsep_nil hs, hdy_nil (hsep_nil hs)]
      rfl)
  have hblank : ∀ c ∈ tail.head?, c.isDigit = false := by
    intro c hc
    have hspace := htail c (List.mem_of_mem_head? hc)
    exact Bool.eq_false_iff.mpr fun hdigit ↦ by simp [isspace_of_isDigit hdigit] at hspace
  have hsecond := scan_number_append hsep sy hdy hblank hdy_nil
  rw [sscanf, scan_d, hfirst]
  by_cases hx : dx = []
  · rw [if_pos hx, if_pos (hsep_nil (hdx_nil hx).1)]
    rfl
  · rw [if_neg hx, Option.map_some, Option.bind_eq_bind, Option.bind_some]
    dsimp only
    rw [scan_d, hsecond]
    split
    · rfl
    · rfl

theorem take_sub_eq_nil_iff {α : Type*} {l : List α} (hl : l ≠ []) {n k : ℕ} :
    l.take (n - k) = [] ↔ n ≤ k := by
  rw [List.take_eq_nil_iff, or_iff_left hl, Nat.sub_eq_zero_iff_le]

/-- The parts of a text that is cut after `n` bytes. -/
theorem Message.take_text (m : Message) (n : ℕ) :
    m.text.take n = m.lead.take n ++ (m.x.sign.text.take (n - m.lead.length) ++
      (m.x.digits.take (n - (m.lead.length + m.x.sign.text.length)) ++
        (m.sep.take (n - (m.lead.length + m.x.text.length)) ++
          (m.y.sign.text.take (n - (m.lead.length + m.x.text.length + m.sep.length)) ++
            (m.y.digits.take (n - m.digits_start) ++ m.tail.take (n - m.digits_end)))))) := by
  simp only [text, digits_start, digits_end, Spelling.text, List.append_assoc, List.take_append,
    List.length_append, Nat.sub_sub, Nat.add_assoc]

/-- **A text that is cut** has two numbers if a digit of the second one is left. -/
theorem sscanf_take (m : Message) (n : ℕ) :
    sscanf (m.text.take n) =
      if n ≤ m.digits_start then none else some (narrow m.x.value, narrow (m.cut_y n)) := by
  have hx : m.x.text.length = m.x.sign.text.length + m.x.digits.length := List.length_append
  have hstart : m.digits_start =
    m.lead.length + m.x.text.length + m.sep.length + m.y.sign.text.length := rfl
  have hend : m.digits_end = m.digits_start + m.y.digits.length := rfl
  obtain ⟨sx, hsx, hsx_eq⟩ := exists_take_text m.x.sign (n - m.lead.length)
  obtain ⟨sy, hsy, hsy_eq⟩ :=
    exists_take_text m.y.sign (n - (m.lead.length + m.x.text.length + m.sep.length))
  rw [m.take_text, hsx, hsy, sscanf_append sx sy (fun c hc ↦ m.isspace_lead c (List.mem_of_mem_take hc))
    (fun c hc ↦ m.x.isDigit c (List.mem_of_mem_take hc))
    (fun c hc ↦ m.isspace_sep c (List.mem_of_mem_take hc))
    (fun c hc ↦ m.y.isDigit c (List.mem_of_mem_take hc))
    (fun c hc ↦ m.isspace_tail c (List.mem_of_mem_take hc))]
  · simp only [take_sub_eq_nil_iff m.y.ne_nil]
    by_cases hcut : n ≤ m.digits_start
    · rw [if_pos hcut, if_pos hcut]
    · -- the first number and the sign of the second one are whole
      rw [if_neg hcut, if_neg hcut, hsx_eq (by omega), hsy_eq (by omega),
        List.take_of_length_le (by omega)]
      rfl
  · rw [take_sub_eq_nil_iff m.x.ne_nil, take_sub_eq_nil_iff m.sep_ne_nil, ← hsy]
    intro hle
    exact ⟨by omega, by rw [Nat.sub_eq_zero_of_le (by omega), List.take_zero]⟩
  · rw [take_sub_eq_nil_iff m.sep_ne_nil, take_sub_eq_nil_iff m.y.ne_nil]
    omega
  · rw [take_sub_eq_nil_iff m.y.ne_nil]
    intro hle
    rw [Nat.sub_eq_zero_of_le (by omega), List.take_zero]

/-- A text of numbers has no zero byte. -/
theorem Message.toNat_ne_zero (m : Message) : ∀ c ∈ m.text, c.toNat ≠ 0 := by
  have hblank : ∀ c : Char, isspace c → c.toNat ≠ 0 := by
    intro c hc
    rw [isspace, decide_eq_true_eq] at hc
    omega
  have hdigit : ∀ c : Char, c.isDigit → c.toNat ≠ 0 := by
    intro c hc
    have hzero : '0'.toNat = 48 := rfl
    have hcode := (Char.isDigit_iff_toNat.mp hc).1
    omega
  have hsign : ∀ (sign : Sign), ∀ c ∈ sign.text, c.toNat ≠ 0 := by
    intro sign
    cases sign with
    | none => exact List.forall_mem_nil _
    | plus => exact List.forall_mem_singleton.mpr (by decide)
    | minus => exact List.forall_mem_singleton.mpr (by decide)
  have hnumber : ∀ s : Spelling, ∀ c ∈ s.text, c.toNat ≠ 0 := fun s ↦
    List.forall_mem_append.mpr ⟨hsign s.sign, fun c hc ↦ hdigit c (s.isDigit c hc)⟩
  simp only [text, List.forall_mem_append]
  exact ⟨fun c hc ↦ hblank c (m.isspace_lead c hc), hnumber m.x,
    fun c hc ↦ hblank c (m.isspace_sep c hc), hnumber m.y, fun c hc ↦ hblank c (m.isspace_tail c hc)⟩

/-- **What the server does with two numbers.** -/
theorem serve1_text (m : Message) :
    serve1 (.datagram m.text) =
      if 127 ≤ m.digits_start ∨ fd_allowed (narrow m.x.value) = false then []
      else [.write (narrow m.x.value) (print_d (narrow (m.cut_y 127)) ++ ['\n'])] := by
  -- no byte of the text is zero, so it ends where the buffer does
  have hall : (m.text.take 127).takeWhile (fun c ↦ c.toNat ≠ 0) = m.text.take 127 := by
    rw [List.takeWhile_eq_self_iff]
    intro c hc
    exact decide_eq_true (m.toNat_ne_zero c (List.mem_of_mem_take hc))
  have hlen := length_print_d_le (x := narrow (m.cut_y 127)) (fits_twos (by decide) _)
  rw [serve1]
  dsimp only
  rw [hall, sscanf_take]
  by_cases hcut : 127 ≤ m.digits_start
  · rw [if_pos hcut, if_pos (.inl hcut)]
  · rw [if_neg hcut]
    dsimp only
    cases hallowed : fd_allowed (narrow m.x.value) with
    | false => rw [Bool.not_false, if_pos rfl, if_pos (.inr rfl)]
    | true =>
      have hroom : ¬((print_d (narrow (m.cut_y 127)) ++ ['\n']).length = 0 ∨
          128 < (print_d (narrow (m.cut_y 127)) ++ ['\n']).length) := by
        rw [List.length_append, List.length_singleton]
        omega
      rw [Bool.not_true, if_neg Bool.false_ne_true, if_neg hroom,
        if_neg (not_or.mpr ⟨hcut, Bool.noConfusion⟩)]

/-! ## The numbers that are meant -/

theorem Message.cut_y_of_le (m : Message) {n : ℕ} (h : m.digits_end ≤ n) : m.cut_y n = m.y.value := by
  have hend : m.digits_end = m.digits_start + m.y.digits.length := rfl
  rw [cut_y, List.take_of_length_le (by omega)]
  rfl

/-- A number that is cut is at most a tenth of what was sent. -/
theorem Message.ten_mul_natAbs_cut_y_le (m : Message) {n : ℕ} (h : n < m.digits_end) :
    10 * (m.cut_y n).natAbs ≤ m.y.value.natAbs := by
  have hend : m.digits_end = m.digits_start + m.y.digits.length := rfl
  set front := m.y.digits.take (n - m.digits_start)
  set back := m.y.digits.drop (n - m.digits_start) with hback
  have hback_pos : 0 < back.length := by
    rw [hback, List.length_drop]
    have hdigits := List.length_pos_iff.mpr m.y.ne_nil
    omega
  have hnumber : Nat.ofDigitChars 10 m.y.digits 0 =
      10 ^ back.length * Nat.ofDigitChars 10 front 0 + Nat.ofDigitChars 10 back 0 := by
    rw [← List.take_append_drop (n - m.digits_start) m.y.digits, Nat.ofDigitChars_append,
      Nat.ofDigitChars_eq_ofDigitChars_zero]
  have hcut : (m.cut_y n).natAbs = Nat.ofDigitChars 10 front 0 := m.y.sign.natAbs_apply _
  calc 10 * (m.cut_y n).natAbs
      ≤ 10 ^ back.length * (m.cut_y n).natAbs := Nat.mul_le_mul_right _ (Nat.le_self_pow hback_pos.ne' 10)
    _ ≤ 10 ^ back.length * (m.cut_y n).natAbs + Nat.ofDigitChars 10 back 0 := Nat.le_add_right _ _
    _ = m.y.value.natAbs := by rw [hcut, ← hnumber, m.y.natAbs_value]

/-- A number that is cut is another number, unless it is zero. -/
theorem narrow_cut_y_iff (m : Message) {n : ℕ} :
    narrow (m.cut_y n) = m.y.value ↔ Fits 32 m.y.value ∧ (m.digits_end ≤ n ∨ m.y.value = 0) := by
  by_cases hwhole : m.digits_end ≤ n
  · rw [m.cut_y_of_le hwhole, narrow_eq_self_iff]
    exact (and_iff_left (.inl hwhole)).symm
  have hten := m.ten_mul_natAbs_cut_y_le (not_le.mp hwhole)
  constructor
  · intro h
    have hfits : Fits 32 m.y.value := h ▸ fits_twos (by decide) _
    obtain ⟨hlo, hhi⟩ := fits_32.mp hfits
    -- what is left fits too, so it is the number itself
    have hcut : m.cut_y n = m.y.value := by
      rw [← h, narrow_eq_self_iff.mpr (fits_32.mpr ⟨by omega, by omega⟩)]
    rw [hcut] at hten
    exact ⟨hfits, .inr (by omega)⟩
  · rintro ⟨-, hend | hzero⟩
    · exact absurd hend hwhole
    · have hcut : m.cut_y n = 0 := by omega
      rw [hcut, hzero]
      rfl

/-- **Written as it was sent, or not at all.** A message of two numbers has this effect exactly if nothing
is written, or both numbers fit in an `int` and the second one is not cut, unless it is zero. -/
theorem serve1_iff (m : Message) :
    ((serve1 (.datagram m.text)).length ≤ 1 ∧ ∀ a ∈ serve1 (.datagram m.text),
      (m.x.value = 1 ∨ 3 ≤ m.x.value ∧ m.x.value ≤ 1000) ∧
        a = .write m.x.value (print_d m.y.value ++ ['\n'])) ↔
      127 ≤ m.digits_start ∨ fd_allowed (narrow m.x.value) = false ∨
        (Fits 32 m.x.value ∧ Fits 32 m.y.value ∧ (m.digits_end ≤ 127 ∨ m.y.value = 0)) := by
  rw [serve1_text, ← or_assoc]
  split
  · next hnone => exact iff_of_true ⟨Nat.zero_le 1, List.forall_mem_nil _⟩ (.inl hnone)
  · next hsome =>
    rw [or_iff_right hsome]
    obtain ⟨hstart, hallowed⟩ := not_or.mp hsome
    rw [← narrow_eq_self_iff, ← narrow_cut_y_iff m, List.forall_mem_singleton,
      List.length_singleton]
    constructor
    · rintro ⟨-, -, hwrite⟩
      obtain ⟨hx, hy⟩ := Action.write.inj hwrite
      exact ⟨hx, print_d_injective (List.append_cancel_right hy)⟩
    · rintro ⟨hx, hy⟩
      rw [hx, hy]
      rw [hx, Bool.not_eq_false, fd_allowed, decide_eq_true_eq] at hallowed
      exact ⟨le_refl 1, hallowed, rfl⟩

/-- The numbers `2 ^ 32 + 1` and 7. -/
private def wrapped : Message where
  lead := []
  x := .canonical 4294967297
  sep := [' ']
  y := .canonical 7
  tail := []
  isspace_lead := List.forall_mem_nil _
  isspace_sep := List.forall_mem_singleton.mpr rfl
  isspace_tail := List.forall_mem_nil _
  sep_ne_nil := List.cons_ne_nil _ _

/-- The first number is read as 1, and 7 is written to the standard output. -/
theorem not_serve1_wrapped : wrapped.text = "4294967297 7".toList ∧
    serve1 (.datagram "4294967297 7".toList) = [.write 1 "7\n".toList] ∧
    ¬∀ a ∈ serve1 (.datagram wrapped.text),
      (wrapped.x.value = 1 ∨ 3 ≤ wrapped.x.value ∧ wrapped.x.value ≤ 1000) ∧
        a = .write wrapped.x.value (print_d wrapped.y.value ++ ['\n']) := by
  have htext : wrapped.text = "4294967297 7".toList := by decide +kernel
  have hserve : serve1 (.datagram "4294967297 7".toList) = [.write 1 "7\n".toList] := by decide +kernel
  have hx : wrapped.x.value = 4294967297 := Spelling.value_canonical _
  refine ⟨htext, hserve, ?_⟩
  rw [htext, hserve, hx]
  intro h
  have hrange := (h _ (List.mem_singleton_self _)).1
  omega

end ViTools.Udpfilepecker
