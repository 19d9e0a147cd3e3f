import ViTools.UdpTsSeqReply.Probe

/-!
# What `main` checks before it starts a probe

The rate, the packet size and the overhead of a probe come from `atoi`, so they are any three `int`
values. `main` checks them one by one and then checks the time between two packets, which it computes
in `int`; the same expression is evaluated again for the receive timeout and in `probe`.

The checks leave three gaps. The product `(packet_size + overhead) * 8000` can overflow; the time
between two packets can be zero or negative, as there is only an upper bound for it; and a reply is 22
bytes longer than its packet, which the largest packets leave no room for. These are all the gaps:
outside them a probe is `Sound`.
-/

namespace ViTools.UdpTsSeqReply

/-- The arguments of a probe, three values of type `int`. -/
structure Args where
  /-- The rate in kilobits per second. -/
  kbps : ℤ
  /-- The size of a packet after the warmup. -/
  packet_size : ℤ
  /-- What the network adds to a packet. -/
  overhead : ℤ
  /-- The rate is an `int`. -/
  kbps_int : Fits 32 kbps := by decide
  /-- The size is an `int`. -/
  packet_size_int : Fits 32 packet_size := by decide
  /-- The overhead is an `int`. -/
  overhead_int : Fits 32 overhead := by decide

namespace Args

/-- The time between two packets in microseconds, for the check in `main`. -/
def delay_us (a : Args) : CInt 32 :=
  (.lit a.packet_size + .lit a.overhead) * .lit 8000 / .lit a.kbps

/-- The same for the receive timeout. -/
def timeout_us (a : Args) : CInt 32 := a.delay_us * .lit 1

/-- The time between two packets in nanoseconds, in `probe`. -/
def delay_ns (a : Args) : CInt 32 := a.delay_us * .lit 1000

/-- The checks of `main`, with the text it prints if one fails. -/
def validate (a : Args) : Except String Unit :=
  if a.packet_size < 24 then .error "Minimal packet_size is 24\n"
  else if 65536 < a.packet_size then .error "Maximla packet_size is 65536\n"
  else if a.kbps < 1 then .error "kbps too low"
  else if 1000000 < a.delay_us.val then .error "Packets would be sent too rarely\n"
  else .ok ()

/-- How many packets `probe` sends as short ones; a division by zero ends the program. -/
def packets_in_first_5_seconds (a : Args) : Option ℕ :=
  if a.delay_ns.val = 0 then none
  else some (toU32 ((1000 * 1000 * 1000 : ℤ).tdiv a.delay_ns.val * 5))

/-- The probe sends a packet of this length. -/
def Sends (a : Args) (len : ℤ) : Prop :=
  ∃ n, a.packets_in_first_5_seconds = some n ∧ ∃ seq_ < 2 ^ 32,
    len = if seq_ < n then 24 else a.packet_size

/-- What `main` takes for granted when it starts a probe. -/
structure Sound (a : Args) : Prop where
  /-- The check does not overflow. -/
  main_defined : a.delay_us.defined = true
  /-- The timeout does not overflow. -/
  timeout_defined : a.timeout_us.defined = true
  /-- The delay of `probe` does not overflow. -/
  probe_defined : a.delay_ns.defined = true
  /-- Time passes between two packets. -/
  delay_pos : 0 < a.delay_ns.val
  /-- It is a second at most. -/
  delay_le : a.delay_ns.val ≤ 1000000000
  /-- There is no division by zero. -/
  no_trap : a.packets_in_first_5_seconds ≠ none
  /-- Packets are in the buffer. -/
  in_buffer : ∀ len, a.Sends len → 0 ≤ len ∧ len ≤ 65536
  /-- A packet fits in a datagram. -/
  packet_fits : ∀ len, a.Sends len → len ≤ 65507
  /-- The reply to a packet fits in a datagram. -/
  reply_fits : ∀ req seq, Signed req.datagram → a.Sends req.datagram.length →
    (reply req seq).length ≤ 65507

variable {a : Args}

theorem validate_eq_ok : a.validate = .ok () ↔
    24 ≤ a.packet_size ∧ a.packet_size ≤ 65536 ∧ 1 ≤ a.kbps ∧ a.delay_us.val ≤ 1000000 := by
  rw [validate]
  split
  · simp only [reduceCtorEq, false_iff]
    omega
  split
  · simp only [reduceCtorEq, false_iff]
    omega
  split
  · simp only [reduceCtorEq, false_iff]
    omega
  split
  · simp only [reduceCtorEq, false_iff]
    omega
  · simp only [true_iff]
    omega

/-- The exact product in the delay. -/
def bits (a : Args) : ℤ := (a.packet_size + a.overhead) * 8000

theorem fits_bits : Fits 32 a.bits ↔
    -268435 ≤ a.packet_size + a.overhead ∧ a.packet_size + a.overhead ≤ 268435 := by
  rw [fits_32, bits]
  omega

/-- The sum in the delay is exact if the product fits. -/
theorem sum_val (h : Fits 32 a.bits) :
    (CInt.lit a.packet_size + CInt.lit a.overhead : CInt 32).val = a.packet_size + a.overhead := by
  refine twos_eq_self (by decide) ?_
  have hbits := fits_bits.mp h
  rw [fits_32]
  simp only [CInt.val_lit]
  omega

/-- The product in the delay is exact if it fits. -/
theorem product_val (h : Fits 32 a.bits) :
    ((CInt.lit a.packet_size + CInt.lit a.overhead) * CInt.lit 8000 : CInt 32).val = a.bits := by
  rw [CInt.val_mul, sum_val h]
  exact twos_eq_self (by decide) h

/-- The product in the delay is defined exactly if it fits. -/
theorem product_defined :
    ((CInt.lit a.packet_size + CInt.lit a.overhead) * CInt.lit 8000 : CInt 32).defined = true ↔
      Fits 32 a.bits := by
  rw [CInt.defined_mul, CInt.defined_add]
  simp only [CInt.defined_lit, CInt.val_lit, true_and]
  constructor
  · rintro ⟨hsum, hprod⟩
    rwa [CInt.val_add, CInt.val_lit, CInt.val_lit, twos_eq_self (by decide) hsum] at hprod
  · intro h
    rw [sum_val h]
    refine ⟨?_, h⟩
    have hbits := fits_bits.mp h
    rw [fits_32]
    omega

/-- A quotient of an `int` by a positive number is an `int`. -/
theorem fits_tdiv {x k : ℤ} (hx : Fits 32 x) (hk : 1 ≤ k) : Fits 32 (x.tdiv k) := by
  rw [fits_32] at hx ⊢
  obtain ⟨hlo, hhi⟩ := hx
  rcases le_total 0 x with hpos | hneg
  · have hle := Int.tdiv_le_self k hpos
    have hge := Int.tdiv_nonneg hpos (by omega : 0 ≤ k)
    omega
  · have hle := Int.tdiv_le_self k (Int.neg_nonneg_of_nonpos hneg)
    have hge := Int.tdiv_nonneg (Int.neg_nonneg_of_nonpos hneg) (by omega : 0 ≤ k)
    rw [Int.neg_tdiv] at hle hge
    omega

/-- The delay is defined if the product fits; then it is the exact one. -/
theorem delay_us_defined (hkbps : 1 ≤ a.kbps) : a.delay_us.defined = true ↔ Fits 32 a.bits := by
  rw [delay_us, CInt.defined_div, product_defined]
  simp only [CInt.defined_lit, CInt.val_lit, true_and]
  constructor
  · exact fun h ↦ h.1
  · intro h
    rw [product_val h]
    exact ⟨h, by omega, fits_tdiv h hkbps⟩

/-- The product wraps, and nothing else does. -/
theorem delay_us_val_twos (hkbps : 1 ≤ a.kbps) : a.delay_us.val = (twos 32 a.bits).tdiv a.kbps := by
  rw [delay_us, CInt.val_div, CInt.val_mul, CInt.val_add]
  simp only [CInt.val_lit]
  rw [twos_mul_twos, ← bits]
  exact twos_eq_self (by decide) (fits_tdiv (fits_twos (by decide) a.bits) hkbps)

theorem delay_us_val (hkbps : 1 ≤ a.kbps) (h : Fits 32 a.bits) :
    a.delay_us.val = a.bits.tdiv a.kbps := by
  rw [delay_us_val_twos hkbps, twos_eq_self (by decide) h]

/-- A delay between zero and a second does not overflow in whole nanoseconds. -/
theorem delay_ns_val (hlo : 0 ≤ a.delay_us.val) (hhi : a.delay_us.val ≤ 1000000) :
    a.delay_ns.val = a.delay_us.val * 1000 := by
  rw [delay_ns, CInt.val_mul]
  refine twos_eq_self (by decide) ?_
  rw [fits_32, CInt.val_lit]
  omega

/-- The delay is at least a microsecond if a packet has the bits the rate lets through in one. -/
theorem one_le_delay_us (hkbps : 1 ≤ a.kbps) (h : Fits 32 a.bits) :
    1 ≤ a.delay_us.val ↔ a.kbps ≤ a.bits := by
  rw [delay_us_val hkbps h]
  constructor
  · intro hge
    by_contra hlt
    rcases le_total 0 a.bits with hpos | hneg
    · rw [Int.tdiv_eq_zero_of_lt hpos (by omega)] at hge
      omega
    · have hle := Int.tdiv_nonneg (Int.neg_nonneg_of_nonpos hneg) (by omega : 0 ≤ a.kbps)
      rw [Int.neg_tdiv] at hle
      omega
  · intro hle
    rw [Int.tdiv_eq_ediv_of_nonneg (by omega)]
    exact Int.le_ediv_of_mul_le (by omega) (by omega)

/-- The number of short packets of a positive delay: at most five million. -/
theorem packets_of_pos (hlo : 1000 ≤ a.delay_ns.val) :
    ∃ n, a.packets_in_first_5_seconds = some n ∧ n ≤ 5000000 := by
  refine ⟨_, if_neg (by omega), ?_⟩
  have hnum : (0 : ℤ) ≤ 1000 * 1000 * 1000 := by norm_num
  have hge := Int.tdiv_nonneg hnum (by omega : 0 ≤ a.delay_ns.val)
  have hle : (1000 * 1000 * 1000 : ℤ).tdiv a.delay_ns.val ≤ 1000000 := by
    rw [Int.tdiv_eq_ediv_of_nonneg hnum]
    exact Int.ediv_le_of_le_mul (by omega) (by omega)
  rw [toU32, Int.emod_eq_of_lt (by omega) (by omega)]
  omega

/-- Both lengths are sent: during the warmup a probe sends headers, and later whole packets. -/
theorem sends_packet_size (hlo : 1000 ≤ a.delay_ns.val) : a.Sends a.packet_size := by
  obtain ⟨n, hn, hle⟩ := packets_of_pos hlo
  exact ⟨n, hn, 5000000, by norm_num, by rw [if_neg (by omega)]⟩

theorem sends_cases {len : ℤ} (h : a.Sends len) : len = 24 ∨ len = a.packet_size := by
  obtain ⟨n, -, seq_, -, rfl⟩ := h
  split
  · exact .inl rfl
  · exact .inr rfl

/-- The server answers a packet with 22 bytes more. -/
theorem length_reply {req : Request} {seq : UInt32} (hsigned : Signed req.datagram)
    (hlen : req.datagram.length ≤ 65514) : (reply req seq).length = req.datagram.length + 22 := by
  rw [reply, if_pos hsigned, List.take_of_length_le (by omega), List.length_append,
    List.length_append, length_stamp, SockaddrIn.length_masked]
  omega

/-- A request with a packet of the given size. -/
def packetOf (size : ℕ) : Request where
  datagram := [0, 0, 0, 0] ++ (NEWPROTO_SIGNATURE ++ List.replicate (size - 8) 0)
  sa := ⟨AF_INET, #v[0, 0], #v[127, 0, 0, 1]⟩
  ts := .seconds 0

theorem length_packetOf {size : ℕ} (h : 8 ≤ size) : (packetOf size).datagram.length = size := by
  have hsig : NEWPROTO_SIGNATURE.length = 4 := rfl
  rw [packetOf, List.length_append, List.length_append, hsig, List.length_replicate, List.length_cons]
  simp only [List.length_cons, List.length_nil]
  omega

theorem signed_packetOf (size : ℕ) : Signed (packetOf size).datagram := rfl

/-- What a sound probe needs: the longest packet and its reply are really sent. -/
theorem bounds_of_sound (h : a.validate = .ok ()) (hsound : a.Sound) :
    a.packet_size + a.overhead ≤ 268435 ∧ a.kbps ≤ a.bits ∧ a.packet_size ≤ 65485 := by
  obtain ⟨hmin, hmax, hkbps, hdelay⟩ := validate_eq_ok.mp h
  have hfits := (delay_us_defined hkbps).mp hsound.main_defined
  have hpos : 1 ≤ a.delay_us.val := by
    by_contra hlt
    have hns := hsound.delay_pos
    have hexact : a.delay_ns.val = a.delay_us.val * 1000 :=
      twos_eq_self (by decide) (CInt.defined_mul.mp hsound.probe_defined).2.2
    omega
  have hns := delay_ns_val (by omega) hdelay
  have hsends := sends_packet_size (a := a) (by omega)
  have hpacket := hsound.packet_fits _ hsends
  have hlen := length_packetOf (show 8 ≤ a.packet_size.toNat by omega)
  have hreply := hsound.reply_fits (packetOf a.packet_size.toNat) 0 (signed_packetOf _)
    (by rwa [hlen, Int.toNat_of_nonneg (by omega)])
  rw [length_reply (signed_packetOf _) (by omega)] at hreply
  exact ⟨(fits_bits.mp hfits).2, (one_le_delay_us hkbps hfits).mp hpos, by omega⟩

theorem sound_of_bounds (h : a.validate = .ok ()) (hsum : a.packet_size + a.overhead ≤ 268435)
    (hrate : a.kbps ≤ a.bits) (hsize : a.packet_size ≤ 65485) : a.Sound := by
  obtain ⟨hmin, hmax, hkbps, hdelay⟩ := validate_eq_ok.mp h
  have hfits : Fits 32 a.bits := by
    rw [bits] at hrate
    exact fits_bits.mpr (by omega)
  have hpos := (one_le_delay_us hkbps hfits).mpr hrate
  have hdef := (delay_us_defined hkbps).mpr hfits
  have hns := delay_ns_val (by omega) hdelay
  have hlen : ∀ len, a.Sends len → 24 ≤ len ∧ len ≤ 65485 := by
    intro len hlen
    rcases sends_cases hlen with rfl | rfl <;> omega
  obtain ⟨n, hn, -⟩ := packets_of_pos (a := a) (by omega)
  constructor
  · exact hdef
  · refine CInt.defined_mul.mpr ⟨hdef, rfl, ?_⟩
    rw [fits_32, CInt.val_lit]
    omega
  · refine CInt.defined_mul.mpr ⟨hdef, rfl, ?_⟩
    rw [fits_32, CInt.val_lit]
    omega
  · omega
  · omega
  · rw [hn]
    exact Option.some_ne_none n
  · intro len hsends
    have := hlen len hsends
    omega
  · intro len hsends
    have := hlen len hsends
    omega
  · intro req seq hsigned hsends
    have := hlen _ hsends
    rw [length_reply hsigned (by omega)]
    omega

/-- **What the checks of `main` leave open.** An accepted probe is sound exactly if the product in its
delay does not overflow, a packet has at least as many bits as the rate has in a microsecond, and there
is room for the reply. -/
theorem sound_iff (h : a.validate = .ok ()) :
    a.Sound ↔ a.packet_size + a.overhead ≤ 268435 ∧
      a.kbps ≤ (a.packet_size + a.overhead) * 8000 ∧ a.packet_size ≤ 65485 := by
  constructor
  · exact bounds_of_sound h
  · rintro ⟨hsum, hrate, hsize⟩
    exact sound_of_bounds h hsum hrate hsize

/-- A gigabit in small packets. -/
def gigabit : Args := { kbps := 1000000, packet_size := 100, overhead := 0 }

/-- The delay of a gigabit in small packets is zero, and `probe` divides by it. -/
theorem gigabit_not_sound : gigabit.validate = .ok () ∧
    gigabit.packets_in_first_5_seconds = none ∧ ¬gigabit.Sound :=
  ⟨by decide, by decide, fun h ↦ h.no_trap (by decide)⟩

/-- A megabit in large packets. -/
def megabit : Args := { kbps := 1000, packet_size := 1000, overhead := 28 }

theorem megabit_sound : megabit.validate = .ok () ∧ megabit.Sound :=
  ⟨by decide, (sound_iff (by decide)).mpr (by decide)⟩

/-- The settings of an accepted probe. -/
def settings (h : a.validate = .ok ()) : Settings where
  kbps := a.kbps
  packet_size := a.packet_size.toNat
  overhead := a.overhead
  size_ge := by
    have := (validate_eq_ok.mp h).1
    omega
  size_le := by
    have := (validate_eq_ok.mp h).2.1
    omega
  kbps_ge := (validate_eq_ok.mp h).2.2.1
  delay_le := by
    obtain ⟨hmin, -, hkbps, hdelay⟩ := validate_eq_ok.mp h
    rwa [Int.toNat_of_nonneg (by omega), ← bits, ← delay_us_val_twos hkbps]

/-- The settings have the delays of the arguments, also where these overflow. -/
theorem delays_settings (h : a.validate = .ok ()) :
    UdpTsSeqReply.delay_us (a.settings h) = a.delay_us.val ∧
      UdpTsSeqReply.delay_ns (a.settings h) = a.delay_ns.val := by
  obtain ⟨hmin, -, hkbps, -⟩ := validate_eq_ok.mp h
  have hus : UdpTsSeqReply.delay_us (a.settings h) = a.delay_us.val := by
    rw [delay_us_val_twos hkbps, UdpTsSeqReply.delay_us, settings, bits]
    dsimp only
    rw [Int.toNat_of_nonneg (by omega)]
  exact ⟨hus, by rw [UdpTsSeqReply.delay_ns, hus, delay_ns, CInt.val_mul, CInt.val_lit]⟩

end Args

end ViTools.UdpTsSeqReply
