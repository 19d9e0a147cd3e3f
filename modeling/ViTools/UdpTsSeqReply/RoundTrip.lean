import ViTools.UdpTsSeqReply.Measure
import ViTools.UdpTsSeqReply.Probe

/-!
# From probe to server and back

What `measure` decodes from a reply is what `probe` and `serve1` put into it. Times and numbers come
back whatever they are, and so does the source address.

The source port does not always. Both halves of the port are promoted to `int` as signed characters,
and the sign of the low half is added to the high one: a port whose low byte has its top bit set is
reported too small by 256.
-/

namespace ViTools.UdpTsSeqReply

/-! ## Times and numbers -/

/-- The time and the number at an offset. -/
def stampAt (b : Buffer) (off : ℕ) : Timespec × UInt32 :=
  ({ tv_sec := wrap64 (((ntohl (memNat32 (b.slice off 4))).toNat <<< 32
      ||| (ntohl (memNat32 (b.slice (off + 4) 4))).toNat : ℕ) : ℤ)
     tv_nsec := (ntohl (memNat32 (b.slice (off + 8) 4))).toNat },
    ntohl (memNat32 (b.slice (off + 12) 4)))

theorem load_stamp_of_le {b : Buffer} {off : ℕ} (h : off + 16 ≤ b.size) :
    load_stamp b off = some (stampAt b off) := by
  rw [load_stamp, Buffer.load_of_le (by omega), Buffer.load_of_le (by omega),
    Buffer.load_of_le (by omega), Buffer.load_of_le (by omega)]
  rfl

/-- The two halves of the seconds. -/
theorem sec_halves {s : ℤ} (hlo : -2 ^ 63 ≤ s) (hhi : s < 2 ^ 63) :
    wrap64 (((UInt32.ofNat ((toU64 s &&& 0xFFFFFFFF00000000) >>> 32)).toNat <<< 32
      ||| (UInt32.ofNat ((toU64 s &&& 0x00000000FFFFFFFF) >>> 0)).toNat : ℕ) : ℤ) = s := by
  have hlt : toU64 s < 2 ^ 64 := by
    rw [toU64]
    omega
  have hlow : (toU64 s &&& 0x00000000FFFFFFFF) >>> 0 = toU64 s % 2 ^ 32 := by
    rw [Nat.shiftRight_zero, show 0x00000000FFFFFFFF = 2 ^ 32 - 1 from rfl,
      Nat.and_two_pow_sub_one_eq_mod]
  have hhigh : (toU64 s &&& 0xFFFFFFFF00000000) >>> 32 = toU64 s / 2 ^ 32 := by
    rw [Nat.shiftRight_and_distrib, show 0xFFFFFFFF00000000 >>> 32 = 2 ^ 32 - 1 from rfl,
      Nat.and_two_pow_sub_one_eq_mod, Nat.shiftRight_eq_div_pow]
    omega
  have hor : (toU64 s / 2 ^ 32) <<< 32 ||| toU64 s % 2 ^ 32 = toU64 s := by
    rw [← Nat.shiftLeft_add_eq_or_of_lt (by omega), Nat.shiftLeft_eq]
    omega
  rw [hlow, hhigh, UInt32.toNat_ofNat', UInt32.toNat_ofNat', Nat.mod_mod,
    Nat.mod_eq_of_lt (a := toU64 s / 2 ^ 32) (by omega), hor, wrap64_toU64 hlo hhi]

/-- **Times and numbers come back.** -/
theorem stampAt_of_slice {b : Buffer} {off : ℕ} {ts : ClockTime} {seq : UInt32}
    (h : b.slice off 16 = stamp ts.toTimespec seq) : stampAt b off = (ts.toTimespec, seq) := by
  rw [show 16 = 4 + 4 + 4 + 4 from rfl, Buffer.slice_add, Buffer.slice_add, Buffer.slice_add,
    stamp] at h
  obtain ⟨h, hseq⟩ := List.append_inj h (by simp)
  obtain ⟨h, hnano⟩ := List.append_inj h (by simp)
  obtain ⟨hhigh, hlow⟩ := List.append_inj h (by simp)
  have hnsec : ((UInt32.ofNat (toU32 ts.tv_nsec)).toNat : ℤ) = ts.tv_nsec := by
    have h₁ := ts.normalised.nonneg
    have h₂ := ts.normalised.lt
    rw [UInt32.toNat_ofNat', toU32]
    omega
  rw [stampAt, hhigh, hlow, hnano, hseq]
  simp only [memNat32_memBytes32, ntohl_htonl, sec_halves ts.sec_ge ts.sec_lt, hnsec]

/-! ## All fields -/

/-- What is read from a buffer. -/
def decoded (b : Buffer) : Decoded where
  ts1 := (stampAt b 30).1
  ts2 := (stampAt b 0).1
  seq1 := (stampAt b 30).2
  seq2 := (stampAt b 0).2
  ip := #v[unmask_ip (b.byte 16) IP_MASK[0]!, unmask_ip (b.byte 17) IP_MASK[1]!,
    unmask_ip (b.byte 18) IP_MASK[2]!, unmask_ip (b.byte 19) IP_MASK[3]!]
  port := unmask_port (b.byte 20) (b.byte 21)
  id := memNat32 (b.slice 22 4)

theorem decoded_port (b : Buffer) : (decoded b).port = unmask_port (b.byte 20) (b.byte 21) := rfl

theorem decode_eq {b : Buffer} (h : b.size = 65536) : decode b = some (decoded b) := by
  rw [decode, load_stamp_of_le (by omega), load_stamp_of_le (by omega), Buffer.get_of_lt (by omega),
    Buffer.get_of_lt (by omega), Buffer.get_of_lt (by omega), Buffer.get_of_lt (by omega),
    Buffer.get_of_lt (by omega), Buffer.get_of_lt (by omega), Buffer.load_of_le (by omega)]
  rfl

/-- The buffer of `measure` after a datagram. -/
def Measure.filled (m : Measure) (bytes : List UInt8) : Buffer :=
  (Buffer.mk 65536 m.buf).put 0 (bytes.take 65536)

/-- The report of a datagram, and the variables after it. -/
def Measure.replied (m : Measure) (start : ClockTime) (bytes : List UInt8) (now : ClockTime) :
    Report × Measure :=
  report_reply start { m with buf := (m.filled bytes).byte } (decoded (m.filled bytes))
    (bytes.take 65536).length now

/-- **One datagram for measure.** It never leaves its buffer, and this is its effect. -/
theorem measure1_datagram_eq (start : ClockTime) (m : Measure) (check now : ClockTime)
    (bytes : List UInt8) :
    measure1 start m ⟨check, .datagram bytes, now⟩ =
      some (check_clogged m check ++ [.report (m.replied start bytes now).1] ++
        endpoint_lines m (decoded (m.filled bytes)).ip (decoded (m.filled bytes)).port,
          (m.replied start bytes now).2) := by
  have hlen : (bytes.take 65536).length ≤ 65536 := by
    rw [List.length_take]
    omega
  rw [measure1]
  dsimp only
  rw [Buffer.store_of_le (by dsimp only; omega)]
  simp only [Option.bind_eq_bind, Option.bind_some]
  rw [decode_eq (by rfl)]
  rfl

/-- Of the lines, one is a report. -/
theorem measure1_datagram (start : ClockTime) (m : Measure) (check now : ClockTime)
    (bytes : List UInt8) :
    ∃ lines, measure1 start m ⟨check, .datagram bytes, now⟩
        = some (lines, (m.replied start bytes now).2) ∧
      lines.filterMap Line.report? = [(m.replied start bytes now).1] :=
  ⟨_, measure1_datagram_eq start m check now bytes, report_lines ..⟩

/-- Nothing that can be received stops `measure`. -/
theorem exists_measure1 (start : ClockTime) (m : Measure) (p : Poll) :
    ∃ lines m', measure1 start m p = some (lines, m') := by
  obtain ⟨check, received, now⟩ := p
  cases received with
  | datagram bytes => exact ⟨_, _, measure1_datagram_eq ..⟩
  | eagain => exact ⟨_, _, measure1_eagain ..⟩
  | error => exact ⟨_, _, measure1_error ..⟩

theorem exists_run (start : ClockTime) (polls : List Poll) (m : Measure) :
    ∃ out m', transduce (measure1 start) m polls = some (out, m') := by
  have hstep : ∀ p ∈ polls, ∀ s t, s = t → ∃ o s' t', measure1 start s p = some (o, s') ∧
      measure1 start t p = some (o, t') ∧ s' = t' := by
    rintro p - s t rfl
    obtain ⟨lines, m', hm⟩ := exists_measure1 start s p
    exact ⟨lines, m', m', hm, hm, rfl⟩
  obtain ⟨out, m', -, hrun, -, -⟩ := transduce_related hstep (rfl : m = m)
  exact ⟨out, m', hrun⟩

/-- The loss columns are differences of the three counters. -/
theorem Measure.replied_losses (m : Measure) (start : ClockTime) (bytes : List UInt8)
    (now : ClockTime) :
    (m.replied start bytes now).1.loss_loc
        = ((decoded (m.filled bytes)).seq1.toNat : ℤ) - (decoded (m.filled bytes)).seq2.toNat ∧
      (m.replied start bytes now).1.loss_rem
        = ((decoded (m.filled bytes)).seq2.toNat : ℤ) - m.seq3.toNat :=
  ⟨sub_sub_sub_cancel_right .., rfl⟩

/-! ## Replies in the buffer -/

theorem Measure.slice_filled (m : Measure) {bytes : List UInt8} (hle : bytes.length ≤ 65536)
    {k n : ℕ} (h : k + n ≤ bytes.length) : (m.filled bytes).slice k n = (bytes.drop k).take n := by
  rw [filled, List.take_of_length_le hle]
  simpa only [Nat.zero_add] using Buffer.slice_put_part (Buffer.mk 65536 m.buf) (i := 0) h

theorem length_reply_of_signed {req : Request} (h : Signed req.datagram) (seq : UInt32) :
    (reply req seq).length = 22 + (req.datagram.take (65536 - 22)).length := by
  rw [reply, if_pos h, List.length_append, List.length_append, length_stamp,
    SockaddrIn.length_masked]

theorem length_reply_le {req : Request} (h : Signed req.datagram) (seq : UInt32) :
    (reply req seq).length ≤ 65536 := by
  rw [length_reply_of_signed h, List.length_take]
  omega

theorem drop_reply_of_signed {req : Request} (h : Signed req.datagram) (seq : UInt32) :
    (reply req seq).drop 22 = req.datagram.take (65536 - 22) := by
  rw [reply, if_pos h, List.drop_left' (by simp)]

/-- What is decoded from the reply to a probe packet. -/
theorem decoded_reply {packet : List UInt8} {id seq1 : UInt32} {ts1 : ClockTime}
    (h : IsProbePacket packet id ts1 seq1) (sa : SockaddrIn) (ts2 : ClockTime) (seq2 : UInt32)
    (m : Measure) {d : Decoded} (hd : d = decoded (m.filled (reply ⟨packet, sa, ts2⟩ seq2))) :
    d.ts1 = ts1.toTimespec ∧ d.ts2 = ts2.toTimespec ∧ d.seq1 = seq1 ∧ d.seq2 = seq2 ∧ d.id = id := by
  have hsigned : Signed (Request.mk packet sa ts2).datagram := h.signed
  have hge := h.le_length
  have hlen := length_reply_of_signed hsigned seq2
  have hle := length_reply_le hsigned seq2
  have hdrop := drop_reply_of_signed hsigned seq2
  rw [List.length_take] at hlen
  dsimp only at hlen hdrop
  -- the packet's header follows the 22 bytes of the server
  have hheader : (m.filled (reply ⟨packet, sa, ts2⟩ seq2)).slice 22 24 = probeHeader id ts1 seq1 := by
    rw [m.slice_filled hle (by omega), hdrop, List.take_take, ← h]
    rfl
  rw [probeHeader, show 24 = 4 + 4 + 16 from rfl, Buffer.slice_add, Buffer.slice_add] at hheader
  obtain ⟨hheader, hstamp1⟩ := List.append_inj hheader (by simp [NEWPROTO_SIGNATURE])
  obtain ⟨hid, -⟩ := List.append_inj hheader (by simp)
  have hstamp2 : (m.filled (reply ⟨packet, sa, ts2⟩ seq2)).slice 0 16 = stamp ts2.toTimespec seq2 := by
    rw [m.slice_filled hle (by omega), List.drop_zero, reply, List.append_assoc,
      List.take_left' (length_stamp ..)]
  subst hd
  simp only [decoded, stampAt_of_slice hstamp1, stampAt_of_slice hstamp2, hid, memNat32_memBytes32,
    and_self]

/-! ## The source address -/

theorem unmask_ip_mask_byte (a m : UInt8) : unmask_ip (mask_byte a m) m = a := by
  refine UInt8.toBitVec_inj.mp ?_
  rw [unmask_ip, xor_chars, BitVec.setWidth_xor, setWidth_promote, setWidth_promote, mask_byte_eq,
    UInt8.toBitVec_xor, BitVec.xor_assoc, BitVec.xor_self, BitVec.xor_zero]

theorem unmask_ip_masked (a : UInt8) {i : ℕ} (h : i < 4) :
    unmask_ip (mask_byte a IP_MASK[i]) IP_MASK[i]! = a := by
  rw [getElem!_pos IP_MASK i h]
  exact unmask_ip_mask_byte a _

/-- A `char` as an `unsigned short`: its sign fills the high byte. -/
theorem toNat_xor_chars_mask_byte (a m : UInt8) :
    ((xor_chars (mask_byte a m) m).setWidth 16).toNat
      = if a.toNat < 128 then a.toNat else a.toNat + 65280 := by
  have hlt := a.toNat_lt
  -- the mask cancels before the sign does anything
  have hcancel : xor_chars (mask_byte a m) m = a.toBitVec.signExtend 32 := by
    rw [xor_chars, mask_byte_eq, promote, promote, UInt8.toBitVec_xor, BitVec.signExtend_xor,
      BitVec.xor_assoc, BitVec.xor_self, BitVec.xor_zero]
  rw [hcancel, BitVec.toNat_setWidth, BitVec.toNat_signExtend, BitVec.toNat_setWidth,
    BitVec.msb_eq_decide, UInt8.toNat_toBitVec]
  by_cases h : a.toNat < 128
  · rw [if_neg (by simpa using h), if_pos h]
    omega
  · rw [if_pos (by simpa using h), if_neg h]
    omega

/-- **The port that is reported.** It is the real one, less 256 if the low byte's top bit is set. -/
theorem toNat_unmask_port (a0 a1 : UInt8) :
    (unmask_port (mask_byte a0 PORT_MASK[0]!) (mask_byte a1 PORT_MASK[1]!)).toNat
      = if a1.toNat < 128 then 256 * a0.toNat + a1.toNat
        else (256 * a0.toNat + a1.toNat + 65280) % 65536 := by
  have hlt0 := a0.toNat_lt
  have hlt1 := a1.toNat_lt
  rw [unmask_port, toNat_xor_chars_mask_byte, toNat_xor_chars_mask_byte, UInt16.toNat_ofNat',
    Nat.shiftLeft_eq]
  split <;> split <;> omega

/-- What is decoded from the reply to any datagram with a signature. -/
theorem decoded_endpoint {req : Request} (hsigned : Signed req.datagram)
    (hfamily : req.sa.sin_family = AF_INET) (seq : UInt32) (m : Measure) {d : Decoded}
    (hd : d = decoded (m.filled (reply req seq))) :
    d.ip = req.sa.sin_addr ∧ d.port.toNat = if req.sa.port % 256 < 128 then req.sa.port
      else (req.sa.port + 65280) % 65536 := by
  have hlen := length_reply_of_signed hsigned seq
  have hle := length_reply_le hsigned seq
  have hmasked : (m.filled (reply req seq)).slice 16 6 = req.sa.masked := by
    rw [m.slice_filled hle (by omega), reply, if_pos hsigned, List.append_assoc,
      List.drop_left' (length_stamp ..), List.take_left' (SockaddrIn.length_masked _)]
  rw [SockaddrIn.masked, if_pos hfamily, mask_ip, mask_port] at hmasked
  simp only [Vector.toList_mk, Buffer.slice, List.range', List.map_cons, List.map_nil,
    List.cons_append, List.nil_append, List.cons.injEq] at hmasked
  obtain ⟨h16, h17, h18, h19, h20, h21, -⟩ := hmasked
  subst hd
  constructor
  · refine Vector.ext fun i hi ↦ ?_
    rcases (by omega : i = 0 ∨ i = 1 ∨ i = 2 ∨ i = 3) with rfl | rfl | rfl | rfl
    · exact (congrArg (unmask_ip · IP_MASK[0]!) h16).trans (unmask_ip_masked _ hi)
    · exact (congrArg (unmask_ip · IP_MASK[1]!) h17).trans (unmask_ip_masked _ hi)
    · exact (congrArg (unmask_ip · IP_MASK[2]!) h18).trans (unmask_ip_masked _ hi)
    · exact (congrArg (unmask_ip · IP_MASK[3]!) h19).trans (unmask_ip_masked _ hi)
  · have hlow : req.sa.port % 256 = req.sa.sin_port[1].toNat := by
      have := req.sa.sin_port[1].toNat_lt
      rw [SockaddrIn.port]
      omega
    rw [decoded_port, h20, h21, ← getElem!_pos PORT_MASK 0, ← getElem!_pos PORT_MASK 1,
      toNat_unmask_port, hlow, SockaddrIn.port]

/-! ## The results -/

/-- **Round trip.** A probe packet comes back 22 bytes longer, unchanged at its end, and `measure`
reads from it what the probe and the server know; any other datagram comes back with 16 bytes in
front. No call leaves its buffer. -/
theorem probe_serve1_measure1 :
    (∀ set p ts, ∃ packet p', probe1 set p ts = some (packet, p') ∧
      IsProbePacket packet p.id ts p.seq_ ∧ packet.length = packet_len set p.seq_) ∧
    (∀ packet id ts1 seq1 sa ts2 srv, IsProbePacket packet id ts1 seq1 →
      packet.length ≤ 65536 - 22 → sa.sin_family = AF_INET →
      ∃ bytes srv', serve1 srv ⟨packet, sa, ts2⟩ = some (bytes, srv') ∧
        bytes.length = packet.length + 22 ∧ packet <:+ bytes ∧
        ∀ start m check now, ∃ lines m' r,
          measure1 start m ⟨check, .datagram bytes, now⟩ = some (lines, m') ∧
          lines.filterMap Line.report? = [r] ∧
          r.id = id ∧ r.info.ts1 = ts1.toTimespec ∧ r.info.seq1 = seq1 ∧
          r.info.ts2 = ts2.toTimespec ∧ r.info.seq2 = (check_age srv id ts2 id).getD 0 ∧
          r.info.ip = sa.sin_addr) ∧
    (∀ datagram sa ts2 srv, ¬Signed datagram → datagram.length ≤ 65536 - 22 →
      ∃ header srv', serve1 srv ⟨datagram, sa, ts2⟩ = some (header ++ datagram, srv') ∧
        header.length = 16) := by
  refine ⟨fun set p ts ↦ ?_, fun packet id ts1 seq1 sa ts2 srv hpacket hlen hfamily ↦ ?_,
    fun datagram sa ts2 srv hsigned hlen ↦ ?_⟩
  · exact ⟨_, _, probe1_eq set p ts, isProbePacket_written set p ts, Buffer.length_slice ..⟩
  · let req : Request := ⟨packet, sa, ts2⟩
    have hsigned : Signed req.datagram := hpacket.signed
    have hid : req.id = id := hpacket.datagramId_eq
    refine ⟨_, _, serve1_eq srv req, ?_, ?_, fun start m check now ↦ ?_⟩
    · rw [length_reply_of_signed hsigned, List.take_of_length_le hlen, Nat.add_comm]
    · rw [reply, List.take_of_length_le hlen]
      exact List.suffix_append _ _
    · obtain ⟨lines, hrun, hreport⟩ :=
        measure1_datagram start m check now (reply req ((srv.entry req.id).seq ts2))
      obtain ⟨h1, h2, h3, h4, h5⟩ := decoded_reply hpacket sa ts2 ((srv.entry req.id).seq ts2) m rfl
      obtain ⟨hip, -⟩ := decoded_endpoint hsigned hfamily ((srv.entry req.id).seq ts2) m rfl
      refine ⟨lines, _, _, hrun, hreport, h5, h1, h3, h2, h4.trans ?_, hip⟩
      rw [(check_age_eq srv id ts2).1, hid]
  · let req : Request := ⟨datagram, sa, ts2⟩
    refine ⟨stamp ts2.toTimespec ((srv.entry req.id).seq ts2), srv.served req.id ts2, ?_,
      length_stamp ..⟩
    rw [serve1_eq, reply, if_neg hsigned, List.append_nil, List.take_of_length_le hlen]

/-- **The endpoint reported** is the source of the packet exactly if the low byte of the port is less
than 128. -/
theorem reported_endpoint_iff (srv : Server) (req : Request) (start : ClockTime) (m : Measure)
    (check now : ClockTime) (hsigned : Signed req.datagram) (hfamily : req.sa.sin_family = AF_INET) :
    (∃ bytes srv' lines m', serve1 srv req = some (bytes, srv') ∧
      measure1 start m ⟨check, .datagram bytes, now⟩ = some (lines, m') ∧
      m'.info.ip = req.sa.sin_addr ∧ m'.info.port.toNat = req.sa.port) ↔
    req.sa.port % 256 < 128 := by
  have hport : req.sa.port < 65536 := by
    have h₀ := req.sa.sin_port[0].toNat_lt
    have h₁ := req.sa.sin_port[1].toNat_lt
    rw [SockaddrIn.port]
    omega
  constructor
  · rintro ⟨bytes, srv', lines, m', hserve, hmeasure, -, hreported⟩
    rw [serve1_eq] at hserve
    cases hserve
    obtain ⟨lines', hrun, -⟩ :=
      measure1_datagram start m check now (reply req ((srv.entry req.id).seq req.ts))
    cases hrun.symm.trans hmeasure
    obtain ⟨-, hdecoded⟩ := decoded_endpoint hsigned hfamily _ m rfl
    by_contra hlow
    rw [if_neg hlow] at hdecoded
    have heq := hdecoded.symm.trans hreported
    omega
  · intro hlow
    obtain ⟨hip, hdecoded⟩ := decoded_endpoint hsigned hfamily ((srv.entry req.id).seq req.ts) m rfl
    rw [if_pos hlow] at hdecoded
    obtain ⟨lines, hrun, -⟩ :=
      measure1_datagram start m check now (reply req ((srv.entry req.id).seq req.ts))
    exact ⟨_, _, _, _, serve1_eq srv req, hrun, hip, hdecoded⟩

/-- A datagram that is just a signature, from 10.0.0.1 and a given port. -/
private def signedFrom (port : Vector UInt8 2) : Request where
  datagram := [0, 0, 0, 0] ++ NEWPROTO_SIGNATURE
  sa := { sin_family := AF_INET, sin_port := port, sin_addr := #v[10, 0, 0, 1] }
  ts := .seconds 1

/-- Port 1919 is reported as it is. -/
theorem reported_endpoint_1919 : ∃ bytes srv' lines m',
    serve1 Server.start (signedFrom #v[0x07, 0x7f]) = some (bytes, srv') ∧
      measure1 (.seconds 0) (.start (fun _ ↦ 0) default) ⟨.seconds 1, .datagram bytes, .seconds 1⟩
        = some (lines, m') ∧
      m'.info.ip = #v[10, 0, 0, 1] ∧ m'.info.port.toNat = 1919 :=
  (reported_endpoint_iff .start (signedFrom #v[0x07, 0x7f]) (.seconds 0) (.start (fun _ ↦ 0) default)
    (.seconds 1) (.seconds 1) (by decide) rfl).mpr (by decide)

/-- Port 909 is reported as 653. -/
theorem reported_endpoint_909 : ∃ srv req start m check now bytes srv' lines m',
    Signed req.datagram ∧ req.sa.sin_family = AF_INET ∧ req.sa.port = 909 ∧
      serve1 srv req = some (bytes, srv') ∧
      measure1 start m ⟨check, .datagram bytes, now⟩ = some (lines, m') ∧
      m'.info.port.toNat = 653 := by
  have hsigned : Signed (signedFrom #v[0x03, 0x8d]).datagram := by decide
  obtain ⟨lines, hrun, -⟩ := measure1_datagram (.seconds 0) (.start (fun _ ↦ 0) default) (.seconds 1)
    (.seconds 1) (reply (signedFrom #v[0x03, 0x8d]) 0)
  exact ⟨.start, signedFrom #v[0x03, 0x8d], .seconds 0, .start (fun _ ↦ 0) default, .seconds 1,
    .seconds 1, _, _, _, _, hsigned, rfl, rfl, serve1_eq .., hrun,
    (decoded_endpoint hsigned rfl _ _ rfl).2⟩

end ViTools.UdpTsSeqReply
