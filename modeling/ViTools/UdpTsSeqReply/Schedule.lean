import ViTools.Lib.Run
import ViTools.UdpTsSeqReply.Pacing

/-!
# The packets of a probe and their times

A whole run of `probe`, with its clock readings and its sleeps. The clock does not go back, and a sleep
that the kernel accepts does not end before its deadline; apart from that the readings are arbitrary, so
that the loop may be late by any amount and catch up later.

Packet `k` is not sent before the start and `k` delays, unless its deadline is one that the kernel
refuses; then it may follow the packet before at once. For delays below a second two deadlines in a row
are never both refused, so a packet is early by one delay at most, and the number of packets sent up to
any time is bounded by the rate that was asked for. A delay of a whole second from a start at a whole
second is the exception: all the deadlines are refused, and there is no bound at all.
-/

namespace ViTools.UdpTsSeqReply

open Timespec

/-! ## The loop -/

/-- The variables of the loop, and the time at which it goes on. -/
structure Sender where
  /-- The id, the buffer and the number of the next packet. -/
  probe : Probe
  /-- The deadline. -/
  ts_next : Timespec
  /-- The program is asleep until then, in nanoseconds. -/
  awake : ℤ

/-- The state before the loop. -/
def Sender.start (set : Settings) (garbage : ℕ → UInt8) (ts_next : ClockTime) : Option Sender :=
  (Probe.start set garbage ts_next).map fun probe ↦ ⟨probe, ts_next.toTimespec, ts_next.nanos⟩

/-- One iteration with the clock reading it starts with: the packet sent. A reading from before the end of
the last sleep is not possible. -/
def sender1 (set : Settings) (s : Sender) (ts : ClockTime) : Option (List UInt8 × Sender) :=
  if s.awake ≤ ts.nanos then do
    let (packet, probe) ← probe1 set s.probe ts
    let ts_next := advance (delay_ns set) s.ts_next
    let awake := if clock_nanosleep_abstime ts_next = 0 then max ts.nanos ts_next.nanos else ts.nanos
    some (packet, ⟨probe, ts_next, awake⟩)
  else none

/-- The state after a packet sent at `ts`. -/
def Sender.sent (set : Settings) (s : Sender) (ts : ClockTime) : Sender where
  probe := { s.probe with buf := (s.probe.written ts).byte, seq_ := s.probe.seq_ + 1 }
  ts_next := advance (delay_ns set) s.ts_next
  awake := if clock_nanosleep_abstime (advance (delay_ns set) s.ts_next) = 0 then
    max ts.nanos (advance (delay_ns set) s.ts_next).nanos else ts.nanos

theorem sender1_eq_some {set : Settings} {s s' : Sender} {ts : ClockTime} {packet : List UInt8} :
    sender1 set s ts = some (packet, s') ↔ s.awake ≤ ts.nanos ∧
      packet = (s.probe.written ts).slice 0 (packet_len set s.probe.seq_) ∧ s' = s.sent set ts := by
  rw [sender1]
  split
  · next h =>
    rw [probe1_eq, Option.bind_eq_bind, Option.bind_some, Option.some.injEq, Prod.mk.injEq,
      and_iff_right h, eq_comm, @eq_comm _ s']
    exact Iff.rfl
  · next h => exact iff_of_false (Option.some_ne_none _).symm fun h' ↦ h h'.1

/-! ## The invariant -/

section Invariant

variable {set : Settings} {t0 : ClockTime}

/-- The deadline of packet `k` is one the kernel accepts, or there is none before it. -/
def Awaited (set : Settings) (t0 : ClockTime) (k : ℕ) : Prop :=
  k = 0 ∨ ¬(1000000000 : ℤ) ∣ t0.tv_nsec + k * delay_ns set

theorem delay_us_le (set : Settings) : delay_us set ≤ 1000000 := set.delay_le

/-- A delay of a microsecond or more does not wrap in nanoseconds. -/
theorem delay_ns_eq (hpos : 1 ≤ delay_us set) : delay_ns set = delay_us set * 1000 := by
  have hle := delay_us_le set
  rw [delay_ns]
  apply twos_eq_self (by norm_num)
  rw [fits_32]
  omega

theorem le_delay_ns (hpos : 1 ≤ delay_us set) : 1000 ≤ delay_ns set := by
  rw [delay_ns_eq hpos]
  omega

theorem delay_ns_le (hpos : 1 ≤ delay_us set) : delay_ns set ≤ 1000000000 := by
  have hle := delay_us_le set
  rw [delay_ns_eq hpos]
  omega

/-- Deadlines a second apart at whole seconds: all of them are refused. -/
def Unpaced (set : Settings) (t0 : ClockTime) : Prop :=
  delay_ns set = 1000000000 ∧ t0.tv_nsec = 0

/-- Of two deadlines in a row one is accepted, except in that case. -/
theorem awaited_or (hpos : 1 ≤ delay_us set) (hpaced : ¬Unpaced set t0) (k : ℕ) :
    Awaited set t0 k ∨ Awaited set t0 (k + 1) := by
  have hkilo := le_delay_ns hpos
  by_contra hneither
  rw [not_or, Awaited, Awaited, not_or, not_or, not_not, not_not] at hneither
  obtain ⟨⟨-, hk⟩, -, hk'⟩ := hneither
  -- the delay is the difference of two multiples of a second, so it is a second itself
  have hdvd : (1000000000 : ℤ) ∣ delay_ns set := by
    have hdiff := Int.dvd_sub hk' hk
    have heq : t0.tv_nsec + ((k + 1 : ℕ) : ℤ) * delay_ns set - (t0.tv_nsec + k * delay_ns set)
        = delay_ns set := by
      push_cast
      ring
    rwa [heq] at hdiff
  have hge := Int.le_of_dvd (by omega) hdvd
  have hsecond : delay_ns set = 1000000000 := le_antisymm (delay_ns_le hpos) hge
  have hnsec : (1000000000 : ℤ) ∣ t0.tv_nsec := (Int.dvd_add_left (hdvd.mul_left _)).mp hk
  have hzero : t0.tv_nsec = 0 :=
    Int.eq_zero_of_dvd_of_nonneg_of_lt t0.normalised.nonneg t0.normalised.lt hnsec
  exact hpaced ⟨hsecond, hzero⟩

theorem not_awaited (h : Unpaced set t0) (k : ℕ) : ¬Awaited set t0 (k + 1) := by
  rintro (hzero | hdvd)
  · exact Nat.succ_ne_zero k hzero
  · apply hdvd
    rw [h.1, h.2, zero_add]
    exact Int.dvd_mul_left ..

theorem accepted_iff (hpos : 1 ≤ delay_us set) (k : ℕ) :
    clock_nanosleep_abstime (ts_next (delay_ns set) t0.toTimespec (k + 1)) = 0 ↔
      Awaited set t0 (k + 1) := by
  have hkilo : 1 ≤ delay_ns set := le_trans (by norm_num) (le_delay_ns hpos)
  have hpaced := paced_iff_not_dvd hkilo (delay_ns_le hpos) t0.normalised (Nat.le_add_left 1 k)
  rw [Awaited, or_iff_right (Nat.succ_ne_zero k), ← hpaced]
  exact ⟨fun h ↦ ⟨nanos_ts_next _ _ _, clock_nanosleep_abstime_eq_zero.mp h, h⟩, Paced.sleeps⟩

/-- The id that a probe takes from its first clock reading. -/
def probe_id (ts_next : ClockTime) : UInt32 :=
  UInt32.ofNat (toU32 ts_next.tv_sec) ^^^ UInt32.ofNat (toU32 ts_next.tv_nsec)

/-- The state before packet `k`. -/
structure Before (set : Settings) (t0 : ClockTime) (k : ℕ) (s : Sender) : Prop where
  id_eq : s.probe.id = probe_id t0
  seq_eq : s.probe.seq_ = UInt32.ofNat k
  ts_next_eq : s.ts_next = ts_next (delay_ns set) t0.toTimespec k
  /-- The packet does not come before its deadline. -/
  awaits : Awaited set t0 k → t0.nanos + k * delay_ns set ≤ s.awake
  /-- It never comes before the deadline of the packet before. -/
  rate : ¬Unpaced set t0 → t0.nanos + (k - 1) * delay_ns set ≤ s.awake

theorem before_start {garbage : ℕ → UInt8} {s : Sender} (hpos : 1 ≤ delay_us set)
    (h : Sender.start set garbage t0 = some s) : Before set t0 0 s := by
  rw [Sender.start, Probe.start_eq, Option.map_some] at h
  cases h
  refine ⟨rfl, rfl, rfl, fun _ ↦ ?_, fun _ ↦ ?_⟩
  · rw [Nat.cast_zero, zero_mul, add_zero]
  · have hkilo := le_delay_ns hpos
    dsimp only
    omega

theorem awake_sent (set : Settings) (s : Sender) (ts : ClockTime) :
    ts.nanos ≤ (s.sent set ts).awake := by
  rw [Sender.sent]
  dsimp only
  split
  · exact le_max_left _ _
  · exact le_refl _

theorem Before.sent {k : ℕ} {s : Sender} {ts : ClockTime} (h : Before set t0 k s)
    (hpos : 1 ≤ delay_us set) (hts : s.awake ≤ ts.nanos) : Before set t0 (k + 1) (s.sent set ts) := by
  have hkilo := le_delay_ns hpos
  have hnext : advance (delay_ns set) s.ts_next = ts_next (delay_ns set) t0.toTimespec (k + 1) := by
    rw [h.ts_next_eq, ts_next]
  have hawaits : Awaited set t0 (k + 1) →
      t0.nanos + (k + 1 : ℕ) * delay_ns set ≤ (s.sent set ts).awake := by
    intro hawaited
    rw [Sender.sent]
    dsimp only
    rw [hnext, if_pos ((accepted_iff hpos k).mpr hawaited), nanos_ts_next]
    exact le_max_right _ _
  refine ⟨h.id_eq, ?_, hnext, hawaits, fun hpaced ↦ ?_⟩
  · rw [Sender.sent, h.seq_eq, UInt32.ofNat_add]
    rfl
  · rw [Nat.cast_add_one, add_sub_cancel_right]
    rcases awaited_or hpos hpaced k with hk | hk
    · exact (h.awaits hk).trans (hts.trans (awake_sent set s ts))
    · have hlate := hawaits hk
      rw [Nat.cast_add_one, add_one_mul] at hlate
      omega

end Invariant

/-! ## Runs -/

/-- The packets of a run of `probe` that starts at `t0` and reads these times. -/
def Sends (set : Settings) (t0 : ClockTime) (readings : List ClockTime) (packets : List (List UInt8)) :
    Prop :=
  ∃ garbage s0 s, Sender.start set garbage t0 = some s0 ∧
    transduce (sender1 set) s0 readings = some (packets, s)

section Runs

variable {set : Settings} {t0 : ClockTime} {readings : List ClockTime} {packets : List (List UInt8)}

/-- The state in which a packet of the run was sent. -/
theorem Sends.before (h : Sends set t0 readings packets) (hpos : 1 ≤ delay_us set) {k : ℕ}
    {ts : ClockTime} (hk : readings[k]? = some ts) :
    ∃ s packet, Before set t0 k s ∧ s.awake ≤ ts.nanos ∧ packets[k]? = some packet ∧
      packet = (s.probe.written ts).slice 0 (packet_len set s.probe.seq_) := by
  obtain ⟨garbage, s0, s', hstart, hrun⟩ := h
  obtain ⟨hlt, hget⟩ := List.getElem?_eq_some_iff.mp hk
  have hsplit : readings = readings.take k ++ ts :: readings.drop (k + 1) := by
    rw [← hget, List.cons_getElem_drop_succ, List.take_append_drop]
  have hlen : (readings.take k).length = k := by
    rw [List.length_take, min_eq_left hlt.le]
  rw [hsplit] at hrun
  obtain ⟨os, s, packet, s'', hbefore, hsend, hpacket⟩ := transduce_split hrun
  have hstep : ∀ (hist : List ClockTime) s i o s', Before set t0 hist.length s →
      sender1 set s i = some (o, s') → Before set t0 (hist ++ [i]).length s' := by
    intro hist s i o s' h hstep
    obtain ⟨hawake, -, rfl⟩ := sender1_eq_some.mp hstep
    rw [List.length_append, List.length_singleton]
    exact h.sent hpos hawake
  have hstart' : Before set t0 ([] : List ClockTime).length s0 := before_start hpos hstart
  have hinv := transduce_invariant hstep hstart' hbefore
  rw [List.nil_append, hlen] at hinv
  rw [hlen] at hpacket
  obtain ⟨hawake, hpacketeq, -⟩ := sender1_eq_some.mp hsend
  exact ⟨s, packet, hinv, hawake, hpacket, hpacketeq⟩

theorem toU32_eq_self {x : ℤ} (hlo : 0 ≤ x) (hhi : x < 2 ^ 32) :
    ((toU32 x % 2 ^ 32 : ℕ) : ℤ) = x := by
  rw [toU32, Int.emod_eq_of_lt hlo hhi]
  omega

/-- The length of the warmup does not wrap, as a delay is a microsecond at least. -/
theorem toNat_packets_in_first_5_seconds (hpos : 1 ≤ delay_us set) :
    ((packets_in_first_5_seconds set).toNat : ℤ) = 1000000000 / delay_ns set * 5 := by
  have hkilo := le_delay_ns hpos
  have hmicro : (1000000000 : ℤ) / delay_ns set ≤ 1000000 := by
    apply Int.ediv_le_of_le_mul (by omega)
    omega
  have hnonneg : 0 ≤ (1000000000 : ℤ) / delay_ns set := Int.ediv_nonneg (by norm_num) (by omega)
  rw [packets_in_first_5_seconds, UInt32.toNat_ofNat', Int.tdiv_eq_ediv_of_nonneg (by norm_num)]
  have hlo : 0 ≤ (1000000000 : ℤ) / delay_ns set * 5 := by omega
  have hhi : (1000000000 : ℤ) / delay_ns set * 5 < 2 ^ 32 := by omega
  exact toU32_eq_self hlo hhi

/-- A packet of the warmup, by its number. -/
theorem packet_len_ofNat (hpos : 1 ≤ delay_us set) (k : ℕ) :
    packet_len set (UInt32.ofNat k) =
      if (k % 2 ^ 32 : ℕ) < (1000000000 : ℤ) / delay_ns set * 5 then 24 else set.packet_size := by
  have hlt : UInt32.ofNat k < packets_in_first_5_seconds set ↔
      (k % 2 ^ 32 : ℕ) < (1000000000 : ℤ) / delay_ns set * 5 := by
    rw [UInt32.lt_iff_toNat_lt, UInt32.toNat_ofNat', ← toNat_packets_in_first_5_seconds hpos,
      Nat.cast_lt]
  simp only [packet_len, hlt]

/-- **The packets of a probe.** Packet `k` carries the id of the start, its own time of sending and its
number. It is a short one for the number of packets that fit into five seconds, and again whenever the
number comes round. It is not sent before the start and `k` delays, unless its deadline is refused. -/
theorem probe_schedule (h : Sends set t0 readings packets) (hpos : 1 ≤ delay_us set) {k : ℕ}
    {ts : ClockTime} (hk : readings[k]? = some ts) :
    ∃ packet, packets[k]? = some packet ∧
      IsProbePacket packet (probe_id t0) ts (UInt32.ofNat k) ∧
      packet.length = (if (k % 2 ^ 32 : ℕ) < (1000000000 : ℤ) / delay_ns set * 5 then 24
        else set.packet_size) ∧
      (Awaited set t0 k → t0.nanos + k * delay_ns set ≤ ts.nanos) := by
  obtain ⟨s, packet, hbefore, hawake, hpacket, rfl⟩ := h.before hpos hk
  refine ⟨_, hpacket, ?_, ?_, fun hawaited ↦ (hbefore.awaits hawaited).trans hawake⟩
  · rw [← hbefore.id_eq, ← hbefore.seq_eq]
    exact isProbePacket_written set s.probe ts
  · rw [Buffer.length_slice, hbefore.seq_eq, packet_len_ofNat hpos]

/-- Two packets each second. -/
private def half : Settings where
  kbps := 2
  packet_size := 25
  overhead := 100
  size_ge := by decide
  size_le := by decide
  kbps_ge := by decide
  delay_le := by decide

/-- The second packet half a second late. -/
private theorem sends_half : ∃ packets, Sends half (.seconds 5) [.seconds 5, .seconds 6] packets := by
  obtain ⟨s0, hstart, hawake, hnext⟩ : ∃ s0, Sender.start half (fun _ ↦ 0) (.seconds 5) = some s0 ∧
      s0.awake = 5000000000 ∧ s0.ts_next = ⟨5, 0⟩ := by
    rw [Sender.start, Probe.start_eq]
    exact ⟨_, rfl, rfl, rfl⟩
  have hfirst : s0.awake ≤ (ClockTime.seconds 5).nanos := by
    rw [hawake]
    decide
  have hsecond : (s0.sent half (.seconds 5)).awake ≤ (ClockTime.seconds 6).nanos := by
    rw [Sender.sent, hnext]
    dsimp only
    decide
  exact ⟨_, _, s0, _, hstart, transduce_cons_eq_some.mpr
    ⟨_, _, _, sender1_eq_some.mpr ⟨hfirst, rfl, rfl⟩, transduce_cons_eq_some.mpr
      ⟨_, _, _, sender1_eq_some.mpr ⟨hsecond, rfl, rfl⟩, rfl, rfl⟩, rfl⟩⟩

theorem probe_schedule_half : ∃ packets, Sends half (.seconds 5) [.seconds 5, .seconds 6] packets ∧
    ∃ packet, packets[1]? = some packet ∧ IsProbePacket packet (probe_id (.seconds 5)) (.seconds 6) 1 ∧
      packet.length = 24 ∧ 5500000000 ≤ (ClockTime.seconds 6).nanos := by
  obtain ⟨packets, h⟩ := sends_half
  obtain ⟨packet, hpacket, hheader, hlen, hlate⟩ :=
    probe_schedule h (show 1 ≤ delay_us half by decide) (k := 1) rfl
  refine ⟨packets, h, packet, hpacket, hheader, hlen.trans (if_pos (by decide)), ?_⟩
  exact hlate (Or.inr (by decide))

/-- A start at which no deadline is awaited. -/
theorem Unpaced.exists_transduce (h : Unpaced set t0) (hpos : 1 ≤ delay_us set) (n : ℕ) {k : ℕ} {s : Sender}
    (hs : Before set t0 k s) (hawake : s.awake = t0.nanos) :
    ∃ packets s', transduce (sender1 set) s (List.replicate n t0) = some (packets, s') := by
  induction n generalizing k s with
  | zero => exact ⟨[], s, rfl⟩
  | succ n ih =>
    have hsend := sender1_eq_some.mpr ⟨hawake.le, rfl, Eq.refl (s.sent set t0)⟩
    have hawake' : (s.sent set t0).awake = t0.nanos := by
      rw [Sender.sent]
      dsimp only
      rw [hs.ts_next_eq, ← ts_next, if_neg]
      exact fun haccepted ↦ not_awaited h k ((accepted_iff hpos k).mp haccepted)
    obtain ⟨packets, s', hrun⟩ := ih (hs.sent hpos hawake.le) hawake'
    exact ⟨_, s', transduce_cons_eq_some.mpr ⟨_, _, packets, hsend, hrun, rfl⟩⟩

theorem Unpaced.exists_sends (h : Unpaced set t0) (hpos : 1 ≤ delay_us set) (n : ℕ) :
    ∃ packets, Sends set t0 (List.replicate n t0) packets := by
  obtain ⟨s0, hstart, hawake⟩ :
      ∃ s0, Sender.start set (fun _ ↦ 0) t0 = some s0 ∧ s0.awake = t0.nanos := by
    rw [Sender.start, Probe.start_eq]
    exact ⟨_, rfl, rfl⟩
  obtain ⟨packets, s, hrun⟩ := h.exists_transduce hpos n (before_start hpos hstart) hawake
  exact ⟨packets, _, s0, s, hstart, hrun⟩

/-- **The rate of a probe.** In every run each packet is at most one delay early, so that the packets up
to any time are no more than the rate allows and one. The exception is a delay of a whole second from a
start at a whole second: then any number of packets may be sent at the time of the start. -/
theorem probe_rate_iff (set : Settings) (t0 : ClockTime) (hpos : 1 ≤ delay_us set) :
    ((∀ readings packets, Sends set t0 readings packets →
        ∀ (k : ℕ) (ts : ClockTime), readings[k]? = some ts →
          t0.nanos + (k - 1) * delay_ns set ≤ ts.nanos) ↔
      ¬Unpaced set t0) ∧
    (Unpaced set t0 → ∀ n, ∃ packets, Sends set t0 (List.replicate n t0) packets) := by
  refine ⟨⟨fun hrate hunpaced ↦ ?_, fun hpaced readings packets h k ts hk ↦ ?_⟩,
    fun hunpaced n ↦ hunpaced.exists_sends hpos n⟩
  · -- the third packet would be a whole second early
    obtain ⟨packets, h⟩ := hunpaced.exists_sends hpos 3
    have hlate := hrate _ packets h 2 t0 rfl
    have hkilo := le_delay_ns hpos
    push_cast at hlate
    omega
  · obtain ⟨s, packet, hbefore, hawake, -⟩ := h.before hpos hk
    exact (hbefore.rate hpaced).trans hawake

/-- At two packets a second none is more than one delay early. -/
theorem probe_rate_half : 1 ≤ delay_us half ∧
    ∀ readings packets, Sends half (.seconds 5) readings packets →
      ∀ (k : ℕ) (ts : ClockTime), readings[k]? = some ts →
        (ClockTime.seconds 5).nanos + (k - 1) * delay_ns half ≤ ts.nanos :=
  ⟨by decide, (probe_rate_iff half (.seconds 5) (by decide)).1.mpr fun h ↦ absurd h.1 (by decide)⟩

end Runs

end ViTools.UdpTsSeqReply
