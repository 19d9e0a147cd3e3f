import ViTools.Lib.CInt
import ViTools.UdpTsSeqReply.Serve

/-!
# The sending half of a probe

`probe` sends numbered packets in a loop, each with the client id, the signature and the time of
sending. `probe1` is one iteration. The pauses between packets only decide the times of sending,
which are arbitrary here.
-/

namespace ViTools.UdpTsSeqReply

/-- The settings `main` accepts. -/
structure Settings where
  /-- The rate in kilobits per second. -/
  kbps : ℤ
  /-- The size of a packet after the warmup. -/
  packet_size : ℕ
  /-- What the network adds to a packet. -/
  overhead : ℤ
  /-- A packet has room for the header. -/
  size_ge : 24 ≤ packet_size
  /-- A packet fits the buffer. -/
  size_le : packet_size ≤ 65536
  /-- There is a rate. -/
  kbps_ge : 1 ≤ kbps
  /-- At least one packet is sent each second, by the delay that `main` computes in `int`. -/
  delay_le : (twos 32 ((packet_size + overhead) * 8000)).tdiv kbps ≤ 1000000

/-- The time between two packets in microseconds, as `main` computes it for its check and its timeout. The
product is an `int` and wraps. -/
def delay_us (set : Settings) : ℤ :=
  (twos 32 ((set.packet_size + set.overhead) * 8000)).tdiv set.kbps

/-- The time between two packets in nanoseconds, in `probe`. This product is an `int`, too. -/
def delay_ns (set : Settings) : ℤ := twos 32 (delay_us set * 1000)

/-- How many packets are sent as short ones. -/
def packets_in_first_5_seconds (set : Settings) : UInt32 :=
  UInt32.ofNat (toU32 ((1000 * 1000 * 1000 : ℤ).tdiv (delay_ns set) * 5))

/-- The variables of the loop. -/
structure Probe where
  /-- The client id. -/
  id : UInt32
  /-- The bytes of the buffer. -/
  buf : ℕ → UInt8
  /-- The number of the next packet. -/
  seq_ : UInt32

/-- The state before the loop. The buffer is on the stack and holds garbage at first. -/
def Probe.start (set : Settings) (garbage : ℕ → UInt8) (ts_next : ClockTime) : Option Probe := do
  let buf ← (Buffer.mk 65536 garbage).store 0 (List.replicate set.packet_size 0)
  some
    { id := UInt32.ofNat (toU32 ts_next.tv_sec) ^^^ UInt32.ofNat (toU32 ts_next.tv_nsec)
      buf := buf.byte
      seq_ := 0 }

/-- The length of packet `seq_`: short ones during the warmup, to get the smallest round trip. -/
def packet_len (set : Settings) (seq_ : UInt32) : ℕ :=
  if seq_ < packets_in_first_5_seconds set then 24 else set.packet_size

/-- One iteration: the packet sent, or `none` for an access out of bounds. -/
def probe1 (set : Settings) (p : Probe) (ts : ClockTime) : Option (List UInt8 × Probe) := do
  let buf ← (Buffer.mk 65536 p.buf).store 0 (memBytes32 p.id)
  let buf ← buf.store 4 NEWPROTO_SIGNATURE
  let buf ← store_stamp buf 8 ts.toTimespec p.seq_
  let packet ← buf.load 0 (packet_len set p.seq_)
  some (packet, { p with buf := buf.byte, seq_ := p.seq_ + 1 })

/-! ## What an iteration sends -/

theorem Probe.start_eq (set : Settings) (garbage : ℕ → UInt8) (ts_next : ClockTime) :
    Probe.start set garbage ts_next = some
      { id := UInt32.ofNat (toU32 ts_next.tv_sec) ^^^ UInt32.ofNat (toU32 ts_next.tv_nsec)
        buf := ((Buffer.mk 65536 garbage).put 0 (List.replicate set.packet_size 0)).byte
        seq_ := 0 } := by
  have hle := set.size_le
  rw [start, Buffer.store_of_le (by rw [List.length_replicate]; dsimp only; omega)]
  rfl

theorem packet_len_ge (set : Settings) (seq : UInt32) : 24 ≤ packet_len set seq := by
  rw [packet_len]
  split
  · exact le_refl _
  · exact set.size_ge

theorem packet_len_le (set : Settings) (seq : UInt32) : packet_len set seq ≤ 65536 := by
  rw [packet_len]
  split
  · decide
  · exact set.size_le

/-- The header of a packet. -/
def probeHeader (id : UInt32) (ts : ClockTime) (seq : UInt32) : List UInt8 :=
  memBytes32 id ++ NEWPROTO_SIGNATURE ++ stamp ts.toTimespec seq

@[simp] theorem length_probeHeader (id : UInt32) (ts : ClockTime) (seq : UInt32) :
    (probeHeader id ts seq).length = 24 := by
  simp only [probeHeader, List.length_append, length_memBytes32, length_stamp]
  rfl

/-- The buffer with the header of the next packet. -/
def Probe.written (p : Probe) (ts : ClockTime) : Buffer :=
  (Buffer.mk 65536 p.buf).put 0 (probeHeader p.id ts p.seq_)

/-- **One iteration of the probe.** It never leaves its buffer, and this is its effect. -/
theorem probe1_eq (set : Settings) (p : Probe) (ts : ClockTime) :
    probe1 set p ts = some ((p.written ts).slice 0 (packet_len set p.seq_),
      { p with buf := (p.written ts).byte, seq_ := p.seq_ + 1 }) := by
  have hlen := packet_len_le set p.seq_
  have hsig : NEWPROTO_SIGNATURE.length = 4 := rfl
  have hwritten : (((Buffer.mk 65536 p.buf).put 0 (memBytes32 p.id)).put 4 NEWPROTO_SIGNATURE).put 8
      (stamp ts.toTimespec p.seq_) = p.written ts := by
    rw [Probe.written, probeHeader, ← Buffer.put_put_append, ← Buffer.put_put_append,
      List.length_append, length_memBytes32, hsig]
  rw [probe1, Buffer.store_of_le (by simp only [length_memBytes32]; omega)]
  simp only [Option.bind_eq_bind, Option.bind_some]
  rw [Buffer.store_of_le (by simp only [Buffer.size_put, hsig]; omega), Option.bind_some,
    store_stamp_of_le (by simp only [Buffer.size_put]; omega), Option.bind_some, hwritten,
    Buffer.load_of_le (by simp only [Probe.written, Buffer.size_put]; omega), Option.bind_some]

/-- A packet of a probe, by its header. -/
def IsProbePacket (packet : List UInt8) (id : UInt32) (ts : ClockTime) (seq : UInt32) : Prop :=
  packet.take 24 = probeHeader id ts seq

instance (packet : List UInt8) (id : UInt32) (ts : ClockTime) (seq : UInt32) :
    Decidable (IsProbePacket packet id ts seq) := inferInstanceAs (Decidable (_ = _))

theorem isProbePacket_written (set : Settings) (p : Probe) (ts : ClockTime) :
    IsProbePacket ((p.written ts).slice 0 (packet_len set p.seq_)) p.id ts p.seq_ := by
  have hge := packet_len_ge set p.seq_
  rw [IsProbePacket, ← Nat.add_sub_of_le hge, Buffer.slice_add, List.take_left' (by simp),
    Probe.written, Buffer.slice_put_eq _ (length_probeHeader ..)]

namespace IsProbePacket

variable {packet : List UInt8} {id : UInt32} {ts : ClockTime} {seq : UInt32}

theorem le_length (h : IsProbePacket packet id ts seq) : 24 ≤ packet.length := by
  have hlen := congrArg List.length h
  rw [length_probeHeader, List.length_take] at hlen
  omega

theorem eq_append (h : IsProbePacket packet id ts seq) :
    packet = probeHeader id ts seq ++ packet.drop 24 := by
  rw [← h, List.take_append_drop]

theorem signed (h : IsProbePacket packet id ts seq) : Signed packet := by
  rw [Signed, h.eq_append, probeHeader, List.append_assoc, List.append_assoc,
    List.drop_left' (length_memBytes32 id),
    List.take_left' (show NEWPROTO_SIGNATURE.length = 4 from rfl)]

theorem datagramId_eq (h : IsProbePacket packet id ts seq) : datagramId packet = id := by
  rw [datagramId, if_pos (by have := h.le_length; omega), h.eq_append, probeHeader,
    List.append_assoc, List.append_assoc, List.take_left' (length_memBytes32 id),
    memNat32_memBytes32]

end IsProbePacket

end ViTools.UdpTsSeqReply
