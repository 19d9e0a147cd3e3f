import ViTools.UdpTsSeqReply.Serve

/-!
# The receiving half of a probe

`measure` receives replies in a loop, decodes them and prints a report for each. `measure1` is one
iteration: a datagram, a timeout or an error, with the two clock readings the iteration makes.

The decoder reads fixed offsets of a buffer that survives the iterations, whatever was received. Its
spec lemma `decode_of_slices` therefore speaks about parts of the buffer.
-/

namespace ViTools.UdpTsSeqReply

/-! ## Decoding -/

/-- Read a time and a sequence number at an offset. Seconds are put together as 64 bits and are
signed. -/
def load_stamp (buf : Buffer) (off : ℕ) : Option (Timespec × UInt32) := do
  let high ← (buf.load off 4).map memNat32
  let low ← (buf.load (off + 4) 4).map memNat32
  let nano ← (buf.load (off + 8) 4).map memNat32
  let seq ← (buf.load (off + 12) 4).map memNat32
  let sec := (ntohl high).toNat <<< 32 ||| (ntohl low).toNat
  some ({ tv_sec := wrap64 sec, tv_nsec := (ntohl nano).toNat }, ntohl seq)

/-- What is read from a reply. -/
structure Decoded where
  /-- The time of sending. -/
  ts1 : Timespec
  /-- The time at the server. -/
  ts2 : Timespec
  /-- The number of the probe packet. -/
  seq1 : UInt32
  /-- The number the server gave it. -/
  seq2 : UInt32
  /-- The source address the server saw. -/
  ip : Vector UInt8 4
  /-- The source port the server saw. -/
  port : UInt16
  /-- The client id. -/
  id : UInt32
  deriving DecidableEq

/-- Two plain `char`s xored, as an `int`. -/
def xor_chars (c m : UInt8) : BitVec 32 := promote c ^^^ promote m

/-- `info.port` from the two masked bytes. -/
def unmask_port (b0 b1 : UInt8) : UInt16 :=
  UInt16.ofNat ((((xor_chars b0 PORT_MASK[0]!).setWidth 16).toNat <<< 8)
    + ((xor_chars b1 PORT_MASK[1]!).setWidth 16).toNat)

/-- A byte of `info.ip` from the masked byte. -/
def unmask_ip (b m : UInt8) : UInt8 := ⟨(xor_chars b m).setWidth 8⟩

/-- Read all fields of a reply. -/
def decode (buf : Buffer) : Option Decoded := do
  let (ts2, seq2) ← load_stamp buf 0
  let ip0 := unmask_ip (← buf.get 16) IP_MASK[0]!
  let ip1 := unmask_ip (← buf.get 17) IP_MASK[1]!
  let ip2 := unmask_ip (← buf.get 18) IP_MASK[2]!
  let ip3 := unmask_ip (← buf.get 19) IP_MASK[3]!
  let port := unmask_port (← buf.get 20) (← buf.get 21)
  let id ← (buf.load (22 + 0) 4).map memNat32
  let (ts1, seq1) ← load_stamp buf (22 + 8)
  some { ts1, ts2, seq1, seq2, ip := #v[ip0, ip1, ip2, ip3], port, id }

/-! ## One iteration -/

/-- `struct snapshot`. -/
structure Snapshot where
  /-- The time of sending. -/
  ts1 : Timespec
  /-- The time at the server. -/
  ts2 : Timespec
  /-- The time of receiving, or of the last timeout. -/
  ts3 : Timespec
  /-- The number of the probe packet. -/
  seq1 : UInt32
  /-- The number the server gave it. -/
  seq2 : UInt32
  /-- The number of replies received before. -/
  seq3 : UInt32
  /-- The source address the server saw. -/
  ip : Vector UInt8 4
  /-- The source port the server saw. -/
  port : UInt16
  deriving Inhabited

/-- The variables of the loop. -/
structure Measure where
  /-- The bytes of the buffer. -/
  buf : ℕ → UInt8
  /-- Nothing was received yet. -/
  firstreport : Bool
  /-- Nothing was received since an outage was reported. -/
  outage_reported : Bool
  /-- The last reply. -/
  info : Snapshot
  /-- The number of replies. -/
  seq3 : UInt32
  /-- The server's time at the start, as the fastest reply has it. -/
  basets2 : Timespec
  /-- The smallest round trip in milliseconds. -/
  minrtt : UInt32
  /-- The address of the reply before. -/
  previp : Vector UInt8 4
  /-- The port of the reply before. -/
  prevport : UInt16

/-- The variables before the loop. The buffer and `info` are on the stack and hold garbage at
first. -/
def Measure.start (garbage : ℕ → UInt8) (info : Snapshot) : Measure where
  buf := garbage
  firstreport := true
  outage_reported := false
  info := info
  seq3 := 0
  basets2 := ⟨0, 0⟩
  minrtt := 0xFFFFFFFF
  previp := #v[0, 0, 0, 0]
  prevport := 0

/-- What `recvfrom` does. -/
inductive Received
  /-- A datagram came. -/
  | datagram (bytes : List UInt8)
  /-- The timeout of the socket expired. -/
  | eagain
  /-- Another error. -/
  | error

/-- The input of one iteration. -/
structure Poll where
  /-- The clock before `recvfrom`. -/
  check : ClockTime
  /-- What `recvfrom` does. -/
  received : Received
  /-- The clock after `recvfrom`. -/
  now : ClockTime

/-- The values printed for a reply. -/
structure Report where
  /-- The time of sending in milliseconds since the start. -/
  t : ℤ
  /-- `cumseqloss_loc`. -/
  cumseqloss_loc : ℤ
  /-- `cumseqloss_rem`. -/
  cumseqloss_rem : ℤ
  /-- The round trip in milliseconds. -/
  rtt : ℤ
  /-- The smallest round trip so far. -/
  minrtt : UInt32
  /-- How much longer than the fastest reply the way to the server took. -/
  remote_d : ℤ
  /-- The decoded reply. -/
  info : Snapshot
  /-- The length of the reply. -/
  ret : ℕ
  /-- The client id. -/
  id : UInt32

namespace Report

/-- The second column: packets lost on the way to the server. -/
def loss_loc (r : Report) : ℤ := r.cumseqloss_loc - r.cumseqloss_rem

/-- The third column: the delay on the way to the server. -/
def delay_loc (r : Report) : ℤ := r.remote_d + (r.minrtt / 2).toNat

/-- The fourth column: replies lost. -/
def loss_rem (r : Report) : ℤ := r.cumseqloss_rem

/-- The fifth column: the delay of the reply. -/
def delay_rem (r : Report) : ℤ := r.rtt - r.remote_d - (r.minrtt / 2).toNat

end Report

/-- A line of output. -/
inductive Line
  /-- Printing the line before took so many milliseconds. -/
  | clogged (disc : ℤ)
  /-- The first timeout after a reply. -/
  | outage
  /-- Receiving failed. -/
  | error
  /-- A reply. -/
  | report (r : Report)
  /-- The source port changed. -/
  | new_port
  /-- The source address changed. -/
  | new_ip

/-- Whether the last line of output was clogged. -/
def check_clogged (m : Measure) (check : ClockTime) : List Line :=
  if !m.firstreport then
    let diff := timespec_diff m.info.ts3 check.toTimespec
    let disc := timespec_milli diff
    if disc > 3 then [.clogged disc] else []
  else []

/-- Whether `memcmp` finds no difference between two addresses. -/
def same_ip (a b : Vector UInt8 4) : Bool := a.toList == b.toList

/-- The lines after a report. -/
def endpoint_lines (m : Measure) (ip : Vector UInt8 4) (port : UInt16) : List Line :=
  if same_ip m.previp ip then
    if m.prevport ≠ port then [.new_port] else []
  else if same_ip m.previp #v[0, 0, 0, 0] then []
  else [.new_ip]

/-- `minrtt` and `basets2` after a reply. -/
def update_base (start : Timespec) (m : Measure) (info : Snapshot) (rtt : ℤ) : UInt32 × Timespec :=
  if m.minrtt.toNat > rtt then
    let d := timespec_diff info.ts1 info.ts2
    let basets2 : Timespec :=
      { tv_sec := start.tv_sec + d.tv_sec, tv_nsec := start.tv_nsec + d.tv_nsec }
    let basets2 : Timespec :=
      if basets2.tv_nsec > 1000 * 1000 * 1000 then
        { tv_sec := basets2.tv_sec + 1, tv_nsec := basets2.tv_nsec - 1000 * 1000 * 1000 }
      else basets2
    (UInt32.ofNat (toU32 rtt), basets2)
  else (m.minrtt, m.basets2)

/-- The report of a decoded reply of `ret` bytes, and the new variables. -/
def report_reply (start : ClockTime) (m : Measure) (d : Decoded) (ret : ℕ) (now : ClockTime) :
    Report × Measure :=
  let info : Snapshot :=
    { ts1 := d.ts1, ts2 := d.ts2, ts3 := now.toTimespec, seq1 := d.seq1, seq2 := d.seq2
      seq3 := m.seq3, ip := d.ip, port := d.port }
  let t := timespec_diff start.toTimespec info.ts1
  let cumseqloss_loc : ℤ := (info.seq1.toNat : ℤ) - info.seq3.toNat
  let cumseqloss_rem : ℤ := (info.seq2.toNat : ℤ) - info.seq3.toNat
  let rtt_ := timespec_diff info.ts1 info.ts3
  let rtt := timespec_milli rtt_
  let base := update_base start.toTimespec m info rtt
  let minrtt := base.1
  let basets2 := base.2
  let remote := timespec_diff basets2 info.ts2
  let remote_d_ := timespec_diff t remote
  let remote_d := timespec_milli remote_d_
  ({ t := timespec_milli t, cumseqloss_loc, cumseqloss_rem, rtt, minrtt, remote_d, info, ret
     id := d.id },
    { m with
      firstreport := false, outage_reported := false, info, seq3 := m.seq3 + 1, basets2, minrtt
      previp := info.ip, prevport := info.port })

/-- One iteration: the lines printed, or `none` for an access out of bounds. -/
def measure1 (start : ClockTime) (m : Measure) (p : Poll) : Option (List Line × Measure) :=
  let clogged := check_clogged m p.check
  match p.received with
  | .eagain =>
    some (clogged ++ (if !m.outage_reported then [.outage] else []),
      { m with outage_reported := true, info := { m.info with ts3 := p.now.toTimespec } })
  | .error =>
    some (clogged ++ [.error], { m with info := { m.info with ts3 := p.now.toTimespec } })
  | .datagram bytes => do
    let received := bytes.take 65536
    let buf ← (Buffer.mk 65536 m.buf).store 0 received
    let d ← decode buf
    let r := report_reply start { m with buf := buf.byte } d received.length p.now
    some (clogged ++ [.report r.1] ++ endpoint_lines m d.ip d.port, r.2)

section Nothing

variable (start : ClockTime) (m : Measure) (check now : ClockTime)

/-- The variables after a `recvfrom` that fails. -/
def Measure.unheard (outage_reported : Bool) : Measure :=
  { m with outage_reported, info := { m.info with ts3 := now.toTimespec } }

theorem measure1_eagain : measure1 start m ⟨check, .eagain, now⟩
    = some (check_clogged m check ++ (if !m.outage_reported then [.outage] else []),
      m.unheard now true) := rfl

theorem measure1_error : measure1 start m ⟨check, .error, now⟩
    = some (check_clogged m check ++ [.error], m.unheard now m.outage_reported) := rfl

end Nothing

/-! ## Reports -/

/-- The report of a line, if it is one. -/
def Line.report? : Line → Option Report
  | .report r => some r
  | _ => none

/-- The reports among all lines printed. -/
def reports (out : List (List Line)) : List Report := out.flatten.filterMap Line.report?

theorem reports_cons (lines : List Line) (out : List (List Line)) :
    reports (lines :: out) = lines.filterMap Line.report? ++ reports out := by
  rw [reports, List.flatten_cons, List.filterMap_append]
  rfl

theorem check_clogged_no_report (m : Measure) (check : ClockTime) :
    (check_clogged m check).filterMap Line.report? = [] := by
  rw [check_clogged]
  split
  · dsimp only
    split <;> rfl
  · rfl

theorem endpoint_lines_no_report (m : Measure) (ip : Vector UInt8 4) (port : UInt16) :
    (endpoint_lines m ip port).filterMap Line.report? = [] := by
  rw [endpoint_lines]
  split
  · split <;> rfl
  · split <;> rfl

/-- The lines printed for a datagram have one report. -/
theorem report_lines (m : Measure) (check : ClockTime) (r : Report) (ip : Vector UInt8 4)
    (port : UInt16) :
    (check_clogged m check ++ [Line.report r] ++ endpoint_lines m ip port).filterMap Line.report?
      = [r] := by
  rw [List.filterMap_append, List.filterMap_append, check_clogged_no_report,
    endpoint_lines_no_report, List.append_nil]
  rfl

end ViTools.UdpTsSeqReply
