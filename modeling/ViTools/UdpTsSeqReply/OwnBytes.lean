import ViTools.UdpTsSeqReply.RoundTrip

/-!
# Whose bytes a report shows

The decoder of `measure` reads the first 46 bytes of its buffer, and the buffer keeps what it had where a
datagram is shorter. So the fields of a short datagram are made of bytes of the datagrams before it, or of
what the memory held when the program started, and go on into the smallest round trip and the base time.

With 46 bytes or more in every datagram nothing of this happens: whatever was in the buffer, the reports
and all the other variables are the same.
-/

namespace ViTools.UdpTsSeqReply

/-! ## The first 46 bytes -/

theorem stampAt_congr {b c : Buffer} {off : ℕ}
    (h : ∀ j, off ≤ j → j < off + 16 → b.byte j = c.byte j) : stampAt b off = stampAt c off := by
  have hslice : ∀ k, k + 4 ≤ 16 → b.slice (off + k) 4 = c.slice (off + k) 4 := by
    intro k hk
    exact Buffer.slice_congr fun j hj hj' ↦ h j (by omega) (by omega)
  have hfirst : b.slice off 4 = c.slice off 4 := hslice 0 (by decide)
  rw [stampAt, stampAt, hfirst, hslice 4 (by decide), hslice 8 (by decide), hslice 12 (by decide)]

/-- All that is decoded comes from the first 46 bytes. -/
theorem decoded_congr {b c : Buffer} (h : ∀ j < 46, b.byte j = c.byte j) : decoded b = decoded c := by
  have hfirst : stampAt b 0 = stampAt c 0 := stampAt_congr fun j _ hj ↦ h j (by omega)
  have hsecond : stampAt b 30 = stampAt c 30 := stampAt_congr fun j _ hj ↦ h j (by omega)
  have hid : b.slice 22 4 = c.slice 22 4 := Buffer.slice_congr fun j _ hj ↦ h j (by omega)
  simp only [decoded, hfirst, hsecond, hid, h 16 (by decide), h 17 (by decide), h 18 (by decide),
    h 19 (by decide), h 20 (by decide), h 21 (by decide)]

/-- The last of them shows in the number of the probe packet. -/
theorem byte_eq_of_seq1_eq {b c : Buffer} (h : (decoded b).seq1 = (decoded c).seq1) :
    b.byte 45 = c.byte 45 := by
  -- undo the byte order, then the packing of four bytes
  have hnat : ntohl (memNat32 (b.slice 42 4)) = ntohl (memNat32 (c.slice 42 4)) := h
  have hmem : memNat32 (b.slice 42 4) = memNat32 (c.slice 42 4) := by
    rw [← byteSwap32_byteSwap32 (memNat32 (b.slice 42 4))]
    exact (congrArg byteSwap32 hnat).trans (byteSwap32_byteSwap32 _)
  have hslice : b.slice 42 4 = c.slice 42 4 := by
    rw [← memBytes32_memNat32 (b.length_slice 42 4), hmem, memBytes32_memNat32 (c.length_slice 42 4)]
  rw [show 4 = 3 + 1 from rfl, Buffer.slice_add, Buffer.slice_add, Buffer.slice_one,
    Buffer.slice_one] at hslice
  exact List.singleton_inj.mp (List.append_inj' hslice rfl).2

section Filled

variable (m m' : Measure) {bytes : List UInt8}

/-- What a datagram is decoded as is up to it alone, if it is long enough. -/
theorem decoded_filled_congr (h : 46 ≤ bytes.length) :
    decoded (m.filled bytes) = decoded (m'.filled bytes) := by
  refine decoded_congr fun j hj ↦ ?_
  have hin : 0 ≤ j ∧ j < 0 + (bytes.take 65536).length := by
    rw [List.length_take]
    omega
  rw [Measure.filled, Measure.filled, Buffer.put, Buffer.put]
  dsimp only
  rw [if_pos hin, if_pos hin]

theorem Measure.byte_filled_of_ge {j : ℕ} (h : bytes.length ≤ j) : (m.filled bytes).byte j = m.buf j := by
  refine Buffer.byte_put_of_ge _ _ ?_
  rw [List.length_take]
  omega

end Filled

/-! ## Runs with different memory -/

/-- The variables that go into later reports. -/
structure Kept where
  /-- The number of replies. -/
  seq3 : UInt32
  /-- The server's time at the start, as the fastest reply has it. -/
  basets2 : Timespec
  /-- The smallest round trip in milliseconds. -/
  minrtt : UInt32
  /-- The address of the reply before. -/
  previp : Vector UInt8 4
  /-- The port of the reply before. -/
  prevport : UInt16

/-- These variables of the loop. -/
def Measure.kept (m : Measure) : Kept := ⟨m.seq3, m.basets2, m.minrtt, m.previp, m.prevport⟩

/-- The same variables but for the contents of the buffer, and of `info` before the first reply. -/
structure Measure.Agree (m m' : Measure) : Prop where
  kept : m.kept = m'.kept
  firstreport : m.firstreport = m'.firstreport
  outage_reported : m.outage_reported = m'.outage_reported
  info : m.firstreport = false → m.info = m'.info

/-- Every datagram reaches to the last byte that is decoded. -/
def LongEnough (p : Poll) : Prop := ∀ bytes, p.received = .datagram bytes → 46 ≤ bytes.length

theorem longEnough_datagram_iff {check now : ClockTime} {bytes : List UInt8} :
    LongEnough ⟨check, .datagram bytes, now⟩ ↔ 46 ≤ bytes.length :=
  ⟨fun h ↦ h bytes rfl, fun h _ heq ↦ Received.datagram.inj heq ▸ h⟩

namespace Measure

variable {m m' : Measure}

theorem agree_start (garbage garbage' : ℕ → UInt8) (info info' : Snapshot) :
    (start garbage info).Agree (start garbage' info') := ⟨rfl, rfl, rfl, nofun⟩

/-- A reply that is decoded in the same way is reported in the same way. -/
theorem report_reply_agree (h : m.kept = m'.kept) (start : ClockTime) (b c : ℕ → UInt8) (d : Decoded)
    (ret : ℕ) (now : ClockTime) :
    (report_reply start { m with buf := b } d ret now).1
        = (report_reply start { m' with buf := c } d ret now).1 ∧
      (report_reply start { m with buf := b } d ret now).2.Agree
        (report_reply start { m' with buf := c } d ret now).2 := by
  obtain ⟨hseq, hbase, hmin, -, -⟩ := Kept.mk.inj h
  simp only [report_reply, update_base, hseq, hmin, hbase, true_and]
  exact ⟨rfl, rfl, rfl, fun _ ↦ rfl⟩

/-- A datagram that is long enough has the same effect. -/
theorem replied_agree (h : m.kept = m'.kept) (start : ClockTime) {bytes : List UInt8}
    (hlen : 46 ≤ bytes.length) (now : ClockTime) :
    (m.replied start bytes now).1 = (m'.replied start bytes now).1 ∧
      (m.replied start bytes now).2.Agree (m'.replied start bytes now).2 := by
  rw [replied, replied, decoded_filled_congr m m' hlen]
  exact report_reply_agree h ..

theorem endpoint_lines_eq (h : m.kept = m'.kept) (ip : Vector UInt8 4) (port : UInt16) :
    endpoint_lines m ip port = endpoint_lines m' ip port := by
  obtain ⟨-, -, -, hip, hport⟩ := Kept.mk.inj h
  rw [endpoint_lines, endpoint_lines, hip, hport]

namespace Agree

variable (h : m.Agree m')
include h

theorem check_clogged_eq (check : ClockTime) : check_clogged m check = check_clogged m' check := by
  rw [check_clogged, check_clogged, ← h.firstreport]
  cases hfirst : m.firstreport with
  | true => rfl
  | false => rw [h.info hfirst]

theorem unheard {outage outage' : Bool} (heq : outage = outage') (now : ClockTime) :
    (m.unheard now outage).Agree (m'.unheard now outage') where
  kept := h.kept
  firstreport := h.firstreport
  outage_reported := heq
  info hfirst := congrArg (fun i : Snapshot ↦ { i with ts3 := now.toTimespec }) (h.info hfirst)

/-- **One iteration.** It prints the same and leaves the same variables. -/
theorem measure1 (start : ClockTime) {p : Poll} (hlong : LongEnough p) :
    ∃ lines n n', measure1 start m p = some (lines, n) ∧ measure1 start m' p = some (lines, n') ∧
      n.Agree n' := by
  obtain ⟨check, received, now⟩ := p
  cases received with
  | datagram bytes =>
    have hlen : 46 ≤ bytes.length := hlong bytes rfl
    obtain ⟨hreport, hagree⟩ := replied_agree h.kept start hlen now
    refine ⟨_, _, _, measure1_datagram_eq start m check now bytes, ?_, hagree⟩
    rw [measure1_datagram_eq, h.check_clogged_eq, hreport, endpoint_lines_eq h.kept,
      decoded_filled_congr m m' hlen]
  | eagain =>
    refine ⟨_, _, _, measure1_eagain start m check now, ?_, h.unheard rfl now⟩
    rw [measure1_eagain, h.check_clogged_eq, h.outage_reported]
  | error =>
    refine ⟨_, _, _, measure1_error start m check now, ?_, h.unheard h.outage_reported now⟩
    rw [measure1_error, h.check_clogged_eq]

end Agree

end Measure

/-! ## Runs with the same datagrams -/

/-- What is received, and when. -/
def heard : List Poll → List (List UInt8 × ClockTime)
  | [] => []
  | ⟨_, .datagram bytes, now⟩ :: polls => (bytes, now) :: heard polls
  | ⟨_, .eagain, _⟩ :: polls => heard polls
  | ⟨_, .error, _⟩ :: polls => heard polls

theorem forall_longEnough_iff {polls : List Poll} :
    (∀ p ∈ polls, LongEnough p) ↔ ∀ q ∈ heard polls, 46 ≤ q.1.length := by
  induction polls with
  | nil => simp [heard]
  | cons p polls ih =>
    obtain ⟨check, received, now⟩ := p
    rw [List.forall_mem_cons, ih]
    cases received with
    | datagram bytes => rw [heard, List.forall_mem_cons, longEnough_datagram_iff]
    | eagain => exact and_iff_right nofun
    | error => exact and_iff_right nofun

/-- The reports and the variables kept, from what is received alone. The memory is that of `m`. -/
def replies (start : ClockTime) (m : Measure) : List (List UInt8 × ClockTime) → List Report × Kept
  | [] => ([], m.kept)
  | (bytes, now) :: rest =>
    let r := m.replied start bytes now
    let q := replies start r.2 rest
    (r.1 :: q.1, q.2)

/-- Whatever the memory, timeouts, errors and the clock before each call have no part in it. -/
theorem run_replies (start : ClockTime) {polls : List Poll} (hlong : ∀ p ∈ polls, LongEnough p)
    {m m' : Measure} (h : m.kept = m'.kept) :
    ∃ out n, transduce (measure1 start) m polls = some (out, n) ∧
      (reports out, n.kept) = replies start m' (heard polls) := by
  induction polls generalizing m m' with
  | nil => exact ⟨[], m, rfl, congrArg (Prod.mk []) h⟩
  | cons p polls ih =>
    obtain ⟨hp, hrest⟩ := List.forall_mem_cons.mp hlong
    obtain ⟨check, received, now⟩ := p
    cases received with
    | datagram bytes =>
      obtain ⟨hreport, hagree⟩ := Measure.replied_agree h start (hp bytes rfl) now
      obtain ⟨out, n, hrun, heq⟩ := ih hrest hagree.kept
      refine ⟨_, n, transduce_cons_eq_some.mpr ⟨_, _, out, measure1_datagram_eq .., hrun, rfl⟩, ?_⟩
      rw [reports_cons, report_lines, hreport, heard, replies, ← heq]
      rfl
    | eagain =>
      obtain ⟨out, n, hrun, heq⟩ := ih hrest (m := m.unheard now true) h
      refine ⟨_, n, transduce_cons_eq_some.mpr ⟨_, _, out, measure1_eagain .., hrun, rfl⟩, ?_⟩
      rw [reports_cons, heard, ← heq, List.filterMap_append, check_clogged_no_report]
      split <;> rfl
    | error =>
      obtain ⟨out, n, hrun, heq⟩ := ih hrest (m := m.unheard now m.outage_reported) h
      refine ⟨_, n, transduce_cons_eq_some.mpr ⟨_, _, out, measure1_error .., hrun, rfl⟩, ?_⟩
      rw [reports_cons, heard, ← heq, List.filterMap_append, check_clogged_no_report]
      rfl

/-! ## The result -/

/-- What a report shows of its datagram. -/
def Report.decoded (r : Report) : Decoded where
  ts1 := r.info.ts1
  ts2 := r.info.ts2
  seq1 := r.info.seq1
  seq2 := r.info.seq2
  ip := r.info.ip
  port := r.info.port
  id := r.id

/-- A report of `p` can show `d` when `before` came before it, for some contents of the memory. -/
def Shown (start : ClockTime) (before : List Poll) (p : Poll) (d : Decoded) : Prop :=
  ∃ garbage info out m lines m' r,
    transduce (measure1 start) (.start garbage info) before = some (out, m) ∧
      measure1 start m p = some (lines, m') ∧ .report r ∈ lines ∧ r.decoded = d

/-- The reports of a run depend on nothing but what is received in it. -/
structure OwnBytes (start : ClockTime) (polls : List Poll) : Prop where
  /-- At any time, what was received alone decides about the reports and the variables kept. -/
  received : ∀ before, before <+: polls → ∀ other, heard other = heard before →
    ∀ garbage info garbage' info', ∃ out m out' m',
      transduce (measure1 start) (.start garbage info) before = some (out, m) ∧
        transduce (measure1 start) (.start garbage' info') other = some (out', m') ∧
        reports out = reports out' ∧ m.kept = m'.kept
  /-- All the output is the same in another memory. -/
  printed : ∀ garbage info garbage' info', ∃ out m m',
    transduce (measure1 start) (.start garbage info) polls = some (out, m) ∧
      transduce (measure1 start) (.start garbage' info') polls = some (out, m')
  /-- A report shows the same, whatever was received before. -/
  shown : ∀ before p, before ++ [p] <+: polls → ∀ other d d', Shown start before p d →
    Shown start other p d' → d = d'

/-- A report shows what is decoded from the buffer after its datagram. -/
theorem decoded_of_report_mem {start : ClockTime} {m m' : Measure} {p : Poll} {lines : List Line}
    {r : Report} (h : measure1 start m p = some (lines, m')) (hr : .report r ∈ lines) :
    ∃ bytes, p.received = .datagram bytes ∧ r.decoded = decoded (m.filled bytes) := by
  have hmem : r ∈ lines.filterMap Line.report? := List.mem_filterMap.mpr ⟨_, hr, rfl⟩
  obtain ⟨check, received, now⟩ := p
  cases received with
  | datagram bytes =>
    rw [measure1_datagram_eq] at h
    cases h
    rw [report_lines, List.mem_singleton] at hmem
    exact ⟨bytes, rfl, hmem ▸ rfl⟩
  | eagain =>
    rw [measure1_eagain] at h
    cases h
    rw [List.filterMap_append, check_clogged_no_report] at hmem
    split at hmem <;> cases hmem
  | error =>
    rw [measure1_error] at h
    cases h
    rw [List.filterMap_append, check_clogged_no_report] at hmem
    cases hmem

theorem shown_datagram {start : ClockTime} {before : List Poll} {garbage : ℕ → UInt8} {info : Snapshot}
    {out : List (List Line)} {m : Measure}
    (hrun : transduce (measure1 start) (.start garbage info) before = some (out, m))
    (check now : ClockTime) (bytes : List UInt8) :
    Shown start before ⟨check, .datagram bytes, now⟩ (decoded (m.filled bytes)) := by
  refine ⟨garbage, info, out, m, _, _, (m.replied start bytes now).1, hrun, measure1_datagram_eq ..,
    ?_, rfl⟩
  exact List.mem_append_left _ (List.mem_append_right _ List.mem_cons_self)

/-- The last number decoded shows a byte of the memory. -/
theorem not_shown_once (start : ClockTime) (before : List Poll) (check now : ClockTime)
    (bytes : List UInt8) (hlen : bytes.length ≤ 45) :
    ∃ d d', Shown start before ⟨check, .datagram bytes, now⟩ d ∧
      Shown start [] ⟨check, .datagram bytes, now⟩ d' ∧ d ≠ d' := by
  obtain ⟨out, m, hrun⟩ := exists_run start before (.start (fun _ ↦ 0) default)
  -- a memory that differs in the last byte decoded
  let other : Measure := .start (fun _ ↦ m.buf 45 + 1) default
  refine ⟨_, _, shown_datagram hrun check now bytes, shown_datagram (m := other) rfl check now bytes,
    fun heq ↦ ?_⟩
  have hbyte : (m.filled bytes).byte 45 = (other.filled bytes).byte 45 :=
    byte_eq_of_seq1_eq (congrArg Decoded.seq1 heq)
  rw [m.byte_filled_of_ge hlen, other.byte_filled_of_ge hlen] at hbyte
  simp [other, Measure.start] at hbyte

theorem OwnBytes.of_longEnough {start : ClockTime} {polls : List Poll} (hlong : ∀ p ∈ polls, LongEnough p) :
    OwnBytes start polls where
  received := by
    intro before hbefore other hother garbage info garbage' info'
    have hlong₁ : ∀ p ∈ before, LongEnough p := fun p hp ↦ hlong p (hbefore.subset hp)
    have hlong₂ : ∀ p ∈ other, LongEnough p :=
      forall_longEnough_iff.mpr (hother ▸ forall_longEnough_iff.mp hlong₁)
    have hkept := (Measure.agree_start garbage garbage' info info').kept
    -- both runs come to what `replies` computes from what is heard
    obtain ⟨out, m, hrun, heq⟩ := run_replies start hlong₁ hkept
    obtain ⟨out', m', hrun', heq'⟩ :=
      run_replies start hlong₂ (rfl : (Measure.start garbage' info').kept = _)
    rw [hother] at heq'
    obtain ⟨hreports, hkept'⟩ := Prod.mk.inj (heq.trans heq'.symm)
    exact ⟨out, m, out', m', hrun, hrun', hreports, hkept'⟩
  printed := by
    intro garbage info garbage' info'
    have hstep : ∀ p ∈ polls, ∀ m m', Measure.Agree m m' → ∃ lines n n',
        measure1 start m p = some (lines, n) ∧ measure1 start m' p = some (lines, n') ∧ n.Agree n' :=
      fun p hp m m' h ↦ h.measure1 start (hlong p hp)
    obtain ⟨out, m, m', hrun, hrun', -⟩ :=
      transduce_related hstep (Measure.agree_start garbage garbage' info info')
    exact ⟨out, m, m', hrun, hrun'⟩
  shown := by
    rintro before p hp other d d' ⟨_, _, _, m, lines, _, r, -, hm, hr, rfl⟩
      ⟨_, _, _, m', lines', _, r', -, hm', hr', rfl⟩
    obtain ⟨bytes, hbytes, hr⟩ := decoded_of_report_mem hm hr
    obtain ⟨bytes', hbytes', hr'⟩ := decoded_of_report_mem hm' hr'
    obtain rfl := Received.datagram.inj (hbytes.symm.trans hbytes')
    have hmem : p ∈ polls := hp.subset (List.mem_append_right _ List.mem_cons_self)
    rw [hr, hr', decoded_filled_congr m m' (hlong p hmem bytes hbytes)]

/-- **Whose bytes.** The reports depend on nothing but what is received exactly if every datagram has
the 46 bytes that are decoded. -/
theorem ownBytes_iff (start : ClockTime) (polls : List Poll) :
    OwnBytes start polls ↔ ∀ p ∈ polls, LongEnough p := by
  constructor
  · rintro h ⟨check, received, now⟩ hp bytes hbytes
    dsimp only at hbytes
    subst hbytes
    obtain ⟨before, after, rfl⟩ := List.append_of_mem hp
    by_contra hlen
    -- two memories show different bytes
    obtain ⟨d, d', hd, hd', hne⟩ := not_shown_once start before check now bytes (by omega)
    refine hne (h.shown before _ ?_ [] d d' hd hd')
    exact ⟨after, by rw [List.append_assoc, List.singleton_append]⟩
  · exact OwnBytes.of_longEnough

/-- A reply full of ones, and then an empty datagram. -/
private def leftover : List Poll :=
  [⟨.seconds 1, .datagram (List.replicate 46 1), .seconds 1⟩, ⟨.seconds 2, .datagram [], .seconds 2⟩]

/-- The empty datagram is reported with the number of the one before. -/
theorem not_ownBytes_leftover :
    (transduce (measure1 (.seconds 0)) (.start (fun _ ↦ 0) default) leftover).map
        (fun q ↦ (reports q.1).map fun r ↦ (r.ret, r.info.seq1))
      = some [(46, 0x01010101), (0, 0x01010101)] ∧
    ¬OwnBytes (.seconds 0) leftover := by
  refine ⟨by decide +kernel, fun h ↦ ?_⟩
  obtain ⟨d, d', hd, hd', hne⟩ := not_shown_once (.seconds 0) [leftover[0]] (.seconds 2) (.seconds 2)
    [] (by decide)
  exact hne (h.shown [leftover[0]] _ (List.prefix_refl _) [] d d' hd hd')

end ViTools.UdpTsSeqReply
