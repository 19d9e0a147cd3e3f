import ViTools.UdpTsSeqReply.OwnBytes
import ViTools.UdpTsSeqReply.Rebinding

/-!
# What `measure` prints

The variables of `measure` are a summary of what has happened. `firstreport` is whether nothing was received
yet, `outage_reported` is whether there was a timeout since the last datagram, and `info.ts3` is when the last
iteration ended. The buffer holds at each place the byte of the last datagram that reaches so far, or what the
memory held before; and the base of the delays and the endpoint of the reply before come from the replies as
they are decoded from it. So each iteration's lines are a function of that memory, of the iterations before it
and of its own, without the variables.

In particular one silence is reported once, however many timeouts it has.
-/

namespace ViTools.UdpTsSeqReply

/-! ## The history -/

theorem heard_append (polls polls' : List Poll) : heard (polls ++ polls') = heard polls ++ heard polls' := by
  induction polls with
  | nil => rfl
  | cons p polls ih =>
    obtain ⟨check, received, now⟩ := p
    cases received with
    | datagram bytes => rw [List.cons_append, heard, heard, ih, List.cons_append]
    | eagain => exact ih
    | error => exact ih

/-- There was a timeout, and no datagram since. -/
def TimedOut (polls : List Poll) : Prop :=
  ∃ before p after, polls = before ++ p :: after ∧ p.received = .eagain ∧ heard after = []

theorem timedOut_concat {polls : List Poll} {p : Poll} :
    TimedOut (polls ++ [p]) ↔ p.received = .eagain ∨ heard [p] = [] ∧ TimedOut polls := by
  constructor
  · rintro ⟨before, q, after, heq, hq, hafter⟩
    rcases List.eq_nil_or_concat after with rfl | ⟨after', r, rfl⟩
    · obtain ⟨-, h⟩ := List.append_inj' heq rfl
      cases h
      exact .inl hq
    · rw [List.concat_eq_append] at heq hafter
      rw [← List.cons_append, ← List.append_assoc] at heq
      obtain ⟨hpolls, h⟩ := List.append_inj' heq rfl
      cases h
      rw [heard_append, List.append_eq_nil_iff] at hafter
      exact .inr ⟨hafter.2, before, q, after', hpolls, hq, hafter.1⟩
  · rintro (hp | ⟨hp, before, q, after, rfl, hq, hafter⟩)
    · exact ⟨polls, p, [], rfl, hp, rfl⟩
    · refine ⟨before, q, after ++ [p], by simp, hq, ?_⟩
      rw [heard_append, hafter, hp, List.append_nil]

/-! ## The replies -/

/-- The byte at `j` after the datagrams were received: that of the last one that reaches so far. -/
def lastByte (garbage : ℕ → UInt8) (datagrams : List (List UInt8)) (j : ℕ) : UInt8 :=
  (datagrams.reverse.findSome? fun bytes ↦ (bytes.take 65536)[j]?).getD (garbage j)

/-- One more datagram. -/
theorem byte_filled {m : Measure} {garbage : ℕ → UInt8} {datagrams : List (List UInt8)}
    (h : m.buf = lastByte garbage datagrams) (bytes : List UInt8) :
    (m.filled bytes).byte = lastByte garbage (datagrams ++ [bytes]) := by
  funext j
  rw [lastByte, List.reverse_concat, List.findSome?_cons]
  by_cases hj : j < (bytes.take 65536).length
  · rw [List.getElem?_eq_getElem hj, Option.getD_some, Measure.filled, Buffer.put]
    dsimp only
    rw [if_pos ⟨Nat.zero_le j, by omega⟩, Nat.sub_zero, List.getD_eq_getElem _ _ hj]
  · rw [List.getElem?_eq_none (not_lt.mp hj), Measure.filled,
      Buffer.byte_put_of_ge _ _ (by omega), h]
    rfl

/-- What is decoded after the last of these datagrams. -/
def decodedAfter (garbage : ℕ → UInt8) (hist : List (List UInt8 × ClockTime)) : Decoded :=
  decoded ⟨65536, lastByte garbage (hist.map Prod.fst)⟩

/-- The replies as they are decoded, with the times of their receipt. -/
def decodedReplies (garbage : ℕ → UInt8) (hist : List (List UInt8 × ClockTime)) : List (Decoded × ClockTime) :=
  hist.mapIdx fun i h ↦ (decodedAfter garbage (hist.take (i + 1)), h.2)

theorem length_decodedReplies (garbage : ℕ → UInt8) (hist : List (List UInt8 × ClockTime)) :
    (decodedReplies garbage hist).length = hist.length := List.length_mapIdx

theorem decodedReplies_concat (garbage : ℕ → UInt8) (hist : List (List UInt8 × ClockTime))
    (h : List UInt8 × ClockTime) : decodedReplies garbage (hist ++ [h]) =
      decodedReplies garbage hist ++ [(decodedAfter garbage (hist ++ [h]), h.2)] := by
  have hall : (hist ++ [h]).take (hist.length + 1) = hist ++ [h] :=
    List.take_of_length_le List.length_append.le
  -- the later datagram has no part in the earlier replies
  have hearlier : hist.mapIdx (fun i x ↦ (decodedAfter garbage ((hist ++ [h]).take (i + 1)), x.2))
      = decodedReplies garbage hist := by
    rw [decodedReplies, List.mapIdx_eq_mapIdx_iff]
    intro i hi
    rw [List.take_append_of_le_length hi]
  rw [decodedReplies, List.mapIdx_concat, hall, hearlier]

/-- The smallest round trip and the base time after one more reply. -/
def lowerBase (start : ClockTime) (base : UInt32 × Timespec) (r : Decoded × ClockTime) : UInt32 × Timespec :=
  let rtt := timespec_milli (timespec_diff r.1.ts1 r.2.toTimespec)
  if rtt < base.1.toNat then
    let d := timespec_diff r.1.ts1 r.1.ts2
    let sec := start.tv_sec + d.tv_sec
    let nsec := start.tv_nsec + d.tv_nsec
    (UInt32.ofNat (toU32 rtt),
      if 1000000000 < nsec then ⟨sec + 1, nsec - 1000000000⟩ else ⟨sec, nsec⟩)
  else base

/-- The smallest round trip and the base time after these replies. -/
def baseAfter (start : ClockTime) (replies : List (Decoded × ClockTime)) : UInt32 × Timespec :=
  replies.foldl (lowerBase start) (0xFFFFFFFF, ⟨0, 0⟩)

theorem baseAfter_concat (start : ClockTime) (replies : List (Decoded × ClockTime)) (r : Decoded × ClockTime) :
    baseAfter start (replies ++ [r]) = lowerBase start (baseAfter start replies) r := by
  rw [baseAfter, List.foldl_append]
  rfl

theorem update_base_eq (start : ClockTime) (m : Measure) (d : Decoded) (now : ClockTime) (info : Snapshot)
    (h1 : info.ts1 = d.ts1) (h2 : info.ts2 = d.ts2) :
    update_base start.toTimespec m info (timespec_milli (timespec_diff d.ts1 now.toTimespec)) =
      lowerBase start (m.minrtt, m.basets2) (d, now) := by
  rw [update_base, lowerBase, h1, h2]
  rfl

/-- The endpoint of the last reply. -/
def endpointAfter (replies : List (Decoded × ClockTime)) : Vector UInt8 4 × UInt16 :=
  replies.getLast?.elim (.replicate 4 0, 0) fun r ↦ (r.1.ip, r.1.port)

theorem endpointAfter_concat (replies : List (Decoded × ClockTime)) (r : Decoded × ClockTime) :
    endpointAfter (replies ++ [r]) = (r.1.ip, r.1.port) := by
  rw [endpointAfter, List.getLast?_concat, Option.elim_some]

/-! ## The variables -/

/-- The variables that summarise the iterations so far. -/
structure Summary (start : ClockTime) (garbage : ℕ → UInt8) (before : List Poll) (m : Measure) : Prop where
  firstreport : m.firstreport = (heard before).isEmpty
  outage_reported : m.outage_reported = true ↔ TimedOut before
  ts3 : ∀ p, before.getLast? = some p → m.info.ts3 = p.now.toTimespec
  seq3 : m.seq3 = UInt32.ofNat (heard before).length
  buf : m.buf = lastByte garbage ((heard before).map Prod.fst)
  base : (m.minrtt, m.basets2) = baseAfter start (decodedReplies garbage (heard before))
  endpoint : (m.previp, m.prevport) = endpointAfter (decodedReplies garbage (heard before))

section Variables

variable {start : ClockTime} {garbage : ℕ → UInt8} {before : List Poll} {m m' : Measure} {p : Poll}
  {lines : List Line}

/-- What is decoded from the buffer comes from the memory and the datagrams. -/
theorem Summary.decoded_filled (h : Summary start garbage before m) (bytes : List UInt8) (now : ClockTime) :
    decoded (m.filled bytes) = decodedAfter garbage (heard before ++ [(bytes, now)]) := by
  apply decoded_congr
  intro j _
  rw [byte_filled h.buf, List.map_append]
  rfl

/-- An iteration that receives nothing changes little. -/
theorem Summary.unheard (h : Summary start garbage before m) (hp : heard [p] = []) {outage : Bool}
    (hout : outage = true ↔ TimedOut (before ++ [p])) :
    Summary start garbage (before ++ [p]) (m.unheard p.now outage) := by
  have hheard : heard (before ++ [p]) = heard before := by
    rw [heard_append, hp, List.append_nil]
  refine ⟨?_, hout, fun q hq ↦ ?_, ?_, ?_, ?_, ?_⟩
  · rw [hheard]
    exact h.firstreport
  · rw [List.getLast?_concat] at hq
    cases hq
    rfl
  · rw [hheard]
    exact h.seq3
  · rw [hheard]
    exact h.buf
  · rw [hheard]
    exact h.base
  · rw [hheard]
    exact h.endpoint

/-- An iteration with a datagram. -/
theorem Summary.replied (h : Summary start garbage before m) (check now : ClockTime) (bytes : List UInt8) :
    Summary start garbage (before ++ [⟨check, .datagram bytes, now⟩]) (m.replied start bytes now).2 := by
  have hheard : heard (before ++ [⟨check, .datagram bytes, now⟩]) = heard before ++ [(bytes, now)] := by
    rw [heard_append]
    rfl
  have hdecoded := h.decoded_filled bytes now
  refine ⟨?_, iff_of_false Bool.false_ne_true (fun hout ↦ ?_), fun q hq ↦ ?_, ?_, ?_, ?_, ?_⟩
  · rw [hheard, List.isEmpty_eq_false_iff.mpr (List.concat_ne_nil _ _)]
    rfl
  · rcases timedOut_concat.mp hout with h' | ⟨h', -⟩ <;> cases h'
  · rw [List.getLast?_concat] at hq
    cases hq
    rfl
  · rw [hheard, List.length_append, UInt32.ofNat_add, ← h.seq3]
    rfl
  · rw [hheard, List.map_append]
    exact byte_filled h.buf bytes
  · rw [hheard, decodedReplies_concat, baseAfter_concat, ← h.base, ← hdecoded]
    exact update_base_eq start m (decoded (m.filled bytes)) now _ rfl rfl
  · rw [hheard, decodedReplies_concat, endpointAfter_concat, ← hdecoded]
    rfl

theorem Summary.step (h : Summary start garbage before m) (hstep : measure1 start m p = some (lines, m')) :
    Summary start garbage (before ++ [p]) m' := by
  obtain ⟨check, received, now⟩ := p
  cases received with
  | datagram bytes =>
    rw [measure1_datagram_eq] at hstep
    cases hstep
    exact h.replied check now bytes
  | eagain =>
    rw [measure1_eagain] at hstep
    cases hstep
    exact h.unheard (p := ⟨check, .eagain, now⟩) rfl (iff_of_true rfl (timedOut_concat.mpr (.inl rfl)))
  | error =>
    rw [measure1_error] at hstep
    cases hstep
    apply h.unheard (p := ⟨check, .error, now⟩) rfl
    rw [timedOut_concat, h.outage_reported]
    simp [heard]

end Variables

/-! ## The lines of an iteration -/

/-- The line about the output of the iteration before, if there was a datagram by then. -/
def clogged_lines (before : List Poll) (check : ClockTime) : List Line :=
  match before.getLast? with
  | some p =>
    if heard before ≠ [] ∧ 3 < p.now.gap check / 1000000 then [.clogged (p.now.gap check / 1000000)]
    else []
  | none => []

/-- The report of the reply `d` of `ret` bytes, after the earlier ones. -/
def reportAfter (start : ClockTime) (earlier : List (Decoded × ClockTime)) (d : Decoded) (now : ClockTime)
    (ret : ℕ) : Report :=
  let seq3 := UInt32.ofNat earlier.length
  let t := timespec_diff start.toTimespec d.ts1
  let base := baseAfter start (earlier ++ [(d, now)])
  { t := timespec_milli t
    cumseqloss_loc := (d.seq1.toNat : ℤ) - seq3.toNat
    cumseqloss_rem := (d.seq2.toNat : ℤ) - seq3.toNat
    rtt := timespec_milli (timespec_diff d.ts1 now.toTimespec)
    minrtt := base.1
    remote_d := timespec_milli (timespec_diff t (timespec_diff base.2 d.ts2))
    info :=
      { ts1 := d.ts1, ts2 := d.ts2, ts3 := now.toTimespec, seq1 := d.seq1, seq2 := d.seq2, seq3
        ip := d.ip, port := d.port }
    ret
    id := d.id }

/-- The line about the endpoint of the reply `d`, after that of the last earlier one. -/
def endpointChange (earlier : List (Decoded × ClockTime)) (d : Decoded) : List Line :=
  let (ip, port) := endpointAfter earlier
  if ip = d.ip then
    if port = d.port then [] else [.new_port]
  else if ip = .replicate 4 0 then [] else [.new_ip]

section Lines

variable {start : ClockTime} {garbage : ℕ → UInt8} {before : List Poll} {m m' : Measure} {p : Poll}
  {lines : List Line}

theorem Summary.check_clogged (h : Summary start garbage before m) (check : ClockTime) :
    check_clogged m check = clogged_lines before check := by
  rw [UdpTsSeqReply.check_clogged, h.firstreport, clogged_lines]
  cases hlast : before.getLast? with
  | none =>
    rw [List.getLast?_eq_none_iff.mp hlast]
    rfl
  | some p =>
    dsimp only
    rw [h.ts3 p hlast, Timespec.milli_eq (p.now.normalised.timespec_diff check.normalised),
      nanos_timespec_diff, ← ClockTime.gap]
    cases heard before <;> simp

theorem Summary.report (h : Summary start garbage before m) (bytes : List UInt8) (now : ClockTime) :
    (m.replied start bytes now).1 = reportAfter start (decodedReplies garbage (heard before))
      (decodedAfter garbage (heard before ++ [(bytes, now)])) now (min 65536 bytes.length) := by
  have hbase := update_base_eq start m (decoded (m.filled bytes)) now
    (m.replied start bytes now).2.info rfl rfl
  rw [h.base, ← baseAfter_concat] at hbase
  rw [reportAfter, ← h.decoded_filled bytes now, ← hbase, length_decodedReplies, ← h.seq3,
    ← List.length_take]
  rfl

theorem Summary.endpoint_lines (h : Summary start garbage before m) (d : Decoded) :
    endpoint_lines m d.ip d.port = endpointChange (decodedReplies garbage (heard before)) d := by
  rw [UdpTsSeqReply.endpoint_lines, endpointChange, ← h.endpoint]
  simp only [same_ip_iff, ite_not, ne_eq]
  rfl

end Lines

/-! ## Outages -/

section Outages

variable {start : ClockTime} {garbage : ℕ → UInt8} {before : List Poll} {m m' : Measure}

end Outages

/-! ## The result -/

end ViTools.UdpTsSeqReply
