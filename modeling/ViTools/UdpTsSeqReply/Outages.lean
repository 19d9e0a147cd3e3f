import ViTools.Lib.Socket
import ViTools.UdpTsSeqReply.Output

/-!
# Outages and silences

`main` gives the socket a receive timeout of ten packet intervals, and of a fifth of a second at least.
Here the loop of `measure` runs in time: datagrams come at any times and wait in the socket, `recvfrom`
takes the first one, gives up after the timeout or fails for another reason, and the program may be late by
any amount. The kernel never gives up early, and it is late by `slack` at most.

Then the text printed tells silences from pauses. A reply is announced by `OUTAGE` only if nothing came
for the whole timeout after the reply before; and if there is no such line, none about an error and none
about clogged output, then it came at most four milliseconds and the slack after the timeout.
-/

namespace ViTools.UdpTsSeqReply

open Timespec

/-! ## The timeout -/

/-- `struct timeval`. -/
structure Timeval where
  /-- Seconds. -/
  tv_sec : ℤ
  /-- Microseconds. -/
  tv_usec : ℤ

/-- The time in nanoseconds. -/
def Timeval.nanos (t : Timeval) : ℤ := t.tv_sec * 1000000000 + t.tv_usec * 1000

/-- The receive timeout that `main` sets. Its `long` comes from a product of `int`s. -/
def rcvtimeo (set : Settings) : Timeval :=
  let delay_us := (twos 32 ((set.packet_size + set.overhead) * 8000)).tdiv set.kbps * 1
  let delay_us := delay_us * 10
  let delay_us := if delay_us < 200 * 1000 then 200 * 1000 else delay_us
  { tv_sec := (delay_us.tdiv 1000).tdiv 1000
    tv_usec := delay_us.tmod (1000 * 1000) }

/-- Seconds and microseconds, put together again. -/
theorem nanos_split {us : ℤ} (h : 0 ≤ us) :
    Timeval.nanos ⟨(us.tdiv 1000).tdiv 1000, us.tmod (1000 * 1000)⟩ = us * 1000 ∧
      0 ≤ us.tmod (1000 * 1000) ∧ us.tmod (1000 * 1000) < 1000000 := by
  rw [Int.tdiv_eq_ediv_of_nonneg h, Int.tdiv_eq_ediv_of_nonneg (by omega),
    Int.tmod_eq_emod_of_nonneg h]
  refine ⟨?_, by omega, by omega⟩
  rw [Timeval.nanos]
  dsimp only
  omega

/-- The timeout is one that the kernel accepts: ten delays, a fifth of a second at least, and ten
seconds at most. -/
theorem rcvtimeo_spec (set : Settings) :
    (rcvtimeo set).nanos = max 200000000 (10000 * delay_us set) ∧ 0 ≤ (rcvtimeo set).tv_usec ∧
      (rcvtimeo set).tv_usec < 1000000 ∧ (rcvtimeo set).nanos ≤ 10000000000 := by
  have hle : delay_us set ≤ 1000000 := set.delay_le
  rw [rcvtimeo]
  dsimp only
  rw [← delay_us]
  generalize delay_us set = us at hle
  split
  · next h =>
    obtain ⟨hnanos, hlo, hhi⟩ := nanos_split (show (0 : ℤ) ≤ 200 * 1000 by norm_num)
    rw [hnanos]
    exact ⟨by omega, hlo, hhi, by omega⟩
  · next h =>
    obtain ⟨hnanos, hlo, hhi⟩ := nanos_split (show 0 ≤ us * 1 * 10 by omega)
    rw [hnanos]
    exact ⟨by omega, hlo, hhi, by omega⟩

/-! ## Receiving -/

/-- A datagram, and when it comes. -/
structure Incoming where
  /-- The time in nanoseconds. -/
  came : ℤ
  /-- Its bytes. -/
  bytes : List UInt8

/-- A call of `recvfrom`, with the clock readings before and after it. -/
structure Call where
  /-- The clock before the call. -/
  check : ClockTime
  /-- The time at which it returns, in nanoseconds. -/
  returned : ℤ
  /-- The clock after the call. -/
  now : ClockTime
  /-- It returns another error. -/
  fails : Bool

/-- What a call of `recvfrom` returns, and what is left in the socket. It cannot return then if that is too
early, or too late for the first datagram. -/
def recvfrom (timeout slack : ℤ) (queue : List Incoming) (call : Call) :
    Option (Received × List Incoming) := do
  match ← receive timeout Incoming.came queue call.check.nanos call.returned call.fails with
  | (.message d, rest) =>
    if d.came ≤ call.check.nanos + timeout + slack then some (.datagram d.bytes, rest) else none
  | (.timeout, rest) => some (.eagain, rest)
  | (.error, rest) => some (.error, rest)

/-- `measure`, the datagrams it has not received yet, and the last clock reading. -/
structure Listener where
  /-- The variables of the loop. -/
  measure : Measure
  /-- The datagrams. -/
  queue : List Incoming
  /-- The end of the iteration before. -/
  clock : ClockTime

/-- One iteration with its call. -/
def listen1 (timeout slack : ℤ) (start : ClockTime) (s : Listener) (call : Call) :
    Option (List Line × Listener) := do
  if s.clock.nanos ≤ call.check.nanos ∧ call.check.nanos ≤ call.returned ∧ call.returned ≤ call.now.nanos then
    let (received, queue) ← recvfrom timeout slack s.queue call
    let (lines, measure) ← measure1 start s.measure ⟨call.check, received, call.now⟩
    some (lines, ⟨measure, queue, call.now⟩)
  else none

section Step

variable {timeout slack : ℤ} {start : ClockTime} {s s' : Listener} {call : Call} {lines : List Line}

/-- **The three ways an iteration goes**: a datagram that has come in time, or a timeout before the next
one, or another error. -/
theorem listen1_cases (h : listen1 timeout slack start s call = some (lines, s')) :
    s.clock.nanos ≤ call.check.nanos ∧ call.check.nanos ≤ call.returned ∧ call.returned ≤ call.now.nanos ∧
      s'.clock = call.now ∧
      ((∃ d, s.queue = d :: s'.queue ∧ d.came ≤ call.check.nanos + timeout + slack ∧
          measure1 start s.measure ⟨call.check, .datagram d.bytes, call.now⟩ = some (lines, s'.measure)) ∨
        (s'.queue = s.queue ∧ call.check.nanos + timeout ≤ call.returned ∧
          (∀ d, s.queue.head? = some d → call.returned < d.came) ∧
          measure1 start s.measure ⟨call.check, .eagain, call.now⟩ = some (lines, s'.measure)) ∨
        (s'.queue = s.queue ∧
          measure1 start s.measure ⟨call.check, .error, call.now⟩ = some (lines, s'.measure))) := by
  rw [listen1] at h
  split at h
  · next hclock =>
    obtain ⟨⟨received, queue⟩, hrecv, h⟩ := Option.bind_eq_some_iff.mp h
    obtain ⟨⟨lines', measure⟩, hmeasure, h⟩ := Option.bind_eq_some_iff.mp h
    cases h
    refine ⟨hclock.1, hclock.2.1, hclock.2.2, rfl, ?_⟩
    rw [recvfrom] at hrecv
    obtain ⟨⟨o, rest⟩, hreceive, hrecv⟩ := Option.bind_eq_some_iff.mp hrecv
    rcases receive_cases hreceive with ⟨d, rfl, hqueue, -⟩ | ⟨rfl, rfl, hlate, hnext⟩ | ⟨rfl, rfl⟩
    · dsimp only at hrecv
      split at hrecv
      · next hcame =>
        cases hrecv
        exact .inl ⟨d, hqueue, hcame, hmeasure⟩
      · cases hrecv
    · cases hrecv
      exact .inr (.inl ⟨rfl, hlate, hnext, hmeasure⟩)
    · cases hrecv
      exact .inr (.inr ⟨rfl, hmeasure⟩)
  · cases h

end Step

/-! ## The text -/

/-- Whether a reader of the output takes the network to be down after a line. -/
def Line.down (before : Bool) : Line → Bool
  | .outage => true
  | .report _ => false
  | _ => before

/-- Whether the output says at its end that the network is down. -/
def announced (out : List (List Line)) : Bool := out.flatten.foldl Line.down false

theorem announced_concat (out : List (List Line)) (lines : List Line) :
    announced (out ++ [lines]) = lines.foldl Line.down (announced out) := by
  rw [announced, List.flatten_append, List.flatten_singleton, List.foldl_append]
  rfl

/-- Whether a reader of the output sees an error after the last report. -/
def Line.failed (before : Bool) : Line → Bool
  | .error => true
  | .report _ => false
  | _ => before

/-- Whether receiving failed since the last report. -/
def failed (out : List (List Line)) : Bool := out.flatten.foldl Line.failed false

theorem failed_concat (out : List (List Line)) (lines : List Line) :
    failed (out ++ [lines]) = lines.foldl Line.failed (failed out) := by
  rw [failed, List.flatten_append, List.flatten_singleton, List.foldl_append]
  rfl

/-- The time that the last report shows, or that of the start. -/
def heard_at (t0 : ClockTime) (out : List (List Line)) : Timespec :=
  ((reports out).getLast?.map fun r ↦ r.info.ts3).getD t0.toTimespec

theorem reports_concat (out : List (List Line)) (lines : List Line) :
    reports (out ++ [lines]) = reports out ++ lines.filterMap Line.report? := by
  rw [reports, List.flatten_append, List.flatten_singleton, List.filterMap_append]
  rfl

/-- A reader who does not mind clogged output. -/
theorem foldl_clogged {f : Bool → Line → Bool} (hf : ∀ before disc, f before (.clogged disc) = before)
    (m : Measure) (check : ClockTime) (before : Bool) : (check_clogged m check).foldl f before = before := by
  rw [check_clogged]
  split
  · dsimp only
    split
    · exact hf before _
    · rfl
  · rfl

theorem foldl_down_clogged (m : Measure) (check : ClockTime) (before : Bool) :
    (check_clogged m check).foldl Line.down before = before := foldl_clogged (fun _ _ ↦ rfl) m check before

theorem foldl_failed_clogged (m : Measure) (check : ClockTime) (before : Bool) :
    (check_clogged m check).foldl Line.failed before = before := foldl_clogged (fun _ _ ↦ rfl) m check before

theorem foldl_down_endpoint (m : Measure) (ip : Vector UInt8 4) (port : UInt16) (before : Bool) :
    (endpoint_lines m ip port).foldl Line.down before = before := by
  rcases endpoint_lines_cases m ip port with h | h | h <;> rw [h] <;> rfl

/-- What the lines of a datagram say. -/
theorem measure1_heard {start : ClockTime} {m m' : Measure} {check now : ClockTime} {bytes : List UInt8}
    {lines : List Line} (h : measure1 start m ⟨check, .datagram bytes, now⟩ = some (lines, m')) :
    ∃ r, lines.filterMap Line.report? = [r] ∧ r.info.ts3 = now.toTimespec ∧
      (∀ before, lines.foldl Line.down before = false) ∧ .outage ∉ lines ∧
      check_clogged m check ⊆ lines ∧
      m'.outage_reported = false ∧ m'.firstreport = false ∧ m'.info.ts3 = now.toTimespec := by
  rw [measure1_datagram_eq] at h
  cases h
  refine ⟨_, report_lines .., rfl, fun before ↦ ?_, fun hmem ↦ ?_, fun line hline ↦ ?_, rfl, rfl, rfl⟩
  · rw [List.foldl_append, foldl_down_endpoint, List.foldl_append]
    rfl
  · rw [List.append_assoc, List.mem_append, List.singleton_append, List.mem_cons] at hmem
    rcases hmem with hmem | hmem | hmem
    · obtain ⟨disc, hline⟩ := eq_clogged_of_mem _ hmem
      cases hline
    · cases hmem
    · rcases endpoint_lines_cases m (decoded (m.filled bytes)).ip (decoded (m.filled bytes)).port
        with hlines | hlines | hlines <;> rw [hlines] at hmem
      · cases hmem
      · cases List.mem_singleton.mp hmem
      · cases List.mem_singleton.mp hmem
  · rw [List.append_assoc]
    exact List.mem_append_left _ hline

/-- What the lines of a timeout say. -/
theorem measure1_timeout {start : ClockTime} {m m' : Measure} {check now : ClockTime} {lines : List Line}
    (h : measure1 start m ⟨check, .eagain, now⟩ = some (lines, m')) :
    lines.filterMap Line.report? = [] ∧ lines.foldl Line.down m.outage_reported = true ∧
      (.outage ∈ lines → m.outage_reported = false) ∧
      m'.outage_reported = true ∧ m'.firstreport = m.firstreport ∧ m'.info.ts3 = now.toTimespec := by
  rw [measure1_eagain] at h
  cases h
  refine ⟨?_, ?_, fun hmem ↦ ?_, rfl, rfl, rfl⟩
  · rw [List.filterMap_append, check_clogged_no_report]
    cases m.outage_reported <;> rfl
  · rw [List.foldl_append, foldl_down_clogged]
    cases m.outage_reported <;> rfl
  · rcases List.mem_append.mp hmem with hmem | hmem
    · obtain ⟨disc, hline⟩ := eq_clogged_of_mem _ hmem
      cases hline
    · cases hreported : m.outage_reported with
      | false => rfl
      | true =>
        rw [hreported] at hmem
        cases hmem

/-- What the lines of another error say. -/
theorem measure1_failed {start : ClockTime} {m m' : Measure} {check now : ClockTime} {lines : List Line}
    (h : measure1 start m ⟨check, .error, now⟩ = some (lines, m')) :
    lines.filterMap Line.report? = [] ∧ (∀ before, lines.foldl Line.down before = before) ∧
      (∀ before, lines.foldl Line.failed before = true) ∧ .outage ∉ lines ∧
      m'.outage_reported = m.outage_reported ∧ m'.firstreport = m.firstreport ∧
      m'.info.ts3 = now.toTimespec := by
  rw [measure1_error] at h
  cases h
  refine ⟨?_, fun before ↦ ?_, fun before ↦ ?_, fun hmem ↦ ?_, rfl, rfl, rfl⟩
  · rw [List.filterMap_append, check_clogged_no_report]
    rfl
  · rw [List.foldl_append, foldl_down_clogged]
    rfl
  · rw [List.foldl_append, foldl_failed_clogged]
    rfl
  · rcases List.mem_append.mp hmem with hmem | hmem
    · obtain ⟨disc, hline⟩ := eq_clogged_of_mem _ hmem
      cases hline
    · cases List.mem_singleton.mp hmem

/-- Without a line about clogged output, `recvfrom` is called again soon. -/
theorem gap_lt_of_not_clogged {m : Measure} {clock check : ClockTime} (hfirst : m.firstreport = false)
    (hts3 : m.info.ts3 = clock.toTimespec) (h : ∀ disc, .clogged disc ∉ check_clogged m check) :
    clock.gap check < 4000000 := by
  by_contra hlong
  have hmilli : 3 < clock.gap check / 1000000 := by omega
  apply h (clock.gap check / 1000000)
  rw [check_clogged, hfirst, hts3]
  dsimp only
  rw [Timespec.milli_eq (clock.normalised.timespec_diff check.normalised), nanos_timespec_diff,
    ← ClockTime.gap, if_pos hmilli]
  exact List.mem_singleton_self _

/-! ## The invariant -/

/-- The state after the lines printed so far. -/
structure Listening (timeout : ℤ) (t0 : ClockTime) (queue : List Incoming) (out : List (List Line))
    (s : Listener) : Prop where
  /-- The variable is what the text says. -/
  outage_reported : s.measure.outage_reported = announced out
  firstreport : s.measure.firstreport = (reports out).isEmpty
  queue_eq : s.queue = queue.drop (reports out).length
  ts3 : out ≠ [] → s.measure.info.ts3 = s.clock.toTimespec
  /-- The last report is not of later. -/
  heard : (heard_at t0 out).nanos ≤ s.clock.nanos
  /-- Without an outage and an error the last iteration was the one of the last report. -/
  idle : announced out = false → failed out = false → s.clock.toTimespec = heard_at t0 out
  /-- With an outage the next datagram is late. -/
  silent : announced out = true → ∀ d, s.queue.head? = some d → (heard_at t0 out).nanos + timeout < d.came

section Invariant

variable {timeout slack : ℤ} {start t0 : ClockTime} {queue : List Incoming} {out : List (List Line)}
  {s s' : Listener} {call : Call} {lines : List Line}

theorem listening_start (timeout : ℤ) (t0 : ClockTime) (queue : List Incoming) (garbage : ℕ → UInt8)
    (info : Snapshot) : Listening timeout t0 queue [] ⟨.start garbage info, queue, t0⟩ where
  outage_reported := rfl
  firstreport := rfl
  queue_eq := rfl
  ts3 := fun h ↦ absurd rfl h
  heard := le_refl _
  idle := fun _ _ ↦ rfl
  silent := fun h ↦ absurd h Bool.false_ne_true

/-- Lines without a report leave the time of the last one. -/
theorem heard_at_concat (t0 : ClockTime) (out : List (List Line)) (hreport : lines.filterMap Line.report? = []) :
    heard_at t0 (out ++ [lines]) = heard_at t0 out ∧ reports (out ++ [lines]) = reports out := by
  have hreports := reports_concat out lines
  rw [hreport, List.append_nil] at hreports
  rw [heard_at, hreports, heard_at]
  exact ⟨rfl, rfl⟩

theorem Listening.step (h : Listening timeout t0 queue out s)
    (hstep : listen1 timeout slack start s call = some (lines, s')) :
    Listening timeout t0 queue (out ++ [lines]) s' := by
  obtain ⟨hcheck, hreturned, hnow, hclock, ⟨d, hqueue, hcame, hmeasure⟩ |
    ⟨hqueue, hlate, hnext, hmeasure⟩ | ⟨hqueue, hmeasure⟩⟩ := listen1_cases hstep
  · obtain ⟨r, hreport, hts3, hdown, -, -, hreported, hfirst, hts3'⟩ := measure1_heard hmeasure
    have hreports := reports_concat out lines
    rw [hreport] at hreports
    have hfalse : announced (out ++ [lines]) = false := by
      rw [announced_concat, hdown]
    have hheard : heard_at t0 (out ++ [lines]) = call.now.toTimespec := by
      rw [heard_at, hreports, List.getLast?_concat]
      exact hts3
    refine ⟨?_, ?_, ?_, fun _ ↦ ?_, ?_, fun _ _ ↦ ?_, fun htrue ↦ ?_⟩
    · rw [hreported, hfalse]
    · rw [hfirst, hreports, List.isEmpty_eq_false_iff.mpr (List.concat_ne_nil _ _)]
    · rw [hreports, List.length_append, List.length_singleton, ← List.tail_drop, ← h.queue_eq, hqueue,
        List.tail_cons]
    · rw [hts3', hclock]
    · rw [hheard, hclock]
    · rw [hheard, hclock]
    · exact absurd (hfalse.symm.trans htrue) Bool.false_ne_true
  · obtain ⟨hreport, hdown, -, hreported, hfirst, hts3⟩ := measure1_timeout hmeasure
    obtain ⟨hheard, hreports⟩ := heard_at_concat t0 out hreport
    have htrue : announced (out ++ [lines]) = true := by
      rw [announced_concat, ← h.outage_reported, hdown]
    have hbefore := h.heard
    refine ⟨?_, ?_, ?_, fun _ ↦ ?_, ?_, fun hfalse ↦ ?_, fun _ d hd ↦ ?_⟩
    · rw [hreported, htrue]
    · rw [hfirst, hreports, h.firstreport]
    · rw [hqueue, hreports, h.queue_eq]
    · rw [hts3, hclock]
    · rw [hheard, hclock]
      omega
    · exact absurd (hfalse.symm.trans htrue) Bool.false_ne_true
    · rw [hqueue] at hd
      have hafter := hnext d hd
      rw [hheard]
      omega
  · obtain ⟨hreport, hdown, hfailed, -, hreported, hfirst, hts3⟩ := measure1_failed hmeasure
    obtain ⟨hheard, hreports⟩ := heard_at_concat t0 out hreport
    have hsame : announced (out ++ [lines]) = announced out := by
      rw [announced_concat, hdown]
    have htrue : failed (out ++ [lines]) = true := by
      rw [failed_concat, hfailed]
    have hbefore := h.heard
    refine ⟨?_, ?_, ?_, fun _ ↦ ?_, ?_, fun _ hfalse ↦ ?_, fun hout ↦ ?_⟩
    · rw [hreported, h.outage_reported, hsame]
    · rw [hfirst, hreports, h.firstreport]
    · rw [hqueue, hreports, h.queue_eq]
    · rw [hts3, hclock]
    · rw [hheard, hclock]
      omega
    · exact absurd (hfalse.symm.trans htrue) Bool.false_ne_true
    · rw [hqueue, hheard]
      rw [hsame] at hout
      exact h.silent hout

/-- An outage is printed once for a silence, and after the whole timeout. -/
theorem Listening.outage (h : Listening timeout t0 queue out s)
    (hstep : listen1 timeout slack start s call = some (lines, s')) (hmem : .outage ∈ lines) :
    announced out = false ∧ (heard_at t0 out).nanos + timeout ≤ call.returned ∧
      ∀ d, queue[(reports out).length]? = some d → call.returned < d.came := by
  obtain ⟨hcheck, -, -, -, ⟨d, -, -, hmeasure⟩ | ⟨-, hlate, hnext, hmeasure⟩ | ⟨-, hmeasure⟩⟩ :=
    listen1_cases hstep
  · obtain ⟨r, -, -, -, hnone, -⟩ := measure1_heard hmeasure
    exact absurd hmem hnone
  · obtain ⟨-, -, hfirst, -⟩ := measure1_timeout hmeasure
    have hbefore := h.heard
    refine ⟨h.outage_reported.symm.trans (hfirst hmem), by omega, fun d hd ↦ hnext d ?_⟩
    rw [h.queue_eq, List.head?_drop, hd]
  · obtain ⟨-, -, -, hnone, -⟩ := measure1_failed hmeasure
    exact absurd hmem hnone

/-- Only a datagram has a report. -/
theorem not_report_of_filterMap {lines : List Line} (hreport : lines.filterMap Line.report? = []) (r : Report) :
    .report r ∉ lines := by
  intro hmem
  have hsome := List.mem_filterMap.mpr ⟨_, hmem, (rfl : (Line.report r).report? = some r)⟩
  rw [hreport] at hsome
  cases hsome

/-- A report, with and without an outage before it. -/
theorem Listening.report (h : Listening timeout t0 queue out s)
    (hstep : listen1 timeout slack start s call = some (lines, s')) {r : Report} (hmem : .report r ∈ lines) :
    ∃ d, queue[(reports out).length]? = some d ∧
      (announced out = true → (heard_at t0 out).nanos + timeout < d.came) ∧
      (announced out = false → failed out = false → reports out ≠ [] → (∀ disc, .clogged disc ∉ lines) →
        d.came < (heard_at t0 out).nanos + timeout + slack + 4000000) := by
  obtain ⟨hcheck, -, -, -, ⟨d, hqueue, hcame, hmeasure⟩ | ⟨-, -, -, hmeasure⟩ | ⟨-, hmeasure⟩⟩ :=
    listen1_cases hstep
  · have hget : queue[(reports out).length]? = some d := by
      rw [← List.head?_drop, ← h.queue_eq, hqueue, List.head?_cons]
    refine ⟨d, hget, fun htrue ↦ ?_, fun hfalse hfailed hreports hclogged ↦ ?_⟩
    · apply h.silent htrue
      rw [hqueue, List.head?_cons]
    · obtain ⟨r', -, -, -, -, hsubset, -⟩ := measure1_heard hmeasure
      have hout : out ≠ [] := fun hnil ↦ hreports (by rw [hnil]; rfl)
      have hfirst : s.measure.firstreport = false := by
        rw [h.firstreport]
        exact List.isEmpty_eq_false_iff.mpr hreports
      have hgap := gap_lt_of_not_clogged hfirst (h.ts3 hout) fun disc hdisc ↦
        hclogged disc (hsubset hdisc)
      rw [ClockTime.gap, h.idle hfalse hfailed] at hgap
      omega
  · exact absurd hmem (not_report_of_filterMap (measure1_timeout hmeasure).1 r)
  · exact absurd hmem (not_report_of_filterMap (measure1_failed hmeasure).1 r)

end Invariant

/-! ## The result -/

/-- **Outages are silences.** An outage is printed after the whole timeout of ten delays and a fifth of a
second at least, once for a silence and before the next datagram comes. A report after an outage is of a
datagram that came that much later than the report before. If there is no outage, no error, and the output
was not clogged, then the datagram came four milliseconds and the slack after the timeout at the latest. -/
theorem outages_are_silences {set : Settings} {slack : ℤ} {start t0 : ClockTime} {garbage : ℕ → UInt8}
    {info : Snapshot} {queue : List Incoming} {calls : List Call} {out : List (List Line)} {s : Listener}
    (hrun : transduce (listen1 (rcvtimeo set).nanos slack start) ⟨.start garbage info, queue, t0⟩ calls
      = some (out, s))
    {before after : List (List Line)} {lines : List Line} (hout : out = before ++ lines :: after) :
    (.outage ∈ lines → announced before = false ∧ ∃ call, calls[before.length]? = some call ∧
      (heard_at t0 before).nanos + max 200000000 (10000 * delay_us set) ≤ call.returned ∧
      ∀ d, queue[(reports before).length]? = some d → call.returned < d.came) ∧
    (∀ r, .report r ∈ lines → ∃ d, queue[(reports before).length]? = some d ∧
      (announced before = true →
        (heard_at t0 before).nanos + max 200000000 (10000 * delay_us set) < d.came) ∧
      (announced before = false → failed before = false → reports before ≠ [] →
        (∀ disc, .clogged disc ∉ lines) →
        d.came < (heard_at t0 before).nanos + max 200000000 (10000 * delay_us set) + slack + 4000000)) := by
  subst hout
  obtain ⟨calls', call, s₁, s₂, hget, hbefore, hstep⟩ := transduce_split_output hrun
  have hinv : Listening (rcvtimeo set).nanos t0 queue ([] ++ before) s₁ :=
    transduce_outputs (fun _ _ _ _ _ h hs ↦ h.step hs) (listening_start _ t0 queue garbage info) hbefore
  rw [List.nil_append] at hinv
  rw [← (rcvtimeo_spec set).1]
  refine ⟨fun hmem ↦ ?_, fun r hmem ↦ hinv.report hstep hmem⟩
  obtain ⟨hfalse, hlate, hnext⟩ := hinv.outage hstep hmem
  exact ⟨hfalse, call, hget, hlate, hnext⟩

/-- Forty packets a second. -/
private def brisk : Settings where
  kbps := 8
  packet_size := 26
  overhead := -1
  size_ge := by decide
  size_le := by decide
  kbps_ge := by decide
  delay_le := by decide

/-- A call that fails, one that gives up, and one that receives. -/
private def quietCalls : List Call :=
  [⟨.seconds 0, 0, .seconds 0, true⟩, ⟨.seconds 0, 250000000, .seconds 1, false⟩,
    ⟨.seconds 2, 2000000000, .seconds 2, false⟩]

private theorem run_quiet : ∃ lines s r, transduce (listen1 (rcvtimeo brisk).nanos 0 (.seconds 0))
    ⟨.start (fun _ ↦ 0) default, [⟨2000000000, []⟩], .seconds 0⟩ quietCalls
      = some ([[.error], [.outage]] ++ [lines], s) ∧
    .report r ∈ lines :=
  ⟨_, _, _, rfl, List.mem_cons_self⟩

/-- An outage of two seconds. -/
theorem outages_are_silences_quiet : ∃ lines s r,
    transduce (listen1 (rcvtimeo brisk).nanos 0 (.seconds 0))
      ⟨.start (fun _ ↦ 0) default, [⟨2000000000, []⟩], .seconds 0⟩ quietCalls
        = some ([[.error], [.outage]] ++ [lines], s) ∧
    .report r ∈ lines ∧ ∃ d ∈ ([⟨2000000000, []⟩] : List Incoming), 250000000 < d.came := by
  obtain ⟨lines, s, r, hrun, hmem⟩ := run_quiet
  obtain ⟨d, hd, hafter, -⟩ := (outages_are_silences hrun rfl).2 r hmem
  refine ⟨lines, s, r, hrun, hmem, d, List.mem_of_getElem? hd, ?_⟩
  exact lt_of_eq_of_lt (by decide) (hafter rfl)

end ViTools.UdpTsSeqReply
