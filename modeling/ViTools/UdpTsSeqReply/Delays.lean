import ViTools.Lib.FirstMin
import ViTools.UdpTsSeqReply.RoundTrip

/-!
# The delay columns

Two one-way delays cannot be told from one round trip when the clocks differ. `measure` takes the
fastest round trip so far as symmetric and attributes what other round trips deviate from it. Its
chain of borrows and carries computes exactly that: `remote_d` is the floor of a difference of four
times, and only differences of the server's times enter.

One of the carries is tested with `>`, so that `basets2` may come out with a full second in its
nanoseconds. The subtraction that follows tolerates it.
-/

namespace ViTools.UdpTsSeqReply

/-! ## Genuine replies -/

/-- A probe packet that was answered, with the times at its three stations. -/
structure Exchange where
  /-- The probe packet. -/
  packet : List UInt8
  /-- Its client id. -/
  id : UInt32
  /-- Its number. -/
  seq1 : UInt32
  /-- The time of sending. -/
  ts1 : ClockTime
  /-- The packet has its header. -/
  isProbePacket : IsProbePacket packet id ts1 seq1
  /-- The source address at the server. -/
  sa : SockaddrIn
  /-- The server's time. -/
  ts2 : ClockTime
  /-- The number the server gives it. -/
  seq2 : UInt32
  /-- The time of receiving the reply. -/
  ts3 : ClockTime
  /-- The reply comes after the packet. -/
  causal : 0 ≤ ts1.gap ts3
  /-- The round trip is less than the initial minimum. -/
  short : ts1.gap ts3 / 1000000 < 2 ^ 32 - 1

namespace Exchange

/-- The reply. -/
def bytes (e : Exchange) : List UInt8 := reply ⟨e.packet, e.sa, e.ts2⟩ e.seq2

/-- The round trip in whole milliseconds. -/
def rtt (e : Exchange) : ℤ := e.ts1.gap e.ts3 / 1000000

/-- What the server's clock shows later than the probe's: the way there, and how the clocks differ. -/
def way (e : Exchange) : ℤ := e.ts1.gap e.ts2

theorem rtt_nonneg (e : Exchange) : 0 ≤ e.rtt := Int.ediv_nonneg e.causal (by decide)

end Exchange

/-- What happens in one iteration of `measure` that gets genuine replies only. -/
inductive Input
  /-- A reply. -/
  | reply (check : ClockTime) (e : Exchange)
  /-- A timeout. -/
  | timeout (check now : ClockTime)
  /-- An error. -/
  | failure (check now : ClockTime)

namespace Input

/-- The input as `measure` sees it. -/
def poll : Input → Poll
  | reply check e => ⟨check, .datagram e.bytes, e.ts3⟩
  | timeout check now => ⟨check, .eagain, now⟩
  | failure check now => ⟨check, .error, now⟩

/-- The reply, if it is one. -/
def exchange? : Input → Option Exchange
  | reply _ e => some e
  | timeout .. | failure .. => none

end Input

/-- The replies among the inputs. -/
def exchanges (l : List Input) : List Exchange := l.filterMap Input.exchange?

/-! ## The base -/

/-- `minrtt` and `basets2` after replies `es`: reply `e`, at index `k`, is the first fastest one, and
`basets2` is what the server's clock showed at the start if its way there was average. -/
structure Based (start : ClockTime) (es : List Exchange) (minrtt : UInt32) (basets2 : Timespec)
    (k : ℕ) (e : Exchange) : Prop where
  /-- The first fastest reply. -/
  first : FirstMin (es.map Exchange.rtt) k e.rtt
  /-- Its index. -/
  get : es[k]? = some e
  /-- Its round trip. -/
  minrtt_eq : (minrtt.toNat : ℤ) = e.rtt
  /-- The base in nanoseconds. -/
  nanos_eq : basets2.nanos = start.nanos + e.way
  /-- The base need not be normalised, but almost. -/
  nsec_nonneg : 0 ≤ basets2.tv_nsec
  /-- A full second may remain. -/
  nsec_le : basets2.tv_nsec ≤ 1000000000

/-- The invariant of the loop: there was no reply yet, or the first fastest one is the base. -/
def Base (start : ClockTime) (es : List Exchange) (minrtt : UInt32) (basets2 : Timespec) : Prop :=
  (es = [] ∧ minrtt = 0xFFFFFFFF) ∨ ∃ k e, Based start es minrtt basets2 k e

/-- The new base is exact, and its carry leaves at most a full second. -/
theorem update_base_of_lt {start : ClockTime} {m : Measure} {info : Snapshot} {e : Exchange}
    (h1 : info.ts1 = e.ts1.toTimespec) (h2 : info.ts2 = e.ts2.toTimespec)
    (hlt : e.rtt < m.minrtt.toNat) :
    ((update_base start.toTimespec m info e.rtt).1.toNat : ℤ) = e.rtt ∧
      (update_base start.toTimespec m info e.rtt).2.nanos = start.nanos + e.way ∧
      0 ≤ (update_base start.toTimespec m info e.rtt).2.tv_nsec ∧
      (update_base start.toTimespec m info e.rtt).2.tv_nsec ≤ 1000000000 := by
  have hnonneg := e.rtt_nonneg
  have hmin := m.minrtt.toNat_lt
  have hd := e.ts1.normalised.timespec_diff e.ts2.normalised
  have hdiff := nanos_timespec_diff e.ts1.toTimespec e.ts2.toTimespec
  have hd₁ := hd.nonneg
  have hd₂ := hd.lt
  have hs₁ := start.normalised.nonneg
  have hs₂ := start.normalised.lt
  rw [update_base, if_pos hlt, h1, h2]
  refine ⟨?_, ?_⟩
  · rw [UInt32.toNat_ofNat', toU32]
    omega
  · simp only [Timespec.nanos, Exchange.way, ClockTime.gap] at hdiff ⊢
    split
    · refine ⟨?_, ?_, ?_⟩ <;> dsimp only <;> omega
    · refine ⟨?_, ?_, ?_⟩ <;> dsimp only <;> omega

/-- **Step lemma for the base.** -/
theorem Base.update {start : ClockTime} {es : List Exchange} (m : Measure) (info : Snapshot)
    (hbase : Base start es m.minrtt m.basets2) {e : Exchange} (h1 : info.ts1 = e.ts1.toTimespec)
    (h2 : info.ts2 = e.ts2.toTimespec) :
    ∃ k e', Based start (es ++ [e]) (update_base start.toTimespec m info e.rtt).1
      (update_base start.toTimespec m info e.rtt).2 k e' := by
  rcases hbase with ⟨rfl, hmin⟩ | ⟨k, e', hbased⟩
  · -- the first reply is always faster than the initial value
    have hshort : e.rtt < m.minrtt.toNat := by
      rw [hmin]
      exact e.short
    obtain ⟨hrtt, hnanos, hnonneg, hle⟩ := update_base_of_lt h1 h2 hshort
    exact ⟨0, e, FirstMin.singleton _, rfl, hrtt, hnanos, hnonneg, hle⟩
  · by_cases hlt : e.rtt < m.minrtt.toNat
    · obtain ⟨hrtt, hnanos, hnonneg, hle⟩ := update_base_of_lt h1 h2 hlt
      rw [hbased.minrtt_eq] at hlt
      refine ⟨es.length, e, ?_, List.getElem?_concat_length, hrtt, hnanos, hnonneg, hle⟩
      have hfirst := hbased.first.append_of_lt hlt
      rwa [List.length_map, ← List.map_singleton, ← List.map_append] at hfirst
    · rw [update_base, if_neg hlt]
      rw [hbased.minrtt_eq, not_lt] at hlt
      refine ⟨k, e', ?_, ?_, hbased.minrtt_eq, hbased.nanos_eq, hbased.nsec_nonneg, hbased.nsec_le⟩
      · have hfirst := hbased.first.append_of_le hlt
        rwa [← List.map_singleton, ← List.map_append] at hfirst
      · have hk := hbased.first.lt_length
        rw [List.length_map] at hk
        rw [List.getElem?_append_left hk, hbased.get]

/-- The chain of subtractions against a base. -/
theorem Based.remote_d_eq {start : ClockTime} {es : List Exchange} {minrtt : UInt32}
    {basets2 : Timespec} {k : ℕ} {e' : Exchange} (h : Based start es minrtt basets2 k e')
    (e : Exchange) :
    timespec_milli (timespec_diff (timespec_diff start.toTimespec e.ts1.toTimespec)
      (timespec_diff basets2 e.ts2.toTimespec)) = (e.way - e'.way) / 1000000 := by
  have h₁ := h.nsec_nonneg
  have h₂ := h.nsec_le
  have h₁' := e.ts2.normalised.nonneg
  have h₂' := e.ts2.normalised.lt
  have hremote : (timespec_diff basets2 e.ts2.toTimespec).Normalised :=
    normalised_timespec_diff (by omega) (by omega)
  rw [Timespec.milli_eq ((start.normalised.timespec_diff e.ts1.normalised).timespec_diff hremote),
    nanos_timespec_diff, nanos_timespec_diff, nanos_timespec_diff, h.nanos_eq]
  congr 1
  rw [Exchange.way, Exchange.way, ClockTime.gap, ClockTime.gap]
  ring

/-! ## Reports -/

/-- What the report of reply `e` after replies `es` shows: its delays relative to the first fastest
reply up to and including itself. -/
def Explains (es : List Exchange) (e : Exchange) (r : Report) : Prop :=
  ∃ k e', FirstMin ((es ++ [e]).map Exchange.rtt) k e'.rtt ∧ (es ++ [e])[k]? = some e' ∧
    r.remote_d = (e.way - e'.way) / 1000000 ∧ r.rtt = e.rtt ∧ (r.minrtt.toNat : ℤ) = e'.rtt

/-- **Step lemma for a reply.** It is reported as explained, and the base stays one. -/
theorem Base.replied {start : ClockTime} {es : List Exchange} {m : Measure}
    (hbase : Base start es m.minrtt m.basets2) (e : Exchange) :
    Explains es e (m.replied start e.bytes e.ts3).1 ∧
      Base start (es ++ [e]) (m.replied start e.bytes e.ts3).2.minrtt
        (m.replied start e.bytes e.ts3).2.basets2 := by
  obtain ⟨h1, h2, -⟩ := decoded_reply e.isProbePacket e.sa e.ts2 e.seq2 m rfl
  set r := m.replied start e.bytes e.ts3 with hr
  have hts1 : r.1.info.ts1 = e.ts1.toTimespec := h1
  have hts2 : r.1.info.ts2 = e.ts2.toTimespec := h2
  have hrtt : r.1.rtt = e.rtt := by
    have hmilli : r.1.rtt = timespec_milli (timespec_diff r.1.info.ts1 e.ts3.toTimespec) := rfl
    rw [hmilli, hts1, Timespec.milli_eq (e.ts1.normalised.timespec_diff e.ts3.normalised),
      nanos_timespec_diff]
    rfl
  obtain ⟨k, e', hbased⟩ := Base.update m r.1.info hbase hts1 hts2
  have hbase_eq : update_base start.toTimespec m r.1.info e.rtt = (r.1.minrtt, r.2.basets2) := by
    rw [← hrtt]
    rfl
  rw [hbase_eq] at hbased
  have hremote : r.1.remote_d = timespec_milli (timespec_diff (timespec_diff start.toTimespec
    r.1.info.ts1) (timespec_diff r.2.basets2 r.1.info.ts2)) := rfl
  refine ⟨⟨k, e', hbased.first, hbased.get, ?_, hrtt, hbased.minrtt_eq⟩, .inr ⟨k, e', hbased⟩⟩
  rw [hremote, hts1, hts2, hbased.remote_d_eq]

/-- What the other inputs do. -/
theorem measure1_silent {start : ClockTime} {m : Measure} {i : Input} (hi : i.exchange? = none) :
    ∃ lines m', measure1 start m i.poll = some (lines, m') ∧
      lines.filterMap Line.report? = [] ∧ m'.minrtt = m.minrtt ∧ m'.basets2 = m.basets2 := by
  cases i with
  | reply check e => cases hi
  | timeout check now =>
    refine ⟨_, _, rfl, ?_, rfl, rfl⟩
    rw [List.filterMap_append, check_clogged_no_report]
    split <;> rfl
  | failure check now =>
    refine ⟨_, _, rfl, ?_, rfl, rfl⟩
    rw [List.filterMap_append, check_clogged_no_report]
    rfl

/-- **Run lemma.** Every reply is reported, as explained by the replies before it. -/
theorem transduce_measure1 {start : ClockTime} (inputs : List Input) {es : List Exchange} {m : Measure}
    (hbase : Base start es m.minrtt m.basets2) :
    ∃ out m', transduce (measure1 start) m (inputs.map Input.poll) = some (out, m') ∧
      (reports out).length = (exchanges inputs).length ∧
      ∀ i e r, (exchanges inputs)[i]? = some e → (reports out)[i]? = some r →
        Explains (es ++ (exchanges inputs).take i) e r := by
  induction inputs generalizing es m with
  | nil => exact ⟨[], m, rfl, rfl, fun i e r h ↦ nomatch h⟩
  | cons input inputs ih =>
    cases hi : input.exchange? with
    | none =>
      obtain ⟨lines, m₁, hstep, hlines, hmin, hbasets2⟩ := measure1_silent (m := m) hi
      rw [← hmin, ← hbasets2] at hbase
      obtain ⟨out, m', hrun, hlen, hexplains⟩ := ih hbase
      refine ⟨lines :: out, m', transduce_cons_eq_some.mpr ⟨_, _, _, hstep, hrun, rfl⟩, ?_, ?_⟩
      · rwa [reports_cons, hlines, List.nil_append, exchanges, List.filterMap_cons_none hi]
      · rwa [reports_cons, hlines, List.nil_append, exchanges, List.filterMap_cons_none hi]
    | some e =>
      obtain ⟨check, rfl⟩ : ∃ check, input = .reply check e := by
        cases input with
        | reply check e' => exact ⟨check, by rw [Option.some.inj hi]⟩
        | timeout check now => cases hi
        | failure check now => cases hi
      obtain ⟨hexplains, hbase'⟩ := hbase.replied e
      obtain ⟨lines, hstep, hlines⟩ := measure1_datagram start m check e.ts3 e.bytes
      obtain ⟨out, m', hrun, hlen, hrest⟩ := ih hbase'
      refine ⟨lines :: out, m', transduce_cons_eq_some.mpr ⟨_, _, _, hstep, hrun, rfl⟩, ?_, ?_⟩
      · rw [reports_cons, hlines, exchanges, List.filterMap_cons_some hi]
        exact congrArg (· + 1) hlen
      · rw [reports_cons, hlines, exchanges, List.filterMap_cons_some hi]
        intro i e' r he' hr
        cases i with
        | zero =>
          cases he'
          cases hr
          rwa [List.take_zero, List.append_nil]
        | succ i =>
          have h := hrest i e' r he' hr
          rwa [List.append_assoc, List.singleton_append] at h

/-! ## The result -/

/-- The exchange of a shifted clock: all the same but for the server's time. -/
def Exchange.Shifted (c : ℤ) (e e' : Exchange) : Prop :=
  e'.ts1 = e.ts1 ∧ e'.ts3 = e.ts3 ∧ e'.ts2.nanos = e.ts2.nanos + c

theorem Exchange.Shifted.rtt_eq {c : ℤ} {e e' : Exchange} (h : e.Shifted c e') : e'.rtt = e.rtt := by
  rw [rtt, rtt, h.1, h.2.1]

theorem Exchange.Shifted.way_eq {c : ℤ} {e e' : Exchange} (h : e.Shifted c e') :
    e'.way = e.way + c := by
  rw [way, way, ClockTime.gap, ClockTime.gap, h.1, h.2.2]
  ring

theorem forall₂_getElem? {α β : Type*} {R : α → β → Prop} {l : List α} {l' : List β}
    (h : List.Forall₂ R l l') {k : ℕ} {a : α} {b : β} (ha : l[k]? = some a) (hb : l'[k]? = some b) :
    R a b := by
  induction h generalizing k with
  | nil => cases ha
  | cons hab _ ih =>
    cases k with
    | zero =>
      cases ha
      cases hb
      exact hab
    | succ k => exact ih ha hb

theorem map_rtt_eq {c : ℤ} {l l' : List Exchange} (h : List.Forall₂ (Exchange.Shifted c) l l') :
    l'.map Exchange.rtt = l.map Exchange.rtt := by
  induction h with
  | nil => rfl
  | cons hab _ ih => rw [List.map_cons, List.map_cons, hab.rtt_eq, ih]

/-- Reports of shifted exchanges show the same delays. -/
theorem Explains.delays_eq {c : ℤ} {es es' : List Exchange} {e e' : Exchange} {r r' : Report}
    (h : Explains es e r) (h' : Explains es' e' r') (hes : List.Forall₂ (Exchange.Shifted c) es es')
    (he : e.Shifted c e') : (r'.delay_loc, r'.delay_rem) = (r.delay_loc, r.delay_rem) := by
  obtain ⟨k, b, hfirst, hget, hremote, hrtt, hmin⟩ := h
  obtain ⟨k', b', hfirst', hget', hremote', hrtt', hmin'⟩ := h'
  have hall : List.Forall₂ (Exchange.Shifted c) (es ++ [e]) (es' ++ [e']) :=
    List.rel_append hes (.cons he .nil)
  -- the round trips are the same, so the base is the same reply
  rw [map_rtt_eq hall] at hfirst'
  have hk := hfirst.unique hfirst'
  subst hk
  have hb : b.Shifted c b' := forall₂_getElem? hall hget hget'
  have hremote_eq : r'.remote_d = r.remote_d := by
    rw [hremote, hremote', he.way_eq, hb.way_eq, add_sub_add_right_eq_sub]
  have hmin_eq : r'.minrtt = r.minrtt := by
    rw [← UInt32.toNat_inj, ← Nat.cast_inj (R := ℤ), hmin, hmin', hb.rtt_eq]
  rw [Report.delay_loc, Report.delay_rem, hremote_eq, hmin_eq, hrtt', he.rtt_eq, ← hrtt]
  rfl

/-- Among exchanges, the explanation of a report is the first fastest one up to it. -/
theorem Explains.fastest {l : List Exchange} {i : ℕ} {e : Exchange} {r : Report} (he : l[i]? = some e)
    (h : Explains (l.take i) e r) : ∃ (k : ℕ) (e' : Exchange), k ≤ i ∧ l[k]? = some e' ∧
      (∀ (j : ℕ) (e'' : Exchange), j ≤ i → l[j]? = some e'' → e'.rtt ≤ e''.rtt) ∧
      (∀ (j : ℕ) (e'' : Exchange), j < k → l[j]? = some e'' → e'.rtt < e''.rtt) ∧
      r.remote_d = (e.ts1.gap e.ts2 - e'.ts1.gap e'.ts2) / 1000000 := by
  obtain ⟨k, e', hfirst, hget, hremote, -⟩ := h
  have htake : l.take i ++ [e] = l.take (i + 1) := by
    rw [List.take_add_one, he]
    rfl
  have hrtts : ∀ (j : ℕ) (e'' : Exchange), j ≤ i → l[j]? = some e'' →
      ((l.take (i + 1)).map Exchange.rtt)[j]? = some e''.rtt := by
    intro j e'' hj he''
    rw [List.getElem?_map, List.getElem?_take_of_lt (by omega), he'']
    rfl
  rw [htake] at hfirst hget
  have hki : k < i + 1 := by
    have hk := hfirst.lt_length
    rw [List.length_map, List.length_take] at hk
    omega
  rw [List.getElem?_take_of_lt hki] at hget
  refine ⟨k, e', by omega, hget, ?_, ?_, hremote⟩
  · intro j e'' hj he''
    exact hfirst.le j _ (hrtts j e'' hj he'')
  · intro j e'' hj he''
    exact hfirst.lt j _ hj (hrtts j e'' (by omega) he'')

/-- **The delay columns.** For genuine replies, `remote_d` is the floor, in milliseconds, of how much
longer the way to the server took than for the first fastest reply so far; the two delays printed add
up to the round trip; and they do not depend on what the server's clock counts from. -/
theorem measure_delays (start : ClockTime) (garbage : ℕ → UInt8) (info : Snapshot)
    (inputs : List Input) :
    ∃ out m, transduce (measure1 start) (.start garbage info) (inputs.map Input.poll) = some (out, m) ∧
      (reports out).length = (exchanges inputs).length ∧
      (∀ (i : ℕ) (e : Exchange) (r : Report), (exchanges inputs)[i]? = some e →
        (reports out)[i]? = some r →
        (∃ (k : ℕ) (e' : Exchange), k ≤ i ∧ (exchanges inputs)[k]? = some e' ∧
          (∀ (j : ℕ) (e'' : Exchange), j ≤ i → (exchanges inputs)[j]? = some e'' → e'.rtt ≤ e''.rtt) ∧
          (∀ (j : ℕ) (e'' : Exchange), j < k → (exchanges inputs)[j]? = some e'' → e'.rtt < e''.rtt) ∧
          r.remote_d = (e.ts1.gap e.ts2 - e'.ts1.gap e'.ts2) / 1000000) ∧
        r.rtt = e.rtt ∧ r.delay_loc + r.delay_rem = r.rtt) ∧
      ∀ c inputs', List.Forall₂ (Exchange.Shifted c) (exchanges inputs) (exchanges inputs') →
        ∃ out' m', transduce (measure1 start) (.start garbage info) (inputs'.map Input.poll)
            = some (out', m') ∧
          (reports out').map (fun r ↦ (r.delay_loc, r.delay_rem))
            = (reports out).map fun r ↦ (r.delay_loc, r.delay_rem) := by
  have hbase : Base start [] (Measure.start garbage info).minrtt (Measure.start garbage info).basets2 :=
    .inl ⟨rfl, rfl⟩
  obtain ⟨out, m, hrun, hlen, hexplains⟩ := transduce_measure1 inputs hbase
  refine ⟨out, m, hrun, hlen, ?_, ?_⟩
  · intro i e r he hr
    have hexplained := hexplains i e r he hr
    rw [List.nil_append] at hexplained
    refine ⟨hexplained.fastest he, ?_, ?_⟩
    · obtain ⟨_, _, -, -, -, hrtt, -⟩ := hexplained
      exact hrtt
    · rw [Report.delay_loc, Report.delay_rem]
      ring
  · intro c inputs' hshift
    obtain ⟨out', m', hrun', hlen', hexplains'⟩ := transduce_measure1 inputs' hbase
    refine ⟨out', m', hrun', List.ext_getElem? ?_⟩
    intro i
    rw [List.getElem?_map, List.getElem?_map]
    have hlens := hshift.length_eq
    rcases lt_or_ge i (exchanges inputs).length with hi | hi
    · have he := List.getElem?_eq_getElem hi
      have he' := List.getElem?_eq_getElem (hlens ▸ hi)
      have hr := List.getElem?_eq_getElem (hlen ▸ hi)
      have hr' := List.getElem?_eq_getElem (hlen' ▸ hlens ▸ hi)
      rw [hr, hr']
      exact congrArg some ((hexplains i _ _ he hr).delays_eq (hexplains' i _ _ he' hr')
        (List.forall₂_take i hshift) (forall₂_getElem? hshift he he'))
    · rw [List.getElem?_eq_none (by omega), List.getElem?_eq_none (by omega)]

/-- A packet of client 7. -/
private def exchangeAt (seq1 ts1 ts2 ts3 : UInt32)
    (causal : 0 ≤ (ClockTime.seconds ts1).gap (.seconds ts3))
    (short : (ClockTime.seconds ts1).gap (.seconds ts3) / 1000000 < 2 ^ 32 - 1) : Exchange where
  packet := probeHeader 7 (.seconds ts1) seq1
  id := 7
  seq1 := seq1
  ts1 := .seconds ts1
  isProbePacket := List.take_of_length_le (length_probeHeader ..).le
  sa := ⟨AF_INET, .replicate 2 7, .replicate 4 10⟩
  ts2 := .seconds ts2
  seq2 := seq1
  ts3 := .seconds ts3
  causal := causal
  short := short

/-- One second on each way. -/
private def fastReply : Exchange := exchangeAt 0 1 2 3 (by decide) (by decide)

/-- Three seconds on the way there, and one on the way back. -/
private def slowReply : Exchange := exchangeAt 1 10 13 14 (by decide) (by decide)

/-- The second reply took two seconds longer on its way to the server, and the round trip four. -/
theorem measure_delays_slowReply : ∃ out m r r',
    transduce (measure1 (.seconds 0)) (.start (fun _ ↦ 0) default) ([.reply (.seconds 1) fastReply,
        .timeout (.seconds 3) (.seconds 4), .reply (.seconds 4) slowReply].map Input.poll) = some (out, m) ∧
      reports out = [r, r'] ∧ r.remote_d = 0 ∧ r'.remote_d = 2000 ∧ r'.delay_loc + r'.delay_rem = 4000 := by
  obtain ⟨out, m, hrun, hlen, hcolumns, -⟩ := measure_delays (.seconds 0) (fun _ ↦ 0) default
    [.reply (.seconds 1) fastReply, .timeout (.seconds 3) (.seconds 4), .reply (.seconds 4) slowReply]
  obtain ⟨r, r', hreports⟩ := List.length_eq_two.mp hlen
  obtain ⟨⟨k, e, hk, hget, -, -, hremote⟩, -⟩ := hcolumns 0 fastReply r rfl (by rw [hreports]; rfl)
  obtain ⟨⟨k', e', hk', hget', hleast, -, hremote'⟩, hrtt', hsum'⟩ :=
    hcolumns 1 slowReply r' rfl (by rw [hreports]; rfl)
  obtain rfl : k = 0 := Nat.le_zero.mp hk
  cases hget
  -- the first reply stays the fastest one
  obtain rfl | rfl : k' = 0 ∨ k' = 1 := by omega
  · cases hget'
    refine ⟨out, m, r, r', hrun, hreports, ?_, ?_, ?_⟩
    · rw [hremote]
      decide
    · rw [hremote']
      decide
    · rw [hsum', hrtt']
      decide
  · cases hget'
    exact absurd (hleast 0 fastReply (Nat.zero_le 1) rfl) (by decide)

end ViTools.UdpTsSeqReply
