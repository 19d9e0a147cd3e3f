import ViTools.Lib.LossyFifo
import ViTools.UdpTsSeqReply.RoundTrip

/-!
# Probe, server and measure over a network

The three loops together, with the datagrams of one probe in flight between them. The network loses
what it likes and keeps the rest in order; other clients talk to the server in between.

The packets carry their true numbers along, and the state keeps a history of what arrived where.
Neither is looked at by the programs: they are there to compare the printed numbers with.
-/

namespace ViTools.UdpTsSeqReply

/-- The state of all parties and of the network. -/
structure Session where
  /-- The sending process. -/
  probe : Probe
  /-- The server. -/
  server : Server
  /-- The receiving process. -/
  measure : Measure
  /-- The numbered packets on their way to the server. -/
  toServer : List (ℕ × List UInt8)
  /-- The replies on their way to `measure`, with the numbers of their packets. -/
  toMeasure : List (ℕ × List UInt8)
  /-- How many packets were sent. -/
  sent : ℕ
  /-- The packets that reached the server. -/
  arrived : List ℕ
  /-- When the last one did. -/
  last_arrival : Option ClockTime
  /-- The packets whose replies reached `measure`. -/
  received : List ℕ
  /-- The reports, with the numbers of their packets. -/
  reports : List (ℕ × Report)

/-- What can happen. -/
inductive Action
  /-- The probe sends a packet. -/
  | send (ts : ClockTime)
  /-- A packet is lost. -/
  | lose_packet (i : ℕ)
  /-- The next packet reaches the server. -/
  | serve (sa : SockaddrIn) (ts : ClockTime)
  /-- A datagram of another id reaches the server. -/
  | serve_other (req : Request)
  /-- A reply is lost. -/
  | lose_reply (i : ℕ)
  /-- The next reply reaches `measure`. -/
  | receive (check now : ClockTime)
  /-- `measure` waits in vain. -/
  | timeout (check now : ClockTime)
  /-- `measure` fails to receive. -/
  | failure (check now : ClockTime)

namespace Session

/-- One action; `none` if it is not possible. -/
def step (set : Settings) (start : ClockTime) (s : Session) : Action → Option Session
  | .send ts => do
    let (packet, probe) ← probe1 set s.probe ts
    some { s with probe, toServer := s.toServer ++ [(s.sent, packet)], sent := s.sent + 1 }
  | .lose_packet i => some { s with toServer := s.toServer.eraseIdx i }
  | .serve sa ts =>
    match s.toServer with
    | [] => none
    | (k, packet) :: toServer => do
      let (bytes, server) ← serve1 s.server ⟨packet, sa, ts⟩
      some
        { s with
          server, toServer, toMeasure := s.toMeasure ++ [(k, bytes)], arrived := s.arrived ++ [k]
          last_arrival := some ts }
  | .serve_other req =>
    if req.id = s.probe.id then none
    else do
      let (_, server) ← serve1 s.server req
      some { s with server }
  | .lose_reply i => some { s with toMeasure := s.toMeasure.eraseIdx i }
  | .receive check now =>
    match s.toMeasure with
    | [] => none
    | (k, bytes) :: toMeasure => do
      let (lines, measure) ← measure1 start s.measure ⟨check, .datagram bytes, now⟩
      some
        { s with
          measure, toMeasure, received := s.received ++ [k]
          reports := s.reports ++ (lines.filterMap Line.report?).map fun r ↦ (k, r) }
  | .timeout check now => do
    let (_, measure) ← measure1 start s.measure ⟨check, .eagain, now⟩
    some { s with measure }
  | .failure check now => do
    let (_, measure) ← measure1 start s.measure ⟨check, .error, now⟩
    some { s with measure }

/-- A probe has just been started, and the server is in any state. -/
structure Initial (set : Settings) (s : Session) : Prop where
  /-- The probe has sent nothing. -/
  probe : ∃ garbage ts_next, Probe.start set garbage ts_next = some s.probe
  /-- `measure` has received nothing. -/
  measure : ∃ garbage info, s.measure = .start garbage info
  /-- Nothing is in flight. -/
  toServer : s.toServer = []
  /-- Nothing is in flight. -/
  toMeasure : s.toMeasure = []
  /-- Nothing has happened. -/
  sent : s.sent = 0
  /-- Nothing has happened. -/
  arrived : s.arrived = []
  /-- Nothing has happened. -/
  last_arrival : s.last_arrival = none
  /-- Nothing has happened. -/
  received : s.received = []
  /-- Nothing has happened. -/
  reports : s.reports = []

/-! ## What the numbers mean -/

/-- A packet in flight is packet `k`. -/
def Packet (s : Session) (p : ℕ × List UInt8) : Prop :=
  ∃ ts, IsProbePacket p.2 s.probe.id ts (UInt32.ofNat p.1)

/-- A reply in flight is one to packet `k`, numbered by its place among the packets counted. -/
def Reply (s : Session) (counted : List ℕ) (p : ℕ × List UInt8) : Prop :=
  ∃ packet ts1 sa ts2 a b, IsProbePacket packet s.probe.id ts1 (UInt32.ofNat p.1) ∧
    counted = a ++ p.1 :: b ∧ p.2 = reply ⟨packet, sa, ts2⟩ (UInt32.ofNat a.length)

/-- The losses in a report follow from the places of its packet among those counted and received. -/
def Reported (counted received : List ℕ) (p : ℕ × Report) : Prop :=
  ∃ a b a' b', counted = a ++ p.1 :: b ∧ received = a' ++ p.1 :: b' ∧ p.2.info.seq1.toNat = p.1 ∧
    p.2.loss_loc = p.1 - a.length ∧ p.2.loss_rem = a.length - a'.length

/-- **The invariant.** `counted` are the packets the server has counted since it last reset the id.
The three counters are the numbers of packets sent, counted and received, and what is in flight
carries the numbers it was given. -/
structure Accounts (s : Session) (counted : List ℕ) : Prop where
  /-- The first counter. -/
  seq_ : s.probe.seq_ = UInt32.ofNat s.sent
  /-- The second counter. -/
  seqs : counted ≠ [] → s.server.seqs s.probe.id = some (UInt32.ofNat counted.length)
  /-- The third counter. -/
  seq3 : s.measure.seq3 = UInt32.ofNat s.received.length
  /-- The way to the server. -/
  toServer : LossyFifo (List.range s.sent) counted (s.toServer.map Prod.fst)
  /-- The way back. -/
  toMeasure : LossyFifo counted s.received (s.toMeasure.map Prod.fst)
  /-- The packets in flight. -/
  packets : ∀ p ∈ s.toServer, s.Packet p
  /-- The replies in flight. -/
  replies : ∀ p ∈ s.toMeasure, s.Reply counted p
  /-- There is a report for every reply received. -/
  reports : s.reports.map Prod.fst = s.received
  /-- The reports. -/
  reported : ∀ p ∈ s.reports, Reported counted s.received p
  /-- A packet is counted once one arrived. -/
  counted_eq_nil : counted = [] ↔ s.last_arrival = none
  /-- The history and the server agree on the last arrival. -/
  lastseens : ∀ ts, s.last_arrival = some ts → s.server.lastseens s.probe.id = some ts

/-! ### Initial states -/

theorem Initial.accounts {set : Settings} {s : Session} (h : Initial set s) : Accounts s [] := by
  obtain ⟨garbage, ts_next, hprobe⟩ := h.probe
  obtain ⟨garbage', info, hmeasure⟩ := h.measure
  have hseq : s.probe.seq_ = 0 := by
    rw [Probe.start_eq] at hprobe
    exact (congrArg Probe.seq_ (Option.some.inj hprobe)).symm
  refine ⟨by rw [hseq, h.sent]; rfl, fun hne ↦ absurd rfl hne, ?_, ?_, ?_, ?_, ?_, ?_, ?_, ?_, ?_⟩
  · rw [hmeasure, h.received]
    rfl
  · rw [h.toServer]
    exact .empty
  · rw [h.toMeasure, h.received]
    exact .empty
  · rw [h.toServer]
    exact List.forall_mem_nil _
  · rw [h.toMeasure]
    exact List.forall_mem_nil _
  · rw [h.reports, h.received]
    rfl
  · rw [h.reports]
    exact List.forall_mem_nil _
  · rw [h.last_arrival]
    exact iff_of_true rfl rfl
  · rw [h.last_arrival]
    exact fun _ h ↦ nomatch h

/-! ### Actions on the network -/

namespace Accounts

variable {set : Settings} {start : ClockTime} {s s' : Session} {counted : List ℕ}

theorem lose_packet (h : Accounts s counted) (i : ℕ) :
    Accounts { s with toServer := s.toServer.eraseIdx i } counted where
  __ := h
  toServer := by
    rw [← List.eraseIdx_map]
    exact h.toServer.lose i
  packets p hp := h.packets p (List.eraseIdx_subset hp)

theorem lose_reply (h : Accounts s counted) (i : ℕ) :
    Accounts { s with toMeasure := s.toMeasure.eraseIdx i } counted where
  __ := h
  toMeasure := by
    rw [← List.eraseIdx_map]
    exact h.toMeasure.lose i
  replies p hp := h.replies p (List.eraseIdx_subset hp)

/-! ### Actions of the probe -/

theorem send (h : Accounts s counted) {ts : ClockTime}
    (hstep : step set start s (.send ts) = some s') : Accounts s' counted := by
  rw [step, probe1_eq] at hstep
  cases hstep
  refine { h with seq_ := ?_, toServer := ?_, packets := ?_ }
  · dsimp only
    rw [h.seq_, UInt32.ofNat_add]
    rfl
  · rw [List.range_succ, List.map_append]
    exact h.toServer.send _
  · intro p hp
    rcases List.mem_append.mp hp with hp | hp
    · exact h.packets p hp
    · rw [List.mem_singleton] at hp
      subst hp
      refine ⟨ts, ?_⟩
      dsimp only
      rw [← h.seq_]
      exact isProbePacket_written set s.probe ts

/-! ### Actions of the server -/

theorem serve_other (h : Accounts s counted) {req : Request}
    (hstep : step set start s (.serve_other req) = some s') : Accounts s' counted := by
  rw [step] at hstep
  by_cases hid : req.id = s.probe.id
  · rw [if_pos hid] at hstep
    cases hstep
  · rw [if_neg hid, serve1_eq] at hstep
    cases hstep
    -- the entry of the probe is another one
    refine { h with seqs := ?_, lastseens := ?_ }
    · intro hne
      exact (s.server.seqs_served_of_ne req.ts (Ne.symm hid)).trans (h.seqs hne)
    · intro ts hts
      exact (s.server.lastseens_served_of_ne req.ts (Ne.symm hid)).trans (h.lastseens ts hts)

/-- What the server does with the next packet. -/
theorem serve_spec (h : Accounts s counted) {sa : SockaddrIn} {ts : ClockTime}
    (hstep : step set start s (.serve sa ts) = some s') :
    ∃ k packet rest ts1, s.toServer = (k, packet) :: rest ∧
      IsProbePacket packet s.probe.id ts1 (UInt32.ofNat k) ∧
      s' = { s with
        server := s.server.served s.probe.id ts
        toServer := rest
        toMeasure := s.toMeasure
          ++ [(k, reply ⟨packet, sa, ts⟩ ((s.server.entry s.probe.id).seq ts))]
        arrived := s.arrived ++ [k]
        last_arrival := some ts } := by
  rw [step] at hstep
  cases hto : s.toServer with
  | nil =>
    rw [hto] at hstep
    cases hstep
  | cons p rest =>
    obtain ⟨k, packet⟩ := p
    obtain ⟨ts1, hpacket⟩ := h.packets (k, packet) (hto ▸ List.mem_cons_self)
    have hid : (Request.mk packet sa ts).id = s.probe.id := hpacket.datagramId_eq
    rw [hto] at hstep
    dsimp only at hstep
    rw [serve1_eq, hid] at hstep
    cases hstep
    exact ⟨k, packet, rest, ts1, rfl, hpacket, rfl⟩

/-- The server counts one more packet. -/
theorem serve_fresh (h : Accounts s counted) {sa : SockaddrIn} {ts : ClockTime}
    (hstep : step set start s (.serve sa ts) = some s')
    (hstale : ¬(s.server.entry s.probe.id).Stale ts) (hne : counted ≠ []) :
    ∃ k rest, s.toServer.map Prod.fst = k :: rest ∧ Accounts s' (counted ++ [k]) := by
  obtain ⟨k, packet, rest, ts1, hto, hpacket, rfl⟩ := h.serve_spec hstep
  have hseq : (s.server.entry s.probe.id).seq ts = UInt32.ofNat counted.length := by
    rw [Entry.seq, if_neg hstale, Server.entry, h.seqs hne]
    rfl
  have hfifo := h.toServer
  rw [hto, List.map_cons] at hfifo
  refine ⟨k, rest.map Prod.fst, by rw [hto]; rfl, ?_⟩
  refine { h with seqs := ?_, toServer := hfifo.deliver, toMeasure := ?_, packets := ?_, replies := ?_,
                  reported := ?_, counted_eq_nil := ?_, lastseens := ?_ }
  · intro _
    rw [Server.seqs_served_self, hseq, List.length_append, List.length_singleton, UInt32.ofNat_add]
    rfl
  · rw [List.map_append]
    exact h.toMeasure.send k
  · intro p hp
    exact h.packets p (hto ▸ List.mem_cons_of_mem _ hp)
  · intro p hp
    rcases List.mem_append.mp hp with hp | hp
    · obtain ⟨packet', ts1', sa', ts2', a, b, hpacket', hsplit, hbytes⟩ := h.replies p hp
      exact ⟨packet', ts1', sa', ts2', a, b ++ [k], hpacket', by rw [hsplit]; simp, hbytes⟩
    · rw [List.mem_singleton] at hp
      subst hp
      exact ⟨packet, ts1, sa, ts, counted, [], hpacket, rfl, by rw [hseq]⟩
  · intro p hp
    obtain ⟨a, b, a', b', hsplit, hrest⟩ := h.reported p hp
    exact ⟨a, b ++ [k], a', b', by rw [hsplit]; simp, hrest⟩
  · simp
  · intro ts' hts'
    cases hts'
    exact Server.lastseens_served_self ..

/-- The server starts to count anew. Nothing must be left of the old count. -/
theorem serve_stale (h : Accounts s counted) {sa : SockaddrIn} {ts : ClockTime}
    (hstep : step set start s (.serve sa ts) = some s')
    (hstale : (s.server.entry s.probe.id).Stale ts) (hreceived : s.received = [])
    (htoMeasure : s.toMeasure = []) :
    ∃ k rest, s.toServer.map Prod.fst = k :: rest ∧ Accounts s' [k] := by
  obtain ⟨k, packet, rest, ts1, hto, hpacket, rfl⟩ := h.serve_spec hstep
  have hseq : (s.server.entry s.probe.id).seq ts = 0 := by
    rw [Entry.seq, if_pos hstale]
  have hfifo := h.toServer.forget
  rw [hto, List.map_cons] at hfifo
  have hreports : s.reports = [] := by
    have hmap := h.reports
    rwa [hreceived, List.map_eq_nil_iff] at hmap
  refine ⟨k, rest.map Prod.fst, by rw [hto]; rfl, ?_⟩
  refine { h with seqs := ?_, toServer := hfifo.deliver, toMeasure := ?_, packets := ?_, replies := ?_,
                  reported := ?_, counted_eq_nil := ?_, lastseens := ?_ }
  · intro _
    rw [Server.seqs_served_self, hseq]
    rfl
  · rw [htoMeasure, hreceived]
    exact ⟨List.Sublist.refl _⟩
  · intro p hp
    exact h.packets p (hto ▸ List.mem_cons_of_mem _ hp)
  · intro p hp
    rw [htoMeasure, List.nil_append, List.mem_singleton] at hp
    subst hp
    exact ⟨packet, ts1, sa, ts, [], [], hpacket, rfl, by rw [hseq]; rfl⟩
  · rw [hreports]
    exact List.forall_mem_nil _
  · simp
  · intro ts' hts'
    cases hts'
    exact Server.lastseens_served_self ..

/-! ### Actions of measure -/

theorem timeout (h : Accounts s counted) {check now : ClockTime}
    (hstep : step set start s (.timeout check now) = some s') : Accounts s' counted := by
  cases hstep
  exact { h with }

theorem failure (h : Accounts s counted) {check now : ClockTime}
    (hstep : step set start s (.failure check now) = some s') : Accounts s' counted := by
  cases hstep
  exact { h with }

theorem length_counted_le (h : Accounts s counted) : counted.length ≤ s.sent := by
  have hlen := h.toServer.arrived_sublist.length_le
  rwa [List.length_range] at hlen

/-- The report of the next reply has its losses: no counter has wrapped around. -/
theorem reported_next (h : Accounts s counted) (hsent : s.sent ≤ 2 ^ 32) {k : ℕ} {bytes : List UInt8}
    {rest : List (ℕ × List UInt8)} (hto : s.toMeasure = (k, bytes) :: rest) (start now : ClockTime) :
    Reported counted (s.received ++ [k]) (k, (s.measure.replied start bytes now).1) := by
  obtain ⟨packet, ts1, sa, ts2, a, b, hpacket, hsplit, hbytes⟩ :=
    h.replies (k, bytes) (hto ▸ List.mem_cons_self)
  dsimp only at hsplit hbytes hpacket
  obtain ⟨-, -, hseq1, hseq2, -⟩ := decoded_reply hpacket sa ts2 (UInt32.ofNat a.length) s.measure rfl
  obtain ⟨hloc, hrem⟩ := s.measure.replied_losses start bytes now
  have hcounted := h.length_counted_le
  have ha : a.length < counted.length := by
    rw [hsplit, List.length_append, List.length_cons]
    omega
  have hreceived : s.received.length < counted.length := by
    have hlen := h.toMeasure.sublist.length_le
    rw [hto, List.map_cons, List.length_append, List.length_cons] at hlen
    omega
  have hk : k < s.sent := by
    have hmem : k ∈ counted := by simp [hsplit]
    exact List.mem_range.mp (h.toServer.arrived_sublist.subset hmem)
  have hnum : ∀ n < 2 ^ 32, (UInt32.ofNat n).toNat = n := fun n hn ↦ UInt32.toNat_ofNat_of_lt' hn
  rw [← hbytes] at hseq1 hseq2
  have hinfo : (s.measure.replied start bytes now).1.info.seq1.toNat = k :=
    (congrArg UInt32.toNat hseq1).trans (hnum k (by omega))
  rw [hseq1, hseq2, hnum k (by omega), hnum a.length (by omega)] at hloc
  rw [hseq2, h.seq3, hnum a.length (by omega), hnum s.received.length (by omega)] at hrem
  exact ⟨a, b, s.received, [], hsplit, rfl, hinfo, hloc, hrem⟩

/-- The next reply is reported with its losses. -/
theorem receive (h : Accounts s counted) (hsent : s.sent ≤ 2 ^ 32) {check now : ClockTime}
    (hstep : step set start s (.receive check now) = some s') : Accounts s' counted := by
  rw [step] at hstep
  cases hto : s.toMeasure with
  | nil =>
    rw [hto] at hstep
    cases hstep
  | cons p rest =>
    obtain ⟨k, bytes⟩ := p
    obtain ⟨lines, hrun, hreport⟩ := measure1_datagram start s.measure check now bytes
    rw [hto] at hstep
    dsimp only at hstep
    rw [hrun] at hstep
    cases hstep
    have hfifo := h.toMeasure
    rw [hto, List.map_cons] at hfifo
    refine { h with seq3 := ?_, toMeasure := hfifo.deliver, replies := ?_, reports := ?_,
                    reported := ?_ }
    · rw [List.length_append, List.length_singleton, UInt32.ofNat_add, ← h.seq3]
      rfl
    · intro p hp
      exact h.replies p (hto ▸ List.mem_cons_of_mem _ hp)
    · rw [hreport, List.map_append, h.reports]
      rfl
    · intro p hp
      rw [hreport] at hp
      rcases List.mem_append.mp hp with hp | hp
      · obtain ⟨a, b, a', b', hsplit, hsplit', hlosses⟩ := h.reported p hp
        exact ⟨a, b, a', b' ++ [k], hsplit, by rw [hsplit']; simp, hlosses⟩
      · rw [List.map_singleton, List.mem_singleton] at hp
        subst hp
        exact h.reported_next hsent hto start now

end Accounts

/-! ## Steps -/

/-- The packets counted after an action. -/
def recount (s : Session) (counted : List ℕ) : Action → List ℕ
  | .serve _ ts => (if (s.server.entry s.probe.id).Stale ts then [] else counted)
      ++ (s.toServer.map Prod.fst).take 1
  | _ => counted

/-- The losses cannot run backwards at this action: the first packet that arrives resets the id, and a
later one resets it only while no reply was received and none is on its way. -/
def Unbroken (s : Session) : Action → Prop
  | .serve _ ts => ((s.server.entry s.probe.id).Stale ts → s.received = [] ∧ s.toMeasure = []) ∧
      (s.last_arrival = none → (s.server.entry s.probe.id).Stale ts)
  | _ => True

instance (s : Session) : ∀ a, Decidable (s.Unbroken a)
  | .serve _ _ => inferInstanceAs (Decidable ((_ → _ ∧ _) ∧ (_ → _)))
  | .send _ | .lose_packet _ | .serve_other _ | .lose_reply _ | .receive _ _ | .timeout _ _
  | .failure _ _ => .isTrue trivial

/-- **Step lemma.** Every action keeps the accounts. -/
theorem Accounts.step {set : Settings} {start : ClockTime} {s s' : Session} {counted : List ℕ}
    (h : Accounts s counted) (hsent : s.sent ≤ 2 ^ 32) {a : Action} (hunbroken : s.Unbroken a)
    (hstep : step set start s a = some s') : Accounts s' (s.recount counted a) := by
  cases a with
  | send ts => exact h.send hstep
  | lose_packet i =>
    cases hstep
    exact h.lose_packet i
  | serve sa ts =>
    obtain ⟨hreset, hfirst⟩ := hunbroken
    by_cases hstale : (s.server.entry s.probe.id).Stale ts
    · obtain ⟨k, rest, hto, h'⟩ := h.serve_stale hstep hstale (hreset hstale).1 (hreset hstale).2
      rwa [recount, if_pos hstale, hto]
    · have hne : counted ≠ [] := fun hnil ↦ hstale (hfirst (h.counted_eq_nil.mp hnil))
      obtain ⟨k, rest, hto, h'⟩ := h.serve_fresh hstep hstale hne
      rwa [recount, if_neg hstale, hto]
  | serve_other req => exact h.serve_other hstep
  | lose_reply i =>
    cases hstep
    exact h.lose_reply i
  | receive check now => exact h.receive hsent hstep
  | timeout check now => exact h.timeout hstep
  | failure check now => exact h.failure hstep

/-- Packets are not unsent, and arrive at the server only. -/
theorem frame_of_step {set : Settings} {start : ClockTime} {s s' : Session} {a : Action}
    (hstep : step set start s a = some s') :
    s.sent ≤ s'.sent ∧ ((∀ sa ts, a ≠ .serve sa ts) → s'.arrived = s.arrived) := by
  cases a with
  | send ts =>
    obtain ⟨p, -, hp⟩ := Option.bind_eq_some_iff.mp hstep
    cases hp
    exact ⟨Nat.le_succ _, fun _ ↦ rfl⟩
  | lose_packet i | lose_reply i | timeout check now | failure check now =>
    cases hstep
    exact ⟨le_refl _, fun _ ↦ rfl⟩
  | serve sa ts =>
    rw [step] at hstep
    split at hstep
    · cases hstep
    · obtain ⟨p, -, hp⟩ := Option.bind_eq_some_iff.mp hstep
      cases hp
      exact ⟨le_refl _, fun h ↦ absurd rfl (h sa ts)⟩
  | serve_other req =>
    rw [step] at hstep
    split at hstep
    · cases hstep
    · obtain ⟨p, -, hp⟩ := Option.bind_eq_some_iff.mp hstep
      cases hp
      exact ⟨le_refl _, fun _ ↦ rfl⟩
  | receive check now =>
    rw [step] at hstep
    split at hstep
    · cases hstep
    · obtain ⟨p, -, hp⟩ := Option.bind_eq_some_iff.mp hstep
      cases hp
      exact ⟨le_refl _, fun _ ↦ rfl⟩

end Session

end ViTools.UdpTsSeqReply
