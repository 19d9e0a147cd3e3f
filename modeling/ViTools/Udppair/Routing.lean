import ViTools.Udppair.Relay

/-!
# Where udppair sends

Every datagram that is not empty is sent on once, in the order of reading, on the other socket and to
the last peer of that socket. The peer changes with every datagram, also with an empty one.

Before the first datagram on the other socket there is no peer. The program calls `sendto` all the
same, with the all-zero address it started from, and that fails.
-/

namespace ViTools.Udppair

/-! ## What one datagram causes -/

theorem Port.other_ne (p : Port) : p.other ≠ p := by
  cases p <;> decide

theorem Port.other_other (p : Port) : p.other.other = p := by
  cases p <;> rfl

/-- The datagram that goes out for a reading. -/
def State.sending (s : State) (r : Reading) : Sending where
  socket := r.port.other
  dest := s.peer r.port.other
  data := r.datagram.payload.take sizeof_buf
  ret := sendto (s.peer r.port.other) (r.datagram.payload.take sizeof_buf) r.taken

theorem forward_peer (s : State) (r : Reading) :
    (forward s r).2.peer = Function.update s.peer r.port r.datagram.src := by
  rw [forward]
  dsimp only
  split <;> rfl

theorem forward_events_empty (s : State) {r : Reading} (h : r.datagram.payload = []) :
    (forward s r).1 = [.recvfrom r] := by
  rw [forward, recvfrom]
  dsimp only
  rw [if_pos (by rw [h]; rfl)]

/-- The call of `sendto` gets what is in the buffer, and never returns zero. -/
theorem forward_events (s : State) {r : Reading} (h : r.datagram.payload ≠ []) :
    (forward s r).1 = [.recvfrom r, .sendto (s.sending r), .write r.port.mark] := by
  have hdata : (r.datagram.payload.take sizeof_buf).length ≠ 0 := by
    rw [List.length_take, sizeof_buf]
    have hpos := List.length_pos_of_ne_nil h
    omega
  have hret : (s.sending r).ret ≠ 0 := by
    rw [State.sending, sendto]
    dsimp only
    split <;> omega
  have hpeer : Function.update s.peer r.port r.datagram.src r.port.other = s.peer r.port.other :=
    Function.update_of_ne r.port.other_ne _ _
  rw [forward, recvfrom]
  dsimp only
  rw [if_neg hdata, hpeer, Buffer.slice_put_self]
  exact congrArg (fun e ↦ [.recvfrom r, .sendto (s.sending r), e]) (if_neg hret : report _ _ = _)

/-! ## The routing law -/

/-- The calls of `sendto`, in order. -/
def sends (events : List Event) : List Sending :=
  events.filterMap fun e ↦
    match e with
    | .sendto s => some s
    | _ => none

/-- The datagrams read, in order. -/
def received (events : List Event) : List Reading :=
  events.filterMap fun e ↦
    match e with
    | .recvfrom r => some r
    | _ => none

/-- The readings that are not empty, each with all the readings before it. -/
def forwarded (hist l : List Reading) : List (List Reading × Reading) :=
  (histories hist l).filter fun x ↦ x.2.datagram.payload ≠ []

/-- The last datagram read from a port came from this address. -/
def LastPeer (hist : List Reading) (p : Port) (a : SockaddrIn) : Prop :=
  ∃ r, Latest Reading.port p hist r ∧ r.datagram.src = a

/-- A datagram has been read from the port. -/
def Known (hist : List Reading) (p : Port) : Prop := ∃ r ∈ hist, r.port = p

instance (hist : List Reading) (p : Port) : Decidable (Known hist p) :=
  inferInstanceAs (Decidable (∃ r ∈ hist, r.port = p))

/-- How a reading, with the readings before it, is sent on. -/
structure Routes (x : List Reading × Reading) (s : Sending) : Prop where
  socket : s.socket = x.2.port.other
  data : s.data = x.2.datagram.payload.take sizeof_buf
  dest : LastPeer x.1 s.socket s.dest

/-- The same, with the case that the other port has no peer yet. -/
structure RoutesKnown (x : List Reading × Reading) (s : Sending) : Prop where
  socket : s.socket = x.2.port.other
  data : s.data = x.2.datagram.payload.take sizeof_buf
  dest : Known x.1 s.socket → LastPeer x.1 s.socket s.dest
  unknown : ¬Known x.1 s.socket → s.dest = .zero ∧ s.ret = -1

/-- The peers after some readings. -/
abbrev Peers : List Reading → (Port → SockaddrIn) → Prop :=
  Remembers Reading.port (fun r ↦ r.datagram.src) fun _ ↦ .zero

theorem peers_forward {hist : List Reading} {s : State} (h : Peers hist s.peer) (r : Reading) :
    Peers (hist ++ [r]) (forward s r).2.peer := by
  rw [forward_peer]
  exact h.concat r

theorem Peers.lastPeer {hist : List Reading} {peer : Port → SockaddrIn} (h : Peers hist peer)
    {p : Port} (hp : Known hist p) : LastPeer hist p (peer p) := by
  obtain ⟨r, hr⟩ := exists_latest_iff.mpr hp
  exact ⟨r, hr, (h.latest p r hr).symm⟩

theorem Peers.zero {hist : List Reading} {peer : Port → SockaddrIn} (h : Peers hist peer) {p : Port}
    (hp : ¬Known hist p) : peer p = .zero :=
  h.fresh p fun r hr hport ↦ hp ⟨r, hr, hport⟩

theorem routesKnown_sending {hist : List Reading} {s : State} (h : Peers hist s.peer) (r : Reading) :
    RoutesKnown (hist, r) (s.sending r) := by
  constructor
  · rfl
  · rfl
  · exact h.lastPeer
  · intro hunknown
    have hzero : s.peer r.port.other = .zero := h.zero hunknown
    refine ⟨hzero, ?_⟩
    rw [State.sending, hzero]
    rfl

theorem sends_append (e₁ e₂ : List Event) : sends (e₁ ++ e₂) = sends e₁ ++ sends e₂ :=
  List.filterMap_append

theorem forwarded_cons (hist l : List Reading) (r : Reading) :
    forwarded hist (r :: l) =
      if r.datagram.payload = [] then forwarded (hist ++ [r]) l
      else (hist, r) :: forwarded (hist ++ [r]) l := by
  rw [forwarded, histories, List.filter_cons]
  by_cases h : r.datagram.payload = []
  · rw [if_neg (by simp [h]), if_pos h]
    rfl
  · rw [if_pos (by simp [h]), if_neg h]
    rfl

/-- Whatever follows some readings, they are sent on as the peers then are. -/
theorem routes_forwardAll {hist : List Reading} {s : State} (h : Peers hist s.peer)
    (l : List Reading) :
    List.Forall₂ RoutesKnown (forwarded hist l) (sends (forwardAll s l).1) := by
  induction l generalizing hist s with
  | nil => exact .nil
  | cons r l ih =>
    have hnext := ih (peers_forward h r)
    rw [forwarded_cons, forwardAll, sends_append]
    by_cases hempty : r.datagram.payload = []
    · rw [if_pos hempty, forward_events_empty s hempty]
      exact hnext
    · rw [if_neg hempty, forward_events s hempty]
      exact .cons (routesKnown_sending h r) hnext

theorem sends_complaint (l : List Round) : sends (complaint l) = [] := by
  obtain h | ⟨msg, h⟩ := complaint_cases l <;> rw [h] <;> rfl

theorem peers_start : Peers [] State.start.peer := .nil

theorem routes_reads (l : List Round) :
    List.Forall₂ RoutesKnown (forwarded [] (reads l)) (sends (main l).1) := by
  rw [main_events, sends_append, sends_complaint, List.append_nil]
  exact routes_forwardAll peers_start (reads l)

/-! ## What a run reads -/

theorem received_append (e₁ e₂ : List Event) : received (e₁ ++ e₂) = received e₁ ++ received e₂ :=
  List.filterMap_append

theorem received_forward (s : State) (r : Reading) : received (forward s r).1 = [r] := by
  by_cases hempty : r.datagram.payload = []
  · rw [forward_events_empty s hempty]
    rfl
  · rw [forward_events s hempty]
    rfl

theorem received_forwardAll (s : State) (l : List Reading) : received (forwardAll s l).1 = l := by
  induction l generalizing s with
  | nil => rfl
  | cons r l ih =>
    rw [forwardAll, received_append, received_forward, ih]
    rfl

theorem received_complaint (l : List Round) : received (complaint l) = [] := by
  obtain h | ⟨msg, h⟩ := complaint_cases l <;> rw [h] <;> rfl

/-- The inputs alone say what a run reads. -/
theorem received_main (l : List Round) : received (main l).1 = reads l := by
  rw [main_events, received_append, received_forwardAll, received_complaint, List.append_nil]

/-- In every run, the datagrams that are not empty are sent on once each, in the order of reading, on
the other socket, and to the last peer of that socket; as long as it has none, the all-zero address is
passed and nothing goes out. -/
theorem main_routes (l : List Round) :
    List.Forall₂ RoutesKnown (forwarded [] (received (main l).1)) (sends (main l).1) := by
  rw [received_main]
  exact routes_reads l

/-- A datagram of one byte. -/
private def hello : Datagram where
  src := ⟨AF_INET, 40000, 16777343⟩
  payload := [104]
  sin_family_src := rfl
  length_payload_le := by decide

/-- The first datagram of a run is sent to an address that no datagram has come from. -/
theorem not_routes_first :
    ¬∀ l : List Round,
      List.Forall₂ Routes (forwarded [] (received (main l).1)) (sends (main l).1) := by
  intro hall
  have hfirst := hall [.ready (some (.datagram hello true)) none]
  have hsends : sends (main [.ready (some (.datagram hello true)) none]).1 =
      [⟨.port2, .zero, [104], -1⟩] := by decide +kernel
  have hforwarded :
      forwarded [] (received (main [.ready (some (.datagram hello true)) none]).1) =
        [([], ⟨.port1, hello, true⟩)] := by decide +kernel
  rw [hsends, hforwarded, List.forall₂_cons] at hfirst
  obtain ⟨r, hlatest, -⟩ := hfirst.1.dest
  exact not_latest_nil hlatest

end ViTools.Udppair
