import ViTools.Lib.Run
import ViTools.UdpTsSeqReply.Session

/-!
# The loss columns

Two losses are printed with every reply, one for each direction, as differences of three counters. As
long as the server counts what it should, both are exact, and therefore they only grow.

The server forgets a client that was silent for 61 seconds, while the two counters of the probe go
on. Packets that arrived before are then taken for lost ones, and replies that arrived are
subtracted from the replies lost, which may leave less than nothing.
-/

namespace ViTools.UdpTsSeqReply

namespace Session

variable {set : Settings} {start : ClockTime} {s s' : Session}

/-! ## Accounts over runs -/

/-- Both losses in terms of what was counted and received. -/
theorem Accounts.losses {counted : List ℕ} (h : Accounts s counted) {p : ℕ × Report}
    (hp : p ∈ s.reports) :
    p.2.info.seq1.toNat = p.1 ∧
      p.2.loss_loc = ((Finset.range p.1).filter (· ∉ counted)).card ∧
      p.2.loss_rem = ((Finset.range p.1).filter fun j ↦ j ∈ counted ∧ j ∉ s.received).card := by
  obtain ⟨a, b, a', b', hsplit, hsplit', hseq1, hloc, hrem⟩ := h.reported p hp
  have hsorted : counted.Pairwise (· < ·) := List.pairwise_lt_range.sublist h.toServer.arrived_sublist
  refine ⟨hseq1, ?_, ?_⟩
  · rw [hloc, card_lt_not_member hsorted hsplit]
  · rw [hrem, card_lt_lost hsorted h.toMeasure.arrived_sublist hsplit hsplit']

/-- The losses are counts of what is below the packet, so they only grow. -/
theorem Accounts.losses_le {counted : List ℕ} (h : Accounts s counted) {p q : ℕ × Report}
    (hp : p ∈ s.reports) (hq : q ∈ s.reports) (hpq : p.1 < q.1) :
    p.2.loss_loc ≤ q.2.loss_loc ∧ p.2.loss_rem ≤ q.2.loss_rem := by
  obtain ⟨-, hloc, hrem⟩ := h.losses hp
  obtain ⟨-, hloc', hrem'⟩ := h.losses hq
  have hsub : Finset.range p.1 ⊆ Finset.range q.1 := Finset.range_subset_range.mpr hpq.le
  rw [hloc, hrem, hloc', hrem']
  constructor
  · exact_mod_cast Finset.card_le_card (Finset.filter_subset_filter _ hsub)
  · exact_mod_cast Finset.card_le_card (Finset.filter_subset_filter _ hsub)

/-- The reports are in the order of their packets. -/
theorem Accounts.pairwise_reports {counted : List ℕ} (h : Accounts s counted) :
    s.reports.Pairwise fun p q ↦ p.1 < q.1 := by
  have hreceived : s.received.Pairwise (· < ·) := List.pairwise_lt_range.sublist
    (h.toMeasure.arrived_sublist.trans h.toServer.arrived_sublist)
  rwa [← h.reports, List.pairwise_map] at hreceived

/-- **Run lemma.** In a run that keeps the count, there are accounts at every state. -/
theorem accounts_of_run {s₀ : Session} {actions : List Action} (hinit : Initial set s₀)
    (hguard : Guarded (step set start) Unbroken s₀ actions)
    (hrun : run (step set start) s₀ actions = some s) (hsent : s.sent ≤ 2 ^ 32) :
    ∃ counted, Accounts s counted := by
  refine run_invariant (fun s ↦ s.sent ≤ 2 ^ 32 → ∃ counted, Accounts s counted) ?_
    (fun _ ↦ ⟨[], hinit.accounts⟩) hguard hrun hsent
  intro s a s' h hunbroken hstep hsent'
  have hsent := (frame_of_step hstep).1.trans hsent'
  obtain ⟨counted, hcounted⟩ := h hsent
  exact ⟨_, hcounted.step hsent hunbroken hstep⟩

/-! ## Timely runs -/

/-- A packet comes in time: the first one finds a stale entry or none, and a later one comes less than
61 seconds after the last. -/
def InTime (e : Entry) (ts : ClockTime) : Option ClockTime → Prop
  | none => e.Stale ts
  | some last => last.gap ts < 61 * 1000000000

instance (e : Entry) (ts : ClockTime) : ∀ last, Decidable (InTime e ts last)
  | none => inferInstanceAs (Decidable (e.Stale ts))
  | some last => inferInstanceAs (Decidable (last.gap ts < 61 * 1000000000))

/-- Every packet that reaches the server comes in time. -/
def Timely (s : Session) : Action → Prop
  | .serve _ ts => InTime (s.server.entry s.probe.id) ts s.last_arrival
  | _ => True

instance (s : Session) : ∀ a, Decidable (s.Timely a)
  | .serve _ ts => inferInstanceAs (Decidable (InTime _ ts _))
  | .send _ | .lose_packet _ | .serve_other _ | .lose_reply _ | .receive _ _ | .timeout _ _
  | .failure _ _ => .isTrue trivial

/-- Under a timely action, exactly the first arrival resets the id. -/
theorem Timely.stale_iff {counted : List ℕ} (h : Accounts s counted) {sa : SockaddrIn}
    {ts : ClockTime} (htimely : s.Timely (.serve sa ts)) :
    (s.server.entry s.probe.id).Stale ts ↔ s.last_arrival = none := by
  rw [Timely] at htimely
  cases hlast : s.last_arrival with
  | none =>
    rw [hlast] at htimely
    exact iff_of_true htimely rfl
  | some last =>
    rw [hlast] at htimely
    refine iff_of_false (fun hstale ↦ ?_) (by simp)
    have hgap := (Entry.stale_iff (h.lastseens last hlast)).mp hstale
    exact absurd htimely (not_lt.mpr hgap)

theorem Timely.unbroken {counted : List ℕ} (h : Accounts s counted) {a : Action}
    (htimely : s.Timely a) : s.Unbroken a := by
  cases a with
  | serve sa ts =>
    have hstale := Timely.stale_iff h htimely
    refine ⟨fun hs ↦ ?_, hstale.mpr⟩
    -- nothing was counted, so nothing was received and nothing is on its way
    have hfifo := h.toMeasure.sublist
    rw [h.counted_eq_nil.mpr (hstale.mp hs), List.sublist_nil, List.append_eq_nil_iff,
      List.map_eq_nil_iff] at hfifo
    exact hfifo
  | send _ | lose_packet _ | serve_other _ | lose_reply _ | receive _ _ | timeout _ _
  | failure _ _ => trivial

/-- Timely actions count everything that arrives. -/
theorem Timely.recount_eq (h : Accounts s s.arrived) {a : Action} (htimely : s.Timely a)
    (hstep : step set start s a = some s') : s.recount s.arrived a = s'.arrived := by
  cases a with
  | serve sa ts =>
    obtain ⟨k, packet, rest, ts1, hto, -, rfl⟩ := h.serve_spec hstep
    rw [recount, hto]
    split
    · next hs =>
      have hnil := h.counted_eq_nil.mpr ((Timely.stale_iff h htimely).mp hs)
      dsimp only
      rw [hnil]
      rfl
    · rfl
  | send _ | lose_packet _ | serve_other _ | lose_reply _ | receive _ _ | timeout _ _
  | failure _ _ =>
    refine ((frame_of_step hstep).2 ?_).symm
    rintro _ _ ⟨⟩

/-- **Run lemma.** In a timely run, the server has counted what arrived. -/
theorem accounts_arrived_of_run {s₀ : Session} {actions : List Action} (hinit : Initial set s₀)
    (hguard : Guarded (step set start) Timely s₀ actions)
    (hrun : run (step set start) s₀ actions = some s) (hsent : s.sent ≤ 2 ^ 32) :
    Accounts s s.arrived := by
  refine run_invariant (fun s ↦ s.sent ≤ 2 ^ 32 → Accounts s s.arrived) ?_ (fun _ ↦ ?_) hguard hrun
    hsent
  · intro s a s' h htimely hstep hsent'
    have hsent := (frame_of_step hstep).1.trans hsent'
    rw [← Timely.recount_eq (h hsent) htimely hstep]
    exact (h hsent).step hsent (Timely.unbroken (h hsent) htimely) hstep
  · rw [hinit.arrived]
    exact hinit.accounts

/-! ## Results -/

/-- **Exact losses.** In a timely run, the report for packet `k` shows how many of the packets before
`k` did not reach the server, and how many replies to packets before `k` did not reach `measure`. -/
theorem losses_exact {s₀ : Session} {actions : List Action} (hinit : Initial set s₀)
    (hrun : run (step set start) s₀ actions = some s)
    (htimely : Guarded (step set start) Timely s₀ actions) (hsent : s.sent < 2 ^ 32) :
    s.reports.map Prod.fst = s.received ∧ ∀ k r, (k, r) ∈ s.reports →
      r.info.seq1.toNat = k ∧
      r.loss_loc = ((Finset.range k).filter fun j ↦ j ∉ s.arrived).card ∧
      r.loss_rem = ((Finset.range k).filter fun j ↦ j ∈ s.arrived ∧ j ∉ s.received).card := by
  have h := accounts_arrived_of_run hinit htimely hrun hsent.le
  exact ⟨h.reports, fun k r hr ↦ h.losses hr⟩

/-- **Growing losses.** In a run that keeps the count, no loss is negative and none is less than in a
report before. -/
theorem losses_monotone {s₀ : Session} {actions : List Action} (hinit : Initial set s₀)
    (hrun : run (step set start) s₀ actions = some s)
    (hunbroken : Guarded (step set start) Unbroken s₀ actions) (hsent : s.sent < 2 ^ 32) :
    (∀ p ∈ s.reports, 0 ≤ p.2.loss_loc ∧ 0 ≤ p.2.loss_rem) ∧
      s.reports.Pairwise fun p q ↦ p.2.loss_loc ≤ q.2.loss_loc ∧ p.2.loss_rem ≤ q.2.loss_rem := by
  obtain ⟨counted, h⟩ := accounts_of_run hinit hunbroken hrun hsent.le
  refine ⟨fun p hp ↦ ?_, ?_⟩
  · obtain ⟨-, hloc, hrem⟩ := h.losses hp
    rw [hloc, hrem]
    exact ⟨Int.natCast_nonneg _, Int.natCast_nonneg _⟩
  · exact h.pairwise_reports.imp_of_mem fun hp hq hpq ↦ h.losses_le hp hq hpq

/-! ### Concrete runs -/

/-- One packet of the least size each second. -/
private def slow : Settings where
  kbps := 1
  packet_size := 24
  overhead := 101
  size_ge := le_refl _
  size_le := by decide
  kbps_ge := le_refl _
  delay_le := by decide

/-- A probe and a server that have just been started. -/
private def fresh : Session where
  probe := { id := 0, buf := ((Buffer.mk 65536 fun _ ↦ 0).put 0 (List.replicate 24 0)).byte, seq_ := 0 }
  server := .start
  measure := .start (fun _ ↦ 0) default
  toServer := []
  toMeasure := []
  sent := 0
  arrived := []
  last_arrival := none
  received := []
  reports := []

private theorem initial_fresh : Initial slow fresh where
  probe := ⟨fun _ ↦ 0, .seconds 0, Probe.start_eq ..⟩
  measure := ⟨fun _ ↦ 0, default, rfl⟩
  toServer := rfl
  toMeasure := rfl
  sent := rfl
  arrived := rfl
  last_arrival := rfl
  received := rfl
  reports := rfl

/-- The source address of the probe. -/
private def home : SockaddrIn where
  sin_family := AF_INET
  sin_port := #v[0x07, 0x7f]
  sin_addr := .replicate 4 10

/-- Packet 1 is lost on the way there, and packet 2 on the way back. -/
private def lossy : List Action :=
  [.send (.seconds 0), .serve home (.seconds 0), .receive (.seconds 0) (.seconds 0),
    .send (.seconds 1), .send (.seconds 2), .lose_packet 0, .serve home (.seconds 2), .lose_reply 0,
    .send (.seconds 3), .timeout (.seconds 3) (.seconds 3), .serve home (.seconds 3),
    .receive (.seconds 3) (.seconds 3)]

/-- All the packets of a minute are lost. -/
private def outage : List Action :=
  [.send (.seconds 0), .serve home (.seconds 0), .receive (.seconds 0) (.seconds 0)]
    ++ (List.range 60).flatMap (fun i ↦ [.send (.seconds (UInt32.ofNat (i + 1))), .lose_packet 0])
    ++ [.timeout (.seconds 60) (.seconds 60), .send (.seconds 61), .serve home (.seconds 61),
      .receive (.seconds 61) (.seconds 61)]

/-- What is printed in a run: the packets sent, and the losses in each report. -/
private def printed (actions : List Action) : Option (ℕ × List (ℕ × ℤ × ℤ)) :=
  (run (step slow (.seconds 0)) fresh actions).map fun s ↦
    (s.sent, s.reports.map fun p ↦ (p.1, p.2.loss_loc, p.2.loss_rem))

private theorem printed_lossy : printed lossy = some (4, [(0, 0, 0), (3, 1, 1)]) := by
  decide +kernel

private theorem printed_outage : printed outage = some (62, [(0, 0, 0), (61, 61, -1)]) := by
  decide +kernel

/-- One loss in each direction, both shown in the report for packet 3. -/
theorem losses_exact_lossy : ∃ s, run (step slow (.seconds 0)) fresh lossy = some s ∧
    s.reports.map (fun p ↦ (p.1, p.2.loss_loc, p.2.loss_rem)) = [(0, 0, 0), (3, 1, 1)] ∧
    s.reports.map Prod.fst = s.received ∧ ∀ k r, (k, r) ∈ s.reports →
      r.info.seq1.toNat = k ∧
      r.loss_loc = ((Finset.range k).filter fun j ↦ j ∉ s.arrived).card ∧
      r.loss_rem = ((Finset.range k).filter fun j ↦ j ∈ s.arrived ∧ j ∉ s.received).card := by
  obtain ⟨s, hrun, hs⟩ := Option.map_eq_some_iff.mp printed_lossy
  obtain ⟨hsent, hreports⟩ := Prod.mk.inj hs
  exact ⟨s, hrun, hreports, losses_exact initial_fresh hrun (by decide +kernel) (by omega)⟩

/-- The same run keeps the count. -/
theorem losses_monotone_lossy : ∃ s, run (step slow (.seconds 0)) fresh lossy = some s ∧
    (∀ p ∈ s.reports, 0 ≤ p.2.loss_loc ∧ 0 ≤ p.2.loss_rem) ∧
      s.reports.Pairwise fun p q ↦ p.2.loss_loc ≤ q.2.loss_loc ∧ p.2.loss_rem ≤ q.2.loss_rem := by
  obtain ⟨s, hrun, hs⟩ := Option.map_eq_some_iff.mp printed_lossy
  have hsent : s.sent = 4 := congrArg Prod.fst hs
  exact ⟨s, hrun, losses_monotone initial_fresh hrun (by decide +kernel) (by omega)⟩

/-- After a minute in which all packets were lost, the loss of replies falls from 0 to -1. -/
theorem losses_outage : ∃ set start s₀ actions s, Initial set s₀ ∧
    run (step set start) s₀ actions = some s ∧ s.sent < 2 ^ 32 ∧
    s.reports.map (fun p ↦ p.2.loss_rem) = [0, -1] := by
  obtain ⟨s, hrun, hs⟩ := Option.map_eq_some_iff.mp printed_outage
  have hsent : s.sent = 62 := congrArg Prod.fst hs
  have hreports := congrArg (fun p ↦ p.2.map fun r ↦ r.2.2) hs
  rw [List.map_map] at hreports
  exact ⟨slow, .seconds 0, fresh, outage, s, initial_fresh, hrun, by omega, hreports⟩

end Session

end ViTools.UdpTsSeqReply
