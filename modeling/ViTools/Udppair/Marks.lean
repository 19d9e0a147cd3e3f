import ViTools.Udppair.Routing
import Mathlib.Data.List.TakeDrop

/-!
# What udppair tells about its sending

A relay is faithful if it hands whole datagrams on, and writes a mark for exactly the datagrams that
went out. The program is neither in general. Its buffer is shorter than a datagram may be, and it takes
every result of `sendto` but zero for a success, so it writes the mark after every call.

Both go right in the runs in which no `sendto` fails and the datagrams fit in the buffer, and in no
others.
-/

namespace ViTools.Udppair

/-- After each successful `sendto` its mark is written, and no mark is written otherwise. -/
def Truthful : List Event → Prop
  | [] => True
  | .sendto s :: .write c :: l => s.ret ≠ -1 ∧ c = s.socket.other.mark ∧ Truthful l
  | .sendto s :: l => s.ret = -1 ∧ Truthful l
  | .write _ :: _ => False
  | .recvfrom _ :: l => Truthful l
  | .perror _ :: l => Truthful l

/-- What a relay should do in a run. -/
structure Faithful (l : List Round) : Prop where
  /-- Where there is a peer to send to, `sendto` gets the whole datagram. -/
  whole : List.Forall₂ (fun x s ↦ Known x.1 x.2.port.other → s.data = x.2.datagram.payload)
    (forwarded [] (received (main l).1)) (sends (main l).1)
  truthful : Truthful (main l).1

/-- A reading, with the readings before it, that is sent on as it should be. -/
structure Carried (x : List Reading × Reading) : Prop where
  known : Known x.1 x.2.port.other
  taken : x.2.taken = true
  length_le : x.2.datagram.payload.length ≤ sizeof_buf

theorem whole_iff (l : List Round) :
    List.Forall₂ (fun x s ↦ Known x.1 x.2.port.other → s.data = x.2.datagram.payload)
      (forwarded [] (received (main l).1)) (sends (main l).1) ↔
      ∀ x ∈ forwarded [] (reads l), Known x.1 x.2.port.other →
        x.2.datagram.payload.length ≤ sizeof_buf := by
  rw [received_main]
  refine forall₂_congr_of_forall₂ (routes_reads l) fun x s hroutes ↦ ?_
  rw [hroutes.data, List.take_eq_self_iff]

theorem sendto_ne_iff {dest : SockaddrIn} {data : List UInt8} {taken : Bool} :
    sendto dest data taken ≠ -1 ↔ dest.sin_family = AF_INET ∧ taken = true := by
  rw [sendto]
  split
  · exact iff_of_true (by omega) ‹_›
  · exact iff_of_false (not_not_intro rfl) ‹_›

/-- A call of `sendto` succeeds if there is a peer and the kernel takes the datagram. -/
theorem sending_ret {hist : List Reading} {s : State} (h : Peers hist s.peer) (r : Reading) :
    (s.sending r).ret ≠ -1 ↔ Known hist r.port.other ∧ r.taken = true := by
  have hfamily : (s.peer r.port.other).sin_family = AF_INET ↔ Known hist r.port.other := by
    constructor
    · intro hinet
      by_contra hunknown
      rw [h.zero hunknown] at hinet
      exact absurd hinet (by decide)
    · intro hknown
      obtain ⟨q, -, hsrc⟩ := h.lastPeer hknown
      rw [← hsrc]
      exact q.datagram.sin_family_src
  rw [← hfamily]
  exact sendto_ne_iff

/-- The mark after a call of `sendto` says the truth only if the call succeeded. -/
theorem truthful_forward (s : State) (r : Reading) (l : List Event) :
    Truthful ((forward s r).1 ++ l) ↔
      (r.datagram.payload ≠ [] → (s.sending r).ret ≠ -1) ∧ Truthful l := by
  by_cases hempty : r.datagram.payload = []
  · rw [forward_events_empty s hempty]
    constructor
    · intro h
      exact ⟨fun hne ↦ absurd hempty hne, h⟩
    · rintro ⟨-, h⟩
      exact h
  · rw [forward_events s hempty]
    constructor
    · rintro ⟨hret, -, h⟩
      exact ⟨fun _ ↦ hret, h⟩
    · rintro ⟨hret, h⟩
      exact ⟨hret hempty, congrArg Port.mark r.port.other_other.symm, h⟩

theorem truthful_forwardAll {hist : List Reading} {s : State} (h : Peers hist s.peer)
    (l : List Reading) (t : List Event) :
    Truthful ((forwardAll s l).1 ++ t) ↔
      (∀ x ∈ forwarded hist l, Known x.1 x.2.port.other ∧ x.2.taken = true) ∧ Truthful t := by
  induction l generalizing hist s with
  | nil => exact ⟨fun ht ↦ ⟨by rintro x ⟨⟩, ht⟩, And.right⟩
  | cons r l ih =>
    rw [forwardAll, List.append_assoc, truthful_forward, ih (peers_forward h r), forwarded_cons,
      sending_ret h]
    by_cases hempty : r.datagram.payload = []
    · rw [if_pos hempty]
      constructor
      · exact And.right
      · intro hrest
        exact ⟨fun hne ↦ absurd hempty hne, hrest⟩
    · rw [if_neg hempty, List.forall_mem_cons, and_assoc]
      constructor
      · rintro ⟨hr, hrest⟩
        exact ⟨hr hempty, hrest⟩
      · rintro ⟨hr, hrest⟩
        exact ⟨fun _ ↦ hr, hrest⟩

theorem truthful_complaint (l : List Round) : Truthful (complaint l) := by
  obtain h | ⟨msg, h⟩ := complaint_cases l <;> rw [h] <;> trivial

theorem truthful_iff (l : List Round) :
    Truthful (main l).1 ↔
      ∀ x ∈ forwarded [] (reads l), Known x.1 x.2.port.other ∧ x.2.taken = true := by
  rw [main_events, truthful_forwardAll peers_start, and_iff_left (truthful_complaint l)]

/-- A run is faithful exactly if each datagram that is not empty comes when the other port has a peer,
fits in the buffer, and is taken by the kernel. -/
theorem faithful_iff (l : List Round) :
    Faithful l ↔ ∀ x ∈ forwarded [] (reads l), Carried x := by
  constructor
  · rintro ⟨hwhole, htruthful⟩ x hx
    obtain ⟨hknown, htaken⟩ := (truthful_iff l).mp htruthful x hx
    exact ⟨hknown, htaken, (whole_iff l).mp hwhole x hx hknown⟩
  · intro h
    constructor
    · exact (whole_iff l).mpr fun x hx _ ↦ (h x hx).length_le
    · exact (truthful_iff l).mpr fun x hx ↦ ⟨(h x hx).known, (h x hx).taken⟩

/-- A datagram of zero bytes. -/
private def blank (n : ℕ) (h : n ≤ 65507) : Datagram where
  src := ⟨AF_INET, 40001, 16777343⟩
  payload := List.replicate n 0
  sin_family_src := rfl
  length_payload_le := by rwa [List.length_replicate]

/-- The first datagram of a run does not go out and is marked all the same, and once both ports have a
peer, one byte more than the buffer holds is cut off. -/
theorem not_faithful :
    ¬Faithful [.ready (some (.datagram (blank 1 (by decide)) true)) none] ∧
      ¬Faithful [.ready none (some (.datagram (blank 0 (by decide)) true)),
        .ready (some (.datagram (blank 4097 (by decide)) true)) none] := by
  constructor
  · rintro ⟨-, htruthful⟩
    rw [truthful_iff] at htruthful
    revert htruthful
    decide +kernel
  · rintro ⟨hwhole, -⟩
    rw [whole_iff] at hwhole
    revert hwhole
    decide +kernel

end ViTools.Udppair
