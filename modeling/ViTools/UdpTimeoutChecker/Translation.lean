import Mathlib.Data.List.Sort
import ViTools.UdpTimeoutChecker.Session

/-!
# A call of try through an address translator

The client of `udptimeoutchecker` sits behind a translator that forgets a connection after some time
without traffic. Here a call of `try` runs in real time against the server of
`ViTools.UdpTimeoutChecker.Serve`, through a translator and a network that delays and loses datagrams.

What the network and the machines do during a call is its `Weather`. It loses and delays what it likes. If it
is prompt, that is, if all delays of a call together are less than a second, then the replies to a call come in
order and none of them comes after the call (`try_call_spec`). Otherwise they are left for the calls after it.
The translator treats the replies to a call by the traffic of this call.

A request opens the translator, and a reply is let in if the last traffic was not too long ago. Some
translators count replies as traffic and some do not, so that the silence they see is the one between
`B` and `A`, or the whole time from the request to `A`. The difference is less than the delays.
-/

namespace ViTools.UdpTimeoutChecker

/-! ## The way of a datagram -/

/-- What happens to the datagrams of a call. A datagram that is lost on part of its way takes `none`
there. All times are in nanoseconds. -/
structure Weather where
  /-- The time before the call. -/
  idle : ℕ
  /-- The request from the client to the translator. -/
  out : Option ℕ
  /-- The request from there until the server reads it. -/
  onward : Option ℕ
  /-- How much too long the child sleeps before `B`. -/
  late1 : ℕ
  /-- The reply `B` from the server to the translator. -/
  backB : Option ℕ
  /-- The reply `B` from there to the client. -/
  inB : Option ℕ
  /-- How much too long the child sleeps between the replies. -/
  late2 : ℕ
  /-- The reply `A` from the server to the translator. -/
  backA : Option ℕ
  /-- The reply `A` from there to the client. -/
  inA : Option ℕ

namespace Weather

/-- All delays of a call. -/
def delays (w : Weather) : ℕ :=
  w.out.getD 0 + w.onward.getD 0 + w.late1 + w.backB.getD 0 + w.inB.getD 0 + w.late2 + w.backA.getD 0 +
    w.inA.getD 0

/-- What is delivered comes soon. -/
def Prompt (w : Weather) : Prop := w.delays < 1000000000

instance (w : Weather) : Decidable w.Prompt := inferInstanceAs (Decidable (_ < _))

/-- Nothing is lost. -/
def Lossless (w : Weather) : Prop :=
  w.out.isSome ∧ w.onward.isSome ∧ w.backB.isSome ∧ w.inB.isSome ∧ w.backA.isSome ∧ w.inA.isSome

instance (w : Weather) : Decidable w.Lossless := inferInstanceAs (Decidable (_ ∧ _ ∧ _ ∧ _ ∧ _ ∧ _))

end Weather

/-- An address translator. -/
structure Translator where
  /-- After how long it forgets a connection, in nanoseconds. -/
  timeout : ℕ
  /-- Whether a reply keeps the connection open. -/
  inbound : Bool

/-- A reply at time `t`, when the last traffic was at `last`: it is let in or not, and then this is the
time of the last traffic. -/
def Translator.pass (r : Translator) (last t : ℕ) : Option ℕ :=
  if t ≤ last + r.timeout then some (if r.inbound then t else last) else none

/-- A reply at the translator, with the time it is there and the rest of its way. -/
structure Reply where
  /-- When it is at the translator. -/
  time : ℕ
  /-- The rest of its way. -/
  hop : Option ℕ
  /-- The reply. -/
  datagram : Datagram

/-- The reply `l`, sent at time `t`, if it comes to the translator. -/
def sent (l : Letter) (number t : ℕ) (back hop : Option ℕ) : Option Reply :=
  back.map fun d ↦ ⟨t + d, hop, ⟨l.text, number, t⟩⟩

/-- The replies that reach the client, with the times they do. -/
def Translator.deliver (r : Translator) : ℕ → List Reply → List (ℕ × Datagram)
  | _, [] => []
  | last, reply :: replies =>
    match r.pass last reply.time with
    | none => r.deliver last replies
    | some last =>
      (reply.hop.map fun d ↦ (reply.time + d, reply.datagram)).toList ++ r.deliver last replies

/-- The replies to a request that was sent at `since`. -/
def arrivals (r : Translator) (w : Weather) (number seconds since : ℕ) : List (ℕ × Datagram) :=
  match w.out, w.onward, serve1 (request seconds) with
  | some out, some onward, some waits =>
    let b := since + out + onward + waits.ts1 + w.late1
    let a := b + waits.ts2 + w.late2
    let replies := (sent .B number b w.backB w.inB).toList ++ (sent .A number a w.backA w.inA).toList
    r.deliver (since + out) (replies.insertionSort fun x y ↦ x.time ≤ y.time)
  | _, _, _ => []

/-! ## The client -/

/-- The client: its clock, and the replies that have reached its socket or will, in their order. -/
structure Host where
  /-- The time. -/
  now : ℕ
  /-- The replies not read yet. -/
  socket : List (ℕ × Datagram)

/-- `recv` on a socket with a receive timeout. -/
def recv (timeout : ℕ) (h : Host) : Option Datagram × Host :=
  match h.socket with
  | [] => (none, ⟨h.now + timeout, []⟩)
  | (t, d) :: socket =>
    if t ≤ h.now + timeout then (some d, ⟨max h.now t, socket⟩) else (none, ⟨h.now + timeout, h.socket⟩)

/-- What `try` does after its request is sent. -/
def await (timeout : ℕ) (h : Host) : Result × Host :=
  match check_reply .B (recv timeout h).1 with
  | .error result => (result, (recv timeout h).2)
  | .ok b =>
    match check_reply .A (recv timeout (recv timeout h).2).1 with
    | .error result => (result, (recv timeout (recv timeout h).2).2)
    | .ok a => (.ok b a, (recv timeout (recv timeout h).2).2)

/-- A call of `try`. -/
def try_call (r : Translator) (w : Weather) (number seconds : ℕ) (h : Host) : Result × Host :=
  await ((seconds + 2) * 1000000000) ⟨h.now + w.idle,
    (h.socket ++ arrivals r w number seconds (h.now + w.idle)).insertionSort fun x y ↦ x.1 ≤ y.1⟩

/-! ## One call -/

theorem recv_cons {timeout now t : ℕ} (h : t ≤ now + timeout) (d : Datagram)
    (socket : List (ℕ × Datagram)) :
    recv timeout ⟨now, (t, d) :: socket⟩ = (some d, ⟨max now t, socket⟩) := if_pos h

theorem check_reply_text {l : Letter} {d : Datagram} (h : d.text = l.text) :
    check_reply l (some d) = .ok d := by
  rw [check_reply, h]
  exact if_neg (not_not_intro rfl)

theorem check_reply_other {l l' : Letter} {d : Datagram} (h : d.text = l'.text) (hne : l'.char ≠ l.char) :
    check_reply l (some d) = .error (.strange l) := by
  rw [check_reply, h]
  exact if_pos hne

/-- If each reply is missing or comes in time, both are read or the call fails; nothing is left. -/
theorem await_spec {timeout now : ℕ} {B A : Option (ℕ × Datagram)}
    (hB : ∀ p ∈ B, p.1 ≤ now + timeout ∧ p.2.text = Letter.B.text)
    (hA : ∀ p ∈ A, p.1 ≤ now + timeout ∧ p.2.text = Letter.A.text) :
    (await timeout ⟨now, B.toList ++ A.toList⟩).2.socket = [] ∧
      ((await timeout ⟨now, B.toList ++ A.toList⟩).1.code = 0 ↔ B.isSome ∧ A.isSome) := by
  have hfailed : ((-1 : ℤ) = 0) ↔ False := by decide
  rcases B with _ | ⟨tB, dB⟩
  · rw [Option.toList_none, List.nil_append, Option.isSome_none]
    rcases A with _ | ⟨tA, dA⟩
    · exact ⟨rfl, hfailed.trans (by simp)⟩
    · -- the reply `A` is read in place of `B`
      obtain ⟨htime, htext⟩ := hA _ rfl
      rw [Option.toList_some, await, recv_cons htime]
      dsimp only
      rw [check_reply_other htext (by decide)]
      exact ⟨rfl, hfailed.trans (by simp)⟩
  · obtain ⟨htime, htext⟩ := hB _ rfl
    rw [Option.toList_some, List.singleton_append, await, recv_cons htime]
    dsimp only
    rw [check_reply_text htext]
    dsimp only
    rcases A with _ | ⟨tA, dA⟩
    · exact ⟨rfl, hfailed.trans (by simp)⟩
    · obtain ⟨htime', htext'⟩ := hA _ rfl
      have hlater : tA ≤ max now tB + timeout :=
        htime'.trans (Nat.add_le_add_right (le_max_left now tB) timeout)
      rw [Option.toList_some, recv_cons hlater]
      dsimp only
      rw [check_reply_text htext']
      exact ⟨rfl, iff_of_true rfl ⟨rfl, rfl⟩⟩

/-- The translator lets both replies to a request in: `opened` is when the request was there, `timeB` and
`timeA` are when the replies are. -/
def Translator.LetsIn (r : Translator) (opened timeB timeA : ℕ) : Prop :=
  timeB ≤ opened + r.timeout ∧ timeA ≤ (if r.inbound then timeB else opened) + r.timeout

/-- What reaches the client, if anything does. -/
structure Arrives (r : Translator) (w : Weather) (seconds since : ℕ) (B A : Option (ℕ × Datagram)) :
    Prop where
  /-- The first reply comes within the delays. -/
  first : ∀ p ∈ B, p.1 ≤ since + w.delays ∧ p.2.text = Letter.B.text
  /-- The second reply comes after its interval, within the delays. -/
  second : ∀ p ∈ A, since + seconds * 1000000000 ≤ p.1 ∧
    p.1 ≤ since + seconds * 1000000000 + w.delays ∧ p.2.text = Letter.A.text
  /-- Both come if nothing is lost and the translator lets them in. -/
  both : B.isSome ∧ A.isSome ↔ ∃ out onward backB backA inB inA,
    w.out = some out ∧ w.onward = some onward ∧ w.backB = some backB ∧ w.backA = some backA ∧
      w.inB = some inB ∧ w.inA = some inA ∧
      r.LetsIn (since + out) (since + out + onward + w.late1 + backB)
        (since + out + onward + w.late1 + seconds * 1000000000 + w.late2 + backA)

theorem Translator.pass_eq_some {r : Translator} {last t last' : ℕ} :
    r.pass last t = some last' ↔
      t ≤ last + r.timeout ∧ (if r.inbound then t else last) = last' := by
  rw [Translator.pass]
  split
  · next h => rw [Option.some.injEq, and_iff_right h]
  · next h => exact iff_of_false (Option.some_ne_none _).symm fun hpass ↦ h hpass.1

/-- A reply that may be missing, at the client. -/
def Translator.forward (r : Translator) (last : ℕ) (reply : Option Reply) : Option (ℕ × Datagram) :=
  reply.bind fun x ↦ (r.pass last x.time).bind fun _ ↦ x.hop.map fun d ↦ (x.time + d, x.datagram)

/-- The last traffic after a reply that may be missing. -/
def Translator.traffic (r : Translator) (last : ℕ) (reply : Option Reply) : ℕ :=
  (reply.bind fun x ↦ r.pass last x.time).getD last

theorem Translator.deliver_option (r : Translator) (last : ℕ) (reply : Option Reply)
    (replies : List Reply) :
    r.deliver last (reply.toList ++ replies) =
      (r.forward last reply).toList ++ r.deliver (r.traffic last reply) replies := by
  cases reply with
  | none => rfl
  | some x =>
    rw [Option.toList_some, List.singleton_append, Translator.deliver, Translator.forward,
      Translator.traffic, Option.bind_some, Option.bind_some]
    cases r.pass last x.time with
    | none => rfl
    | some last' => rfl

theorem Translator.forward_sent {r : Translator} {last : ℕ} {l : Letter} {number t : ℕ}
    {back hop : Option ℕ} {p : ℕ × Datagram} :
    r.forward last (sent l number t back hop) = some p ↔
      ∃ d d', back = some d ∧ hop = some d' ∧ t + d ≤ last + r.timeout ∧
        p = (t + d + d', ⟨l.text, number, t⟩) := by
  cases back with
  | none => simp [Translator.forward, sent]
  | some d =>
    rw [Translator.forward, sent, Option.map_some, Option.bind_some, Option.bind_eq_some_iff]
    simp only [Translator.pass_eq_some, Option.map_eq_some_iff]
    constructor
    · rintro ⟨_, ⟨htime, -⟩, d', hhop, rfl⟩
      exact ⟨d, d', rfl, hhop, htime, rfl⟩
    · rintro ⟨_, d', hback, hhop, htime, rfl⟩
      cases hback
      exact ⟨_, ⟨htime, rfl⟩, d', hhop, rfl⟩

theorem Translator.traffic_sent {r : Translator} {last : ℕ} {l : Letter} {number t d : ℕ}
    {back hop : Option ℕ} (hback : back = some d) (htime : t + d ≤ last + r.timeout) :
    r.traffic last (sent l number t back hop) = if r.inbound then t + d else last := by
  rw [Translator.traffic, sent, hback, Option.map_some, Option.bind_some, Translator.pass, if_pos htime]
  rfl

theorem arrivals_spec (r : Translator) {w : Weather} (hprompt : w.Prompt) (number : ℕ) {seconds : ℕ}
    (hpos : 1 ≤ seconds) (hmax : seconds ≤ 600) (since : ℕ) :
    ∃ B A, arrivals r w number seconds since = B.toList ++ A.toList ∧ Arrives r w seconds since B A := by
  rw [Weather.Prompt, Weather.delays] at hprompt
  cases hout : w.out with
  | none =>
    refine ⟨none, none, by rw [arrivals, hout]; rfl, by simp, by simp, ?_⟩
    exact iff_of_false (by simp) fun ⟨_, _, _, _, _, _, h, _⟩ ↦ by simp [hout] at h
  | some out =>
  cases honward : w.onward with
  | none =>
    refine ⟨none, none, by rw [arrivals, hout, honward]; rfl, by simp, by simp, ?_⟩
    exact iff_of_false (by simp) fun ⟨_, _, _, _, _, _, _, h, _⟩ ↦ by simp [honward] at h
  | some onward =>
    rw [hout, honward] at hprompt
    have hdelays : w.delays = out + onward + w.late1 + w.backB.getD 0 + w.inB.getD 0 + w.late2 +
        w.backA.getD 0 + w.inA.getD 0 := by rw [Weather.delays, hout, honward]; rfl
    obtain ⟨b, hb⟩ : ∃ b, b = since + out + onward + w.late1 := ⟨_, rfl⟩
    obtain ⟨a, ha⟩ : ∃ a, a = b + seconds * 1000000000 + w.late2 := ⟨_, rfl⟩
    -- the replies are at the translator in the order they were sent
    have hsorted : List.Pairwise (fun x y : Reply ↦ x.time ≤ y.time)
        ((sent .B number b w.backB w.inB).toList ++ (sent .A number a w.backA w.inA).toList) := by
      cases hbackB : w.backB with
      | none => cases w.backA <;> simp [sent]
      | some dB =>
        rw [hbackB] at hprompt
        cases w.backA with
        | none => simp [sent]
        | some dA =>
          simp only [Option.getD_some] at hprompt
          simp [sent]
          omega
    have harrivals : arrivals r w number seconds since =
        (r.forward (since + out) (sent .B number b w.backB w.inB)).toList ++
          (r.forward (r.traffic (since + out) (sent .B number b w.backB w.inB))
            (sent .A number a w.backA w.inA)).toList := by
      have hdeliver := r.deliver_option (r.traffic (since + out) (sent .B number b w.backB w.inB))
        (sent .A number a w.backA w.inA) []
      rw [List.append_nil, Translator.deliver, List.append_nil] at hdeliver
      rw [arrivals, hout, honward, serve1_request (by omega), if_neg (by omega)]
      dsimp only
      rw [Nat.add_zero, ← hb, ← ha, hsorted.insertionSort_eq, Translator.deliver_option, hdeliver]
    refine ⟨_, _, harrivals, ?_, ?_, ?_⟩
    · intro p hp
      obtain ⟨d, d', hd, hd', -, rfl⟩ := Translator.forward_sent.mp hp
      rw [hdelays, hd, hd', Option.getD_some, Option.getD_some]
      exact ⟨by dsimp only; omega, rfl⟩
    · intro p hp
      obtain ⟨d, d', hd, hd', -, rfl⟩ := Translator.forward_sent.mp hp
      rw [hdelays, hd, hd', Option.getD_some, Option.getD_some]
      exact ⟨by dsimp only; omega, by dsimp only; omega, rfl⟩
    · rw [Option.isSome_iff_exists, Option.isSome_iff_exists]
      simp only [Translator.forward_sent, hout, honward, Option.some.injEq]
      constructor
      · rintro ⟨⟨_, dB, dB', hbackB, hinB, hB, -⟩, ⟨_, dA, dA', hbackA, hinA, hA, -⟩⟩
        rw [Translator.traffic_sent hbackB hB] at hA
        refine ⟨out, onward, dB, dA, dB', dA', rfl, rfl, hbackB, hbackA, hinB, hinA, ?_⟩
        rw [← hb, ← ha]
        exact ⟨hB, hA⟩
      · rintro ⟨_, _, dB, dA, dB', dA', rfl, rfl, hbackB, hbackA, hinB, hinA, hlets⟩
        rw [← hb, ← ha] at hlets
        obtain ⟨hB, hA⟩ := hlets
        rw [← Translator.traffic_sent hbackB hB] at hA
        exact ⟨⟨_, dB, dB', hbackB, hinB, hB, rfl⟩, ⟨_, dA, dA', hbackA, hinA, hA, rfl⟩⟩

/-- In prompt weather a call that starts with an empty socket ends with one, and succeeds if nothing is lost
and the translator lets both replies in. -/
theorem try_call_spec (r : Translator) {w : Weather} (hprompt : w.Prompt) (number : ℕ) {seconds : ℕ}
    (hpos : 1 ≤ seconds) (hmax : seconds ≤ 600) {h : Host} (hempty : h.socket = []) :
    (try_call r w number seconds h).2.socket = [] ∧
      ∃ B A, Arrives r w seconds (h.now + w.idle) B A ∧
        ((try_call r w number seconds h).1.code = 0 ↔ B.isSome ∧ A.isSome) := by
  obtain ⟨B, A, harrivals, harrives⟩ := arrivals_spec r hprompt number hpos hmax (h.now + w.idle)
  have hdelays : w.delays < 1000000000 := hprompt
  have hsorted : List.Pairwise (fun x y : ℕ × Datagram ↦ x.1 ≤ y.1) (B.toList ++ A.toList) := by
    rcases B with _ | b
    · cases A <;> simp
    rcases A with _ | a
    · simp
    have hb := (harrives.first b rfl).1
    have ha := (harrives.second a rfl).1
    simp only [Option.toList_some, List.singleton_append, List.pairwise_cons, List.mem_singleton,
      forall_eq, List.not_mem_nil, false_implies, implies_true, List.Pairwise.nil, and_true]
    omega
  have hawait : (await ((seconds + 2) * 1000000000) ⟨h.now + w.idle, B.toList ++ A.toList⟩).2.socket = [] ∧
      ((await ((seconds + 2) * 1000000000) ⟨h.now + w.idle, B.toList ++ A.toList⟩).1.code = 0 ↔
        B.isSome ∧ A.isSome) := by
    refine await_spec (fun p hp ↦ ?_) fun p hp ↦ ?_
    · obtain ⟨htime, htext⟩ := harrives.first p hp
      exact ⟨by omega, htext⟩
    · obtain ⟨-, htime, htext⟩ := harrives.second p hp
      exact ⟨by omega, htext⟩
  rw [try_call, hempty, List.nil_append, harrivals, hsorted.insertionSort_eq]
  exact ⟨hawait.1, B, A, harrives, hawait.2⟩

section Bounds

variable {r : Translator} {w : Weather} {seconds since : ℕ} {B A : Option (ℕ × Datagram)}

/-- How much longer than its timeout a translator may seem to wait. -/
def Translator.slack (r : Translator) (delays : ℕ) : ℕ := if r.inbound then delays else 0

/-- Both replies come only if the interval is within the timeout. -/
theorem Arrives.le_timeout (h : Arrives r w seconds since B A) (hboth : B.isSome ∧ A.isSome) :
    seconds * 1000000000 ≤ r.timeout + r.slack w.delays := by
  obtain ⟨out, onward, backB, backA, inB, inA, -, -, hbackB, -, -, -, -, hA⟩ := h.both.mp hboth
  rw [Translator.slack, Weather.delays, hbackB, Option.getD_some]
  cases hinbound : r.inbound with
  | true =>
    rw [hinbound, if_pos rfl] at hA
    rw [if_pos rfl]
    omega
  | false =>
    rw [hinbound, if_neg Bool.false_ne_true] at hA
    rw [if_neg Bool.false_ne_true]
    omega

/-- If nothing is lost and yet not both replies come, the timeout is within the interval and the
delays. -/
theorem Arrives.timeout_lt (h : Arrives r w seconds since B A) (hlossless : w.Lossless)
    (hfail : ¬(B.isSome ∧ A.isSome)) : r.timeout < seconds * 1000000000 + w.delays := by
  obtain ⟨hout, honward, hbackB, hinB, hbackA, hinA⟩ := hlossless
  obtain ⟨out, hout⟩ := Option.isSome_iff_exists.mp hout
  obtain ⟨onward, honward⟩ := Option.isSome_iff_exists.mp honward
  obtain ⟨backB, hbackB⟩ := Option.isSome_iff_exists.mp hbackB
  obtain ⟨inB, hinB⟩ := Option.isSome_iff_exists.mp hinB
  obtain ⟨backA, hbackA⟩ := Option.isSome_iff_exists.mp hbackA
  obtain ⟨inA, hinA⟩ := Option.isSome_iff_exists.mp hinA
  have hshut := fun hlets ↦
    hfail (h.both.mpr ⟨_, _, _, _, _, _, hout, honward, hbackB, hbackA, hinB, hinA, hlets⟩)
  rw [Weather.delays, hout, honward, hbackB, hinB, hbackA, hinA]
  simp only [Option.getD_some]
  by_contra hle
  refine hshut ⟨by omega, ?_⟩
  split <;> omega

end Bounds

end ViTools.UdpTimeoutChecker
