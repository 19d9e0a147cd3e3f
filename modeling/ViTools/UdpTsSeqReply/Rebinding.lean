import ViTools.UdpTsSeqReply.RoundTrip

/-!
# Changes of the source address

After a report `measure` compares the endpoint it has decoded with the one of the reply before, and prints
a line if the address or the port is another one. The decoded port need not be the real one, but two ports
are decoded as the same number only if they are the same. So the lines say exactly what has changed
between the two packets, as the server saw them.

The endpoint of the reply before is a variable that timeouts and errors do not touch. It starts as
0.0.0.0, which is the address of no packet.
-/

namespace ViTools.UdpTsSeqReply

/-! ## Ports -/

theorem SockaddrIn.port_lt (sa : SockaddrIn) : sa.port < 65536 := by
  have h₀ := sa.sin_port[0].toNat_lt
  have h₁ := sa.sin_port[1].toNat_lt
  rw [port]
  omega

/-- The number that a port is decoded as. -/
def decoded_port_of (port : ℕ) : ℕ := if port % 256 < 128 then port else (port + 65280) % 65536

/-- No two ports are decoded as the same number. -/
theorem decoded_port_of_inj {p q : ℕ} (hp : p < 65536) (hq : q < 65536) :
    decoded_port_of p = decoded_port_of q ↔ p = q := by
  constructor
  · intro h
    rw [decoded_port_of, decoded_port_of] at h
    split at h <;> split at h <;> omega
  · rintro rfl
    rfl

/-! ## Runs of answers -/

/-- A datagram that the server sends for a packet with a signature. -/
structure Answer where
  /-- The packet and its source. -/
  req : Request
  /-- The packet has a signature. -/
  signed : Signed req.datagram
  /-- It came by IPv4. -/
  family : req.sa.sin_family = AF_INET
  /-- It came from an address. -/
  addr_ne : req.sa.sin_addr ≠ #v[0, 0, 0, 0]
  /-- The datagram sent. -/
  bytes : List UInt8
  /-- The server sends it. -/
  served : ∃ srv srv', serve1 srv req = some (bytes, srv')

/-- What an iteration of `measure` receives, with the clock before and after. -/
inductive Arrival
  /-- An answer of the server. -/
  | answer (check : ClockTime) (a : Answer) (now : ClockTime)
  /-- The timeout of the socket expired. -/
  | eagain (check now : ClockTime)
  /-- Another error. -/
  | error (check now : ClockTime)

namespace Arrival

/-- The input of the iteration. -/
def poll : Arrival → Poll
  | answer check a now => ⟨check, .datagram a.bytes, now⟩
  | eagain check now => ⟨check, .eagain, now⟩
  | error check now => ⟨check, .error, now⟩

/-- The answer, if it is one. -/
def answer? : Arrival → Option Answer
  | answer _ a _ => some a
  | _ => none

end Arrival

/-- The last answer received. -/
def lastAnswer (arrivals : List Arrival) : Option Answer := (arrivals.filterMap Arrival.answer?).getLast?

theorem lastAnswer_concat (arrivals : List Arrival) (x : Arrival) :
    lastAnswer (arrivals ++ [x]) = x.answer?.or (lastAnswer arrivals) := by
  rw [lastAnswer, lastAnswer, List.filterMap_append]
  cases h : x.answer? <;> simp [h]

/-! ## The endpoint of the reply before -/

/-- The variables hold what is decoded from the last answer. -/
def Remembers (last : Option Answer) (m : Measure) : Prop :=
  match last with
  | none => m.previp = .replicate 4 0
  | some a => m.previp = a.req.sa.sin_addr ∧ m.prevport.toNat = decoded_port_of a.req.sa.port

theorem Answer.decoded_eq (a : Answer) (m : Measure) :
    (decoded (m.filled a.bytes)).ip = a.req.sa.sin_addr ∧
      (decoded (m.filled a.bytes)).port.toNat = decoded_port_of a.req.sa.port := by
  obtain ⟨srv, srv', hserve⟩ := a.served
  rw [serve1_eq] at hserve
  obtain ⟨hbytes, -⟩ := Prod.mk.inj (Option.some.inj hserve)
  rw [← hbytes]
  exact decoded_endpoint a.signed a.family _ m rfl

/-- One iteration. -/
theorem remembers_step {start : ClockTime} {last : Option Answer} {m m' : Measure} {x : Arrival}
    {lines : List Line} (h : Remembers last m) (hstep : measure1 start m x.poll = some (lines, m')) :
    Remembers (x.answer?.or last) m' := by
  cases x with
  | answer check a now =>
    rw [Arrival.poll, measure1_datagram_eq] at hstep
    cases hstep
    exact a.decoded_eq m
  | eagain check now =>
    rw [Arrival.poll, measure1_eagain] at hstep
    cases hstep
    exact h
  | error check now =>
    rw [Arrival.poll, measure1_error] at hstep
    cases hstep
    exact h

/-- The iteration of any arrival, and the variables before it. -/
theorem exists_iteration {start : ClockTime} {garbage : ℕ → UInt8} {info : Snapshot}
    {arrivals before after : List Arrival} {x : Arrival} {out : List (List Line)} {m : Measure}
    (hrun : transduce (measure1 start) (.start garbage info) (arrivals.map Arrival.poll) = some (out, m))
    (heq : arrivals = before ++ x :: after) :
    ∃ m₁ lines m₂, Remembers (lastAnswer before) m₁ ∧ measure1 start m₁ x.poll = some (lines, m₂) ∧
      out[before.length]? = some lines := by
  subst heq
  rw [← transduce_map] at hrun
  obtain ⟨os, m₁, lines, m₂, hbefore, hstep, hout⟩ := transduce_split hrun
  -- the invariant speaks about the last answer of the arrivals so far
  have hinv : ∀ hist s y o s', Remembers (lastAnswer hist) s →
      measure1 start s (Arrival.poll y) = some (o, s') → Remembers (lastAnswer (hist ++ [y])) s' := by
    intro hist s y o s' h hy
    rw [lastAnswer_concat]
    exact remembers_step h hy
  have hstart : Remembers (lastAnswer []) (.start garbage info) := rfl
  exact ⟨m₁, lines, m₂, transduce_invariant hinv hstart hbefore, hstep, hout⟩

/-! ## The lines after a report -/

theorem same_ip_iff {a b : Vector UInt8 4} : same_ip a b = true ↔ a = b := by
  rw [same_ip, beq_iff_eq, Vector.toList_inj]

section EndpointLines

variable (m : Measure) (ip : Vector UInt8 4) (port : UInt16)

theorem endpoint_lines_eq_new_ip_iff :
    endpoint_lines m ip port = [.new_ip] ↔ m.previp ≠ ip ∧ m.previp ≠ #v[0, 0, 0, 0] := by
  rw [endpoint_lines]
  by_cases hip : m.previp = ip
  · rw [if_pos (same_ip_iff.mpr hip)]
    split <;> simp [hip]
  · rw [if_neg (mt same_ip_iff.mp hip)]
    by_cases hzero : m.previp = #v[0, 0, 0, 0]
    · rw [if_pos (same_ip_iff.mpr hzero)]
      simp [hzero]
    · rw [if_neg (mt same_ip_iff.mp hzero)]
      simp [hip, hzero]

theorem endpoint_lines_eq_new_port_iff :
    endpoint_lines m ip port = [.new_port] ↔ m.previp = ip ∧ m.prevport ≠ port := by
  rw [endpoint_lines]
  by_cases hip : m.previp = ip
  · rw [if_pos (same_ip_iff.mpr hip)]
    split <;> simp_all
  · rw [if_neg (mt same_ip_iff.mp hip)]
    split <;> simp [hip]

theorem endpoint_lines_cases : endpoint_lines m ip port = [] ∨
    endpoint_lines m ip port = [.new_ip] ∨ endpoint_lines m ip port = [.new_port] := by
  rw [endpoint_lines]
  split <;> split <;> simp

theorem eq_clogged_of_mem {check : ClockTime} {line : Line} (h : line ∈ check_clogged m check) :
    ∃ disc, line = .clogged disc := by
  rw [check_clogged] at h
  split at h
  · dsimp only at h
    split at h
    · exact ⟨_, List.mem_singleton.mp h⟩
    · cases h
  · cases h

end EndpointLines

/-- Without an answer there is no line about the endpoint. -/
theorem eq_of_mem_lines {start : ClockTime} {x : Arrival} {lines : List Line} {line : Line}
    {m m' : Measure} (hx : x.answer? = none) (hstep : measure1 start m x.poll = some (lines, m'))
    (h : line ∈ lines) : (∃ disc, line = .clogged disc) ∨ line = .outage ∨ line = .error := by
  cases x with
  | answer check a now => cases hx
  | eagain check now =>
    rw [Arrival.poll, measure1_eagain] at hstep
    cases hstep
    apply (List.mem_append.mp h).imp (eq_clogged_of_mem m)
    intro h
    split at h
    · exact .inl (List.mem_singleton.mp h)
    · cases h
  | error check now =>
    rw [Arrival.poll, measure1_error] at hstep
    cases hstep
    apply (List.mem_append.mp h).imp (eq_clogged_of_mem m)
    intro h
    exact .inr (List.mem_singleton.mp h)

section Remembers

variable {last : Option Answer} {m : Measure} (h : Remembers last m) (a : Answer)
include h

theorem Remembers.new_ip_iff :
    endpoint_lines m (decoded (m.filled a.bytes)).ip (decoded (m.filled a.bytes)).port = [.new_ip] ↔
      ∃ prev, last = some prev ∧ prev.req.sa.sin_addr ≠ a.req.sa.sin_addr := by
  rw [endpoint_lines_eq_new_ip_iff, (a.decoded_eq m).1]
  cases last with
  | none => simp [show m.previp = #v[0, 0, 0, 0] from h]
  | some prev =>
    rw [h.1]
    simp [prev.addr_ne]

theorem Remembers.new_port_iff :
    endpoint_lines m (decoded (m.filled a.bytes)).ip (decoded (m.filled a.bytes)).port = [.new_port] ↔
      ∃ prev, last = some prev ∧ prev.req.sa.sin_addr = a.req.sa.sin_addr ∧
        prev.req.sa.port ≠ a.req.sa.port := by
  rw [endpoint_lines_eq_new_port_iff, (a.decoded_eq m).1]
  cases last with
  | none => simp [show m.previp = #v[0, 0, 0, 0] from h, a.addr_ne.symm]
  | some prev =>
    have hport : m.prevport = (decoded (m.filled a.bytes)).port ↔ prev.req.sa.port = a.req.sa.port := by
      rw [← UInt16.toNat_inj, h.2, (a.decoded_eq m).2,
        decoded_port_of_inj prev.req.sa.port_lt a.req.sa.port_lt]
    rw [h.1, Ne, hport]
    simp

end Remembers

/-! ## The result -/

/-- **Rebinding.** The report of an answer is followed by `NEW_IP` exactly if the packet of the answer
before came from another address, and by `NEW_PORT` exactly if it came from the same address and another
port. Nothing is printed after the first report, and no other iteration prints such a line. -/
theorem rebinding_reported (start : ClockTime) (garbage : ℕ → UInt8) (info : Snapshot)
    (arrivals : List Arrival) :
    ∃ out m, transduce (measure1 start) (.start garbage info) (arrivals.map Arrival.poll)
        = some (out, m) ∧
      (∀ before check a now after, arrivals = before ++ .answer check a now :: after →
        ∃ front r next, out[before.length]? = some (front ++ .report r :: next) ∧
          r.info.ip = a.req.sa.sin_addr ∧ Line.new_ip ∉ front ∧ Line.new_port ∉ front ∧
          (next = [] ∨ next = [.new_ip] ∨ next = [.new_port]) ∧
          (next = [.new_ip] ↔ ∃ prev, lastAnswer before = some prev ∧
            prev.req.sa.sin_addr ≠ a.req.sa.sin_addr) ∧
          (next = [.new_port] ↔ ∃ prev, lastAnswer before = some prev ∧
            prev.req.sa.sin_addr = a.req.sa.sin_addr ∧ prev.req.sa.port ≠ a.req.sa.port)) ∧
      (∀ before x after, arrivals = before ++ x :: after → x.answer? = none →
        ∃ lines, out[before.length]? = some lines ∧
          Line.new_ip ∉ lines ∧ Line.new_port ∉ lines) := by
  obtain ⟨out, m, hrun⟩ := exists_run start (arrivals.map Arrival.poll) (.start garbage info)
  refine ⟨out, m, hrun, ?_, ?_⟩
  · intro before check a now after heq
    obtain ⟨m₁, lines, m₂, hlast, hstep, hout⟩ := exists_iteration hrun heq
    rw [Arrival.poll, measure1_datagram_eq, List.append_assoc, List.singleton_append] at hstep
    cases hstep
    refine ⟨_, _, _, hout, (a.decoded_eq m₁).1, ?_, ?_, endpoint_lines_cases .., hlast.new_ip_iff a,
      hlast.new_port_iff a⟩
    · intro hmem
      obtain ⟨disc, h⟩ := eq_clogged_of_mem _ hmem
      cases h
    · intro hmem
      obtain ⟨disc, h⟩ := eq_clogged_of_mem _ hmem
      cases h
  · intro before x after heq hx
    obtain ⟨m₁, lines, m₂, -, hstep, hout⟩ := exists_iteration hrun heq
    refine ⟨lines, hout, ?_, ?_⟩
    · intro hmem
      rcases eq_of_mem_lines hx hstep hmem with ⟨disc, h⟩ | h | h <;> cases h
    · intro hmem
      rcases eq_of_mem_lines hx hstep hmem with ⟨disc, h⟩ | h | h <;> cases h

private theorem addr_ne_zero : (.replicate 4 10 : Vector UInt8 4) ≠ #v[0, 0, 0, 0] := by decide

/-- An answer to a packet of 24 bytes that came from 10.10.10.10. -/
private def answerTo (sin_port : Vector UInt8 2) : Answer where
  req := ⟨[0, 0, 0, 0] ++ NEWPROTO_SIGNATURE ++ List.replicate 16 0, ⟨AF_INET, sin_port, .replicate 4 10⟩,
    .seconds 0⟩
  signed := by
    rw [Signed]
    rfl
  family := rfl
  addr_ne := addr_ne_zero
  bytes := _
  served := ⟨.start, _, serve1_eq ..⟩

/-- The client is bound to another port between two packets, while one is lost. -/
theorem rebinding_reported_ports : ∃ out m front r, transduce (measure1 (.seconds 0))
      (.start (fun _ ↦ 0) default) ([.answer (.seconds 0) (answerTo #v[0x07, 0x7f]) (.seconds 0),
        .eagain (.seconds 0) (.seconds 1),
        .answer (.seconds 1) (answerTo #v[0x07, 0x80]) (.seconds 1)].map Arrival.poll) = some (out, m) ∧
    out[2]? = some (front ++ [.report r, .new_port]) ∧ r.info.ip = .replicate 4 10 := by
  obtain ⟨out, m, hrun, hanswers, -⟩ := rebinding_reported (.seconds 0) (fun _ ↦ 0) default
    [.answer (.seconds 0) (answerTo #v[0x07, 0x7f]) (.seconds 0), .eagain (.seconds 0) (.seconds 1),
      .answer (.seconds 1) (answerTo #v[0x07, 0x80]) (.seconds 1)]
  obtain ⟨front, r, next, hout, hip, -, -, -, -, hport⟩ := hanswers
    [.answer (.seconds 0) (answerTo #v[0x07, 0x7f]) (.seconds 0), .eagain (.seconds 0) (.seconds 1)]
    (.seconds 1) (answerTo #v[0x07, 0x80]) (.seconds 1) [] rfl
  have hnext : next = [.new_port] := hport.mpr ⟨answerTo #v[0x07, 0x7f], rfl, rfl, by decide⟩
  rw [hnext] at hout
  exact ⟨out, m, front, r, hrun, hout, hip⟩

end ViTools.UdpTsSeqReply
