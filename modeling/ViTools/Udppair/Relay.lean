import ViTools.Lib.Buffer
import ViTools.Lib.Latest

/-!
# The relay udppair

Two UDP sockets, the address of the last peer of each, and one buffer. The model takes what `select`
and `recvfrom` return, and whether the kernel takes what is then sent, as the inputs of a run, and
gives what the program does as a list of events.

One block of the program serves each socket; they differ in the socket only. `reads` is what the inputs
alone say about a run: the datagrams that are read before it ends.
-/

namespace ViTools.Udppair

/-- An address, as far as the program and `sendto` look at it. -/
structure SockaddrIn where
  sin_family : UInt16
  sin_port : UInt16
  sin_addr : UInt32
  deriving DecidableEq

/-- The address family of the two sockets. -/
def AF_INET : UInt16 := 2

/-- What `memset` leaves in `peer1` and `peer2`. -/
def SockaddrIn.zero : SockaddrIn := ⟨0, 0, 0⟩

/-- The two sockets. -/
inductive Port
  | port1
  | port2
  deriving DecidableEq

/-- The socket that datagrams from a socket go out on. -/
def Port.other : Port → Port
  | port1 => port2
  | port2 => port1

/-- What is written for a datagram from a socket. -/
def Port.mark : Port → Char
  | port1 => '>'
  | port2 => '<'

/-- A datagram that waits on one of the sockets. -/
structure Datagram where
  src : SockaddrIn
  payload : List UInt8
  /-- The sockets are IPv4 sockets. -/
  sin_family_src : src.sin_family = AF_INET
  /-- There is no room for more in an IPv4 packet. -/
  length_payload_le : payload.length ≤ 65507
  deriving DecidableEq

/-- A datagram read from a socket, and whether the kernel takes what is sent on. -/
structure Reading where
  port : Port
  datagram : Datagram
  taken : Bool
  deriving DecidableEq

/-- A call of `sendto`. -/
structure Sending where
  socket : Port
  dest : SockaddrIn
  data : List UInt8
  ret : ℤ
  deriving DecidableEq

/-- What the program does. -/
inductive Event
  | recvfrom (r : Reading)
  | sendto (s : Sending)
  | write (c : Char)
  | perror (s : String)
  deriving DecidableEq

/-! ## The inputs of a run -/

/-- The values of `errno` that are told apart after `select`. -/
inductive Errno
  | EINTR
  | EAGAIN
  | other
  deriving DecidableEq

/-- What `recvfrom` returns on a socket. -/
inductive Received
  | failed
  | datagram (d : Datagram) (taken : Bool)
  deriving DecidableEq

/-- What `select` returns, and then `recvfrom` on the sockets reported ready. -/
inductive Round
  | failed (errno : Errno)
  | ready (s1 s2 : Option Received)
  deriving DecidableEq

/-! ## The program -/

/-- `peer1`, `peer2` and `buf`. -/
structure State where
  peer : Port → SockaddrIn
  buf : Buffer

/-- `sizeof(buf)`. -/
def sizeof_buf : ℕ := 4096

def State.start : State := ⟨fun _ ↦ .zero, .zeros sizeof_buf⟩

/-- `recvfrom` cuts what does not fit in `buf`, and overwrites the peer. -/
def recvfrom (s : State) (p : Port) (d : Datagram) : ℕ × State :=
  let data := d.payload.take sizeof_buf
  (data.length, { peer := Function.update s.peer p d.src, buf := s.buf.put 0 data })

/-- `sendto` fails on the all-zero address, which has neither a family nor a port, and when the kernel
does not take the datagram. -/
def sendto (dest : SockaddrIn) (data : List UInt8) (taken : Bool) : ℤ :=
  if dest.sin_family = AF_INET ∧ taken then data.length else -1

/-- What follows `sendto`. -/
def report (p : Port) (ret : ℤ) : Event := if ret = 0 then .perror "sendto" else .write p.mark

/-- The block of `main` for a socket, after `recvfrom` has returned a datagram. -/
def forward (s : State) (r : Reading) : List Event × State :=
  let (ret, s) := recvfrom s r.port r.datagram
  if ret = 0 then ([.recvfrom r], s)
  else
    let data := s.buf.slice 0 ret
    let ret := sendto (s.peer r.port.other) data r.taken
    ([.recvfrom r, .sendto ⟨r.port.other, s.peer r.port.other, data, ret⟩, report r.port ret], s)

/-- The program goes on in a state, or ends with an exit code. -/
abbrev Outcome := List Event × Except ℕ State

def Outcome.andThen : Outcome → (State → Outcome) → Outcome
  | (events, .ok s), k => (events ++ (k s).1, (k s).2)
  | (events, .error code), _ => (events, .error code)

/-- The block of `main` for a socket. -/
def relay (p : Port) (s : State) : Option Received → Outcome
  | none => ([], .ok s)
  | some .failed => ([.perror "recvfrom"], .error 4)
  | some (.datagram d taken) =>
    let (events, s) := forward s ⟨p, d, taken⟩
    (events, .ok s)

/-- The body of the loop of `main`. -/
def round (s : State) : Round → Outcome
  | .failed errno =>
    if errno = .EINTR ∨ errno = .EAGAIN then ([], .ok s) else ([.perror "select"], .error 2)
  | .ready s1 s2 => Outcome.andThen (relay .port1 s s1) fun s ↦ relay .port2 s s2

/-- The loop of `main`, for as many rounds as there are inputs. -/
def loop : State → List Round → Outcome
  | s, [] => ([], .ok s)
  | s, x :: l => Outcome.andThen (round s x) fun s ↦ loop s l

def main (l : List Round) : Outcome := loop .start l

/-! ## What the inputs say about a run -/

/-- The reading that a socket gives. -/
def Received.reading (p : Port) : Option Received → List Reading
  | some (.datagram d taken) => [⟨p, d, taken⟩]
  | _ => []

/-- The datagrams read in a round. -/
def Round.reads : Round → List Reading
  | .failed _ => []
  | .ready s1 s2 =>
    Received.reading .port1 s1 ++ if s1 = some .failed then [] else Received.reading .port2 s2

/-- How a round ends the program: the exit code and the call that failed. -/
def Round.exit : Round → Option (ℕ × String)
  | .failed errno => if errno = .EINTR ∨ errno = .EAGAIN then none else some (2, "select")
  | .ready s1 s2 =>
    if s1 = some .failed ∨ s2 = some .failed then some (4, "recvfrom") else none

/-- The datagrams read in a run. -/
def reads : List Round → List Reading
  | [] => []
  | x :: l => x.reads ++ if x.exit = none then reads l else []

/-- The message of a round that ends the program. -/
def Round.complaint (x : Round) : List Event := x.exit.elim [] fun e ↦ [.perror e.2]

/-- The message that a run ends with. -/
def complaint : List Round → List Event
  | [] => []
  | x :: l => x.complaint ++ if x.exit = none then complaint l else []

/-- A run ends with at most one message. -/
theorem complaint_cases (l : List Round) : complaint l = [] ∨ ∃ msg, complaint l = [.perror msg] := by
  induction l with
  | nil => exact .inl rfl
  | cons x l ih =>
    rw [complaint, Round.complaint]
    cases x.exit with
    | none => exact ih
    | some e => exact .inr ⟨e.2, rfl⟩

/-- All the datagrams of a run are sent on, one after the other. -/
def forwardAll : State → List Reading → List Event × State
  | s, [] => ([], s)
  | s, r :: l =>
    ((forward s r).1 ++ (forwardAll (forward s r).2 l).1, (forwardAll (forward s r).2 l).2)

theorem forwardAll_append (s : State) (l₁ l₂ : List Reading) :
    forwardAll s (l₁ ++ l₂) =
      ((forwardAll s l₁).1 ++ (forwardAll (forwardAll s l₁).2 l₂).1,
        (forwardAll (forwardAll s l₁).2 l₂).2) := by
  induction l₁ generalizing s with
  | nil => rfl
  | cons r l₁ ih =>
    rw [List.cons_append, forwardAll, ih, forwardAll, List.append_assoc]

/-- A block sends on what its socket gives, and stops the program on an error. -/
theorem relay_eq (p : Port) (s : State) (x : Option Received) :
    relay p s x =
      if x = some .failed then ([.perror "recvfrom"], .error 4)
      else ((forwardAll s (Received.reading p x)).1,
        .ok (forwardAll s (Received.reading p x)).2) := by
  match x with
  | none => rfl
  | some .failed => rfl
  | some (.datagram d taken) =>
    rw [if_neg (by simp), relay, Received.reading, forwardAll, forwardAll, List.append_nil]

/-- A round sends on what is read in it, and then either goes on or says why not. -/
theorem round_eq (s : State) (x : Round) :
    round s x =
      ((forwardAll s x.reads).1 ++ x.complaint,
        x.exit.elim (.ok (forwardAll s x.reads).2) fun e ↦ .error e.1) := by
  cases x with
  | failed errno =>
    rw [round, Round.complaint, Round.exit]
    split <;> rfl
  | ready s1 s2 =>
    rw [round, relay_eq, Round.complaint, Round.exit, Round.reads]
    by_cases h1 : s1 = some .failed
    · subst h1
      rfl
    · rw [if_neg h1, if_neg h1, Outcome.andThen, relay_eq, forwardAll_append]
      by_cases h2 : s2 = some .failed
      · subst h2
        rw [if_pos rfl, if_pos (.inr rfl)]
        dsimp only [Received.reading, forwardAll]
        rw [List.append_nil]
        rfl
      · rw [if_neg h2, if_neg (not_or.mpr ⟨h1, h2⟩)]
        dsimp only [Option.elim_none]
        rw [List.append_nil]

/-- What a run does: it sends on all the datagrams it reads, and its last words are about an error. -/
theorem loop_events (s : State) (l : List Round) :
    (loop s l).1 = (forwardAll s (reads l)).1 ++ complaint l := by
  induction l generalizing s with
  | nil => rfl
  | cons x l ih =>
    rw [loop, round_eq, reads, complaint, Round.complaint]
    cases hexit : x.exit with
    | none =>
      dsimp only [Option.elim_none, Outcome.andThen]
      rw [ih, if_pos rfl, if_pos rfl, forwardAll_append, List.append_nil, List.nil_append,
        List.append_assoc]
    | some e =>
      dsimp only [Option.elim_some, Outcome.andThen]
      rw [if_neg (by simp), if_neg (by simp), List.append_nil, List.append_nil]

theorem main_events (l : List Round) :
    (main l).1 = (forwardAll .start (reads l)).1 ++ complaint l := loop_events .start l

end ViTools.Udppair
