import ViTools.Lib.Progress
import ViTools.UdpTimeoutChecker.Serve

/-!
# Calls of try over a network

One client, which calls `try` again and again, and the server with its children. The network may lose,
delay, duplicate and reorder everything. Whatever reaches the socket of the client stays there until
it is read, by whichever call reads next.

A reply is one letter. It does not say which request it is for, and neither `try` nor the server
keeps an account of requests. The state does: it says who sent a reply and when, and for which call a
child was made. The programs do not look at that.
-/

namespace ViTools.UdpTimeoutChecker

/-! ## Data -/

/-- The two replies. -/
inductive Letter
  | B
  | A
  deriving DecidableEq

/-- The first byte of a reply. -/
def Letter.char : Letter → Char
  | .B => 'B'
  | .A => 'A'

/-- A reply. -/
def Letter.text (l : Letter) : List Char := [l.char, '\n']

/-- A child of the server. -/
structure Child where
  /-- The call whose request it was made for. -/
  call : ℕ
  /-- How long it sleeps. -/
  waits : Waits
  /-- When it was made. -/
  born : ℕ
  /-- When it sent its first reply, if it did. -/
  sent_B : Option ℕ
  /-- When it sent its second reply, if it did. -/
  sent_A : Option ℕ
  deriving DecidableEq

/-- When a child sent its replies. -/
def Child.sent (c : Child) : Letter → Option ℕ
  | .B => c.sent_B
  | .A => c.sent_A

/-- A reply on its way. -/
structure Datagram where
  /-- Its bytes. -/
  text : List Char
  /-- The child that sent it. -/
  child : ℕ
  /-- When it was sent. -/
  time : ℕ
  deriving DecidableEq

/-- How a call ends. -/
inductive Result
  /-- With the two replies it accepted. -/
  | ok (b a : Datagram)
  /-- The request could not be sent. -/
  | send
  /-- There is no reply. -/
  | fail (l : Letter)
  /-- There is a reply, but another one. -/
  | strange (l : Letter)
  deriving DecidableEq

/-- The value returned. -/
def Result.code : Result → ℤ
  | .ok _ _ => 0
  | .send | .fail _ | .strange _ => -1

/-- Both replies are checked in the same way. There may be none, after a timeout or an error. -/
def check_reply (l : Letter) : Option Datagram → Except Result Datagram
  | none => .error (.fail l)
  | some d =>
    match d.text with
    | [] => .error (.fail l)
    | c :: _ => if c ≠ l.char then .error (.strange l) else .ok d

/-- A call of `try` in one of its two calls of `recv`. -/
structure Try where
  /-- Its argument. -/
  seconds : ℕ
  /-- When `recv` was called. -/
  since : ℕ
  /-- The first reply, if it is waiting for the second. -/
  b : Option Datagram
  /-- Nothing was left of earlier calls when it started. -/
  clean : Bool

/-- A call of `try` that has returned. -/
structure Call where
  /-- Its place among the calls. -/
  number : ℕ
  /-- Its argument. -/
  seconds : ℕ
  /-- Nothing was left of earlier calls when it started. -/
  clean : Bool
  /-- How it ended. -/
  result : Result
  deriving DecidableEq

/-- The state of all parties and of the network. -/
structure Session where
  /-- The time, in nanoseconds. -/
  now : ℕ
  /-- The call that is running, if there is one. -/
  running : Option Try
  /-- The calls that have returned. -/
  calls : List Call
  /-- The requests on their way, with the numbers of their calls. -/
  requests : List (ℕ × List Char)
  /-- The children of the server. -/
  children : List Child
  /-- The replies on their way. -/
  replies : List Datagram
  /-- The replies that reached the client and were not read. -/
  socket : List Datagram

/-- What can happen. -/
inductive Action
  /-- Time goes by. -/
  | tick (d : ℕ)
  /-- `try` is called and sends its request. -/
  | call (seconds : ℕ)
  /-- `try` is called, but cannot send its request. -/
  | call_error (seconds : ℕ)
  /-- `recv` returns a reply. -/
  | recv
  /-- `recv` waits in vain. -/
  | timeout
  /-- `recv` fails. -/
  | recv_error
  /-- A request is lost. -/
  | lose_request (i : ℕ)
  /-- A request is duplicated. -/
  | duplicate_request (i : ℕ)
  /-- A request reaches the server. -/
  | serve (i : ℕ)
  /-- A child sends its first reply. -/
  | send_B (i : ℕ)
  /-- A child sends its second reply. -/
  | send_A (i : ℕ)
  /-- A reply is lost. -/
  | lose_reply (i : ℕ)
  /-- A reply is duplicated. -/
  | duplicate_reply (i : ℕ)
  /-- A reply reaches the client. -/
  | arrive (i : ℕ)

namespace Session

/-! ## Steps -/

/-- Nothing is left of earlier calls: no request, no child that has something to send, no reply. -/
def Clean (s : Session) : Prop :=
  s.requests = [] ∧ (∀ c ∈ s.children, c.sent_A ≠ none) ∧ s.replies = [] ∧ s.socket = []

instance (s : Session) : Decidable s.Clean := inferInstanceAs (Decidable (_ ∧ _ ∧ _ ∧ _))

/-- The running call returns. -/
def returns (s : Session) (t : Try) (result : Result) : Session :=
  { s with running := none, calls := s.calls ++ [⟨s.calls.length, t.seconds, t.clean, result⟩] }

/-- What the running call does when its `recv` returns. -/
def received (s : Session) (t : Try) (reply : Option Datagram) : Session :=
  match t.b with
  | none =>
    match check_reply .B reply with
    | .error result => s.returns t result
    | .ok b => { s with running := some { t with since := s.now, b := some b } }
  | some b =>
    match check_reply .A reply with
    | .error result => s.returns t result
    | .ok a => s.returns t (.ok b a)

/-- One action; `none` if it is not possible. -/
def step (s : Session) : Action → Option Session
  | .tick d => some { s with now := s.now + d }
  | .call seconds =>
    -- the sum in `tv.tv_sec = seconds + 2` fits into an `int`
    if s.running.isSome ∨ 2 ^ 31 ≤ seconds + 2 then none
    else
      some
        { s with
          running := some ⟨seconds, s.now, none, s.Clean⟩
          requests := s.requests ++ [(s.calls.length, request seconds)] }
  | .call_error seconds =>
    if s.running.isSome ∨ 2 ^ 31 ≤ seconds + 2 then none
    else some (s.returns ⟨seconds, s.now, none, s.Clean⟩ .send)
  | .recv => do
    let t ← s.running
    match s.socket with
    | [] => none
    | d :: socket => some ({ s with socket }.received t (some d))
  | .timeout => do
    let t ← s.running
    if s.socket = [] ∧ t.since + (t.seconds + 2) * 1000000000 ≤ s.now then some (s.received t none)
    else none
  | .recv_error => do
    let t ← s.running
    some (s.received t none)
  | .lose_request i => some { s with requests := s.requests.eraseIdx i }
  | .duplicate_request i => some { s with requests := duplicate s.requests i }
  | .serve i => do
    let (call, text) ← s.requests[i]?
    let requests := s.requests.eraseIdx i
    match serve1 text with
    | none => some { s with requests }
    | some waits =>
      some { s with requests, children := s.children ++ [⟨call, waits, s.now, none, none⟩] }
  | .send_B i => do
    let c ← s.children[i]?
    if c.sent_B = none ∧ c.born + c.waits.ts1 ≤ s.now then
      some
        { s with
          children := s.children.set i { c with sent_B := some s.now }
          replies := s.replies ++ [⟨Letter.B.text, i, s.now⟩] }
    else none
  | .send_A i => do
    let c ← s.children[i]?
    let time ← c.sent_B
    if c.sent_A = none ∧ time + c.waits.ts2 ≤ s.now then
      some
        { s with
          children := s.children.set i { c with sent_A := some s.now }
          replies := s.replies ++ [⟨Letter.A.text, i, s.now⟩] }
    else none
  | .lose_reply i => some { s with replies := s.replies.eraseIdx i }
  | .duplicate_reply i => some { s with replies := duplicate s.replies i }
  | .arrive i => do
    let d ← s.replies[i]?
    some { s with replies := s.replies.eraseIdx i, socket := s.socket ++ [d] }

/-- The programs have just been started. -/
def start : Session := ⟨0, none, [], [], [], [], []⟩

end Session

end ViTools.UdpTimeoutChecker
