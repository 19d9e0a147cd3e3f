import ViTools.Lib.LossyFifo
import ViTools.Lib.Run
import ViTools.Udpfilepecker.Serve
import ViTools.Udppair.Marks

/-!
# Control by way of udppair

The pecks of udpfilepecker usually go to a port of udppair. They are empty, and udppair sends nothing on for
them, but they make the pecker the peer of that port: what comes to the other port then goes to the pecker.

Here both programs run together. The network loses datagrams and keeps the others in order, the two programs
and everybody else act in any order, and others may send to both ports of udppair and to the pecker itself.
-/

namespace ViTools.Udpfilepecker

open Udppair (SockaddrIn Port Datagram Reading Sending forward forwardAll sends AF_INET sizeof_buf)

/-! ## Data -/

/-- The bytes of a datagram as characters. -/
def text (bytes : List UInt8) : List Char := bytes.map fun b ↦ Char.ofNat b.toNat

/-- What a datagram makes the pecker do. -/
def effect (bytes : List UInt8) : List Action := serve1 (.datagram (text bytes))

/-- Where the datagrams of the pecker come from, as seen from outside. -/
structure Home where
  addr : SockaddrIn
  sin_family_addr : addr.sin_family = AF_INET

/-- The datagram that `sendto` makes of nothing. -/
def Home.peck (home : Home) : Datagram where
  src := home.addr
  payload := []
  sin_family_src := home.sin_family_addr
  length_payload_le := Nat.zero_le _

/-- A datagram that the pecker gets. -/
structure Arrival where
  bytes : List UInt8
  /-- Whether it is from udppair. -/
  relayed : Bool
  deriving DecidableEq

/-- The state of both programs and of the network. -/
structure Session where
  /-- The variables of udppair. -/
  pair : Udppair.State
  /-- What it has read. -/
  read : List Reading
  /-- How many pecks are on their way to its second port. -/
  pecks : ℕ
  /-- The datagrams on their way from there to the pecker. -/
  toPecker : List (List UInt8)
  /-- How many of these were lost. -/
  lost : ℕ
  /-- The datagrams that the pecker got. -/
  got : List Arrival
  /-- The calls it made. -/
  done : List Action

/-- What can happen. -/
inductive Event
  /-- `recv` of the pecker waits in vain. -/
  | timeout
  /-- It fails. -/
  | error
  /-- A peck is lost. -/
  | lose_peck
  /-- A peck reaches udppair. -/
  | peck
  /-- A datagram reaches the first port. -/
  | command (d : Datagram) (taken : Bool)
  /-- A datagram of somebody else reaches the second port. -/
  | stranger (d : Datagram) (taken : Bool)
  /-- A datagram on its way to the pecker is lost. -/
  | lose (i : ℕ)
  /-- The next one reaches it. -/
  | deliver
  /-- A datagram of somebody else reaches the pecker. -/
  | direct (bytes : List UInt8)

/-- What goes out to the pecker by a call of `sendto`. -/
def flight1 (home : Home) (s : Sending) : Option (List UInt8) :=
  if s.socket = .port2 ∧ s.dest = home.addr ∧ s.ret ≠ -1 then some s.data else none

def flight (home : Home) (events : List Udppair.Event) : List (List UInt8) :=
  (sends events).filterMap (flight1 home)

namespace Session

def start : Session := ⟨.start, [], 0, [], 0, [], []⟩

/-- udppair reads a datagram. -/
def reads (home : Home) (s : Session) (r : Reading) : Session :=
  { s with
    pair := (forward s.pair r).2
    read := s.read ++ [r]
    toPecker := s.toPecker ++ flight home (forward s.pair r).1 }

/-- The pecker gets a datagram. -/
def gets (s : Session) (a : Arrival) : Session :=
  { s with got := s.got ++ [a], done := s.done ++ effect a.bytes }

/-- One event; `none` if it is not possible. -/
def step (home : Home) (s : Session) : Event → Option Session
  | .timeout => some { s with pecks := s.pecks + 1, done := s.done ++ serve1 .eagain }
  | .error => some { s with done := s.done ++ serve1 .error }
  | .lose_peck => if s.pecks = 0 then none else some { s with pecks := s.pecks - 1 }
  | .peck =>
    if s.pecks = 0 then none
    else some ({ s with pecks := s.pecks - 1 }.reads home ⟨.port2, home.peck, true⟩)
  | .command d taken => some (s.reads home ⟨.port1, d, taken⟩)
  | .stranger d taken => if d.src = home.addr then none else some (s.reads home ⟨.port2, d, taken⟩)
  | .lose i =>
    if i < s.toPecker.length then some { s with toPecker := s.toPecker.eraseIdx i, lost := s.lost + 1 }
    else none
  | .deliver =>
    match s.toPecker with
    | [] => none
    | bytes :: rest => some ({ s with toPecker := rest }.gets ⟨bytes, true⟩)
  | .direct bytes => some (s.gets ⟨bytes, false⟩)

end Session

/-! ## The account -/

/-- Where the last datagram on a port came from. -/
def last_src (read : List Reading) (p : Port) : Option SockaddrIn :=
  (read.reverse.find? fun r ↦ r.port = p).map fun r ↦ r.datagram.src

/-- What goes to the pecker of a datagram, given what was read before it. -/
def addressed1 (home : Home) (before : List Reading) (r : Reading) : Option (List UInt8) :=
  if r.port = .port1 ∧ r.datagram.payload ≠ [] ∧ r.taken = true ∧ last_src before .port2 = some home.addr then
    some (r.datagram.payload.take sizeof_buf)
  else none

/-- The datagrams for the first port that come while the last one on the second was from the pecker. -/
def addressed (home : Home) (read : List Reading) : List (List UInt8) :=
  (histories [] read).filterMap fun x ↦ addressed1 home x.1 x.2

/-- The datagrams that the pecker got from udppair. -/
def relayed (got : List Arrival) : List (List UInt8) := (got.filter Arrival.relayed).map Arrival.bytes

/-- The pecks that udppair has read. -/
def pecks_read (home : Home) (read : List Reading) : ℕ :=
  read.countP fun r ↦ r.port = .port2 ∧ r.datagram.src = home.addr

/-- **The account.** Every datagram for the pecker was served, is on its way or was lost. -/
structure Account (home : Home) (s : Session) : Prop where
  /-- This is the loop of udppair. -/
  pair : s.pair = (forwardAll .start s.read).2
  sent : flight home (forwardAll .start s.read).1 = addressed home s.read
  peer : s.pair.peer .port2 = (last_src s.read .port2).getD .zero
  done : s.done.filter (· ≠ .sendto) = s.got.flatMap fun a ↦ effect a.bytes
  fifo : LossyFifo (addressed home s.read) (relayed s.got) s.toPecker
  count : (relayed s.got).length + s.toPecker.length + s.lost = (addressed home s.read).length
  pecks : pecks_read home s.read + s.pecks ≤ s.done.count .sendto

section Account

variable {home : Home} {s s' : Session}

theorem last_src_concat (read : List Reading) (r : Reading) (p : Port) :
    last_src (read ++ [r]) p = if r.port = p then some r.datagram.src else last_src read p := by
  rw [last_src, List.reverse_append, List.reverse_singleton, List.singleton_append, List.find?_cons]
  split
  · next h => rw [if_pos (of_decide_eq_true h)]; rfl
  · next h => rw [if_neg (of_decide_eq_false h)]; rfl

theorem addressed_concat (home : Home) (read : List Reading) (r : Reading) :
    addressed home (read ++ [r]) = addressed home read ++ (addressed1 home read r).toList := by
  rw [addressed, histories_concat, List.filterMap_append, List.nil_append]
  rfl

/-- The second port of udppair goes to the pecker exactly after a datagram of the pecker. -/
theorem getD_eq_addr_iff (home : Home) (src : Option SockaddrIn) :
    src.getD .zero = home.addr ↔ src = some home.addr := by
  cases src with
  | none =>
    refine iff_of_false (fun h ↦ ?_) (Option.some_ne_none _).symm
    have hfamily := home.sin_family_addr
    rw [← h] at hfamily
    exact absurd hfamily (by decide)
  | some a => rw [Option.getD_some, Option.some_inj]

/-- What udppair sends to the pecker for a datagram. -/
theorem flight_forward {pair : Udppair.State} {read : List Reading}
    (hpeer : pair.peer .port2 = (last_src read .port2).getD .zero) (r : Reading) :
    flight home (forward pair r).1 = (addressed1 home read r).toList := by
  by_cases hempty : r.datagram.payload = []
  · rw [Udppair.forward_events_empty pair hempty, addressed1, if_neg fun h ↦ h.2.1 hempty]
    rfl
  · have hsent : (pair.sending r).socket = .port2 ∧ (pair.sending r).dest = home.addr ∧
          (pair.sending r).ret ≠ -1 ↔
        r.port = .port1 ∧ r.datagram.payload ≠ [] ∧ r.taken = true ∧
          last_src read .port2 = some home.addr := by
      cases hport : r.port with
      | port2 =>
        refine iff_of_false (fun h ↦ ?_) fun h ↦ Port.noConfusion h.1
        rw [Udppair.State.sending, hport] at h
        exact Port.noConfusion h.1
      | port1 =>
        rw [Udppair.State.sending, hport]
        dsimp only [Port.other]
        rw [Udppair.sendto_ne_iff, hpeer, getD_eq_addr_iff]
        constructor
        · rintro ⟨-, hlast, -, htaken⟩
          exact ⟨rfl, hempty, htaken, hlast⟩
        · rintro ⟨-, -, htaken, hlast⟩
          refine ⟨rfl, hlast, ?_, htaken⟩
          rw [hlast]
          exact home.sin_family_addr
    have hsame : flight1 home (pair.sending r) = addressed1 home read r := if_congr hsent rfl rfl
    rw [Udppair.forward_events pair hempty, flight, ← hsame]
    change List.filterMap (flight1 home) [pair.sending r] = _
    cases hto : flight1 home (pair.sending r) with
    | none => rw [List.filterMap_cons_none hto]; rfl
    | some bytes => rw [List.filterMap_cons_some hto]; rfl

/-- udppair reads a datagram, which may be a peck. -/
theorem Account.reads (h : Account home s) (r : Reading) {pecks : ℕ}
    (hpecks : (if r.port = .port2 ∧ r.datagram.src = home.addr then 1 else 0) + pecks ≤ s.pecks) :
    Account home ({ s with pecks }.reads home r) where
  pair := by
    rw [Session.reads]
    dsimp only
    rw [Udppair.forwardAll_append, ← h.pair]
    rfl
  sent := by
    rw [Session.reads]
    dsimp only
    have hsent := h.sent
    rw [flight] at hsent
    rw [Udppair.forwardAll_append, ← h.pair, flight, Udppair.sends_append, List.filterMap_append, hsent,
      addressed_concat, ← flight_forward h.peer, forwardAll, forwardAll, List.append_nil]
    rfl
  peer := by
    rw [Session.reads]
    dsimp only
    rw [Udppair.forward_peer, last_src_concat]
    by_cases hport : r.port = .port2
    · rw [if_pos hport, ← hport, Function.update_self]
      rfl
    · rw [if_neg hport, Function.update_of_ne (Ne.symm hport)]
      exact h.peer
  done := h.done
  fifo := by
    rw [Session.reads]
    dsimp only
    rw [addressed_concat, flight_forward h.peer]
    cases addressed1 home s.read r with
    | none => simpa using h.fifo
    | some bytes => exact h.fifo.send bytes
  count := by
    rw [Session.reads]
    dsimp only
    rw [addressed_concat, flight_forward h.peer, List.length_append, List.length_append]
    have hcount := h.count
    omega
  pecks := by
    rw [Session.reads]
    dsimp only
    rw [pecks_read, List.countP_append, List.countP_singleton]
    have hcount := h.pecks
    rw [pecks_read] at hcount
    simp only [decide_eq_true_eq]
    omega

theorem relayed_concat (got : List Arrival) (a : Arrival) :
    relayed (got ++ [a]) = relayed got ++ if a.relayed then [a.bytes] else [] := by
  rw [relayed, List.filter_append, List.map_append]
  obtain ⟨bytes, _ | _⟩ := a <;> rfl

/-- The pecker gets a datagram. -/
theorem Account.gets (h : Account home s) {a : Arrival} {toPecker : List (List UInt8)}
    (hto : s.toPecker = (if a.relayed then [a.bytes] else []) ++ toPecker) :
    Account home ({ s with toPecker }.gets a) := by
  have hcalls : (effect a.bytes).filter (· ≠ .sendto) = effect a.bytes :=
    List.filter_eq_self.mpr fun action haction ↦ decide_eq_true fun heq ↦
      sendto_notMem_serve1 _ (heq ▸ haction)
  refine ⟨h.pair, h.sent, h.peer, ?_, ?_, ?_, ?_⟩
  · rw [Session.gets]
    dsimp only
    rw [List.filter_append, h.done, hcalls, List.flatMap_append, List.flatMap_singleton]
  · rw [Session.gets]
    dsimp only
    rw [relayed_concat]
    have hfifo := h.fifo
    rw [hto] at hfifo
    exact ⟨by rw [List.append_assoc]; exact hfifo.sublist⟩
  · rw [Session.gets]
    dsimp only
    rw [relayed_concat, List.length_append]
    have hcount := h.count
    rw [hto, List.length_append] at hcount
    omega
  · rw [Session.gets]
    dsimp only
    rw [List.count_append]
    exact h.pecks.trans (Nat.le_add_right _ _)

/-! What the events that are not always possible do. -/

theorem step_lose_peck :
    s.step home .lose_peck = some s' ↔ s.pecks ≠ 0 ∧ { s with pecks := s.pecks - 1 } = s' := by
  rw [Session.step, Option.ite_none_left_eq_some, Option.some_inj]

theorem step_peck :
    s.step home .peck = some s' ↔
      s.pecks ≠ 0 ∧ { s with pecks := s.pecks - 1 }.reads home ⟨.port2, home.peck, true⟩ = s' := by
  rw [Session.step, Option.ite_none_left_eq_some, Option.some_inj]

theorem step_stranger {d : Datagram} {taken : Bool} :
    s.step home (.stranger d taken) = some s' ↔
      d.src ≠ home.addr ∧ s.reads home ⟨.port2, d, taken⟩ = s' := by
  rw [Session.step, Option.ite_none_left_eq_some, Option.some_inj]

theorem step_lose {i : ℕ} :
    s.step home (.lose i) = some s' ↔ i < s.toPecker.length ∧
      { s with toPecker := s.toPecker.eraseIdx i, lost := s.lost + 1 } = s' := by
  rw [Session.step, Option.ite_none_right_eq_some, Option.some_inj]

theorem step_deliver :
    s.step home .deliver = some s' ↔ ∃ bytes toPecker, s.toPecker = bytes :: toPecker ∧
      { s with toPecker }.gets ⟨bytes, true⟩ = s' := by
  rw [Session.step]
  cases s.toPecker with
  | nil => exact iff_of_false (Option.some_ne_none _).symm fun ⟨_, _, h, _⟩ ↦ List.cons_ne_nil _ _ h.symm
  | cons bytes rest =>
    rw [Option.some_inj]
    constructor
    · intro h
      exact ⟨bytes, rest, rfl, h⟩
    · rintro ⟨_, _, ⟨⟩, h⟩
      exact h

/-- **Step lemma.** -/
theorem Account.step (h : Account home s) {e : Event} (hstep : s.step home e = some s') :
    Account home s' := by
  have hpecks := h.pecks
  cases e with
  | timeout =>
    cases hstep
    refine { h with done := ?_, pecks := ?_ }
    · rw [List.filter_append, h.done]
      exact List.append_nil _
    · dsimp only
      rw [List.count_append]
      exact Nat.add_le_add_right hpecks 1
  | error =>
    cases hstep
    refine { h with done := ?_, pecks := ?_ }
    · rw [serve1, List.append_nil]
      exact h.done
    · rw [serve1, List.append_nil]
      exact hpecks
  | lose_peck =>
    obtain ⟨-, rfl⟩ := step_lose_peck.mp hstep
    refine { h with pecks := ?_ }
    dsimp only
    omega
  | peck =>
    obtain ⟨hne, rfl⟩ := step_peck.mp hstep
    refine h.reads _ ?_
    rw [if_pos ⟨rfl, rfl⟩]
    omega
  | command d taken =>
    cases hstep
    exact h.reads _ (by rw [if_neg fun h ↦ Port.noConfusion h.1, Nat.zero_add])
  | stranger d taken =>
    obtain ⟨hsrc, rfl⟩ := step_stranger.mp hstep
    exact h.reads _ (by rw [if_neg fun h ↦ hsrc h.2, Nat.zero_add])
  | lose i =>
    obtain ⟨hi, rfl⟩ := step_lose.mp hstep
    refine { h with fifo := h.fifo.lose i, count := ?_ }
    dsimp only
    have hcount := h.count
    rw [List.length_eraseIdx_of_lt hi]
    omega
  | deliver =>
    obtain ⟨bytes, rest, hto, rfl⟩ := step_deliver.mp hstep
    exact h.gets hto
  | direct bytes =>
    cases hstep
    exact h.gets rfl

theorem account_start (home : Home) : Account home .start where
  pair := rfl
  sent := rfl
  peer := rfl
  done := rfl
  fifo := .empty
  count := rfl
  pecks := le_refl 0

theorem account_of_run {events : List Event} (hrun : run (Session.step home) .start events = some s) :
    Account home s :=
  run_invariant (Account home) (fun _ _ _ h _ hstep ↦ h.step hstep) (account_start home)
    (guarded_true _ _ _) hrun

/-- **Conservation.** In every run the pecker writes what the datagrams it got say, in their order. Those from
udppair are among the ones that came to its first port while the last datagram on the second was from the
pecker, in the same order, and the others of these are on their way or lost: none is made up, none is served
twice, and nothing that others send to the second port gets to the pecker. The pecks that udppair has read were
sent. -/
theorem control_conserved {events : List Event} (hrun : run (Session.step home) .start events = some s) :
    (∀ l, Udppair.reads l = s.read → flight home (Udppair.main l).1 = addressed home s.read) ∧
      s.done.filter (· ≠ .sendto) = s.got.flatMap (fun a ↦ effect a.bytes) ∧
      (relayed s.got ++ s.toPecker).Sublist (addressed home s.read) ∧
      (relayed s.got).length + s.toPecker.length + s.lost = (addressed home s.read).length ∧
      pecks_read home s.read + s.pecks ≤ s.done.count .sendto := by
  have h := account_of_run hrun
  refine ⟨fun l hl ↦ ?_, h.done, h.fifo.sublist, h.count, h.pecks⟩
  rw [Udppair.main_events, flight, Udppair.sends_append, Udppair.sends_complaint, List.append_nil, hl]
  exact h.sent

section Example

/-- A pecker, and a controller that sends 3 and 40, after tabulators and with a newline at the end. -/
private def a_home : Home := ⟨⟨AF_INET, 40000, 167772161⟩, rfl⟩

private def dim : Datagram where
  src := ⟨AF_INET, 50000, 167772162⟩
  payload := [9, 9, 51, 9, 52, 48, 10]
  sin_family_src := rfl
  length_payload_le := by decide

/-- The first command comes too early, the second one is lost. -/
private def mishaps : List Event :=
  [.timeout, .command dim true, .peck, .command dim true, .command dim true, .lose 0, .deliver]

theorem control_conserved_mishaps :
    ∃ s, run (Session.step a_home) .start mishaps = some s ∧ (addressed a_home s.read).length = 2 ∧
      (relayed s.got).length + s.toPecker.length + s.lost = (addressed a_home s.read).length := by
  have hrun : run (Session.step a_home) .start mishaps = some _ := rfl
  exact ⟨_, hrun, by decide +kernel, (control_conserved hrun).2.2.2.1⟩

end Example

end Account

/-! ## Commands -/

section Commands

variable {home : Home} {s s' : Session}

/-- The datagrams read from the first port. -/
def commands (read : List Reading) : List (List UInt8) :=
  (read.filter fun r ↦ r.port = .port1).map fun r ↦ r.datagram.payload

/-- Every command finds the pecker as the last one on the second port, and what goes to the pecker gets there,
as the only thing that does. -/
def Undisturbed (home : Home) (s : Session) : Event → Prop
  | .command _ taken => taken = true ∧ last_src s.read .port2 = some home.addr
  | .lose _ | .direct _ => False
  | .timeout | .error | .lose_peck | .peck | .stranger _ _ | .deliver => True

instance (home : Home) (s : Session) : ∀ e, Decidable (Undisturbed home s e)
  | .command _ _ => inferInstanceAs (Decidable (_ ∧ _))
  | .lose _ | .direct _ => .isFalse id
  | .timeout | .error | .lose_peck | .peck | .stranger _ _ | .deliver => .isTrue trivial

/-- What udppair cuts off would be cut off anyway. -/
theorem effect_take (bytes : List UInt8) : effect (bytes.take sizeof_buf) = effect bytes := by
  have hcut : (text (bytes.take sizeof_buf)).take 127 = (text bytes).take 127 := by
    rw [text, text, List.map_take, List.take_take]
    rfl
  rw [effect, effect, serve1, serve1, hcut]

/-- The state of an undisturbed run. -/
structure Steady (home : Home) (s : Session) : Prop where
  account : Account home s
  lost : s.lost = 0
  relayed : relayed s.got = s.got.map Arrival.bytes
  addressed : (addressed home s.read).flatMap effect = (commands s.read).flatMap effect

theorem commands_concat (read : List Reading) (r : Reading) :
    commands (read ++ [r]) = commands read ++ if r.port = .port1 then [r.datagram.payload] else [] := by
  rw [commands, List.filter_append, List.map_append]
  obtain ⟨port, d, taken⟩ := r
  cases port <;> rfl

/-- A datagram does the same by way of udppair. -/
theorem flatMap_addressed1 {read : List Reading} {r : Reading}
    (h : r.port = .port1 → r.taken = true ∧ last_src read .port2 = some home.addr) :
    (addressed1 home read r).toList.flatMap effect =
      (if r.port = .port1 then [r.datagram.payload] else []).flatMap effect := by
  by_cases hport : r.port = .port1
  · obtain ⟨htaken, hlast⟩ := h hport
    rw [if_pos hport, List.flatMap_singleton]
    by_cases hempty : r.datagram.payload = []
    · rw [addressed1, if_neg fun h ↦ h.2.1 hempty, hempty]
      rfl
    · rw [addressed1, if_pos ⟨hport, hempty, htaken, hlast⟩, Option.toList_some, List.flatMap_singleton,
        effect_take]
  · rw [addressed1, if_neg fun h ↦ hport h.1, if_neg hport]
    rfl

/-- udppair reads a datagram. -/
theorem Steady.reads (h : Steady home s) {r : Reading} {pecks : ℕ}
    (haccount : Account home ({ s with pecks }.reads home r))
    (hr : r.port = .port1 → r.taken = true ∧ last_src s.read .port2 = some home.addr) :
    Steady home ({ s with pecks }.reads home r) where
  account := haccount
  lost := h.lost
  relayed := h.relayed
  addressed := by
    rw [Session.reads]
    dsimp only
    rw [addressed_concat, commands_concat, List.flatMap_append, List.flatMap_append, h.addressed,
      flatMap_addressed1 hr]

theorem Steady.step (h : Steady home s) {e : Event} (hguard : Undisturbed home s e)
    (hstep : s.step home e = some s') : Steady home s' := by
  have haccount := h.account.step hstep
  cases e with
  | timeout | error =>
    cases hstep
    exact { h with account := haccount }
  | lose_peck =>
    obtain ⟨-, rfl⟩ := step_lose_peck.mp hstep
    exact { h with account := haccount }
  | peck =>
    obtain ⟨-, rfl⟩ := step_peck.mp hstep
    exact h.reads haccount fun hport ↦ Port.noConfusion hport
  | command d taken =>
    cases hstep
    exact h.reads haccount fun _ ↦ hguard
  | stranger d taken =>
    obtain ⟨-, rfl⟩ := step_stranger.mp hstep
    exact h.reads haccount fun hport ↦ Port.noConfusion hport
  | lose i => exact hguard.elim
  | deliver =>
    obtain ⟨bytes, rest, -, rfl⟩ := step_deliver.mp hstep
    refine { h with account := haccount, relayed := ?_ }
    rw [Session.gets]
    dsimp only
    rw [relayed_concat, h.relayed, List.map_append]
    rfl
  | direct bytes => exact hguard.elim

/-- What the pecker does for a message whose numbers it can hold. -/
theorem serve1_text_of_fits {m : Message} (hx : Fits 32 m.x.value) (hy : Fits 32 m.y.value)
    (hend : m.digits_end ≤ 127) :
    serve1 (.datagram m.text) =
      if fd_allowed m.x.value then [.write m.x.value (print_d m.y.value ++ ['\n'])] else [] := by
  have hdigits := List.length_pos_of_ne_nil m.y.ne_nil
  have hstart : ¬127 ≤ m.digits_start := by
    rw [Message.digits_end] at hend
    omega
  rw [serve1_text, narrow_eq_self_iff.mpr hx, m.cut_y_of_le hend, narrow_eq_self_iff.mpr hy]
  cases hallowed : fd_allowed m.x.value with
  | false => rw [if_pos (.inr rfl), if_neg Bool.false_ne_true]
  | true => rw [if_neg (not_or.mpr ⟨hstart, Bool.noConfusion⟩), if_pos rfl]

/-- **Remote control.** If every command finds the pecker as the last one on the second port of udppair, and
what is sent to the pecker gets there and nothing else does, then the pecker writes exactly the numbers of the
commands, in their order, each to its file descriptor if that is allowed. The pecks, the replies of the pecker's
side and whatever else happens in between change nothing. -/
theorem control_faithful {events : List Event} {ms : List Message}
    (hguard : Guarded (Session.step home) (Undisturbed home) .start events)
    (hrun : run (Session.step home) .start events = some s) (hflight : s.toPecker = [])
    (hread : (commands s.read).map text = ms.map Message.text)
    (hfits : ∀ m ∈ ms, Fits 32 m.x.value ∧ Fits 32 m.y.value ∧ m.digits_end ≤ 127) :
    s.done.filter (· ≠ .sendto) = (ms.filter fun m ↦ fd_allowed m.x.value).map fun m ↦
      .write m.x.value (print_d m.y.value ++ ['\n']) := by
  have hstart : Steady home .start := ⟨account_start home, rfl, rfl, rfl⟩
  have h := run_invariant (Steady home) (fun _ _ _ h hg hstep ↦ h.step hg hstep) hstart hguard hrun
  -- everything for the pecker was served
  have hserved : relayed s.got = addressed home s.read := by
    have hsublist := h.account.fifo.arrived_sublist
    refine hsublist.eq_of_length ?_
    have hcount := h.account.count
    rw [hflight, h.lost] at hcount
    exact hcount
  have hgot : s.got.flatMap (fun a ↦ effect a.bytes) = (commands s.read).flatMap effect := by
    rw [← h.addressed, ← hserved, h.relayed, List.flatMap_map]
  have htext : (commands s.read).flatMap effect =
      ((commands s.read).map text).flatMap fun t ↦ serve1 (.datagram t) := by
    rw [List.flatMap_map]
    rfl
  rw [h.account.done, hgot, htext, hread, List.flatMap_map]
  clear hread
  induction ms with
  | nil => rfl
  | cons m ms ih =>
    obtain ⟨⟨hx, hy, hend⟩, hrest⟩ := List.forall_mem_cons.mp hfits
    rw [List.flatMap_cons, ih hrest, serve1_text_of_fits hx hy hend, List.filter_cons]
    split
    · rfl
    · rfl

private def dim_message : Message where
  lead := ['\t', '\t']
  x := .canonical 3
  sep := ['\t']
  y := .canonical 40
  tail := ['\n']
  isspace_lead := List.forall_mem_cons.mpr ⟨rfl, List.forall_mem_singleton.mpr rfl⟩
  isspace_sep := List.forall_mem_singleton.mpr rfl
  isspace_tail := List.forall_mem_singleton.mpr rfl
  sep_ne_nil := List.cons_ne_nil _ _

private def evening : List Event := [.timeout, .peck, .command dim true, .timeout, .deliver]

theorem control_faithful_evening :
    ∃ s, run (Session.step a_home) .start evening = some s ∧
      s.done.filter (· ≠ .sendto) = [.write 3 "40\n".toList] := by
  have hx : dim_message.x.value = 3 := Spelling.value_canonical 3
  have hy : dim_message.y.value = 40 := Spelling.value_canonical 40
  have hfits : ∀ m ∈ [dim_message], Fits 32 m.x.value ∧ Fits 32 m.y.value ∧ m.digits_end ≤ 127 := by
    rw [List.forall_mem_singleton, hx, hy]
    exact ⟨by decide, by decide, by decide +kernel⟩
  refine ⟨_, rfl, ?_⟩
  have hguard : Guarded (Session.step a_home) (Undisturbed a_home) .start evening := by decide +kernel
  have hrun : run (Session.step a_home) .start evening = some _ := rfl
  have hwrites := control_faithful hguard hrun rfl
    (by decide +kernel : _ = [dim_message].map Message.text) hfits
  rw [hwrites]
  decide +kernel

end Commands

end ViTools.Udpfilepecker
