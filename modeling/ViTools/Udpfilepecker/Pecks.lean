import ViTools.Lib.Socket
import ViTools.Udpfilepecker.Serve

/-!
# When udpfilepecker pecks

`main` gives the socket its receive timeout and calls `serve1` again and again. So the pecks are not sent
periodically: what is a peck is decided by the timeout of `recv`, and every datagram starts that anew. They are
sent in the silences, and if datagrams keep coming faster than the period, or `recv` keeps failing, then there
are none.
-/

namespace ViTools.Udpfilepecker

/-- The receive timeout that `main` sets, in nanoseconds. Zero would mean none. -/
def rcvtimeo (peck_period : List Char) : ℤ := atoi peck_period * 1000000000

/-- A datagram, and when it comes. -/
structure Incoming where
  /-- The time in nanoseconds. -/
  came : ℤ
  bytes : List Char

/-- What `recv` returns. -/
def recv : Return Incoming → Received
  | .message d => .datagram d.bytes
  | .timeout => .eagain
  | .error => .error

/-- The times of the pecks, given what `recv` returned and when. -/
def pecks (returns : List (ℤ × Return Incoming)) : List ℤ :=
  (returns.filter fun r ↦ .sendto ∈ serve1 (recv r.2)).map Prod.fst

theorem pecks_eq (returns : List (ℤ × Return Incoming)) : pecks returns = timeouts returns := by
  have hsame : ∀ r ∈ returns, decide (.sendto ∈ serve1 (recv r.2)) = r.2.isTimeout := by
    rintro ⟨t, r⟩ -
    cases r with
    | message d => exact decide_eq_false (sendto_notMem_serve1 d.bytes)
    | timeout => rfl
    | error => rfl
  rw [pecks, timeouts, List.filter_congr hsame]

/-- **The pecks are the silences.** From any point of a run: pecks are a whole period apart. Before each of them
nothing came for a whole period. And where nothing comes for long enough, and `recv` does not fail, there is
one: for the period, and for the delay of two rounds for what was waiting and one more. -/
theorem pecks_are_silences {peck_period : List Char} (hperiod : 0 < atoi peck_period) {late : ℤ}
    (hlate : 0 ≤ late) {s s' : Inbox Incoming} {turns : List Turn} {returns : List (ℤ × Return Incoming)}
    (hsorted : s.queue.Pairwise fun d e ↦ d.came ≤ e.came)
    (hrun : transduce (wait1 (rcvtimeo peck_period) late Incoming.came) s turns = some (returns, s')) :
    ((pecks returns).Pairwise fun t u ↦ t + rcvtimeo peck_period ≤ u) ∧
    (∀ t ∈ pecks returns, s.clock + rcvtimeo peck_period ≤ t ∧
      ∀ d ∈ s.queue, ¬(t - rcvtimeo peck_period < d.came ∧ d.came ≤ t)) ∧
    ∀ waiting rest a b, s.queue = waiting ++ rest → (∀ d ∈ waiting, d.came ≤ a) → (∀ d ∈ rest, b < d.came) →
      max s.clock a + rcvtimeo peck_period + 2 * late * (waiting.length + 1) ≤ b → b < s'.clock →
        (∀ t, (t, .error) ∈ returns → ¬(a < t ∧ t ≤ b)) → ∃ t ∈ pecks returns, a < t ∧ t ≤ b := by
  have htimeout : 0 ≤ rcvtimeo peck_period := by
    rw [rcvtimeo]
    omega
  rw [pecks_eq]
  refine ⟨pairwise_timeouts hsorted hrun, fun t ht ↦ silent_before_timeout hsorted hrun ht, ?_⟩
  intro waiting rest a b hqueue hwaiting hrest hroom hlast herrors
  exact exists_timeout htimeout hlate hqueue hwaiting hrest hroom hrun hlast herrors

/-- A datagram after five seconds, and then silence. -/
private def quiet : Inbox Incoming := ⟨[⟨5000000000, []⟩], 0⟩

/-- The first call fails after two seconds. -/
private def quietTurns : List Turn :=
  [⟨0, 2000000000, true⟩, ⟨2000000000, 5000000000, false⟩, ⟨5000000000, 35000000000, false⟩,
    ⟨35000000000, 65000000000, false⟩]

private theorem run_quiet : ∃ returns s,
    transduce (wait1 (rcvtimeo "30".toList) 0 Incoming.came) quiet quietTurns = some (returns, s) ∧
      returns.map Prod.fst = [2000000000, 5000000000, 35000000000, 65000000000] ∧
      pecks returns = [35000000000, 65000000000] ∧ s.clock = 65000000000 ∧
      ∀ t, (t, .error) ∈ returns → t = 2000000000 := by
  refine ⟨_, _, rfl, rfl, by decide +kernel, rfl, fun t ht ↦ ?_⟩
  simp only [List.mem_cons, List.not_mem_nil, or_false, Prod.mk.injEq, reduceCtorEq, and_false, and_true] at ht
  exact ht

theorem pecks_are_silences_quiet : ∃ returns s,
    transduce (wait1 (rcvtimeo "30".toList) 0 Incoming.came) quiet quietTurns = some (returns, s) ∧
      ∃ t ∈ pecks returns, 6000000000 < t ∧ t ≤ 36000000000 := by
  obtain ⟨returns, s, hrun, -, -, hclock, herrors⟩ := run_quiet
  have hsorted : quiet.queue.Pairwise fun d e ↦ d.came ≤ e.came := List.pairwise_singleton _ _
  have hnoticed := (pecks_are_silences (by decide +kernel) (le_refl 0) hsorted hrun).2.2
  refine ⟨returns, s, hrun, hnoticed quiet.queue [] 6000000000 36000000000 ?_ ?_ ?_ ?_ ?_ ?_⟩
  · exact (List.append_nil _).symm
  · exact List.forall_mem_singleton.mpr (show (5000000000 : ℤ) ≤ 6000000000 by decide)
  · exact List.forall_mem_nil _
  · decide +kernel
  · rw [hclock]
    decide
  · intro t ht
    rw [herrors t ht]
    decide

end ViTools.Udpfilepecker
