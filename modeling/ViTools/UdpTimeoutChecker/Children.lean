import ViTools.Lib.Run
import ViTools.Lib.Spaced
import ViTools.UdpTimeoutChecker.Child

/-!
# The children of the server

Every accepted request costs the server a process for as long as its child sleeps. Two things keep these
few: the check that a request is for ten minutes at most, and the pause of a quarter of a second after
each datagram. Together they allow 2408 children at a time, and that many are possible.

The check is made on a sum that wraps, and with a request that makes use of this the bound is gone: one
of the two sleeps is refused, but the other may take as long as a `time_t` can say. Then there are as many
children as there were requests.
-/

namespace ViTools.UdpTimeoutChecker

/-- How long a child lives: until it has sent `A`, which is the last thing it does. -/
def lifetime (n : Numbers) (late1 late2 : ℕ) : ℕ := (child n late1 late2).sends_A.getD 0

/-- A child process, from the fork to its exit. -/
structure Lifespan where
  born : ℕ
  dies : ℕ
  deriving DecidableEq

/-- What happens in a round of the server. -/
structure Round where
  /-- When `recvfrom` returns. -/
  time : ℕ
  /-- What it receives, unless it fails. -/
  datagram : Option (List Char)
  /-- Whether `fork` succeeds. -/
  forks : Bool
  /-- How late the child is after its first sleep. -/
  late1 : ℕ
  /-- How late it is after the second one. -/
  late2 : ℕ

/-- The numbers for which a round makes a child. -/
def Round.numbers (r : Round) : Option Numbers :=
  if r.forks then r.datagram.bind (forked scan_lu64) else none

/-- The server between two rounds, with all the children it ever had, the newest one first. -/
structure Serving where
  /-- When the pause of the round before is over. -/
  ready : ℕ
  children : List Lifespan
  deriving DecidableEq

/-- `serve1` and the pause of a quarter of a second. -/
def serve_round (s : Serving) (r : Round) : Option Serving :=
  if s.ready ≤ r.time then
    some {
      ready := r.time + 250 * 1000 * 1000
      children := match r.numbers with
        | some n => ⟨r.time, r.time + lifetime n r.late1 r.late2⟩ :: s.children
        | none => s.children }
  else none

/-- The server when it starts. -/
def Serving.start : Serving := ⟨0, []⟩

/-- How many children are there at a time. -/
def living (s : Serving) (t : ℕ) : ℕ := s.children.countP fun c ↦ c.born ≤ t ∧ t < c.dies

/-! ## Bounded lives -/

theorem lifetime_eq (n : Numbers) (late1 late2 : ℕ) : lifetime n late1 late2 =
    (sleep (wrap64 n.secs1.toNat) (wrap64 n.nanos1.toNat) late1).time +
      (sleep (wrap64 n.secs2.toNat) (wrap64 n.nanos2.toNat) late2).time := by
  rw [lifetime, child_eq, Option.getD_some]

/-- Ten minutes, and twice what is less than a second. -/
theorem lifetime_le {n : Numbers} (hpass : n.rejected = false) (hwraps : ¬n.Wraps) (late1 late2 : ℕ) :
    lifetime n late1 late2 ≤ 601999999998 + late1 + late2 := by
  obtain ⟨hsum, h1, h2⟩ := rejected_eq_false.mp hpass
  have hlt1 := n.secs1.toNat_lt
  have hlt2 := n.secs2.toNat_lt
  have hbounded : n.secs1.toNat + n.secs2.toNat ≤ 600 := by
    by_contra hlarge
    exact hwraps ⟨h1, h2, by omega, by omega⟩
  have hfirst := (sleep_of_bounded (show n.secs1.toNat ≤ 600 by omega) h1 late1).2
  have hsecond := (sleep_of_bounded (show n.secs2.toNat ≤ 600 by omega) h2 late2).2
  rw [lifetime_eq, hfirst, hsecond]
  omega

/-- A request whose sum does not wrap. -/
def Round.Fair (r : Round) : Prop :=
  ∀ datagram n, r.datagram = some datagram → sscanf scan_lu64 datagram = some n → ¬n.Wraps

theorem Round.Fair.lifetime_le {r : Round} (h : r.Fair) {n : Numbers} (hn : r.numbers = some n) :
    lifetime n r.late1 r.late2 ≤ 601999999998 + r.late1 + r.late2 := by
  rw [numbers] at hn
  split at hn
  · obtain ⟨datagram, hdatagram, hforked⟩ := Option.bind_eq_some_iff.mp hn
    obtain ⟨hscan, hpass⟩ := forked_eq_some.mp hforked
    exact UdpTimeoutChecker.lifetime_le hpass (h datagram n hdatagram hscan) _ _
  · cases hn

/-! ## The invariant -/

/-- The children were born one after the other, and live for `life` at most. -/
structure Spread (life : ℕ) (s : Serving) : Prop where
  spaced : Spaced 250000000 (s.children.map Lifespan.born)
  ready : ∀ c ∈ s.children, c.born + 250000000 ≤ s.ready
  life : ∀ c ∈ s.children, c.dies ≤ c.born + life

theorem spread_start (life : ℕ) : Spread life .start :=
  ⟨List.Pairwise.nil, List.forall_mem_nil _, List.forall_mem_nil _⟩

theorem Spread.round {life : ℕ} {s s' : Serving} {r : Round} (h : Spread life s)
    (hlife : ∀ n, r.numbers = some n → lifetime n r.late1 r.late2 ≤ life)
    (hround : serve_round s r = some s') : Spread life s' := by
  rw [serve_round] at hround
  split at hround
  · next hready =>
    cases hround
    have hold : ∀ c ∈ s.children, c.born + 250000000 ≤ r.time := by
      intro c hc
      exact (h.ready c hc).trans hready
    cases hn : r.numbers with
    | none =>
      refine ⟨h.spaced, fun c hc ↦ ?_, h.life⟩
      have hborn := hold c hc
      dsimp only
      omega
    | some n =>
      refine ⟨spaced_cons.mpr ⟨?_, h.spaced⟩, List.forall_mem_cons.mpr ⟨le_refl _, fun c hc ↦ ?_⟩,
        List.forall_mem_cons.mpr ⟨Nat.add_le_add_left (hlife n hn) r.time, h.life⟩⟩
      · intro a ha
        obtain ⟨c, hc, rfl⟩ := List.mem_map.mp ha
        exact hold c hc
      · have hborn := hold c hc
        dsimp only
        omega
  · cases hround

/-- The children that live are among the recent ones. -/
theorem Spread.alive_le {life : ℕ} {s : Serving} (h : Spread life s) (t : ℕ) :
    living s t ≤ (life + 249999999) / 250000000 := by
  have hrecent := h.spaced.length_recent_le (by decide) life t
  refine le_trans ?_ hrecent
  rw [recent, ← List.countP_eq_length_filter, List.countP_map, living]
  refine List.countP_mono_left fun c hc halive ↦ ?_
  have hdies := h.life c hc
  simp only [decide_eq_true_eq, Function.comp_apply] at halive ⊢
  omega

theorem Spread.run {life : ℕ} {rounds : List Round} {s s' : Serving} (h : Spread life s)
    (hlife : ∀ r ∈ rounds, ∀ n, r.numbers = some n → lifetime n r.late1 r.late2 ≤ life)
    (hrun : run serve_round s rounds = some s') : Spread life s' := by
  induction rounds generalizing s with
  | nil =>
    cases hrun
    exact h
  | cons r rounds ih =>
    obtain ⟨hr, hrounds⟩ := List.forall_mem_cons.mp hlife
    obtain ⟨s₁, hround, hrest⟩ := Option.bind_eq_some_iff.mp hrun
    exact ih (h.round hr hround) hrounds hrest

/-! ## As many as that -/

/-- The same request four times a second. -/
def busy (datagram : List Char) (k : ℕ) : Round := ⟨250000000 * k, some datagram, true, 0, 0⟩

/-- The server after `m` of these. -/
def busy_state (life m : ℕ) : Serving where
  ready := 250000000 * m
  children := (List.range m).reverse.map fun k ↦ ⟨250000000 * k, 250000000 * k + life⟩

theorem run_busy {datagram : List Char} {n : Numbers} (h : forked scan_lu64 datagram = some n) (m : ℕ) :
    run serve_round .start ((List.range m).map (busy datagram)) =
      some (busy_state (lifetime n 0 0) m) := by
  induction m with
  | zero => rfl
  | succ m ih =>
    have hnumbers : (busy datagram m).numbers = some n := h
    have hchildren : (List.range (m + 1)).reverse = m :: (List.range m).reverse := by
      rw [List.range_succ, List.reverse_append]
      rfl
    have hready : (busy_state (lifetime n 0 0) m).ready ≤ (busy datagram m).time := le_refl _
    rw [List.range_succ, List.map_append, List.map_singleton, run_concat, ih, Option.bind_some,
      serve_round, if_pos hready, hnumbers, busy_state, busy_state, hchildren]
    rfl

/-- As long as the first child lives, all of them do. -/
theorem living_busy {life m : ℕ} (h : 250000000 * m < life) :
    living (busy_state life (m + 1)) (250000000 * m) = m + 1 := by
  have hlength : (busy_state life (m + 1)).children.length = m + 1 := by
    rw [busy_state, List.length_map, List.length_reverse, List.length_range]
  refine (List.countP_eq_length.mpr ?_).trans hlength
  intro c hc
  obtain ⟨k, hk, rfl⟩ := List.mem_map.mp hc
  rw [List.mem_reverse, List.mem_range] at hk
  rw [decide_eq_true_eq]
  dsimp only
  omega

/-- The longest request: ten minutes and almost two seconds. -/
def longest : List Char := "0 999999999 600 999999999\n".toList

/-- A request for one second less than a `time_t` can say, with a sum of `2 ^ 64`. -/
def endless : List Char := "9223372036854775807 0 9223372036854775809 0\n".toList

theorem forked_longest : forked scan_lu64 longest = some ⟨0, 999999999, 600, 999999999⟩ := by
  decide +kernel

theorem forked_endless :
    forked scan_lu64 endless = some ⟨9223372036854775807, 0, 9223372036854775809, 0⟩ := by
  decide +kernel

theorem lifetime_longest : lifetime ⟨0, 999999999, 600, 999999999⟩ 0 0 = 601999999998 := by
  decide +kernel

theorem lifetime_endless :
    lifetime ⟨9223372036854775807, 0, 9223372036854775809, 0⟩ 0 0 = 9223372036854775807000000000 := by
  decide +kernel

theorem fair_busy_longest (k : ℕ) : (busy longest k).Fair := by
  rintro datagram n hdatagram hscan hwraps
  obtain rfl : longest = datagram := Option.some.inj hdatagram
  have hforked := forked_eq_some.mp forked_longest
  rw [hforked.1] at hscan
  cases hscan
  exact absurd hwraps.ge (by decide)

/-! ## The result -/

/-- **The number of children.** Whatever requests come, if none of them has a sum that wraps, there are
never more than 2408 children at a time, and more by one for every quarter of a second, also a started one, that
they are late. There can be as many. Requests that wrap can make as many children as there are requests. -/
theorem living_le :
    (∀ slack rounds s, (∀ r ∈ rounds, r.Fair ∧ r.late1 + r.late2 ≤ slack) →
      run serve_round .start rounds = some s →
        ∀ t, living s t ≤ (602249999997 + slack) / 250000000) ∧
    (∃ rounds s t, (∀ r ∈ rounds, r.Fair ∧ r.late1 + r.late2 ≤ 0) ∧
      run serve_round .start rounds = some s ∧ living s t = 2408) ∧
    ∀ m < 2 ^ 64, ∃ rounds s t, rounds.length = m + 1 ∧
      run serve_round .start rounds = some s ∧ living s t = m + 1 := by
  refine ⟨?_, ?_, ?_⟩
  · intro slack rounds s hrounds hrun t
    have hlife : ∀ r ∈ rounds, ∀ n, r.numbers = some n →
        lifetime n r.late1 r.late2 ≤ 601999999998 + slack := by
      intro r hr n hn
      obtain ⟨hfair, hslack⟩ := hrounds r hr
      have hle := hfair.lifetime_le hn
      omega
    have hliving := ((spread_start _).run hlife hrun).alive_le t
    rwa [show 601999999998 + slack + 249999999 = 602249999997 + slack by omega] at hliving
  · refine ⟨_, _, 250000000 * 2407, ?_, run_busy forked_longest 2408, ?_⟩
    · intro r hr
      obtain ⟨k, -, rfl⟩ := List.mem_map.mp hr
      exact ⟨fair_busy_longest k, le_refl 0⟩
    · apply living_busy
      rw [lifetime_longest]
      norm_num
  · intro m hm
    refine ⟨_, _, 250000000 * m, ?_, run_busy forked_endless (m + 1), ?_⟩
    · rw [List.length_map, List.length_range]
    · apply living_busy
      rw [lifetime_endless]
      omega

end ViTools.UdpTimeoutChecker
