import ViTools.Lib.MachineInt
import ViTools.UdpTimeoutChecker.Serve

/-!
# The child process of a request

A request that passes the checks of `serve1` gets a child process, which sleeps, sends `B`, sleeps again
and sends `A`. The check that the two sleeps together take ten minutes at most is made on the sum of two
64-bit numbers, which wraps. A pair of numbers that adds up to `2 ^ 64` or a little more passes it. One
of the two is then negative as a `time_t`, so the kernel refuses to sleep that long; and as
`clock_nanosleep` returns an error number and not -1, the child replies without having slept.

The text of a request is read by `%lu`. What follows does not depend on how that conversion treats
numbers that do not fit, so it is a parameter `lu` here, and `scan_lu` is the one of the other modules.
-/

namespace ViTools.UdpTimeoutChecker

/-- The numbers of a request, each an `unsigned long`. -/
structure Numbers where
  /-- The seconds before `B`. -/
  secs1 : UInt64
  /-- The nanoseconds before `B`. -/
  nanos1 : UInt64
  /-- The seconds between `B` and `A`. -/
  secs2 : UInt64
  /-- The nanoseconds between `B` and `A`. -/
  nanos2 : UInt64
  deriving DecidableEq

section Request

variable (lu : List Char → Option (UInt64 × List Char))

/-- What `sscanf` makes of a datagram, if it finds four numbers. The last byte of `buf` stays zero, and
the text ends at the first zero. -/
def sscanf (datagram : List Char) : Option Numbers := do
  let buf := (datagram.take 127).takeWhile fun c ↦ c.toNat ≠ 0
  let (secs1, buf) ← lu buf
  let (nanos1, buf) ← lu buf
  let (secs2, buf) ← lu buf
  let (nanos2, _) ← lu buf
  some ⟨secs1, nanos1, secs2, nanos2⟩

/-- The check of `serve1`. -/
def Numbers.rejected (n : Numbers) : Bool :=
  n.secs1 + n.secs2 > 600 || n.nanos1 ≥ 1000 * 1000 * 1000 || n.nanos2 ≥ 1000 * 1000 * 1000

/-- The numbers with which `serve1` forks a child for a datagram. -/
def forked (datagram : List Char) : Option Numbers :=
  (sscanf lu datagram).filter fun n ↦ !n.rejected

end Request

/-! ## The child -/

/-- A call of `clock_nanosleep`: what it returns, and when it does. -/
structure Slept where
  /-- Zero, or an error number. -/
  ret : ℤ
  /-- The nanoseconds that have passed. -/
  time : ℕ

/-- Whether `clock_nanosleep` accepts an interval. -/
def Sleepable (tv_sec tv_nsec : ℤ) : Prop := 0 ≤ tv_sec ∧ 0 ≤ tv_nsec ∧ tv_nsec < 1000000000

instance (tv_sec tv_nsec : ℤ) : Decidable (Sleepable tv_sec tv_nsec) :=
  inferInstanceAs (Decidable (_ ∧ _ ∧ _))

/-- `clock_nanosleep` returns after the interval, or somewhat later; the child has no signal handlers that
could wake it up before. An interval that it does not accept is `EINVAL`, which is 22. -/
def sleep (tv_sec tv_nsec : ℤ) (late : ℕ) : Slept :=
  if Sleepable tv_sec tv_nsec then ⟨0, tv_sec.toNat * 1000000000 + tv_nsec.toNat + late⟩
  else ⟨22, late⟩

/-- What a child does. -/
structure ChildRun where
  /-- When it sends `B`, if it does. -/
  sends_B : Option ℕ
  /-- When it sends `A`, if it does. -/
  sends_A : Option ℕ
  /-- Its exit code. -/
  exit : ℕ
  deriving DecidableEq

/-- The child process. The numbers become a `time_t` and a `long`. -/
def child (n : Numbers) (late1 late2 : ℕ) : ChildRun :=
  let ts1 := sleep (wrap64 n.secs1.toNat) (wrap64 n.nanos1.toNat) late1
  if -1 = ts1.ret then ⟨none, none, 1⟩
  else
    let ts2 := sleep (wrap64 n.secs2.toNat) (wrap64 n.nanos2.toNat) late2
    if -1 = ts2.ret then ⟨some ts1.time, none, 2⟩
    else ⟨some ts1.time, some (ts1.time + ts2.time), 0⟩

/-- The child never takes a refused sleep for a failure. -/
theorem child_eq (n : Numbers) (late1 late2 : ℕ) :
    child n late1 late2 =
      ⟨some (sleep (wrap64 n.secs1.toNat) (wrap64 n.nanos1.toNat) late1).time,
        some ((sleep (wrap64 n.secs1.toNat) (wrap64 n.nanos1.toNat) late1).time +
          (sleep (wrap64 n.secs2.toNat) (wrap64 n.nanos2.toNat) late2).time), 0⟩ := by
  have hret : ∀ tv_sec tv_nsec late, -1 ≠ (sleep tv_sec tv_nsec late).ret := by
    intro tv_sec tv_nsec late h
    rw [sleep] at h
    split at h <;> cases h
  rw [child, if_neg (hret _ _ _), if_neg (hret _ _ _)]

/-! ## Bounded delays -/

/-- What a request may ask for, and what its child keeps. -/
structure Honoured (n : Numbers) : Prop where
  /-- The delays together are ten minutes and the nanoseconds at most. -/
  bounded : n.secs1.toNat + n.secs2.toNat ≤ 600
  /-- The kernel accepts the first interval. -/
  first : Sleepable (wrap64 n.secs1.toNat) (wrap64 n.nanos1.toNat)
  /-- The kernel accepts the second interval. -/
  second : Sleepable (wrap64 n.secs2.toNat) (wrap64 n.nanos2.toNat)
  /-- The reply `B` comes after the first interval. -/
  after_first : ∀ late1 late2 b, (child n late1 late2).sends_B = some b →
    n.secs1.toNat * 1000000000 + n.nanos1.toNat ≤ b
  /-- The reply `A` comes after `B` and the second interval. -/
  after_second : ∀ late1 late2 a, (child n late1 late2).sends_A = some a →
    ∃ b, (child n late1 late2).sends_B = some b ∧
      b + (n.secs2.toNat * 1000000000 + n.nanos2.toNat) ≤ a

/-- The numbers of a request that passes the check because its sum wraps. -/
structure Numbers.Wraps (n : Numbers) : Prop where
  nanos1_lt : n.nanos1.toNat < 1000000000
  nanos2_lt : n.nanos2.toNat < 1000000000
  ge : 2 ^ 64 ≤ n.secs1.toNat + n.secs2.toNat
  le : n.secs1.toNat + n.secs2.toNat ≤ 2 ^ 64 + 600

/-- The check, on the sum as it is computed. -/
theorem rejected_eq_false {n : Numbers} : n.rejected = false ↔
    (n.secs1.toNat + n.secs2.toNat) % 2 ^ 64 ≤ 600 ∧ n.nanos1.toNat < 1000000000 ∧
      n.nanos2.toNat < 1000000000 := by
  have h600 : (600 : UInt64).toNat = 600 := rfl
  have hgiga : (1000 * 1000 * 1000 : UInt64).toNat = 1000000000 := rfl
  simp only [Numbers.rejected, Bool.or_eq_false_iff, decide_eq_false_iff_not, gt_iff_lt, ge_iff_le,
    UInt64.lt_iff_toNat_lt, UInt64.le_iff_toNat_le, UInt64.toNat_add, h600, hgiga, and_assoc]
  omega

theorem forked_eq_some {lu : List Char → Option (UInt64 × List Char)} {datagram : List Char}
    {n : Numbers} : forked lu datagram = some n ↔
      sscanf lu datagram = some n ∧ n.rejected = false := by
  rw [forked, Option.filter_eq_some_iff, Bool.not_eq_true']

/-- A bounded interval is one the kernel accepts, and it is slept in full. -/
theorem sleep_of_bounded {secs nanos : UInt64} (hsecs : secs.toNat ≤ 600)
    (hnanos : nanos.toNat < 1000000000) (late : ℕ) :
    Sleepable (wrap64 secs.toNat) (wrap64 nanos.toNat) ∧
      (sleep (wrap64 secs.toNat) (wrap64 nanos.toNat) late).time =
        secs.toNat * 1000000000 + nanos.toNat + late := by
  have hwrap : wrap64 secs.toNat = secs.toNat := wrap64_eq_self (by omega) (by omega)
  have hwrap' : wrap64 nanos.toNat = nanos.toNat := wrap64_eq_self (by omega) (by omega)
  have hok : Sleepable secs.toNat nanos.toNat := ⟨by omega, by omega, by omega⟩
  rw [hwrap, hwrap', sleep, if_pos hok]
  exact ⟨hok, rfl⟩

theorem honoured_of_bounded {n : Numbers} (hsum : n.secs1.toNat + n.secs2.toNat ≤ 600)
    (h1 : n.nanos1.toNat < 1000000000) (h2 : n.nanos2.toNat < 1000000000) : Honoured n := by
  have hfirst := sleep_of_bounded (show n.secs1.toNat ≤ 600 by omega) h1
  have hsecond := sleep_of_bounded (show n.secs2.toNat ≤ 600 by omega) h2
  constructor
  · exact hsum
  · exact (hfirst 0).1
  · exact (hsecond 0).1
  · intro late1 late2 b hb
    rw [child_eq, Option.some.injEq, (hfirst late1).2] at hb
    omega
  · intro late1 late2 a ha
    rw [child_eq, Option.some.injEq, (hfirst late1).2, (hsecond late2).2] at ha
    refine ⟨_, by rw [child_eq], ?_⟩
    rw [(hfirst late1).2]
    omega

/-- **The delays of the server.** A datagram makes `serve1` fork only children that are bounded and keep
their delays, exactly if its numbers do not pass the check by wrapping. -/
theorem honoured_iff (lu : List Char → Option (UInt64 × List Char)) (datagram : List Char) :
    (∀ n, forked lu datagram = some n → Honoured n) ↔
      ∀ n, sscanf lu datagram = some n → ¬n.Wraps := by
  constructor
  · intro h n hn hwraps
    have hpass : n.rejected = false :=
      rejected_eq_false.mpr ⟨by have := hwraps.ge; have := hwraps.le; omega, hwraps.nanos1_lt,
        hwraps.nanos2_lt⟩
    have hbounded := (h n (forked_eq_some.mpr ⟨hn, hpass⟩)).bounded
    have hge := hwraps.ge
    omega
  · intro h n hforked
    obtain ⟨hn, hpass⟩ := forked_eq_some.mp hforked
    obtain ⟨hsum, h1, h2⟩ := rejected_eq_false.mp hpass
    refine honoured_of_bounded ?_ h1 h2
    by_contra hlarge
    have := n.secs1.toNat_lt
    have := n.secs2.toNat_lt
    exact h n hn ⟨h1, h2, by omega, by omega⟩

/-! ## The requests of the other modules -/

/-- The conversion `%lu` as it is. -/
def scan_lu64 (text : List Char) : Option (UInt64 × List Char) :=
  (scan_lu text).map fun p ↦ (UInt64.ofNat p.1, p.2)

theorem scan_lu_eq (text : List Char) :
    scan_lu text = (scan_lu64 text).map fun p ↦ (p.1.toNat, p.2) := by
  rw [scan_lu64, Option.map_map]
  cases h : scan_lu text with
  | none => rfl
  | some p =>
    rw [Option.map_some, Function.comp_apply]
    dsimp only
    rw [UInt64.toNat_ofNat_of_lt' (scan_lu_lt h)]

/-- How long the child of a request sleeps. -/
def Numbers.waits (n : Numbers) : Waits :=
  ⟨clock_nanosleep n.secs1.toNat n.nanos1.toNat, clock_nanosleep n.secs2.toNat n.nanos2.toNat⟩

/-- The check, as a case distinction and as a filter. -/
theorem check_eq_filter (n : Numbers) :
    (if 600 < (n.secs1.toNat + n.secs2.toNat) % 2 ^ 64 ∨ 1000 * 1000 * 1000 ≤ n.nanos1.toNat ∨
        1000 * 1000 * 1000 ≤ n.nanos2.toNat then none else some n.waits) =
      ((some n).filter fun n ↦ !n.rejected).map Numbers.waits := by
  rw [Option.filter_some]
  cases hrej : n.rejected with
  | false =>
    obtain ⟨hsum, h1, h2⟩ := rejected_eq_false.mp hrej
    rw [if_neg (by omega)]
    rfl
  | true =>
    have hfail : ¬n.rejected = false := by rw [hrej]; decide
    rw [rejected_eq_false] at hfail
    rw [if_pos (by omega)]
    rfl

/-- `serve1` forks a child for the numbers that pass its check. -/
theorem serve1_eq_forked (datagram : List Char) :
    serve1 datagram = (forked scan_lu64 datagram).map Numbers.waits := by
  rw [serve1, forked, sscanf]
  dsimp only
  generalize (datagram.take 127).takeWhile (fun c ↦ c.toNat ≠ 0) = buf
  rw [scan_lu_eq buf]
  cases scan_lu64 buf with
  | none => rfl
  | some p₁ =>
    simp only [Option.map_some, Option.bind_eq_bind, Option.bind_some, scan_lu_eq p₁.2]
    cases scan_lu64 p₁.2 with
    | none => rfl
    | some p₂ =>
      simp only [Option.map_some, Option.bind_some, scan_lu_eq p₂.2]
      cases scan_lu64 p₂.2 with
      | none => rfl
      | some p₃ =>
        simp only [Option.map_some, Option.bind_some, scan_lu_eq p₃.2]
        cases scan_lu64 p₃.2 with
        | none => rfl
        | some p₄ =>
          simp only [Option.map_some, Option.bind_some]
          exact check_eq_filter ⟨p₁.1, p₂.1, p₃.1, p₄.1⟩

theorem time_sleep {secs nanos : UInt64} (hnanos : nanos.toNat < 1000000000) :
    (sleep (wrap64 secs.toNat) (wrap64 nanos.toNat) 0).time =
      clock_nanosleep secs.toNat nanos.toNat := by
  have hwrap' : wrap64 nanos.toNat = nanos.toNat := wrap64_eq_self (by omega) (by omega)
  have hlt := secs.toNat_lt
  rw [hwrap', sleep, clock_nanosleep]
  by_cases hbig : secs.toNat < 2 ^ 63
  · rw [wrap64_eq_self (by omega) (by omega), if_pos ⟨by omega, by omega, by omega⟩, if_pos hbig]
    exact Nat.add_zero _
  · rw [wrap64_eq_sub (by omega) (by omega), if_neg (fun h ↦ by have := h.1; omega), if_neg hbig]

/-- The replies of a child come after its waits, if nothing is late. -/
theorem child_waits {n : Numbers} (h : n.rejected = false) :
    child n 0 0 = ⟨some n.waits.ts1, some (n.waits.ts1 + n.waits.ts2), 0⟩ := by
  obtain ⟨-, h1, h2⟩ := rejected_eq_false.mp h
  rw [child_eq, time_sleep h1, time_sleep h2, Numbers.waits]

/-- A pair of delays that adds up to `2 ^ 64 + 600` seconds. -/
def wrapping_request : List Char := "18446744073709551615 0 601 0\n".toList

/-- The child of this request sends `B` at once. -/
theorem wrapping_request_not_honoured :
    forked scan_lu64 wrapping_request = some ⟨18446744073709551615, 0, 601, 0⟩ ∧
      (child ⟨18446744073709551615, 0, 601, 0⟩ 0 0).sends_B = some 0 ∧
      ¬Honoured ⟨18446744073709551615, 0, 601, 0⟩ :=
  ⟨by decide +kernel, by decide +kernel, fun h ↦ absurd h.bounded (by decide)⟩

end ViTools.UdpTimeoutChecker
