import ViTools.UdpTsSeqReply.Validate
import Mathlib.Data.Int.GCD
import Mathlib.Tactic.LinearCombination

/-!
# The pace of a probe

After every packet `probe` moves its deadline forward by the delay and sleeps until then. The deadline
never drifts: after `k` packets it is the start and `k` delays. But the carry into the seconds is made
above a whole second of nanoseconds and not at it, so the deadlines that are whole seconds come out
with `tv_nsec` equal to a second. The kernel refuses these, and `probe` goes on without a pause.

Which deadlines that are is a matter of divisibility, and whether there are any at all is one of the
greatest common divisor of the delay and a second.
-/

namespace ViTools.UdpTsSeqReply

open Timespec

/-- What `probe` does to `ts_next` after a packet. -/
def advance (delay_ns : ℤ) (ts_next : Timespec) : Timespec :=
  if ts_next.tv_nsec + delay_ns > 1000 * 1000 * 1000 then
    { tv_sec := ts_next.tv_sec + 1
      tv_nsec := ts_next.tv_nsec + delay_ns - 1000 * 1000 * 1000 }
  else
    { tv_sec := ts_next.tv_sec
      tv_nsec := ts_next.tv_nsec + delay_ns }

/-- `ts_next` after `k` packets. -/
def ts_next (delay_ns : ℤ) (t0 : Timespec) : ℕ → Timespec
  | 0 => t0
  | k + 1 => advance delay_ns (ts_next delay_ns t0 k)

/-- What `clock_nanosleep_abstime` returns; it sleeps until the deadline if it returns 0. The value of
`EINVAL` is 22. -/
def clock_nanosleep_abstime (req : Timespec) : ℕ :=
  if 0 ≤ req.tv_nsec ∧ req.tv_nsec < 1000 * 1000 * 1000 then 0 else 22

theorem clock_nanosleep_abstime_eq_zero {req : Timespec} :
    clock_nanosleep_abstime req = 0 ↔ req.Normalised := by
  rw [clock_nanosleep_abstime]
  split
  · next h => exact ⟨fun _ ↦ ⟨h.1, by omega⟩, fun _ ↦ rfl⟩
  · next h => exact ⟨fun h' ↦ absurd h' (by decide), fun h' ↦ absurd ⟨h'.nonneg, h'.lt⟩ h⟩

/-- The nanoseconds of a deadline: above zero, and a second at most. -/
structure Carried (t : Timespec) : Prop where
  pos : 0 < t.tv_nsec
  le : t.tv_nsec ≤ 1000000000

theorem nanos_advance (delay_ns : ℤ) (t : Timespec) :
    (advance delay_ns t).nanos = t.nanos + delay_ns := by
  rw [advance]
  split <;> simp only [nanos] <;> ring

/-- One carry is enough, for a delay of a second at most. -/
theorem carried_advance {delay_ns : ℤ} {t : Timespec} (hpos : 1 ≤ delay_ns)
    (hle : delay_ns ≤ 1000000000) (hlo : 0 ≤ t.tv_nsec) (hhi : t.tv_nsec ≤ 1000000000) :
    Carried (advance delay_ns t) := by
  rw [advance]
  split
  · constructor <;> dsimp only <;> omega
  · constructor <;> dsimp only <;> omega

/-- The deadlines do not drift. -/
theorem nanos_ts_next (delay_ns : ℤ) (t0 : Timespec) (k : ℕ) :
    (ts_next delay_ns t0 k).nanos = t0.nanos + k * delay_ns := by
  induction k with
  | zero => simp [ts_next]
  | succ k ih =>
    rw [ts_next, nanos_advance, ih]
    push_cast
    ring

theorem carried_ts_next {delay_ns : ℤ} {t0 : Timespec} (hpos : 1 ≤ delay_ns)
    (hle : delay_ns ≤ 1000000000) (h0 : t0.Normalised) (k : ℕ) :
    Carried (ts_next delay_ns t0 (k + 1)) := by
  induction k with
  | zero => exact carried_advance hpos hle h0.nonneg h0.lt.le
  | succ k ih => exact carried_advance hpos hle ih.pos.le ih.le

/-- A carried time is normalised unless it is a whole number of seconds. -/
theorem Carried.normalised_iff {t : Timespec} (h : Carried t) :
    t.Normalised ↔ ¬(1000000000 : ℤ) ∣ t.nanos := by
  have hpos := h.pos
  have hle := h.le
  rw [nanos]
  constructor
  · rintro ⟨-, hlt⟩
    omega
  · intro hdvd
    constructor <;> omega

/-- The deadline after `k` packets is exact, and the kernel sleeps until then. -/
structure Paced (delay_ns : ℤ) (t0 : Timespec) (k : ℕ) : Prop where
  exact : (ts_next delay_ns t0 k).nanos = t0.nanos + k * delay_ns
  normalised : (ts_next delay_ns t0 k).Normalised
  sleeps : clock_nanosleep_abstime (ts_next delay_ns t0 k) = 0

/-- A single deadline is in order unless it is a whole second. -/
theorem paced_iff_not_dvd {delay_ns : ℤ} {t0 : Timespec} (hpos : 1 ≤ delay_ns)
    (hle : delay_ns ≤ 1000000000) (h0 : t0.Normalised) {k : ℕ} (hk : 1 ≤ k) :
    Paced delay_ns t0 k ↔ ¬(1000000000 : ℤ) ∣ t0.tv_nsec + k * delay_ns := by
  obtain ⟨j, rfl⟩ := Nat.exists_eq_succ_of_ne_zero (show k ≠ 0 by omega)
  have hexact := nanos_ts_next delay_ns t0 (j + 1)
  have hnorm := (carried_ts_next hpos hle h0 j).normalised_iff
  have hdvd : (1000000000 : ℤ) ∣ (ts_next delay_ns t0 (j + 1)).nanos ↔
      (1000000000 : ℤ) ∣ t0.tv_nsec + (j + 1 : ℕ) * delay_ns := by
    rw [hexact, nanos, add_assoc]
    exact Int.dvd_add_right (Int.dvd_mul_left ..)
  rw [← hdvd, ← hnorm]
  exact ⟨fun h ↦ h.normalised, fun h ↦ ⟨hexact, h, clock_nanosleep_abstime_eq_zero.mpr h⟩⟩

/-- Adding multiples of `d` to `n` meets a multiple of `m` exactly if the greatest common divisor of
`d` and `m` divides `n`. -/
theorem exists_dvd_add_mul_iff {n d m : ℤ} (hm : 0 < m) :
    (∃ k : ℕ, 1 ≤ k ∧ m ∣ n + k * d) ↔ (Int.gcd d m : ℤ) ∣ n := by
  constructor
  · rintro ⟨k, -, hdvd⟩
    have hsum : (Int.gcd d m : ℤ) ∣ n + k * d := (Int.gcd_dvd_right ..).trans hdvd
    have hmul : (Int.gcd d m : ℤ) ∣ k * d := (Int.gcd_dvd_left ..).mul_left _
    exact (Int.dvd_add_left hmul).mp hsum
  · rintro ⟨c, rfl⟩
    -- `k` is the coefficient of `d` in the divisor, negated and made positive modulo `m`
    set x := Int.gcdA d m * c with hx
    have hlo := Int.emod_nonneg x hm.ne'
    have hhi := Int.emod_lt_of_pos x hm
    refine ⟨(m - x % m).toNat, by omega, ?_⟩
    rw [Int.toNat_of_nonneg (by omega), Int.gcd_eq_gcd_ab]
    have hdiv : x % m = x - m * (x / m) := Int.emod_def x m
    refine ⟨Int.gcdB d m * c + (1 + x / m) * d, ?_⟩
    rw [hdiv]
    linear_combination (-d) * hx

/-- **The pace of a probe.** Each deadline is exact, and it is one the kernel accepts unless it is a
whole second; so all are if the greatest common divisor of the delay and a second does not divide the
nanoseconds of the start. -/
theorem paced_iff {delay_ns : ℤ} {t0 : Timespec} (hpos : 1 ≤ delay_ns)
    (hle : delay_ns ≤ 1000000000) (h0 : t0.Normalised) :
    (∀ k : ℕ, 1 ≤ k →
      (Paced delay_ns t0 k ↔ ¬(1000000000 : ℤ) ∣ t0.tv_nsec + k * delay_ns)) ∧
    ((∀ k : ℕ, 1 ≤ k → Paced delay_ns t0 k) ↔ ¬(Int.gcd delay_ns 1000000000 : ℤ) ∣ t0.tv_nsec) := by
  have hone : ∀ k : ℕ, 1 ≤ k →
      (Paced delay_ns t0 k ↔ ¬(1000000000 : ℤ) ∣ t0.tv_nsec + k * delay_ns) := by
    intro k hk
    exact paced_iff_not_dvd hpos hle h0 hk
  refine ⟨hone, ?_⟩
  rw [← exists_dvd_add_mul_iff (by norm_num)]
  push Not
  exact forall₂_congr hone

/-- The thousandth deadline from a start and with a delay that never meet a whole second. -/
theorem paced_millisecond : Paced 1000000 ⟨5, 1⟩ 1000 :=
  (paced_iff (by norm_num) (by norm_num) ⟨by norm_num, by norm_num⟩).2.mpr (by decide) 1000
    (by norm_num)

/-- A millisecond before a whole second, the next deadline is refused. -/
theorem not_paced_millisecond :
    Timespec.Normalised ⟨5, 999000000⟩ ∧ ts_next 1000000 ⟨5, 999000000⟩ 1 = ⟨5, 1000000000⟩ ∧
      clock_nanosleep_abstime (ts_next 1000000 ⟨5, 999000000⟩ 1) = 22 ∧
      ¬Paced 1000000 ⟨5, 999000000⟩ 1 :=
  ⟨⟨by decide, by decide⟩, by decide, by decide, fun h ↦ absurd h.sleeps (by decide)⟩

end ViTools.UdpTsSeqReply
