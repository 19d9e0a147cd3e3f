import Mathlib.Tactic.Ring
import Mathlib.Tactic.Linarith

/-!
# Times as seconds and nanoseconds

`struct timespec` and the two functions of the program that compute with it. The value of a time is
its number of nanoseconds. Subtraction is exact on values for any operands, normalised or not, and
of a normalised time the seconds and the whole milliseconds are the floors of its value.

Seconds are unbounded integers here. The clock values of `ClockTime` are in the range of `time_t`;
that their differences are too is taken for granted, as signed overflow has no meaning in C.
-/

namespace ViTools.UdpTsSeqReply

/-- `struct timespec`, with any values in its fields. -/
@[ext] structure Timespec where
  /-- Seconds. -/
  tv_sec : ℤ
  /-- Nanoseconds. -/
  tv_nsec : ℤ
  deriving DecidableEq, Inhabited

/-- The result of `timespec_diff`: the time from `start` to `stop`. -/
def timespec_diff (start stop : Timespec) : Timespec :=
  if stop.tv_nsec - start.tv_nsec < 0 then
    { tv_sec := stop.tv_sec - start.tv_sec - 1
      tv_nsec := stop.tv_nsec - start.tv_nsec + 1000000000 }
  else
    { tv_sec := stop.tv_sec - start.tv_sec
      tv_nsec := stop.tv_nsec - start.tv_nsec }

/-- Whole milliseconds; the divisions truncate. -/
def timespec_milli (q : Timespec) : ℤ := 1000 * q.tv_sec + (q.tv_nsec.tdiv 1000).tdiv 1000

namespace Timespec

/-- The value of a time in nanoseconds. -/
def nanos (t : Timespec) : ℤ := t.tv_sec * 1000000000 + t.tv_nsec

/-- The nanoseconds are less than a second, as a clock yields them. -/
structure Normalised (t : Timespec) : Prop where
  nonneg : 0 ≤ t.tv_nsec
  lt : t.tv_nsec < 1000000000

theorem tv_sec_eq {t : Timespec} (h : t.Normalised) : t.tv_sec = t.nanos / 1000000000 := by
  have h₁ := h.nonneg
  have h₂ := h.lt
  rw [nanos]
  omega

theorem milli_eq {t : Timespec} (h : t.Normalised) : timespec_milli t = t.nanos / 1000000 := by
  have h₁ := h.nonneg
  have h₂ := h.lt
  rw [timespec_milli, nanos, Int.tdiv_eq_ediv_of_nonneg h₁,
    Int.tdiv_eq_ediv_of_nonneg (Int.ediv_nonneg h₁ (by omega))]
  omega

end Timespec

open Timespec

/-- Subtraction is exact, whatever the operands. -/
theorem nanos_timespec_diff (start stop : Timespec) :
    (timespec_diff start stop).nanos = stop.nanos - start.nanos := by
  rw [timespec_diff]
  split <;> simp only [nanos] <;> ring

/-- One borrow is enough when the nanoseconds are less than a second apart. -/
theorem normalised_timespec_diff {start stop : Timespec}
    (hlo : start.tv_nsec - stop.tv_nsec ≤ 1000000000)
    (hhi : stop.tv_nsec - start.tv_nsec < 1000000000) :
    (timespec_diff start stop).Normalised := by
  rw [timespec_diff]
  split
  · exact ⟨by dsimp only; omega, by dsimp only; omega⟩
  · exact ⟨by dsimp only; omega, hhi⟩

theorem Timespec.Normalised.timespec_diff {start stop : Timespec} (h : start.Normalised)
    (h' : stop.Normalised) : (timespec_diff start stop).Normalised := by
  have h₁ := h.nonneg
  have h₂ := h.lt
  have h₁' := h'.nonneg
  have h₂' := h'.lt
  exact normalised_timespec_diff (by omega) (by omega)

/-- **Differences of times are exact in both directions**, and so are their milliseconds: the result is
normalised, even if the earlier time has a full second of nanoseconds or is not the earlier one. -/
theorem timespec_diff_exact :
    (∀ start stop : Timespec, stop.Normalised → 0 ≤ start.tv_nsec → start.tv_nsec ≤ 1000000000 →
      (timespec_diff start stop).Normalised ∧
        (timespec_diff start stop).nanos = stop.nanos - start.nanos ∧
        timespec_milli (timespec_diff start stop) = (stop.nanos - start.nanos) / 1000000) ∧
    (∀ a b c : Timespec, a.Normalised → b.Normalised → c.Normalised →
      (timespec_diff (timespec_diff a b) (timespec_diff a c)).Normalised ∧
        (timespec_diff (timespec_diff a b) (timespec_diff a c)).nanos = c.nanos - b.nanos ∧
        timespec_milli (timespec_diff (timespec_diff a b) (timespec_diff a c))
          = (c.nanos - b.nanos) / 1000000) := by
  constructor
  · intro start stop hstop hlo hhi
    have hnorm : (timespec_diff start stop).Normalised := by
      have h₁ := hstop.nonneg
      have h₂ := hstop.lt
      exact normalised_timespec_diff (by omega) (by omega)
    refine ⟨hnorm, nanos_timespec_diff start stop, ?_⟩
    rw [milli_eq hnorm, nanos_timespec_diff]
  · intro a b c ha hb hc
    have hnorm := (ha.timespec_diff hb).timespec_diff (ha.timespec_diff hc)
    have hnanos : (timespec_diff (timespec_diff a b) (timespec_diff a c)).nanos = c.nanos - b.nanos :=
      calc (timespec_diff (timespec_diff a b) (timespec_diff a c)).nanos
          = (timespec_diff a c).nanos - (timespec_diff a b).nanos := nanos_timespec_diff ..
        _ = (c.nanos - a.nanos) - (b.nanos - a.nanos) := by
          rw [nanos_timespec_diff, nanos_timespec_diff]
        _ = c.nanos - b.nanos := by ring
    refine ⟨hnorm, hnanos, ?_⟩
    rw [milli_eq hnorm, hnanos]

/-- From 7 s and a full second of nanoseconds back to 6.999999999 s it is -1001 ms, rounded down. -/
theorem timespec_diff_exact_full_second :
    timespec_diff ⟨7, 1000000000⟩ ⟨6, 999999999⟩ = ⟨-2, 999999999⟩ ∧
      timespec_milli (timespec_diff ⟨7, 1000000000⟩ ⟨6, 999999999⟩) = -1001 :=
  ⟨by decide, (timespec_diff_exact.1 ⟨7, 1000000000⟩ ⟨6, 999999999⟩ ⟨by decide, by decide⟩ (by decide)
    (by decide)).2.2.trans (by decide)⟩

/-! ## Clock values -/

/-- A value of `CLOCK_MONOTONIC`: normalised, with its seconds in the range of `time_t`. -/
structure ClockTime extends Timespec where
  /-- The nanoseconds are in range. -/
  normalised : toTimespec.Normalised
  /-- Seconds are a signed 64-bit number. -/
  sec_ge : -2 ^ 63 ≤ tv_sec
  /-- Seconds are a signed 64-bit number. -/
  sec_lt : tv_sec < 2 ^ 63

namespace ClockTime

@[ext] theorem ext {s t : ClockTime} (h : s.toTimespec = t.toTimespec) : s = t := by
  cases s
  cases t
  exact (mk.injEq ..).mpr h

instance : DecidableEq ClockTime := fun s t ↦
  decidable_of_iff (s.toTimespec = t.toTimespec) ⟨ext, congrArg _⟩

/-- A whole number of seconds. -/
def seconds (s : UInt32) : ClockTime where
  tv_sec := s.toNat
  tv_nsec := 0
  normalised := ⟨le_refl 0, Int.one_pos.trans (by decide)⟩
  sec_ge := by omega
  sec_lt := by have := s.toNat_lt; omega

/-- The time from `s` to `t` in nanoseconds. -/
def gap (s t : ClockTime) : ℤ := t.nanos - s.nanos

/-- The seconds of an age exceed 60 exactly from 61 seconds on. -/
theorem age_gt_iff (s t : ClockTime) :
    60 < (timespec_diff s.toTimespec t.toTimespec).tv_sec ↔ 61 * 1000000000 ≤ s.gap t := by
  rw [tv_sec_eq (s.normalised.timespec_diff t.normalised), nanos_timespec_diff, gap]
  omega

end ClockTime

end ViTools.UdpTsSeqReply
