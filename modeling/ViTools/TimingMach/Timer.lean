import ViTools.Lib.Run
import ViTools.UdpTsSeqReply.Time

/-!
# Interval timers

`timing_mach` gives a program a timer: `itimer_start` sets a target one step after the current time, and
`itimer_step` sleeps until the target and moves it along by a step. On POSIX systems the sleep is
`clock_nanosleep` with an absolute time. On macOS there is none, and it is put together from
`clock_gettime`, a subtraction that stops at zero and a relative `nanosleep`.

Either way a sleep that succeeds does not end before the target, so a timer is never early, and since the
target is moved from its own old value and not from the clock, it does not drift. Sleeps may fail or end
too late in any order.
-/

namespace ViTools.TimingMach

open UdpTsSeqReply UdpTsSeqReply.Timespec

/-! ## Arithmetic -/

/-- What a difference does with the differences of the fields. -/
def settle (ts_out : Timespec) : Timespec :=
  if ts_out.tv_sec < 0 then ⟨0, 0⟩
  else if ts_out.tv_nsec < 0 then
    if ts_out.tv_sec = 0 then ⟨0, 0⟩
    else ⟨ts_out.tv_sec - 1, ts_out.tv_nsec + 1000000000⟩
  else ts_out

/-- Right minus left: out = in - out. -/
def timespec_monodiff_rml (ts_out ts_in : Timespec) : Timespec :=
  settle ⟨ts_in.tv_sec - ts_out.tv_sec, ts_in.tv_nsec - ts_out.tv_nsec⟩

/-- out = in + out. -/
def timespec_monoadd (ts_out ts_in : Timespec) : Timespec :=
  if ts_out.tv_nsec + ts_in.tv_nsec ≥ 1000000000 then
    ⟨ts_out.tv_sec + ts_in.tv_sec + 1, ts_out.tv_nsec + ts_in.tv_nsec - 1000000000⟩
  else ⟨ts_out.tv_sec + ts_in.tv_sec, ts_out.tv_nsec + ts_in.tv_nsec⟩

/-- The difference of two normalised times, or zero if it is negative. -/
theorem settle_spec {a b : Timespec} (ha : a.Normalised) (hb : b.Normalised) :
    (settle ⟨a.tv_sec - b.tv_sec, a.tv_nsec - b.tv_nsec⟩).Normalised ∧
      (settle ⟨a.tv_sec - b.tv_sec, a.tv_nsec - b.tv_nsec⟩).nanos = max 0 (a.nanos - b.nanos) := by
  have ha0 := ha.nonneg
  have ha1 := ha.lt
  have hb0 := hb.nonneg
  have hb1 := hb.lt
  have hzero : Normalised ⟨0, 0⟩ := ⟨le_refl 0, by decide⟩
  rw [settle]
  dsimp only
  split
  · refine ⟨hzero, ?_⟩
    simp only [nanos]
    omega
  · split
    · split
      · refine ⟨hzero, ?_⟩
        simp only [nanos]
        omega
      · refine ⟨⟨by dsimp only; omega, by dsimp only; omega⟩, ?_⟩
        simp only [nanos]
        omega
    · refine ⟨⟨by dsimp only; omega, by dsimp only; omega⟩, ?_⟩
      simp only [nanos]
      omega

theorem nanos_monoadd (a b : Timespec) : (timespec_monoadd a b).nanos = a.nanos + b.nanos := by
  rw [timespec_monoadd]
  split <;> simp only [nanos] <;> ring

/-- The carry is made at a whole second, so the sum of normalised times is normalised. -/
theorem normalised_monoadd {a b : Timespec} (ha : a.Normalised) (hb : b.Normalised) :
    (timespec_monoadd a b).Normalised := by
  have ha0 := ha.nonneg
  have ha1 := ha.lt
  have hb0 := hb.nonneg
  have hb1 := hb.lt
  rw [timespec_monoadd]
  split
  · exact ⟨by dsimp only; omega, by dsimp only; omega⟩
  · exact ⟨by dsimp only; omega, by dsimp only; omega⟩

/-! ## The kernel -/

/-- What the kernel does during a call. -/
structure Kernel where
  /-- The time before the call. -/
  idle : ℕ
  /-- What `clock_gettime` returns. -/
  clock : ℤ
  /-- The time between reading the clock and going to sleep. -/
  between : ℕ
  /-- When a signal arrives, after going to sleep. -/
  signal : Option ℕ
  /-- How much too long the sleep takes. -/
  late : ℕ

/-- The value of `CLOCK_MONOTONIC`, by its nanoseconds. -/
def reading (now : ℕ) : Timespec := ⟨now / 1000000000, now % 1000000000⟩

/-- A sleep of some nanoseconds: whether a signal ended it, and when it ended. -/
def nap (now delay : ℕ) (k : Kernel) : Bool × ℕ :=
  match k.signal with
  | none => (false, now + delay + k.late)
  | some d => if d < delay then (true, now + d) else (false, now + delay + k.late)

/-- An interval or a time the kernel takes. -/
def Takes (t : Timespec) : Prop := 0 ≤ t.tv_sec ∧ 0 ≤ t.tv_nsec ∧ t.tv_nsec < 1000000000

instance (t : Timespec) : Decidable (Takes t) := inferInstanceAs (Decidable (_ ∧ _ ∧ _))

/-- `clock_nanosleep` with `TIMER_ABSTIME` returns an error number: `EINVAL` is 22 and `EINTR` is 4. -/
def clock_nanosleep (now : ℕ) (req : Timespec) (k : Kernel) : ℤ × ℕ :=
  if Takes req then
    let (interrupted, now) := nap now (req.nanos - now).toNat k
    (if interrupted then 4 else 0, now)
  else (22, now)

/-- `nanosleep` returns -1 for an error. -/
def nanosleep (now : ℕ) (req : Timespec) (k : Kernel) : ℤ × ℕ :=
  if Takes req then
    let (interrupted, now) := nap now req.nanos.toNat k
    (if interrupted then -1 else 0, now)
  else (-1, now)

/-- The two systems the header is for. -/
inductive Platform
  | POSIX
  | MACH

/-- What is returned, and when. -/
def clock_nanosleep_abstime (p : Platform) (now : ℕ) (req : Timespec) (k : Kernel) : ℤ × ℕ :=
  match p with
  | .POSIX => clock_nanosleep now req k
  | .MACH =>
    if k.clock = 0 then
      let ts_delta := timespec_monodiff_rml (reading now) req
      nanosleep (now + k.between) ts_delta k
    else (k.clock, now)

theorem reading_spec (now : ℕ) : (reading now).Normalised ∧ (reading now).nanos = now := by
  refine ⟨⟨?_, ?_⟩, ?_⟩ <;> simp only [reading, nanos] <;> omega

theorem nap_spec (now delay : ℕ) (k : Kernel) :
    now ≤ (nap now delay k).2 ∧ ((nap now delay k).1 = false → now + delay ≤ (nap now delay k).2) := by
  rw [nap]
  cases k.signal with
  | none => exact ⟨by dsimp only; omega, fun _ ↦ by dsimp only; omega⟩
  | some d =>
    dsimp only
    split
    · exact ⟨Nat.le_add_right now d, fun h ↦ absurd h (Bool.false_ne_true ∘ Eq.symm)⟩
    · exact ⟨by dsimp only; omega, fun _ ↦ by dsimp only; omega⟩

/-- **Sleeping until a time.** On both systems the clock does not go back, and a sleep that succeeds does
not end before the time. -/
theorem clock_nanosleep_abstime_spec (p : Platform) (now : ℕ) {req : Timespec} (hreq : req.Normalised)
    (k : Kernel) :
    now ≤ (clock_nanosleep_abstime p now req k).2 ∧
      ((clock_nanosleep_abstime p now req k).1 = 0 →
        req.nanos ≤ (clock_nanosleep_abstime p now req k).2) := by
  cases p with
  | POSIX =>
    rw [clock_nanosleep_abstime, clock_nanosleep]
    split
    · obtain ⟨hforward, hawake⟩ := nap_spec now (req.nanos - now).toNat k
      refine ⟨hforward, fun h ↦ ?_⟩
      have hslept := hawake (Bool.eq_false_of_not_eq_true fun hint ↦ by
        dsimp only at h
        rw [hint] at h
        exact absurd h (by decide))
      dsimp only
      omega
    · exact ⟨le_refl now, fun h ↦ absurd h (show ¬(22 : ℤ) = 0 by decide)⟩
  | MACH =>
    rw [clock_nanosleep_abstime]
    split
    · obtain ⟨hnorm, hnanos⟩ := reading_spec now
      have hdelta := (settle_spec hreq hnorm).2
      rw [← timespec_monodiff_rml, hnanos] at hdelta
      dsimp only
      rw [nanosleep]
      split
      · obtain ⟨hforward, hawake⟩ := nap_spec (now + k.between)
          (timespec_monodiff_rml (reading now) req).nanos.toNat k
        refine ⟨(Nat.le_add_right now k.between).trans hforward, fun h ↦ ?_⟩
        have hslept := hawake (Bool.eq_false_of_not_eq_true fun hint ↦ by
          dsimp only at h
          rw [hint] at h
          exact absurd h (by decide))
        dsimp only
        omega
      · exact ⟨Nat.le_add_right now k.between, fun h ↦ absurd h (show ¬(-1 : ℤ) = 0 by decide)⟩
    · next hclock => exact ⟨le_refl now, fun h ↦ absurd h hclock⟩

/-! ## Timers -/

/-- The time and the target of a timer. -/
structure Timer where
  /-- The time. -/
  now : ℕ
  /-- The target. -/
  ts_target : Timespec

/-- Sets the target to a step after the current time. -/
def itimer_start (now : ℕ) (k : Kernel) (ts_target ts_step : Timespec) : ℤ × Timer :=
  if k.clock = 0 then (0, ⟨now, timespec_monoadd (reading now) ts_step⟩)
  else (k.clock, ⟨now, ts_target⟩)

/-- Sleeps until the target and then moves it along. -/
def itimer_step (p : Platform) (t : Timer) (k : Kernel) (ts_step : Timespec) : ℤ × Timer :=
  let (retval, now) := clock_nanosleep_abstime p (t.now + k.idle) t.ts_target k
  if retval = 0 then (retval, ⟨now, timespec_monoadd t.ts_target ts_step⟩)
  else (retval, ⟨now, t.ts_target⟩)

/-- One call of `itimer_step`, with what it returns and when. -/
def step (p : Platform) (ts_step : Timespec) (t : Timer) (k : Kernel) : Option ((ℤ × ℕ) × Timer) :=
  let (retval, t) := itimer_step p t k ts_step
  some ((retval, t.now), t)

theorem step_eq (p : Platform) (ts_step : Timespec) (t : Timer) (k : Kernel) :
    step p ts_step t k = some (((itimer_step p t k ts_step).1, (itimer_step p t k ts_step).2.now),
      (itimer_step p t k ts_step).2) := rfl

/-- How many of the calls succeeded. -/
def ticks (calls : List (ℤ × ℕ)) : ℕ := calls.countP fun c ↦ c.1 = 0

/-- What a call does, on both systems. -/
theorem itimer_step_spec (p : Platform) {t : Timer} (k : Kernel) {ts_step : Timespec}
    (hstep : ts_step.Normalised) (ht : t.ts_target.Normalised) :
    (itimer_step p t k ts_step).2.ts_target.Normalised ∧ t.now ≤ (itimer_step p t k ts_step).2.now ∧
      (((itimer_step p t k ts_step).1 = 0 ∧
          t.ts_target.nanos ≤ (itimer_step p t k ts_step).2.now ∧
          (itimer_step p t k ts_step).2.ts_target.nanos = t.ts_target.nanos + ts_step.nanos) ∨
        ((itimer_step p t k ts_step).1 ≠ 0 ∧
          (itimer_step p t k ts_step).2.ts_target = t.ts_target)) := by
  obtain ⟨hforward, hawake⟩ := clock_nanosleep_abstime_spec p (t.now + k.idle) ht k
  have hnow := (Nat.le_add_right t.now k.idle).trans hforward
  rw [itimer_step]
  dsimp only
  split
  · next h => exact ⟨normalised_monoadd ht hstep, hnow, .inl ⟨h, hawake h, nanos_monoadd _ _⟩⟩
  · next h => exact ⟨ht, hnow, .inr ⟨h, rfl⟩⟩

/-- A run of calls from any target. -/
theorem steps_spec (p : Platform) {ts_step : Timespec} (hstep : ts_step.Normalised) {t t' : Timer}
    {ks : List Kernel} {calls : List (ℤ × ℕ)} (ht : t.ts_target.Normalised)
    (hrun : transduce (step p ts_step) t ks = some (calls, t')) :
    t'.ts_target.Normalised ∧
      t'.ts_target.nanos = t.ts_target.nanos + ticks calls * ts_step.nanos ∧
      ∀ before c after, calls = before ++ c :: after → c.1 = 0 →
        t.ts_target.nanos + ticks before * ts_step.nanos ≤ c.2 := by
  induction ks generalizing t calls with
  | nil =>
    cases hrun
    refine ⟨ht, by simp [ticks], fun before c after h ↦ ?_⟩
    exact absurd h.symm (List.append_ne_nil_of_right_ne_nil _ (List.cons_ne_nil _ _))
  | cons k ks ih =>
    obtain ⟨o, t₁, calls', hone, hrest, rfl⟩ := transduce_cons_eq_some.mp hrun
    have hspec := itimer_step_spec p k hstep ht
    rw [step_eq] at hone
    generalize itimer_step p t k ts_step = r at hspec hone
    obtain ⟨rfl, rfl⟩ := Prod.mk.inj (Option.some.inj hone)
    obtain ⟨hnorm, -, hcase⟩ := hspec
    obtain ⟨hnorm', htarget, hearly⟩ := ih hnorm hrest
    -- the target has moved by a step exactly if the first call succeeded
    have hmoved : r.2.ts_target.nanos
        = t.ts_target.nanos + ticks [(r.1, r.2.now)] * ts_step.nanos := by
      rcases hcase with ⟨hok, -, hnext⟩ | ⟨hfail, hsame⟩
      · rw [hnext, ticks, List.countP_singleton, if_pos (decide_eq_true hok), Nat.cast_one, one_mul]
      · rw [hsame, ticks, List.countP_singleton, if_neg (by simpa using hfail), Nat.cast_zero, zero_mul,
          add_zero]
    have hticks : ∀ l, ticks ((r.1, r.2.now) :: l) = ticks [(r.1, r.2.now)] + ticks l :=
      fun l ↦ (List.countP_append : List.countP _ ([(r.1, r.2.now)] ++ l) = _)
    refine ⟨hnorm', ?_, fun before c after hsplit hok ↦ ?_⟩
    · rw [htarget, hmoved, hticks calls']
      push_cast
      ring
    · rcases List.cons_eq_append_iff.mp hsplit with ⟨rfl, hhead⟩ | ⟨before', rfl, htail⟩
      · cases hhead
        rcases hcase with ⟨-, hawake, -⟩ | ⟨hfail, -⟩
        · simpa [ticks] using hawake
        · exact absurd hok hfail
      · have h := hearly before' c after htail hok
        rw [hmoved] at h
        rw [hticks before']
        push_cast
        linarith

/-- **Timers do not drift and are never early.** After a start at time `t0` and any calls of
`itimer_step`, of which some fail and some end late, the target is the start and one more step than calls
that succeeded, on both systems. The call that succeeds after `n` others ends no earlier than `n + 1` steps
after the start. -/
theorem itimer_exact (p : Platform) {ts_step : Timespec} (hstep : ts_step.Normalised) (t0 : ℕ) {k : Kernel}
    (hclock : k.clock = 0) (ts_target : Timespec) (ks : List Kernel) :
    ∃ calls t, transduce (step p ts_step) (itimer_start t0 k ts_target ts_step).2 ks = some (calls, t) ∧
      t.ts_target.Normalised ∧ t.ts_target.nanos = t0 + (ticks calls + 1) * ts_step.nanos ∧
      ∀ before c after, calls = before ++ c :: after → c.1 = 0 →
        t0 + (ticks before + 1) * ts_step.nanos ≤ c.2 := by
  have htotal : ∀ (t : Timer) (l : List Kernel), ∃ calls t', transduce (step p ts_step) t l = some (calls, t') := by
    intro t l
    induction l generalizing t with
    | nil => exact ⟨[], t, rfl⟩
    | cons k l ih =>
      obtain ⟨calls, t', hrest⟩ := ih (itimer_step p t k ts_step).2
      exact ⟨_, t', transduce_cons_eq_some.mpr ⟨_, _, calls, step_eq p ts_step t k, hrest, rfl⟩⟩
  obtain ⟨calls, t, hrun⟩ := htotal (itimer_start t0 k ts_target ts_step).2 ks
  obtain ⟨hnorm, hnanos⟩ := reading_spec t0
  have hstart : (itimer_start t0 k ts_target ts_step).2.ts_target = timespec_monoadd (reading t0) ts_step := by
    rw [itimer_start, if_pos hclock]
  have hruns := steps_spec p hstep (by rw [hstart]; exact normalised_monoadd hnorm hstep) hrun
  rw [hstart, nanos_monoadd, hnanos] at hruns
  obtain ⟨hnorm', htarget, hearly⟩ := hruns
  refine ⟨calls, t, hrun, hnorm', ?_, fun before c after hsplit hok ↦ ?_⟩
  · rw [htarget]
    ring
  · have h := hearly before c after hsplit hok
    linarith

/-- The clock is read at 1.9 s; of three calls the second is interrupted, and the timer has ticked twice. -/
theorem itimer_exact_interrupted : ∃ calls t,
    transduce (step .MACH ⟨0, 500000000⟩)
        (itimer_start 1900000000 ⟨0, 0, 0, none, 0⟩ ⟨0, 0⟩ ⟨0, 500000000⟩).2
        [⟨0, 0, 7, none, 5⟩, ⟨0, 0, 7, some 10, 5⟩, ⟨0, 0, 7, none, 5⟩] = some (calls, t) ∧
      ticks calls = 2 ∧ t.ts_target.nanos = 3400000000 := by
  have hstep : Normalised ⟨0, 500000000⟩ := ⟨by decide, by decide⟩
  obtain ⟨calls, t, hrun, -, htarget, -⟩ := itimer_exact .MACH hstep 1900000000 (k := ⟨0, 0, 0, none, 0⟩) rfl ⟨0, 0⟩
    [⟨0, 0, 7, none, 5⟩, ⟨0, 0, 7, some 10, 5⟩, ⟨0, 0, 7, none, 5⟩]
  have hticks : ticks calls = 2 := by
    have hcalls := congrArg (Option.map fun c ↦ ticks c.1) hrun
    exact (Option.some.inj hcalls).symm.trans (by decide +kernel)
  refine ⟨calls, t, hrun, hticks, ?_⟩
  rw [htarget, hticks]
  decide

end ViTools.TimingMach
