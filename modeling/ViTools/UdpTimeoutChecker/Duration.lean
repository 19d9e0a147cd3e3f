import Mathlib.Algebra.BigOperators.Intervals
import Mathlib.Algebra.Order.BigOperators.Group.Finset
import Mathlib.Data.List.GetD
import ViTools.UdpTimeoutChecker.Measurement

/-!
# How long a probe takes

A call of `try` with `n` seconds waits for two replies, for `n + 2` seconds at most each. How often it is
called depends on the outcomes. The dearest ones are those in which every number fails twice before it
succeeds, up to 512, which fails three times; then everything else succeeds, so that the bisection stays as
high as it can.

The first loop pays three times for each power of two at most. Bisection pays for one number in each half
of what is left, and a failure there makes all the later ones cheaper.

A network can bring this about: it delays every reply until just before the client gives up, and loses the
second one where the call is to fail.
-/

namespace ViTools.UdpTimeoutChecker

open Finset

/-! ## The cost of an experiment -/

section Cost

variable {w : ℕ → ℕ} {outcomes : Outcomes}

/-- Three calls for each number while doubling. -/
theorem cost_phase1 {fuel k num_fails : ℕ} {calls doubling : Calls} {exit : Exit} (hk : k ≤ 9)
    (hfails : num_fails < 3)
    (hrun : phase1 outcomes fuel (2 ^ k) num_fails calls = some (exit, doubling)) :
    ∃ j, k ≤ j ∧ j ≤ 9 ∧ (exit = .returned 512 ∨ exit = .broke (2 ^ j)) ∧
      cost w doubling + num_fails * w (2 ^ k)
        ≤ cost w calls + 3 * ∑ i ∈ Ico k (j + 1), w (2 ^ i) := by
  induction fuel generalizing k num_fails calls with
  | zero => cases hrun
  | succ fuel ih =>
    have hone : ∑ i ∈ Ico k (k + 1), w (2 ^ i) = w (2 ^ k) := by
      rw [Nat.Ico_succ_singleton, sum_singleton]
    have hpaid : num_fails * w (2 ^ k) ≤ 2 * w (2 ^ k) := Nat.mul_le_mul_right _ (by omega)
    rw [phase1_succ] at hrun
    split at hrun
    · split at hrun
      · next htop =>
        cases hrun
        have hpow : 2 ^ k ≤ 512 := Nat.pow_le_pow_right (n := 2) (j := 9) (by decide) hk
        refine ⟨k, le_refl k, hk, .inl (congrArg Exit.returned (le_antisymm hpow htop)), ?_⟩
        rw [cost_concat, hone]
        omega
      · next htop =>
        have hlt : k < 9 := by
          by_contra hge
          exact htop (Nat.pow_le_pow_right (n := 2) (by decide) (not_lt.mp hge))
        rw [← pow_succ] at hrun
        obtain ⟨j, hkj, hj, hexit, hcost⟩ := ih (k := k + 1) hlt (by decide) hrun
        refine ⟨j, (Nat.le_succ k).trans hkj, hj, hexit, ?_⟩
        rw [cost_concat] at hcost
        rw [sum_eq_sum_Ico_succ_bot (by omega)]
        omega
    · split at hrun
      · next hthird =>
        cases hrun
        refine ⟨k, le_refl k, hk, .inr rfl, ?_⟩
        rw [cost_concat, hone]
        omega
      · next hthird =>
        obtain ⟨j, hkj, hj, hexit, hcost⟩ := ih hk (by omega) hrun
        refine ⟨j, hkj, hj, hexit, ?_⟩
        rw [cost_concat, Nat.add_one_mul] at hcost
        omega

/-- One call for each half while bisecting, below the upper end. -/
theorem cost_phase2 (hw : Monotone w) {j fuel min_to r : ℕ} {calls calls' : Calls}
    (hrun : phase2 outcomes fuel min_to (min_to + 2 ^ (j + 1)) calls = some (r, calls')) :
    cost w calls' ≤ cost w calls + ∑ i ∈ range j, w (min_to + 2 ^ (j + 1) - 2 ^ (i + 1)) := by
  induction j generalizing fuel min_to calls with
  | zero =>
    cases fuel with
    | zero => cases hrun
    | succ fuel =>
      rw [phase2_succ, if_pos (by omega)] at hrun
      cases hrun
      exact Nat.le_add_right _ _
  | succ j ih =>
    cases fuel with
    | zero => cases hrun
    | succ fuel =>
      have hwidth : 2 ≤ 2 ^ (j + 1) := Nat.le_self_pow (Nat.succ_ne_zero j) 2
      have hdouble : 2 ^ (j + 1 + 1) = 2 ^ (j + 1) + 2 ^ (j + 1) := by rw [pow_succ, mul_two]
      have hcandidate : (min_to + (min_to + 2 ^ (j + 1 + 1))) / 2 = min_to + 2 ^ (j + 1) := by omega
      have hfirst : min_to + 2 ^ (j + 1 + 1) - 2 ^ (j + 1) = min_to + 2 ^ (j + 1) := by omega
      rw [phase2_succ, if_neg (by omega), hcandidate] at hrun
      rw [sum_range_succ, hfirst]
      split at hrun
      · rw [hdouble, ← add_assoc] at hrun
        have hcost := ih hrun
        rw [cost_concat, add_assoc min_to, ← hdouble] at hcost
        omega
      · have hcost := ih hrun
        have hlower : ∑ i ∈ range j, w (min_to + 2 ^ (j + 1) - 2 ^ (i + 1)) ≤
            ∑ i ∈ range j, w (min_to + 2 ^ (j + 1 + 1) - 2 ^ (i + 1)) :=
          sum_le_sum fun i _ ↦ hw (by omega)
        rw [cost_concat] at hcost
        omega

/-- The dearest experiment. -/
def dearest (w : ℕ → ℕ) : ℕ := 3 * ∑ i ∈ Ico 0 10, w (2 ^ i) + ∑ i ∈ range 7, w (512 - 2 ^ (i + 1))

/-- The sums of an experiment that stops at a lower power of two are smaller. -/
theorem le_dearest (hw : Monotone w) {j m : ℕ} (hj : j ≤ 9) (hm : m ≤ 7) :
    3 * ∑ i ∈ Ico 0 (j + 1), w (2 ^ i) + ∑ i ∈ range m, w (2 ^ j - 2 ^ (i + 1)) ≤ dearest w := by
  have hdoubling : ∑ i ∈ Ico 0 (j + 1), w (2 ^ i) ≤ ∑ i ∈ Ico 0 10, w (2 ^ i) :=
    sum_le_sum_of_subset (Ico_subset_Ico_right (by omega))
  have hpow : 2 ^ j ≤ 512 := Nat.pow_le_pow_right (n := 2) (j := 9) (by decide) hj
  have hbisection : ∑ i ∈ range m, w (2 ^ j - 2 ^ (i + 1)) ≤ ∑ i ∈ range 7, w (512 - 2 ^ (i + 1)) :=
    calc ∑ i ∈ range m, w (2 ^ j - 2 ^ (i + 1))
        ≤ ∑ i ∈ range m, w (512 - 2 ^ (i + 1)) := sum_le_sum fun i _ ↦ hw (by omega)
      _ ≤ ∑ i ∈ range 7, w (512 - 2 ^ (i + 1)) :=
        sum_le_sum_of_subset (range_subset_range.mpr hm)
  rw [dearest]
  omega

/-- **The cost of an experiment**, if a call with more seconds costs more. -/
theorem cost_one_experiment (hw : Monotone w) {fuel r : ℕ} {calls : Calls}
    (hrun : one_experiment outcomes fuel = some (r, calls)) : cost w calls ≤ dearest w := by
  rw [one_experiment] at hrun
  obtain ⟨⟨exit, doubling⟩, hphase1, hrest⟩ := Option.bind_eq_some_iff.mp hrun
  obtain ⟨j, -, hj, hexit, hcost⟩ := cost_phase1 (w := w) (k := 0) (by decide) (by decide) hphase1
  have hdoubling : cost w doubling ≤ 3 * ∑ i ∈ Ico 0 (j + 1), w (2 ^ i) := by
    rw [Nat.zero_mul, Nat.add_zero] at hcost
    exact hcost.trans_eq (Nat.zero_add _)
  rcases hexit with rfl | rfl
  · cases hrest
    have hle := le_dearest hw hj (Nat.zero_le 7)
    omega
  · dsimp only at hrest
    split at hrest
    · cases hrest
      have hle := le_dearest hw hj (Nat.zero_le 7)
      omega
    · next hone =>
      obtain ⟨k, rfl⟩ : ∃ k, j = k + 1 := Nat.exists_eq_succ_of_ne_zero fun h ↦ hone (by rw [h, pow_zero])
      have hhalf : 2 ^ (k + 1) / 2 = 2 ^ k := by rw [pow_succ, Nat.mul_div_cancel _ (by decide)]
      rw [hhalf] at hrest
      cases k with
      | zero =>
        -- there is nothing between 1 and 2
        cases fuel with
        | zero => cases hrest
        | succ fuel =>
          rw [phase2_succ, if_pos (by decide)] at hrest
          cases hrest
          have hle := le_dearest hw hj (Nat.zero_le 7)
          omega
      | succ i =>
        have hdouble : 2 ^ (i + 1 + 1) = 2 ^ (i + 1) + 2 ^ (i + 1) := by rw [pow_succ, mul_two]
        rw [hdouble] at hrest
        have hbisection := cost_phase2 hw hrest
        rw [← hdouble] at hbisection
        have hle := le_dearest hw hj (show i ≤ 7 by omega)
        omega

end Cost

/-! ## The duration -/

/-- For how many seconds a call of `try` waits at most. -/
def waits_for (seconds : ℕ) : ℕ := 2 * (seconds + 2)

theorem waits_for_mono : Monotone waits_for := fun _ _ h ↦ Nat.mul_le_mul_left 2 (Nat.add_le_add_right h 2)

theorem dearest_waits_for : dearest waits_for = 12946 := by decide

/-- A receive timeout bounds the time in `recv`, whatever is in the socket. -/
theorem now_recv_le (timeout : ℕ) (h : Host) : (recv timeout h).2.now ≤ h.now + timeout := by
  rw [recv]
  split
  · exact le_refl _
  · split
    · next hle => exact max_le (Nat.le_add_right _ _) hle
    · exact le_refl _

theorem now_await_le (timeout : ℕ) (h : Host) : (await timeout h).2.now ≤ h.now + 2 * timeout := by
  have hfirst := now_recv_le timeout h
  have hsecond := now_recv_le timeout (recv timeout h).2
  rw [await]
  split
  · dsimp only
    omega
  · split
    · dsimp only
      omega
    · dsimp only
      omega

theorem now_try_call_le (r : Translator) (w : Weather) (number seconds : ℕ) (h : Host) :
    (try_call r w number seconds h).2.now ≤ h.now + w.idle + waits_for seconds * 1000000000 := by
  rw [try_call, waits_for, Nat.mul_assoc]
  exact now_await_le _ _

/-- Calls one after the other. -/
theorem now_replay_le {r : Translator} {w : ℕ → Weather} {idle : ℕ} (hidle : ∀ k, (w k).idle ≤ idle)
    (calls : Calls) (k : ℕ) (h : Host) :
    (replay r w k h calls).now ≤ h.now + calls.length * idle + cost waits_for calls * 1000000000 := by
  induction calls generalizing k h with
  | nil => exact (Nat.le_add_right _ _).trans (Nat.le_add_right _ _)
  | cons c calls ih =>
    have hcall := now_try_call_le r (w k) k c.1 h
    have hrest := ih (k + 1) (try_call r (w k) k c.1 h).2
    have hk := hidle k
    rw [replay, cost_cons, List.length_cons, Nat.add_one_mul, Nat.add_mul]
    omega

/-! ## A network that takes all the time -/

/-- The first reply takes `b` from the server to the translator, and the second one takes `a` or is lost. -/
def held (b : ℕ) (a : Option ℕ) : Weather where
  idle := 0
  out := some 0
  onward := some 0
  late1 := 0
  backB := some b
  inB := some 0
  late2 := 0
  backA := a
  inA := some 0

/-- The first reply comes when the client is about to give up, and so does the second one, or it is lost. -/
def sluggish (seconds : ℕ) (ok : Bool) : Weather :=
  held ((seconds + 2) * 1000000000) (if ok then some ((seconds + 4) * 1000000000) else none)

/-- A translator that outlasts any call. -/
def patient : Translator := ⟨514000000000, true⟩

theorem arrivals_held {r : Translator} (hinbound : r.inbound = true) {seconds n b : ℕ} {a : Option ℕ}
    (hserve : serve1 (request seconds) = some ⟨0, n⟩) (hopen : b ≤ r.timeout)
    (hstill : ∀ d ∈ a, b ≤ n + d ∧ n + d ≤ b + r.timeout) (number since : ℕ) :
    arrivals r (held b a) number seconds since = (since + b, ⟨Letter.B.text, number, since⟩) ::
      (a.map fun d ↦ (since + n + d, ⟨Letter.A.text, number, since + n⟩)).toList := by
  rw [arrivals, held]
  dsimp only
  rw [hserve]
  cases a with
  | none => simp [sent, Translator.deliver, Translator.pass, hopen]
  | some d =>
    obtain ⟨hle, hlast⟩ := hstill d rfl
    have hsorted : since + b ≤ since + n + d := by omega
    have hpass : since + n + d ≤ since + b + r.timeout := by omega
    simp [sent, Translator.deliver, Translator.pass, hinbound, hopen, hsorted, hpass]

/-- A call whose replies come at the end of its two timeouts of `b`. -/
theorem try_call_held {r : Translator} (hinbound : r.inbound = true) {seconds n b : ℕ} {a : Option ℕ}
    (hserve : serve1 (request seconds) = some ⟨0, n⟩) (hb : (seconds + 2) * 1000000000 = b)
    (hopen : b ≤ r.timeout) (ha : ∀ d ∈ a, n + d = b + b) (number now : ℕ) :
    (try_call r (held b a) number seconds ⟨now, []⟩).2 = ⟨now + (b + b), []⟩ ∧
      decide ((try_call r (held b a) number seconds ⟨now, []⟩).1.code = 0) = a.isSome := by
  have hstill : ∀ d ∈ a, b ≤ n + d ∧ n + d ≤ b + r.timeout := by
    intro d hd
    have hsum := ha d hd
    omega
  rw [try_call, hb, arrivals_held hinbound hserve hopen hstill, List.nil_append,
    show (held b a).idle = 0 from rfl]
  dsimp only
  rw [Nat.add_zero]
  cases a with
  | none =>
    rw [Option.map_none, Option.toList_none, List.insertionSort_cons, List.insertionSort_nil,
      List.orderedInsert_nil, await, recv_cons (le_refl _)]
    dsimp only
    rw [check_reply_text rfl]
    dsimp only
    rw [recv]
    refine ⟨congrArg (Host.mk · []) ?_, rfl⟩
    dsimp only
    omega
  | some d =>
    have hsum := ha d rfl
    have hsorted : now + b ≤ now + n + d := by omega
    have hlast : now + n + d ≤ max now (now + b) + b := by omega
    rw [Option.map_some, Option.toList_some, List.insertionSort_cons, List.insertionSort_cons,
      List.insertionSort_nil, List.orderedInsert_nil, List.orderedInsert_cons, if_pos hsorted, await,
      recv_cons (le_refl _)]
    dsimp only
    rw [check_reply_text rfl]
    dsimp only
    rw [recv_cons hlast, check_reply_text rfl]
    refine ⟨congrArg (Host.mk · []) ?_, rfl⟩
    omega

/-- A call there takes all its time, and it ends as it is to. -/
theorem try_call_sluggish {seconds : ℕ} (hmax : seconds ≤ 512) (ok : Bool) (number now : ℕ) :
    (try_call patient (sluggish seconds ok) number seconds ⟨now, []⟩).2 =
        ⟨now + waits_for seconds * 1000000000, []⟩ ∧
      decide ((try_call patient (sluggish seconds ok) number seconds ⟨now, []⟩).1.code = 0) = ok := by
  have hserve : serve1 (request seconds) = some ⟨0, seconds * 1000000000⟩ := by
    rw [serve1_request (by omega), if_neg (by omega)]
  have hopen : (seconds + 2) * 1000000000 ≤ patient.timeout :=
    Nat.mul_le_mul_right 1000000000 (show seconds + 2 ≤ 514 by omega)
  have ha : ∀ d ∈ (if ok then some ((seconds + 4) * 1000000000) else none),
      seconds * 1000000000 + d = (seconds + 2) * 1000000000 + (seconds + 2) * 1000000000 := by
    intro d hd
    obtain ⟨-, heq⟩ := Option.ite_none_right_eq_some.mp hd
    cases heq
    ring
  have htwice : (seconds + 2) * 1000000000 + (seconds + 2) * 1000000000 = waits_for seconds * 1000000000 := by
    rw [waits_for]
    ring
  obtain ⟨hhost, hcode⟩ := try_call_held rfl hserve rfl hopen ha number now
  rw [htwice] at hhost
  refine ⟨hhost, hcode.trans ?_⟩
  cases ok <;> rfl

/-- The weather in which the calls go as planned. -/
def planned (plan : Calls) (k : ℕ) : Weather := sluggish (plan.getD k (0, false)).1 (plan.getD k (0, false)).2

section Planned

variable {plan : Calls} (hplan : ∀ c ∈ plan, c.1 ≤ 512)
include hplan

/-- Part of the plan. -/
theorem replay_planned (calls : Calls) : ∀ (before after : Calls) (now : ℕ), plan = before ++ calls ++ after →
    replay patient (planned plan) before.length ⟨now, []⟩ calls =
      ⟨now + cost waits_for calls * 1000000000, []⟩ := by
  induction calls with
  | nil =>
    intro before after now _
    rw [replay, cost, List.foldr_nil, Nat.zero_mul, Nat.add_zero]
  | cons c calls ih =>
    rintro before after now heq
    have hget : plan.getD before.length (0, false) = c := by
      rw [heq, List.append_assoc, List.getD_append_right _ _ _ _ (le_refl _), Nat.sub_self]
      rfl
    have hmax : c.1 ≤ 512 := hplan c (by rw [heq]; simp)
    have hrest := ih (before ++ [c]) after (now + waits_for c.1 * 1000000000)
      (by rw [heq]; simp)
    rw [List.length_append, List.length_singleton] at hrest
    rw [replay, planned, hget, (try_call_sluggish hmax c.2 _ now).1, hrest, cost_cons, Nat.add_mul,
      Nat.add_assoc]

theorem recorded_planned (now : ℕ) : Recorded (outcomes patient (planned plan) ⟨now, []⟩) plan := by
  intro p x b l heq
  have hget : plan.getD p.length (0, false) = (x, b) := by
    rw [heq, List.getD_append_right _ _ _ _ (le_refl _), Nat.sub_self]
    rfl
  have hmax : x ≤ 512 := hplan (x, b) (by rw [heq]; simp)
  have hbefore := replay_planned hplan p [] ((x, b) :: l) now heq
  rw [List.length_nil] at hbefore
  rw [outcomes, hbefore, planned, hget]
  exact (try_call_sluggish hmax b _ _).2.symm

end Planned

/-- **Every course of an experiment can take all its time**, whatever the outcomes of its calls are. -/
theorem experiment_planned {f : Outcomes} {fuel r : ℕ} {calls : Calls}
    (hrun : one_experiment f fuel = some (r, calls)) (hmax : ∀ c ∈ calls, c.1 ≤ 512) (now : ℕ) :
    one_experiment (outcomes patient (planned calls) ⟨now, []⟩) fuel = some (r, calls) ∧
      replay patient (planned calls) 0 ⟨now, []⟩ calls = ⟨now + cost waits_for calls * 1000000000, []⟩ := by
  have hreplay := replay_planned hmax calls [] [] now
    (List.append_nil calls).symm
  exact ⟨one_experiment_congr hrun (recorded_planned hmax now), hreplay⟩

/-! ## The result -/

/-- Every number fails twice before it succeeds, and 512 fails once more; the bisection only succeeds. -/
private def third_time : Outcomes := fun calls seconds ↦
  30 ≤ calls.length || (seconds < 512 && calls.length % 3 = 2)

private theorem run_third_time : ∃ r calls, one_experiment third_time 30 = some (r, calls) ∧
    cost waits_for calls = 12946 ∧ ∀ c ∈ calls, c.1 ≤ 512 :=
  ⟨_, _, rfl, by decide, by decide⟩

/-- Three such experiments. -/
private theorem exists_slowest : ∃ w : ℕ → Weather, (∀ k, (w k).idle = 0) ∧
    ∀ i, hosts patient (fun _ ↦ w) 30 i = ⟨i * (12946 * 1000000000), []⟩ := by
  obtain ⟨r, calls, hrun, hcost, hmax⟩ := run_third_time
  refine ⟨planned calls, fun k ↦ rfl, fun i ↦ ?_⟩
  induction i with
  | zero => rw [hosts, Nat.zero_mul]
  | succ i ih =>
    obtain ⟨hexperiment, hreplay⟩ := experiment_planned hrun hmax (i * (12946 * 1000000000))
    rw [hosts, ih, hexperiment]
    dsimp only
    rw [hreplay, hcost]
    push_cast
    ring_nf

/-- **How long a probe takes.** Whatever the outcomes are, the calls of an experiment wait for 12946 seconds at
most. So the three experiments of a probe through any translator and in any weather end within three times
that, and the time between the calls. There are a translator and a weather in which each of them takes exactly
so long. -/
theorem probe_duration :
    (∀ (outcomes : Outcomes) fuel r calls, one_experiment outcomes fuel = some (r, calls) →
      cost waits_for calls ≤ 12946) ∧
    (∀ (r : Translator) (w : ℕ → ℕ → Weather) (fuel idle : ℕ), 30 ≤ fuel → (∀ i k, (w i k).idle ≤ idle) →
      (hosts r w fuel 3).now ≤ 3 * (12946 * 1000000000 + 37 * idle)) ∧
    ∃ (r : Translator) (w : ℕ → ℕ → Weather), (∀ i k, (w i k).idle = 0) ∧
      (hosts r w 30 1).now = 12946 * 1000000000 ∧ (hosts r w 30 3).now = 3 * (12946 * 1000000000) := by
  have hcost : ∀ (outcomes : Outcomes) fuel r calls, one_experiment outcomes fuel = some (r, calls) →
      cost waits_for calls ≤ 12946 := by
    intro outcomes fuel r calls hrun
    rw [← dearest_waits_for]
    exact cost_one_experiment waits_for_mono hrun
  refine ⟨hcost, ?_, ?_⟩
  · intro r w fuel idle hfuel hidle
    have hexperiment : ∀ i, (hosts r w fuel (i + 1)).now ≤
        (hosts r w fuel i).now + (12946 * 1000000000 + 37 * idle) := by
      intro i
      obtain ⟨v, calls, exit, doubling, hrun, -, -, -, hbracketed⟩ :=
        one_experiment_spec (outcomes r (w i) (hosts r w fuel i)) hfuel
      have hnow := now_replay_le (r := r) (hidle i) calls 0 (hosts r w fuel i)
      have hle := hcost _ _ _ _ hrun
      have hcalls := Nat.mul_le_mul_right idle hbracketed.length_le
      rw [hosts, hrun]
      dsimp only
      omega
    calc (hosts r w fuel 3).now
        ≤ (hosts r w fuel 2).now + (12946 * 1000000000 + 37 * idle) := hexperiment 2
      _ ≤ (hosts r w fuel 1).now + 2 * (12946 * 1000000000 + 37 * idle) := by
        have hsecond : (hosts r w fuel 2).now ≤ _ := hexperiment 1
        omega
      _ ≤ (hosts r w fuel 0).now + 3 * (12946 * 1000000000 + 37 * idle) := by
        have hfirst : (hosts r w fuel 1).now ≤ _ := hexperiment 0
        omega
      _ = 3 * (12946 * 1000000000 + 37 * idle) := Nat.zero_add _
  · obtain ⟨w, hidle, hhosts⟩ := exists_slowest
    refine ⟨patient, fun _ ↦ w, fun _ ↦ hidle, ?_, ?_⟩
    · rw [hhosts, Nat.one_mul]
    · rw [hhosts]

end ViTools.UdpTimeoutChecker
