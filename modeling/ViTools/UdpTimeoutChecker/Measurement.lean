import ViTools.UdpTimeoutChecker.Probe
import ViTools.UdpTimeoutChecker.Translation

/-!
# Probing an address translator

The whole of what `udptimeoutchecker probe` is for: the number that it prints tells after how long the
translator in front of the client forgets a connection. All calls of its three experiments run one after
the other through the translator, each in its own weather.

A successful call bounds the timeout of the translator from below, and a failed one bounds it from above
if nothing was lost. With what is known of the bracket of an experiment these bounds are about its result,
and the median passes them on to the number printed.
-/

namespace ViTools.UdpTimeoutChecker

/-! ## One experiment -/

/-- The client after some calls, of which the first is number `k`. -/
def replay (r : Translator) (w : ℕ → Weather) : ℕ → Host → Calls → Host
  | _, h, [] => h
  | k, h, c :: calls => replay r w (k + 1) (try_call r (w k) k c.1 h).2 calls

/-- The outcomes of the calls of an experiment, each in its own weather. -/
def outcomes (r : Translator) (w : ℕ → Weather) (h : Host) : Outcomes := fun calls seconds ↦
  decide ((try_call r (w calls.length) calls.length seconds (replay r w 0 h calls)).1.code = 0)

theorem socket_replay {r : Translator} {w : ℕ → Weather} (hprompt : ∀ k, (w k).Prompt) {calls : Calls}
    (hseconds : ∀ c ∈ calls, 1 ≤ c.1 ∧ c.1 ≤ 512) {k : ℕ} {h : Host} (hempty : h.socket = []) :
    (replay r w k h calls).socket = [] := by
  induction calls generalizing k h with
  | nil => exact hempty
  | cons c calls ih =>
    rw [List.forall_mem_cons] at hseconds
    exact ih hseconds.2 (try_call_spec r (hprompt k) k hseconds.1.1 (by omega) hempty).1

/-- What the calls of an experiment say about the translator: `J` bounds the delays. -/
structure Tells (r : Translator) (w : ℕ → Weather) (J : ℕ) (calls : Calls) : Prop where
  /-- A call succeeds only within the timeout. -/
  success : ∀ x, (x, true) ∈ calls → x * 1000000000 ≤ r.timeout + r.slack J
  /-- A call in which nothing is lost fails only above the timeout. -/
  failure : ∀ p x l, calls = p ++ (x, false) :: l → (w p.length).Lossless →
    r.timeout < x * 1000000000 + J

theorem Translator.slack_mono (r : Translator) {d J : ℕ} (h : d ≤ J) : r.slack d ≤ r.slack J := by
  rw [Translator.slack, Translator.slack]
  split
  · exact h
  · exact le_refl 0

theorem tells_of_recorded {r : Translator} {w : ℕ → Weather} {h : Host} {calls : Calls} {J : ℕ}
    (hprompt : ∀ k, (w k).Prompt) (hempty : h.socket = []) (hJ : ∀ k, (w k).delays ≤ J)
    (hrecorded : Recorded (outcomes r w h) calls) (hseconds : ∀ c ∈ calls, 1 ≤ c.1 ∧ c.1 ≤ 512) :
    Tells r w J calls := by
  have hcall : ∀ p x b l, calls = p ++ (x, b) :: l → ∃ B A since, Arrives r (w p.length) x since B A ∧
      (b = true ↔ B.isSome ∧ A.isSome) := by
    intro p x b l hcalls
    have hx : 1 ≤ x ∧ x ≤ 512 :=
      hseconds (x, b) (hcalls ▸ List.mem_append_right p List.mem_cons_self)
    have hbefore := socket_replay (r := r) hprompt (k := 0)
      (fun c hc ↦ hseconds c (hcalls ▸ List.mem_append_left _ hc)) hempty
    obtain ⟨-, B, A, harrives, hcode⟩ :=
      try_call_spec r (hprompt p.length) p.length hx.1 (by omega) hbefore
    refine ⟨B, A, _, harrives, ?_⟩
    rw [hrecorded p x b l hcalls, outcomes, decide_eq_true_iff]
    exact hcode
  constructor
  · intro x hmem
    obtain ⟨p, l, hcalls⟩ := List.append_of_mem hmem
    obtain ⟨B, A, since, harrives, hboth⟩ := hcall p x true l hcalls
    exact (harrives.le_timeout (hboth.mp rfl)).trans
      (Nat.add_le_add_left (r.slack_mono (hJ p.length)) _)
  · intro p x l hcalls hlossless
    obtain ⟨B, A, since, harrives, hboth⟩ := hcall p x false l hcalls
    have hlt := harrives.timeout_lt hlossless fun hall ↦ Bool.false_ne_true (hboth.mpr hall)
    exact hlt.trans_le (Nat.add_le_add_left (hJ p.length) _)

/-- While doubling one of three calls is lossless, and while bisecting all are. -/
structure Undisturbed (w : ℕ → Weather) (doubling : Calls) : Prop where
  /-- One of three. -/
  one_of_three : ∀ k, (w k).Lossless ∨ (w (k + 1)).Lossless ∨ (w (k + 2)).Lossless
  /-- All that come after the first loop. -/
  bisection : ∀ k ≥ doubling.length, (w k).Lossless

/-- Three failures in a row are not all due to losses. -/
theorem Tells.of_three {r : Translator} {w : ℕ → Weather} {J x : ℕ} {doubling calls : Calls}
    (h : Tells r w J calls) (hw : Undisturbed w doubling)
    (hthree : List.replicate 3 (x, false) <:+: calls) : r.timeout < x * 1000000000 + J := by
  obtain ⟨p, l, hcalls⟩ := hthree
  have hlist : calls = p ++ (x, false) :: (x, false) :: (x, false) :: l := by
    rw [← hcalls, List.append_assoc]
    rfl
  rcases hw.one_of_three p.length with hk | hk | hk
  · exact h.failure p x _ hlist hk
  · refine h.failure (p ++ [(x, false)]) x ((x, false) :: l) ?_ (by rwa [List.length_append])
    rw [hlist, List.append_assoc]
    rfl
  · refine h.failure (p ++ [(x, false), (x, false)]) x l ?_ (by rwa [List.length_append])
    rw [hlist, List.append_assoc]
    rfl

/-- The next larger result of an experiment. -/
def next (v : ℕ) : ℕ := if v = 0 then 1 else if v = 1 then 2 else v + 2

theorem next_mono {v v' : ℕ} (h : v ≤ v') : next v ≤ next v' := by
  rw [next, next]
  split
  · split
    · exact le_refl 1
    · split <;> omega
  · split
    · rw [if_neg (by omega)]
      split <;> omega
    · rw [if_neg (by omega), if_neg (by omega)]
      omega

theorem Bracketed.lower {r : Translator} {w : ℕ → Weather} {J v : ℕ} {doubling calls : Calls}
    (h : Bracketed doubling calls v) (htells : Tells r w J calls) (hv : v ≠ 0) :
    v * 1000000000 ≤ r.timeout + r.slack J := by
  by_cases htop : v = 512
  · rw [htop]
    exact htells.success 512 (h.top_iff.mp htop)
  · obtain ⟨-, -, hok, -⟩ := h.between hv htop
    exact htells.success v hok

theorem Bracketed.upper {r : Translator} {w : ℕ → Weather} {J v : ℕ} {doubling calls : Calls}
    (h : Bracketed doubling calls v) (hpre : doubling <+: calls) (htells : Tells r w J calls)
    (hw : Undisturbed w doubling) (hv : v < 512) : r.timeout < next v * 1000000000 + J := by
  rw [next]
  by_cases hzero : v = 0
  · rw [if_pos hzero]
    refine htells.of_three hw ?_
    rw [← h.zero_iff.mp hzero]
    exact (List.take_prefix 3 calls).isInfix
  rw [if_neg hzero]
  obtain ⟨-, -, -, hcase⟩ := h.between hzero hv.ne
  rcases hcase with ⟨hone, hthree⟩ | ⟨heven, hfail, hthree⟩
  · rw [if_pos hone]
    exact htells.of_three hw hthree
  have hne : v ≠ 1 := by
    obtain ⟨i, hi⟩ := heven
    omega
  rw [if_neg hne]
  by_cases hmem : v + 2 ∈ doubling.map Prod.fst
  · exact htells.of_three hw (hthree hmem)
  · -- the failure was met while bisecting
    obtain ⟨rest, rfl⟩ := hpre
    rcases List.mem_append.mp hfail with hin | hin
    · exact absurd (List.mem_map_of_mem hin) hmem
    · obtain ⟨p, l, rfl⟩ := List.append_of_mem hin
      refine htells.failure (doubling ++ p) (v + 2) l (List.append_assoc _ _ _).symm ?_
      refine hw.bisection _ ?_
      rw [List.length_append]
      exact Nat.le_add_right _ _

/-- The weather is good enough for an experiment: its doubling calls depend on it. -/
def UndisturbedExperiment (r : Translator) (w : ℕ → Weather) (h : Host) (fuel : ℕ) : Prop :=
  ∀ exit doubling, phase1 (outcomes r w h) fuel 1 0 [] = some (exit, doubling) → Undisturbed w doubling

theorem experiment_spec (r : Translator) {w : ℕ → Weather} {h : Host} {fuel J : ℕ} (hfuel : 30 ≤ fuel)
    (hprompt : ∀ k, (w k).Prompt) (hempty : h.socket = []) (hJ : ∀ k, (w k).delays ≤ J) :
    ∃ v calls, one_experiment (outcomes r w h) fuel = some (v, calls) ∧
      (v ≤ 512 ∧ (v = 1 ∨ Even v)) ∧ (replay r w 0 h calls).socket = [] ∧
      (v ≠ 0 → v * 1000000000 ≤ r.timeout + r.slack J) ∧
      (UndisturbedExperiment r w h fuel → v < 512 → r.timeout < next v * 1000000000 + J) := by
  obtain ⟨v, calls, exit, doubling, hrun, hphase1, hpre, hrecorded, hbracketed⟩ :=
    one_experiment_spec (outcomes r w h) hfuel
  have htells := tells_of_recorded hprompt hempty hJ hrecorded hbracketed.seconds
  refine ⟨v, calls, hrun, ?_, socket_replay hprompt hbracketed.seconds hempty, hbracketed.lower htells,
    fun hw hv ↦ hbracketed.upper hpre htells (hw exit doubling hphase1) hv⟩
  by_cases hzero : v = 0
  · subst hzero
    decide
  by_cases htop : v = 512
  · subst htop
    decide
  · obtain ⟨-, hle, -, hcase⟩ := hbracketed.between hzero htop
    exact ⟨hle.trans (by decide), hcase.imp And.left And.left⟩

/-! ## The program -/

/-- The client at the start of each experiment. -/
def hosts (r : Translator) (w : ℕ → ℕ → Weather) (fuel : ℕ) : ℕ → Host
  | 0 => ⟨0, []⟩
  | i + 1 =>
    match one_experiment (outcomes r (w i) (hosts r w fuel i)) fuel with
    | none => hosts r w fuel i
    | some (_, calls) => replay r (w i) 0 (hosts r w fuel i) calls

/-- The number `probe` prints. -/
def printed (r : Translator) (w : ℕ → ℕ → Weather) (fuel : ℕ) : Option ℕ :=
  probe (fun i ↦ outcomes r (w i) (hosts r w fuel i)) fuel

theorem socket_hosts (r : Translator) {w : ℕ → ℕ → Weather} {fuel : ℕ} (hfuel : 30 ≤ fuel)
    (hprompt : ∀ i k, (w i k).Prompt) (i : ℕ) :
    (hosts r w fuel i).socket = [] := by
  induction i with
  | zero => rfl
  | succ i ih =>
    obtain ⟨v, calls, hrun, -, hempty, -⟩ :=
      experiment_spec r hfuel (hprompt i) ih fun k ↦ (hprompt i k).le
    rw [hosts, hrun]
    exact hempty

/-- The middle one of three numbers is one of them, and not below two of them. -/
theorem qsort_between {a b c : ℕ} (ha : a ≤ 512) (hb : b ≤ 512) (hc : c ≤ 512) :
    ∃ v, (qsort [a, b, c])[1]? = some v ∧ (v = a ∨ v = b ∨ v = c) ∧ (a ≤ v ∨ b ≤ v) ∧ (a ≤ v ∨ c ≤ v) ∧
      (b ≤ v ∨ c ≤ v) := by
  simp only [qsort, List.insertionSort_cons, List.insertionSort_nil, List.orderedInsert_nil,
    List.orderedInsert_cons, numcmp_le_zero hb hc]
  split
  · next hbc =>
    simp only [List.orderedInsert_cons, List.orderedInsert_nil, numcmp_le_zero ha hb,
      numcmp_le_zero ha hc]
    split
    · exact ⟨b, rfl, by omega⟩
    split
    · exact ⟨a, rfl, by omega⟩
    · exact ⟨c, rfl, by omega⟩
  · next hcb =>
    simp only [List.orderedInsert_cons, List.orderedInsert_nil, numcmp_le_zero ha hb,
      numcmp_le_zero ha hc]
    split
    · exact ⟨c, rfl, by omega⟩
    split
    · exact ⟨a, rfl, by omega⟩
    · exact ⟨b, rfl, by omega⟩

/-- What one of each two experiments has, one of any two has. -/
theorem or_of_ne {P : Fin 3 → Prop} (h01 : P 0 ∨ P 1) (h02 : P 0 ∨ P 2) (h12 : P 1 ∨ P 2) {i j : Fin 3}
    (hij : i ≠ j) : P i ∨ P j := by
  fin_cases i <;> fin_cases j
  case «0».«0» | «1».«1» | «2».«2» => exact absurd rfl hij
  case «0».«1» => exact h01
  case «0».«2» => exact h02
  case «1».«2» => exact h12
  case «1».«0» => exact h01.symm
  case «2».«0» => exact h02.symm
  case «2».«1» => exact h12.symm

/-- **What `probe` measures.** Through a translator and a network that may lose datagrams and is prompt, the
number printed is at most the timeout of the translator. If two of the three experiments are not
disturbed by more losses than they make up for, the next larger number would exceed it. Both bounds are
exact but for the delays `J` of a call. -/
theorem printed_measures (r : Translator) (w : ℕ → ℕ → Weather) {fuel J : ℕ} (hfuel : 30 ≤ fuel)
    (hprompt : ∀ i k, (w i k).Prompt) (hJ : ∀ i k, (w i k).delays ≤ J) :
    ∃ v, printed r w fuel = some v ∧ v ≤ 512 ∧ (v = 1 ∨ Even v) ∧
      (v ≠ 0 → v * 1000000000 ≤ r.timeout + r.slack J) ∧
      ∀ i j : Fin 3, i ≠ j → UndisturbedExperiment r (w i) (hosts r w fuel i) fuel →
        UndisturbedExperiment r (w j) (hosts r w fuel j) fuel →
        v < 512 → r.timeout < next v * 1000000000 + J := by
  have hall := fun i : Fin 3 ↦
    experiment_spec r hfuel (hprompt i) (socket_hosts r hfuel hprompt i) fun k ↦ hJ i k
  choose x calls hrun hmax hempty hlower hupper using hall
  have hprinted : printed r w fuel = (qsort [x 0, x 1, x 2])[1]? := by
    simp only [printed, probe, hrun, Option.bind_eq_bind, Option.bind_some]
  obtain ⟨v, hv, hone, h01, h02, h12⟩ := qsort_between (hmax 0).1 (hmax 1).1 (hmax 2).1
  obtain ⟨k, rfl⟩ : ∃ k, v = x k := by
    rcases hone with h | h | h
    · exact ⟨0, h⟩
    · exact ⟨1, h⟩
    · exact ⟨2, h⟩
  refine ⟨x k, hprinted.trans hv, (hmax k).1, (hmax k).2, hlower k, fun i j hij hi hj hlt ↦ ?_⟩
  have hle : ∀ l : Fin 3, UndisturbedExperiment r (w l) (hosts r w fuel l) fuel → x l ≤ x k →
      r.timeout < next (x k) * 1000000000 + J := fun l hl hlk ↦
    (hupper l hl (hlk.trans_lt hlt)).trans_le
      (Nat.add_le_add_right (Nat.mul_le_mul_right 1000000000 (next_mono hlk)) J)
  -- the middle one is not below both of them
  have htwo : x i ≤ x k ∨ x j ≤ x k :=
    or_of_ne (P := fun l ↦ x l ≤ x k) h01 h02 h12 hij
  exact htwo.elim (hle i hi) (hle j hj)

/-- Every datagram takes 20 milliseconds on each part of its way. -/
private def calm : Weather where
  idle := 0
  out := some 20000000
  onward := some 20000000
  late1 := 0
  backB := some 20000000
  inB := some 20000000
  late2 := 0
  backA := some 20000000
  inA := some 20000000

/-- Nothing reaches the translator. -/
private def dead : Weather where
  idle := 0
  out := none
  onward := none
  late1 := 0
  backB := none
  inB := none
  late2 := 0
  backA := none
  inA := none

/-- A translator that forgets a connection after 90 seconds and a half, and an experiment for which there
is no network at all. -/
theorem printed_measures_calm :
    printed ⟨90500000000, true⟩ (fun i _ ↦ if i = 0 then dead else calm) 30 = some 90 := by
  have hJ : ∀ i k : ℕ, ((fun i _ ↦ if i = 0 then dead else calm : ℕ → ℕ → Weather) i k).delays
      ≤ 120000000 := by
    intro i k
    dsimp only
    split <;> decide
  obtain ⟨v, hv, hle, heven, hlower, hupper⟩ :=
    printed_measures ⟨90500000000, true⟩ (fun i _ ↦ if i = 0 then dead else calm) (le_refl 30)
      (fun i k ↦ (hJ i k).trans_lt (by decide)) hJ
  have hcalm : calm.Lossless := by decide
  have hlt := hupper 1 2 (by decide) (fun _ _ _ ↦ ⟨fun _ ↦ .inl hcalm, fun _ _ ↦ hcalm⟩)
    (fun _ _ _ ↦ ⟨fun _ ↦ .inl hcalm, fun _ _ ↦ hcalm⟩)
  simp only [Translator.slack, if_true] at hlower hlt
  have hv90 : v = 90 := by
    rcases heven with rfl | ⟨m, rfl⟩
    · simp [next] at hlt
    · rw [next] at hlt
      split at hlt
      · omega
      · split at hlt <;> omega
  rw [hv, hv90]

end ViTools.UdpTimeoutChecker
