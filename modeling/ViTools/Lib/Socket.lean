import ViTools.Lib.Run
import Mathlib.Tactic.Linarith
import Mathlib.Tactic.Ring

/-!
# Receiving with a timeout

Messages come at known times and wait, in order. A call of `receive` takes the first one, or gives up if none
has come for the whole timeout, or it fails for another reason. `wait1` is one round of a program that calls it
again and again, and that is late by at most `late` with each call and each return.

Such a program gives up exactly in the silences: never unless nothing came for the whole timeout, and always
once nothing has come for that long and for the time it takes to clear what was waiting. A call that fails
starts the timeout anew, so the second half is about times without these.
-/

namespace ViTools

variable {α : Type*}

/-- What a call returns. -/
inductive Return (α : Type*)
  | message (d : α)
  | timeout
  | error

/-- What a call returns, and what is left; `none` if it cannot return at `now`. -/
def receive (timeout : ℤ) (came : α → ℤ) (queue : List α) (called now : ℤ) (fails : Bool) :
    Option (Return α × List α) :=
  if fails then some (.error, queue)
  else
    match queue with
    | d :: rest =>
      if came d ≤ now then some (.message d, rest)
      else if called + timeout ≤ now then some (.timeout, d :: rest) else none
    | [] => if called + timeout ≤ now then some (.timeout, []) else none

/-- **The three ways a call returns**: with a message that has come, or after the timeout and before the next
one, or with an error. -/
theorem receive_cases {timeout called now : ℤ} {came : α → ℤ} {queue rest : List α} {fails : Bool}
    {r : Return α} (h : receive timeout came queue called now fails = some (r, rest)) :
    (∃ d, r = .message d ∧ queue = d :: rest ∧ came d ≤ now) ∨
      (r = .timeout ∧ rest = queue ∧ called + timeout ≤ now ∧ ∀ d, queue.head? = some d → now < came d) ∨
      (r = .error ∧ rest = queue) := by
  unfold receive at h
  split at h
  · cases h
    exact .inr (.inr ⟨rfl, rfl⟩)
  · split at h
    · next d queue =>
      split at h
      · next hcame =>
        cases h
        exact .inl ⟨d, rfl, rfl, hcame⟩
      · next hcame =>
        obtain ⟨hlate, heq⟩ := Option.ite_none_right_eq_some.mp h
        cases heq
        refine .inr (.inl ⟨rfl, rfl, hlate, ?_⟩)
        rintro d' hd'
        cases hd'
        exact lt_of_not_ge hcame
    · obtain ⟨hlate, heq⟩ := Option.ite_none_right_eq_some.mp h
      cases heq
      exact .inr (.inl ⟨rfl, rfl, hlate, nofun⟩)

/-- When a call can return. -/
def ready (timeout : ℤ) (came : α → ℤ) (queue : List α) (called : ℤ) : ℤ :=
  max called (queue.head?.elim (called + timeout) fun d ↦ min (came d) (called + timeout))

/-- The messages not received yet, and the time of the last return. -/
structure Inbox (α : Type*) where
  queue : List α
  clock : ℤ

/-- When a round calls `receive`, when that returns, and whether it fails. -/
structure Turn where
  called : ℤ
  now : ℤ
  fails : Bool

/-- One round. -/
def wait1 (timeout late : ℤ) (came : α → ℤ) (s : Inbox α) (turn : Turn) :
    Option ((ℤ × Return α) × Inbox α) :=
  if s.clock ≤ turn.called ∧ turn.called ≤ s.clock + late ∧ turn.called ≤ turn.now ∧
      turn.now ≤ ready timeout came s.queue turn.called + late then
    (receive timeout came s.queue turn.called turn.now turn.fails).map fun r ↦
      ((turn.now, r.1), ⟨r.2, turn.now⟩)
  else none

def Return.isTimeout : Return α → Bool
  | .timeout => true
  | .message _ | .error => false

/-- When the program gave up. -/
def timeouts (returns : List (ℤ × Return α)) : List ℤ :=
  (returns.filter fun r ↦ r.2.isTimeout).map Prod.fst

section Wait

variable {timeout late : ℤ} {came : α → ℤ} {s s' : Inbox α} {turn : Turn} {r : ℤ × Return α}

/-- **The three ways a round goes.** -/
theorem wait1_cases (h : wait1 timeout late came s turn = some (r, s')) :
    s.clock ≤ r.1 ∧ s'.clock = r.1 ∧ (0 ≤ timeout → r.1 ≤ s.clock + timeout + 2 * late) ∧
      ((∃ d, r.2 = .message d ∧ s.queue = d :: s'.queue ∧ came d ≤ r.1 ∧
          r.1 ≤ max (s.clock + late) (came d) + late) ∨
        (r.2 = .timeout ∧ s'.queue = s.queue ∧ s.clock + timeout ≤ r.1 ∧
          ∀ d, s.queue.head? = some d → r.1 < came d) ∨
        (r.2 = .error ∧ s'.queue = s.queue)) := by
  obtain ⟨⟨hcall, hprompt, hnow, hready⟩, h⟩ := Option.ite_none_right_eq_some.mp h
  obtain ⟨⟨o, rest⟩, hreceive, heq⟩ := Option.map_eq_some_iff.mp h
  cases heq
  dsimp only
  refine ⟨hcall.trans hnow, rfl, fun htimeout ↦ ?_, ?_⟩
  · rw [ready] at hready
    cases hhead : s.queue.head? with
    | none =>
      rw [hhead, Option.elim_none] at hready
      omega
    | some d =>
      rw [hhead, Option.elim_some] at hready
      omega
  · rcases receive_cases hreceive with ⟨d, rfl, hqueue, hcame⟩ | ⟨rfl, hqueue, hexpired, hnext⟩ | ⟨rfl, hqueue⟩
    · refine .inl ⟨d, rfl, hqueue, hcame, ?_⟩
      rw [ready, hqueue, List.head?_cons, Option.elim_some] at hready
      omega
    · exact .inr (.inl ⟨rfl, hqueue, by omega, hnext⟩)
    · exact .inr (.inr ⟨rfl, hqueue⟩)

theorem timeouts_cons_timeout (t : ℤ) (returns : List (ℤ × Return α)) :
    timeouts ((t, .timeout) :: returns) = t :: timeouts returns := rfl

theorem timeouts_cons_message (t : ℤ) (d : α) (returns : List (ℤ × Return α)) :
    timeouts ((t, .message d) :: returns) = timeouts returns := rfl

theorem timeouts_cons_error (t : ℤ) (returns : List (ℤ × Return α)) :
    timeouts ((t, .error) :: returns) = timeouts returns := rfl

variable {l : List Turn} {returns : List (ℤ × Return α)}

/-- **Nothing comes before a timeout.** -/
theorem silent_before_timeout (hsorted : s.queue.Pairwise fun d e ↦ came d ≤ came e)
    (hrun : transduce (wait1 timeout late came) s l = some (returns, s')) {t : ℤ} (ht : t ∈ timeouts returns) :
    s.clock + timeout ≤ t ∧ ∀ d ∈ s.queue, ¬(t - timeout < came d ∧ came d ≤ t) := by
  induction l generalizing s returns with
  | nil =>
    cases hrun
    exact absurd ht List.not_mem_nil
  | cons turn l ih =>
    obtain ⟨⟨now, o⟩, s₁, returns', hstep, hrest, rfl⟩ := transduce_cons_eq_some.mp hrun
    obtain ⟨hclock, hclock₁, -, hcases⟩ := wait1_cases hstep
    dsimp only at hclock hclock₁ hcases
    rcases hcases with ⟨d, rfl, hqueue, hcame, -⟩ | ⟨rfl, hqueue, hlate, hnext⟩ | ⟨rfl, hqueue⟩
    · rw [timeouts_cons_message] at ht
      rw [hqueue] at hsorted
      obtain ⟨hfirst, hsilent⟩ := ih (List.pairwise_cons.mp hsorted).2 hrest ht
      rw [hqueue, List.forall_mem_cons]
      exact ⟨by omega, by omega, hsilent⟩
    · rw [timeouts_cons_timeout] at ht
      rcases List.mem_cons.mp ht with rfl | ht
      · refine ⟨hlate, fun d hd hbetween ↦ ?_⟩
        -- the first message comes after the timeout, and the others after it
        cases hs : s.queue with
        | nil =>
          rw [hs] at hd
          exact absurd hd List.not_mem_nil
        | cons e rest =>
          rw [hs] at hd hsorted
          have hfirst := hnext e (by rw [hs]; rfl)
          rcases List.mem_cons.mp hd with rfl | hd
          · omega
          · have hafter := (List.pairwise_cons.mp hsorted).1 d hd
            omega
      · rw [← hqueue] at hsorted
        obtain ⟨hfirst, hsilent⟩ := ih hsorted hrest ht
        rw [hqueue] at hsilent
        exact ⟨by omega, hsilent⟩
    · rw [timeouts_cons_error] at ht
      rw [← hqueue] at hsorted ⊢
      obtain ⟨hfirst, hsilent⟩ := ih hsorted hrest ht
      exact ⟨by omega, hsilent⟩

/-- The timeouts are a whole timeout apart. -/
theorem pairwise_timeouts (hsorted : s.queue.Pairwise fun d e ↦ came d ≤ came e)
    (hrun : transduce (wait1 timeout late came) s l = some (returns, s')) :
    (timeouts returns).Pairwise fun t u ↦ t + timeout ≤ u := by
  induction l generalizing s returns with
  | nil =>
    cases hrun
    exact .nil
  | cons turn l ih =>
    obtain ⟨⟨now, o⟩, s₁, returns', hstep, hrest, rfl⟩ := transduce_cons_eq_some.mp hrun
    obtain ⟨-, hclock₁, -, ⟨d, rfl, hqueue, -⟩ | ⟨rfl, hqueue, -⟩ | ⟨rfl, hqueue⟩⟩ := wait1_cases hstep
    · rw [hqueue] at hsorted
      rw [timeouts_cons_message]
      exact ih (List.pairwise_cons.mp hsorted).2 hrest
    · rw [← hqueue] at hsorted
      refine List.pairwise_cons.mpr ⟨fun t ht ↦ ?_, ih hsorted hrest⟩
      have hfirst := (silent_before_timeout hsorted hrest ht).1
      rwa [hclock₁] at hfirst
    · rw [← hqueue] at hsorted
      rw [timeouts_cons_error]
      exact ih hsorted hrest

/-- **A silence is noticed.** What was waiting at its beginning is cleared first. -/
theorem exists_timeout (htimeout : 0 ≤ timeout) (hlate : 0 ≤ late) {waiting rest : List α} {a b : ℤ}
    (hqueue : s.queue = waiting ++ rest) (hwaiting : ∀ d ∈ waiting, came d ≤ a) (hrest : ∀ d ∈ rest, b < came d)
    (hroom : max s.clock a + timeout + 2 * late * (waiting.length + 1) ≤ b)
    (hrun : transduce (wait1 timeout late came) s l = some (returns, s')) (hlast : b < s'.clock)
    (herrors : ∀ t, (t, .error) ∈ returns → ¬(a < t ∧ t ≤ b)) :
    ∃ t ∈ timeouts returns, a < t ∧ t ≤ b := by
  induction l generalizing s returns waiting with
  | nil =>
    cases hrun
    have hnonneg : 0 ≤ 2 * late * (waiting.length + 1) := by positivity
    omega
  | cons turn l ih =>
    obtain ⟨⟨now, o⟩, s₁, returns', hstep, hrest', rfl⟩ := transduce_cons_eq_some.mp hrun
    obtain ⟨hclock, hclock₁, hprompt, hcases⟩ := wait1_cases hstep
    dsimp only at hclock hclock₁ hprompt hcases
    have hprompt := hprompt htimeout
    have herrors₁ : ∀ t, (t, .error) ∈ returns' → ¬(a < t ∧ t ≤ b) :=
      fun t ht ↦ herrors t (List.mem_cons_of_mem _ ht)
    have hone : 2 * late ≤ 2 * late * (waiting.length + 1) := le_mul_of_one_le_right (by omega) (by omega)
    rcases hcases with ⟨d, rfl, hd, hcame, hsoon⟩ | ⟨rfl, hsame, hexpired, hnext⟩ | ⟨rfl, hsame⟩
    · rw [timeouts_cons_message]
      rw [hd] at hqueue
      cases waiting with
      | nil =>
        -- a message from after the silence is too late for this round
        have hafter := hrest d (by rw [← List.nil_append rest, ← hqueue]; exact List.mem_cons_self)
        rw [List.length_nil, Nat.cast_zero] at hroom
        omega
      | cons e waiting =>
        obtain ⟨rfl, hqueue₁⟩ := List.cons.inj hqueue
        obtain ⟨hd, hwaiting₁⟩ := List.forall_mem_cons.mp hwaiting
        refine ih hqueue₁ hwaiting₁ ?_ hrest' herrors₁
        have hmax : max s₁.clock a ≤ max s.clock a + 2 * late := by omega
        calc max s₁.clock a + timeout + 2 * late * (waiting.length + 1)
            ≤ max s.clock a + 2 * late + timeout + 2 * late * (waiting.length + 1) := by omega
          _ = max s.clock a + timeout + 2 * late * ((d :: waiting).length + 1) := by
            rw [List.length_cons]
            push_cast
            ring
          _ ≤ b := hroom
    · rw [timeouts_cons_timeout]
      by_cases hnow : a < now
      · exact ⟨now, List.mem_cons_self, hnow, by omega⟩
      · -- this was before the silence
        obtain ⟨t, ht, hbetween⟩ := ih (hsame.trans hqueue) hwaiting (by omega) hrest' herrors₁
        exact ⟨t, List.mem_cons_of_mem _ ht, hbetween⟩
    · -- so was this, as it is not too late for it
      have hbefore : now ≤ a := by
        have herror := herrors now List.mem_cons_self
        omega
      rw [timeouts_cons_error]
      exact ih (hsame.trans hqueue) hwaiting (by omega) hrest' herrors₁

end Wait

end ViTools
