import ViTools.Fstest.Accounting

/-!
# Reporting errors

Every function of `fstest` says whether it failed, and its callers look at it. `Reports` is the contract
of such a computation: it reports a failure exactly if one of its calls failed for good, more answers of
the outside world change nothing about a run that is over, and a run that waits for an answer comes to
an end, with a failure reported, when that answer is an error.

The contract composes: after a failure a caller makes no more calls and fails itself (`Gives`), and
otherwise it goes on with a computation that keeps the contract.
-/

namespace ViTools.Fstest

/-- An error that is not an interruption. -/
def Errno.Hard (errno : Errno) : Prop := errno ≠ .EAGAIN ∧ errno ≠ .EINTR

instance : DecidablePred Errno.Hard := fun _ ↦ inferInstanceAs (Decidable (_ ∧ _))

/-- A call on one of the two files that failed for good. -/
def Event.IOError : Event → Prop
  | .pread _ _ (.error errno) | .pwrite _ _ (.error errno) | .read _ (.error errno) => errno.Hard
  | _ => False

instance : DecidablePred Event.IOError
  | .pread _ _ (.error _) | .pwrite _ _ (.error _) | .read _ (.error _) =>
    inferInstanceAs (Decidable (Errno.Hard _))
  | .pread _ _ (.ok _) | .pwrite _ _ (.ok _) | .read _ (.ok _) | .fsync =>
    inferInstanceAs (Decidable False)

/-! ## The transfer loop -/

section Loop

variable {func : PFunc} {script : List Reply} {buf : Buffer} {i rest : ℕ} {ppos : ℤ} {t : Transfer}

/-- The event of an error is an I/O error if it is a hard one. -/
theorem iOError_event_error {out : List UInt8} {errno : Errno} :
    (func.event out ppos (.error errno)).IOError ↔ errno.Hard := by
  cases func <;> exact Iff.rfl

theorem not_iOError_event_ok {out data : List UInt8} : ¬(func.event out ppos (.ok data)).IOError := by
  cases func <;> exact id

/-- A transfer fails exactly if one of its calls does. -/
theorem safe_fileop_loop_failed_iff (h : safe_fileop_loop func script buf i rest ppos = .ok t) :
    t.failed = true ↔ ∃ e ∈ t.events, e.IOError := by
  refine safe_fileop_loop_induction
    (motive := fun _ _ _ _ t ↦ t.failed = true ↔ ∃ e ∈ t.events, e.IOError)
    ?done ?eof ?moved ?again ?hard h
  case done =>
    intro script buf i ppos
    exact ⟨fun h ↦ absurd h Bool.false_ne_true, fun ⟨e, he, _⟩ ↦ absurd he List.not_mem_nil⟩
  case eof =>
    intro r script buf i rest ppos _
    refine ⟨fun h ↦ absurd h Bool.false_ne_true, fun ⟨e, he, herr⟩ ↦ ?_⟩
    rw [List.mem_singleton.mp he] at herr
    exact absurd herr not_iOError_event_ok
  case moved =>
    intro r buf i rest ppos data t _ _ _ ih
    rw [Transfer.failed_push, Transfer.events_push, ih, List.exists_mem_cons_iff]
    exact ⟨.inr, fun h ↦ h.resolve_left not_iOError_event_ok⟩
  case again =>
    intro errno buf i rest ppos t hagain ih
    rw [Transfer.failed_push, Transfer.events_push, ih, List.exists_mem_cons_iff, iOError_event_error]
    refine ⟨.inr, fun h ↦ h.resolve_left fun hhard ↦ ?_⟩
    rcases hagain with rfl | rfl
    · exact hhard.1 rfl
    · exact hhard.2 rfl
  case hard =>
    intro errno script buf i rest ppos hagain hintr
    exact ⟨fun _ ↦ ⟨_, List.mem_singleton_self _, iOError_event_error.mpr ⟨hagain, hintr⟩⟩,
      fun _ ↦ rfl⟩

theorem safe_fileop_loop_size (h : safe_fileop_loop func script buf i rest ppos = .ok t) :
    t.buf.size = buf.size := by
  refine safe_fileop_loop_induction (motive := fun buf _ _ _ t ↦ t.buf.size = buf.size)
    ?done ?eof ?moved ?again ?hard h
  case done =>
    intro script buf i ppos
    rfl
  case eof =>
    intro r script buf i rest ppos _
    rfl
  case moved =>
    intro r buf i rest ppos data t _ _ _ ih
    rw [Transfer.buf_push, ih]
    split <;> rfl
  case again =>
    intro errno buf i rest ppos t _ ih
    exact ih
  case hard =>
    intro errno script buf i rest ppos _ _
    rfl

/-- Answers that are not used do not matter. -/
theorem safe_fileop_loop_extend (l : List Reply)
    (h : safe_fileop_loop func script buf i rest ppos = .ok t) :
    safe_fileop_loop func (script ++ l) buf i rest ppos = .ok { t with script := t.script ++ l } := by
  induction script generalizing buf i rest ppos t with
  | nil =>
    cases rest with
    | zero =>
      rw [safe_fileop_loop_zero] at h ⊢
      cases h
      rfl
    | succ rest => cases h
  | cons r script ih =>
    cases rest with
    | zero =>
      rw [safe_fileop_loop_zero] at h ⊢
      cases h
      rfl
    | succ rest =>
      rw [List.cons_append]
      rw [safe_fileop_loop] at h ⊢
      cases hload : buf.load i (rest + 1) with
      | none =>
        rw [hload] at h
        cases h
      | some out =>
        rw [hload] at h
        dsimp only at h ⊢
        rcases hreply : func.answer out ppos r with (_ | ⟨v, data⟩) | errno
        · rw [hreply] at h
          cases h
          rfl
        · rw [hreply] at h
          dsimp only at h ⊢
          obtain ⟨t', ht', rfl⟩ := exceptMap_eq_ok.mp h
          rw [ih ht']
          rfl
        · rw [hreply] at h
          dsimp only at h ⊢
          split at h
          · next hagain =>
            obtain ⟨t', ht', rfl⟩ := exceptMap_eq_ok.mp h
            rw [if_pos hagain, ih ht']
            rfl
          · next hhard =>
            rw [if_neg hhard]
            cases h
            rfl

theorem exceptMap_eq_error {α β ε : Type*} {f : α → β} {x : Except ε α} {e : ε} :
    x.map f = .error e ↔ x = .error e := by
  cases x <;> simp [Except.map]

/-- An error stays one, though the kernel may have a reason of its own. -/
theorem hard_of_answer_error (func : PFunc) (out : List UInt8) (ppos : ℤ) {errno : Errno}
    (h : errno.Hard) : ∃ errno', func.answer out ppos (.error errno) = .error errno' ∧ errno'.Hard := by
  rw [PFunc.answer]
  split
  · exact ⟨_, rfl, by decide⟩
  · exact ⟨_, rfl, h⟩

/-- A loop that waits for an answer fails if that is an error. -/
theorem safe_fileop_loop_waits {errno : Errno} (hhard : errno.Hard) (hbuf : i + rest ≤ buf.size)
    (h : safe_fileop_loop func script buf i rest ppos = .error .script) :
    ∃ t, safe_fileop_loop func (script ++ [.error errno]) buf i rest ppos = .ok t ∧
      t.failed = true := by
  induction script generalizing buf i rest ppos with
  | nil =>
    cases rest with
    | zero =>
      rw [safe_fileop_loop_zero] at h
      cases h
    | succ rest =>
      obtain ⟨errno', hreply, hhard'⟩ :=
        hard_of_answer_error func (buf.slice i (rest + 1)) ppos hhard
      rw [List.nil_append, safe_fileop_loop, Buffer.load_of_le hbuf]
      dsimp only
      rw [hreply]
      dsimp only
      rw [if_neg (not_or.mpr hhard')]
      exact ⟨_, rfl, rfl⟩
  | cons r script ih =>
    cases rest with
    | zero =>
      rw [safe_fileop_loop_zero] at h
      cases h
    | succ rest =>
      rw [List.cons_append]
      rw [safe_fileop_loop, Buffer.load_of_le hbuf] at h ⊢
      dsimp only at h ⊢
      rcases hreply : func.answer (buf.slice i (rest + 1)) ppos r with (_ | ⟨v, data⟩) | errno'
      · rw [hreply] at h
        cases h
      · rw [hreply] at h
        dsimp only at h ⊢
        have hlen := length_le_of_answer hreply
        rw [Buffer.length_slice] at hlen
        have hsize : (if func = .pwrite then buf else buf.put i (v :: data)).size = buf.size := by
          split <;> rfl
        obtain ⟨t, ht, hfail⟩ := ih (by rw [hsize]; omega) (exceptMap_eq_error.mp h)
        rw [ht]
        exact ⟨_, rfl, hfail⟩
      · rw [hreply] at h
        dsimp only at h ⊢
        split at h
        · next hagain =>
          obtain ⟨t, ht, hfail⟩ := ih hbuf (exceptMap_eq_error.mp h)
          rw [if_pos hagain, ht]
          exact ⟨_, rfl, hfail⟩
        · cases h

/-- A transfer uses up answers, at least one if there is anything to transfer. -/
theorem safe_fileop_loop_script (h : safe_fileop_loop func script buf i rest ppos = .ok t) :
    t.script.length ≤ script.length ∧ (rest ≠ 0 → t.script.length < script.length) := by
  induction script generalizing buf i rest ppos t with
  | nil =>
    cases rest with
    | zero =>
      rw [safe_fileop_loop_zero] at h
      cases h
      exact ⟨le_refl _, fun hne ↦ absurd rfl hne⟩
    | succ rest => cases h
  | cons r script ih =>
    cases rest with
    | zero =>
      rw [safe_fileop_loop_zero] at h
      cases h
      exact ⟨le_refl _, fun hne ↦ absurd rfl hne⟩
    | succ rest =>
      have hlt : t.script.length ≤ script.length := by
        obtain ⟨-, reply, -, hcase⟩ := safe_fileop_loop_cons h
        rcases hcase with ⟨-, rfl⟩ | ⟨data, t', -, -, ht', rfl⟩ | ⟨t', -, ht', rfl⟩ | ⟨_, -, -, -, rfl⟩
        · exact le_refl _
        · exact (ih ht').1
        · exact (ih ht').1
        · exact le_refl _
      exact ⟨hlt.trans (Nat.le_succ _), fun _ ↦ Nat.lt_succ_of_le hlt⟩

end Loop

/-! ## The contract -/

/-- The machine with more answers to come. -/
def Machine.extend (m : Machine) (l : List Reply) : Machine := { m with script := m.script ++ l }

theorem Machine.extend_nil (m : Machine) : m.extend [] = m := by
  rw [extend, List.append_nil]

/-- The buffers of `main` have the size they were allocated with. -/
structure Machine.Sized (B : ℕ) (m : Machine) : Prop where
  buf1 : m.buf1.size = B
  buf2 : m.buf2.size = B

theorem Machine.Sized.extend {B : ℕ} {m : Machine} (h : m.Sized B) (l : List Reply) :
    (m.extend l).Sized B := ⟨h.buf1, h.buf2⟩

/-- **The contract of a computation** whose result tells whether it failed. -/
structure Reports (B : ℕ) {α : Type} (x : Sys α) (failed : α → Bool) : Prop where
  /-- The buffers keep their size, and a failure is reported exactly if a call failed. -/
  done : ∀ {m : Machine} {a : α} {m' : Machine}, m.Sized B → x m = .ok (a, m') → m'.Sized B ∧
    ∃ es, m'.trace = m.trace ++ es ∧ (failed a = true ↔ ∃ e ∈ es, e.IOError)
  /-- Answers that are not used do not matter. -/
  extend : ∀ {m : Machine} {a : α} {m' : Machine} (l : List Reply), m.Sized B → x m = .ok (a, m') →
    x (m.extend l) = .ok (a, m'.extend l)
  /-- A computation that waits for an answer fails if that is an error. -/
  waits : ∀ {m : Machine} {errno : Errno}, m.Sized B → errno.Hard → x m = .error .script →
    ∃ a m', x (m.extend [.error errno]) = .ok (a, m') ∧ failed a = true

/-- A computation that makes no more calls and reports a failure, as a caller does after one. -/
def Gives (B : ℕ) {α : Type} (x : Sys α) (failed : α → Bool) : Prop :=
  ∀ m : Machine, m.Sized B → ∃ (a : α) (m' : Machine), failed a = true ∧ m'.Sized B ∧
    m'.trace = m.trace ∧ ∀ l, x (m.extend l) = .ok (a, m'.extend l)

/-- The results a computation can come to. -/
def Returns (B : ℕ) {α : Type} (x : Sys α) (a : α) : Prop :=
  ∃ m m' : Machine, m.Sized B ∧ x m = .ok (a, m')

/-- A change of the machine that is no call. -/
structure Keeps (B : ℕ) (f : Machine → Machine) : Prop where
  /-- The buffers keep their size. -/
  sized : ∀ m : Machine, m.Sized B → (f m).Sized B
  /-- The trace stays what it is. -/
  trace : ∀ m, (f m).trace = m.trace
  /-- The answers are not looked at. -/
  extend : ∀ m l, f (m.extend l) = (f m).extend l

/-- After calls that did not fail, only the later ones count. -/
theorem exists_ioError_append {es fs : List Event} (hes : ¬∃ e ∈ es, e.IOError) :
    (∃ e ∈ es ++ fs, e.IOError) ↔ ∃ e ∈ fs, e.IOError := by
  simp only [List.mem_append, or_and_right, exists_or]
  exact or_iff_right hes

section Rules

variable {B : ℕ} {α β : Type} {failed : α → Bool} {failed' : β → Bool}

theorem bind_eq_error {x : Sys α} {k : α → Sys β} {m : Machine} {stop : Stop} :
    (x >>= k) m = .error stop ↔
      x m = .error stop ∨ ∃ a m₁, x m = .ok (a, m₁) ∧ k a m₁ = .error stop := by
  have hbind : (x >>= k) m = (x m).bind fun p ↦ k p.1 p.2 := rfl
  rw [hbind]
  cases hx : x m with
  | error s => simp [Except.bind]
  | ok p =>
    obtain ⟨a, m₁⟩ := p
    simp [Except.bind]

theorem bind_of_ok {x : Sys α} {k : α → Sys β} {m m₁ : Machine} {a : α} (h : x m = .ok (a, m₁)) :
    (x >>= k) m = k a m₁ := by
  have hbind : (x >>= k) m = (x m).bind fun p ↦ k p.1 p.2 := rfl
  rw [hbind, h]
  rfl

/-- Only where a computation comes to does it matter how it goes on. -/
theorem bind_congr_ok {x : Sys α} {k k' : α → Sys β} {m : Machine}
    (h : ∀ a m₁, x m = .ok (a, m₁) → k a m₁ = k' a m₁) : (x >>= k) m = (x >>= k') m := by
  have hbind : ∀ k : α → Sys β, (x >>= k) m = (x m).bind fun p ↦ k p.1 p.2 := fun _ ↦ rfl
  rw [hbind, hbind]
  cases hx : x m with
  | error stop => rfl
  | ok p => exact h p.1 p.2 hx

namespace Gives

theorem eq_ok {x : Sys α} (h : Gives B x failed) {m : Machine} (hm : m.Sized B) :
    ∃ (a : α) (m' : Machine), failed a = true ∧ m'.Sized B ∧ m'.trace = m.trace ∧ x m = .ok (a, m') ∧
      ∀ l, x (m.extend l) = .ok (a, m'.extend l) := by
  obtain ⟨a, m', ha, hm', htrace, hx⟩ := h m hm
  have hnil := hx []
  rw [m.extend_nil, m'.extend_nil] at hnil
  exact ⟨a, m', ha, hm', htrace, hnil, hx⟩

theorem pure {a : α} (ha : failed a = true) : Gives B (pure a) failed :=
  fun m hm ↦ ⟨a, m, ha, hm, rfl, fun _ ↦ rfl⟩

/-- A change of the machine before that. -/
theorem modify {f : Machine → Machine} {k : Unit → Sys α} (hf : Keeps B f)
    (h : Gives B (k ()) failed) : Gives B (modify f >>= k) failed := by
  intro m hm
  obtain ⟨a, m', ha, hm', htrace, hx⟩ := h (f m) (hf.sized m hm)
  refine ⟨a, m', ha, hm', htrace.trans (hf.trace m), fun l ↦ ?_⟩
  rw [← hx l, ← hf.extend]
  rfl

end Gives

namespace Reports

theorem sized {x : Sys α} (hx : Reports B x failed) {m m' : Machine} {a : α} (hm : m.Sized B)
    (h : x m = .ok (a, m')) : m'.Sized B := (hx.done hm h).1

/-- Given its calls, a computation has failed exactly if one of them did. -/
theorem failed_iff {x : Sys α} (hx : Reports B x failed) {m m' : Machine} {a : α} (hm : m.Sized B)
    (h : x m = .ok (a, m')) {es : List Event} (htr : m'.trace = m.trace ++ es) :
    failed a = true ↔ ∃ e ∈ es, e.IOError := by
  obtain ⟨-, fs, htr', hiff⟩ := hx.done hm h
  rwa [List.append_cancel_left (htr.symm.trans htr')]

/-- A result that is not a failure. -/
theorem pure {a : α} (ha : failed a = false) : Reports B (pure a) failed where
  done := by
    intro m b m' hm h
    obtain ⟨rfl, rfl⟩ := pure_eq_ok.mp h
    refine ⟨hm, [], (List.append_nil _).symm, ?_⟩
    rw [ha]
    exact ⟨fun h ↦ absurd h Bool.false_ne_true, fun ⟨e, he, _⟩ ↦ absurd he List.not_mem_nil⟩
  extend := by
    intro m b m' l hm h
    obtain ⟨rfl, rfl⟩ := pure_eq_ok.mp h
    rfl
  waits := by
    intro m errno hm hhard h
    cases h

theorem modify {f : Machine → Machine} (hf : Keeps B f) : Reports B (modify f) fun _ ↦ false where
  done := by
    intro m b m' hm h
    obtain rfl := modify_eq_ok.mp h
    refine ⟨hf.sized m hm, [], by rw [hf.trace, List.append_nil], ?_⟩
    exact ⟨fun h ↦ absurd h Bool.false_ne_true, fun ⟨e, he, _⟩ ↦ absurd he List.not_mem_nil⟩
  extend := by
    intro m b m' l hm h
    obtain rfl := modify_eq_ok.mp h
    exact congrArg (fun m ↦ Except.ok ((), m)) (hf.extend m l)
  waits := by
    intro m errno hm hhard h
    cases h

theorem orStop {c : Prop} [Decidable c] {stop : Stop} (hstop : stop ≠ .script) :
    Reports B (orStop c stop) fun _ ↦ false where
  done := by
    intro m b m' hm h
    obtain ⟨-, rfl⟩ := orStop_eq_ok.mp h
    exact ⟨hm, [], (List.append_nil _).symm, fun h ↦ absurd h Bool.false_ne_true,
      fun ⟨e, he, _⟩ ↦ absurd he List.not_mem_nil⟩
  extend := by
    intro m b m' l hm h
    obtain ⟨hc, rfl⟩ := orStop_eq_ok.mp h
    exact if_pos hc
  waits := by
    intro m errno hm hhard h
    rw [Fstest.orStop] at h
    split at h <;> cases h
    exact absurd rfl hstop

/-- What depends on the machine depends on its buffers only. -/
theorem get {k : Machine → Sys α} (h : ∀ m : Machine, m.Sized B → Reports B (k m) failed)
    (hextend : ∀ m l, k (m.extend l) = k m) : Reports B (get >>= k) failed where
  done := by
    intro m a m' hm hx
    exact (h m hm).done hm hx
  extend := by
    intro m a m' l hm hx
    have hk := (h m hm).extend l hm hx
    rw [← hextend m l] at hk
    exact hk
  waits := by
    intro m errno hm hhard hx
    have hk := (h m hm).waits hm hhard hx
    rw [← hextend m [.error errno]] at hk
    exact hk

/-- One computation after another: if the first has failed, nothing more is called. -/
theorem bind {x : Sys α} {k : α → Sys β} (hx : Reports B x failed)
    (hok : ∀ a, Returns B x a → failed a = false → Reports B (k a) failed')
    (hfail : ∀ a, Returns B x a → failed a = true → Gives B (k a) failed') :
    Reports B (x >>= k) failed' where
  done := by
    intro m b m' hm h
    obtain ⟨a, m₁, hxm, hk⟩ := bind_eq_ok.mp h
    obtain ⟨hm₁, es, hes, hiff⟩ := hx.done hm hxm
    cases ha : failed a with
    | false =>
      obtain ⟨hm', fs, hfs, hiff'⟩ := (hok a ⟨m, m₁, hm, hxm⟩ ha).done hm₁ hk
      have hquiet : ¬∃ e ∈ es, e.IOError := by
        rw [← hiff, ha]
        exact Bool.false_ne_true
      refine ⟨hm', es ++ fs, by rw [hfs, hes, List.append_assoc], ?_⟩
      rw [hiff', exists_ioError_append hquiet]
    | true =>
      obtain ⟨b', m₂, hb', hm₂, htrace, hk', -⟩ := (hfail a ⟨m, m₁, hm, hxm⟩ ha).eq_ok hm₁
      rw [hk] at hk'
      cases hk'
      exact ⟨hm₂, es, htrace.trans hes, fun _ ↦ hiff.mp ha, fun _ ↦ hb'⟩
  extend := by
    intro m b m' l hm h
    obtain ⟨a, m₁, hxm, hk⟩ := bind_eq_ok.mp h
    have hm₁ := hx.sized hm hxm
    rw [bind_of_ok (hx.extend l hm hxm)]
    cases ha : failed a with
    | false => exact (hok a ⟨m, m₁, hm, hxm⟩ ha).extend l hm₁ hk
    | true =>
      obtain ⟨b', m₂, -, -, -, hk', hall⟩ := (hfail a ⟨m, m₁, hm, hxm⟩ ha).eq_ok hm₁
      rw [hk] at hk'
      cases hk'
      exact hall l
  waits := by
    intro m errno hm hhard h
    rcases bind_eq_error.mp h with hwait | ⟨a, m₁, hxm, hwait⟩
    · obtain ⟨a, m₁, hxm, ha⟩ := hx.waits hm hhard hwait
      have hmore := hm.extend [.error errno]
      have hm₁ := hx.sized hmore hxm
      obtain ⟨b, m', hb, -, -, hk, -⟩ := (hfail a ⟨_, m₁, hmore, hxm⟩ ha).eq_ok hm₁
      exact ⟨b, m', by rw [bind_of_ok hxm, hk], hb⟩
    · have hm₁ := hx.sized hm hxm
      cases ha : failed a with
      | false =>
        rw [bind_of_ok (hx.extend _ hm hxm)]
        exact (hok a ⟨m, m₁, hm, hxm⟩ ha).waits hm₁ hhard hwait
      | true =>
        obtain ⟨b, m', -, -, -, hk, -⟩ := (hfail a ⟨m, m₁, hm, hxm⟩ ha).eq_ok hm₁
        rw [hwait] at hk
        cases hk

/-- The same where the result comes with a flag for the failure. -/
theorem bindFlag {x : Sys (Bool × α)} {k : Bool × α → Sys β} (hx : Reports B x Prod.fst)
    (hok : ∀ a, Returns B x (false, a) → Reports B (k (false, a)) failed')
    (hfail : ∀ a, Returns B x (true, a) → Gives B (k (true, a)) failed') :
    Reports B (x >>= k) failed' := by
  refine hx.bind ?_ ?_
  · rintro ⟨failed, a⟩ hret (rfl : failed = false)
    exact hok a hret
  · rintro ⟨failed, a⟩ hret (rfl : failed = true)
    exact hfail a hret

/-- A computation that cannot fail in front. -/
theorem andThen {x : Sys α} {k : α → Sys β} (hx : Reports B x fun _ ↦ false)
    (h : ∀ a, Reports B (k a) failed') : Reports B (x >>= k) failed' :=
  hx.bind (fun a _ _ ↦ h a) fun _ _ ha ↦ absurd ha Bool.false_ne_true

/-- The caller's test of a result: return at once after a failure, and go on otherwise. -/
theorem orReturn {x : Sys Bool} {y : Sys Bool} (hx : Reports B x id) (hy : Reports B y id) :
    Reports B (x >>= fun failed ↦ if failed = true then Pure.pure true else y) id := by
  refine hx.bind ?_ ?_
  · intro a _ ha
    rw [show a = false from ha, if_neg Bool.false_ne_true]
    exact hy
  · intro a _ ha
    rw [show a = true from ha, if_pos rfl]
    exact .pure rfl

theorem ite {c : Prop} [Decidable c] {x y : Sys α} (hx : c → Reports B x failed)
    (hy : ¬c → Reports B y failed) : Reports B (if c then x else y) failed := by
  split
  · next hc => exact hx hc
  · next hc => exact hy hc

end Reports

end Rules

end ViTools.Fstest
