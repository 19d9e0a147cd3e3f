import Mathlib.Algebra.BigOperators.Ring.Finset
import Mathlib.Algebra.Order.BigOperators.Group.List
import ViTools.Lib.MachineInt
import ViTools.Lib.Run
import ViTools.Lib.Strtol

/-!
# The program cgroup_memory_pressure_monitor

The program registers an event descriptor for the memory pressure of a control group, and prints how many
events there were whenever there were any.

Both the paths and the text of the registration are made with `snprintf`, which cuts them. A path that is
cut is the path of something else. For the text `%n` says how long it would have been, and that many bytes
are written, of an array that may be shorter. Once registered the program keeps an account: the kernel counts
the events, and a read takes the whole count, so that nothing is lost or reported twice however the events
and the reads interleave.
-/

namespace ViTools.CgroupMemoryPressureMonitor

/-! ## The program -/

/-- A string, up to the zero that ends it. -/
structure CString where
  chars : List Char
  not_mem : '\x00' ∉ chars

/-- What the calls before the loop return, given their arguments. -/
structure Sys where
  eventfd : ℤ
  open_rdonly : List Char → ℤ
  open_wronly : List Char → ℤ
  write : ℤ → List Char → ℤ

/-- What the program does before the loop. -/
inductive Effect
  | usage
  | perror (s : String)
  | open_rdonly (path : List Char)
  | open_wronly (path : List Char)
  | write (fd : ℤ) (buf : List Char)
  | close (fd : ℤ)
  deriving DecidableEq

/-- The string that `snprintf` leaves in an array of `size` characters. -/
def snprintf (size : ℕ) (text : List Char) : List Char := text.take (size - 1)

/-- The first `l` bytes of the array of 128 that holds the string, unless it is shorter. -/
def buf_bytes (text : List Char) (l : ℕ) : Option (List Char) :=
  if l ≤ 128 then some ((snprintf 128 text ++ ['\x00']).take l) else none

def pressure_level (cgroup : CString) : List Char := cgroup.chars ++ "/memory.pressure_level".toList

def event_control (cgroup : CString) : List Char := cgroup.chars ++ "/cgroup.event_control".toList

/-- The text of the registration. -/
def registration (efd mp : ℤ) (level : CString) : List Char :=
  print_d efd ++ ([' '] ++ (print_d mp ++ ([' '] ++ level.chars)))

/-- The program up to the loop, with its exit code if it does not get there; `none` for a read out of the
array. -/
def setup (level cgroup : CString) (sys : Sys) : Option (List Effect × Option ℕ) :=
  let efd := sys.eventfd
  if efd = -1 then some ([.perror "eventfd"], some 2)
  else
    let path := snprintf 4096 (pressure_level cgroup)
    let mp := sys.open_rdonly path
    let effects := [Effect.open_rdonly path]
    if mp = -1 then some (effects ++ [.perror "open memory.pressure_level"], some 3)
    else
      let path := snprintf 4096 (event_control cgroup)
      let cgc := sys.open_wronly path
      let effects := effects ++ [.open_wronly path]
      if cgc = -1 then some (effects ++ [.perror "open cgroup.event_control"], some 4)
      else do
        let text := registration efd mp level
        let buf ← buf_bytes text text.length
        let effects := effects ++ [.write cgc buf]
        if sys.write cgc buf = -1 then some (effects ++ [.perror "write"], some 5)
        else some (effects ++ [.close cgc, .close mp], none)

/-- What `read` returns. -/
inductive Read
  /-- Eight bytes. -/
  | value (x : UInt64)
  /-- No bytes. -/
  | zero
  /-- `EINTR` or `EAGAIN`. -/
  | again
  /-- Anything else. -/
  | other
  deriving DecidableEq

/-- The loop: the numbers printed, and the exit code if it ends with these reads. -/
def loop : List Read → List ℤ × Option ℕ
  | [] => ([], none)
  | .zero :: _ => ([], some 0)
  | .again :: reads => loop reads
  | .other :: _ => ([], some 6)
  | .value x :: reads => (wrap64 x.toNat :: (loop reads).1, (loop reads).2)

/-- `main`, with the arguments after the name of the program. -/
def main (argv : List CString) (sys : Sys) (reads : List Read) :
    Option (List Effect × List ℤ × Option ℕ) :=
  match argv with
  | [level, cgroup] =>
    if level.chars = "--help".toList then some ([.usage], [], some 1)
    else
      match setup level cgroup sys with
      | none => none
      | some (effects, some code) => some (effects, [], some code)
      | some (effects, none) => some (effects, loop reads)
  | _ => some ([.usage], [], some 1)

/-! ## The registration -/

section Registration

variable {level cgroup : CString} {sys : Sys}

/-- All the calls succeed. -/
structure Succeeds (sys : Sys) : Prop where
  eventfd : sys.eventfd ≠ -1
  open_rdonly : ∀ path, sys.open_rdonly path ≠ -1
  open_wronly : ∀ path, sys.open_wronly path ≠ -1
  write : ∀ fd buf, sys.write fd buf ≠ -1

/-- A string is whole exactly if there is room for it and the zero. -/
theorem snprintf_eq_self_iff {size : ℕ} {text : List Char} :
    snprintf size text = text ↔ text.length ≤ size - 1 := by
  constructor
  · intro h
    rw [← h, snprintf, List.length_take]
    exact Nat.min_le_left _ _
  · exact List.take_of_length_le

theorem not_mem_print_d (x : ℤ) : '\x00' ∉ print_d x := by
  intro hmem
  rw [print_d, Spelling.text] at hmem
  rcases List.mem_append.mp hmem with hsign | hdigit
  · cases hs : (Spelling.canonical x).sign <;> rw [hs] at hsign <;> simp [Sign.text] at hsign
  · exact absurd ((Spelling.canonical x).isDigit _ hdigit) (by decide)

theorem not_mem_registration (efd mp : ℤ) (level : CString) : '\x00' ∉ registration efd mp level := by
  rw [registration]
  simp [not_mem_print_d, level.not_mem]

/-- What is written is the text exactly if it fits. A text that is one too long ends in the zero, and a
longer one is not all in the array. -/
theorem buf_bytes_eq_some_iff {text : List Char} (h : '\x00' ∉ text) :
    buf_bytes text text.length = some text ↔ text.length ≤ 127 := by
  rw [buf_bytes]
  constructor
  · intro hbuf
    by_contra hlong
    split at hbuf
    · next hle =>
      have hlength : (snprintf 128 text ++ ['\x00']).length ≤ text.length := by
        rw [snprintf, List.length_append, List.length_take, List.length_singleton]
        omega
      rw [List.take_of_length_le hlength] at hbuf
      apply h
      rw [← Option.some.inj hbuf]
      exact List.mem_append_right _ List.mem_cons_self
    · cases hbuf
  · intro hle
    have hwhole : snprintf 128 text = text := snprintf_eq_self_iff.mpr hle
    rw [if_pos (by omega), hwhole, List.take_left]

theorem buf_bytes_eq_none_iff {text : List Char} :
    buf_bytes text text.length = none ↔ 128 < text.length := by
  rw [buf_bytes]
  split
  · next hle => exact iff_of_false (Option.some_ne_none _) (not_lt.mpr hle)
  · next hle => exact iff_of_true rfl (not_le.mp hle)

/-- The program, if no call fails. -/
theorem setup_eq (hs : Succeeds sys) : setup level cgroup sys =
    (buf_bytes (registration sys.eventfd (sys.open_rdonly (snprintf 4096 (pressure_level cgroup))) level)
      (registration sys.eventfd (sys.open_rdonly (snprintf 4096 (pressure_level cgroup))) level).length).map
    fun buf ↦ ([.open_rdonly (snprintf 4096 (pressure_level cgroup)),
      .open_wronly (snprintf 4096 (event_control cgroup)),
      .write (sys.open_wronly (snprintf 4096 (event_control cgroup))) buf,
      .close (sys.open_wronly (snprintf 4096 (event_control cgroup))),
      .close (sys.open_rdonly (snprintf 4096 (pressure_level cgroup)))], none) := by
  rw [setup, if_neg hs.eventfd]
  dsimp only
  rw [if_neg (hs.open_rdonly _), if_neg (hs.open_wronly _)]
  cases buf_bytes _ _ with
  | none => rfl
  | some buf =>
    rw [Option.bind_eq_bind, Option.bind_some, if_neg (hs.write _ _)]
    rfl

/-- **The registration.** If no call fails, the program opens the two files of the control group and writes the
text of the registration exactly if the name of the group has at most 4073 characters and the text at most
127. It reads out of its array exactly if the text has more than 128. -/
theorem setup_iff (hs : Succeeds sys) :
    (setup level cgroup sys = some ([.open_rdonly (pressure_level cgroup),
        .open_wronly (event_control cgroup),
        .write (sys.open_wronly (event_control cgroup))
          (registration sys.eventfd (sys.open_rdonly (pressure_level cgroup)) level),
        .close (sys.open_wronly (event_control cgroup)),
        .close (sys.open_rdonly (pressure_level cgroup))], none) ↔
      cgroup.chars.length ≤ 4073 ∧
        (registration sys.eventfd (sys.open_rdonly (pressure_level cgroup)) level).length ≤ 127) ∧
    (setup level cgroup sys = none ↔
      128 < (registration sys.eventfd
        (sys.open_rdonly ((pressure_level cgroup).take 4095)) level).length) := by
  have hlevel : (pressure_level cgroup).length = cgroup.chars.length + 22 := List.length_append
  have hcontrol : (event_control cgroup).length = cgroup.chars.length + 21 := List.length_append
  rw [setup_eq hs]
  constructor
  · constructor
    · intro h
      obtain ⟨buf, hbuf, heffects⟩ := Option.map_eq_some_iff.mp h
      obtain ⟨heffects, -⟩ := Prod.mk.inj heffects
      simp only [List.cons.injEq, Effect.open_rdonly.injEq, Effect.write.injEq] at heffects
      obtain ⟨hpath, -, ⟨-, rfl⟩, -⟩ := heffects
      have hshort := snprintf_eq_self_iff.mp hpath
      rw [hpath] at hbuf
      exact ⟨by omega, (buf_bytes_eq_some_iff (not_mem_registration _ _ _)).mp hbuf⟩
    · rintro ⟨hshort, htext⟩
      have hpath : snprintf 4096 (pressure_level cgroup) = pressure_level cgroup :=
        snprintf_eq_self_iff.mpr (by omega)
      have hpath' : snprintf 4096 (event_control cgroup) = event_control cgroup :=
        snprintf_eq_self_iff.mpr (by omega)
      rw [hpath, hpath', (buf_bytes_eq_some_iff (not_mem_registration _ _ _)).mpr htext]
      rfl
  · rw [Option.map_eq_none_iff]
    exact buf_bytes_eq_none_iff

end Registration

section Example

private def a_level : CString := ⟨"low".toList, by decide⟩

private def a_cgroup : CString := ⟨"/g".toList, by decide⟩

private def willing : Sys where
  eventfd := 3
  open_rdonly _ := 4
  open_wronly _ := 5
  write _ buf := buf.length

private theorem succeeds_willing : Succeeds willing where
  eventfd := by decide
  open_rdonly _ := show (4 : ℤ) ≠ -1 by decide
  open_wronly _ := show (5 : ℤ) ≠ -1 by decide
  write _ buf := ne_of_gt (Int.lt_of_lt_of_le (by decide) (Int.natCast_nonneg buf.length))

theorem setup_iff_low :
    setup a_level a_cgroup willing = some ([.open_rdonly "/g/memory.pressure_level".toList,
      .open_wronly "/g/cgroup.event_control".toList, .write 5 "3 4 low".toList, .close 5, .close 4], none) ∧
    (setup a_level a_cgroup willing = none ↔ 128 < 7) :=
  ⟨(setup_iff succeeds_willing).1.mpr (by decide), (setup_iff succeeds_willing).2⟩

end Example

/-! ## The events -/

/-- What happens to the event descriptor. -/
inductive Action
  /-- The kernel signals an event. -/
  | signal
  /-- A read is interrupted. -/
  | interrupt
  /-- A read returns the count. -/
  | read
  deriving DecidableEq

/-- The event descriptor: its count, and what the program gets. An event does not make the count wrap, and a
read of zero does not return. -/
def kernel (counter : UInt64) : Action → Option (List Read × UInt64)
  | .signal => some ([], if counter = 0xFFFFFFFFFFFFFFFF then counter else counter + 1)
  | .interrupt => some ([.again], counter)
  | .read => if counter = 0 then none else some ([.value counter], 0)

/-- The events among what happens. -/
def events (actions : List Action) : ℕ := actions.count .signal

theorem events_concat (actions : List Action) (a : Action) :
    events (actions ++ [a]) = events actions + events [a] := List.count_append

/-- What is printed of some reads, read as unsigned numbers. -/
def total (reads : List Read) : ℕ := ((loop reads).1.map toU64).sum

/-- The kernel keeps the program in its loop. -/
inductive Served : Read → Prop
  | value (x : UInt64) : x ≠ 0 → Served (.value x)
  | again : Served .again

/-- **The account.** The count and what was read add up to the events. -/
structure Account (actions : List Action) (reads : List Read) (counter : UInt64) : Prop where
  served : ∀ r ∈ reads, Served r
  total : total reads + counter.toNat = events actions

theorem loop_append {reads : List Read} (h : ∀ r ∈ reads, Served r) (reads' : List Read) :
    loop (reads ++ reads') = ((loop reads).1 ++ (loop reads').1, (loop reads').2) := by
  induction reads with
  | nil => rfl
  | cons r reads ih =>
    obtain ⟨hr, hreads⟩ := List.forall_mem_cons.mp h
    cases hr with
    | value x hx => rw [List.cons_append, loop, loop, ih hreads, List.cons_append]
    | again => rw [List.cons_append, loop, loop, ih hreads]

theorem total_append {reads : List Read} (h : ∀ r ∈ reads, Served r) (reads' : List Read) :
    total (reads ++ reads') = total reads + total reads' := by
  rw [total, loop_append h, List.map_append, List.sum_append]
  rfl

theorem total_value (x : UInt64) : total [.value x] = x.toNat := by
  rw [total, loop, loop, List.map_cons, List.map_nil, List.sum_cons, List.sum_nil, Nat.add_zero]
  exact toU64_wrap64 x.toNat_lt

/-- **Step lemma.** An event is counted and a read takes the count. -/
theorem Account.step {actions : List Action} {reads reads' : List Read} {counter counter' : UInt64}
    {a : Action} (h : Account actions reads counter) (hfew : events (actions ++ [a]) < 2 ^ 64)
    (hstep : kernel counter a = some (reads', counter')) :
    Account (actions ++ [a]) (reads ++ reads') counter' := by
  have htotal := h.total
  rw [events_concat] at hfew
  cases a with
  | signal =>
    obtain ⟨rfl, rfl⟩ := Prod.mk.inj (Option.some.inj hstep)
    refine ⟨?_, ?_⟩
    · rw [List.append_nil]
      exact h.served
    · have hone : events [.signal] = 1 := rfl
      rw [hone] at hfew
      have hroom : counter.toNat + 1 < 2 ^ 64 := by omega
      have hne : counter ≠ 0xFFFFFFFFFFFFFFFF := by
        rintro rfl
        exact absurd hroom (by decide)
      have hsum : (counter + 1).toNat = counter.toNat + 1 := by
        rw [UInt64.toNat_add]
        exact Nat.mod_eq_of_lt hroom
      rw [List.append_nil, if_neg hne, hsum, events_concat, hone]
      omega
  | interrupt =>
    obtain ⟨rfl, rfl⟩ := Prod.mk.inj (Option.some.inj hstep)
    refine ⟨?_, ?_⟩
    · exact List.forall_mem_append.mpr ⟨h.served, List.forall_mem_singleton.mpr .again⟩
    · rw [total_append h.served, events_concat]
      exact htotal
  | read =>
    rw [kernel] at hstep
    split at hstep
    · cases hstep
    · next hne =>
      obtain ⟨rfl, rfl⟩ := Prod.mk.inj (Option.some.inj hstep)
      refine ⟨?_, ?_⟩
      · exact List.forall_mem_append.mpr ⟨h.served, List.forall_mem_singleton.mpr (.value _ hne)⟩
      · rw [total_append h.served, total_value, events_concat]
        exact htotal

/-- **Run lemma.** -/
theorem Account.transduce {before actions : List Action} {reads : List Read} {os : List (List Read)}
    {counter counter' : UInt64} (h : Account before reads counter)
    (hfew : events (before ++ actions) < 2 ^ 64)
    (hrun : ViTools.transduce kernel counter actions = some (os, counter')) :
    Account (before ++ actions) (reads ++ os.flatten) counter' := by
  induction actions generalizing before reads os counter with
  | nil =>
    cases hrun
    rw [List.flatten_nil, List.append_nil, List.append_nil]
    exact h
  | cons a actions ih =>
    obtain ⟨o, counter₁, os', hstep, hrest, rfl⟩ := transduce_cons_eq_some.mp hrun
    rw [← List.singleton_append, ← List.append_assoc] at hfew ⊢
    have hone : events (before ++ [a]) < 2 ^ 64 := by
      have hle : events (before ++ [a]) ≤ events (before ++ [a] ++ actions) :=
        (List.sublist_append_left _ _).count_le _
      omega
    rw [List.flatten_cons, ← List.append_assoc]
    exact ih (h.step hone hstep) hfew hrest

/-- Nothing that is read ends the loop. -/
theorem loop_snd {reads : List Read} (h : ∀ r ∈ reads, Served r) : (loop reads).2 = none := by
  have hloop := loop_append h []
  rw [List.append_nil] at hloop
  rw [hloop]
  rfl

/-- Every number printed is one that was read. -/
theorem exists_value_of_mem_loop {reads : List Read} {x : ℤ} (hx : x ∈ (loop reads).1) :
    ∃ y, Read.value y ∈ reads ∧ x = wrap64 y.toNat := by
  induction reads with
  | nil => cases hx
  | cons r reads ih =>
    cases r with
    | value y =>
      rw [loop] at hx
      rcases List.mem_cons.mp hx with hy | hx
      · exact ⟨y, List.mem_cons_self, hy⟩
      · obtain ⟨z, hz, hxz⟩ := ih hx
        exact ⟨z, List.mem_cons_of_mem _ hz, hxz⟩
    | again =>
      obtain ⟨z, hz, hxz⟩ := ih hx
      exact ⟨z, List.mem_cons_of_mem _ hz, hxz⟩
    | zero => cases hx
    | other => cases hx

theorem toU64_pos_of_mem_loop {reads : List Read} (h : ∀ r ∈ reads, Served r) {x : ℤ}
    (hx : x ∈ (loop reads).1) : 0 < toU64 x := by
  obtain ⟨y, hy, hxy⟩ := exists_value_of_mem_loop hx
  rw [hxy, toU64_wrap64 y.toNat_lt]
  cases h _ hy with
  | value _ hne => exact Nat.pos_of_ne_zero fun h0 ↦ hne (UInt64.toNat_inj.mp h0)

/-- A number below `2 ^ 63` is printed as itself. -/
theorem toU64_of_mem_loop {reads : List Read} {x : ℤ} (hx : x ∈ (loop reads).1)
    (hsmall : total reads < 2 ^ 63) : (toU64 x : ℤ) = x := by
  have hle : toU64 x ≤ total reads := List.le_sum_of_mem (List.mem_map_of_mem hx)
  obtain ⟨y, -, hxy⟩ := exists_value_of_mem_loop hx
  rw [hxy, toU64_wrap64 y.toNat_lt] at hle ⊢
  exact (wrap64_eq_self (by omega) (by omega)).symm

/-- **Conservation.** However the events, the reads and the interrupts interleave, the program stays in its
loop, and what it has printed and the count of the descriptor add up to the events. No event is lost, none is
reported twice, and no line reports nothing. The numbers are printed as signed ones, and are what they say if
there were fewer than `2 ^ 63` events. -/
theorem events_conserved {actions : List Action} {os : List (List Read)} {counter : UInt64}
    (hfew : events actions < 2 ^ 64) (hrun : transduce kernel 0 actions = some (os, counter)) :
    (loop os.flatten).2 = none ∧
      ((loop os.flatten).1.map toU64).sum + counter.toNat = events actions ∧
      (∀ x ∈ (loop os.flatten).1, 0 < toU64 x) ∧
      (events actions < 2 ^ 63 →
        (loop os.flatten).1.sum + counter.toNat = events actions ∧ ∀ x ∈ (loop os.flatten).1, 0 < x) := by
  have hempty : Account [] [] 0 := ⟨fun r hr ↦ absurd hr List.not_mem_nil, rfl⟩
  have haccount := hempty.transduce hfew hrun
  rw [List.nil_append, List.nil_append] at haccount
  refine ⟨loop_snd haccount.served, haccount.total, fun x ↦ toU64_pos_of_mem_loop haccount.served, ?_⟩
  intro hfewer
  have htotal := haccount.total
  have hself : ∀ x ∈ (loop os.flatten).1, (toU64 x : ℤ) = x :=
    fun x hx ↦ toU64_of_mem_loop hx (by omega)
  constructor
  · have hsum : (total os.flatten : ℤ) = (loop os.flatten).1.sum := by
      rw [total, Nat.cast_list_sum, List.map_map]
      exact congrArg List.sum ((List.map_congr_left hself).trans (List.map_id' _))
    rw [← hsum]
    exact_mod_cast htotal
  · intro x hx
    have hpos := toU64_pos_of_mem_loop haccount.served hx
    rw [← hself x hx]
    exact_mod_cast hpos

private def bursts : List Action := [.signal, .signal, .read, .interrupt, .signal, .read, .signal]

theorem events_conserved_bursts :
    (loop [.value 2, .again, .value 1]).1 = [2, 1] ∧ events bursts = 4 ∧
      ((loop [.value 2, .again, .value 1]).1.sum + (1 : UInt64).toNat : ℤ) = events bursts := by
  have hrun : transduce kernel 0 bursts =
      some ([[], [], [.value 2], [.again], [], [.value 1], []], 1) := by decide
  exact ⟨by decide, by decide, ((events_conserved (by decide) hrun).2.2.2 (by decide)).1⟩

end ViTools.CgroupMemoryPressureMonitor
