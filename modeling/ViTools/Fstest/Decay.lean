import ViTools.Fstest.Detection
import ViTools.Lib.SilentChange

/-!
# Files that change by themselves

A run on a file that stores what it is given and returns what it holds, but whose bytes may change
between two calls: a bit that rots, a block that is acknowledged and lost (its bytes change back), a
write of another program. An `Incident` is a call of the run or such a change.

The checksums of a run that reaches the final check are those of the changes that are seen, that is
of the bytes read before they are overwritten, whatever their number and the times they happen at.
A run without changes is the special case of a correctly behaving file.

The last section says which bursts are missed: changes of adjoining bytes by the same value, as after
the loss of a byte-filled block in a byte-filled region. They cancel if their number is a multiple of
256, and also for every multiple of four at an even position.
-/

namespace ViTools.Fstest

open Access Happening ParityCode

/-- What happens to the tested file: a call of the program, or a byte that changes by itself. -/
inductive Incident
  | call (e : Event)
  | change (q : ℕ) (d : UInt8)

/-- The calls among the incidents. -/
def calls : List Incident → List Event
  | [] => []
  | .call e :: l => e :: calls l
  | .change _ _ :: l => calls l

/-- The file after a stored byte changed. -/
def File.change (f : File) (q : ℕ) (d : UInt8) : File where
  len := f.len
  byte j := if j = q ∧ q < f.len then f.byte q ^^^ d else f.byte j
  byte_eq_zero j hj := by
    rw [if_neg (by omega)]
    exact f.byte_eq_zero j hj

/-- Every call got an answer the file can give at the time, and every change is of a stored byte. -/
def Faithful : File → List Incident → Prop
  | _, [] => True
  | f, .call e :: l => e.Correct f ∧ Faithful (f.after e) l
  | f, .change q d :: l => q < f.len ∧ Faithful (f.change q d) l

/-- The changes of bytes that are read before they are overwritten. -/
def seenChanges : List Incident → List (ℕ × UInt8)
  | [] => []
  | .call _ :: l => seenChanges l
  | .change q d :: l =>
    if readNext q (accesses (calls l)) then (q, d) :: seenChanges l else seenChanges l

/-- The incidents as a history of the bytes of the file. -/
def history : File → List Incident → List (Happening ℕ UInt8)
  | _, [] => []
  | f, .call e :: l => e.accesses.map .access ++ history (f.after e) l
  | f, .change q d :: l => .change q (f.byte q ^^^ d) :: history (f.change q d) l

theorem byte_change {f : File} {q : ℕ} (hq : q < f.len) (d : UInt8) :
    (f.change q d).byte = Function.update f.byte q (f.byte q ^^^ d) := by
  funext j
  by_cases hj : j = q
  · subst hj
    rw [Function.update_self]
    exact if_pos ⟨rfl, hq⟩
  · rw [Function.update_of_ne hj]
    exact if_neg fun h ↦ hj h.1

/-! ## Histories -/

theorem visible_history (f : File) (l : List Incident) :
    visible (history f l) = accesses (calls l) := by
  induction l generalizing f with
  | nil => rfl
  | cons i l ih =>
    cases i with
    | call e => rw [history, visible_append, visible_map_access, ih, calls, accesses_cons]
    | change q d => exact ih _

theorem honest_reads {E : ℕ → UInt8} {vs : List UInt8} {q : ℕ}
    (h : ∀ i (hi : i < vs.length), vs[i] = E (q + i)) :
    Honest E ((reads (vs.zipIdx q)).map Happening.access) := by
  induction vs generalizing q with
  | nil => exact trivial
  | cons v vs ih =>
    refine ⟨h 0 (Nat.zero_lt_succ _), ih fun i hi ↦ ?_⟩
    have hnext := h (i + 1) (Nat.succ_lt_succ hi)
    rwa [List.getElem_cons_succ, ← Nat.add_assoc, Nat.add_right_comm] at hnext

theorem honest_writes (E : ℕ → UInt8) (vs : List (UInt8 × ℕ)) :
    Honest E ((writes vs).map Happening.access) := by
  induction vs generalizing E with
  | nil => exact trivial
  | cons p vs ih => exact ih _

theorem Event.Correct.honest {f : File} {e : Event} (h : e.Correct f) :
    Honest f.byte (e.accesses.map Happening.access) := by
  rcases e with ⟨pos, len, data | errno⟩ | ⟨pos, data, stored | errno⟩ | _ | _
  case pread.ok =>
    refine honest_reads fun i hi ↦ ?_
    cases data with
    | nil =>
      obtain ⟨hpos, hend⟩ := h
      simp only [if_true, List.getElem_replicate]
      exact (f.byte_eq_zero _ (by omega)).symm
    | cons v data =>
      obtain ⟨-, -, hdata⟩ := h
      simp only [if_neg (List.cons_ne_nil v data)] at hi ⊢
      rw [List.getElem_of_eq hdata]
      simp [File.slice]
  case pwrite.ok => exact honest_writes _ _
  all_goals exact trivial

theorem Faithful.honest {f : File} {l : List Incident} (h : Faithful f l) :
    Honest f.byte (history f l) := by
  induction l generalizing f with
  | nil => exact trivial
  | cons i l ih =>
    cases i with
    | call e =>
      refine (honest_access_append _ _).mpr ⟨h.1.honest, ?_⟩
      rw [(Event.Correct.accesses h.1).2]
      exact ih h.2
    | change q d =>
      have hrest := ih h.2
      rwa [byte_change h.1] at hrest

theorem seen_access_append (F : ℕ → UInt8) (l : List (Access ℕ UInt8))
    (k : List (Happening ℕ UInt8)) :
    seen contrib F (l.map Happening.access ++ k) = seen contrib (after F l) k := by
  induction l generalizing F with
  | nil => rfl
  | cons x l ih => cases x <;> exact ih _

theorem seen_history {f : File} {l : List Incident} (h : Faithful f l) :
    seen contrib f.byte (history f l) = fun k ↦ XorByte.of (xorOver k (seenChanges l)) := by
  induction l generalizing f with
  | nil => rfl
  | cons i l ih =>
    cases i with
    | call e => rw [history, seen_access_append, (Event.Correct.accesses h.1).2, ih h.2, seenChanges]
    | change q d =>
      have hd : contrib q (f.byte q ^^^ d) - contrib q (f.byte q) = contrib q d := by
        rw [contrib_xor, add_sub_cancel_left]
      rw [history, seen, visible_history, hd, ← byte_change h.1, ih h.2, seenChanges]
      split
      · funext k
        rw [of_xorOver_cons, Pi.add_apply]
      · rw [zero_add]

/-! ## Runs -/

theorem alternating_rest {p : Params} {env : Env} {exit : Exit} (hsize : 0 ≤ p.size)
    (hrun : main p env = .ok exit) (hfinal : exit.verdict.isSome)
    (hzero : ∀ e ∈ exit.rest, ¬e.ZeroWrite) : Alternating (accesses exit.rest) := by
  obtain ⟨hblock, failed, m₁, m₂, -, hcheck, rfl⟩ := main_verdict hrun hfinal
  have hrest : (final_check m₁.trace m₂).rest = m₂.trace := by
    rw [final_check]
    split <;> rfl
  rw [hrest] at hzero ⊢
  obtain ⟨es, htrace, hes⟩ := check_ok hsize hblock hcheck
  have htrace' : m₂.trace = es := by rw [htrace]; rfl
  rw [htrace'] at hzero ⊢
  obtain ⟨-, k₁, k₂, hswaps, ⟨vs, -, rfl⟩, hk⟩ := hes hzero
  rw [hk]
  refine alternating_swaps hswaps ?_
  have hnd : ((vs.zipIdx 0).map Prod.snd).Nodup := by
    rw [addresses_zipIdx]
    exact List.nodup_range'
  have halt := alternating_reads hnd (k := ([] : List (Access ℕ UInt8))) trivial fun a _ ↦ rfl
  rwa [List.append_nil] at halt

/-- On a file whose limit does not overflow, a run in which the pre-read is answered correctly ends with
the discrepancies from the bytes the file then holds. -/
theorem exit_xors_of_correct_preread {p : Params} {env : Env} {exit : Exit} {f : File}
    (hsize : 1 ≤ p.size) (hfit : p.size + p.max_blocksize < 2 ^ 63)
    (hlen : f.len + p.max_blocksize < 2 ^ 63) (hstat : env.st_size = f.len)
    (hrun : main p env = .ok exit) (hpre : Correct f exit.preread)
    (hrest : ∀ e ∈ exit.rest, ¬e.ZeroWrite) (hfinal : exit.verdict.isSome) :
    (fun k ↦ XorByte.of (exit.xors k))
      = discrepancy contrib (f.afterAll exit.preread).byte (accesses exit.rest) := by
  have hzero : ∀ e ∈ exit.preread ++ exit.rest, ¬e.ZeroWrite := fun e he ↦ by
    rcases List.mem_append.mp he with he | he
    · exact hpre.forall_mem (fun _ _ he ↦ he.not_zeroWrite) e he
    · exact hrest e he
  obtain ⟨hne, ⟨vs, hvs, hread⟩, hbal⟩ := exit_sums (by omega) hrun hfinal hzero
    fun q n errno hq h1 h2 hmem ↦ by
      refine hpre.forall_mem (P := fun e ↦ e ≠ .pread q n (.error errno)) (fun f' e he heq ↦ ?_) _
        hmem rfl
      subst heq
      exact (he.pread_error (hq hfit)).elim h1 h2
  have hentered : booked contrib (accesses exit.preread)
      = held contrib (Finset.range (sweep_end (sweep_size p f.len 1) p.max_blocksize)) f.byte := by
    have h := balance_reads contrib (S := Finset.range vs.length) (l := vs.zipIdx 0)
      (by rw [addresses_zipIdx]; exact List.nodup_range') (by rw [addresses_zipIdx]; ext; simp) f.byte
    rwa [← hread, hpre.accesses.1, add_zero, xor_neg_eq, hvs, hstat] at h
  have hfile : (f.afterAll exit.preread).byte = f.byte := by
    rw [← hpre.accesses.2, hread, after_reads]
  rw [hbal (f.afterAll exit.preread).byte, hfile, hentered, held_preread hne hlen, xor_add_self,
    zero_add]

theorem not_zeroWrite_of_faithful {f : File} {l : List Incident} (h : Faithful f l) :
    ∀ e ∈ calls l, ¬e.ZeroWrite := by
  induction l generalizing f with
  | nil => exact fun e he ↦ absurd he List.not_mem_nil
  | cons i l ih =>
    cases i with
    | call e => exact List.forall_mem_cons.mpr ⟨h.1.not_zeroWrite, ih h.2⟩
    | change q d => exact ih h.2

section Changes

variable {p : Params} {env : Env} {exit : Exit} {f : File} {l : List Incident}
  (hsize : 1 ≤ p.size) (hfit : p.size + p.max_blocksize < 2 ^ 63)
  (hlen : f.len + p.max_blocksize < 2 ^ 63) (hstat : env.st_size = f.len)
  (hrun : main p env = .ok exit) (hpre : Correct f exit.preread) (hcalls : calls l = exit.rest)
  (hfaith : Faithful (f.afterAll exit.preread) l) (hfinal : exit.verdict.isSome)
include hsize hfit hlen hstat hrun hpre hcalls hfaith hfinal

theorem exit_xors_eq_seenChanges (k : Fin 9) : exit.xors k = xorOver k (seenChanges l) := by
  have hzero := not_zeroWrite_of_faithful hfaith
  rw [hcalls] at hzero
  have halt := alternating_rest (by omega) hrun hfinal hzero
  have hxors := exit_xors_of_correct_preread hsize hfit hlen hstat hrun hpre hzero hfinal
  rw [← hcalls, ← visible_history (f.afterAll exit.preread)] at halt hxors
  rw [discrepancy_eq_seen hfaith.honest halt, seen_history hfaith] at hxors
  exact XorByte.of_inj.mp (congrFun hxors k)

/-- **Silent changes.** The final checksums are the exclusive ors of the changes that are read before
they are overwritten. Such changes are missed only if no class or at least four classes of them do not
cancel; and a single one is located. -/
theorem main_xors_eq_seenChanges :
    (∀ k, exit.xors k = xorOver k (seenChanges l)) ∧
      (exit.verdict = some .OK →
        wrongClasses (seenChanges l) = ∅ ∨ 4 ≤ (wrongClasses (seenChanges l)).card) ∧
      ∀ q d, seenChanges l = [(q, d)] → d ≠ 0 →
        exit.verdict = some .fail ∧ exit.xors 8 = d ∧ located exit.xors = q % 256 := by
  have hxors := exit_xors_eq_seenChanges hsize hfit hlen hstat hrun hpre hcalls hfaith hfinal
  refine ⟨hxors, wrongClasses_of_OK hrun hfinal hxors, fun q d hone hd ↦ ?_⟩
  obtain ⟨hclass, hvalue⟩ := wrongClasses_singleton q hd
  rw [hone] at hxors
  obtain ⟨hlocated, htotal⟩ := located_eq hxors hclass
  refine ⟨fail_of_card hrun hfinal hxors ?_ ?_, htotal.trans hvalue, hlocated⟩
  · rw [hclass, Finset.card_singleton]
  · rw [hclass, Finset.card_singleton]
    decide

end Changes

/-! ## Bursts -/

/-- The parity of the number of positions below `n` that count for checksum `k`. -/
def oddBelow (k : Fin 9) (n : ℕ) : Bool :=
  if k = 8 then n.testBit 0 else if k = 0 then n.testBit 1 else n.testBit k && n.testBit 0

/-- Equal changes of `n` adjoining bytes. -/
def burst (q n : ℕ) (d : UInt8) : List (ℕ × UInt8) := (List.range' q n).map fun q ↦ (q, d)

theorem xorOver_perm (k : Fin 9) {l l' : List (ℕ × UInt8)} (h : l.Perm l') :
    xorOver k l = xorOver k l' := by
  induction h with
  | nil => rfl
  | cons p _ ih => rw [xorOver, ih, xorOver]
  | swap p p' l =>
    rw [xorOver, xorOver, xorOver, xorOver]
    ac_rfl
  | trans _ _ ih ih' => rw [ih, ih']

theorem testBit_succ_of_even {q k : ℕ} (hq : q % 2 = 0) (hk : k ≠ 0) :
    (q + 1).testBit k = q.testBit k := by
  obtain ⟨j, rfl⟩ := Nat.exists_eq_succ_of_ne_zero hk
  rw [Nat.testBit_succ, Nat.testBit_succ, show (q + 1) / 2 = q / 2 by omega]

theorem oddBelow_succ (k : Fin 9) (q : ℕ) :
    (k = 8 ∨ q / 2 ^ (k : ℕ) % 2 = 1) ↔ oddBelow k q ≠ oddBelow k (q + 1) := by
  have hbit0 : ∀ n : ℕ, n.testBit 0 = decide (n % 2 = 1) := Nat.testBit_zero
  have hbit : q / 2 ^ (k : ℕ) % 2 = 1 ↔ q.testBit k = true := by
    rw [Nat.testBit_eq_decide_div_mod_eq, decide_eq_true_iff]
  rw [oddBelow, oddBelow]
  by_cases h8 : k = 8
  · simp only [h8, if_true, true_or, true_iff, hbit0, ne_eq, decide_eq_decide]
    omega
  · rw [if_neg h8, if_neg h8, or_iff_right h8]
    by_cases h0 : k = 0
    · subst h0
      simp only [if_true, Fin.val_zero, pow_zero, Nat.div_one, Nat.testBit_eq_decide_div_mod_eq, ne_eq,
        decide_eq_decide]
      omega
    · have hk : (k : ℕ) ≠ 0 := fun h ↦ h0 (Fin.ext h)
      rw [if_neg h0, if_neg h0, hbit, hbit0, hbit0]
      -- the last bit decides which of the two sides has bit `k` at all
      rcases Nat.mod_two_eq_zero_or_one q with hq | hq
      · rw [testBit_succ_of_even hq hk]
        simp [hq, show (q + 1) % 2 = 1 by omega]
      · simp [hq, show (q + 1) % 2 = 0 by omega]

theorem xorOver_burst (k : Fin 9) (q n : ℕ) (d : UInt8) :
    xorOver k (burst q n d) = if oddBelow k q = oddBelow k (q + n) then 0 else d := by
  induction n generalizing q with
  | zero => rw [Nat.add_zero, if_pos rfl]; rfl
  | succ n ih =>
    have hstep : xorOver k (burst q (n + 1) d)
        = (if k = 8 ∨ q / 2 ^ (k : ℕ) % 2 = 1 then d else 0) ^^^ xorOver k (burst (q + 1) n d) := rfl
    rw [hstep, ih, Nat.add_right_comm, Nat.add_assoc]
    simp only [oddBelow_succ]
    cases oddBelow k q <;> cases oddBelow k (q + 1) <;> cases oddBelow k (q + (n + 1)) <;> simp

theorem oddBelow_eq_iff (q n : ℕ) :
    (∀ k, oddBelow k q = oddBelow k (q + n)) ↔ 256 ∣ n ∨ (2 ∣ q ∧ 4 ∣ n) := by
  have hbit : ∀ m k : ℕ, m.testBit k = decide (m / 2 ^ k % 2 = 1) := fun m k ↦
    Nat.testBit_eq_decide_div_mod_eq
  have hsame : q % 256 = (q + n) % 256 ↔ ∀ k < 8, q.testBit k = (q + n).testBit k := by
    rw [mod_256_eq_iff]
    constructor
    · intro h k hk
      rw [hbit, hbit, decide_eq_decide]
      exact h ⟨k, by omega⟩ (by rw [ne_eq, Fin.ext_iff]; exact hk.ne)
    · intro h k hk
      rw [← decide_eq_decide, ← hbit, ← hbit]
      exact h k (by omega)
  constructor
  · intro h
    have h8 := h 8
    have h0 := h 0
    simp only [oddBelow, if_true, hbit, pow_zero, Nat.div_one, decide_eq_decide] at h8
    simp only [oddBelow, if_true, show (0 : Fin 9) ≠ 8 by decide, if_false, hbit,
      decide_eq_decide] at h0
    rcases Nat.mod_two_eq_zero_or_one q with hq | hq
    · right
      omega
    · -- behind an odd position every bit has to come back
      left
      have hmod : q % 256 = (q + n) % 256 := hsame.mpr fun k hk ↦ by
        by_cases hk0 : k = 0
        · simp only [hk0, hbit, pow_zero, Nat.div_one, decide_eq_decide]
          exact h8
        · have hk' := h ⟨k, by omega⟩
          have hne8 : (⟨k, by omega⟩ : Fin 9) ≠ 8 := by
            rw [ne_eq, Fin.ext_iff]
            exact hk.ne
          have hne0 : (⟨k, by omega⟩ : Fin 9) ≠ 0 := by
            rw [ne_eq, Fin.ext_iff]
            exact hk0
          have hlast : ∀ m : ℕ, m % 2 = 1 → m.testBit 0 = true := fun m hm ↦ by
            rw [Nat.testBit_zero, hm]
            rfl
          simp only [oddBelow, if_neg hne8, if_neg hne0, hlast q hq, hlast (q + n) (by omega),
            Bool.and_true] at hk'
          exact hk'
      omega
  · rintro (hn | ⟨hq, hn⟩) k
    · have hall := hsame.mp (by omega)
      rw [oddBelow, oddBelow, hall 0 (by omega), hall 1 (by omega)]
      by_cases h8 : k = 8
      · rw [if_pos h8, if_pos h8]
      · rw [if_neg h8, if_neg h8, hall k (by omega)]
    · have hlast : ∀ m : ℕ, m % 2 = 0 → m.testBit 0 = false := fun m hm ↦ by
        rw [Nat.testBit_zero, hm]
        rfl
      have hsecond : q.testBit 1 = (q + n).testBit 1 := by
        rw [hbit, hbit, decide_eq_decide]
        omega
      rw [oddBelow, oddBelow, hlast q (by omega), hlast (q + n) (by omega), hsecond, Bool.and_false,
        Bool.and_false]

/-- **Missed bursts.** If the changes that are read before they are overwritten are equal changes of
adjoining bytes, they are missed exactly if their number is a multiple of 256, or is a multiple of four
and they start at an even position. -/
theorem main_misses_burst {p : Params} {env : Env} {exit : Exit} {f : File} {l : List Incident}
    (hsize : 1 ≤ p.size) (hfit : p.size + p.max_blocksize < 2 ^ 63)
    (hlen : f.len + p.max_blocksize < 2 ^ 63) (hstat : env.st_size = f.len)
    (hrun : main p env = .ok exit) (hpre : Correct f exit.preread) (hcalls : calls l = exit.rest)
    (hfaith : Faithful (f.afterAll exit.preread) l) (hfinal : exit.verdict.isSome) {q n : ℕ} {d : UInt8}
    (hd : d ≠ 0) (hburst : (seenChanges l).Perm (burst q n d)) :
    exit.verdict = some .OK ↔ 256 ∣ n ∨ (2 ∣ q ∧ 4 ∣ n) := by
  rw [verdict_eq_OK_iff hrun hfinal, ← oddBelow_eq_iff]
  refine forall_congr' fun k ↦ ?_
  rw [exit_xors_eq_seenChanges hsize hfit hlen hstat hrun hpre hcalls hfaith hfinal,
    xorOver_perm k hburst, xorOver_burst]
  split
  · next heq => exact ⟨fun _ ↦ heq, fun _ ↦ rfl⟩
  · next hne => exact ⟨fun h ↦ absurd h hd, fun h ↦ absurd h hne⟩

/-! ### Concrete runs -/

/-- Three bytes in one block of up to seven, with one chain of one block. -/
private def blockParams : Params where
  size := 3
  num_iterations := 1
  max_blocksize := 8
  max_chainlen := 1
  sync_part := 0
  size_off64 := three_off64

/-- A file of four zeros. -/
private def zeroFile : File where
  len := 4
  byte _ := 0
  byte_eq_zero _ _ := rfl

/-- A block of four bytes 7 is written over the zeros; the final sweep reads `last`. -/
private def blockEnv (last : List UInt8) : Env where
  file_opens := true
  random_opens := true
  st_size := 4
  interrupted _ := false
  garbage _ := 0
  script := [.ok [0, 0, 0, 0], .ok [],
    .ok [0, 0, 0, 0, 0, 0, 0, 0], .ok [0, 0, 0, 0], .ok [4, 0, 0, 0, 0, 0, 0, 0], .ok [2], .ok [7],
    .ok [0, 0, 0, 0], .ok [7, 7, 7, 7], .ok last, .ok []]

/-- The calls before the final sweep. -/
private def blockCalls : List Event :=
  [.read 8 (.ok [0, 0, 0, 0, 0, 0, 0, 0]), .read 4 (.ok [0, 0, 0, 0]),
    .read 8 (.ok [4, 0, 0, 0, 0, 0, 0, 0]), .read 1 (.ok [2]), .read 1 (.ok [7]),
    .pread 0 4 (.ok [0, 0, 0, 0]), .pwrite 0 [7, 7, 7, 7] (.ok [7, 7, 7, 7])]

private theorem main_blockEnv_decayed : (main blockParams (blockEnv [7, 7, 15, 7])).map
    (fun exit ↦ (exit.verdict, exit.preread, exit.rest))
      = .ok (some .fail, [.pread 0 8 (.ok [0, 0, 0, 0]), .pread 4 4 (.ok [])],
        blockCalls ++ [.pread 0 8 (.ok [7, 7, 15, 7]), .pread 4 4 (.ok [])]) := by decide +kernel

private theorem main_blockEnv_lost : (main blockParams (blockEnv [0, 0, 0, 0])).map
    (fun exit ↦ (exit.verdict, exit.preread, exit.rest))
      = .ok (some .OK, [.pread 0 8 (.ok [0, 0, 0, 0]), .pread 4 4 (.ok [])],
        blockCalls ++ [.pread 0 8 (.ok [0, 0, 0, 0]), .pread 4 4 (.ok [])]) := by decide +kernel

/-- A bit of the third byte decays after the block was written. -/
private def decayed : List Incident :=
  blockCalls.map .call ++ [.change 2 8, .call (.pread 0 8 (.ok [7, 7, 15, 7])),
    .call (.pread 4 4 (.ok []))]

/-- The block is acknowledged and lost. -/
private def lost : List Incident :=
  blockCalls.map .call ++ [.change 0 7, .change 1 7, .change 2 7, .change 3 7,
    .call (.pread 0 8 (.ok [0, 0, 0, 0])), .call (.pread 4 4 (.ok []))]

private theorem correct_zero_preread :
    Correct zeroFile [.pread 0 8 (.ok [0, 0, 0, 0]), .pread 4 4 (.ok [])] := by
  simp only [Correct, Event.Correct]
  decide +kernel

/-- A decayed bit is reported and located. -/
theorem main_xors_eq_seenChanges_decayed : ∃ exit, main blockParams (blockEnv [7, 7, 15, 7]) = .ok exit ∧
    exit.verdict = some .fail ∧ exit.xors 8 = 8 ∧ located exit.xors = 2 := by
  obtain ⟨exit, hrun, hexit⟩ := exceptMap_eq_ok.mp main_blockEnv_decayed
  simp only [Prod.mk.injEq] at hexit
  obtain ⟨hverdict, hpre, hrest⟩ := hexit
  have hfaith : Faithful (zeroFile.afterAll exit.preread) decayed := by
    rw [hpre]
    simp only [decayed, blockCalls, List.map_cons, List.map_nil, List.cons_append, List.nil_append,
      Faithful, Event.Correct]
    decide +kernel
  have hmain := main_xors_eq_seenChanges (f := zeroFile) (by decide) (by decide) (by decide) rfl hrun
    (hpre ▸ correct_zero_preread) (hrest.symm ▸ rfl) hfaith (by rw [hverdict]; rfl)
  exact ⟨exit, hrun, hmain.2.2 2 8 (by decide +kernel) (by decide)⟩

/-- A lost block of four equal bytes over zeros is missed. -/
theorem main_misses_burst_lost : ∃ exit, main blockParams (blockEnv [0, 0, 0, 0]) = .ok exit ∧
    calls lost = exit.rest ∧ exit.verdict = some .OK := by
  obtain ⟨exit, hrun, hexit⟩ := exceptMap_eq_ok.mp main_blockEnv_lost
  simp only [Prod.mk.injEq] at hexit
  obtain ⟨hverdict, hpre, hrest⟩ := hexit
  have hfaith : Faithful (zeroFile.afterAll exit.preread) lost := by
    rw [hpre]
    simp only [lost, blockCalls, List.map_cons, List.map_nil, List.cons_append, List.nil_append,
      Faithful, Event.Correct]
    decide +kernel
  have hseen : (seenChanges lost).Perm (burst 0 4 7) :=
    .of_eq (by decide +kernel)
  have hmain := main_misses_burst (f := zeroFile) (by decide) (by decide) (by decide) rfl hrun
    (hpre ▸ correct_zero_preread) (hrest.symm ▸ rfl) hfaith (by rw [hverdict]; rfl) (by decide) hseen
  exact ⟨exit, hrun, hrest.symm ▸ rfl, hmain.mpr (.inr (by decide))⟩

end ViTools.Fstest
