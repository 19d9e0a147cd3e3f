import ViTools.Fstest.Accounting
import ViTools.Fstest.Chain
import ViTools.Fstest.File

/-!
# What fstest writes

Whatever the program decides, it decides by bytes of its random source: where a chain goes, what its
blocks hold, and which of them are synced. So the blocks it writes can be computed from the stream of these
bytes, and `plan` does so. No byte of the tested file goes into it.

`Performs` says that the calls between two states draw a stretch of the stream and write certain blocks,
and each function of the program is shown to perform its part of the plan. The proviso is the one
`safe_fileop` needs: that no `pwrite` returned `0`.
-/

namespace ViTools.Fstest

/-! ## Blocks in a trace -/

/-- What a trace shows of the blocks written. -/
inductive Issue
  /-- A block goes to a position. -/
  | write (pos : ℤ) (data : List UInt8)
  /-- The file is synced. -/
  | fsync
  deriving DecidableEq

/-- How much of its data a call of `pwrite` leaves to be stored. -/
def unstored (data : List UInt8) : Reply → ℕ
  | .ok stored => data.length - stored.length
  | .error _ => data.length

/-- The issues of a list of calls before which `n` bytes of a block remain, and how many remain after
them. A call of `pwrite` starts a new block if nothing is left of the one before. -/
def scanIssues : ℕ → List Event → List Issue × ℕ
  | n, [] => ([], n)
  | n, .pwrite pos data reply :: es =>
    let r := scanIssues (unstored data reply) es
    (if n = 0 then .write pos data :: r.1 else r.1, r.2)
  | n, .fsync :: es =>
    let r := scanIssues n es
    (.fsync :: r.1, r.2)
  | n, .pread _ _ _ :: es => scanIssues n es
  | n, .read _ _ :: es => scanIssues n es

/-- The blocks a list of calls writes, and the syncs between them. -/
def issued (es : List Event) : List Issue := (scanIssues 0 es).1

theorem scanIssues_append (n : ℕ) (es fs : List Event) :
    scanIssues n (es ++ fs) = ((scanIssues n es).1 ++ (scanIssues (scanIssues n es).2 fs).1,
      (scanIssues (scanIssues n es).2 fs).2) := by
  induction es generalizing n with
  | nil => rfl
  | cons e es ih =>
    cases e with
    | pread pos len reply => exact ih n
    | read len reply => exact ih n
    | fsync =>
      simp only [List.cons_append, scanIssues, ih n]
    | pwrite pos data reply =>
      simp only [List.cons_append, scanIssues, ih]
      split <;> rfl

/-- The bytes a call draws from the random source. At its end the program goes on with zeros. -/
def Event.drawn : Event → List UInt8
  | .read len (.ok data) => if data = [] then List.replicate len 0 else data
  | _ => []

/-- The bytes a list of calls draws from the random source. -/
def drawn (es : List Event) : List UInt8 := es.flatMap Event.drawn

theorem drawn_cons (e : Event) (es : List Event) : drawn (e :: es) = e.drawn ++ drawn es :=
  List.flatMap_cons

theorem drawn_append (es fs : List Event) : drawn (es ++ fs) = drawn es ++ drawn fs :=
  List.flatMap_append

/-- A call that writes nothing. -/
def Event.ReadsOnly : Event → Prop
  | .pread _ _ _ | .read _ _ => True
  | .pwrite _ _ _ | .fsync => False

theorem readsOnly_of_reads {es : List Event} (h : ∀ e ∈ es, ∃ len reply, e = .read len reply) :
    ∀ e ∈ es, e.ReadsOnly := by
  intro e he
  obtain ⟨len, reply, rfl⟩ := h e he
  trivial

/-- Such calls issue nothing and leave the file alone. -/
theorem scanIssues_of_readsOnly {es : List Event} (h : ∀ e ∈ es, e.ReadsOnly) :
    (∀ n, scanIssues n es = ([], n)) ∧ ∀ f : File, f.afterAll es = f := by
  induction es with
  | nil => exact ⟨fun _ ↦ rfl, fun _ ↦ rfl⟩
  | cons e es ih =>
    obtain ⟨he, hes⟩ := List.forall_mem_cons.mp h
    cases e with
    | pread pos len reply => exact ih hes
    | read len reply => exact ih hes
    | pwrite pos data reply => exact absurd he id
    | fsync => exact absurd he id

theorem afterAll_append (f : File) (es fs : List Event) :
    f.afterAll (es ++ fs) = (f.afterAll es).afterAll fs := by
  induction es generalizing f with
  | nil => rfl
  | cons e es ih => exact ih _

/-! ## The plan -/

/-- A block to be written. -/
structure Block where
  /-- Where it starts. -/
  pos : ℤ
  /-- Its bytes. -/
  data : List UInt8
  /-- Whether the file is synced after it. -/
  synced : Bool

/-- What a trace shows of a block. An empty one makes no call but its `fsync`. -/
def Block.issues (b : Block) : List Issue :=
  (if b.data = [] then [] else [.write b.pos b.data]) ++ if b.synced then [.fsync] else []

/-- The file after a block was written. -/
def File.store (f : File) (b : Block) : File := if b.data = [] then f else f.write b.pos.toNat b.data

/-- The `n` bytes of a stream from index `q` on. -/
def stretch (s : ℕ → UInt8) (q n : ℕ) : List UInt8 := (List.range' q n).map s

@[simp] theorem length_stretch (s : ℕ → UInt8) (q n : ℕ) : (stretch s q n).length = n := by
  rw [stretch, List.length_map, List.length_range']

theorem stretch_add (s : ℕ → UInt8) (q n k : ℕ) :
    stretch s q (n + k) = stretch s q n ++ stretch s (q + n) k := by
  rw [stretch, stretch, stretch, ← List.map_append, List.range'_append_1]

section Plan

variable (p : Params) (s : ℕ → UInt8)

/-- The contents of a block of `len` bytes, from the stream at `q`, and where the stream is after it. -/
def planBlock (len q : ℕ) : List UInt8 × ℕ :=
  let mode := leNat (stretch s q 1)
  if mode % 4 = 0 ∨ mode % 4 = 1 then (stretch s (q + 1) len, q + 1 + len)
  else if mode % 4 = 2 then
    (List.replicate len (UInt8.ofNat (leNat (stretch s (q + 1) 1))), q + 1 + 1)
  else
    ((List.range len).map fun i ↦ (leBytes 4 (leNat (stretch s (q + 1) 4))).getD (i % 4) 0, q + 1 + 4)

section PlanBlock

variable {s : ℕ → UInt8} {len q : ℕ}

theorem planBlock_of_random (h : leNat (stretch s q 1) % 4 = 0 ∨ leNat (stretch s q 1) % 4 = 1) :
    planBlock s len q = (stretch s (q + 1) len, q + 1 + len) := if_pos h

theorem planBlock_of_byte (h : leNat (stretch s q 1) % 4 = 2) : planBlock s len q
    = (List.replicate len (UInt8.ofNat (leNat (stretch s (q + 1) 1))), q + 1 + 1) :=
  (if_neg (by omega)).trans (if_pos h)

theorem planBlock_of_pattern (h : ¬(leNat (stretch s q 1) % 4 = 0 ∨ leNat (stretch s q 1) % 4 = 1))
    (h' : ¬leNat (stretch s q 1) % 4 = 2) : planBlock s len q
      = ((List.range len).map fun i ↦ (leBytes 4 (leNat (stretch s (q + 1) 4))).getD (i % 4) 0,
        q + 1 + 4) :=
  (if_neg h).trans (if_neg h')

end PlanBlock

/-- Whether the next block is synced. -/
def planSync (q : ℕ) : Bool × ℕ :=
  if p.sync_part = MAX_FSYNC_PART then (true, q)
  else if p.sync_part = 0 then (false, q)
  else (decide (leNat (stretch s q 4) < toU64 p.sync_part * 2 ^ 32 % 2 ^ 64 / 1000000), q + 4)

/-- Equal blocks at given positions. -/
def planLinks (data : List UInt8) : List ℤ → ℕ → List Block × ℕ
  | [], q => ([], q)
  | offset :: offsets, q =>
    let sync := planSync p s q
    let rest := planLinks data offsets sync.2
    (⟨offset, data, sync.1⟩ :: rest.1, rest.2)

/-- The blocks of a chain. -/
def planChain (q : ℕ) : List Block × ℕ :=
  let o := leNat (stretch s q 8)
  let c := leNat (stretch s (q + 8) 4)
  let l := leNat (stretch s (q + 8 + 4) 8)
  let block := planBlock s (l % p.max_blocksize) (q + 8 + 4 + 8)
  planLinks p s block.1 (chain_offsets p o c l) block.2

theorem planChain_eq (q : ℕ) : planChain p s q =
    planLinks p s (planBlock s (leNat (stretch s (q + 8 + 4) 8) % p.max_blocksize) (q + 8 + 4 + 8)).1
      (chain_offsets p (leNat (stretch s q 8)) (leNat (stretch s (q + 8) 4))
        (leNat (stretch s (q + 8 + 4) 8)))
      (planBlock s (leNat (stretch s (q + 8 + 4) 8) % p.max_blocksize) (q + 8 + 4 + 8)).2 := by
  rw [planChain]

/-- The blocks of a number of chains. -/
def plan : ℕ → ℕ → List Block × ℕ
  | 0, q => ([], q)
  | n + 1, q =>
    let chain := planChain p s q
    let rest := plan n chain.2
    (chain.1 ++ rest.1, rest.2)

end Plan

/-! ## Performing a plan -/

/-- Calls that draw the bytes of a stream from `q` on, and in which no `pwrite` returned `0`. -/
structure Clean (s : ℕ → UInt8) (q : ℕ) (es : List Event) : Prop where
  drawn_eq : drawn es = stretch s q (drawn es).length
  no_zeroWrite : ∀ e ∈ es, ¬e.ZeroWrite

/-- Calls that draw the stream from `q` to `q'` and write the blocks `bs`. -/
structure Written (q q' : ℕ) (bs : List Block) (es : List Event) : Prop where
  /-- So many bytes are drawn. -/
  drawn_to : q + (drawn es).length = q'
  /-- No block is left incomplete. -/
  scan_eq : scanIssues 0 es = (bs.flatMap Block.issues, 0)
  /-- The file is what these blocks make of it. -/
  afterAll_eq : ∀ f : File, f.afterAll es = bs.foldl File.store f

/-- From `m` to `m'`, if the calls are clean, they draw the stream from `q` to `q'` and write the blocks
`bs`, and `Φ` holds. -/
def Performs (s : ℕ → UInt8) (q q' : ℕ) (m m' : Machine) (bs : List Block) (Φ : Prop) : Prop :=
  ∃ es, m'.trace = m.trace ++ es ∧ (Clean s q es → Written q q' bs es ∧ Φ)

theorem Clean.append_left {s : ℕ → UInt8} {q : ℕ} {es fs : List Event} (h : Clean s q (es ++ fs)) :
    Clean s q es ∧ Clean s (q + (drawn es).length) fs := by
  have hdrawn := h.drawn_eq
  rw [drawn_append, List.length_append, stretch_add] at hdrawn
  obtain ⟨hes, hfs⟩ := List.append_inj hdrawn (length_stretch ..).symm
  exact ⟨⟨hes, fun e he ↦ h.no_zeroWrite e (List.mem_append_left _ he)⟩,
    ⟨hfs, fun e he ↦ h.no_zeroWrite e (List.mem_append_right _ he)⟩⟩

theorem Written.append {q q₁ q₂ : ℕ} {bs cs : List Block} {es fs : List Event}
    (h : Written q q₁ bs es) (h' : Written q₁ q₂ cs fs) : Written q q₂ (bs ++ cs) (es ++ fs) where
  drawn_to := by
    have h₁ := h.drawn_to
    have h₂ := h'.drawn_to
    rw [drawn_append, List.length_append]
    omega
  scan_eq := by rw [scanIssues_append, h.scan_eq, h'.scan_eq, List.flatMap_append]
  afterAll_eq f := by rw [afterAll_append, h.afterAll_eq, h'.afterAll_eq, List.foldl_append]

/-- Calls that draw bytes and write nothing. -/
theorem Written.of_readsOnly {q : ℕ} {es : List Event} (h : ∀ e ∈ es, e.ReadsOnly) :
    Written q (q + (drawn es).length) [] es where
  drawn_to := rfl
  scan_eq := (scanIssues_of_readsOnly h).1 0
  afterAll_eq := (scanIssues_of_readsOnly h).2

section Performs

variable {s : ℕ → UInt8} {q q₁ q₂ : ℕ} {m m₁ m₂ : Machine} {bs cs : List Block} {Φ Ψ : Prop}

theorem Performs.trans (h : Performs s q q₁ m m₁ bs Φ) (h' : Performs s q₁ q₂ m₁ m₂ cs Ψ) :
    Performs s q q₂ m m₂ (bs ++ cs) (Φ ∧ Ψ) := by
  obtain ⟨es, htr, hes⟩ := h
  obtain ⟨fs, htr', hfs⟩ := h'
  refine ⟨es ++ fs, by rw [htr', htr, List.append_assoc], fun hclean ↦ ?_⟩
  obtain ⟨hleft, hright⟩ := hclean.append_left
  obtain ⟨hw, hΦ⟩ := hes hleft
  rw [hw.drawn_to] at hright
  obtain ⟨hw', hΨ⟩ := hfs hright
  exact ⟨hw.append hw', hΦ, hΨ⟩

/-- What holds after the calls may say more about the plan. -/
theorem Performs.mono (h : Performs s q q₁ m m₁ bs Φ) (himp : Φ → q₁ = q₂ ∧ bs = cs ∧ Ψ) :
    Performs s q q₂ m m₁ cs Ψ := by
  obtain ⟨es, htr, hes⟩ := h
  refine ⟨es, htr, fun hclean ↦ ?_⟩
  obtain ⟨hw, hΦ⟩ := hes hclean
  obtain ⟨rfl, rfl, hΨ⟩ := himp hΦ
  exact ⟨hw, hΨ⟩

/-- No call at all. -/
theorem Performs.of_eq (htr : m₁.trace = m.trace) (hΦ : Φ) : Performs s q q m m₁ [] Φ :=
  ⟨[], by rw [htr, List.append_nil], fun _ ↦ ⟨.of_readsOnly (List.forall_mem_nil _), hΦ⟩⟩

end Performs

/-! ## The transfer loop -/

section Loop

variable {script : List Reply} {buf : Buffer} {i rest : ℕ} {ppos : ℤ} {t : Transfer}

/-- What a transfer from the random source leaves of a block: the bytes drawn, after those before it. -/
structure FakePreadDone (buf : Buffer) (i rest : ℕ) (t : Transfer) : Prop where
  /-- The block is what was drawn. -/
  slice_eq : t.buf.slice i rest = drawn t.events
  /-- Nothing before it has changed. -/
  before : ∀ j < i, t.buf.byte j = buf.byte j

theorem safe_fileop_loop_drawn (h : safe_fileop_loop .fake_pread script buf i rest ppos = .ok t)
    (hok : t.failed = false) : FakePreadDone buf i rest t := by
  revert hok
  refine safe_fileop_loop_induction
    (motive := fun buf i rest _ t ↦ t.failed = false → FakePreadDone buf i rest t)
    ?done ?eof ?moved ?again ?hard h
  case done =>
    intro script buf i ppos _
    exact ⟨rfl, fun _ _ ↦ rfl⟩
  case eof =>
    -- the program makes zeros of the rest
    intro r script buf i rest ppos _ _
    refine ⟨?_, fun j hj ↦ Buffer.byte_put_of_lt _ _ hj⟩
    rw [Buffer.slice_put_eq _ List.length_replicate, PFunc.event, drawn_cons, Event.drawn, if_pos rfl,
      Buffer.length_slice]
    exact (List.append_nil _).symm
  case moved =>
    intro r buf i rest ppos data t _ hne hlen ih hok
    obtain ⟨hslice, hbefore⟩ := ih hok
    rw [if_neg (show PFunc.fake_pread ≠ .pwrite by decide)] at hbefore
    refine ⟨?_, fun j hj ↦ ?_⟩
    · have hfirst : t.buf.slice i data.length = data := by
        rw [Buffer.slice_congr fun j _ hj ↦ hbefore j hj, Buffer.slice_put_self]
      have hsplit : rest + 1 = data.length + (rest + 1 - data.length) := by omega
      rw [Transfer.buf_push, Transfer.events_push, drawn_cons, PFunc.event, Event.drawn, if_neg hne,
        ← hslice, hsplit, Buffer.slice_add, hfirst, ← hsplit]
    · rw [Transfer.buf_push, hbefore j (by omega), Buffer.byte_put_of_lt _ _ hj]
  case again =>
    intro errno buf i rest ppos t _ ih hok
    obtain ⟨hslice, hbefore⟩ := ih hok
    exact ⟨hslice, hbefore⟩
  case hard =>
    intro errno script buf i rest ppos _ _ hok
    cases hok

theorem safe_fileop_loop_readsOnly (h : safe_fileop_loop .pread script buf i rest ppos = .ok t) :
    (∀ e ∈ t.events, e.ReadsOnly) ∧ drawn t.events = [] := by
  refine safe_fileop_loop_induction
    (motive := fun _ _ _ _ t ↦ (∀ e ∈ t.events, e.ReadsOnly) ∧ drawn t.events = [])
    ?done ?eof ?moved ?again ?hard h
  case done =>
    intro script buf i ppos
    exact ⟨List.forall_mem_nil _, rfl⟩
  case eof =>
    intro r script buf i rest ppos _
    exact ⟨List.forall_mem_singleton.mpr trivial, rfl⟩
  case moved =>
    rintro r buf i rest ppos data t _ _ _ ⟨ih, hdrawn⟩
    exact ⟨List.forall_mem_cons.mpr ⟨trivial, ih⟩, hdrawn⟩
  case again =>
    rintro errno buf i rest ppos t _ ⟨ih, hdrawn⟩
    exact ⟨List.forall_mem_cons.mpr ⟨trivial, ih⟩, hdrawn⟩
  case hard =>
    intro errno script buf i rest ppos _ _
    exact ⟨List.forall_mem_singleton.mpr trivial, rfl⟩

theorem File.write_append (f : File) (q : ℕ) (x y : List UInt8) :
    f.write q (x ++ y) = (f.write q x).write (q + x.length) y := by
  have hput := Buffer.put_put_append ⟨0, f.byte⟩ q x y
  rw [File.mk.injEq]
  refine ⟨?_, (congrArg Buffer.byte hput).symm⟩
  dsimp only [File.write]
  rw [List.length_append]
  omega

/-- What a transfer to the file leaves in the trace: one block, begun unless something of it is in
progress, and complete at the end. -/
structure PwriteDone (buf : Buffer) (i rest : ℕ) (ppos : ℤ) (t : Transfer) : Prop where
  drawn_eq : drawn t.events = []
  scan_eq : ∀ n, scanIssues n t.events = if rest = 0 then ([], n) else
    (if n = 0 then [.write ppos (buf.slice i rest)] else [], 0)
  afterAll_eq : ∀ f : File, f.afterAll t.events
    = if rest = 0 then f else f.write ppos.toNat (buf.slice i rest)

theorem safe_fileop_loop_issued (h : safe_fileop_loop .pwrite script buf i rest ppos = .ok t)
    (hok : t.failed = false) (hzero : ∀ e ∈ t.events, ¬e.ZeroWrite) :
    PwriteDone buf i rest ppos t := by
  revert hok hzero
  refine safe_fileop_loop_induction
    (motive := fun buf i rest ppos t ↦ t.failed = false → (∀ e ∈ t.events, ¬e.ZeroWrite) →
      PwriteDone buf i rest ppos t)
    ?done ?eof ?moved ?again ?hard h
  case done =>
    intro script buf i ppos _ _
    exact ⟨rfl, fun n ↦ (if_pos rfl).symm, fun f ↦ (if_pos rfl).symm⟩
  case eof =>
    intro r script buf i rest ppos _ _ hzero
    exact absurd trivial (hzero _ (List.mem_singleton_self _))
  case moved =>
    -- what is stored is the front of the block, and the rest of it is not a new block
    intro r buf i rest ppos data t hreply hne hlen ih hok hzero
    have hpos : 0 ≤ ppos := nonneg_of_answer (by decide) hreply.symm
    have hfirst := slice_of_pwrite_answer hreply hlen
    have hdata : data.length ≠ 0 := mt List.length_eq_zero_iff.mp hne
    have hsplit : rest + 1 = data.length + (rest + 1 - data.length) := by omega
    have hblock : buf.slice i (rest + 1)
        = data ++ buf.slice (i + data.length) (rest + 1 - data.length) :=
      calc buf.slice i (rest + 1)
          = buf.slice i (data.length + (rest + 1 - data.length)) := by rw [← hsplit]
        _ = buf.slice i data.length ++ buf.slice (i + data.length) (rest + 1 - data.length) :=
          Buffer.slice_add ..
        _ = data ++ buf.slice (i + data.length) (rest + 1 - data.length) := by rw [hfirst]
    obtain ⟨hdrawn, hscan, hafter⟩ := ih hok fun e he ↦ hzero e (List.mem_cons_of_mem _ he)
    rw [if_pos rfl] at hscan hafter
    refine ⟨hdrawn, fun n ↦ ?_, fun f ↦ ?_⟩
    · rw [Transfer.events_push, PFunc.event, scanIssues, unstored, Buffer.length_slice, hscan,
        if_neg (Nat.succ_ne_zero rest)]
      by_cases hlast : rest + 1 - data.length = 0
      · simp [hlast]
      · simp [hlast]
    · have hidx : (ppos + data.length).toNat = ppos.toNat + data.length := by omega
      have hpush : f.afterAll (t.push (PFunc.pwrite.event (buf.slice i (rest + 1)) ppos
          (.ok data))).events = (f.write ppos.toNat data).afterAll t.events := rfl
      rw [hpush, hafter, if_neg (Nat.succ_ne_zero rest), hblock]
      by_cases hlast : rest + 1 - data.length = 0
      · rw [if_pos hlast, hlast, Buffer.slice_zero, List.append_nil]
      · rw [if_neg hlast, File.write_append, hidx]
  case again =>
    intro errno buf i rest ppos t _ ih hok hzero
    obtain ⟨hdrawn, hscan, hafter⟩ := ih hok fun e he ↦ hzero e (List.mem_cons_of_mem _ he)
    refine ⟨hdrawn, fun n ↦ ?_, hafter⟩
    rw [Transfer.events_push, PFunc.event, scanIssues, unstored, Buffer.length_slice, hscan]
    simp
  case hard =>
    intro errno script buf i rest ppos _ _ hok
    cases hok

end Loop

/-! ## The functions -/

section Functions

variable {s : ℕ → UInt8} {q : ℕ} {p : Params} {m m' : Machine}

/-- Bytes drawn into a buffer. -/
theorem safe_fileop_drawn {pos : ℤ} {len : ℕ} {buf buf' : Buffer}
    (h : safe_fileop .fake_pread pos len buf m = .ok ((false, buf'), m')) :
    Performs s q (q + len) m m' [] (buf'.slice 0 len = stretch s q len) ∧ m'.buf2 = m.buf2 := by
  obtain ⟨t, ht, hok, rfl, rfl⟩ := safe_fileop_eq_ok.mp h
  have hslice := (safe_fileop_loop_drawn ht hok).slice_eq
  have hlen : (drawn t.events).length = len := by rw [← hslice, Buffer.length_slice]
  have hreads := readsOnly_of_reads (safe_fileop_loop_fake_pread ht)
  refine ⟨⟨t.events, rfl, fun hclean ↦ ⟨?_, ?_⟩⟩, rfl⟩
  · have hwritten := Written.of_readsOnly (q := q) hreads
    rwa [hlen] at hwritten
  · rw [hslice, ← hlen]
    exact hclean.drawn_eq

theorem RANDOMIZE_performs {size v : ℕ} (h : RANDOMIZE size m = .ok ((false, v), m')) :
    Performs s q (q + size) m m' [] (v = leNat (stretch s q size)) ∧ m'.buf2 = m.buf2 := by
  obtain ⟨⟨failed, buf⟩, m₁, hread, h⟩ := bind_eq_ok.mp h
  obtain ⟨heq, rfl⟩ := pure_eq_ok.mp h
  obtain ⟨rfl, rfl⟩ := Prod.mk.inj heq
  obtain ⟨hrun, hbuf⟩ := safe_fileop_drawn hread
  exact ⟨hrun.mono fun hslice ↦ ⟨rfl, rfl, congrArg leNat hslice⟩, hbuf⟩

theorem read_block_performs {pos : ℤ} {len : ℕ} (h : read_block pos len m = .ok (false, m')) :
    Performs s q q m m' [] True ∧ m'.buf2 = m.buf2 := by
  simp only [read_block, bind_eq_ok, get_eq_ok, safe_fileop_eq_ok, modify_eq_ok, Prod.exists] at h
  obtain ⟨_, _, ⟨rfl, rfl⟩, failed, buf, m₁, ⟨t, ht, rfl, rfl, rfl⟩, _, m₂, rfl, h⟩ := h
  split at h
  · cases (pure_eq_ok.mp h).1
  · simp only [bind_eq_ok, orStop_eq_ok, modify_eq_ok, pure_eq_ok] at h
    obtain ⟨_, _, ⟨-, rfl⟩, _, _, rfl, -, rfl⟩ := h
    obtain ⟨hreads, hdrawn⟩ := safe_fileop_loop_readsOnly ht
    refine ⟨⟨t.events, rfl, fun _ ↦ ⟨?_, trivial⟩⟩, rfl⟩
    have hwritten := Written.of_readsOnly (q := q) hreads
    rwa [hdrawn] at hwritten

theorem slice_eq_nil_iff {b : Buffer} {i n : ℕ} : b.slice i n = [] ↔ n = 0 := by
  rw [← List.length_eq_zero_iff, Buffer.length_slice]

/-- One block, not synced yet. -/
theorem write_block_performs {pos : ℤ} {len : ℕ} (h : write_block pos len m = .ok (false, m')) :
    Performs s q q m m' [⟨pos, m.buf2.slice 0 len, false⟩] (m'.buf2 = m.buf2) := by
  simp only [write_block, bind_eq_ok, get_eq_ok, safe_fileop_eq_ok, modify_eq_ok, Prod.exists] at h
  obtain ⟨_, _, ⟨rfl, rfl⟩, failed, buf, m₁, ⟨t, ht, rfl, rfl, rfl⟩, _, m₂, rfl, h⟩ := h
  split at h
  · cases (pure_eq_ok.mp h).1
  · next hok =>
    simp only [bind_eq_ok, orStop_eq_ok, modify_eq_ok, pure_eq_ok] at h
    obtain ⟨_, _, ⟨-, rfl⟩, _, _, rfl, -, rfl⟩ := h
    refine ⟨t.events, rfl, fun hclean ↦ ?_⟩
    have hdone := safe_fileop_loop_issued ht (by simpa using hok) hclean.no_zeroWrite
    -- an empty block makes no call, and is none in the file
    refine ⟨⟨by rw [hdone.drawn_eq]; rfl, ?_, fun f ↦ ?_⟩,
      safe_fileop_loop_pwrite_buf ht hclean.no_zeroWrite⟩
    · rw [hdone.scan_eq, List.flatMap_singleton, Block.issues]
      simp only [slice_eq_nil_iff, Bool.false_eq_true, if_false, if_true, List.append_nil]
      split <;> rfl
    · rw [hdone.afterAll_eq, List.foldl_cons, List.foldl_nil, File.store]
      simp only [slice_eq_nil_iff]

theorem Performs.fsync {q₁ : ℕ} {pos : ℤ} {data : List UInt8} {Φ : Prop} {m₁ : Machine} {u : Unit}
    (h : Performs s q q₁ m m₁ [⟨pos, data, false⟩] Φ) (hs : Fstest.fsync m₁ = .ok (u, m')) :
    Performs s q q₁ m m' [⟨pos, data, true⟩] Φ ∧ m'.buf2 = m₁.buf2 := by
  obtain ⟨es, htr, hes⟩ := h
  obtain rfl := modify_eq_ok.mp hs
  refine ⟨⟨es ++ [.fsync], by rw [htr, List.append_assoc], fun hclean ↦ ?_⟩, rfl⟩
  obtain ⟨⟨hdrawn, hscan, hafter⟩, hΦ⟩ := hes hclean.append_left.1
  refine ⟨⟨?_, ?_, fun f ↦ ?_⟩, hΦ⟩
  · rw [drawn_append, List.length_append]
    exact hdrawn
  · rw [scanIssues_append, hscan]
    simp [Block.issues, scanIssues]
  · rw [afterAll_append, hafter]
    rfl

theorem insert_block_performs {pos : ℤ} {len mode : ℕ} (hmode : mode ≠ 1)
    (h : insert_block pos len mode m = .ok (false, m')) :
    Performs s q q m m' [⟨pos, m.buf2.slice 0 len, decide (mode = 0)⟩] (m'.buf2 = m.buf2) := by
  rw [insert_block] at h
  obtain ⟨m₁, hread, h⟩ := orReturn_ok h
  rw [if_pos hmode] at h
  obtain ⟨m₂, hwrite, h⟩ := orReturn_ok h
  -- the read before the write draws nothing and leaves `buf2`
  obtain ⟨hr, hbuf⟩ := read_block_performs (s := s) (q := q) hread
  have hswap : Performs s q q m m₂ [⟨pos, m.buf2.slice 0 len, false⟩] (m₂.buf2 = m.buf2) := by
    rw [← hbuf]
    exact (hr.trans (write_block_performs hwrite)).mono fun hboth ↦ ⟨rfl, rfl, hboth.2⟩
  by_cases hsync : mode = 0
  · rw [if_pos hsync] at h
    obtain ⟨_, m₃, hfs, h⟩ := bind_eq_ok.mp h
    obtain ⟨-, rfl⟩ := pure_eq_ok.mp h
    obtain ⟨hsynced, hbuf'⟩ := hswap.fsync hfs
    rw [decide_eq_true hsync, hbuf']
    exact hsynced
  · rw [if_neg hsync] at h
    obtain ⟨-, rfl⟩ := pure_eq_ok.mp h
    rw [decide_eq_false hsync]
    exact hswap

theorem choose_sync_performs {sync : Bool} (h : choose_sync p m = .ok ((false, sync), m')) :
    Performs s q (planSync p s q).2 m m' [] (sync = (planSync p s q).1) ∧ m'.buf2 = m.buf2 := by
  rw [choose_sync] at h
  rw [planSync]
  split at h
  · next hall =>
    obtain ⟨heq, rfl⟩ := pure_eq_ok.mp h
    rw [if_pos hall]
    exact ⟨.of_eq rfl (Prod.mk.inj heq).2.symm, rfl⟩
  · next hall =>
    rw [if_neg hall]
    split at h
    · next hnone =>
      obtain ⟨heq, rfl⟩ := pure_eq_ok.mp h
      rw [if_pos hnone]
      exact ⟨.of_eq rfl (Prod.mk.inj heq).2.symm, rfl⟩
    · next hnone =>
      rw [if_neg hnone]
      obtain ⟨⟨failed, syncv⟩, m₁, hsync, h⟩ := bind_eq_ok.mp h
      obtain ⟨heq, rfl⟩ := pure_eq_ok.mp h
      obtain ⟨rfl, rfl⟩ := Prod.mk.inj heq
      obtain ⟨hrun, hbuf⟩ := RANDOMIZE_performs (s := s) (q := q) hsync
      exact ⟨hrun.mono fun hv ↦ ⟨rfl, rfl, by rw [hv]⟩, hbuf⟩

/-- A block of a chain. -/
theorem insert_link_performs {length : ℕ} {offset : ℤ}
    (h : insert_link p length offset m = .ok (false, m')) :
    Performs s q (planSync p s q).2 m m' [⟨offset, m.buf2.slice 0 length, (planSync p s q).1⟩]
      (m'.buf2 = m.buf2) := by
  rw [insert_link] at h
  obtain ⟨sync, m₁, hsync, h⟩ := flag_ok (fun _ ↦ rfl) h
  dsimp only at h
  rw [if_neg Bool.false_ne_true] at h
  obtain ⟨hdraw, hbuf⟩ := choose_sync_performs (s := s) (q := q) hsync
  have hmode : (if sync = true then 0 else 2) ≠ 1 := by cases sync <;> decide
  have hwrite := insert_block_performs (s := s) (q := (planSync p s q).2) hmode h
  rw [hbuf] at hwrite
  refine (hdraw.trans hwrite).mono fun hboth ↦ ⟨rfl, ?_, hboth.2⟩
  rw [← hboth.1]
  cases sync <;> rfl

/-- Equal blocks: what is in the buffer stays there. -/
theorem insert_all_performs {length : ℕ} {offsets : List ℤ}
    (h : insert_all p length offsets m = .ok (false, m')) :
    Performs s q (planLinks p s (m.buf2.slice 0 length) offsets q).2 m m'
      (planLinks p s (m.buf2.slice 0 length) offsets q).1 True := by
  induction offsets generalizing q m with
  | nil =>
    obtain ⟨-, rfl⟩ := pure_eq_ok.mp h
    exact .of_eq rfl trivial
  | cons offset offsets ih =>
    rw [insert_all] at h
    obtain ⟨m₁, hlink, h⟩ := orReturn_ok h
    have hfirst := insert_link_performs (s := s) (q := q) hlink
    -- the block is still in `buf2` for the next one
    refine (hfirst.trans (ih h)).mono fun hboth ↦ ?_
    rw [hboth.1]
    exact ⟨rfl, rfl, trivial⟩

theorem fill_block_buf2 {data : List UInt8} {u : Unit} (h : fill_block data m = .ok (u, m')) :
    Performs s q q m m' [] True ∧ m'.buf2.slice 0 data.length = data := by
  simp only [fill_block, bind_eq_ok, get_eq_ok, orStop_eq_ok, modify_eq_ok] at h
  obtain ⟨_, _, ⟨rfl, rfl⟩, _, _, ⟨-, rfl⟩, rfl⟩ := h
  exact ⟨.of_eq rfl trivial, Buffer.slice_put_self ..⟩

/-- A block made of one number. -/
theorem fill_drawn_performs {size len : ℕ} {fill : ℕ → List UInt8} (hlen : ∀ c, (fill c).length = len)
    (h : (do
      let (failed, c) ← RANDOMIZE size
      if failed then return true
      fill_block (fill c)
      return false : Sys Bool) m = .ok (false, m')) :
    Performs s q (q + size) m m' [] (m'.buf2.slice 0 len = fill (leNat (stretch s q size))) := by
  obtain ⟨c, m₁, hc, h⟩ := flag_ok (fun _ ↦ rfl) h
  dsimp only at h
  rw [if_neg Bool.false_ne_true] at h
  obtain ⟨_, m₂, hfill, h⟩ := bind_eq_ok.mp h
  obtain ⟨-, rfl⟩ := pure_eq_ok.mp h
  obtain ⟨hdraw, -⟩ := RANDOMIZE_performs (s := s) (q := q) hc
  obtain ⟨hquiet, hslice⟩ := fill_block_buf2 (s := s) (q := q + size) hfill
  rw [hlen] at hslice
  refine (hdraw.trans hquiet).mono ?_
  rintro ⟨rfl, -⟩
  exact ⟨rfl, rfl, hslice⟩

/-- The contents of the blocks of a chain. -/
theorem generate_block_performs {len : ℕ} (h : generate_block len m = .ok (false, m')) :
    Performs s q (planBlock s len q).2 m m' [] (m'.buf2.slice 0 len = (planBlock s len q).1) := by
  rw [generate_block] at h
  obtain ⟨mode, m₁, hmode, h⟩ := flag_ok (fun _ ↦ rfl) h
  obtain ⟨hdraw, -⟩ := RANDOMIZE_performs (s := s) (q := q) hmode
  dsimp only at h
  rw [if_neg Bool.false_ne_true] at h
  split at h
  · next hrandom =>
    simp only [bind_eq_ok, get_eq_ok, modify_eq_ok, Prod.exists] at h
    obtain ⟨_, _, ⟨rfl, rfl⟩, failed, buf, m₂, hread, _, _, rfl, h⟩ := h
    obtain ⟨rfl, rfl⟩ := pure_eq_ok.mp h
    obtain ⟨hrun, -⟩ := safe_fileop_drawn (s := s) (q := q + 1) hread
    have hrun' : Performs s (q + 1) (q + 1 + len) m₁ { m₂ with buf2 := buf } []
      (buf.slice 0 len = stretch s (q + 1) len) := hrun
    refine (hdraw.trans hrun').mono ?_
    rintro ⟨hplan, hslice⟩
    rw [planBlock_of_random (hplan ▸ hrandom)]
    exact ⟨rfl, rfl, hslice⟩
  · next hrandom =>
    split at h
    · next hbyte =>
      refine (hdraw.trans (fill_drawn_performs (fun _ ↦ List.length_replicate) h)).mono ?_
      rintro ⟨hplan, hslice⟩
      rw [planBlock_of_byte (hplan ▸ hbyte)]
      exact ⟨rfl, rfl, hslice⟩
    · next hbyte =>
      have hlen : ∀ c, ((List.range len).map fun i ↦ (leBytes 4 c).getD (i % 4) 0).length = len := by
        intro c
        rw [List.length_map, List.length_range]
      refine (hdraw.trans (fill_drawn_performs hlen h)).mono ?_
      rintro ⟨hplan, hslice⟩
      rw [planBlock_of_pattern (hplan ▸ hrandom) (hplan ▸ hbyte)]
      exact ⟨rfl, rfl, hslice⟩

theorem reduce_offset_eq_ok {r : ℕ} {offset : ℤ} (h : reduce_offset p r m = .ok (offset, m')) :
    offset = chain_offset p r ∧ m = m' := by
  simp only [reduce_offset, bind_eq_ok, orStop_eq_ok] at h
  obtain ⟨_, _, ⟨-, rfl⟩, h⟩ := h
  obtain ⟨rfl, rfl⟩ := pure_eq_ok.mp h
  exact ⟨rfl, rfl⟩

theorem remainder_eq_ok {x k r : ℕ} (h : remainder x k m = .ok (r, m')) : r = x % k ∧ m = m' := by
  simp only [remainder, bind_eq_ok, orStop_eq_ok] at h
  obtain ⟨_, _, ⟨-, rfl⟩, h⟩ := h
  obtain ⟨rfl, rfl⟩ := pure_eq_ok.mp h
  exact ⟨rfl, rfl⟩

/-- A chain. -/
theorem insert_chain_performs (h : insert_chain p m = .ok (false, m')) :
    Performs s q (planChain p s q).2 m m' (planChain p s q).1 True := by
  rw [insert_chain] at h
  obtain ⟨o, m₁, ho, h₁⟩ := flag_ok (fun _ ↦ rfl) h
  obtain ⟨c, m₂, hc, h₂⟩ := flag_ok (fun _ ↦ rfl) h₁
  obtain ⟨l, m₃, hl, h₃⟩ := flag_ok (fun _ ↦ rfl) h₂
  simp only [Bool.false_eq_true, if_false, bind_eq_ok] at h₃
  obtain ⟨offset, _, hoff, length, _, hlen, rep, _, hrep, failed, m₄, hgen, h₄⟩ := h₃
  obtain ⟨hoffset, rfl⟩ := reduce_offset_eq_ok hoff
  obtain ⟨hlength, rfl⟩ := remainder_eq_ok hlen
  obtain ⟨hcount, rfl⟩ := remainder_eq_ok hrep
  cases failed with
  | true => exact absurd (pure_eq_ok.mp h₄).1 (by decide)
  | false =>
    rw [if_neg Bool.false_ne_true, insert_links_eq] at h₄
    have hdraws := ((RANDOMIZE_performs (s := s) (q := q) ho).1.trans (RANDOMIZE_performs hc).1).trans
      (RANDOMIZE_performs hl).1
    have hwrites := (generate_block_performs (s := s) (q := q + 8 + 4 + 8) hgen).trans
      (insert_all_performs h₄)
    refine (hdraws.trans hwrites).mono fun hall ↦ ?_
    obtain ⟨⟨⟨ho', hc'⟩, hl'⟩, hslice, -⟩ := hall
    rw [planChain_eq, ← ho', ← hc', ← hl', chain_offsets, ← hlength, ← hcount, ← hoffset, hslice]
    exact ⟨rfl, rfl, trivial⟩

/-- How many iterations are executed of at most `n`, from iteration `i` on. -/
def executed (interrupted : ℕ → Bool) : ℕ → ℕ → ℕ
  | 0, _ => 0
  | n + 1, i => if interrupted i then 0 else executed interrupted n (i + 1) + 1

theorem iterate_performs {env : Env} {n i : ℕ} (h : iterate p env n i m = .ok (false, m')) :
    Performs s q (plan p s (executed env.interrupted n i) q).2 m m'
      (plan p s (executed env.interrupted n i) q).1 True := by
  induction n generalizing i q m with
  | zero =>
    obtain ⟨-, rfl⟩ := pure_eq_ok.mp h
    exact .of_eq rfl trivial
  | succ n ih =>
    rw [iterate] at h
    rw [executed]
    split at h
    · next hstop =>
      obtain ⟨-, rfl⟩ := pure_eq_ok.mp h
      rw [if_pos hstop]
      exact .of_eq rfl trivial
    · next hgo =>
      obtain ⟨m₁, hchain, h⟩ := orReturn_ok h
      rw [if_neg hgo, plan]
      exact ((insert_chain_performs hchain).trans (ih h)).mono fun _ ↦ ⟨rfl, rfl, trivial⟩

theorem sweep_performs {size : ℤ} {fuel : ℕ} {off : ℤ}
    (h : sweep p size fuel off m = .ok (false, m')) : Performs s q q m m' [] True := by
  induction fuel generalizing off m with
  | zero => cases h
  | succ fuel ih =>
    rw [sweep] at h
    split at h
    · obtain ⟨m₁, hins, h⟩ := orReturn_ok h
      rw [insert_block] at hins
      obtain ⟨m₂, hread, hins⟩ := orReturn_ok hins
      obtain ⟨-, rfl⟩ := pure_eq_ok.mp hins
      exact ((read_block_performs hread).1.trans (ih h)).mono fun _ ↦ ⟨rfl, rfl, trivial⟩
    · obtain ⟨-, rfl⟩ := pure_eq_ok.mp h
      exact .of_eq rfl trivial

/-- A sweep writes nothing. -/
theorem cleanup_performs {st_size : ℤ} {mode : ℕ} (h : cleanup p st_size mode m = .ok (false, m')) :
    Performs s q q m m' [] True := by
  simp only [cleanup, bind_eq_ok, orStop_eq_ok, get_eq_ok] at h
  obtain ⟨_, m₁, hfill, _, _, ⟨hne, rfl⟩, _, _, ⟨rfl, rfl⟩, h⟩ := h
  have hfilled := (fill_block_buf2 (s := s) (q := q) hfill).1
  exact (hfilled.trans (sweep_performs h)).mono fun _ ↦ ⟨rfl, rfl, trivial⟩

theorem check_performs {env : Env} (h : check p env m = .ok (false, m')) :
    Performs s q (plan p s (executed env.interrupted p.num_iterations.toNat 0) q).2 m m'
      (plan p s (executed env.interrupted p.num_iterations.toNat 0) q).1 True := by
  rw [check] at h
  obtain ⟨m₁, hiter, h⟩ := orReturn_ok h
  refine ((iterate_performs hiter).trans (cleanup_performs h)).mono fun _ ↦ ⟨rfl, ?_, trivial⟩
  exact List.append_nil _

end Functions

end ViTools.Fstest
