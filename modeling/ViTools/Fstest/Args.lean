import ViTools.Fstest.Safety
import ViTools.Lib.Strtol

/-!
# The command line

`parse_args` takes the arguments one after the other and stops at the first that is missing. It refuses
nothing but a command line without a file name: any text is a number for it, and any number is accepted.

A number goes through its C types before it is a divisor or the size of a buffer. A negative
`max_blocksize` becomes a `size_t` that no buffer can have, and a negative `max_chainlen` an `unsigned int`,
which does not matter.
-/

namespace ViTools.Fstest

/-- The parameters with the names of the two files. -/
structure Args extends Params where
  filename : List Char
  random_filename : List Char

/-- What `main` sets before it parses the arguments. -/
def defaults : Args where
  filename := "fstest.dat".toList
  size := 1024 * 1024 * 100
  num_iterations := 64 * 1024
  max_blocksize := 4096
  random_filename := "/dev/urandom".toList
  max_chainlen := 64
  sync_part := MAX_FSYNC_PART / 100

theorem atoll_off64 (text : List Char) : -2 ^ 63 ≤ atoll text ∧ atoll text < 2 ^ 63 := by
  rw [atoll]
  cases scan_number text with
  | none => exact ⟨by norm_num, by norm_num⟩
  | some y =>
    rw [Option.elim_some, clamp64]
    omega

theorem fits_atoi (text : List Char) : Fits 32 (atoi text) := by
  rw [atoi]
  cases scan_number text with
  | none => exact fits_32.mpr ⟨by norm_num, by norm_num⟩
  | some y => exact fits_twos (by norm_num) _

/-- What the lines of `parse_args` do with their arguments, in their order. -/
def assignments : List (List Char → Args → Args) := [
  fun arg p ↦ { p with filename := arg },
  fun arg p ↦ { p with size := atoll arg, size_off64 := atoll_off64 arg },
  fun arg p ↦ { p with num_iterations := atoi arg },
  fun arg p ↦ { p with max_blocksize := toU64 (atoi arg) },
  fun arg p ↦ { p with max_chainlen := atoi arg },
  fun arg p ↦ { p with random_filename := arg },
  fun arg p ↦ { p with sync_part := atoi arg }]

/-- One line after the other, until an argument is missing. -/
def assign : List (List Char → Args → Args) → List (List Char) → Args → Args
  | line :: lines, arg :: argv, p => assign lines argv (line arg p)
  | _, _, p => p

/-- Parse command line arguments. `none` is the nonzero result, after which `main` returns. -/
def parse_args (argv : List (List Char)) (p : Args) : Option Args :=
  if argv.length < 2 then none else some (assign assignments (argv.drop 1) p)

/-- Which argument a parameter is from. -/
structure ParsedFrom (argv : List (List Char)) (args : Args) : Prop where
  filename_eq : args.filename = argv[1]?.getD defaults.filename
  size_eq : args.size = argv[2]?.elim defaults.size atoll
  num_iterations_eq : args.num_iterations = argv[3]?.elim defaults.num_iterations atoi
  max_blocksize_eq : args.max_blocksize = argv[4]?.elim defaults.max_blocksize fun arg ↦ toU64 (atoi arg)
  max_chainlen_eq : args.max_chainlen = argv[5]?.elim defaults.max_chainlen atoi
  random_filename_eq : args.random_filename = argv[6]?.getD defaults.random_filename
  sync_part_eq : args.sync_part = argv[7]?.elim defaults.sync_part atoi

theorem parse_args_eq_some {argv : List (List Char)} {args : Args} (h : parse_args argv defaults = some args) :
    2 ≤ argv.length ∧ ParsedFrom argv args := by
  rw [parse_args] at h
  split at h
  · cases h
  next hlen =>
  refine ⟨not_lt.mp hlen, ?_⟩
  -- by the number of arguments, up to the last one that is looked at
  rcases argv with _ | ⟨a, _ | ⟨b, _ | ⟨c, _ | ⟨d, _ | ⟨e, _ | ⟨f, _ | ⟨g, _ | ⟨i, l⟩⟩⟩⟩⟩⟩⟩⟩ <;>
    cases h <;> exact ⟨rfl, rfl, rfl, rfl, rfl, rfl, rfl⟩

/-- The arguments with which a run is safe, those that are missing aside. -/
structure SafeArgs (argv : List (List Char)) : Prop where
  /-- The fourth argument, `max_blocksize`, is positive. -/
  block_pos : ∀ arg ∈ argv[4]?, 1 ≤ atoi arg
  /-- Unless the third argument asks for no iteration, the second and the fifth, `size` and `max_chainlen`,
  are not zero. -/
  divisors : (∀ arg ∈ argv[3]?, 0 < atoi arg) →
    (∀ arg ∈ argv[2]?, atoll arg ≠ 0) ∧ ∀ arg ∈ argv[5]?, atoi arg ≠ 0

instance (argv : List (List Char)) : Decidable (SafeArgs argv) :=
  decidable_of_iff (_ ∧ _) ⟨fun h ↦ ⟨h.1, h.2⟩, fun h ↦ ⟨h.block_pos, h.divisors⟩⟩

/-- An `int` as a `size_t`: it is the size of a buffer that can be allocated if it is positive. -/
theorem toU64_int_iff {x : ℤ} (hx : Fits 32 x) : (1 ≤ toU64 x ∧ toU64 x < 2 ^ 63) ↔ 1 ≤ x := by
  have h32 := fits_32.mp hx
  rw [toU64]
  omega

theorem toU32_int_eq_zero_iff {x : ℤ} (hx : Fits 32 x) : toU32 x = 0 ↔ x = 0 := by
  have h32 := fits_32.mp hx
  rw [toU32]
  omega

/-- A property of a parameter is one of its argument, if the default has it. -/
theorem elim_iff {α β : Type} {P : β → Prop} {Q : α → Prop} {arg? : Option α} {default : β} {f : α → β}
    (hdefault : P default) (hf : ∀ arg ∈ arg?, P (f arg) ↔ Q arg) :
    P (arg?.elim default f) ↔ ∀ arg ∈ arg?, Q arg := by
  cases arg? with
  | none => exact iff_of_true hdefault fun arg h ↦ absurd h (Option.not_mem_none arg)
  | some arg =>
    rw [Option.elim_some, hf arg rfl]
    simp

theorem ParsedFrom.valid_iff {argv : List (List Char)} {args : Args} (h : ParsedFrom argv args) :
    args.Valid ↔ SafeArgs argv := by
  have hblock : (1 ≤ args.max_blocksize ∧ args.max_blocksize < 2 ^ 63) ↔ ∀ arg ∈ argv[4]?, 1 ≤ atoi arg := by
    rw [h.max_blocksize_eq]
    apply elim_iff (P := fun x ↦ 1 ≤ x ∧ x < 2 ^ 63) (by decide)
    exact fun arg _ ↦ toU64_int_iff (fits_atoi arg)
  have hiter : 0 < args.num_iterations ↔ ∀ arg ∈ argv[3]?, 0 < atoi arg := by
    rw [h.num_iterations_eq]
    exact elim_iff (P := (0 < ·)) (by decide) fun _ _ ↦ Iff.rfl
  have hsize : args.size ≠ 0 ↔ ∀ arg ∈ argv[2]?, atoll arg ≠ 0 := by
    rw [h.size_eq]
    exact elim_iff (P := (· ≠ 0)) (by decide) fun _ _ ↦ Iff.rfl
  have hchain : toU32 args.max_chainlen ≠ 0 ↔ ∀ arg ∈ argv[5]?, atoi arg ≠ 0 := by
    rw [h.max_chainlen_eq]
    apply elim_iff (P := fun x ↦ toU32 x ≠ 0) (by decide)
    exact fun arg _ ↦ not_congr (toU32_int_eq_zero_iff (fits_atoi arg))
  constructor
  · intro hvalid
    refine ⟨hblock.mp ⟨hvalid.block_pos, hvalid.block_lt⟩, fun hmore ↦ ?_⟩
    obtain ⟨hne, hne'⟩ := hvalid.divisors (hiter.mpr hmore)
    exact ⟨hsize.mp hne, hchain.mp hne'⟩
  · intro hsafe
    obtain ⟨hpos, hlt⟩ := hblock.mpr hsafe.block_pos
    refine ⟨hpos, hlt, fun hmore ↦ ?_⟩
    obtain ⟨hne, hne'⟩ := hsafe.divisors (hiter.mp hmore)
    exact ⟨hsize.mpr hne, hchain.mpr hne'⟩

/-- **Which command lines are safe.** Of the command lines that are accepted, those are safe to run whose
block size is positive and which name no size and no chain length of zero, or else ask for no iteration. -/
theorem parse_args_safe_iff {argv : List (List Char)} {args : Args}
    (h : parse_args argv defaults = some args) :
    (∀ env, Safe args.toParams env) ↔ SafeArgs argv :=
  (safe_iff_valid args.toParams).trans (parse_args_eq_some h).2.valid_iff

/-- With a file name alone. -/
theorem safe_defaults : parse_args ["fstest".toList, "fstest.dat".toList] defaults = some defaults ∧
    ∀ env, Safe defaults.toParams env := by
  have h : parse_args ["fstest".toList, "fstest.dat".toList] defaults = some defaults := rfl
  exact ⟨h, (parse_args_safe_iff h).mpr (by decide)⟩

/-- The size `0` is accepted, and then every chain divides by it. -/
theorem not_safe_size_zero :
    ∃ args, parse_args ["fstest".toList, "f".toList, "0".toList] defaults = some args ∧
      ∃ env, DividesBy args.toParams env 0 ∧ ¬Safe args.toParams env := by
  obtain ⟨args, hparse⟩ : ∃ args, parse_args ["fstest".toList, "f".toList, "0".toList] defaults = some args :=
    ⟨_, rfl⟩
  obtain ⟨-, hargs⟩ := parse_args_eq_some hparse
  have hsize : args.size = 0 := hargs.size_eq.trans (by decide)
  have hblock : args.max_blocksize = 4096 := hargs.max_blocksize_eq
  have hiter : args.num_iterations = 65536 := hargs.num_iterations_eq
  obtain ⟨m, m', hcall, hdraws⟩ := exists_callsChain (p := args.toParams) (by omega) (by omega) (by omega)
  have hdiv : DividesBy args.toParams (zeroSource args.toParams) 0 := hsize ▸ .offset hcall hdraws
  exact ⟨args, hparse, _, hdiv, fun h ↦ h.divisors 0 hdiv rfl⟩

end ViTools.Fstest
