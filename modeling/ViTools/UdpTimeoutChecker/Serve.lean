import ViTools.Lib.Scan

/-!
# The server of udptimeoutchecker

A request is a text with four numbers: how long to wait before the reply `B`, and how long to wait
between `B` and the reply `A`. There is a child process for every request.
-/

namespace ViTools.UdpTimeoutChecker

/-- How long a child sleeps before each of its replies, in nanoseconds. -/
structure Waits where
  /-- Before the first one. -/
  ts1 : ℕ
  /-- Before the second one. -/
  ts2 : ℕ
  deriving DecidableEq

/-- The time `clock_nanosleep` takes. A number of seconds that is negative as a `time_t` is an error, but
its error number is not -1, so the child goes on. -/
def clock_nanosleep (tv_sec tv_nsec : ℕ) : ℕ :=
  if tv_sec < 2 ^ 63 then tv_sec * 1000000000 + tv_nsec else 0

/-- What the child for a datagram does; there is none if the datagram is not a request. -/
def serve1 (datagram : List Char) : Option Waits := do
  -- the last byte of `buf` stays zero, and `sscanf` stops at the first zero
  let buf := (datagram.take 127).takeWhile fun c ↦ c.toNat ≠ 0
  let (secs1, buf) ← scan_lu buf
  let (nanos1, buf) ← scan_lu buf
  let (secs2, buf) ← scan_lu buf
  let (nanos2, _) ← scan_lu buf
  if 600 < (secs1 + secs2) % 2 ^ 64 ∨ 1000 * 1000 * 1000 ≤ nanos1 ∨ 1000 * 1000 * 1000 ≤ nanos2 then none
  else some ⟨clock_nanosleep secs1 nanos1, clock_nanosleep secs2 nanos2⟩

/-- The request of `try`: `B` at once, and `A` after the given seconds. -/
def request (seconds : ℕ) : List Char :=
  ['0', ' ', '0', ' '] ++ (Nat.toDigits 10 seconds ++ [' ', '0', '\n'])

/-- The whole request is in `buf`. -/
theorem buf_request {seconds : ℕ} (h : seconds < 2 ^ 31) :
    ((request seconds).take 127).takeWhile (fun c ↦ c.toNat ≠ 0) = request seconds := by
  have hlength : (Nat.toDigits 10 seconds).length ≤ 10 :=
    (Nat.length_toDigits_le_iff (by decide) (by decide)).mpr (by omega)
  have htake : (request seconds).take 127 = request seconds := by
    refine List.take_of_length_le ?_
    rw [request, List.length_append, List.length_append]
    have hsum : 4 + ((Nat.toDigits 10 seconds).length + 3) ≤ 127 := by omega
    exact hsum
  have hframe : ∀ c ∈ ['0', ' ', '0', ' '] ++ [' ', '0', '\n'], c.toNat ≠ 0 := by simp
  rw [htake, List.takeWhile_eq_self_iff]
  intro c hc
  refine decide_eq_true ?_
  rcases List.mem_append.mp hc with hc | hc
  · exact hframe c (List.mem_append_left _ hc)
  · rcases List.mem_append.mp hc with hc | hc
    · have hdigit := Nat.isDigit_of_mem_toDigits (by decide) (by decide) hc
      have hzero : '0'.toNat = 48 := rfl
      have hcode := (Char.isDigit_iff_toNat.mp hdigit).1
      omega
    · exact hframe c (List.mem_append_right _ hc)

/-- The server does what `try` asks for, up to ten minutes. -/
theorem serve1_request {seconds : ℕ} (h : seconds < 2 ^ 31) :
    serve1 (request seconds) = if 600 < seconds then none else some ⟨0, seconds * 1000000000⟩ := by
  have h64 : seconds < 2 ^ 64 := by omega
  have hnone : ∀ c ∈ ([] : List Char), isspace c := by simp
  have hblank : ∀ c ∈ [' '], isspace c := List.forall_mem_singleton.mpr rfl
  have hsecs1 : scan_lu (request seconds) =
      some (0, [' ', '0', ' '] ++ (Nat.toDigits 10 seconds ++ [' ', '0', '\n'])) :=
    scan_lu_toDigits (n := 0) hnone (by decide) (by rintro c ⟨⟩; rfl)
  have hnanos1 : scan_lu ([' ', '0', ' '] ++ (Nat.toDigits 10 seconds ++ [' ', '0', '\n'])) =
      some (0, [' '] ++ (Nat.toDigits 10 seconds ++ [' ', '0', '\n'])) :=
    scan_lu_toDigits (n := 0) hblank (by decide) (by rintro c ⟨⟩; rfl)
  have hsecs2 : scan_lu ([' '] ++ (Nat.toDigits 10 seconds ++ [' ', '0', '\n'])) =
      some (seconds, [' ', '0', '\n']) :=
    scan_lu_toDigits hblank h64 (by rintro c ⟨⟩; rfl)
  have hnanos2 : scan_lu [' ', '0', '\n'] = some (0, ['\n']) :=
    scan_lu_toDigits (n := 0) hblank (by decide) (by rintro c ⟨⟩; rfl)
  rw [serve1]
  dsimp only
  rw [buf_request h, hsecs1, Option.bind_eq_bind, Option.bind_some, hnanos1, Option.bind_some, hsecs2,
    Option.bind_some, hnanos2, Option.bind_some]
  dsimp only
  have hsleep : clock_nanosleep seconds 0 = seconds * 1000000000 := by
    rw [clock_nanosleep, if_pos (by omega), Nat.add_zero]
  rw [Nat.zero_add, Nat.mod_eq_of_lt h64, hsleep]
  by_cases hlong : 600 < seconds
  · rw [if_pos (.inl hlong), if_pos hlong]
  · rw [if_neg hlong, if_neg (by omega)]
    rfl

end ViTools.UdpTimeoutChecker
