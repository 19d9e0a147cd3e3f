import ViTools.Lib.Buffer
import ViTools.Lib.CInt
import ViTools.Lib.MachineInt

/-!
# Building the header unit in bpg2hevc

`build_msps` reads the length of a header and the header from the input, puts some parameters of the
picture in front of it, and writes the result with escapes into a second buffer.

Both sizes are computed in `int` from a length the file gives. An access outside of a buffer, a failed
assertion and a use of the null pointer all show as `none`.
-/

namespace ViTools.Bpg2hevc

/-- The loop of `ue7_32` with `i` rounds left, and the rest of the input. -/
def ue7_32_loop : ℕ → UInt32 → List UInt8 → UInt32 × List UInt8
  | 0, buffer, stdin => (buffer, stdin)
  | _ + 1, buffer, [] => (buffer, [])
  | i + 1, buffer, c :: stdin =>
    let buffer := buffer <<< 7 ||| (c &&& 0x7F).toUInt32
    if c &&& 0x80 = 0 then (buffer, stdin) else ue7_32_loop i buffer stdin

def ue7_32 (stdin : List UInt8) : UInt32 × List UInt8 := ue7_32_loop 5 0 stdin

/-- The parameters of a picture, as `main` passes them. -/
@[ext]
structure Picture where
  width : ℤ
  height : ℤ
  chroma_format_idc : ℤ
  bit_depth : ℤ
  fits_width : Fits 32 width
  fits_height : Fits 32 height
  /-- `main` takes it from three bits. -/
  chroma_bounds : 0 ≤ chroma_format_idc ∧ chroma_format_idc < 256
  /-- `main` adds four bits to 8. -/
  bit_depth_bounds : 8 ≤ bit_depth ∧ bit_depth < 264

/-- The bytes written before the header. -/
def Picture.fields (p : Picture) : List UInt8 :=
  [.ofInt p.chroma_format_idc,
    .ofInt (p.width >>> (24 : ℕ)), .ofInt (p.width >>> (16 : ℕ)), .ofInt (p.width >>> (8 : ℕ)),
    .ofInt (p.width >>> (0 : ℕ)),
    .ofInt (p.height >>> (24 : ℕ)), .ofInt (p.height >>> (16 : ℕ)), .ofInt (p.height >>> (8 : ℕ)),
    .ofInt (p.height >>> (0 : ℕ)),
    .ofInt (p.bit_depth - 8)]

/-- What the memory holds that `malloc` gives for each of the two buffers. -/
structure Heap where
  msps_buf : ℕ → UInt8
  buf : ℕ → UInt8

/-- `malloc`. The size becomes a `size_t`, and no object is larger than `PTRDIFF_MAX`. -/
def malloc (contents : ℕ → UInt8) (size : ℤ) : Option Buffer :=
  if toU64 size < 2 ^ 63 then some ⟨toU64 size, contents⟩ else none

/-- The modified SPS header, and the rest of the input. -/
structure Assembled where
  msps_buf : Buffer
  msps_len : ℤ
  stdin : List UInt8

/-- The bytes of the modified SPS header. -/
def Assembled.msps (a : Assembled) : List UInt8 := a.msps_buf.slice 0 a.msps_len.toNat

/-- The first half of `build_msps`. -/
def assemble (h : Heap) (p : Picture) (stdin : List UInt8) : Option Assembled := do
  let (len, stdin) := ue7_32 stdin
  -- the sum is an `unsigned long`
  let msps_len := twos 32 (1 + 4 + 4 + 1 + len.toNat)
  let msps_buf ← malloc h.msps_buf msps_len
  let msps_buf ← msps_buf.store 0 p.fields
  let msps_buf ← msps_buf.store 10 (stdin.take len.toNat)
  -- `assert(idx == msps_len)`
  guard (twos 32 (10 + len.toNat) = msps_len)
  some ⟨msps_buf, msps_len, stdin.drop len.toNat⟩

/-- The size of the second buffer. -/
def buf_len (msps_len : ℤ) : CInt 32 := .lit 4 + .lit 2 + .lit msps_len * .lit 2

/-- The loop that writes what is left of `msps_buf` at `idx`, with the escape codes. -/
def escape_loop : List UInt8 → ℕ → Buffer → Option (ℕ × Buffer)
  | [], idx, buf => some (idx, buf)
  | [a], idx, buf => do
    let buf ← buf.store idx [a]
    some (idx + 1, buf)
  | a :: b :: l, idx, buf =>
    if a = 0 ∧ b = 0 then do
      let buf ← buf.store idx [0x00, 0x00, 0x03]
      escape_loop l (idx + 3) buf
    else do
      let buf ← buf.store idx [a]
      escape_loop (b :: l) (idx + 1) buf

/-- The last byte cannot be 0. -/
def stop_byte (idx : ℕ) (buf : Buffer) : Option (ℕ × Buffer) :=
  if idx = 0 ∨ buf.byte (idx - 1) = 0x00 then do
    let buf ← buf.store idx [0x80]
    some (idx + 1, buf)
  else some (idx, buf)

/-- The bytes `build_msps` leaves in `pbuf`, and the rest of the input. -/
def build_msps (h : Heap) (p : Picture) (stdin : List UInt8) : Option (List UInt8 × List UInt8) := do
  let a ← assemble h p stdin
  let buf ← malloc h.buf (buf_len a.msps_len).val
  let buf ← buf.store 0 [0x00, 0x00, 0x00, 0x01, (48 : UInt8) <<< 1, 1]
  let (idx, buf) ← escape_loop a.msps 6 buf
  let (idx, buf) ← stop_byte idx buf
  some (buf.slice 0 idx, a.stdin)

end ViTools.Bpg2hevc
