import ViTools.Lib.Buffer
import ViTools.Lib.Bytes
import ViTools.Lib.Keyed
import ViTools.Lib.MachineInt
import ViTools.Lib.Run
import ViTools.UdpTsSeqReply.Time
import Mathlib.Data.Vector.Basic

/-!
# The server

`serve1` answers one datagram. It reads a client id from the first four bytes, puts its clock and the
number of the client's datagrams before the datagram, and for a probe packet the masked source
address too. The numbers start again at zero when the client was silent for more than a minute.

The two maps are entries keyed by client ids. `serve1_eq` says all there is to know about one call:
no access to the buffer is out of bounds, what the reply consists of, and what becomes of the entry.
From it, the server is a table of independent machines, one for each id.

A failing `recvfrom` makes `serve1` return at once, so a request is always a datagram received.
-/

namespace ViTools.UdpTsSeqReply

/-! ## Constants and conversions -/

/-- The host is little-endian. -/
def htonl (x : UInt32) : UInt32 := byteSwap32 x

/-- The host is little-endian. -/
def ntohl (x : UInt32) : UInt32 := byteSwap32 x

theorem ntohl_htonl (x : UInt32) : ntohl (htonl x) = x := byteSwap32_byteSwap32 x

/-- The address family of IPv4. -/
def AF_INET : UInt16 := 2

/-- The characters `nUTs`. -/
def NEWPROTO_SIGNATURE : List UInt8 := [0x6e, 0x55, 0x54, 0x73]

/-- What the source address is hidden with. -/
def IP_MASK : Vector UInt8 4 := #v[0x44, 0x55, 0x66, 0x77]

/-- What the source port is hidden with. -/
def PORT_MASK : Vector UInt8 2 := #v[0x88, 0x99]

/-- The `int` a plain `char` is promoted to. -/
def promote (c : UInt8) : BitVec 32 := c.toBitVec.signExtend 32

/-- A `uint8_t` xored with a `char` of a mask, as a `uint8_t`. -/
def mask_byte (a m : UInt8) : UInt8 := ⟨(a.toBitVec.setWidth 32 ^^^ promote m).setWidth 8⟩

theorem setWidth_promote (c : UInt8) : (promote c).setWidth 8 = c.toBitVec := by
  refine BitVec.eq_of_getLsbD_eq fun i hi ↦ ?_
  have hi' : i < 32 := by omega
  simp only [promote, BitVec.getLsbD_setWidth, BitVec.getLsbD_signExtend, hi, hi', if_true,
    decide_true, Bool.true_and]

theorem mask_byte_eq (a m : UInt8) : mask_byte a m = a ^^^ m := by
  refine UInt8.toBitVec_inj.mp ?_
  rw [mask_byte, BitVec.setWidth_xor, setWidth_promote,
    BitVec.setWidth_setWidth_of_le _ (by decide), BitVec.setWidth_eq, UInt8.toBitVec_xor]

/-! ## Times and numbers in a packet -/

/-- Write a time and a sequence number at an offset, in network byte order. -/
def store_stamp (buf : Buffer) (off : ℕ) (ts : Timespec) (seq : UInt32) : Option Buffer := do
  let high := htonl (UInt32.ofNat ((toU64 ts.tv_sec &&& 0xFFFFFFFF00000000) >>> 32))
  let buf ← buf.store off (memBytes32 high)
  let low := htonl (UInt32.ofNat ((toU64 ts.tv_sec &&& 0x00000000FFFFFFFF) >>> 0))
  let buf ← buf.store (off + 4) (memBytes32 low)
  let nano := htonl (UInt32.ofNat (toU32 ts.tv_nsec))
  let buf ← buf.store (off + 8) (memBytes32 nano)
  buf.store (off + 12) (memBytes32 (htonl seq))

/-- The sixteen bytes of a time and a sequence number. -/
def stamp (ts : Timespec) (seq : UInt32) : List UInt8 :=
  memBytes32 (htonl (UInt32.ofNat ((toU64 ts.tv_sec &&& 0xFFFFFFFF00000000) >>> 32)))
    ++ memBytes32 (htonl (UInt32.ofNat ((toU64 ts.tv_sec &&& 0x00000000FFFFFFFF) >>> 0)))
    ++ memBytes32 (htonl (UInt32.ofNat (toU32 ts.tv_nsec))) ++ memBytes32 (htonl seq)

@[simp] theorem length_stamp (ts : Timespec) (seq : UInt32) : (stamp ts seq).length = 16 := by
  simp only [stamp, List.length_append, length_memBytes32]

theorem store_stamp_of_le {buf : Buffer} {off : ℕ} (h : off + 16 ≤ buf.size) (ts : Timespec)
    (seq : UInt32) : store_stamp buf off ts seq = some (buf.put off (stamp ts seq)) := by
  have happend : ∀ (x y : List UInt8) (n : ℕ), x.length = n →
      (buf.put off x).store (off + n) y
        = if off + n + y.length ≤ buf.size then some (buf.put off (x ++ y)) else none := by
    rintro x y n rfl
    rw [Buffer.store, Buffer.put_put_append, Buffer.size_put]
  rw [store_stamp, Buffer.store_of_le (by rw [length_memBytes32]; omega), stamp]
  simp only [Option.bind_eq_bind, Option.bind_some]
  rw [happend _ _ 4 (by simp), if_pos (by rw [length_memBytes32]; omega)]
  simp only [Option.bind_some]
  rw [happend _ _ 8 (by simp), if_pos (by rw [length_memBytes32]; omega)]
  simp only [Option.bind_some]
  rw [happend _ _ 12 (by simp), if_pos (by rw [length_memBytes32]; omega)]

/-! ## The server -/

/-- `struct sockaddr_in`, its address and port as they are in memory, in network byte order. -/
structure SockaddrIn where
  /-- The address family. -/
  sin_family : UInt16
  /-- The two bytes of the port. -/
  sin_port : Vector UInt8 2
  /-- The four bytes of the address. -/
  sin_addr : Vector UInt8 4

/-- The port number. -/
def SockaddrIn.port (sa : SockaddrIn) : ℕ := 256 * sa.sin_port[0].toNat + sa.sin_port[1].toNat

/-- A datagram, its source address, and the time the server's clock shows. -/
structure Request where
  /-- The bytes sent. -/
  datagram : List UInt8
  /-- The source address. -/
  sa : SockaddrIn
  /-- The time of arrival. -/
  ts : ClockTime

/-- A map keyed by client ids, with one entry set. -/
def setEntry {α : Type*} (f : UInt32 → Option α) (x : UInt32) (v : α) : UInt32 → Option α :=
  fun y ↦ if y = x then some v else f y

section SetEntry

variable {α : Type*} (f : UInt32 → Option α) {x y : UInt32} (u v : α)

@[simp] theorem setEntry_self : setEntry f x v x = some v := if_pos rfl

theorem setEntry_of_ne (h : y ≠ x) : setEntry f x v y = f y := if_neg h

theorem setEntry_setEntry : setEntry (setEntry f x u) x v = setEntry f x v := by
  funext y
  by_cases h : y = x
  · subst h
    rw [setEntry_self, setEntry_self]
  · rw [setEntry_of_ne _ _ h, setEntry_of_ne _ _ h, setEntry_of_ne _ _ h]

end SetEntry

/-- The two maps of the server. -/
structure Server where
  /-- The number of the next reply for each id. -/
  seqs : UInt32 → Option UInt32
  /-- The time of the last datagram for each id. -/
  lastseens : UInt32 → Option ClockTime

/-- The server when it starts. -/
def Server.start : Server := ⟨fun _ ↦ none, fun _ ↦ none⟩

/-- The client id at the start of a datagram of `ret` bytes. -/
def read_id (buf : Buffer) (ret : ℕ) : Option UInt32 :=
  if 4 ≤ ret then (buf.load 0 4).map memNat32 else some 0

/-- Whether to put the address and port too: compare the signature, if the datagram is long enough. -/
def read_signature (buf : Buffer) (ret : ℕ) : Option Bool :=
  if 8 ≤ ret then (buf.load 4 4).map (· == NEWPROTO_SIGNATURE) else some false

/-- The `seqs` after the check of `lastseens`. -/
def check_age (srv : Server) (id : UInt32) (ts : ClockTime) : UInt32 → Option UInt32 :=
  match srv.lastseens id with
  | some lastseen =>
    let age := timespec_diff lastseen.toTimespec ts.toTimespec
    if age.tv_sec > 60 then setEntry srv.seqs id 0 else srv.seqs
  | none => setEntry srv.seqs id 0

/-- The address with its mask, byte by byte. -/
def mask_ip (a : Vector UInt8 4) : Vector UInt8 4 :=
  #v[mask_byte a[0] IP_MASK[0], mask_byte a[1] IP_MASK[1], mask_byte a[2] IP_MASK[2],
    mask_byte a[3] IP_MASK[3]]

/-- The port with its mask, byte by byte. -/
def mask_port (a : Vector UInt8 2) : Vector UInt8 2 :=
  #v[mask_byte a[0] PORT_MASK[0], mask_byte a[1] PORT_MASK[1]]

/-- Write the masked source address and port at offsets 16 and 20. -/
def store_ip_port (buf : Buffer) (sa : SockaddrIn) : Option Buffer :=
  if sa.sin_family = AF_INET then do
    let buf ← buf.store 16 (mask_ip sa.sin_addr).toList
    buf.store 20 (mask_port sa.sin_port).toList
  else do
    let buf ← buf.store 16 IP_MASK.toList
    buf.store 20 PORT_MASK.toList

/-- Answer one datagram. The result is the reply sent, or `none` for an access out of bounds. -/
def serve1 (srv : Server) (req : Request) : Option (List UInt8 × Server) := do
  let received := req.datagram.take (65536 - 22)
  let ret := received.length
  let buf ← (Buffer.zeros 65536).store 0 received
  let id ← read_id buf ret
  let also_put_ip_port ← read_signature buf ret
  let shift := if !also_put_ip_port then 16 else 22
  let buf ← buf.move shift 0 ret
  let seqs := check_age srv id req.ts
  let seq := (seqs id).getD 0
  let buf ← store_stamp buf 0 req.ts.toTimespec seq
  let buf ← if also_put_ip_port then store_ip_port buf req.sa else some buf
  let reply ← buf.load 0 (ret + shift)
  some (reply,
    { seqs := setEntry seqs id (seq + 1)
      lastseens := setEntry srv.lastseens id req.ts })

/-! ## What a call does -/

/-- The id of a datagram: its first four bytes, or 0 if it is shorter. -/
def datagramId (d : List UInt8) : UInt32 := if 4 ≤ d.length then memNat32 (d.take 4) else 0

/-- A datagram with the signature of a probe packet. -/
def Signed (d : List UInt8) : Prop := (d.drop 4).take 4 = NEWPROTO_SIGNATURE

instance (d : List UInt8) : Decidable (Signed d) := inferInstanceAs (Decidable (_ = _))

/-- The id of a request. -/
def Request.id (req : Request) : UInt32 := datagramId req.datagram

/-- The masked source address, six bytes. -/
def SockaddrIn.masked (sa : SockaddrIn) : List UInt8 :=
  if sa.sin_family = AF_INET then
    (mask_ip sa.sin_addr).toList ++ (mask_port sa.sin_port).toList
  else IP_MASK.toList ++ PORT_MASK.toList

@[simp] theorem SockaddrIn.length_masked (sa : SockaddrIn) : sa.masked.length = 6 := by
  rw [masked]
  split <;> simp only [List.length_append, Vector.length_toList]

/-- What the server keeps for one id. -/
abbrev Entry := Option UInt32 × Option ClockTime

/-- The entry of an id. -/
def Server.entry (srv : Server) (x : UInt32) : Entry := (srv.seqs x, srv.lastseens x)

/-- A datagram that arrives at time `ts` finds the entry absent, or 61 seconds old or older. -/
def Entry.Stale (e : Entry) (ts : ClockTime) : Prop :=
  ∀ lastseen, e.2 = some lastseen → 61 * 1000000000 ≤ lastseen.gap ts

theorem Entry.stale_of_none {e : Entry} {ts : ClockTime} (h : e.2 = none) : e.Stale ts :=
  fun _ h' ↦ nomatch h.symm.trans h'

theorem Entry.stale_iff {e : Entry} {lastseen ts : ClockTime} (h : e.2 = some lastseen) :
    e.Stale ts ↔ 61 * 1000000000 ≤ lastseen.gap ts :=
  ⟨fun hall ↦ hall lastseen h, fun hgap _ h' ↦ Option.some.inj (h.symm.trans h') ▸ hgap⟩

instance (e : Entry) (ts : ClockTime) : Decidable (e.Stale ts) :=
  match h : e.2 with
  | none => .isTrue (Entry.stale_of_none h)
  | some lastseen => decidable_of_iff (61 * 1000000000 ≤ lastseen.gap ts) (Entry.stale_iff h).symm

/-- The number a datagram that arrives at time `ts` is answered with. -/
def Entry.seq (e : Entry) (ts : ClockTime) : UInt32 := if e.Stale ts then 0 else e.1.getD 0

/-- The reply to a request. -/
def reply (req : Request) (seq : UInt32) : List UInt8 :=
  stamp req.ts.toTimespec seq ++ (if Signed req.datagram then req.sa.masked else [])
    ++ req.datagram.take (65536 - 22)

/-- The maps after a request for id `x` at time `ts`. -/
def Server.served (srv : Server) (x : UInt32) (ts : ClockTime) : Server where
  seqs := setEntry srv.seqs x ((srv.entry x).seq ts + 1)
  lastseens := setEntry srv.lastseens x ts

namespace Server

variable (srv : Server) {x y : UInt32} (ts : ClockTime)

@[simp] theorem seqs_served_self :
    (srv.served x ts).seqs x = some ((srv.entry x).seq ts + 1) := setEntry_self ..

@[simp] theorem lastseens_served_self : (srv.served x ts).lastseens x = some ts :=
  setEntry_self ..

theorem seqs_served_of_ne (h : y ≠ x) : (srv.served x ts).seqs y = srv.seqs y :=
  setEntry_of_ne _ _ h

theorem lastseens_served_of_ne (h : y ≠ x) : (srv.served x ts).lastseens y = srv.lastseens y :=
  setEntry_of_ne _ _ h

end Server

theorem Server.entry_served (srv : Server) (x : UInt32) (ts : ClockTime) :
    (srv.served x ts).entry
      = Function.update srv.entry x (some ((srv.entry x).seq ts + 1), some ts) := by
  funext y
  by_cases h : y = x
  · subst h
    rw [Function.update_self, entry, seqs_served_self, lastseens_served_self]
  · rw [Function.update_of_ne h, entry, seqs_served_of_ne srv ts h, lastseens_served_of_ne srv ts h,
      entry]

theorem store_ip_port_of_le {buf : Buffer} (h : 22 ≤ buf.size) (sa : SockaddrIn) :
    store_ip_port buf sa = some (buf.put 16 sa.masked) := by
  have htwo : ∀ (x : Vector UInt8 4) (y : Vector UInt8 2),
      ((buf.store 16 x.toList).bind fun b ↦ b.store 20 y.toList)
        = some (buf.put 16 (x.toList ++ y.toList)) := by
    intro x y
    rw [Buffer.store_of_le (by rw [Vector.length_toList]; omega), Option.bind_some,
      Buffer.store_of_le (by rw [Vector.length_toList, Buffer.size_put]; omega),
      ← Buffer.put_put_append, Vector.length_toList]
  rw [store_ip_port, SockaddrIn.masked]
  split
  · exact htwo _ _
  · exact htwo _ _

theorem check_age_eq (srv : Server) (id : UInt32) (ts : ClockTime) :
    ((check_age srv id ts) id).getD 0 = (srv.entry id).seq ts ∧
      ∀ v, setEntry (check_age srv id ts) id v = setEntry srv.seqs id v := by
  rw [check_age, Entry.seq]
  cases hlast : srv.lastseens id with
  | none =>
    refine ⟨?_, fun v ↦ setEntry_setEntry ..⟩
    rw [if_pos (Entry.stale_of_none hlast)]
    simp only [setEntry_self, Option.getD_some]
  | some lastseen =>
    simp only [gt_iff_lt, ClockTime.age_gt_iff, Entry.stale_iff (e := srv.entry id) hlast]
    split
    · exact ⟨by rw [setEntry_self]; rfl, fun v ↦ setEntry_setEntry ..⟩
    · exact ⟨rfl, fun v ↦ rfl⟩

/-- What `serve1` reads from its buffer is the datagram's. -/
theorem read_id_received (req : Request) :
    read_id ((Buffer.zeros 65536).put 0 (req.datagram.take (65536 - 22)))
      (req.datagram.take (65536 - 22)).length = some req.id := by
  set b := (Buffer.zeros 65536).put 0 (req.datagram.take (65536 - 22)) with hb
  have hsize : b.size = 65536 := rfl
  rw [read_id, Request.id, datagramId, Buffer.load_of_le (by omega), Option.map_some, hb]
  by_cases h : 4 ≤ req.datagram.length
  · rw [if_pos (by rw [List.length_take]; omega), if_pos h, ← Nat.add_zero 0,
      Buffer.slice_put_part _ (by rw [List.length_take]; omega), List.drop_zero, List.take_take]
    rfl
  · rw [if_neg (by rw [List.length_take]; omega), if_neg h]

theorem read_signature_received (req : Request) :
    read_signature ((Buffer.zeros 65536).put 0 (req.datagram.take (65536 - 22)))
      (req.datagram.take (65536 - 22)).length = some (decide (Signed req.datagram)) := by
  set b := (Buffer.zeros 65536).put 0 (req.datagram.take (65536 - 22)) with hb
  have hsize : b.size = 65536 := rfl
  rw [read_signature, Buffer.load_of_le (by omega), Option.map_some, hb]
  by_cases h : 8 ≤ req.datagram.length
  · rw [if_pos (by rw [List.length_take]; omega), ← Nat.zero_add 4,
      Buffer.slice_put_part _ (by rw [List.length_take]; omega), List.drop_take, List.take_take]
    exact congrArg some (beq_eq_decide ..)
  · rw [if_neg (by rw [List.length_take]; omega)]
    -- too short for a signature
    have hshort : (List.take 4 (List.drop 4 req.datagram)).length ≠ NEWPROTO_SIGNATURE.length := by
      rw [List.length_take, List.length_drop]
      simp only [NEWPROTO_SIGNATURE, List.length_cons, List.length_nil]
      omega
    rw [decide_eq_false fun heq : Signed _ ↦ hshort (congrArg _ heq)]

/-- **One call of the server.** It never leaves its buffer, and this is its effect. -/
theorem serve1_eq (srv : Server) (req : Request) :
    serve1 srv req = some (reply req ((srv.entry req.id).seq req.ts), srv.served req.id req.ts) := by
  have hid := read_id_received req
  have hsig := read_signature_received req
  set d := req.datagram.take (65536 - 22) with hd
  set b := (Buffer.zeros 65536).put 0 d with hb
  have hlen : d.length ≤ 65514 := by
    rw [hd, List.length_take]
    omega
  have hsize : b.size = 65536 := rfl
  have hbody : b.slice 0 d.length = d := Buffer.slice_put_self ..
  obtain ⟨hseq, hupdate⟩ := check_age_eq srv req.id req.ts
  rw [serve1, ← hd, Buffer.store_of_le (by rw [Buffer.size_zeros]; omega), ← hb]
  simp only [Option.bind_eq_bind, Option.bind_some, hid, hsig, hseq, hupdate]
  by_cases hsigned : Signed req.datagram
  · simp only [hsigned, decide_true, Bool.not_true, Bool.false_eq_true, if_false, if_true]
    rw [Buffer.move_of_le (by omega) (by omega), hbody, Option.bind_some,
      store_stamp_of_le (by rw [Buffer.size_put]; omega), Option.bind_some,
      store_ip_port_of_le (by simp only [Buffer.size_put]; omega), Option.bind_some,
      Buffer.load_of_le (by simp only [Buffer.size_put]; omega), Option.bind_some]
    have hbytes := Buffer.slice_put_header b (stamp req.ts.toTimespec ((srv.entry req.id).seq req.ts)
      ++ req.sa.masked) d (i := 22) (by simp)
    rw [← Buffer.put_put_append, length_stamp, Nat.zero_add] at hbytes
    rw [Nat.add_comm, hbytes, reply, if_pos hsigned, hd]
    rfl
  · simp only [hsigned, decide_false, Bool.not_false, if_true, Bool.false_eq_true, if_false]
    rw [Buffer.move_of_le (by omega) (by omega), hbody, Option.bind_some,
      store_stamp_of_le (by rw [Buffer.size_put]; omega), Option.bind_some,
      Buffer.load_of_le (by simp only [Buffer.size_put]; omega), Option.bind_some, Nat.add_comm,
      Buffer.slice_put_header _ _ _ (length_stamp ..), reply, if_neg hsigned, List.append_nil, hd]
    rfl

/-! ## The server as a table of clients -/

/-- What the server does with the datagrams of each id. -/
def clients : Keyed UInt32 Entry Request (List UInt8) where
  key := Request.id
  step e req := (reply req (e.seq req.ts), some (e.seq req.ts + 1), some req.ts)

/-- **Refinement.** The server is a table of machines, one for each id. -/
theorem transduce_serve1 (srv : Server) (reqs : List Request) :
    ∃ srv', transduce serve1 srv reqs = some ((clients.table srv.entry reqs).1.map Prod.snd, srv') ∧
      srv'.entry = (clients.table srv.entry reqs).2 := by
  induction reqs generalizing srv with
  | nil => exact ⟨srv, rfl, rfl⟩
  | cons req reqs ih =>
    obtain ⟨srv', hrun, hentry⟩ := ih (srv.served req.id req.ts)
    rw [Server.entry_served] at hrun hentry
    exact ⟨srv', transduce_cons_eq_some.mpr ⟨_, _, _, serve1_eq srv req, hrun, rfl⟩, hentry⟩

end ViTools.UdpTsSeqReply
