import Mathlib.Data.List.Basic
import ViTools.Lib.TextObjects

/-!
# The program dump_tc_stats

Once a second the program asks the kernel for the queueing disciplines, and prints a line with nine counters for
each of those of the interface. What libnl gives is a parameter: the objects that it calls the callback with each
time, and their counters.

The output is meant for other programs. It is one object of nine numbers in each line, and from it the counters
of all the objects can be read back.
-/

namespace ViTools.DumpTcStats

/-- `enum rtnl_tc_stat`, as far as it is used. -/
inductive TcStat
  | RTNL_TC_PACKETS
  | RTNL_TC_BYTES
  | RTNL_TC_RATE_BPS
  | RTNL_TC_RATE_PPS
  | RTNL_TC_QLEN
  | RTNL_TC_BACKLOG
  | RTNL_TC_DROPS
  | RTNL_TC_REQUEUES
  | RTNL_TC_OVERLIMITS
  deriving DecidableEq

/-- `printf` with a text that has no conversion in it, or with `PRIu64` at its end. -/
def printf (format : String) (x : Option UInt64) : List Char :=
  format.toList ++ x.elim [] fun x ↦ Nat.toDigits 10 x.toNat

/-- What `callback` prints. -/
def callback (rtnl_tc_get_stat : TcStat → UInt64) : List Char :=
  let pa := rtnl_tc_get_stat .RTNL_TC_PACKETS
  let by_ := rtnl_tc_get_stat .RTNL_TC_BYTES
  let rb := rtnl_tc_get_stat .RTNL_TC_RATE_BPS
  let rp := rtnl_tc_get_stat .RTNL_TC_RATE_PPS
  let ql := rtnl_tc_get_stat .RTNL_TC_QLEN
  let bl := rtnl_tc_get_stat .RTNL_TC_BACKLOG
  let dr := rtnl_tc_get_stat .RTNL_TC_DROPS
  let rq := rtnl_tc_get_stat .RTNL_TC_REQUEUES
  let ov := rtnl_tc_get_stat .RTNL_TC_OVERLIMITS
  printf "\x7b" none ++
  printf "\"PACKETS\":" pa ++
  printf ",\"BYTES\":" by_ ++
  printf ",\"RATE_BPS\":" rb ++
  printf ",\"RATE_PPS\":" rp ++
  printf ",\"QLEN\":" ql ++
  printf ",\"BACKLOG\":" bl ++
  printf ",\"DROPS\":" dr ++
  printf ",\"REQUEUES\":" rq ++
  printf ",\"OVERLIMITS\":" ov ++
  printf "\x7d\n" none

section Main

variable {Obj : Type*}

/-- What the loop of `main` prints: in each turn `nl_cache_foreach_filter` calls the callback for some objects. -/
def main (rtnl_tc_get_stat : Obj → TcStat → UInt64) (turns : List (List Obj)) : List Char :=
  turns.flatMap fun objs ↦ objs.flatMap fun obj ↦ callback (rtnl_tc_get_stat obj)

end Main

/-! ## The text -/

/-- The name that a counter is printed under. -/
def TcStat.name : TcStat → String
  | RTNL_TC_PACKETS => "PACKETS"
  | RTNL_TC_BYTES => "BYTES"
  | RTNL_TC_RATE_BPS => "RATE_BPS"
  | RTNL_TC_RATE_PPS => "RATE_PPS"
  | RTNL_TC_QLEN => "QLEN"
  | RTNL_TC_BACKLOG => "BACKLOG"
  | RTNL_TC_DROPS => "DROPS"
  | RTNL_TC_REQUEUES => "REQUEUES"
  | RTNL_TC_OVERLIMITS => "OVERLIMITS"

/-- The counters in the order of printing. -/
def tc_stats : List TcStat :=
  [.RTNL_TC_PACKETS, .RTNL_TC_BYTES, .RTNL_TC_RATE_BPS, .RTNL_TC_RATE_PPS, .RTNL_TC_QLEN, .RTNL_TC_BACKLOG,
    .RTNL_TC_DROPS, .RTNL_TC_REQUEUES, .RTNL_TC_OVERLIMITS]

theorem plain_name (s : TcStat) : ∀ c ∈ s.name.toList, is_plain c := by
  rw [← List.all_eq_true]
  cases s <;> decide +kernel

/-- A counter as it is printed. -/
def TcStat.member (s : TcStat) (x : UInt64) : Member := ⟨s.name.toList, x.toNat, plain_name s⟩

/-- All the counters of an object. -/
def members (rtnl_tc_get_stat : TcStat → UInt64) : List Member :=
  tc_stats.map fun s ↦ s.member (rtnl_tc_get_stat s)

theorem callback_eq (rtnl_tc_get_stat : TcStat → UInt64) :
    callback rtnl_tc_get_stat = object_text (members rtnl_tc_get_stat) ++ ['\n'] := by
  simp [callback, printf, members, tc_stats, object_text, rest_text, TcStat.member, Member.text, TcStat.name]

section ReadBack

variable {Obj Obj' : Type*} (get : Obj → TcStat → UInt64) (turns : List (List Obj))

/-- The counters of the disciplines that are printed. -/
def printed : List (TcStat → UInt64) := turns.flatten.map get

theorem main_eq : main get turns = lines_text ((printed get turns).map members) := by
  induction turns with
  | nil => rfl
  | cons objs turns ih =>
    have hturn : (objs.flatMap fun obj ↦ callback (get obj)) = lines_text ((objs.map get).map members) := by
      rw [lines_text, List.flatMap_map, List.flatMap_map]
      simp only [callback_eq]
    rw [main] at ih
    rw [main, List.flatMap_cons, ih, hturn, printed, printed, List.flatten_cons, List.map_append, List.map_append,
      lines_text, lines_text, lines_text, List.flatMap_append]

end ReadBack

end ViTools.DumpTcStats
