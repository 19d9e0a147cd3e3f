import Mathlib.Algebra.BigOperators.Group.Finset.Basic
import Mathlib.Tactic.Abel

/-!
# Ledgers of an addressed store

A store holds a value at every address. A *ledger* is a running total in a commutative group that
books every access to the store: a value written at an address enters it and a value read at an
address leaves it. If every write is preceded by a read of the same cells, the total follows the
contents, and it does so whatever the reads return: each wrong read moves it by the discrepancy
between the value read and the value expected there.

* `Access` is one access and `booked` the total a list of accesses adds to a ledger.
* `after` is the contents expected after a list of accesses, in which reads change nothing.
* `discrepancy` sums, over all reads, the difference between the value read and the value expected
  at the time.
* `Swaps S` lists consist of blocks that read some cells of `S` and then write the same cells.

The main results are `Swaps.balance` for such lists, `balance_reads` for a read of all of `S`, and
`balance_swaps_reads`, where the two are put together.
-/

open scoped BigOperators

namespace ViTools

/-- One access to a store: a value read from an address, or one written to it. -/
inductive Access (α β : Type*)
  | rd (a : α) (v : β)
  | wr (a : α) (v : β)

namespace Access

variable {α β G : Type*}

/-- The accesses that read a block, given as values with their addresses. -/
def reads (l : List (β × α)) : List (Access α β) := l.map fun p ↦ rd p.2 p.1

/-- The accesses that write a block, given as values with their addresses. -/
def writes (l : List (β × α)) : List (Access α β) := l.map fun p ↦ wr p.2 p.1

@[simp] theorem reads_nil : reads ([] : List (β × α)) = [] := rfl

@[simp] theorem writes_nil : writes ([] : List (β × α)) = [] := rfl

theorem reads_append (l k : List (β × α)) : reads (l ++ k) = reads l ++ reads k := List.map_append

theorem writes_append (l k : List (β × α)) : writes (l ++ k) = writes l ++ writes k :=
  List.map_append

/-! ## Balanced lists of accesses -/

/-- Blocks that read some cells of `S` and then write the same cells. -/
inductive Swaps (S : Finset α) : List (Access α β) → Prop
  | nil : Swaps S []
  | block {olds news : List (β × α)} {l : List (Access α β)}
      (haddr : olds.map Prod.snd = news.map Prod.snd) (hnd : (news.map Prod.snd).Nodup)
      (hmem : ∀ a ∈ news.map Prod.snd, a ∈ S) (hl : Swaps S l) :
      Swaps S (reads olds ++ writes news ++ l)

theorem Swaps.append {S : Finset α} {l k : List (Access α β)} (hl : Swaps S l) (hk : Swaps S k) :
    Swaps S (l ++ k) := by
  induction hl with
  | nil => exact hk
  | block haddr hnd hmem _ ih =>
    rw [List.append_assoc]
    exact .block haddr hnd hmem ih

theorem Swaps.single {S : Finset α} {olds news : List (β × α)}
    (haddr : olds.map Prod.snd = news.map Prod.snd) (hnd : (news.map Prod.snd).Nodup)
    (hmem : ∀ a ∈ news.map Prod.snd, a ∈ S) : Swaps S (reads olds ++ writes news) := by
  have h := Swaps.block haddr hnd hmem .nil
  rwa [List.append_nil] at h

/-! ## Contents -/

section Contents

variable [DecidableEq α]

/-- The contents expected after the accesses. -/
def after (E : α → β) : List (Access α β) → α → β
  | [] => E
  | rd _ _ :: l => after E l
  | wr a v :: l => after (Function.update E a v) l

@[simp] theorem after_nil (E : α → β) : after E [] = E := rfl

@[simp] theorem after_rd (E : α → β) (a : α) (v : β) (l : List (Access α β)) :
    after E (rd a v :: l) = after E l := rfl

@[simp] theorem after_wr (E : α → β) (a : α) (v : β) (l : List (Access α β)) :
    after E (wr a v :: l) = after (Function.update E a v) l := rfl

theorem after_append (E : α → β) (l k : List (Access α β)) :
    after E (l ++ k) = after (after E l) k := by
  induction l generalizing E with
  | nil => rfl
  | cons x l ih => cases x <;> exact ih _

@[simp] theorem after_reads (E : α → β) (l : List (β × α)) : after E (reads l) = E := by
  induction l with
  | nil => rfl
  | cons p l ih => exact ih

end Contents

/-! ## Totals -/

section Totals

variable [AddCommGroup G] (c : α → β → G)

/-- What the accesses add to a ledger: written values enter it, values read leave it. -/
def booked : List (Access α β) → G
  | [] => 0
  | rd a v :: l => -c a v + booked l
  | wr a v :: l => c a v + booked l

@[simp] theorem booked_nil : booked c [] = 0 := rfl

theorem booked_append (l k : List (Access α β)) : booked c (l ++ k) = booked c l + booked c k := by
  induction l with
  | nil => exact (zero_add _).symm
  | cons x l ih => cases x <;> rw [List.cons_append, booked, booked, ih, add_assoc]

theorem booked_reads (l : List (β × α)) :
    booked c (reads l) = -(l.map fun p ↦ c p.2 p.1).sum := by
  induction l with
  | nil => simp
  | cons p l ih =>
    rw [List.map_cons, List.sum_cons, neg_add, ← ih]
    rfl

theorem booked_writes (l : List (β × α)) : booked c (writes l) = (l.map fun p ↦ c p.2 p.1).sum := by
  induction l with
  | nil => rfl
  | cons p l ih =>
    rw [List.map_cons, List.sum_cons, ← ih]
    rfl

variable [DecidableEq α]

/-- The sum over all reads of the value read minus the value expected at the time. -/
def discrepancy (E : α → β) : List (Access α β) → G
  | [] => 0
  | rd a v :: l => (c a v - c a (E a)) + discrepancy E l
  | wr a v :: l => discrepancy (Function.update E a v) l

@[simp] theorem discrepancy_nil (E : α → β) : discrepancy c E [] = 0 := rfl

theorem discrepancy_append (E : α → β) (l k : List (Access α β)) :
    discrepancy c E (l ++ k) = discrepancy c E l + discrepancy c (after E l) k := by
  induction l generalizing E with
  | nil => exact (zero_add _).symm
  | cons x l ih =>
    cases x with
    | rd a v => rw [List.cons_append, discrepancy, discrepancy, ih, after_rd, add_assoc]
    | wr a v => rw [List.cons_append, discrepancy, discrepancy, ih, after_wr]

theorem discrepancy_reads (E : α → β) (l : List (β × α)) :
    discrepancy c E (reads l) = (l.map fun p ↦ c p.2 p.1).sum - (l.map fun p ↦ c p.2 (E p.2)).sum := by
  induction l with
  | nil => simp
  | cons p l ih =>
    simp only [List.map_cons, List.sum_cons]
    rw [add_sub_add_comm, ← ih]
    rfl

@[simp] theorem discrepancy_writes (E : α → β) (l : List (β × α)) :
    discrepancy c E (writes l) = 0 := by
  induction l generalizing E with
  | nil => rfl
  | cons p l ih => exact ih _

/-- The total of the contents over a set of addresses. -/
def held (S : Finset α) (E : α → β) : G := ∑ a ∈ S, c a (E a)

theorem held_update {S : Finset α} {a : α} (ha : a ∈ S) (E : α → β) (v : β) :
    held c S (Function.update E a v) = held c S E - c a (E a) + c a v := by
  have hsplit : ∀ F : α → β, held c S F = c a (F a) + ∑ b ∈ S.erase a, c b (F b) := fun F ↦
    (Finset.add_sum_erase S (fun b ↦ c b (F b)) ha).symm
  have hrest : ∑ b ∈ S.erase a, c b (Function.update E a v b) = ∑ b ∈ S.erase a, c b (E b) :=
    Finset.sum_congr rfl fun b hb ↦ by rw [Function.update_of_ne (Finset.ne_of_mem_erase hb)]
  rw [hsplit, hsplit E, hrest, Function.update_self]
  abel

/-- Writing distinct cells of `S` replaces their old values in the total by the new ones. -/
theorem held_after_writes {S : Finset α} {l : List (β × α)} (hnd : (l.map Prod.snd).Nodup)
    (hmem : ∀ a ∈ l.map Prod.snd, a ∈ S) (E : α → β) :
    held c S (after E (writes l))
      = held c S E - (l.map fun p ↦ c p.2 (E p.2)).sum + (l.map fun p ↦ c p.2 p.1).sum := by
  induction l generalizing E with
  | nil => simp
  | cons p l ih =>
    rw [List.map_cons, List.nodup_cons] at hnd
    rw [List.map_cons, List.forall_mem_cons] at hmem
    have hold : (l.map fun q ↦ c q.2 (Function.update E p.2 p.1 q.2)).sum
        = (l.map fun q ↦ c q.2 (E q.2)).sum := by
      refine congrArg _ (List.map_congr_left fun q hq ↦ ?_)
      have hne : q.2 ≠ p.2 := fun he ↦ hnd.1 (he ▸ List.mem_map_of_mem hq)
      rw [Function.update_of_ne hne]
    have hstep : after E (writes (p :: l)) = after (Function.update E p.2 p.1) (writes l) := rfl
    rw [hstep, ih hnd.2 hmem.2, hold, held_update c hmem.1]
    simp only [List.map_cons, List.sum_cons]
    abel

/-! ## The balance -/

/-- What a list of swaps books is the change of the contents, short of the discrepancy of its
reads. -/
theorem Swaps.balance {S : Finset α} {l : List (Access α β)} (hl : Swaps S l) (E : α → β) :
    booked c l + discrepancy c E l = held c S (after E l) - held c S E := by
  induction hl generalizing E with
  | nil => simp
  | @block olds news l haddr hnd hmem _ ih =>
    have hexp : (olds.map fun p ↦ c p.2 (E p.2)) = news.map fun p ↦ c p.2 (E p.2) := by
      have h := congrArg (List.map fun a ↦ c a (E a)) haddr
      rwa [List.map_map, List.map_map] at h
    have hrest := ih (after E (writes news))
    rw [booked_append, booked_append, booked_reads, booked_writes, discrepancy_append,
      discrepancy_append, discrepancy_reads, discrepancy_writes, after_append _ (_ ++ _),
      after_append, after_reads, hexp]
    rw [held_after_writes c hnd hmem] at hrest
    calc _ = (booked c l + discrepancy c (after E (writes news)) l)
          + ((news.map fun p ↦ c p.2 p.1).sum - (news.map fun p ↦ c p.2 (E p.2)).sum) := by abel
      _ = held c S (after (after E (writes news)) l) - held c S E := by rw [hrest]; abel

/-- Reading every cell of `S` once takes the whole contents out of the ledger. -/
theorem balance_reads {S : Finset α} {l : List (β × α)} (hnd : (l.map Prod.snd).Nodup)
    (hS : (l.map Prod.snd).toFinset = S) (E : α → β) :
    booked c (reads l) + discrepancy c E (reads l) = -held c S E := by
  have hheld : held c S E = (l.map fun p ↦ c p.2 (E p.2)).sum := by
    rw [held, ← hS, List.sum_toFinset _ hnd, List.map_map]
    rfl
  rw [booked_reads, discrepancy_reads, hheld]
  abel

/-- A list of swaps followed by a read of all cells leaves the contents the ledger was opened with
and the discrepancies. -/
theorem balance_swaps_reads {S : Finset α} {l : List (Access α β)} {k : List (β × α)}
    (hl : Swaps S l) (hnd : (k.map Prod.snd).Nodup) (hS : (k.map Prod.snd).toFinset = S)
    (E : α → β) :
    booked c (l ++ reads k) + discrepancy c E (l ++ reads k) = -held c S E := by
  rw [booked_append, discrepancy_append]
  have h := hl.balance c E
  have h' := balance_reads c hnd hS (after E l)
  calc _ = (booked c l + discrepancy c E l)
        + (booked c (reads k) + discrepancy c (after E l) (reads k)) := by abel
    _ = -held c S E := by rw [h, h']; abel

end Totals

end Access

end ViTools
