import ViTools.Lib.Ledger
import Mathlib.Algebra.BigOperators.Group.Finset.Piecewise

/-!
# Stores that change silently

A store answers reads with what it holds and keeps what is written, but between accesses a cell may
take another value by itself. A history is the list of what happens to the store: accesses and silent
changes.

The ledger of `ViTools.Lib.Ledger` does not see the changes, only the accesses. If no cell is read twice
without a write in between, the discrepancy it ends with is the sum of the changes that are *seen*:
those whose cell is read before it is overwritten. This is `discrepancy_eq_seen`.
-/

open scoped BigOperators

namespace ViTools

/-- An access to a store, or a cell that takes a value by itself. -/
inductive Happening (α β : Type*)
  | access (x : Access α β)
  | change (a : α) (v : β)

namespace Happening

open Access

variable {α β G : Type*}

/-- The accesses of a history. -/
def visible : List (Happening α β) → List (Access α β)
  | [] => []
  | access x :: l => x :: visible l
  | change _ _ :: l => visible l

@[simp] theorem visible_nil : visible ([] : List (Happening α β)) = [] := rfl

@[simp] theorem visible_access (x : Access α β) (l : List (Happening α β)) :
    visible (access x :: l) = x :: visible l := rfl

@[simp] theorem visible_change (a : α) (v : β) (l : List (Happening α β)) :
    visible (change a v :: l) = visible l := rfl

theorem visible_append (l k : List (Happening α β)) : visible (l ++ k) = visible l ++ visible k := by
  induction l with
  | nil => rfl
  | cons h l ih =>
    cases h with
    | access x => exact congrArg (x :: ·) ih
    | change a v => exact ih

@[simp] theorem visible_map_access (l : List (Access α β)) : visible (l.map access) = l := by
  induction l with
  | nil => rfl
  | cons x l ih => exact congrArg (x :: ·) ih

/-- The cell an access is at. -/
def address : Access α β → α
  | .rd a _ | .wr a _ => a

@[simp] theorem address_rd (a : α) (v : β) : address (.rd a v) = a := rfl

@[simp] theorem address_wr (a : α) (v : β) : address (.wr a v) = a := rfl

variable [DecidableEq α]

/-- Reads return what the store holds at the time. -/
def Honest : (α → β) → List (Happening α β) → Prop
  | _, [] => True
  | F, access (.rd a v) :: l => v = F a ∧ Honest F l
  | F, access (.wr a v) :: l => Honest (Function.update F a v) l
  | F, change a v :: l => Honest (Function.update F a v) l

theorem honest_access_append {F : α → β} (l : List (Access α β)) (k : List (Happening α β)) :
    Honest F (l.map access ++ k) ↔ Honest F (l.map access) ∧ Honest (after F l) k := by
  induction l generalizing F with
  | nil => exact (and_iff_right trivial).symm
  | cons x l ih =>
    cases x with
    | rd a v => rw [List.map_cons, List.cons_append, Honest, Honest, ih, after_rd, and_assoc]
    | wr a v => exact ih

/-! ## Which access comes next -/

/-- Whether the next access to `a` is a read. -/
def readNext (a : α) : List (Access α β) → Bool
  | [] => false
  | .rd b _ :: l => if b = a then true else readNext a l
  | .wr b _ :: l => if b = a then false else readNext a l

/-- No cell is read twice without a write in between. -/
def Alternating : List (Access α β) → Prop
  | [] => True
  | .rd a _ :: l => readNext a l = false ∧ Alternating l
  | .wr _ _ :: l => Alternating l

theorem readNext_reads {a : α} {l : List (β × α)} (h : a ∉ l.map Prod.snd) (k : List (Access α β)) :
    readNext a (reads l ++ k) = readNext a k := by
  induction l with
  | nil => rfl
  | cons p l ih =>
    rw [List.map_cons, List.mem_cons, not_or] at h
    have hstep : readNext a (reads (p :: l) ++ k)
        = if p.2 = a then true else readNext a (reads l ++ k) := rfl
    rw [hstep, if_neg (Ne.symm h.1), ih h.2]

theorem readNext_writes {a : α} {l : List (β × α)} (h : a ∈ l.map Prod.snd) (k : List (Access α β)) :
    readNext a (writes l ++ k) = false := by
  induction l with
  | nil => exact absurd h List.not_mem_nil
  | cons p l ih =>
    have hstep : readNext a (writes (p :: l) ++ k)
        = if p.2 = a then false else readNext a (writes l ++ k) := rfl
    rw [hstep]
    split
    · rfl
    · next hne => exact ih ((List.mem_cons.mp h).resolve_left (Ne.symm hne))

theorem alternating_writes (l : List (β × α)) {k : List (Access α β)} (hk : Alternating k) :
    Alternating (writes l ++ k) := by
  induction l with
  | nil => exact hk
  | cons p l ih => exact ih

/-- Reads of distinct cells, followed by accesses that do not read these cells first. -/
theorem alternating_reads {l : List (β × α)} (hnd : (l.map Prod.snd).Nodup) {k : List (Access α β)}
    (hk : Alternating k) (hnext : ∀ a ∈ l.map Prod.snd, readNext a k = false) :
    Alternating (reads l ++ k) := by
  induction l with
  | nil => exact hk
  | cons p l ih =>
    rw [List.map_cons, List.nodup_cons] at hnd
    rw [List.map_cons, List.forall_mem_cons] at hnext
    exact ⟨(readNext_reads hnd.1 k).trans hnext.1, ih hnd.2 hnext.2⟩

/-- Blocks that are read and then written, followed by a read of distinct cells. -/
theorem alternating_swaps {S : Finset α} {l : List (Access α β)}
    (hl : Swaps S l) {k : List (Access α β)} (hk : Alternating k) : Alternating (l ++ k) := by
  induction hl with
  | nil => exact hk
  | @block olds news l haddr hnd _ _ ih =>
    rw [List.append_assoc, List.append_assoc]
    refine alternating_reads (haddr ▸ hnd) (alternating_writes news ih) fun a ha ↦ ?_
    exact readNext_writes (haddr ▸ ha) _

/-! ## The changes that are seen -/

theorem mem_of_readNext {a : α} {l : List (Access α β)} {S : Finset α}
    (hS : ∀ x ∈ l, address x ∈ S) (h : readNext a l = true) : a ∈ S := by
  induction l with
  | nil => exact absurd h Bool.false_ne_true
  | cons x l ih =>
    rw [List.forall_mem_cons] at hS
    by_cases ha : address x = a
    · exact ha ▸ hS.1
    · refine ih hS.2 ?_
      cases x with
      | rd b v =>
        rw [address_rd] at ha
        rwa [readNext, if_neg ha] at h
      | wr b v =>
        rw [address_wr] at ha
        rwa [readNext, if_neg ha] at h

variable [AddCommGroup G] (c : α → β → G)

/-- The sum of the changes whose cell is read before it is overwritten, each as the difference of the
new value and the value held before. -/
def seen (F : α → β) : List (Happening α β) → G
  | [] => 0
  | access (.rd _ _) :: l => seen F l
  | access (.wr a v) :: l => seen (Function.update F a v) l
  | change a v :: l =>
    (if readNext a (visible l) then c a v - c a (F a) else 0) + seen (Function.update F a v) l

/-- The differences between what is held and what is expected, at the cells that are read next. -/
def pending (S : Finset α) (E F : α → β) (l : List (Access α β)) : G :=
  ∑ a ∈ S, if readNext a l then c a (F a) - c a (E a) else 0

/-- If one term of a sum changes, so does the sum. -/
theorem sum_eq_of_change {S : Finset α} {f g : α → G} {b : α} (hb : b ∈ S)
    (h : ∀ a ∈ S, a ≠ b → f a = g a) : ∑ a ∈ S, f a = f b - g b + ∑ a ∈ S, g a := by
  have hrest : ∑ a ∈ S.erase b, f a = ∑ a ∈ S.erase b, g a :=
    Finset.sum_congr rfl fun a ha ↦ h a (Finset.mem_of_mem_erase ha) (Finset.ne_of_mem_erase ha)
  rw [← Finset.add_sum_erase S f hb, ← Finset.add_sum_erase S g hb, hrest]
  abel

variable {c}

theorem pending_rd {S : Finset α} {E F : α → β} {b : α} {v : β} {l : List (Access α β)} (hb : b ∈ S)
    (hnext : readNext b l = false) :
    pending c S E F (.rd b v :: l) = c b (F b) - c b (E b) + pending c S E F l := by
  rw [pending, sum_eq_of_change (g := fun a ↦ if readNext a l then c a (F a) - c a (E a) else 0) hb
    fun a _ hne ↦ by simp only [readNext, if_neg hne.symm]]
  simp only [readNext, if_true, hnext, Bool.false_eq_true, if_false, sub_zero]
  rfl

theorem pending_wr {S : Finset α} {E F : α → β} {b : α} {v : β} {l : List (Access α β)} :
    pending c S E F (.wr b v :: l)
      = pending c S (Function.update E b v) (Function.update F b v) l := by
  refine Finset.sum_congr rfl fun a _ ↦ ?_
  by_cases hab : b = a
  · subst hab
    simp [readNext]
  · simp only [readNext, if_neg hab, Function.update_of_ne (Ne.symm hab)]

theorem pending_change {S : Finset α} {E F : α → β} {b : α} {v : β} {l : List (Access α β)}
    (hS : ∀ x ∈ l, address x ∈ S) :
    pending c S E (Function.update F b v) l
      = (if readNext b l then c b v - c b (F b) else 0) + pending c S E F l := by
  by_cases hb : b ∈ S
  · rw [pending, sum_eq_of_change (g := fun a ↦ if readNext a l then c a (F a) - c a (E a) else 0) hb
      fun a _ hne ↦ by simp only [Function.update_of_ne hne], Function.update_self]
    split
    · rw [sub_sub_sub_cancel_right]
      rfl
    · rw [sub_zero]
      rfl
  · have hnext : readNext b l = false := Bool.eq_false_of_not_eq_true fun h ↦ hb (mem_of_readNext hS h)
    rw [hnext, if_neg Bool.false_ne_true, zero_add]
    refine Finset.sum_congr rfl fun a ha ↦ ?_
    rw [Function.update_of_ne (ne_of_mem_of_not_mem ha hb)]

/-- The discrepancy of a history is what it was off at first, at the cells that are read next, and the
changes that are seen. -/
theorem discrepancy_eq {S : Finset α} {E F : α → β} {l : List (Happening α β)} (hl : Honest F l)
    (halt : Alternating (visible l)) (hS : ∀ x ∈ visible l, address x ∈ S) :
    discrepancy c E (visible l) = seen c F l + pending c S E F (visible l) := by
  induction l generalizing E F with
  | nil =>
    rw [visible_nil, discrepancy_nil, seen, zero_add]
    exact (Finset.sum_eq_zero fun a _ ↦ if_neg Bool.false_ne_true).symm
  | cons h l ih =>
    rcases h with (⟨a, v⟩ | ⟨a, v⟩) | ⟨a, v⟩
    case access.rd =>
      obtain ⟨rfl, hl⟩ := hl
      rw [visible_access, List.forall_mem_cons, address_rd] at hS
      rw [visible_access] at halt ⊢
      rw [discrepancy, ih hl halt.2 hS.2, seen, pending_rd hS.1 halt.1]
      abel
    case access.wr =>
      rw [visible_access, List.forall_mem_cons] at hS
      rw [visible_access] at halt ⊢
      rw [discrepancy, ih hl halt hS.2, seen, pending_wr]
    case change =>
      rw [visible_change] at halt hS ⊢
      rw [ih hl halt hS, seen, pending_change hS]
      abel

/-- **Silent changes.** A store whose contents are known at first ends with a discrepancy of just the
changes that are seen. -/
theorem discrepancy_eq_seen {F : α → β} {l : List (Happening α β)} (hl : Honest F l)
    (halt : Alternating (visible l)) : discrepancy c F (visible l) = seen c F l := by
  rw [discrepancy_eq (S := ((visible l).map address).toFinset) hl halt fun x hx ↦
    List.mem_toFinset.mpr (List.mem_map_of_mem hx), pending]
  simp only [sub_self, ite_self, Finset.sum_const_zero, add_zero]

end Happening

end ViTools
