import Mathlib.Data.Finset.Card
import Mathlib.Data.List.Sublists
import Mathlib.Order.Interval.Finset.Nat

/-!
# Channels that lose messages but keep their order

Numbered messages go from a source through a channel that may drop any of them at any time. What has
arrived, followed by what is in flight, is a sublist of the source. That is the whole invariant, and
it chains: the arrivals of one channel can be the source of the next.

A sublist of an increasing list of numbers determines where each of its members stands, so the losses
before a member can be counted from its position alone.
-/

namespace ViTools

/-- A channel between a source and the arrivals. -/
structure LossyFifo {α : Type*} (source arrived inFlight : List α) : Prop where
  /-- Nothing is reordered, duplicated or made up. -/
  sublist : (arrived ++ inFlight).Sublist source

namespace LossyFifo

variable {α : Type*} {source arrived inFlight : List α} {a : α}

theorem empty : LossyFifo source [] ([] : List α) := ⟨List.nil_sublist _⟩

theorem arrived_sublist (h : LossyFifo source arrived inFlight) : arrived.Sublist source :=
  (List.sublist_append_left _ _).trans h.sublist

/-- A new message goes into the channel. -/
theorem send (h : LossyFifo source arrived inFlight) (a : α) :
    LossyFifo (source ++ [a]) arrived (inFlight ++ [a]) where
  sublist := by
    rw [← List.append_assoc]
    exact h.sublist.append (List.Sublist.refl _)

/-- A message that is lost. -/
theorem lose (h : LossyFifo source arrived inFlight) (i : ℕ) :
    LossyFifo source arrived (inFlight.eraseIdx i) where
  sublist := ((List.Sublist.refl _).append (List.eraseIdx_sublist _ _)).trans h.sublist

/-- The next message comes out of the channel. -/
theorem deliver (h : LossyFifo source arrived (a :: inFlight)) :
    LossyFifo source (arrived ++ [a]) inFlight where
  sublist := by
    rw [List.append_assoc, List.singleton_append]
    exact h.sublist

/-- The arrivals are forgotten. -/
theorem forget (h : LossyFifo source arrived inFlight) : LossyFifo source [] inFlight where
  sublist := (List.sublist_append_right _ _).trans h.sublist

end LossyFifo

/-! ## Counting losses -/

section Count

variable {l a b : List ℕ} {k : ℕ}

/-- In an increasing list, the numbers below a member are those before it. -/
theorem card_lt_member (hl : l.Pairwise (· < ·)) (hsplit : l = a ++ k :: b) :
    ((Finset.range k).filter (· ∈ l)).card = a.length := by
  rw [hsplit, List.pairwise_append, List.pairwise_cons] at hl
  obtain ⟨ha, ⟨hkb, -⟩, hab⟩ := hl
  have heq : (Finset.range k).filter (· ∈ l) = a.toFinset := by
    ext j
    rw [Finset.mem_filter, Finset.mem_range, List.mem_toFinset, hsplit, List.mem_append,
      List.mem_cons]
    constructor
    · rintro ⟨hjk, hj | rfl | hj⟩
      · exact hj
      · exact absurd hjk (lt_irrefl _)
      · exact absurd (hkb j hj) (by omega)
    · intro hj
      exact ⟨hab j hj k List.mem_cons_self, .inl hj⟩
  rw [heq, List.toFinset_card_of_nodup (ha.imp fun h ↦ h.ne)]

/-- The numbers below a member that are not in the list. -/
theorem card_lt_not_member (hl : l.Pairwise (· < ·)) (hsplit : l = a ++ k :: b) :
    (((Finset.range k).filter (· ∉ l)).card : ℤ) = k - a.length := by
  have hsum := Finset.card_filter_add_card_filter_not (s := Finset.range k) (fun j ↦ j ∈ l)
  rw [card_lt_member hl hsplit, Finset.card_range] at hsum
  omega

/-- The numbers below a member of both lists that are in the longer list only. -/
theorem card_lt_lost {l' a' b' : List ℕ} (hl : l.Pairwise (· < ·)) (hl' : l'.Sublist l)
    (hsplit : l = a ++ k :: b) (hsplit' : l' = a' ++ k :: b') :
    (((Finset.range k).filter fun j ↦ j ∈ l ∧ j ∉ l').card : ℤ) = a.length - a'.length := by
  have hsum := Finset.card_filter_add_card_filter_not (s := (Finset.range k).filter (· ∈ l))
    (fun j ↦ j ∈ l')
  have hboth : ((Finset.range k).filter (· ∈ l)).filter (· ∈ l') = (Finset.range k).filter (· ∈ l') := by
    rw [Finset.filter_filter]
    exact Finset.filter_congr fun j _ ↦ ⟨And.right, fun h ↦ ⟨hl'.subset h, h⟩⟩
  rw [hboth, card_lt_member (hl.sublist hl') hsplit', card_lt_member hl hsplit,
    Finset.filter_filter] at hsum
  omega

end Count

end ViTools
