import Mathlib.Data.List.Basic
import Mathlib.Order.Lattice
import Mathlib.Order.Nat

/-!
# The first place of the minimum

A running minimum that is replaced by strictly smaller values only stays at the first place where the
minimum of all values so far occurs.
-/

namespace ViTools

variable {α : Type*}

/-- A new value is at the end, or among the old ones. -/
private theorem getElem?_append_singleton {l : List α} {w : α} {j : ℕ} {x : α} (h : (l ++ [w])[j]? = some x) :
    (j = l.length ∧ x = w) ∨ l[j]? = some x := by
  rcases lt_or_ge j l.length with hj | hj
  · rw [List.getElem?_append_left hj] at h
    exact .inr h
  · obtain ⟨hlt, -⟩ := List.getElem?_eq_some_iff.mp h
    rw [List.length_append, List.length_singleton] at hlt
    have hjl : j = l.length := by omega
    subst hjl
    rw [List.getElem?_concat_length] at h
    exact .inl ⟨rfl, (Option.some.inj h).symm⟩

variable [LinearOrder α]

/-- The least value of a list is `v`, and `k` is the first index with that value. -/
structure FirstMin (l : List α) (k : ℕ) (v : α) : Prop where
  /-- The value at the index. -/
  get : l[k]? = some v
  /-- No value is smaller. -/
  le : ∀ (j : ℕ) (w : α), l[j]? = some w → v ≤ w
  /-- Earlier values are larger. -/
  lt : ∀ (j : ℕ) (w : α), j < k → l[j]? = some w → v < w

namespace FirstMin

variable {l : List α} {k k' : ℕ} {v v' w : α}

theorem lt_length (h : FirstMin l k v) : k < l.length := by
  obtain ⟨hk, -⟩ := List.getElem?_eq_some_iff.mp h.get
  exact hk

theorem unique (h : FirstMin l k v) (h' : FirstMin l k' v') : k = k' := by
  have heq : v = v' := le_antisymm (h.le k' v' h'.get) (h'.le k v h.get)
  subst heq
  rcases lt_trichotomy k k' with hlt | heq | hlt
  · exact absurd (h'.lt k v hlt h.get) (lt_irrefl v)
  · exact heq
  · exact absurd (h.lt k' v hlt h'.get) (lt_irrefl v)

theorem singleton (v : α) : FirstMin [v] 0 v where
  get := rfl
  le j w h := by
    have hw : w ∈ [v] := List.mem_of_getElem? h
    rw [List.mem_singleton] at hw
    exact hw.ge
  lt j w hj := absurd hj (Nat.not_lt_zero j)

/-- A smaller value moves the minimum to the end. -/
theorem append_of_lt (h : FirstMin l k v) (hw : w < v) : FirstMin (l ++ [w]) l.length w where
  get := List.getElem?_concat_length
  le j x hx := by
    rcases getElem?_append_singleton hx with ⟨-, rfl⟩ | hx
    · exact le_refl _
    · exact hw.le.trans (h.le j x hx)
  lt j x hj hx := by
    rcases getElem?_append_singleton hx with ⟨rfl, -⟩ | hx
    · exact absurd hj (lt_irrefl _)
    · exact hw.trans_le (h.le j x hx)

/-- Any other value leaves it where it is. -/
theorem append_of_le (h : FirstMin l k v) (hw : v ≤ w) : FirstMin (l ++ [w]) k v where
  get := by rw [List.getElem?_append_left h.lt_length, h.get]
  le j x hx := by
    rcases getElem?_append_singleton hx with ⟨-, rfl⟩ | hx
    · exact hw
    · exact h.le j x hx
  lt j x hj hx := by
    rw [List.getElem?_append_left (hj.trans h.lt_length)] at hx
    exact h.lt j x hj hx

end FirstMin

end ViTools
