import Mathlib.Order.WellFounded

/-!
# Circular waiting

A set of parties is deadlocked when each of them waits for another one of the set. A rank that
falls from every waiting party to whoever it waits for, as long as that one waits too, rules this
out.
-/

namespace Interleaving

variable {ι α : Type} {waits : ι → ι → Prop}

/-- Each member of a nonempty set waits for a member. -/
structure Deadlocked (waits : ι → ι → Prop) (D : Set ι) : Prop where
  nonempty : D.Nonempty
  stuck : ∀ i ∈ D, ∃ j ∈ D, waits i j

/-- Of the members of a deadlocked set none has the smallest rank. -/
theorem not_deadlocked [Preorder α] [WellFoundedLT α] (rank : ι → α)
    (h : ∀ i j l, waits i j → waits j l → rank j < rank i) (D : Set ι) : ¬ Deadlocked waits D := by
  rintro ⟨hne, hstuck⟩
  obtain ⟨i, hi, hmin⟩ := (InvImage.wf rank wellFounded_lt).has_min D hne
  obtain ⟨j, hj, hij⟩ := hstuck i hi
  obtain ⟨l, _, hjl⟩ := hstuck j hj
  exact hmin j hj (h i j l hij hjl)

end Interleaving
