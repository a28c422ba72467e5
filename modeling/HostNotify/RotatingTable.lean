import Mathlib.Data.Fin.Basic
import Mathlib.Data.Finset.Card
import Mathlib.Data.Nat.ModEq

/-!
# Rotating tables

A table of `n` slots is filled one slot after the other, around and around. It holds what has been
put into it last; so when nothing is put in that is still there, `n` other entries come between two
uses of one entry, and a working set of at most `n` entries is put in once.
-/

namespace RotatingTable

variable {E : Type} {n : ℕ} {table : Fin n → E} {next : Fin n} {past : List E} {void : E → Prop} {e : E}

/-- The last `n` entries of `past`, the latest first, lie before the slot `next`. -/
def Rotated (table : Fin n → E) (next : Fin n) (past : List E) : Prop :=
  ∀ (p : Fin n) (t : ℕ) (e : E), t < n → (p + t + 1) % n = next → past[t]? = some e → table p = e

/-- Between two uses of an entry that is not void, `n` others have been put in. -/
def Spaced (n : ℕ) (void : E → Prop) (past : List E) : Prop :=
  ∀ j k e, j < k → k ≤ j + n → past[j]? = some e → ¬ void e → past[k]? ≠ some e

/-- A table to which nothing has been entered. -/
theorem rotated_nil : Rotated table next [] := by
  intro p t e _ _ h
  simp at h

/-- With no entries there is nothing to be spaced. -/
theorem spaced_nil : Spaced n void ([] : List E) := by
  intro j k e _ _ h
  simp at h

/-- The next slot takes the entry, and the one after it is next. -/
theorem Rotated.put [NeZero n] (h : Rotated table next past) :
    Rotated (Function.update table next e) (next + 1) (e :: past) := by
  intro p t e' ht hp he'
  have hsucc : ((next + 1 : Fin n) : ℕ) = (next + 1) % n := by rw [Fin.val_add, Fin.val_one', Nat.add_mod_mod]
  rw [hsucc] at hp
  have hback : (p + t) % n = next := by
    have hmod : (p + t) ≡ next [MOD n] := Nat.ModEq.add_right_cancel' 1 hp
    rw [hmod, Nat.mod_eq_of_lt next.isLt]
  cases t with
  | zero =>
    have hpn : p = next := Fin.ext (by rw [← hback, Nat.add_zero, Nat.mod_eq_of_lt p.isLt])
    rw [hpn, Function.update_self]
    exact Option.some.inj he'
  | succ t =>
    have hpn : p ≠ next := by
      rintro rfl
      have hzero : (p + (t + 1)) ≡ (p + 0) [MOD n] := by
        rw [Nat.ModEq, hback, Nat.add_zero, Nat.mod_eq_of_lt p.isLt]
      have hdvd := Nat.ModEq.add_left_cancel' _ hzero
      rw [Nat.ModEq, Nat.zero_mod, Nat.mod_eq_of_lt ht] at hdvd
      exact Nat.succ_ne_zero t hdvd
    rw [Function.update_of_ne hpn]
    exact h p t e' (by omega) hback he'

/-- Only what is no longer in the table is put in. -/
theorem Spaced.put (h : Spaced n void past) (hrot : Rotated table next past)
    (hnew : ¬ void e → ∀ p, table p ≠ e) : Spaced n void (e :: past) := by
  intro j k e' hjk hkj hj hvoid hk
  cases j with
  | zero =>
    obtain rfl : e = e' := Option.some.inj hj
    obtain ⟨m, rfl⟩ : ∃ m, k = m + 1 := ⟨k - 1, by omega⟩
    rw [List.getElem?_cons_succ] at hk
    -- the slot that has been filled `m + 1` times ago
    have hpos : 0 < n := by omega
    have hslot : ((next + (n - (m + 1))) % n + m + 1) % n = next := by
      rw [Nat.add_assoc, Nat.mod_add_mod, Nat.add_assoc, Nat.sub_add_cancel (by omega), Nat.add_mod_right,
        Nat.mod_eq_of_lt next.isLt]
    exact hnew hvoid _ (hrot ⟨_, Nat.mod_lt _ hpos⟩ m e (by omega) hslot hk)
  | succ j =>
    obtain ⟨m, rfl⟩ : ∃ m, k = m + 1 := ⟨k - 1, by omega⟩
    rw [List.getElem?_cons_succ] at hj hk
    exact h j m e' (by omega) (by omega) hj hvoid hk

/-- Entries from a set no larger than the table are put in once. -/
theorem Spaced.nodup {W : Finset E} (h : Spaced n void past) (hvoid : ∀ e ∈ past, ¬ void e)
    (hW : ∀ e ∈ past, e ∈ W) (hcard : W.card ≤ n) : past.Nodup := by
  induction past with
  | nil => exact List.nodup_nil
  | cons e past ih =>
    have htail : Spaced n void past := fun j k e' hjk hkj hj hv hk =>
      h (j + 1) (k + 1) e' (by omega) (by omega) hj hv hk
    have hnodup : past.Nodup :=
      ih htail (fun e' he' => hvoid e' (List.mem_cons_of_mem e he')) fun e' he' => hW e' (List.mem_cons_of_mem e he')
    have hlen : past.length ≤ n := by
      have hsub : (⟨past, hnodup⟩ : Finset E) ⊆ W := fun e' he' => hW e' (List.mem_cons_of_mem e he')
      exact (Finset.card_le_card hsub).trans hcard
    refine List.nodup_cons.mpr ⟨fun hmem => ?_, hnodup⟩
    obtain ⟨m, hm⟩ := List.mem_iff_getElem?.mp hmem
    have hlt : m < past.length := (List.getElem?_eq_some_iff.mp hm).1
    exact h 0 (m + 1) e (Nat.succ_pos m) (by omega) rfl (hvoid e List.mem_cons_self) hm

end RotatingTable
