import Mathlib.Data.Nat.Basic

/-!
# Single bits of machine words

Setting, clearing and testing one bit of a fixed-width word, stated bit by bit so
that facts about different bits never interfere.
-/

namespace Bits

variable {w : ℕ}

/-- The bound of a bit that a statement names by its position. -/
theorem fits {i : ℕ} (h : Nat.blt i w = true) : i < w := Nat.blt_eq.mp h

/-! ### Single bits -/

/-- The word whose only set bit is `n`. -/
def bit (n : ℕ) : BitVec w := BitVec.twoPow w n

/-- Set or clear bit `n`, leaving the others. -/
def assignBit (n : ℕ) (v : BitVec w) (set : Bool) : BitVec w :=
  if set then v ||| bit n else v &&& ~~~(bit n)

/-- The bits of a single bit. -/
@[simp] theorem getElem_bit (n i : ℕ) (hi : i < w) : (bit n : BitVec w)[i] = decide (n = i) := by
  simp only [bit, BitVec.getElem_twoPow, eq_comm]

/-- An assigned bit reads back, and every other bit is unchanged. -/
@[simp] theorem getElem_assignBit (n : ℕ) (v : BitVec w) (set : Bool) (i : ℕ) (hi : i < w) :
    (assignBit n v set)[i] = if n = i then set else v[i] := by
  unfold assignBit
  by_cases hn : n = i <;> cases set <;> simp [hn]

/-- Assigning the value a bit has changes nothing. -/
theorem assignBit_same {n : ℕ} {v : BitVec w} {set : Bool} (hn : n < w) (h : v[n] = set) :
    assignBit n v set = v := by
  ext i hi
  rw [getElem_assignBit]
  by_cases hi : n = i
  · subst hi
    rw [if_pos rfl, h]
  · rw [if_neg hi]

/-- Testing a bit by masking. -/
@[simp] theorem and_bit_eq_zero (v : BitVec w) (n : ℕ) (hn : n < w) :
    v &&& bit n = 0#w ↔ v[n] = false := by
  constructor
  · intro h
    have hbit := congrArg (fun x => x[n]) h
    simpa using hbit
  · intro h
    ext i hi
    rw [BitVec.getElem_and, getElem_bit]
    by_cases hni : n = i
    · subst hni
      simp [h]
    · simp [hni]

end Bits
