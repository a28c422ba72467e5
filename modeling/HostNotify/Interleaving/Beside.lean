import HostNotify.Interleaving.Custody

/-!
# Threads of another kind

Beside the threads of a ledger there may be others that keep accounts of their own. The operations
of the first are the left ones of a sum; the others may use all of them, among which those on the
right are theirs alone.
-/

namespace Interleaving

variable {O O' A L L' : Type} {R : O → Type} {R' : O' → Type}

/-- A program, among operations that may be others'. -/
def Prog.left : Prog O R A → Prog (O ⊕ O') (Sum.elim R R') A
  | .ret a => .ret a
  | .op o next => .op (.inl o) fun r => (next r).left

/-- The rules of both kinds of accounts. -/
def Ledger.beside (D : Ledger O R L) (D' : Ledger (O ⊕ O') (Sum.elim R R') L') :
    Ledger (O ⊕ O') (Sum.elim R R') (L ⊕ L') where
  allows
    | .inl l, .inl o => D.allows l o
    | .inl _, .inr _ => False
    | .inr l, o => D'.allows l o
  moves
    | .inl l, .inl o, r, .inl m => D.moves l o r m
    | .inr l, o, r, .inr m => D'.moves l o r m
    | _, _, _, _ => False

namespace Follows

variable {D : Ledger O R L} {D' : Ledger (O ⊕ O') (Sum.elim R R') L'} {S : L ⊕ L' → Prop}

/-- A program that respects its ledger does so beside others. -/
theorem left {p : Prog O R A} {l : L} (h : Follows D (fun _ m => S (.inl m)) p l) :
    Follows (D.beside D') (fun _ => S) p.left (.inl l) := by
  induction p generalizing l with
  | ret a => exact h
  | op o next ih =>
    refine ⟨h.1, fun r m hmove => ?_⟩
    cases m with
    | inl m => exact ih r (h.2 r m hmove)
    | inr m => exact absurd hmove id

/-- A program of the others that respects its ledger does so beside the first. -/
theorem right {p : Prog (O ⊕ O') (Sum.elim R R') A} {l : L'}
    (h : Follows D' (fun _ m => S (.inr m)) p l) : Follows (D.beside D') (fun _ => S) p (.inr l) := by
  induction p generalizing l with
  | ret a => exact h
  | op o next ih =>
    refine ⟨h.1, fun r m hmove => ?_⟩
    cases m with
    | inl m => cases o <;> exact absurd hmove id
    | inr m => exact ih r (h.2 r m hmove)

end Follows

end Interleaving
