import HostNotify.Interleaving.Custody

/-!
# Accounts that may be lost

A thread can lose its account when something happens that the argument does not provide for. It then goes on
without one: it may do anything, and nothing is known of it.
-/

namespace Interleaving

variable {O L A B : Type} {R : O → Type} {D : Ledger O R L}

/-- The rules for accounts that may be lost. -/
def Ledger.forfeitable (D : Ledger O R L) : Ledger O R (Option L) where
  allows l o := ∀ a, l = some a → D.allows a o
  moves l o r l' := l' = none ∨ ∃ a a', l = some a ∧ l' = some a' ∧ D.moves a o r a'

/-- Started with account `a`, the program keeps to the rules and leaves an account in `Q`, or none. -/
def Runs (D : Ledger O R L) (a : L) (p : Prog O R A) (Q : A → L → Prop) : Prop :=
  Follows D.forfeitable (fun r l => ∀ a', l = some a' → Q r a') p (some a)

/-- A thread that has lost its account may do anything. -/
theorem follows_lost {p : Prog O R A} {Q : A → L → Prop} :
    Follows D.forfeitable (fun r l => ∀ a', l = some a' → Q r a') p none := by
  induction p with
  | ret r => exact fun _ h => by cases h
  | op o next ih =>
    refine ⟨fun _ h => (by cases h), fun r l' hm => ?_⟩
    rcases hm with rfl | ⟨_, _, h, _⟩
    · exact ih r
    · cases h

namespace Runs

variable {a : L} {p : Prog O R A} {Q Q' : A → L → Prop}

/-- The rule for a result. -/
theorem ret {r : A} (h : Q r a) : Runs D a (pure r) Q := by
  intro a' ha'
  obtain rfl := Option.some.inj ha'
  exact h

/-- A weaker postcondition holds as well. -/
theorem mono (h : Runs D a p Q) (hQ : ∀ r a', Q r a' → Q' r a') : Runs D a p Q' :=
  Follows.mono h fun r _ hl a' ha' => hQ r a' (hl a' ha')

/-- The rule for a sequence. -/
theorem bind {f : A → Prog O R B} {S : B → L → Prop} (h : Runs D a p Q)
    (hf : ∀ r a', Q r a' → Runs D a' (f r) S) : Runs D a (p >>= f) S := by
  refine Follows.bind h fun r l hl => ?_
  cases l with
  | none => exact follows_lost
  | some a' => exact hf r a' (hl a' rfl)

/-- The rule for a single operation. -/
theorem perform {o : O} {Q : R o → L → Prop} (ho : D.allows a o) (hQ : ∀ r a', D.moves a o r a' → Q r a') :
    Runs D a (Prog.perform o) Q := by
  refine Follows.perform (fun a₁ ha₁ => ?_) fun r l' hm a' ha' => ?_
  · obtain rfl := Option.some.inj ha₁
    exact ho
  · rcases hm with rfl | ⟨a₁, a₂, ha₁, rfl, hm⟩
    · cases ha'
    · obtain rfl := Option.some.inj ha₁
      obtain rfl := Option.some.inj ha'
      exact hQ r _ hm

/-- One operation, and what comes after it. -/
theorem op {o : O} {f : R o → Prog O R B} {S : B → L → Prop} (ho : D.allows a o)
    (hf : ∀ r a', D.moves a o r a' → Runs D a' (f r) S) : Runs D a (Prog.perform o >>= f) S :=
  (perform ho fun _ _ hm => hm).bind hf

end Runs

end Interleaving
