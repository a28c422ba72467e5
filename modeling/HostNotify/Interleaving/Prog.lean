import Mathlib.Data.Nat.Basic
import Mathlib.Logic.Relation

/-!
# Programs as trees of operations

A program is a finite-depth tree: each node names one operation and branches on
its answer. The tree fixes no meaning for the operations. One meaning is a
partial state transformer, run without interruption by `Prog.runAlone`; the
interleaved meanings build on the same trees.
-/

namespace Interleaving

/-- A program over operations `O`, where the operation `o` is answered by an `R o`. -/
inductive Prog (O : Type) (R : O → Type) (A : Type) : Type where
  | ret (a : A) : Prog O R A
  | op (o : O) (next : R o → Prog O R A) : Prog O R A

namespace Prog

variable {O : Type} {R : O → Type} {A B C σ : Type}

/-- Run the second program on the result of the first. -/
protected def bind : Prog O R A → (A → Prog O R B) → Prog O R B
  | ret a, f => f a
  | op o next, f => op o fun r => (next r).bind f

/-- A single operation, returning its answer. -/
def perform (o : O) : Prog O R (R o) := op o ret

instance : Monad (Prog O R) where
  pure := ret
  bind := Prog.bind

/-- `pure` is a return. -/
@[simp] theorem pure_eq (a : A) : (pure a : Prog O R A) = ret a := rfl

/-- A return hands its result on. -/
@[simp] theorem ret_bind (a : A) (f : A → Prog O R B) : (ret a >>= f) = f a := rfl

/-- What follows an operation follows each of its answers. -/
@[simp] theorem op_bind (o : O) (next : R o → Prog O R A) (f : A → Prog O R B) :
    (op o next >>= f) = op o fun r => next r >>= f := rfl

/-- A single operation hands its answer on. -/
@[simp] theorem perform_bind (o : O) (f : R o → Prog O R B) : (perform o >>= f) = op o f := rfl

/-- Sequencing is associative, so a function body can be regrouped around a call. -/
theorem bind_bind (p : Prog O R A) (f : A → Prog O R B) (g : B → Prog O R C) :
    ((p >>= f) >>= g) = (p >>= fun a => f a >>= g) := by
  induction p with
  | ret a => rfl
  | op o next ih =>
    simp only [op_bind]
    congr 1
    funext r
    exact ih r

/-- Execute a whole program with nothing in between; `none` when an operation is blocked. -/
def runAlone (exec : (o : O) → σ → Option (R o × σ)) : Prog O R A → σ → Option (A × σ)
  | ret a, s => some (a, s)
  | op o next, s => match exec o s with
    | none => none
    | some (r, s') => (next r).runAlone exec s'

/-- Every operation the program can issue, whatever the answers, satisfies `P`. -/
def AllOps (P : O → Prop) : Prog O R A → Prop
  | ret _ => True
  | op o next => P o ∧ ∀ r, (next r).AllOps P

/-- A return has no operations. -/
@[simp] theorem allOps_ret (P : O → Prop) (a : A) : (ret a : Prog O R A).AllOps P := trivial

/-- The operations of a program are the first one and those after each answer. -/
@[simp] theorem allOps_op (P : O → Prop) (o : O) (next : R o → Prog O R A) :
    (op o next).AllOps P ↔ P o ∧ ∀ r, (next r).AllOps P := Iff.rfl

/-- The operations of a sequence are those of its two parts. -/
theorem AllOps.bind {P : O → Prop} {p : Prog O R A} {f : A → Prog O R B}
    (hp : p.AllOps P) (hf : ∀ a, (f a).AllOps P) : (p >>= f).AllOps P := by
  induction p with
  | ret a => exact hf a
  | op o next ih => exact ⟨hp.1, fun r => ih r (hp.2 r)⟩

/-- A weaker predicate holds of every operation as well. -/
theorem AllOps.mono {P P' : O → Prop} (h : ∀ o, P o → P' o) {p : Prog O R A}
    (hp : p.AllOps P) : p.AllOps P' := by
  induction p with
  | ret a => trivial
  | op o next ih => exact ⟨h o hp.1, fun r => ih r (hp.2 r)⟩

/-- A program none of whose operations can be blocked runs to its end. -/
theorem AllOps.runs {T : O → Prop} {exec : (o : O) → σ → Option (R o × σ)}
    (hop : ∀ o s, T o → ∃ r s', exec o s = some (r, s')) {p : Prog O R A} (hp : p.AllOps T) (s : σ) :
    ∃ a s', p.runAlone exec s = some (a, s') := by
  induction p generalizing s with
  | ret a => exact ⟨a, s, rfl⟩
  | op o next ih =>
    obtain ⟨r, s', hexec⟩ := hop o s hp.1
    obtain ⟨a, s'', hrun⟩ := ih r (hp.2 r) s'
    refine ⟨a, s'', ?_⟩
    rw [runAlone, hexec]
    exact hrun

end Prog

end Interleaving
