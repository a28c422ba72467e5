import HostNotify.Interleaving.Alone

/-!
# Programs that act alike

Two programs that issue the same operations whatever they are answered. Their results are
related, given everything that has been asked and answered before.
-/

namespace Interleaving

namespace Prog

variable {O : Type} {R : O → Type} {A A' B B' : Type}

/-- After `past`, the programs go on with the same operations and end with results that `L` relates. -/
inductive Alike (L : List ((o : O) × R o) → A → B → Prop) :
    List ((o : O) × R o) → Prog O R A → Prog O R B → Prop
  | ret {past : List ((o : O) × R o)} {a : A} {b : B} : L past a b → Alike L past (ret a) (ret b)
  | op {past : List ((o : O) × R o)} {o : O} {next : R o → Prog O R A} {next' : R o → Prog O R B} :
      (∀ r, Alike L (past ++ [⟨o, r⟩]) (next r) (next' r)) → Alike L past (op o next) (op o next')

variable {L L' : List ((o : O) × R o) → A → B → Prop} {M : List ((o : O) × R o) → A' → B' → Prop}
  {past : List ((o : O) × R o)} {p : Prog O R A} {q : Prog O R B}

/-- A weaker relation serves as well. -/
theorem Alike.mono (h : Alike L past p q) (hL : ∀ past a b, L past a b → L' past a b) :
    Alike L' past p q := by
  induction h with
  | ret h => exact .ret (hL _ _ _ h)
  | op _ ih => exact .op ih

/-- Sequences of programs that act alike act alike. -/
theorem Alike.bind {f : A → Prog O R A'} {g : B → Prog O R B'} (h : Alike L past p q)
    (hfg : ∀ past a b, L past a b → Alike M past (f a) (g b)) : Alike M past (p >>= f) (q >>= g) := by
  induction h with
  | ret h => exact hfg _ _ _ h
  | op _ ih => exact .op ih

/-- A program acts like itself. -/
theorem Alike.self (p : Prog O R A) (past : List ((o : O) × R o)) :
    Alike (fun past' a b => b = a ∧ ∃ own, past' = past ++ own) past p p := by
  induction p generalizing past with
  | ret a => exact .ret ⟨rfl, [], (List.append_nil past).symm⟩
  | op o next ih =>
    refine .op fun r => (ih r _).mono ?_
    rintro past' a b ⟨rfl, own, rfl⟩
    exact ⟨rfl, ⟨o, r⟩ :: own, by rw [List.append_assoc]; rfl⟩

/-- What two programs have in common at their beginning. -/
theorem Alike.same {C : Type} {p : Prog O R C} {f : C → Prog O R A'} {g : C → Prog O R B'}
    (hfg : ∀ c own, Alike M (past ++ own) (f c) (g c)) : Alike M past (p >>= f) (p >>= g) := by
  refine (Alike.self p past).bind ?_
  rintro _ c _ ⟨rfl, own, rfl⟩
  exact hfg _ own

end Prog

end Interleaving
