import HostNotify.Interleaving.Alone

/-!
# What interference can change

Part of a state is hidden: states with the same view may differ in it, and an environment acts on
it between the operations of a program. Where the result and the last view depend on the first
view alone, the environment cannot be noticed.
-/

namespace Interleaving

namespace Prog

variable {O : Type} {R : O → Type} {A B σ V γ : Type} {exec : (o : O) → σ → Option (R o × σ)}
  {good : σ → Prop} {view : σ → V} {I J : V → Prop} {v w : V}

/-- From every good state with view `v` the program ends in a good state, with a result and a view
that meet `Q`. -/
def Leads (exec : (o : O) → σ → Option (R o × σ)) (good : σ → Prop) (view : σ → V)
    (p : Prog O R A) (v : V) (Q : A → V → Prop) : Prop :=
  ∀ s, good s → view s = v → p.Ends exec (fun a s' => good s' ∧ Q a (view s')) s

/-- A return changes nothing. -/
theorem Leads.ret {a : A} {Q : A → V → Prop} (h : Q a v) :
    (Prog.ret a : Prog O R A).Leads exec good view v Q :=
  fun _ hgood hview => ⟨hgood, hview ▸ h⟩

/-- The postcondition may be weakened. -/
theorem Leads.mono {p : Prog O R A} {Q Q' : A → V → Prop} (h : p.Leads exec good view v Q)
    (hQ : ∀ a w, Q a w → Q' a w) : p.Leads exec good view v Q' :=
  fun s hgood hview => (h s hgood hview).mono fun a _ hend => ⟨hend.1, hQ a _ hend.2⟩

/-- The rule for a sequence. -/
theorem Leads.bind {p : Prog O R A} {f : A → Prog O R B} {Q : A → V → Prop} {Q' : B → V → Prop}
    (hp : p.Leads exec good view v Q) (hf : ∀ a w, Q a w → (f a).Leads exec good view w Q') :
    (p >>= f).Leads exec good view v Q' :=
  fun s hgood hview => (hp s hgood hview).bind fun a s' hend => hf a _ hend.2 s' hend.1 rfl

/-- The result and the last view, which is within `I`, depend on the first view alone. -/
def Determined (exec : (o : O) → σ → Option (R o × σ)) (good : σ → Prop) (view : σ → V)
    (I : V → Prop) (p : Prog O R A) (v : V) : Prop :=
  ∃ a w, I w ∧ p.Leads exec good view v fun b u => b = a ∧ u = w

/-- A return is determined. -/
theorem Determined.ret {a : A} (h : I v) :
    (Prog.ret a : Prog O R A).Determined exec good view I v :=
  ⟨a, v, h, .ret ⟨rfl, rfl⟩⟩

/-- A sequence of two determined parts. -/
theorem Determined.bind {p : Prog O R A} {f : A → Prog O R B}
    (hp : p.Determined exec good view I v)
    (hf : ∀ a w, I w → (f a).Determined exec good view J w) :
    (p >>= f).Determined exec good view J v := by
  obtain ⟨a, w, hw, hp⟩ := hp
  obtain ⟨c, u, hu, hf⟩ := hf a w hw
  refine ⟨c, u, hu, hp.bind ?_⟩
  rintro _ _ ⟨rfl, rfl⟩
  exact hf

/-- Two runs of a determined program from states that look alike end with the same result. -/
theorem Determined.agree {p : Prog O R A} {s s' : σ} (h : p.Determined exec good view I (view s))
    (hs : good s) (hs' : good s') (hview : view s' = view s) :
    ∃ a, (∃ u, p.runAlone exec s = some (a, u)) ∧ ∃ u, p.runAlone exec s' = some (a, u) := by
  obtain ⟨a, w, -, hp⟩ := h
  obtain ⟨_, u, hrun, -, rfl, -⟩ := (hp s hs rfl).runAlone
  obtain ⟨_, u', hrun', -, rfl, -⟩ := (hp s' hs' hview).runAlone
  exact ⟨_, ⟨u, hrun⟩, u', hrun'⟩

/-- Every operation the program can issue meets `P` as long as the answers it gets meet `T`. -/
def AllOpsUnder (P : O → Prop) (T : (o : O) → R o → Prop) : Prog O R A → Prop
  | ret _ => True
  | op o next => P o ∧ ∀ r, T o r → (next r).AllOpsUnder P T

/-- One operation and what follows it. -/
theorem AllOpsUnder.op {P : O → Prop} {T : (o : O) → R o → Prop} {o : O} {f : R o → Prog O R B}
    (hP : P o) (hf : ∀ r, T o r → (f r).AllOpsUnder P T) : (perform o >>= f).AllOpsUnder P T :=
  ⟨hP, hf⟩

/-- The operations of a sequence under assumptions on the answers. -/
theorem AllOpsUnder.bind {P : O → Prop} {T : (o : O) → R o → Prop} {p : Prog O R A}
    {f : A → Prog O R B} (hp : p.AllOpsUnder P T) (hf : ∀ a, (f a).AllOpsUnder P T) :
    (p >>= f).AllOpsUnder P T := by
  induction p with
  | ret a => exact hf a
  | op o next ih => exact ⟨hp.1, fun r hr => ih r (hp.2 r hr)⟩

/-- One operation, after the environment has acted as the next entry of its script says. -/
def interrupted (exec : (o : O) → σ → Option (R o × σ)) (env : γ → σ → σ) (o : O)
    (x : σ × (ℕ → γ)) : Option (R o × σ × (ℕ → γ)) :=
  (exec o (env (x.2 0) x.1)).map fun rs => (rs.1, rs.2, fun n => x.2 (n + 1))

end Prog

end Interleaving
