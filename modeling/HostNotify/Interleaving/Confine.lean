import HostNotify.Interleaving.Custody

/-!
# Runs confined to what is known of them

What one safety argument has established about the steps of a machine may be taken for granted by
the next one: it argues about the machine confined to the steps that have been shown to be the only
ones, and every pool the machine reaches is one that the confined machine reaches. A machine whose
callers promise more is restricted to fewer calls; what is known of the machine is known of it.
-/

namespace Interleaving

variable {σ O C E : Type} {R : O → Type}

/-- Every program performs operations. -/
theorem Prog.allOps_true {A : Type} (p : Prog O R A) : p.AllOps fun _ => True := by
  induction p with
  | ret a => exact trivial
  | op o next ih => exact ⟨trivial, ih⟩

/-- What is known of the steps of a machine. -/
structure Known (σ : Type) where
  /-- Steps of the thread with the given index, its entry among them. -/
  own : ℕ → σ → σ → Prop
  /-- Steps of the environment. -/
  event : σ → σ → Prop

open Classical in
/-- The machine with no other steps than those. -/
noncomputable def Machine.confine (M : Machine σ O R C E) (K : Known σ) : Machine σ O R C E where
  exec t o s := (M.exec t o s).filter fun r => decide (K.own t s r.2)
  body := M.body
  enter c t s := (M.enter c t s).filter fun s' => decide (K.own t s s')
  react e s := (M.react e s).filter fun s' => decide (K.event s s')
  admits := M.admits

namespace Machine

variable {M : Machine σ O R C E} {K : Known σ} {s s' : σ} {t : ℕ} {c : C} {e : E} {o : O} {r : R o}

/-- An operation of the confined machine is one of the machine that is known. -/
theorem confine_exec :
    (M.confine K).exec t o s = some (r, s') ↔ M.exec t o s = some (r, s') ∧ K.own t s s' := by
  simp [confine, Option.filter_eq_some_iff]

/-- A call of the confined machine is one of the machine that is known. -/
theorem confine_enter :
    (M.confine K).enter c t s = some s' ↔ M.enter c t s = some s' ∧ K.own t s s' := by
  simp [confine, Option.filter_eq_some_iff]

/-- An event of the confined machine is one of the machine that is known. -/
theorem confine_react :
    (M.confine K).react e s = some s' ↔ M.react e s = some s' ∧ K.event s s' := by
  simp [confine, Option.filter_eq_some_iff]

end Machine

/-- What is known is true of all runs from the given states. -/
structure Known.Valid (K : Known σ) (M : Machine σ O R C E) (init : σ → Prop) : Prop where
  exec : ∀ (p : Pool σ O R C) i c o q r s', p.Reachable M init → p.threads[i]? = some (c, .op o q) →
    M.admits c o p.shared = true → M.exec i o p.shared = some (r, s') → K.own i p.shared s'
  enter : ∀ (p : Pool σ O R C) c s', p.Reachable M init →
    M.enter c p.threads.length p.shared = some s' → K.own p.threads.length p.shared s'
  react : ∀ (p : Pool σ O R C) e s', p.Reachable M init → M.react e p.shared = some s' →
    K.event p.shared s'

variable {M : Machine σ O R C E} {K : Known σ} {init : σ → Prop} {p p' : Pool σ O R C}

/-- A scheduling decision of the machine is one of the confined machine. -/
theorem Known.Valid.act (hK : K.Valid M init) (h : p.Reachable M init) {a : Action C E}
    (hact : p.act M a = some p') : p.act (M.confine K) a = some p' := by
  cases a with
  | event e =>
    simp only [Pool.act, Option.map_eq_some_iff] at hact ⊢
    obtain ⟨s', hreact, rfl⟩ := hact
    exact ⟨s', Machine.confine_react.mpr ⟨hreact, hK.react p e s' h hreact⟩, rfl⟩
  | call c =>
    simp only [Pool.act, Option.map_eq_some_iff] at hact ⊢
    obtain ⟨s', henter, rfl⟩ := hact
    exact ⟨s', Machine.confine_enter.mpr ⟨henter, hK.enter p c s' h henter⟩, rfl⟩
  | step i =>
    simp only [Pool.act] at hact ⊢
    split at hact
    · next c o next hi =>
      split at hact
      · next hadm =>
        simp only [Option.map_eq_some_iff] at hact
        obtain ⟨⟨r, s'⟩, hexec, rfl⟩ := hact
        have hown := hK.exec p i c o next r s' h hi hadm hexec
        have hadm' : (M.confine K).admits c o p.shared = true := hadm
        dsimp only
        rw [if_pos hadm', Machine.confine_exec.mpr ⟨hexec, hown⟩]
        rfl
      · cases hact
    · cases hact

/-- Nothing that the machine reaches is lost. -/
theorem Known.Valid.reachable (hK : K.Valid M init) (h : p.Reachable M init) :
    p.Reachable (M.confine K) init :=
  Pool.Reachable.induct (fun s hs => ⟨s, [], hs, rfl⟩)
    (fun _ _ _ hq _ hconfined hact => hconfined.act (hK.act hq hact)) h

/-- The confined machine makes no steps of its own. -/
theorem Pool.act_confine {a : Action C E} (hact : p.act (M.confine K) a = some p') :
    p.act M a = some p' := by
  cases a with
  | event e =>
    simp only [Pool.act, Option.map_eq_some_iff] at hact ⊢
    obtain ⟨s', hreact, rfl⟩ := hact
    exact ⟨s', (Machine.confine_react.mp hreact).1, rfl⟩
  | call c =>
    simp only [Pool.act, Option.map_eq_some_iff] at hact ⊢
    obtain ⟨s', henter, rfl⟩ := hact
    exact ⟨s', (Machine.confine_enter.mp henter).1, rfl⟩
  | step i =>
    simp only [Pool.act] at hact ⊢
    split at hact
    · next c o next hi =>
      split at hact
      · next hadm =>
        simp only [Option.map_eq_some_iff] at hact
        obtain ⟨⟨r, s'⟩, hexec, rfl⟩ := hact
        have hadm' : M.admits c o p.shared = true := hadm
        dsimp only
        rw [if_pos hadm', (Machine.confine_exec.mp hexec).1]
        rfl
      · cases hact
    · cases hact

/-- What the confined machine reaches the machine reaches. -/
theorem Pool.Reachable.unconfine (h : p.Reachable (M.confine K) init) : p.Reachable M init :=
  Pool.Reachable.induct (fun s hs => ⟨s, [], hs, rfl⟩)
    (fun _ _ _ _ _ hq hact => hq.act (Pool.act_confine hact)) h

/-! ## Fewer calls -/

/-- The machine whose callers make a call only where they have promised to. -/
def Machine.restrict (M : Machine σ O R C E) (may : C → σ → Bool) : Machine σ O R C E where
  exec := M.exec
  body := M.body
  enter c t s := if may c s then M.enter c t s else none
  react := M.react
  admits := M.admits

section Restrict

variable {may : C → σ → Bool}

/-- The restricted machine lets in the calls that may come. -/
theorem Machine.restrict_enter {c : C} {t : ℕ} {s s' : σ} :
    (M.restrict may).enter c t s = some s' ↔ may c s = true ∧ M.enter c t s = some s' :=
  Option.ite_none_right_eq_some

/-- A decision of the restricted machine is one of the machine. -/
theorem Pool.act_restrict {a : Action C E} (hact : p.act (M.restrict may) a = some p') :
    p.act M a = some p' := by
  cases a with
  | event e => exact hact
  | call c =>
    simp only [Pool.act, Option.map_eq_some_iff] at hact ⊢
    obtain ⟨s', henter, rfl⟩ := hact
    exact ⟨s', (Machine.restrict_enter.mp henter).2, rfl⟩
  | step i => exact hact

/-- What the restricted machine reaches the machine reaches. -/
theorem Pool.Reachable.unrestrict (h : p.Reachable (M.restrict may) init) : p.Reachable M init :=
  Pool.Reachable.induct (fun s hs => ⟨s, [], hs, rfl⟩)
    (fun _ _ _ _ _ hq hact => hq.act (Pool.act_restrict hact)) h

/-- What is known of all runs is known of those with fewer calls. -/
theorem Known.Valid.restrict (hK : K.Valid M init) : K.Valid (M.restrict may) init where
  exec p i c o q r s' h hi hadm hexec := hK.exec p i c o q r s' h.unrestrict hi hadm hexec
  enter p c s' h henter := hK.enter p c s' h.unrestrict (Machine.restrict_enter.mp henter).2
  react p e s' h hreact := hK.react p e s' h.unrestrict hreact

end Restrict

/-- What the safety argument of a call promises for its next operation. -/
theorem Proof.Covers.step {X : Proof M} (h : X.Covers p) {i : ℕ} {c : C} {o : O} {q : R o → Prog O R Unit}
    {r : R o} {s' : σ} (hi : p.threads[i]? = some (c, .op o q)) (hadm : M.admits c o p.shared = true)
    (hexec : M.exec i o p.shared = some (r, s')) :
    (∀ u, u ≠ i → X.rely u p.shared s') ∧ X.inv s' := by
  obtain ⟨_, hstep⟩ := h.secured i c _ hi p.shared Relation.ReflTransGen.refl hadm
  obtain ⟨hguar, hinv, _⟩ := hstep r s' hexec
  exact ⟨hguar, hinv⟩

end Interleaving
