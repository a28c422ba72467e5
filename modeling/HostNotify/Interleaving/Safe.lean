import HostNotify.Interleaving.Prog

/-!
# Safety of a program under interference

`Discipline` collects what a proof about one thread refers to: the meaning of its
operations, the shared invariant, the steps other parties may take between its own
(`rely`), the promise its own steps keep towards them (`guar`), and a condition to
be checked at each operation (`ok`). `Safe` follows the program tree, closing under
interference after every operation. The rules below compose it along the syntax.
-/

namespace Interleaving

open Relation

/-- The parameters of a safety argument about one thread. -/
structure Discipline (σ O : Type) (R : O → Type) where
  exec : (o : O) → σ → Option (R o × σ)
  /-- Own steps taken into account; the others end the argument. -/
  may : O → σ → Prop
  inv : σ → Prop
  rely : σ → σ → Prop
  guar : σ → σ → Prop
  ok : O → σ → Prop

variable {σ O A B : Type} {R : O → Type} {D : Discipline σ O R}

namespace Discipline

/-- Any number of steps of the other parties, each keeping the invariant. -/
def Drift (D : Discipline σ O R) : σ → σ → Prop :=
  ReflTransGen fun s s' => D.rely s s' ∧ D.inv s'

/-- An assertion that no step of the other parties falsifies. -/
def Stable (D : Discipline σ O R) (P : σ → Prop) : Prop :=
  ∀ s s', D.inv s → P s → D.rely s s' → D.inv s' → P s'

/-- Drifting keeps the invariant. -/
theorem Drift.inv {s s' : σ} (h : D.Drift s s') (hs : D.inv s) : D.inv s' := by
  induction h with
  | refl => exact hs
  | tail _ hstep _ => exact hstep.2

/-- A stable assertion survives any number of steps of the others. -/
theorem Stable.drift {P : σ → Prop} (hP : D.Stable P) {s s' : σ} (h : D.Drift s s')
    (hs : D.inv s) (hPs : P s) : P s' := by
  induction h with
  | refl => exact hPs
  | tail hprev hstep ih => exact hP _ _ (Drift.inv hprev hs) ih hstep.1 hstep.2

/-- Two stable assertions are stable together. -/
theorem Stable.and {P P' : σ → Prop} (hP : D.Stable P) (hP' : D.Stable P') :
    D.Stable fun s => P s ∧ P' s :=
  fun s s' hs h hr hs' => ⟨hP s s' hs h.1 hr hs', hP' s s' hs h.2 hr hs'⟩

/-- One of two stable assertions stays true. -/
theorem Stable.or {P P' : σ → Prop} (hP : D.Stable P) (hP' : D.Stable P') :
    D.Stable fun s => P s ∨ P' s :=
  fun s s' hs h hr hs' => h.imp (fun h => hP s s' hs h hr hs') fun h => hP' s s' hs h hr hs'

/-- A stable assertion about something stays true of the same thing. -/
theorem Stable.exists {ι : Type} {P : ι → σ → Prop} (hP : ∀ i, D.Stable (P i)) :
    D.Stable fun s => ∃ i, P i s :=
  fun s s' hs ⟨i, h⟩ hr hs' => ⟨i, hP i s s' hs h hr hs'⟩

/-- What does not speak of the state is stable. -/
theorem Stable.const (p : Prop) : D.Stable fun _ => p := fun _ _ _ h _ _ => h

end Discipline

/-- From `s`, every own operation is `ok` and keeps the promises, and the result satisfies
`Q`, whatever the other parties do after each operation. -/
def Safe (D : Discipline σ O R) (Q : A → σ → Prop) : Prog O R A → σ → Prop
  | .ret a, s => Q a s
  | .op o next, s => D.may o s → D.ok o s ∧ ∀ r s', D.exec o s = some (r, s') →
      D.guar s s' ∧ D.inv s' ∧ ∀ s'', D.Drift s' s'' → Safe D Q (next r) s''

/-- A result is safe if it is as wanted. -/
@[simp] theorem safe_ret (Q : A → σ → Prop) (a : A) (s : σ) :
    Safe D Q (.ret a) s ↔ Q a s := Iff.rfl

/-- A weaker postcondition is safe as well. -/
theorem Safe.mono {Q Q' : A → σ → Prop} {p : Prog O R A} {s : σ} (hs : D.inv s)
    (h : Safe D Q p s) (hQ : ∀ a s, D.inv s → Q a s → Q' a s) : Safe D Q' p s := by
  induction p generalizing s with
  | ret a => exact hQ a s hs h
  | op o next ih =>
    intro hmay
    obtain ⟨hok, hstep⟩ := h hmay
    refine ⟨hok, fun r s' hexec => ?_⟩
    obtain ⟨hguar, hinv, hnext⟩ := hstep r s' hexec
    exact ⟨hguar, hinv, fun s'' hd => ih r (hd.inv hinv) (hnext s'' hd)⟩

/-- Sequencing: the first part establishes what the second part starts from. -/
theorem Safe.bind {Q : A → σ → Prop} {Q' : B → σ → Prop} {p : Prog O R A}
    {f : A → Prog O R B} {s : σ} (hs : D.inv s) (h : Safe D Q p s)
    (hf : ∀ a s, D.inv s → Q a s → Safe D Q' (f a) s) : Safe D Q' (p >>= f) s := by
  induction p generalizing s with
  | ret a => exact hf a s hs h
  | op o next ih =>
    intro hmay
    obtain ⟨hok, hstep⟩ := h hmay
    refine ⟨hok, fun r s' hexec => ?_⟩
    obtain ⟨hguar, hinv, hnext⟩ := hstep r s' hexec
    exact ⟨hguar, hinv, fun s'' hd => ih r (hd.inv hinv) (hnext s'' hd)⟩

/-- `P` before the program gives `Q` of its result after it, under interference. -/
def Triple (D : Discipline σ O R) (P : σ → Prop) (p : Prog O R A) (Q : A → σ → Prop) : Prop :=
  ∀ s, D.inv s → P s → Safe D Q p s

namespace Triple

variable {P P' : σ → Prop} {Q Q' : A → σ → Prop} {p : Prog O R A}

/-- The rule for a result. -/
theorem ret {a : A} (h : ∀ s, D.inv s → P s → Q a s) : Triple D P (.ret a) Q := h

/-- The rule for a sequence. -/
theorem bind {f : A → Prog O R B} {S : B → σ → Prop} (hp : Triple D P p Q)
    (hf : ∀ a, Triple D (Q a) (f a) S) : Triple D P (p >>= f) S :=
  fun s hs hP => (hp s hs hP).bind hs fun a s hs hQ => hf a s hs hQ

/-- A stronger precondition serves as well. -/
theorem pre (h : Triple D P p Q) (hP : ∀ s, D.inv s → P' s → P s) : Triple D P' p Q :=
  fun s hs hP' => h s hs (hP s hs hP')

/-- A weaker postcondition holds as well. -/
theorem post (h : Triple D P p Q) (hQ : ∀ a s, D.inv s → Q a s → Q' a s) : Triple D P p Q' :=
  fun s hs hP => (h s hs hP).mono hs hQ

/-- A pure fact of the precondition may be used as a hypothesis. -/
theorem pure_pre {φ : Prop} (h : φ → Triple D P p Q) : Triple D (fun s => φ ∧ P s) p Q :=
  fun s hs hP => h hP.1 s hs hP.2

/-- A pure fact that the precondition implies may be used as a hypothesis. -/
theorem learn {φ : Prop} (hφ : ∀ s, D.inv s → P s → φ) (h : φ → Triple D P p Q) :
    Triple D P p Q :=
  fun s hs hP => h (hφ s hs hP) s hs hP

/-- What the precondition asserts of something may be given a name. -/
theorem exists_pre {ι : Type} {P : ι → σ → Prop} (h : ∀ i, Triple D (P i) p Q) :
    Triple D (fun s => ∃ i, P i s) p Q :=
  fun s hs ⟨i, hP⟩ => h i s hs hP

/-- One operation: check it, keep the promises, and establish a stable assertion. -/
theorem op {o : O} {next : R o → Prog O R A} {M : R o → σ → Prop}
    (hM : ∀ r, D.Stable (M r))
    (hop : ∀ s, D.inv s → P s → D.may o s → D.ok o s ∧ ∀ r s', D.exec o s = some (r, s') →
      D.guar s s' ∧ D.inv s' ∧ M r s')
    (hnext : ∀ r, Triple D (M r) (next r) Q) : Triple D P (.op o next) Q := by
  intro s hs hP hmay
  obtain ⟨hok, hstep⟩ := hop s hs hP hmay
  refine ⟨hok, fun r s' hexec => ?_⟩
  obtain ⟨hguar, hinv, hM'⟩ := hstep r s' hexec
  exact ⟨hguar, hinv, fun s'' hd => hnext r s'' (hd.inv hinv) ((hM r).drift hd hinv hM')⟩

/-- One operation on its own. -/
theorem perform {o : O} {M : R o → σ → Prop} (hM : ∀ r, D.Stable (M r))
    (hop : ∀ s, D.inv s → P s → D.may o s → D.ok o s ∧ ∀ r s', D.exec o s = some (r, s') →
      D.guar s s' ∧ D.inv s' ∧ M r s') : Triple D P (Prog.perform o) M :=
  op hM hop fun _ => ret fun _ _ h => h

/-- A program all of whose operations keep a stable assertion keeps it as a whole. -/
theorem of_allOps {T : O → Prop} (hP : D.Stable P) (hp : p.AllOps T)
    (hop : ∀ o s, T o → D.inv s → P s → D.may o s → D.ok o s ∧ ∀ r s',
      D.exec o s = some (r, s') → D.guar s s' ∧ D.inv s' ∧ P s') :
    Triple D P p fun _ => P := by
  induction p with
  | ret a => exact ret fun _ _ h => h
  | op o next ih =>
    exact op (fun _ => hP) (fun s hs hPs => hop o s hp.1 hs hPs) fun r => ih r (hp.2 r)

end Triple

end Interleaving
