import HostNotify.Interleaving.Pool

/-!
# What threads hold

A ledger is a private account that a thread keeps of what it holds and knows. It permits
some operations and is updated by their answers, so that a program can be checked against it
without looking at the shared state. `Custody` ties the accounts of all threads to the
shared state; its soundness theorem gives every thread of a reachable pool an account that
is true.
-/

namespace Interleaving

/-- The rules of an account: which operations it permits, and what they make of it. -/
structure Ledger (O : Type) (R : O → Type) (L : Type) where
  allows : L → O → Prop
  moves : L → (o : O) → R o → L → Prop

variable {σ O C E L A B : Type} {R : O → Type} {D : Ledger O R L}

/-- Every operation of the program is permitted by the account it meets, and the result
satisfies `Q`. -/
def Follows (D : Ledger O R L) (Q : A → L → Prop) : Prog O R A → L → Prop
  | .ret a, l => Q a l
  | .op o next, l => D.allows l o ∧ ∀ r l', D.moves l o r l' → Follows D Q (next r) l'

namespace Follows

variable {Q Q' : A → L → Prop} {p : Prog O R A} {l : L}

/-- A weaker postcondition holds as well. -/
theorem mono (h : Follows D Q p l) (hQ : ∀ a l, Q a l → Q' a l) : Follows D Q' p l := by
  induction p generalizing l with
  | ret a => exact hQ a l h
  | op o next ih => exact ⟨h.1, fun r l' hl => ih r (h.2 r l' hl)⟩

/-- A sequence respects the ledger if its parts do. -/
theorem bind {S : B → L → Prop} {f : A → Prog O R B} (h : Follows D Q p l)
    (hf : ∀ a l, Q a l → Follows D S (f a) l) : Follows D S (p >>= f) l := by
  induction p generalizing l with
  | ret a => exact hf a l h
  | op o next ih => exact ⟨h.1, fun r l' hl => ih r (h.2 r l' hl)⟩

/-- The rule for a single operation. -/
theorem perform {o : O} {Q : R o → L → Prop} (ho : D.allows l o)
    (hQ : ∀ r l', D.moves l o r l' → Q r l') : Follows D Q (Prog.perform o) l :=
  ⟨ho, hQ⟩

/-- A program whose operations all keep a condition on the account keeps it as a whole. -/
theorem of_allOps {T : O → Prop} {P : L → Prop} (hp : p.AllOps T)
    (hop : ∀ o l, T o → P l → D.allows l o ∧ ∀ r l', D.moves l o r l' → P l') (hl : P l) :
    Follows D (fun _ => P) p l := by
  induction p generalizing l with
  | ret a => exact hl
  | op o next ih =>
    obtain ⟨hallow, hmove⟩ := hop o l hp.1 hl
    exact ⟨hallow, fun r l' h => ih r (hp.2 r) (hmove r l' h)⟩

end Follows

/-- From every account in `P` the program respects the ledger and ends in `Q`. -/
def Obeys (D : Ledger O R L) (P : L → Prop) (p : Prog O R A) (Q : A → L → Prop) : Prop :=
  ∀ l, P l → Follows D Q p l

namespace Obeys

variable {P P' : L → Prop} {Q Q' : A → L → Prop} {p : Prog O R A}

/-- The rule for a result. -/
theorem ret {a : A} (h : ∀ l, P l → Q a l) : Obeys D P (pure a) Q := h

/-- The rule for a sequence. -/
theorem bind {S : B → L → Prop} {f : A → Prog O R B} (hp : Obeys D P p Q)
    (hf : ∀ a, Obeys D (Q a) (f a) S) : Obeys D P (p >>= f) S :=
  fun l hl => (hp l hl).bind fun a l' hQ => hf a l' hQ

/-- A stronger precondition serves as well. -/
theorem pre (h : Obeys D P p Q) (hP : ∀ l, P' l → P l) : Obeys D P' p Q := fun l hl => h l (hP l hl)

/-- A weaker postcondition holds as well. -/
theorem post (h : Obeys D P p Q) (hQ : ∀ a l, Q a l → Q' a l) : Obeys D P p Q' :=
  fun l hl => (h l hl).mono hQ

/-- What does not speak of the account is known for the rest of the program. -/
theorem pure_pre {φ : Prop} (h : φ → Obeys D P p Q) : Obeys D (fun l => φ ∧ P l) p Q :=
  fun l hl => h hl.1 l hl.2

/-- The rule for a single operation. -/
theorem perform {o : O} {Q : R o → L → Prop}
    (h : ∀ l, P l → D.allows l o ∧ ∀ r l', D.moves l o r l' → Q r l') :
    Obeys D P (Prog.perform o) Q :=
  fun l hl => .perform (h l hl).1 (h l hl).2

/-- A program keeps a condition on the account that each of its operations keeps. -/
theorem of_allOps {T : O → Prop} (hp : p.AllOps T)
    (hop : ∀ o l, T o → P l → D.allows l o ∧ ∀ r l', D.moves l o r l' → P l') :
    Obeys D P p fun _ => P :=
  fun _ hl => .of_allOps hp hop hl

end Obeys

namespace Pool

variable {M : Machine σ O R C E} {init : σ → Prop} {p p' : Pool σ O R C}

/-- One schedule after another is carried out as one. -/
theorem run_append (xs ys : List (Action C E)) :
    run M (xs ++ ys) p = (run M xs p).bind (run M ys) := by
  induction xs generalizing p with
  | nil => rfl
  | cons a rest ih =>
    simp only [List.cons_append, run, Option.bind_assoc]
    congr 1
    funext q
    exact ih

/-- One more scheduling decision stays within the reachable pools. -/
theorem Reachable.act {a : Action C E} (h : p.Reachable M init) (ha : p.act M a = some p') :
    p'.Reachable M init := by
  obtain ⟨s₀, schedule, hs₀, hrun⟩ := h
  refine ⟨s₀, schedule ++ [a], hs₀, ?_⟩
  rw [run_append, hrun]
  simp [run, ha]

/-- Induction over the runs of a machine: what the start has and every step from a reachable
pool keeps, all reachable pools have. -/
theorem Reachable.induct {P : Pool σ O R C → Prop} (hinit : ∀ s, init s → P ⟨s, []⟩)
    (hstep : ∀ p p' a, p.Reachable M init → p'.Reachable M init → P p → p.act M a = some p' → P p')
    (h : p.Reachable M init) : P p := by
  obtain ⟨s₀, schedule, hs₀, hrun⟩ := h
  have hgoal : ∀ (schedule : List (Action C E)) (q : Pool σ O R C), q.Reachable M init → P q →
      run M schedule q = some p → P p := by
    intro schedule
    induction schedule with
    | nil =>
      intro q _ hq hr
      simp only [run, Option.some.injEq] at hr
      exact hr ▸ hq
    | cons a rest ih =>
      intro q hreach hq hr
      simp only [run, Option.bind_eq_some_iff] at hr
      obtain ⟨q', hact, hrest⟩ := hr
      exact ih q' (hreach.act hact) (hstep q q' a hreach (hreach.act hact) hq hact) hrest
  exact hgoal schedule _ ⟨s₀, [], hs₀, rfl⟩ (hinit s₀ hs₀) hrun

end Pool

/-- How the accounts of the threads are tied to the shared state. -/
structure Custody (M : Machine σ O R C E) (D : Ledger O R L) where
  /-- Facts about reachable states that are established elsewhere. -/
  known : σ → Prop
  inv : σ → Prop
  /-- The account of a thread is true. -/
  tie : ℕ → L → σ → Prop
  /-- The account of a thread that has not been started. -/
  idle : L
  /-- The accounts a call may start with. -/
  starts : C → L → Prop
  /-- The accounts a call may have in the course of its run. -/
  during : C → L → Prop
  /-- The accounts a call may return with. -/
  rest : L → Prop
  starts_during : ∀ c l, starts c l → during c l
  moves_during : ∀ c l o r l', during c l → D.moves l o r l' → during c l'
  event_keeps : ∀ e s s', known s → inv s → M.react e s = some s' →
    inv s' ∧ ∀ u m, tie u m s → tie u m s'
  enter_keeps : ∀ c t s s', known s → inv s → tie t idle s → M.enter c t s = some s' →
    inv s' ∧ (∃ l, starts c l ∧ tie t l s') ∧ ∀ u m, u ≠ t → tie u m s → tie u m s'
  step_keeps : ∀ c t l o s r s', known s → inv s → tie t l s → during c l → D.allows l o →
    M.admits c o s = true → M.exec t o s = some (r, s') →
    inv s' ∧ (∃ l', D.moves l o r l' ∧ tie t l' s') ∧ ∀ u m, u ≠ t → tie u m s → tie u m s'

namespace Custody

variable {M : Machine σ O R C E}

/-- Every thread has an account that is true and that the rest of its program respects. -/
structure Covers (X : Custody M D) (p : Pool σ O R C) : Prop where
  inv : X.inv p.shared
  thread : ∀ i c q, p.threads[i]? = some (c, q) →
    ∃ l, X.during c l ∧ X.tie i l p.shared ∧ Follows D (fun _ => X.rest) q l
  absent : ∀ i, p.threads.length ≤ i → X.tie i X.idle p.shared

/-- The step lemma: one scheduling decision keeps the accounts true. -/
theorem Covers.act {X : Custody M D}
    (hbody : ∀ c l, X.starts c l → Follows D (fun _ => X.rest) (M.body c) l)
    {p p' : Pool σ O R C} {a : Action C E} (hknown : X.known p.shared) (h : X.Covers p)
    (hact : p.act M a = some p') : X.Covers p' := by
  cases a with
  | event e =>
    simp only [Pool.act, Option.map_eq_some_iff] at hact
    obtain ⟨s', hreact, rfl⟩ := hact
    obtain ⟨hinv', htie⟩ := X.event_keeps e _ s' hknown h.inv hreact
    refine ⟨hinv', fun i c q hi => ?_, fun i hi => htie i _ (h.absent i hi)⟩
    obtain ⟨l, hl, ht, hq⟩ := h.thread i c q hi
    exact ⟨l, hl, htie i l ht, hq⟩
  | call c =>
    simp only [Pool.act, Option.map_eq_some_iff] at hact
    obtain ⟨s', henter, rfl⟩ := hact
    obtain ⟨hinv', ⟨l, hstart, htie⟩, hothers⟩ :=
      X.enter_keeps c _ _ s' hknown h.inv (h.absent _ le_rfl) henter
    refine ⟨hinv', fun i d q hi => ?_, fun i hi => ?_⟩
    · rcases lt_trichotomy i p.threads.length with hlt | heq | hgt
      · rw [List.getElem?_append_left hlt] at hi
        obtain ⟨m, hm, ht, hq⟩ := h.thread i d q hi
        exact ⟨m, hm, hothers i m (Nat.ne_of_lt hlt) ht, hq⟩
      · subst heq
        rw [List.getElem?_append_right le_rfl] at hi
        simp only [Nat.sub_self, List.getElem?_cons_zero, Option.some.injEq, Prod.mk.injEq] at hi
        obtain ⟨rfl, rfl⟩ := hi
        exact ⟨l, X.starts_during c l hstart, htie, hbody c l hstart⟩
      · rw [List.getElem?_eq_none (by simp; omega)] at hi
        cases hi
    · have hlt : p.threads.length + 1 ≤ i := by simpa using hi
      exact hothers i _ (by omega) (h.absent i (by omega))
  | step i =>
    simp only [Pool.act] at hact
    split at hact
    · next c o next hi =>
      split at hact
      · next hadm =>
        simp only [Option.map_eq_some_iff] at hact
        obtain ⟨⟨r, s'⟩, hexec, rfl⟩ := hact
        obtain ⟨l, hl, ht, hallow, hnext⟩ := h.thread i c _ hi
        obtain ⟨hinv', ⟨l', hmove, ht'⟩, hothers⟩ :=
          X.step_keeps c i l o _ r s' hknown h.inv ht hl hallow hadm hexec
        have hlt : i < p.threads.length := (List.getElem?_eq_some_iff.mp hi).1
        refine ⟨hinv', fun j d q hj => ?_, fun j hj => ?_⟩
        · by_cases hij : i = j
          · subst hij
            rw [List.getElem?_set_self hlt] at hj
            simp only [Option.some.injEq, Prod.mk.injEq] at hj
            obtain ⟨rfl, rfl⟩ := hj
            exact ⟨l', X.moves_during c l o r l' hl hmove, ht', hnext r l' hmove⟩
          · rw [List.getElem?_set_ne hij] at hj
            obtain ⟨m, hm, htm, hq⟩ := h.thread j d q hj
            exact ⟨m, hm, hothers j m (Ne.symm hij) htm, hq⟩
        · have hle : p.threads.length ≤ j := by simpa using hj
          exact hothers j _ (by omega) (h.absent j hle)
      · cases hact
    · cases hact

/-- Soundness: in every reachable pool the accounts are true. -/
theorem covers_reachable (X : Custody M D) {init : σ → Prop}
    (hknown : ∀ p : Pool σ O R C, p.Reachable M init → X.known p.shared)
    (hinit : ∀ s, init s → X.inv s ∧ ∀ t, X.tie t X.idle s)
    (hbody : ∀ c l, X.starts c l → Follows D (fun _ => X.rest) (M.body c) l)
    {p : Pool σ O R C} (h : p.Reachable M init) : X.Covers p :=
  Pool.Reachable.induct (fun s hs => ⟨(hinit s hs).1, by simp, fun i _ => (hinit s hs).2 i⟩)
    (fun q _ _ hq _ hcov hact => hcov.act hbody (hknown q hq) hact) h

/-- The account of a thread permits its next operation. -/
theorem Covers.next_allowed {X : Custody M D} {p : Pool σ O R C} (h : X.Covers p) {i : ℕ} {c : C}
    {o : O} (hi : p.next i = some (c, o)) :
    ∃ l, X.during c l ∧ X.tie i l p.shared ∧ D.allows l o := by
  obtain ⟨q, hq⟩ := Pool.next_some hi
  obtain ⟨l, hl, ht, hallow, _⟩ := h.thread i c _ hq
  exact ⟨l, hl, ht, hallow⟩

/-- A call that has returned rests. -/
theorem Covers.returned {X : Custody M D} {p : Pool σ O R C} (h : X.Covers p) {i : ℕ} {c : C}
    (hi : p.returned i = some c) : ∃ l, X.during c l ∧ X.tie i l p.shared ∧ X.rest l :=
  h.thread i c _ (Pool.returned_some hi)

/-- Every index has an account that is true, whether or not its thread has been started. -/
theorem Covers.account {X : Custody M D} {p : Pool σ O R C} (h : X.Covers p) (i : ℕ) :
    ∃ l, X.tie i l p.shared := by
  rcases lt_or_ge i p.threads.length with hlt | hge
  · obtain ⟨l, _, ht, _⟩ := h.thread i _ _ (List.getElem?_eq_getElem hlt)
    exact ⟨l, ht⟩
  · exact ⟨X.idle, h.absent i hge⟩

end Custody

end Interleaving
