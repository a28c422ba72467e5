import HostNotify.Interleaving.Safe

/-!
# Pools of threads

A pool is a shared state and a list of threads, each a call and what remains of its
program. A schedule interleaves environment events, new calls and single operations of
the threads; `Pool.run` executes one, so a concrete schedule can be evaluated. The
soundness theorem turns one safety argument per call into facts about every reachable
pool.
-/

namespace Interleaving

open Relation

/-- A concurrent system: its calls `C`, its environment events `E`, and what a run admits. -/
structure Machine (σ O : Type) (R : O → Type) (C E : Type) where
  /-- Meaning of an operation of the thread with the given index; `none` is blocked. -/
  exec : ℕ → (o : O) → σ → Option (R o × σ)
  body : C → Prog O R Unit
  /-- Entering a call as the thread with the given index; `none` is not possible. -/
  enter : C → ℕ → σ → Option σ
  react : E → σ → Option σ
  /-- Operations that the runs under consideration contain. -/
  admits : C → O → σ → Bool

/-- The shared state with every thread started so far. -/
structure Pool (σ O : Type) (R : O → Type) (C : Type) where
  shared : σ
  threads : List (C × Prog O R Unit)

/-- One scheduling decision. -/
inductive Action (C E : Type) where
  | event (e : E)
  | call (c : C)
  | step (i : ℕ)

variable {σ O C E : Type} {R : O → Type}

namespace Pool

/-- Carry out one scheduling decision, if it is possible. -/
def act (M : Machine σ O R C E) (p : Pool σ O R C) : Action C E → Option (Pool σ O R C)
  | .event e => (M.react e p.shared).map fun s => { p with shared := s }
  | .call c => (M.enter c p.threads.length p.shared).map fun s =>
      ⟨s, p.threads ++ [(c, M.body c)]⟩
  | .step i => match p.threads[i]? with
    | some (c, .op o next) =>
      if M.admits c o p.shared then
        (M.exec i o p.shared).map fun rs => ⟨rs.2, p.threads.set i (c, next rs.1)⟩
      else none
    | _ => none

/-- Carry out a whole schedule. -/
def run (M : Machine σ O R C E) : List (Action C E) → Pool σ O R C → Option (Pool σ O R C)
  | [], p => some p
  | a :: rest, p => (p.act M a).bind (run M rest)

/-- The call running as thread `i` and its next operation. -/
def next (p : Pool σ O R C) (i : ℕ) : Option (C × O) :=
  match p.threads[i]? with
  | some (c, .op o _) => some (c, o)
  | _ => none

/-- A thread with a next operation has not returned. -/
theorem next_some {p : Pool σ O R C} {i : ℕ} {c : C} {o : O} (h : p.next i = some (c, o)) :
    ∃ q, p.threads[i]? = some (c, .op o q) := by
  unfold next at h
  split at h
  · next c' o' q hi =>
    obtain ⟨rfl, rfl⟩ := Prod.mk.inj (Option.some.inj h)
    exact ⟨q, hi⟩
  · cases h

/-- Thread `i` has returned from its call. -/
def returned (p : Pool σ O R C) (i : ℕ) : Option C :=
  match p.threads[i]? with
  | some (c, .ret _) => some c
  | _ => none

/-- A thread that has returned has nothing left to do. -/
theorem returned_some {p : Pool σ O R C} {i : ℕ} {c : C} (h : p.returned i = some c) :
    p.threads[i]? = some (c, .ret ()) := by
  unfold returned at h
  split at h
  · next c' u hi =>
    obtain rfl := Option.some.inj h
    exact hi
  · cases h

/-- A pool that some schedule reaches from the initial shared state without threads. -/
def Reachable (M : Machine σ O R C E) (init : σ → Prop) (p : Pool σ O R C) : Prop :=
  ∃ s₀ schedule, init s₀ ∧ run M schedule ⟨s₀, []⟩ = some p

end Pool

/-- One safety argument per call, together with the invariant and the rely conditions. -/
structure Proof (M : Machine σ O R C E) where
  inv : σ → Prop
  rely : ℕ → σ → σ → Prop
  ok : C → O → σ → Prop
  /-- What holds once the call has returned. -/
  done : C → ℕ → σ → Prop
  /-- What holds of a thread that has not been started. -/
  absent : ℕ → σ → Prop
  absent_keeps : ∀ t s s', inv s → absent t s → rely t s s' → inv s' → absent t s'
  event_keeps : ∀ e s s', M.react e s = some s' → inv s → inv s' ∧ ∀ t, rely t s s'
  enter_keeps : ∀ c t s s', M.enter c t s = some s' → inv s → absent t s →
    inv s' ∧ ∀ u, u ≠ t → rely u s s'

namespace Proof

variable {M : Machine σ O R C E}

/-- The safety argument about the call `c` running as thread `t`. -/
def discipline (X : Proof M) (c : C) (t : ℕ) : Discipline σ O R where
  exec := M.exec t
  may o s := M.admits c o s = true
  inv := X.inv
  rely := X.rely t
  guar s s' := ∀ u, u ≠ t → X.rely u s s'
  ok := X.ok c

/-- The program is safe now and after any interference. -/
def Secured (X : Proof M) (c : C) (t : ℕ) (p : Prog O R Unit) (s : σ) : Prop :=
  ∀ s', (X.discipline c t).Drift s s' → Safe (X.discipline c t) (fun _ => X.done c t) p s'

/-- Every thread's safety argument is still in force, and those to come are absent. -/
structure Covers (X : Proof M) (p : Pool σ O R C) : Prop where
  inv : X.inv p.shared
  secured : ∀ i c q, p.threads[i]? = some (c, q) → X.Secured c i q p.shared
  absent : ∀ i, p.threads.length ≤ i → X.absent i p.shared

/-- Every call that is entered by an absent thread is safe. -/
def Starts (X : Proof M) : Prop :=
  ∀ c t s s', M.enter c t s = some s' → X.inv s → X.absent t s → X.Secured c t (M.body c) s'

/-- A safety argument stays in force while others go on. -/
theorem Secured.drift {X : Proof M} {c : C} {t : ℕ} {q : Prog O R Unit} {s s' : σ}
    (h : X.Secured c t q s) (hr : X.rely t s s') (hs' : X.inv s') : X.Secured c t q s' :=
  fun s'' hd => h s'' (ReflTransGen.head ⟨hr, hs'⟩ hd)

/-- A triple with a stable precondition secures a call that is just entered. -/
theorem Secured.of_triple {X : Proof M} {c : C} {t : ℕ} {q : Prog O R Unit} {s : σ}
    {P : σ → Prop} (hP : (X.discipline c t).Stable P)
    (h : Triple (X.discipline c t) P q fun _ => X.done c t) (hs : X.inv s) (hPs : P s) :
    X.Secured c t q s :=
  fun s' hd => h s' (hd.inv hs) (hP.drift hd hs hPs)

/-- The step lemma: one scheduling decision keeps every safety argument in force. -/
theorem Covers.act {X : Proof M} (hbody : X.Starts) {p p' : Pool σ O R C} {a : Action C E}
    (h : X.Covers p) (hact : p.act M a = some p') : X.Covers p' := by
  obtain ⟨hinv, hthreads, habsent⟩ := h
  cases a with
  | event e =>
    simp only [Pool.act, Option.map_eq_some_iff] at hact
    obtain ⟨s', hreact, rfl⟩ := hact
    obtain ⟨hinv', hrely⟩ := X.event_keeps e _ s' hreact hinv
    exact ⟨hinv', fun i c q hi => (hthreads i c q hi).drift (hrely i) hinv',
      fun i hi => X.absent_keeps i _ _ hinv (habsent i hi) (hrely i) hinv'⟩
  | call c =>
    simp only [Pool.act, Option.map_eq_some_iff] at hact
    obtain ⟨s', henter, rfl⟩ := hact
    have hnew : X.absent p.threads.length p.shared := habsent _ le_rfl
    obtain ⟨hinv', hrely⟩ := X.enter_keeps c _ _ s' henter hinv hnew
    refine ⟨hinv', fun i d q hi => ?_, fun i hi => ?_⟩
    · rcases lt_trichotomy i p.threads.length with hlt | heq | hgt
      · rw [List.getElem?_append_left hlt] at hi
        exact (hthreads i d q hi).drift (hrely i (Nat.ne_of_lt hlt)) hinv'
      · subst heq
        rw [List.getElem?_append_right le_rfl] at hi
        simp only [Nat.sub_self, List.getElem?_cons_zero, Option.some.injEq, Prod.mk.injEq] at hi
        obtain ⟨rfl, rfl⟩ := hi
        exact hbody _ _ _ _ henter hinv hnew
      · rw [List.getElem?_eq_none (by simp; omega)] at hi
        cases hi
    · have hlt : p.threads.length + 1 ≤ i := by simpa using hi
      exact X.absent_keeps i _ _ hinv (habsent i (by omega)) (hrely i (by omega)) hinv'
  | step i =>
    simp only [Pool.act] at hact
    split at hact
    · next c o next hi =>
      split at hact
      · next hadm =>
        simp only [Option.map_eq_some_iff] at hact
        obtain ⟨⟨r, s'⟩, hexec, rfl⟩ := hact
        obtain ⟨_, hstep⟩ := hthreads i c _ hi p.shared ReflTransGen.refl hadm
        obtain ⟨hguar, hinv', hnext⟩ := hstep r s' hexec
        have hlt : i < p.threads.length := (List.getElem?_eq_some_iff.mp hi).1
        refine ⟨hinv', fun j d q hj => ?_, fun j hj => ?_⟩
        · by_cases hij : i = j
          · subst hij
            rw [List.getElem?_set_self hlt] at hj
            simp only [Option.some.injEq, Prod.mk.injEq] at hj
            obtain ⟨rfl, rfl⟩ := hj
            exact hnext
          · rw [List.getElem?_set_ne hij] at hj
            exact (hthreads j d q hj).drift (hguar j (Ne.symm hij)) hinv'
        · have hle : p.threads.length ≤ j := by simpa using hj
          exact X.absent_keeps j _ _ hinv (habsent j hle) (hguar j (by omega)) hinv'
      · cases hact
    · cases hact

/-- The run lemma: a whole schedule keeps every safety argument in force. -/
theorem Covers.run {X : Proof M} (hbody : X.Starts) (schedule : List (Action C E))
    {p p' : Pool σ O R C} (h : X.Covers p) (hrun : p.run M schedule = some p') : X.Covers p' := by
  induction schedule generalizing p with
  | nil =>
    simp only [Pool.run, Option.some.injEq] at hrun
    exact hrun ▸ h
  | cons a rest ih =>
    simp only [Pool.run, Option.bind_eq_some_iff] at hrun
    obtain ⟨q, hq, hrest⟩ := hrun
    exact ih (h.act hbody hq) hrest

/-- Soundness: every reachable pool is covered. -/
theorem covers_reachable (X : Proof M) {init : σ → Prop}
    (hinit : ∀ s, init s → X.inv s ∧ ∀ t, X.absent t s) (hbody : X.Starts)
    {p : Pool σ O R C} (h : p.Reachable M init) : X.Covers p := by
  obtain ⟨s₀, schedule, hs₀, hrun⟩ := h
  exact Covers.run hbody schedule ⟨(hinit s₀ hs₀).1, by simp, fun i _ => (hinit s₀ hs₀).2 i⟩ hrun

/-- The check at the next operation of any thread of a covered pool. -/
theorem Covers.next_ok {X : Proof M} {p : Pool σ O R C} (h : X.Covers p) {i : ℕ} {c : C} {o : O}
    (hi : p.next i = some (c, o)) (hadm : M.admits c o p.shared = true) : X.ok c o p.shared := by
  obtain ⟨q, hq⟩ := Pool.next_some hi
  exact (h.secured i c _ hq p.shared ReflTransGen.refl hadm).1

/-- What a call has achieved once it returned. -/
theorem Covers.returned {X : Proof M} {p : Pool σ O R C} (h : X.Covers p) {i : ℕ} {c : C}
    (hi : p.returned i = some c) : X.done c i p.shared :=
  h.secured i c _ (Pool.returned_some hi) p.shared ReflTransGen.refl

end Proof

end Interleaving
