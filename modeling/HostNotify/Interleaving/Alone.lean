import HostNotify.Interleaving.Custody

/-!
# Programs run to their end

A total-correctness reading of a program that nothing interrupts: every operation is answered,
and the result and the last state meet a postcondition.
-/

namespace Interleaving

namespace Prog

variable {O : Type} {R : O → Type} {A B σ : Type} {exec : (o : O) → σ → Option (R o × σ)}

/-- Run alone from `s`, the program ends with a result and a state that meet `Q`. -/
def Ends (exec : (o : O) → σ → Option (R o × σ)) (Q : A → σ → Prop) : Prog O R A → σ → Prop
  | ret a, s => Q a s
  | op o next, s => ∃ r s', exec o s = some (r, s') ∧ (next r).Ends exec Q s'

/-- A return is its own postcondition. -/
theorem Ends.ret {Q : A → σ → Prop} {a : A} {s : σ} (h : Q a s) :
    (ret a : Prog O R A).Ends exec Q s := h

/-- One operation whose answer is known. -/
theorem Ends.op {Q : A → σ → Prop} {o : O} {next : R o → Prog O R A} {s s' : σ} {r : R o}
    (hexec : exec o s = some (r, s')) (h : (next r).Ends exec Q s') :
    (Prog.op o next).Ends exec Q s := ⟨r, s', hexec, h⟩

/-- A stronger postcondition serves as well. -/
theorem Ends.mono {Q Q' : A → σ → Prop} {p : Prog O R A} {s : σ} (h : p.Ends exec Q s)
    (hQ : ∀ a s', Q a s' → Q' a s') : p.Ends exec Q' s := by
  induction p generalizing s with
  | ret a => exact hQ a s h
  | op o next ih =>
    obtain ⟨r, s', hexec, hnext⟩ := h
    exact ⟨r, s', hexec, ih r hnext⟩

/-- A sequence ends where its second part does. -/
theorem Ends.bind {Q : A → σ → Prop} {Q' : B → σ → Prop} {p : Prog O R A} {f : A → Prog O R B}
    {s : σ} (hp : p.Ends exec Q s) (hf : ∀ a s', Q a s' → (f a).Ends exec Q' s') :
    (p >>= f).Ends exec Q' s := by
  induction p generalizing s with
  | ret a => exact hf a s hp
  | op o next ih =>
    obtain ⟨r, s', hexec, hnext⟩ := hp
    exact ⟨r, s', hexec, ih r hnext⟩

/-- A program run alone has one outcome, which meets every postcondition it ends with. -/
theorem Ends.and {Q Q' : A → σ → Prop} {p : Prog O R A} {s : σ} (h : p.Ends exec Q s)
    (h' : p.Ends exec Q' s) : p.Ends exec (fun a s' => Q a s' ∧ Q' a s') s := by
  induction p generalizing s with
  | ret a => exact ⟨h, h'⟩
  | op o next ih =>
    obtain ⟨r, s', hexec, hnext⟩ := h
    obtain ⟨r', s'', hexec', hnext'⟩ := h'
    cases hexec.symm.trans hexec'
    exact ⟨r, s', hexec, ih r hnext hnext'⟩

/-- The reading agrees with the uninterrupted run. -/
theorem Ends.runAlone {Q : A → σ → Prop} {p : Prog O R A} {s : σ} (h : p.Ends exec Q s) :
    ∃ a s', p.runAlone exec s = some (a, s') ∧ Q a s' := by
  induction p generalizing s with
  | ret a => exact ⟨a, s, rfl, h⟩
  | op o next ih =>
    obtain ⟨r, s', hexec, hnext⟩ := h
    obtain ⟨a, s'', hrun, hQ⟩ := ih r hnext
    refine ⟨a, s'', ?_, hQ⟩
    rw [Prog.runAlone, hexec]
    exact hrun

/-- The outcome is that of the uninterrupted run. -/
theorem Ends.outcome {Q : A → σ → Prop} {p : Prog O R A} {s : σ} (h : p.Ends exec Q s) :
    p.Ends exec (fun a s' => p.runAlone exec s = some (a, s') ∧ Q a s') s := by
  induction p generalizing s with
  | ret a => exact ⟨rfl, h⟩
  | op o next ih =>
    obtain ⟨r, s', hexec, hnext⟩ := h
    refine ⟨r, s', hexec, (ih r hnext).mono ?_⟩
    rintro a s'' ⟨hrun, hQ⟩
    refine ⟨?_, hQ⟩
    rw [Prog.runAlone, hexec]
    exact hrun

/-- A program all of whose operations keep a relation to the start ends in that relation. -/
theorem Ends.of_allOps {T : O → Prop} {K : σ → σ → Prop} {p : Prog O R A} {s : σ} (hp : p.AllOps T)
    (hrefl : ∀ s, K s s) (htrans : ∀ s s' s'', K s s' → K s' s'' → K s s'')
    (hop : ∀ o s, T o → ∃ r s', exec o s = some (r, s') ∧ K s s') : p.Ends exec (fun _ => K s) s := by
  induction p generalizing s with
  | ret a => exact hrefl s
  | op o next ih =>
    obtain ⟨r, s', hexec, hkept⟩ := hop o s hp.1
    exact ⟨r, s', hexec, (ih r (hp.2 r)).mono fun _ s'' h => htrans s s' s'' hkept h⟩

end Prog

/-! ## What remains of a program -/

namespace Prog

variable {O A B : Type} {R : O → Type} {P : Prog O R B → Prop}

/-- `P` holds of the program and of all that may remain of it. -/
def Always (P : Prog O R A → Prop) : Prog O R A → Prop
  | ret a => P (ret a)
  | op o next => P (op o next) ∧ ∀ r, (next r).Always P

/-- What always holds of the rest of a program holds of all of it. -/
theorem Always.now {P : Prog O R A → Prop} {p : Prog O R A} (h : p.Always P) : P p := by
  cases p with
  | ret a => exact h
  | op o next => exact h.1

/-- A first part whose operations are of no concern. -/
theorem Always.bind {T : O → Prop} {p : Prog O R A} {f : A → Prog O R B} (hp : p.AllOps T)
    (hT : ∀ o q, T o → P (op o q)) (hf : ∀ a, (f a).Always P) : (p >>= f).Always P := by
  induction p with
  | ret a => exact hf a
  | op o next ih => exact ⟨hT o _ hp.1, fun r => ih r (hp.2 r)⟩

/-- What depends on the next operation only holds of every rest of the program. -/
theorem AllOps.always {T : O → Prop} {p : Prog O R B} (hp : p.AllOps T) (hT : ∀ o q, T o → P (op o q))
    (hret : ∀ b, P (ret b)) : p.Always P := by
  induction p with
  | ret b => exact hret b
  | op o next ih => exact ⟨hT o _ hp.1, fun r => ih r (hp.2 r)⟩

end Prog

/-- What always holds of the code of a call holds of what remains of it in every run. -/
theorem Pool.Reachable.always {σ O C E : Type} {R : O → Type} {M : Machine σ O R C E} {init : σ → Prop}
    {p : Pool σ O R C} {P : C → Prog O R Unit → Prop} (hbody : ∀ c, (M.body c).Always (P c))
    (h : p.Reachable M init) {i : ℕ} {c : C} {q : Prog O R Unit} (hi : p.threads[i]? = some (c, q)) :
    q.Always (P c) := by
  refine Pool.Reachable.induct (P := fun p => ∀ i c q, p.threads[i]? = some (c, q) → q.Always (P c))
    (fun s _ i c q hi => by cases hi) (fun p p' a _ _ hp hact i c q hi => ?_) h i c q hi
  cases a with
  | event e =>
    simp only [Pool.act, Option.map_eq_some_iff] at hact
    obtain ⟨s', _, rfl⟩ := hact
    exact hp i c q hi
  | call d =>
    simp only [Pool.act, Option.map_eq_some_iff] at hact
    obtain ⟨s', _, rfl⟩ := hact
    rcases lt_or_ge i p.threads.length with hlt | hge
    · rw [List.getElem?_append_left hlt] at hi
      exact hp i c q hi
    · rw [List.getElem?_append_right hge, List.getElem?_singleton] at hi
      obtain ⟨_, hnew⟩ := Option.ite_none_right_eq_some.mp hi
      obtain ⟨rfl, rfl⟩ := Prod.mk.inj (Option.some.inj hnew)
      exact hbody d
  | step j =>
    simp only [Pool.act] at hact
    split at hact
    · next d o next hj =>
      split at hact
      · simp only [Option.map_eq_some_iff] at hact
        obtain ⟨⟨r, s'⟩, _, rfl⟩ := hact
        have hlt : j < p.threads.length := (List.getElem?_eq_some_iff.mp hj).1
        by_cases hij : j = i
        · subst hij
          rw [List.getElem?_set_self hlt] at hi
          obtain ⟨rfl, rfl⟩ := Prod.mk.inj (Option.some.inj hi)
          exact (hp j d _ hj).2 r
        · rw [List.getElem?_set_ne hij] at hi
          exact hp i c q hi
      · cases hact
    · cases hact

/-! ## Threads scheduled alone -/

/-- One operation of a call as the machine admits it. -/
def Machine.own {σ O C E : Type} {R : O → Type} (M : Machine σ O R C E) (c : C) (i : ℕ) (o : O) (s : σ) :
    Option (R o × σ) :=
  if M.admits c o s then M.exec i o s else none

/-- A thread that is scheduled alone returns. -/
theorem Pool.run_alone {σ O C E : Type} {R : O → Type} {M : Machine σ O R C E} {p : Pool σ O R C} {i : ℕ}
    {c : C} {q : Prog O R Unit} {Q : Unit → σ → Prop} (hi : p.threads[i]? = some (c, q))
    (h : q.Ends (M.own c i) Q p.shared) :
    ∃ n p', p.run M (List.replicate n (.step i)) = some p' ∧ p'.returned i = some c ∧ Q () p'.shared := by
  induction q generalizing p with
  | ret a =>
    refine ⟨0, p, rfl, ?_, h⟩
    unfold Pool.returned
    rw [hi]
  | op o next ih =>
    obtain ⟨r, s', hown, hnext⟩ := h
    obtain ⟨hadm, hexec⟩ := Option.ite_none_right_eq_some.mp hown
    have hact : p.act M (.step i) = some ⟨s', p.threads.set i (c, next r)⟩ := by
      simp only [Pool.act, hi, if_pos hadm, hexec, Option.map_some]
    have hlt : i < p.threads.length := (List.getElem?_eq_some_iff.mp hi).1
    obtain ⟨n, p', hrun, hret, hQ⟩ := ih r (p := ⟨s', p.threads.set i (c, next r)⟩)
      (List.getElem?_set_self hlt) hnext
    refine ⟨n + 1, p', ?_, hret, hQ⟩
    rw [List.replicate_succ, Pool.run, hact]
    exact hrun

end Interleaving
