import HostNotify.Locks
import HostNotify.ReadOut

/-!
# The delivery

`piix4_asf_deliver` passes on what a drain collected. A thread that owes no more than its
list holds, and finds somebody to take it, owes nothing afterwards.
-/

namespace HostNotify

open Bits Interleaving

variable {k : Setting} {b : Board} {s s' : St} {t : ℕ} {call : Call} {Q : St → Prop}

/-- The messages the thread still owes are on the list, and somebody takes what is on it. -/
def Due (k : Setting) (t : ℕ) (l : List ℕ) (s : St) : Prop :=
  k.Tidy → (s.ghost.owed t).Subperm l ∧ (l = [] ∨ (s.deliverOk = true ∧ s.auxAdapter = true))

/-- Neither the list nor the adapter goes away while the thread delivers. -/
theorem stable_due (l : List ℕ) : (rules k b call t).Stable (Due k t l) := by
  intro s s' hs h hr _ ht
  obtain ⟨howed, htaken⟩ := h ht
  rw [← (Rely.keeps hr hs).owed] at howed
  refine ⟨howed, htaken.imp id fun hd => ?_⟩
  rcases hr with ⟨e, he⟩ | hf
  · have hframe := react_frame he hs.smba
    exact ⟨hframe.deliverOk.trans hd.1, hframe.auxAdapter.trans hd.2⟩
  · exact hf.delivering ht hd

/-- The state after an address was passed on. -/
def St.handled (s : St) (t addr : ℕ) : St :=
  { s with
    delivered := s.delivered ++ [addr]
    ghost := { s.ghost with
      owed := Function.update s.ghost.owed t ((s.ghost.owed t).erase addr) } }

/-- A delivery is an own step. -/
theorem OwnStep.handled (addr : ℕ) : OwnStep k t s (s.handled t addr) where
  life := rfl
  irq := rfl
  asf := rfl
  world := rfl
  deliverOk := rfl
  auxAdapter := rfl
  owed _ hu := Function.update_of_ne hu _ _
  region _ _ h := ⟨h, rfl, rfl⟩
  mutex := rfl
  block := Or.inr (Or.inr ⟨rfl, fun h => ⟨h, rfl, rfl⟩, rfl, rfl, rfl, rfl, rfl, rfl, rfl, rfl, rfl,
    rfl⟩)
  listening hl := Or.inr hl
  pending := id
  sound h := ⟨h.errorless, h.unstuck⟩
  intact _ h := h.congr (fun _ => rfl) rfl rfl rfl h.reset

/-- That a thread owes nothing is its own. -/
theorem owesNothing_private : Private t fun s => k.Tidy → s.ghost.owed t = [] := by
  intro s s' hk h ht
  rw [hk.owed]
  exact h ht

/-- What a thread owes is on its list. -/
def Owes (k : Setting) (t : ℕ) (l : List ℕ) (s : St) : Prop := k.Tidy → (s.ghost.owed t).Subperm l

/-- What a thread owes is its own. -/
theorem owes_private (l : List ℕ) : Private t (Owes k t l) := owed_private _

/-- A thread that owes the empty list owes nothing. -/
theorem Owes.nil (h : Owes k t [] s) : k.Tidy → s.ghost.owed t = [] :=
  fun ht => List.subperm_nil.mp (h ht)

/-- What a thread knows privately while it does not hold the mutex. -/
def Outside (t : ℕ) (Q : St → Prop) (s : St) : Prop := Q s ∧ s.mutex ≠ some t

/-- What a thread knows outside the mutex is stable. -/
theorem stable_outside (hQ : Private t Q) : (rules k b call t).Stable (Outside t Q) :=
  (stable_private hQ).and stable_unlocked

/-- Giving the mutex up with messages to deliver. -/
theorem unlockDue_spec {c : Control} (hQ : Private t Q) (hc : c.Settled k) (l : List ℕ)
    (hwant : c.want = false → l = []) :
    Triple (rules k b call t) (Holds k t c fun s => Q s ∧ Owes k t l s) (unlock .asf)
      fun _ s => Outside t Q s ∧ Due k t l s := by
  refine unlock_spec ((stable_outside hQ).and (stable_due l)) (fun s h => h.1.holder)
    (fun s _ h _ => ⟨c, hc, h.1⟩) fun s hs h => ?_
  refine ⟨⟨hQ _ _ (keeps_setMutex none) h.2.1, nofun⟩, fun ht => ⟨h.2.2 ht, ?_⟩⟩
  cases hw : c.want with
  | false => exact Or.inl (hwant hw)
  | true => exact Or.inr (hs.delivering ht (h.1.want.trans hw))

section Deliver

variable (hQ : Debtless t Q)
include hQ

/-- Passing a whole list on leaves nothing owed. -/
theorem deliverAll_spec (l : List ℕ) :
    Triple (rules k b call t) (fun s => Outside t Q s ∧ Owes k t l s)
      (deliverAll l) fun _ s => Outside t Q s ∧ (k.Tidy → s.ghost.owed t = []) := by
  induction l with
  | nil => exact Triple.ret fun s _ h => ⟨h.1, h.2.nil⟩
  | cons a rest ih =>
    have hstable : (rules k b call t).Stable fun s => Outside t Q s ∧ Owes k t rest s :=
      (stable_outside hQ.private).and (stable_private (owes_private rest))
    refine Triple.bind ?_ fun _ => Triple.bind (note_spec trivial hstable
      (fun _ _ => .of_other (by simp) (by simp)) fun s hown h => ?_) fun _ => ih
    swap
    · exact ⟨⟨hQ _ _ hown.stays h.1.1, h.1.2⟩, h.2⟩
    refine own_op (fun _ => hstable) fun s hs hP _ => ⟨.of_other (by simp) (by simp), fun _ s' he => ?_⟩
    obtain rfl : s.handled t a = s' := (Prod.mk.inj (Option.some.inj he)).2
    have hown : OwnStep k t s (s.handled t a) := .handled a
    refine ⟨hown, ⟨hQ _ _ hown.stays hP.1.1, hP.1.2⟩, fun ht => ?_⟩
    have herase : (s.handled t a).ghost.owed t = (s.ghost.owed t).erase a :=
      Function.update_self _ _ _
    rw [herase]
    calc ((s.ghost.owed t).erase a).Subperm ((a :: rest).erase a) := (hP.2 ht).erase a
      _ = rest := List.erase_cons_head a rest

/-- `piix4_asf_deliver` hands over all it has been given. -/
theorem deliver_spec (n : Notifies) :
    Triple (rules k b call t) (fun s => Outside t Q s ∧ Due k t n.addr s) (piix4AsfDeliver n)
      fun _ s => Outside t Q s ∧ (k.Tidy → s.ghost.owed t = []) := by
  have hstable : (rules k b call t).Stable fun s => Outside t Q s ∧ Due k t n.addr s :=
    (stable_outside hQ.private).and (stable_due n.addr)
  have hset : ∀ s m, Outside t Q s → Outside t Q { s with notifyMutex := m } :=
    fun s m h => ⟨hQ _ _ (OwnStep.setNotify (k := k) m).stays h.1, h.2⟩
  have hnotify : ∀ s m, Outside t Q s ∧ Due k t n.addr s →
      Outside t Q { s with notifyMutex := m } ∧ Due k t n.addr { s with notifyMutex := m } :=
    fun s m h => ⟨hset s m h.1, h.2⟩
  unfold piix4AsfDeliver
  by_cases hnone : n.addr = []
  · rw [if_pos hnone]
    refine Triple.ret fun s _ h => ⟨h.1, fun ht => ?_⟩
    have howed := (h.2 ht).1
    rw [hnone] at howed
    exact List.subperm_nil.mp howed
  · rw [if_neg hnone]
    refine Triple.bind (lockNotify_spec hstable hnotify) fun _ => ?_
    refine Triple.bind (idle_op (F := fun ok => k.Tidy → ok = true) hstable
      (fun _ => .of_other (by simp) (by simp)) fun s r s' _ hP _ he => ?_)
      fun ok => Triple.pure_pre fun hok => ?_
    · obtain ⟨rfl, rfl⟩ := Prod.mk.inj (Option.some.inj he)
      exact ⟨rfl, fun ht => ((hP.2 ht).2.resolve_left hnone).1⟩
    cases ok with
    | false =>
      have hun : ¬ k.Tidy := fun ht => absurd (hok ht) (by decide)
      exact Triple.post (unlockNotify_spec hstable hnotify) fun _ s _ h =>
        ⟨h.1, fun ht => absurd ht hun⟩
    | true =>
      refine Triple.bind (idle_op (F := fun adapter => k.Tidy → adapter = true) hstable
        (fun _ => .of_other (by simp) (by simp)) fun s r s' _ hP _ he => ?_)
        fun adapter => Triple.pure_pre fun hadapter => ?_
      · obtain ⟨rfl, rfl⟩ := Prod.mk.inj (Option.some.inj he)
        exact ⟨rfl, fun ht => ((hP.2 ht).2.resolve_left hnone).2⟩
      cases adapter with
      | false =>
        have hun : ¬ k.Tidy := fun ht => absurd (hadapter ht) (by decide)
        exact Triple.post (unlockNotify_spec hstable hnotify) fun _ s _ h =>
          ⟨h.1, fun ht => absurd ht hun⟩
      | true =>
        refine Triple.bind (Triple.pre (deliverAll_spec hQ n.addr) fun s _ h =>
          ⟨h.1, fun ht => (h.2 ht).1⟩) fun _ => ?_
        exact unlockNotify_spec ((stable_outside hQ.private).and
          (stable_private owesNothing_private)) fun s m h => ⟨hset s m h.1, h.2⟩

end Deliver

end HostNotify
