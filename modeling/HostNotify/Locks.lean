import HostNotify.Operations

/-!
# The two mutexes

`piix4_asf_mutex` passes the view of the block on: whoever takes it starts from the state the
last critical section left, and must leave a settled one. Nothing depends on who holds
`piix4_asf_notify_mutex`.
-/

namespace HostNotify

open Bits Interleaving

variable {k : Setting} {b : Board} {c : Control} {s s' : St} {t u : ℕ} {call : Call}
  {P Q : St → Prop}

/-! ## `piix4_asf_mutex` -/

/-- Who holds the mutex is no part of the block. -/
theorem sameBlock_setMutex (m : Option ℕ) : SameBlock s { s with mutex := m } :=
  ⟨rfl, fun h => ⟨h, rfl, rfl⟩, rfl, rfl, rfl, rfl, rfl, rfl, rfl, rfl, rfl, rfl⟩

/-- A view changes hands with the mutex, if the region does not come with it. -/
theorem View.setMutex {o : Option ℕ} (h : View k o c s) (hheld : c.held = false) (m : Option ℕ) :
    View k m c { s with mutex := m } where
  holder := rfl
  engaged := h.engaged
  listening := h.listening
  want := h.want
  held hc := absurd (hc.symm.trans hheld) (by decide)
  fresh hc := absurd (hc.symm.trans hheld) (by decide)
  sees hk := (h.sees hk).of_sameBlock (sameBlock_setMutex m)

/-- Taking or giving up the mutex shows nothing to the other threads. -/
theorem foreign_setMutex {m : Option ℕ} (hold : s.mutex = none ∨ s.mutex = some t)
    (hnew : m = none ∨ m = some t) (hu : u ≠ t) : Foreign k u s { s with mutex := m } where
  holder hm := by
    rcases hold with hnone | hown
    · simp [hnone] at hm
    · exact absurd (Option.some.inj (hm.symm.trans hown)) hu
  block _ _ := sameBlock_setMutex m
  region hr := ⟨hr, rfl, rfl⟩
  owed := rfl
  owner ho := ⟨ho, rfl⟩
  thread hr := ⟨hr, rfl⟩
  quiet _ hp := hp
  aux := id
  plain _ hp := hp
  unlocked _ hm := by
    rcases hnew with rfl | rfl
    · cases hm
    · exact hu (Option.some.inj hm).symm
  delivering _ hd := hd

/-- The invariant does not depend on who holds the mutex beyond what its holder must be. -/
theorem Inv.setMutex {m : Option ℕ} (h : Inv k b s)
    (hidle : m = none → s.asf.active = true → ∃ c, c.Settled k ∧ View k none c { s with mutex := m })
    (hlocked : ∀ u, m = some u → u ∈ s.life.aux ∨ s.irq.running = some u ∨ s.life.owner = some u) :
    Inv k b { s with mutex := m } where
  idle := hidle
  core := h.core
  masked := h.masked
  deaf := h.deaf
  alone := h.alone
  unregistered := h.unregistered
  plain := h.plain
  owned := h.owned
  locked := hlocked
  world := h.world
  sound hk := ⟨(h.sound hk).errorless, (h.sound hk).unstuck⟩
  intact ht := (h.intact ht).congr (fun _ => rfl) rfl rfl rfl (h.intact ht).reset

/-- A lock is only taken when it is free. -/
theorem exec_lock {l : Lock} {r : Unit} (he : exec b t (.lock l) s = some (r, s')) :
    s.holder l = none ∧ s' = s.setHolder (some t) l := by
  simp only [exec] at he
  split at he
  · next hfree =>
    obtain ⟨_, rfl⟩ := Prod.mk.inj (Option.some.inj he)
    exact ⟨hfree, rfl⟩
  · cases he

/-- A thread takes the mutex. -/
theorem lock_spec {M : St → Prop} (hM : (rules k b call t).Stable M)
    (hwho : ∀ s, P s → t ∈ s.life.aux ∨ s.irq.running = some t ∨ s.life.owner = some t)
    (hlock : ∀ s, Inv k b s → P s → s.mutex = none → M { s with mutex := some t }) :
    Triple (rules k b call t) P (lock .asf) fun _ => M := by
  refine Triple.perform (fun _ => hM) fun s hs hP _ => ⟨.of_other (by simp) (by simp), ?_⟩
  intro _ s' he
  obtain ⟨hfree, rfl⟩ := exec_lock (b := b) he
  refine ⟨fun u hu => Or.inr (foreign_setMutex (Or.inl hfree) (Or.inr rfl) hu), ?_,
    hlock s hs hP hfree⟩
  refine hs.setMutex (fun hm => by cases hm) fun u hu => ?_
  obtain rfl := Option.some.inj hu
  exact hwho s hP

/-- Giving the mutex up, with the block settled if it is claimed. -/
theorem unlock_spec {M : St → Prop} (hM : (rules k b call t).Stable M)
    (hheld : ∀ s, P s → s.mutex = some t)
    (hsettled : ∀ s, Inv k b s → P s → s.asf.active = true →
      ∃ c, c.Settled k ∧ View k (some t) c s)
    (hunlock : ∀ s, Inv k b s → P s → M { s with mutex := none }) :
    Triple (rules k b call t) P (unlock .asf) fun _ => M := by
  refine Triple.perform (fun _ => hM) fun s hs hP _ => ⟨.of_other (by simp) (by simp), ?_⟩
  intro _ s' he
  obtain rfl : { s with mutex := none } = s' := (Prod.mk.inj (Option.some.inj he)).2
  refine ⟨fun u hu => Or.inr (foreign_setMutex (Or.inr (hheld s hP)) (Or.inl rfl) hu), ?_,
    hunlock s hs hP⟩
  refine hs.setMutex (fun _ hactive => ?_) fun u hu => by cases hu
  obtain ⟨c, hset, hview⟩ := hsettled s hs hP hactive
  exact ⟨c, hset, hview.setMutex hset.released none⟩

/-- What taking the mutex shows: the claimed block is settled. -/
theorem Inv.settled (h : Inv k b s) (hfree : s.mutex = none) (hactive : s.asf.active = true) (t : ℕ) :
    ∃ c, c.Settled k ∧ View k (some t) c { s with mutex := some t } := by
  obtain ⟨c, hset, hview⟩ := h.idle hfree hactive
  exact ⟨c, hset, hview.setMutex hset.released (some t)⟩

/-- Private knowledge does not depend on who holds the mutex. -/
theorem keeps_setMutex (m : Option ℕ) : Keeps t s { s with mutex := m } where
  owed := rfl
  owner ho := ⟨ho, rfl⟩
  thread hr := ⟨hr, rfl⟩
  quiet _ hp := hp
  aux := id
  plain _ hp := hp

/-- Nobody else gives the mutex to a thread. -/
theorem stable_unlocked : (rules k b call t).Stable fun s => s.mutex ≠ some t := by
  intro s s' hs h hr _
  rcases hr with ⟨e, he⟩ | hf
  · rw [(react_frame he hs.smba).mutex]
    exact h
  · exact hf.unlocked h

/-- Nobody else takes the mutex from a thread. -/
theorem stable_locked : (rules k b call t).Stable fun s => s.mutex = some t := by
  intro s s' hs h hr _
  rcases hr with ⟨e, he⟩ | hf
  · exact (react_frame he hs.smba).mutex.trans h
  · exact hf.holder h

/-! ## `piix4_asf_notify_mutex` -/

/-- The notify mutex is no part of what the invariant speaks of. -/
theorem OwnStep.setNotify (m : Option ℕ) : OwnStep k t s { s with notifyMutex := m } where
  life := rfl
  irq := rfl
  asf := rfl
  world := rfl
  deliverOk := rfl
  auxAdapter := rfl
  owed _ _ := rfl
  region _ _ h := ⟨h, rfl, rfl⟩
  mutex := rfl
  block := Or.inr (Or.inr ⟨rfl, fun h => ⟨h, rfl, rfl⟩, rfl, rfl, rfl, rfl, rfl, rfl, rfl, rfl, rfl,
    rfl⟩)
  listening hl := Or.inr hl
  pending := id
  sound h := ⟨h.errorless, h.unstuck⟩
  intact _ h := h.congr (fun _ => rfl) rfl rfl rfl h.reset

/-- A thread takes the notify mutex. -/
theorem lockNotify_spec (hP : (rules k b call t).Stable P)
    (hset : ∀ s m, P s → P { s with notifyMutex := m }) :
    Triple (rules k b call t) P (lock .notify) fun _ => P := by
  refine own_op (fun _ => hP) fun s _ hPs _ => ⟨.of_other (by simp) (by simp), fun _ s' he => ?_⟩
  obtain ⟨_, rfl⟩ := exec_lock (b := b) he
  exact ⟨.setNotify (some t), hset s _ hPs⟩

/-- Giving the notify mutex up. -/
theorem unlockNotify_spec (hP : (rules k b call t).Stable P)
    (hset : ∀ s m, P s → P { s with notifyMutex := m }) :
    Triple (rules k b call t) P (unlock .notify) fun _ => P := by
  refine own_op (fun _ => hP) fun s _ hPs _ => ⟨.of_other (by simp) (by simp), fun _ s' he => ?_⟩
  obtain rfl : { s with notifyMutex := none } = s' := (Prod.mk.inj (Option.some.inj he)).2
  exact ⟨.setNotify none, hset s _ hPs⟩

end HostNotify
