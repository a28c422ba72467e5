import HostNotify.Delivery
import HostNotify.DrainLoop
import HostNotify.Modes

/-!
# The IRQ thread

`piix4_asf_irq_thread` under interference. It drains with the slave still listening; a drain
that reports a stuck bank is followed by a reset, or, if the region is busy, by giving up
listening. Once it has drained, no wakeup is lost: the line is still masked and the pending
flag is clear.
-/

namespace HostNotify

open Bits Interleaving

variable {k : Setting} {b : Board} {c c' : Control} {s s' : St} {t u : ℕ} {call : Call}
  {Q : St → Prop}

/-- The thread is the IRQ thread, before or after its critical section. -/
def Serving (t : ℕ) (served : Bool) (s : St) : Prop :=
  s.irq.running = some t ∧ s.irq.served = served

/-- That the IRQ thread serves says nothing about owed messages. -/
theorem serving_debtless {served : Bool} : Debtless t (Serving t served) := fun _ _ hk h =>
  ⟨(hk.thread h.1).1, (hk.thread h.1).2.trans h.2⟩

/-- While the IRQ thread runs, the block is claimed. -/
theorem Inv.serving {served : Bool} (h : Inv k b s) (ht : Serving t served s) :
    s.asf.active = true ∧ s.asf.smba = b.auxSmba ∧ s.asf.useMmio = true := by
  have hmasked : s.irq.masked = true := by simp [IrqLine.masked, ht.1]
  have hactive := h.requested (h.masked hmasked)
  exact ⟨hactive, h.claimed hactive⟩

/-! ## Control states of the thread -/

/-- A settled slave that listens may be drained. -/
theorem Control.Settled.ready (h : c.Settled k) (hlisten : c.listening = true) : c.Ready k :=
  ⟨hlisten, h.want hlisten, (h.armed hlisten).dataEn, h.kept, h.calm⟩

/-- A drain that finds no stuck bank leaves a settled slave. -/
theorem Control.Settled.drained {e : Bool} (h : c.Settled k) (hlisten : c.listening = true)
    (herred : k.firmware = false → k.muted = false → e = false) :
    (c.drained k false e).Settled k where
  released := h.released
  want := h.want
  armed hl := ⟨(h.armed hl).lisaddr, (h.armed hl).rst, (h.armed hl).intr, (h.armed hl).dataEn,
    (h.armed hl).mstr, (h.armed hl).clk⟩
  held hl hk := ⟨rfl, by simp [Control.drained, (h.held hl hk).2]⟩
  closed hl := absurd (hlisten.symm.trans hl) (by decide)
  silent hl := absurd (hlisten.symm.trans hl) (by decide)
  kept ht := by simp [Control.drained, ht]
  calm := h.calm
  flushed hk hm := by simp [Control.drained, h.flushed hk hm, herred hk hm]
  resetting := h.resetting

/-- A stuck bank without the region to reset the slave: the thread stops listening. -/
def Control.abandon (c : Control) : Control := (c.setListn false).setListening false

/-- Giving up is settled as long as nothing is claimed about the interrupt enable. -/
theorem Control.Settled.abandon {e : Bool} (h : c.Settled k) (hlisten : c.listening = true)
    (hwild : ¬ k.Tidy) (hbusy : ¬ (k.Resets ∨ (k.muted = false ∧ e = true))) :
    (c.drained k true e).abandon.Settled k where
  released := h.released
  want := nofun
  armed := nofun
  held := nofun
  closed _ _ := by simp [Control.abandon, Control.setListn, Control.setLisaddr, Control.setListening]
  silent _ _ hr := by
    rcases hr with hr | hno
    · exact absurd (Or.inl hr) hbusy
    · exact absurd ((h.want hlisten).symm.trans hno) (by decide)
  kept ht := absurd ht hwild
  calm := h.calm
  flushed hk hm := by
    have he : e = false := by
      cases e with
      | false => rfl
      | true => exact absurd (Or.inr ⟨hm, rfl⟩) hbusy
    have hold := h.flushed hk hm
    simp [Control.abandon, Control.setListn, Control.setLisaddr, Control.setListening,
      Control.drained, hold, he]
  resetting := nofun

/-- The slave taken off the bus for a reset. -/
def Control.pulled (c : Control) : Control := ((c.setHeld true).beginReset).setListn false

/-- A slave that has been pulled does not accept messages. -/
theorem Control.pulled_accepting (c : Control) : c.pulled.accepting = false := by
  simp [Control.pulled, Control.setListn, Control.setLisaddr, Control.accepting]

/-- Reset and armed again. -/
def Control.revived (c : Control) : Control :=
  ((c.setRst true).clearSlvSta).slaveArm

/-- After its reset, the slave is settled. -/
theorem Control.revived_settled (hlisten : c.listening = true) (hwant : c.want = true) :
    (c.revived.setHeld false).Settled k := by
  have harmed : c.revived.Armed := Control.slaveArm_armed _
  have hacc : ((c.setRst true).clearSlvSta).accepting = false := by
    simp [Control.accepting, Control.setRst, Control.clearSlvSta]
  unfold Control.revived at harmed ⊢
  rw [Control.slaveArm_eq, hacc] at harmed ⊢
  exact {
    released := rfl
    want := fun _ => hwant
    armed := fun _ => ⟨harmed.lisaddr, harmed.rst, harmed.intr, harmed.dataEn, harmed.mstr,
      harmed.clk⟩
    held := fun _ _ => ⟨rfl, rfl⟩
    closed := fun hl => absurd (hlisten.symm.trans hl) (by decide)
    silent := fun hl => absurd (hlisten.symm.trans hl) (by decide)
    kept := fun _ => rfl
    calm := fun _ => rfl
    flushed := fun _ _ => rfl
    resetting := fun _ => rfl }

/-! ## The wedge reset -/

/-- The drained slave passes its messages on: what the thread knows after a drain. -/
def Drawn (t : ℕ) (s : St) : Prop := Serving t false s ∧ Quieted .irqThread t s

/-- What is known after a drain says nothing about owed messages. -/
theorem drawn_debtless : Debtless t (Drawn t) := serving_debtless.and quieted_debtless

/-- Where the thread must get the region, it does. -/
theorem region_sure {e : Bool} (hk : k.Resets ∨ (k.muted = false ∧ e = true)) (hs : Inv k b s)
    (herred : e = true → s.ghost.erred = true)
    (hadm : k.admits .irqThread .requestMemRegionMuxed s = true) : s.world.regionBusy = false := by
  have hadm' : ((k.busyReset || !s.world.regionBusy) &&
    (k.muted || !s.ghost.erred || !s.world.regionBusy)) = true := hadm
  rw [Bool.and_eq_true] at hadm'
  rcases hk with (hbusy | hfails) | ⟨hmuted, he⟩
  · simpa [hbusy] using hadm'.1
  · exact (hs.world hfails).1
  · simpa [hmuted, herred he] using hadm'.2

/-- Where the thread must get the region mapped, it does. -/
theorem remap_sure {e : Bool} (hk : k.Resets ∨ (k.muted = false ∧ e = true)) (hs : Inv k b s)
    (herred : e = true → s.ghost.erred = true) (hadm : k.admits .irqThread .ioremap s = true) :
    s.world.ioremapFails = false := by
  have hadm' : ((k.busyReset || !s.world.ioremapFails) &&
    (k.muted || !s.ghost.erred || !s.world.ioremapFails)) = true := hadm
  rw [Bool.and_eq_true] at hadm'
  rcases hk with (hbusy | hfails) | ⟨hmuted, he⟩
  · simpa [hbusy] using hadm'.1
  · exact (hs.world hfails).2
  · simpa [hmuted, herred he] using hadm'.2

/-- What the drain of the thread leaves. -/
def ThreadDrained (k : Setting) (t : ℕ) (l : List ℕ) (s : St) : Prop :=
  ∃ c : Control, (c.Settled k ∧ c.want = true) ∧
    Holds k t c (fun s => Drawn t s ∧ Owes k t l s) s

/-- Resetting the slave and arming it again, with the region held. -/
theorem revive_spec {n : Notifies} (hheld : c.held = true) (hlisten : c.listening = true)
    (hwant : c.want = true) (hclear : c.Clear k call) :
    Triple (rules k b call t) (Holds k t c fun s => Drawn t s ∧ Owes k t n.addr s)
      (do
        piix4AsfUpdateIoport asfSlvRst (asfSlvEn b.auxSmba) true
        outb 0 (asfSlvSta b.auxSmba)
        piix4AsfSlaveArm b.auxSmba
        piix4Sb800RegionRelease (← piix4Asf).useMmio
        pure n)
      fun n' => ThreadDrained k t n'.addr := by
  have hprivate : Private t fun s => Drawn t s ∧ Owes k t n.addr s :=
    drawn_debtless.private.and (owes_private _)
  refine Triple.bind (setRst_spec hprivate (hclear.spares _)) fun _ => ?_
  refine Triple.bind (clearSlvSta_spec hprivate) fun _ => ?_
  refine Triple.bind (slaveArm_spec hprivate hheld fun _ => rfl) fun _ => ?_
  refine Triple.bind (asf_spec (F := fun a => a.useMmio = true) (stable_holds hprivate)
    fun s hs hP => (hs.serving hP.2.1.1).2.2) fun a => Triple.pure_pre fun hmmio => ?_
  rw [hmmio]
  exact Triple.bind (holdsRelease_spec hprivate hheld) fun _ => Triple.ret fun s _ h =>
    ⟨c.revived.setHeld false, ⟨Control.revived_settled hlisten hwant, hwant⟩, h⟩

/-- The second drain, of a slave that has been taken off the bus. -/
theorem drainPulled_spec (hready : c.Ready k) (hacc : c.accepting = false) (hheld : c.held = true)
    (hwild : ¬ k.Tidy) (n : Notifies) :
    Triple (rules k b .irqThread t) (Holds k t c fun s => Drawn t s ∧ Owes k t n.addr s)
      (piix4AsfDrain b.auxSmba n) fun r s => ∃ c' : Control,
        ((c'.held = true ∧ c'.listening = true ∧ c'.want = true) ∧ c'.Clear k .irqThread) ∧
          Holds k t c' (fun s => Drawn t s ∧ Owes k t r.2.addr s) s := by
  refine Triple.post (drain_spec drawn_debtless hready n (fun s hs _ => hs.1.1)
    (fun ht => absurd ht hwild) (Nat.le_refl _)) fun r s _ h => ?_
  obtain ⟨⟨hwedge, _⟩, e, _, hholds⟩ := h
  exact ⟨c.drained k r.1 e, ⟨⟨hheld, hready.listening, hready.want⟩,
    Control.clear_drained hacc hwedge⟩, hholds.1, hholds.2.1.1.1, hholds.2.1.2⟩

/-- The wedge branch of `piix4_asf_irq_thread`. -/
theorem resetWedged_spec {e : Bool} (hc : c.Settled k) (hlisten : c.listening = true)
    (hwild : ¬ k.Tidy) (n : Notifies) :
    Triple (rules k b .irqThread t)
      (Holds k t (c.drained k true e) fun s => Drawn t s ∧ Owes k t n.addr s)
      (resetWedged b.auxSmba n) fun n' => ThreadDrained k t n'.addr := by
  have hwant := hc.want hlisten
  have hprivate : Private t fun s => Drawn t s ∧ Owes k t n.addr s :=
    drawn_debtless.private.and (owes_private _)
  unfold resetWedged
  refine Triple.bind (asf_spec (F := fun a => a.useMmio = true) (stable_holds hprivate)
    fun s hs hP => (hs.serving hP.2.1.1).2.2) fun a => Triple.pure_pre fun hmmio => ?_
  rw [hmmio]
  refine Triple.bind (holdsRequest_spec hprivate hc.released
    (fun hk s hs hP hadm => region_sure hk hs (hP.1.sees (Or.inr hwant)).record.erred hadm)
    fun hk s hs hP hadm => remap_sure hk hs (hP.1.sees (Or.inr hwant)).record.erred hadm)
    fun r => ?_
  by_cases hr : r = 0
  · rw [if_pos hr]
    refine Triple.pre (P := Holds k t ((c.drained k true e).setHeld true)
      fun s => Drawn t s ∧ Owes k t n.addr s) ?_ fun s _ h => (h.resolve_right fun h' => h'.1 hr).2
    have hready : (c.drained k true e).pulled.Ready k :=
      ⟨hlisten, hwant, (hc.armed hlisten).dataEn, fun ht => absurd ht hwild, hc.calm⟩
    refine Triple.bind (wedgeReset_spec hprivate) fun _ => ?_
    refine Triple.bind (updateListn_spec hprivate false) fun _ => ?_
    refine Triple.bind (drainPulled_spec hready (Control.pulled_accepting _) rfl hwild n)
      fun y => Triple.exists_pre fun c' => Triple.pure_pre fun h' => ?_
    exact revive_spec h'.1.1 h'.1.2.1 h'.1.2.2 h'.2
  · rw [if_neg hr]
    refine Triple.pre (P := fun s => ¬ (k.Resets ∨ (k.muted = false ∧ e = true)) ∧
      Holds k t (c.drained k true e) (fun s => Drawn t s ∧ Owes k t n.addr s) s) ?_
      fun s _ h => (h.resolve_left fun h' => hr h'.1).2
    refine Triple.pure_pre fun hbusy => ?_
    refine Triple.bind (updateListn_spec hprivate false) fun _ => ?_
    refine Triple.bind (setListening_spec hprivate false nofun) fun _ => Triple.ret fun s _ h => ?_
    exact ⟨(c.drained k true e).abandon, ⟨hc.abandon hlisten hwild hbusy, hwant⟩, h⟩

/-- The whole drain of the thread. -/
theorem drainThread_spec (hc : c.Settled k) (hlisten : c.listening = true) :
    Triple (rules k b .irqThread t) (Holds k t c fun s => Serving t false s ∧ Owes k t [] s)
      (drainThread b.auxSmba) fun n => ThreadDrained k t n.addr := by
  have hpasses : c.passes ≤ 6 := by
    unfold Control.passes
    split <;> decide
  have hcap : k.Tidy → Notifies.none.addr.length + c.passes ≤ 6 := fun _ => by
    rw [Nat.add_comm]
    exact hpasses
  have hlater : k.Tidy → Bounded k c := fun ht => ht.bounded
  unfold drainThread
  refine Triple.bind (drain_spec serving_debtless (hc.ready hlisten) Notifies.none
    (fun s hs _ => hs.1) hcap (by decide)) fun r => Triple.pure_pre fun hr =>
      Triple.exists_pre fun e => Triple.pure_pre fun he => ?_
  obtain ⟨w, n⟩ := r
  cases w with
  | true =>
    have hwild : ¬ k.Tidy := fun ht => Bool.noConfusion (hr.1 (hlater ht))
    exact Triple.pre (resetWedged_spec hc hlisten hwild n) fun s _ h => ⟨h.1, h.2.1⟩
  | false =>
    refine Triple.ret fun s _ h => ⟨c.drained k false e, ⟨hc.drained hlisten fun hk hm => ?_,
      hc.want hlisten⟩, h.1, h.2.1⟩
    exact he rfl hm (hc.resetting hlisten) rfl

/-! ## The end of the critical section -/

/-- The state once the IRQ thread has passed its critical section. -/
def St.serve (s : St) : St := { s with irq := { s.irq with served := true } }

/-- To another thread the mark of the IRQ thread is a foreign step. -/
theorem foreign_serve (hm : s.mutex = some t) (hrun : s.irq.running = some t) (hu : u ≠ t) :
    Foreign k u s s.serve where
  holder := id
  block h _ := absurd (Option.some.inj (h.symm.trans hm)) hu
  region hr := ⟨hr, rfl, rfl⟩
  owed := rfl
  owner ho := ⟨ho, rfl⟩
  thread hr := absurd (Option.some.inj (hr.symm.trans hrun)) hu
  quiet _ hp := hp
  aux := id
  plain _ hp := hp
  unlocked := id
  delivering _ hd := hd

/-- The mark of the IRQ thread keeps the invariant. -/
theorem Inv.serve (h : Inv k b s) (hm : s.mutex = some t) : Inv k b s.serve where
  idle hnone := by
    have hfree : s.mutex = none := hnone
    rw [hm] at hfree
    cases hfree
  core := h.core
  masked := h.masked
  deaf := h.deaf
  alone := h.alone
  unregistered := h.unregistered
  plain := h.plain
  owned := h.owned
  locked := h.locked
  world := h.world
  sound hk := ⟨(h.sound hk).errorless, (h.sound hk).unstuck⟩
  intact ht := (h.intact ht).congr (fun _ => rfl) rfl rfl rfl (h.intact ht).reset

/-- The signal of a message is not the pending flag once the thread has taken it. -/
theorem View.serve (h : View k (some t) c s)
    (hquiet : c.listening = true → s.asf.pending = false) : View k (some t) c s.serve where
  holder := h.holder
  engaged := h.engaged
  listening := h.listening
  want := h.want
  held := h.held
  fresh := h.fresh
  sees hk := by
    have hsees := h.sees hk
    exact {
      regs := ⟨hsees.regs.lisaddr, hsees.regs.rst, hsees.regs.dataEn, hsees.regs.mstr,
        hsees.regs.clk, hsees.regs.intrOn, hsees.regs.intrOff⟩
      record := hsees.record
      signalled := fun hc ha hl i hi => by
        rcases hsees.signalled hc ha hl i hi with hsta | ⟨hpending, _⟩
        · exact Or.inl hsta
        · exact absurd (hpending.symm.trans (hquiet hl)) (by decide)
      empty := hsees.empty
      kept := hsees.kept
      calm := fun hc => ⟨(hsees.calm hc).rdptr, (hsees.calm hc).reading, (hsees.calm hc).got⟩ }

/-- The IRQ thread leaves its critical section with the signals it has taken. -/
theorem served_spec {l : List ℕ} (hrun : ∀ s, Q s → Serving t false s)
    (hquiet : c.listening = true → ∀ s, Q s → s.asf.pending = false) :
    Triple (rules k b call t) (Holds k t c fun s => Q s ∧ Owes k t l s) (mark .served)
      fun _ => Holds k t c fun s => Serving t true s ∧ Owes k t l s := by
  refine Triple.perform
    (fun _ => stable_holds (serving_debtless.private.and (owes_private l)))
    fun s hs hP _ => ⟨.of_other (by simp) (by simp), fun _ s' he => ?_⟩
  obtain rfl : s.serve = s' := (Prod.mk.inj (Option.some.inj he)).2
  have hserving := hrun s hP.2.1
  exact ⟨fun u hu => Or.inr (foreign_serve hP.1.holder hserving.1 hu), hs.serve hP.1.holder,
    hP.1.serve fun hl => hquiet hl s hP.2.1, ⟨hserving.1, rfl⟩, hP.2.2⟩

/-- The state after the IRQ thread has returned. -/
def St.idled (s : St) : St := { s with irq := { s.irq with running := none } }

/-- The end of the IRQ thread leaves the block alone. -/
theorem sameBlock_idled (h : Serving t true s) : SameBlock s s.idled where
  hw := rfl
  mode hm := ⟨hm, rfl, rfl⟩
  listening := rfl
  want := rfl
  pending := rfl
  engaged := rfl
  due := by simp [IrqLine.due, St.idled, h.2]
  drain := rfl
  debt := rfl
  flushed := rfl
  erred := rfl
  resetting := rfl

/-- To another thread the end of the IRQ thread is a foreign step. -/
theorem foreign_idled (h : Serving t true s) (hu : u ≠ t) : Foreign k u s s.idled where
  holder := id
  block _ _ := sameBlock_idled h
  region hr := ⟨hr, rfl, rfl⟩
  owed := rfl
  owner ho := ⟨ho, rfl⟩
  thread hr := absurd (Option.some.inj (hr.symm.trans h.1)) hu
  quiet _ hp := hp
  aux := id
  plain _ hp := hp
  unlocked := id
  delivering _ hd := hd

/-- The end of the IRQ thread keeps the invariant. -/
theorem Inv.idled (h : Inv k b s) (hs : Serving t true s) (hfree : s.mutex ≠ some t) :
    Inv k b s.idled where
  idle hnone hactive := by
    obtain ⟨c, hset, hview⟩ := h.idle hnone hactive
    exact ⟨c, hset, hview.of_sameBlock (sameBlock_idled hs) rfl fun _ => rfl⟩
  core := h.core
  masked _ := h.masked (by simp [IrqLine.masked, hs.1])
  deaf := h.deaf
  alone hen := by
    have hbusy : s.irq.masked = true := by simp [IrqLine.masked, hs.1]
    exact absurd (hbusy.symm.trans (h.alone hen).2) (by decide)
  unregistered := h.unregistered
  plain := h.plain
  owned := h.owned
  locked u hu := by
    refine (h.locked u hu).imp id fun h' => h'.imp (fun hr => ?_) id
    have hsame : u = t := Option.some.inj (hr.symm.trans hs.1)
    exact absurd (hsame ▸ hu) hfree
  world := h.world
  sound hk := ⟨(h.sound hk).errorless, (h.sound hk).unstuck⟩
  intact ht := (h.intact ht).congr (fun _ => rfl) rfl rfl rfl (h.intact ht).reset

/-- Returning from the IRQ thread. -/
theorem irqThreadDone_spec :
    Triple (rules k b call t)
      (fun s => Outside t (Serving t true) s ∧ (k.Tidy → s.ghost.owed t = []))
      (perform .irqThreadDone) fun _ s => k.Tidy → s.ghost.owed t = [] := by
  refine Triple.perform (fun _ => stable_private owesNothing_private) fun s hs hP _ =>
    ⟨.of_other (by simp) (by simp), fun _ s' he => ?_⟩
  obtain rfl : s.idled = s' := (Prod.mk.inj (Option.some.inj he)).2
  exact ⟨fun u hu => Or.inr (foreign_idled hP.1.1 hu), hs.idled hP.1.1 hP.1.2, hP.2⟩

/-! ## The call -/

/-- `piix4_asf_irq_thread` hands over all the messages it takes. -/
theorem piix4AsfIrqThread_spec :
    Triple (rules k b .irqThread t) (fun s => Serving t false s ∧ Owes k t [] s)
      piix4AsfIrqThread fun _ s =>
        Outside t (Serving t true) s ∧ (k.Tidy → s.ghost.owed t = []) := by
  have hprivate : Private t fun s => Serving t false s ∧ Owes k t [] s :=
    serving_debtless.private.and (owes_private _)
  unfold piix4AsfIrqThread
  refine Triple.bind (asf_spec (F := fun a => a.smba = b.auxSmba) (stable_private hprivate)
    fun s hs hP => (hs.serving hP.1).2.1) fun a => Triple.pure_pre fun hsmba => ?_
  rw [hsmba]
  have hlock : Triple (rules k b .irqThread t) (fun s => Serving t false s ∧ Owes k t [] s)
      (lock .asf) fun _ s => ∃ c : Control, c.Settled k ∧
        Holds k t c (fun s => Serving t false s ∧ Owes k t [] s) s := by
    refine lock_spec (Discipline.Stable.exists fun _ => (Discipline.Stable.const _).and
      (stable_holds hprivate)) (fun s h => Or.inr (Or.inl h.1.1)) fun s hs h hfree => ?_
    obtain ⟨c, hset, hview⟩ := hs.settled hfree (hs.serving h.1).1 t
    exact ⟨c, hset, hview, h⟩
  refine Triple.bind hlock fun _ => Triple.exists_pre fun c => Triple.pure_pre fun hc => ?_
  refine Triple.bind (asf_spec (F := fun a => a.listening = c.listening) (stable_holds hprivate)
    fun s _ hP => hP.1.listening) fun a => Triple.pure_pre fun hlisten => ?_
  rw [hlisten]
  cases hl : c.listening with
  | false =>
    refine Triple.bind (served_spec (fun _ h => h) fun hyes => ?_)
      fun _ => ?_
    · exact absurd (hyes.symm.trans hl) (by decide)
    · exact Triple.post (unlock_spec ((stable_outside serving_debtless.private).and
        (stable_private owesNothing_private)) (fun s h => h.1.holder) (fun s _ h _ => ⟨c, hc, h.1⟩)
        fun s _ h => ⟨⟨h.2.1, nofun⟩, h.2.2.nil⟩) fun _ _ _ h => h
  | true =>
    refine Triple.bind (drainThread_spec hc hl) fun n => Triple.exists_pre fun c' =>
      Triple.pure_pre fun hc' => ?_
    refine Triple.bind (served_spec (fun _ h => h.1)
      fun _ s h => (h.2 rfl).2) fun _ => ?_
    refine Triple.bind (unlockDue_spec serving_debtless.private hc'.1 n.addr fun hno => ?_)
      fun _ => deliver_spec serving_debtless n
    exact absurd (hc'.2.symm.trans hno) (by decide)

end HostNotify
