import HostNotify.CoreSteps

/-!
# Start, stop, suspend and resume

The callbacks that act on a claimed block. Each takes the mutex, finds a settled view and
leaves one, with the region or without it.
-/

namespace HostNotify

open Bits Interleaving

variable {k : Setting} {b : Board} {c : Control} {s s' : St} {t u : ℕ} {call : Call}
  {F G : CoreView → Prop}

/-! ## Entering and leaving -/

/-- The view records what a read of the driver's global returned. -/
def CoreView.Reads (v : CoreView) (a : Piix4Asf) : Prop :=
  v.asf = { a with listening := false, pending := false }

/-- The claim is read off the driver's global. -/
theorem CoreView.Reads.active {v : CoreView} {a : Piix4Asf} (h : v.Reads a) :
    v.asf.active = a.active := by rw [h]

/-- The base address is read off the driver's global. -/
theorem CoreView.Reads.smba {v : CoreView} {a : Piix4Asf} (h : v.Reads a) :
    v.asf.smba = a.smba := by rw [h]

/-- Reading the driver's global in a callback. -/
theorem readCalling_spec :
    Triple (rules k b call t) (Calling t F) piix4Asf
      fun a => Calling t fun v => F v ∧ v.Reads a := by
  refine own_op (fun _ => stable_calling) fun s _ hP _ =>
    ⟨.of_other (by simp) (by simp), fun a s' he => ?_⟩
  obtain ⟨rfl, rfl⟩ := Prod.mk.inj (Option.some.inj he)
  exact ⟨OwnStep.refl s, hP.mono fun hF => ⟨hF, rfl⟩⟩

/-- A callback that first looks whether the block is claimed. -/
theorem ifActive_spec {p : ℕ → Driver Unit} {R : St → Prop}
    (hidle : ∀ s, Inv k b s → Calling t (fun v => F v ∧ v.asf.active = false) s → R s)
    (hp : Triple (rules k b call t) (Calling t fun v => F v ∧ v.asf.active = true)
      (p b.auxSmba) fun _ => R) :
    Triple (rules k b call t) (Calling t F)
      (do
        let smba := (← piix4Asf).smba
        if !(← piix4Asf).active then pure ()
        else p smba) fun _ => R := by
  refine Triple.bind readCalling_spec fun a => Triple.bind readCalling_spec fun a' => ?_
  cases ha : a'.active with
  | false =>
    rw [if_pos (by rfl)]
    exact Triple.ret fun s hs h => hidle s hs (h.mono fun hF => ⟨hF.1.1, hF.2.active.trans ha⟩)
  | true =>
    rw [if_neg (by decide)]
    refine Triple.learn (φ := a.smba = b.auxSmba) (fun s hs h => ?_) fun hsmba => ?_
    · have hactive : s.coreView.asf.active = true := h.1.2.2.active.trans ha
      exact h.1.2.1.2.smba.symm.trans (hs.core.claimed hactive).1
    · rw [hsmba]
      exact Triple.pre hp fun s _ h => h.mono fun hF => ⟨hF.1.1, hF.2.active.trans ha⟩

/-- Taking the mutex of a claimed block. -/
theorem lockCalling_spec (hF : ∀ v, F v → v.asf.active = true) :
    Triple (rules k b call t) (Calling t F) (lock .asf) fun _ s =>
      ∃ c : Control, c.Settled k ∧ Holds k t c (Owning t F) s := by
  refine lock_spec (Discipline.Stable.exists fun _ => (Discipline.Stable.const _).and
    (stable_holds owning_debtless.private)) (fun _ h => Or.inr (Or.inr h.1.1)) fun s hs h hfree => ?_
  obtain ⟨c, hset, hview⟩ := hs.settled hfree (hF _ h.1.2) t
  exact ⟨c, hset, hview, h.1⟩

/-- Giving the mutex up after the block has settled. -/
theorem unlockCalling_spec (hc : c.Settled k) :
    Triple (rules k b call t) (Holds k t c (Owning t F)) (unlock .asf) fun _ => Calling t F :=
  unlock_spec stable_calling (fun _ h => h.1.holder) (fun _ _ h _ => ⟨c, hc, h.1⟩)
    fun _ _ h => ⟨h.2, nofun⟩

/-- While a callback holds the mutex of a claimed block, the block is accessed over MMIO. -/
theorem readMmio_spec (hF : ∀ v, F v → v.asf.active = true) :
    Triple (rules k b call t) (Holds k t c (Owning t F)) piix4Asf fun a s =>
      a.useMmio = true ∧ Holds k t c (Owning t F) s :=
  asf_spec (stable_holds owning_debtless.private) fun _ hs hP => (hs.claimed (hF _ hP.2.2)).2

/-! ## Quiesce and stop -/

/-- A silenced slave is settled. -/
theorem Control.settled_silence (hheld : c.held = false) : c.silence.Settled k := by
  rw [Control.silence_eq]
  exact {
    released := hheld
    want := nofun
    armed := nofun
    held := nofun
    closed := fun _ _ => by simp
    silent := fun _ _ _ => ⟨rfl, rfl, rfl⟩
    kept := fun _ => rfl
    calm := fun _ => rfl
    flushed := fun _ _ => rfl
    resetting := nofun }

/-- A slave in master mode is settled where nobody listens. -/
theorem Control.settled_masterMode (hlisten : c.listening = false) :
    (c.masterMode.setHeld false).Settled k := by
  rw [Control.masterMode_eq]
  exact {
    released := rfl
    want := fun hl => absurd (hl.symm.trans hlisten) (by decide)
    armed := fun hl => absurd (hl.symm.trans hlisten) (by decide)
    held := fun hl => absurd (hl.symm.trans hlisten) (by decide)
    closed := fun _ _ => by simp [Control.setHeld]
    silent := fun _ _ _ => ⟨rfl, rfl, rfl⟩
    kept := fun _ => rfl
    calm := fun _ => rfl
    flushed := fun _ _ => rfl
    resetting := fun hl => absurd (hl.symm.trans hlisten) (by decide) }

/-- A call that may discard messages resets the slave without a check. -/
theorem Spares.of_teardown (hwild : ¬ k.Tidy) (hserv : call.service = false) (Q : St → Prop) :
    Spares k call c Q :=
  ⟨fun ht => absurd ht hwild, fun hg => absurd (hg.2.2.symm.trans hserv) (by decide)⟩

/-- The view after `want_listen` has been cleared. -/
def CoreView.unwant (v : CoreView) : CoreView := { v with asf := { v.asf with wantListen := false } }

/-- A lawful view is lawful after nothing is wanted any more. -/
theorem CoreView.Lawful.unwant {v : CoreView} (h : v.Lawful k b) : v.unwant.Lawful k b where
  claimed := h.claimed
  requested := h.requested
  freed := h.freed
  inactive _ := rfl
  enabling _ := rfl
  unbound := h.unbound
  asleep _ := rfl
  fresh hk hs := ⟨rfl, (h.fresh hk hs).2⟩
  delivering _ hw := Bool.noConfusion hw

/-- `piix4_asf_quiesce` takes the intent back. -/
theorem quiesce_spec (hwild : ¬ k.Tidy) (hserv : call.service = false) (hheld : c.held = false)
    (hF : ∀ v, F v → G v.unwant) :
    Triple (rules k b call t) (Holds k t c (Owning t F)) (piix4AsfQuiesce b.auxSmba)
      fun _ s => ∃ c' : Control, (c'.Settled k ∧ c'.listening = false) ∧
        Holds k t c' (Owning t G) s := by
  have hQ : Private t (Owning t G) := owning_debtless.private
  unfold piix4AsfQuiesce
  refine Triple.bind (setWant_spec hheld fun v hv hFv => ⟨hv.unwant, hF v hFv⟩) fun _ =>
    Triple.exists_pre fun d => Triple.pure_pre fun hd => ?_
  refine Triple.bind (updateListn_spec hQ false) fun _ => ?_
  refine Triple.bind (updateIntr_spec hQ false fun hg _ => ?_) fun _ => ?_
  · exact absurd (hg.2.2.symm.trans hserv) (by decide)
  refine Triple.bind (setRst_spec hQ (.of_teardown hwild hserv _)) fun _ => ?_
  refine Triple.bind (clearStatus_spec hQ) fun _ => ?_
  refine Triple.bind (setListening_spec hQ false nofun) fun _ => ?_
  have hend : Triple (rules k b call t) (Holds k t d.silence (Owning t G))
      (setAsf fun a => { a with pending := false }) fun _ s => ∃ c' : Control,
        (c'.Settled k ∧ c'.listening = false) ∧ Holds k t c' (Owning t G) s := by
    have hlisten : d.silence.listening = false := by rw [Control.silence_eq]
    exact Triple.post (clearPending_spec hQ fun _ => Or.inr hlisten) fun _ s _ h =>
      ⟨d.silence, ⟨Control.settled_silence (hd.held.trans hheld), hlisten⟩, h⟩
  refine Triple.bind (asf_spec (F := fun _ => True) (stable_holds hQ) fun _ _ _ => trivial)
    fun a => Triple.pure_pre fun _ => ?_
  cases a.irqRequested with
  | true => exact Triple.bind (synchronizeHardirq_spec hQ) fun _ => hend
  | false => exact hend

/-- The part of `piix4_asf_stop` under the mutex. -/
theorem stopLocked_spec (hwild : ¬ k.Tidy) (hserv : call.service = false) (hc : c.Settled k)
    (hF : ∀ v, F v → G v.unwant) (hactive : ∀ v, G v → v.asf.active = true) :
    Triple (rules k b call t) (Holds k t c (Owning t F)) (stopLocked b.auxSmba)
      fun _ s => ∃ c' : Control, c'.Settled k ∧ Holds k t c' (Owning t G) s := by
  have hQ : Private t (Owning t G) := owning_debtless.private
  unfold stopLocked
  refine Triple.bind (quiesce_spec hwild hserv hc.released hF) fun _ => Triple.exists_pre fun d =>
    Triple.pure_pre fun hd => ?_
  refine Triple.bind (readMmio_spec hactive) fun a => Triple.pure_pre fun hmmio => ?_
  rw [hmmio]
  refine Triple.bind (tryRequest_spec hQ hd.1.released) fun r => ?_
  by_cases hr : r = 0
  · rw [if_pos hr]
    refine Triple.pre (P := Holds k t (d.setHeld true) (Owning t G)) ?_ fun s _ h =>
      (h.resolve_right fun h' => h'.1 hr).2
    refine Triple.bind (masterMode_spec hQ rfl (.of_teardown hwild hserv _)) fun _ => ?_
    refine Triple.bind (readMmio_spec hactive) fun a => Triple.pure_pre fun hmmio => ?_
    rw [hmmio]
    have hset : ((d.setHeld true).masterMode.setHeld false).Settled k :=
      Control.settled_masterMode hd.2
    exact Triple.post (holdsRelease_spec hQ rfl) fun _ s _ h => ⟨_, hset, h⟩
  · rw [if_neg hr]
    exact Triple.ret fun s _ h => ⟨d, hd.1, (h.resolve_left fun h' => hr h'.1).2⟩

/-- A callback that neither claims the block nor has it claimed by another. -/
def Stopped (active : Bool) (v : CoreView) : Prop :=
  (v.enabling = false ∧ v.asf.active = active) ∧ v.asf.wantListen = false ∧ v.requested = false

/-- A lawful view is lawful without the IRQ. -/
theorem CoreView.Lawful.release {v : CoreView} (h : v.Lawful k b) :
    ({ v with requested := false } : CoreView).Lawful k b where
  claimed := h.claimed
  requested := nofun
  freed := nofun
  inactive := h.inactive
  enabling := h.enabling
  unbound := h.unbound
  asleep := h.asleep
  fresh := h.fresh
  delivering := h.delivering

/-- `piix4_asf_stop` of a claimed block. -/
theorem stopActive_spec (hwild : ¬ k.Tidy) (hserv : call.service = false) :
    Triple (rules k b call t)
      (Calling t fun v => v.enabling = false ∧ v.asf.active = true)
      (do
        lock .asf
        stopLocked b.auxSmba
        unlock .asf
        if (← piix4Asf).irqRequested then
          perform .freeIrq
          setAsf fun a => { a with irqRequested := false }
        lock .notify
        perform (.setDeliverOk false)
        unlock .notify)
      fun _ => Calling t (Stopped true) := by
  refine Triple.bind (lockCalling_spec fun v h => h.2) fun _ => Triple.exists_pre fun c =>
    Triple.pure_pre fun hc => ?_
  refine Triple.bind (stopLocked_spec
    (G := fun v => (v.enabling = false ∧ v.asf.active = true) ∧ v.asf.wantListen = false)
    hwild hserv hc (fun v h => ⟨h, rfl⟩) fun v h => h.1.2) fun _ => Triple.exists_pre fun d =>
      Triple.pure_pre fun hd => ?_
  refine Triple.bind (unlockCalling_spec hd) fun _ => ?_
  have hnotify : Triple (rules k b call t) (Calling t (Stopped true))
      (do
        lock .notify
        perform (.setDeliverOk false)
        unlock .notify) fun _ => Calling t (Stopped true) := by
    have hset : ∀ (s : St) m, Calling t (Stopped true) s →
        Calling t (Stopped true) { s with notifyMutex := m } := fun s m h => h
    refine Triple.bind (lockNotify_spec stable_calling hset) fun _ => ?_
    refine Triple.bind (setDeliverOk_spec (G := Stopped true) (fun ht => absurd ht hwild)
      fun v hv hF => ⟨?_, hF⟩) fun _ => unlockNotify_spec stable_calling hset
    exact ⟨hv.claimed, hv.requested, hv.freed, hv.inactive, hv.enabling, hv.unbound, hv.asleep,
      hv.fresh, fun ht => absurd ht hwild⟩
  refine Triple.bind readCalling_spec fun a => ?_
  cases ha : a.irqRequested with
  | true =>
    refine Triple.bind (freeIrq_spec (G := Stopped true) fun v hv hF =>
      ⟨hv.release, ⟨hF.1.1, hF.1.2, rfl⟩⟩) fun _ => ?_
    refine Triple.bind (setCalling_spec (G := Stopped true)
      (g := fun v => { v with asf := { v.asf with irqRequested := false } }) (fun _ => ⟨rfl, rfl, rfl, rfl⟩)
      (fun _ => rfl) fun v hv hF => ⟨?_, hF⟩) fun _ => hnotify
    have hnone : v.requested = false := hF.2.2
    exact ⟨hv.claimed, hv.requested, fun hr => absurd (hr.symm.trans hnone) (by decide), hv.inactive,
      hv.enabling, hv.unbound, hv.asleep, hv.fresh, hv.delivering⟩
  | false =>
    refine Triple.pre hnotify fun s hs h => h.mono fun hF => ⟨hF.1.1, hF.1.2, ?_⟩
    cases hr : s.coreView.requested with
    | false => rfl
    | true =>
      have hirq : s.coreView.asf.irqRequested = false := by
        rw [hF.2]
        exact ha
      rcases hs.core.freed hr with hyes | hen
      · exact absurd (hyes.symm.trans hirq) (by decide)
      · exact absurd (hen.symm.trans hF.1.1.1) (by decide)

/-- `piix4_asf_stop` leaves a callback that does not probe where it was. -/
theorem piix4AsfStop_spec (hwild : ¬ k.Tidy) (hserv : call.service = false) :
    Triple (rules k b call t) (Calling t fun v => v.enabling = false) piix4AsfStop
      fun _ => Calling t fun v => v.enabling = false := by
  refine Triple.bind ?_ fun _ => noteCalling_spec trivial nofun
  refine ifActive_spec (p := fun smba => do
    lock .asf
    stopLocked smba
    unlock .asf
    if (← piix4Asf).irqRequested then
      perform .freeIrq
      setAsf fun a => { a with irqRequested := false }
    lock .notify
    perform (.setDeliverOk false)
    unlock .notify) (fun s _ h => h.mono fun hF => hF.1) ?_
  exact Triple.post (stopActive_spec hwild hserv) fun _ s _ h => h.mono fun hF => hF.1.1

/-! ## Start -/

/-- The view after `want_listen` has been set. -/
def CoreView.withWant (v : CoreView) : CoreView := { v with asf := { v.asf with wantListen := true } }

/-- Setting `want_listen` keeps a settled slave settled. -/
theorem Control.Settled.wanted {d : Control} (hc : c.Settled k) (hd : c.Wants k true d) :
    d.Settled k := by
  have hlisten : d.listening = true → d = c.setWant true := fun hl =>
    hd.known (Or.inr (hc.want (hd.listening.symm.trans hl)))
  exact {
    released := hd.held.trans hc.released
    want := fun _ => hd.want
    armed := fun hl => by
      have harmed := hc.armed (hd.listening.symm.trans hl)
      rw [hlisten hl]
      exact ⟨harmed.lisaddr, harmed.rst, harmed.intr, harmed.dataEn, harmed.mstr, harmed.clk⟩
    held := fun hl hk => by
      rw [hlisten hl]
      exact hc.held (hd.listening.symm.trans hl) hk
    closed := fun hl hk => by
      rw [hd.known (Or.inl hk)]
      exact hc.closed (hd.listening.symm.trans hl) hk
    silent := fun hl hk hr => by
      have hresets : k.Resets := hr.resolve_right fun hno =>
        absurd (hd.want.symm.trans hno) (by decide)
      have hsilent := hc.silent (hd.listening.symm.trans hl) hk (Or.inl hresets)
      rw [hd.known (Or.inl hk)]
      exact ⟨hsilent.intr, hsilent.clean, hsilent.debt⟩
    kept := fun ht => by
      rw [hd.known (Or.inl ht.known)]
      exact hc.kept ht
    calm := fun hk => by
      rw [hd.known (Or.inl hk)]
      exact hc.calm hk
    flushed := fun hk hm => by
      rw [hd.known (Or.inl hk)]
      exact hc.flushed hk hm
    resetting := fun hl => by
      rw [hlisten hl]
      exact hc.resetting (hd.listening.symm.trans hl) }

/-- What a settled slave nobody wanted to listen gives once somebody does. -/
theorem Control.Settled.unarmed {d : Control} (hc : c.Settled k) (hd : c.Wants k true d)
    (hwant : c.want = false) (hk : k.firmware = false) :
    (d.clean = true ∧ d.debt = false) ∧ d.accepting = false := by
  have hlisten : c.listening = false := by
    cases hl : c.listening with
    | false => rfl
    | true => exact absurd ((hc.want hl).symm.trans hwant) (by decide)
  have hsilent := hc.silent hlisten hk (Or.inr hwant)
  have hclosed := hc.closed hlisten hk
  rw [hd.known (Or.inl hk)]
  exact ⟨⟨hsilent.clean, hsilent.debt⟩, by simp [Control.setWant, Control.accepting, hclosed]⟩

/-- What start and resume know when they set `want_listen`. -/
structure Beginning (k : Setting) (v : CoreView) : Prop where
  active : v.asf.active = true
  enabling : v.enabling = false
  asleep : v.asleep = false
  started : k.restart = false → v.started = true
  unwanted : k.restart = false → v.asf.wantListen = false
  delivering : k.Tidy → v.deliverOk = true ∧ v.auxAdapter = true

/-- A lawful view is lawful once listening is wanted. -/
theorem Beginning.lawful {v : CoreView} (h : Beginning k v) (hv : v.Lawful k b) :
    v.withWant.Lawful k b where
  claimed := hv.claimed
  requested := hv.requested
  freed := hv.freed
  inactive hno := absurd (h.active.symm.trans hno) (by decide)
  enabling hen := absurd (hen.symm.trans h.enabling) (by decide)
  unbound := hv.unbound
  asleep ha := absurd (ha.symm.trans h.asleep) (by decide)
  fresh hk hs := absurd ((h.started hk).symm.trans hs) (by decide)
  delivering ht _ := h.delivering ht

/-- A callback that has set `want_listen`. -/
def Begun (v : CoreView) : Prop := v.asf.active = true ∧ v.enabling = false

/-- The part of `piix4_asf_start` under the mutex. -/
theorem startLocked_spec (hc : c.Settled k) (hwant : k.restart = false → c.want = false) :
    Triple (rules k b call t) (Holds k t c (Owning t (Beginning k))) (startLocked b.auxSmba)
      fun _ s => ∃ c' : Control, c'.Settled k ∧ Holds k t c' (Owning t Begun) s := by
  have hQ : Private t (Owning t Begun) := owning_debtless.private
  unfold startLocked
  refine Triple.bind (setWant_spec (F := Beginning k) (G := Begun) hc.released fun v hv hF =>
    ⟨hF.lawful hv, hF.active, hF.enabling⟩) fun _ => Triple.exists_pre fun d =>
      Triple.pure_pre fun hd => ?_
  refine Triple.bind (readMmio_spec fun v h => h.1) fun a => Triple.pure_pre fun hmmio => ?_
  rw [hmmio]
  refine Triple.bind (tryRequest_spec hQ (hd.held.trans hc.released)) fun r => ?_
  by_cases hr : r = 0
  · rw [if_pos hr]
    refine Triple.pre (P := Holds k t (d.setHeld true) (Owning t Begun)) ?_ fun s _ h =>
      (h.resolve_right fun h' => h'.1 hr).2
    have hready : k.Rearms → (d.clean = true ∧ d.debt = false) ∧ d.accepting = false :=
      fun hk => hc.unarmed hd (hwant hk.2.1) hk.1
    refine Triple.bind (setListening_spec hQ true fun _ => hd.want) fun _ => ?_
    refine Triple.bind (slaveArm_spec hQ rfl fun hk => (hready hk).1.2) fun _ => ?_
    refine Triple.bind (readMmio_spec fun v h => h.1) fun a => Triple.pure_pre fun hmmio => ?_
    rw [hmmio]
    have hset : ((d.setHeld true).rearm.setHeld false).Settled k :=
      Control.settled_rearm hd.want hready
        (fun ht => (hc.wanted hd).kept ht) fun hk => (hc.wanted hd).calm hk
    exact Triple.post (holdsRelease_spec hQ rfl) fun _ s _ h => ⟨_, hset, h⟩
  · rw [if_neg hr]
    exact Triple.ret fun s _ h => ⟨d, hc.wanted hd, (h.resolve_left fun h' => hr h'.1).2⟩

/-- What `piix4_asf_start` begins with. -/
structure Starting (k : Setting) (v : CoreView) : Prop where
  enabling : v.enabling = false
  asleep : v.asleep = false
  started : v.started = true
  unwanted : k.restart = false → v.asf.wantListen = false
  auxAdapter : v.auxAdapter = true

/-- What `piix4_asf_start` leaves to its callback. -/
theorem piix4AsfStart_spec :
    Triple (rules k b call t) (Calling t (Starting k)) piix4AsfStart
      fun _ => Calling t fun v => v.enabling = false := by
  refine Triple.bind (noteCalling_spec trivial nofun) fun _ => ?_
  refine ifActive_spec (p := fun smba => do
    lock .notify
    perform (.setDeliverOk true)
    unlock .notify
    lock .asf
    startLocked smba
    unlock .asf) (fun s _ h => h.mono fun hF => hF.1.enabling) ?_
  refine Triple.bind (lockNotify_spec stable_calling fun _ _ h => h) fun _ => ?_
  refine Triple.bind (setDeliverOk_spec (G := Beginning k) (fun _ => rfl) fun v hv hF =>
    ⟨?_, ?_⟩) fun _ => ?_
  · exact ⟨hv.claimed, hv.requested, hv.freed, hv.inactive, hv.enabling, hv.unbound, hv.asleep,
      hv.fresh, fun ht hw => ⟨rfl, (hv.delivering ht hw).2⟩⟩
  · exact ⟨hF.2, hF.1.enabling, hF.1.asleep, fun _ => hF.1.started, hF.1.unwanted,
      fun _ => ⟨rfl, hF.1.auxAdapter⟩⟩
  refine Triple.bind (unlockNotify_spec stable_calling fun _ _ h => h) fun _ => ?_
  refine Triple.bind (lockCalling_spec fun v h => h.active) fun _ => Triple.exists_pre fun c =>
    Triple.pure_pre fun hc => ?_
  refine Triple.learn (φ := k.restart = false → c.want = false)
    (fun s _ h hk => h.1.want.symm.trans (h.2.2.unwanted hk)) fun hwant => ?_
  refine Triple.bind (startLocked_spec hc hwant) fun _ => Triple.exists_pre fun d =>
    Triple.pure_pre fun hd => ?_
  exact Triple.post (unlockCalling_spec hd) fun _ s _ h => h.mono fun hF => hF.2

/-! ## Resume -/

/-- What `piix4_asf_resume` begins with. -/
structure Resuming (k : Setting) (v : CoreView) : Prop where
  enabling : v.enabling = false
  asleep : v.asleep = false
  unwanted : v.asf.wantListen = false

/-- The part of `piix4_asf_resume` under the mutex. -/
theorem resumeLocked_spec (hc : c.Settled k) (hwant : c.want = false) (hwild : ¬ k.Tidy) :
    Triple (rules k b call t) (Holds k t c (Owning t (Beginning k))) (resumeLocked b.auxSmba)
      fun _ s => ∃ c' : Control, c'.Settled k ∧ Holds k t c' (Owning t Begun) s := by
  have hQ : Private t (Owning t Begun) := owning_debtless.private
  unfold resumeLocked
  refine Triple.bind (setWant_spec (F := Beginning k) (G := Begun) hc.released fun v hv hF =>
    ⟨hF.lawful hv, hF.active, hF.enabling⟩) fun _ => Triple.exists_pre fun d =>
      Triple.pure_pre fun hd => ?_
  refine Triple.bind (readMmio_spec fun v h => h.1) fun a => Triple.pure_pre fun hmmio => ?_
  rw [hmmio]
  refine Triple.bind (tryRequest_spec hQ (hd.held.trans hc.released)) fun r => ?_
  by_cases hr : r = 0
  · rw [if_pos hr]
    refine Triple.pre (P := Holds k t (d.setHeld true) (Owning t Begun)) ?_ fun s _ h =>
      (h.resolve_right fun h' => h'.1 hr).2
    have hspares : Spares k call (d.setHeld true) (Owning t Begun) :=
      ⟨fun ht => absurd ht hwild, fun hg => by
        obtain ⟨⟨hclean, _⟩, hacc⟩ := hc.unarmed hd hwant hg.1.2.2
        exact ⟨hclean, hacc⟩⟩
    refine Triple.bind (setRst_spec hQ hspares) fun _ => ?_
    refine Triple.bind (clearSlvSta_spec hQ) fun _ => ?_
    refine Triple.bind (setListening_spec hQ true fun _ => hd.want) fun _ => ?_
    refine Triple.bind (slaveArm_spec hQ rfl fun _ => rfl) fun _ => ?_
    refine Triple.bind (readMmio_spec fun v h => h.1) fun a => Triple.pure_pre fun hmmio => ?_
    rw [hmmio]
    have hset : ((((d.setHeld true).setRst true).clearSlvSta).rearm.setHeld false).Settled k :=
      Control.settled_rearm hd.want
        (fun _ => ⟨⟨rfl, rfl⟩, by simp [Control.setRst, Control.clearSlvSta, Control.accepting]⟩)
        (fun _ => rfl) fun _ => rfl
    exact Triple.post (holdsRelease_spec hQ rfl) fun _ s _ h => ⟨_, hset, h⟩
  · rw [if_neg hr]
    exact Triple.ret fun s _ h => ⟨d, hc.wanted hd, (h.resolve_left fun h' => hr h'.1).2⟩

/-- What `piix4_asf_resume` leaves to its callback. -/
theorem piix4AsfResume_spec (hwild : ¬ k.Tidy) :
    Triple (rules k b call t) (Calling t (Resuming k)) piix4AsfResume
      fun _ => Calling t fun v => v.enabling = false := by
  unfold piix4AsfResume
  refine Triple.bind readCalling_spec fun a => Triple.bind readCalling_spec fun a' =>
    Triple.bind readCalling_spec fun a'' => ?_
  by_cases hskip : (!a'.active || !a''.resumeListen) = true
  · rw [if_pos hskip]
    exact Triple.ret fun s _ h => h.mono fun hF => hF.1.1.1.enabling
  · rw [if_neg hskip]
    have hboth : a'.active = true ∧ a''.resumeListen = true := by simpa using hskip
    refine Triple.learn (φ := a.smba = b.auxSmba) (fun s hs h => ?_) fun hsmba => ?_
    · have hactive : s.coreView.asf.active = true := h.1.2.1.2.active.trans hboth.1
      exact h.1.2.1.1.2.smba.symm.trans (hs.core.claimed hactive).1
    · rw [hsmba]
      refine Triple.pre (P := Calling t fun v => Beginning k v ∧ v.asf.wantListen = false) ?_
        fun s hs h => h.mono fun hF => ?_
      · refine Triple.bind (lockCalling_spec fun v h => h.1.active) fun _ =>
          Triple.exists_pre fun c => Triple.pure_pre fun hc => ?_
        refine Triple.learn (φ := c.want = false)
          (fun s _ h => h.1.want.symm.trans h.2.2.2) fun hwant => ?_
        refine Triple.bind (Triple.pre (resumeLocked_spec hc hwant hwild) fun s _ h =>
          ⟨h.1, h.2.1, h.2.2.1⟩) fun _ => Triple.exists_pre fun d => Triple.pure_pre fun hd => ?_
        exact Triple.post (unlockCalling_spec hd) fun _ s _ h => h.mono fun hF => hF.2
      · obtain ⟨⟨⟨hres, _⟩, hread⟩, hread'⟩ := hF
        have hresume : s.coreView.asf.resumeListen = true := by
          rw [hread']
          exact hboth.2
        have hstarted : k.restart = false → s.coreView.started = true := fun hk => by
          cases hst : s.coreView.started with
          | true => rfl
          | false => exact absurd (hresume.symm.trans (hs.core.fresh hk hst).2) (by decide)
        exact ⟨⟨hread.active.trans hboth.1, hres.enabling, hres.asleep, hstarted,
          fun _ => hres.unwanted, fun ht => absurd ht hwild⟩, hres.unwanted⟩

/-! ## Suspend -/

/-- Reading the driver's global under the mutex. -/
theorem readHolds_spec :
    Triple (rules k b call t) (Holds k t c (Owning t F)) piix4Asf
      fun a => Holds k t c (Owning t fun v => F v ∧ v.Reads a) := by
  refine own_op (fun _ => stable_holds owning_debtless.private) fun s _ hP _ =>
    ⟨.of_other (by simp) (by simp), fun a s' he => ?_⟩
  obtain ⟨rfl, rfl⟩ := Prod.mk.inj (Option.some.inj he)
  exact ⟨OwnStep.refl s, hP.1, hP.2.1, hP.2.2, rfl⟩

/-- A callback after which nobody wants to listen. -/
def Unwanted (v : CoreView) : Prop := v.enabling = false ∧ v.asf.wantListen = false

/-- The part of `piix4_asf_suspend` under the mutex. -/
theorem suspendLocked_spec (hwild : ¬ k.Tidy) (hserv : call.service = false) (hc : c.Settled k) :
    Triple (rules k b call t) (Holds k t c (Owning t fun v => v.enabling = false))
      (suspendLocked b.auxSmba)
      fun _ s => ∃ c' : Control, c'.Settled k ∧ Holds k t c' (Owning t Unwanted) s := by
  unfold suspendLocked
  refine Triple.bind readHolds_spec fun a => ?_
  refine Triple.bind (setHolds_spec (G := fun v => v.enabling = false)
    (g := fun v => { v with asf := { v.asf with resumeListen := a.wantListen } })
    (fun _ => ⟨rfl, rfl, rfl, rfl⟩) (fun _ => rfl) fun v hv hF => ⟨?_, hF.1⟩) fun _ => ?_
  · have hwant : v.asf.wantListen = a.wantListen := by rw [hF.2]
    exact ⟨hv.claimed, hv.requested, hv.freed, hv.inactive, hv.enabling, hv.unbound, hv.asleep,
      fun hk hs => ⟨(hv.fresh hk hs).1, hwant.symm.trans (hv.fresh hk hs).1⟩, hv.delivering⟩
  refine Triple.bind readHolds_spec fun a' => ?_
  cases hw : a'.wantListen with
  | true =>
    refine Triple.post (quiesce_spec (G := Unwanted) hwild hserv hc.released
      fun v hF => ⟨hF.1, rfl⟩) fun _ s _ h => ?_
    obtain ⟨d, hd, hholds⟩ := h
    exact ⟨d, hd.1, hholds⟩
  | false =>
    refine Triple.ret fun s _ h => ⟨c, hc, h.1, h.2.1, h.2.2.1, ?_⟩
    rw [h.2.2.2]
    exact hw

/-- What `piix4_asf_suspend` leaves to its callback. -/
theorem piix4AsfSuspend_spec (hwild : ¬ k.Tidy) (hserv : call.service = false) :
    Triple (rules k b call t) (Calling t fun v => v.enabling = false) piix4AsfSuspend
      fun _ => Calling t Unwanted := by
  refine ifActive_spec (p := fun smba => do
    lock .asf
    suspendLocked smba
    unlock .asf) (fun s hs h => h.mono fun hF => ⟨hF.1, hs.core.inactive hF.2⟩) ?_
  refine Triple.bind (lockCalling_spec fun v h => h.2) fun _ => Triple.exists_pre fun c =>
    Triple.pure_pre fun hc => ?_
  refine Triple.bind (Triple.pre (suspendLocked_spec hwild hserv hc) fun s _ h =>
    ⟨h.1, h.2.1, h.2.2.1⟩) fun _ => Triple.exists_pre fun d => Triple.pure_pre fun hd => ?_
  exact unlockCalling_spec hd

end HostNotify
