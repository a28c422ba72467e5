import HostNotify.Callbacks

/-!
# Claiming and releasing the block

Probe claims the block under the region and, while nobody else can hold it, the mutex; both
a failed probe and remove give it back. In between the registers are written without a view:
nobody reads anything into a block that is not claimed.
-/

namespace HostNotify

open Bits Interleaving

variable {k : Setting} {b : Board} {c : Control} {s s' : St} {t u : ℕ} {call : Call}
  {F G : CoreView → Prop}

/-- A question to the rest of the system changes nothing. -/
theorem ask_spec {o : Op} {P : St → Prop} (hP : (rules k b call t).Stable P)
    (hcheck : ∀ s, Check k b call o s) (hanswer : ∀ s, ∃ r, exec b t o s = some (r, s)) :
    Triple (rules k b call t) P (perform o) fun _ => P :=
  idle_op' hP hcheck fun s r s' he => by
    obtain ⟨r', hr'⟩ := hanswer s
    exact (Prod.mk.inj (Option.some.inj (hr'.symm.trans he))).2.symm

/-- Reading the driver's global once more. -/
theorem readAgain_spec :
    Triple (rules k b call t) (Calling t F) piix4Asf fun _ => Calling t F :=
  ask_spec stable_calling (fun _ => .of_other (by simp) (by simp)) fun _ => ⟨_, rfl⟩

/-! ## Writes to an unclaimed block -/

/-- Nobody else gives the region away. -/
theorem stable_region : (rules k b call t).Stable fun s => s.region = some t := by
  intro s s' hs h hr _
  rcases hr with ⟨e, he⟩ | hf
  · exact (react_frame he hs.smba).region.trans h
  · exact (hf.region h).1

/-- Without firmware, DecodeEn is as it was while the region is held. -/
theorem stable_untouched : (rules k b call t).Stable fun s =>
    s.region = some t ∧ (k.firmware = false → s.ghost.touched = false) := by
  intro s s' hs h hr hs'
  refine ⟨stable_region s s' hs h.1 hr hs', fun hk => ?_⟩
  rcases hr with ⟨e, he⟩ | hf
  · rcases react_touched he hs.smba with hsame | hfw
    · exact hsame.trans (h.2 hk)
    · exact absurd (hfw.1.symm.trans hk) (by decide)
  · exact (hf.region h.1).2.2.trans (h.2 hk)

/-- The callback holds the mutex and the region of a block that is not claimed. -/
def Bare (t : ℕ) (F : CoreView → Prop) (s : St) : Prop := Released t F s ∧ s.region = some t

/-- What the callback holds of an unclaimed block is stable. -/
theorem stable_bare : (rules k b call t).Stable (Bare t F) := stable_released.and stable_region

/-- What an own step of the holder leaves of it. -/
theorem Released.own (h : Released t F s) (hown : OwnStep k t s s') : Released t F s' := by
  refine ⟨owning_debtless s s' hown.stays h.1, ?_⟩
  rw [hown.mutex]
  exact h.2

/-- DecodeEn may be written by whoever holds the region. -/
theorem bareDecodeEn_spec (d : BitVec 32) :
    Triple (rules k b call t) (Bare t F) (iowrite32 d) fun _ => Bare t F := by
  refine own_op (fun _ => stable_bare) fun s hs hP _ =>
    ⟨.of_other (by simp) (by simp), fun _ s' he => ?_⟩
  obtain rfl : s.writeDecodeEn d = s' :=
    (Prod.mk.inj (Option.some.inj he)).2
  have hown : OwnStep k t s (s.writeDecodeEn d) := {
    life := rfl
    irq := rfl
    asf := rfl
    world := rfl
    deliverOk := rfl
    auxAdapter := rfl
    owed := fun _ _ => rfl
    region := fun u hu hr => absurd (Option.some.inj (hr.symm.trans hP.2)) hu
    mutex := rfl
    block := Or.inl hP.1.2
    listening := fun hl => Or.inr hl
    pending := id
    sound := fun h => ⟨h.errorless, fun i => by cases i <;> exact h.unstuck _⟩
    intact := fun _ h => h.congr (fun i => by cases i <;> rfl) rfl rfl rfl h.reset }
  exact ⟨hown, hP.1.own hown, hP.2⟩

section Bare

variable (hF : ∀ v, F v → v.asf.active = false)
include hF

/-- Writing a register of an unclaimed block. -/
theorem bareOut_spec {v : Byte} {port : ℕ} {r : Reg} (hport : decode b.auxSmba port = some r)
    (hv : r = .slvsta → v = 0) (hcheck : ∀ s, Check k b call (.outb v port) s)
    (hintact : ∀ s, Intact s → (∀ i, (s.hw.bank i).unread = false) → Intact (s.written t v r)) :
    Triple (rules k b call t) (Bare t F) (outb v port) fun _ => Bare t F := by
  refine own_op (fun _ => stable_bare) fun s hs hP _ => ⟨hcheck s, fun _ s' he => ?_⟩
  simp only [exec, St.portWrite_reg s t v hport, Option.some.injEq, Prod.mk.injEq] at he
  obtain ⟨_, rfl⟩ := he
  have hown : OwnStep k t s (s.written t v r) := by
    refine .written hP.1.2 hv fun ht h => hintact s h ?_
    exact (hs.intact ht).inactive (hF _ hP.1.1.2)
  exact ⟨hown, hP.1.own hown, hP.2⟩

/-- The saved interrupt enable, with or without the reset. -/
theorem bareSlven_spec (hserv : call.service = false) (v : Byte) :
    Triple (rules k b call t) (Bare t F) (outb v (asfSlvEn b.auxSmba)) fun _ => Bare t F := by
  refine bareOut_spec hF (decode_asfSlvEn _) nofun (fun s => ?_) fun s h hnone =>
    h.written_slven fun _ => hnone
  exact .of_slven (decode_asfSlvEn _) fun hg => absurd (hg.2.2.symm.trans hserv) (by decide)

/-- `piix4_asf_clear_status` of an unclaimed block. -/
theorem bareClearStatus_spec :
    Triple (rules k b call t) (Bare t F) (piix4AsfClearStatus b.auxSmba) fun _ => Bare t F := by
  unfold piix4AsfClearStatus
  refine Triple.bind (bareOut_spec hF (decode_asfSlvSta _) (fun _ => rfl)
    (fun s => .of_port (by simp) (by simp)) fun s h _ => h.written nofun nofun nofun) fun _ => ?_
  refine Triple.bind (bareOut_spec hF (decode_asfSta _) nofun
    (fun s => .of_port (by simp) (by simp)) fun s h _ => h.written nofun nofun nofun) fun _ => ?_
  exact bareOut_spec hF (decode_asfSta _) nofun (fun s => .of_port (by simp) (by simp))
    fun s h _ => h.written nofun nofun nofun

/-- `piix4_asf_restore_boot_state`. -/
theorem restoreBootState_spec (hserv : call.service = false) :
    Triple (rules k b call t) (Bare t F) (piix4AsfRestoreBootState b.auxSmba)
      fun _ => Bare t F := by
  have hread : Triple (rules k b call t) (Bare t F) piix4Asf fun _ => Bare t F :=
    ask_spec stable_bare (fun _ => .of_other (by simp) (by simp)) fun _ => ⟨_, rfl⟩
  have hmode : Triple (rules k b call t) (Bare t F) ioread32 fun _ => Bare t F :=
    ask_spec stable_bare (fun _ => .of_other (by simp) (by simp)) fun _ => ⟨_, rfl⟩
  unfold piix4AsfRestoreBootState
  refine Triple.bind hread fun a => Triple.bind (bareSlven_spec hF hserv _) fun _ => ?_
  refine Triple.bind hread fun a => Triple.bind (bareOut_spec hF (decode_asfLisAddr _) nofun
    (fun s => .of_port (by simp) (by simp)) fun s h _ => h.written nofun nofun nofun) fun _ => ?_
  refine Triple.bind hread fun a => ?_
  -- the saved bank selection is written without the full flags
  have h2 : (a.bootBnksel &&& ~~~asfBnkFull)[2] = false := by simp
  have h3 : (a.bootBnksel &&& ~~~asfBnkFull)[3] = false := by simp
  refine Triple.bind (bareOut_spec hF (decode_asfDataBnkSel _) nofun
    (fun s => .of_bnksel (decode_asfDataBnkSel _) h2 h3)
    fun s h _ => h.written_bnksel h2 h3) fun _ => ?_
  refine Triple.bind (bareClearStatus_spec hF) fun _ => ?_
  refine Triple.bind hread fun a => Triple.bind (bareSlven_spec hF hserv _) fun _ => ?_
  refine Triple.bind hmode fun d => Triple.bind hread fun a => ?_
  exact bareDecodeEn_spec _

end Bare

/-! ## Giving the block back -/

/-- The view after the block has been given up. -/
def CoreView.unclaim (v : CoreView) : CoreView := { v with asf := { v.asf with active := false } }

/-- A lawful view is lawful after the claim has been given up. -/
theorem CoreView.Lawful.unclaim {v : CoreView} (h : v.Lawful k b) (hwant : v.asf.wantListen = false)
    (hrequested : v.requested = false) : v.unclaim.Lawful k b where
  claimed := nofun
  requested hr := absurd (hr.symm.trans hrequested) (by decide)
  freed := h.freed
  inactive _ := hwant
  enabling := h.enabling
  unbound _ _ := rfl
  asleep := h.asleep
  fresh := h.fresh
  delivering := h.delivering

/-- A settled slave that does not listen holds nothing unread. -/
theorem Control.Settled.emptied (hc : c.Settled k) (hlisten : c.listening = false) (ht : k.Tidy) :
    c.clean = true ∧ c.accepting = false ∧ c.kept = true := by
  have hsilent := hc.silent hlisten ht.known (Or.inl (Or.inr ht.2.2.1))
  have hclosed := hc.closed hlisten ht.known
  exact ⟨hsilent.clean, by simp [Control.accepting, hclosed], hc.kept ht⟩

/-- Requesting the region for an unclaimed block. -/
theorem bareRequest_spec :
    Triple (rules k b call t) (Released t F) (piix4Sb800RegionRequest true) fun r s =>
      (r = 0 ∧ Bare t F s) ∨ (r ≠ 0 ∧ Released t F s) := by
  have hrequest : Triple (rules k b call t) (Released t F) (piix4Sb800RegionRequest true) fun r s =>
      (r = 0 ∧ Bare t F s) ∨ (r ≠ 0 ∧ ¬ False ∧ Released t F s) :=
    regionRequest_spec stable_released stable_bare (fun s h _ => ⟨h, rfl⟩) (fun s h => h.2)
      (fun s h => h.1) nofun nofun
  exact Triple.post hrequest fun r s _ h => h.imp id fun h => ⟨h.1, h.2.2⟩

/-- `piix4_asf.active = false` and what follows under the mutex. -/
theorem unclaimLocked_spec (hserv : call.service = false) (hc : c.Settled k)
    (hlisten : c.listening = false) (hmmio : ∀ v, F v → v.asf.active = true)
    (hF : ∀ v, v.Lawful k b → F v → v.unclaim.Lawful k b ∧ G v.unclaim) :
    Triple (rules k b call t) (Holds k t c (Owning t F)) (unclaimLocked b.auxSmba)
      fun _ => Released t fun v => v.asf.active = false ∧ G v := by
  unfold unclaimLocked
  refine Triple.bind (unclaim_spec (G := fun v =>
    (v.asf.active = false ∧ v.asf.useMmio = true) ∧ G v) hlisten (hc.emptied hlisten)
    fun v hv hFv => ⟨(hF v hv hFv).1, ⟨rfl, (hv.claimed (hmmio v hFv)).2⟩, (hF v hv hFv).2⟩)
    fun _ => ?_
  refine Triple.bind (asf_spec (F := fun a => a.useMmio = true) stable_released
    fun s _ h => h.1.2.1.2) fun a => Triple.pure_pre fun ha => ?_
  rw [ha]
  refine Triple.bind bareRequest_spec fun r => ?_
  by_cases hr : r = 0
  · rw [if_pos hr]
    refine Triple.pre (P := Bare t fun v => (v.asf.active = false ∧ v.asf.useMmio = true) ∧ G v) ?_
      fun s _ h => (h.resolve_right fun h' => h'.1 hr).2
    refine Triple.bind (restoreBootState_spec (fun v h => h.1.1) hserv) fun _ => ?_
    refine Triple.bind (asf_spec (F := fun a => a.useMmio = true) stable_bare
      fun s _ h => h.1.1.2.1.2) fun a => Triple.pure_pre fun ha => ?_
    rw [ha]
    exact releaseMemRegion_spec stable_released (fun s h => h.2) fun s h =>
      (⟨⟨h.1.1.1, h.1.1.2.1.1, h.1.1.2.2⟩, h.1.2⟩ :
        Released t (fun v => v.asf.active = false ∧ G v) { s with region := none })
  · rw [if_neg hr]
    refine Triple.ret fun s _ h => ?_
    obtain ⟨_, hrel⟩ := h.resolve_left fun h' => hr h'.1
    exact ⟨⟨hrel.1.1, hrel.1.2.1.1, hrel.1.2.2⟩, hrel.2⟩

/-- Giving up the mutex of an unclaimed block. -/
theorem unlockReleased_spec (hF : ∀ v, F v → v.asf.active = false) :
    Triple (rules k b call t) (Released t F) (unlock .asf) fun _ => Calling t F :=
  unlock_spec stable_calling (fun _ h => h.2)
    (fun _ _ h hactive => absurd (hactive.symm.trans (hF _ h.1.2)) (by decide))
    fun _ _ h => ⟨h.1, nofun⟩

/-! ## Probe -/

/-- What a probe knows while it claims the block at the auxiliary port. -/
structure Claims (b : Board) (active requested : Bool) (v : CoreView) : Prop where
  enabling : v.enabling = true
  active : v.asf.active = active
  requested : v.requested = requested
  smba : v.asf.smba = b.auxSmba
  useMmio : v.asf.useMmio = true

/-- A probe that has not touched the block. -/
def Probing (v : CoreView) : Prop := v.enabling = true ∧ v.asf.active = false

/-- What may become of a probe. -/
def Probed (v : CoreView) : Prop := v.requested = true → v.asf.irqRequested = true

/-- Probe may end without the block. -/
theorem Probing.probed {v : CoreView} (hv : v.Lawful k b) (h : v.asf.active = false) : Probed v :=
  fun hr => absurd ((hv.requested hr).symm.trans h) (by decide)

/-- Fields of an unclaimed block may be set freely. -/
theorem CoreView.Lawful.setFields {v : CoreView} (h : v.Lawful k b) {a : Piix4Asf}
    (hidle : v.asf.active = false) (hactive : a.active = v.asf.active)
    (hwant : a.wantListen = v.asf.wantListen) (hirq : a.irqRequested = v.asf.irqRequested)
    (hresume : a.resumeListen = v.asf.resumeListen) : ({ v with asf := a } : CoreView).Lawful k b where
  claimed ha := absurd (ha.symm.trans (hactive.trans hidle)) (by decide)
  requested hr := hactive.trans (h.requested hr)
  freed hr := (h.freed hr).imp (fun hi => hirq.trans hi) id
  inactive ha := hwant.trans (h.inactive (hactive.symm.trans ha))
  enabling he := hwant.trans (h.enabling he)
  unbound hb he := hactive.trans (h.unbound hb he)
  asleep ha := hwant.trans (h.asleep ha)
  fresh hk hs := ⟨hwant.trans (h.fresh hk hs).1, hresume.trans (h.fresh hk hs).2⟩
  delivering ht hw := h.delivering ht (hwant.symm.trans hw)

/-- What `piix4_asf_detect` leaves to probe. -/
theorem piix4AsfDetect_spec :
    Triple (rules k b call t) (Calling t Probing) (piix4AsfDetect b.auxSmba)
      fun _ => Calling t Probing := by
  have hask : ∀ {o : Op}, (∀ s, Check k b call o s) → (∀ s, ∃ r, exec b t o s = some (r, s)) →
      Triple (rules k b call t) (Calling t Probing) (perform o) fun _ => Calling t Probing :=
    fun hcheck hanswer => ask_spec stable_calling hcheck hanswer
  unfold piix4AsfDetect
  refine Triple.bind (hask (fun _ => .of_other (by simp) (by simp)) fun _ => ⟨_, rfl⟩)
    fun notify => ?_
  cases notify with
  | false => exact Triple.ret fun _ _ h => h
  | true =>
    refine Triple.bind (hask (fun _ => .of_other (by simp) (by simp)) fun _ => ⟨_, rfl⟩)
      fun present => ?_
    cases present with
    | true => exact Triple.ret fun _ _ h => h
    | false =>
      refine Triple.bind (hask (fun _ => .of_other (by simp) (by simp)) fun _ => ⟨_, rfl⟩)
        fun devices => ?_
      cases hmatch : matchDevice b.auxSmba devices with
      | none => exact Triple.ret fun _ _ h => h
      | some found =>
        obtain ⟨start, size, crs⟩ := found
        exact setCalling_spec (g := fun v => { v with asf := { v.asf with
            smba := start, iolen := size, gsi := crs.gsi, triggering := crs.triggering
            polarity := crs.polarity, shareable := crs.shareable, hasIrq := crs.hasIrq } })
          (fun _ => ⟨rfl, rfl, rfl, rfl⟩) (fun _ => rfl)
          fun v hv hF => ⟨hv.setFields hF.2 rfl rfl rfl rfl, hF⟩

/-- The ends of a probe that leave the block unclaimed. -/
theorem releaseIoregion_spec :
    Triple (rules k b call t) (Calling t F) (enableReleaseIoregion b.auxSmba)
      fun _ => Calling t F :=
  callingOp_spec (fun _ => .of_other (by simp) (by simp)) fun s r s' he =>
    ⟨_, _, _, (Prod.mk.inj (Option.some.inj he)).2.symm⟩

/-- Giving back the interrupt changes nothing that is known. -/
theorem unregisterGsi_spec (gsi : ℕ) :
    Triple (rules k b call t) (Calling t F) (perform (.acpiUnregisterGsi gsi))
      fun _ => Calling t F :=
  callingOp_spec (fun _ => .of_other (by simp) (by simp)) fun s r s' he =>
    ⟨_, _, _, (Prod.mk.inj (Option.some.inj he)).2.symm⟩

/-- The `unregister_gsi` label. -/
theorem enableUnregisterGsi_spec :
    Triple (rules k b call t) (Calling t Probing) (enableUnregisterGsi b.auxSmba)
      fun _ => Calling t Probing := by
  have hset : ∀ {f : Piix4Asf → Piix4Asf} {g : Piix4Asf → Piix4Asf}, Quiet f →
      (∀ s : St, ({ s with asf := f s.asf } : St).coreView =
        { s.coreView with asf := g s.coreView.asf }) →
      (∀ a, (g a).active = a.active ∧ (g a).wantListen = a.wantListen ∧
        (g a).irqRequested = a.irqRequested ∧ (g a).resumeListen = a.resumeListen) →
      Triple (rules k b call t) (Calling t Probing) (setAsf f) fun _ => Calling t Probing :=
    fun {f g} hf hg hkeep => setCalling_spec (g := fun v => { v with asf := g v.asf }) hf hg
      fun v hv hF => ⟨hv.setFields hF.2 (hkeep _).1 (hkeep _).2.1 (hkeep _).2.2.1 (hkeep _).2.2.2,
        hF.1, (hkeep _).1.trans hF.2⟩
  have hend : Triple (rules k b call t) (Calling t Probing)
      (do
        setAsf fun a => { a with gsiRegistered := false }
        setAsf fun a => { a with irq := -1 }
        enableReleaseIoregion b.auxSmba) fun _ => Calling t Probing := by
    refine Triple.bind (hset (g := fun a => { a with gsiRegistered := false })
      (fun _ => ⟨rfl, rfl, rfl, rfl⟩) (fun _ => rfl) fun _ => ⟨rfl, rfl, rfl, rfl⟩) fun _ => ?_
    refine Triple.bind (hset (g := fun a => { a with irq := -1 })
      (fun _ => ⟨rfl, rfl, rfl, rfl⟩) (fun _ => rfl) fun _ => ⟨rfl, rfl, rfl, rfl⟩) fun _ => ?_
    exact releaseIoregion_spec
  unfold enableUnregisterGsi
  refine Triple.bind readAgain_spec fun a => ?_
  cases a.gsiRegistered with
  | true =>
    refine Triple.bind readAgain_spec fun a' => ?_
    exact Triple.bind (unregisterGsi_spec _) fun _ => hend
  | false => exact hend

/-- The callback has the region, and firmware keeps away from DecodeEn. -/
def WithRegion (k : Setting) (t : ℕ) (F : CoreView → Prop) (s : St) : Prop :=
  Calling t F s ∧ s.region = some t ∧ (k.firmware = false → s.ghost.touched = false)

/-- What a thread knows with the region is stable. -/
theorem stable_withRegion : (rules k b call t).Stable (WithRegion k t F) :=
  stable_calling.and stable_untouched

/-- Requesting the region before the mutex. -/
theorem earlyRequest_spec :
    Triple (rules k b call t) (Calling t F) (piix4Sb800RegionRequest true) fun r s =>
      (r = 0 ∧ WithRegion k t F s) ∨ (r ≠ 0 ∧ Calling t F s) := by
  have hrequest : Triple (rules k b call t) (Calling t F) (piix4Sb800RegionRequest true) fun r s =>
      (r = 0 ∧ WithRegion k t F s) ∨ (r ≠ 0 ∧ ¬ False ∧ Calling t F s) :=
    regionRequest_spec stable_calling stable_withRegion (fun s h _ => ⟨h, rfl, fun _ => rfl⟩)
      (fun s h => h.2.1) (fun s h => h.1) nofun nofun
  exact Triple.post hrequest fun r s _ h => h.imp id fun h => ⟨h.1, h.2.2⟩

/-- Releasing the region after the mutex. -/
theorem lateRelease_spec :
    Triple (rules k b call t) (WithRegion k t F) (piix4Sb800RegionRelease true)
      fun _ => Calling t F :=
  releaseMemRegion_spec stable_calling (fun _ h => h.2.1) fun _ h => h.1

/-- `atomic_set(&piix4_asf.pending, 0)` while probe claims the block. -/
theorem dropPending_spec (hF : ∀ v, F v → v.enabling = true ∧ v.asf.active = false) :
    Triple (rules k b call t) (WithRegion k t F) (setAsf fun a => { a with pending := false })
      fun _ => WithRegion k t F := by
  refine core_op (fun _ => stable_withRegion) (fun _ => .of_other (by simp) (by simp))
    fun s r s' hs hP he => ?_
  obtain rfl : { s with asf := { s.asf with pending := false } } = s' :=
    (Prod.mk.inj (Option.some.inj he)).2
  obtain ⟨hen, hno⟩ := hF _ hP.1.1.2
  have hinactive : s.asf.active = false := hno
  refine ⟨?_, hP⟩
  exact {
    owner := hP.1.1.1
    hw := rfl
    world := rfl
    ghost := rfl
    mutex := rfl
    region := rfl
    life := rfl
    irq := rfl
    delivering := fun _ hd => hd
    lawful := hs.core
    masked := hs.masked
    block := Or.inr (Or.inl hen)
    idle := fun _ hact => absurd (hact.symm.trans hinactive) (by decide)
    pending := fun _ => rfl
    claim := fun _ hact => absurd (hact.symm.trans hinactive) (by decide)
    deaf := hs.deaf
    intact := fun ht => (hs.intact ht).inactive }

/-- Probe takes the mutex of a block nobody has claimed, knowing nothing of its registers. -/
theorem lockProbing_spec (hF : ∀ v, F v → v.enabling = true) :
    Triple (rules k b call t) (WithRegion k t F) (lock .asf) fun _ s =>
      ∃ c : Control, (c.held = true ∧ c.listening = false) ∧ Holds k t c (Owning t F) s := by
  refine lock_spec (Discipline.Stable.exists fun _ => (Discipline.Stable.const _).and
    (stable_holds owning_debtless.private)) (fun _ h => Or.inr (Or.inr h.1.1.1)) fun s hs h _ => ?_
  have hen : s.life.enabling = true := hF _ h.1.1.2
  obtain ⟨hwant, hlisten⟩ := hs.enabling hen
  refine ⟨Control.observe { s with mutex := some t } true, ⟨rfl, hlisten⟩, ?_, h.1.1⟩
  refine view_observe rfl (by simp [St.engaged, hen]) fun _ => ⟨h.2.1, fun hk => ?_⟩
  exact h.2.2 (hk.resolve_right fun hw => absurd (hw.symm.trans hwant) (by decide))

/-- Probe gives the mutex up and keeps the region. -/
theorem unlockProbing_spec (hheld : c.held = true) (hset : (c.setHeld false).Settled k) :
    Triple (rules k b call t) (Holds k t c (Owning t F)) (unlock .asf)
      fun _ => WithRegion k t F := by
  refine unlock_spec stable_withRegion (fun _ h => h.1.holder)
    (fun _ _ h _ => ⟨_, hset, h.1.forget⟩) fun s hs h => ⟨⟨h.2, nofun⟩, h.1.held hheld, fun hk => ?_⟩
  exact h.1.fresh hheld (Or.inl hk)

/-- `enableTakeover` saves the firmware state and claims the block. -/
theorem enableTakeover_spec (hserv : call.service = false) :
    Triple (rules k b call t) (WithRegion k t (Claims b false false)) (enableTakeover b.auxSmba)
      fun _ => WithRegion k t (Claims b true false) := by
  have hQ : ∀ {active}, Private t (Owning t (Claims b active false)) := owning_debtless.private
  have hset : ∀ {c : Control} {f g : Piix4Asf → Piix4Asf}, Quiet f →
      (∀ s : St, ({ s with asf := f s.asf } : St).coreView =
        { s.coreView with asf := g s.coreView.asf }) →
      (∀ a, (g a).active = a.active ∧ (g a).wantListen = a.wantListen ∧
        (g a).irqRequested = a.irqRequested ∧ (g a).resumeListen = a.resumeListen) →
      (∀ a, (g a).smba = a.smba ∧ (g a).useMmio = a.useMmio) →
      Triple (rules k b call t) (Holds k t c (Owning t (Claims b false false))) (setAsf f)
        fun _ => Holds k t c (Owning t (Claims b false false)) :=
    fun {c f g} hf hg hkeep hbase => setHolds_spec (g := fun v => { v with asf := g v.asf }) hf hg
      fun v hv hF => ⟨hv.setFields hF.active (hkeep _).1 (hkeep _).2.1 (hkeep _).2.2.1
        (hkeep _).2.2.2, ⟨hF.enabling, (hkeep _).1.trans hF.active, hF.requested,
          (hbase _).1.trans hF.smba, (hbase _).2.trans hF.useMmio⟩⟩
  unfold enableTakeover
  refine Triple.bind (lockProbing_spec fun v h => h.enabling) fun _ => Triple.exists_pre fun c =>
    Triple.pure_pre fun hc => ?_
  refine Triple.bind (noteHolds_spec hQ trivial fun _ _ => .of_other (by simp) (by simp)) fun _ => ?_
  refine Triple.bind (ioread32_spec hQ) fun d => Triple.pure_pre fun _ => ?_
  refine Triple.bind (hset (g := fun a => { a with
    bootCtl := d &&& (bit asfMstrEn ||| bit asfClkEn) }) (fun _ => ⟨rfl, rfl, rfl, rfl⟩)
    (fun _ => rfl) (fun _ => ⟨rfl, rfl, rfl, rfl⟩) fun _ => ⟨rfl, rfl⟩) fun _ => ?_
  refine Triple.bind (inb_spec (r := .lisaddr) (F := fun _ => True) hQ (decode_asfLisAddr _) nofun
    fun _ _ _ => trivial) fun lisaddr => Triple.pure_pre fun _ => ?_
  refine Triple.bind (hset (g := fun a => { a with bootLisaddr := lisaddr })
    (fun _ => ⟨rfl, rfl, rfl, rfl⟩) (fun _ => rfl) (fun _ => ⟨rfl, rfl, rfl, rfl⟩)
    fun _ => ⟨rfl, rfl⟩) fun _ => ?_
  refine Triple.bind (inb_spec (r := .slven) (F := fun _ => True) hQ (decode_asfSlvEn _) nofun
    fun _ _ _ => trivial) fun slven => Triple.pure_pre fun _ => ?_
  refine Triple.bind (hset (g := fun a => { a with bootSlven := slven })
    (fun _ => ⟨rfl, rfl, rfl, rfl⟩) (fun _ => rfl) (fun _ => ⟨rfl, rfl, rfl, rfl⟩)
    fun _ => ⟨rfl, rfl⟩) fun _ => ?_
  refine Triple.bind (inb_spec (r := .bnksel) (F := fun _ => True) hQ (decode_asfDataBnkSel _) nofun
    fun _ _ _ => trivial) fun bnksel => Triple.pure_pre fun _ => ?_
  refine Triple.bind (hset (g := fun a => { a with bootBnksel := bnksel })
    (fun _ => ⟨rfl, rfl, rfl, rfl⟩) (fun _ => rfl) (fun _ => ⟨rfl, rfl, rfl, rfl⟩)
    fun _ => ⟨rfl, rfl⟩) fun _ => ?_
  have hspares : Spares k call c (Owning t (Claims b false false)) :=
    ⟨fun _ => Or.inr fun s h => h.2.active,
      fun hg => absurd (hg.2.2.symm.trans hserv) (by decide)⟩
  refine Triple.bind (masterMode_spec hQ hc.1 hspares) fun _ => ?_
  refine Triple.bind (claim_spec (G := Claims b true false) fun v hv hF => ⟨hF.enabling, ?_,
    ⟨hF.enabling, rfl, hF.requested, hF.smba, hF.useMmio⟩⟩) fun _ => ?_
  · exact ⟨fun _ => ⟨hF.smba, hF.useMmio⟩, fun _ => rfl, hv.freed, nofun, hv.enabling,
      fun _ he => absurd (he.symm.trans hF.enabling) (by decide), hv.asleep, hv.fresh, hv.delivering⟩
  exact unlockProbing_spec hc.1 (Control.settled_masterMode hc.2)

/-- What the `restore` label leaves to probe. -/
theorem enableRestore_spec (hserv : call.service = false) :
    Triple (rules k b call t) (Calling t (Claims b true false)) (enableRestore b.auxSmba)
      fun _ => Calling t Probing := by
  unfold enableRestore
  refine Triple.bind (lockCalling_spec fun v h => h.active) fun _ => Triple.exists_pre fun c =>
    Triple.pure_pre fun hc => ?_
  refine Triple.learn (φ := c.listening = false) (fun s hs h => ?_) fun hlisten => ?_
  · exact h.1.listening.symm.trans (hs.deaf (Or.inr h.2.2.enabling))
  refine Triple.bind (unclaimLocked_spec (G := fun v => v.enabling = true) hserv hc hlisten
    (fun v h => h.active) fun v hv hF =>
      ⟨hv.unclaim (hv.enabling hF.enabling) hF.requested, hF.enabling⟩) fun _ => ?_
  refine Triple.bind (unlockReleased_spec fun v h => h.1) fun _ => ?_
  exact Triple.pre enableUnregisterGsi_spec fun s _ h => h.mono fun hF => ⟨hF.2, hF.1⟩

/-- `piix4_asf_enable` from the GSI registration on. -/
theorem enableIrq_spec (hserv : call.service = false) :
    Triple (rules k b call t) (Calling t (Claims b false false)) (enableIrq b.auxSmba)
      fun _ => Calling t Probed := by
  have hfail : ∀ v, Claims b false false v → Probing v := fun v h => ⟨h.enabling, h.active⟩
  have hprobed : ∀ s, Inv k b s → Calling t Probing s → Calling t Probed s :=
    fun s hs h => h.mono fun hF => Probing.probed hs.core hF.2
  have hquiet : ∀ {f g : Piix4Asf → Piix4Asf}, Quiet f →
      (∀ s : St, ({ s with asf := f s.asf } : St).coreView =
        { s.coreView with asf := g s.coreView.asf }) →
      (∀ a, (g a).active = a.active ∧ (g a).wantListen = a.wantListen ∧
        (g a).irqRequested = a.irqRequested ∧ (g a).resumeListen = a.resumeListen) →
      (∀ a, (g a).smba = a.smba ∧ (g a).useMmio = a.useMmio) →
      Triple (rules k b call t) (Calling t (Claims b false false)) (setAsf f)
        fun _ => Calling t (Claims b false false) :=
    fun {f g} hf hg hkeep hbase => setCalling_spec (g := fun v => { v with asf := g v.asf }) hf hg
      fun v hv hF => ⟨hv.setFields hF.active (hkeep _).1 (hkeep _).2.1 (hkeep _).2.2.1
        (hkeep _).2.2.2, ⟨hF.enabling, (hkeep _).1.trans hF.active, hF.requested,
          (hbase _).1.trans hF.smba, (hbase _).2.trans hF.useMmio⟩⟩
  unfold enableIrq
  refine Triple.bind readAgain_spec fun a => ?_
  refine Triple.bind (callingOp_spec (fun _ => .of_other (by simp) (by simp)) fun s r s' he =>
    ⟨_, _, _, (Prod.mk.inj (Option.some.inj he)).2.symm⟩) fun irq => ?_
  by_cases hneg : irq < 0
  · rw [if_pos hneg]
    exact Triple.post releaseIoregion_spec fun _ s hs h => hprobed s hs (h.mono (hfail _))
  rw [if_neg hneg]
  refine Triple.bind (hquiet (g := fun a => { a with irq := irq }) (fun _ => ⟨rfl, rfl, rfl, rfl⟩)
    (fun _ => rfl) (fun _ => ⟨rfl, rfl, rfl, rfl⟩) fun _ => ⟨rfl, rfl⟩) fun _ => ?_
  refine Triple.bind (hquiet (g := fun a => { a with gsiRegistered := true })
    (fun _ => ⟨rfl, rfl, rfl, rfl⟩) (fun _ => rfl) (fun _ => ⟨rfl, rfl, rfl, rfl⟩)
    fun _ => ⟨rfl, rfl⟩) fun _ => ?_
  refine Triple.bind (asf_spec (F := fun a => a.useMmio = true) stable_calling
    fun s _ h => h.1.2.useMmio) fun a => Triple.pure_pre fun ha => ?_
  rw [ha]
  refine Triple.bind earlyRequest_spec fun r => ?_
  by_cases hr : r = 0
  · rw [if_neg (not_not.mpr hr)]
    refine Triple.pre (P := WithRegion k t (Claims b false false)) ?_
      fun s _ h => (h.resolve_right fun h' => h'.1 hr).2
    refine Triple.bind (dropPending_spec fun v h => ⟨h.enabling, h.active⟩) fun _ => ?_
    refine Triple.bind (enableTakeover_spec hserv) fun _ => ?_
    refine Triple.bind (asf_spec (F := fun a => a.useMmio = true) stable_withRegion
      fun s _ h => h.1.1.2.useMmio) fun a => Triple.pure_pre fun ha => ?_
    rw [ha]
    refine Triple.bind lateRelease_spec fun _ => ?_
    refine Triple.bind readAgain_spec fun a => ?_
    refine Triple.bind (requestThreadedIrq_spec (G := fun r => Claims b true (decide (r = 0)))
      fun r v hv hF => ⟨?_, ⟨hF.enabling, hF.active, by simp [hF.requested], hF.smba, hF.useMmio⟩⟩)
      fun irq => ?_
    · exact ⟨hv.claimed, fun _ => hF.active, fun _ => Or.inr hF.enabling, hv.inactive, hv.enabling,
        hv.unbound, hv.asleep, hv.fresh, hv.delivering⟩
    by_cases hok : irq = 0
    · rw [if_neg (not_not.mpr hok)]
      refine setCalling_spec (g := fun v => { v with asf := { v.asf with irqRequested := true } })
        (fun _ => ⟨rfl, rfl, rfl, rfl⟩) (fun _ => rfl) fun v hv hF => ⟨?_, fun _ => rfl⟩
      exact ⟨hv.claimed, hv.requested, fun _ => Or.inl rfl, hv.inactive, hv.enabling, hv.unbound,
        hv.asleep, hv.fresh, hv.delivering⟩
    · rw [if_pos hok]
      refine Triple.post (Triple.pre (enableRestore_spec hserv) fun s _ h => ?_)
        fun _ s hs h => hprobed s hs h
      rw [decide_eq_false hok] at h
      exact h
  · rw [if_pos hr]
    refine Triple.post (Triple.pre enableUnregisterGsi_spec fun s _ h => ?_)
      fun _ s hs h => hprobed s hs h
    exact (h.resolve_left fun h' => hr h'.1).2.mono (hfail _)

/-- What `piix4_asf_enable` leaves to probe. -/
theorem piix4AsfEnable_spec (hserv : call.service = false) :
    Triple (rules k b call t) (Calling t Probing) (piix4AsfEnable b.dev b.auxSmba)
      fun _ => Calling t Probed := by
  have hprobed : ∀ s, Inv k b s → Calling t Probing s → Calling t Probed s :=
    fun s hs h => h.mono fun hF => Probing.probed hs.core hF.2
  unfold piix4AsfEnable
  refine Triple.bind readCalling_spec fun a => ?_
  by_cases hbase : a.smba = 0 ∨ a.smba ≠ b.auxSmba
  · rw [if_pos hbase]
    exact Triple.ret fun s hs h => hprobed s hs (h.mono fun hF => hF.1)
  rw [if_neg hbase]
  have hsmba : a.smba = b.auxSmba := not_not.mp fun hne => hbase (Or.inr hne)
  cases hirq : a.hasIrq with
  | false => exact Triple.ret fun s hs h => hprobed s hs (h.mono fun hF => hF.1)
  | true =>
  rw [if_neg (by decide)]
  by_cases hsize : a.iolen < asfIosize
  · rw [if_pos hsize]
    exact Triple.ret fun s hs h => hprobed s hs (h.mono fun hF => hF.1)
  rw [if_neg hsize]
  have hdone : ∀ s, Inv k b s → Calling t (fun v => Probing v ∧ v.asf.smba = b.auxSmba) s →
      Calling t Probed s := fun s hs h => hprobed s hs (h.mono fun hF => hF.1)
  refine Triple.bind (setCalling_spec (G := fun v => Probing v ∧ v.asf.smba = b.auxSmba)
    (g := fun v => { v with asf := { v.asf with useMmio := piix4Sb800UseMmio b.dev } })
    (fun _ => ⟨rfl, rfl, rfl, rfl⟩) (fun _ => rfl) fun v hv hF => ?_) fun _ => ?_
  · have hread : v.asf.smba = a.smba := hF.2.smba
    exact ⟨hv.setFields hF.1.2 rfl rfl rfl rfl, hF.1, hread.trans hsmba⟩
  refine Triple.bind readCalling_spec fun a' => ?_
  cases hmmio : a'.useMmio with
  | false => exact Triple.ret fun s hs h => hdone s hs (h.mono fun hF => hF.1)
  | true =>
  rw [if_neg (by decide)]
  refine Triple.pre (P := Calling t (Claims b false false)) ?_ fun s hs h => h.mono fun hF => ?_
  · have hend : ∀ s, Inv k b s → Calling t (Claims b false false) s → Calling t Probed s :=
      fun s hs h => hprobed s hs (h.mono fun hF => ⟨hF.enabling, hF.active⟩)
    refine Triple.bind (callingOp_spec (fun _ => .of_other (by simp) (by simp)) fun s r s' he =>
      ⟨_, _, _, (Prod.mk.inj (Option.some.inj he)).2.symm⟩) fun free => ?_
    by_cases hfree : free = 0
    · rw [if_neg (not_not.mpr hfree)]
      refine Triple.bind (callingOp_spec (fun _ => .of_other (by simp) (by simp))
        fun s r s' he => ?_) fun got => ?_
      · simp only [exec] at he
        split at he
        · exact ⟨_, _, _, (Prod.mk.inj (Option.some.inj he)).2.symm⟩
        · exact ⟨_, _, _, (Prod.mk.inj (Option.some.inj he)).2.symm⟩
      cases got with
      | false => exact Triple.ret hend
      | true => exact enableIrq_spec hserv
    · rw [if_pos hfree]
      exact Triple.ret hend
  · have hread : s.coreView.asf.useMmio = a'.useMmio := by rw [hF.2]
    have hnone : s.coreView.requested = false := by
      cases hr : s.coreView.requested with
      | false => rfl
      | true => exact absurd ((hs.core.requested hr).symm.trans hF.1.1.2) (by decide)
    exact ⟨hF.1.1.1, hF.1.1.2, hnone, hF.1.2, hread.trans hmmio⟩

/-- Probe's way to the auxiliary port. -/
theorem claimAux_spec (hserv : call.service = false) :
    Triple (rules k b call t) (Calling t Probing) (claimAux b) fun _ => Calling t Probed := by
  unfold claimAux
  refine Triple.bind (callingOp_spec (fun _ => .of_other (by simp) (by simp))
    fun s r s' he => ?_) fun got => ?_
  · simp only [exec] at he
    split at he
    · exact ⟨_, _, _, (Prod.mk.inj (Option.some.inj he)).2.symm⟩
    · exact ⟨_, _, _, (Prod.mk.inj (Option.some.inj he)).2.symm⟩
  cases got with
  | false => exact Triple.ret fun s hs h => h.mono fun hF => Probing.probed hs.core hF.2
  | true => exact Triple.bind piix4AsfDetect_spec fun _ => piix4AsfEnable_spec hserv

/-! ## Remove -/

/-- What `piix4_asf_disable` leaves. -/
structure Zeroed (v : CoreView) : Prop where
  enabling : v.enabling = false
  active : v.asf.active = false
  want : v.asf.wantListen = false
  resume : v.asf.resumeListen = false

/-- The block is not claimed and no callback claims it. -/
def Idle (v : CoreView) : Prop := v.enabling = false ∧ v.asf.active = false

/-- `memset(&piix4_asf, 0, sizeof(piix4_asf))`. -/
theorem zero_spec :
    Triple (rules k b call t) (Calling t Idle) (setAsf fun _ => Piix4Asf.zero)
      fun _ => Calling t Zeroed := by
  refine core_op (fun _ => stable_calling) (fun _ => .of_other (by simp) (by simp))
    fun s r s' hs hP he => ?_
  obtain rfl : { s with asf := Piix4Asf.zero } = s' := (Prod.mk.inj (Option.some.inj he)).2
  obtain ⟨hen, hno⟩ := hP.1.2
  have henabling : s.life.enabling = false := hen
  have hinactive : s.asf.active = false := hno
  refine ⟨?_, ⟨hP.1.1, ⟨hen, rfl, rfl, rfl⟩⟩, hP.2⟩
  have hnone : s.irq.requested = false := by
    cases hr : s.irq.requested with
    | false => rfl
    | true => exact absurd ((hs.requested hr).symm.trans hinactive) (by decide)
  exact {
    owner := hP.1.1
    hw := rfl
    world := rfl
    ghost := rfl
    mutex := rfl
    region := rfl
    life := rfl
    irq := rfl
    delivering := fun _ hd => hd
    lawful := ⟨nofun, fun hr => absurd (hr.symm.trans hnone) (by decide),
      fun hr => absurd (hr.symm.trans hnone) (by decide), fun _ => rfl, fun _ => rfl,
      fun _ _ => rfl, fun _ => rfl, fun _ _ => ⟨rfl, rfl⟩, fun _ hw => Bool.noConfusion hw⟩
    masked := hs.masked
    block := Or.inr (Or.inr (Or.inl (by simp [St.engaged, henabling, hinactive])))
    idle := fun _ hact => Bool.noConfusion hact
    pending := fun _ => rfl
    claim := fun _ hact => Bool.noConfusion hact
    deaf := fun _ => rfl
    intact := fun ht _ => (hs.intact ht).inactive hinactive }

/-- `piix4_asf_stop` of a block that stays claimed. -/
theorem stopClaimed_spec (hwild : ¬ k.Tidy) (hserv : call.service = false) :
    Triple (rules k b call t) (Calling t fun v => v.enabling = false ∧ v.asf.active = true)
      piix4AsfStop fun _ => Calling t (Stopped true) := by
  refine Triple.bind ?_ fun _ => noteCalling_spec trivial nofun
  refine ifActive_spec (p := fun smba => do
    lock .asf
    stopLocked smba
    unlock .asf
    if (← piix4Asf).irqRequested then
      perform .freeIrq
      setAsf fun a => { a with irqRequested := false }
    lock .notify
    perform (.setDeliverOk false)
    unlock .notify) (fun s _ h => absurd (h.1.2.2.symm.trans h.1.2.1.2) (by decide)) ?_
  exact Triple.pre (stopActive_spec hwild hserv) fun s _ h => h.mono fun hF => hF.1

/-- What `piix4_asf_disable` leaves to its callback. -/
theorem piix4AsfDisable_spec (hwild : ¬ k.Tidy) (hserv : call.service = false) :
    Triple (rules k b call t) (Calling t fun v => v.enabling = false) piix4AsfDisable
      fun _ => Calling t Zeroed := by
  have hzero : Triple (rules k b call t) (Calling t Idle)
      (do
        setAsf fun _ => Piix4Asf.zero
        setAsf fun a => { a with irq := -1 }) fun _ => Calling t Zeroed := by
    refine Triple.bind zero_spec fun _ => ?_
    exact setCalling_spec (g := fun v => { v with asf := { v.asf with irq := -1 } })
      (fun _ => ⟨rfl, rfl, rfl, rfl⟩) (fun _ => rfl) fun v hv hF =>
        ⟨hv.setFields hF.active rfl rfl rfl rfl, hF.enabling, hF.active, hF.want, hF.resume⟩
  unfold piix4AsfDisable
  refine Triple.bind readCalling_spec fun a => Triple.bind readCalling_spec fun a' => ?_
  cases hactive : a'.active with
  | false =>
    refine Triple.pre hzero fun s _ h => h.mono fun hF => ⟨hF.1.1, hF.2.active.trans hactive⟩
  | true =>
    refine Triple.learn (φ := a.smba = b.auxSmba) (fun s hs h => ?_) fun hsmba => ?_
    · have hon : s.coreView.asf.active = true := h.1.2.2.active.trans hactive
      exact h.1.2.1.2.smba.symm.trans (hs.core.claimed hon).1
    rw [hsmba]
    refine Triple.bind (Triple.pre (stopClaimed_spec hwild hserv) fun s _ h =>
      h.mono fun hF => ⟨hF.1.1, hF.2.active.trans hactive⟩) fun _ => ?_
    refine Triple.bind (lockCalling_spec fun v h => h.1.2) fun _ => Triple.exists_pre fun c =>
      Triple.pure_pre fun hc => ?_
    refine Triple.learn (φ := c.listening = false) (fun s _ h => ?_) fun hlisten => ?_
    · cases hl : c.listening with
      | false => rfl
      | true =>
        have hwant : c.want = false := h.1.want.symm.trans h.2.2.2.1
        exact absurd ((hc.want hl).symm.trans hwant) (by decide)
    refine Triple.bind (unclaimLocked_spec (G := fun v => v.enabling = false) hserv hc hlisten
      (fun v h => h.1.2) fun v hv hF => ⟨hv.unclaim hF.2.1 hF.2.2, hF.1.1⟩) fun _ => ?_
    refine Triple.bind (unlockReleased_spec fun v h => h.1) fun _ => ?_
    have hrest : Triple (rules k b call t) (Calling t fun v => v.asf.active = false ∧ v.enabling = false)
        (do
          enableReleaseIoregion b.auxSmba
          setAsf fun _ => Piix4Asf.zero
          setAsf fun a => { a with irq := -1 }) fun _ => Calling t Zeroed :=
      Triple.bind releaseIoregion_spec fun _ => Triple.pre hzero fun s _ h =>
        h.mono fun hF => ⟨hF.2, hF.1⟩
    refine Triple.bind readAgain_spec fun a => ?_
    cases a.gsiRegistered with
    | true =>
      exact Triple.bind readAgain_spec fun a' => Triple.bind (unregisterGsi_spec _) fun _ => hrest
    | false => exact hrest

end HostNotify
