import HostNotify.Estates
import HostNotify.Steps

/-!
# The accounts over a whole run

What an event and the start of a call do to the accounts, and the custody of the driver's
machine put together from them.
-/

namespace HostNotify

open Bits Interleaving

variable {k : Setting} {b : Board} {s s' : St} {t u : ℕ} {m : Hand} {c : CoreCall} {v : Estate}

/-! ## Events -/

/-- While the line is requested, the block is claimed. -/
theorem Level.apart_claimed (h : Level b s s') (hactive : s.asf.active = true) (u : ℕ) :
    Apart k b u s s' :=
  h.apart fun _ hclear => absurd (hclear.symm.trans hactive) (by decide)

/-- The handler masks the source. -/
theorem level_mask (b : Board) (s : St) : Level b s s.mask := by
  cases hr : s.hw.slven[4] with
  | false =>
    rw [mask_eq_of_running hr]
    exact { Level.refl b s with }
  | true =>
    rw [mask_eq_of_reset hr]
    exact { Level.refl b s with }

/-- The handler wakes the thread. -/
theorem wake_orderly (ho : Orderly k b s) (hline : s.irq.requested = true) : Orderly k b s.wake := by
  have hactive : s.asf.active = true := (ho.lawful.requested hline).1
  refine { ho with rest := fun hnone => ⟨(ho.rest hnone).1, fun hb => ?_⟩, masked := fun _ => hline }
  have hloaded := congrArg Piix4Asf.active ((ho.rest hnone).1.fresh hb)
  exact absurd (hloaded.symm.trans hactive) (by decide)

/-- An interrupt leaves alone what other threads have in hand. -/
theorem wake_apart (ho : Orderly k b s) (hline : s.irq.requested = true) (u : ℕ) :
    Apart k b u s s.wake :=
  { Apart.refl k b u s with
    shows := fun _ hclear _ => absurd (hclear.symm.trans (ho.lawful.requested hline).1) (by decide)
    still := fun _ hstill => absurd (hstill.requested.symm.trans hline) (by decide) }

/-- DecodeEn is due as the firmware wrote it. -/
theorem due_firmware {g : Ghost} {d : BitVec 32} (hfirmware : g.firmware = d)
    (hwrote : g.wrote = (getElem d 16 (fits rfl), getElem d 17 (fits rfl))) : g.due = d := by
  ext j hj
  rw [Ghost.due_getElem, hfirmware, hwrote]
  split
  · next h => simp [h]
  · split
    · next h => simp [h]
    · rfl

/-- Firmware writes while the system sleeps, and where it spares DecodeEn, while nobody holds the
region. -/
theorem firmware_kept {h : Target} (ho : Orderly k b s)
    (hasleep : s.life.asleep = true) (hfree : k.Spares → s.region = none)
    (hs : s' = { s with
      hw := h
      ghost := { s.ghost with
        touched := true, firmware := h.decodeEn
        wrote := (getElem h.decodeEn 16 (fits rfl), getElem h.decodeEn 17 (fits rfl)) } }) :
    Orderly k b s' ∧ ∀ u, Apart k b u s s' := by
  have hdue : s'.ghost.due = s'.hw.decodeEn := by
    subst hs
    exact due_firmware rfl rfl
  have hawake : s'.life.asleep = false → False := by
    subst hs
    exact fun hno => absurd (hno.symm.trans hasleep) (by decide)
  constructor
  · subst hs
    exact { ho with
      released := fun _ _ => hdue.symm
      decodeEn := fun _ j hj _ => by simp only [hdue]
      before := fun _ _ hno => (hawake hno).elim }
  · intro u
    subst hs
    exact { Apart.refl k b u s with
      untouched := fun hown hfirm => by
        rcases hfirm with hk | ⟨-, hno⟩
        · exact absurd ((hfree hk).symm.trans hown) (by simp)
        · exact absurd (hno.symm.trans hasleep) (by decide)
      decodeEn := fun _ hno => nomatch hno
      due := fun hk hown => absurd ((hfree hk).symm.trans hown) (by simp)
      shows := fun _ _ hno => absurd (hno.symm.trans hasleep) (by decide) }

/-- No event falsifies an account. -/
theorem react_kept {e : Event} (ho : Orderly k b s)
    (he : react k b e s = some s') : Orderly k b s' ∧ ∀ u, Apart k b u s s' := by
  have hsame : ∀ s', Alike b s s' → Orderly k b s' ∧ ∀ u, Apart k b u s s' :=
    fun s' h => ⟨h.toLevel.orderly ho, h.apart⟩
  cases e with
  | hardIrq =>
    obtain ⟨hline, _, rfl | ⟨_, ⟨_, rfl⟩ | ⟨_, rfl⟩⟩⟩ := hardIrq_cases he
      fun hline => (ho.lawful.claimed (ho.lawful.requested hline).1).1
    · exact hsame _ (.refl b s')
    · exact ⟨wake_orderly ho hline, wake_apart ho hline⟩
    · exact ⟨(level_mask b s).orderly ho, (level_mask b s).apart_claimed (ho.lawful.requested hline).1⟩
  | world w =>
    simp only [react, Option.ite_none_right_eq_some, Option.some.injEq] at he
    obtain ⟨_, rfl⟩ := he
    exact hsame _ { Alike.refl b s with }
  | receive i data rwptr =>
    simp only [react, Option.ite_none_right_eq_some, Option.some.injEq] at he
    obtain ⟨_, rfl⟩ := he
    refine hsame _ ?_
    cases i <;> exact { Alike.refl b s with }
  | rxError errors signal =>
    simp only [react, Option.ite_none_right_eq_some, Option.some.injEq] at he
    obtain ⟨_, rfl⟩ := he
    exact hsame _ { Alike.refl b s with }
  | stick i =>
    simp only [react, Option.ite_none_right_eq_some, Option.some.injEq] at he
    obtain ⟨_, rfl⟩ := he
    refine hsame _ ?_
    cases i <;> exact { Alike.refl b s with }
  | firmware h =>
    simp only [react, Option.ite_none_right_eq_some, Option.some.injEq, Bool.and_eq_true,
      Bool.or_eq_true, Option.isNone_iff_eq_none] at he
    obtain ⟨⟨⟨⟨_, hasleep⟩, hquiet⟩, hspare⟩, rfl⟩ := he
    refine firmware_kept ho hasleep (fun hk => ?_) rfl
    rcases hk with hk | hk
    · exact (hquiet.resolve_left fun hintrude => absurd (hk.symm.trans hintrude) (by decide)).2
    · exact hspare.resolve_left fun htrample => absurd (hk.symm.trans htrample) (by decide)

/-! ## Beginnings -/

/-- The conditions on which a callback begins, in terms of the estate. -/
def Estate.MayBegin (v : Estate) : CoreCall → Prop
  | .enable => v.bound = false ∧ v.asleep = false ∧ v.registered = false
  | .addAdapter => v.bound = true ∧ v.asleep = false ∧ v.registered = false ∧ v.auxHeld = true
  | .start => v.bound = true ∧ v.asleep = false ∧ v.auxAdapter = true
  | .stop => v.bound = true ∧ v.auxAdapter = true
  | .adapRemove => v.bound = true ∧ v.asleep = false ∧ v.auxAdapter = true ∧ v.halted = true
  | .disable => v.registered = true ∨ v.auxHeld = false
  | .suspend => v.asleep = false ∧ v.leaving = false
  | .resume => v.asleep = true ∧ v.leaving = false

/-- The account of a callback at its beginning. -/
def Hand.calling (c : CoreCall) (v : Estate) : Hand :=
  { Hand.empty (.core c (v.begin c)) with still := !v.bound }

/-- The accounts a call begins with. -/
def Starts (b : Board) : Call → Hand → Prop
  | .transfer x, m => x.smba = b.auxSmba ∧ m = { Hand.empty .aux with window := true }
  | .plainTransfer x, m => x.smba = b.auxSmba ∧ m = { Hand.empty .aux with window := true }
  | .mainTransfer a x, m => ((a.smba = b.mainSmba ∧ x.smba = b.mainSmba) ∧
      a.useMmio = piix4Sb800UseMmio b.dev ∧ a.port &&& ~~~PortGlobals.kerncz.mask = 0) ∧
      m = Hand.empty .main
  | .irqThread, m => m = { Hand.empty .thread with active := true }
  | .core c, m => ∃ v, v.Lawful b ∧ v.Rest ∧ v.MayBegin c ∧ m = Hand.calling c v

/-- An estate in which a callback may begin is lawful after it has. -/
theorem Estate.Lawful.begin (h : v.Lawful b) {c : CoreCall} (hmay : v.MayBegin c) :
    (v.begin c).Lawful b := by
  have henabling : (v.begin c).enabling = true → (v.begin c).registered = false := by
    cases c with
    | enable => exact fun _ => hmay.2.2
    | _ => exact h.enabling
  cases c <;> exact { h with
    enabling := henabling
    registered := h.registered
    requested := h.requested
    active := h.active
    delivering := h.delivering
    wanted := fun hw => (h.wanted hw).imp id fun hl => ⟨by first | rfl | exact hl.1, hl.2⟩
    halted := by first | exact h.halted | exact fun hno => nomatch hno }

/-- The estate of the state after a callback has begun. -/
theorem estate_begin (t : ℕ) (c : CoreCall) : (s.begin t c).estate b = (s.estate b).begin c := by
  cases c <;> rfl

/-- Only the window of the auxiliary port has its size. -/
theorem holdsAux_estate (ho : Orderly k b s) : s.holdsAux = (s.estate b).auxHeld := by
  have hmem : ∀ w ∈ s.windows, (w.2 == smbiosize) = true ↔ w = b.auxWindow := by
    intro w hw
    rcases ho.windows w hw with rfl | rfl
    · exact ⟨fun _ => rfl, fun _ => rfl⟩
    · exact iff_of_false (fun h => nomatch h) fun h => nomatch congrArg Prod.snd h
  apply Bool.eq_iff_iff.mpr
  simp only [St.holdsAux, List.any_eq_true, St.estate, decide_eq_true_eq]
  constructor
  · rintro ⟨w, hw, hsize⟩
    exact (hmem w hw).mp hsize ▸ hw
  · intro hw
    exact ⟨_, hw, rfl⟩

/-- Where a callback may begin, nobody owns the driver and its estate agrees. -/
theorem mayBegin_estate (ho : Orderly k b s) (h : s.mayBegin k c = true) :
    s.life.owner = none ∧ (s.estate b).MayBegin c := by
  refine ⟨mayBegin_owner h, ?_⟩
  unfold St.mayBegin at h
  rw [Bool.and_eq_true] at h
  have hcond := h.2
  cases c <;>
    simp only [holdsAux_estate ho, Bool.and_eq_true, Bool.not_eq_true', Bool.or_eq_true] at hcond
  case enable => exact ⟨hcond.1.1.1, hcond.1.1.2, hcond.2⟩
  case addAdapter => exact ⟨hcond.1.1.1, hcond.1.1.2, hcond.1.2, hcond.2⟩
  case start => exact ⟨hcond.1.1.1, hcond.1.1.2, hcond.1.2⟩
  case stop => exact ⟨hcond.1.2, hcond.2⟩
  case adapRemove => exact ⟨hcond.1.1.1.2, hcond.1.1.2, hcond.1.2, hcond.2⟩
  case disable => exact hcond.2
  case suspend => exact ⟨hcond.1.2, hcond.2⟩
  case resume => exact ⟨hcond.1.2, hcond.2⟩

/-- A thread that has not begun takes no part. -/
theorem Tie.absent (ht : Tie k b t (Hand.empty .idle) s) :
    t ∉ s.life.aux ∧ s.irq.running ≠ some t ∧ s.life.owner ≠ some t :=
  ⟨ht.notAux nofun, ht.notThread nofun, ht.notCore fun _ _ h => nomatch h⟩

/-- A callback begins: the estate is at rest, and from here on its own. -/
theorem begin_kept (ho : Orderly k b s) (ht : Tie k b t (Hand.empty .idle) s)
    (h : s.mayBegin k c = true) :
    Orderly k b (s.begin t c) ∧ (∃ m, Starts b (.core c) m ∧ Tie k b t m (s.begin t c)) ∧
      ∀ u, u ≠ t → Apart k b u s (s.begin t c) := by
  obtain ⟨hnone, hmay⟩ := mayBegin_estate ho h
  obtain ⟨hrest, hpend⟩ := ho.rest hnone
  have hestate : (s.begin t c).estate b = (s.estate b).begin c := estate_begin t c
  have howner : (s.begin t c).life.owner = some t := by cases c <;> rfl
  have haux : (s.begin t c).life.aux = s.life.aux := by cases c <;> rfl
  have hreg : (s.begin t c).life.registered = s.life.registered := by cases c <;> rfl
  refine ⟨{ ho with
      lawful := hestate ▸ ho.lawful.begin hmay
      rest := fun hno => absurd (howner.symm.trans hno) (by simp)
      aux := fun hne => hreg.trans (ho.aux (haux ▸ hne))
      listening := fun hl => by
        rw [hreg]
        exact ho.listening hl
      enabling := by
        cases c with
        | enable => exact fun _ => (hpend hmay.1).2
        | _ => exact ho.enabling
      before := fun hk _ _ j hj hf h16 h17 => by
        have hdue : s.hw.decodeEn[j] = s.ghost.due[j] := ho.decodeEn hk j hj hf
        rw [Ghost.due_getElem, if_neg h17, if_neg h16] at hdue
        exact hdue },
    ⟨Hand.calling c (s.estate b), ⟨s.estate b, ho.lawful, hrest, hmay, rfl⟩, ?_⟩,
    fun u hu => { Apart.refl k b u s with
      aux := by rw [haux]
      owner := by
        rw [howner, hnone]
        exact ⟨fun h => absurd (Option.some.inj h).symm hu, nofun⟩
      estate := fun hown => absurd (hnone.symm.trans hown) (by simp)
      window := fun _ hr => hreg.trans hr }⟩
  refine ht.enroll ⟨rfl, rfl, rfl, rfl, rfl⟩ rfl rfl rfl rfl ?_ ?_ ?_ ?_ (fun h => nomatch h)
    (fun h => nomatch h) (fun h => nomatch h) fun hstill => ?_
  · rw [haux]
    exact iff_of_false ht.absent.1 nofun
  · exact iff_of_false ht.absent.2.1 nofun
  · exact ⟨fun _ => ⟨c, _, rfl, trivial⟩, fun _ => howner⟩
  · intro c' v hrole
    obtain ⟨_, rfl⟩ := Role.core.inj hrole
    exact hestate
  · -- an unbound driver has nothing pending
    have hb : s.life.bound = false := Bool.not_eq_true' _ ▸ hstill
    have hloaded : s.asf.active = false := congrArg Piix4Asf.active (hrest.fresh hb)
    have hreq : s.irq.requested = false := by
      by_contra hr
      have hclaimed := (ho.lawful.requested (Bool.not_eq_false _ ▸ hr)).1
      exact absurd (hclaimed.symm.trans hloaded) (by decide)
    exact ⟨⟨(hpend hb).1, (hpend hb).2, hloaded, hreq⟩, c, _, rfl, trivial⟩

/-- A transfer on the auxiliary adapter begins. -/
theorem join_kept (ho : Orderly k b s) (ht : Tie k b t (Hand.empty .idle) s)
    (hreg : s.life.registered = true)
    (hs : s' = { s.fresh t with life := { s.life with aux := t :: s.life.aux } }) :
    Orderly k b s' ∧ Tie k b t { Hand.empty .aux with window := true } s' ∧
      ∀ u, u ≠ t → Apart k b u s s' := by
  subst hs
  refine ⟨{ ho with lawful := ho.lawful, rest := ho.rest, aux := fun _ => hreg }, ?_,
    fun u hu => { Apart.refl k b u s with aux := by simp [hu] }⟩
  refine ht.enroll ⟨rfl, rfl, rfl, rfl, rfl⟩ rfl rfl rfl rfl (by simp) ?_ ?_ (fun _ _ h => nomatch h)
    (fun h => nomatch h) (fun h => nomatch h) (fun _ => ⟨hreg, rfl⟩) (fun h => nomatch h)
  · exact iff_of_false ht.absent.2.1 nofun
  · exact iff_of_false ht.absent.2.2 fun ⟨_, _, h, _⟩ => nomatch h

/-- The IRQ thread begins; only a requested line wakes it, and its block is claimed. -/
theorem wakeup_kept (ho : Orderly k b s) (ht : Tie k b t (Hand.empty .idle) s)
    (hwoken : s.irq.woken = true) (hnone : s.irq.running = none)
    (hs : s' = { s.fresh t with
      irq := { s.irq with woken := false, running := some t, served := false } }) :
    Orderly k b s' ∧ Tie k b t { Hand.empty .thread with active := true } s' ∧
      ∀ u, u ≠ t → Apart k b u s s' := by
  have hline : s.irq.requested = true := ho.masked (by simp [IrqLine.masked, hwoken])
  have hactive : s.asf.active = true := (ho.lawful.requested hline).1
  subst hs
  refine ⟨{ ho with lawful := ho.lawful, rest := ho.rest, masked := fun _ => hline }, ?_,
    fun u hu => { Apart.refl k b u s with
      thread := by
        rw [hnone]
        exact ⟨fun h => absurd (Option.some.inj h).symm hu, (by intros; contradiction)⟩
      active := fun _ h => h
      window := fun _ h => h }⟩
  refine ht.enroll ⟨rfl, rfl, rfl, rfl, rfl⟩ rfl rfl rfl rfl ?_ ⟨fun _ => rfl, fun _ => rfl⟩ ?_
    (fun _ _ h => by cases h) (fun h => by cases h) (fun _ => ⟨hactive, rfl⟩) (fun h => by cases h)
    (fun h => by cases h)
  · exact iff_of_false ht.absent.1 (by rintro ⟨⟩)
  · exact iff_of_false ht.absent.2.2 (by rintro ⟨_, _, h, _⟩; cases h)

/-- Every call begins with an account that is true. -/
theorem enter_kept {call : Call} (ho : Orderly k b s)
    (ht : Tie k b t (Hand.empty .idle) s) (he : enter k b call t s = some s') :
    Orderly k b s' ∧ (∃ m, Starts b call m ∧ Tie k b t m s') ∧ ∀ u, u ≠ t → Apart k b u s s' := by
  cases call with
  | transfer x =>
    simp only [enter, Option.ite_none_right_eq_some, Option.some.injEq] at he
    obtain ⟨⟨hx, hreg, _⟩, rfl⟩ := he
    obtain ⟨ho', ht', hapart⟩ := join_kept ho ht hreg rfl
    exact ⟨ho', ⟨_, ⟨hx, rfl⟩, ht'⟩, hapart⟩
  | plainTransfer x =>
    simp only [enter, Option.ite_none_right_eq_some, Option.some.injEq] at he
    obtain ⟨⟨hx, hreg, _⟩, rfl⟩ := he
    obtain ⟨ho', ht', hapart⟩ := join_kept ho ht hreg rfl
    exact ⟨ho', ⟨_, ⟨hx, rfl⟩, ht'⟩, hapart⟩
  | mainTransfer a x =>
    simp only [enter, Option.ite_none_right_eq_some, Option.some.injEq] at he
    obtain ⟨⟨hmain, hrequest⟩, rfl⟩ := he
    refine ⟨ho, ⟨Hand.empty .main, ⟨hrequest, rfl⟩, ?_⟩, fun u _ => .refl k b u s⟩
    refine ht.enroll ⟨rfl, rfl, rfl, rfl, rfl⟩ rfl rfl rfl rfl ?_ ?_ ?_ (fun _ _ h => by cases h)
      (fun _ => hmain) (fun h => by cases h) (fun h => by cases h) (fun h => by cases h)
    · exact iff_of_false ht.absent.1 (by rintro ⟨⟩)
    · exact iff_of_false ht.absent.2.1 (by rintro ⟨⟩)
    · exact iff_of_false ht.absent.2.2 (by rintro ⟨_, _, h, _⟩; cases h)
  | irqThread =>
    simp only [enter, Option.ite_none_right_eq_some, Option.some.injEq, Bool.and_eq_true,
      Option.isNone_iff_eq_none] at he
    obtain ⟨⟨hwoken, hnone⟩, rfl⟩ := he
    obtain ⟨ho', ht', hapart⟩ := wakeup_kept ho ht hwoken hnone rfl
    exact ⟨ho', ⟨_, rfl, ht'⟩, hapart⟩
  | core c =>
    simp only [enter, Option.ite_none_right_eq_some, Option.some.injEq] at he
    obtain ⟨hmay, rfl⟩ := he
    exact begin_kept ho ht hmay

/-! ## Steps -/

/-- One permitted operation keeps the accounts. -/
theorem step_kept {o : Op} {r : o.Ans} (ho : Orderly k b s) (ht : Tie k b t m s)
    (hallow : m.allows k b o) (he : exec b t o s = some (r, s')) : Kept k b t m o r s s' := by
  cases o with
  | inb port => exact kept_inb ho ht he
  | outb x port => exact kept_outb ho ht hallow he
  | ioread32 => exact kept_ioread32 ho ht he
  | iowrite32 d => exact kept_iowrite32 ho ht hallow he
  | ioread8 offset => exact kept_ioread8 ho ht he
  | iowrite8 x offset => exact kept_iowrite8 ho ht hallow he
  | asf => exact kept_asf ho ht he
  | setAsf f => exact kept_setAsf ho ht hallow he
  | xchgPending x =>
    obtain rfl : x = false := hallow
    exact kept_xchgPending ho ht he
  | deliverOk => exact kept_deliverOk ho ht hallow he
  | setDeliverOk x => exact kept_setDeliverOk ho ht hallow he
  | setAuxAdapter x => exact kept_setAuxAdapter ho ht hallow he
  | lock l => exact kept_lock ho ht he
  | unlock l => exact kept_unlock ho ht hallow he
  | requestMemRegionMuxed => exact kept_requestMemRegionMuxed ho ht he
  | releaseMemRegion => exact kept_releaseMemRegion ho ht hallow he
  | ioremap => exact kept_ioremap ho ht he
  | requestMuxedRegion start len => exact kept_requestMuxedRegion ho ht hallow he
  | requestRegion start len => exact kept_requestRegion ho ht hallow he
  | releaseRegion start len => exact kept_releaseRegion ho ht hallow he
  | acpiRegisterGsi gsi x y => exact kept_acpiRegisterGsi ho ht hallow he
  | acpiUnregisterGsi gsi => exact kept_acpiUnregisterGsi ho ht hallow he
  | requestThreadedIrq irq shared => exact kept_requestThreadedIrq ho ht hallow he
  | freeIrq => exact kept_freeIrq ho ht hallow he
  | i2cHandleSmbusHostNotify addr => exact kept_handle ho ht he
  | i2cAddAdapter algo => exact kept_i2cAddAdapter ho ht hallow he
  | i2cDelAdapter => exact kept_i2cDelAdapter ho ht hallow he
  | mark mk => exact kept_mark ho ht hallow he
  | irqThreadDone => exact kept_irqThreadDone ho ht hallow he
  | transferDone => exact kept_transferDone ho ht hallow he
  | coreDone c => exact kept_coreDone ho ht hallow he
  | auxAdapter | acpiCheckRegion | synchronizeHardirq | usleepRange | dynamicDebug | acpiDevPresent
  | smb0001Devices | asfHostNotify | kzalloc =>
    exact kept_ask ho ht (Prod.mk.inj (Option.some.inj he)).2.symm rfl

/-- What a call is there for, until it is done. -/
def Serves : Call → Role → Prop
  | .transfer _, r => r = .aux ∨ r = .idle
  | .plainTransfer _, r => r = .aux ∨ r = .idle
  | .mainTransfer _ _, r => r = .main ∨ r = .idle
  | .irqThread, r => r = .thread ∨ r = .idle
  | .core c, r => (∃ v, r = .core c v) ∨ r = .idle

/-- A hand that begins with a call serves it. -/
theorem Starts.serves {call : Call} (h : Starts b call m) : Serves call m.role := by
  cases call with
  | transfer x => exact Or.inl (h.2 ▸ rfl)
  | plainTransfer x => exact Or.inl (h.2 ▸ rfl)
  | mainTransfer a x => exact Or.inl (h.2 ▸ rfl)
  | irqThread => exact Or.inl (congrArg Hand.role (show m = _ from h))
  | core c =>
    obtain ⟨v, _, _, _, rfl⟩ := h
    exact Or.inl ⟨v.begin c, rfl⟩

/-- A role is kept up to the callback's estate, or laid down. -/
structure Role.Leads (r r' : Role) : Prop where
  same : r' = r ∨ (∃ c v v', r = .core c v ∧ r' = .core c v') ∨ r' = .idle

/-- Every role leads to itself. -/
theorem Role.Leads.refl (r : Role) : r.Leads r := ⟨Or.inl rfl⟩

/-- Assigning to the estate leads to the same role. -/
theorem Hand.onEstate_leads (m : Hand) (g : Estate → Estate) : m.role.Leads (m.onEstate g).role := by
  unfold Hand.onEstate
  split
  · next c v hrole => exact ⟨Or.inr (Or.inl ⟨c, v, g v, hrole, rfl⟩)⟩
  · exact .refl _

/-- What an operation makes of a hand leads on from its role. -/
theorem Hand.moves_leads {m' : Hand} {o : Op} {r : o.Ans} (h : m.moves k b o r m') :
    m.role.Leads m'.role := by
  have hsame : m'.role = m.role → m.role.Leads m'.role := fun hr => ⟨Or.inl hr⟩
  cases o
  case inb => exact hsame (by rw [h.1])
  case outb =>
    refine hsame ?_
    rw [show m' = m.written b _ _ from h, Hand.written]
    split
    · split <;> rfl
    · rfl
  case ioread32 => exact hsame (by rw [h.1])
  case ioread8 =>
    obtain ⟨_, _, _, _, rfl⟩ := h
    exact .refl _
  case asf =>
    refine hsame ?_
    rw [h.2, Hand.read]
    split <;> rfl
  case setAsf =>
    rw [show m' = _ from h, Hand.store]
    split
    · next c v hrole => exact ⟨Or.inr (Or.inl ⟨c, v, _, hrole, rfl⟩)⟩
    · exact .refl _
  case requestMemRegionMuxed =>
    unfold Hand.moves at h
    dsimp only at h
    split at h
    · obtain ⟨d, rfl⟩ := h
      exact .refl _
    · exact h ▸ m.onEstate_leads _
  case requestMuxedRegion =>
    refine hsame ?_
    rw [show m' = _ from h]
    split
    · split <;> rfl
    · rfl
  case requestRegion =>
    rw [show m' = _ from h]
    split
    · exact m.onEstate_leads _
    · exact .refl _
  case releaseRegion =>
    rw [show m' = _ from h]
    split
    · next c v hrole => exact ⟨Or.inr (Or.inl ⟨c, v, _, hrole, rfl⟩)⟩
    · split <;> exact .refl _
  case lock l =>
    refine hsame ?_
    cases l <;> rw [show m' = _ from h]
  case unlock l =>
    refine hsame ?_
    cases l <;> rw [show m' = _ from h]
  case mark mk =>
    cases mk
    case bootSaved =>
      obtain ⟨g, _, rfl⟩ := h
      exact m.onEstate_leads _
    case starting | stopped | registrationFailed => exact (show m' = _ from h) ▸ m.onEstate_leads _
    all_goals exact hsame ((congrArg role (show m' = _ from h)).trans rfl)
  case setDeliverOk | setAuxAdapter | ioremap | acpiRegisterGsi | acpiUnregisterGsi |
      requestThreadedIrq | freeIrq | i2cAddAdapter | i2cDelAdapter =>
    exact (show m' = _ from h) ▸ m.onEstate_leads _
  case irqThreadDone | transferDone | coreDone =>
    exact ⟨Or.inr (Or.inr (congrArg role (show m' = _ from h)))⟩
  all_goals exact hsame ((congrArg role (show m' = _ from h)).trans rfl)

/-- A hand serves the same call after an operation. -/
theorem Serves.moves {call : Call} {m' : Hand} {o : Op} {r : o.Ans} (h : Serves call m.role)
    (hm : m.moves k b o r m') : Serves call m'.role := by
  rcases (Hand.moves_leads hm).same with hsame | ⟨c, v, v', hold, hnew⟩ | hidle
  · rw [hsame]
    exact h
  · rw [hold] at h
    rw [hnew]
    cases call with
    | core c' =>
      rcases h with ⟨v₀, hrole⟩ | hrole
      · obtain ⟨rfl, _⟩ := Role.core.inj hrole
        exact Or.inl ⟨v', rfl⟩
      · exact nomatch hrole
    | _ => rcases h with hrole | hrole <;> exact nomatch hrole
  · rw [hidle]
    cases call <;> exact Or.inr rfl

/-- A call that has returned holds no lock and no region, and has no part in anything. -/
def Resting (m : Hand) : Prop := m.Free ∧ (m.role = .main ∨ m.role = .idle)

/-- The accounts of the driver's machine. -/
def custody (k : Setting) (b : Board) : Custody (machine k b) (ledger k b) where
  known _ := True
  inv := Orderly k b
  tie := Tie k b
  idle := Hand.empty .idle
  starts := Starts b
  during call m := Serves call m.role
  rest := Resting
  starts_during _ _ h := h.serves
  moves_during _ _ _ _ _ h hm := h.moves hm
  event_keeps e s s' _ ho he := by
    obtain ⟨ho', hapart⟩ := react_kept ho he
    exact ⟨ho', fun u m ht => ht.apart (hapart u)⟩
  enter_keeps c t s s' _ ho ht he := by
    obtain ⟨ho', hstart, hapart⟩ := enter_kept ho ht he
    exact ⟨ho', hstart, fun u m hu hm => hm.apart (hapart u hu)⟩
  step_keeps c t m o s r s' _ ho ht _ hallow _ he := by
    have hkept := step_kept ho ht hallow he
    exact ⟨hkept.orderly, hkept.account, fun u m hu hm => hm.apart (hkept.others u hu)⟩

/-- The accounts before the first call. -/
theorem unbound_kept (h : Unbound k s) : Orderly k b s ∧ ∀ t, Tie k b t (Hand.empty .idle) s := by
  have hestate : s.estate b = { asf := Piix4Asf.loaded, requested := false, deliverOk := false
                                auxAdapter := false, auxHeld := false, asfHeld := false
                                gsiHeld := false, registered := false, enabling := false
                                bound := false, asleep := false, leaving := false
                                halted := false, fenced := true, orphaned := false
                                granted := s.granted, boot := s.hw } := by
    simp [St.estate, h.asf, h.irq, h.deliverOk, h.auxAdapter, h.windows, h.gsiHeld, h.life, h.ghost]
    rfl
  have hdue : s.ghost.due = s.hw.decodeEn := by
    rw [h.ghost]
    exact due_firmware rfl rfl
  have howner : s.life.owner = none := by rw [h.life]
  have haux : s.life.aux = [] := by rw [h.life]
  have hrun : s.irq.running = none := by rw [h.irq]
  have hsilent : s.asf.listening = false := by
    rw [h.asf]
    rfl
  constructor
  · refine {
      lawful := ?_
      rest := fun _ => ⟨?_, fun _ => ?_⟩
      aux := fun hne => absurd haux hne
      listening := fun hl => ?_
      enabling := fun _ => hsilent
      masked := fun hm => ?_
      windows := ?_
      released := fun _ _ => hdue.symm
      decodeEn := fun _ j hj _ => by simp only [hdue]
      before := fun _ hne => absurd howner hne }
    · rw [hestate]
      exact ⟨(by intros; contradiction), (by intros; contradiction), (by intros; contradiction),
        (by intros; contradiction), (by intros; contradiction), (by intros; contradiction),
        by simp [Piix4Asf.loaded, Piix4Asf.zero], (by intros; contradiction)⟩
    · rw [hestate]
      exact ⟨rfl, (by intros; contradiction), fun _ => ⟨rfl, rfl, rfl, rfl⟩, rfl, fun _ => rfl, fun _ _ => rfl⟩
    · refine ⟨?_, hsilent⟩
      rw [h.asf]
      rfl
    · exact absurd (hl.symm.trans hsilent) (by decide)
    · rw [h.irq] at hm
      cases hm
    · rw [h.windows]
      intro w hw
      cases hw
  · intro t
    exact {
      mutex := by simp [h.mutex, Hand.empty]
      notify := by simp [h.notifyMutex, Hand.empty]
      region := by simp [h.region, Hand.empty]
      pm := by simp [h.muxed, Hand.empty]
      imc := by simp [h.muxed, Hand.empty]
      aux := iff_of_false (by simp [haux]) (by rintro ⟨⟩)
      thread := iff_of_false (by simp [hrun]) (by rintro ⟨⟩)
      owner := iff_of_false (by simp [howner]) (by rintro ⟨_, _, hrole, _⟩; cases hrole)
      estate := fun _ _ hrole => by cases hrole
      main := (by intros; contradiction)
      untouched := fun _ hheld => absurd rfl hheld
      decodeEn := fun _ p hp => by cases hp
      due := fun _ p hp => by cases hp
      active := (by intros; contradiction)
      window := (by intros; contradiction)
      ok := (by intros; contradiction)
      unclaimed := fun hne => absurd rfl hne
      shows := fun _ => .nothing _ _
      still := (by intros; contradiction) }

end HostNotify
