import HostNotify.Interleaving.Alone
import HostNotify.Holdings
import HostNotify.Listening

/-!
# Claiming the block, or leaving it alone

`piix4_asf_enable` run by itself, from any contents of the registers and with any outcome of
each step that can fail. The outcome of the region request made while undoing is its own: it
need not be that of the request made while claiming.
-/

namespace HostNotify

open Bits Interleaving

/-! ## The steps that can fail -/

/-- How a request for the FCH PM region comes out. -/
inductive RegionAnswer where
  | granted | busy | unmapped
  deriving DecidableEq

/-- The value `piix4_sb800_region_request` returns. -/
def RegionAnswer.code : RegionAnswer → Int
  | .granted => 0
  | .busy => -ebusy
  | .unmapped => -enomem

/-- The region has been got if the code is zero. -/
@[simp] theorem RegionAnswer.code_eq_zero (r : RegionAnswer) : r.code = 0 ↔ r = .granted := by
  cases r <;> decide

/-- The outcomes of the steps that `piix4_asf_enable` performs after its validation. -/
structure Outcomes where
  /-- `acpi_check_region` finds a conflict. -/
  acpiBusy : Bool
  /-- `request_region` finds the window taken. -/
  windowBusy : Bool
  /-- The value of `acpi_register_gsi`. -/
  gsi : Int
  /-- The region request made while claiming. -/
  claim : RegionAnswer
  /-- The value of `request_threaded_irq`. -/
  irq : Int
  /-- The region request made while undoing. -/
  undo : RegionAnswer

namespace Outcomes

variable (o : Outcomes)

/-- The answer to a region request, before and after `request_threaded_irq` has been called. -/
def region (asked : Bool) : RegionAnswer := if asked then o.undo else o.claim

/-- The surroundings as an operation finds them. -/
def world (asked : Bool) (w : World) : Op → World
  | .acpiCheckRegion _ _ => { w with windowBusy := o.acpiBusy }
  | .requestRegion _ _ => { w with windowBusy := o.windowBusy }
  | .acpiRegisterGsi _ _ _ => { w with gsiAnswer := o.gsi }
  | .requestMemRegionMuxed => { w with regionBusy := decide (o.region asked = .busy) }
  | .ioremap => { w with ioremapFails := decide (o.region asked = .unmapped) }
  | .requestThreadedIrq _ _ => { w with irqAnswer := o.irq }
  | _ => w

end Outcomes

/-- The call of `request_threaded_irq`. -/
def Op.asksIrq : Op → Bool
  | .requestThreadedIrq _ _ => true
  | _ => false

/-- One operation of thread `t` under the given outcomes; the flag is whether
`request_threaded_irq` has been called. -/
def Outcomes.exec (o : Outcomes) (b : Board) (t : ℕ) (op : Op) (x : St × Bool) :
    Option (op.Ans × St × Bool) :=
  (HostNotify.exec b t op { x.1 with world := o.world x.2 x.1.world op }).map
    fun rs => (rs.1, rs.2, x.2 || op.asksIrq)

/-! ## What the function is about -/

/-- The control registers that `piix4_asf_enable` switches. -/
structure Panel where
  lisaddr : Byte
  slven : Byte
  /-- The control bits of ASFDATABNKSEL. -/
  bnksel : Byte
  mstr : Bool
  clk : Bool

def Target.panel (h : Target) : Panel :=
  { lisaddr := h.lisaddr, slven := h.slven, bnksel := h.bnksel &&& ~~~asfBnkFull
    mstr := h.decodeEn.getLsbD 16, clk := h.decodeEn.getLsbD 17 }

namespace Panel

variable (φ : Panel)

/-- Master mode, with the slave in reset and its interrupt masked. -/
structure Master : Prop where
  deaf : getElem φ.lisaddr 0 (fits rfl) = false
  masked : getElem φ.slven 1 (fits rfl) = false
  reset : getElem φ.slven 4 (fits rfl) = true
  fifo : getElem φ.bnksel 7 (fits rfl) = true
  master : φ.mstr = true

/-- The value a register reads as, where the panel determines it. -/
def value : Reg → Option Byte
  | .lisaddr => some φ.lisaddr
  | .slven => some φ.slven
  | _ => none

/-- The effect of a register write. -/
def write (v : Byte) : Reg → Panel
  | .lisaddr => { φ with lisaddr := v }
  | .slven => { φ with slven := v }
  | .bnksel => { φ with bnksel := v &&& ~~~asfBnkFull }
  | _ => φ

/-- What `piix4_asf_master_mode` leaves. -/
def masterMode : Panel :=
  { φ with
    lisaddr := assignBit asfSlvListn φ.lisaddr false
    slven := assignBit asfSlvRst (assignBit asfSlvIntr φ.slven false) true
    bnksel := assignBit asfBnkDataEn φ.bnksel true
    mstr := true }

/-- Master mode is one of the master. -/
theorem masterMode_master : φ.masterMode.Master := by
  constructor <;> simp [masterMode]

/-- Master mode changes a panel that is not there yet. -/
theorem masterMode_eq_iff : φ.masterMode = φ ↔ φ.Master := by
  constructor
  · intro h
    rw [← h]
    exact φ.masterMode_master
  · intro h
    obtain ⟨lisaddr, slven, bnksel, mstr, clk⟩ := φ
    obtain ⟨hdeaf, hmasked, hreset, hfifo, hmaster⟩ := h
    simp only [masterMode, mk.injEq, and_true] at *
    refine ⟨assignBit_same (by decide) hdeaf, ?_, assignBit_same (by decide) hfifo, hmaster.symm⟩
    rw [assignBit_same (by decide) hmasked, assignBit_same (by decide) hreset]

end Panel

/-- What a write changes of the registers. -/
theorem Target.panel_write (h : Target) (v : Byte) (r : Reg) :
    (h.write v r).panel = h.panel.write v r := by
  cases r with
  | slven => cases hv : v[4] <;> simp [Target.write, hv, Target.panel, Panel.write, Target.slaveReset]
  | bnksel =>
    simp only [Target.write, Target.panel, Panel.write, Panel.mk.injEq]
    exact ⟨rfl, rfl, by rw [BitVec.and_assoc, BitVec.and_self], rfl, rfl⟩
  | _ => rfl

/-! ## Where the function stands -/

/-- What the function acts on and decides by. -/
structure Standing where
  asf : Piix4Asf
  panel : Panel
  windows : List (ℕ × ℕ)
  gsiHeld : Bool
  requested : Bool
  locked : Bool
  held : Bool

def St.standing (s : St) : Standing :=
  { asf := s.asf, panel := s.hw.panel, windows := s.windows, gsiHeld := s.gsiHeld
    requested := s.irq.requested, locked := s.mutex.isSome, held := s.region.isSome }

/-- The state and the flag of `Outcomes.exec`. -/
def Standing.At (X : Standing) (asked : Bool) (x : St × Bool) : Prop :=
  x.1.standing = X ∧ x.2 = asked

/-- Assigning a bit inside a mask commutes with masking. -/
theorem assignBit_and {w n : ℕ} (v m : BitVec w) {set : Bool} (hm : m.getLsbD n = true) :
    assignBit n (v &&& m) set = assignBit n v set &&& m := by
  ext i hi
  simp only [getElem_assignBit, BitVec.getElem_and]
  by_cases hn : n = i
  · subst hn
    rw [BitVec.getLsbD_eq_getElem hi] at hm
    simp [hm]
  · simp [hn]

section Steps

variable {o : Outcomes} {b : Board} {t : ℕ} {X : Standing} {u : Bool} {x : St × Bool}

/-- The global is assigned. -/
theorem setAsf_ends (f : Piix4Asf → Piix4Asf) (hx : X.At u x) :
    (setAsf f).Ends (o.exec b t) (fun _ y => ∃ a, a = f X.asf ∧ { X with asf := a }.At u y) x := by
  obtain ⟨rfl, rfl⟩ := hx
  exact .op rfl (.ret ⟨_, rfl, rfl, Bool.or_false _⟩)

/-- The global is read. -/
theorem piix4Asf_ends (hx : X.At u x) :
    piix4Asf.Ends (o.exec b t) (fun a y => a = X.asf ∧ X.At u y) x := by
  obtain ⟨rfl, rfl⟩ := hx
  exact .op rfl (.ret ⟨rfl, rfl, Bool.or_false _⟩)

/-- The mutex is taken. -/
theorem lock_ends (hx : X.At u x) (hfree : X.locked = false) :
    (lock .asf).Ends (o.exec b t) (fun _ y => { X with locked := true }.At u y) x := by
  obtain ⟨rfl, rfl⟩ := hx
  have hmutex : x.1.mutex = none :=
    Option.isNone_iff_eq_none.mp (Option.isSome_eq_false_iff.mp hfree)
  have hexec : o.exec b t (.lock .asf) x = some ((), { x.1 with mutex := some t }, x.2 || false) := by
    simp [Outcomes.exec, HostNotify.exec, St.holder, St.setHolder, hmutex, Outcomes.world, Op.asksIrq]
  exact .op hexec (.ret ⟨rfl, Bool.or_false _⟩)

/-- The mutex is given up. -/
theorem unlock_ends (hx : X.At u x) :
    (unlock .asf).Ends (o.exec b t) (fun _ y => { X with locked := false }.At u y) x := by
  obtain ⟨rfl, rfl⟩ := hx
  exact .op rfl (.ret ⟨rfl, Bool.or_false _⟩)

/-- Passing a mark changes nothing. -/
theorem mark_ends (m : Mark) (hx : X.At u x) :
    (mark m).Ends (o.exec b t) (fun _ y => X.At u y) x := by
  obtain ⟨rfl, rfl⟩ := hx
  refine .op rfl (.ret ⟨?_, Bool.or_false _⟩)
  cases m <;> rfl

/-- DecodeEn is read with the two mode bits as they are. -/
theorem ioread32_ends (hx : X.At u x) :
    ioread32.Ends (o.exec b t)
      (fun (v : BitVec 32) y => (getElem v 16 (fits rfl) = X.panel.mstr ∧
        getElem v 17 (fits rfl) = X.panel.clk) ∧ X.At u y) x := by
  obtain ⟨rfl, rfl⟩ := hx
  exact .op rfl (.ret ⟨⟨rfl, rfl⟩, rfl, Bool.or_false _⟩)

/-- DecodeEn is written. -/
theorem iowrite32_ends (v : BitVec 32) (hx : X.At u x) :
    (iowrite32 v).Ends (o.exec b t)
      (fun _ y => { X with
        panel := { X.panel with mstr := getElem v 16 (fits rfl), clk := getElem v 17 (fits rfl) } }.At u y) x := by
  obtain ⟨rfl, rfl⟩ := hx
  exact .op rfl (.ret ⟨rfl, Bool.or_false _⟩)

/-- A register is written. -/
theorem outb_ends {port : ℕ} {r : Reg} (v : Byte) (hr : decode b.auxSmba port = some r)
    (hx : X.At u x) :
    (outb v port).Ends (o.exec b t) (fun _ y => { X with panel := X.panel.write v r }.At u y) x := by
  obtain ⟨rfl, rfl⟩ := hx
  refine .op rfl (.ret ⟨?_, Bool.or_false _⟩)
  simp only [St.portWrite_reg _ _ _ hr, St.standing, Target.panel_write]

/-- A register is read as it was last written. -/
theorem inb_ends {port : ℕ} {r : Reg} {v : Byte} (hr : decode b.auxSmba port = some r)
    (hv : X.panel.value r = some v) (hx : X.At u x) :
    (inb port).Ends (o.exec b t) (fun v' y => v' = v ∧ X.At u y) x := by
  obtain ⟨rfl, rfl⟩ := hx
  refine .op rfl (.ret ?_)
  simp only [St.portRead_reg _ hr]
  cases r with
  | lisaddr => exact ⟨Option.some.inj hv, rfl, Bool.or_false _⟩
  | slven => exact ⟨Option.some.inj hv, rfl, Bool.or_false _⟩
  | _ => cases hv

/-- A read of ASFDATABNKSEL shows the flags beside the control bits. -/
theorem inb_bnksel_ends {port : ℕ} (hr : decode b.auxSmba port = some .bnksel) (hx : X.At u x) :
    (inb port).Ends (o.exec b t) (fun v y => v &&& ~~~asfBnkFull = X.panel.bnksel ∧ X.At u y) x := by
  obtain ⟨rfl, rfl⟩ := hx
  refine .op rfl (.ret ?_)
  simp only [St.portRead_reg _ hr]
  exact ⟨x.1.hw.bnkselValue_and, rfl, Bool.or_false _⟩

/-! ### Helpers -/

/-- A bit of a register is changed. -/
theorem updateIoport_ends {port : ℕ} {r : Reg} {v : Byte} (i : ℕ) (set : Bool)
    (hr : decode b.auxSmba port = some r) (hv : X.panel.value r = some v) (hx : X.At u x) :
    (piix4AsfUpdateIoport i port set).Ends (o.exec b t)
      (fun _ y => { X with panel := X.panel.write (assignBit i v set) r }.At u y) x := by
  refine .bind (inb_ends hr hv hx) ?_
  rintro _ y ⟨rfl, hy⟩
  exact outb_ends _ hr hy

/-- MSTR_EN is changed. -/
theorem updateMstr_ends (set : Bool) (hx : X.At u x) :
    (piix4AsfUpdateMmio asfMstrEn set).Ends (o.exec b t)
      (fun _ y => { X with panel := { X.panel with mstr := set } }.At u y) x := by
  refine .bind (ioread32_ends hx) ?_
  rintro reg y ⟨⟨-, hclk⟩, hy⟩
  refine (iowrite32_ends _ hy).mono fun _ z hz => ?_
  simpa [hclk] using hz

/-- Port 0x07 is routed. -/
theorem bnkselDataEn_ends (set : Bool) (hx : X.At u x) :
    (piix4AsfBnkselDataEn b.auxSmba set).Ends (o.exec b t)
      (fun _ y =>
        { X with panel := { X.panel with bnksel := assignBit asfBnkDataEn X.panel.bnksel set } }.At u y)
      x := by
  refine .bind (inb_bnksel_ends (decode_asfDataBnkSel _) hx) ?_
  rintro reg y ⟨hreg, hy⟩
  refine (outb_ends _ (decode_asfDataBnkSel _) hy).mono fun _ z hz => ?_
  have hmasked : X.panel.bnksel &&& ~~~asfBnkFull = X.panel.bnksel := by
    rw [← hreg, BitVec.and_assoc, BitVec.and_self]
  have hctl : assignBit asfBnkDataEn X.panel.bnksel set &&& ~~~asfBnkFull =
      assignBit asfBnkDataEn X.panel.bnksel set := by
    rw [← assignBit_and _ _ (by decide), hmasked]
  rw [hreg, Panel.write, hctl] at hz
  exact hz

/-- What `piix4_asf_master_mode` leaves in the registers. -/
theorem masterMode_ends (hx : X.At u x) :
    (piix4AsfMasterMode b.auxSmba).Ends (o.exec b t)
      (fun _ y => { X with panel := X.panel.masterMode }.At u y) x := by
  refine .bind (updateIoport_ends _ false (decode_asfLisAddr _) rfl hx) fun _ x₁ h₁ => ?_
  refine .bind (updateIoport_ends _ false (decode_asfSlvEn _) rfl h₁) fun _ x₂ h₂ => ?_
  refine .bind (updateIoport_ends _ true (decode_asfSlvEn _) rfl h₂) fun _ x₃ h₃ => ?_
  refine .bind (outb_ends 0 (decode_asfSlvSta _) h₃) fun _ x₄ h₄ => ?_
  refine .bind (updateMstr_ends true h₄) fun _ x₅ h₅ => ?_
  exact bnkselDataEn_ends true h₅

/-- Clearing the status changes nothing that is restored. -/
theorem clearStatus_ends (hx : X.At u x) :
    (piix4AsfClearStatus b.auxSmba).Ends (o.exec b t) (fun _ y => X.At u y) x := by
  refine .bind (outb_ends 0 (decode_asfSlvSta _) hx) fun _ x₁ h₁ => ?_
  refine .bind (outb_ends 0 (decode_asfSta _) h₁) fun _ x₂ h₂ => ?_
  exact outb_ends _ (decode_asfSta _) h₂

/-- The region is asked for, and answered as the outcomes say. -/
theorem requestMem_ends (hx : X.At u x) (hfree : X.held = false) :
    (perform .requestMemRegionMuxed).Ends (o.exec b t)
      (fun r y => r = decide (o.region u ≠ RegionAnswer.busy) ∧
        { X with held := decide (o.region u ≠ RegionAnswer.busy) }.At u y) x := by
  obtain ⟨rfl, rfl⟩ := hx
  have hregion : x.1.region = none :=
    Option.isNone_iff_eq_none.mp (Option.isSome_eq_false_iff.mp hfree)
  by_cases hbusy : o.region x.2 = .busy
  · have hexec : o.exec b t .requestMemRegionMuxed x = some (false, { x.1 with
        world := o.world x.2 x.1.world .requestMemRegionMuxed }.answer t false, x.2) := by
      simp [Outcomes.exec, HostNotify.exec, hregion, Outcomes.world, hbusy, Op.asksIrq]
    refine .op hexec (.ret ⟨?_, ?_, rfl⟩)
    · simp [hbusy]
    · simp [St.standing, St.answer, hregion, hbusy]
  · have hexec : o.exec b t .requestMemRegionMuxed x = some (true, { x.1 with
        world := o.world x.2 x.1.world .requestMemRegionMuxed
        region := some t, ghost := { x.1.ghost with touched := false } }, x.2) := by
      simp [Outcomes.exec, HostNotify.exec, hregion, Outcomes.world, hbusy, Op.asksIrq]
    refine .op hexec (.ret ⟨?_, ?_, rfl⟩)
    · simp [hbusy]
    · simp [St.standing, hbusy]

/-- The window is mapped, or it is not. -/
theorem ioremap_ends (hx : X.At u x) :
    (perform .ioremap).Ends (o.exec b t)
      (fun r y => r = decide (o.region u ≠ RegionAnswer.unmapped) ∧ X.At u y) x := by
  obtain ⟨rfl, rfl⟩ := hx
  exact .op rfl (.ret ⟨(decide_not).symm, rfl, Bool.or_false _⟩)

/-- The region is given up. -/
theorem releaseMem_ends (hx : X.At u x) :
    (perform .releaseMemRegion).Ends (o.exec b t) (fun _ y => { X with held := false }.At u y) x := by
  obtain ⟨rfl, rfl⟩ := hx
  exact .op rfl (.ret ⟨rfl, Bool.or_false _⟩)

/-- `piix4_sb800_region_request` on a free region. -/
theorem regionRequest_ends (hx : X.At u x) (hfree : X.held = false) :
    (piix4Sb800RegionRequest true).Ends (o.exec b t)
      (fun rc y => rc = (o.region u).code ∧
        { X with held := decide (o.region u = RegionAnswer.granted) }.At u y) x := by
  unfold piix4Sb800RegionRequest
  rw [if_pos rfl]
  refine .bind (requestMem_ends hx hfree) ?_
  rintro _ y ⟨rfl, hy⟩
  cases ho : o.region u with
  | busy => exact .ret ⟨rfl, by simpa [ho] using hy⟩
  | unmapped =>
    refine .bind (ioremap_ends hy) ?_
    rintro _ z ⟨rfl, hz⟩
    simp only [ho, ne_eq, not_true_eq_false, decide_false, Bool.not_false, if_true]
    refine .bind (releaseMem_ends hz) fun _ w hw => ?_
    exact .ret ⟨rfl, by simpa using hw⟩
  | granted =>
    refine .bind (ioremap_ends hy) ?_
    rintro _ z ⟨rfl, hz⟩
    simp only [ho, ne_eq, reduceCtorEq, not_false_eq_true, decide_true, Bool.not_true,
      Bool.false_eq_true, if_false]
    exact .ret ⟨rfl, by simpa [ho] using hz⟩

/-- The region is given up through the driver's function. -/
theorem regionRelease_ends (hx : X.At u x) :
    (piix4Sb800RegionRelease true).Ends (o.exec b t) (fun _ y => { X with held := false }.At u y) x :=
  releaseMem_ends hx

/-- ACPI has the ports, or it has not. -/
theorem acpiCheckRegion_ends (start len : ℕ) (hx : X.At u x) :
    (perform (.acpiCheckRegion start len)).Ends (o.exec b t)
      (fun r y => r = (if o.acpiBusy then -ebusy else 0) ∧ X.At u y) x := by
  obtain ⟨rfl, rfl⟩ := hx
  exact .op rfl (.ret ⟨rfl, rfl, Bool.or_false _⟩)

/-- A window is taken, or it is not. -/
theorem requestRegion_ends {w : ℕ × ℕ} (hx : X.At u x) (hfree : w ∉ X.windows) :
    (perform (.requestRegion w.1 w.2)).Ends (o.exec b t)
      (fun r y => r = !o.windowBusy ∧
        { X with windows := if o.windowBusy then X.windows else w :: X.windows }.At u y) x := by
  obtain ⟨rfl, rfl⟩ := hx
  have hnot : (w.1, w.2) ∉ x.1.windows := hfree
  cases hbusy : o.windowBusy with
  | true =>
    have hexec : o.exec b t (.requestRegion w.1 w.2) x = some (false, { x.1 with
        world := o.world x.2 x.1.world (.requestRegion w.1 w.2) }, x.2) := by
      simp [Outcomes.exec, HostNotify.exec, Outcomes.world, hbusy, Op.asksIrq]
    exact .op hexec (.ret ⟨rfl, rfl, rfl⟩)
  | false =>
    have hexec : o.exec b t (.requestRegion w.1 w.2) x = some (true, { x.1 with
        world := o.world x.2 x.1.world (.requestRegion w.1 w.2), windows := w :: x.1.windows },
        x.2) := by
      simp [Outcomes.exec, HostNotify.exec, Outcomes.world, hbusy, Op.asksIrq, hnot]
    exact .op hexec (.ret ⟨rfl, rfl, rfl⟩)

/-- A window is given up. -/
theorem releaseRegion_ends (w : ℕ × ℕ) (hx : X.At u x) :
    (perform (.releaseRegion w.1 w.2)).Ends (o.exec b t)
      (fun _ y => { X with windows := X.windows.filter (· ≠ w) }.At u y) x := by
  obtain ⟨rfl, rfl⟩ := hx
  exact .op rfl (.ret ⟨rfl, Bool.or_false _⟩)

/-- The interrupt is registered, or it is not. -/
theorem acpiRegisterGsi_ends (gsi : ℕ) (triggering polarity : Byte) (hx : X.At u x) :
    (perform (.acpiRegisterGsi gsi triggering polarity)).Ends (o.exec b t)
      (fun r y => r = o.gsi ∧ { X with gsiHeld := X.gsiHeld || decide (0 ≤ o.gsi) }.At u y) x := by
  obtain ⟨rfl, rfl⟩ := hx
  exact .op rfl (.ret ⟨rfl, rfl, Bool.or_false _⟩)

/-- The interrupt is given back. -/
theorem acpiUnregisterGsi_ends (gsi : ℕ) (hx : X.At u x) :
    (perform (.acpiUnregisterGsi gsi)).Ends (o.exec b t)
      (fun _ y => { X with gsiHeld := false }.At u y) x := by
  obtain ⟨rfl, rfl⟩ := hx
  exact .op rfl (.ret ⟨rfl, Bool.or_false _⟩)

/-- The IRQ is requested, or it is not. -/
theorem requestThreadedIrq_ends (irq : Int) (shared : Bool) (hx : X.At u x) :
    (perform (.requestThreadedIrq irq shared)).Ends (o.exec b t)
      (fun r y => r = o.irq ∧ { X with requested := X.requested || decide (o.irq = 0) }.At true y)
      x := by
  obtain ⟨rfl, rfl⟩ := hx
  exact .op rfl (.ret ⟨rfl, rfl, Bool.or_true _⟩)

end Steps

/-! ## The function -/

/-- The firmware state kept in the global is that of the panel. -/
structure Piix4Asf.Saved (φ : Panel) (a : Piix4Asf) : Prop where
  lisaddr : a.bootLisaddr = φ.lisaddr
  slven : a.bootSlven = φ.slven
  bnksel : a.bootBnksel &&& ~~~asfBnkFull = φ.bnksel
  mstr : getElem a.bootCtl 16 (fits rfl) = φ.mstr
  clk : getElem a.bootCtl 17 (fits rfl) = φ.clk

section Parts

variable {o : Outcomes} {b : Board} {t : ℕ} {X : Standing} {u : Bool} {x : St × Bool}

/-- Restoring the saved state shows the saved panel. -/
theorem restoreBootState_ends {φ : Panel} (hx : X.At u x) (hsaved : X.asf.Saved φ) :
    (piix4AsfRestoreBootState b.auxSmba).Ends (o.exec b t) (fun _ y => { X with panel := φ }.At u y)
      x := by
  unfold piix4AsfRestoreBootState
  refine .bind (piix4Asf_ends hx) ?_
  rintro _ x₁ ⟨rfl, h₁⟩
  refine .bind (outb_ends _ (decode_asfSlvEn _) h₁) fun _ x₂ h₂ => ?_
  refine .bind (piix4Asf_ends h₂) ?_
  rintro _ x₃ ⟨rfl, h₃⟩
  refine .bind (outb_ends _ (decode_asfLisAddr _) h₃) fun _ x₄ h₄ => ?_
  refine .bind (piix4Asf_ends h₄) ?_
  rintro _ x₅ ⟨rfl, h₅⟩
  refine .bind (outb_ends _ (decode_asfDataBnkSel _) h₅) fun _ x₆ h₆ => ?_
  refine .bind (clearStatus_ends h₆) fun _ x₇ h₇ => ?_
  refine .bind (piix4Asf_ends h₇) ?_
  rintro _ x₈ ⟨rfl, h₈⟩
  refine .bind (outb_ends _ (decode_asfSlvEn _) h₈) fun _ x₉ h₉ => ?_
  refine .bind (ioread32_ends h₉) ?_
  rintro reg y ⟨-, hy⟩
  refine .bind (piix4Asf_ends hy) ?_
  rintro _ z ⟨rfl, hz⟩
  refine (iowrite32_ends _ hz).mono fun _ w hw => ?_
  have hbnksel : X.asf.bootBnksel &&& ~~~asfBnkFull &&& ~~~asfBnkFull = φ.bnksel := by
    rw [BitVec.and_assoc, BitVec.and_self, hsaved.bnksel]
  have hmstr : (reg &&& ~~~(bit asfMstrEn ||| bit asfClkEn) ||| X.asf.bootCtl)[16] = φ.mstr := by
    simp [hsaved.mstr]
  have hclk : (reg &&& ~~~(bit asfMstrEn ||| bit asfClkEn) ||| X.asf.bootCtl)[17] = φ.clk := by
    simp [hsaved.clk]
  simp only [Panel.write, hbnksel, hmstr, hclk, hsaved.lisaddr, hsaved.slven] at hw
  exact hw

/-- Taking the block over saves its panel and switches it to master mode. -/
theorem enableTakeover_ends (hx : X.At u x) (hlocked : X.locked = false) :
    (enableTakeover b.auxSmba).Ends (o.exec b t)
      (fun _ y => ∃ a : Piix4Asf, a.Saved X.panel ∧ a.useMmio = X.asf.useMmio ∧
        a.gsiRegistered = X.asf.gsiRegistered ∧ a.active = true ∧
        { X with asf := a, panel := X.panel.masterMode }.At u y) x := by
  unfold enableTakeover
  refine .bind (lock_ends hx hlocked) fun _ x₁ h₁ => ?_
  refine .bind (mark_ends .bootSaved h₁) fun _ x₂ h₂ => ?_
  refine .bind (ioread32_ends h₂) ?_
  rintro ctl x₃ ⟨⟨hmstr, hclk⟩, h₃⟩
  refine .bind (setAsf_ends _ h₃) ?_
  rintro - x₄ ⟨a₁, ha₁, h₄⟩
  refine .bind (inb_ends (decode_asfLisAddr _) rfl h₄) ?_
  rintro _ x₅ ⟨rfl, h₅⟩
  refine .bind (setAsf_ends _ h₅) ?_
  rintro - x₆ ⟨a₂, ha₂, h₆⟩
  refine .bind (inb_ends (decode_asfSlvEn _) rfl h₆) ?_
  rintro _ x₇ ⟨rfl, h₇⟩
  refine .bind (setAsf_ends _ h₇) ?_
  rintro - x₈ ⟨a₃, ha₃, h₈⟩
  refine .bind (inb_bnksel_ends (decode_asfDataBnkSel _) h₈) ?_
  rintro bnksel x₉ ⟨hbnksel, h₉⟩
  refine .bind (setAsf_ends _ h₉) ?_
  rintro - y ⟨a₄, ha₄, hy⟩
  refine .bind (masterMode_ends hy) fun _ z hz => ?_
  refine .bind (setAsf_ends _ hz) ?_
  rintro - w ⟨a₅, ha₅, hw⟩
  have hsaved : a₅.Saved X.panel := by
    subst ha₁ ha₂ ha₃ ha₄ ha₅
    exact ⟨rfl, rfl, hbnksel, by simp [hmstr], by simp [hclk]⟩
  have hothers : a₅.useMmio = X.asf.useMmio ∧ a₅.gsiRegistered = X.asf.gsiRegistered ∧
      a₅.active = true := by
    subst ha₁ ha₂ ha₃ ha₄ ha₅
    exact ⟨rfl, rfl, rfl⟩
  refine (unlock_ends hw).mono fun _ v hv => ⟨a₅, hsaved, hothers.1, hothers.2.1, hothers.2.2, ?_⟩
  simpa only [hlocked] using hv

/-- The window is given back. -/
theorem enableReleaseIoregion_ends (hx : X.At u x) :
    (enableReleaseIoregion b.auxSmba).Ends (o.exec b t)
      (fun _ y => { X with windows := X.windows.filter (· ≠ b.asfWindow) }.At u y) x :=
  releaseRegion_ends b.asfWindow hx

/-- Giving the GSI and the window back. -/
theorem enableUnregisterGsi_ends (hx : X.At u x) (hgsi : X.asf.gsiRegistered = true) :
    (enableUnregisterGsi b.auxSmba).Ends (o.exec b t)
      (fun _ y => ∃ a : Piix4Asf, a.active = X.asf.active ∧
        { X with
          asf := a, gsiHeld := false, windows := X.windows.filter (· ≠ b.asfWindow) }.At u y) x := by
  unfold enableUnregisterGsi
  refine .bind (piix4Asf_ends hx) ?_
  rintro _ x₁ ⟨rfl, h₁⟩
  rw [if_pos hgsi]
  refine .bind (piix4Asf_ends h₁) ?_
  rintro _ x₂ ⟨rfl, h₂⟩
  refine .bind (acpiUnregisterGsi_ends _ h₂) fun _ x₃ h₃ => ?_
  refine .bind (setAsf_ends _ h₃) ?_
  rintro - x₄ ⟨a₁, ha₁, h₄⟩
  refine .bind (setAsf_ends _ h₄) ?_
  rintro - x₅ ⟨a₂, ha₂, h₅⟩
  refine (enableReleaseIoregion_ends h₅).mono fun _ y hy => ⟨a₂, ?_, hy⟩
  rw [ha₂, ha₁]

/-- Letting go of the block under the mutex shows the firmware's panel again only if the region
was to be had. -/
theorem unclaimLocked_ends {φ : Panel} (hx : X.At u x) (hsaved : X.asf.Saved φ)
    (hmmio : X.asf.useMmio = true) (hfree : X.held = false) :
    (unclaimLocked b.auxSmba).Ends (o.exec b t)
      (fun _ y => ∃ a : Piix4Asf, a.active = false ∧ a.gsiRegistered = X.asf.gsiRegistered ∧
        { X with
          asf := a
          panel := if o.region u = RegionAnswer.granted then φ else X.panel }.At u y) x := by
  unfold unclaimLocked
  refine .bind (setAsf_ends _ hx) ?_
  rintro - x₁ ⟨a, ha, h₁⟩
  have hdone : a.active = false ∧ a.gsiRegistered = X.asf.gsiRegistered := by
    rw [ha]
    exact ⟨rfl, rfl⟩
  have hstill : a.Saved φ ∧ a.useMmio = true := by
    rw [ha]
    exact ⟨⟨hsaved.lisaddr, hsaved.slven, hsaved.bnksel, hsaved.mstr, hsaved.clk⟩, hmmio⟩
  refine .bind (piix4Asf_ends h₁) ?_
  rintro a x₂ ⟨rfl, h₂⟩
  rw [hstill.2]
  refine .bind (regionRequest_ends h₂ hfree) ?_
  rintro _ x₃ ⟨rfl, h₃⟩
  cases ho : o.region u with
  | granted =>
    rw [if_pos rfl]
    refine .bind (restoreBootState_ends h₃ hstill.1) fun _ x₄ h₄ => ?_
    refine .bind (piix4Asf_ends h₄) ?_
    rintro a x₅ ⟨rfl, h₅⟩
    rw [hstill.2]
    refine (regionRelease_ends h₅).mono fun _ y hy => ⟨a, hdone.1, hdone.2, ?_⟩
    simpa only [hfree] using hy
  | busy =>
    refine .ret ⟨a, hdone.1, hdone.2, ?_⟩
    simpa [ho, hfree] using h₃
  | unmapped =>
    refine .ret ⟨a, hdone.1, hdone.2, ?_⟩
    simpa [ho, hfree] using h₃

/-- The undoing of `piix4_asf_enable`. -/
theorem enableRestore_ends {φ : Panel} (hx : X.At u x) (hsaved : X.asf.Saved φ)
    (hmmio : X.asf.useMmio = true) (hgsi : X.asf.gsiRegistered = true) (hlocked : X.locked = false)
    (hfree : X.held = false) :
    (enableRestore b.auxSmba).Ends (o.exec b t)
      (fun _ y => ∃ a : Piix4Asf, a.active = false ∧
        { X with
          asf := a
          panel := if o.region u = RegionAnswer.granted then φ else X.panel
          gsiHeld := false, windows := X.windows.filter (· ≠ b.asfWindow) }.At u y) x := by
  unfold enableRestore
  refine .bind (lock_ends hx hlocked) fun _ x₁ h₁ => ?_
  refine .bind (unclaimLocked_ends h₁ hsaved hmmio hfree) ?_
  rintro - x₂ ⟨a₁, hactive, hgsi', h₂⟩
  refine .bind (unlock_ends h₂) fun _ x₃ h₃ => ?_
  refine (enableUnregisterGsi_ends h₃ (hgsi'.trans hgsi)).mono ?_
  rintro - y ⟨a₂, ha₂, hy⟩
  exact ⟨a₂, ha₂.trans hactive, by simpa only [hlocked] using hy⟩

/-- `piix4_asf_enable` reaches `request_threaded_irq`, which fails, and then cannot have the
region to put the firmware's state back. -/
structure Outcomes.Strands (o : Outcomes) : Prop where
  acpi : o.acpiBusy = false
  window : o.windowBusy = false
  gsi : 0 ≤ o.gsi
  claim : o.claim = .granted
  irq : o.irq ≠ 0
  undo : o.undo ≠ .granted

/-- Nothing is claimed. -/
structure Standing.Free (b : Board) (X : Standing) : Prop where
  active : X.asf.active = false
  window : b.asfWindow ∉ X.windows
  gsi : X.gsiHeld = false
  irq : X.requested = false

/-- Everything is claimed, and the block is in master mode. -/
structure Standing.Owned (b : Board) (X : Standing) : Prop where
  active : X.asf.active = true
  window : b.asfWindow ∈ X.windows
  gsi : X.gsiHeld = true
  irq : X.requested = true
  panel : X.panel.Master

/-- The ways to end, from the panel `φ`; `P` is whether the block is left stranded. -/
def Standing.Ended (b : Board) (φ : Panel) (P : Prop) (Y : Standing) : Prop :=
  (Y.Free b ∧ (P → Y.panel = φ.masterMode) ∧ (¬P → Y.panel = φ)) ∨ (¬P ∧ Y.Owned b)

/-- A window that has been given back is not held. -/
theorem not_mem_released (w : ℕ × ℕ) (l : List (ℕ × ℕ)) : w ∉ l.filter (· ≠ w) := by
  intro hmem
  simpa using (List.mem_filter.mp hmem).2

/-- The last step that can fail, with everything else claimed and the panel `φ` saved. -/
theorem askIrq_ends {φ : Panel} (hx : X.At false x) (hsaved : X.asf.Saved φ)
    (hactive : X.asf.active = true) (hmmio : X.asf.useMmio = true)
    (hregistered : X.asf.gsiRegistered = true) (hwindow : b.asfWindow ∈ X.windows)
    (hgsi : X.gsiHeld = true) (hirq : X.requested = false) (hlocked : X.locked = false)
    (hfree : X.held = false) (hpanel : X.panel = φ.masterMode)
    (hstrands : o.irq ≠ 0 → o.undo ≠ .granted → o.Strands) :
    Prog.Ends (o.exec b t) (fun _ y => y.1.standing.Ended b φ o.Strands)
      (do
        let a ← piix4Asf
        if (← perform (.requestThreadedIrq a.irq a.shareable)) ≠ 0 then enableRestore b.auxSmba
        else setAsf fun a => { a with irqRequested := true } : Driver Unit) x := by
  refine .bind (piix4Asf_ends hx) ?_
  rintro _ x₁ ⟨rfl, h₁⟩
  refine .bind (requestThreadedIrq_ends _ _ h₁) ?_
  rintro _ x₂ ⟨rfl, h₂⟩
  by_cases hok : o.irq = 0
  · rw [if_neg (not_not.mpr hok)]
    refine (setAsf_ends _ h₂).mono ?_
    rintro - y ⟨a, ha, hy⟩
    refine Or.inr ⟨fun hP => hP.irq hok, ?_⟩
    rw [hy.1]
    refine ⟨?_, hwindow, hgsi, by simp [hok], ?_⟩
    · rw [ha]
      exact hactive
    · rw [hpanel]
      exact φ.masterMode_master
  · rw [if_pos hok]
    refine (enableRestore_ends h₂ hsaved hmmio hregistered hlocked hfree).mono ?_
    rintro - y ⟨a, ha, hy⟩
    refine Or.inl ?_
    rw [hy.1]
    refine ⟨⟨ha, not_mem_released _ _, rfl, by simp [hirq, hok]⟩, fun hP => ?_, fun hP => ?_⟩
    · exact (if_neg hP.undo).trans hpanel
    · exact if_pos (by_contra fun hundo => hP (hstrands hok hundo))

/-- `piix4_asf_enable` from the GSI registration on. -/
theorem enableIrq_ends (hx : X.At false x) (hactive : X.asf.active = false)
    (hmmio : X.asf.useMmio = true) (hwindow : b.asfWindow ∈ X.windows) (hgsi : X.gsiHeld = false)
    (hirq : X.requested = false) (hlocked : X.locked = false) (hfree : X.held = false)
    (hacpi : o.acpiBusy = false) (hbusy : o.windowBusy = false) :
    (enableIrq b.auxSmba).Ends (o.exec b t)
      (fun _ y => y.1.standing.Ended b X.panel o.Strands) x := by
  unfold enableIrq
  refine .bind (piix4Asf_ends hx) ?_
  rintro _ x₁ ⟨rfl, h₁⟩
  refine .bind (acpiRegisterGsi_ends _ _ _ h₁) ?_
  rintro _ x₂ ⟨rfl, h₂⟩
  by_cases hneg : o.gsi < 0
  · rw [if_pos hneg]
    refine (enableReleaseIoregion_ends h₂).mono fun _ y hy => Or.inl ?_
    have hnone : (X.gsiHeld || decide (0 ≤ o.gsi)) = false := by simp [hgsi, hneg]
    rw [hy.1]
    exact ⟨⟨hactive, not_mem_released _ _, hnone, hirq⟩, fun hP => absurd hP.gsi (by omega),
      fun _ => rfl⟩
  rw [if_neg hneg]
  refine .bind (setAsf_ends _ h₂) ?_
  rintro - x₃ ⟨a₁, ha₁, h₃⟩
  refine .bind (setAsf_ends _ h₃) ?_
  rintro - x₄ ⟨a₂, ha₂, h₄⟩
  refine .bind (piix4Asf_ends h₄) ?_
  rintro a₂ x₅ ⟨rfl, h₅⟩
  have hnow : a₂.active = false ∧ a₂.useMmio = true ∧ a₂.gsiRegistered = true := by
    rw [ha₂, ha₁]
    exact ⟨hactive, hmmio, rfl⟩
  rw [hnow.2.1]
  refine .bind (regionRequest_ends h₅ hfree) ?_
  rintro _ x₆ ⟨rfl, h₆⟩
  have hanswer : (o.region false).code = 0 ↔ o.claim = .granted := RegionAnswer.code_eq_zero _
  by_cases hclaim : o.claim = .granted
  · rw [if_neg (not_not.mpr (hanswer.mpr hclaim))]
    refine .bind (setAsf_ends _ h₆) ?_
    rintro - x₇ ⟨a₃, ha₃, h₇⟩
    refine .bind (enableTakeover_ends h₇ hlocked) ?_
    rintro - x₈ ⟨a₄, hsaved, hmmio', hgsi', hactive', h₈⟩
    refine .bind (piix4Asf_ends h₈) ?_
    rintro a₄ x₉ ⟨rfl, h₉⟩
    have hthen : a₄.useMmio = true ∧ a₄.gsiRegistered = true := by
      rw [hmmio', hgsi', ha₃]
      exact hnow.2
    rw [hthen.1]
    refine .bind (regionRelease_ends h₉) fun _ y₁ k₁ => ?_
    exact askIrq_ends k₁ hsaved hactive' hthen.1 hthen.2 hwindow (by simp; omega) hirq hlocked rfl rfl
      fun hirq' hundo => ⟨hacpi, hbusy, by omega, hclaim, hirq', hundo⟩
  · rw [if_pos (mt hanswer.mp hclaim)]
    refine (enableUnregisterGsi_ends h₆ hnow.2.2).mono ?_
    rintro - y ⟨a₃, ha₃, hy⟩
    refine Or.inl ?_
    rw [hy.1]
    exact ⟨⟨ha₃.trans hnow.1, not_mem_released _ _, rfl, hirq⟩, fun hP => absurd hP.claim hclaim,
      fun _ => rfl⟩

/-- The validation of `piix4_asf_enable` passes. -/
structure Piix4Asf.Claimable (b : Board) (a : Piix4Asf) : Prop where
  present : b.auxSmba ≠ 0
  smba : a.smba = b.auxSmba
  irq : a.hasIrq = true
  window : asfIosize ≤ a.iolen
  mmio : piix4Sb800UseMmio b.dev = true

/-- A return that comes before anything is claimed. -/
theorem Standing.Free.ended {P : Prop} (h : X.Free b) (hx : X.At u x) (hP : ¬P) :
    x.1.standing.Ended b X.panel P := by
  rw [hx.1]
  exact Or.inl ⟨h, fun hp => absurd hp hP, fun _ => rfl⟩

/-- Equivalent conditions describe the same end. -/
theorem Standing.Ended.congr {φ : Panel} {P P' : Prop} {Y : Standing} (h : Y.Ended b φ P)
    (hP : P ↔ P') : Y.Ended b φ P' := by
  rw [← propext hP]
  exact h

/-- `piix4_asf_enable` ends as the outcomes say. -/
theorem enable_ends (hx : X.At false x) (hfree : X.Free b) (hlocked : X.locked = false)
    (hheld : X.held = false) :
    (piix4AsfEnable b.dev b.auxSmba).Ends (o.exec b t)
      (fun _ y => y.1.standing.Ended b X.panel (X.asf.Claimable b ∧ o.Strands)) x := by
  unfold piix4AsfEnable
  refine .bind (piix4Asf_ends hx) ?_
  rintro _ x₁ ⟨rfl, h₁⟩
  by_cases hsmba : X.asf.smba = 0 ∨ X.asf.smba ≠ b.auxSmba
  · rw [if_pos hsmba]
    refine .ret (hfree.ended h₁ fun hP => ?_)
    exact hsmba.elim (fun h => hP.1.present (hP.1.smba.symm.trans h)) fun h => h hP.1.smba
  rw [if_neg hsmba]
  by_cases hirq : X.asf.hasIrq = true
  swap
  · rw [if_pos (by simpa using hirq)]
    exact .ret (hfree.ended h₁ fun hP => hirq hP.1.irq)
  rw [if_neg (by simpa using hirq)]
  by_cases hlen : X.asf.iolen < asfIosize
  · rw [if_pos hlen]
    exact .ret (hfree.ended h₁ fun hP => absurd hP.1.window (by omega))
  rw [if_neg hlen]
  refine .bind (setAsf_ends _ h₁) ?_
  rintro - x₂ ⟨a, ha, h₂⟩
  refine .bind (piix4Asf_ends h₂) ?_
  rintro a x₃ ⟨rfl, h₃⟩
  have hstill : Standing.Free b { X with asf := a } :=
    ⟨by rw [ha]; exact hfree.active, hfree.window, hfree.gsi, hfree.irq⟩
  have huse : a.useMmio = piix4Sb800UseMmio b.dev := by rw [ha]
  by_cases hmmio : piix4Sb800UseMmio b.dev = true
  swap
  · rw [if_pos (by simpa [huse] using hmmio)]
    exact .ret (hstill.ended h₃ fun hP => hmmio hP.1.mmio)
  rw [if_neg (by simpa [huse] using hmmio)]
  refine .bind (acpiCheckRegion_ends _ _ h₃) ?_
  rintro _ x₄ ⟨rfl, h₄⟩
  cases hacpi : o.acpiBusy with
  | true => exact .ret (hstill.ended h₄ fun hP => by simpa [hacpi] using hP.2.acpi)
  | false =>
    refine .bind (requestRegion_ends (w := b.asfWindow) h₄ hfree.window) ?_
    rintro _ x₅ ⟨rfl, h₅⟩
    cases hbusy : o.windowBusy with
    | true =>
      rw [hbusy] at h₅
      exact .ret (hstill.ended h₅ fun hP => by simpa [hbusy] using hP.2.window)
    | false =>
      rw [hbusy] at h₅
      refine (enableIrq_ends h₅ hstill.active (huse.trans hmmio) (by simp) hfree.gsi hfree.irq
        hlocked hheld hacpi hbusy).mono fun _ y hy => hy.congr ?_
      obtain ⟨hzero, hsame⟩ := not_or.mp hsmba
      have hclaimable : X.asf.Claimable b :=
        ⟨not_not.mp hsame ▸ hzero, not_not.mp hsame, hirq, by omega, hmmio⟩
      exact ⟨fun hP => ⟨hclaimable, hP⟩, And.right⟩

end Parts

/-! ## All or nothing -/

/-- Between the states `s` on entry and `s'` on return: either nothing has changed and the
auxiliary adapter gets the plain algorithm, or everything is claimed. -/
structure AllOrNothing (b : Board) (t : ℕ) (s s' : St) : Prop where
  nothing : s'.asf.active = false →
    s'.hw.panel = s.hw.panel ∧ b.asfWindow ∉ s'.windows ∧ s'.gsiHeld = false ∧
      s'.irq.requested = false ∧
      (piix4AsfAlgo b.auxSmba).runAlone (exec b t) s' = some (false, s')
  all : s'.asf.active = true →
    b.asfWindow ∈ s'.windows ∧ s'.gsiHeld = true ∧ s'.irq.requested = true ∧ s'.hw.panel.Master

/-- An inactive block leaves the auxiliary adapter its plain algorithm. -/
theorem piix4AsfAlgo_inactive {b : Board} {t : ℕ} {s : St} (h : s.asf.active = false) :
    (piix4AsfAlgo b.auxSmba).runAlone (exec b t) s = some (false, s) := by
  have hended : (piix4AsfAlgo b.auxSmba).Ends (exec b t) (fun r s' => r = false ∧ s' = s) s := by
    refine .op rfl ?_
    change Prog.Ends _ _ (if (!s.asf.active) = true then (pure false : Driver Bool) else _) s
    rw [h]
    exact .ret ⟨rfl, rfl⟩
  obtain ⟨_, _, hrun, rfl, rfl⟩ := hended.runAlone
  exact hrun

/-- A way to end is all or nothing unless it leaves the block stranded in master mode. -/
theorem Standing.Ended.allOrNothing_iff {b : Board} {t : ℕ} {s s' : St} {P : Prop}
    (h : s'.standing.Ended b s.hw.panel P) :
    AllOrNothing b t s s' ↔ (P → s.hw.panel.Master) := by
  rcases h with ⟨hfree, hstranded, hback⟩ | ⟨hnot, howned⟩
  · have hactive : s'.asf.active = false := hfree.active
    constructor
    · intro h hP
      rw [← Panel.masterMode_eq_iff]
      exact (hstranded hP).symm.trans (h.nothing hactive).1
    · intro hmaster
      have hpanel : s'.hw.panel = s.hw.panel := by
        by_cases hP : P
        · exact (hstranded hP).trans ((Panel.masterMode_eq_iff _).mpr (hmaster hP))
        · exact hback hP
      refine ⟨fun _ => ⟨hpanel, hfree.window, hfree.gsi, hfree.irq, piix4AsfAlgo_inactive hactive⟩,
        fun h => ?_⟩
      rw [hactive] at h
      cases h
  · have hactive : s'.asf.active = true := howned.active
    refine ⟨fun _ hP => absurd hP hnot, fun _ => ⟨fun h => ?_, fun _ => ?_⟩⟩
    · rw [hactive] at h
      cases h
    · exact ⟨howned.window, howned.gsi, howned.irq, howned.panel⟩

variable {b : Board} {t : ℕ} {s : St}

/-- `piix4_asf_enable` always returns. From a block that nobody has claimed it is all or nothing
exactly when either the outcomes do not strand it or the block was in master mode all along. -/
theorem enable_all_or_nothing (o : Outcomes) (hfree : s.standing.Free b) (hmutex : s.mutex = none)
    (hregion : s.region = none) :
    ∃ s' asked, (piix4AsfEnable b.dev b.auxSmba).runAlone (o.exec b t) (s, false) =
        some ((), s', asked) ∧
      (AllOrNothing b t s s' ↔ (s.asf.Claimable b ∧ o.Strands → s.hw.panel.Master)) := by
  have hlocked : s.standing.locked = false := by simp [St.standing, hmutex]
  have hheld : s.standing.held = false := by simp [St.standing, hregion]
  obtain ⟨⟨⟩, ⟨s', asked⟩, hrun, hended⟩ :=
    (enable_ends (o := o) (t := t) (x := (s, false)) ⟨rfl, rfl⟩ hfree hlocked hheld).runAlone
  exact ⟨s', asked, hrun, hended.allOrNothing_iff⟩

/-- The system after `piix4_asf_detect` on the described board. -/
def St.detected : St :=
  { St.loaded with
    asf := { Piix4Asf.loaded with
      smba := 0xb20, iolen := 0x20, gsi := 7, shareable := true, polarity := 1, hasIrq := true } }

/-- Every step succeeds but `request_threaded_irq`, and the region is busy when it is needed
again. -/
def Outcomes.stranding : Outcomes :=
  { acpiBusy := false, windowBusy := false, gsi := 7, claim := .granted, irq := -ebusy, undo := .busy }

/-- A detected board has nothing claimed yet. -/
theorem St.detected_free : St.detected.standing.Free Board.described :=
  ⟨rfl, nofun, rfl, rfl⟩

/-- An attempt that claims the block. -/
theorem enable_all_or_nothing_claimed :
    ∃ s' asked, (piix4AsfEnable Board.described.dev Board.described.auxSmba).runAlone
        (Outcomes.exec { Outcomes.stranding with irq := 0 } Board.described 0) (St.detected, false) =
        some ((), s', asked) ∧
      AllOrNothing Board.described 0 St.detected s' := by
  obtain ⟨s', asked, hrun, hiff⟩ := enable_all_or_nothing (b := Board.described) (t := 0)
    { Outcomes.stranding with irq := 0 } St.detected_free rfl rfl
  exact ⟨s', asked, hrun, hiff.mpr fun h => absurd rfl h.2.irq⟩

/-- The block is left in master mode although nothing is claimed. -/
theorem enable_stranded :
    ∃ s' asked, (piix4AsfEnable Board.described.dev Board.described.auxSmba).runAlone
        (Outcomes.stranding.exec Board.described 0) (St.detected, false) = some ((), s', asked) ∧
      s'.asf.active = false ∧ s'.hw.panel ≠ St.detected.hw.panel ∧
      ¬AllOrNothing Board.described 0 St.detected s' := by
  have hfails : St.detected.asf.Claimable Board.described ∧ Outcomes.stranding.Strands :=
    ⟨⟨by decide, rfl, rfl, by decide, by decide⟩, rfl, rfl, by decide, rfl, by decide, by decide⟩
  have hslave : ¬St.detected.hw.panel.Master := fun h => absurd h.reset (by decide)
  obtain ⟨⟨⟩, ⟨s', asked⟩, hrun, hended⟩ :=
    (enable_ends (o := Outcomes.stranding) (t := 0) (x := (St.detected, false)) ⟨rfl, rfl⟩
      St.detected_free rfl rfl).runAlone
  rcases hended with ⟨hfree, hstranded, -⟩ | ⟨hnot, -⟩
  · have hpanel : s'.hw.panel ≠ St.detected.hw.panel := fun h =>
      hslave ((Panel.masterMode_eq_iff _).mp ((hstranded hfails).symm.trans h))
    exact ⟨s', asked, hrun, hfree.active, hpanel, fun h => hpanel (h.nothing hfree.active).1⟩
  · exact absurd hfails hnot

end HostNotify
