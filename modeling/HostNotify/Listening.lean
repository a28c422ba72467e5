import HostNotify.Calls

/-!
# Listening and silence

What the two values of `listening` promise while `piix4_asf_mutex` is free: an armed slave,
or one that neither listens nor interrupts.
-/

namespace HostNotify

open Bits Interleaving

variable {k : Setting} {b : Board} {p : Pool St Op Op.Ans Call}

/-! ## Runs -/

/-- Everything that the environment and the calls may do. -/
def Setting.all : Setting :=
  { firmware := true, intrude := true, trample := true, errors := true, stuck := true, burst := true
    late := true, regionFails := true, teardown := true, restart := true, busyReset := true
    stuckExit := true, muted := true, strayIrq := true, mainPort := true }

/-- A board whose firmware describes the target block at the auxiliary port. -/
def Board.described : Board :=
  { dev := ⟨0x1022, 0x790b, 0x51⟩, smbaEnHi := 0x0b, amdi001a := false
    smb0001 := [some [.irq ⟨[7], 0, 1, 1⟩, .io 0xb20 0x20]], asfHostNotify := true }

/-- A block that the firmware does not use. -/
def Target.idle : Target :=
  { lisaddr := 0, sta := 0, slvsta := 0, slven := 0, bnksel := 0, rdptr := 0
    bank0 := Bank.empty, bank1 := Bank.empty, decodeEn := 0, reading := false, lost := false }

/-- The system after the module has been loaded on that board. -/
def St.loaded : St :=
  { hw := Target.idle
    world :=
      { bus := 0, regionBusy := false, ioremapFails := false, windowBusy := false, gsiAnswer := 7
        irqAnswer := 0, allocFails := false, addAnswer := 0, debug := false }
    asf := Piix4Asf.loaded
    deliverOk := false
    auxAdapter := false
    delivered := []
    mutex := none
    notifyMutex := none
    region := none
    granted := false
    muxed := fun _ => none
    windows := []
    gsiHeld := false
    irq := { requested := false, woken := false, running := none, served := false }
    life :=
      { owner := none, enabling := false, bound := false, started := false, asleep := false
        serving := false, registered := false, asfAlgo := false, leaving := false, halted := false
        aux := [] }
    ghost :=
      { owed := fun _ => [], drain := none, debt := false, flushed := false, erred := false
        resetting := false, touched := false, firmware := 0
        wrote := (false, false), boot := Target.idle, before := 0, fenced := true
        orphaned := false } }

/-- A module that has been loaded is not bound. -/
theorem St.loaded_unbound (k : Setting) : Unbound k St.loaded where
  asf := rfl
  deliverOk := rfl
  mutex := rfl
  notifyMutex := rfl
  region := rfl
  irq := rfl
  life := rfl
  auxAdapter := rfl
  muxed := rfl
  windows := rfl
  gsiHeld := rfl
  ghost := rfl
  unread i := by cases i <;> rfl
  errorless _ := rfl
  unstuck _ i := by cases i <;> rfl
  lost := rfl
  world _ := ⟨rfl, rfl⟩

/-- The next `n` operations of thread `i`. -/
def advance (i n : ℕ) : List (Action Call Event) := List.replicate n (.step i)

/-- Probe, with its three parts as threads 0, 1 and 2. -/
def bringUp : List (Action Call Event) :=
  .call (.core .enable) :: advance 0 47 ++ .call (.core .addAdapter) :: advance 1 7 ++
    .call (.core .start) :: advance 2 36

/-- The arguments of a byte read from the device at 0x2c. -/
def readByte2c : SmbusXfer :=
  { smba := 0xb20, addr := 0x2c, read := true, command := 0, size := .byteData, data := fun _ => 0 }

/-- What a schedule on the described board leads to, if it can be carried out. -/
def outcome (k : Setting) (schedule : List (Action Call Event)) : Option (Pool St Op Op.Ans Call) :=
  Pool.run (machine k Board.described) schedule ⟨St.loaded, []⟩

/-- A schedule that runs through from the loaded module ends in a reachable state. -/
theorem outcome_reachable {schedule : List (Action Call Event)} (h : outcome k schedule = some p) :
    p.Reachable (machine k Board.described) (Unbound k) :=
  ⟨St.loaded, schedule, St.loaded_unbound k, h⟩

/-- A schedule whose evaluation meets a test reaches a pool that does. -/
theorem exists_outcome (k : Setting) (schedule : List (Action Call Event))
    (φ : Pool St Op Op.Ans Call → Bool) (h : (outcome k schedule).any φ = true) :
    ∃ p, outcome k schedule = some p ∧ φ p = true := by
  rw [Option.any_eq_true] at h
  obtain ⟨p, hp, hφ⟩ := h
  exact ⟨p, hp, hφ⟩

/-! ## Listening means armed -/

/-- The registers of a slave that is armed for Host Notify. -/
structure Target.Armed (h : Target) : Prop where
  lisaddr : h.lisaddr = (asfHostAddr <<< 1) ||| bit asfSlvListn
  running : getElem h.slven 4 (fits rfl) = false
  interrupts : getElem h.slven 1 (fits rfl) = true
  banks : getElem h.bnksel 7 (fits rfl) = false
  slave : getElem h.decodeEn 16 (fits rfl) = false
  clocked : getElem h.decodeEn 17 (fits rfl) = true

/-- What is known to be armed is armed. -/
theorem Control.Armed.target {c : Control} {s : St} (h : c.Armed) (hsees : Sees c s)
    (hlisten : c.listening = true) : s.hw.Armed where
  lisaddr := hsees.regs.lisaddr.trans h.lisaddr
  running := hsees.regs.rst.trans h.rst
  interrupts := hsees.regs.intrOn h.intr hlisten
  banks := hsees.regs.dataEn.trans h.dataEn
  slave := (hsees.regs.mstr false h.mstr).2
  clocked := (hsees.regs.clk true h.clk).2

/-- Whenever the mutex is free, a block that is flagged listening is armed, and wanted. -/
theorem listening_armed (h : p.Reachable (machine k b) (Unbound k))
    (hfree : p.shared.mutex = none) (hactive : p.shared.asf.active = true)
    (hlisten : p.shared.asf.listening = true) :
    p.shared.asf.wantListen = true ∧ p.shared.hw.Armed := by
  obtain ⟨c, hset, hview⟩ := (reachable_inv h).idle hfree hactive
  have hl : c.listening = true := hview.listening.symm.trans hlisten
  have hwant : c.want = true := hset.want hl
  exact ⟨hview.want.trans hwant, (hset.armed hl).target (hview.sees (Or.inr hwant)) hl⟩

/-- After the device has been brought up it listens, armed. -/
theorem listening_armed_bringUp : ∃ p, outcome Setting.all bringUp = some p ∧
    p.shared.asf.wantListen = true ∧ p.shared.hw.Armed := by
  obtain ⟨p, hp, hstate⟩ := exists_outcome Setting.all bringUp
    (fun p => p.shared.mutex.isNone && p.shared.asf.active && p.shared.asf.listening) (by decide +kernel)
  simp only [Bool.and_eq_true, Option.isNone_iff_eq_none] at hstate
  exact ⟨p, hp, listening_armed (outcome_reachable hp) hstate.1.1 hstate.1.2 hstate.2⟩

/-! ## Not listening means silent -/

/-- Nothing but the driver changes the registers. -/
def Setting.undisturbed : Setting := { Setting.all with firmware := false }

/-- Whenever the mutex is free, a block that is not flagged listening is silent, if the IRQ
thread never finds the region busy when it has to reset the slave. -/
theorem deaf_silent (hk : k.firmware = false) (hbusy : k.busyReset = false)
    (h : p.Reachable (machine k b) (Unbound k)) (hfree : p.shared.mutex = none)
    (hactive : p.shared.asf.active = true) (hdeaf : p.shared.asf.listening = false) :
    getElem p.shared.hw.lisaddr 0 (fits rfl) = false ∧ getElem p.shared.hw.slven 1 (fits rfl) = false := by
  obtain ⟨c, hset, hview⟩ := (reachable_inv h).idle hfree hactive
  have hl : c.listening = false := hview.listening.symm.trans hdeaf
  have hsees := hview.sees (Or.inl hk)
  have hsilent := hset.silent hl hk (Or.inl (Or.inl hbusy))
  refine ⟨?_, hsees.regs.intrOff hsilent.intr⟩
  rw [hsees.regs.lisaddr]
  exact hset.closed hl hk

/-- A claimed block before it has been started. -/
theorem deaf_silent_probed : ∃ p, outcome { Setting.undisturbed with busyReset := false }
      (bringUp.take 48) = some p ∧
    getElem p.shared.hw.lisaddr 0 (fits rfl) = false ∧ getElem p.shared.hw.slven 1 (fits rfl) = false := by
  obtain ⟨p, hp, hstate⟩ := exists_outcome { Setting.undisturbed with busyReset := false }
    (bringUp.take 48)
    (fun p => p.shared.mutex.isNone && p.shared.asf.active && !p.shared.asf.listening)
    (by decide +kernel)
  simp only [Bool.and_eq_true, Option.isNone_iff_eq_none, Bool.not_eq_true'] at hstate
  exact ⟨p, hp, deaf_silent rfl rfl (outcome_reachable hp) hstate.1.1 hstate.1.2 hstate.2⟩

/-- A valid Host Notify from the device at 0x2c arrives in bank 0. -/
def arrival : Action Call Event := .event (.receive false [0x10, 0x58, 0x00, 0x00] 3)

/-- Somebody takes the FCH PM region without sharing it. -/
def regionTaken : Action Call Event := .event (.world { St.loaded.world with regionBusy := true })

/-- The bank of a message gets stuck, and the IRQ thread finds the region busy. -/
def wedgedWhileBusy : List (Action Call Event) :=
  bringUp ++ [arrival, .event (.stick false), .event .hardIrq, regionTaken, .call .irqThread] ++
    advance 3 132

/-- A slave held off after the wedge still has SLV_INTR set. -/
theorem deaf_not_silent : ∃ p : Pool St Op Op.Ans Call, p.Reachable (machine Setting.undisturbed Board.described)
      (Unbound Setting.undisturbed) ∧ p.shared.mutex = none ∧ p.shared.asf.active = true ∧
    p.shared.asf.listening = false ∧ getElem p.shared.hw.slven 1 (fits rfl) = true := by
  obtain ⟨p, hp, hstate⟩ := exists_outcome Setting.undisturbed wedgedWhileBusy
    (fun p => p.shared.mutex.isNone && p.shared.asf.active && !p.shared.asf.listening &&
      p.shared.hw.slven[1]) (by decide +kernel)
  simp only [Bool.and_eq_true, Option.isNone_iff_eq_none, Bool.not_eq_true'] at hstate
  exact ⟨p, outcome_reachable hp, hstate.1.1.1, hstate.1.1.2, hstate.1.2, hstate.2⟩

end HostNotify
