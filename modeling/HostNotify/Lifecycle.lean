import HostNotify.Asf

/-!
# Detecting, claiming and releasing the target block

The functions called from probe, remove, shutdown and the power-management callbacks.
-/

namespace HostNotify

open Bits Interleaving

/-! ## Detection -/

/-- `struct piix4_asf_crs`. -/
structure Piix4AsfCrs where
  gsi : ℕ
  triggering : Byte
  polarity : Byte
  shareable : Bool
  hasIrq : Bool

/-- `struct piix4_asf_crs crs = {}`. -/
def Piix4AsfCrs.init : Piix4AsfCrs :=
  { gsi := 0, triggering := 0, polarity := 0, shareable := false, hasIrq := false }

/-- `ACPI_SHARED`. -/
abbrev acpiShared : Byte := 1

/-- Keep the first IRQ descriptor that names an interrupt. -/
def Piix4AsfCrs.note (crs : Piix4AsfCrs) (r : AcpiIrq) : Piix4AsfCrs :=
  match r.interrupts with
  | [] => crs
  | gsi :: _ =>
    if crs.hasIrq then crs
    else
      { gsi := gsi, triggering := r.triggering, polarity := r.polarity
        shareable := decide (r.shareable = acpiShared), hasIrq := true }

/-- `piix4_asf_crs_preproc`: the new record, and whether the entry was intercepted. -/
def piix4AsfCrsPreproc (crs : Piix4AsfCrs) : AcpiResource → Piix4AsfCrs × Bool
  | .irq r => (crs.note r, true)
  | .extendedIrq r => (crs.note r, true)
  | _ => (crs, false)

/-- `acpi_dev_get_resources` with that callback: the record and the remaining entries. -/
def walkCrs (resources : List AcpiResource) : Piix4AsfCrs × List AcpiResource :=
  resources.foldl
    (fun acc r => let (crs, taken) := piix4AsfCrsPreproc acc.1 r
      (crs, if taken then acc.2 else acc.2 ++ [r]))
    (Piix4AsfCrs.init, [])

/-- The first I/O window that starts at the auxiliary base, with its size. -/
def findWindow (auxSmba : ℕ) : List AcpiResource → Option (ℕ × ℕ)
  | [] => none
  | .io start size :: rest => if start = auxSmba then some (start, size) else findWindow auxSmba rest
  | _ :: rest => findWindow auxSmba rest

/-- What the loop over the SMB0001 devices of `piix4_asf_detect` settles on. -/
def matchDevice (auxSmba : ℕ) : List AcpiDevice → Option (ℕ × ℕ × Piix4AsfCrs)
  | [] => none
  | none :: rest => matchDevice auxSmba rest
  | some resources :: rest =>
    match findWindow auxSmba (walkCrs resources).2 with
    | some (start, size) => some (start, size, (walkCrs resources).1)
    | none => matchDevice auxSmba rest

/-- `piix4_asf_detect`. -/
def piix4AsfDetect (auxSmba : ℕ) : Driver Unit := do
  if !(← perform .asfHostNotify) then pure ()
  else if ← perform .acpiDevPresent then pure ()
  else
    match matchDevice auxSmba (← perform .smb0001Devices) with
    | none => pure ()
    | some (start, size, crs) =>
      setAsf fun a => { a with
        smba := start, iolen := size, gsi := crs.gsi, triggering := crs.triggering
        polarity := crs.polarity, shareable := crs.shareable, hasIrq := crs.hasIrq }

/-! ## Claiming -/

abbrev pciVendorIdAmd : ℕ := 0x1022
abbrev pciDeviceIdAmdKernczSmbus : ℕ := 0x790b

/-- `piix4_sb800_use_mmio`. -/
def piix4Sb800UseMmio (dev : PciDev) : Bool :=
  decide (dev.vendor = pciVendorIdAmd ∧ dev.device = pciDeviceIdAmdKernczSmbus ∧
    0x51 ≤ dev.revision)

/-- The `release_ioregion` label of `piix4_asf_enable`. -/
def enableReleaseIoregion (smba : ℕ) : Driver Unit :=
  perform (.releaseRegion (smba + smbiosize) (asfIosize - smbiosize))

/-- The `unregister_gsi` label of `piix4_asf_enable`. -/
def enableUnregisterGsi (smba : ℕ) : Driver Unit := do
  if (← piix4Asf).gsiRegistered then perform (.acpiUnregisterGsi (← piix4Asf).gsi)
  setAsf fun a => { a with gsiRegistered := false }
  setAsf fun a => { a with irq := -1 }
  enableReleaseIoregion smba

/-- Give the block back to the firmware, under the mutex. -/
def unclaimLocked (smba : ℕ) : Driver Unit := do
  setAsf fun a => { a with active := false }
  if (← piix4Sb800RegionRequest (← piix4Asf).useMmio) = 0 then
    piix4AsfRestoreBootState smba
    piix4Sb800RegionRelease (← piix4Asf).useMmio

/-- The `restore` label of `piix4_asf_enable`. -/
def enableRestore (smba : ℕ) : Driver Unit := do
  lock .asf
  unclaimLocked smba
  unlock .asf
  enableUnregisterGsi smba

/-- Save the firmware state and switch to master mode, under the mutex and the region. -/
def enableTakeover (smba : ℕ) : Driver Unit := do
  lock .asf
  mark .bootSaved
  let ctl ← ioread32
  setAsf fun a => { a with bootCtl := ctl &&& (bit asfMstrEn ||| bit asfClkEn) }
  let lisaddr ← inb (asfLisAddr smba)
  setAsf fun a => { a with bootLisaddr := lisaddr }
  let slven ← inb (asfSlvEn smba)
  setAsf fun a => { a with bootSlven := slven }
  let bnksel ← inb (asfDataBnkSel smba)
  setAsf fun a => { a with bootBnksel := bnksel }
  piix4AsfMasterMode smba
  setAsf fun a => { a with active := true }
  unlock .asf

/-- `piix4_asf_enable` from the GSI registration on. -/
def enableIrq (smba : ℕ) : Driver Unit := do
  let a ← piix4Asf
  let retval ← perform (.acpiRegisterGsi a.gsi a.triggering a.polarity)
  if retval < 0 then enableReleaseIoregion smba
  else
    setAsf fun a => { a with irq := retval }
    setAsf fun a => { a with gsiRegistered := true }
    if (← piix4Sb800RegionRequest (← piix4Asf).useMmio) ≠ 0 then enableUnregisterGsi smba
    else
      setAsf fun a => { a with pending := false }
      enableTakeover smba
      piix4Sb800RegionRelease (← piix4Asf).useMmio
      let a ← piix4Asf
      if (← perform (.requestThreadedIrq a.irq a.shareable)) ≠ 0 then enableRestore smba
      else setAsf fun a => { a with irqRequested := true }

/-- `piix4_asf_enable`. -/
def piix4AsfEnable (dev : PciDev) (smba : ℕ) : Driver Unit := do
  let a ← piix4Asf
  if a.smba = 0 ∨ a.smba ≠ smba then pure ()
  else if !a.hasIrq then pure ()
  else if a.iolen < asfIosize then pure ()
  else
    setAsf fun a => { a with useMmio := piix4Sb800UseMmio dev }
    if !(← piix4Asf).useMmio then pure ()
    else if (← perform (.acpiCheckRegion (smba + smbiosize) (asfIosize - smbiosize))) ≠ 0 then pure ()
    else if !(← perform (.requestRegion (smba + smbiosize) (asfIosize - smbiosize))) then pure ()
    else enableIrq smba

/-! ## Starting and stopping -/

/-- The part of `piix4_asf_start` under the mutex. -/
def startLocked (smba : ℕ) : Driver Unit := do
  setAsf fun a => { a with wantListen := true }
  if (← piix4Sb800RegionRequest (← piix4Asf).useMmio) = 0 then
    setAsf fun a => { a with listening := true }
    piix4AsfSlaveArm smba
    piix4Sb800RegionRelease (← piix4Asf).useMmio

/-- `piix4_asf_start` after its beginning. -/
def startBody : Driver Unit := do
  let smba := (← piix4Asf).smba
  if !(← piix4Asf).active then pure ()
  else
    lock .notify
    perform (.setDeliverOk true)
    unlock .notify
    lock .asf
    startLocked smba
    unlock .asf

/-- `piix4_asf_start`. -/
def piix4AsfStart : Driver Unit := do
  mark .starting
  startBody

/-- `piix4_asf_quiesce`. -/
def piix4AsfQuiesce (smba : ℕ) : Driver Unit := do
  setAsf fun a => { a with wantListen := false }
  piix4AsfUpdateIoport asfSlvListn (asfLisAddr smba) false
  piix4AsfUpdateIoport asfSlvIntr (asfSlvEn smba) false
  piix4AsfUpdateIoport asfSlvRst (asfSlvEn smba) true
  piix4AsfClearStatus smba
  setAsf fun a => { a with listening := false }
  if (← piix4Asf).irqRequested then perform .synchronizeHardirq
  setAsf fun a => { a with pending := false }

/-- The part of `piix4_asf_stop` under the mutex. -/
def stopLocked (smba : ℕ) : Driver Unit := do
  piix4AsfQuiesce smba
  if (← piix4Sb800RegionRequest (← piix4Asf).useMmio) = 0 then
    piix4AsfMasterMode smba
    piix4Sb800RegionRelease (← piix4Asf).useMmio

/-- `piix4_asf_stop` up to its return. -/
def stopBody : Driver Unit := do
  let smba := (← piix4Asf).smba
  if !(← piix4Asf).active then pure ()
  else
    lock .asf
    stopLocked smba
    unlock .asf
    if (← piix4Asf).irqRequested then
      perform .freeIrq
      setAsf fun a => { a with irqRequested := false }
    lock .notify
    perform (.setDeliverOk false)
    unlock .notify

/-- `piix4_asf_stop`. -/
def piix4AsfStop : Driver Unit := do
  stopBody
  mark .stopped

/-- `piix4_asf_disable`. -/
def piix4AsfDisable : Driver Unit := do
  let smba := (← piix4Asf).smba
  if (← piix4Asf).active then
    piix4AsfStop
    lock .asf
    unclaimLocked smba
    unlock .asf
    if (← piix4Asf).gsiRegistered then perform (.acpiUnregisterGsi (← piix4Asf).gsi)
    enableReleaseIoregion smba
  setAsf fun _ => Piix4Asf.zero
  setAsf fun a => { a with irq := -1 }

/-! ## Power management -/

/-- The part of `piix4_asf_suspend` under the mutex. -/
def suspendLocked (smba : ℕ) : Driver Unit := do
  let want := (← piix4Asf).wantListen
  setAsf fun a => { a with resumeListen := want }
  if (← piix4Asf).wantListen then piix4AsfQuiesce smba

/-- `piix4_asf_suspend`. -/
def piix4AsfSuspend : Driver Unit := do
  let smba := (← piix4Asf).smba
  if !(← piix4Asf).active then pure ()
  else
    lock .asf
    suspendLocked smba
    unlock .asf

/-- The part of `piix4_asf_resume` under the mutex. -/
def resumeLocked (smba : ℕ) : Driver Unit := do
  setAsf fun a => { a with wantListen := true }
  if (← piix4Sb800RegionRequest (← piix4Asf).useMmio) = 0 then
    piix4AsfUpdateIoport asfSlvRst (asfSlvEn smba) true
    outb 0 (asfSlvSta smba)
    setAsf fun a => { a with listening := true }
    piix4AsfSlaveArm smba
    piix4Sb800RegionRelease (← piix4Asf).useMmio

/-- `piix4_asf_resume`. -/
def piix4AsfResume : Driver Unit := do
  let smba := (← piix4Asf).smba
  if !(← piix4Asf).active || !(← piix4Asf).resumeListen then pure ()
  else
    lock .asf
    resumeLocked smba
    unlock .asf

/-! ## The auxiliary adapter -/

/-- `piix4_asf_algo`: whether it returns `piix4_smbus_algorithm_asf`. -/
def piix4AsfAlgo (smba : ℕ) : Driver Bool := do
  if !(← piix4Asf).active then pure false
  else pure (decide (smba = (← piix4Asf).smba))

/-- How `piix4_add_adapter` fails: the window goes back. -/
def addFailed (smba : ℕ) : Driver Unit := do
  mark .registrationFailed
  perform (.releaseRegion smba smbiosize)

/-- `piix4_add_adapter` for the auxiliary adapter. -/
def piix4AddAdapter (smba : ℕ) : Driver Unit := do
  if !(← perform .kzalloc) then addFailed smba
  else
    let asfAlgo ← piix4AsfAlgo smba
    if !(← perform .kzalloc) then addFailed smba
    else if (← perform (.i2cAddAdapter asfAlgo)) ≠ 0 then addFailed smba
    else perform (.setAuxAdapter true)

/-- `piix4_adap_remove` for the auxiliary adapter, with the assignment that follows it. -/
def piix4AdapRemove (smba : ℕ) : Driver Unit := do
  perform .i2cDelAdapter
  perform (.releaseRegion smba smbiosize)
  perform (.setAuxAdapter false)

end HostNotify
