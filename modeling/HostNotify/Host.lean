import HostNotify.Driver

/-!
# Master transfers

`piix4_transaction`, `piix4_access` and `piix4_access_sb800`. The pristine driver and
the patched one differ in one place, the error code of a finished transaction, so both
are instances of one definition that takes this classification as a parameter.
-/

namespace HostNotify

open Bits Interleaving

/-- `union i2c_smbus_data`, byte by byte; `word` occupies bytes 0 and 1. -/
abbrev SmbusData := ℕ → Byte

/-- `I2C_SMBUS_*` transfer sizes; every other value is unsupported here. -/
inductive SmbusSize where
  | quick | byte | byteData | wordData | blockData | other
  deriving DecidableEq

/-- The arguments of an `smbus_xfer` call on an adapter with base `smba`. -/
structure SmbusXfer where
  smba : ℕ
  addr : ℕ
  /-- `I2C_SMBUS_READ` is `true`. -/
  read : Bool
  command : Byte
  size : SmbusSize
  data : SmbusData

/-- `(addr << 1) | read_write` as it reaches the port. -/
def SmbusXfer.addressByte (x : SmbusXfer) : Byte :=
  BitVec.ofNat 8 (x.addr * 2 + if x.read then 1 else 0)

/-- The error code of the patched `piix4_transaction` for the last polled status. -/
def patchedResult (timedOut : Bool) (temp : Byte) : Int :=
  let result := if timedOut then -etimedout else 0
  let result := if temp &&& bit 4 ≠ 0 then -eio else result
  -- arbitration lost to another master
  let result := if temp &&& bit 3 ≠ 0 then -eagain else result
  if temp &&& bit 2 ≠ 0 ∧ result ≠ -eagain then -enxio else result

/-- The register dump of a `dev_dbg` call, evaluated only when its output is enabled. -/
def transactionDebug (smba : ℕ) : Driver Unit := do
  if ← perform .dynamicDebug then
    let _ ← inb (smbHstCnt smba)
    let _ ← inb (smbHstCmd smba)
    let _ ← inb (smbHstAdd smba)
    let _ ← inb (smbHstDat0 smba)
    let _ ← inb (smbHstDat1 smba)
    pure ()

/-- Poll the busy bit; the result is whether time ran out, and the last status read. -/
def pollHost (smba : ℕ) : ℕ → Byte → Driver (Bool × Byte)
  | 0, temp => pure (true, temp)
  | left + 1, _ => do
    let temp ← inb (smbHstSts smba)
    if temp &&& bit 0 ≠ 0 then
      usleepRange 250 500
      pollHost smba left temp
    else pure (false, temp)

/-- The transaction proper, once the host is ready. -/
def runTransaction (classify : Bool → Byte → Int) (smba : ℕ) (csb5Delay : Bool) :
    Driver Int := do
  let cnt ← inb (smbHstCnt smba)
  outb (cnt ||| bit 6) (smbHstCnt smba)
  if csb5Delay then usleepRange 2000 2100 else usleepRange 250 500
  let (timedOut, temp) ← pollHost smba (maxTimeout - 1) 0
  if (← inb (smbHstSts smba)) ≠ 0 then
    let sts ← inb (smbHstSts smba)
    outb sts (smbHstSts smba)
  let _ ← inb (smbHstSts smba)
  transactionDebug smba
  pure (classify timedOut temp)

/-- `piix4_transaction` up to the error code it makes of the final status. -/
def transactionWith (classify : Bool → Byte → Int) (smba : ℕ) (csb5Delay : Bool) :
    Driver Int := do
  transactionDebug smba
  let temp ← inb (smbHstSts smba)
  if temp ≠ 0 then
    outb temp (smbHstSts smba)
    let temp ← inb (smbHstSts smba)
    if temp ≠ 0 then pure (-ebusy) else runTransaction classify smba csb5Delay
  else runTransaction classify smba csb5Delay

/-- Write `len` block bytes, starting with `data->block[i]`. -/
def writeBlock (smba : ℕ) (data : SmbusData) : ℕ → ℕ → Driver Unit
  | 0, _ => pure ()
  | left + 1, i => do
    outb (data i) (smbBlkDat smba)
    writeBlock smba data left (i + 1)

/-- Read `len` block bytes into `data->block`, starting with index `i`. -/
def readBlock (smba : ℕ) : ℕ → ℕ → SmbusData → Driver SmbusData
  | 0, _, data => pure data
  | left + 1, i, data => do
    let v ← inb (smbBlkDat smba)
    readBlock smba left (i + 1) (Function.update data i v)

/-- Load the request into the host registers; the result is the protocol bits of SMBHSTCNT,
or the error that ends the transfer before it starts. -/
def setupXfer (x : SmbusXfer) : Driver (Except Int Byte) :=
  match x.size with
  | .quick => do
    outb x.addressByte (smbHstAdd x.smba)
    pure (.ok 0x00)
  | .byte => do
    outb x.addressByte (smbHstAdd x.smba)
    if !x.read then outb x.command (smbHstCmd x.smba)
    pure (.ok 0x04)
  | .byteData => do
    outb x.addressByte (smbHstAdd x.smba)
    outb x.command (smbHstCmd x.smba)
    if !x.read then outb (x.data 0) (smbHstDat0 x.smba)
    pure (.ok 0x08)
  | .wordData => do
    outb x.addressByte (smbHstAdd x.smba)
    outb x.command (smbHstCmd x.smba)
    if !x.read then
      outb (x.data 0) (smbHstDat0 x.smba)
      outb (x.data 1) (smbHstDat1 x.smba)
    pure (.ok 0x0C)
  | .blockData => do
    outb x.addressByte (smbHstAdd x.smba)
    outb x.command (smbHstCmd x.smba)
    if !x.read then
      let len := (x.data 0).toNat
      if len = 0 ∨ i2cSmbusBlockMax < len then pure (.error (-einval))
      else do
        outb (x.data 0) (smbHstDat0 x.smba)
        let _ ← inb (smbHstCnt x.smba)
        writeBlock x.smba x.data len 1
        pure (.ok 0x14)
    else pure (.ok 0x14)
  | .other => pure (.error (-eopnotsupp))

/-- Collect the answer of a finished read. -/
def fetchXfer (x : SmbusXfer) : Driver (Int × SmbusData) :=
  match x.size with
  | .byte | .byteData => do
    let v ← inb (smbHstDat0 x.smba)
    pure (0, Function.update x.data 0 v)
  | .wordData => do
    let lo ← inb (smbHstDat0 x.smba)
    let hi ← inb (smbHstDat1 x.smba)
    pure (0, Function.update (Function.update x.data 0 lo) 1 hi)
  | .blockData => do
    let len ← inb (smbHstDat0 x.smba)
    let data := Function.update x.data 0 len
    if len = 0 ∨ i2cSmbusBlockMax < len.toNat then pure (-eproto, data)
    else do
      let _ ← inb (smbHstCnt x.smba)
      let data ← readBlock x.smba len.toNat 1 data
      pure (0, data)
  | .quick | .other => pure (0, x.data)

/-- `piix4_access` around the given `piix4_transaction`. -/
def accessWith (transaction : ℕ → Driver Int) (x : SmbusXfer) : Driver (Int × SmbusData) := do
  match ← setupXfer x with
  | .error e => pure (e, x.data)
  | .ok size => do
    outb ((size &&& 0x1C) + BitVec.ofNat 8 (enableInt9 &&& 1)) (smbHstCnt x.smba)
    let status ← transaction x.smba
    if status ≠ 0 then pure (status, x.data)
    else if !x.read ∨ x.size = .quick then pure (0, x.data)
    else fetchXfer x

/-- `piix4_transaction` of the patched driver, on a chipset without the CSB5 delay. -/
def piix4Transaction (smba : ℕ) : Driver Int := transactionWith patchedResult smba false

/-- `piix4_access` of the patched driver, on a chipset without the CSB5 delay. -/
def piix4Access (x : SmbusXfer) : Driver (Int × SmbusData) := accessWith piix4Transaction x

/-! ## The multiplexed main port -/

/-- `struct sb800_mmio_cfg` and the adapter data of a main-port adapter. -/
structure MainAdapter where
  smba : ℕ
  useMmio : Bool
  notifyImc : Bool
  /-- Port number, shifted into place. -/
  port : Byte

/-- `piix4_port_sel_sb800`, `piix4_port_mask_sb800` and `piix4_port_shift_sb800`. -/
structure PortGlobals where
  sel : ℕ
  mask : Byte
  shift : ℕ

/-- SmBus0Sel is at bits 20:19 of DecodeEn. -/
def PortGlobals.kerncz : PortGlobals := { sel := 0x02, mask := 0x18, shift := 3 }

/-- `piix4_sb800_region_request`; zero is success. -/
def piix4Sb800RegionRequest (useMmio : Bool) : Driver Int := do
  if useMmio then
    if !(← perform .requestMemRegionMuxed) then pure (-ebusy)
    else if !(← perform .ioremap) then
      perform .releaseMemRegion
      pure (-enomem)
    else pure 0
  else if !(← perform (.requestMuxedRegion 0xcd6 2)) then pure (-ebusy)
  else pure 0

/-- `piix4_sb800_region_release`. -/
def piix4Sb800RegionRelease (useMmio : Bool) : Driver Unit :=
  if useMmio then perform .releaseMemRegion else perform (.releaseRegion 0xcd6 2)

def imcIdx : ℕ := 0x3e
def imcData : ℕ := 0x3f

/-- `piix4_imc_read`. -/
def piix4ImcRead (idx : Byte) : Driver Byte := do
  outb idx imcIdx
  inb imcData

/-- `piix4_imc_write`. -/
def piix4ImcWrite (idx value : Byte) : Driver Unit := do
  outb idx imcIdx
  outb value imcData

/-- Wait for the IMC mailbox; whether it answered in time. -/
def pollImc : ℕ → Driver Bool
  | 0 => pure false
  | left + 1 => do
    if (← piix4ImcRead 0x82) = 0xfa then pure true
    else
      usleepRange 1000 2000
      pollImc left

/-- `piix4_imc_sleep`. -/
def piix4ImcSleep : Driver Int := do
  if !(← perform (.requestMuxedRegion 0x3e 2)) then pure (-ebusy)
  else
    piix4ImcWrite 0x82 0x00
    piix4ImcWrite 0x83 0xB4
    piix4ImcWrite 0x80 0x96
    let answered ← pollImc maxTimeout
    perform (.releaseRegion 0x3e 2)
    pure (if answered then 0 else -etimedout)

/-- `piix4_imc_wakeup`. -/
def piix4ImcWakeup : Driver Unit := do
  if !(← perform (.requestMuxedRegion 0x3e 2)) then pure ()
  else
    piix4ImcWrite 0x82 0x00
    piix4ImcWrite 0x83 0xB5
    piix4ImcWrite 0x80 0x96
    let _ ← pollImc maxTimeout
    perform (.releaseRegion 0x3e 2)

/-- `piix4_sb800_port_sel`: select a port, returning the previous selection. -/
def piix4Sb800PortSel (g : PortGlobals) (useMmio : Bool) (port : Byte) : Driver Byte := do
  if useMmio then
    let smbaEnLo ← ioread8 g.sel
    let val := (smbaEnLo &&& ~~~g.mask) ||| port
    if smbaEnLo ≠ val then iowrite8 val g.sel
    pure (smbaEnLo &&& g.mask)
  else
    outb (BitVec.ofNat 8 g.sel) 0xcd6
    let smbaEnLo ← inb 0xcd7
    let val := (smbaEnLo &&& ~~~g.mask) ||| port
    if smbaEnLo ≠ val then outb val 0xcd7
    pure (smbaEnLo &&& g.mask)

/-- Request the SMBus semaphore; the last value of SMBSLVCNT once it is ours. -/
def requestSemaphore (smba : ℕ) : ℕ → Byte → Driver (Option Byte)
  | 0, _ => pure none
  | left + 1, smbslvcnt => do
    outb (smbslvcnt ||| 0x10) (smbSlvCnt smba)
    let smbslvcnt ← inb (smbSlvCnt smba)
    if smbslvcnt &&& bit 4 ≠ 0 then pure (some smbslvcnt)
    else
      usleepRange 1000 2000
      requestSemaphore smba left smbslvcnt

/-- Tell the IMC about a block transfer; the result is the new `notify_imc`. -/
def notifyImc (a : MainAdapter) (x : SmbusXfer) : Driver Bool := do
  if x.size = .blockData ∧ a.notifyImc then
    let ret ← piix4ImcSleep
    pure (decide (ret = 0))
  else pure a.notifyImc

/-- `piix4_access_sb800` around the given `piix4_access`: result, data and `notify_imc`. -/
def accessSb800With (access : SmbusXfer → Driver (Int × SmbusData)) (g : PortGlobals)
    (a : MainAdapter) (x : SmbusXfer) : Driver (Int × SmbusData × Bool) := do
  let retval ← piix4Sb800RegionRequest a.useMmio
  if retval ≠ 0 then pure (retval, x.data, a.notifyImc)
  else
    let smbslvcnt ← inb (smbSlvCnt a.smba)
    match ← requestSemaphore a.smba maxTimeout smbslvcnt with
    | none =>
      piix4Sb800RegionRelease a.useMmio
      pure (-ebusy, x.data, a.notifyImc)
    | some smbslvcnt =>
      let imc ← notifyImc a x
      let prevPort ← piix4Sb800PortSel g a.useMmio a.port
      let (retval, data) ← access x
      let _ ← piix4Sb800PortSel g a.useMmio prevPort
      outb (smbslvcnt ||| 0x20) (smbSlvCnt a.smba)
      if x.size = .blockData ∧ imc then piix4ImcWakeup
      piix4Sb800RegionRelease a.useMmio
      pure (retval, data, imc)

/-- `piix4_access_sb800` of the patched driver. -/
def piix4AccessSb800 (g : PortGlobals) (a : MainAdapter) (x : SmbusXfer) :
    Driver (Int × SmbusData × Bool) := accessSb800With piix4Access g a x

end HostNotify
