import HostNotify.Host

/-!
# The ASF half of the driver

The functions the Host Notify patch adds around a running adapter: register helpers,
mode switches, the bank drain, the wrapped master transfer, and both halves of the
interrupt handler.
-/

namespace HostNotify

open Bits Interleaving

/-! ## Register helpers -/

/-- `piix4_asf_update_ioport`. -/
def piix4AsfUpdateIoport (b offset : ℕ) (set : Bool) : Driver Unit := do
  let reg ← inb offset
  outb (assignBit b reg set) offset

/-- `piix4_asf_update_mmio`. -/
def piix4AsfUpdateMmio (b : ℕ) (set : Bool) : Driver Unit := do
  let reg ← ioread32
  iowrite32 (assignBit b reg set)

/-- `piix4_asf_bnksel_data_en`: the full flags are always written as zero. -/
def piix4AsfBnkselDataEn (smba : ℕ) (set : Bool) : Driver Unit := do
  let reg ← inb (asfDataBnkSel smba)
  outb (assignBit asfBnkDataEn (reg &&& ~~~asfBnkFull) set) (asfDataBnkSel smba)

/-- `piix4_asf_clear_status`. -/
def piix4AsfClearStatus (smba : ℕ) : Driver Unit := do
  outb 0 (asfSlvSta smba)
  outb 0 (asfSta smba)
  outb (bit asfStaSlvInt) (asfSta smba)

/-- `piix4_asf_restore_boot_state`. -/
def piix4AsfRestoreBootState (smba : ℕ) : Driver Unit := do
  outb ((← piix4Asf).bootSlven ||| bit asfSlvRst) (asfSlvEn smba)
  outb (← piix4Asf).bootLisaddr (asfLisAddr smba)
  outb ((← piix4Asf).bootBnksel &&& ~~~asfBnkFull) (asfDataBnkSel smba)
  piix4AsfClearStatus smba
  outb (← piix4Asf).bootSlven (asfSlvEn smba)
  let reg ← ioread32
  let reg := reg &&& ~~~(bit asfMstrEn ||| bit asfClkEn)
  iowrite32 (reg ||| (← piix4Asf).bootCtl)

/-! ## Mode switches -/

/-- `piix4_asf_master_mode`. -/
def piix4AsfMasterMode (smba : ℕ) : Driver Unit := do
  piix4AsfUpdateIoport asfSlvListn (asfLisAddr smba) false
  piix4AsfUpdateIoport asfSlvIntr (asfSlvEn smba) false
  piix4AsfUpdateIoport asfSlvRst (asfSlvEn smba) true
  outb 0 (asfSlvSta smba)
  piix4AsfUpdateMmio asfMstrEn true
  piix4AsfBnkselDataEn smba true

/-- `piix4_asf_slave_arm`. -/
def piix4AsfSlaveArm (smba : ℕ) : Driver Unit := do
  mark .armBegin
  outb 0 (smbHstSts smba)
  piix4AsfClearStatus smba
  piix4AsfBnkselDataEn smba false
  outb ((asfHostAddr <<< 1) ||| bit asfSlvListn) (asfLisAddr smba)
  piix4AsfUpdateMmio asfMstrEn false
  piix4AsfUpdateMmio asfClkEn true
  piix4AsfUpdateIoport asfHstDataEn (smbHstCnt smba) true
  piix4AsfUpdateIoport asfHstPecSp (smbHstCnt smba) true
  piix4AsfUpdateIoport asfSlvRst (asfSlvEn smba) false
  piix4AsfUpdateIoport asfSlvIntr (asfSlvEn smba) true

/-! ## Draining the banks -/

/-- `struct piix4_asf_notifies`: the count never leaves the array. -/
structure Notifies where
  addr : List ℕ
  bounded : addr.length ≤ asfNotifyMax

namespace Notifies

/-- `struct piix4_asf_notifies notifies = {}`. -/
def none : Notifies := ⟨[], by simp⟩

/-- An address is appended only while there is room. -/
theorem append_bounded {l : List ℕ} (a : ℕ) (h : l.length < asfNotifyMax) :
    (l ++ [a]).length ≤ asfNotifyMax := by
  rw [List.length_append, List.length_singleton]
  omega

/-- `if (n->count < ASF_NOTIFY_MAX) n->addr[n->count++] = addr`. -/
def push (n : Notifies) (a : ℕ) : Notifies :=
  if h : n.addr.length < asfNotifyMax then ⟨n.addr ++ [a], append_bounded a h⟩ else n

/-- The two outcomes of recording an address. -/
theorem push_addr (n : Notifies) (a : ℕ) :
    (n.push a).addr = if n.addr.length < asfNotifyMax then n.addr ++ [a] else n.addr := by
  unfold push
  split <;> rfl

end Notifies

/-- Which bank `piix4_asf_process_bank` reads for the given flags; `none` returns -1. -/
def chooseBank (reg : Byte) (allowFallback : Bool) (prefer : ℕ) : Option Bool :=
  if reg &&& asfBnkFull = asfBnkFull then some (prefer % 2 == 1)
  else if reg &&& bit 3 ≠ 0 then some true
  else if reg &&& bit 2 ≠ 0 then some false
  else if allowFallback then some false
  else none

/-- The address of a valid Host Notify, from the command byte and the payload. -/
def hostNotifyAddr (cmd : Byte) (data : List Byte) : Option ℕ :=
  let d := data.getD 0 0
  if cmd ≠ asfHostAddr <<< 1 ∨ data.length < asfHostNotifyLen ∨ d &&& 1 ≠ 0 ∨
      (d >>> 1).toNat < 0x08 ∨ 0x77 < (d >>> 1).toNat then none
  else some (d >>> 1).toNat

/-- Read the given number of payload bytes through ASFINDEX. -/
def readPayload (smba : ℕ) : ℕ → Driver (List Byte)
  | 0 => pure []
  | left + 1 => do
    let v ← inb (asfIndex smba)
    let rest ← readPayload smba left
    pure (v :: rest)

/-- Select a bank, read its message and mark the bank consumed. -/
def readBank (smba : ℕ) (reg : Byte) (bank : Bool) : Driver (Byte × List Byte) := do
  -- select the bank without consuming either flag
  let reg := assignBit asfBnkSel (reg &&& ~~~asfBnkFull) bank
  outb reg (asfDataBnkSel smba)
  let cmd ← inb (asfIndex smba)
  let len ← inb (asfDataRwPtr smba)
  let data ← readPayload smba (min len.toNat asfBlockMaxBytes)
  outb (reg ||| bit (Target.flagBit bank)) (asfDataBnkSel smba)
  pure (cmd, data)

/-- The common end of `piix4_asf_process_bank`: rewind the read pointer and decode. -/
def finishBank (smba : ℕ) (bank : ℕ) (cmd : Byte) (data : List Byte) :
    Driver (Option ℕ × Option ℕ) := do
  outb 0 (asfSetDataRdPtr smba)
  match hostNotifyAddr cmd data with
  | none => pure (some bank, none)
  | some addr =>
    mark (.decoded addr)
    pure (some bank, some addr)

/-- `piix4_asf_process_bank`: the bank index (`none` for -1) and the decoded address. -/
def piix4AsfProcessBank (allowFallback : Bool) (prefer : ℕ) : Driver (Option ℕ × Option ℕ) := do
  let smba := (← piix4Asf).smba
  if (← inb (asfSlvSta smba)) &&& asfErrorStatus ≠ 0 then
    -- reception error: flush both banks
    let reg ← inb (asfDataBnkSel smba)
    outb (reg ||| asfBnkFull) (asfDataBnkSel smba)
    mark .errorFlush
    finishBank smba 2 1 []
  else
    let reg ← inb (asfDataBnkSel smba)
    match chooseBank reg allowFallback prefer with
    | none => pure (none, none)
    | some bank =>
      let (cmd, data) ← readBank smba reg bank
      finishBank smba (if bank then 1 else 0) cmd data

/-- Read ASFSTA and acknowledge the slave interrupt if it is set. -/
def ackStatus (smba : ℕ) : Driver Byte := do
  let sta ← inb (asfSta smba)
  if sta &&& bit asfStaSlvInt ≠ 0 then outb (sta ||| bit asfStaSlvInt) (asfSta smba)
  pure sta

/-- Acknowledge the status bit and take the pending flag: together they authorize one read. -/
def takeSignal (smba : ℕ) : Driver Bool := do
  let sta ← ackStatus smba
  let pending ← xchgPending false
  pure (decide (sta &&& bit asfStaSlvInt ≠ 0) || pending)

/-- Whether no bank is flagged full. -/
def banksIdle (smba : ℕ) : Driver Bool := do
  let reg ← inb (asfDataBnkSel smba)
  pure (decide (reg &&& asfBnkFull = 0))

/-- The rest of a pass once a signal or a flag calls for reading a bank: pass `i` of
`piix4_asf_drain` with the passes that follow. -/
def readPass (signalled : Bool) (i : ℕ) (n : Notifies)
    (rest : Notifies → Driver (Bool × Notifies)) : Driver (Bool × Notifies) := do
  match ← piix4AsfProcessBank signalled i with
  | (none, _) => pure (false, n)
  | (some _, addr) => rest (match addr with | some a => n.push a | none => n)

/-- The passes of `piix4_asf_drain` from pass `i` on, `left` of them at most. -/
def drainPasses (smba : ℕ) : ℕ → ℕ → Notifies → Driver (Bool × Notifies)
  | 0, _, n => do
    let idle ← banksIdle smba
    pure (!idle, n)
  | left + 1, i, n => do
    let signalled ← takeSignal smba
    let quiet ← if signalled then pure false else banksIdle smba
    if quiet then pure (false, n)
    else
      match ← piix4AsfProcessBank signalled i with
      | (none, _) => pure (false, n)
      | (some _, addr) =>
        drainPasses smba left (i + 1) (match addr with | some a => n.push a | none => n)

/-- `piix4_asf_drain`. -/
def piix4AsfDrain (smba : ℕ) (n : Notifies) : Driver (Bool × Notifies) := do
  mark .drainBegin
  let (wedged, n) ← drainPasses smba asfDrainMax 0 n
  mark (.drainEnd wedged)
  pure (wedged, n)

/-- Pass every collected address on. -/
def deliverAll : List ℕ → Driver Unit
  | [] => pure ()
  | a :: rest => do
    perform (.i2cHandleSmbusHostNotify a)
    mark .notified
    deliverAll rest

/-- `piix4_asf_deliver`. -/
def piix4AsfDeliver (n : Notifies) : Driver Unit := do
  if n.addr = [] then pure ()
  else
    lock .notify
    if (← perform .deliverOk) then
      if (← perform .auxAdapter) then deliverAll n.addr
    unlock .notify

/-! ## The wrapped master transfer -/

/-- Stop listening, mask the slave interrupt and wait for the hard handler. -/
def holdOff (smba : ℕ) : Driver Unit := do
  piix4AsfUpdateIoport asfSlvListn (asfLisAddr smba) false
  piix4AsfUpdateIoport asfSlvIntr (asfSlvEn smba) false
  perform .synchronizeHardirq

/-- Arm the slave for the length of a listen window, then hold it off and drain. -/
def yieldBus (smba : ℕ) (n : Notifies) : Driver (Bool × Notifies) := do
  setAsf fun a => { a with listening := true }
  piix4AsfSlaveArm smba
  usleepRange asfYieldUs (asfYieldUs * 2)
  holdOff smba
  piix4AsfDrain smba n

/-- The attempts of `piix4_access_asf` while `left` retries remain. -/
def attempts (x : SmbusXfer) : ℕ → Notifies → Driver (Int × SmbusData × Notifies)
  | left, n => do
    piix4AsfMasterMode x.smba
    let (result, data) ← piix4Access x
    if (result ≠ -eagain ∧ result ≠ -enxio) ∨ !(← piix4Asf).wantListen then
      pure (result, data, n)
    else match left with
      | 0 => pure (result, data, n)
      | left + 1 => do
        let (_, n') ← yieldBus x.smba n
        let fromTarget := (n'.addr.drop n.addr.length).contains x.addr
        if result = -enxio ∧ !fromTarget then
          mark .nakExit
          pure (result, data, n')
        else attempts { x with data := data } left n'

/-- Take a listening slave off the bus and read out what it holds. -/
def drainListening (smba : ℕ) : Driver Notifies := do
  if (← piix4Asf).listening then
    holdOff smba
    let (_, n) ← piix4AsfDrain smba Notifies.none
    pure n
  else pure Notifies.none

/-- The part of `piix4_access_asf` under the mutex and the FCH PM region. -/
def accessAsfLocked (x : SmbusXfer) : Driver (Int × SmbusData × Notifies) := do
  let n ← drainListening x.smba
  let (result, data, n) ← attempts x asfXferRetries n
  if (← piix4Asf).wantListen then
    setAsf fun a => { a with listening := true }
    piix4AsfSlaveArm x.smba
  pure (result, data, n)

/-- `piix4_access_asf`. -/
def piix4AccessAsf (x : SmbusXfer) : Driver (Int × SmbusData) := do
  lock .asf
  if !(← piix4Asf).active then
    unlock .asf
    piix4Access x
  else
    let retval ← piix4Sb800RegionRequest (← piix4Asf).useMmio
    if retval ≠ 0 then
      unlock .asf
      pure (retval, x.data)
    else
      let (result, data, n) ← accessAsfLocked x
      piix4Sb800RegionRelease (← piix4Asf).useMmio
      mark .transferEnd
      unlock .asf
      piix4AsfDeliver n
      pure (result, data)

/-! ## The interrupt -/

/-- `irqreturn_t`. -/
inductive IrqReturn where
  | none | handled | wakeThread
  deriving DecidableEq

/-- `piix4_asf_irq_handler`. -/
def piix4AsfIrqHandler : Driver IrqReturn := do
  let smba := (← piix4Asf).smba
  let sta ← inb (asfSta smba)
  if sta &&& bit asfStaSlvInt = 0 then
    if (← inb (smbHstSts smba)) &&& bit asfHstIntr = 0 then pure .none
    else
      outb (bit asfHstIntr) (smbHstSts smba)
      pure .handled
  else
    outb (sta ||| bit asfStaSlvInt) (asfSta smba)
    if !(← piix4Asf).listening then
      piix4AsfUpdateIoport asfSlvIntr (asfSlvEn smba) false
      pure .handled
    else
      setAsf fun a => { a with pending := true }
      pure .wakeThread

/-- The wedge branch of `piix4_asf_irq_thread`. -/
def resetWedged (smba : ℕ) (n : Notifies) : Driver Notifies := do
  let retval ← piix4Sb800RegionRequest (← piix4Asf).useMmio
  if retval = 0 then
    mark .wedgeReset
    piix4AsfUpdateIoport asfSlvListn (asfLisAddr smba) false
    let (_, n) ← piix4AsfDrain smba n
    piix4AsfUpdateIoport asfSlvRst (asfSlvEn smba) true
    outb 0 (asfSlvSta smba)
    piix4AsfSlaveArm smba
    piix4Sb800RegionRelease (← piix4Asf).useMmio
    pure n
  else
    piix4AsfUpdateIoport asfSlvListn (asfLisAddr smba) false
    setAsf fun a => { a with listening := false }
    pure n

/-- The drain of `piix4_asf_irq_thread`, with the reset of a wedged slave. -/
def drainThread (smba : ℕ) : Driver Notifies := do
  let (wedged, n) ← piix4AsfDrain smba Notifies.none
  if wedged then resetWedged smba n else pure n

/-- `piix4_asf_irq_thread`. -/
def piix4AsfIrqThread : Driver Unit := do
  let smba := (← piix4Asf).smba
  lock .asf
  if !(← piix4Asf).listening then
    mark .served
    unlock .asf
  else
    let n ← drainThread smba
    mark .served
    unlock .asf
    piix4AsfDeliver n

end HostNotify
