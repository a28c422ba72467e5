import HostNotify.Interleaving.Prog
import HostNotify.Target
import Mathlib.Logic.Function.Basic

/-!
# Driver state and operations

What the driver's code acts on: the globals of `i2c-piix4.c`, the target block, the
locks and regions of the kernel, and the answers the rest of the system gives. The
functions of the driver are programs over the operations below; `exec` gives each
operation its effect.
-/

namespace HostNotify

open Bits Interleaving

/-- The PCI identity the driver decides by. -/
structure PciDev where
  vendor : ℕ
  device : ℕ
  revision : ℕ

/-- An IRQ descriptor of a `_CRS`. -/
structure AcpiIrq where
  interrupts : List ℕ
  triggering : Byte
  polarity : Byte
  shareable : Byte

/-- A `_CRS` entry as the resource walk sees it. -/
inductive AcpiResource where
  | irq (r : AcpiIrq)
  | extendedIrq (r : AcpiIrq)
  | io (start size : ℕ)
  | other

/-- The resources of an ACPI device; `none` when the walk fails. -/
abbrev AcpiDevice := Option (List AcpiResource)

/-- What does not change while the driver is loaded. -/
structure Board where
  dev : PciDev
  /-- `smba_en_hi`: both SMBus windows lie in this 256-byte page of the I/O space. -/
  smbaEnHi : ℕ
  amdi001a : Bool
  smb0001 : List AcpiDevice
  asfHostNotify : Bool

/-- Base of the main port's window, from `piix4_setup_sb800_smba`. -/
def Board.mainSmba (b : Board) : ℕ := b.smbaEnHi * 256

/-- Base of the auxiliary port's window. -/
def Board.auxSmba (b : Board) : ℕ := b.smbaEnHi * 256 + 0x20

/-- `struct piix4_asf`. -/
structure Piix4Asf where
  smba : ℕ
  iolen : ℕ
  gsi : ℕ
  triggering : Byte
  polarity : Byte
  hasIrq : Bool
  shareable : Bool
  gsiRegistered : Bool
  irq : Int
  active : Bool
  irqRequested : Bool
  wantListen : Bool
  resumeListen : Bool
  listening : Bool
  bootCtl : BitVec 32
  bootLisaddr : Byte
  bootSlven : Byte
  bootBnksel : Byte
  pending : Bool
  useMmio : Bool

/-- All fields zero, as after `memset`. -/
def Piix4Asf.zero : Piix4Asf :=
  { smba := 0, iolen := 0, gsi := 0, triggering := 0, polarity := 0, hasIrq := false
    shareable := false, gsiRegistered := false, irq := 0, active := false, irqRequested := false
    wantListen := false, resumeListen := false, listening := false, bootCtl := 0
    bootLisaddr := 0, bootSlven := 0, bootBnksel := 0, pending := false, useMmio := false }

/-- `static struct piix4_asf piix4_asf = { .irq = -1 }`. -/
def Piix4Asf.loaded : Piix4Asf := { Piix4Asf.zero with irq := -1 }

/-- The two driver mutexes. -/
inductive Lock where
  | asf | notify
  deriving DecidableEq

/-- The device callbacks that the driver core serializes. -/
inductive CoreCall where
  | enable | addAdapter | start | stop | adapRemove | disable | suspend | resume
  deriving DecidableEq

/-- Points of the code that statements refer to; they have no effect on the driver. -/
inductive Mark where
  | drainBegin
  | drainEnd (wedged : Bool)
  | armBegin
  /-- `piix4_access_asf` gives up on an address NAK that no message explains. -/
  | nakExit
  /-- The IRQ thread is about to leave its critical section. -/
  | served
  /-- `piix4_asf_process_bank` flushed both banks on a reception error. -/
  | errorFlush
  /-- The IRQ thread resets a wedged slave. -/
  | wedgeReset
  /-- `piix4_asf_process_bank` decoded a valid Host Notify. -/
  | decoded (addr : ℕ)
  /-- `piix4_access_asf` is about to leave its critical section. -/
  | transferEnd
  /-- A call of `i2c_handle_smbus_host_notify` has returned. -/
  | notified
  /-- `piix4_asf_enable` is about to read the firmware state. -/
  | bootSaved
  /-- `piix4_asf_start` has begun. -/
  | starting
  /-- `piix4_asf_stop` is about to return. -/
  | stopped
  /-- `piix4_add_adapter` has failed and is about to clean up. -/
  | registrationFailed

/-- One step of driver code. -/
inductive Op where
  | inb (port : ℕ)
  | outb (v : Byte) (port : ℕ)
  | ioread32
  | iowrite32 (v : BitVec 32)
  | ioread8 (offset : ℕ)
  | iowrite8 (v : Byte) (offset : ℕ)
  | asf
  | setAsf (f : Piix4Asf → Piix4Asf)
  | xchgPending (v : Bool)
  | deliverOk
  | setDeliverOk (v : Bool)
  | auxAdapter
  | setAuxAdapter (v : Bool)
  | lock (l : Lock)
  | unlock (l : Lock)
  | requestMemRegionMuxed
  | releaseMemRegion
  | ioremap
  | requestMuxedRegion (start len : ℕ)
  | acpiCheckRegion (start len : ℕ)
  | requestRegion (start len : ℕ)
  | releaseRegion (start len : ℕ)
  | acpiRegisterGsi (gsi : ℕ) (triggering polarity : Byte)
  | acpiUnregisterGsi (gsi : ℕ)
  | requestThreadedIrq (irq : Int) (shared : Bool)
  | freeIrq
  | synchronizeHardirq
  | usleepRange (lo hi : ℕ)
  | dynamicDebug
  | acpiDevPresent
  | smb0001Devices
  | asfHostNotify
  | i2cHandleSmbusHostNotify (addr : ℕ)
  | kzalloc
  /-- `asfAlgo`: the adapter is to use `piix4_smbus_algorithm_asf`. -/
  | i2cAddAdapter (asfAlgo : Bool)
  | i2cDelAdapter
  | mark (m : Mark)
  | irqThreadDone
  | transferDone
  | coreDone (c : CoreCall)

/-- The type of an operation's answer. -/
@[reducible] def Op.Ans : Op → Type
  | .inb _ => Byte
  | .ioread32 => BitVec 32
  | .ioread8 _ => Byte
  | .asf => Piix4Asf
  | .xchgPending _ => Bool
  | .deliverOk => Bool
  | .auxAdapter => Bool
  | .requestMemRegionMuxed => Bool
  | .ioremap => Bool
  | .requestMuxedRegion _ _ => Bool
  | .acpiCheckRegion _ _ => Int
  | .requestRegion _ _ => Bool
  | .acpiRegisterGsi _ _ _ => Int
  | .requestThreadedIrq _ _ => Int
  | .dynamicDebug => Bool
  | .acpiDevPresent => Bool
  | .smb0001Devices => List AcpiDevice
  | .asfHostNotify => Bool
  | .kzalloc => Bool
  | .i2cAddAdapter _ => Int
  | _ => Unit

/-- Code of the driver returning an `A`. -/
abbrev Driver (A : Type) := Prog Op Op.Ans A

/-- Answers decided outside the driver; they may change at any time. -/
structure World where
  /-- What a port outside the target block, or the host FIFO, returns. -/
  bus : Byte
  /-- Somebody holds the FCH PM region without sharing it. -/
  regionBusy : Bool
  ioremapFails : Bool
  /-- Some I/O window is taken by another driver or by ACPI. -/
  windowBusy : Bool
  /-- Answer of `acpi_register_gsi`: an IRQ number or a negative error. -/
  gsiAnswer : Int
  /-- Answer of `request_threaded_irq`. -/
  irqAnswer : Int
  allocFails : Bool
  /-- Answer of `i2c_add_adapter`. -/
  addAnswer : Int
  debug : Bool

/-- The interrupt as the kernel sees it. -/
structure IrqLine where
  requested : Bool
  /-- The thread has been woken and has not started yet. -/
  woken : Bool
  /-- The call of the thread in progress. -/
  running : Option ℕ
  /-- That call has passed its critical section. -/
  served : Bool

/-- The line stays masked from the wakeup until the thread returns (`IRQF_ONESHOT`). -/
def IrqLine.masked (l : IrqLine) : Bool := l.woken || l.running.isSome

/-- The thread has been woken and has not passed its critical section yet. -/
def IrqLine.due (l : IrqLine) : Bool := l.woken || (l.running.isSome && !l.served)

/-- Where the device is in its life with the driver. -/
structure Life where
  /-- The device callback in progress; the driver core runs one at a time. -/
  owner : Option ℕ
  /-- Probe is claiming the target block and has not registered the adapter yet. -/
  enabling : Bool
  bound : Bool
  started : Bool
  asleep : Bool
  /-- `piix4_asf_start` has run, and no `piix4_asf_stop` since. -/
  serving : Bool
  /-- The auxiliary adapter is known to the I2C core. -/
  registered : Bool
  /-- It uses `piix4_smbus_algorithm_asf`. -/
  asfAlgo : Bool
  /-- `piix4_adap_remove` has begun, and the driver is still bound. -/
  leaving : Bool
  /-- The latest device callbacks were calls of `piix4_asf_stop` that returned. -/
  halted : Bool
  /-- Transfers in progress on the auxiliary adapter. -/
  aux : List ℕ

/-- History that statements refer to and no code reads. -/
structure Ghost where
  /-- Valid Host Notifies a thread has taken off the banks and not delivered yet. -/
  owed : ℕ → List ℕ
  /-- Receptions completed during the drain in progress. -/
  drain : Option ℕ
  /-- A drain has reported a stuck bank since the last slave reset. -/
  debt : Bool
  /-- A reception error that already caused a flush is still in force. -/
  flushed : Bool
  /-- The latest drain took the error branch. -/
  erred : Bool
  /-- The IRQ thread is resetting a wedged slave and has not armed it again. -/
  resetting : Bool
  /-- Firmware has written DecodeEn since the FCH PM region was last taken. -/
  touched : Bool
  /-- DecodeEn as the firmware left it. -/
  firmware : BitVec 32
  /-- Bits 16 and 17 of DecodeEn as the driver last wrote them by dwords. -/
  wrote : Bool × Bool
  /-- The block as `piix4_asf_enable` found it. -/
  boot : Target
  /-- DecodeEn when the latest device callback began. -/
  before : BitVec 32
  /-- `piix4_asf_stop` has returned, and `piix4_asf_start` not begun since. -/
  fenced : Bool
  /-- `piix4_add_adapter` has begun to clean up after a failure. -/
  orphaned : Bool

/-- The whole system apart from the threads. -/
structure St where
  hw : Target
  world : World
  asf : Piix4Asf
  deliverOk : Bool
  /-- `piix4_aux_adapter` is not NULL. -/
  auxAdapter : Bool
  delivered : List ℕ
  mutex : Option ℕ
  notifyMutex : Option ℕ
  /-- Holder of the muxed FCH PM region. -/
  region : Option ℕ
  /-- History: the callback in progress got the FCH PM region when it last asked for it. -/
  granted : Bool
  /-- Holders of the muxed I/O regions, by first port. -/
  muxed : ℕ → Option ℕ
  windows : List (ℕ × ℕ)
  gsiHeld : Bool
  irq : IrqLine
  life : Life
  ghost : Ghost

/-- Byte `offset` of the FCH PM block; only DecodeEn is modelled. -/
def pmByte (decodeEn : BitVec 32) (bus : Byte) (offset : ℕ) : Byte :=
  if offset < 4 then (decodeEn >>> (8 * offset)).setWidth 8 else bus

/-- Replace byte `offset` of DecodeEn. -/
def setPmByte (decodeEn : BitVec 32) (v : Byte) (offset : ℕ) : BitVec 32 :=
  if offset < 4 then
    (decodeEn &&& ~~~((0xFF : BitVec 32) <<< (8 * offset))) ||| (v.setWidth 32 <<< (8 * offset))
  else decodeEn

/-- The life of the device after a callback returned. -/
def Life.after (l : Life) : CoreCall → Life
  | .enable => { l with owner := none, enabling := false, bound := true }
  | .start => { l with owner := none, serving := true }
  | .stop => { l with owner := none, halted := true }
  | .disable => { l with owner := none, bound := false, started := false, leaving := false }
  | .suspend => { l with owner := none, asleep := true }
  | _ => { l with owner := none }

/-- The history after passing a mark with the block in state `h`. -/
def Ghost.after (g : Ghost) (h : Target) : Mark → Ghost
  | .drainBegin => { g with drain := some 0, erred := false }
  | .drainEnd wedged => { g with drain := none, debt := g.debt || wedged }
  | .errorFlush => { g with flushed := true, erred := true }
  | .wedgeReset => { g with resetting := true }
  | .armBegin => { g with resetting := false }
  | .bootSaved => { g with boot := h, orphaned := false }
  | .starting => { g with fenced := false }
  | .stopped => { g with fenced := true }
  | .registrationFailed => { g with orphaned := true }
  | _ => g

/-- The interrupt after passing a mark. -/
def IrqLine.after (l : IrqLine) : Mark → IrqLine
  | .served => { l with served := true }
  | _ => l

/-- The history after a write of `v` to a target register. -/
def Ghost.afterWrite (g : Ghost) (t : ℕ) (h : Target) (v : Byte) : Reg → Ghost
  | .bnksel => { g with owed := Function.update g.owed t (g.owed t ++ h.taken v) }
  | .slvsta => { g with flushed := false }
  | .slven => if v.getLsbD 4 then { g with debt := false, flushed := false } else g
  | _ => g

/-- The holder of a lock. -/
def St.holder (s : St) : Lock → Option ℕ
  | .asf => s.mutex
  | .notify => s.notifyMutex

def St.setHolder (s : St) (holder : Option ℕ) : Lock → St
  | .asf => { s with mutex := holder }
  | .notify => { s with notifyMutex := holder }

/-- A port read on the given board. -/
def St.portRead (b : Board) (s : St) (port : ℕ) : Byte × St :=
  match decode b.auxSmba port with
  | some r => ((s.hw.read s.world.bus r).1, { s with hw := (s.hw.read s.world.bus r).2 })
  | none => (s.world.bus, s)

/-- A port write by thread `t`. -/
def St.portWrite (b : Board) (t : ℕ) (s : St) (v : Byte) (port : ℕ) : St :=
  match decode b.auxSmba port with
  | some r => { s with hw := s.hw.write v r, ghost := s.ghost.afterWrite t s.hw v r }
  | none => s

/-- A dword write of DecodeEn. -/
def St.writeDecodeEn (s : St) (v : BitVec 32) : St :=
  { s with
    hw := { s.hw with decodeEn := v }
    ghost := { s.ghost with wrote := (v.getLsbD 16, v.getLsbD 17) } }

section PortAccess

variable {b : Board} {port : ℕ} {r : Reg} (s : St)

/-- A read of a target register. -/
theorem St.portRead_reg (h : decode b.auxSmba port = some r) :
    s.portRead b port =
      ((s.hw.read s.world.bus r).1, { s with hw := (s.hw.read s.world.bus r).2 }) := by
  unfold St.portRead
  rw [h]

/-- A read of a register of the SMBus engine. -/
theorem St.portRead_host (h : decode b.auxSmba port = none) :
    s.portRead b port = (s.world.bus, s) := by
  unfold St.portRead
  rw [h]

/-- A write of a target register. -/
theorem St.portWrite_reg (t : ℕ) (v : Byte) (h : decode b.auxSmba port = some r) :
    s.portWrite b t v port =
      { s with hw := s.hw.write v r, ghost := s.ghost.afterWrite t s.hw v r } := by
  unfold St.portWrite
  rw [h]

/-- A write of a register of the SMBus engine. -/
theorem St.portWrite_host (t : ℕ) (v : Byte) (h : decode b.auxSmba port = none) :
    s.portWrite b t v port = s := by
  unfold St.portWrite
  rw [h]

end PortAccess

/-- Thread `t` learns whether it got the FCH PM region. -/
def St.answer (s : St) (t : ℕ) (v : Bool) : St :=
  { s with granted := if s.life.owner = some t then v else s.granted }

/-- One operation of thread `t`; `none` while it has to wait. -/
def exec (b : Board) (t : ℕ) : (o : Op) → St → Option (o.Ans × St)
  | .inb port, s => some (s.portRead b port)
  | .outb v port, s => some ((), s.portWrite b t v port)
  | .ioread32, s => some (s.hw.decodeEn, s)
  | .iowrite32 v, s => some ((), s.writeDecodeEn v)
  | .ioread8 offset, s => some (pmByte s.hw.decodeEn s.world.bus offset, s)
  | .iowrite8 v offset, s =>
    some ((), { s with hw := { s.hw with decodeEn := setPmByte s.hw.decodeEn v offset } })
  | .asf, s => some (s.asf, s)
  | .setAsf f, s => some ((), { s with asf := f s.asf })
  | .xchgPending v, s => some (s.asf.pending, { s with asf := { s.asf with pending := v } })
  | .deliverOk, s => some (s.deliverOk, s)
  | .setDeliverOk v, s => some ((), { s with deliverOk := v })
  | .auxAdapter, s => some (s.auxAdapter, s)
  | .setAuxAdapter v, s => some ((), { s with auxAdapter := v })
  | .lock l, s => if s.holder l = none then some ((), s.setHolder (some t) l) else none
  | .unlock l, s => some ((), s.setHolder none l)
  | .requestMemRegionMuxed, s =>
    if s.region ≠ none then none
    else if s.world.regionBusy then some (false, s.answer t false)
    else some (true, { s with region := some t, ghost := { s.ghost with touched := false } })
  | .releaseMemRegion, s => some ((), { s with region := none })
  | .ioremap, s => some (!s.world.ioremapFails, s.answer t !s.world.ioremapFails)
  | .requestMuxedRegion start _, s =>
    if s.muxed start ≠ none then none
    else if s.world.windowBusy then some (false, s)
    else some (true, { s with muxed := Function.update s.muxed start (some t) })
  | .acpiCheckRegion _ _, s => some (if s.world.windowBusy then -ebusy else 0, s)
  | .requestRegion start len, s =>
    if s.world.windowBusy || s.windows.contains (start, len) then some (false, s)
    else some (true, { s with windows := (start, len) :: s.windows })
  | .releaseRegion start len, s =>
    some ((), { s with
      windows := s.windows.filter (· ≠ (start, len))
      muxed := Function.update s.muxed start none })
  | .acpiRegisterGsi _ _ _, s =>
    some (s.world.gsiAnswer, { s with gsiHeld := s.gsiHeld || decide (0 ≤ s.world.gsiAnswer) })
  | .acpiUnregisterGsi _, s => some ((), { s with gsiHeld := false })
  | .requestThreadedIrq _ _, s =>
    some (s.world.irqAnswer,
      { s with irq := { s.irq with requested := s.irq.requested || decide (s.world.irqAnswer = 0) } })
  | .freeIrq, s =>
    if s.irq.masked then none
    else some ((), { s with irq := { s.irq with requested := false } })
  | .synchronizeHardirq, s => some ((), s)
  | .usleepRange _ _, s => some ((), s)
  | .dynamicDebug, s => some (s.world.debug, s)
  | .acpiDevPresent, s => some (b.amdi001a, s)
  | .smb0001Devices, s => some (b.smb0001, s)
  | .asfHostNotify, s => some (b.asfHostNotify, s)
  | .i2cHandleSmbusHostNotify addr, s =>
    some ((), { s with
      delivered := s.delivered ++ [addr]
      ghost := { s.ghost with
        owed := Function.update s.ghost.owed t ((s.ghost.owed t).erase addr) } })
  | .kzalloc, s => some (!s.world.allocFails, s)
  | .i2cAddAdapter asfAlgo, s =>
    some (s.world.addAnswer, { s with
      life := if s.world.addAnswer = 0 then
          { s.life with registered := true, asfAlgo := asfAlgo } else s.life })
  | .i2cDelAdapter, s =>
    if s.life.aux = [] then some ((), { s with life := { s.life with registered := false } })
    else none
  | .mark m, s => some ((), { s with ghost := s.ghost.after s.hw m, irq := s.irq.after m })
  | .irqThreadDone, s => some ((), { s with irq := { s.irq with running := none } })
  | .transferDone, s =>
    some ((), { s with life := { s.life with aux := s.life.aux.filter (· ≠ t) } })
  | .coreDone c, s => some ((), { s with life := s.life.after c })

/-! ## The operations as code -/

/-- A single operation as code. -/
def perform (o : Op) : Driver o.Ans := Prog.perform o

def inb (port : ℕ) : Driver Byte := perform (.inb port)
def outb (v : Byte) (port : ℕ) : Driver Unit := perform (.outb v port)
def ioread32 : Driver (BitVec 32) := perform .ioread32
def iowrite32 (v : BitVec 32) : Driver Unit := perform (.iowrite32 v)
def ioread8 (offset : ℕ) : Driver Byte := perform (.ioread8 offset)
def iowrite8 (v : Byte) (offset : ℕ) : Driver Unit := perform (.iowrite8 v offset)
/-- Read the driver's global; each use looks at one field. -/
def piix4Asf : Driver Piix4Asf := perform .asf
/-- Store one field of the driver's global. -/
def setAsf (f : Piix4Asf → Piix4Asf) : Driver Unit := perform (.setAsf f)
def xchgPending (v : Bool) : Driver Bool := perform (.xchgPending v)
def lock (l : Lock) : Driver Unit := perform (.lock l)
def unlock (l : Lock) : Driver Unit := perform (.unlock l)
def usleepRange (lo hi : ℕ) : Driver Unit := perform (.usleepRange lo hi)
def mark (m : Mark) : Driver Unit := perform (.mark m)

end HostNotify
