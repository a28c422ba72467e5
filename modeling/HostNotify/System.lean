import HostNotify.Interleaving.Pool
import HostNotify.Lifecycle

/-!
# The running system

The calls other parts of the kernel make into the driver, the events its environment
produces, and the machine whose runs interleave them. A `Setting` says which parts of
the environment a group of statements admits.
-/

namespace HostNotify

open Bits Interleaving

/-- A call into the driver. -/
inductive Call where
  /-- `smbus_xfer` on the auxiliary adapter with `piix4_smbus_algorithm_asf`. -/
  | transfer (x : SmbusXfer)
  /-- `smbus_xfer` on the auxiliary adapter with the plain `smbus_algorithm`. -/
  | plainTransfer (x : SmbusXfer)
  /-- `smbus_xfer` on an adapter of the multiplexed main port. -/
  | mainTransfer (a : MainAdapter) (x : SmbusXfer)
  | irqThread
  | core (c : CoreCall)

/-- Something that happens around the driver. -/
inductive Event where
  /-- The line fires and the hard handler runs. -/
  | hardIrq
  /-- The rest of the system answers differently from now on. -/
  | world (w : World)
  /-- A message is received into bank `i`. -/
  | receive (i : Bool) (data : List Byte) (rwptr : Byte)
  /-- A bad reception sets error bits, and the interrupt status if `signal`. -/
  | rxError (errors : Byte) (signal : Bool)
  /-- The full flag of bank `i` gets stuck. -/
  | stick (i : Bool)
  /-- Firmware reprograms the block during system sleep. -/
  | firmware (h : Target)

/-- What a group of statements admits of the environment and of the calls' own steps. -/
structure Setting where
  /-- Firmware writes the ASF registers and DecodeEn while the system sleeps. -/
  firmware : Bool
  /-- It does so even while the driver holds the mutex or the FCH PM region. -/
  intrude : Bool
  /-- It does so even while the driver holds the FCH PM region. -/
  trample : Bool
  /-- Receptions may fail. -/
  errors : Bool
  /-- Full flags may get stuck. -/
  stuck : Bool
  /-- More than one reception may complete during one drain. -/
  burst : Bool
  /-- A reception may complete into the bank that is being read out. -/
  late : Bool
  /-- FCH PM region requests may fail. -/
  regionFails : Bool
  /-- The device may be stopped, disabled, suspended and resumed. -/
  teardown : Bool
  /-- `piix4_asf_start` may run again without a new probe. -/
  restart : Bool
  /-- The IRQ thread may find the region busy when it has to reset the slave. -/
  busyReset : Bool
  /-- A transfer may end on an unexplained NAK while a bank is stuck. -/
  stuckExit : Bool
  /-- The IRQ thread may leave after a reception error without resetting the slave. -/
  muted : Bool
  /-- The hard handler may find no slave interrupt, and go on to SMBHSTSTS, when the auxiliary port's
  window has been given back or is given back meanwhile. -/
  strayIrq : Bool
  /-- There are transfers on the main port. -/
  mainPort : Bool

/-- Firmware waits with DecodeEn while the driver holds the FCH PM region. -/
def Setting.Spares (k : Setting) : Prop := k.intrude = false ∨ k.trample = false

/-- Own steps of the calls that the setting admits. -/
def Setting.admits (k : Setting) : Call → Op → St → Bool
  | .irqThread, .requestMemRegionMuxed, s =>
    (k.busyReset || !s.world.regionBusy) && (k.muted || !s.ghost.erred || !s.world.regionBusy)
  | .irqThread, .ioremap, s =>
    (k.busyReset || !s.world.ioremapFails) && (k.muted || !s.ghost.erred || !s.world.ioremapFails)
  | .irqThread, .mark (.drainEnd wedged), s =>
    k.muted || !s.ghost.erred || wedged || s.ghost.resetting
  | .transfer _, .mark .nakExit, s => k.stuckExit || !s.ghost.debt
  | _, _, _ => true

/-- Probe's way to the auxiliary port: the window of `piix4_setup_sb800`, then the ASF block. -/
def claimAux (b : Board) : Driver Unit := do
  if (← perform (.requestRegion b.auxSmba smbiosize)) then
    piix4AsfDetect b.auxSmba
    piix4AsfEnable b.dev b.auxSmba

/-- The code of a call. -/
def Call.body (b : Board) : Call → Driver Unit
  | .transfer x => do
    let _ ← piix4AccessAsf x
    perform .transferDone
  | .plainTransfer x => do
    let _ ← piix4Access x
    perform .transferDone
  | .mainTransfer a x => do
    let _ ← piix4AccessSb800 PortGlobals.kerncz a x
    pure ()
  | .irqThread => do
    piix4AsfIrqThread
    perform .irqThreadDone
  | .core .enable => do
    claimAux b
    perform (.coreDone .enable)
  | .core .addAdapter => do
    piix4AddAdapter b.auxSmba
    perform (.coreDone .addAdapter)
  | .core .start => do
    piix4AsfStart
    perform (.coreDone .start)
  | .core .stop => do
    piix4AsfStop
    perform (.coreDone .stop)
  | .core .adapRemove => do
    piix4AdapRemove b.auxSmba
    perform (.coreDone .adapRemove)
  | .core .disable => do
    piix4AsfDisable
    perform (.coreDone .disable)
  | .core .suspend => do
    piix4AsfSuspend
    perform (.coreDone .suspend)
  | .core .resume => do
    piix4AsfResume
    perform (.coreDone .resume)

/-- The window of the auxiliary port is held. -/
def St.holdsAux (s : St) : Bool := s.windows.any fun w => w.2 == smbiosize

/-- The device callbacks that may begin, one at a time. Probe begins unbound and without an
adapter, registers the adapter once it holds the window, and starts if there is one; remove
stops before it takes the adapter away. -/
def St.mayBegin (k : Setting) (s : St) (c : CoreCall) : Bool :=
  s.life.owner.isNone && match c with
    | .enable => !s.life.bound && !s.life.asleep && s.life.aux.isEmpty && !s.life.registered
    | .addAdapter => s.life.bound && !s.life.asleep && !s.life.registered && s.holdsAux
    | .start => s.life.bound && !s.life.asleep && s.auxAdapter && (k.restart || !s.life.started)
    | .stop => k.teardown && s.life.bound && s.auxAdapter
    | .adapRemove => k.teardown && s.life.bound && !s.life.asleep && s.auxAdapter && s.life.halted
    | .disable => k.teardown && (s.life.registered || !s.holdsAux)
    | .suspend => k.teardown && !s.life.asleep && !s.life.leaving
    | .resume => k.teardown && s.life.asleep && !s.life.leaving

/-- The device's life once a callback has begun. -/
def Life.begin (l : Life) (t : ℕ) : CoreCall → Life
  | .enable => { l with owner := some t, halted := false, enabling := true }
  | .start => { l with owner := some t, halted := false, started := true }
  | .stop => { l with owner := some t, serving := false }
  | .adapRemove => { l with owner := some t, halted := false, leaving := true }
  | .disable => { l with owner := some t, halted := false, serving := false }
  | .resume => { l with owner := some t, halted := false, asleep := false }
  | _ => { l with owner := some t, halted := false }

/-- A callback begins as thread `t`. -/
def St.begin (s : St) (t : ℕ) (c : CoreCall) : St :=
  { s with
    life := s.life.begin t c
    granted := false
    ghost := { s.ghost with before := s.hw.decodeEn } }

/-- Thread `t` starts owing nothing. -/
def St.fresh (s : St) (t : ℕ) : St :=
  { s with ghost := { s.ghost with owed := Function.update s.ghost.owed t [] } }

/-- Entering a call as thread `t`, when its caller can make it. -/
def enter (k : Setting) (b : Board) : Call → ℕ → St → Option St
  | .transfer x, t, s =>
    if x.smba = b.auxSmba ∧ s.life.registered = true ∧ s.life.asfAlgo = true then
      some { s.fresh t with life := { s.life with aux := t :: s.life.aux } }
    else none
  | .plainTransfer x, t, s =>
    if x.smba = b.auxSmba ∧ s.life.registered = true ∧ s.life.asfAlgo = false then
      some { s.fresh t with life := { s.life with aux := t :: s.life.aux } }
    else none
  | .mainTransfer a x, _, s =>
    if k.mainPort = true ∧ (a.smba = b.mainSmba ∧ x.smba = b.mainSmba) ∧ a.useMmio = piix4Sb800UseMmio b.dev ∧
        a.port &&& ~~~PortGlobals.kerncz.mask = 0 then some s
    else none
  | .irqThread, t, s =>
    if s.irq.woken && s.irq.running.isNone then
      some { s.fresh t with
        irq := { s.irq with woken := false, running := some t, served := false } }
    else none
  | .core c, t, s =>
    if s.mayBegin k c then
      some (s.begin t c)
    else none

/-- The hard handler as one uninterrupted step. -/
def hardIrq (b : Board) (s : St) : Option St :=
  if s.irq.requested && !s.irq.masked then
    (piix4AsfIrqHandler.runAlone (exec b 0) s).map fun rs =>
      if rs.1 = .wakeThread then { rs.2 with irq := { rs.2.irq with woken := true } } else rs.2
  else none

/-- The effect of an event. -/
def react (k : Setting) (b : Board) : Event → St → Option St
  | .hardIrq, s => hardIrq b s
  | .world w, s =>
    if k.regionFails || (!w.regionBusy && !w.ioremapFails) then some { s with world := w } else none
  | .receive i data rwptr, s =>
    if s.hw.accepts i && (k.burst || s.ghost.drain.all (· == 0)) &&
        (k.late || !(s.hw.reading && s.hw.selected == i)) then
      some { s with
        hw := s.hw.receive i data rwptr s.asf.active
        ghost := { s.ghost with drain := s.ghost.drain.map (· + 1) } }
    else none
  | .rxError errors signal, s =>
    if k.errors && s.hw.lisaddr.getLsbD 0 && !s.hw.slven.getLsbD 4 then
      some { s with hw := { s.hw with
        slvsta := s.hw.slvsta ||| (errors &&& asfErrorStatus)
        sta := if signal then s.hw.sta ||| bit asfStaSlvInt else s.hw.sta } }
    else none
  | .stick i, s =>
    if k.stuck && (s.hw.bank i).full then
      some { s with hw := s.hw.setBank i { s.hw.bank i with stuck := true } }
    else none
  | .firmware h, s =>
    if k.firmware && s.life.asleep && (k.intrude || (s.mutex.isNone && s.region.isNone)) &&
        (k.trample || s.region.isNone) then
      some { s with
        hw := h
        ghost := { s.ghost with
          touched := true, firmware := h.decodeEn
          wrote := (h.decodeEn.getLsbD 16, h.decodeEn.getLsbD 17) } }
    else none

/-- The driver with its surroundings. -/
def machine (k : Setting) (b : Board) : Machine St Op Op.Ans Call Event where
  exec := exec b
  body := Call.body b
  enter := enter k b
  react := react k b
  admits := k.admits

/-- The module has been loaded and the device not been probed yet; the firmware may have
left the block in any state. -/
structure Unbound (k : Setting) (s : St) : Prop where
  asf : s.asf = Piix4Asf.loaded
  deliverOk : s.deliverOk = false
  mutex : s.mutex = none
  notifyMutex : s.notifyMutex = none
  region : s.region = none
  irq : s.irq = { requested := false, woken := false, running := none, served := false }
  life : s.life =
    { owner := none, enabling := false, bound := false, started := false, asleep := false
      serving := false, registered := false, asfAlgo := false, leaving := false, halted := false
      aux := [] }
  auxAdapter : s.auxAdapter = false
  muxed : s.muxed = fun _ => none
  windows : s.windows = []
  gsiHeld : s.gsiHeld = false
  ghost : s.ghost =
    { owed := fun _ => [], drain := none, debt := false, flushed := false, erred := false
      resetting := false, touched := false, firmware := s.hw.decodeEn
      wrote := (getElem s.hw.decodeEn 16 (fits rfl), getElem s.hw.decodeEn 17 (fits rfl)), boot := s.hw
      before := s.hw.decodeEn, fenced := true, orphaned := false }
  unread : ∀ i, (s.hw.bank i).unread = false
  errorless : k.errors = false → s.hw.slvsta &&& asfErrorStatus = 0
  unstuck : k.stuck = false → ∀ i, (s.hw.bank i).stuck = false
  lost : s.hw.lost = false
  world : k.regionFails = false → s.world.regionBusy = false ∧ s.world.ioremapFails = false

end HostNotify
