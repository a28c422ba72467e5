import HostNotify.Interleaving.Pool
import Mathlib.Logic.Function.Basic

/-!
# SMBus companions of PS/2 mice

`psmouse-smbus.c` gives a touchpad that also answers on SMBus a client there, its companion, as soon
as there is an adapter that delivers Host Notify. Mice come and go with the serio ports, adapters and
clients with the I2C core, and a companion's removal is left to a work queue; what they share is a
list of records, allocated and freed on all of these paths.
-/

namespace HostNotify.Psmouse

open Interleaving

/-! ## What is in memory -/

/-- Where an object lies. -/
abbrev Addr := ℕ

/-- Whose handlers a `struct psmouse` has: those of `psmouse_apply_defaults` or of a protocol without
companions, those of a companion's mouse, or those of `synaptics.c` and `elantech.c`. -/
inductive Handlers where
  | plain | smbus | vendor
  deriving DecidableEq

/-- `private` of a `struct psmouse`. -/
inductive Private where
  | null
  | smbdev (d : Addr)
  | vendor
  deriving DecidableEq

/-- `struct psmouse`, as far as companions are concerned. -/
structure Mouse where
  handlers : Handlers
  priv : Private

/-- `struct psmouse_smbus_dev`, and the thread that has it to itself while it is not on the list. -/
structure SmbusDev where
  psmouse : Addr
  client : Option Addr
  dead : Bool
  needDeactivate : Bool
  /-- `board.platform_data`. -/
  platformData : Option Addr
  owner : Option ℕ

/-- Where the removal of a client by the work queue has got to. -/
inductive Removal where
  | none
  | queued
  | taken (t : ℕ)
  deriving DecidableEq

/-- `struct i2c_client`. -/
structure Client where
  platformData : Option Addr
  /-- `psmouse_smbus_init` is not done with it. -/
  building : Bool
  removal : Removal
  /-- The thread that unregisters the device. -/
  destroyer : Option ℕ
  /-- The notifier has begun to look for its record. -/
  notified : Bool

/-- Who has to free platform data. -/
inductive Holder where
  | thread (t : ℕ)
  | client (c : Addr)

/-- Who deals with a mouse, and the thread that runs `psmouse_resync` for it. -/
inductive Usage where
  /-- A callback makes or unmakes the mouse, and has it to itself. -/
  | owned (t : ℕ)
  /-- It has, but for `psmouse_resync`. -/
  | watched (t : ℕ) (resync : Option ℕ)
  /-- Any number of other callbacks use it. -/
  | bound (users : List ℕ) (resync : Option ℕ)

/-- The thread in `psmouse_resync`. -/
def Usage.resync : Usage → Option ℕ
  | .owned _ => none
  | .watched _ r => r
  | .bound _ r => r

/-- What the rest of the kernel and the hardware answer until further notice. -/
structure World where
  memory : Bool
  address : Addr
  answer : Bool
  rounds : ℕ

/-- The mice, their companions and the I2C bus. -/
structure Board where
  mouse : Addr → Option Mouse
  usage : Addr → Usage
  smbdev : Addr → Option SmbusDev
  /-- `psmouse_smbus_list`. -/
  list : List Addr
  client : Addr → Option Client
  /-- Platform data, and who has to free it. -/
  data : Addr → Option Holder
  /-- The clients whose removal waits in `psmouse_smbus_wq`. -/
  work : List Addr
  /-- How many adapters the bus has seen. -/
  adapters : ℕ
  present : ℕ → Bool
  hostNotify : ℕ → Bool
  psmouseMutex : Option ℕ
  smbusMutex : Option ℕ
  world : World
  /-- Memory has been used that is not allocated, or freed twice. -/
  fault : Bool
  /-- Something the driver does not provide against has happened. -/
  lapse : Bool

inductive Lock where
  | psmouse | smbus
  deriving DecidableEq

/-- One step of the code. -/
inductive Op where
  | lock (l : Lock)
  | unlock (l : Lock)
  /-- A decision that depends on the hardware, the machine or the rest of the kernel. -/
  | outcome
  /-- How many devices an iteration over the bus comes across at most. -/
  | rounds
  /-- The iteration is longer than that; nothing comes of such a run. -/
  | stuck
  /-- A pointer that points to no record is followed. -/
  | wild
  /-- `kzalloc_obj(*psmouse)`. -/
  | newMouse
  | freeMouse (p : Addr)
  | handlers (p : Addr)
  | setHandlers (p : Addr) (h : Handlers)
  | priv (p : Addr)
  | setPrivate (p : Addr) (v : Private)
  /-- A PS/2 command. -/
  | command (p : Addr)
  /-- `input_register_device`, in the course of a change of protocol or for a new mouse. -/
  | inputRegisterDevice (change : Bool)
  /-- From here on what the mouse sends may set off `psmouse_resync`. -/
  | activate (p : Addr)
  /-- `psmouse_connect` returns 0: callbacks and attributes may come in. -/
  | bind (p : Addr)
  /-- A callback or an attribute is through with the mouse. -/
  | leave (p : Addr)
  /-- `psmouse_resync` is through with it. -/
  | workDone (p : Addr)
  /-- `disable_work_sync(&psmouse->resync_work)`. -/
  | disableWorkSync (p : Addr)
  /-- `serio_unregister_child_port`, which waits until the children's mice have been disconnected. -/
  | serioUnregisterChildPort (p : Addr)
  /-- `kzalloc` of a record, with the fields set right after it. -/
  | newDev (p : Addr) (needDeactivate : Bool)
  | freeDev (d : Addr)
  | readDev (d : Addr)
  /-- `smbdev->board.platform_data = kmemdup(...)`. -/
  | kmemdup (d : Addr)
  /-- `kfree(smbdev->board.platform_data)`, and the pointer is cleared. -/
  | freeBoardData (d : Addr)
  | setDead (d : Addr)
  | setClient (d c : Addr)
  /-- The list as it is; the notifier is about to look for the client that has gone, if any. -/
  | entries (gone : Option Addr)
  | listAdd (d : Addr)
  | listDel (d : Addr)
  /-- `serio_rescan(smbdev->psmouse->ps2dev.serio)`. -/
  | rescan (d : Addr)
  /-- `i2c_check_functionality`. -/
  | hostNotify (a : ℕ)
  /-- `bus_add_device` for a new adapter. -/
  | busAdd (hostNotify : Bool)
  /-- The next adapter on the bus, from a position on. -/
  | nextAdapter (k : ℕ)
  /-- `i2c_new_scanned_device` with the board of record `d`. -/
  | newScannedDevice (a : ℕ) (d : Addr)
  | linkAdd (c : Option Addr) (p : Addr)
  | linkRemove (c : Option Addr) (p : Addr)
  /-- `kfree(client->dev.platform_data)`, and the pointer is cleared. -/
  | freeClientData (c : Addr)
  /-- `queue_work` with a new `psmouse_smbus_removal_work`, if there is memory for it. -/
  | queueWork (c : Option Addr)
  /-- `device_unregister` begins. -/
  | deviceDel (c : Addr)
  /-- The companion's driver is removed, which waits until the mouse of its trackstick has been
  disconnected. -/
  | releaseDriver (c : Addr)
  /-- The last reference is given up. -/
  | putDevice (c : Addr)

/-- The operation waits for work that takes `psmouse_mutex`. -/
def Op.Waits : Op → Prop
  | .disableWorkSync _ | .serioUnregisterChildPort _ | .releaseDriver _ => True
  | _ => False

/-- The answer of an operation. -/
abbrev Op.Ans : Op → Type
  | .outcome => Bool
  | .rounds => ℕ
  | .newMouse => Option Addr
  | .handlers _ => Handlers
  | .priv _ => Private
  | .inputRegisterDevice _ => Bool
  | .newDev _ _ => Option Addr
  | .readDev _ => SmbusDev
  | .kmemdup _ => Bool
  | .entries _ => List Addr
  | .hostNotify _ => Bool
  | .busAdd _ => ℕ
  | .nextAdapter _ => Option ℕ
  | .newScannedDevice _ _ => Option Addr
  | _ => Unit

abbrev Driver := Prog Op Op.Ans

namespace Board

variable (s : Board)

/-- Memory that is not allocated has been used. -/
def blame : Board := { s with fault := true }

def setMouse (p : Addr) (m : Option Mouse) : Board := { s with mouse := Function.update s.mouse p m }
def setUsage (p : Addr) (u : Usage) : Board := { s with usage := Function.update s.usage p u }
def setDev (d : Addr) (r : Option SmbusDev) : Board := { s with smbdev := Function.update s.smbdev d r }
def setClient (c : Addr) (x : Option Client) : Board := { s with client := Function.update s.client c x }
def setData (m : Addr) (h : Option Holder) : Board := { s with data := Function.update s.data m h }

section Update

variable {s : Board} {a b : Addr}

/-- The mouse that has been assigned is read. -/
@[simp] theorem mouse_setMouse {m : Option Mouse} : (s.setMouse a m).mouse a = m := Function.update_self ..
/-- The usage that has been assigned is read. -/
@[simp] theorem usage_setUsage {x : Usage} : (s.setUsage a x).usage a = x := Function.update_self ..
/-- The record that has been assigned is read. -/
@[simp] theorem smbdev_setDev {r : Option SmbusDev} : (s.setDev a r).smbdev a = r := Function.update_self ..
/-- The client that has been assigned is read. -/
@[simp] theorem client_setClient {x : Option Client} : (s.setClient a x).client a = x := Function.update_self ..
/-- The holder that has been assigned is read. -/
@[simp] theorem data_setData {h : Option Holder} : (s.setData a h).data a = h := Function.update_self ..

/-- Other mice are left alone. -/
theorem mouse_setMouse_of_ne {m : Option Mouse} (h : b ≠ a) : (s.setMouse a m).mouse b = s.mouse b :=
  Function.update_of_ne h ..

/-- The usage of other mice is left alone. -/
theorem usage_setUsage_of_ne {x : Usage} (h : b ≠ a) : (s.setUsage a x).usage b = s.usage b :=
  Function.update_of_ne h ..

/-- Other records are left alone. -/
theorem smbdev_setDev_of_ne {r : Option SmbusDev} (h : b ≠ a) : (s.setDev a r).smbdev b = s.smbdev b :=
  Function.update_of_ne h ..

/-- Other clients are left alone. -/
theorem client_setClient_of_ne {x : Option Client} (h : b ≠ a) : (s.setClient a x).client b = s.client b :=
  Function.update_of_ne h ..

/-- Other platform data is left alone. -/
theorem data_setData_of_ne {x : Option Holder} (h : b ≠ a) : (s.setData a x).data b = s.data b :=
  Function.update_of_ne h ..

end Update

/-- Change an object that has to be there. -/
def onMouse (p : Addr) (f : Mouse → Mouse) : Board :=
  match s.mouse p with
  | some m => s.setMouse p (some (f m))
  | none => s.blame

def onDev (d : Addr) (f : SmbusDev → SmbusDev) : Board :=
  match s.smbdev d with
  | some r => s.setDev d (some (f r))
  | none => s.blame

def onClient (c : Addr) (f : Client → Client) : Board :=
  match s.client c with
  | some x => s.setClient c (some (f x))
  | none => s.blame

section There

variable {s : Board} {a : Addr}

/-- A mouse that is there is changed. -/
theorem onMouse_of_some {m : Mouse} (h : s.mouse a = some m) (f : Mouse → Mouse) :
    s.onMouse a f = s.setMouse a (some (f m)) := by
  rw [onMouse, h]

/-- A record that is there is changed. -/
theorem onDev_of_some {r : SmbusDev} (h : s.smbdev a = some r) (f : SmbusDev → SmbusDev) :
    s.onDev a f = s.setDev a (some (f r)) := by
  rw [onDev, h]

/-- A client that is there is changed. -/
theorem onClient_of_some {x : Client} (h : s.client a = some x) (f : Client → Client) :
    s.onClient a f = s.setClient a (some (f x)) := by
  rw [onClient, h]

end There

/-- Touch an object that has to be there. -/
def touchMouse (p : Addr) : Board := if (s.mouse p).isSome then s else s.blame
def touchClient (c : Option Addr) : Board := if (c.bind s.client).isSome then s else s.blame

/-- A mouse that is there may be touched. -/
theorem touchMouse_of_some {s : Board} {p : Addr} {m : Mouse} (h : s.mouse p = some m) : s.touchMouse p = s := by
  rw [touchMouse, h]
  rfl

/-- A client that is there may be touched. -/
theorem touchClient_of_some {s : Board} {c : Addr} {x : Client} (h : s.client c = some x) :
    s.touchClient (some c) = s := by
  rw [touchClient, Option.bind_some, h]
  rfl

/-- `kfree` of platform data; of a null pointer it does nothing. -/
def freeData : Option Addr → Board
  | none => s
  | some m => if (s.data m).isSome then s.setData m none else s.blame

/-- A record on the list names the client. -/
def names (c : Addr) : Bool := s.list.any fun d => (s.smbdev d).bind SmbusDev.client = some c

/-- The first adapter on the bus from position `k` on. -/
def adapterFrom (k : ℕ) : Option ℕ := (List.range s.adapters).find? fun a => k ≤ a && s.present a

/-- The memory the next allocation yields. -/
def allot {α : Type} (taken : Addr → Option α) : Option Addr :=
  if s.world.memory && (taken s.world.address).isNone then some s.world.address else none

/-- What is allocated was free. -/
theorem allot_some {s : Board} {α : Type} {taken : Addr → Option α} {a : Addr} (h : s.allot taken = some a) :
    taken a = none := by
  unfold allot at h
  split at h
  · next hfree =>
    obtain rfl := Option.some.inj h
    exact Option.isNone_iff_eq_none.mp (Bool.and_eq_true_iff.mp hfree).2
  · cases h

def holder : Lock → Option ℕ
  | .psmouse => s.psmouseMutex
  | .smbus => s.smbusMutex

def setHolder (t : Option ℕ) : Lock → Board
  | .psmouse => { s with psmouseMutex := t }
  | .smbus => { s with smbusMutex := t }

end Board

/-- What `kzalloc` and the assignments after it leave in a record. -/
def SmbusDev.fresh (p : Addr) (needDeactivate : Bool) (t : ℕ) : SmbusDev :=
  { psmouse := p, client := none, dead := false, needDeactivate := needDeactivate, platformData := none
    owner := some t }

/-- A client as the I2C core registers it. -/
def Client.fresh (platformData : Option Addr) : Client :=
  { platformData := platformData, building := true, removal := .none, destroyer := none, notified := false }

/-- Nobody has begun to unregister the client. -/
def Client.registered (x : Client) : Bool := x.destroyer.isNone

/-- One operation of thread `t`; `none` while it has to wait. -/
def exec (t : ℕ) : (o : Op) → Board → Option (o.Ans × Board)
  | .lock l, s => if s.holder l = none then some ((), s.setHolder (some t) l) else none
  | .unlock l, s => some ((), s.setHolder none l)
  | .outcome, s => some (s.world.answer, s)
  | .rounds, s => some (s.world.rounds, s)
  | .stuck, _ => none
  | .wild, s => some ((), s.blame)
  | .newMouse, s =>
    match s.allot s.mouse with
    | some p =>
      some (some p, (s.setMouse p (some { handlers := .plain, priv := .null })).setUsage p (.owned t))
    | none => some (none, s)
  | .freeMouse p, s => some ((), if (s.mouse p).isSome then s.setMouse p none else s.blame)
  | .handlers p, s => some (((s.mouse p).map Mouse.handlers).getD .plain, s.touchMouse p)
  | .setHandlers p h, s => some ((), s.onMouse p fun m => { m with handlers := h })
  | .priv p, s => some (((s.mouse p).map Mouse.priv).getD .null, s.touchMouse p)
  | .setPrivate p v, s => some ((), s.onMouse p fun m => { m with priv := v })
  | .command p, s => some ((), s.touchMouse p)
  | .inputRegisterDevice change, s =>
    some (s.world.answer, { s with lapse := s.lapse || change && !s.world.answer })
  | .activate p, s =>
    match s.usage p with
    | .owned u => some ((), (s.touchMouse p).setUsage p (.watched u none))
    | _ => some ((), s.touchMouse p)
  | .bind p, s => some ((), s.setUsage p (.bound [] (s.usage p).resync))
  | .leave p, s =>
    match s.usage p with
    | .bound users r => some ((), s.setUsage p (.bound (users.erase t) r))
    | _ => some ((), s)
  | .workDone p, s =>
    match s.usage p with
    | .owned _ => some ((), s)
    | .watched u _ => some ((), s.setUsage p (.watched u none))
    | .bound users _ => some ((), s.setUsage p (.bound users none))
  | .disableWorkSync p, s =>
    match s.usage p with
    | .watched u none => some ((), (s.touchMouse p).setUsage p (.owned u))
    | .watched _ (some _) => none
    | _ => some ((), s.touchMouse p)
  -- how long this takes is left open, as with `releaseDriver`
  | .serioUnregisterChildPort _, s => some ((), s)
  | .newDev p needDeactivate, s =>
    match s.allot s.smbdev with
    | some d =>
      some (some d, s.setDev d (some (.fresh p needDeactivate t)))
    | none => some (none, s)
  | .freeDev d, s => some ((), if (s.smbdev d).isSome then s.setDev d none else s.blame)
  | .readDev d, s =>
    match s.smbdev d with
    | some r => some (r, s)
    | none => some (.fresh 0 false t, s.blame)
  | .kmemdup d, s =>
    match s.allot s.data with
    | some m =>
      some (true, (s.setData m (some (.thread t))).onDev d fun r => { r with platformData := some m })
    | none => some (false, s)
  | .freeBoardData d, s =>
    match s.smbdev d with
    | some r => some ((), (s.freeData r.platformData).onDev d fun r => { r with platformData := none })
    | none => some ((), s.blame)
  | .setDead d, s => some ((), s.onDev d fun r => { r with dead := true })
  | .setClient d c, s => some ((), s.onDev d fun r => { r with client := some c })
  | .entries gone, s =>
    match gone with
    | some c => some (s.list, s.onClient c fun x => { x with notified := true })
    | none => some (s.list, s)
  | .listAdd d, s =>
    some ((), { s.onDev d fun r => { r with owner := none } with list := s.list ++ [d] })
  | .listDel d, s =>
    some ((), { s.onDev d fun r => { r with owner := some t } with list := s.list.erase d })
  | .rescan d, s =>
    match s.smbdev d with
    | some r => some ((), s.touchMouse r.psmouse)
    | none => some ((), s.blame)
  | .hostNotify a, s => some (s.hostNotify a, s)
  | .busAdd hostNotify, s =>
    some (s.adapters, { s with
      adapters := s.adapters + 1
      present := Function.update s.present s.adapters true
      hostNotify := Function.update s.hostNotify s.adapters hostNotify })
  | .nextAdapter k, s => some (s.adapterFrom k, s)
  | .newScannedDevice _ d, s =>
    match s.smbdev d with
    | none => some (none, s.blame)
    | some r =>
      match if s.world.answer then s.allot s.client else none with
      | none => some (none, s)
      | some c =>
        let s' := s.setClient c (some (.fresh r.platformData))
        some (some c, { s' with
          data := match r.platformData with
            | some m => Function.update s.data m (some (.client c))
            | none => s.data
          lapse := s.lapse || s.names c })
  | .linkAdd c p, s =>
    match c with
    | some c => some ((), (s.touchMouse p).onClient c fun x => { x with building := false })
    | none => some ((), s.blame)
  | .linkRemove c p, s => some ((), (s.touchMouse p).touchClient c)
  | .freeClientData c, s =>
    match s.client c with
    | some x => some ((), (s.freeData x.platformData).onClient c fun x => { x with platformData := none })
    | none => some ((), s.blame)
  | .queueWork c, s =>
    match c with
    | none => some ((), s.blame)
    | some c =>
      if s.world.memory then
        let s' := s.onClient c fun x => { x with removal := .queued }
        some ((), { s' with
          work := s.work ++ [c]
          lapse := s.lapse || !((s.client c).map Client.registered).getD false })
      else some ((), s)
  | .deviceDel c, s =>
    match s.client c with
    | some x =>
      if x.registered then some ((), s.setClient c (some { x with destroyer := some t, removal := .none }))
      else some ((), s.blame)
    | none => some ((), s.blame)
  | .releaseDriver c, s => some ((), s.touchClient (some c))
  | .putDevice c, s => some ((), if (s.client c).isSome then s.setClient c none else s.blame)

/-! ## The code -/

def perform (o : Op) : Driver o.Ans := Prog.perform o

def lock (l : Lock) : Driver Unit := perform (.lock l)
def unlock (l : Lock) : Driver Unit := perform (.unlock l)

/-- A decision outside the model. -/
def outcome : Driver Bool := perform .outcome

/-- The loop of `psmouse_smbus_check_adapter`. -/
def checkEntries : List Addr → Driver Unit
  | [] => pure ()
  | d :: rest => do
    let smbdev ← perform (.readDev d)
    if smbdev.dead then checkEntries rest
    else if smbdev.client.isSome then checkEntries rest
    else do
      perform (.rescan d)
      checkEntries rest

/-- `psmouse_smbus_check_adapter`. -/
def psmouseSmbusCheckAdapter (adapter : ℕ) : Driver Unit := do
  if ← perform (.hostNotify adapter) then
    lock .smbus
    checkEntries (← perform (.entries none))
    unlock .smbus

/-- The loop of `psmouse_smbus_detach_i2c_client`. -/
def detachEntries (client : Addr) : List Addr → Driver Unit
  | [] => pure ()
  | d :: rest => do
    let smbdev ← perform (.readDev d)
    if smbdev.client ≠ some client then detachEntries client rest
    else do
      perform (.freeClientData client)
      if !smbdev.dead then
        perform (.setDead d)
        perform (.linkRemove (some client) smbdev.psmouse)
        perform (.rescan d)
      else
        perform (.listDel d)
        perform (.freeDev d)
      detachEntries client rest

/-- `psmouse_smbus_detach_i2c_client`, through the notifier of the I2C bus. -/
def psmouseSmbusDetachI2cClient (client : Addr) : Driver Unit := do
  lock .smbus
  detachEntries client (← perform (.entries (some client)))
  unlock .smbus

/-- `psmouse_smbus_reconnect`. -/
def psmouseSmbusReconnect (psmouse : Addr) : Driver Unit := do
  match ← perform (.priv psmouse) with
  | .smbdev d =>
    let smbdev ← perform (.readDev d)
    if smbdev.needDeactivate then perform (.command psmouse)
  | _ => perform .wild

/-- `device_unregister` from the removal of the driver on. -/
def deviceUnregister (client : Addr) : Driver Unit := do
  perform (.releaseDriver client)
  psmouseSmbusDetachI2cClient client
  perform (.putDevice client)

/-- `psmouse_smbus_remove_i2c_device`. -/
def psmouseSmbusRemoveI2cDevice (client : Addr) : Driver Unit := do
  perform (.deviceDel client)
  deviceUnregister client

/-- `psmouse_smbus_disconnect`, with `psmouse_smbus_schedule_remove`. -/
def psmouseSmbusDisconnect (psmouse : Addr) : Driver Unit := do
  match ← perform (.priv psmouse) with
  | .smbdev d =>
    lock .smbus
    let smbdev ← perform (.readDev d)
    if smbdev.dead then
      perform (.listDel d)
      perform (.freeDev d)
    else
      perform (.setDead d)
      perform (.linkRemove smbdev.client psmouse)
      perform (.queueWork smbdev.client)
    perform (.setPrivate psmouse .null)
    unlock .smbus
  | _ => perform .wild

/-- The loop of `psmouse_smbus_cleanup`. -/
def cleanupEntries (psmouse : Addr) : List Addr → Driver Unit
  | [] => pure ()
  | d :: rest => do
    let smbdev ← perform (.readDev d)
    if psmouse = smbdev.psmouse then
      perform (.listDel d)
      perform (.freeDev d)
      cleanupEntries psmouse rest
    else cleanupEntries psmouse rest

/-- `psmouse_smbus_cleanup`. -/
def psmouseSmbusCleanup (psmouse : Addr) : Driver Unit := do
  lock .smbus
  cleanupEntries psmouse (← perform (.entries none))
  unlock .smbus

/-- `psmouse_smbus_create_companion`. -/
def psmouseSmbusCreateCompanion (adapter : ℕ) (d : Addr) : Driver Bool := do
  if !(← perform (.hostNotify adapter)) then pure false
  else
    match ← perform (.newScannedDevice adapter d) with
    | none => pure false
    | some client =>
      perform (.setClient d client)
      pure true

/-- `i2c_for_each_dev` with `psmouse_smbus_create_companion`, from a position on. -/
def i2cForEachDev (d : Addr) : ℕ → ℕ → Driver Unit
  | 0, _ => perform .stuck
  | left + 1, k => do
    match ← perform (.nextAdapter k) with
    | none => pure ()
    | some a =>
      if ← psmouseSmbusCreateCompanion a d then pure () else i2cForEachDev d left (a + 1)

/-- How a touchpad asks for a companion. -/
structure Touchpad where
  platformData : Bool
  needDeactivate : Bool

/-- `synaptics_create_intertouch`. -/
def Touchpad.synaptics : Touchpad := { platformData := true, needDeactivate := true }

/-- `elantech_create_smbus`. -/
def Touchpad.elantech : Touchpad := { platformData := false, needDeactivate := false }

/-- The platform data of a new record. -/
def boardData (k : Touchpad) (d : Addr) : Driver Bool :=
  if k.platformData then perform (.kmemdup d) else pure true

/-- `psmouse_smbus_init`, from the place where it has tried to make a client; `failed` says that
`i2c_for_each_dev` has returned an error. -/
def psmouseSmbusSettle (psmouse d : Addr) (leaveBreadcrumbs failed : Bool) : Driver Bool := do
  let smbdev ← perform (.readDev d)
  if smbdev.client.isSome then
    perform (.linkAdd smbdev.client psmouse)
    pure true
  else
    perform (.freeBoardData d)
    if failed || !leaveBreadcrumbs then
      lock .smbus
      perform (.listDel d)
      unlock .smbus
      perform (.freeDev d)
    pure false

/-- `psmouse_smbus_init`: whether it returns 0. -/
def psmouseSmbusInit (psmouse : Addr) (k : Touchpad) (leaveBreadcrumbs : Bool) : Driver Bool := do
  match ← perform (.newDev psmouse k.needDeactivate) with
  | none => pure false
  | some d =>
    if !(← boardData k d) then
      perform (.freeDev d)
      pure false
    else
      if k.needDeactivate then perform (.command psmouse)
      perform (.setPrivate psmouse (.smbdev d))
      perform (.setHandlers psmouse .smbus)
      lock .smbus
      perform (.listAdd d)
      unlock .smbus
      let failed ← outcome
      if !failed then i2cForEachDev d (← perform .rounds) 0
      psmouseSmbusSettle psmouse d leaveBreadcrumbs failed

/-! ## Its callers -/

/-- `psmouse_apply_defaults`. -/
def psmouseApplyDefaults (psmouse : Addr) : Driver Unit := perform (.setHandlers psmouse .plain)

/-- `synaptics_init_ps2` and `elantech_setup_ps2`: whether they succeed. -/
def initPs2 (psmouse : Addr) : Driver Bool := do
  if ← outcome then
    perform (.setPrivate psmouse .vendor)
    if ← outcome then
      perform (.setHandlers psmouse .vendor)
      outcome
    else pure false
  else
    -- out of memory
    perform (.setPrivate psmouse .null)
    pure false

/-- How an attempt at a protocol ends. -/
inductive Attempt where
  | failed | ps2 | companion
  deriving DecidableEq

/-- `synaptics_init` and `elantech_init`. -/
def touchpadInit (psmouse : Addr) (k : Touchpad) : Driver Attempt := do
  if ← outcome then
    -- whether the machine is one of those known to work with a companion
    let made ← if ← outcome then psmouseSmbusInit psmouse k true else pure false
    if made then pure .companion
    else if ← initPs2 psmouse then pure .ps2
    else
      psmouseSmbusCleanup psmouse
      pure .failed
  else pure .failed

/-- A protocol is tried, or several without companions: `psmouse_try_protocol`. -/
def tryProtocol (psmouse : Addr) (init : Driver Attempt) : Driver Attempt := do
  psmouseApplyDefaults psmouse
  if ← outcome then init else pure .failed

/-- `psmouse_extensions`. -/
def psmouseExtensions (psmouse : Addr) : Driver Attempt := do
  match ← tryProtocol psmouse (pure .ps2) with
  | .failed =>
    match ← tryProtocol psmouse (touchpadInit psmouse .synaptics) with
    | .failed =>
      match ← tryProtocol psmouse (pure .ps2) with
      | .failed =>
        match ← tryProtocol psmouse (touchpadInit psmouse .elantech) with
        | .failed =>
          psmouseApplyDefaults psmouse
          pure .ps2
        | type => pure type
      | type => pure type
    | type => pure type
  | type => pure type

/-- What is written to the attribute `protocol`: a protocol without companions, one of those that
clean up after companions, a companion, or `auto`. -/
inductive Protocol where
  | plain
  | ps2
  | companion (k : Touchpad)
  | auto

/-- `psmouse_switch_protocol`. -/
def psmouseSwitchProtocol (psmouse : Addr) : Protocol → Driver Attempt
  | .plain => tryProtocol psmouse (pure .ps2)
  | .ps2 => tryProtocol psmouse do if ← initPs2 psmouse then pure .ps2 else pure .failed
  | .companion k =>
    tryProtocol psmouse do if ← psmouseSmbusInit psmouse k false then pure .companion else pure .failed
  | .auto => psmouseExtensions psmouse

/-- The call of `psmouse->disconnect`. -/
def callDisconnect (psmouse : Addr) : Driver Unit := do
  match ← perform (.handlers psmouse) with
  | .plain => pure ()
  | .smbus => psmouseSmbusDisconnect psmouse
  | .vendor =>
    psmouseSmbusCleanup psmouse
    perform (.setPrivate psmouse .null)

/-- `psmouse_connect`. -/
def psmouseConnect : Driver Unit := do
  lock .psmouse
  match ← perform .newMouse with
  | none => unlock .psmouse
  | some psmouse =>
    -- the port can be opened, and there is a mouse
    if ← outcome then
      let type ← psmouseExtensions psmouse
      let error ← if type = .companion then pure false else do
        pure !(← perform (.inputRegisterDevice false))
      if error then
        callDisconnect psmouse
        perform (.freeMouse psmouse)
        unlock .psmouse
      else
        perform (.activate psmouse)
        unlock .psmouse
        perform (.bind psmouse)
    else
      perform (.freeMouse psmouse)
      unlock .psmouse

/-- `psmouse_disconnect`. -/
def psmouseDisconnect (psmouse : Addr) : Driver Unit := do
  lock .psmouse
  perform (.command psmouse)
  unlock .psmouse
  perform (.disableWorkSync psmouse)
  lock .psmouse
  callDisconnect psmouse
  perform (.freeMouse psmouse)
  unlock .psmouse

/-- `__psmouse_reconnect`, with what `psmouse-smbus.c` does in it. -/
def psmouseReconnect (psmouse : Addr) : Driver Unit := do
  lock .psmouse
  if (← perform (.handlers psmouse)) = .smbus then psmouseSmbusReconnect psmouse
  unlock .psmouse
  perform (.leave psmouse)

/-- The mutex is given up while the ports of children go; whether there is still something to do. -/
def awaitChildren (psmouse : Addr) : ℕ → Driver Bool
  | 0 => pure true
  | left + 1 => do
    if ← outcome then
      unlock .psmouse
      perform (.serioUnregisterChildPort psmouse)
      lock .psmouse
      if ← outcome then awaitChildren psmouse left else pure false
    else pure true

/-- The part of `psmouse_attr_set_protocol` that changes the protocol. -/
def changeProtocol (psmouse : Addr) (proto oldProto : Protocol) : Driver Unit := do
  callDisconnect psmouse
  let type ← psmouseSwitchProtocol psmouse proto
  if type = .failed then
    let _ ← psmouseSwitchProtocol psmouse .plain
  if type ≠ .companion then
    if !(← perform (.inputRegisterDevice true)) then
      callDisconnect psmouse
      let _ ← psmouseSwitchProtocol psmouse oldProto

/-- `psmouse_attr_set_protocol`, in `psmouse_attr_set_helper`. -/
def psmouseAttrSetProtocol (psmouse : Addr) (proto oldProto : Protocol) : Driver Unit := do
  lock .psmouse
  -- the port is in use, the protocol is another one, and there is memory
  if ← outcome then
    if ← awaitChildren psmouse 3 then changeProtocol psmouse proto oldProto
  unlock .psmouse
  perform (.leave psmouse)

/-- `psmouse_resync`. -/
def psmouseResync (psmouse : Addr) : Driver Unit := do
  lock .psmouse
  -- the state is still `PSMOUSE_RESYNCING`
  if ← outcome then perform (.command psmouse)
  unlock .psmouse
  perform (.workDone psmouse)

/-- A new adapter: `i2c_register_adapter`. -/
def i2cRegisterAdapter (hostNotify : Bool) : Driver Unit := do
  let adapter ← perform (.busAdd hostNotify)
  psmouseSmbusCheckAdapter adapter

/-! ## The running system -/

/-- A call into the driver. -/
inductive Call where
  | connect
  | disconnect (p : Addr)
  | reconnect (p : Addr)
  | setProtocol (p : Addr) (proto oldProto : Protocol)
  /-- The work queue takes up `resync_work`. -/
  | resync (p : Addr)
  | addAdapter (hostNotify : Bool)
  /-- The I2C core or the user unregisters a client. -/
  | destroyClient (c : Addr)
  /-- The work queue takes up a removal. -/
  | removeI2cDevice (c : Addr)

def Call.body : Call → Driver Unit
  | .connect => psmouseConnect
  | .disconnect p => psmouseDisconnect p
  | .reconnect p => psmouseReconnect p
  | .setProtocol p proto oldProto => psmouseAttrSetProtocol p proto oldProto
  | .resync p => psmouseResync p
  | .addAdapter hostNotify => i2cRegisterAdapter hostNotify
  | .destroyClient c => deviceUnregister c
  | .removeI2cDevice c => psmouseSmbusRemoveI2cDevice c

/-- A call that uses a mouse comes in as thread `t`. -/
def Board.admitUser (s : Board) (p : Addr) (t : ℕ) : Option Board :=
  match s.mouse p, s.usage p with
  | some _, .bound users r => some (s.setUsage p (.bound (t :: users) r))
  | _, _ => none

/-- A mouse is unbound once nobody uses it, and resynchronised by one thread at a time; a client is
unregistered once. Unregistering a client that is being set up, or that the driver is about to remove,
is what the driver does not provide for. -/
def enter : Call → ℕ → Board → Option Board
  | .connect, _, s => some s
  | .disconnect p, t, s =>
    match s.mouse p, s.usage p with
    | some _, .bound [] r => some (s.setUsage p (.watched t r))
    | _, _ => none
  | .reconnect p, t, s => s.admitUser p t
  | .setProtocol p _ _, t, s => s.admitUser p t
  | .resync p, t, s =>
    match s.mouse p, s.usage p with
    | some _, .watched u none => some (s.setUsage p (.watched u (some t)))
    | some _, .bound users none => some (s.setUsage p (.bound users (some t)))
    | _, _ => none
  | .addAdapter _, _, s => some s
  | .destroyClient c, t, s =>
    match s.client c with
    | some x =>
      if x.registered then
        some { s.setClient c (some { x with destroyer := some t }) with
          lapse := s.lapse || x.removal ≠ .none || x.building }
      else none
    | none => none
  | .removeI2cDevice c, t, s =>
    if c ∈ s.work then
      some { s.onClient c fun x => { x with removal := .taken t } with work := s.work.erase c }
    else none

/-- Something that happens around the driver. -/
inductive Event where
  | world (w : World)
  | adapterGone (a : ℕ)

def react : Event → Board → Option Board
  | .world w, s => some { s with world := w }
  | .adapterGone a, s => some { s with present := Function.update s.present a false }

/-- The driver with its surroundings. -/
def machine : Machine Board Op Op.Ans Call Event where
  exec := exec
  body := Call.body
  enter := enter
  react := react
  admits _ _ _ := true

/-- The module has been loaded. -/
structure Fresh (s : Board) : Prop where
  mouse : s.mouse = fun _ => none
  smbdev : s.smbdev = fun _ => none
  list : s.list = []
  client : s.client = fun _ => none
  data : s.data = fun _ => none
  work : s.work = []
  adapters : s.adapters = 0
  psmouseMutex : s.psmouseMutex = none
  smbusMutex : s.smbusMutex = none
  fault : s.fault = false
  lapse : s.lapse = false

end HostNotify.Psmouse
