import HostNotify.Interleaving.Forfeit
import HostNotify.Psmouse.Companion

/-!
# Who has which record

Each thread keeps an account: the mutexes it holds, what it knows of the mouse it works on, of the
list while it walks it, and of the client it unregisters. The invariant says what the list is like
while the mutexes are free. An account is lost once something has happened that the driver does not
provide for.
-/

namespace HostNotify.Psmouse

open Interleaving

/-! ## The list -/

namespace Board

variable (s : Board)

/-- Record `d` is on the list and reads `r`. -/
def Listed (d : Addr) (r : SmbusDev) : Prop := d ∈ s.list ∧ s.smbdev d = some r

/-- The mouse at `p` is driven by the companion of record `d`. -/
def Attached (p d : Addr) : Prop :=
  ∃ m, s.mouse p = some m ∧ m.handlers = .smbus ∧ m.priv = .smbdev d

/-- No live record is about the mouse. -/
def Clear (p : Addr) : Prop := ∀ d r, s.Listed d r → r.psmouse = p → r.dead = true

/-- The live records about the mouse are breadcrumbs. -/
def Crumbs (p : Addr) : Prop := ∀ d r, s.Listed d r → r.psmouse = p → r.dead = true ∨ r.client = none

/-- No live record but `d` is about the mouse. -/
def Only (p d : Addr) : Prop := ∀ d' r, s.Listed d' r → r.psmouse = p → r.dead = true ∨ d' = d

/-- The mouse is not driven by a record on the list that has a client. -/
def Unhooked (p : Addr) : Prop := ∀ d r, s.Listed d r → s.Attached p d → r.client = none

/-- The mouse is driven by the companion of record `d`. -/
def Used (p d : Addr) : Prop :=
  s.Attached p d ∧ s.Only p d ∧ ∃ r, s.Listed d r ∧ r.psmouse = p ∧ r.client.isSome

/-- Nobody is at work on the mouse. -/
def Settled (p : Addr) : Prop :=
  ∀ m, s.mouse p = some m → (m.handlers = .plain → s.Clear p) ∧ (m.handlers = .vendor → s.Crumbs p) ∧
    (m.handlers = .smbus → ∃ d, s.Used p d)

/-- The client of a live record is there, and nobody looks for the record. The client of a dead one
that still drives a mouse has gone, or is going. -/
def Neat (d : Addr) : Prop :=
  ∀ r c, s.Listed d r → r.client = some c →
    (r.dead = false → ∃ x, s.client c = some x ∧ x.notified = false ∧ x.removal = .none) ∧
    (r.dead = true → ∀ p, s.Attached p d → ∀ x, s.client c = some x → x.notified = true)

/-- The client is being set up. -/
def Building (c : Addr) : Prop :=
  ∃ x, s.client c = some x ∧ x.building = true ∧ x.destroyer = none ∧ x.removal = .none ∧ x.notified = false

/-- The platform data of the record is the thread's to free. -/
def Stocks (t : ℕ) (r : SmbusDev) : Prop := ∀ m, r.platformData = some m → s.data m = some (.thread t)

/-- The invariant. -/
structure Sound : Prop where
  nodup : s.list.Nodup
  listed : ∀ d ∈ s.list, ∃ r, s.smbdev d = some r ∧ r.owner = none
  unowned : ∀ d r, s.smbdev d = some r → r.owner = none → d ∈ s.list
  alive : ∀ d r, s.Listed d r → r.dead = false → ∃ m, s.mouse r.psmouse = some m
  attached : ∀ d r, s.Listed d r → r.dead = false → r.client.isSome → s.Attached r.psmouse d
  named : ∀ d r d' r' c, s.Listed d r → s.Listed d' r' → r.dead = false → r.client = some c →
    r'.client = some c → d' = d
  neat : s.smbusMutex = none → ∀ d, s.Neat d
  settled : s.psmouseMutex = none → ∀ p, s.Settled p
  data : ∀ c x m, s.client c = some x → x.platformData = some m → s.data m = some (.client c)
  quiet : ∀ c x, s.client c = some x → x.destroyer = none → x.notified = false
  work : ∀ c ∈ s.work, ∃ x, s.client c = some x ∧ x.destroyer = none ∧ x.removal = .queued
  workNodup : s.work.Nodup
  fault : s.fault = false

end Board

/-! ## Accounts -/

/-- What a thread is there for. -/
inductive Role where
  | idle
  /-- It makes or unmakes the mouse. -/
  | owning (p : Addr)
  /-- It does, and `psmouse_resync` may come in. -/
  | watching (p : Addr)
  | serving (p : Addr)
  | resyncing (p : Addr)
  /-- It has taken up the removal of the client. -/
  | removing (c : Addr)
  /-- It unregisters the client: before, in and after the notifier. -/
  | destroying (c : Addr)
  | notifying (c : Addr)
  | notified (c : Addr)

/-- How far the work on a mouse has got. -/
inductive Stage where
  | settled
  | clear
  | crumbs
  /-- A record has been allocated for it. -/
  | made (d : Addr)
  /-- The record is on the list, without a client. -/
  | listed (d : Addr)
  /-- There is a client, which the record does not name yet. -/
  | found (d c : Addr)
  | noted (d c : Addr)
  | used (d : Addr)
  /-- The record has been taken off the list. -/
  | removed (d : Addr)
  /-- The record is dead, and the mouse is still driven by it. -/
  | parting (d : Addr)
  deriving DecidableEq

/-- The mouse a thread works on, and what it knows of its fields. -/
structure Bench where
  mouse : Addr
  handlers : Option Handlers
  priv : Option Private
  stage : Stage

/-- How it stands with the record a walker has read last: it is as it was read, it has been marked as
dead, or the walker is through with it. -/
inductive Look where
  | fresh | marked | past
  deriving DecidableEq

/-- What a thread does with the list while it has the mutex to it. -/
inductive Visit where
  | entered
  /-- It has read the records `seen`, the latest first, and `todo` are those to come; `gone` is the
  client it looks for. -/
  | walking (gone : Option Addr) (todo : List Addr) (seen : List (Addr × SmbusDev)) (look : Look)
  /-- It disconnects the mouse of record `d`, which reads `r`. -/
  | posting (d : Addr) (r : SmbusDev)
  /-- The record is marked as dead, and its client is to be removed. -/
  | marked (d c : Addr)
  /-- The removal has been left to the work queue. -/
  | queued (d : Addr)

/-- The account of a thread. -/
structure Account where
  role : Role
  mutex : Bool
  bench : Option Bench
  visit : Option Visit
  /-- The record the thread has to itself. -/
  loose : Option Addr

/-- Before and after everything. -/
def Account.fresh (role : Role) : Account :=
  { role := role, mutex := false, bench := none, visit := none, loose := none }

/-! ## They are true -/

variable {s s' : Board} {t u : ℕ}

/-- What a thread may have to do with a mouse. -/
inductive Part where
  | owner | watcher | user | resync

/-- Thread `t` is among those who deal with the mouse. -/
def Usage.Has (t : ℕ) : Part → Usage → Prop
  | .owner, x => x = .owned t
  | .watcher, x => ∃ r, x = .watched t r
  | .user, x => ∃ users r, x = .bound users r ∧ t ∈ users
  | .resync, x => x.resync = some t

/-- Thread `t` deals with the mouse at `p`, which is there. -/
def Board.Deals (s : Board) (t : ℕ) (k : Part) (p : Addr) : Prop :=
  (∃ m, s.mouse p = some m) ∧ (s.usage p).Has t k

/-- Whoever has this role may touch the mouse. -/
def Role.Handles (p : Addr) (x : Role) : Prop :=
  x = .owning p ∨ x = .watching p ∨ x = .serving p ∨ x = .resyncing p

def Role.Holds (t : ℕ) (s : Board) : Role → Prop
  | .idle => True
  | .owning p => s.Deals t .owner p
  | .watching p => s.Deals t .watcher p
  | .serving p => s.Deals t .user p
  | .resyncing p => s.Deals t .resync p
  | .removing c => ∃ x, s.client c = some x ∧ x.destroyer = none ∧ x.removal = .taken t
  | .destroying c => ∃ x, s.client c = some x ∧ x.destroyer = some t ∧ x.notified = false
  | .notifying c => ∃ x, s.client c = some x ∧ x.destroyer = some t ∧ x.notified = true
  | .notified c => (∃ x, s.client c = some x ∧ x.destroyer = some t ∧ x.notified = true) ∧
      ∀ d r, s.Listed d r → r.dead = false → r.client ≠ some c

def Stage.Holds (t : ℕ) (p : Addr) (s : Board) : Stage → Prop
  | .settled => s.Settled p
  | .clear => s.Clear p ∧ s.Unhooked p
  | .crumbs => s.Crumbs p ∧ s.Unhooked p
  | .made d => s.Clear p ∧ s.Unhooked p ∧ ∃ r, s.smbdev d = some r ∧ r.psmouse = p ∧ r.client = none ∧
      r.dead = false ∧ r.owner = some t ∧ s.Stocks t r
  | .listed d => s.Only p d ∧ s.Unhooked p ∧ ∃ r, s.Listed d r ∧ r.psmouse = p ∧ r.client = none ∧
      r.dead = false ∧ s.Stocks t r
  | .found d c => s.Only p d ∧ s.Unhooked p ∧ (∃ r, s.Listed d r ∧ r.psmouse = p ∧ r.client = none ∧
      r.dead = false) ∧ s.Building c ∧ ∀ d' r, s.Listed d' r → r.client ≠ some c
  | .noted d c => s.Only p d ∧ s.Attached p d ∧ (∃ r, s.Listed d r ∧ r.psmouse = p ∧ r.client = some c) ∧
      s.Building c
  | .used d => s.Used p d
  | .removed _ => s.Clear p ∧ s.Unhooked p
  | .parting d => s.Clear p ∧ s.Attached p d ∧ ∃ r, s.Listed d r ∧ r.psmouse = p ∧ r.dead = true

structure Bench.Holds (t : ℕ) (s : Board) (b : Bench) : Prop where
  fields : ∃ m, s.mouse b.mouse = some m ∧ (∀ h, b.handlers = some h → m.handlers = h) ∧
    ∀ v, b.priv = some v → m.priv = v
  stage : b.stage.Holds t b.mouse s

/-- What a walker has read of a record is still so, as far as it matters. -/
structure Mirrors (gone : Option Addr) (r r' : SmbusDev) : Prop where
  psmouse : r'.psmouse = r.psmouse
  dead : r'.dead = r.dead
  client : ∀ c, gone = some c → (r'.client = some c ↔ r.client = some c)

/-- The walk through the list is on its way. -/
structure Walk (t : ℕ) (s : Board) (gone : Option Addr) (todo : List Addr) (seen : List (Addr × SmbusDev))
    (look : Look) : Prop where
  nodup : (todo ++ seen.map Prod.fst).Nodup
  covers : ∀ d ∈ s.list, d ∈ todo ∨ d ∈ seen.map Prod.fst
  ahead : ∀ d ∈ todo, d ∈ s.list
  mirrors : ∀ x ∈ seen, ∃ r, s.Listed x.1 r ∧ Mirrors gone x.2 r
  /-- The records that do not name the client are in order. -/
  neat : ∀ d, (∀ r c, s.Listed d r → gone = some c → r.client ≠ some c) → s.Neat d
  /-- A dead record that is still to be dealt with drives no mouse. -/
  dead : ∀ c d r, gone = some c → s.Listed d r → r.client = some c → r.dead = true →
    d ∈ todo ∨ (look = .fresh ∧ ∃ r' rest, seen = (d, r') :: rest) → ∀ p, ¬ s.Attached p d
  /-- A record that has just been marked drives its mouse. -/
  marked : look = .marked → ∀ d r rest, seen = (d, r) :: rest →
    s.Attached r.psmouse d ∧ ∃ c, gone = some c ∧ r.client = some c
  leaving : ∀ c, gone = some c → ∃ x, s.client c = some x ∧ x.destroyer = some t

def Visit.Holds (t : ℕ) (s : Board) : Visit → Prop
  | .entered => ∀ d, s.Neat d
  | .walking gone todo seen look => Walk t s gone todo seen look
  | .posting d r => s.psmouseMutex = some t ∧ (∀ d, s.Neat d) ∧ s.Listed d r
  | .marked d c => s.psmouseMutex = some t ∧ (∀ d', d' ≠ d → s.Neat d') ∧
      (∃ r, s.Listed d r ∧ r.dead = true ∧ r.client = some c) ∧
      ∃ x, s.client c = some x ∧ x.notified = false ∧ x.removal = .none
  | .queued d => s.psmouseMutex = some t ∧ ∀ d', d' ≠ d → s.Neat d'

/-- The account of thread `t` is true. -/
structure Tie (t : ℕ) (l : Account) (s : Board) : Prop where
  role : l.role.Holds t s
  resync : ∀ p, s.Deals t .resync p → l.role = .resyncing p
  mutex : l.mutex = true ↔ s.psmouseMutex = some t
  benched : l.bench.isSome → l.mutex = true
  bench : ∀ b, l.bench = some b → b.Holds t s
  rest : l.mutex = true → ∀ p, (∀ b, l.bench = some b → b.mouse ≠ p) → s.Settled p
  smbus : l.visit.isSome ↔ s.smbusMutex = some t
  visit : ∀ x, l.visit = some x → x.Holds t s
  loose : ∀ d, l.loose = some d ↔ ∃ r, s.smbdev d = some r ∧ r.owner = some t

/-! ## The rules of the accounts -/

/-- The mouse is known not to be driven by a companion. -/
def Bench.detached (b : Bench) : Bool :=
  b.handlers = some .plain || b.handlers = some .vendor || b.priv = some .null || b.priv = some .vendor

/-- The mouse is known to be driven by the companion of record `d`. -/
def Bench.Hooked (b : Bench) (d : Addr) : Prop := b.handlers = some .smbus ∧ b.priv = some (.smbdev d)

/-- Nothing is left to do about the records of the mouse but to take them off the list. -/
def Bench.idle (b : Bench) : Bool := b.detached && (b.stage = .clear || b.stage = .crumbs)

/-- The mouse may be left to others. -/
def Bench.Leaves (b : Bench) : Prop :=
  match b.stage with
  | .settled => True
  | .clear => b.handlers = some .plain ∨ b.handlers = some .vendor
  | .crumbs => b.handlers = some .vendor
  | .used d => b.Hooked d
  | _ => False

namespace Stage

/-- The stage of the work on a mouse that has just been taken up. -/
def taken : Handlers → Stage
  | .plain => .clear
  | .vendor => .crumbs
  | .smbus => .settled

/-- The stage after `private` has been read. -/
def looked : Stage → Option Handlers → Private → Stage
  | .settled, some .smbus, .smbdev d => .used d
  | k, _, _ => k

/-- The stage after `private` has been assigned. -/
def reset : Stage → Stage
  | .listed _ => .crumbs
  | .parting _ => .clear
  | k => k

/-- What becomes of the visit to the list when `private` is assigned: nothing is left in disorder. -/
def back : Stage → Option Visit → Option Visit
  | .parting _, _ => some .entered
  | _, x => x

/-- The stage after record `d` has been freed. -/
def freed (d : Addr) : Stage → Stage
  | .made d' => if d' = d then .clear else .made d'
  | .removed d' => if d' = d then .clear else .removed d'
  | k => k

end Stage

namespace Visit

/-- A walker is through with the records it has read. -/
def Handled (gone : Option Addr) (seen : List (Addr × SmbusDev)) : Prop :=
  ∀ x ∈ seen, ∀ c, gone = some c → x.2.client = some c → x.2.dead = true

/-- The list can be left to others. -/
def Closes (role : Role) : Visit → Prop
  | .entered => True
  | .walking gone todo seen _ => todo = [] ∧ Handled gone seen ∧ ∀ c, gone = some c → role = .notifying c
  | _ => False

/-- A walk has come across no record about the mouse that is still there. -/
def sweeps (p : Addr) : Visit → Bool
  | .walking none [] seen _ => seen.all fun x => x.2.psmouse ≠ p
  | _ => false

/-- What a thread is there for after it has left the list. -/
def role (role : Role) : Visit → Role
  | .walking (some c) _ _ _ => .notified c
  | _ => role

/-- The bench after its thread has left the list. -/
def bench (x : Visit) (b : Bench) : Bench :=
  if x.sweeps b.mouse && b.idle then { b with stage := .clear } else b

end Visit

namespace Account

variable (l : Account)

/-- The thread may touch the mouse. -/
def Handles (p : Addr) : Prop := l.role.Handles p

/-- The bench has been changed. -/
def onBench (f : Bench → Bench) : Account := { l with bench := l.bench.map f }

/-- The work has come to another stage. -/
def move (k : Stage) : Account := l.onBench fun b => { b with stage := k }

/-- The thread is about to do something else with the list. -/
def turn (x : Visit) : Account := { l with visit := some x }

/-- The operations an account permits. -/
def allows : Op → Prop
  | .lock .psmouse => l.mutex = false ∧ l.visit = none
  | .lock .smbus => l.visit = none
  | .unlock .psmouse => l.mutex = true ∧ l.visit = none ∧ ∀ b, l.bench = some b → b.Leaves
  | .unlock .smbus => ∃ x, l.visit = some x ∧ x.Closes l.role
  | .wild => False
  | .newMouse => l.mutex = true ∧ l.bench = none ∧ l.role = .idle
  | .freeMouse p => l.role = .owning p ∧ ∃ b, l.bench = some b ∧ b.mouse = p ∧ b.stage = .clear
  | .handlers p => l.mutex = true ∧ l.Handles p ∧ ∀ b, l.bench = some b → b.mouse = p ∧ b.handlers.isSome
  | .setHandlers p h => ∃ b, l.bench = some b ∧ b.mouse = p ∧
      (b.stage = .clear ∧ h ≠ .smbus ∨ b.stage = .crumbs ∧ h = .vendor ∨
        ∃ d, b.stage = .made d ∧ h = .smbus ∧ b.priv = some (.smbdev d))
  | .priv p => ∃ b, l.bench = some b ∧ b.mouse = p
  | .setPrivate p v => ∃ b, l.bench = some b ∧ b.mouse = p ∧
      ((v = .null ∨ v = .vendor) ∧ (b.stage = .clear ∨ b.stage = .crumbs ∨ ∃ d, b.stage = .listed d) ∨
        (∃ d, b.stage = .made d ∧ v = .smbdev d) ∨
        ∃ d, b.stage = .parting d ∧ v = .null ∧ l.visit = some (.queued d))
  | .command p => l.Handles p
  | .activate p => l.role = .owning p
  | .bind p => l.role = .watching p
  | .leave p => l.role = .serving p
  | .workDone p => l.role = .resyncing p
  | .disableWorkSync p => l.role = .watching p ∧ l.mutex = false ∧ l.visit = none
  | .serioUnregisterChildPort p => l.role = .serving p ∧ l.mutex = false ∧ l.visit = none
  | .newDev p _ => l.loose = none ∧ ∃ b, l.bench = some b ∧ b.mouse = p ∧ b.stage = .clear
  | .freeDev d => l.loose = some d
  | .readDev d =>
    match l.visit with
    | none => ∃ b, l.bench = some b ∧ (b.stage = .listed d ∨ (∃ c, b.stage = .noted d c) ∨ b.stage = .used d)
    | some .entered => ∃ b, l.bench = some b ∧ b.stage = .used d
    | some (.walking gone todo seen _) => Visit.Handled gone seen ∧ ∃ rest, todo = d :: rest
    | _ => False
  | .kmemdup d => ∃ b, l.bench = some b ∧ b.stage = .made d
  | .freeBoardData d => l.visit = none ∧ ∃ b, l.bench = some b ∧ b.stage = .listed d
  | .setDead d =>
    match l.visit with
    | some (.posting d' r) => d' = d ∧ r.dead = false ∧ ∃ b, l.bench = some b ∧ b.stage = .used d
    | some (.walking gone _ seen look) => look = .fresh ∧ ∃ c r rest, gone = some c ∧ seen = (d, r) :: rest ∧
        r.client = some c ∧ r.dead = false
    | _ => False
  | .setClient d c => l.visit = none ∧ ∃ b, l.bench = some b ∧ b.stage = .found d c ∧ b.Hooked d
  | .entries gone => l.visit = some .entered ∧ ∀ c, gone = some c → l.role = .destroying c
  | .listAdd d => l.visit = some .entered ∧ ∃ b, l.bench = some b ∧ b.stage = .made d
  | .listDel d => l.loose = none ∧
    match l.visit with
    | some .entered => ∃ b, l.bench = some b ∧ b.stage = .listed d
    | some (.posting d' r) => d' = d ∧ r.dead = true ∧ ∃ b, l.bench = some b ∧ b.stage = .used d
    | some (.walking none _ seen _) => ∃ r rest, seen = (d, r) :: rest ∧
        ∃ b, l.bench = some b ∧ b.mouse = r.psmouse ∧ b.idle = true
    | some (.walking (some c) _ seen look) => look = .fresh ∧ ∃ r rest, seen = (d, r) :: rest ∧
        r.dead = true ∧ r.client = some c
    | _ => False
  | .rescan d => ∃ gone todo r rest look, l.visit = some (.walking gone todo ((d, r) :: rest) look) ∧
      (r.dead = false ∨ look = .marked)
  | .newScannedDevice _ d => l.visit = none ∧ ∃ b, l.bench = some b ∧ b.stage = .listed d
  | .linkAdd c p => l.visit = none ∧ ∃ b d c', l.bench = some b ∧ b.mouse = p ∧ b.stage = .noted d c' ∧
      c = some c'
  | .linkRemove c p =>
    match l.visit with
    | some (.marked _ c') => c = some c' ∧ ∃ b, l.bench = some b ∧ b.mouse = p
    | some (.walking (some c') _ seen look) => c = some c' ∧ l.role = .notifying c' ∧ look = .marked ∧
        ∃ d r rest, seen = (d, r) :: rest ∧ r.psmouse = p
    | _ => False
  | .freeClientData c => l.role = .notifying c
  | .queueWork c => ∃ d c', l.visit = some (.marked d c') ∧ c = some c' ∧
      ∃ b, l.bench = some b ∧ b.stage = .parting d
  | .deviceDel c => l.role = .removing c
  | .releaseDriver c => l.role = .destroying c ∧ l.mutex = false ∧ l.visit = none
  | .putDevice c => l.role = .notified c ∧ l.visit = none
  | _ => True

/-- What an operation makes of an account. -/
def moves : (o : Op) → o.Ans → Account → Prop
  | .lock .psmouse, _, l' => l' = { l with mutex := true, bench := none }
  | .lock .smbus, _, l' => l' = l.turn .entered
  | .unlock .psmouse, _, l' => l' = { l with mutex := false, bench := none }
  | .unlock .smbus, _, l' => ∃ x, l.visit = some x ∧
      l' = { l.onBench x.bench with visit := none, role := x.role l.role }
  | .newMouse, r, l' =>
    match r with
    | none => l' = l
    | some p =>
      l' = { l with
        role := .owning p
        bench := some { mouse := p, handlers := some .plain, priv := some .null, stage := .clear } }
  | .freeMouse _, _, l' => l' = { l with role := .idle, bench := none }
  | .handlers p, h, l' =>
    match l.bench with
    | none => l' = { l with bench := some { mouse := p, handlers := some h, priv := none, stage := .taken h } }
    | some b => b.handlers = some h ∧ l' = l
  | .setHandlers _ h, _, l' => ∃ b, l.bench = some b ∧ l' = { l with bench := some { b with handlers := some h } }
  | .priv _, v, l' =>
    ∃ b, l.bench = some b ∧ (∀ v', b.priv = some v' → v = v') ∧
      (b.stage = .settled → b.handlers = some .smbus → ∃ d, v = .smbdev d) ∧
      l' = { l with bench := some { b with priv := some v, stage := b.stage.looked b.handlers v } }
  | .setPrivate _ v, _, l' =>
    ∃ b, l.bench = some b ∧
      l' = { l with bench := some { b with priv := some v, stage := b.stage.reset }, visit := b.stage.back l.visit }
  | .inputRegisterDevice change, r, l' => (change = true → r = true) ∧ l' = l
  | .activate p, _, l' => l' = { l with role := .watching p }
  | .bind _, _, l' => l' = { l with role := .idle }
  | .leave _, _, l' => l' = { l with role := .idle }
  | .workDone _, _, l' => l' = { l with role := .idle }
  | .disableWorkSync p, _, l' => l' = { l with role := .owning p }
  | .newDev _ _, r, l' =>
    match r with
    | none => l' = l
    | some d => l' = { l.move (.made d) with loose := some d }
  | .freeDev d, _, l' => l' = { l.onBench fun b => { b with stage := b.stage.freed d } with loose := none }
  | .readDev d, r, l' =>
    match l.visit with
    | some .entered => l' = l.turn (.posting d r) ∧ r.client.isSome
    | some (.walking gone todo seen _) => l' = l.turn (.walking gone todo.tail ((d, r) :: seen) .fresh)
    | _ => l' = l ∧ ∀ b, l.bench = some b → (b.stage = .listed d → r.client = none) ∧
        ∀ c, b.stage = .noted d c → r.client = some c
  | .setDead d, _, l' =>
    match l.visit with
    | some (.posting _ r) => ∃ c, r.client = some c ∧ l' = (l.move (.parting d)).turn (.marked d c)
    | some (.walking gone todo ((_, r) :: rest) _) =>
      l' = l.turn (.walking gone todo ((d, { r with dead := true }) :: rest) .marked)
    | _ => False
  | .setClient d c, _, l' => l' = l.move (.noted d c)
  | .entries gone, xs, l' =>
    l' = { l.turn (.walking gone xs [] .past) with
      role := match gone with
        | some c => .notifying c
        | none => l.role }
  | .listAdd d, _, l' => l' = { l.move (.listed d) with loose := none }
  | .listDel d, _, l' =>
    match l.visit with
    | some (.walking gone todo seen _) =>
      l' = { l.turn (.walking gone todo seen.tail .past) with loose := some d }
    | _ => l' = { (l.move (.removed d)).turn .entered with loose := some d }
  | .newScannedDevice _ d, r, l' =>
    match r with
    | none => l' = l
    | some c => l' = l.move (.found d c)
  | .linkAdd _ _, _, l' => ∃ b d c, l.bench = some b ∧ b.stage = .noted d c ∧ l' = l.move (.used d)
  | .queueWork _, _, l' => ∃ d c, l.visit = some (.marked d c) ∧ l' = l.turn (.queued d)
  | .deviceDel c, _, l' => l' = { l with role := .destroying c }
  | .putDevice _, _, l' => l' = { l with role := .idle }
  | _, _, l' => l' = l

end Account

/-- The rules of the accounts. -/
def rules : Ledger Op Op.Ans Account where
  allows := Account.allows
  moves := Account.moves

/-- An account is true, or it is lost in a run in which the driver has been taken unawares. -/
def Keeps (t : ℕ) (l : Option Account) (s : Board) : Prop :=
  match l with
  | some a => s.lapse = false → Tie t a s
  | none => s.lapse = true

end HostNotify.Psmouse
