import HostNotify.Interleaving.Custody
import HostNotify.System

/-!
# What each thread holds and knows

`Estate` collects the parts of the system that only the device callbacks change, with the
laws they keep between any two of their steps. `Hand` is the account of one thread: the locks
and regions it holds, and what it can be sure of while it holds them. `ledger` says which
operations an account permits and how the answers change it.
-/

namespace HostNotify

open Bits Interleaving

/-- The I/O window of the auxiliary port, from `piix4_setup_sb800`. -/
def Board.auxWindow (b : Board) : ℕ × ℕ := (b.auxSmba, smbiosize)

/-- The I/O window of the target block, from `piix4_asf_enable`. -/
def Board.asfWindow (b : Board) : ℕ × ℕ := (b.auxSmba + smbiosize, asfIosize - smbiosize)

/-- The port lies in the window. -/
def Within (w : ℕ × ℕ) (port : ℕ) : Prop := w.1 ≤ port ∧ port < w.1 + w.2

/-! ## The callbacks' estate -/

/-- The fields of the driver's global that only the callbacks change. -/
def Piix4Asf.settings (a : Piix4Asf) : Piix4Asf := { a with listening := false, pending := false }

/-- What only the device callbacks change. -/
structure Estate where
  asf : Piix4Asf
  requested : Bool
  deliverOk : Bool
  auxAdapter : Bool
  auxHeld : Bool
  asfHeld : Bool
  gsiHeld : Bool
  registered : Bool
  enabling : Bool
  bound : Bool
  asleep : Bool
  leaving : Bool
  halted : Bool
  fenced : Bool
  orphaned : Bool
  granted : Bool
  boot : Target

/-- That part of a state. -/
def St.estate (b : Board) (s : St) : Estate :=
  { asf := s.asf.settings, requested := s.irq.requested, deliverOk := s.deliverOk
    auxAdapter := s.auxAdapter, auxHeld := decide (b.auxWindow ∈ s.windows)
    asfHeld := decide (b.asfWindow ∈ s.windows), gsiHeld := s.gsiHeld
    registered := s.life.registered, enabling := s.life.enabling, bound := s.life.bound
    asleep := s.life.asleep, leaving := s.life.leaving, halted := s.life.halted
    fenced := s.ghost.fenced, orphaned := s.ghost.orphaned, granted := s.granted
    boot := s.ghost.boot }

namespace Estate

/-- DecodeEn bits that the driver saves and restores. -/
def modeBits : BitVec 32 := bit asfMstrEn ||| bit asfClkEn

/-- The saved fields are the block's state as `piix4_asf_enable` found it. -/
structure Saved (a : Piix4Asf) (h : Target) : Prop where
  lisaddr : a.bootLisaddr = h.lisaddr
  slven : a.bootSlven = h.slven
  bnksel : a.bootBnksel &&& ~~~asfBnkFull = h.bnksel &&& ~~~asfBnkFull
  ctl : a.bootCtl = h.decodeEn &&& modeBits

/-- What holds between any two steps of a callback. -/
structure Lawful (b : Board) (v : Estate) : Prop where
  registered : v.registered = true → v.auxHeld = true
  requested : v.requested = true →
    v.asf.active = true ∧ (v.auxHeld = true ∨ v.orphaned = true)
  active : v.asf.active = true → v.asfHeld = true ∧ Saved v.asf v.boot
  claimed : v.asf.active = true → v.asf.smba = b.auxSmba ∧ v.asf.useMmio = true
  enabling : v.enabling = true → v.registered = false
  delivering : v.deliverOk = true →
    v.asf.active = true ∧ v.auxAdapter = true ∧ v.registered = true ∧ v.fenced = false
  wanted : v.asf.wantListen = true ∨ v.asf.resumeListen = true →
    v.registered = true ∨ (v.leaving = true ∧ v.requested = false)
  halted : v.halted = true → v.requested = false ∧ v.deliverOk = false

/-- An unclaimed block has no IRQ, and nothing is delivered. -/
theorem Lawful.unrequested {b : Board} {v : Estate} (h : v.Lawful b) (hactive : v.asf.active = false) :
    v.requested = false := by
  by_contra hr
  have hclaimed := (h.requested (by simpa using hr)).1
  exact absurd (hclaimed.symm.trans hactive) (by decide)

/-- An inactive driver delivers nothing. -/
theorem Lawful.undelivered {b : Board} {v : Estate} (h : v.Lawful b) (hactive : v.asf.active = false) :
    v.deliverOk = false := by
  by_contra hd
  have hclaimed := (h.delivering (by simpa using hd)).1
  exact absurd (hclaimed.symm.trans hactive) (by decide)

/-- What holds on top of that while no callback is in progress. -/
structure Rest (v : Estate) : Prop where
  enabling : v.enabling = false
  claimed : v.asf.active = true →
    v.gsiHeld = true ∧ v.asf.gsiRegistered = true ∧ v.asf.irqRequested = v.requested
  unclaimed : v.asf.active = false →
    v.gsiHeld = false ∧ v.asfHeld = false ∧ v.asf.gsiRegistered = false ∧
      v.asf.irqRequested = false
  adapter : v.registered = v.auxAdapter
  fresh : v.bound = false → v.asf = Piix4Asf.loaded
  vacant : v.bound = false → v.registered = false → v.auxHeld = false

/-- The estate once a callback has begun. -/
def begin (v : Estate) : CoreCall → Estate
  | .enable => { v with halted := false, enabling := true, granted := false }
  | .stop => { v with granted := false }
  | .adapRemove => { v with halted := false, leaving := true, granted := false }
  | .resume => { v with halted := false, asleep := false, granted := false }
  | _ => { v with halted := false, granted := false }

/-- The estate once a callback has returned. -/
def after (v : Estate) : CoreCall → Estate
  | .enable => { v with enabling := false, bound := true }
  | .stop => { v with halted := true }
  | .disable => { v with bound := false, leaving := false }
  | .suspend => { v with asleep := true }
  | _ => v

/-- The estate with a window taken or given back. -/
def setWindow (b : Board) (v : Estate) (w : ℕ × ℕ) (held : Bool) : Estate :=
  if w = b.auxWindow then { v with auxHeld := held }
  else if w = b.asfWindow then { v with asfHeld := held }
  else v

/-- A field of the driver's global is stored. -/
def store (v : Estate) (f : Piix4Asf → Piix4Asf) : Estate := { v with asf := (f v.asf).settings }

end Estate

/-! ## Accounts -/

/-- What a thread is there for; a callback knows its estate. -/
inductive Role where
  | idle | aux | main | thread
  | core (c : CoreCall) (v : Estate)

/-- Registers of an unclaimed block, as last written or found. -/
structure Seen where
  lisaddr : Option Byte
  slven : Option Byte
  bnksel : Option Byte
  modes : Option (Bool × Bool)

/-- Nothing has been seen. -/
def Seen.nothing : Seen := { lisaddr := none, slven := none, bnksel := none, modes := none }

/-- A register is written. -/
def Seen.write (n : Seen) (r : Reg) (v : Byte) : Seen :=
  match r with
  | .lisaddr => { n with lisaddr := some v }
  | .slven => { n with slven := some v }
  | .bnksel => { n with bnksel := some (v &&& ~~~asfBnkFull) }
  | _ => n

/-- The block is found in state `h`. -/
def Seen.of (h : Target) : Seen :=
  { lisaddr := some h.lisaddr, slven := some h.slven, bnksel := some (h.bnksel &&& ~~~asfBnkFull)
    modes := none }

/-- The account of a thread. -/
structure Hand where
  role : Role
  asf : Bool
  notify : Bool
  /-- The FCH PM region: DecodeEn as last found or written, and as it is to be when the region is released. -/
  region : Option (BitVec 32 × BitVec 32)
  /-- The same region over I/O ports. -/
  pm : Bool
  imc : Bool
  /-- `active` is set and stays so. -/
  active : Bool
  /-- The auxiliary adapter is registered and stays so. -/
  window : Bool
  /-- `piix4_asf_deliver_ok` is set and stays so. -/
  ok : Bool
  /-- What a callback has seen of the block while it is unclaimed. -/
  seen : Seen
  /-- The block is unclaimed, and `pending` and `listening` are clear and stay so. -/
  still : Bool

namespace Hand

/-- The account of a thread that holds nothing. -/
def empty (role : Role) : Hand :=
  { role := role, asf := false, notify := false, region := none, pm := false, imc := false
    active := false, window := false, ok := false, seen := Seen.nothing, still := false }

/-- No lock and no region is held. -/
structure Free (m : Hand) : Prop where
  asf : m.asf = false
  notify : m.notify = false
  region : m.region = none
  pm : m.pm = false
  imc : m.imc = false

/-- The account is a callback's, and its estate satisfies `P`. -/
def Owns (m : Hand) (P : CoreCall → Estate → Prop) : Prop := ∃ c v, m.role = .core c v ∧ P c v

/-- The account of a callback with its estate changed. -/
def onEstate (m : Hand) (g : Estate → Estate) : Hand :=
  match m.role with
  | .core c v => { m with role := .core c (g v) }
  | _ => m

/-- Ports that the thread may touch. -/
def Reaches (b : Board) (m : Hand) (port : ℕ) : Prop :=
  match m.role with
  | .idle => False
  | .main => decode b.auxSmba port = none
  | .core _ v => (Within b.auxWindow port ∧ v.auxHeld = true) ∨
      (Within b.asfWindow port ∧ m.asf = true ∧ v.asfHeld = true)
  | _ => (Within b.auxWindow port ∧ m.window = true) ∨
      (Within b.asfWindow port ∧ m.asf = true ∧ m.active = true)

/-- A port write; what a callback writes to an unclaimed block is remembered. -/
def written (b : Board) (m : Hand) (v : Byte) (port : ℕ) : Hand :=
  match m.role, decode b.auxSmba port with
  | .core _ e, some r => if e.asf.active then m else { m with seen := m.seen.write r v }
  | _, _ => m

/-- What the account tells about the answer of a port read, unless the system sleeps. -/
structure Finds (b : Board) (m : Hand) (port : ℕ) (r : Byte) : Prop where
  lisaddr : m.Owns (fun _ e => e.asleep = false) → decode b.auxSmba port = some .lisaddr →
    ∀ v, m.seen.lisaddr = some v → r = v
  slven : m.Owns (fun _ e => e.asleep = false) → decode b.auxSmba port = some .slven →
    ∀ v, m.seen.slven = some v → r = v
  bnksel : m.Owns (fun _ e => e.asleep = false) → decode b.auxSmba port = some .bnksel →
    ∀ v, m.seen.bnksel = some v → r &&& ~~~asfBnkFull = v

/-- The mode bits of a word, in another. -/
def adopt (due d : BitVec 32) : BitVec 32 := (due &&& ~~~Estate.modeBits) ||| (d &&& Estate.modeBits)

/-- A dword write of DecodeEn. -/
def switched (m : Hand) (d : BitVec 32) : Hand :=
  { m with
    region := m.region.map fun p => (d, adopt p.2 d)
    seen := match m.role with
      | .core _ e => if e.asf.active then m.seen else { m.seen with modes := some (d.getLsbD 16, d.getLsbD 17) }
      | _ => m.seen }

/-- What the account tells about the driver's global. -/
structure Reads (b : Board) (m : Hand) (a : Piix4Asf) : Prop where
  settings : ∀ c v, m.role = .core c v → a.settings = v.asf
  active : m.active = true → a.active = true
  claimed : a.active = true → a.smba = b.auxSmba ∧ a.useMmio = true

/-- Reading the driver's global. -/
def read (m : Hand) (a : Piix4Asf) : Hand :=
  match m.role with
  | .aux => { m with active := m.active || (m.asf && a.active) }
  | .thread => { m with window := m.window || (m.asf && a.listening) }
  | _ => m

/-- Firmware leaves DecodeEn alone while the thread holds the FCH PM region. -/
def Firm (k : Setting) (m : Hand) : Prop := k.Spares ∨ m.Owns fun _ v => v.asleep = false

/-- A stored field may not depend on the two flags that others change, nor raise `pending`. -/
structure Tame (f : Piix4Asf → Piix4Asf) : Prop where
  settings : ∀ a, (f a).settings = (f a.settings).settings
  pending : ∀ a, a.pending = false → (f a).pending = false

/-- Storing a field clears both flags, whatever they are. -/
def clears (a : Piix4Asf) (f : Piix4Asf → Piix4Asf) : Bool :=
  [false, true].all fun x => [false, true].all fun y =>
    !(f { a with listening := x, pending := y }).pending && !(f { a with listening := x, pending := y }).listening

/-- Storing a field of the driver's global. -/
def store (m : Hand) (f : Piix4Asf → Piix4Asf) : Hand :=
  match m.role with
  | .core c v =>
    { m with
      role := .core c (v.store f)
      seen := if (f v.asf).active then Seen.nothing else m.seen
      still := (m.still || (!v.requested && clears v.asf f)) && !(f v.asf).active }
  | _ => m

end Hand

/-! ## The ledger -/

namespace Hand

variable (k : Setting) (b : Board) (m : Hand)

/-- Storing a field that the callback owns. -/
structure MayStore (f : Piix4Asf → Piix4Asf) (v : Estate) : Prop where
  tame : Tame f
  lawful : (v.store f).Lawful b
  locked : (f v.asf).active ≠ v.asf.active → m.asf = true
  listening : (∀ a, a.listening = false → (f a).listening = false) ∨
    (v.enabling = false ∧ (v.registered = true ∨ v.requested = false) ∧ (f v.asf).active = true)

/-- The firmware state has been written back. -/
structure Restored (v : Estate) : Prop where
  lisaddr : m.seen.lisaddr = some v.boot.lisaddr
  slven : m.seen.slven = some v.boot.slven
  bnksel : m.seen.bnksel = some (v.boot.bnksel &&& ~~~asfBnkFull)
  modes : m.seen.modes = some (getElem v.boot.decodeEn 16 (fits rfl), getElem v.boot.decodeEn 17 (fits rfl))

/-- The operations that the account permits. -/
def allows : Op → Prop
  | .inb port => m.Reaches b port
  | .outb _ port => m.Reaches b port
  | .ioread32 => m.region ≠ none
  | .iowrite32 d => m.region ≠ none ∧ (m.active = true ∨ m.Owns fun _ _ => True) ∧
      (k.Spares → ∀ p, m.region = some p → d &&& ~~~Estate.modeBits = p.1 &&& ~~~Estate.modeBits)
  | .ioread8 _ => m.region ≠ none
  | .iowrite8 v offset => m.region ≠ none ∧ m.role = .main ∧
      ∀ p, m.region = some p → ∀ j, (hj : j < 32) → j ≠ 19 → j ≠ 20 →
        (setPmByte p.1 v offset)[j] = p.1[j] ∧ (k.Spares → p.1[j] = p.2[j])
  | .setAsf f =>
    (m.asf = true ∧ m.active = true ∧ m.window = true ∧
        ∀ a, f a = { a with listening := (f a).listening }) ∨
      m.Owns fun _ v => m.MayStore b f v
  | .xchgPending v => v = false
  | .deliverOk => m.notify = true ∧ (m.role = .aux ∨ m.role = .thread)
  | .setDeliverOk x => m.notify = true ∧ m.Owns fun _ v => { v with deliverOk := x }.Lawful b
  | .setAuxAdapter x => m.Owns fun _ v => { v with auxAdapter := x }.Lawful b
  | .lock .asf => m.asf = false ∧ m.notify = false ∧ m.pm = false ∧ m.imc = false ∧
      (m.region = none ∨ m.Owns fun _ v => v.enabling = true)
  | .lock .notify => m.Free
  | .unlock .asf => m.asf = true
  | .unlock .notify => m.notify = true
  | .requestMemRegionMuxed => m.notify = false ∧ m.region = none ∧ m.pm = false ∧ m.imc = false
  | .releaseMemRegion => m.region ≠ none ∧
      (k.Spares → ∀ p, m.region = some p → p.1 = p.2)
  | .requestMuxedRegion start _ => m.role = .main ∧ m.asf = false ∧ m.notify = false ∧
      ((start = 0xcd6 ∧ m.pm = false ∧ m.imc = false ∧ m.region = none) ∨
        (start = imcIdx ∧ m.imc = false))
  | .requestRegion start len => m.Owns fun _ v =>
      ((start, len) = b.auxWindow ∧ v.auxHeld = false) ∨
        ((start, len) = b.asfWindow ∧ v.asfHeld = false)
  | .releaseRegion start len =>
    (m.Owns fun _ v => (((start, len) = b.auxWindow ∧ v.auxHeld = true) ∨
        ((start, len) = b.asfWindow ∧ v.asfHeld = true)) ∧
        (v.setWindow b (start, len) false).Lawful b) ∨
      (m.role = .main ∧ ((start = 0xcd6 ∧ len = 2 ∧ m.pm = true ∧ m.imc = false) ∨
        (start = imcIdx ∧ len = 2 ∧ m.imc = true)))
  | .acpiRegisterGsi _ _ _ => m.Owns fun _ v => v.gsiHeld = false
  | .acpiUnregisterGsi _ => m.Owns fun _ v => v.gsiHeld = true
  | .requestThreadedIrq _ _ => m.Owns fun _ v =>
      v.requested = false ∧ v.enabling = true ∧ { v with requested := true }.Lawful b
  | .freeIrq => m.Free ∧ m.Owns fun _ v => v.requested = true ∧ { v with requested := false }.Lawful b
  | .i2cHandleSmbusHostNotify _ => m.ok = true
  | .i2cAddAdapter _ => m.Owns fun _ v =>
      v.registered = false ∧ { v with registered := true }.Lawful b
  | .i2cDelAdapter => m.Free ∧ m.Owns fun _ v =>
      v.registered = true ∧ v.requested = false ∧ { v with registered := false }.Lawful b
  | .mark .notified => m.ok = true
  | .mark .starting => m.Owns fun _ _ => True
  | .mark .stopped => m.Owns fun _ v =>
      v.requested = false ∧ v.enabling = false ∧ { v with fenced := true }.Lawful b
  | .mark .registrationFailed => m.Owns fun _ _ => True
  | .mark .bootSaved => m.Owns fun _ v => v.asf.active = false ∧ v.auxHeld = true
  | .irqThreadDone => m.Free ∧ m.role = .thread
  | .transferDone => m.Free ∧ m.role = .aux
  | .coreDone c => m.Free ∧ m.Owns fun c' v => c' = c ∧ (v.after c).Rest ∧ (v.after c).Lawful b ∧
      ((v.after c).bound = false → m.still = true) ∧
      (c = .disable → v.granted = true → v.asleep = false → m.Restored v)
  | _ => True

/-- What an answered operation makes of the account. -/
def moves : (o : Op) → o.Ans → Hand → Prop
  | .inb port, r, m' => m' = m ∧ m.Finds b port r
  | .outb v port, _, m' => m' = m.written b v port
  | .ioread32, r, m' => m' = m ∧ (m.Firm k → ∀ p, m.region = some p → r = p.1)
  | .iowrite32 d, _, m' => m' = m.switched d
  | .ioread8 offset, r, m' => ∃ d bus, r = pmByte d bus offset ∧
      (m.Firm k → ∀ p, m.region = some p → d = p.1) ∧
      m' = { m with region := m.region.map fun p => (d, p.2) }
  | .iowrite8 v offset, _, m' =>
    m' = { m with region := m.region.map fun p => (setPmByte p.1 v offset, p.2) }
  | .asf, r, m' => m.Reads b r ∧ m' = m.read r
  | .setAsf f, _, m' => m' = m.store f
  | .deliverOk, r, m' => m' = { m with ok := r }
  | .setDeliverOk x, _, m' => m' = m.onEstate fun v => { v with deliverOk := x }
  | .setAuxAdapter x, _, m' => m' = m.onEstate fun v => { v with auxAdapter := x }
  | .lock .asf, _, m' => m' = { m with asf := true }
  | .lock .notify, _, m' => m' = { m with notify := true }
  | .unlock .asf, _, m' => m' = { m with
      asf := false
      active := match m.role with | .thread => m.active | _ => false }
  | .unlock .notify, _, m' => m' = { m with notify := false, ok := false }
  | .requestMemRegionMuxed, r, m' =>
    if r then ∃ d, m' = { m with region := some (d, d) }
    else m' = m.onEstate fun v => { v with granted := false }
  | .releaseMemRegion, _, m' => m' = { m with region := none }
  | .ioremap, r, m' => m' = m.onEstate fun v => { v with granted := r }
  | .requestMuxedRegion start _, r, m' =>
    m' = if r then (if start = imcIdx then { m with imc := true } else { m with pm := true }) else m
  | .requestRegion start len, r, m' =>
    m' = if r then m.onEstate fun v => v.setWindow b (start, len) true else m
  | .releaseRegion start len, _, m' => m' = match m.role with
      | .core c v => { m with role := .core c (v.setWindow b (start, len) false) }
      | _ => if start = imcIdx then { m with imc := false } else { m with pm := false }
  | .acpiRegisterGsi _ _ _, r, m' =>
    m' = m.onEstate fun v => { v with gsiHeld := v.gsiHeld || decide (0 ≤ r) }
  | .acpiUnregisterGsi _, _, m' => m' = m.onEstate fun v => { v with gsiHeld := false }
  | .requestThreadedIrq _ _, r, m' =>
    m' = { m.onEstate fun v => { v with requested := v.requested || decide (r = 0) } with
      still := false }
  | .freeIrq, _, m' => m' = m.onEstate fun v => { v with requested := false }
  | .i2cAddAdapter _, r, m' =>
    m' = m.onEstate fun v => { v with registered := v.registered || decide (r = 0) }
  | .i2cDelAdapter, _, m' => m' = m.onEstate fun v => { v with registered := false }
  | .mark .starting, _, m' => m' = m.onEstate fun v => { v with fenced := false }
  | .mark .stopped, _, m' => m' = m.onEstate fun v => { v with fenced := true }
  | .mark .registrationFailed, _, m' => m' = m.onEstate fun v => { v with orphaned := true }
  | .mark .bootSaved, _, m' => ∃ h : Target,
      (m.Firm k → ∀ p, m.region = some p → h.decodeEn = p.1) ∧
      m' = { m.onEstate fun v => { v with boot := h, orphaned := false } with seen := Seen.of h }
  | .irqThreadDone, _, m' => m' = empty .idle
  | .transferDone, _, m' => m' = empty .idle
  | .coreDone _, _, m' => m' = empty .idle
  | _, _, m' => m' = m

end Hand

/-- The rules of the accounts. -/
def ledger (k : Setting) (b : Board) : Ledger Op Op.Ans Hand where
  allows := Hand.allows k b
  moves := Hand.moves k b

end HostNotify
