import HostNotify.Intent

/-!
# Which side the shared port is routed to

ASFINDEX and SMBBLKDAT are one port, steered by DATA_EN. `Lane` is what the holder of the mutex
knows of the routing and of the bank's read pointer, `Wire` the account of a thread, and `wiring`
the rules of the accounts: the port is read by a drain on the slave's side, from the first byte of
a message on, or used by a transfer on the master's side.
-/

namespace HostNotify

open Bits Interleaving

variable {k : Setting} {b : Board} {s s' : St} {t u : ℕ}

/-! ## Whole callbacks -/

/-- Power management does not come in between the parts of probe and of remove: the driver core
holds the device for the length of each. -/
def St.undivided (s : St) : Call → Bool
  | .core .suspend => s.life.serving || !s.asf.active
  | _ => true

/-- The driver with its surroundings, probe and remove being undivided. -/
def whole (k : Setting) (b : Board) : Machine St Op Op.Ans Call Event :=
  (machine k b).restrict fun c s => s.undivided c

/-! ## The read pointer -/

/-- What is known of the position at which ASFINDEX reads. -/
inductive Pointer where
  /-- The first byte, and no read-out is in progress. -/
  | start
  /-- The first byte, unless a read-out is in progress. -/
  | within
  /-- No read-out is in progress. -/
  | finished
  | lost
  deriving DecidableEq

namespace Pointer

def Holds (h : Target) : Pointer → Prop
  | .start => h.rdptr = 0 ∧ h.reading = false
  | .within => h.reading = false → h.rdptr = 0
  | .finished => h.reading = false
  | .lost => True

/-- A bank is marked consumed. -/
def consume : Pointer → Pointer
  | .start => .start
  | _ => .finished

/-- ASFSETDATARDPTR is set to zero. -/
def rewind : Pointer → Pointer
  | .start | .finished => .start
  | _ => .within

/-- A rewound pointer that nobody reads through is where any account puts it. -/
theorem Holds.of_start {h : Target} (hptr : h.rdptr = 0) (hread : h.reading = false) (q : Pointer) :
    q.Holds h := by
  cases q with
  | start => exact ⟨hptr, hread⟩
  | within => exact fun _ => hptr
  | finished => exact hread
  | lost => trivial

end Pointer

/-! ## Accounts -/

/-- What is known of the shared port while the block is claimed, or being claimed. -/
structure Lane where
  draining : Bool
  listening : Bool
  /-- `want_listen`. -/
  want : Bool
  /-- `resume_listen`. -/
  resume : Bool
  listn : Option Bool
  rst : Option Bool
  dataEn : Option Bool
  ptr : Pointer

/-- What is known of the shared port is true. -/
structure Lane.Shows (d : Lane) (s : St) : Prop where
  draining : s.ghost.drain.isSome = d.draining
  listening : s.asf.listening = d.listening
  want : s.asf.wantListen = d.want
  resume : s.asf.resumeListen = d.resume
  listn : ∀ v, d.listn = some v → getElem s.hw.lisaddr 0 (fits rfl) = v
  rst : ∀ v, d.rst = some v → getElem s.hw.slven 4 (fits rfl) = v
  dataEn : ∀ v, d.dataEn = some v → getElem s.hw.bnksel 7 (fits rfl) = v
  ptr : d.ptr.Holds s.hw

/-- What a callback knows of its own. -/
structure Charge where
  asf : Piix4Asf
  enabling : Bool
  asleep : Bool

def St.charge (s : St) : Charge :=
  { asf := s.asf.settings, enabling := s.life.enabling, asleep := s.life.asleep }

/-- A field of the driver's global is stored. -/
def Charge.store (v : Charge) (f : Piix4Asf → Piix4Asf) : Charge := { v with asf := (f v.asf).settings }

/-- The block is claimed, or being claimed. -/
def Charge.engaged (v : Charge) : Bool := v.asf.active || v.enabling

/-- What a thread is there for. -/
inductive Office where
  | idle | aux | main | thread
  | core (c : CoreCall) (v : Charge)

namespace Office

def Held (u : ℕ) (s : St) : Office → Prop
  | .idle | .main => True
  | .aux => u ∈ s.life.aux
  | .thread => s.irq.running = some u
  | .core _ v => s.life.owner = some u ∧ s.charge = v

/-- Where the block is engaged, it is claimed. -/
def Claims : Office → Prop
  | .core _ v => v.asf.active = true
  | _ => True

def isAux : Office → Bool
  | .aux => true
  | _ => false

/-- The thread has business with the target block. -/
def Serves : Office → Prop
  | .idle | .main => False
  | _ => True

end Office

/-- The account of a thread. -/
structure Wire where
  office : Office
  mutex : Bool
  /-- With the mutex held: the routing, if the block is engaged. -/
  lane : Option Lane
  /-- With the FCH PM region held: MSTR_EN, if known. -/
  region : Option (Option Bool)
  /-- `active` is clear and stays so. -/
  unclaimed : Bool

/-- The account of a thread that holds nothing. -/
def Wire.free (o : Office) : Wire :=
  { office := o, mutex := false, lane := none, region := none, unclaimed := false }

/-- The account `w` of thread `u` is true. -/
structure Wire.Fits (u : ℕ) (w : Wire) (s : St) : Prop where
  office : w.office.Held u s
  mutex : w.mutex = true → s.mutex = some u
  lane : ∀ d, w.lane = some d → w.mutex = true ∧ s.engaged = true ∧ d.Shows s
  region : ∀ m, w.region = some m → s.region = some u ∧
    ∀ v, m = some v → getElem s.hw.decodeEn 16 (fits rfl) = v
  unclaimed : w.unclaimed = true → w.office = .aux ∧ s.asf.active = false

/-- What holds of the shared state at all times. -/
structure Wired (s : St) : Prop where
  listening : s.mutex = none → s.asf.listening = true →
    getElem s.hw.bnksel 7 (fits rfl) = false ∧ Pointer.start.Holds s.hw
  drained : s.mutex = none → s.ghost.drain = none
  vacant : s.asf.active = false → s.ghost.drain = none
  rewound : s.mutex = none → s.asf.active = true → s.asf.resumeListen = false → Pointer.start.Holds s.hw
  pledged : s.life.asleep = true → s.asf.active = true → s.asf.resumeListen = true

/-! ## The ledger -/

namespace Lane

/-- The routing in which the mutex is free. -/
structure Idle (d : Lane) (claims : Prop) : Prop where
  draining : d.draining = false
  listening : d.listening = true → d.dataEn = some false ∧ d.ptr = .start
  rewound : d.resume = false → claims → d.ptr = .start

/-- A port of the block is written. -/
def write (d : Lane) (v : Byte) : Reg → Lane
  | .lisaddr => { d with listn := some (v.getLsbD 0) }
  | .slven => { d with
      rst := some (v.getLsbD 4), ptr := if v.getLsbD 4 then .start else d.ptr }
  | .bnksel => { d with
      dataEn := some (v.getLsbD 7)
      ptr := if v.getLsbD 2 || v.getLsbD 3 then d.ptr.consume else d.ptr }
  | .setrdptr => { d with ptr := if v = 0 then d.ptr.rewind else .lost }
  | _ => d

/-- The shared port is read. -/
def peek (d : Lane) : Lane := if d.dataEn = some false then { d with ptr := .within } else d

/-- A field of the driver's global is stored. -/
def store (d : Lane) (f : Piix4Asf → Piix4Asf) : Lane :=
  { d with
    listening := (f { Piix4Asf.zero with listening := d.listening }).listening
    want := (f { Piix4Asf.zero with wantListen := d.want }).wantListen
    resume := (f { Piix4Asf.zero with resumeListen := d.resume }).resumeListen }

/-- A drain reads the port on the slave's side. -/
structure Drains (d : Lane) (q : Pointer → Prop) : Prop where
  draining : d.draining = true
  dataEn : d.dataEn = some false
  ptr : q d.ptr

/-- A transfer uses the port on the master's side. -/
structure Masters (d : Lane) : Prop where
  draining : d.draining = false
  listn : d.listn = some false
  rst : d.rst = some true
  dataEn : d.dataEn = some true

end Lane

/-- The stores the driver makes: each field depends on itself alone. -/
structure Fieldwise (f : Piix4Asf → Piix4Asf) : Prop where
  settings : ∀ a, (f a).settings = (f a.settings).settings := by exact fun _ => rfl
  listening : ∀ a, (f a).listening = (f { Piix4Asf.zero with listening := a.listening }).listening := by
    exact fun _ => rfl
  want : ∀ a, (f a).wantListen = (f { Piix4Asf.zero with wantListen := a.wantListen }).wantListen := by
    exact fun _ => rfl
  resume : ∀ a, (f a).resumeListen = (f { Piix4Asf.zero with resumeListen := a.resumeListen }).resumeListen := by
    exact fun _ => rfl

namespace Wire

variable (b : Board) (w : Wire)

def onLane (g : Lane → Lane) : Wire := { w with lane := w.lane.map g }

/-- The port may be used as SMBBLKDAT. -/
def Masters : Prop := (∃ d, w.lane = some d ∧ d.Masters) ∧ w.region = some (some true)

/-- Storing a field that the callback owns. -/
inductive MayStore (f : Piix4Asf → Piix4Asf) (v : Charge) : Prop where
  | locked (d : Lane) (hlane : w.lane = some d) (hdrain : d.draining = false)
      (hpledged : (f v.asf).active = true → v.asleep = true → (f v.asf).resumeListen = true)
  | plain (h : ∀ a, (f a).active = a.active ∧ (f a).listening = a.listening ∧
      (f a).resumeListen = a.resumeListen)
  | vacant (hvacant : v.engaged = false) (hstays : (f v.asf).active = false)
      (hdeaf : ∀ a, a.listening = false → (f a).listening = false)

/-- The account permits a read of the port. -/
structure MayRead (port : ℕ) : Prop where
  index : decode b.auxSmba port = some .index →
    (∃ d, w.lane = some d ∧ d.Drains fun q => q = .start ∨ q = .within) ∨ w.Masters ∨
      (w.unclaimed = true ∧ w.lane = none)
  /-- ASFSLVSTA is read where the read-out of a bank begins. -/
  slvsta : decode b.auxSmba port = some .slvsta → ∃ d, w.lane = some d ∧ d.Drains fun q => q = .start

/-- The account permits a write to the port. -/
structure MayWrite (port : ℕ) : Prop where
  index : decode b.auxSmba port = some .index → w.Masters ∨ (w.unclaimed = true ∧ w.lane = none)
  other : ∀ r, decode b.auxSmba port = some r → r ≠ .index → w.mutex = true

/-- The mutex may be given back. -/
inductive MayUnlock : Prop where
  | settled (d : Lane) (hlane : w.lane = some d) (hidle : d.Idle w.office.Claims)
  | unclaimed (hmutex : w.mutex = true) (h : w.unclaimed = true)
  | vacant (hmutex : w.mutex = true) (c : CoreCall) (v : Charge) (hrole : w.office = .core c v) (h : v.engaged = false)

/-- The operations that the account permits. -/
def allows : Op → Prop
  | .inb port => w.MayRead b port
  | .outb _ port => w.MayWrite b port
  | .iowrite32 _ => w.region ≠ none
  | .iowrite8 _ _ => w.region ≠ none
  | .setAsf f =>
    (∃ d, w.lane = some d ∧ d.draining = false ∧ ∃ x, ∀ a, f a = { a with listening := x }) ∨
      ∃ c v, w.office = .core c v ∧ Fieldwise f ∧ w.MayStore f v
  | .lock .asf => w.office.Serves
  | .unlock .asf => w.MayUnlock
  | .releaseMemRegion => w.region ≠ none
  | .mark .drainBegin => w.lane ≠ none ∧ (w.office = .aux ∨ w.office = .thread)
  | .mark (.drainEnd _) => w.lane ≠ none
  | .transferDone => w.office = .aux
  | .irqThreadDone => w.office = .thread
  | .coreDone c => ∃ v, w.office = .core c v ∧
      (c = .suspend → v.asf.active = true → v.asf.resumeListen = true)
  | _ => True

/-- What the account tells about the answer of a port read. -/
structure Finds (port : ℕ) (r : Byte) : Prop where
  slven : decode b.auxSmba port = some .slven → ∀ d, w.lane = some d →
    ∀ v, d.rst = some v → getElem r 4 (fits rfl) = v
  bnksel : decode b.auxSmba port = some .bnksel → ∀ d, w.lane = some d →
    ∀ v, d.dataEn = some v → getElem r 7 (fits rfl) = v

/-- What the account tells about the driver's global. -/
structure Learns (a : Piix4Asf) : Prop where
  claimed : a.active = true → a.smba = b.auxSmba ∧ a.useMmio = true
  settings : ∀ c v, w.office = .core c v → a.settings = v.asf
  listening : ∀ d, w.lane = some d → a.listening = d.listening
  want : ∀ d, w.lane = some d → a.wantListen = d.want
  aux : w.office = .aux → w.lane ≠ none → a.active = true
  thread : w.office = .thread → a.active = true
  unclaimed : w.unclaimed = true → a.active = false

/-- What is found of the routing when the mutex is taken. -/
structure Enters (l : Option Lane) : Prop where
  idle : ∀ d, l = some d → d.Idle w.office.Claims
  wanted : ∀ d, l = some d → d.listening = true → d.want = true
  core : ∀ d c v, l = some d → w.office = .core c v →
    d.resume = v.asf.resumeListen ∧ (d.listening = true → v.asf.active = true ∧ v.enabling = false)
  engaged : ∀ c v, w.office = .core c v → (l = none ↔ v.engaged = false)
  thread : w.office = .thread → l ≠ none

/-- Storing a field of the driver's global. -/
def store (f : Piix4Asf → Piix4Asf) : Wire :=
  match w.office with
  | .core c v =>
    { w with
      office := .core c (v.store f)
      lane := if (v.store f).engaged then w.lane.map fun d => d.store f else none }
  | _ => w.onLane fun d => d.store f

/-- Writing a port. -/
def written (v : Byte) (port : ℕ) : Wire :=
  match decode b.auxSmba port with
  | some r => w.onLane fun d => d.write v r
  | none => w

/-- What an answered operation makes of the account. -/
def moves : (o : Op) → o.Ans → Wire → Prop
  | .inb port, r, w' => w.Finds b port r ∧
      w' = if decode b.auxSmba port = some .index then w.onLane Lane.peek else w
  | .outb v port, _, w' => w' = w.written b v port
  | .iowrite32 d, _, w' => w' = { w with region := w.region.map fun _ => some (d.getLsbD 16) }
  | .iowrite8 _ _, _, w' => w' = { w with region := w.region.map fun _ => none }
  | .asf, r, w' => w.Learns b r ∧ w' = w
  | .setAsf f, _, w' => w' = w.store f
  | .lock .asf, _, w' => ∃ l, w.Enters l ∧
      w' = { w with mutex := true, lane := l, unclaimed := w.unclaimed || (w.office.isAux && l.isNone) }
  | .unlock .asf, _, w' => w' = { w with mutex := false, lane := none }
  | .requestMemRegionMuxed, r, w' => w' = if r then { w with region := some none } else w
  | .releaseMemRegion, _, w' => w' = { w with region := none }
  | .mark .drainBegin, _, w' => w' = w.onLane fun d => { d with draining := true }
  | .mark (.drainEnd _), _, w' => w' = w.onLane fun d => { d with draining := false }
  | .transferDone, _, w' => w' = free .idle
  | .irqThreadDone, _, w' => w' = free .idle
  | .coreDone _, _, w' => w' = free .idle
  | _, _, w' => w' = w

end Wire

/-- The rules of the accounts. -/
def wiring (b : Board) : Ledger Op Op.Ans Wire where
  allows w := w.allows b
  moves w := w.moves b

end HostNotify
