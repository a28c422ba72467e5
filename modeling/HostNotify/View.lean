import HostNotify.Control
import HostNotify.System

/-!
# The mutex holder's view and the invariant

`Sees` ties the control state to the registers, `View` adds who holds the mutex, and
`Settled` says which control states a critical section may leave behind. `Inv` is the
invariant of all runs; `Rely` is what a thread can count on between its own steps:
either the environment acted, or another thread made a step that is `Foreign` to it.
-/

namespace HostNotify

open Bits Interleaving

namespace Setting

/-- Messages arrive intact, flags clear as told, and firmware keeps away. -/
def Reliable (k : Setting) : Prop := k.errors = false ∧ k.stuck = false ∧ k.firmware = false

/-- On top of that: no bursts, no busy regions, and a device that only ever starts once. -/
def Tidy (k : Setting) : Prop :=
  k.Reliable ∧ k.burst = false ∧ k.regionFails = false ∧ k.teardown = false ∧ k.restart = false

instance (k : Setting) : Decidable k.Reliable := inferInstanceAs (Decidable (_ ∧ _ ∧ _))

instance (k : Setting) : Decidable k.Tidy := inferInstanceAs (Decidable (_ ∧ _ ∧ _ ∧ _ ∧ _))

/-- The IRQ thread can always reset a wedged slave. -/
def Resets (k : Setting) : Prop := k.busyReset = false ∨ k.regionFails = false

/-- No slave is armed with a stuck bank behind it. -/
def Rearms (k : Setting) : Prop :=
  k.firmware = false ∧ k.restart = false ∧ (k.stuckExit = false ∨ k.Tidy)

end Setting

namespace St

/-- Every full bank is signalled by the status bit, or by the flag of a thread that is due. -/
def Signalled (s : St) : Prop :=
  ∀ i, (s.hw.bank i).full = true → s.hw.sta.getLsbD 6 = true ∨ (s.asf.pending = true ∧ s.irq.due = true)

def NoFull (s : St) : Prop := ∀ i, (s.hw.bank i).full = false

/-- Messages that still have to be read are in banks flagged full. -/
def Kept (s : St) : Prop := ∀ i, (s.hw.bank i).unread = true → (s.hw.bank i).full = true

/-- No read-out is in progress, and the next one starts at the first byte. -/
structure Calm (s : St) : Prop where
  rdptr : s.hw.rdptr = 0
  reading : s.hw.reading = false
  got : ∀ i, (s.hw.bank i).got = 0

/-- The block is claimed, or being claimed. -/
def engaged (s : St) : Bool := s.asf.active || s.life.enabling

end St

/-- The control state describes the registers. -/
structure SeesRegs (c : Control) (s : St) : Prop where
  lisaddr : s.hw.lisaddr = c.lisaddr
  rst : getElem s.hw.slven 4 (fits rfl) = c.rst
  dataEn : getElem s.hw.bnksel 7 (fits rfl) = c.dataEn
  mstr : ∀ v, c.mstr = some v → s.ghost.touched = false ∧ getElem s.hw.decodeEn 16 (fits rfl) = v
  clk : ∀ v, c.clk = some v → s.ghost.touched = false ∧ getElem s.hw.decodeEn 17 (fits rfl) = v
  intrOn : c.intr = some true → c.listening = true → getElem s.hw.slven 1 (fits rfl) = true
  intrOff : c.intr = some false → getElem s.hw.slven 1 (fits rfl) = false

/-- The control state covers the history. -/
structure Recorded (c : Control) (g : Ghost) : Prop where
  debt : g.debt = true → c.debt = true
  flushed : g.flushed = true → c.flushed = true
  erred : c.erred = true → g.erred = true
  resetting : g.resetting = true → c.resetting = true

/-- With no debt known there is none. -/
theorem Recorded.debtless {c : Control} {g : Ghost} (h : Recorded c g) (hc : c.debt = false) :
    g.debt = false := by
  cases hd : g.debt with
  | false => rfl
  | true => exact absurd ((h.debt hd).symm.trans hc) (by decide)

/-- The control state describes the block. -/
structure Sees (c : Control) (s : St) : Prop where
  regs : SeesRegs c s
  record : Recorded c s.ghost
  signalled : c.clean = true → c.accepting = true → c.listening = true → s.Signalled
  empty : c.clean = true → c.accepting = false → s.NoFull
  kept : c.kept = true → s.Kept
  calm : c.calm = true → s.Calm

/-- With the mutex held by `o`, the control state describes the block and its flags. While
firmware may write the registers, nothing is known about them. -/
structure View (k : Setting) (o : Option ℕ) (c : Control) (s : St) : Prop where
  holder : s.mutex = o
  engaged : s.engaged = true
  listening : s.asf.listening = c.listening
  want : s.asf.wantListen = c.want
  held : c.held = true → s.region = o
  fresh : c.held = true → k.firmware = false ∨ c.want = true → s.ghost.touched = false
  sees : k.firmware = false ∨ c.want = true → Sees c s

/-- The control states in which the mutex may be free. -/
structure Control.Settled (k : Setting) (c : Control) : Prop where
  released : c.held = false
  want : c.listening = true → c.want = true
  armed : c.listening = true → c.Armed
  held : c.listening = true → k.Rearms → c.clean = true ∧ c.debt = false
  closed : c.listening = false → k.firmware = false → getElem c.lisaddr 0 (fits rfl) = false
  silent : c.listening = false → k.firmware = false → k.Resets ∨ c.want = false → c.Silent
  kept : k.Tidy → c.kept = true
  calm : k.firmware = false → c.calm = true
  flushed : k.firmware = false → k.muted = false → c.flushed = false
  resetting : c.listening = true → c.resetting = false

/-- No message has been lost, and none is about to be. -/
structure Intact (s : St) : Prop where
  lost : s.hw.lost = false
  /-- A message in a bank without its flag is read before the drain in progress ends. -/
  orphan : ∀ i, (s.hw.bank i).unread = true →
    (s.hw.bank i).full = true ∨ ∃ n, s.ghost.drain = some (n + 1)
  reset : getElem s.hw.slven 4 (fits rfl) = true → ∀ i, (s.hw.bank i).unread = false
  inactive : s.asf.active = false → ∀ i, (s.hw.bank i).unread = false

/-- The block shows neither a reception error nor a stuck flag. -/
structure Sound (s : St) : Prop where
  errorless : s.hw.slvsta &&& asfErrorStatus = 0
  unstuck : ∀ i, (s.hw.bank i).stuck = false

/-- What the invariant needs of the parts that the device callbacks own. -/
structure CoreView where
  /-- The driver's global, less the two flags that others change. -/
  asf : Piix4Asf
  requested : Bool
  enabling : Bool
  bound : Bool
  started : Bool
  asleep : Bool
  deliverOk : Bool
  auxAdapter : Bool

def St.coreView (s : St) : CoreView :=
  { asf := { s.asf with listening := false, pending := false }, requested := s.irq.requested
    enabling := s.life.enabling, bound := s.life.bound, started := s.life.started
    asleep := s.life.asleep, deliverOk := s.deliverOk, auxAdapter := s.auxAdapter }

/-- What holds of the parts that the device callbacks own, between any two of their steps. -/
structure CoreView.Lawful (k : Setting) (b : Board) (v : CoreView) : Prop where
  claimed : v.asf.active = true → v.asf.smba = b.auxSmba ∧ v.asf.useMmio = true
  requested : v.requested = true → v.asf.active = true
  freed : v.requested = true → v.asf.irqRequested = true ∨ v.enabling = true
  inactive : v.asf.active = false → v.asf.wantListen = false
  enabling : v.enabling = true → v.asf.wantListen = false
  unbound : v.bound = false → v.enabling = false → v.asf.active = false
  asleep : v.asleep = true → v.asf.wantListen = false
  fresh : k.restart = false → v.started = false →
    v.asf.wantListen = false ∧ v.asf.resumeListen = false
  delivering : k.Tidy → v.asf.wantListen = true → v.deliverOk = true ∧ v.auxAdapter = true

/-- The invariant of every run under the setting. -/
structure Inv (k : Setting) (b : Board) (s : St) : Prop where
  idle : s.mutex = none → s.asf.active = true → ∃ c, c.Settled k ∧ View k none c s
  core : s.coreView.Lawful k b
  masked : s.irq.masked = true → s.irq.requested = true
  deaf : s.asf.active = false ∨ s.life.enabling = true → s.asf.listening = false
  alone : s.life.enabling = true → s.life.aux = [] ∧ s.irq.masked = false
  unregistered : s.life.enabling = true → s.life.registered = false
  plain : s.life.registered = true → s.life.asfAlgo = false → s.asf.active = false
  owned : s.life.enabling = true → s.life.owner ≠ none
  locked : ∀ u, s.mutex = some u →
    u ∈ s.life.aux ∨ s.irq.running = some u ∨ s.life.owner = some u
  world : k.regionFails = false → s.world.regionBusy = false ∧ s.world.ioremapFails = false
  sound : k.Reliable → Sound s
  intact : k.Tidy → Intact s

namespace Inv

variable {k : Setting} {b : Board} {s : St} (h : Inv k b s)
include h

/-- An active driver has claimed the auxiliary block, and the board is one with MMIO. -/
theorem claimed (ha : s.asf.active = true) : s.asf.smba = b.auxSmba ∧ s.asf.useMmio = true :=
  h.core.claimed ha

/-- The IRQ is requested only by an active driver. -/
theorem requested (hr : s.irq.requested = true) : s.asf.active = true := h.core.requested hr

/-- An inactive driver neither wants nor listens. -/
theorem inactive (ha : s.asf.active = false) :
    s.asf.wantListen = false ∧ s.asf.listening = false :=
  ⟨h.core.inactive ha, h.deaf (Or.inl ha)⟩

/-- A driver that is being probed neither wants nor listens. -/
theorem enabling (he : s.life.enabling = true) :
    s.asf.wantListen = false ∧ s.asf.listening = false :=
  ⟨h.core.enabling he, h.deaf (Or.inr he)⟩

/-- While the device sleeps nothing is wanted. -/
theorem asleep (ha : s.life.asleep = true) : s.asf.wantListen = false := h.core.asleep ha

/-- A wanted slave has somebody to deliver to. -/
theorem delivering (ht : k.Tidy) (hw : s.asf.wantListen = true) :
    s.deliverOk = true ∧ s.auxAdapter = true := h.core.delivering ht hw

/-- A driver that is not bound is inactive. -/
theorem unbound (hb : s.life.bound = false) (he : s.life.enabling = false) :
    s.asf.active = false := h.core.unbound hb he

end Inv

/-- Another thread's step leaves the block to the mutex holder. -/
structure SameBlock (s s' : St) : Prop where
  hw : s'.hw = { s.hw with decodeEn := s'.hw.decodeEn }
  mode : s.ghost.touched = false → s'.ghost.touched = false ∧
    getElem s'.hw.decodeEn 16 (fits rfl) = getElem s.hw.decodeEn 16 (fits rfl) ∧
      getElem s'.hw.decodeEn 17 (fits rfl) = getElem s.hw.decodeEn 17 (fits rfl)
  listening : s'.asf.listening = s.asf.listening
  want : s'.asf.wantListen = s.asf.wantListen
  pending : s'.asf.pending = s.asf.pending
  engaged : s'.engaged = s.engaged
  due : s'.irq.due = s.irq.due
  drain : s'.ghost.drain = s.ghost.drain
  debt : s'.ghost.debt = s.ghost.debt
  flushed : s'.ghost.flushed = s.ghost.flushed
  erred : s'.ghost.erred = s.ghost.erred
  resetting : s'.ghost.resetting = s.ghost.resetting

/-- What a step of another thread leaves alone, as thread `u` sees it. -/
structure Foreign (k : Setting) (u : ℕ) (s s' : St) : Prop where
  holder : s.mutex = some u → s'.mutex = some u
  block : s.mutex = some u → s.engaged = true → SameBlock s s'
  region : s.region = some u → s'.region = some u ∧ s'.hw.decodeEn = s.hw.decodeEn ∧
    s'.ghost.touched = s.ghost.touched
  owed : s'.ghost.owed u = s.ghost.owed u
  owner : s.life.owner = some u → s'.life.owner = some u ∧ s'.coreView = s.coreView
  thread : s.irq.running = some u → s'.irq.running = some u ∧ s'.irq.served = s.irq.served
  quiet : s.irq.running = some u → s.asf.pending = false → s'.asf.pending = false
  aux : u ∈ s.life.aux → u ∈ s'.life.aux
  plain : u ∈ s.life.aux → s.asf.active = false → s'.asf.active = false
  unlocked : s.mutex ≠ some u → s'.mutex ≠ some u
  delivering : k.Tidy → s.deliverOk = true ∧ s.auxAdapter = true →
    s'.deliverOk = true ∧ s'.auxAdapter = true

/-- What thread `u` can count on between its own steps. -/
def Rely (k : Setting) (b : Board) (u : ℕ) (s s' : St) : Prop :=
  (∃ e, react k b e s = some s') ∨ Foreign k u s s'

end HostNotify
