import HostNotify.Duties
import HostNotify.MainPort
import HostNotify.Transfer

/-!
# Transfers and the IRQ thread respect the ledger

What holds of these calls is only what the mutexes, the region and the windows give them: the
block and what it answers are arbitrary here.
-/

namespace HostNotify

open Bits Interleaving

variable {k : Setting} {b : Board} {m : Hand} {p : Stance} {x : SmbusXfer}

/-! ## Draining -/

/-- In this stance the driver's global names the block. -/
structure Stance.Claims (k : Setting) (b : Board) (p : Stance) : Prop
    extends p.Works b (InBlock b) where
  reads : Obeys (ledger k b) (Hand.Takes k p) piix4Asf fun a m => a.smba = b.auxSmba ∧ m.Takes k p

/-- Whoever is engaged knows that the block is claimed. -/
theorem Stance.Engaged.claims (h : p.Engaged) : p.Claims k b :=
  ⟨h.works, (engagedAsf_obeys h).post fun _ _ hm => ⟨hm.1.2.1, hm.2⟩⟩

/-- A payload is read from ports of the block. -/
theorem readPayload_onBlock (left : ℕ) : (readPayload b.auxSmba left).AllOps (Op.OnBlock (InBlock b)) := by
  induction left with
  | zero => exact trivial
  | succ left ih => exact (inb_onBlock (i := 0x07) (by decide)).bind fun _ => ih.bind fun _ => trivial

/-- A bank is read from ports of the block. -/
theorem readBank_onBlock (reg : Byte) (bank : Bool) :
    (readBank b.auxSmba reg bank).AllOps (Op.OnBlock (InBlock b)) := by
  refine (outb_onBlock (i := 0x13) (by decide) _).bind fun _ => ?_
  refine (inb_onBlock (i := 0x07) (by decide)).bind fun _ => ?_
  refine (inb_onBlock (i := 0x11) (by decide)).bind fun _ => ?_
  refine (readPayload_onBlock _).bind fun _ => ?_
  exact (outb_onBlock (i := 0x13) (by decide) _).bind fun _ => trivial

/-- Judging it takes no other ports. -/
theorem finishBank_onBlock (bank : ℕ) (cmd : Byte) (data : List Byte) :
    (finishBank b.auxSmba bank cmd data).AllOps (Op.OnBlock (InBlock b)) := by
  refine (outb_onBlock (i := 0x12) (by decide) _).bind fun _ => ?_
  split
  · exact trivial
  · exact (mark_onBlock (by trivial)).bind fun _ => trivial

/-- Processing a bank keeps to the block. -/
theorem processBank_obeys (h : p.Claims k b) (allow : Bool) (prefer : ℕ) :
    Obeys (ledger k b) (Hand.Takes k p) (piix4AsfProcessBank allow prefer) fun _ =>
      Hand.Takes k p := by
  unfold piix4AsfProcessBank
  refine .bind h.reads fun a => .pure_pre fun hsmba => ?_
  rw [hsmba]
  refine onBlock_obeys h.toWorks ((inb_onBlock (i := 0x0D) (by decide)).bind fun sta => ?_)
  split
  · refine (inb_onBlock (i := 0x13) (by decide)).bind fun reg => ?_
    refine (outb_onBlock (i := 0x13) (by decide) _).bind fun _ => ?_
    exact (mark_onBlock (by trivial)).bind fun _ => finishBank_onBlock _ _ _
  · refine (inb_onBlock (i := 0x13) (by decide)).bind fun reg => ?_
    split
    · exact trivial
    · exact (readBank_onBlock _ _).bind fun _ => finishBank_onBlock _ _ _

/-- Taking the signal keeps to the block. -/
theorem takeSignal_onBlock : (takeSignal b.auxSmba).AllOps (Op.OnBlock (InBlock b)) := by
  refine Prog.AllOps.bind ?_ fun sta => Prog.AllOps.bind ⟨rfl, fun _ => trivial⟩ fun _ => trivial
  refine (inb_onBlock (i := 0x0A) (by decide)).bind fun sta => ?_
  dsimp only
  split
  · exact (outb_onBlock (i := 0x0A) (by decide) _).bind fun _ => trivial
  · exact trivial

/-- Looking at the flags of the banks keeps to the block. -/
theorem banksIdle_onBlock : (banksIdle b.auxSmba).AllOps (Op.OnBlock (InBlock b)) :=
  (inb_onBlock (i := 0x13) (by decide)).bind fun _ => trivial

/-- The passes of a drain keep to the block. -/
theorem drainPasses_obeys (h : p.Claims k b) (left i : ℕ) (n : Notifies) :
    Obeys (ledger k b) (Hand.Takes k p) (drainPasses b.auxSmba left i n) fun _ => Hand.Takes k p := by
  induction left generalizing i n with
  | zero => exact onBlock_obeys h.toWorks (banksIdle_onBlock.bind fun _ => trivial)
  | succ left ih =>
    have hpass : ∀ signalled, Obeys (ledger k b) (Hand.Takes k p)
        (readPass signalled i n fun n' => drainPasses b.auxSmba left (i + 1) n')
        fun _ => Hand.Takes k p := by
      intro signalled
      refine .bind (processBank_obeys h signalled i) fun r => ?_
      split
      · exact .ret fun _ hm => hm
      · exact ih _ _
    unfold drainPasses
    refine .bind (onBlock_obeys h.toWorks takeSignal_onBlock) fun signalled => ?_
    cases signalled with
    | true => exact hpass true
    | false =>
      refine .bind (onBlock_obeys h.toWorks banksIdle_onBlock) fun quiet => ?_
      cases quiet with
      | true => exact .ret fun _ hm => hm
      | false => exact hpass false

/-- A whole drain keeps to the block. -/
theorem drain_obeys (h : p.Claims k b) (n : Notifies) :
    Obeys (ledger k b) (Hand.Takes k p) (piix4AsfDrain b.auxSmba n) fun _ => Hand.Takes k p := by
  unfold piix4AsfDrain
  refine .bind (onBlock_obeys h.toWorks (mark_onBlock (by trivial))) fun _ => ?_
  refine .bind (drainPasses_obeys h _ _ _) fun r => ?_
  exact onBlock_obeys h.toWorks ((mark_onBlock (by trivial)).bind fun _ => trivial)

/-! ## Delivering -/

/-- Whoever delivers holds the notify mutex and has seen the permission. -/
theorem deliverAll_obeys (hok : p.ok = true) (l : List ℕ) :
    Obeys (ledger k b) (Hand.Takes k p) (deliverAll l) fun _ => Hand.Takes k p := by
  induction l with
  | nil => exact .ret fun _ hm => hm
  | cons a rest ih =>
    have hstep : ∀ o : Op, (∀ m : Hand, m.ok = true → m.allows k b o) →
        (∀ (m : Hand) r m', m.moves k b o r m' → m' = m) →
        Obeys (ledger k b) (Hand.Takes k p) (perform o) fun _ => Hand.Takes k p :=
      fun o hallow hmove => .perform fun m hm =>
        ⟨hallow m (hm.ok.trans hok), fun r m' h => hmove m r m' h ▸ hm⟩
    refine .bind (hstep _ (fun _ h => h) fun _ _ _ h => h) fun _ => ?_
    exact .bind (hstep _ (fun _ h => h) fun _ _ _ h => h) fun _ => ih

/-- A delivery holds nothing but the notify mutex. -/
theorem deliver_obeys (hrole : p.role = .aux ∨ p.role = .thread) (hasf : p.asf = false)
    (hnotify : p.notify = false) (hheld : p.held = false) (hok : p.ok = false) (n : Notifies) :
    Obeys (ledger k b) (Hand.Takes k p) (piix4AsfDeliver n) fun _ => Hand.Takes k p := by
  have hend : ∀ x, Obeys (ledger k b) (Hand.Takes k { p with notify := true, ok := x })
      (unlock .notify) fun _ => Hand.Takes k p := by
    intro x
    refine (unlockNotify_obeys rfl).post fun _ m hm => ?_
    exact { hm with notify := hm.notify.trans hnotify.symm, ok := hm.ok.trans hok.symm }
  unfold piix4AsfDeliver
  split
  · exact .ret fun _ hm => hm
  · refine .bind (lockNotify_obeys hasf hnotify hheld) fun _ => ?_
    refine .bind (Q := fun r => Hand.Takes k { p with notify := true, ok := r })
      (.perform fun m hm => ⟨⟨hm.notify, ?_⟩, fun r m' hmove => ?_⟩) fun r => ?_
    · rw [hm.role]
      exact hrole
    · exact (show m' = { m with ok := r } from hmove) ▸ { hm with ok := rfl }
    · cases r with
      | false => exact hend false
      | true =>
        refine .bind (idle_obeys (fun _ => trivial) fun _ _ _ h => h) fun there => ?_
        cases there with
        | false => exact hend true
        | true => exact .bind (deliverAll_obeys rfl _) fun _ => hend true

/-! ## Transfers -/

/-- The stance of a transfer outside its critical section. -/
def Stance.transfer : Stance :=
  { role := .aux, asf := false, notify := false, held := false, active := false, window := true
    ok := false, known := fun _ _ => True }

/-- A transfer needs the window of the auxiliary port only. -/
theorem access_obeys (hrole : p.role = .aux) (hwindow : p.window = true) (hx : x.smba = b.auxSmba) :
    Obeys (ledger k b) (Hand.Takes k p) (piix4Access x) fun _ => Hand.Takes k p := by
  have hplain : (piix4Access x).AllOps (Op.Plain (Within b.auxWindow)) := by
    refine piix4Access_plain fun i hi => ?_
    rw [hx]
    simp only [Within, Board.auxWindow, smbiosize]
    omega
  refine .of_allOps hplain fun o m ho hm => ?_
  have hreach : ∀ port, Within b.auxWindow port → m.Reaches b port := by
    intro port hport
    unfold Hand.Reaches
    rw [hm.role, hrole]
    exact Or.inl ⟨hport, hm.window.trans hwindow⟩
  cases o with
  | inb port => exact ⟨hreach port ho, fun r m' hmove => hmove.1 ▸ hm⟩
  | outb v port =>
    refine ⟨hreach port ho, fun r m' hmove => ?_⟩
    obtain rfl : m' = m.written b v port := hmove
    unfold Hand.written
    rw [hm.role, hrole]
    exact hm
  | usleepRange | dynamicDebug =>
    exact ⟨trivial, fun r m' hmove => (show m' = m from hmove) ▸ hm⟩
  | _ => exact absurd ho id

/-- Whoever is engaged and has the region steers the block. -/
theorem Stance.Engaged.steers (h : p.Engaged) (hheld : p.held = true) : p.Steers b (InBlock b) :=
  ⟨h.works, hheld, Or.inl h.active⟩

/-- A yield keeps to what a transfer holds. -/
theorem yieldBus_obeys (h : p.Engaged) (hheld : p.held = true) (n : Notifies) :
    Obeys (ledger k b) (Hand.Takes k p) (yieldBus b.auxSmba n) fun _ => Hand.Takes k p := by
  unfold yieldBus
  refine .bind (engagedListening_obeys h true) fun _ => ?_
  refine .bind (slaveArm_obeys (h.steers hheld)) fun _ => ?_
  refine .bind (onBlock_obeys h.works ⟨trivial, fun _ => trivial⟩) fun _ => ?_
  refine .bind (onBlock_obeys h.works (holdOff_onAsf (asfPorts_block b))) fun _ => ?_
  exact drain_obeys h.claims n

/-- The attempts keep to what a transfer holds. -/
theorem attempts_obeys (h : p.Engaged) (hrole : p.role = .aux) (hheld : p.held = true) (left : ℕ)
    (hx : x.smba = b.auxSmba) (n : Notifies) :
    Obeys (ledger k b) (Hand.Takes k p) (attempts x left n) fun _ => Hand.Takes k p := by
  induction left generalizing x n with
  | zero =>
    unfold attempts
    rw [hx]
    refine .bind (masterMode_obeys (h.steers hheld)) fun _ => ?_
    refine .bind (access_obeys hrole h.window hx) fun r => ?_
    refine .bind (engagedAsf_obeys h) fun a => .pure_pre fun _ => ?_
    split <;> exact .ret fun _ hm => hm
  | succ left ih =>
    unfold attempts
    rw [hx]
    refine .bind (masterMode_obeys (h.steers hheld)) fun _ => ?_
    refine .bind (access_obeys hrole h.window hx) fun r => ?_
    refine .bind (engagedAsf_obeys h) fun a => .pure_pre fun _ => ?_
    split
    · exact .ret fun _ hm => hm
    · refine .bind (yieldBus_obeys h hheld n) fun y => ?_
      dsimp only
      split
      · exact onBlock_obeys h.works ((mark_onBlock (by trivial)).bind fun _ => trivial)
      · exact ih rfl _

/-- The first drain keeps to what a transfer holds. -/
theorem drainListening_obeys (h : p.Engaged) :
    Obeys (ledger k b) (Hand.Takes k p) (drainListening b.auxSmba) fun _ => Hand.Takes k p := by
  unfold drainListening
  refine .bind (engagedAsf_obeys h) fun a => .pure_pre fun _ => ?_
  split
  · refine .bind (onBlock_obeys h.works (holdOff_onAsf (asfPorts_block b))) fun _ => ?_
    exact .bind (drain_obeys h.claims _) fun _ => .ret fun _ hm => hm
  · exact .ret fun _ hm => hm

/-- Everything between the region's request and its release keeps to what a transfer holds. -/
theorem accessAsfLocked_obeys (h : p.Engaged) (hrole : p.role = .aux) (hheld : p.held = true)
    (hx : x.smba = b.auxSmba) :
    Obeys (ledger k b) (Hand.Takes k p) (accessAsfLocked x) fun _ => Hand.Takes k p := by
  unfold accessAsfLocked
  rw [hx]
  refine .bind (drainListening_obeys h) fun n => ?_
  refine .bind (attempts_obeys h hrole hheld _ hx n) fun r => ?_
  refine .bind (engagedAsf_obeys h) fun a => .pure_pre fun _ => ?_
  split
  · refine .bind (engagedListening_obeys h true) fun _ => ?_
    exact .bind (slaveArm_obeys (h.steers hheld)) fun _ => .ret fun _ hm => hm
  · exact .ret fun _ hm => hm

/-- The stance of a transfer that has found the block claimed. -/
def Stance.transferring : Stance := { Stance.transfer with asf := true, active := true }

/-- A transfer in its critical section is engaged. -/
theorem transferring_engaged (held : Bool) : { Stance.transferring with held := held }.Engaged :=
  ⟨Or.inl rfl, rfl, rfl, rfl, rfl⟩

/-- A transfer ends with nothing in its hands. -/
theorem piix4AccessAsf_obeys (hx : x.smba = b.auxSmba) :
    Obeys (ledger k b) (Hand.Takes k .transfer) (piix4AccessAsf x) fun _ =>
      Hand.Takes k .transfer := by
  have hunlock : Obeys (ledger k b) (Hand.Takes k .transferring) (unlock .asf) fun _ =>
      Hand.Takes k .transfer := unlockAsf_obeys rfl
  unfold piix4AccessAsf
  refine .bind (lockAsf_obeys rfl rfl (Or.inl rfl)) fun _ => ?_
  refine .bind asf_obeys fun a => .pure_pre fun _ => ?_
  cases hactive : a.active with
  | false =>
    have hread : ({ Stance.transfer with asf := true } : Stance).read a =
        { Stance.transfer with asf := true } := by
      simp [Stance.read, Stance.transfer, hactive]
    rw [hread]
    exact .bind (unlockAsf_obeys rfl) fun _ => access_obeys rfl rfl hx
  | true =>
    have hread : ({ Stance.transfer with asf := true } : Stance).read a = .transferring := by
      simp [Stance.read, Stance.transfer, Stance.transferring, hactive]
    rw [hread]
    refine .bind (engagedAsf_obeys (transferring_engaged false)) fun a₁ => .pure_pre fun h₁ => ?_
    rw [h₁.2.2]
    refine .bind (regionRequest_obeys rfl rfl) fun r => ?_
    by_cases hr : r = 0
    · rw [if_neg (not_not.mpr hr)]
      refine .pre (P := Hand.Takes k { Stance.transferring with held := true }) ?_ fun m hm =>
        (hm.resolve_right fun h => h.1 hr).2
      have hbusy := transferring_engaged true
      refine .bind (accessAsfLocked_obeys hbusy rfl rfl hx) fun res => ?_
      refine .bind (engagedAsf_obeys hbusy) fun a₂ => .pure_pre fun h₂ => ?_
      rw [h₂.2.2]
      refine .bind (regionRelease_obeys rfl) fun _ => ?_
      have hidle := transferring_engaged false
      refine .bind (onBlock_obeys hidle.works (mark_onBlock (by trivial))) fun _ => ?_
      refine .bind hunlock fun _ => ?_
      exact .bind (deliver_obeys (Or.inl rfl) rfl rfl rfl rfl _) fun _ => .ret fun _ hm => hm
    · rw [if_pos hr]
      refine .pre (P := Hand.Takes k .transferring) ?_ fun m hm =>
        (hm.resolve_left fun h => hr h.1).2
      exact .bind hunlock fun _ => .ret fun _ hm => hm

/-! ## The IRQ thread -/

/-- The stance of the IRQ thread outside its critical section. -/
def Stance.interrupt : Stance :=
  { role := .thread, asf := false, notify := false, held := false, active := true, window := false
    ok := false, known := fun _ _ => True }

/-- The stance of the IRQ thread that has found the slave listening. -/
def Stance.interrupting : Stance := { Stance.interrupt with asf := true, window := true }

/-- An IRQ thread that has found the slave listening is engaged. -/
theorem interrupting_engaged (held : Bool) : { Stance.interrupting with held := held }.Engaged :=
  ⟨Or.inr rfl, rfl, rfl, rfl, rfl⟩

/-- Resetting a wedged slave gives back the region it took. -/
theorem resetWedged_obeys (n : Notifies) :
    Obeys (ledger k b) (Hand.Takes k .interrupting) (resetWedged b.auxSmba n) fun _ =>
      Hand.Takes k .interrupting := by
  have hidle := interrupting_engaged false
  have hbusy := interrupting_engaged true
  unfold resetWedged
  refine .bind (engagedAsf_obeys hidle) fun a => .pure_pre fun ha => ?_
  rw [ha.2.2]
  refine .bind (regionRequest_obeys rfl rfl) fun r => ?_
  by_cases hr : r = 0
  · rw [if_pos hr]
    refine .pre (P := Hand.Takes k { Stance.interrupting with held := true }) ?_ fun m hm =>
      (hm.resolve_right fun h => h.1 hr).2
    refine .bind (onBlock_obeys hbusy.works (mark_onBlock (by trivial))) fun _ => ?_
    refine .bind (onBlock_obeys hbusy.works (updateIoport_onBlock (inBlock_reg b (by decide)) _ _)) fun _ => ?_
    refine .bind (drain_obeys hbusy.claims n) fun y => ?_
    refine .bind (onBlock_obeys hbusy.works (updateIoport_onBlock (inBlock_reg b (by decide)) _ _)) fun _ => ?_
    refine .bind (onBlock_obeys hbusy.works (outb_onBlock (by decide) _)) fun _ => ?_
    refine .bind (slaveArm_obeys (hbusy.steers rfl)) fun _ => ?_
    refine .bind (engagedAsf_obeys hbusy) fun a => .pure_pre fun ha => ?_
    rw [ha.2.2]
    exact .bind (regionRelease_obeys rfl) fun _ => .ret fun _ hm => hm
  · rw [if_neg hr]
    refine .pre (P := Hand.Takes k .interrupting) ?_ fun m hm => (hm.resolve_left fun h => hr h.1).2
    refine .bind (onBlock_obeys hidle.works (updateIoport_onBlock (inBlock_reg b (by decide)) _ _)) fun _ => ?_
    exact .bind (engagedListening_obeys hidle false) fun _ => .ret fun _ hm => hm

/-- The IRQ thread's drain, with its wedge branch. -/
theorem drainThread_obeys :
    Obeys (ledger k b) (Hand.Takes k .interrupting) (drainThread b.auxSmba) fun _ =>
      Hand.Takes k .interrupting := by
  unfold drainThread
  refine .bind (drain_obeys (interrupting_engaged false).claims _) fun y => ?_
  dsimp only
  split
  · exact resetWedged_obeys _
  · exact .ret fun _ hm => hm

/-- The IRQ thread ends with nothing in its hands. -/
theorem piix4AsfIrqThread_obeys :
    Obeys (ledger k b) (Hand.Takes k .interrupt) piix4AsfIrqThread fun _ m =>
      m.Free ∧ m.role = .thread := by
  have hend : ∀ (window : Bool) (m : Hand),
      m.Takes k { Stance.interrupt with window := window } → m.Free ∧ m.role = .thread :=
    fun window m hm => ⟨hm.free rfl rfl rfl, hm.role⟩
  unfold piix4AsfIrqThread
  refine .bind asf_obeys fun a => .pure_pre fun ha => ?_
  have hread : Stance.interrupt.read a = .interrupt := by simp [Stance.read, Stance.interrupt]
  rw [hread, (ha.claimed (ha.active rfl)).1]
  refine .bind (lockAsf_obeys rfl rfl (Or.inl rfl)) fun _ => ?_
  refine .bind asf_obeys fun a₁ => .pure_pre fun _ => ?_
  have hfound : ({ Stance.interrupt with asf := true } : Stance).read a₁ =
      { Stance.interrupt with asf := true, window := a₁.listening } := by
    simp [Stance.read, Stance.interrupt]
  rw [hfound]
  cases a₁.listening with
  | false =>
    refine .bind (idle_obeys (fun _ => trivial) fun _ _ _ h => h) fun _ => ?_
    exact (unlockAsf_obeys rfl).post fun _ m hm => hend false m hm
  | true =>
    have hidle := interrupting_engaged false
    refine .bind drainThread_obeys fun n => ?_
    refine .bind (onBlock_obeys hidle.works (mark_onBlock (by trivial))) fun _ => ?_
    refine .bind (unlockAsf_obeys rfl) fun _ => ?_
    exact (deliver_obeys (Or.inr rfl) rfl rfl rfl rfl n).post fun _ m hm => hend true m hm

/-! ## The main port -/

/-- The account of a transfer on the main port; `φ` relates DecodeEn as it is to what it is to
be when the region is released. -/
structure Hand.Mains (k : Setting) (held pm imc : Bool) (φ : BitVec 32 → BitVec 32 → Prop) (m : Hand) :
    Prop where
  role : m.role = .main
  asf : m.asf = false
  notify : m.notify = false
  held : m.region.isSome = held
  pm : m.pm = pm
  imc : m.imc = imc
  word : k.Spares → ∀ q, m.region = some q → φ q.1 q.2

section Main

variable {held pm imc : Bool} {φ ψ : BitVec 32 → BitVec 32 → Prop} {a : MainAdapter}

/-- With the region held the account says so. -/
theorem Hand.Mains.region (h : m.Mains k held pm imc φ) (hheld : held = true) : m.region ≠ none := by
  have hsome := h.held.trans hheld
  intro hnone
  simp [hnone] at hsome

/-- A weaker relation between the registers is known as well. -/
theorem Hand.Mains.mono (h : m.Mains k held pm imc φ) (hφ : ∀ d d', φ d d' → ψ d d') :
    m.Mains k held pm imc ψ :=
  { h with word := fun hk q hq => hφ _ _ (h.word hk q hq) }

/-- Operations of the main port that only touch its own registers. -/
theorem plainMain_obeys {A : Type} {q : Driver A} (hq : q.AllOps (Op.Plain (HostPort b))) :
    Obeys (ledger k b) (Hand.Mains k held pm imc φ) q fun _ => Hand.Mains k held pm imc φ := by
  refine .of_allOps hq fun o m ho hm => ?_
  have hreach : ∀ port, HostPort b port → m.Reaches b port := by
    intro port hport
    unfold Hand.Reaches
    rw [hm.role]
    exact hport
  cases o with
  | inb port => exact ⟨hreach port ho, fun r m' hmove => hmove.1 ▸ hm⟩
  | outb v port =>
    refine ⟨hreach port ho, fun r m' hmove => ?_⟩
    obtain rfl : m' = m.written b v port := hmove
    unfold Hand.written
    rw [hm.role]
    exact hm
  | usleepRange | dynamicDebug =>
    exact ⟨trivial, fun r m' hmove => (show m' = m from hmove) ▸ hm⟩
  | _ => exact absurd ho id

/-! The mailbox of the IMC is held for one command at a time. -/

/-- Asking for the ports of the embedded controller. -/
theorem imcRequest_obeys :
    Obeys (ledger k b) (Hand.Mains k held pm false φ) (perform (.requestMuxedRegion 0x3e 2)) fun r =>
      Hand.Mains k held pm r φ := by
  refine .perform fun m hm => ⟨⟨hm.role, hm.asf, hm.notify, Or.inr ⟨rfl, hm.imc⟩⟩, fun r m' hmove => ?_⟩
  obtain rfl : m' = if r then { m with imc := true } else m := hmove
  cases r with
  | false => exact hm
  | true => exact { hm with imc := rfl }

/-- The main port gives up the ports of the embedded controller. -/
theorem imcRelease_obeys :
    Obeys (ledger k b) (Hand.Mains k held pm true φ) (perform (.releaseRegion 0x3e 2)) fun _ =>
      Hand.Mains k held pm false φ := by
  refine .perform fun m hm => ⟨Or.inr ⟨hm.role, Or.inr ⟨rfl, rfl, hm.imc⟩⟩, fun r m' hmove => ?_⟩
  obtain rfl : m' = { m with imc := false } := by
    rw [show m' = _ from hmove]
    split
    · next c v hrole => exact nomatch hm.role.symm.trans hrole
    · exact if_pos rfl
  exact { hm with imc := rfl }

/-- Putting the controller to sleep. -/
theorem imcSleep_obeys :
    Obeys (ledger k b) (Hand.Mains k held pm false φ) piix4ImcSleep fun _ =>
      Hand.Mains k held pm false φ := by
  refine .bind imcRequest_obeys fun r => ?_
  cases r with
  | false => exact .ret fun _ hm => hm
  | true =>
    refine .bind (plainMain_obeys (piix4ImcWrite_plain _ _)) fun _ => ?_
    refine .bind (plainMain_obeys (piix4ImcWrite_plain _ _)) fun _ => ?_
    refine .bind (plainMain_obeys (piix4ImcWrite_plain _ _)) fun _ => ?_
    refine .bind (plainMain_obeys (pollImc_plain _)) fun answered => ?_
    exact .bind imcRelease_obeys fun _ => .ret fun _ hm => hm

/-- The main port wakes the controller. -/
theorem imcWakeup_obeys :
    Obeys (ledger k b) (Hand.Mains k held pm false φ) piix4ImcWakeup fun _ =>
      Hand.Mains k held pm false φ := by
  refine .bind imcRequest_obeys fun r => ?_
  cases r with
  | false => exact .ret fun _ hm => hm
  | true =>
    refine .bind (plainMain_obeys (piix4ImcWrite_plain _ _)) fun _ => ?_
    refine .bind (plainMain_obeys (piix4ImcWrite_plain _ _)) fun _ => ?_
    refine .bind (plainMain_obeys (piix4ImcWrite_plain _ _)) fun _ => ?_
    exact .bind (plainMain_obeys (pollImc_plain _)) fun _ => imcRelease_obeys

/-- An access with the controller asleep, and without. -/
theorem notifyImc_obeys : Obeys (ledger k b) (Hand.Mains k held pm false φ) (notifyImc a x) fun _ =>
    Hand.Mains k held pm false φ := by
  unfold notifyImc
  split
  · exact .bind imcSleep_obeys fun _ => .ret fun _ hm => hm
  · exact .ret fun _ hm => hm

/-- Selecting a port over MMIO. -/
theorem portSel_obeys {port : Byte} (hport : port &&& ~~~PortGlobals.kerncz.mask = 0)
    (hφ : ∀ d d', φ d d' → ∀ j, (hj : j < 32) → j ≠ 19 → j ≠ 20 → d[j] = d'[j]) :
    Obeys (ledger k b) (Hand.Mains k true pm imc φ) (piix4Sb800PortSel PortGlobals.kerncz true port)
      fun r m => r &&& ~~~PortGlobals.kerncz.mask = 0 ∧ m.Mains k true pm imc fun d d' =>
        ∃ d₀, φ d₀ d' ∧ d = selectPort d₀ port ∧ r = selectedPort d₀ := by
  have hmask : ∀ v : Byte, (v &&& PortGlobals.kerncz.mask) &&& ~~~PortGlobals.kerncz.mask = 0 := by
    intro v
    rw [BitVec.and_assoc]
    simp
  -- the byte just read is that of the word as it is now, wherever firmware has been
  refine .bind (Q := fun v m => (∀ q, m.region = some q → v = portByte q.1) ∧ m.Mains k true pm imc φ)
    (.perform fun m hm => ⟨hm.region rfl, fun v m' hmove => ?_⟩) fun v => ?_
  · obtain ⟨d, bus, hv, hsame, rfl⟩ := hmove
    refine ⟨fun q hq => ?_, { hm with held := Option.isSome_map.trans hm.held, word := fun hk q hq => ?_ }⟩
    · obtain ⟨q₀, -, rfl⟩ := Option.map_eq_some_iff.mp hq
      exact hv
    · obtain ⟨q₀, hq₀, rfl⟩ := Option.map_eq_some_iff.mp hq
      rw [hsame (Or.inl hk) q₀ hq₀]
      exact hm.word hk q₀ hq₀
  by_cases hsame : v ≠ (v &&& ~~~PortGlobals.kerncz.mask) ||| port
  · rw [if_pos hsame]
    refine .bind (Q := fun _ => Hand.Mains k true pm imc fun d d' =>
      ∃ d₀, φ d₀ d' ∧ d = selectPort d₀ port ∧ v = portByte d₀) (.perform fun m hm => ?_) fun _ =>
        .ret fun m hm => ⟨hmask v, hm.mono ?_⟩
    swap
    · rintro d d' ⟨d₀, hd, hsel, hv⟩
      exact ⟨d₀, hd, hsel, hv ▸ rfl⟩
    have hselect : ∀ d, v = portByte d →
        setPmByte d ((v &&& ~~~PortGlobals.kerncz.mask) ||| port) 2 = selectPort d port := by
      intro d hv
      rw [selectPort, hv]
    obtain ⟨hv, hm⟩ := hm
    refine ⟨⟨hm.region rfl, hm.role, fun q hq j hj h19 h20 => ⟨?_, fun hk => ?_⟩⟩, fun r m' hmove => ?_⟩
    · have hbit := getLsbD_selectPort hport q.1 ⟨h19, h20⟩
      rw [BitVec.getLsbD_eq_getElem hj, BitVec.getLsbD_eq_getElem hj, ← hselect q.1 (hv q hq)] at hbit
      exact hbit
    · exact hφ _ _ (hm.word hk q hq) j hj h19 h20
    · obtain rfl : m' = { m with region := _ } := hmove
      refine { hm with held := Option.isSome_map.trans hm.held, word := fun hk q hq => ?_ }
      obtain ⟨q₀, hq₀, rfl⟩ := Option.map_eq_some_iff.mp hq
      exact ⟨q₀.1, hm.word hk q₀ hq₀, hselect q₀.1 (hv q₀ hq₀), hv q₀ hq₀⟩
  · rw [if_neg hsame]
    refine .ret fun m hm => ?_
    obtain ⟨hv, hm⟩ := hm
    refine ⟨hmask v, { hm with word := fun hk q hq => ?_ }⟩
    have hbyte : (portByte q.1 &&& ~~~PortGlobals.kerncz.mask) ||| port = portByte q.1 := by
      rw [← hv q hq]
      exact (not_not.mp hsame).symm
    refine ⟨q.1, hm.word hk q hq, ?_, hv q hq ▸ rfl⟩
    rw [selectPort, hbyte, setPmByte_same]

/-- A transfer on the main port while nothing is held. -/
def Hand.Idles (m : Hand) : Prop := m.role = .main ∧ m.Free

/-- The account of a transfer between two selections of a port. -/
abbrev Hand.Restores (k : Setting) (m : Hand) : Prop := m.Mains k true false false fun d d' => d = d'

/-- Whoever has the region may give it up. -/
theorem Hand.Restores.release (h : m.Restores k) (b : Board) : m.allows k b .releaseMemRegion :=
  ⟨h.region rfl, h.word⟩

/-- With nothing left in its hands the thread is idle. -/
theorem Hand.Mains.idles (h : m.Mains k false false false φ) : m.Idles := by
  have hnone := h.held
  rw [Option.isSome_eq_false_iff, Option.isNone_iff_eq_none] at hnone
  exact ⟨h.role, h.asf, h.notify, hnone, h.pm, h.imc⟩

/-- The main port asks for the region by MMIO. -/
theorem mainRequest_obeys : Obeys (ledger k b) Hand.Idles (piix4Sb800RegionRequest true) fun r m =>
    (r = 0 ∧ m.Restores k) ∨ (r ≠ 0 ∧ m.Idles) := by
  have hestate : ∀ (m : Hand) (g : Estate → Estate), m.role = .main → m.onEstate g = m := by
    intro m g hrole
    rw [Hand.onEstate_role, hrole]
    exact (congrArg (fun r => { m with role := r }) hrole.symm)
  intro m hm
  refine ⟨⟨hm.2.notify, hm.2.region, hm.2.pm, hm.2.imc⟩, fun r m₁ hmove => ?_⟩
  cases r with
  | false =>
    obtain rfl : m₁ = m.onEstate _ := hmove
    rw [hestate m _ hm.1]
    exact Or.inr ⟨by decide, hm⟩
  | true =>
    obtain ⟨d, rfl⟩ : ∃ d, m₁ = { m with region := some (d, d) } := hmove
    have hm₁ : Hand.Restores k { m with region := some (d, d) } :=
      { role := hm.1, asf := hm.2.asf, notify := hm.2.notify, held := rfl, pm := hm.2.pm, imc := hm.2.imc
        word := fun _ q hq => by
          obtain rfl := Option.some.inj hq
          rfl }
    refine ⟨trivial, fun r m₂ hmove => ?_⟩
    obtain rfl : m₂ = Hand.onEstate { m with region := some (d, d) } _ := hmove
    rw [hestate _ _ (show Hand.role { m with region := some (d, d) } = .main from hm.1)]
    cases r with
    | true => exact Or.inl ⟨rfl, hm₁⟩
    | false =>
      refine ⟨hm₁.release b, fun _ m₃ hmove => ?_⟩
      obtain rfl : m₃ = _ := hmove
      exact Or.inr ⟨by decide, hm.1, hm.2.asf, hm.2.notify, rfl, hm.2.pm, hm.2.imc⟩

/-- The main port gives the region up by MMIO. -/
theorem mainRelease_obeys :
    Obeys (ledger k b) (Hand.Restores k) (piix4Sb800RegionRelease true) fun _ => Hand.Idles := by
  refine .perform fun m hm => ⟨hm.release b, fun r m' hmove => ?_⟩
  obtain rfl : m' = _ := hmove
  exact ⟨hm.role, hm.asf, hm.notify, rfl, hm.pm, hm.imc⟩

/-- `piix4_access_sb800` over MMIO. -/
theorem accessMmio_obeys (hsmba : a.smba = b.mainSmba) (hx : x.smba = b.mainSmba)
    (hmmio : a.useMmio = true) (hport : a.port &&& ~~~PortGlobals.kerncz.mask = 0) :
    Obeys (ledger k b) Hand.Idles (piix4AccessSb800 PortGlobals.kerncz a x) fun _ => Hand.Idles := by
  have hslv : HostPort b (smbSlvCnt a.smba) := by
    rw [hsmba]
    exact permits_main b 8 le_rfl
  have hend : ∀ (imc : Bool) (res : Int × SmbusData), Obeys (ledger k b) (Hand.Restores k)
      (do
        if x.size = .blockData ∧ imc then piix4ImcWakeup
        piix4Sb800RegionRelease true
        pure (res.1, res.2, imc)) fun _ => Hand.Idles := by
    intro imc res
    have hlast : Obeys (ledger k b) (Hand.Restores k) (do
        piix4Sb800RegionRelease true
        pure (res.1, res.2, imc)) fun _ => Hand.Idles :=
      .bind mainRelease_obeys fun _ => .ret fun _ hm => hm
    dsimp only
    split
    · exact .bind imcWakeup_obeys fun _ => hlast
    · exact hlast
  unfold piix4AccessSb800 accessSb800With
  rw [hmmio]
  refine .bind mainRequest_obeys fun r => ?_
  by_cases hr : r = 0
  · rw [if_neg (not_not.mpr hr)]
    refine .pre (P := Hand.Restores k) ?_ fun m hm => (hm.resolve_right fun h => h.1 hr).2
    refine .bind (plainMain_obeys ⟨hslv, fun _ => trivial⟩) fun cnt => ?_
    refine .bind (plainMain_obeys (requestSemaphore_plain hsmba _ _)) fun got => ?_
    cases got with
    | none => exact .bind mainRelease_obeys fun _ => .ret fun _ hm => hm
    | some cnt =>
      refine .bind notifyImc_obeys fun imc => ?_
      refine .bind (portSel_obeys hport fun d d' h j hj _ _ => h ▸ rfl) fun prev =>
        .pure_pre fun hprev => ?_
      refine .bind (plainMain_obeys (piix4Access_plain (hx ▸ permits_main b))) fun res => ?_
      refine .bind (portSel_obeys hprev fun d d' h j hj h19 h20 => ?_) fun _ => .pure_pre fun _ => ?_
      · -- another port is selected, and nothing else has changed
        obtain ⟨d₀, rfl, rfl, _⟩ := h
        have hbit := getLsbD_selectPort hport d₀ ⟨h19, h20⟩
        rwa [BitVec.getLsbD_eq_getElem hj, BitVec.getLsbD_eq_getElem hj] at hbit
      · refine .pre (P := Hand.Restores k) ?_ fun m hm => hm.mono ?_
        · exact .bind (plainMain_obeys ⟨hslv, fun _ => trivial⟩) fun _ => hend imc res
        · rintro d d' ⟨d₁, ⟨d₀, rfl, rfl, rfl⟩, rfl, _⟩
          exact selectPort_restore hport d₀
  · rw [if_pos hr]
    exact .ret fun m hm => (hm.resolve_left fun h => hr h.1).2

/-- The account of a transfer that selects its port through the index register. -/
abbrev Hand.Indexes (k : Setting) (m : Hand) : Prop := m.Mains k false true false fun _ _ => True

/-- A transfer gives the index ports up. -/
theorem indexRelease_obeys :
    Obeys (ledger k b) (Hand.Indexes k) (piix4Sb800RegionRelease false) fun _ => Hand.Idles := by
  refine .perform fun m hm =>
    ⟨Or.inr ⟨hm.role, Or.inl ⟨rfl, rfl, hm.pm, hm.imc⟩⟩, fun r m' hmove => ?_⟩
  obtain rfl : m' = { m with pm := false } := by
    rw [show m' = _ from hmove]
    split
    · next c v hrole => exact nomatch hm.role.symm.trans hrole
    · exact if_neg (by decide)
  exact (show Hand.Mains k false false false (fun _ _ => True) { m with pm := false } from
    { hm with pm := rfl }).idles

/-- Selecting a port through them. -/
theorem indexSel_obeys (port : Byte) :
    Obeys (ledger k b) (Hand.Indexes k) (piix4Sb800PortSel PortGlobals.kerncz false port) fun _ =>
      Hand.Indexes k := by
  refine plainMain_obeys (Prog.AllOps.bind ⟨hostPort_index.1, fun _ => trivial⟩ fun _ => ?_)
  refine Prog.AllOps.bind ⟨hostPort_index.2, fun _ => trivial⟩ fun lo => ?_
  dsimp only
  split
  · exact Prog.AllOps.bind ⟨hostPort_index.2, fun _ => trivial⟩ fun _ => trivial
  · exact trivial

/-- `piix4_access_sb800` without MMIO. -/
theorem accessIndexed_obeys (hsmba : a.smba = b.mainSmba) (hx : x.smba = b.mainSmba)
    (hindexed : a.useMmio = false) :
    Obeys (ledger k b) Hand.Idles (piix4AccessSb800 PortGlobals.kerncz a x) fun _ => Hand.Idles := by
  have hslv : HostPort b (smbSlvCnt a.smba) := by
    rw [hsmba]
    exact permits_main b 8 le_rfl
  have hend : ∀ (imc : Bool) (res : Int × SmbusData), Obeys (ledger k b) (Hand.Indexes k)
      (do
        if x.size = .blockData ∧ imc then piix4ImcWakeup
        piix4Sb800RegionRelease false
        pure (res.1, res.2, imc)) fun _ => Hand.Idles := by
    intro imc res
    have hlast : Obeys (ledger k b) (Hand.Indexes k) (do
        piix4Sb800RegionRelease false
        pure (res.1, res.2, imc)) fun _ => Hand.Idles :=
      .bind indexRelease_obeys fun _ => .ret fun _ hm => hm
    dsimp only
    split
    · exact .bind imcWakeup_obeys fun _ => hlast
    · exact hlast
  have hrequest : Obeys (ledger k b) Hand.Idles (piix4Sb800RegionRequest false) fun r m =>
      (r = 0 ∧ m.Indexes k) ∨ (r ≠ 0 ∧ m.Idles) := by
    intro m hm
    refine ⟨⟨hm.1, hm.2.asf, hm.2.notify, Or.inl ⟨rfl, hm.2.pm, hm.2.imc, hm.2.region⟩⟩, ?_⟩
    intro r m' hmove
    cases r with
    | false =>
      obtain rfl : m' = m := hmove
      exact Or.inr ⟨by decide, hm⟩
    | true =>
      obtain rfl : m' = { m with pm := true } := hmove
      exact Or.inl ⟨rfl, hm.1, hm.2.asf, hm.2.notify, congrArg Option.isSome hm.2.region, rfl, hm.2.imc,
        fun _ _ _ => trivial⟩
  unfold piix4AccessSb800 accessSb800With
  rw [hindexed]
  refine .bind hrequest fun r => ?_
  by_cases hr : r = 0
  · rw [if_neg (not_not.mpr hr)]
    refine .pre (P := Hand.Indexes k) ?_ fun m hm => (hm.resolve_right fun h => h.1 hr).2
    refine .bind (plainMain_obeys ⟨hslv, fun _ => trivial⟩) fun cnt => ?_
    refine .bind (plainMain_obeys (requestSemaphore_plain hsmba _ _)) fun got => ?_
    cases got with
    | none => exact .bind indexRelease_obeys fun _ => .ret fun _ hm => hm
    | some cnt =>
      refine .bind notifyImc_obeys fun imc => ?_
      refine .bind (indexSel_obeys _) fun prev => ?_
      refine .bind (plainMain_obeys (piix4Access_plain (hx ▸ permits_main b))) fun res => ?_
      refine .bind (indexSel_obeys _) fun _ => ?_
      exact .bind (plainMain_obeys ⟨hslv, fun _ => trivial⟩) fun _ => hend imc res
  · rw [if_pos hr]
    exact .ret fun m hm => (hm.resolve_left fun h => hr h.1).2

/-- A transfer on a main port respects the ledger. -/
theorem piix4AccessSb800_obeys (hsmba : a.smba = b.mainSmba) (hx : x.smba = b.mainSmba)
    (hport : a.port &&& ~~~PortGlobals.kerncz.mask = 0) :
    Obeys (ledger k b) Hand.Idles (piix4AccessSb800 PortGlobals.kerncz a x) fun _ => Hand.Idles := by
  cases hmmio : a.useMmio with
  | true => exact accessMmio_obeys hsmba hx hmmio hport
  | false => exact accessIndexed_obeys hsmba hx hmmio

end Main

end HostNotify
