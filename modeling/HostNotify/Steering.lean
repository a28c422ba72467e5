import HostNotify.MainPort
import HostNotify.Switching
import HostNotify.Tacit

/-!
# What the code does to the routing

`Wire.Inside` describes a thread that holds the mutex of an engaged block. The mode switches lay
the port to one side or the other, a drain reads it on the slave's side and leaves the pointer at
the first byte, and a transfer uses it on the master's side.
-/

namespace HostNotify

open Bits Interleaving

variable {b : Board} {w : Wire}

/-! ## Where a thread stands -/

/-- What the code of a callback depends on. -/
structure Footing where
  active : Bool
  want : Bool
  resume : Bool
  mmio : Bool
  enabling : Bool
  asleep : Bool

def Charge.footing (v : Charge) : Footing :=
  { active := v.asf.active, want := v.asf.wantListen, resume := v.asf.resumeListen, mmio := v.asf.useMmio
    enabling := v.enabling, asleep := v.asleep }

def Footing.engaged (g : Footing) : Bool := g.active || g.enabling

/-- What a thread is there for, up to the settings that do not matter here. -/
inductive Seat where
  | aux | thread
  | core (c : CoreCall) (g : Footing)

def Office.seat : Office → Option Seat
  | .aux => some .aux
  | .thread => some .thread
  | .core c v => some (.core c v.footing)
  | _ => none

def Seat.Claims : Seat → Prop
  | .core _ g => g.active = true
  | _ => True

/-- A callback's seat is a callback's office. -/
theorem Office.seat_core {o : Office} {c : CoreCall} {g : Footing} (h : o.seat = some (.core c g)) :
    ∃ v, o = .core c v ∧ v.footing = g := by
  cases o with
  | core d v =>
    obtain ⟨rfl, rfl⟩ := Seat.core.inj (Option.some.inj h)
    exact ⟨v, rfl, rfl⟩
  | _ => cases h

/-- A transfer's is a transfer's. -/
theorem Office.seat_aux {o : Office} (h : o.seat = some .aux) : o = .aux := by
  cases o with
  | aux => rfl
  | _ => cases h

/-- The IRQ thread's seat is its own. -/
theorem Office.seat_thread {o : Office} (h : o.seat = some .thread) : o = .thread := by
  cases o with
  | thread => rfl
  | _ => cases h

/-- Whether something is claimed shows in the seat. -/
theorem Office.claims_seat {o : Office} {q : Seat} (h : o.seat = some q) : o.Claims = q.Claims := by
  cases o <;> cases h <;> rfl

/-- Whoever has a seat serves. -/
theorem Office.serves_seat {o : Office} {q : Seat} (h : o.seat = some q) : o.Serves := by
  cases o with
  | idle => cases h
  | main => cases h
  | _ => trivial

/-- Nothing is said about the FCH PM region. -/
def Loose (_ : Option (Option Bool)) : Prop := True

/-- The region is held. -/
def Grasped (m : Option (Option Bool)) : Prop := m ≠ none

/-- The region is held, with MSTR_EN set. -/
def Mastering (m : Option (Option Bool)) : Prop := m = some (some true)

namespace Wire

/-- A thread in the seat `q`. -/
structure Sits (q : Seat) (Z : Option (Option Bool) → Prop) (w : Wire) : Prop where
  seat : w.office.seat = some q
  region : Z w.region

/-- A thread in the seat `q` that holds the mutex, and what it knows of the routing satisfies `P`. -/
structure Grips (q : Seat) (Z : Option (Option Bool) → Prop) (P : Lane → Prop) (w : Wire) : Prop
    extends Sits q Z w where
  mutex : w.mutex = true
  lane : ∀ d, w.lane = some d → P d

/-- The block is engaged, too. -/
structure Inside (q : Seat) (Z : Option (Option Bool) → Prop) (P : Lane → Prop) (w : Wire) : Prop
    extends Grips q Z P w where
  engaged : w.lane ≠ none

end Wire

variable {q : Seat} {Z Y : Option (Option Bool) → Prop} {P F : Lane → Prop} {Q : Wire → Prop}

namespace Wire

/-- Inside, the lane is known. -/
theorem Inside.some (h : w.Inside q Z P) : ∃ d, w.lane = some d ∧ P d := by
  obtain ⟨d, hd⟩ := Option.ne_none_iff_exists'.mp h.engaged
  exact ⟨d, hd, h.lane d hd⟩

/-- A weaker fact is known as well. -/
theorem Inside.mono (h : w.Inside q Z P) (hZ : ∀ m, Z m → Y m) (hP : ∀ d, P d → F d) : w.Inside q Y F where
  seat := h.seat
  region := hZ _ h.region
  mutex := h.mutex
  lane d hd := hP d (h.lane d hd)
  engaged := h.engaged

/-- A change of the lane changes what is known of it. -/
theorem Inside.onLane {g : Lane → Lane} (h : w.Inside q Z P) (hg : ∀ d, P d → F (g d)) :
    (w.onLane g).Inside q Z F where
  seat := h.seat
  region := h.region
  mutex := h.mutex
  lane d hd := by
    obtain ⟨e, he, rfl⟩ := Option.map_eq_some_iff.mp hd
    exact hg e (h.lane e he)
  engaged := by
    unfold Wire.onLane
    simpa using h.engaged

/-- A change of the lane changes what is known to the one who grips the block. -/
theorem Grips.onLane {g : Lane → Lane} (h : w.Grips q Z P) (hg : ∀ d, P d → F (g d)) :
    (w.onLane g).Grips q Z F where
  seat := h.seat
  region := h.region
  mutex := h.mutex
  lane d hd := by
    obtain ⟨e, he, rfl⟩ := Option.map_eq_some_iff.mp hd
    exact hg e (h.lane e he)

end Wire

/-- Transfers and the IRQ thread drain the banks. -/
def Seat.Drains : Seat → Prop
  | .core _ _ => False
  | _ => True

namespace Lane

/-- A drain is in progress. -/
structure Busy (r : Pointer → Prop) (d : Lane) : Prop extends Drains d r where
  wanted : d.listening = true → d.want = true

/-- The banks can be drained. -/
structure Ready (d : Lane) : Prop where
  draining : d.draining = false
  dataEn : d.dataEn = some false
  ptr : d.ptr = .start
  wanted : d.listening = true → d.want = true

/-- A busier pointer is busy as well. -/
theorem Busy.mono {r r' : Pointer → Prop} {d : Lane} (h : d.Busy r) (hr : ∀ x, r x → r' x) : d.Busy r' :=
  ⟨⟨h.draining, h.dataEn, hr _ h.ptr⟩, h.wanted⟩

end Lane

/-! ## Operations that every account permits -/

/-- The operation is always permitted and leaves the account alone. -/
def Op.Mute (b : Board) : Op → Prop
  | .inb port => decode b.auxSmba port ≠ some .index ∧ decode b.auxSmba port ≠ some .slvsta
  | .outb _ port => decode b.auxSmba port = none
  | .iowrite32 _ | .iowrite8 _ _ | .setAsf _ | .lock .asf | .unlock .asf | .requestMemRegionMuxed
  | .releaseMemRegion | .mark .drainBegin | .mark (.drainEnd _) | .transferDone | .irqThreadDone
  | .coreDone _ => False
  | _ => True

/-- A mute operation changes no account. -/
theorem Op.Mute.obeys {o : Op} (ho : o.Mute b) (w : Wire) :
    w.allows b o ∧ ∀ r w', w.moves b o r w' → w' = w := by
  cases o with
  | inb port =>
    refine ⟨⟨fun h => absurd h ho.1, fun h => absurd h ho.2⟩, fun r w' hmove => ?_⟩
    exact hmove.2.trans (if_neg ho.1)
  | outb v port =>
    have hport : decode b.auxSmba port = none := ho
    refine ⟨⟨fun h => (nomatch hport.symm.trans h), fun r h => (nomatch hport.symm.trans h)⟩,
      fun r w' hmove => ?_⟩
    refine Eq.trans hmove ?_
    unfold Wire.written
    rw [hport]
  | asf => exact ⟨trivial, fun r w' hmove => hmove.2⟩
  | lock l =>
    cases l with
    | asf => exact ho.elim
    | notify => exact ⟨trivial, fun r w' hmove => hmove⟩
  | unlock l =>
    cases l with
    | asf => exact ho.elim
    | notify => exact ⟨trivial, fun r w' hmove => hmove⟩
  | mark m =>
    cases m with
    | drainBegin => exact ho.elim
    | drainEnd => exact ho.elim
    | _ => exact ⟨trivial, fun r w' hmove => hmove⟩
  | iowrite32 | iowrite8 | setAsf | requestMemRegionMuxed | releaseMemRegion | transferDone
  | irqThreadDone | coreDone => exact ho.elim
  | _ => exact ⟨trivial, fun r w' hmove => hmove⟩

namespace Steer

/-- Mute code changes no account. -/
theorem mute_obeys {A : Type} {p : Driver A} (hp : p.AllOps (Op.Mute b)) :
    Obeys (wiring b) Q p fun _ => Q :=
  .of_allOps hp fun o w ho hw => by
    obtain ⟨hallow, hmove⟩ := ho.obeys w
    exact ⟨hallow, fun r w' h => hmove r w' h ▸ hw⟩

/-- One mute operation changes no account. -/
theorem muteOp_obeys {o : Op} (ho : o.Mute b) : Obeys (wiring b) Q (perform o) fun _ => Q :=
  mute_obeys ⟨ho, fun _ => trivial⟩

/-- Reading a register that is not steered. -/
theorem inb_obeys {port : ℕ} {reg : Reg} (hport : decode b.auxSmba port = some reg) (hindex : reg ≠ .index)
    (hslvsta : reg ≠ .slvsta) : Obeys (wiring b) Q (inb port) fun r w => w.Finds b port r ∧ Q w := by
  refine .perform fun w hw => ⟨⟨fun h => ?_, fun h => ?_⟩, fun r w' hmove => ?_⟩
  · exact absurd (Option.some.inj (hport.symm.trans h)) hindex
  · exact absurd (Option.some.inj (hport.symm.trans h)) hslvsta
  · have hsame : w' = w := hmove.2.trans (if_neg fun h => hindex (Option.some.inj (hport.symm.trans h)))
    subst hsame
    exact ⟨hmove.1, hw⟩

/-- Reading the driver's global. -/
theorem asf_obeys : Obeys (wiring b) Q piix4Asf fun a w => w.Learns b a ∧ Q w := by
  refine .perform fun w hw => ⟨trivial, fun r w' hmove => ?_⟩
  obtain ⟨hlearns, rfl⟩ := hmove
  exact ⟨hlearns, hw⟩

/-- Writing a register with the mutex held. -/
theorem outb_obeys {v : Byte} {port : ℕ} {reg : Reg} (hport : decode b.auxSmba port = some reg)
    (hindex : reg ≠ .index) (hP : ∀ d, P d → F (d.write v reg)) :
    Obeys (wiring b) (Wire.Inside q Z P) (outb v port) fun _ => Wire.Inside q Z F := by
  refine .perform fun w hw => ⟨⟨fun h => ?_, fun _ _ _ => hw.mutex⟩, fun r w' hmove => ?_⟩
  · exact absurd (Option.some.inj (hport.symm.trans h)) hindex
  · obtain rfl : w' = w.written b v port := hmove
    unfold Wire.written
    rw [hport]
    exact hw.onLane hP

/-! ## Register helpers -/

/-- LISTN is set or cleared. -/
theorem updateListn_obeys {set : Bool} (hP : ∀ d, P d → F { d with listn := some set }) :
    Obeys (wiring b) (Wire.Inside q Z P) (piix4AsfUpdateIoport asfSlvListn (asfLisAddr b.auxSmba) set)
      fun _ => Wire.Inside q Z F := by
  refine .bind (inb_obeys (decode_asfLisAddr _) nofun nofun) fun r => .pre ?_ fun w hw => hw.2
  refine outb_obeys (decode_asfLisAddr _) nofun fun d hd => ?_
  simp only [Lane.write, asfSlvListn, BitVec.getLsbD_eq_getElem, Nat.reduceLT, getElem_assignBit, if_true]
  exact hP d hd

/-- The interrupt enable is set or cleared; the reset bit is written back as it was read. -/
theorem updateIntr_obeys {set : Bool} (hP : ∀ d y, P d → (∀ x, d.rst = some x → y = x) →
      F { d with rst := some y, ptr := if y then .start else d.ptr }) :
    Obeys (wiring b) (Wire.Inside q Z P) (piix4AsfUpdateIoport asfSlvIntr (asfSlvEn b.auxSmba) set)
      fun _ => Wire.Inside q Z F := by
  refine .bind (inb_obeys (decode_asfSlvEn _) nofun nofun) fun r => ?_
  refine .pre (P := Wire.Inside q Z fun d => P d ∧ ∀ x, d.rst = some x → r.getLsbD 4 = x) ?_
    fun w hw => ?_
  · refine outb_obeys (decode_asfSlvEn _) nofun fun d hd => ?_
    have hkept : (assignBit asfSlvIntr r set).getLsbD 4 = r.getLsbD 4 := by simp
    simp only [Lane.write, hkept]
    exact hP d _ hd.1 hd.2
  · exact { hw.2 with lane := fun d hd => ⟨hw.2.lane d hd, hw.1.slven (decode_asfSlvEn _) d hd⟩ }

/-- The slave is put into reset or released from it. -/
theorem updateRst_obeys {set : Bool}
    (hP : ∀ d, P d → F { d with rst := some set, ptr := if set then .start else d.ptr }) :
    Obeys (wiring b) (Wire.Inside q Z P) (piix4AsfUpdateIoport asfSlvRst (asfSlvEn b.auxSmba) set)
      fun _ => Wire.Inside q Z F := by
  refine .bind (inb_obeys (decode_asfSlvEn _) nofun nofun) fun r => .pre ?_ fun w hw => hw.2
  refine outb_obeys (decode_asfSlvEn _) nofun fun d hd => ?_
  simp only [Lane.write, asfSlvRst, BitVec.getLsbD_eq_getElem, Nat.reduceLT, getElem_assignBit, if_true]
  exact hP d hd

/-- The port is steered; the full flags are written as zero. -/
theorem bnkselDataEn_obeys {set : Bool} (hP : ∀ d, P d → F { d with dataEn := some set }) :
    Obeys (wiring b) (Wire.Inside q Z P) (piix4AsfBnkselDataEn b.auxSmba set) fun _ => Wire.Inside q Z F := by
  refine .bind (inb_obeys (decode_asfDataBnkSel _) nofun nofun) fun r => .pre ?_ fun w hw => hw.2
  refine outb_obeys (decode_asfDataBnkSel _) nofun fun d hd => ?_
  have hflags : ((assignBit asfBnkDataEn (r &&& ~~~asfBnkFull) set).getLsbD 2 ||
      (assignBit asfBnkDataEn (r &&& ~~~asfBnkFull) set).getLsbD 3) = false := by
    simp [asfBnkFull]
  have hdata : (assignBit asfBnkDataEn (r &&& ~~~asfBnkFull) set).getLsbD 7 = set := by simp
  simp only [Lane.write, hflags, hdata]
  exact hP d hd

/-- Acknowledging the status tells nothing about the routing. -/
theorem clearStatus_obeys :
    Obeys (wiring b) (Wire.Inside q Z P) (piix4AsfClearStatus b.auxSmba) fun _ => Wire.Inside q Z P :=
  .bind (outb_obeys (decode_asfSlvSta _) nofun fun _ hd => hd) fun _ =>
    .bind (outb_obeys (decode_asfSta _) nofun fun _ hd => hd) fun _ =>
      outb_obeys (decode_asfSta _) nofun fun _ hd => hd

/-- A dword write of DecodeEn needs the region. -/
theorem updateMmio_obeys {n : ℕ} {set : Bool}
    (hZ : ∀ d : BitVec 32, (n = 16 → getElem d 16 (fits rfl) = set) →
      Y (some (some (getElem d 16 (fits rfl))))) :
    Obeys (wiring b) (Wire.Inside q Grasped P) (piix4AsfUpdateMmio n set) fun _ => Wire.Inside q Y P := by
  refine .bind (muteOp_obeys trivial) fun r => ?_
  refine .perform fun w hw => ⟨hw.region, fun r' w' hmove => ?_⟩
  obtain rfl : w' = _ := hmove
  obtain ⟨m, hm⟩ := Option.ne_none_iff_exists'.mp hw.region
  refine { hw with region := ?_ }
  rw [hm]
  refine hZ _ fun hn => ?_
  subst hn
  simp

/-! ## Mode switches -/

/-- `piix4_asf_master_mode` lays the port to the master's side. -/
theorem masterMode_obeys
    (hP : ∀ d, P d → F { d with listn := some false, rst := some true, dataEn := some true, ptr := .start }) :
    Obeys (wiring b) (Wire.Inside q Grasped P) (piix4AsfMasterMode b.auxSmba) fun _ =>
      Wire.Inside q Mastering F := by
  let P₁ (d : Lane) : Prop := ∃ e, P e ∧ d = { e with listn := some false, rst := d.rst, ptr := d.ptr }
  let P₂ (d : Lane) : Prop := ∃ e, P e ∧ d = { e with listn := some false, rst := some true, ptr := .start }
  refine .bind (updateListn_obeys (F := P₁) fun d hd => ⟨d, hd, rfl⟩) fun _ => ?_
  refine .bind (updateIntr_obeys (F := P₁) fun d y hd _ => ?_) fun _ => ?_
  · obtain ⟨e, he, heq⟩ := hd
    exact ⟨e, he, by rw [heq]⟩
  refine .bind (updateRst_obeys (F := P₂) fun d hd => ?_) fun _ => ?_
  · obtain ⟨e, he, heq⟩ := hd
    exact ⟨e, he, by rw [heq]; rfl⟩
  refine .bind (outb_obeys (F := P₂) (decode_asfSlvSta _) nofun fun _ hd => hd) fun _ => ?_
  refine .bind (updateMmio_obeys (Y := Mastering) fun d hd => congrArg (fun x => some (some x)) (hd rfl)) fun _ => ?_
  refine bnkselDataEn_obeys fun d hd => ?_
  obtain ⟨e, he, rfl⟩ := hd
  exact hP e he

/-- `piix4_asf_slave_arm` lays it to the slave's side. -/
theorem slaveArm_obeys
    (hP : ∀ d, P d → F { d with listn := some true, rst := some false, dataEn := some false }) :
    Obeys (wiring b) (Wire.Inside q Grasped P) (piix4AsfSlaveArm b.auxSmba) fun _ =>
      Wire.Inside q Grasped F := by
  let P₁ (d : Lane) : Prop := ∃ e, P e ∧ d = { e with dataEn := some false }
  let P₂ (d : Lane) : Prop := ∃ e, P e ∧ d = { e with dataEn := some false, listn := some true }
  let P₃ (d : Lane) : Prop := ∃ e, P e ∧ d = { e with dataEn := some false, listn := some true, rst := some false }
  have hcnt : ∀ n set, (piix4AsfUpdateIoport n (smbHstCnt b.auxSmba) set).AllOps (Op.Mute b) := fun n set =>
    Prog.AllOps.bind ⟨⟨by simp, by simp⟩, fun _ => trivial⟩ fun _ => ⟨decode_smbHstCnt _, fun _ => trivial⟩
  have hheld : ∀ (set : Bool) (d : BitVec 32), Grasped (some (some (d.getLsbD 16))) := nofun
  unfold piix4AsfSlaveArm
  refine .bind (muteOp_obeys trivial) fun _ => ?_
  refine .bind (muteOp_obeys (decode_smbHstSts _)) fun _ => ?_
  refine .bind clearStatus_obeys fun _ => ?_
  refine .bind (bnkselDataEn_obeys (F := P₁) fun d hd => ⟨d, hd, rfl⟩) fun _ => ?_
  refine .bind (outb_obeys (F := P₂) (decode_asfLisAddr _) nofun fun d hd => ?_) fun _ => ?_
  · obtain ⟨e, he, rfl⟩ := hd
    exact ⟨e, he, rfl⟩
  refine .bind (updateMmio_obeys fun d _ => hheld true d) fun _ => ?_
  refine .bind (updateMmio_obeys fun d _ => hheld true d) fun _ => ?_
  refine .bind (mute_obeys (hcnt _ _)) fun _ => .bind (mute_obeys (hcnt _ _)) fun _ => ?_
  refine .bind (updateRst_obeys (F := P₃) fun d hd => ?_) fun _ => ?_
  · obtain ⟨e, he, rfl⟩ := hd
    exact ⟨e, he, rfl⟩
  refine updateIntr_obeys fun d y hd hy => ?_
  obtain ⟨e, he, rfl⟩ := hd
  obtain rfl := hy false rfl
  exact hP e he

/-- Nobody else touches the routing while the slave is held off. -/
theorem holdOff_obeys (hP : ∀ d y, P d → F { d with
      listn := some false, rst := some y, ptr := if y then .start else d.ptr }) :
    Obeys (wiring b) (Wire.Inside q Z P) (holdOff b.auxSmba) fun _ => Wire.Inside q Z F := by
  refine .bind (updateListn_obeys (F := fun d => ∃ e, P e ∧ d = { e with listn := some false })
    fun d hd => ⟨d, hd, rfl⟩) fun _ => ?_
  refine .bind (updateIntr_obeys fun d y hd _ => ?_) fun _ => muteOp_obeys trivial
  obtain ⟨e, he, rfl⟩ := hd
  exact hP e y he

/-! ## Draining the banks -/

section Drain

/-- What a thread that drains reads in the driver's global. -/
theorem global_obeys (hq : q.Drains) : Obeys (wiring b) (Wire.Inside q Z P) piix4Asf fun a w =>
    (a.smba = b.auxSmba ∧ a.useMmio = true) ∧
      w.Inside q Z fun d => P d ∧ a.listening = d.listening ∧ a.wantListen = d.want := by
  refine .post asf_obeys fun a w hw => ?_
  obtain ⟨hlearns, hw⟩ := hw
  have hactive : a.active = true := by
    cases q with
    | aux => exact hlearns.aux (Office.seat_aux hw.seat) hw.engaged
    | thread => exact hlearns.thread (Office.seat_thread hw.seat)
    | core c g => exact hq.elim
  refine ⟨hlearns.claimed hactive, { hw with lane := fun d hd => ⟨hw.lane d hd, ?_, ?_⟩ }⟩
  · exact hlearns.listening d hd
  · exact hlearns.want d hd

/-- ASFINDEX is read on the slave's side, from the first byte on. -/
theorem inbIndex_obeys {r : Pointer → Prop} (hr : ∀ x, r x → x = .start ∨ x = .within) :
    Obeys (wiring b) (Wire.Inside q Z (Lane.Busy r)) (inb (asfIndex b.auxSmba)) fun _ =>
      Wire.Inside q Z (Lane.Busy (· = .within)) := by
  refine .perform fun w hw => ⟨⟨fun _ => ?_, fun h => ?_⟩, fun v w' hmove => ?_⟩
  · obtain ⟨d, hd, hbusy⟩ := hw.some
    exact Or.inl ⟨d, hd, (hbusy.mono hr).toDrains⟩
  · cases (decode_asfIndex _).symm.trans h
  · obtain rfl : w' = w.onLane Lane.peek := hmove.2.trans (if_pos (decode_asfIndex _))
    refine hw.onLane fun d hd => ?_
    unfold Lane.peek
    rw [if_pos hd.dataEn]
    exact ⟨⟨hd.draining, hd.dataEn, rfl⟩, hd.wanted⟩

/-- A payload is read while the pointer is within it. -/
theorem readPayload_obeys (left : ℕ) :
    Obeys (wiring b) (Wire.Inside q Z (Lane.Busy (· = .within))) (readPayload b.auxSmba left) fun _ =>
      Wire.Inside q Z (Lane.Busy (· = .within)) := by
  induction left with
  | zero => exact .ret fun w hw => hw
  | succ left ih =>
    refine .bind (inbIndex_obeys fun x hx => Or.inr hx) fun v => ?_
    exact .bind ih fun rest => .ret fun w hw => hw

/-- ASFDATABNKSEL is written with DATA_EN clear. -/
theorem outbBank_obeys {v : Byte} {r u : Pointer → Prop} (hv : v.getLsbD 7 = false)
    (hr : ∀ x, r x → u (if v.getLsbD 2 || v.getLsbD 3 then x.consume else x)) :
    Obeys (wiring b) (Wire.Inside q Z (Lane.Busy r)) (outb v (asfDataBnkSel b.auxSmba)) fun _ =>
      Wire.Inside q Z (Lane.Busy u) :=
  outb_obeys (decode_asfDataBnkSel _) nofun fun _ hd => ⟨⟨hd.draining, congrArg some hv, hr _ hd.ptr⟩, hd.wanted⟩

/-- One message is read from its first byte on, and its bank is marked consumed. -/
theorem readBank_obeys {reg : Byte} (hreg : getElem reg 7 (fits rfl) = false) (i : Bool) :
    Obeys (wiring b) (Wire.Inside q Z (Lane.Busy (· = .start))) (readBank b.auxSmba reg i) fun _ =>
      Wire.Inside q Z (Lane.Busy (· = .finished)) := by
  have hselect : ((assignBit asfBnkSel (reg &&& ~~~asfBnkFull) i).getLsbD 2 ||
      (assignBit asfBnkSel (reg &&& ~~~asfBnkFull) i).getLsbD 3) = false := by
    simp [asfBnkFull]
  have hslave : (assignBit asfBnkSel (reg &&& ~~~asfBnkFull) i).getLsbD 7 = false := by
    simp [hreg]
  have hflag : ((assignBit asfBnkSel (reg &&& ~~~asfBnkFull) i ||| bit (Target.flagBit i)).getLsbD 2 ||
      (assignBit asfBnkSel (reg &&& ~~~asfBnkFull) i ||| bit (Target.flagBit i)).getLsbD 3) = true := by
    cases i <;> simp [Target.flagBit]
  have hslave' : (assignBit asfBnkSel (reg &&& ~~~asfBnkFull) i ||| bit (Target.flagBit i)).getLsbD 7 = false := by
    cases i <;> simp [Target.flagBit, hreg]
  refine .bind (outbBank_obeys (u := (· = .start)) hslave fun x hx => ?_) fun _ => ?_
  · rw [hselect]
    exact hx
  refine .bind (inbIndex_obeys fun x hx => Or.inl hx) fun cmd => ?_
  refine .bind (muteOp_obeys ⟨by simp, by simp⟩) fun len => ?_
  refine .bind (readPayload_obeys _) fun data => ?_
  refine .bind (outbBank_obeys (u := (· = .finished)) hslave' fun x hx => ?_) fun _ => .ret fun w hw => hw
  subst hx
  rw [hflag]
  rfl

/-- Clearing the flag rewinds the pointer. -/
theorem finishBank_obeys (i : ℕ) (cmd : Byte) (data : List Byte) :
    Obeys (wiring b) (Wire.Inside q Z (Lane.Busy fun x => x = .start ∨ x = .finished))
      (finishBank b.auxSmba i cmd data) fun _ => Wire.Inside q Z (Lane.Busy (· = .start)) := by
  refine .bind (outb_obeys (F := Lane.Busy (· = .start)) (decode_asfSetDataRdPtr _) nofun fun d hd => ?_)
    fun _ => ?_
  · refine ⟨⟨hd.draining, hd.dataEn, ?_⟩, hd.wanted⟩
    change (if (0 : Byte) = 0 then d.ptr.rewind else .lost) = .start
    rw [if_pos rfl]
    rcases hd.ptr with hptr | hptr <;> rw [hptr] <;> rfl
  · split
    · exact .ret fun w hw => hw
    · exact .bind (muteOp_obeys trivial) fun _ => .ret fun w hw => hw

/-- `piix4_asf_process_bank` begins and ends with the pointer at the first byte. -/
theorem processBank_obeys (hq : q.Drains) (allow : Bool) (prefer : ℕ) :
    Obeys (wiring b) (Wire.Inside q Z (Lane.Busy (· = .start))) (piix4AsfProcessBank allow prefer) fun _ =>
      Wire.Inside q Z (Lane.Busy (· = .start)) := by
  refine .bind (global_obeys hq) fun a => .pure_pre fun ha => ?_
  rw [ha.1]
  refine .pre (P := Wire.Inside q Z (Lane.Busy (· = .start))) ?_ fun w hw => hw.mono (fun _ h => h) fun d hd => hd.1
  have hbegin : Obeys (wiring b) (Wire.Inside q Z (Lane.Busy (· = .start))) (inb (asfSlvSta b.auxSmba)) fun _ =>
      Wire.Inside q Z (Lane.Busy (· = .start)) := by
    refine .perform fun w hw => ⟨⟨fun h => ?_, fun _ => ?_⟩, fun v w' hmove => ?_⟩
    · cases (decode_asfSlvSta _).symm.trans h
    · obtain ⟨d, hd, hbusy⟩ := hw.some
      exact ⟨d, hd, hbusy.toDrains⟩
    · have hsame : w' = w := hmove.2.trans (if_neg (by simp))
      exact hsame ▸ hw
  have hread : Obeys (wiring b) (Wire.Inside q Z (Lane.Busy (· = .start))) (inb (asfDataBnkSel b.auxSmba))
      fun reg w => getElem reg 7 (fits rfl) = false ∧ w.Inside q Z (Lane.Busy (· = .start)) := by
    refine .post (inb_obeys (decode_asfDataBnkSel _) nofun nofun) fun reg w hw => ⟨?_, hw.2⟩
    obtain ⟨d, hd, hbusy⟩ := hw.2.some
    exact hw.1.bnksel (decode_asfDataBnkSel _) d hd _ hbusy.dataEn
  refine .bind hbegin fun sta => ?_
  split
  · refine .bind hread fun reg => .pure_pre fun hreg => ?_
    have hflush : (reg ||| asfBnkFull).getLsbD 7 = false := by simp [hreg, asfBnkFull]
    refine .bind (outbBank_obeys (u := fun x => x = .start ∨ x = .finished) hflush fun x hx => Or.inl ?_) fun _ => ?_
    · subst hx
      split <;> rfl
    exact .bind (muteOp_obeys trivial) fun _ => finishBank_obeys _ _ _
  · refine .bind hread fun reg => .pure_pre fun hreg => ?_
    split
    · exact .ret fun w hw => hw
    · refine .bind (readBank_obeys hreg _) fun r => ?_
      exact .pre (finishBank_obeys _ _ _) fun w hw => hw.mono (fun _ h => h) fun d hd => hd.mono fun x hx => Or.inr hx

/-- Taking the signal leaves the lane alone. -/
theorem takeSignal_obeys : Obeys (wiring b) (Wire.Inside q Z P) (takeSignal b.auxSmba) fun _ =>
    Wire.Inside q Z P := by
  have hack : Obeys (wiring b) (Wire.Inside q Z P) (ackStatus b.auxSmba) fun _ => Wire.Inside q Z P := by
    refine .bind (muteOp_obeys ⟨by simp, by simp⟩) fun sta => ?_
    dsimp only
    split
    · exact .bind (outb_obeys (decode_asfSta _) nofun fun _ hd => hd) fun _ => .ret fun w hw => hw
    · exact .ret fun w hw => hw
  exact .bind hack fun _ => .bind (muteOp_obeys trivial) fun _ => .ret fun w hw => hw

/-- Looking at the flags of the banks leaves the lane alone. -/
theorem banksIdle_obeys : Obeys (wiring b) Q (banksIdle b.auxSmba) fun _ => Q :=
  .bind (muteOp_obeys ⟨by simp, by simp⟩) fun _ => .ret fun w hw => hw

/-- The passes of a drain leave the pointer at the start. -/
theorem drainPasses_obeys (hq : q.Drains) (left i : ℕ) (n : Notifies) :
    Obeys (wiring b) (Wire.Inside q Z (Lane.Busy (· = .start))) (drainPasses b.auxSmba left i n) fun _ =>
      Wire.Inside q Z (Lane.Busy (· = .start)) := by
  induction left generalizing i n with
  | zero => exact .bind banksIdle_obeys fun _ => .ret fun w hw => hw
  | succ left ih =>
    have hpass : ∀ signalled, Obeys (wiring b) (Wire.Inside q Z (Lane.Busy (· = .start)))
        (readPass signalled i n fun n' => drainPasses b.auxSmba left (i + 1) n') fun _ =>
          Wire.Inside q Z (Lane.Busy (· = .start)) := by
      intro signalled
      refine .bind (processBank_obeys hq signalled i) fun r => ?_
      split
      · exact .ret fun w hw => hw
      · exact ih _ _
    unfold drainPasses
    refine .bind takeSignal_obeys fun signalled => ?_
    cases signalled with
    | true => exact hpass true
    | false =>
      refine .bind banksIdle_obeys fun quiet => ?_
      cases quiet with
      | true => exact .ret fun w hw => hw
      | false => exact hpass false

/-- `piix4_asf_drain` leaves the port as it finds it. -/
theorem drain_obeys (hq : q.Drains) (n : Notifies) :
    Obeys (wiring b) (Wire.Inside q Z Lane.Ready) (piix4AsfDrain b.auxSmba n) fun _ =>
      Wire.Inside q Z Lane.Ready := by
  have hbegin : Obeys (wiring b) (Wire.Inside q Z Lane.Ready) (mark .drainBegin) fun _ =>
      Wire.Inside q Z (Lane.Busy (· = .start)) := by
    refine .perform fun w hw => ⟨⟨hw.engaged, ?_⟩, fun r w' hmove => ?_⟩
    · cases q with
      | aux => exact Or.inl (Office.seat_aux hw.seat)
      | thread => exact Or.inr (Office.seat_thread hw.seat)
      | core c g => exact hq.elim
    · obtain rfl : w' = _ := hmove
      exact hw.onLane fun d hd => ⟨⟨rfl, hd.dataEn, hd.ptr⟩, hd.wanted⟩
  have hend : ∀ wedged, Obeys (wiring b) (Wire.Inside q Z (Lane.Busy (· = .start))) (mark (.drainEnd wedged))
      fun _ => Wire.Inside q Z Lane.Ready := by
    intro wedged
    refine .perform fun w hw => ⟨hw.engaged, fun r w' hmove => ?_⟩
    obtain rfl : w' = _ := hmove
    exact hw.onLane fun d hd => ⟨rfl, hd.dataEn, hd.ptr, hd.wanted⟩
  refine .bind hbegin fun _ => .bind (drainPasses_obeys hq _ _ _) fun r => ?_
  exact .bind (hend _) fun _ => .ret fun w hw => hw

end Drain

end Steer

end HostNotify
