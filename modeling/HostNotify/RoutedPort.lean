import HostNotify.Handovers
import HostNotify.Listening

/-!
# The shared port is routed to the right side

Every call respects the accounts of the routing, so they are true in every run: whoever uses
ASFINDEX or SMBBLKDAT finds the port on the side it means.
-/

namespace HostNotify

open Bits Interleaving

variable {k : Setting} {b : Board} {w : Wire} {s : St} {p : Pool St Op Op.Ans Call} {i : ℕ}

/-! ## Transfers on the main port -/

/-- A harmless operation says nothing about the wiring. -/
theorem Op.Harmless.mute {o : Op} (h : o.Harmless b) : o.Mute b := by
  cases o with
  | inb port =>
    have hport : decode b.auxSmba port = none := h
    exact ⟨by simp [hport], by simp [hport]⟩
  | outb | requestMuxedRegion | releaseRegion | usleepRange | dynamicDebug => exact h
  | _ => exact h.elim

namespace Steer

/-- A program of harmless operations keeps to the rules. -/
theorem harmless_obeys {A : Type} {q : Driver A} {Q : Wire → Prop} (hq : q.AllOps (Op.Harmless b)) :
    Obeys (wiring b) Q q fun _ => Q :=
  mute_obeys (hq.mono fun _ ho => ho.mute)

/-- A thread that holds the FCH PM region and is not there for the target block. -/
def Beside (w : Wire) : Prop := w.region ≠ none

/-- Selecting the port of the main adapter keeps to the rules. -/
theorem portSel_obeys (port : Byte) : Obeys (wiring b) Beside (piix4Sb800PortSel PortGlobals.kerncz true port) fun _ =>
    Beside := by
  refine .bind (muteOp_obeys trivial) fun v => ?_
  have hwrite : ∀ v : Byte, Obeys (wiring b) Beside (iowrite8 v PortGlobals.kerncz.sel) fun _ => Beside := fun v =>
    .perform fun w hw => ⟨hw, fun r w' hmove => by
      obtain rfl : w' = _ := hmove
      obtain ⟨m, hm⟩ := Option.ne_none_iff_exists'.mp hw
      change w.region.map (fun _ => none) ≠ none
      rw [hm]
      exact nofun⟩
  dsimp only
  split
  · exact .bind (hwrite _) fun _ => .ret fun _ hw => hw
  · exact .ret fun _ hw => hw

/-- A transfer of the main adapter keeps to the rules. -/
theorem mainTransfer_obeys {a : MainAdapter} {x : SmbusXfer} (ha : a.smba = b.mainSmba) (hx : x.smba = b.mainSmba) :
    Obeys (wiring b) (fun _ => True) (Call.body b (.mainTransfer a x)) fun _ _ => True := by
  refine .bind (Q := fun _ _ => True) ?_ fun _ => .ret fun _ hw => hw
  cases hmmio : a.useMmio with
  | false => exact harmless_obeys (accessIndexed_harmless ha hx hmmio)
  | true =>
    have hslv : HostPort b (smbSlvCnt a.smba) := by
      rw [ha]
      exact permits_main b 8 le_rfl
    have hend : ∀ {A : Type} (v : A), Obeys (wiring b) Beside (do
        piix4Sb800RegionRelease true
        pure v) fun _ _ => True := fun v =>
      .bind (Q := fun _ _ => True) (.pre (release_obeys (Q := fun _ => True) fun _ _ _ => trivial)
        fun w hw => ⟨trivial, hw⟩)
        fun _ => .ret fun _ hw => hw
    unfold piix4AccessSb800 accessSb800With
    rw [hmmio]
    refine .bind (request_obeys fun _ _ _ => trivial) fun retval => ?_
    split
    · exact .ret fun _ _ => trivial
    next hgot =>
    refine .pre (P := Beside) ?_ fun w hw => hw.2 (not_not.mp hgot)
    refine .bind (harmless_obeys (inb_harmless hslv)) fun cnt => ?_
    refine .bind (harmless_obeys (requestSemaphore_harmless ha _ _)) fun got => ?_
    cases got with
    | none => exact hend _
    | some cnt =>
      refine .bind (harmless_obeys notifyImc_harmless) fun imc => .bind (portSel_obeys _) fun prev => ?_
      refine .bind (harmless_obeys (piix4Access_harmless hx)) fun res => .bind (portSel_obeys _) fun _ => ?_
      refine .bind (harmless_obeys (outb_harmless _ hslv)) fun _ => ?_
      dsimp only
      split
      · exact .bind (harmless_obeys piix4ImcWakeup_harmless) fun _ => hend _
      · exact hend _

/-! ## Every call -/

/-- The adapter is registered and taken away beside the port. -/
theorem adapter_mute : (piix4AddAdapter b.auxSmba).AllOps (Op.Mute b) ∧
    (piix4AdapRemove b.auxSmba).AllOps (Op.Mute b) :=
  ⟨addAdapter_allOps trivial trivial (fun _ => trivial) trivial trivial (fun _ _ => trivial) _,
    adapRemove_allOps trivial trivial (fun _ _ => trivial) _⟩

/-- A transfer of the aux adapter keeps to the rules. -/
theorem transfer_obeys {x : SmbusXfer} (hx : x.smba = b.auxSmba) :
    Obeys (wiring b) (Wire.Sits .aux Loose) (Call.body b (.transfer x)) fun _ _ => True :=
  .bind (piix4AccessAsf_obeys hx) fun _ =>
    .perform fun _ hw => ⟨Office.seat_aux hw.seat, fun _ _ _ => trivial⟩

/-- A transfer without the block keeps to the rules. -/
theorem plainTransfer_obeys {x : SmbusXfer} (hx : x.smba = b.auxSmba) :
    Obeys (wiring b) Unserved (Call.body b (.plainTransfer x)) fun _ _ => True :=
  .bind (accessUnserved_obeys hx) fun _ =>
    .perform fun _ hw => ⟨Office.seat_aux hw.seat, fun _ _ _ => trivial⟩

/-- The IRQ thread keeps to the rules. -/
theorem irqThread_obeys : Obeys (wiring b) (Wire.Sits .thread Loose) (Call.body b .irqThread) fun _ _ => True :=
  .bind piix4AsfIrqThread_obeys fun _ =>
    .perform fun _ hw => ⟨Office.seat_thread hw.seat, fun _ _ _ => trivial⟩

/-- Every call respects the account that it begins with. -/
theorem body_follows {call : Call} (h : Boards b call w) : Follows (wiring b) (fun _ _ => True) (call.body b) w := by
  cases call with
  | transfer x =>
    obtain ⟨rfl, hx⟩ := h
    exact transfer_obeys hx _ ⟨rfl, trivial⟩
  | plainTransfer x =>
    obtain ⟨rfl, hx⟩ := h
    exact plainTransfer_obeys hx _ ⟨rfl, rfl, rfl⟩
  | mainTransfer a x =>
    obtain ⟨rfl, ha, hx⟩ := h
    exact mainTransfer_obeys ha hx _ trivial
  | irqThread =>
    obtain rfl := h
    exact irqThread_obeys _ ⟨rfl, trivial⟩
  | core c =>
    obtain ⟨v, rfl, hv⟩ := h
    have hsits : (Wire.free (.core c v)).Sits (.core c v.footing) Loose := ⟨rfl, trivial⟩
    cases c with
    | enable => exact enable_obeys (g := v.footing) hv.1 hv.2.2 _ hsits
    | addAdapter => exact muteCall_obeys (c := .addAdapter) nofun adapter_mute.1 _ hsits
    | start => exact start_obeys (g := v.footing) hv.2.2 _ hsits
    | stop => exact stop_obeys _ hsits
    | adapRemove => exact muteCall_obeys (c := .adapRemove) nofun adapter_mute.2 _ hsits
    | disable => exact disable_obeys (g := v.footing) hv _ hsits
    | suspend => exact suspend_obeys (g := v.footing) hv.2.2 _ hsits
    | resume => exact resume_obeys _ hsits

end Steer

/-! ## Whole runs -/

/-- Every thread of a reachable state has a true account of the wiring. -/
theorem switchboard_covers (hintrude : k.intrude = false) (hrestart : k.restart = false)
    (h : p.Reachable (whole k b) (Unbound k)) : (switchboard hintrude hrestart b).Covers p := by
  refine Custody.covers_reachable _ (fun q hq => ?_) (fun s hs => ⟨?_, fun t => Wire.fits_idle t s⟩)
    (fun c w hw => Steer.body_follows hw) ((known_valid k b).restrict.reachable h)
  · exact (Pledge.covers hq.unconfine.unrestrict).inv
  · have hmutex : s.mutex = none := hs.mutex
    refine ⟨fun _ hl => ?_, fun _ => ?_, fun _ => ?_, fun _ ha => ?_, fun _ ha => ?_⟩
    · rw [hs.asf] at hl
      cases hl
    · rw [hs.ghost]
    · rw [hs.ghost]
    · rw [hs.asf] at ha
      cases ha
    · rw [hs.asf] at ha
      cases ha

/-- The port is laid to the banks, and at the first byte unless a bank is being read out. -/
structure St.SlaveSide (s : St) : Prop where
  dataEn : getElem s.hw.bnksel 7 (fits rfl) = false
  ptr : s.hw.reading = false → s.hw.rdptr = 0

/-- The port is laid to the host FIFO, the slave being off the bus. -/
structure St.MasterSide (s : St) : Prop where
  dataEn : getElem s.hw.bnksel 7 (fits rfl) = true
  listn : getElem s.hw.lisaddr 0 (fits rfl) = false
  rst : getElem s.hw.slven 4 (fits rfl) = true
  mstrEn : getElem s.hw.decodeEn 16 (fits rfl) = true

/-- Thread `i` is alone with the port, and the port is on the side that its next operation means:
the slave's for a drain, the master's for a transfer. -/
structure Op.Routed (b : Board) (i : ℕ) (s : St) (o : Op) : Prop where
  alone : o = .inb (asfIndex b.auxSmba) → s.mutex = some i
  drain : o = .inb (asfIndex b.auxSmba) → s.ghost.drain.isSome = true → s.SlaveSide
  read : o = .inb (smbBlkDat b.auxSmba) → s.ghost.drain = none → s.MasterSide
  write : ∀ v, o = .outb v (smbBlkDat b.auxSmba) → s.mutex = some i ∧ s.ghost.drain = none ∧ s.MasterSide
  /-- Where the read-out of a bank begins. -/
  begin : o = .inb (asfSlvSta b.auxSmba) → s.mutex = some i ∧ s.ghost.drain.isSome = true ∧ s.SlaveSide ∧
    s.hw.reading = false

namespace Wire.Fits

/-- In the midst of a drain the shared ports are the slave's. -/
theorem slaveSide {q : Pointer → Prop} (h : w.Fits i s) (hq : ∀ x, q x → x = .start ∨ x = .within)
    (hdrains : ∃ d, w.lane = some d ∧ d.Drains q) :
    s.mutex = some i ∧ s.ghost.drain.isSome = true ∧ s.SlaveSide := by
  obtain ⟨d, hd, hdrains⟩ := hdrains
  obtain ⟨hmutex, _, hshows⟩ := h.lane d hd
  refine ⟨h.mutex hmutex, hshows.draining.trans hdrains.draining, hshows.dataEn _ hdrains.dataEn, ?_⟩
  have hptr := hshows.ptr
  rcases hq _ hdrains.ptr with hstart | hwithin
  · rw [hstart] at hptr
    exact fun _ => hptr.1
  · rw [hwithin] at hptr
    exact hptr

/-- In the midst of a transfer the shared ports are the engine's. -/
theorem masterSide (h : w.Fits i s) (hmasters : w.Masters) :
    s.mutex = some i ∧ s.ghost.drain = none ∧ s.MasterSide := by
  obtain ⟨⟨d, hd, hmaster⟩, hregion⟩ := hmasters
  obtain ⟨hmutex, _, hshows⟩ := h.lane d hd
  exact ⟨h.mutex hmutex, hshows.drained hmaster.draining, hshows.dataEn _ hmaster.dataEn,
    hshows.listn _ hmaster.listn, hshows.rst _ hmaster.rst, (h.region _ hregion).2 _ rfl⟩

end Wire.Fits

/-- As long as the block is claimed, whoever uses the shared port finds it on the right side. -/
theorem port_routed (hintrude : k.intrude = false) (hrestart : k.restart = false)
    (h : p.Reachable (whole k b) (Unbound k)) (hactive : p.shared.asf.active = true) {call : Call} {o : Op}
    (hnext : p.next i = some (call, o)) : o.Routed b i p.shared := by
  obtain ⟨w, _, hfits, hallow⟩ := (switchboard_covers hintrude hrestart h).next_allowed hnext
  have hfits : w.Fits i p.shared := hfits
  have hclaimed : ¬ (w.unclaimed = true ∧ w.lane = none) := fun hun =>
    absurd (hactive.symm.trans (hfits.unclaimed hun.1).2) (by decide)
  have hread : o = .inb (asfIndex b.auxSmba) →
      (p.shared.mutex = some i ∧ p.shared.ghost.drain.isSome = true ∧ p.shared.SlaveSide) ∨
        (p.shared.mutex = some i ∧ p.shared.ghost.drain = none ∧ p.shared.MasterSide) := by
    rintro rfl
    have hmay : w.MayRead b (asfIndex b.auxSmba) := hallow
    rcases hmay.index (decode_asfIndex _) with hdrains | hmasters | hun
    · exact Or.inl (hfits.slaveSide (fun _ hx => hx) hdrains)
    · exact Or.inr (hfits.masterSide hmasters)
    · exact absurd hun hclaimed
  refine ⟨fun ho => ?_, fun ho hdrain => ?_, fun ho hdrain => ?_, fun v ho => ?_, fun ho => ?_⟩
  · rcases hread ho with hside | hside <;> exact hside.1
  · rcases hread ho with hside | hside
    · exact hside.2.2
    · rw [hside.2.1] at hdrain
      cases hdrain
  · rcases hread ho with hside | hside
    · rw [hdrain] at hside
      cases hside.2.1
    · exact hside.2.2
  · subst ho
    have hmay : w.MayWrite b (smbBlkDat b.auxSmba) := hallow
    exact hfits.masterSide ((hmay.index (decode_smbBlkDat _)).resolve_right hclaimed)
  · subst ho
    have hmay : w.MayRead b (asfSlvSta b.auxSmba) := hallow
    obtain ⟨d, hd, hdrains⟩ := hmay.slvsta (decode_asfSlvSta _)
    obtain ⟨hmutex, hdrain, hside⟩ := hfits.slaveSide (fun _ hx => Or.inl hx) ⟨d, hd, hdrains⟩
    have hptr := (hfits.lane d hd).2.2.ptr
    rw [hdrains.ptr] at hptr
    exact ⟨hmutex, hdrain, hside, hptr.2⟩

/-- Thread `i` is about to read `port`. -/
def readsNext (p : Pool St Op Op.Ans Call) (i port : ℕ) : Bool :=
  match p.next i with
  | some (_, .inb q) => q == port
  | _ => false

/-- The thread is about to read the port. -/
theorem readsNext_some {port : ℕ} (h : readsNext p i port = true) : ∃ call, p.next i = some (call, .inb port) := by
  unfold readsNext at h
  split at h
  · next call q hnext =>
    obtain rfl : q = port := beq_iff_eq.mp h
    exact ⟨call, hnext⟩
  · cases h

/-- A message has arrived, and the IRQ thread is about to read its first byte. -/
def collecting : List (Action Call Event) :=
  bringUp ++ [arrival, .event .hardIrq, .call .irqThread] ++ advance 3 10

/-- Firmware keeps away while the driver works, and start runs once after each probe. -/
def Setting.orderly : Setting := { Setting.all with intrude := false, restart := false }

/-- Thread 3 drains a bank, and the shared ports are the slave's. -/
theorem port_routed_collecting :
    ∃ p, Pool.run (whole Setting.orderly Board.described) collecting ⟨St.loaded, []⟩ = some p ∧
      p.shared.mutex = some 3 ∧ p.shared.SlaveSide := by
  have hrun : (Pool.run (whole Setting.orderly Board.described) collecting ⟨St.loaded, []⟩).any (fun p =>
      p.shared.asf.active && p.shared.ghost.drain.isSome &&
        readsNext p 3 (asfIndex Board.described.auxSmba)) = true := by decide +kernel
  obtain ⟨p, hp, hstate⟩ := (Option.any_eq_true _ _).mp hrun
  simp only [Bool.and_eq_true] at hstate
  obtain ⟨⟨hactive, hdrain⟩, hreads⟩ := hstate
  obtain ⟨call, hnext⟩ := readsNext_some hreads
  have hrouted := port_routed rfl rfl ⟨St.loaded, collecting, St.loaded_unbound _, hp⟩ hactive hnext
  exact ⟨p, hp, hrouted.alone rfl, hrouted.drain rfl hdrain⟩

end HostNotify
