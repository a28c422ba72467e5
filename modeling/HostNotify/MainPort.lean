import HostNotify.Operations
import HostNotify.Transaction

/-!
# Transfers on the main port

`piix4_access_sb800` shares nothing with the target block but DecodeEn. It selects its port
there by byte accesses under the FCH PM region, so that what it writes back is what it read,
apart from the two port bits, and it restores these before it gives the region up.
-/

namespace HostNotify

open Bits Interleaving

variable {k : Setting} {b : Board} {s s' : St} {t : ℕ} {call : Call}

/-! ## Everything but DecodeEn -/

/-- The port is none of the target block's. -/
def HostPort (b : Board) (port : ℕ) : Prop := decode b.auxSmba port = none

/-- The operation stays outside the target block and DecodeEn. -/
def Op.Harmless (b : Board) : Op → Prop
  | .requestMuxedRegion _ _ => True
  | .releaseRegion _ _ => True
  | o => o.Plain (HostPort b)

/-- Plain operations of the main port are harmless to the target. -/
theorem Op.Plain.harmless {o : Op} (h : o.Plain (HostPort b)) : o.Harmless b := by
  cases o <;> first | exact h | exact trivial

/-- Such an operation only concerns I/O regions. -/
theorem Op.Harmless.regions {o : Op} {r : o.Ans} (h : o.Harmless b)
    (he : exec b t o s = some (r, s')) : 
      ∃ windows muxed, s' = s.setHoldings windows muxed s.gsiHeld s.granted := by
  cases o with
  | inb port =>
    have hread : s.portRead b port = (r, s') := Option.some.inj he
    rw [St.portRead_host s h] at hread
    exact ⟨s.windows, s.muxed, (Prod.mk.inj hread).2.symm⟩
  | outb v port =>
    have hwrite : s.portWrite b t v port = s' := (Prod.mk.inj (Option.some.inj he)).2
    rw [St.portWrite_host s t v h] at hwrite
    exact ⟨s.windows, s.muxed, hwrite.symm⟩
  | requestMuxedRegion start len =>
    simp only [exec] at he
    split at he
    · cases he
    · split at he
      · exact ⟨s.windows, s.muxed, (Prod.mk.inj (Option.some.inj he)).2.symm⟩
      · exact ⟨s.windows, _, (Prod.mk.inj (Option.some.inj he)).2.symm⟩
  | releaseRegion start len => exact ⟨_, _, (Prod.mk.inj (Option.some.inj he)).2.symm⟩
  | usleepRange lo hi => exact ⟨s.windows, s.muxed, (Prod.mk.inj (Option.some.inj he)).2.symm⟩
  | dynamicDebug => exact ⟨s.windows, s.muxed, (Prod.mk.inj (Option.some.inj he)).2.symm⟩
  | _ => exact absurd h id

/-- Harmless operations need no check. -/
theorem Check.of_harmless {o : Op} (h : o.Harmless b) : Check k b call o s := by
  cases o with
  | outb v port =>
    have hport : decode b.auxSmba port = none := h
    exact .of_port (by simp [hport]) (by simp [hport])
  | inb | requestMuxedRegion | releaseRegion | usleepRange | dynamicDebug =>
    exact .of_other (by simp) (by simp)
  | _ => exact absurd h id

/-- Code that stays outside keeps what holds under interference. -/
theorem harmless_spec {A : Type} {p : Driver A} {P : St → Prop} (hP : (rules k b call t).Stable P)
    (hp : p.AllOps (Op.Harmless b)) : Triple (rules k b call t) P p fun _ => P := by
  refine Triple.of_allOps hP hp fun o s ho hs hPs _ => ⟨.of_harmless ho, fun r s' he => ?_⟩
  obtain ⟨windows, muxed, rfl⟩ := ho.regions he
  have hown : OwnStep k t s (s.setHoldings windows muxed s.gsiHeld s.granted) := .holdings ..
  exact ⟨fun u hu => Or.inr (hown.foreign hu), hown.inv hs, setHoldings_of_stable _ _ _ _ hP hs hPs⟩

/-! ## The ports of the main adapter -/

/-- The main port's registers are none of the target's. -/
theorem permits_main (b : Board) : Permits (HostPort b) b.mainSmba := by
  intro i hi
  unfold HostPort decode Board.auxSmba Board.mainSmba
  rw [if_pos (by omega)]

/-- The ports of the embedded controller are none of the target's registers. -/
theorem hostPort_imc : HostPort b imcIdx ∧ HostPort b imcData := by
  have hpage : ∀ base, decode (base * 256 + 0x20) 0x3e = none ∧ decode (base * 256 + 0x20) 0x3f = none := by
    intro base
    rcases Nat.eq_zero_or_pos base with rfl | hpos
    · decide
    · unfold decode
      rw [if_pos (by omega), if_pos (by omega)]
      exact ⟨rfl, rfl⟩
  exact hpage b.smbaEnHi

/-- The index ports are none of the target's registers. -/
theorem hostPort_index : HostPort b 0xcd6 ∧ HostPort b 0xcd7 := by
  have hlow : ∀ base ≤ 12, decode (base * 256 + 0x20) 0xcd6 = none ∧
      decode (base * 256 + 0x20) 0xcd7 = none := by decide
  have hpage : ∀ base, decode (base * 256 + 0x20) 0xcd6 = none ∧
      decode (base * 256 + 0x20) 0xcd7 = none := by
    intro base
    by_cases hbase : base ≤ 12
    · exact hlow base hbase
    · unfold decode
      rw [if_pos (by omega), if_pos (by omega)]
      exact ⟨rfl, rfl⟩
  exact hpage b.smbaEnHi

/-- Reading such a port is harmless. -/
theorem inb_harmless {port : ℕ} (h : HostPort b port) : (inb port).AllOps (Op.Harmless b) :=
  ⟨h, fun _ => trivial⟩

/-- Writing a port that is none of the target's registers is harmless. -/
theorem outb_harmless {port : ℕ} (v : Byte) (h : HostPort b port) :
    (outb v port).AllOps (Op.Harmless b) := ⟨h, fun _ => trivial⟩

/-- Waiting for the controller is plain. -/
theorem pollImc_plain (left : ℕ) : (pollImc left).AllOps (Op.Plain (HostPort b)) := by
  induction left with
  | zero => exact trivial
  | succ left ih =>
    have hread : (piix4ImcRead 0x82).AllOps (Op.Plain (HostPort b)) :=
      Prog.AllOps.bind ⟨hostPort_imc.1, fun _ => trivial⟩ fun _ => ⟨hostPort_imc.2, fun _ => trivial⟩
    refine Prog.AllOps.bind hread fun v => ?_
    split
    · exact trivial
    · exact Prog.AllOps.bind ⟨trivial, fun _ => trivial⟩ fun _ => ih

/-- Writing to the controller is plain. -/
theorem piix4ImcWrite_plain (idx v : Byte) : (piix4ImcWrite idx v).AllOps (Op.Plain (HostPort b)) :=
  Prog.AllOps.bind ⟨hostPort_imc.1, fun _ => trivial⟩ fun _ => ⟨hostPort_imc.2, fun _ => trivial⟩

/-- Plain code is harmless. -/
theorem allOps_harmless {A : Type} {p : Driver A} (hp : p.AllOps (Op.Plain (HostPort b))) :
    p.AllOps (Op.Harmless b) := hp.mono fun _ h => h.harmless

/-- Putting the controller to sleep is harmless. -/
theorem piix4ImcSleep_harmless : piix4ImcSleep.AllOps (Op.Harmless b) := by
  refine Prog.AllOps.bind ⟨trivial, fun _ => trivial⟩ fun got => ?_
  cases got with
  | false => exact trivial
  | true =>
    refine Prog.AllOps.bind (allOps_harmless (piix4ImcWrite_plain _ _)) fun _ => ?_
    refine Prog.AllOps.bind (allOps_harmless (piix4ImcWrite_plain _ _)) fun _ => ?_
    refine Prog.AllOps.bind (allOps_harmless (piix4ImcWrite_plain _ _)) fun _ => ?_
    refine Prog.AllOps.bind (allOps_harmless (pollImc_plain _)) fun _ => ?_
    exact Prog.AllOps.bind ⟨trivial, fun _ => trivial⟩ fun _ => trivial

/-- Waking the controller is harmless. -/
theorem piix4ImcWakeup_harmless : piix4ImcWakeup.AllOps (Op.Harmless b) := by
  refine Prog.AllOps.bind ⟨trivial, fun _ => trivial⟩ fun got => ?_
  cases got with
  | false => exact trivial
  | true =>
    refine Prog.AllOps.bind (allOps_harmless (piix4ImcWrite_plain _ _)) fun _ => ?_
    refine Prog.AllOps.bind (allOps_harmless (piix4ImcWrite_plain _ _)) fun _ => ?_
    refine Prog.AllOps.bind (allOps_harmless (piix4ImcWrite_plain _ _)) fun _ => ?_
    refine Prog.AllOps.bind (allOps_harmless (pollImc_plain _)) fun _ => ?_
    exact ⟨trivial, fun _ => trivial⟩

/-! ## The port selection -/

/-- Byte 2 of DecodeEn is its bits 16 to 23. -/
theorem getLsbD_setPmByte (d : BitVec 32) (v : Byte) (i : ℕ) :
    (setPmByte d v 2).getLsbD i = if 16 ≤ i ∧ i < 24 then v.getLsbD (i - 16) else d.getLsbD i := by
  unfold setPmByte
  rw [if_pos (by decide)]
  have hmask : ((0xFF : BitVec 32) <<< (8 * 2)).getLsbD i = decide (16 ≤ i ∧ i < 24) := by
    have hall : ∀ i < 32, ((0xFF : BitVec 32) <<< (8 * 2)).getLsbD i = decide (16 ≤ i ∧ i < 24) := by
      decide
    by_cases hi : i < 32
    · exact hall i hi
    · rw [BitVec.getLsbD_of_ge _ _ (by omega)]
      simp
      omega
  rw [BitVec.getLsbD_or, BitVec.getLsbD_and, BitVec.getLsbD_not, hmask, BitVec.getLsbD_shiftLeft,
    BitVec.getLsbD_setWidth]
  by_cases hi : 16 ≤ i ∧ i < 24
  · simp [hi, show i < 32 by omega, show ¬ i < 16 by omega, show i - 16 < 32 by omega]
  · rw [if_neg hi]
    by_cases hlow : i < 16
    · simp [hi, hlow, show i < 32 by omega]
    · by_cases hhigh : i < 32
      · have hbig : v.getLsbD (i - 16) = false := BitVec.getLsbD_of_ge _ _ (by omega)
        simp [hi, hbig, hhigh]
      · simp [hhigh, BitVec.getLsbD_of_ge d i (by omega)]

/-- Byte 2 of DecodeEn reads as its bits 16 to 23. -/
theorem getLsbD_pmByte (d : BitVec 32) (bus : Byte) (i : ℕ) :
    (pmByte d bus 2).getLsbD i = (decide (i < 8) && d.getLsbD (16 + i)) := by
  unfold pmByte
  rw [if_pos (by decide), BitVec.getLsbD_setWidth, BitVec.getLsbD_ushiftRight]

/-- Byte 2 of DecodeEn. -/
def portByte (d : BitVec 32) : Byte := pmByte d 0 2

/-- Byte 2 of DecodeEn is the byte in which a port is selected. -/
theorem pmByte_eq_portByte (d : BitVec 32) (bus : Byte) : pmByte d bus 2 = portByte d := rfl

/-- DecodeEn with another port selected. -/
def selectPort (d : BitVec 32) (port : Byte) : BitVec 32 :=
  setPmByte d ((portByte d &&& ~~~PortGlobals.kerncz.mask) ||| port) 2

/-- The port bits of the selection. -/
def selectedPort (d : BitVec 32) : Byte := portByte d &&& PortGlobals.kerncz.mask

/-- Writing back what has been read changes nothing. -/
theorem setPmByte_same (d : BitVec 32) : setPmByte d (portByte d) 2 = d := by
  refine BitVec.eq_of_getLsbD_eq fun i hi => ?_
  rw [getLsbD_setPmByte]
  unfold portByte
  by_cases hbyte : 16 ≤ i ∧ i < 24
  · rw [if_pos hbyte, getLsbD_pmByte, decide_eq_true (by omega), Bool.true_and]
    congr 1
    omega
  · rw [if_neg hbyte]

/-- Only the port bits of DecodeEn change. -/
theorem getLsbD_selectPort {port : Byte} (hport : port &&& ~~~PortGlobals.kerncz.mask = 0)
    (d : BitVec 32) {i : ℕ} (hi : i ≠ 19 ∧ i ≠ 20) :
    (selectPort d port).getLsbD i = d.getLsbD i := by
  unfold selectPort
  rw [getLsbD_setPmByte]
  by_cases hbyte : 16 ≤ i ∧ i < 24
  · obtain ⟨j, rfl⟩ : ∃ j, i = 16 + j := ⟨i - 16, by omega⟩
    have hmask : PortGlobals.kerncz.mask.getLsbD j = false := by
      have hall : ∀ j < 8, j ≠ 3 ∧ j ≠ 4 → PortGlobals.kerncz.mask.getLsbD j = false := by decide
      exact hall j (by omega) ⟨by omega, by omega⟩
    have hclear : port.getLsbD j = false := by
      have hbit : (port &&& ~~~PortGlobals.kerncz.mask).getLsbD j = (0 : Byte).getLsbD j := by
        rw [hport]
      rw [BitVec.getLsbD_and, BitVec.getLsbD_not, hmask] at hbit
      simpa [show j < 8 by omega] using hbit
    rw [if_pos hbyte, Nat.add_sub_cancel_left, BitVec.getLsbD_or, BitVec.getLsbD_and,
      BitVec.getLsbD_not, hmask, hclear, portByte, getLsbD_pmByte]
    simp [show j < 8 by omega]
  · rw [if_neg hbyte]

/-- Selecting the old port again restores the register. -/
theorem selectPort_restore {port : Byte} (hport : port &&& ~~~PortGlobals.kerncz.mask = 0)
    (d : BitVec 32) : selectPort (selectPort d port) (selectedPort d) = d := by
  refine BitVec.eq_of_getLsbD_eq fun i hi => ?_
  have hprev : selectedPort d &&& ~~~PortGlobals.kerncz.mask = 0 := by
    unfold selectedPort
    rw [BitVec.and_assoc]
    simp
  by_cases hsel : i ≠ 19 ∧ i ≠ 20
  · rw [getLsbD_selectPort hprev _ hsel, getLsbD_selectPort hport _ hsel]
  · obtain ⟨j, hj, hmask, rfl⟩ : ∃ j, j < 8 ∧ PortGlobals.kerncz.mask.getLsbD j = true ∧ i = 16 + j := by
      rcases not_and_or.mp hsel with h | h
      · exact ⟨3, by decide, by decide, not_not.mp h⟩
      · exact ⟨4, by decide, by decide, not_not.mp h⟩
    have hbyte : 16 ≤ 16 + j ∧ 16 + j < 24 := by omega
    have hold : (portByte d).getLsbD j = d.getLsbD (16 + j) := by
      rw [portByte, getLsbD_pmByte, decide_eq_true hj, Bool.true_and]
    rw [selectPort, getLsbD_setPmByte, if_pos hbyte, Nat.add_sub_cancel_left, BitVec.getLsbD_or,
      BitVec.getLsbD_and, BitVec.getLsbD_not, hmask, selectedPort, BitVec.getLsbD_and, hmask, hold]
    simp only [Bool.not_true, Bool.and_false, Bool.false_or, Bool.and_true]

/-- The holder of the region knows DecodeEn and what it read, as long as firmware keeps away. -/
def Mode (t : ℕ) (d : BitVec 32) (φ : Prop) (s : St) : Prop :=
  s.region = some t ∧ (s.ghost.touched = false → s.hw.decodeEn = d ∧ φ)

/-- A weaker fact about the selected port is known as well. -/
theorem Mode.mono {d d' : BitVec 32} {φ ψ : Prop} (h : Mode t d φ s) (hd : φ → d = d' ∧ ψ) :
    Mode t d' ψ s :=
  ⟨h.1, fun ht => ⟨(h.2 ht).1.trans (hd (h.2 ht).2).1, (hd (h.2 ht).2).2⟩⟩

/-- No event but firmware's changes DecodeEn. -/
theorem react_decodeEn {e : Event} (h : react k b e s = some s')
    (hsmba : s.irq.requested = true → s.asf.smba = b.auxSmba) (htouched : s'.ghost.touched = false) :
    s.ghost.touched = false ∧ s'.hw.decodeEn = s.hw.decodeEn := by
  cases e with
  | hardIrq =>
    obtain ⟨_, _, rfl | ⟨_, ⟨_, rfl⟩ | ⟨_, rfl⟩⟩⟩ := hardIrq_cases h hsmba
    · exact ⟨htouched, rfl⟩
    · exact ⟨htouched, rfl⟩
    · cases hr : s.hw.slven[4] with
      | false =>
        rw [mask_eq_of_running hr] at htouched ⊢
        exact ⟨htouched, rfl⟩
      | true =>
        rw [mask_eq_of_reset hr] at htouched ⊢
        exact ⟨htouched, rfl⟩
  | firmware hw =>
    simp only [react, Option.ite_none_right_eq_some, Option.some.injEq] at h
    obtain ⟨_, rfl⟩ := h
    cases htouched
  | world w =>
    simp only [react, Option.ite_none_right_eq_some, Option.some.injEq] at h
    obtain ⟨_, rfl⟩ := h
    exact ⟨htouched, rfl⟩
  | receive i data rwptr =>
    simp only [react, Option.ite_none_right_eq_some, Option.some.injEq] at h
    obtain ⟨_, rfl⟩ := h
    exact ⟨htouched, Target.setBank_decodeEn _ _ _⟩
  | rxError errors signal =>
    simp only [react, Option.ite_none_right_eq_some, Option.some.injEq] at h
    obtain ⟨_, rfl⟩ := h
    exact ⟨htouched, rfl⟩
  | stick i =>
    simp only [react, Option.ite_none_right_eq_some, Option.some.injEq] at h
    obtain ⟨_, rfl⟩ := h
    exact ⟨htouched, Target.setBank_decodeEn _ _ _⟩

/-- With the region held the selection stays as it is. -/
theorem stable_mode (d : BitVec 32) (φ : Prop) : (rules k b call t).Stable (Mode t d φ) := by
  intro s s' hs h hr _
  rcases hr with ⟨e, he⟩ | hf
  · refine ⟨(react_frame he hs.smba).region.trans h.1, fun htouched => ?_⟩
    obtain ⟨hold, hsame⟩ := react_decodeEn he hs.smba htouched
    exact ⟨hsame.trans (h.2 hold).1, (h.2 hold).2⟩
  · obtain ⟨hregion, hsame, htouched⟩ := hf.region h.1
    exact ⟨hregion, fun ht => ⟨hsame.trans (h.2 (htouched ▸ ht)).1, (h.2 (htouched ▸ ht)).2⟩⟩

/-- The selection is read. -/
theorem ioread8_spec (d : BitVec 32) (φ : Prop) :
    Triple (rules k b call t) (Mode t d φ) (ioread8 2) fun v => Mode t d (φ ∧ v = portByte d) := by
  refine own_op (fun _ => stable_mode _ _) fun s _ hP _ =>
    ⟨.of_other (by simp) (by simp), fun v s' he => ?_⟩
  obtain ⟨rfl, rfl⟩ := Prod.mk.inj (Option.some.inj he)
  exact ⟨OwnStep.refl s, hP.1, fun ht => ⟨(hP.2 ht).1, (hP.2 ht).2, by
    rw [pmByte_eq_portByte, (hP.2 ht).1]⟩⟩

/-- Writing back the byte that was read, with another port in it. -/
theorem iowrite8_spec {port v : Byte} (hport : port &&& ~~~PortGlobals.kerncz.mask = 0)
    (d : BitVec 32) (φ : Prop) :
    Triple (rules k b call t) (Mode t d (φ ∧ v = portByte d))
      (iowrite8 ((v &&& ~~~PortGlobals.kerncz.mask) ||| port) 2)
      fun _ => Mode t (selectPort d port) (φ ∧ v = portByte d) := by
  refine own_op (fun _ => stable_mode _ _) fun s _ hP _ =>
    ⟨.of_other (by simp) (by simp), fun _ s' he => ?_⟩
  obtain rfl := (Prod.mk.inj (Option.some.inj he)).2
  have hvalue : s.ghost.touched = false →
      setPmByte s.hw.decodeEn ((v &&& ~~~PortGlobals.kerncz.mask) ||| port) 2 = selectPort d port := by
    intro ht
    rw [(hP.2 ht).1, (hP.2 ht).2.2, selectPort]
  refine ⟨?_, hP.1, fun ht => ⟨hvalue ht, (hP.2 ht).2⟩⟩
  exact {
    life := rfl
    irq := rfl
    asf := rfl
    world := rfl
    deliverOk := rfl
    auxAdapter := rfl
    owed := fun _ _ => rfl
    region := fun u hu hr => absurd (Option.some.inj (hr.symm.trans hP.1)) hu
    mutex := rfl
    block := by
      refine Or.inr (Or.inr ⟨rfl, fun ht => ⟨ht, ?_, ?_⟩, rfl, rfl, rfl, rfl, rfl, rfl, rfl, rfl,
        rfl, rfl⟩)
      · change (setPmByte s.hw.decodeEn _ 2).getLsbD 16 = s.hw.decodeEn.getLsbD 16
        rw [hvalue ht, (hP.2 ht).1, getLsbD_selectPort hport d (by decide)]
      · change (setPmByte s.hw.decodeEn _ 2).getLsbD 17 = s.hw.decodeEn.getLsbD 17
        rw [hvalue ht, (hP.2 ht).1, getLsbD_selectPort hport d (by decide)]
    listening := fun hl => Or.inr hl
    pending := id
    sound := fun h => ⟨h.errorless, fun i => by cases i <;> exact h.unstuck _⟩
    intact := fun _ h => h.congr (fun i => by cases i <;> rfl) rfl rfl rfl h.reset }

/-- `piix4_sb800_port_sel` over MMIO. -/
theorem portSel_spec {port : Byte} (hport : port &&& ~~~PortGlobals.kerncz.mask = 0)
    (d : BitVec 32) (φ : Prop) :
    Triple (rules k b call t) (Mode t d φ) (piix4Sb800PortSel PortGlobals.kerncz true port)
      fun r s => r &&& ~~~PortGlobals.kerncz.mask = 0 ∧
        Mode t (selectPort d port) (φ ∧ r = selectedPort d) s := by
  have hmask : ∀ v : Byte, (v &&& PortGlobals.kerncz.mask) &&& ~~~PortGlobals.kerncz.mask = 0 := by
    intro v
    rw [BitVec.and_assoc]
    simp
  have hselected : ∀ v, v = portByte d → v &&& PortGlobals.kerncz.mask = selectedPort d := by
    intro v hv
    rw [hv, selectedPort]
  refine Triple.bind (ioread8_spec d φ) fun v => ?_
  by_cases hsame : v ≠ (v &&& ~~~PortGlobals.kerncz.mask) ||| port
  · rw [if_pos hsame]
    refine Triple.bind (iowrite8_spec hport d φ) fun _ => Triple.ret fun s _ h => ⟨hmask v, ?_⟩
    exact h.mono fun hv => ⟨rfl, hv.1, hselected v hv.2⟩
  · rw [if_neg hsame]
    refine Triple.ret fun s _ h => ⟨hmask v, h.mono fun hv => ⟨?_, hv.1, hselected v hv.2⟩⟩
    have hbyte : (portByte d &&& ~~~PortGlobals.kerncz.mask) ||| port = portByte d := by
      rw [← hv.2]
      exact (not_not.mp hsame).symm
    rw [selectPort, hbyte, setPmByte_same]

/-! ## A whole transfer -/

section Whole

variable {a : MainAdapter} {x : SmbusXfer}

/-- Asking for the bus by the semaphore is plain. -/
theorem requestSemaphore_plain (hsmba : a.smba = b.mainSmba) (left : ℕ) (v : Byte) :
    (requestSemaphore a.smba left v).AllOps (Op.Plain (HostPort b)) := by
  have hport : HostPort b (smbSlvCnt a.smba) := by
    rw [hsmba]
    exact permits_main b 8 le_rfl
  induction left generalizing v with
  | zero => exact trivial
  | succ left ih =>
    refine Prog.AllOps.bind ⟨hport, fun _ => trivial⟩ fun _ => ?_
    refine Prog.AllOps.bind ⟨hport, fun _ => trivial⟩ fun cnt => ?_
    split
    · exact trivial
    · exact Prog.AllOps.bind ⟨trivial, fun _ => trivial⟩ fun _ => ih cnt

/-- Asking for the bus by the semaphore is harmless. -/
theorem requestSemaphore_harmless (hsmba : a.smba = b.mainSmba) (left : ℕ) (v : Byte) :
    (requestSemaphore a.smba left v).AllOps (Op.Harmless b) :=
  allOps_harmless (requestSemaphore_plain hsmba left v)

/-- An access with the controller asleep is harmless. -/
theorem notifyImc_harmless : (notifyImc a x).AllOps (Op.Harmless b) := by
  unfold notifyImc
  split
  · exact Prog.AllOps.bind piix4ImcSleep_harmless fun _ => trivial
  · exact trivial

/-- An SMBus access on the main port is harmless. -/
theorem piix4Access_harmless (hx : x.smba = b.mainSmba) : (piix4Access x).AllOps (Op.Harmless b) :=
  allOps_harmless (piix4Access_plain (hx ▸ permits_main b))

/-- Without MMIO the port is selected through the index register. -/
theorem portSel_harmless (port : Byte) :
    (piix4Sb800PortSel PortGlobals.kerncz false port).AllOps (Op.Harmless b) := by
  refine Prog.AllOps.bind (outb_harmless _ hostPort_index.1) fun _ => ?_
  refine Prog.AllOps.bind (inb_harmless hostPort_index.2) fun lo => ?_
  dsimp only
  split
  · exact Prog.AllOps.bind (outb_harmless _ hostPort_index.2) fun _ => trivial
  · exact trivial

/-- `piix4_access_sb800` without MMIO. -/
theorem accessIndexed_harmless (hsmba : a.smba = b.mainSmba) (hx : x.smba = b.mainSmba)
    (hindexed : a.useMmio = false) :
    (piix4AccessSb800 PortGlobals.kerncz a x).AllOps (Op.Harmless b) := by
  have hport : HostPort b (smbSlvCnt a.smba) := by
    rw [hsmba]
    exact permits_main b 8 le_rfl
  have hrelease : (piix4Sb800RegionRelease false).AllOps (Op.Harmless b) := ⟨trivial, fun _ => trivial⟩
  unfold piix4AccessSb800 accessSb800With
  rw [hindexed]
  have hrequest : (piix4Sb800RegionRequest false).AllOps (Op.Harmless b) := by
    refine Prog.AllOps.bind ⟨trivial, fun _ => trivial⟩ fun got => ?_
    cases got <;> exact trivial
  refine Prog.AllOps.bind hrequest fun r => ?_
  split
  · exact trivial
  · refine Prog.AllOps.bind (inb_harmless hport) fun cnt => ?_
    refine Prog.AllOps.bind (requestSemaphore_harmless hsmba _ _) fun got => ?_
    cases got with
    | none => exact Prog.AllOps.bind hrelease fun _ => trivial
    | some cnt =>
      refine Prog.AllOps.bind notifyImc_harmless fun imc => ?_
      refine Prog.AllOps.bind (portSel_harmless _) fun prev => ?_
      refine Prog.AllOps.bind (piix4Access_harmless hx) fun res => ?_
      refine Prog.AllOps.bind (portSel_harmless _) fun _ => ?_
      refine Prog.AllOps.bind (outb_harmless _ hport) fun _ => ?_
      split
      · exact Prog.AllOps.bind piix4ImcWakeup_harmless fun _ =>
          Prog.AllOps.bind hrelease fun _ => trivial
      · exact Prog.AllOps.bind hrelease fun _ => trivial

/-- Code that stays outside keeps the selected port. -/
theorem mode_spec {A : Type} {p : Driver A} (hp : p.AllOps (Op.Harmless b)) (d : BitVec 32)
    (φ : Prop) : Triple (rules k b call t) (Mode t d φ) p fun _ => Mode t d φ :=
  harmless_spec (stable_mode d φ) hp

/-- Giving the region up after the transfer. -/
theorem endMode_spec (d : BitVec 32) (φ : Prop) :
    Triple (rules k b call t) (Mode t d φ) (piix4Sb800RegionRelease true) fun _ _ => True :=
  releaseMemRegion_spec (Discipline.Stable.const True) (fun _ h => h.1) fun _ _ => trivial

/-- `piix4_access_sb800` over MMIO. -/
theorem accessMmio_spec (hsmba : a.smba = b.mainSmba) (hx : x.smba = b.mainSmba)
    (hmmio : a.useMmio = true) (hport : a.port &&& ~~~PortGlobals.kerncz.mask = 0) :
    Triple (rules k b call t) (fun _ => True) (piix4AccessSb800 PortGlobals.kerncz a x)
      fun _ _ => True := by
  have hslv : HostPort b (smbSlvCnt a.smba) := by
    rw [hsmba]
    exact permits_main b 8 le_rfl
  unfold piix4AccessSb800 accessSb800With
  rw [hmmio]
  have hrequest : Triple (rules k b call t) (fun _ => True) (piix4Sb800RegionRequest true)
      fun r s => (r = 0 ∧ ∃ d, Mode t d True s) ∨ (r ≠ 0 ∧ ¬ False ∧ True) := by
    refine regionRequest_spec (Discipline.Stable.const True)
      (Discipline.Stable.exists fun d => stable_mode d True)
      (fun s _ _ => ⟨s.hw.decodeEn, rfl, fun _ => ⟨rfl, trivial⟩⟩) (fun s h => ?_)
      (fun _ _ => trivial) nofun nofun
    obtain ⟨d, h⟩ := h
    exact h.1
  refine Triple.bind hrequest fun r => ?_
  by_cases hr : r = 0
  · rw [if_neg (not_not.mpr hr)]
    refine Triple.pre (P := fun s => ∃ d, Mode t d True s) ?_
      fun s _ h => (h.resolve_right fun h' => h'.1 hr).2
    refine Triple.exists_pre fun d => ?_
    refine Triple.bind (mode_spec (inb_harmless hslv) d True) fun cnt => ?_
    refine Triple.bind (mode_spec (requestSemaphore_harmless hsmba _ _) d True) fun got => ?_
    cases got with
    | none => exact Triple.bind (endMode_spec d True) fun _ => Triple.ret fun _ _ h => h
    | some cnt =>
      refine Triple.bind (mode_spec notifyImc_harmless d True) fun imc => ?_
      refine Triple.bind (portSel_spec hport d True) fun prev => Triple.pure_pre fun hprev => ?_
      refine Triple.bind (mode_spec (piix4Access_harmless hx) _ _) fun res => ?_
      refine Triple.bind (portSel_spec hprev _ _) fun _ => Triple.pure_pre fun _ => ?_
      -- the old port is selected again, unless firmware has been there
      refine Triple.pre (P := Mode t d True) ?_ fun s _ h => h.mono fun hv => ⟨?_, trivial⟩
      · refine Triple.bind (mode_spec (outb_harmless _ hslv) d True) fun _ => ?_
        have hend : Triple (rules k b call t) (Mode t d True)
            (do
              piix4Sb800RegionRelease true
              pure (res.1, res.2, imc)) fun _ _ => True :=
          Triple.bind (endMode_spec d True) fun _ => Triple.ret fun _ _ h => h
        dsimp only
        split
        · exact Triple.bind (mode_spec piix4ImcWakeup_harmless d True) fun _ => hend
        · exact hend
      · rw [hv.1.2, selectPort_restore hport]
  · rw [if_pos hr]
    exact Triple.ret fun _ _ _ => trivial

/-- `piix4_access_sb800` on a main port follows the rules. -/
theorem piix4AccessSb800_spec (hsmba : a.smba = b.mainSmba) (hx : x.smba = b.mainSmba)
    (hport : a.port &&& ~~~PortGlobals.kerncz.mask = 0) :
    Triple (rules k b call t) (fun _ => True) (piix4AccessSb800 PortGlobals.kerncz a x)
      fun _ _ => True := by
  cases hmmio : a.useMmio with
  | true => exact accessMmio_spec hsmba hx hmmio hport
  | false =>
    exact harmless_spec (Discipline.Stable.const True)
      (accessIndexed_harmless hsmba hx hmmio)

end Whole

end HostNotify
