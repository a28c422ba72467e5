import HostNotify.Steps

/-!
# Register accesses under the mutex

The effect of each register write on the holder's view, and from it one specification
per register helper of the driver: the view advances by the matching update of the
control state, and whatever else the thread knows privately is kept.
-/

namespace HostNotify

open Bits Interleaving

variable {k : Setting} {b : Board} {c : Control} {s s' : St} {t : ℕ} {v : Byte}

/-! ## Writes and the view -/

/-- The state after thread `t` wrote a register. -/
def St.written (s : St) (t : ℕ) (v : Byte) (r : Reg) : St :=
  { s with hw := s.hw.write v r, ghost := s.ghost.afterWrite t s.hw v r }

/-- A write to the slave's registers leaves DecodeEn alone. -/
@[simp] theorem write_decodeEn (h : Target) (r : Reg) : (h.write v r).decodeEn = h.decodeEn := by
  cases r <;> simp only [Target.write, Target.clearFlags]
  split <;> rfl

/-- A write does not count as touching the block. -/
@[simp] theorem afterWrite_touched (g : Ghost) (h : Target) (r : Reg) :
    (g.afterWrite t h v r).touched = g.touched := by
  cases r <;> simp only [Ghost.afterWrite]
  split <;> rfl

/-- A write neither begins nor ends a drain. -/
@[simp] theorem afterWrite_drain (g : Ghost) (h : Target) (r : Reg) :
    (g.afterWrite t h v r).drain = g.drain := by
  cases r <;> simp only [Ghost.afterWrite]
  split <;> rfl

/-- The view of the registers under a new control state. -/
theorem SeesRegs.update {c' : Control} (h : SeesRegs c s) (hlisaddr : s'.hw.lisaddr = c'.lisaddr)
    (hslven : s'.hw.slven = s.hw.slven) (hbnksel : getElem s'.hw.bnksel 7 (fits rfl) = c'.dataEn)
    (hmstr : ∀ v, c'.mstr = some v → s'.ghost.touched = false ∧ getElem s'.hw.decodeEn 16 (fits rfl) = v)
    (hclk : ∀ v, c'.clk = some v → s'.ghost.touched = false ∧ getElem s'.hw.decodeEn 17 (fits rfl) = v)
    (hrst : c'.rst = c.rst) (hintr : c'.intr = c.intr) (hlisten : c'.listening = c.listening) :
    SeesRegs c' s' where
  lisaddr := hlisaddr
  rst := by rw [hslven, hrst]; exact h.rst
  dataEn := hbnksel
  mstr := hmstr
  clk := hclk
  intrOn := by rw [hslven, hintr, hlisten]; exact h.intrOn
  intrOff := by rw [hslven, hintr]; exact h.intrOff

/-- The listening address is seen as it was written. -/
theorem Sees.write_lisaddr (h : Sees c s) : Sees (c.setLisaddr v) (s.written t v .lisaddr) where
  regs := h.regs.update rfl rfl h.regs.dataEn h.regs.mstr h.regs.clk rfl rfl rfl
  record := ⟨h.record.debt, h.record.flushed, h.record.erred, h.record.resetting⟩
  signalled hc ha hl i hi := by
    simp only [Control.setLisaddr, Bool.and_eq_true, Bool.or_eq_true, Bool.not_eq_true'] at hc
    cases hacc : c.accepting with
    | true => exact h.signalled hc.1 hacc hl i hi
    | false => exact absurd (hi.symm.trans (h.empty hc.1 hacc i)) (by decide)
  empty hc ha i := by
    simp only [Control.setLisaddr, Bool.and_eq_true, Bool.or_eq_true, Bool.not_eq_true'] at hc
    refine h.empty hc.1 ?_ i
    rcases hc.2 with hacc | hv
    · exact hacc
    · simp only [Control.accepting, Control.setLisaddr, hv, Bool.true_and, Bool.not_eq_false'] at ha
      simp [Control.accepting, ha]
  kept := h.kept
  calm hc := ⟨(h.calm hc).rdptr, (h.calm hc).reading, (h.calm hc).got⟩

/-- The status is seen cleared. -/
theorem Sees.write_slvsta (h : Sees c s) : Sees c.clearSlvSta (s.written t v .slvsta) where
  regs := h.regs.update h.regs.lisaddr rfl h.regs.dataEn h.regs.mstr h.regs.clk rfl rfl rfl
  record := ⟨h.record.debt, nofun, h.record.erred, h.record.resetting⟩
  signalled := h.signalled
  empty := h.empty
  kept := h.kept
  calm hc := ⟨(h.calm hc).rdptr, (h.calm hc).reading, (h.calm hc).got⟩

/-- Writing zero to ASFSTA acknowledges nothing. -/
theorem Sees.write_sta_zero (h : Sees c s) : Sees c (s.written t 0 .sta) where
  regs := h.regs.congr rfl rfl rfl fun h => ⟨h, rfl, rfl⟩
  record := h.record
  signalled hc ha hl i hi := by
    rcases h.signalled hc ha hl i hi with hsta | hdue
    · left
      simpa [St.written, Target.write] using hsta
    · exact Or.inr hdue
  empty := h.empty
  kept := h.kept
  calm hc := ⟨(h.calm hc).rdptr, (h.calm hc).reading, (h.calm hc).got⟩

/-- Acknowledging the status bit leaves nothing signalled while messages may arrive. -/
theorem Sees.write_sta (h : Sees c s) : Sees c.ackSta (s.written t v .sta) where
  regs := h.regs.update h.regs.lisaddr rfl h.regs.dataEn h.regs.mstr h.regs.clk rfl rfl rfl
  record := ⟨h.record.debt, h.record.flushed, h.record.erred, h.record.resetting⟩
  signalled hc ha _ _ _ := by
    simp only [Control.ackSta, Bool.and_eq_true, Bool.not_eq_true'] at hc
    have hacc : c.accepting = true := ha
    exact absurd (hacc.symm.trans hc.2) (by decide)
  empty hc ha i := by
    simp only [Control.ackSta, Bool.and_eq_true] at hc
    exact h.empty hc.1 ha i
  kept := h.kept
  calm hc := ⟨(h.calm hc).rdptr, (h.calm hc).reading, (h.calm hc).got⟩

/-- A control write to ASFDATABNKSEL with both flags zero consumes nothing. -/
theorem Sees.write_bnksel (h : Sees c s) (h2 : getElem v 2 (fits rfl) = false)
    (h3 : getElem v 3 (fits rfl) = false) :
    Sees (c.setDataEn (getElem v 7 (fits rfl))) (s.written t v .bnksel) := by
  have hclear : s.hw.clearFlags v = s.hw := by simp [Target.clearFlags, h2, h3]
  have hhw : (s.written t v .bnksel).hw = { s.hw with bnksel := v &&& ~~~asfBnkFull } := by
    simp [St.written, Target.write, hclear]
  have hbank : ∀ i, (s.written t v .bnksel).hw.bank i = s.hw.bank i := by
    intro i
    rw [hhw]
    cases i <;> rfl
  exact {
    regs := h.regs.update (by rw [hhw]; exact h.regs.lisaddr) (by rw [hhw])
      (by rw [hhw]; simp [Control.setDataEn]) (by rw [hhw]; exact h.regs.mstr)
      (by rw [hhw]; exact h.regs.clk) rfl rfl rfl
    record := ⟨h.record.debt, h.record.flushed, h.record.erred, h.record.resetting⟩
    signalled := fun hc ha hl i hi => by
      rw [hbank] at hi
      rw [hhw]
      exact h.signalled hc ha hl i hi
    empty := fun hc ha i => by
      rw [hbank]
      exact h.empty hc ha i
    kept := fun hk i hu => by
      rw [hbank] at hu ⊢
      exact h.kept hk i hu
    calm := fun hc => by
      obtain ⟨hptr, hread, hgot⟩ := h.calm hc
      refine ⟨by rw [hhw]; exact hptr, by rw [hhw]; exact hread, fun i => ?_⟩
      rw [hbank]
      exact hgot i }

/-- Knowing less about the banks is no mistake. -/
theorem Sees.relax {clean kept calm debt flushed : Bool} (h : Sees c s)
    (hclean : clean = true → c.clean = true) (hkept : kept = true → c.kept = true)
    (hcalm : calm = true → c.calm = true) (hdebt : c.debt = true → debt = true)
    (hflushed : c.flushed = true → flushed = true) :
    Sees { c with clean := clean, kept := kept, calm := calm, debt := debt, flushed := flushed }
      s where
  regs := ⟨h.regs.lisaddr, h.regs.rst, h.regs.dataEn, h.regs.mstr, h.regs.clk, h.regs.intrOn,
    h.regs.intrOff⟩
  record := ⟨fun hd => hdebt (h.record.debt hd), fun hf => hflushed (h.record.flushed hf),
    h.record.erred, h.record.resetting⟩
  signalled hc := h.signalled (hclean hc)
  empty hc := h.empty (hclean hc)
  kept hk := h.kept (hkept hk)
  calm hc := h.calm (hcalm hc)

/-- A write to ASFSLVEN sets or clears the reset, and the interrupt enable with it. -/
theorem Sees.write_slven {i : Option Bool} (h : Sees c s)
    (hon : i = some true → c.listening = true → getElem v 1 (fits rfl) = true)
    (hoff : i = some false → getElem v 1 (fits rfl) = false) :
    Sees { c.setRst (getElem v 4 (fits rfl)) with intr := i } (s.written t v .slven) := by
  cases hv : v[4] with
  | true =>
    have hwritten : s.written t v .slven = { s with
        hw := { s.hw.slaveReset with slven := v }
        ghost := { s.ghost with debt := false, flushed := false } } := by
      simp [St.written, Target.write, Ghost.afterWrite, hv]
    rw [hwritten]
    exact {
      regs := ⟨h.regs.lisaddr, hv, h.regs.dataEn, h.regs.mstr, h.regs.clk, hon, hoff⟩
      record := ⟨(by intros; contradiction), (by intros; contradiction), h.record.erred, h.record.resetting⟩
      signalled := fun _ ha => by simp [Control.accepting, Control.setRst] at ha
      empty := fun _ _ j => Target.slaveReset_full _ j
      kept := fun _ j hu => by
        have hread := Target.slaveReset_unread s.hw j
        exact absurd (hu.symm.trans hread) (by decide)
      calm := fun _ => ⟨rfl, rfl, fun j => Target.slaveReset_got _ j⟩ }
  | false =>
    have hwritten : s.written t v .slven = { s with hw := { s.hw with slven := v } } := by
      simp [St.written, Target.write, Ghost.afterWrite, hv]
    rw [hwritten]
    exact {
      regs := ⟨h.regs.lisaddr, hv, h.regs.dataEn, h.regs.mstr, h.regs.clk, hon, hoff⟩
      record := ⟨h.record.debt, h.record.flushed, h.record.erred, h.record.resetting⟩
      signalled := fun hc _ hl j hj => by
        cases hacc : c.accepting with
        | true => exact h.signalled hc hacc hl j hj
        | false => exact absurd (hj.symm.trans (h.empty hc hacc j)) (by decide)
      empty := fun hc ha j => by
        refine h.empty hc ?_ j
        have hlistn : c.lisaddr[0] = false := by
          simpa [Control.accepting, Control.setRst] using ha
        simp [Control.accepting, hlistn]
      kept := h.kept
      calm := fun hc => ⟨(h.calm hc).rdptr, (h.calm hc).reading, (h.calm hc).got⟩ }

/-- A write that keeps the reset bit only sets the interrupt enable. -/
theorem Sees.write_slven_intr (h : Sees c s) (hrst : getElem v 4 (fits rfl) = c.rst) :
    Sees (c.setIntr (getElem v 1 (fits rfl))) (s.written t v .slven) := by
  have hw : Sees { c.setRst v[4] with intr := some v[1] } (s.written t v .slven) :=
    h.write_slven (fun hi _ => Option.some.inj hi) Option.some.inj
  rw [hrst] at hw
  cases hr : c.rst with
  | false =>
    rw [hr] at hw
    have heq : c.setIntr v[1] = { c.setRst false with intr := some v[1] } := by
      simp [Control.setIntr, Control.setRst, hr]
    rw [heq]
    exact hw
  | true =>
    rw [hr] at hw
    have heq : c.setIntr v[1] = { { c.setRst true with intr := some v[1] } with
        clean := c.clean, kept := c.kept, calm := c.calm, debt := c.debt, flushed := c.flushed } := by
      simp [Control.setIntr, Control.setRst, hr]
    rw [heq]
    exact hw.relax (fun _ => rfl) (fun _ => rfl) (fun _ => rfl) (fun hd => by cases hd)
      fun hf => by cases hf

/-- Replacing DecodeEn changes the two mode bits. -/
theorem Sees.write_decodeEn {d : BitVec 32} {mstr clk : Option Bool} (h : Sees c s)
    (htouched : s.ghost.touched = false) (hmstr : ∀ v, mstr = some v → getElem d 16 (fits rfl) = v)
    (hclk : ∀ v, clk = some v → getElem d 17 (fits rfl) = v) :
    Sees { c with mstr := mstr, clk := clk } (s.writeDecodeEn d) where
  regs := ⟨h.regs.lisaddr, h.regs.rst, h.regs.dataEn, fun v hv => ⟨htouched, hmstr v hv⟩,
    fun v hv => ⟨htouched, hclk v hv⟩, h.regs.intrOn, h.regs.intrOff⟩
  record := ⟨h.record.debt, h.record.flushed, h.record.erred, h.record.resetting⟩
  signalled := h.signalled
  empty := h.empty
  kept := h.kept
  calm hc := ⟨(h.calm hc).rdptr, (h.calm hc).reading, (h.calm hc).got⟩

/-! ## Register writes as own steps -/

/-- A write leaves alone the messages owed to other threads. -/
theorem written_owed (s : St) (r : Reg) {u : ℕ} (hu : u ≠ t) :
    (s.written t v r).ghost.owed u = s.ghost.owed u := by
  cases r <;> simp only [St.written, Ghost.afterWrite]
  · simp [hu]
  · split <;> rfl

/-- The driver only ever clears ASFSLVSTA. -/
theorem Sound.written {r : Reg} (h : Sound s) (hv : r = .slvsta → v = 0) :
    Sound (s.written t v r) := by
  obtain ⟨herror, hstuck⟩ := h
  cases r with
  | slvsta =>
    rw [hv rfl]
    exact ⟨by simp [St.written, Target.write], hstuck⟩
  | slven =>
    cases hv : v[4] with
    | true =>
      have hhw : (s.written t v .slven).hw = { s.hw.slaveReset with slven := v } := by
        simp [St.written, Target.write, hv]
      exact ⟨by rw [hhw]; simp [Target.slaveReset], fun i => by rw [hhw]; cases i <;> rfl⟩
    | false =>
      have hhw : (s.written t v .slven).hw = { s.hw with slven := v } := by
        simp [St.written, Target.write, hv]
      exact ⟨by rw [hhw]; exact herror, fun i => by rw [hhw]; exact hstuck i⟩
  | bnksel =>
    refine ⟨herror, fun i => ?_⟩
    have hi := hstuck i
    cases i <;>
      simp only [St.written, Target.write, Target.clearFlags, Target.bank, Bank.consume,
        Bool.false_eq_true, if_false, if_true] at hi ⊢ <;>
      split <;> exact hi
  | setrdptr =>
    refine ⟨herror, fun i => ?_⟩
    cases i with
    | false => exact hstuck false
    | true => exact hstuck true
  | _ => exact ⟨herror, hstuck⟩

/-- A register write under the mutex is an own step. -/
theorem OwnStep.written {r : Reg} (hm : s.mutex = some t) (hv : r = .slvsta → v = 0)
    (hintact : k.Tidy → Intact s → Intact (s.written t v r)) :
    OwnStep k t s (s.written t v r) where
  life := rfl
  irq := rfl
  asf := rfl
  world := rfl
  deliverOk := rfl
  auxAdapter := rfl
  owed _ hu := written_owed s r hu
  region _ _ hr := ⟨hr, write_decodeEn _ _, afterWrite_touched _ _ _⟩
  mutex := rfl
  block := Or.inl hm
  listening hl := Or.inr hl
  pending := id
  sound h := h.written hv
  intact := hintact

/-- Writes that reset nothing and clear no flag leave the messages where they are. -/
theorem Intact.congr (h : Intact s) (hbank : ∀ i, s'.hw.bank i = s.hw.bank i)
    (hlost : s'.hw.lost = s.hw.lost) (hdrain : s'.ghost.drain = s.ghost.drain)
    (hactive : s'.asf.active = s.asf.active)
    (hreset : getElem s'.hw.slven 4 (fits rfl) = true → ∀ i, (s.hw.bank i).unread = false) : Intact s' where
  lost := hlost.trans h.lost
  orphan i hu := by
    rw [hbank] at hu ⊢
    rw [hdrain]
    exact h.orphan i hu
  reset hr i := by
    rw [hbank]
    exact hreset hr i
  inactive ha i := by
    rw [hbank]
    exact h.inactive (hactive ▸ ha) i

/-- A write to a register that holds neither reset nor flags. -/
theorem Intact.written {r : Reg} (h : Intact s) (hslven : r ≠ .slven) (hbnksel : r ≠ .bnksel)
    (hrdptr : r ≠ .setrdptr) : Intact (s.written t v r) := by
  cases r with
  | slven => exact absurd rfl hslven
  | bnksel => exact absurd rfl hbnksel
  | setrdptr => exact absurd rfl hrdptr
  | _ => exact h.congr (fun i => by cases i <;> rfl) rfl rfl rfl h.reset

/-- A reset of banks without unread messages, or none at all. -/
theorem Intact.written_slven (h : Intact s)
    (hnone : getElem v 4 (fits rfl) = true → ∀ i, (s.hw.bank i).unread = false) :
    Intact (s.written t v .slven) := by
  cases hv : v[4] with
  | true =>
    have hhw : (s.written t v .slven).hw = { s.hw.slaveReset with slven := v } := by
      simp [St.written, Target.write, hv]
    have hunread : ∀ i, ((s.written t v .slven).hw.bank i).unread = false := by
      intro i
      rw [hhw]
      exact Target.slaveReset_unread s.hw i
    refine ⟨?_, fun i hu => ?_, fun _ => hunread, fun _ => hunread⟩
    · rw [hhw]
      exact Target.slaveReset_lost h.lost (hnone hv)
    · exact absurd (hu.symm.trans (hunread i)) (by decide)
  | false =>
    have hhw : (s.written t v .slven).hw = { s.hw with slven := v } := by
      simp [St.written, Target.write, hv]
    refine h.congr (fun i => ?_) ?_ (afterWrite_drain _ _ _) rfl fun hr => ?_
    · rw [hhw]
      cases i <;> rfl
    · rw [hhw]
    · rw [hhw] at hr
      exact absurd (hr.symm.trans hv) (by decide)

/-- A control write to ASFDATABNKSEL with both flags zero. -/
theorem Intact.written_bnksel (h : Intact s) (h2 : getElem v 2 (fits rfl) = false)
    (h3 : getElem v 3 (fits rfl) = false) :
    Intact (s.written t v .bnksel) := by
  have hclear : s.hw.clearFlags v = s.hw := by simp [Target.clearFlags, h2, h3]
  have hhw : (s.written t v .bnksel).hw = { s.hw with bnksel := v &&& ~~~asfBnkFull } := by
    simp [St.written, Target.write, hclear]
  refine h.congr (fun i => ?_) (by rw [hhw]) (afterWrite_drain _ _ _) rfl fun hr => ?_
  · rw [hhw]
    cases i <;> rfl
  · rw [hhw] at hr
    exact h.reset hr

/-- A register write advances the view. -/
theorem View.written {r : Reg} {c' : Control} (h : View k (some t) c s)
    (hsees : k.firmware = false ∨ c.want = true → Sees c s → Sees c' (s.written t v r))
    (hlisten : c'.listening = c.listening) (hwant : c'.want = c.want)
    (hheld : c'.held = c.held) : View k (some t) c' (s.written t v r) where
  holder := h.holder
  engaged := h.engaged
  listening := h.listening.trans hlisten.symm
  want := h.want.trans hwant.symm
  held hc := h.held (hheld ▸ hc)
  fresh hc hk := (afterWrite_touched _ _ _).trans (h.fresh (hheld ▸ hc) (hwant ▸ hk))
  sees hk := hsees (hwant ▸ hk) (h.sees (hwant ▸ hk))

/-! ## Specifications of single operations -/

/-- The holder's view together with what the thread knows privately. -/
def Holds (k : Setting) (t : ℕ) (c : Control) (Q : St → Prop) (s : St) : Prop :=
  View k (some t) c s ∧ Q s

variable {call : Call} {Q : St → Prop}

/-- What the holder of the mutex knows is stable. -/
theorem stable_holds (hQ : Private t Q) : (rules k b call t).Stable (Holds k t c Q) :=
  (stable_view c).and (stable_private hQ)

/-- An operation all of whose effects are own steps establishes what it leaves. -/
theorem own_op {o : Op} {P : St → Prop} {M : o.Ans → St → Prop}
    (hM : ∀ r, (rules k b call t).Stable (M r))
    (hop : ∀ s, Inv k b s → P s → k.admits call o s = true → Check k b call o s ∧
      ∀ r s', exec b t o s = some (r, s') → OwnStep k t s s' ∧ M r s') :
    Triple (rules k b call t) P (perform o) M :=
  Triple.perform hM fun s hs hP hmay => by
    obtain ⟨hcheck, hstep⟩ := hop s hs hP hmay
    refine ⟨hcheck, fun r s' he => ?_⟩
    obtain ⟨hown, hM'⟩ := hstep r s' he
    exact ⟨fun u hu => Or.inr (hown.foreign hu), hown.inv hs, hM'⟩

/-- Reading a register other than the data window changes nothing. -/
theorem read_eq {r : Reg} (hr : r ≠ .index) (h : Target) (bus : Byte) : (h.read bus r).2 = h := by
  cases r <;> first | rfl | exact absurd rfl hr

/-- A step that changes nothing. -/
theorem OwnStep.refl (s : St) : OwnStep k t s s where
  life := rfl
  irq := rfl
  asf := rfl
  world := rfl
  deliverOk := rfl
  auxAdapter := rfl
  owed _ _ := rfl
  region _ _ h := ⟨h, rfl, rfl⟩
  mutex := rfl
  block := Or.inr (Or.inr (SameBlock.refl s))
  listening hl := Or.inr hl
  pending := id
  sound := id
  intact _ := id

/-- Reading a register: the value is what the view says it is. -/
theorem inb_spec {port : ℕ} {r : Reg} {F : Byte → Prop} (hQ : Private t Q)
    (hport : decode b.auxSmba port = some r) (hr : r ≠ .index)
    (hfact : ∀ s, Inv k b s → Holds k t c Q s → F (s.hw.read s.world.bus r).1) :
    Triple (rules k b call t) (Holds k t c Q) (inb port)
      fun v s => F v ∧ Holds k t c Q s := by
  refine own_op (fun v => (Discipline.Stable.const _).and (stable_holds hQ)) fun s hs hP _ => ?_
  refine ⟨.of_other (by simp) (by simp), fun v s' he => ?_⟩
  simp only [exec, St.portRead_reg s hport, read_eq hr, Option.some.injEq, Prod.mk.injEq] at he
  obtain ⟨rfl, rfl⟩ := he
  exact ⟨OwnStep.refl s, hfact s hs hP, hP⟩

/-- Writing a register under the mutex advances the view. -/
theorem outb_spec {port : ℕ} {r : Reg} {c' : Control} (hQ : Private t Q)
    (hport : decode b.auxSmba port = some r) (hv : r = .slvsta → v = 0)
    (hcheck : ∀ s, Inv k b s → Holds k t c Q s → Check k b call (.outb v port) s)
    (hintact : ∀ s, Inv k b s → Holds k t c Q s → k.Tidy → Intact (s.written t v r))
    (howed : ∀ s : St, (s.written t v r).ghost.owed t = s.ghost.owed t)
    (hsees : k.firmware = false ∨ c.want = true → ∀ s, Sees c s → Sees c' (s.written t v r))
    (hlisten : c'.listening = c.listening)
    (hwant : c'.want = c.want) (hheld : c'.held = c.held) :
    Triple (rules k b call t) (Holds k t c Q) (outb v port) fun _ => Holds k t c' Q := by
  refine own_op (fun _ => stable_holds hQ) fun s hs hP _ => ⟨hcheck s hs hP, fun _ s' he => ?_⟩
  simp only [exec, St.portWrite_reg s t v hport, Option.some.injEq, Prod.mk.injEq] at he
  obtain ⟨_, rfl⟩ := he
  have hown : OwnStep k t s (s.written t v r) :=
    OwnStep.written hP.1.holder hv fun ht _ => hintact s hs hP ht
  exact ⟨hown, hP.1.written (fun hk => hsees hk s) hlisten hwant hheld, hQ _ _ (hown.keeps (howed s)) hP.2⟩

/-! ## Register helpers -/

/-- When the slave is reset, its banks are known to hold nothing unread. -/
structure Spares (k : Setting) (call : Call) (c : Control) (Q : St → Prop) : Prop where
  tidy : k.Tidy → (c.clean = true ∧ c.accepting = false ∧ c.kept = true) ∨
    ∀ s, Q s → s.asf.active = false
  guards : k.Guards call → c.clean = true ∧ c.accepting = false

/-- A tidy setting knows the firmware to keep away. -/
theorem Setting.Tidy.known (h : k.Tidy) : k.firmware = false := h.1.2.2

/-- A reset that spares the banks finds none unread. -/
theorem Spares.unread {b : Board} (h : Spares k call c Q) (ht : k.Tidy) (hinv : Inv k b s)
    (hP : Holds k t c Q s) (i : Bool) : (s.hw.bank i).unread = false := by
  rcases h.tidy ht with ⟨hclean, hacc, hkept⟩ | hinactive
  · have hsees := hP.1.sees (Or.inl ht.known)
    cases hu : (s.hw.bank i).unread with
    | false => rfl
    | true =>
      exact absurd ((hsees.kept hkept i hu).symm.trans (hsees.empty hclean hacc i)) (by decide)
  · exact (hinv.intact ht).inactive (hinactive s hP.2) i

/-- A reset that spares the banks finds none full. -/
theorem Spares.full (h : Spares k call c Q) (hg : k.Guards call) (hP : Holds k t c Q s)
    (i : Bool) : (s.hw.bank i).full = false := by
  obtain ⟨hclean, hacc⟩ := h.guards hg
  exact (hP.1.sees (Or.inl hg.1.2.2)).empty hclean hacc i

/-- The check at a write to ASFSLVEN. -/
theorem Check.of_slven {port : ℕ} (hport : decode b.auxSmba port = some .slven)
    (hfull : k.Guards call → getElem v 4 (fits rfl) = true → ∀ i, (s.hw.bank i).full = false) :
    Check k b call (.outb v port) s where
  arm _ h := by cases h
  reset hg v' port' h _ hv i := by
    cases h
    rw [hfull hg hv i]
    rfl
  consume _ _ v' port' h hd := by
    cases h
    rw [hport] at hd
    cases hd

/-- The check at a write to ASFDATABNKSEL that clears no flag. -/
theorem Check.of_bnksel {port : ℕ} (hport : decode b.auxSmba port = some .bnksel)
    (h2 : getElem v 2 (fits rfl) = false) (h3 : getElem v 3 (fits rfl) = false) :
    Check k b call (.outb v port) s where
  arm _ h := by cases h
  reset _ v' port' h hd := by
    cases h
    rw [hport] at hd
    cases hd
  consume _ _ v' port' h _ := by
    cases h
    left
    intro i hi
    cases i
    · simp [Target.flagBit, h2] at hi
    · simp [Target.flagBit, h3] at hi

section Helpers

variable (hQ : Private t Q)
include hQ

/-- `ASF_SLV_LISTN` in ASFLISADDR. -/
theorem updateListn_spec (set : Bool) :
    Triple (rules k b call t) (Holds k t c Q)
      (piix4AsfUpdateIoport asfSlvListn (asfLisAddr b.auxSmba) set)
      fun _ => Holds k t (c.setListn set) Q := by
  refine Triple.bind (inb_spec (r := .lisaddr)
    (F := fun r => k.firmware = false ∨ c.want = true → r = c.lisaddr) hQ
    (decode_asfLisAddr _) (by simp) fun s _ hP hk => (hP.1.sees hk).regs.lisaddr) fun r => ?_
  refine Triple.pure_pre fun hr => ?_
  refine outb_spec hQ (decode_asfLisAddr _) (by simp) (fun s _ _ => .of_port (by simp) (by simp))
    (fun s hs _ ht => (hs.intact ht).written (by simp) (by simp) (by simp)) (fun s => rfl)
    (fun hk s h => ?_) rfl rfl rfl
  rw [hr hk]
  exact h.write_lisaddr

/-- Reading ASFSLVEN before it is written back. -/
theorem readSlvEn_spec :
    Triple (rules k b call t) (Holds k t c Q) (inb (asfSlvEn b.auxSmba)) fun r s =>
      (k.firmware = false ∨ c.want = true → getElem r 4 (fits rfl) = c.rst ∧
        (c.intr = some true → c.listening = true → getElem r 1 (fits rfl) = true) ∧
        (c.intr = some false → getElem r 1 (fits rfl) = false)) ∧ Holds k t c Q s :=
  inb_spec hQ (decode_asfSlvEn _) (by simp) fun s _ hP hk =>
    ⟨(hP.1.sees hk).regs.rst, (hP.1.sees hk).regs.intrOn, (hP.1.sees hk).regs.intrOff⟩

/-- `ASF_SLV_INTR` in ASFSLVEN; the reset bit is written back as it is. -/
theorem updateIntr_spec (set : Bool) (hclean : k.Guards call → c.rst = true → c.clean = true) :
    Triple (rules k b call t) (Holds k t c Q)
      (piix4AsfUpdateIoport asfSlvIntr (asfSlvEn b.auxSmba) set)
      fun _ => Holds k t (c.setIntr set) Q := by
  refine Triple.bind (readSlvEn_spec hQ) fun r => Triple.pure_pre fun hr => ?_
  have hreset : (assignBit asfSlvIntr r set)[4] = r[4] := by simp
  have hset : (assignBit asfSlvIntr r set)[1] = set := by simp
  refine outb_spec hQ (decode_asfSlvEn _) (by simp) (fun s _ hP => ?_) (fun s hs hP ht => ?_)
    (fun s => by simp [St.written, Ghost.afterWrite]; split <;> rfl) (fun hk s h => ?_) rfl rfl rfl
  · refine .of_slven (decode_asfSlvEn _) fun hg hv i => ?_
    have hrst : c.rst = true := by rw [← (hr (Or.inl hg.1.2.2)).1, ← hreset, hv]
    refine (hP.1.sees (Or.inl hg.1.2.2)).empty (hclean hg hrst) ?_ i
    simp [Control.accepting, hrst]
  · refine (hs.intact ht).written_slven fun hv => (hs.intact ht).reset ?_
    rw [(hP.1.sees (Or.inl ht.known)).regs.rst, ← (hr (Or.inl ht.known)).1, ← hreset, hv]
  · have hw := h.write_slven_intr (t := t) (v := assignBit asfSlvIntr r set)
      (hreset.trans (hr hk).1)
    rw [hset] at hw
    exact hw

/-- Setting `ASF_SLV_RST` in ASFSLVEN. -/
theorem setRst_spec (hspares : Spares k call c Q) :
    Triple (rules k b call t) (Holds k t c Q)
      (piix4AsfUpdateIoport asfSlvRst (asfSlvEn b.auxSmba) true)
      fun _ => Holds k t (c.setRst true) Q := by
  refine Triple.bind (readSlvEn_spec hQ) fun r => Triple.pure_pre fun hr => ?_
  have hreset : (assignBit asfSlvRst r true)[4] = true := by simp
  have hintr : (assignBit asfSlvRst r true)[1] = r[1] := by simp
  refine outb_spec hQ (decode_asfSlvEn _) (by simp) (fun s _ hP => ?_) (fun s hs hP ht => ?_)
    (fun s => by simp [St.written, Ghost.afterWrite]) (fun hk s h => ?_) rfl rfl rfl
  · exact .of_slven (decode_asfSlvEn _) fun hg _ i => hspares.full hg hP i
  · exact (hs.intact ht).written_slven fun _ i => hspares.unread ht hs hP i
  · have hw := h.write_slven (t := t) (v := assignBit asfSlvRst r true) (i := c.intr)
      (by rw [hintr]; exact (hr hk).2.1) (by rw [hintr]; exact (hr hk).2.2)
    rw [hreset] at hw
    exact hw

/-- Clearing `ASF_SLV_RST` in ASFSLVEN. -/
theorem clearRst_spec :
    Triple (rules k b call t) (Holds k t c Q)
      (piix4AsfUpdateIoport asfSlvRst (asfSlvEn b.auxSmba) false)
      fun _ => Holds k t (c.setRst false) Q := by
  refine Triple.bind (readSlvEn_spec hQ) fun r => Triple.pure_pre fun hr => ?_
  have hreset : (assignBit asfSlvRst r false)[4] = false := by simp
  have hintr : (assignBit asfSlvRst r false)[1] = r[1] := by simp
  refine outb_spec hQ (decode_asfSlvEn _) (by simp) (fun s _ _ => ?_) (fun s hs _ ht => ?_)
    (fun s => by simp [St.written, Ghost.afterWrite]) (fun hk s h => ?_) rfl rfl rfl
  · refine .of_slven (decode_asfSlvEn _) fun _ hv => ?_
    exact absurd (hv.symm.trans hreset) (by decide)
  · refine (hs.intact ht).written_slven fun hv => ?_
    exact absurd (hv.symm.trans hreset) (by decide)
  · have hw := h.write_slven (t := t) (v := assignBit asfSlvRst r false) (i := c.intr)
      (by rw [hintr]; exact (hr hk).2.1) (by rw [hintr]; exact (hr hk).2.2)
    rw [hreset] at hw
    exact hw

/-- The slave status is cleared. -/
theorem clearSlvSta_spec :
    Triple (rules k b call t) (Holds k t c Q) (outb 0 (asfSlvSta b.auxSmba))
      fun _ => Holds k t c.clearSlvSta Q :=
  outb_spec hQ (decode_asfSlvSta _) (by simp) (fun _ _ _ => .of_port (by simp) (by simp))
    (fun _ hs _ ht => (hs.intact ht).written (by simp) (by simp) (by simp)) (fun _ => rfl)
    (fun _ _ h => h.write_slvsta) rfl rfl rfl

/-- `piix4_asf_clear_status` acknowledges what the status registers hold. -/
theorem clearStatus_spec :
    Triple (rules k b call t) (Holds k t c Q) (piix4AsfClearStatus b.auxSmba)
      fun _ => Holds k t c.clearSlvSta.ackSta Q := by
  refine Triple.bind (clearSlvSta_spec hQ) fun _ => ?_
  refine Triple.bind (outb_spec hQ (decode_asfSta _) (by simp) (fun _ _ _ => .of_port (by simp) (by simp))
    (fun _ hs _ ht => (hs.intact ht).written (by simp) (by simp) (by simp)) (fun _ => rfl)
    (fun _ _ h => h.write_sta_zero) rfl rfl rfl) fun _ => ?_
  exact outb_spec hQ (decode_asfSta _) (by simp) (fun _ _ _ => .of_port (by simp) (by simp))
    (fun _ hs _ ht => (hs.intact ht).written (by simp) (by simp) (by simp)) (fun _ => rfl)
    (fun _ _ h => h.write_sta) rfl rfl rfl

/-- `piix4_asf_bnksel_data_en` writes both full flags as zero. -/
theorem bnkselDataEn_spec (set : Bool) :
    Triple (rules k b call t) (Holds k t c Q) (piix4AsfBnkselDataEn b.auxSmba set)
      fun _ => Holds k t (c.setDataEn set) Q := by
  refine Triple.bind (inb_spec (r := .bnksel) (F := fun _ => True) hQ (decode_asfDataBnkSel _)
    (by simp) fun _ _ _ => trivial) fun r => Triple.pure_pre fun _ => ?_
  have h2 : (assignBit asfBnkDataEn (r &&& ~~~asfBnkFull) set)[2] = false := by simp
  have h3 : (assignBit asfBnkDataEn (r &&& ~~~asfBnkFull) set)[3] = false := by simp
  have h7 : (assignBit asfBnkDataEn (r &&& ~~~asfBnkFull) set)[7] = set := by simp
  refine outb_spec hQ (decode_asfDataBnkSel _) (by simp) (fun s _ _ => .of_bnksel (decode_asfDataBnkSel _) h2 h3)
    (fun _ hs _ ht => (hs.intact ht).written_bnksel h2 h3) (fun s => ?_) (fun _ s h => ?_) rfl rfl rfl
  · simp only [St.written, Ghost.afterWrite, Target.taken]
    simp
  · have hw := h.write_bnksel (t := t) h2 h3
    rw [h7] at hw
    exact hw

/-- The full write to ASFLISADDR. -/
theorem writeLisaddr_spec (v : Byte) :
    Triple (rules k b call t) (Holds k t c Q) (outb v (asfLisAddr b.auxSmba))
      fun _ => Holds k t (c.setLisaddr v) Q :=
  outb_spec hQ (decode_asfLisAddr _) (by simp) (fun _ _ _ => .of_port (by simp) (by simp))
    (fun _ hs _ ht => (hs.intact ht).written (by simp) (by simp) (by simp)) (fun _ => rfl)
    (fun _ _ h => h.write_lisaddr) rfl rfl rfl

end Helpers

end HostNotify
