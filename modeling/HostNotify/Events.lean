import HostNotify.View

/-!
# Events keep the invariant

What one run of the hard handler does, and that no event of the environment falsifies
the mutex holder's view or the invariant.
-/

namespace HostNotify

open Bits Interleaving

/-! ## The hard handler as one step -/

/-- The handler acknowledges the status bit. -/
def St.ack (s : St) : St := { s with hw := s.hw.write (s.hw.sta ||| bit asfStaSlvInt) .sta }

/-- The handler wakes the thread. -/
def St.wake (s : St) : St :=
  { s.ack with asf := { s.asf with pending := true }, irq := { s.irq with woken := true } }

/-- The handler masks the source. -/
def St.mask (s : St) : St :=
  { s.ack with
    hw := s.ack.hw.write (assignBit asfSlvIntr s.hw.slven false) .slven
    ghost := s.ghost.afterWrite 0 s.ack.hw (assignBit asfSlvIntr s.hw.slven false) .slven }

/-- The three things one run of the handler can do. -/
theorem hardIrq_cases {b : Board} {s s' : St} (h : hardIrq b s = some s')
    (hsmba : s.irq.requested = true → s.asf.smba = b.auxSmba) :
    s.irq.requested = true ∧ s.irq.masked = false ∧
      (s' = s ∨ (getElem s.hw.sta 6 (fits rfl) = true ∧
        ((s.asf.listening = true ∧ s' = s.wake) ∨ (s.asf.listening = false ∧ s' = s.mask)))) := by
  unfold hardIrq at h
  split at h
  · next hline =>
    simp only [Bool.and_eq_true, Bool.not_eq_true'] at hline
    have hbase := hsmba hline.1
    refine ⟨hline.1, hline.2, ?_⟩
    simp only [piix4AsfIrqHandler, piix4Asf, inb, outb, perform, setAsf, Prog.perform_bind,
      Prog.pure_eq, Prog.runAlone, exec, hbase,
      St.portRead_reg _ (decode_asfSta b.auxSmba), Target.read] at h
    by_cases hsta : s.hw.sta[6] = false
    · left
      simp only [asfStaSlvInt, BitVec.ofNat_eq_ofNat, Nat.reduceLT, and_bit_eq_zero, hsta, if_true,
        Prog.runAlone, exec, hbase, St.portRead_host _ (decode_smbHstSts b.auxSmba)] at h
      split at h <;>
        simpa [Prog.runAlone, exec, hbase, St.portWrite_host] using h.symm
    · right
      refine ⟨by simpa using hsta, ?_⟩
      simp only [asfStaSlvInt, BitVec.ofNat_eq_ofNat, Nat.reduceLT, and_bit_eq_zero, hsta] at h
      cases hlisten : s.asf.listening
      · right
        simp [hlisten, hbase, Prog.runAlone, exec, piix4AsfUpdateIoport, inb, outb, perform,
          Prog.perform, St.portWrite_reg _ _ _ (decode_asfSta b.auxSmba),
          St.portRead_reg _ (decode_asfSlvEn b.auxSmba),
          St.portWrite_reg _ _ _ (decode_asfSlvEn b.auxSmba), Target.read] at h
        exact ⟨rfl, h.symm⟩
      · left
        simp [hlisten, hbase, Prog.runAlone, exec,
          St.portWrite_reg _ _ _ (decode_asfSta b.auxSmba)] at h
        simpa [St.wake, St.ack, Ghost.afterWrite, hlisten, hbase] using h.symm
  · cases h

/-- Out of reset, masking clears the interrupt enable and nothing else. -/
theorem mask_eq_of_running {s : St} (hr : getElem s.hw.slven 4 (fits rfl) = false) :
    s.mask = { s.ack with hw := { s.ack.hw with slven := assignBit 1 s.hw.slven false } } := by
  simp [St.mask, St.ack, Target.write, Ghost.afterWrite, hr]

/-- In reset, masking writes the reset bit back and so resets once more. -/
theorem mask_eq_of_reset {s : St} (hr : getElem s.hw.slven 4 (fits rfl) = true) :
    s.mask = { s.ack with
      hw := { s.ack.hw.slaveReset with slven := assignBit 1 s.hw.slven false }
      ghost := { s.ghost with debt := false, flushed := false } } := by
  simp [St.mask, St.ack, Target.write, Ghost.afterWrite, hr]

/-! ## The block after each event -/

/-- Equal registers and history are seen alike. -/
theorem SeesRegs.congr {c : Control} {s s' : St} (h : SeesRegs c s)
    (hlisaddr : s'.hw.lisaddr = s.hw.lisaddr) (hslven : s'.hw.slven = s.hw.slven)
    (hbnksel : s'.hw.bnksel = s.hw.bnksel)
    (hmode : s.ghost.touched = false → s'.ghost.touched = false ∧
      getElem s'.hw.decodeEn 16 (fits rfl) = getElem s.hw.decodeEn 16 (fits rfl) ∧
        getElem s'.hw.decodeEn 17 (fits rfl) = getElem s.hw.decodeEn 17 (fits rfl)) :
    SeesRegs c s' where
  lisaddr := hlisaddr.trans h.lisaddr
  rst := by rw [hslven]; exact h.rst
  dataEn := by rw [hbnksel]; exact h.dataEn
  mstr v hv := by
    obtain ⟨htouched, hbit⟩ := h.mstr v hv
    exact ⟨(hmode htouched).1, (hmode htouched).2.1.trans hbit⟩
  clk v hv := by
    obtain ⟨htouched, hbit⟩ := h.clk v hv
    exact ⟨(hmode htouched).1, (hmode htouched).2.2.trans hbit⟩
  intrOn := by rw [hslven]; exact h.intrOn
  intrOff := by rw [hslven]; exact h.intrOff

/-- An equal history is covered alike. -/
theorem Recorded.congr {c : Control} {g g' : Ghost} (h : Recorded c g) (hdebt : g'.debt = g.debt)
    (hflushed : g'.flushed = g.flushed) (herred : g'.erred = g.erred)
    (hresetting : g'.resetting = g.resetting) : Recorded c g' where
  debt := by rw [hdebt]; exact h.debt
  flushed := by rw [hflushed]; exact h.flushed
  erred := by rw [herred]; exact h.erred
  resetting := by rw [hresetting]; exact h.resetting

/-- A step that leaves the block to the mutex holder changes nothing the holder sees. -/
theorem Sees.of_sameBlock {c : Control} {s s' : St} (h : Sees c s) (hb : SameBlock s s') :
    Sees c s' := by
  have hbank : ∀ i, s'.hw.bank i = s.hw.bank i := fun i => by rw [hb.hw]; cases i <;> rfl
  have hsta : s'.hw.sta = s.hw.sta := by rw [hb.hw]
  exact {
    regs := h.regs.congr (by rw [hb.hw]) (by rw [hb.hw]) (by rw [hb.hw]) hb.mode
    record := h.record.congr hb.debt hb.flushed hb.erred hb.resetting
    signalled := fun hc ha hl i hi => by
      rw [hbank] at hi
      rw [hsta, hb.pending, hb.due]
      exact h.signalled hc ha hl i hi
    empty := fun hc ha i => by
      rw [hbank]
      exact h.empty hc ha i
    kept := fun hk i hu => by
      rw [hbank] at hu ⊢
      exact h.kept hk i hu
    calm := fun hc => by
      obtain ⟨hptr, hread, hgot⟩ := h.calm hc
      refine ⟨by rw [hb.hw]; exact hptr, by rw [hb.hw]; exact hread, fun i => ?_⟩
      rw [hbank]
      exact hgot i }

/-- Waking the thread hands the signal over from the status bit to the pending flag. -/
theorem Sees.wake {c : Control} {s : St} (h : Sees c s) : Sees c s.wake where
  regs := h.regs.congr rfl rfl rfl fun h => ⟨h, rfl, rfl⟩
  record := h.record
  signalled _ _ _ _ _ := Or.inr ⟨rfl, rfl⟩
  empty := h.empty
  kept := h.kept
  calm hc := ⟨(h.calm hc).rdptr, (h.calm hc).reading, (h.calm hc).got⟩

/-- Masking the source while not listening contradicts nothing that is known. -/
theorem Sees.mask {c : Control} {s : St} (h : Sees c s) (hl : c.listening = false) :
    Sees c s.mask := by
  have hon : c.listening ≠ true := by simp [hl]
  cases hr : s.hw.slven[4] with
  | false =>
    rw [mask_eq_of_running hr]
    exact {
      regs := { h.regs with
        rst := by simpa using h.regs.rst
        intrOn := fun _ hlisten => absurd hlisten hon
        intrOff := fun _ => by simp }
      record := h.record
      signalled := fun _ _ hlisten => absurd hlisten hon
      empty := h.empty
      kept := h.kept
      calm := fun hc => ⟨(h.calm hc).rdptr, (h.calm hc).reading, (h.calm hc).got⟩ }
  | true =>
    rw [mask_eq_of_reset hr]
    exact {
      regs := { h.regs with
        rst := by simpa using h.regs.rst
        intrOn := fun _ hlisten => absurd hlisten hon
        intrOff := fun _ => by simp }
      record := ⟨fun hd => by simp at hd, fun hf => by simp at hf, h.record.erred,
        h.record.resetting⟩
      signalled := fun _ _ hlisten => absurd hlisten hon
      empty := fun _ _ i => Target.slaveReset_full _ i
      kept := fun _ i hu => by
        have hread := Target.slaveReset_unread s.ack.hw i
        exact absurd (hu.symm.trans hread) (by decide)
      calm := fun _ => ⟨rfl, rfl, fun i => Target.slaveReset_got _ i⟩ }

/-- A reception is signalled by the status bit it sets. -/
theorem Sees.receive {c : Control} {s : St} {i unread : Bool} {data : List Byte} {rwptr : Byte}
    {drain : Option ℕ} (h : Sees c s) (hacc : s.hw.accepts i = true) :
    Sees c { s with
      hw := s.hw.receive i data rwptr unread
      ghost := { s.ghost with drain := drain } } := by
  simp only [Target.accepts, Bool.and_eq_true, Bool.not_eq_true'] at hacc
  have hrunning : s.hw.slven[4] = false := hacc.1.2
  have haccept : c.accepting = true := by
    simp only [Control.accepting, ← h.regs.lisaddr, ← h.regs.rst, hacc.1.1, hrunning]
    rfl
  exact {
    regs := h.regs.congr (by simp [Target.receive]) (by simp [Target.receive])
      (by simp [Target.receive]) fun h => ⟨h, by simp [Target.receive], by simp [Target.receive]⟩
    record := h.record.congr rfl rfl rfl rfl
    signalled := fun _ _ _ j _ => Or.inl (by simp [Target.receive])
    empty := fun _ hno => by simp [haccept] at hno
    kept := fun hk j hu => by
      have hj := h.kept hk j
      cases i <;> cases j <;> simp_all [Target.receive, Target.bank, Target.setBank]
    calm := fun hc => by
      obtain ⟨hptr, hread, hgot⟩ := h.calm hc
      refine ⟨by simpa [Target.receive] using hptr, by simpa [Target.receive] using hread,
        fun j => ?_⟩
      have hj := hgot j
      cases i <;> cases j <;> simp_all [Target.receive, Target.bank, Target.setBank] }

/-- A bad reception changes status bits only. -/
theorem Sees.rxError {c : Control} {s : St} {slvsta : Byte} {signal : Bool} (h : Sees c s) :
    Sees c { s with hw := { s.hw with
      slvsta := slvsta
      sta := if signal then s.hw.sta ||| bit asfStaSlvInt else s.hw.sta } } where
  regs := h.regs.congr rfl rfl rfl fun h => ⟨h, rfl, rfl⟩
  record := h.record
  signalled hc ha hl i hi := by
    rcases h.signalled hc ha hl i hi with hsta | hdue
    · left
      cases signal
      · exact hsta
      · simp
    · exact Or.inr hdue
  empty := h.empty
  kept := h.kept
  calm hc := ⟨(h.calm hc).rdptr, (h.calm hc).reading, (h.calm hc).got⟩

/-- A flag that gets stuck stays as it is. -/
theorem Sees.stick {c : Control} {s : St} (h : Sees c s) (i : Bool) :
    Sees c { s with hw := s.hw.setBank i { s.hw.bank i with stuck := true } } := by
  have hbank : ∀ j, ∃ stuck, (s.hw.setBank i { s.hw.bank i with stuck := true }).bank j =
      { s.hw.bank j with stuck := stuck } := by
    intro j
    rw [Target.bank_setBank]
    by_cases hij : i = j
    · subst hij
      exact ⟨true, if_pos rfl⟩
    · exact ⟨(s.hw.bank j).stuck, if_neg hij⟩
  exact {
    regs := h.regs.congr (by simp) (by simp) (by simp) fun h => ⟨h, by simp, by simp⟩
    record := h.record
    signalled := fun hc ha hl j hj => by
      obtain ⟨stuck, hb⟩ := hbank j
      rw [hb] at hj
      simpa using h.signalled hc ha hl j hj
    empty := fun hc ha j => by
      obtain ⟨stuck, hb⟩ := hbank j
      rw [hb]
      exact h.empty hc ha j
    kept := fun hk j hu => by
      obtain ⟨stuck, hb⟩ := hbank j
      rw [hb] at hu ⊢
      exact h.kept hk j hu
    calm := fun hc => by
      obtain ⟨hptr, hread, hgot⟩ := h.calm hc
      refine ⟨by simpa using hptr, by simpa using hread, fun j => ?_⟩
      obtain ⟨stuck, hb⟩ := hbank j
      rw [hb]
      exact hgot j }

/-! ## What every event leaves alone -/

/-- The part of the state that no event touches. -/
structure EventFrame (s s' : St) : Prop where
  mutex : s'.mutex = s.mutex
  region : s'.region = s.region
  life : s'.life = s.life
  deliverOk : s'.deliverOk = s.deliverOk
  auxAdapter : s'.auxAdapter = s.auxAdapter
  owed : s'.ghost.owed = s.ghost.owed
  erred : s'.ghost.erred = s.ghost.erred
  resetting : s'.ghost.resetting = s.ghost.resetting
  asf : s'.asf = { s.asf with pending := s'.asf.pending }
  irq : s'.irq = { s.irq with woken := s'.irq.woken }
  woken : s'.irq.woken = true → s.irq.woken = true ∨
    (s.irq.requested = true ∧ s.asf.listening = true)
  masked : s.irq.masked = true → s'.irq = s.irq ∧ s'.asf = s.asf

namespace EventFrame

variable {s s' : St}

/-- What changes nothing but the hardware is an event of the hardware. -/
theorem of_eq (hmutex : s'.mutex = s.mutex) (hregion : s'.region = s.region)
    (hlife : s'.life = s.life) (hdeliver : s'.deliverOk = s.deliverOk)
    (haux : s'.auxAdapter = s.auxAdapter) (howed : s'.ghost.owed = s.ghost.owed)
    (herred : s'.ghost.erred = s.ghost.erred) (hresetting : s'.ghost.resetting = s.ghost.resetting)
    (hasf : s'.asf = s.asf) (hirq : s'.irq = s.irq) : EventFrame s s' where
  mutex := hmutex
  region := hregion
  life := hlife
  deliverOk := hdeliver
  auxAdapter := haux
  owed := howed
  erred := herred
  resetting := hresetting
  asf := by rw [hasf]
  irq := by rw [hirq]
  woken := fun h => Or.inl (hirq ▸ h)
  masked := fun _ => ⟨hirq, hasf⟩

/-- The interrupt is an event of the hardware. -/
theorem wake (hline : s.irq.requested = true) (hmasked : s.irq.masked = false)
    (hlisten : s.asf.listening = true) : EventFrame s s.wake where
  mutex := rfl
  region := rfl
  life := rfl
  deliverOk := rfl
  auxAdapter := rfl
  owed := rfl
  erred := rfl
  resetting := rfl
  asf := rfl
  irq := rfl
  woken := fun _ => Or.inr ⟨hline, hlisten⟩
  masked := fun h => absurd (h.symm.trans hmasked) (by decide)

/-- Masking the slave is an event of the hardware. -/
theorem mask : EventFrame s s.mask := by
  cases hr : s.hw.slven[4] with
  | false =>
    rw [mask_eq_of_running hr]
    exact of_eq rfl rfl rfl rfl rfl rfl rfl rfl rfl rfl
  | true =>
    rw [mask_eq_of_reset hr]
    exact of_eq rfl rfl rfl rfl rfl rfl rfl rfl rfl rfl

end EventFrame

/-- No event touches more than the block, the pending flag and the wakeup. -/
theorem react_frame {k : Setting} {b : Board} {e : Event} {s s' : St}
    (h : react k b e s = some s') (hsmba : s.irq.requested = true → s.asf.smba = b.auxSmba) :
    EventFrame s s' := by
  cases e with
  | hardIrq =>
    obtain ⟨hline, hmasked, rfl | ⟨_, ⟨hlisten, rfl⟩ | ⟨_, rfl⟩⟩⟩ := hardIrq_cases h hsmba
    · exact .of_eq rfl rfl rfl rfl rfl rfl rfl rfl rfl rfl
    · exact .wake hline hmasked hlisten
    · exact .mask
  | world w =>
    simp only [react, Option.ite_none_right_eq_some, Option.some.injEq] at h
    obtain ⟨_, rfl⟩ := h
    exact .of_eq rfl rfl rfl rfl rfl rfl rfl rfl rfl rfl
  | receive i data rwptr =>
    simp only [react, Option.ite_none_right_eq_some, Option.some.injEq] at h
    obtain ⟨_, rfl⟩ := h
    exact .of_eq rfl rfl rfl rfl rfl rfl rfl rfl rfl rfl
  | rxError errors signal =>
    simp only [react, Option.ite_none_right_eq_some, Option.some.injEq] at h
    obtain ⟨_, rfl⟩ := h
    exact .of_eq rfl rfl rfl rfl rfl rfl rfl rfl rfl rfl
  | stick i =>
    simp only [react, Option.ite_none_right_eq_some, Option.some.injEq] at h
    obtain ⟨_, rfl⟩ := h
    exact .of_eq rfl rfl rfl rfl rfl rfl rfl rfl rfl rfl
  | firmware hw =>
    simp only [react, Option.ite_none_right_eq_some, Option.some.injEq] at h
    obtain ⟨_, rfl⟩ := h
    exact .of_eq rfl rfl rfl rfl rfl rfl rfl rfl rfl rfl

/-- Only firmware in a sleeping system touches DecodeEn. -/
theorem react_touched {k : Setting} {b : Board} {e : Event} {s s' : St}
    (h : react k b e s = some s') (hsmba : s.irq.requested = true → s.asf.smba = b.auxSmba) :
    s'.ghost.touched = s.ghost.touched ∨ (k.firmware = true ∧ s.life.asleep = true) := by
  cases e with
  | hardIrq =>
    obtain ⟨_, _, rfl | ⟨_, ⟨_, rfl⟩ | ⟨_, rfl⟩⟩⟩ := hardIrq_cases h hsmba
    · exact Or.inl rfl
    · exact Or.inl rfl
    · left
      cases hr : s.hw.slven[4] with
      | false => rw [mask_eq_of_running hr]; rfl
      | true => rw [mask_eq_of_reset hr]
  | firmware hw =>
    simp only [react, Option.ite_none_right_eq_some, Bool.and_eq_true] at h
    exact Or.inr h.1.1.1
  | _ =>
    simp only [react, Option.ite_none_right_eq_some, Option.some.injEq] at h
    obtain ⟨_, rfl⟩ := h
    exact Or.inl rfl

/-! ## Views and the invariant after an event -/

variable {k : Setting} {b : Board} {s s' : St}

/-- While the IRQ is requested the base address is that of the aux adapter. -/
theorem Inv.smba (h : Inv k b s) (hline : s.irq.requested = true) : s.asf.smba = b.auxSmba :=
  (h.claimed (h.requested hline)).1

/-- No event falsifies the view of the mutex holder. -/
theorem View.react {o : Option ℕ} {c : Control} {e : Event} (h : View k o c s) (hinv : Inv k b s)
    (he : react k b e s = some s') : View k o c s' := by
  have hframe := react_frame he hinv.smba
  refine {
    holder := hframe.mutex.trans h.holder
    engaged := by
      have := h.engaged
      unfold St.engaged at this ⊢
      rw [hframe.asf, hframe.life]
      exact this
    listening := by rw [hframe.asf]; exact h.listening
    want := by rw [hframe.asf]; exact h.want
    held := fun hc => hframe.region.trans (h.held hc)
    fresh := fun hc hknown => by
      rcases react_touched he hinv.smba with hsame | ⟨hfirm, hasleep⟩
      · exact hsame.trans (h.fresh hc hknown)
      · have hwant := hinv.asleep hasleep
        rw [h.want] at hwant
        simp [hfirm, hwant] at hknown
    sees := fun hknown => ?_ }
  have hsees := h.sees hknown
  cases e with
  | hardIrq =>
    obtain ⟨_, _, rfl | ⟨_, ⟨_, rfl⟩ | ⟨hlisten, rfl⟩⟩⟩ := hardIrq_cases he hinv.smba
    · exact hsees
    · exact hsees.wake
    · exact hsees.mask (h.listening ▸ hlisten)
  | world w =>
    simp only [HostNotify.react, Option.ite_none_right_eq_some, Option.some.injEq] at he
    obtain ⟨_, rfl⟩ := he
    exact ⟨hsees.regs.congr rfl rfl rfl fun h => ⟨h, rfl, rfl⟩, hsees.record, hsees.signalled, hsees.empty, hsees.kept,
      fun hc => ⟨(hsees.calm hc).rdptr, (hsees.calm hc).reading, (hsees.calm hc).got⟩⟩
  | receive i data rwptr =>
    simp only [HostNotify.react, Option.ite_none_right_eq_some, Option.some.injEq,
      Bool.and_eq_true] at he
    obtain ⟨⟨⟨hacc, _⟩, _⟩, rfl⟩ := he
    exact hsees.receive hacc
  | rxError errors signal =>
    simp only [HostNotify.react, Option.ite_none_right_eq_some, Option.some.injEq] at he
    obtain ⟨_, rfl⟩ := he
    exact hsees.rxError
  | stick i =>
    simp only [HostNotify.react, Option.ite_none_right_eq_some, Option.some.injEq] at he
    obtain ⟨_, rfl⟩ := he
    exact hsees.stick i
  | firmware hw =>
    simp only [HostNotify.react, Option.ite_none_right_eq_some, Option.some.injEq,
      Bool.and_eq_true] at he
    obtain ⟨⟨⟨⟨hfirm, hasleep⟩, _⟩, _⟩, rfl⟩ := he
    -- firmware only writes while asleep, and then nothing is known anyway
    have hwant := hinv.asleep hasleep
    rw [h.want] at hwant
    simp [hfirm, hwant] at hknown

/-- A reset of banks without unread messages loses nothing. -/
theorem Target.slaveReset_lost {h : Target} (hlost : h.lost = false)
    (hunread : ∀ i, (h.bank i).unread = false) : h.slaveReset.lost = false := by
  have h0 : h.bank0.unread = false := hunread false
  have h1 : h.bank1.unread = false := hunread true
  simp [Target.slaveReset, hlost, h0, h1]

/-- Masking loses no message: in reset the banks are empty. -/
theorem Intact.mask (h : Intact s) : Intact s.mask := by
  cases hr : s.hw.slven[4] with
  | false =>
    rw [mask_eq_of_running hr]
    refine ⟨h.lost, h.orphan, fun hreset => ?_, h.inactive⟩
    simp [hr] at hreset
  | true =>
    rw [mask_eq_of_reset hr]
    have hnone : ∀ i, (s.ack.hw.slaveReset.bank i).unread = false := Target.slaveReset_unread _
    refine ⟨Target.slaveReset_lost h.lost (h.reset hr), fun i hu => ?_, fun _ => hnone,
      fun _ => hnone⟩
    exact absurd (hu.symm.trans (hnone i)) (by decide)

/-- A reception into a free bank overwrites nothing: a drain that has seen one reception
admits no second. -/
theorem Intact.receive {i : Bool} {data : List Byte} {rwptr : Byte} (h : Intact s)
    (hacc : s.hw.accepts i = true) (hdrain : s.ghost.drain.all (· == 0) = true) :
    Intact { s with
      hw := s.hw.receive i data rwptr s.asf.active
      ghost := { s.ghost with drain := s.ghost.drain.map (· + 1) } } := by
  simp only [Target.accepts, Bool.and_eq_true, Bool.not_eq_true'] at hacc
  have hrunning : s.hw.slven[4] = false := hacc.1.2
  have hfull := hacc.2
  have hone : ∀ n, s.ghost.drain ≠ some (n + 1) := by
    intro n hn
    simp [hn] at hdrain
  have hunread : ∀ j, (s.hw.bank j).unread = true → (s.hw.bank j).full = true := by
    intro j hj
    rcases h.orphan j hj with hf | ⟨n, hn⟩
    · exact hf
    · exact absurd hn (hone n)
  have hfree : (s.hw.bank i).unread = false := by
    cases hu : (s.hw.bank i).unread with
    | false => rfl
    | true => exact absurd ((hunread i hu).symm.trans hfull) (by decide)
  refine ⟨?_, fun j hj => Or.inl ?_, fun hreset => ?_, fun hact j => ?_⟩
  · simp [Target.receive, h.lost, hfree]
  · have hkeep := hunread j
    cases i <;> cases j <;> simp_all [Target.receive, Target.bank, Target.setBank]
  · simp [Target.receive, hrunning] at hreset
  · have hnone := h.inactive hact j
    have hact' : s.asf.active = false := hact
    cases i <;> cases j <;> simp_all [Target.receive, Target.bank, Target.setBank]

/-- No event loses a message in a tidy setting. -/
theorem Intact.react {e : Event} (h : Intact s) (ht : k.Tidy)
    (hsmba : s.irq.requested = true → s.asf.smba = b.auxSmba)
    (he : HostNotify.react k b e s = some s') : Intact s' := by
  cases e with
  | hardIrq =>
    obtain ⟨_, _, rfl | ⟨_, ⟨_, rfl⟩ | ⟨_, rfl⟩⟩⟩ := hardIrq_cases he hsmba
    · exact h
    · exact ⟨h.lost, h.orphan, h.reset, h.inactive⟩
    · exact h.mask
  | world w =>
    simp only [HostNotify.react, Option.ite_none_right_eq_some, Option.some.injEq] at he
    obtain ⟨_, rfl⟩ := he
    exact ⟨h.lost, h.orphan, h.reset, h.inactive⟩
  | receive i data rwptr =>
    simp only [HostNotify.react, Option.ite_none_right_eq_some, Option.some.injEq,
      Bool.and_eq_true, ht.2.1, Bool.false_or] at he
    obtain ⟨⟨⟨hacc, hdrain⟩, _⟩, rfl⟩ := he
    exact h.receive hacc hdrain
  | rxError errors signal =>
    have herrors := ht.1.1
    simp [HostNotify.react, herrors] at he
  | stick i =>
    have hstuck := ht.1.2.1
    simp [HostNotify.react, hstuck] at he
  | firmware hw =>
    have hfirm := ht.1.2.2
    simp [HostNotify.react, hfirm] at he

/-- No event breaks the block in a reliable setting. -/
theorem Sound.react {e : Event} (h : Sound s) (hk : k.Reliable)
    (hsmba : s.irq.requested = true → s.asf.smba = b.auxSmba)
    (he : HostNotify.react k b e s = some s') : Sound s' := by
  cases e with
  | hardIrq =>
    obtain ⟨_, _, rfl | ⟨_, ⟨_, rfl⟩ | ⟨_, rfl⟩⟩⟩ := hardIrq_cases he hsmba
    · exact h
    · exact ⟨h.errorless, h.unstuck⟩
    · cases hr : s.hw.slven[4] with
      | false =>
        rw [mask_eq_of_running hr]
        exact ⟨h.errorless, h.unstuck⟩
      | true =>
        rw [mask_eq_of_reset hr]
        exact ⟨by simp [Target.slaveReset], fun i => by cases i <;> rfl⟩
  | world w =>
    simp only [HostNotify.react, Option.ite_none_right_eq_some, Option.some.injEq] at he
    obtain ⟨_, rfl⟩ := he
    exact ⟨h.errorless, h.unstuck⟩
  | receive i data rwptr =>
    simp only [HostNotify.react, Option.ite_none_right_eq_some, Option.some.injEq] at he
    obtain ⟨_, rfl⟩ := he
    refine ⟨by simpa [Target.receive] using h.errorless, fun j => ?_⟩
    have hj := h.unstuck j
    cases i <;> cases j <;> simp_all [Target.receive, Target.bank, Target.setBank]
  | rxError errors signal =>
    have herrors := hk.1
    simp [HostNotify.react, herrors] at he
  | stick i =>
    have hstuck := hk.2.1
    simp [HostNotify.react, hstuck] at he
  | firmware hw =>
    have hfirm := hk.2.2
    simp [HostNotify.react, hfirm] at he

/-- Where regions never fail, no event makes them fail. -/
theorem react_world {e : Event} (hk : k.regionFails = false)
    (hw : s.world.regionBusy = false ∧ s.world.ioremapFails = false)
    (hsmba : s.irq.requested = true → s.asf.smba = b.auxSmba)
    (he : HostNotify.react k b e s = some s') :
    s'.world.regionBusy = false ∧ s'.world.ioremapFails = false := by
  cases e with
  | hardIrq =>
    obtain ⟨_, _, rfl | ⟨_, ⟨_, rfl⟩ | ⟨_, rfl⟩⟩⟩ := hardIrq_cases he hsmba
    · exact hw
    · exact hw
    · exact hw
  | world w =>
    simp only [HostNotify.react, hk, Bool.false_or, Bool.and_eq_true, Bool.not_eq_true',
      Option.ite_none_right_eq_some, Option.some.injEq] at he
    obtain ⟨hok, rfl⟩ := he
    exact hok
  | receive i data rwptr =>
    simp only [HostNotify.react, Option.ite_none_right_eq_some, Option.some.injEq] at he
    obtain ⟨_, rfl⟩ := he
    exact hw
  | rxError errors signal =>
    simp only [HostNotify.react, Option.ite_none_right_eq_some, Option.some.injEq] at he
    obtain ⟨_, rfl⟩ := he
    exact hw
  | stick i =>
    simp only [HostNotify.react, Option.ite_none_right_eq_some, Option.some.injEq] at he
    obtain ⟨_, rfl⟩ := he
    exact hw
  | firmware hw' =>
    simp only [HostNotify.react, Option.ite_none_right_eq_some, Option.some.injEq] at he
    obtain ⟨_, rfl⟩ := he
    exact hw

/-- An event leaves what the driver core sees as it is. -/
theorem EventFrame.coreView (h : EventFrame s s') : s'.coreView = s.coreView := by
  unfold St.coreView
  rw [h.asf, h.life, h.irq, h.deliverOk, h.auxAdapter]

/-- Events keep the invariant. -/
theorem Inv.react {e : Event} (h : Inv k b s) (he : HostNotify.react k b e s = some s') :
    Inv k b s' := by
  have hframe := react_frame he h.smba
  have hactive : s'.asf.active = s.asf.active := by rw [hframe.asf]
  have hlisten : s'.asf.listening = s.asf.listening := by rw [hframe.asf]
  have hlife := hframe.life
  have hrequested : s'.irq.requested = s.irq.requested := by rw [hframe.irq]
  exact {
    idle := fun hfree hact => by
      obtain ⟨c, hsettled, hview⟩ := h.idle (hframe.mutex ▸ hfree) (hactive ▸ hact)
      exact ⟨c, hsettled, hview.react h he⟩
    core := hframe.coreView ▸ h.core
    masked := fun hm => by
      rw [hrequested]
      rw [hframe.irq] at hm
      simp only [IrqLine.masked, Bool.or_eq_true] at hm
      rcases hm with hw | hrun
      · rcases hframe.woken hw with hold | hnew
        · exact h.masked (by simp [IrqLine.masked, hold])
        · exact hnew.1
      · exact h.masked (by simp [IrqLine.masked, hrun])
    deaf := fun hd => by
      rw [hactive, hlife] at hd
      rw [hlisten]
      exact h.deaf hd
    alone := fun hen => by
      rw [hlife] at hen ⊢
      obtain ⟨haux, hmask⟩ := h.alone hen
      refine ⟨haux, ?_⟩
      rw [hframe.irq]
      simp only [IrqLine.masked, Bool.or_eq_false_iff] at hmask ⊢
      refine ⟨?_, hmask.2⟩
      cases hw : s'.irq.woken with
      | false => rfl
      | true =>
        rcases hframe.woken hw with hold | hnew
        · exact absurd (hold.symm.trans hmask.1) (by decide)
        · exact absurd (hnew.2.symm.trans (h.enabling hen).2) (by decide)
    unregistered := fun hen => by
      rw [hlife] at hen ⊢
      exact h.unregistered hen
    plain := fun hreg halgo => by
      rw [hlife] at hreg halgo
      exact hactive.trans (h.plain hreg halgo)
    owned := fun hen => by
      rw [hlife]
      exact h.owned (hlife ▸ hen)
    locked := fun u hu => by
      rw [hlife, hframe.irq]
      exact h.locked u (hframe.mutex ▸ hu)
    world := fun hk => react_world hk (h.world hk) h.smba he
    sound := fun hk => (h.sound hk).react hk h.smba he
    intact := fun ht => (h.intact ht).react ht h.smba he }

end HostNotify
