import HostNotify.ProcessBank

/-!
# The drain

`piix4_asf_drain` under interference. Where receptions are bounded the loop stops by
itself before its limit, so it never reports a stuck bank; every message it takes off the
banks is in the list it returns; and a quiet end leaves nothing unsignalled.
-/

namespace HostNotify

open Bits Interleaving

variable {k : Setting} {b : Board} {c c' : Control} {s s' : St} {t : ℕ} {call : Call}
  {Q X : St → Prop} {m : ℕ} {own : List ℕ}

/-! ## One bank -/

/-- A listening block has been claimed. -/
theorem View.claimed {o : Option ℕ} (h : View k o c s) (hinv : Inv k b s)
    (hl : c.listening = true) :
    s.asf.active = true ∧ s.asf.smba = b.auxSmba ∧ s.asf.useMmio = true := by
  have hlisten : s.asf.listening = true := h.listening.trans hl
  have hactive : s.asf.active = true := by
    cases ha : s.asf.active with
    | true => rfl
    | false => exact absurd (hlisten.symm.trans (hinv.inactive ha).2) (by decide)
  exact ⟨hactive, hinv.claimed hactive⟩

/-- Where unread messages may be when a bank is about to be read. -/
def Entry (k : Setting) (allow : Bool) (s : St) : Prop :=
  k.Tidy → s.Kept ∨ (allow = true ∧ s.Stray)

/-- What is known on entry is carried through. -/
theorem entry_carried {allow : Bool} : Carried k b t c (Entry k allow) :=
  Carried.imp fun ht => kept_carried.or ((Carried.const _).and (stray_carried ht))

/-- What the chosen bank holds. -/
def Choice (k : Setting) (allow : Bool) (prefer : ℕ) (v : Byte) (s : St) : Prop :=
  ∀ i, chooseBank v allow prefer = some i →
    Accounted k (!v.getLsbD (Target.flagBit i)) s ∧
      ((!v.getLsbD (Target.flagBit i)) = false → (s.hw.bank i).full = true)

/-- What is known of the chosen bank is carried through. -/
theorem choice_carried {allow : Bool} {prefer : ℕ} {v : Byte} :
    Carried k b t c (Choice k allow prefer v) := by
  intro s s' hs hv h hk hchoice i hi
  obtain ⟨hacc, hfull⟩ := hchoice i hi
  exact ⟨accounted_carried s s' hs hv h hk hacc,
    fun hf => full_carried i s s' hs hv h hk (hfull hf)⟩

/-- The flags as read justify the choice. -/
theorem At.choice {allow : Bool} {prefer : ℕ} (h : At k t c Q m own (Entry k allow) s) :
    Choice k allow prefer s.hw.bnkselValue s := by
  intro i hi
  rcases chooseBank_some hi with hflag | ⟨_, rfl, hnone⟩
  · have hfull : (s.hw.bank i).full = true := by
      rw [← bnkselValue_flag]
      exact hflag
    rw [hflag]
    refine ⟨fun ht => ?_, fun _ => hfull⟩
    rcases h.here ht with hkept | ⟨_, hstray⟩
    · exact hkept
    · exact absurd (hfull.symm.trans (hstray.empty i)) (by decide)
  · have hempty : s.NoFull := by
      intro j
      rw [← bnkselValue_flag]
      exact hnone j
    rw [hnone]
    refine ⟨fun ht => Or.inl ⟨hempty, ?_, (h.budget ht.bounded).begun⟩, fun hf => by cases hf⟩
    rcases h.here ht with hkept | ⟨_, hstray⟩
    · cases hu : (s.hw.bank true).unread with
      | false => rfl
      | true => exact absurd ((hkept true hu).symm.trans (hempty true)) (by decide)
    · exact hstray.unread

/-- The two ways `piix4_asf_process_bank` returns. -/
def Processed (k : Setting) (t : ℕ) (c : Control) (Q : St → Prop) (m : ℕ) (own : List ℕ)
    (allow : Bool) (r : Option ℕ × Option ℕ) (s : St) : Prop :=
  (r.1 = none ∧ At k t (c.quieted k) Q m own (fun _ => True) s) ∨
    (r.1.isSome = true ∧ (allow = false → Bounded k c → 1 ≤ m) ∧
      ∃ c', c.Flushes c' ∧
        At k t c' Q (if allow then m else m - 1) (own ++ r.2.toList) (fun s => k.Tidy → s.Orderly) s)

section Bank

variable (hc : c.Working) (hQ : Debtless t Q)
include hc hQ

/-- The error branch of `piix4_asf_process_bank` flushes both banks. -/
theorem flushBanks_spec (n : ℕ) (own' : List ℕ) (hopen : c.clean = false ∧ c.kept = false)
    (hk : ¬ k.Reliable) :
    Triple (rules k b call t)
      (At k t c Q m own fun s => s.hw.slvsta &&& asfErrorStatus ≠ 0)
      (do
        let reg ← inb (asfDataBnkSel b.auxSmba)
        outb (reg ||| asfBnkFull) (asfDataBnkSel b.auxSmba)
        mark .errorFlush
        finishBank b.auxSmba 2 1 []) fun r s =>
      r = (some 2, none) ∧
        At k t { c with flushed := true, erred := true } Q n own' (fun s => k.Tidy → s.Orderly) s := by
  have hc₁ : ({ c with calm := false } : Control).Working := ⟨hc.listening, hc.want⟩
  have hc₂ : ({ c with flushed := true, erred := true } : Control).Working :=
    ⟨hc.listening, hc.want⟩
  have htidy : ¬ k.Tidy := fun ht => hk ht.1
  have hfree : ¬ Bounded k c := fun hb => hk hb.1
  have hread : Triple (rules k b call t)
      (At k t c Q m own fun s => s.hw.slvsta &&& asfErrorStatus ≠ 0)
      (inb (asfDataBnkSel b.auxSmba)) fun reg s => reg[7] = c.dataEn ∧
        At k t c Q m own (fun s => s.hw.slvsta &&& asfErrorStatus ≠ 0) s := by
    refine at_read hc hQ (fun _ => error_carried) (decode_asfDataBnkSel _) (by simp)
      fun s _ hP hsees => ⟨?_, hP.here⟩
    rw [← hsees.regs.dataEn]
    simp [Target.read, Target.bnkselValue]
  have hwrite : ∀ reg : Byte, reg[7] = c.dataEn → Triple (rules k b call t)
      (At k t c Q m own fun s => s.hw.slvsta &&& asfErrorStatus ≠ 0)
      (outb (reg ||| asfBnkFull) (asfDataBnkSel b.auxSmba))
      fun _ => At k t { c with calm := false } Q n own' fun s => s.hw.reading = false := by
    intro reg hreg
    refine at_write hc hQ unread_carried (decode_asfDataBnkSel _) (by simp) ⟨rfl, rfl, rfl⟩
      (fun s _ hP _ => ?_) fun s hs hP hsees => ?_
    · have hmask : (reg ||| asfBnkFull) &&& asfBnkFull = asfBnkFull := by
        refine BitVec.eq_of_getElem_eq fun j hj => ?_
        rw [BitVec.getElem_and, BitVec.getElem_or]
        cases asfBnkFull[j] <;> simp
      exact {
        arm := fun _ h => by cases h
        reset := fun _ v' port' h hd => by
          cases h
          rw [decode_asfDataBnkSel] at hd
          cases hd
        consume := fun _ _ v' port' h _ => by
          cases h
          exact Or.inr ⟨hmask, hP.here⟩ }
    · have hv7 : (reg ||| asfBnkFull)[7] = c.dataEn := by
        rw [BitVec.getElem_or, hreg]
        simp
      have hv2 : (reg ||| asfBnkFull)[2] = true := by simp
      refine ⟨fun ht => absurd ht htidy, hsees.uncalm.written_bnksel hopen.1 hopen.2 rfl hv7,
        fun hb => absurd hb hfree, fun ht => absurd ht htidy, ?_⟩
      rw [written_bnksel_reading, hv2]
      simp
  have hmark : Triple (rules k b call t)
      (At k t { c with calm := false } Q n own' fun s => s.hw.reading = false) (mark .errorFlush)
      fun _ => At k t { c with calm := false, flushed := true, erred := true } Q n own' fun s =>
        s.hw.reading = false := by
    refine at_mark hc₁ hQ unread_carried (by simp) (by simp) ⟨rfl, rfl, rfl⟩ fun s _ hP _ =>
      ⟨fun ht => absurd ht htidy, fun h => ?_, fun hb => absurd hb hfree, hP.here⟩
    exact {
      regs := ⟨h.regs.lisaddr, h.regs.rst, h.regs.dataEn, h.regs.mstr, h.regs.clk,
        h.regs.intrOn, h.regs.intrOff⟩
      record := ⟨h.record.debt, fun _ => rfl, fun _ => rfl, h.record.resetting⟩
      signalled := h.signalled
      empty := h.empty
      kept := h.kept
      calm := fun hcl => by cases hcl }
  refine Triple.bind hread fun reg => Triple.pure_pre fun hreg => ?_
  refine Triple.bind (hwrite reg hreg) fun _ => Triple.bind hmark fun _ => ?_
  exact Triple.pre (finishBank_spec hc₂ hQ 2 1 []) fun s _ hP =>
    hP.mono fun hread => ⟨fun ht => absurd ht htidy, hread⟩

/-- What one call of `piix4_asf_process_bank` leaves. -/
theorem processBank_spec (hopen : c.clean = false ∧ c.kept = false) (hdata : c.dataEn = false)
    (hcalm : k.firmware = false → c.calm = true) (allow : Bool) (prefer : ℕ) :
    Triple (rules k b call t) (At k t c Q m own (Entry k allow))
      (piix4AsfProcessBank allow prefer) (Processed k t c Q m own allow) := by
  unfold piix4AsfProcessBank
  refine Triple.bind (asf_spec (F := fun a => a.smba = b.auxSmba)
    (stable_at hc hQ entry_carried) fun s hs hP => (hP.view.claimed hs hc.listening).2.1)
    fun a => Triple.pure_pre fun hsmba => ?_
  rw [hsmba]
  have hstatus : Triple (rules k b call t) (At k t c Q m own (Entry k allow))
      (inb (asfSlvSta b.auxSmba)) fun v s => (k.Reliable → v &&& asfErrorStatus = 0) ∧
        At k t c Q m own (fun s => Entry k allow s ∧
          (v &&& asfErrorStatus ≠ 0 → s.hw.slvsta &&& asfErrorStatus ≠ 0)) s :=
    at_read hc hQ (fun v => entry_carried.and (Carried.imp fun _ => error_carried))
      (decode_asfSlvSta _) (by simp) fun s hs hP _ =>
      ⟨fun hk => (hs.sound hk).errorless, hP.here, fun h => h⟩
  refine Triple.bind hstatus fun v => Triple.pure_pre fun hsound => ?_
  by_cases herror : v &&& asfErrorStatus ≠ 0
  · rw [if_pos herror]
    have hk : ¬ k.Reliable := fun hk => herror (hsound hk)
    refine Triple.post (Triple.pre (flushBanks_spec hc hQ (if allow then m else m - 1) own hopen hk) fun s _ hP =>
      hP.mono fun hX => hX.2 herror) fun r s _ h => Or.inr ?_
    obtain ⟨rfl, hflushed⟩ := h
    refine ⟨rfl, fun _ hb => absurd hb.1 hk, _, Or.inr rfl, ?_⟩
    rw [Option.toList_none, List.append_nil]
    exact hflushed
  · rw [if_neg herror]
    refine Triple.bind (Triple.pre (readFlags_spec
      (X := Entry k allow) (Y := Choice k allow prefer) hc hQ (fun _ _ => choice_carried)
      (fun (hallow : allow = false) s hX ht => ?_) fun s hP => hP.choice) fun s _ hP => hP.mono fun hX => hX.1)
      fun reg => Triple.pure_pre fun hreg => ?_
    · rcases hX ht with hkept | ⟨hyes, _⟩
      · exact hkept
      · exact absurd (hyes.symm.trans hallow) (by decide)
    · cases hchoose : chooseBank reg allow prefer with
      | none =>
        obtain ⟨hallow, hflags⟩ := chooseBank_none hchoose
        refine Triple.ret fun s _ hP => Or.inl ⟨rfl, ?_⟩
        rw [if_pos ⟨hallow, flags_zero.mpr hflags⟩] at hP
        exact hP.mono fun _ => trivial
      | some i =>
        have hbusy : ¬ (allow = false ∧ reg &&& asfBnkFull = 0) := by
          rintro ⟨hallow, hzero⟩
          rcases chooseBank_some hchoose with hflag | ⟨hyes, _, _⟩
          · exact absurd (hflag.symm.trans (flags_zero.mp hzero i)) (by decide)
          · exact absurd (hyes.symm.trans hallow) (by decide)
        rw [if_neg hbusy]
        have hfallback : (!reg.getLsbD (Target.flagBit i)) = true → allow = true ∧ i = false := by
          intro hf
          rcases chooseBank_some hchoose with hflag | ⟨hyes, hi, _⟩
          · simp [hflag] at hf
          · exact ⟨hyes, hi⟩
        refine Triple.pre (P := At k t c Q m own fun s =>
          Accounted k (!reg.getLsbD (Target.flagBit i)) s ∧
            ((!reg.getLsbD (Target.flagBit i)) = false → (s.hw.bank i).full = true)) ?_
          fun s _ hP => hP.mono fun hX => hX i hchoose
        refine Triple.learn (φ := (!reg.getLsbD (Target.flagBit i)) = false → Bounded k c → 1 ≤ m)
          (fun s _ hP hf hb => (hP.budget hb).pos_of_full (hP.here.2 hf)) fun hpos => ?_
        refine Triple.bind (readBank_spec hc hQ hopen hdata hcalm (hreg.1.trans hdata)
          fun hf => (hfallback hf).2) fun r => ?_
        refine Triple.post (finishBank_spec hc hQ _ r.1 r.2) fun out s _ h => Or.inr ?_
        obtain ⟨rfl, hP⟩ := h
        have hflagged : allow = false → (!reg.getLsbD (Target.flagBit i)) = false := by
          intro hallow
          cases hf : (!reg.getLsbD (Target.flagBit i)) with
          | false => rfl
          | true => exact absurd ((hfallback hf).1.symm.trans hallow) (by decide)
        refine ⟨rfl, fun hallow hb => hpos (hflagged hallow) hb, c, Or.inl rfl, hP.view, hP.known,
          fun hb => (hP.budget hb).mono ?_, hP.owed, hP.here⟩
        cases hallow : allow with
        | true =>
          rw [if_pos rfl]
          split <;> omega
        | false => rw [hflagged hallow]

end Bank

/-! ## One pass -/

/-- The IRQ thread has taken the pending flag, and only the hard handler sets it again. -/
def Quieted (call : Call) (t : ℕ) (s : St) : Prop :=
  call = .irqThread → s.irq.running = some t ∧ s.asf.pending = false

/-- That the slave is quiet says nothing about owed messages. -/
theorem quieted_debtless : Debtless t (Quieted call t) :=
  fun _ _ hk h hcall => ⟨(hk.thread (h hcall).1).1, hk.quiet (h hcall).1 (h hcall).2⟩

/-- Two facts that say nothing about owed messages are one. -/
theorem Debtless.and {R : St → Prop} (hQ : Debtless t Q) (hR : Debtless t R) :
    Debtless t fun s => Q s ∧ R s :=
  fun s s' hk h => ⟨hQ s s' hk h.1, hR s s' hk h.2⟩

/-- After the status bit has been read and acknowledged. -/
def Acked (k : Setting) (c : Control) (m : ℕ) (sta : Bool) (s : St) : Prop :=
  (sta = true → (k.Tidy → s.Kept ∨ s.Stray) ∧
    (Bounded k c → Budget c.accepting (m - 1) s ∨ s.asf.pending = true)) ∧
  (sta = false → k.Tidy →
    s.Kept ∨ (s.Stray ∧ s.hw.sta.getLsbD 6 = false ∧ s.asf.pending = true))

/-- What is known of the acknowledged status is carried through. -/
theorem acked_carried {sta : Bool} : Carried k b t c (Acked k c m sta) :=
  (Carried.imp fun _ => (Carried.imp fun ht => kept_carried.or (stray_carried ht)).and
    (Carried.imp fun hk => (Budget.carried hk).or pending_carried)).and
  (Carried.imp fun _ => Carried.imp fun ht => kept_carried.or (strayPending_carried ht))

/-- An open block is as open after the acknowledgement. -/
theorem Control.ackSta_open (h : c.clean = false) : c.ackSta = c := by
  unfold Control.ackSta
  rw [h, Bool.false_and, ← h]

/-- The state after the pending flag has been taken. -/
def St.takePending (s : St) : St := { s with asf := { s.asf with pending := false } }

/-- Taking the pending flag leaves the banks and the status bit. -/
theorem load_takePending : s.takePending.load + s.asf.pending.toNat = s.load := by
  have hnone : s.takePending.asf.pending = false := rfl
  unfold St.load
  rw [hnone, Bool.toNat_false]
  rfl

section Pass

variable (hc : c.Working) (hQ : Debtless t Q)
include hc hQ

/-- Reading and acknowledging the status bit. -/
theorem ackStatus_spec (hopen : c.clean = false) :
    Triple (rules k b call t) (At k t c Q m own fun s => k.Tidy → s.Orderly)
      (ackStatus b.auxSmba) fun sta s => (getElem sta 6 (fits rfl) = true → Bounded k c → 1 ≤ m) ∧
        At k t c Q m own (Acked k c m (getElem sta 6 (fits rfl))) s := by
  unfold ackStatus
  have hread : Triple (rules k b call t) (At k t c Q m own fun s => k.Tidy → s.Orderly)
      (inb (asfSta b.auxSmba)) fun sta s => True ∧
        At k t c Q m own (fun s => (sta[6] = true → s.Signal ∧ (k.Tidy → s.Kept ∨ s.Stray)) ∧
          (sta[6] = false → k.Tidy →
            s.Kept ∨ (s.Stray ∧ s.hw.sta[6] = false ∧ s.asf.pending = true))) s := by
    refine at_read hc hQ (fun sta => ?_) (decode_asfSta _) (by simp)
      fun s _ hP _ => ⟨trivial, fun hset => ⟨Or.inl hset, fun ht => ?_⟩, fun hclear ht => ?_⟩
    · exact (Carried.imp fun _ => signal_carried.and (Carried.imp fun ht =>
        kept_carried.or (stray_carried ht))).and
        (Carried.imp fun _ => Carried.imp fun ht => kept_carried.or (strayPending_carried ht))
    · exact (hP.here ht).imp id And.left
    · refine (hP.here ht).imp id fun hstray => ⟨hstray.1, hclear, ?_⟩
      rcases hstray.2 with hsta | hpending
      · exact absurd (hsta.symm.trans hclear) (by decide)
      · exact hpending
  refine Triple.bind hread fun sta => Triple.pure_pre fun _ => ?_
  by_cases hset : sta[6] = true
  · have hbranch : sta &&& bit asfStaSlvInt ≠ 0 := by
      intro hzero
      have hclear := (and_bit_eq_zero sta 6 (by decide)).mp hzero
      exact absurd (hset.symm.trans hclear) (by decide)
    rw [if_pos hbranch]
    refine Triple.learn (φ := Bounded k c → 1 ≤ m)
      (fun s _ hP hb => (hP.budget hb).pos_of_signal (hP.here.1 hset).1) fun hpos => ?_
    have hack : Triple (rules k b call t)
        (At k t c Q m own fun s => (sta[6] = true → s.Signal ∧ (k.Tidy → s.Kept ∨ s.Stray)) ∧
          (sta[6] = false → k.Tidy →
            s.Kept ∨ (s.Stray ∧ s.hw.sta[6] = false ∧ s.asf.pending = true)))
        (outb (sta ||| bit asfStaSlvInt) (asfSta b.auxSmba))
        fun _ => At k t c Q m own (Acked k c m true) := by
      refine at_write hc hQ acked_carried (decode_asfSta _) (by simp) ⟨rfl, rfl, rfl⟩
        (fun s _ _ _ => .of_port (by simp) (by simp)) fun s hs hP hsees => ?_
      have hclear : (s.written t (sta ||| bit asfStaSlvInt) .sta).hw.sta.getLsbD 6 = false := by
        simp [St.written, Target.write]
      have hload : (s.written t (sta ||| bit asfStaSlvInt) .sta).load +
          (s.hw.sta.getLsbD 6).toNat = s.load := by
        unfold St.load
        rw [hclear, written_asf]
        have h0 : (s.written t (sta ||| bit asfStaSlvInt) .sta).hw.bank false =
          s.hw.bank false := rfl
        have h1 : (s.written t (sta ||| bit asfStaSlvInt) .sta).hw.bank true =
          s.hw.bank true := rfl
        rw [h0, h1, Bool.toNat_false]
        omega
      refine ⟨fun ht => (hs.intact ht).written (by simp) (by simp) (by simp), ?_,
        fun hb => ⟨(hP.budget hb).begun, ?_⟩, hP.owed,
        fun _ => ⟨fun ht => ?_, fun hb => ?_⟩, fun h => by cases h⟩
      · have hw := hsees.write_sta (t := t) (v := sta ||| bit asfStaSlvInt)
        rw [Control.ackSta_open hopen] at hw
        exact hw
      · have hwork := (hP.budget hb).work
        have hdrain : (s.written t (sta ||| bit asfStaSlvInt) .sta).ghost.drain = s.ghost.drain :=
          rfl
        rw [hdrain]
        omega
      · exact ((hP.here.1 hset).2 ht).imp id fun h => ⟨h.empty, h.unread, h.arrived⟩
      · rcases (hP.here.1 hset).1 with hsta | hpending
        · left
          refine ⟨(hP.budget hb).begun, ?_⟩
          have hwork := (hP.budget hb).work
          have hdrain : (s.written t (sta ||| bit asfStaSlvInt) .sta).ghost.drain =
            s.ghost.drain := rfl
          rw [hsta, Bool.toNat_true] at hload
          rw [hdrain]
          omega
        · exact Or.inr hpending
    refine Triple.bind hack fun _ => Triple.ret fun s _ hP => ⟨fun _ => hpos, ?_⟩
    rw [hset]
    exact hP
  · have hclear : sta[6] = false := by simpa using hset
    have hbranch : ¬ sta &&& bit asfStaSlvInt ≠ 0 := by
      rw [not_not]
      exact (and_bit_eq_zero sta 6 (by decide)).mpr hclear
    rw [if_neg hbranch]
    refine Triple.ret fun s _ hP => ⟨fun h => absurd h hset, hP.mono fun hX => ?_⟩
    rw [hclear]
    exact ⟨fun h => (by cases h), fun _ => hX.2 hclear⟩

/-- The drain takes the pending flag. -/
theorem takePending_spec (hopen : c.clean = false)
    (hrun : ∀ s, Q s → call = .irqThread → s.irq.running = some t) (sta : Bool)
    (hpos : sta = true → Bounded k c → 1 ≤ m) :
    Triple (rules k b call t) (At k t c Q m own (Acked k c m sta)) (xchgPending false)
      fun r s => ((sta || r) = true → Bounded k c → 1 ≤ m) ∧
        At k t c (fun s => Q s ∧ Quieted call t s) (if sta || r then m - 1 else m) own
          (Entry k (sta || r)) s := by
  have hQ' : Debtless t fun s => Q s ∧ Quieted call t s := hQ.and quieted_debtless
  refine own_op (fun r => (Discipline.Stable.const _).and (stable_at hc hQ' entry_carried))
    fun s hs hP _ => ⟨.of_other (by simp) (by simp), fun r s' he => ?_⟩
  simp only [exec, Option.some.injEq, Prod.mk.injEq] at he
  obtain ⟨rfl, hs'⟩ := he
  have htaken : s' = s.takePending := hs'.symm
  subst htaken
  have hown : OwnStep k t s s.takePending :=
    .setFlags hP.view.holder (fun _ => rfl) fun hl => Or.inr hl
  have hload := load_takePending (s := s)
  have hdrain : s.takePending.ghost = s.ghost := rfl
  refine ⟨hown, fun hsig hb => ?_, ?_, ⟨hQ _ _ hown.stays hP.known,
    fun hcall => ⟨hrun s hP.known hcall, rfl⟩⟩, fun hb => ⟨(hP.budget hb).begun, ?_⟩, hP.owed,
    fun ht => ?_⟩
  · cases hsta : sta with
    | true => exact hpos hsta hb
    | false =>
      rw [hsta, Bool.false_or] at hsig
      exact (hP.budget hb).pos_of_signal (Or.inr hsig)
  · exact {
      holder := hP.view.holder
      engaged := hP.view.engaged
      listening := hP.view.listening
      want := hP.view.want
      held := hP.view.held
      fresh := hP.view.fresh
      sees := fun _ => (hP.sees hc).clearPending fun h => absurd (h.symm.trans hopen) (by decide) }
  · have hwork := (hP.budget hb).work
    rw [hdrain]
    cases hpending : s.asf.pending with
    | true =>
      rw [Bool.or_true, if_pos rfl]
      rw [hpending, Bool.toNat_true] at hload
      omega
    | false =>
      rw [hpending, Bool.toNat_false] at hload
      rw [Bool.or_false]
      cases hsta : sta with
      | false =>
        rw [if_neg (by decide)]
        omega
      | true =>
        rw [if_pos rfl]
        rcases (hP.here.1 hsta).2 hb with hless | hp
        · have hwork' := hless.work
          omega
        · exact absurd (hp.symm.trans hpending) (by decide)
  · have hstray : s.Stray → s.takePending.Stray :=
      fun h => ⟨h.empty, h.unread, h.arrived⟩
    cases hsta : sta with
    | true =>
      exact ((hP.here.1 hsta).1 ht).imp id fun h => ⟨rfl, hstray h⟩
    | false =>
      refine (hP.here.2 hsta ht).imp id fun h => ⟨?_, hstray h.1⟩
      rw [Bool.false_or]
      exact h.2.2

/-- Acknowledging the status bit and taking the pending flag. -/
theorem takeSignal_spec (hopen : c.clean = false)
    (hrun : ∀ s, Q s → call = .irqThread → s.irq.running = some t) :
    Triple (rules k b call t) (At k t c Q m own fun s => k.Tidy → s.Orderly)
      (takeSignal b.auxSmba) fun sig s => (sig = true → Bounded k c → 1 ≤ m) ∧
        At k t c (fun s => Q s ∧ Quieted call t s) (if sig then m - 1 else m) own
          (Entry k sig) s := by
  unfold takeSignal
  refine Triple.bind (ackStatus_spec hc hQ hopen) fun sta => Triple.pure_pre fun hpos => ?_
  refine Triple.bind (takePending_spec hc hQ hopen hrun sta[6] hpos) fun r => ?_
  refine Triple.ret fun s _ hP => ?_
  have hsig : decide (sta &&& bit asfStaSlvInt ≠ 0) = sta[6] := by
    cases hset : sta[6] with
    | true =>
      refine decide_eq_true fun hzero => ?_
      exact absurd (hset.symm.trans ((and_bit_eq_zero sta 6 (by decide)).mp hzero)) (by decide)
    | false =>
      refine decide_eq_false (not_not.mpr ?_)
      exact (and_bit_eq_zero sta 6 (by decide)).mpr hset
  rw [hsig]
  exact hP

end Pass

end HostNotify
