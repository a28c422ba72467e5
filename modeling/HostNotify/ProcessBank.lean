import HostNotify.ReadOut

/-!
# Processing one bank

What marking a bank consumed does to the messages, and from it the specification of
`piix4_asf_process_bank`: the message it read is taken note of and leaves the bank, a
message it missed stays behind with a signal.
-/

namespace HostNotify

open Bits Interleaving

variable {k : Setting} {b : Board} {c : Control} {s s' : St} {t : ℕ} {call : Call}
  {Q X : St → Prop} {m : ℕ} {own : List ℕ} {v : Byte} {i fallback : Bool}

/-- What the account says is seen as well by one who is not calm. -/
theorem Sees.uncalm (h : Sees c s) : Sees { c with calm := false } s :=
  h.relax id id (fun hc => by cases hc) id id

/-! ## Writing ASFDATABNKSEL -/

section Written

variable (s : St) (t : ℕ) (v : Byte)

/-- Writing a flag consumes its bank. -/
theorem written_bnksel_bank (j : Bool) : (s.written t v .bnksel).hw.bank j =
    if v.getLsbD (Target.flagBit j) then (s.hw.bank j).consume else s.hw.bank j := by
  cases j <;> rfl

/-- Writing a flag ends a read-out. -/
@[simp] theorem written_bnksel_reading :
    (s.written t v .bnksel).hw.reading =
      (s.hw.reading && !(getElem v 2 (fits rfl) || getElem v 3 (fits rfl))) := rfl

/-- Writing ASFDATABNKSEL leaves the status alone. -/
@[simp] theorem written_bnksel_sta : (s.written t v .bnksel).hw.sta = s.hw.sta := rfl
/-- Writing ASFDATABNKSEL leaves the enable bits alone. -/
@[simp] theorem written_bnksel_slven : (s.written t v .bnksel).hw.slven = s.hw.slven := rfl
/-- Writing ASFDATABNKSEL loses nothing. -/
@[simp] theorem written_bnksel_lost : (s.written t v .bnksel).hw.lost = s.hw.lost := rfl
/-- Writing ASFDATABNKSEL leaves the pointer alone. -/
@[simp] theorem written_bnksel_rdptr : (s.written t v .bnksel).hw.rdptr = s.hw.rdptr := rfl
/-- A write leaves the global alone. -/
@[simp] theorem written_asf (r : Reg) : (s.written t v r).asf = s.asf := rfl

/-- Writing ASFDATABNKSEL selects a bank. -/
@[simp] theorem written_bnksel_selected :
    (s.written t v .bnksel).hw.selected = getElem v 4 (fits rfl) := by
  simp [St.written, Target.selected, Target.write]

/-- What it takes off the banks is owed. -/
theorem written_bnksel_owed : (s.written t v .bnksel).ghost.owed t =
    s.ghost.owed t ++ s.hw.taken v := by
  simp [St.written, Ghost.afterWrite]

/-- A consumed bank is full only if it was. -/
theorem consume_full_le (b : Bank) : b.consume.full = true → b.full = true := by
  unfold Bank.consume
  simp only [Bool.and_eq_true]
  exact And.left

/-- A consumed bank is unread only if it was. -/
theorem consume_unread_le (b : Bank) : b.consume.unread = true → b.unread = true := by
  unfold Bank.consume
  simp only [Bool.and_eq_true]
  exact And.left

/-- No write to the register fills a bank. -/
theorem written_bnksel_full {j : Bool} (h : (s.hw.bank j).full = false) :
    ((s.written t v .bnksel).hw.bank j).full = false := by
  rw [written_bnksel_bank]
  split
  · cases hf : (s.hw.bank j).consume.full with
    | false => rfl
    | true => exact absurd ((consume_full_le _ hf).symm.trans h) (by decide)
  · exact h

/-- No message appears by clearing flags. -/
theorem written_bnksel_unread {j : Bool} (h : (s.hw.bank j).unread = false) :
    ((s.written t v .bnksel).hw.bank j).unread = false := by
  rw [written_bnksel_bank]
  split
  · cases hu : (s.hw.bank j).consume.unread with
    | false => rfl
    | true => exact absurd ((consume_unread_le _ hu).symm.trans h) (by decide)
  · exact h

end Written

/-- While nothing is claimed of the banks, any write to the register leaves the view. -/
theorem Sees.written_bnksel (h : Sees c s) (hclean : c.clean = false) (hkept : c.kept = false)
    (hcalm : c.calm = false) (hdata : getElem v 7 (fits rfl) = c.dataEn) : Sees c (s.written t v .bnksel) where
  regs := h.regs.update h.regs.lisaddr rfl (by simpa [St.written, Target.write] using hdata)
    h.regs.mstr h.regs.clk rfl rfl rfl
  record := h.record.congr rfl rfl rfl rfl
  signalled hc := absurd (hc.symm.trans hclean) (by decide)
  empty hc := absurd (hc.symm.trans hclean) (by decide)
  kept hk := absurd (hk.symm.trans hkept) (by decide)
  calm hc := absurd (hc.symm.trans hcalm) (by decide)

/-- Clearing flags adds no work. -/
theorem written_bnksel_load : (s.written t v .bnksel).load ≤ s.load := by
  have hle : ∀ j, ((s.written t v .bnksel).hw.bank j).full.toNat ≤ (s.hw.bank j).full.toNat := by
    intro j
    cases hf : (s.hw.bank j).full with
    | false => rw [written_bnksel_full s t v hf]
    | true => exact Bool.toNat_le _
  have h0 := hle false
  have h1 := hle true
  unfold St.load
  rw [written_bnksel_sta, written_asf]
  omega

/-- Clearing flags keeps the budget. -/
theorem Budget.written_bnksel {a : Bool} (h : Budget a m s) : Budget a m (s.written t v .bnksel) where
  begun := by
    rw [show (s.written t v .bnksel).ghost.drain = s.ghost.drain from rfl]
    exact h.begun
  work := Nat.le_trans (Nat.add_le_add_right written_bnksel_load _) h.work

/-- Clearing the flag of a full bank is work done. -/
theorem Budget.consumed {a : Bool} (h : Budget a m s) (hfull : (s.hw.bank i).full = true)
    (hstuck : (s.hw.bank i).stuck = false) (hflag : v.getLsbD (Target.flagBit i) = true) :
    1 ≤ m ∧ Budget a (m - 1) (s.written t v .bnksel) := by
  have hgone : ((s.written t v .bnksel).hw.bank i).full = false := by
    rw [written_bnksel_bank, if_pos hflag]
    simp [Bank.consume, hstuck]
  have hle : ∀ j, ((s.written t v .bnksel).hw.bank j).full.toNat ≤ (s.hw.bank j).full.toNat := by
    intro j
    cases hf : (s.hw.bank j).full with
    | false => rw [written_bnksel_full s t v hf]
    | true => exact Bool.toNat_le _
  have hwork := h.work
  have hdrain : (s.written t v .bnksel).ghost.drain = s.ghost.drain := rfl
  have hless : (s.written t v .bnksel).load + 1 ≤ s.load := by
    have h0 := hle false
    have h1 := hle true
    unfold St.load
    rw [written_bnksel_sta, written_asf]
    cases i with
    | false =>
      rw [hgone, hfull]
      simp only [Bool.toNat_false, Bool.toNat_true]
      omega
    | true =>
      rw [hgone, hfull]
      simp only [Bool.toNat_false, Bool.toNat_true]
      omega
  refine ⟨by omega, by rw [hdrain]; exact h.begun, ?_⟩
  rw [hdrain]
  omega

/-! ## Where the unread messages are -/

/-- Bank 0 is read without its flag: either no bank was flagged and nothing has arrived, or
one message has arrived since and is flagged. -/
def St.Fallback (s : St) : Prop :=
  (s.NoFull ∧ (s.hw.bank true).unread = false ∧ s.ghost.drain.isSome = true) ∨
    ((∃ n, s.ghost.drain = some (n + 1)) ∧ s.Signal ∧
      ((s.hw.bank false).full = false ∨ (s.hw.bank true).full = false) ∧ s.Kept)

/-- Where the unread messages are while a bank is being read. -/
def Accounted (k : Setting) (fallback : Bool) (s : St) : Prop :=
  k.Tidy → if fallback then s.Fallback else s.Kept

/-- With the same flags it is still accounted for. -/
theorem Accounted.of_flags (h : Accounted k fallback s) (hf : SameFlags s s') :
    Accounted k fallback s' := by
  intro ht
  have hs := h ht
  cases fallback with
  | false => exact hf.kept hs
  | true =>
    rcases hs with ⟨hnone, hunread, hbegun⟩ | ⟨harr, hsignal, hone, hkept⟩
    · refine Or.inl ⟨hf.noFull hnone, (hf.unread true).trans hunread, ?_⟩
      rw [hf.drain]
      exact hbegun
    · refine Or.inr ⟨?_, hf.signal hsignal, ?_, hf.kept hkept⟩
      · rw [hf.drain]
        exact harr
      · rw [hf.full, hf.full]
        exact hone

/-- A tidy setting lets one message arrive during a fallback read. -/
theorem fallback_carried (ht : k.Tidy) : Carried k b t c St.Fallback := by
  intro s s' hs _ h _ hfall
  rcases hfall with ⟨hnone, hunread, hbegun⟩ | ⟨⟨n, hn⟩, hsignal, hone, hkept⟩
  · cases h with
    | same h =>
      have hf := SameFlags.of_block h
      exact Or.inl ⟨hf.noFull hnone, (hf.unread true).trans hunread, hf.drain ▸ hbegun⟩
    | wake =>
      exact Or.inl ⟨fun j => by rw [wake_bank]; exact hnone j, by rw [wake_bank]; exact hunread,
        hbegun⟩
    | receive i data rwptr hacc hburst =>
      obtain ⟨n, hn⟩ := Option.isSome_iff_exists.mp hbegun
      have hzero : n = 0 := by simpa [hn] using hburst ht.2.1
      have hread : ∀ j, (s.hw.bank j).unread = false := by
        intro j
        cases hu : (s.hw.bank j).unread with
        | false => rfl
        | true =>
          rcases (hs.intact ht).orphan j hu with hfull | ⟨p, hp⟩
          · exact absurd (hfull.symm.trans (hnone j)) (by decide)
          · simp [hn, hzero] at hp
      refine Or.inr ⟨⟨0, by simp [hn, hzero]⟩, Or.inl (receive_sta ..), ?_, fun j hu => ?_⟩
      · cases i with
        | false =>
          right
          simpa using hnone true
        | true =>
          left
          simpa using hnone false
      · simp only [receive_bank] at hu ⊢
        split
        · rfl
        · next hij =>
          rw [if_neg hij] at hu
          exact absurd (hu.symm.trans (hread j)) (by decide)
    | error errors signal herr => exact absurd (herr.symm.trans ht.1.1) (by decide)
    | stick i hstuck => exact absurd (hstuck.symm.trans ht.1.2.1) (by decide)
  · refine Or.inr ⟨?_, h.signal hsignal, ?_, h.kept hkept⟩
    · cases h with
      | same h => exact ⟨n, h.drain.trans hn⟩
      | wake => exact ⟨n, hn⟩
      | receive i data rwptr => exact ⟨n + 1, by simp [hn]⟩
      | error => exact ⟨n, hn⟩
      | stick => exact ⟨n, hn⟩
    · cases h with
      | same h =>
        rw [h.bank, h.bank]
        exact hone
      | wake =>
        rw [wake_bank, wake_bank]
        exact hone
      | receive i data rwptr hacc hburst =>
        have hall := hburst ht.2.1
        simp [hn] at hall
      | error => exact hone
      | stick i hstuck => exact absurd (hstuck.symm.trans ht.1.2.1) (by decide)

/-- What is known of a fallback read is carried through a pass. -/
theorem accounted_carried : Carried k b t c (Accounted k fallback) := by
  cases fallback with
  | false => exact Carried.imp fun _ => kept_carried
  | true => exact Carried.imp fun ht => fallback_carried ht

/-! ## The end of a read-out -/

section Outcome

variable {cmd l : Byte} {data : List Byte}

/-- A whole read-out has seen the message, or missed it. -/
theorem ReadOut.outcome (h : ReadOut k fallback i (cmd :: data) (some l) s)
    (hlen : data.length = min l.toNat asfBlockMaxBytes) :
    ((s.hw.bank i).seen = true ∧ (s.hw.bank i).late = false) ∨ Missed k fallback i s := by
  refine h.message.imp (fun hm => ⟨?_, hm.late⟩) id
  rw [Bank.seen, decide_eq_true_iff, Bank.readable, hm.len l rfl, hm.got, List.length_cons, hlen]
  omega

/-- A bank with a message it has missed has not seen it. -/
theorem Missed.unseen (h : Missed k fallback i s) : (s.hw.bank i).seen = false := by
  rw [Bank.seen, decide_eq_false_iff_not, Bank.readable, h.got]
  omega

/-- The bytes read off a bank decode to its notifier when the length and, for a message long
enough, the first payload byte agree. -/
theorem Bank.notifier_eq {bank : Bank} (hcmd : bank.data.getD 0 0 = cmd)
    (hshort : asfHostNotifyLen ≤ bank.rwptr.toNat ↔ asfHostNotifyLen ≤ data.length)
    (hpayload : asfHostNotifyLen ≤ data.length → bank.data.getD 1 0 = data.getD 0 0) :
    bank.notifier = hostNotifyAddr cmd data := by
  unfold Bank.notifier hostNotifyAddr
  simp only [hcmd, hshort]
  by_cases hthree : asfHostNotifyLen ≤ data.length
  · have hfirst : bank.data.getD 1 0 = data.getD 0 0 := hpayload hthree
    have hodd : data.getD 0 0 &&& 1 ≠ 0 ↔ ¬ (data.getD 0 0)[0] = false := by
      rw [not_iff_not]
      exact and_bit_eq_zero _ 0 (by decide)
    rw [hfirst]
    by_cases hvalid : cmd = asfHostAddr <<< 1 ∧ asfHostNotifyLen ≤ data.length ∧
        (data.getD 0 0).getLsbD 0 = false ∧ 0x08 ≤ (data.getD 0 0 >>> 1).toNat ∧
        (data.getD 0 0 >>> 1).toNat ≤ 0x77
    · obtain ⟨hc, hl, ho, hlo, hhi⟩ := hvalid
      rw [if_pos ⟨hc, hl, ho, hlo, hhi⟩, if_neg]
      have heven : (data.getD 0 0)[0] = false := ho
      rw [hodd]
      simp only [hc, heven, ne_eq, not_true_eq_false, false_or, not_or]
      omega
    · rw [if_neg hvalid, if_pos]
      rw [hodd]
      by_contra hno
      refine hvalid ⟨?_, hthree, ?_, ?_, ?_⟩
      · by_contra hc
        exact hno (Or.inl hc)
      · by_contra ho
        exact hno (Or.inr (Or.inr (Or.inl ho)))
      · by_contra hlo
        exact hno (Or.inr (Or.inr (Or.inr (Or.inl (by omega)))))
      · by_contra hhi
        exact hno (Or.inr (Or.inr (Or.inr (Or.inr (by omega)))))
  · rw [if_neg (fun h => hthree h.2.1), if_pos (Or.inr (Or.inl (by omega)))]

/-- A payload is long enough exactly when its length register says so. -/
theorem long_enough (hlen : data.length = min l.toNat asfBlockMaxBytes) :
    asfHostNotifyLen ≤ l.toNat ↔ asfHostNotifyLen ≤ data.length := by
  rw [hlen]
  simp only [asfHostNotifyLen, asfBlockMaxBytes]
  omega

/-- The bytes of a whole read-out decode to the notifier of the message. -/
theorem Matches.notifier (h : Matches i (cmd :: data) (some l) s)
    (hlen : data.length = min l.toNat asfBlockMaxBytes) :
    (s.hw.bank i).notifier = hostNotifyAddr cmd data := by
  refine Bank.notifier_eq (h.data 0 (by simp)).symm ?_ fun hthree => ?_
  · rw [h.len l rfl]
    exact long_enough hlen
  · have hone := h.data 1 (by simp only [asfHostNotifyLen, List.length_cons] at *; omega)
    simpa using hone.symm

end Outcome

/-! ## Marking a bank consumed -/

/-- What is left of unread messages after a write that only clears flags. -/
theorem Intact.of_orderly (h : Intact s) (ho : s'.Orderly) (hlost : s'.hw.lost = s.hw.lost)
    (hslven : s'.hw.slven = s.hw.slven) (hactive : s'.asf.active = s.asf.active)
    (hunread : ∀ j, (s.hw.bank j).unread = false → (s'.hw.bank j).unread = false) : Intact s' where
  lost := hlost.trans h.lost
  orphan j hu := by
    rcases ho with hkept | ⟨hstray, _⟩
    · exact Or.inl (hkept j hu)
    · exact Or.inr hstray.arrived
  reset hr j := by
    rw [hslven] at hr
    exact hunread j (h.reset hr j)
  inactive ha j := by
    rw [hactive] at ha
    exact hunread j (h.inactive ha j)

section Consume

variable {bytes : List Byte} {len : Option Byte}

/-- The notifies that marking one bank consumed takes off the banks. -/
theorem taken_eq (hflags : ∀ j, v.getLsbD (Target.flagBit j) = decide (i = j)) (h : Target) :
    h.taken v = if (h.bank i).unread && (h.bank i).seen then (h.bank i).notifier.toList else [] := by
  have h2 : v[2] = decide (i = false) := hflags false
  have h3 : v[3] = decide (i = true) := hflags true
  unfold Target.taken
  cases i with
  | false => simp [h2, h3, Target.bank]
  | true => simp [h2, h3, Target.bank]

/-- A bank that was read out whole is accounted for once it is marked consumed; a message
that the read-out missed is left as a stray one. -/
theorem orderly_consumed (hflags : ∀ j, v.getLsbD (Target.flagBit j) = decide (i = j))
    (hbank : fallback = true → i = false) (hacc : if fallback then s.Fallback else s.Kept)
    (hstuck : ∀ j, (s.hw.bank j).stuck = false)
    (hout : ((s.hw.bank i).seen = true ∧ (s.hw.bank i).late = false) ∨ Missed k fallback i s) :
    (s.written t v .bnksel).Orderly := by
  have hother : ∀ j, i ≠ j → (s.written t v .bnksel).hw.bank j = s.hw.bank j := by
    intro j hij
    rw [written_bnksel_bank, if_neg]
    simp [hflags, hij]
  have hself : (s.written t v .bnksel).hw.bank i = (s.hw.bank i).consume := by
    rw [written_bnksel_bank, if_pos]
    simp [hflags]
  rcases hout with ⟨hseen, _⟩ | hmiss
  · -- everything unread in the bank has been read; the other bank is as before
    left
    have hread : ((s.written t v .bnksel).hw.bank i).unread = false := by
      rw [hself]
      simp [Bank.consume, hseen]
    intro j hu
    by_cases hij : i = j
    · subst hij
      exact absurd (hu.symm.trans hread) (by decide)
    · rw [hother j hij] at hu ⊢
      cases hf : fallback with
      | false =>
        rw [hf] at hacc
        exact hacc j hu
      | true =>
        rw [hf] at hacc
        have hzero := hbank hf
        subst hzero
        have hj : j = true := by simpa using (Ne.symm hij)
        subst hj
        rcases hacc with ⟨_, hunread, _⟩ | ⟨_, _, _, hkept⟩
        · exact absurd (hu.symm.trans hunread) (by decide)
        · exact hkept true hu
  · -- the message arrived during this read-out, so no other can
    right
    have hf := hmiss.fallback
    rw [hf] at hacc
    have hzero := hbank hf
    subst hzero
    rcases hacc with ⟨hnone, _⟩ | ⟨harr, hsignal, hone, hkept⟩
    · exact absurd (hmiss.full.symm.trans (hnone false)) (by decide)
    · have hfull1 : (s.hw.bank true).full = false := by
        rcases hone with h0 | h1
        · exact absurd (hmiss.full.symm.trans h0) (by decide)
        · exact h1
      have hunread1 : (s.hw.bank true).unread = false := by
        cases hu : (s.hw.bank true).unread with
        | false => rfl
        | true => exact absurd ((hkept true hu).symm.trans hfull1) (by decide)
      refine ⟨⟨fun j => ?_, ?_, harr⟩, hsignal⟩
      · cases j with
        | false =>
          rw [hself]
          simp [Bank.consume, hstuck]
        | true =>
          rw [hother true (by decide)]
          exact hfull1
      · rw [hother true (by decide)]
        exact hunread1

/-- What the write takes off the banks has been taken note of. -/
theorem owed_consumed {cmd l : Byte} {data : List Byte}
    (hflags : ∀ j, v.getLsbD (Target.flagBit j) = decide (i = j))
    (h : ReadOut k fallback i (cmd :: data) (some l) s)
    (hlen : data.length = min l.toNat asfBlockMaxBytes) (howed : (s.ghost.owed t).Subperm own) :
    ((s.written t v .bnksel).ghost.owed t).Subperm (own ++ (hostNotifyAddr cmd data).toList) := by
  have hright : (s.ghost.owed t ++ []).Subperm (own ++ (hostNotifyAddr cmd data).toList) := by
    rw [List.append_nil]
    exact howed.trans (List.sublist_append_left _ _).subperm
  rw [written_bnksel_owed, taken_eq hflags]
  rcases h.message with hm | hmiss
  · rw [hm.notifier hlen]
    split
    · exact howed.append (List.Subperm.refl _)
    · exact hright
  · rw [hmiss.unseen, Bool.and_false, if_neg (by decide)]
    exact hright

end Consume

/-! ## Single accesses of a read-out -/

section Accesses

variable (hc : c.Working) (hQ : Debtless t Q)
include hc hQ

/-- Reading the data window during a drain. -/
theorem at_index {Y : Byte → St → Prop} (hY : ∀ v, Carried k b t c (Y v))
    (hdata : c.dataEn = false) (hcalm : c.calm = false)
    (hstep : ∀ s, At k t c Q m own X s →
      Y ((s.hw.bank s.hw.selected).data.getD s.hw.rdptr 0) s.readByte) :
    Triple (rules k b call t) (At k t c Q m own X) (inb (asfIndex b.auxSmba))
      fun v => At k t c Q m own (Y v) := by
  refine own_op (fun v => stable_at hc hQ (hY v)) fun s hs hP _ =>
    ⟨.of_other (by simp) (by simp), fun v s' he => ?_⟩
  have hsees := hP.sees hc
  have hmode : s.hw.bnksel.getLsbD 7 = false := hsees.regs.dataEn.trans hdata
  simp only [exec, St.portRead_reg s (decode_asfIndex b.auxSmba), Target.read, hmode,
    Bool.false_eq_true, if_false, Option.some.injEq, Prod.mk.injEq] at he
  obtain ⟨hv, rfl⟩ := he
  have hown : OwnStep k t s s.readByte := OwnStep.readByte (Or.inl hP.view.holder)
  refine ⟨hown, ?_, hQ _ _ hown.stays hP.known, fun hk => ?_, hP.owed, ?_⟩
  · exact {
      holder := hP.view.holder
      engaged := hP.view.engaged
      listening := hP.view.listening
      want := hP.view.want
      held := hP.view.held
      fresh := hP.view.fresh
      sees := fun _ => hsees.readByte hcalm }
  · exact (hP.budget hk).of_flags (.readByte s)
  · rw [← hv]
    exact hstep s hP

/-- The payload bytes of a message, one at a time. -/
theorem readPayload_spec {p : Prop} {len : Option Byte} (hdata : c.dataEn = false)
    (hcalm : c.calm = false) (count : ℕ) (bytes : List Byte) :
    Triple (rules k b call t)
      (At k t c Q m own fun s => Accounted k fallback s ∧ (p → ReadOut k fallback i bytes len s))
      (readPayload b.auxSmba count) fun data s => data.length = count ∧
        At k t c Q m own
          (fun s => Accounted k fallback s ∧ (p → ReadOut k fallback i (bytes ++ data) len s)) s := by
  induction count generalizing bytes with
  | zero =>
    refine Triple.ret fun s _ h => ⟨rfl, h.mono fun hX => ⟨hX.1, fun hp => ?_⟩⟩
    rw [List.append_nil]
    exact hX.2 hp
  | succ count ih =>
    refine Triple.bind (at_index (Y := fun v s => Accounted k fallback s ∧
      (p → ReadOut k fallback i (bytes ++ [v]) len s)) hc hQ
      (fun v => accounted_carried.and (Carried.imp fun _ => readOut_carried)) hdata hcalm
      fun s h => ⟨h.here.1.of_flags (.readByte s), fun hp => ?_⟩) fun v => ?_
    · have hpos := h.here.2 hp
      have hbyte := hpos.read
      rw [hpos.selected, hpos.rdptr]
      exact hbyte
    · refine Triple.bind (ih (bytes ++ [v])) fun rest => Triple.pure_pre fun hlen => ?_
      refine Triple.ret fun s _ h => ⟨by simp [hlen], h.mono fun hX => ⟨hX.1, fun hp => ?_⟩⟩
      have happ : bytes ++ v :: rest = bytes ++ [v] ++ rest := by simp
      rw [happ]
      exact hX.2 hp

/-- Selecting a bank without touching the flags. -/
theorem select_spec {reg : Byte} (hdata : c.dataEn = false) (hreg : getElem reg 7 (fits rfl) = false) :
    Triple (rules k b call t)
      (At k t c Q m own fun s =>
        Accounted k fallback s ∧ (fallback = false → (s.hw.bank i).full = true))
      (outb (assignBit asfBnkSel (reg &&& ~~~asfBnkFull) i) (asfDataBnkSel b.auxSmba))
      fun _ => At k t { c with calm := false } Q m own fun s =>
        Accounted k fallback s ∧ (c.calm = true → Selected fallback i s) := by
  have h2 : (assignBit asfBnkSel (reg &&& ~~~asfBnkFull) i)[2] = false := by simp
  have h3 : (assignBit asfBnkSel (reg &&& ~~~asfBnkFull) i)[3] = false := by simp
  have h4 : (assignBit asfBnkSel (reg &&& ~~~asfBnkFull) i)[4] = i := by simp
  have h7 : (assignBit asfBnkSel (reg &&& ~~~asfBnkFull) i)[7] = false := by simp [hreg]
  refine at_write hc hQ (accounted_carried.and (Carried.imp fun _ => selected_carried))
    (decode_asfDataBnkSel _) (by simp) ⟨rfl, rfl, rfl⟩
    (fun s _ _ _ => .of_bnksel (decode_asfDataBnkSel _) h2 h3) fun s hs hP hsees => ?_
  have hbank : ∀ j, (s.written t (assignBit asfBnkSel (reg &&& ~~~asfBnkFull) i)
      .bnksel).hw.bank j = s.hw.bank j := by
    intro j
    rw [written_bnksel_bank, if_neg]
    cases j
    · simp [Target.flagBit, BitVec.getLsbD_eq_getElem]
    · simp [Target.flagBit, BitVec.getLsbD_eq_getElem]
  have hflags : SameFlags s
      (s.written t (assignBit asfBnkSel (reg &&& ~~~asfBnkFull) i) .bnksel) :=
    ⟨fun j => by rw [hbank], fun j => by rw [hbank], rfl, rfl, rfl⟩
  refine ⟨fun ht => (hs.intact ht).written_bnksel h2 h3, ?_, fun hk =>
    (hP.budget hk).of_flags hflags, fun ht => ?_, hP.here.1.of_flags hflags, fun hp => ?_⟩
  · have hw := hsees.write_bnksel (t := t) h2 h3
    have heq : c.setDataEn ((assignBit asfBnkSel (reg &&& ~~~asfBnkFull) i)[7]) = c := by
      rw [h7, Control.setDataEn, ← hdata]
    rw [heq] at hw
    exact hw.uncalm
  · simp only [written_bnksel_owed, Target.taken, BitVec.getLsbD_eq_getElem, Nat.reduceLT, h2, h3]
    simpa using hP.owed ht
  · have hpos := hsees.calm hp
    refine ⟨(written_bnksel_selected s t _).trans h4, hpos.rdptr, by simp [hpos.reading], ?_,
      fun hf => ?_⟩
    · rw [hbank]
      exact hpos.got i
    · rw [hbank]
      exact hP.here.2 hf

/-- Marking the bank consumed after its message was read out. -/
theorem consume_spec {p : Prop} {cmd l : Byte} {data : List Byte}
    (hopen : c.clean = false ∧ c.kept = false ∧ c.calm = false) (hdata : getElem v 7 (fits rfl) = c.dataEn)
    (hp : k.firmware = false → p)
    (hflags : ∀ j, v.getLsbD (Target.flagBit j) = decide (i = j))
    (hbank : fallback = true → i = false) (hlen : data.length = min l.toNat asfBlockMaxBytes) :
    Triple (rules k b call t)
      (At k t c Q m own fun s =>
        Accounted k fallback s ∧ (p → ReadOut k fallback i (cmd :: data) (some l) s))
      (outb v (asfDataBnkSel b.auxSmba))
      fun _ => At k t c Q (if fallback then m else m - 1)
        (own ++ (hostNotifyAddr cmd data).toList)
        fun s => (k.Tidy → s.Orderly) ∧ s.hw.reading = false := by
  refine at_write hc hQ (orderly_carried.and unread_carried) (decode_asfDataBnkSel _) (by simp)
    ⟨rfl, rfl, rfl⟩ (fun s hs hP _ => ?_) fun s hs hP hsees => ?_
  · exact {
      arm := fun _ h => by cases h
      reset := fun _ v' port' h hd => by
        cases h
        rw [decode_asfDataBnkSel] at hd
        cases hd
      consume := fun hfirm hlate v' port' h _ => by
        cases h
        left
        intro j hj _
        rw [hflags, decide_eq_true_iff] at hj
        subst hj
        rcases (hP.here.2 (hp hfirm)).outcome hlen with hseen | hmiss
        · exact hseen
        · exact absurd (hmiss.allowed.symm.trans hlate) (by decide) }
  · have horderly : k.Tidy → (s.written t v .bnksel).Orderly := fun ht =>
      orderly_consumed hflags hbank (hP.here.1 ht) (hs.sound ht.1).unstuck
        ((hP.here.2 (hp ht.known)).outcome hlen)
    have hset : v[2] = true ∨ v[3] = true := by
      have hi : v.getLsbD (Target.flagBit i) = true := by simp [hflags]
      cases i with
      | false => exact Or.inl hi
      | true => exact Or.inr hi
    refine ⟨fun ht => (hs.intact ht).of_orderly (horderly ht) rfl rfl rfl fun j =>
      written_bnksel_unread s t v, hsees.written_bnksel hopen.1 hopen.2.1 hopen.2.2 hdata,
      fun hk => ?_, fun ht => owed_consumed hflags (hP.here.2 (hp ht.known)) hlen (hP.owed ht),
      horderly, ?_⟩
    · cases hf : fallback with
      | true => exact (hP.budget hk).written_bnksel
      | false =>
        have hfull := (hP.here.2 (hp hk.1.2.2)).flagged hf
        exact ((hP.budget hk).consumed hfull ((hs.sound hk.1).unstuck i) (by simp [hflags])).2
    · rw [written_bnksel_reading]
      rcases hset with h2 | h3
      · simp [h2]
      · simp [h3]

/-- Reading one bank and marking it consumed. -/
theorem readBank_spec {reg : Byte} (hopen : c.clean = false ∧ c.kept = false)
    (hdata : c.dataEn = false) (hcalm : k.firmware = false → c.calm = true)
    (hreg : getElem reg 7 (fits rfl) = false) (hbank : fallback = true → i = false) :
    Triple (rules k b call t)
      (At k t c Q m own fun s =>
        Accounted k fallback s ∧ (fallback = false → (s.hw.bank i).full = true))
      (readBank b.auxSmba reg i) fun r =>
        At k t { c with calm := false } Q (if fallback then m else m - 1)
          (own ++ (hostNotifyAddr r.1 r.2).toList)
          fun s => (k.Tidy → s.Orderly) ∧ s.hw.reading = false := by
  have hc' : ({ c with calm := false } : Control).Working := ⟨hc.listening, hc.want⟩
  have hlength : ∀ cmd, Triple (rules k b call t)
      (At k t { c with calm := false } Q m own fun s =>
        Accounted k fallback s ∧ (c.calm = true → ReadOut k fallback i [cmd] none s))
      (inb (asfDataRwPtr b.auxSmba)) fun len s => True ∧
        At k t { c with calm := false } Q m own (fun s =>
          Accounted k fallback s ∧ (c.calm = true → ReadOut k fallback i [cmd] (some len) s)) s := by
    intro cmd
    refine at_read hc' hQ (fun v => accounted_carried.and (Carried.imp fun _ => readOut_carried))
      (decode_asfDataRwPtr _) (by simp) fun s _ hP _ => ⟨trivial, hP.here.1, fun hp => ?_⟩
    have hpos := hP.here.2 hp
    refine ⟨hpos.selected, hpos.begun, hpos.rdptr, hpos.reading, hpos.flagged,
      hpos.message.imp (fun hm => ⟨hm.late, hm.got, hm.data, fun l hl => ?_⟩) id⟩
    rw [← hpos.selected]
    exact Option.some.inj hl
  unfold readBank
  refine Triple.bind (select_spec hc hQ hdata hreg) fun _ => ?_
  refine Triple.bind (at_index (Y := fun cmd s => Accounted k fallback s ∧
    (c.calm = true → ReadOut k fallback i [cmd] none s)) hc' hQ
    (fun cmd => accounted_carried.and (Carried.imp fun _ => readOut_carried)) hdata rfl
    fun s h => ⟨h.here.1.of_flags (.readByte s), fun hp => ?_⟩) fun cmd => ?_
  · have hpos := h.here.2 hp
    rw [hpos.selected, hpos.rdptr]
    exact hpos.read
  refine Triple.bind (hlength cmd) fun len => Triple.pure_pre fun _ => ?_
  refine Triple.bind (readPayload_spec hc' hQ hdata rfl (min len.toNat asfBlockMaxBytes) [cmd])
    fun data => Triple.pure_pre fun hlen => ?_
  refine Triple.bind (consume_spec hc' hQ ⟨hopen.1, hopen.2, rfl⟩ ?_ hcalm (fun j => ?_) hbank hlen)
    fun _ => Triple.ret fun _ _ h => h
  · cases i
    · simp [hreg, hdata, Target.flagBit]
    · simp [hreg, hdata, Target.flagBit]
  · cases i <;> cases j <;> simp [Target.flagBit, BitVec.getLsbD_eq_getElem]

/-- Rewinding the read pointer ends a read-out, and decoding leaves a mark only. -/
theorem finishBank_spec (bank : ℕ) (cmd : Byte) (data : List Byte) :
    Triple (rules k b call t)
      (At k t { c with calm := false } Q m own fun s =>
        (k.Tidy → s.Orderly) ∧ s.hw.reading = false)
      (finishBank b.auxSmba bank cmd data) fun r s =>
        r = (some bank, hostNotifyAddr cmd data) ∧
          At k t c Q m own (fun s => k.Tidy → s.Orderly) s := by
  have hc' : ({ c with calm := false } : Control).Working := ⟨hc.listening, hc.want⟩
  have hrewind : Triple (rules k b call t)
      (At k t { c with calm := false } Q m own fun s =>
        (k.Tidy → s.Orderly) ∧ s.hw.reading = false)
      (outb 0 (asfSetDataRdPtr b.auxSmba))
      fun _ => At k t c Q m own fun s => k.Tidy → s.Orderly := by
    refine at_write hc' hQ orderly_carried (decode_asfSetDataRdPtr _) (by simp) ⟨rfl, rfl, rfl⟩
      (fun s _ _ _ => .of_port (by simp) (by simp)) fun s hs hP hsees => ?_
    have hflags : SameFlags s (s.written t 0 .setrdptr) :=
      ⟨fun j => by cases j <;> rfl, fun j => by cases j <;> rfl, rfl, rfl, rfl⟩
    refine ⟨fun ht => (hs.intact ht).of_flags hflags rfl rfl rfl, ?_,
      fun hk => (hP.budget hk).of_flags hflags, hP.owed, fun ht => ?_⟩
    · exact {
        regs := hsees.regs.update hsees.regs.lisaddr rfl hsees.regs.dataEn hsees.regs.mstr
          hsees.regs.clk rfl rfl rfl
        record := ⟨hsees.record.debt, hsees.record.flushed, hsees.record.erred,
          hsees.record.resetting⟩
        signalled := fun hcl ha hl j hj => by
          rw [hflags.full] at hj
          exact hsees.signalled hcl ha hl j hj
        empty := fun hcl ha => hflags.noFull (hsees.empty hcl ha)
        kept := fun hk => hflags.kept (hsees.kept hk)
        calm := fun _ => ⟨rfl, hP.here.2, fun j => by cases j <;> rfl⟩ }
    · exact (hP.here.1 ht).imp hflags.kept fun h => ⟨hflags.stray h.1, hflags.signal h.2⟩
  unfold finishBank
  refine Triple.bind hrewind fun _ => ?_
  cases haddr : hostNotifyAddr cmd data with
  | none => exact Triple.ret fun _ _ h => ⟨rfl, h⟩
  | some addr =>
    refine Triple.bind (at_mark hc hQ orderly_carried (by simp) (by simp) ⟨rfl, rfl, rfl⟩
      fun s hs hP _ => ⟨hs.intact, id, hP.budget, hP.here⟩) fun _ => ?_
    exact Triple.ret fun _ _ h => ⟨rfl, h⟩

end Accesses

/-! ## The flags as they are read -/

/-- No flag is set if both are clear. -/
theorem flags_zero : v &&& asfBnkFull = 0 ↔ ∀ j, v.getLsbD (Target.flagBit j) = false := by
  constructor
  · intro h j
    have hbit := congrArg (fun x : Byte => x.getLsbD (Target.flagBit j)) h
    cases j <;> simpa [Target.flagBit, BitVec.getLsbD_eq_getElem] using hbit
  · intro h
    have h2 : v[2] = false := h false
    have h3 : v[3] = false := h true
    refine BitVec.eq_of_getElem_eq fun j hj => ?_
    have hmask : asfBnkFull = bit 2 ||| bit 3 := by decide
    rw [hmask, BitVec.getElem_and, BitVec.getElem_or, getElem_bit, getElem_bit]
    by_cases hj2 : 2 = j
    · subst hj2
      simp [h2]
    · by_cases hj3 : 3 = j
      · subst hj3
        simp [h3]
      · simp [hj2, hj3]

/-- No bank was flagged and no signal outstanding: nothing is left unsignalled. -/
def Control.quieted (c : Control) (k : Setting) : Control :=
  { c with clean := true, kept := decide k.Tidy }

/-- The drain flushed both banks, or did not. -/
def Control.Flushes (c c' : Control) : Prop :=
  c' = c ∨ c' = { c with flushed := true, erred := true }

/-- With no bank full all is quiet. -/
theorem Sees.quieted (h : Sees c s) (hnone : s.NoFull) (hkept : k.Tidy → s.Kept) :
    Sees (c.quieted k) s where
  regs := ⟨h.regs.lisaddr, h.regs.rst, h.regs.dataEn, h.regs.mstr, h.regs.clk, h.regs.intrOn,
    h.regs.intrOff⟩
  record := ⟨h.record.debt, h.record.flushed, h.record.erred, h.record.resetting⟩
  signalled _ _ _ i hi := absurd (hi.symm.trans (hnone i)) (by decide)
  empty _ _ := hnone
  kept hk := hkept (of_decide_eq_true hk)
  calm hc := ⟨(h.calm hc).rdptr, (h.calm hc).reading, (h.calm hc).got⟩

section Passes

variable (hc : c.Working) (hQ : Debtless t Q)
include hc hQ

/-- Reading both flags: when neither is set and no signal was taken, the banks are quiet. -/
theorem readFlags_spec {allow : Bool} {Y : Byte → St → Prop} (hY : ∀ c v, Carried k b t c (Y v))
    (hkept : allow = false → ∀ s, X s → k.Tidy → s.Kept)
    (hfact : ∀ s, At k t c Q m own X s → Y s.hw.bnkselValue s) :
    Triple (rules k b call t) (At k t c Q m own X) (inb (asfDataBnkSel b.auxSmba)) fun v s =>
      (getElem v 7 (fits rfl) = c.dataEn ∧ (v &&& asfBnkFull ≠ 0 → Bounded k c → 1 ≤ m)) ∧
        At k t (if allow = false ∧ v &&& asfBnkFull = 0 then c.quieted k else c) Q m own (Y v) s := by
  have hwork : (c.quieted k).Working := ⟨hc.listening, hc.want⟩
  refine own_op (fun v => (Discipline.Stable.const _).and ?_) fun s hs hP _ =>
    ⟨.of_other (by simp) (by simp), fun v s' he => ?_⟩
  · split
    · exact stable_at hwork hQ (hY _ v)
    · exact stable_at hc hQ (hY _ v)
  · simp only [exec, St.portRead_reg s (decode_asfDataBnkSel b.auxSmba), Target.read,
      Option.some.injEq, Prod.mk.injEq] at he
    obtain ⟨rfl, rfl⟩ := he
    have hsees := hP.sees hc
    refine ⟨OwnStep.refl s, ⟨?_, fun hbusy hb => ?_⟩, ?_⟩
    · rw [← hsees.regs.dataEn]
      simp [Target.bnkselValue]
    · by_contra hm
      refine hbusy (flags_zero.mpr fun j => ?_)
      rw [bnkselValue_flag]
      cases hfull : (s.hw.bank j).full with
      | false => rfl
      | true => exact absurd ((hP.budget hb).pos_of_full hfull) hm
    · split
      · next hidle =>
        have hnone : s.NoFull := by
          intro j
          rw [← bnkselValue_flag]
          exact flags_zero.mp hidle.2 j
        refine ⟨⟨hP.view.holder, hP.view.engaged, hP.view.listening, hP.view.want, hP.view.held, hP.view.fresh,
          fun _ => hsees.quieted hnone (hkept hidle.1 s hP.here)⟩, hP.known, hP.budget, hP.owed,
          hfact s hP⟩
      · exact hP.mono fun _ => hfact s hP

end Passes

end HostNotify
