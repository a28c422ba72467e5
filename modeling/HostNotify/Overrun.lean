import HostNotify.Room
import HostNotify.Listening

/-!
# Overrunning the list

Hardware on which every transfer loses the bus and bank 0 is full of the same Host Notify for ever:
each drain of `piix4_access_asf` then decodes eight addresses. A request that reaches the bus makes
three listen windows, which is more than the list has room for.
-/

namespace HostNotify

open Bits Interleaving

/-- The driver slept last. -/
def asleep (past : List Exchange) : Bool := past.getLast?.any fun e =>
  match e.1 with
  | .usleepRange _ _ => true
  | _ => false

/-- A status with the collision bit after each sleep, and a stuck bank 0. -/
def colliding (smba : ℕ) : Answers := fun past o =>
  match o with
  | .inb port =>
    if port = smbHstSts smba then if asleep past then bit 3 else 0
    else if port = asfSlvSta smba then 0
    else if port = asfDataBnkSel smba then bit 2
    else if port = asfDataRwPtr smba then 3
    else asfHostAddr <<< 1
  | .requestMemRegionMuxed => true
  | .ioremap => true
  | .requestMuxedRegion _ _ => true
  | o => o.nothing

section Colliding

variable {smba : ℕ} {y z : Transcript}

/-- One operation whose answer is known. -/
theorem known_ends {h : Answers} {o : Op} {r : o.Ans} (hr : y.answer h o = r) (ho : o.Silent) :
    (Prog.perform o : Driver o.Ans).Ends (Transcript.exec h)
      (fun v z => v = r ∧ Collects y z [] 0 ∧ asleep z.past = asleep [⟨o, r⟩]) y := by
  refine .op rfl (.ret ⟨hr, ho.collects, ?_⟩)
  rw [Transcript.next, hr]
  simp [asleep]

/-- A read whose answer is known. -/
theorem inb_known {port : ℕ} {v : Byte} (hv : colliding smba y.past (.inb port) = v) :
    (inb port).Ends (Transcript.exec (colliding smba))
      (fun a z => a = v ∧ Collects y z [] 0 ∧ asleep z.past = false) y :=
  known_ends (h := colliding smba) (o := .inb port) hv trivial

/-- The payload of every message is the host's own address. -/
theorem readPayload_known {left : ℕ} :
    (readPayload smba left).Ends (Transcript.exec (colliding smba))
      (fun l z => l = List.replicate left (asfHostAddr <<< 1) ∧ Collects y z [] 0) y := by
  have hindex : ∀ past, colliding smba past (.inb (asfIndex smba)) = asfHostAddr <<< 1 := by
    intro past
    simp [colliding, asfIndex, smbHstSts, asfSlvSta, asfDataBnkSel, asfDataRwPtr]
  induction left generalizing y with
  | zero => exact .ret ⟨rfl, .refl y⟩
  | succ left ih =>
    unfold readPayload
    refine .bind (inb_known (hindex _)) ?_
    rintro _ z ⟨rfl, hz, -⟩
    refine .bind ih ?_
    rintro _ w ⟨rfl, hw⟩
    exact .ret ⟨rfl, hz.trans hw⟩

/-- The message that fills bank 0. -/
theorem finishBank_known {bank : ℕ} :
    (finishBank smba bank (asfHostAddr <<< 1) (List.replicate 3 (asfHostAddr <<< 1))).Ends
      (Transcript.exec (colliding smba)) (fun r z => r = (some bank, some 8) ∧ Collects y z [8] 0) y := by
  have haddr : hostNotifyAddr (asfHostAddr <<< 1) (List.replicate 3 (asfHostAddr <<< 1)) = some 8 := by
    decide
  unfold finishBank
  refine .bind (silent_ends (outb_silent _ _)) fun _ z hz => ?_
  rw [haddr]
  exact .op rfl (.ret ⟨rfl, by simpa using hz.trans (decoded_collects 8)⟩)

/-- Each bank read decodes the address 0x08. -/
theorem processBank_known {allow : Bool} {prefer : ℕ} (hsmba : y.asf.smba = smba) :
    (piix4AsfProcessBank allow prefer).Ends (Transcript.exec (colliding smba))
      (fun r z => r = (some 0, some 8) ∧ Collects y z [8] 0) y := by
  have hslvsta : ∀ past, colliding smba past (.inb (asfSlvSta smba)) = 0 := by
    intro past
    simp [colliding, smbHstSts, asfSlvSta]
  have hbnksel : ∀ past, colliding smba past (.inb (asfDataBnkSel smba)) = bit 2 := by
    intro past
    simp [colliding, smbHstSts, asfSlvSta, asfDataBnkSel]
  have hindex : ∀ past, colliding smba past (.inb (asfIndex smba)) = asfHostAddr <<< 1 := by
    intro past
    simp [colliding, asfIndex, smbHstSts, asfSlvSta, asfDataBnkSel, asfDataRwPtr]
  have hrwptr : ∀ past, colliding smba past (.inb (asfDataRwPtr smba)) = 3 := by
    intro past
    simp [colliding, smbHstSts, asfSlvSta, asfDataBnkSel, asfDataRwPtr]
  have herrorless : ¬ ((0 : Byte) &&& asfErrorStatus ≠ 0) := by decide
  unfold piix4AsfProcessBank
  refine .bind piix4Asf_collects ?_
  rintro _ z₁ ⟨rfl, -, h₁⟩
  rw [hsmba]
  refine .bind (inb_known (hslvsta _)) ?_
  rintro _ z₂ ⟨rfl, h₂, -⟩
  rw [if_neg herrorless]
  refine .bind (inb_known (hbnksel _)) ?_
  rintro _ z₃ ⟨rfl, h₃, -⟩
  have hchoose : chooseBank (bit 2) allow prefer = some false := by
    rw [chooseBank_eq]
    cases allow <;> rfl
  have hread : (readBank smba (bit 2) false).Ends (Transcript.exec (colliding smba))
      (fun r z => r = (asfHostAddr <<< 1, List.replicate 3 (asfHostAddr <<< 1)) ∧ Collects z₃ z [] 0) z₃ := by
    unfold readBank
    refine .bind (silent_ends (outb_silent _ _)) fun _ w₁ k₁ => ?_
    refine .bind (inb_known (hindex _)) ?_
    rintro _ w₂ ⟨rfl, k₂, -⟩
    refine .bind (inb_known (hrwptr _)) ?_
    rintro _ w₃ ⟨rfl, k₃, -⟩
    refine .bind readPayload_known ?_
    rintro _ w₄ ⟨rfl, k₄⟩
    refine .bind (silent_ends (outb_silent _ _)) fun _ w₅ k₅ => ?_
    exact .ret ⟨rfl, (((k₁.trans k₂).trans k₃).trans k₄).trans k₅⟩
  rw [hchoose]
  refine .bind hread ?_
  rintro _ z₄ ⟨rfl, h₄⟩
  refine finishBank_known.mono ?_
  rintro _ w ⟨rfl, hw⟩
  exact ⟨rfl, by simpa using (((h₁.trans h₂).trans h₃).trans h₄).trans hw⟩

/-- Every pass of a drain finds the bank full again. -/
theorem drainPasses_known (left i : ℕ) (n : Notifies) (hsmba : y.asf.smba = smba) :
    (drainPasses smba left i n).Ends (Transcript.exec (colliding smba))
      (fun _ z => Collects y z (List.replicate left 8) 0) y := by
  have hsta : ∀ past, colliding smba past (.inb (asfSta smba)) = asfHostAddr <<< 1 := by
    intro past
    simp [colliding, asfSta, smbHstSts, asfSlvSta, asfDataBnkSel, asfDataRwPtr]
  have hbnksel : ∀ past, colliding smba past (.inb (asfDataBnkSel smba)) = bit 2 := by
    intro past
    simp [colliding, smbHstSts, asfSlvSta, asfDataBnkSel]
  have hunsignalled : ¬ ((asfHostAddr <<< 1 : Byte) &&& bit asfStaSlvInt ≠ 0) := by decide
  have hpassive : (decide ((asfHostAddr <<< 1 : Byte) &&& bit asfStaSlvInt ≠ 0) || false) = false := by
    decide
  have hbusy : decide ((bit 2 : Byte) &&& asfBnkFull = 0) = false := by decide
  induction left generalizing i n y with
  | zero => exact .bind (silent_ends (banksIdle_silent _)) fun _ z hz => .ret hz
  | succ left ih =>
    have hsignal : (takeSignal smba).Ends (Transcript.exec (colliding smba))
        (fun r z => r = false ∧ Collects y z [] 0) y := by
      unfold takeSignal ackStatus
      refine .bind (Q := fun r z => r = asfHostAddr <<< 1 ∧ Collects y z [] 0) ?_ ?_
      · refine .bind (inb_known (hsta _)) ?_
        rintro _ z ⟨rfl, hz, -⟩
        dsimp only
        rw [if_neg hunsignalled]
        exact .ret ⟨rfl, hz⟩
      · rintro _ z ⟨rfl, hz⟩
        refine .bind (known_ends (o := .xchgPending false) (r := false) rfl trivial) ?_
        rintro _ w ⟨rfl, hw, -⟩
        exact .ret ⟨hpassive, hz.trans hw⟩
    unfold drainPasses
    refine .bind hsignal ?_
    rintro _ z ⟨rfl, hz⟩
    have hidle : (banksIdle smba).Ends (Transcript.exec (colliding smba))
        (fun r w => r = false ∧ Collects z w [] 0) z := by
      unfold banksIdle
      refine .bind (inb_known (hbnksel _)) ?_
      rintro _ w ⟨rfl, hw, -⟩
      exact .ret ⟨hbusy, hw⟩
    refine .bind hidle ?_
    rintro _ w ⟨rfl, hw⟩
    have hkept : w.asf.smba = smba := (hz.trans hw).smba.trans hsmba
    refine .bind (processBank_known hkept) ?_
    rintro _ u ⟨rfl, hu⟩
    refine (ih (i + 1) (n.push 8) (hu.smba.trans hkept)).mono fun _ v hv => ?_
    simpa [List.replicate_succ] using ((hz.trans hw).trans hu).trans hv

/-- A drain decodes eight messages. -/
theorem drain_known (n : Notifies) (hsmba : y.asf.smba = smba) :
    (piix4AsfDrain smba n).Ends (Transcript.exec (colliding smba))
      (fun _ z => Collects y z (List.replicate asfDrainMax 8) 1) y := by
  unfold piix4AsfDrain
  refine .bind (Q := fun _ z => Collects y z [] 1) (.op rfl (.ret drainBegin_collects)) fun _ z hz => ?_
  refine .bind (drainPasses_known asfDrainMax 0 n (hz.smba.trans hsmba)) fun _ w hw => ?_
  refine .bind (silent_ends ⟨trivial, fun _ => trivial⟩) fun _ u hu => ?_
  exact .ret (by simpa using (hz.trans hw).trans hu)

/-- A request that is not turned down loses the bus, whatever error code is made of that. -/
theorem accessWith_loses {classify : Bool → Byte → Int} {x : SmbusXfer} (hx : ¬ x.Rejected)
    (hfailed : classify false (bit 3) ≠ 0) :
    (accessWith (fun smba => transactionWith classify smba false) x).Ends
      (Transcript.exec (colliding x.smba))
      (fun r z => r = (classify false (bit 3), x.data) ∧ Collects y z [] 0) y := by
  have hidle : ∀ past, asleep past = false → colliding x.smba past (.inb (smbHstSts x.smba)) = 0 := by
    intro past hpast
    simp [colliding, hpast]
  have hlost : ∀ past, asleep past = true → colliding x.smba past (.inb (smbHstSts x.smba)) = bit 3 := by
    intro past hpast
    simp [colliding, hpast]
  have hdone : ¬ ((bit 3 : Byte) &&& bit 0 ≠ 0) := by decide
  -- one read of a port below the slave registers
  have hdebug : ∀ z, (transactionDebug x.smba).Ends (Transcript.exec (colliding x.smba))
      (fun _ w => Collects z w [] 0 ∧ asleep w.past = false) z := by
    intro z
    unfold transactionDebug
    refine .bind (known_ends (o := .dynamicDebug) (r := false) rfl trivial) ?_
    rintro _ w ⟨rfl, hw, hawake⟩
    exact .ret ⟨hw, hawake⟩
  have hpoll : ∀ z, asleep z.past = true → (pollHost x.smba (maxTimeout - 1) 0).Ends
      (Transcript.exec (colliding x.smba))
      (fun r w => r = (false, bit 3) ∧ Collects z w [] 0 ∧ asleep w.past = false) z := by
    intro z hz
    have hmax : maxTimeout - 1 = 498 + 1 := rfl
    rw [hmax]
    unfold pollHost
    refine .bind (inb_known (hlost _ hz)) ?_
    rintro _ w ⟨rfl, hw⟩
    rw [if_neg hdone]
    exact .ret ⟨rfl, hw⟩
  have hrun : ∀ z, (runTransaction classify x.smba false).Ends (Transcript.exec (colliding x.smba))
      (fun r w => r = classify false (bit 3) ∧ Collects z w [] 0) z := by
    intro z
    unfold runTransaction
    refine .bind (silent_ends (inb_silent _)) fun cnt z₁ h₁ => ?_
    refine .bind (silent_ends (outb_silent _ _)) fun _ z₂ h₂ => ?_
    refine .bind (known_ends (o := .usleepRange 250 500) (r := ()) rfl trivial) ?_
    rintro _ z₃ ⟨-, h₃, hasleep⟩
    refine .bind (hpoll z₃ hasleep) ?_
    rintro _ z₄ ⟨rfl, h₄, hawake⟩
    refine .bind (inb_known (hidle _ hawake)) ?_
    rintro _ z₅ ⟨rfl, h₅, -⟩
    refine .bind (silent_ends (inb_silent _)) fun _ z₆ h₆ => ?_
    refine .bind (hdebug z₆) fun _ z₇ h₇ => ?_
    exact .ret ⟨rfl, (((((h₁.trans h₂).trans h₃).trans h₄).trans h₅).trans h₆).trans h₇.1⟩
  have htransaction : ∀ z, (transactionWith classify x.smba false).Ends
      (Transcript.exec (colliding x.smba))
      (fun r w => r = classify false (bit 3) ∧ Collects z w [] 0) z := by
    intro z
    unfold transactionWith
    refine .bind (hdebug z) fun _ w hw => ?_
    refine .bind (inb_known (hidle _ hw.2)) ?_
    rintro _ u ⟨rfl, hu, -⟩
    rw [if_neg fun h => h rfl]
    exact (hrun u).mono fun _ v hv => ⟨hv.1, (hw.1.trans hu).trans hv.2⟩
  unfold accessWith
  refine .bind (setup_accepted hx) ?_
  rintro _ z ⟨⟨size, rfl⟩, hz⟩
  refine .bind (silent_ends (outb_silent _ _)) fun _ w hw => ?_
  refine .bind (htransaction w) ?_
  rintro _ u ⟨rfl, hu⟩
  rw [if_pos hfailed]
  exact .ret ⟨rfl, (hz.trans hw).trans hu⟩

/-- Every access loses the bus. -/
theorem access_loses {x : SmbusXfer} (hx : ¬ x.Rejected) :
    (piix4Access x).Ends (Transcript.exec (colliding x.smba))
      (fun r z => r = (-eagain, x.data) ∧ Collects y z [] 0) y := by
  have hcode : patchedResult false (bit 3) = -eagain := by decide
  have hfailed : patchedResult false (bit 3) ≠ 0 := by decide
  rw [← hcode]
  exact accessWith_loses hx hfailed

/-- The region is granted. -/
theorem regionRequest_granted (useMmio : Bool) :
    (piix4Sb800RegionRequest useMmio).Ends (Transcript.exec (colliding smba))
      (fun r z => r = 0 ∧ Collects y z [] 0) y := by
  cases useMmio with
  | true =>
    refine .bind (known_ends (o := .requestMemRegionMuxed) (r := true) rfl trivial) ?_
    rintro _ z ⟨rfl, hz, -⟩
    refine .bind (known_ends (o := .ioremap) (r := true) rfl trivial) ?_
    rintro _ w ⟨rfl, hw, -⟩
    exact .ret ⟨rfl, hz.trans hw⟩
  | false =>
    refine .bind (known_ends (o := .requestMuxedRegion 0xcd6 2) (r := true) rfl trivial) ?_
    rintro _ z ⟨rfl, hz, -⟩
    exact .ret ⟨rfl, hz⟩

/-- Every attempt but the last is followed by a listen window, which finds the bank full. -/
theorem attempts_known {x : SmbusXfer} (hx : ¬ x.Rejected) (left : ℕ) (n : Notifies)
    (hsmba : y.asf.smba = x.smba) (hwant : y.asf.wantListen = true) :
    (attempts x left n).Ends (Transcript.exec (colliding x.smba))
      (fun _ z => Collects y z (List.replicate (asfDrainMax * left) 8) left) y := by
  have hagain : ¬ (-eagain : Int) ≠ -eagain := fun h => h rfl
  have hother : ¬ ((-eagain : Int) = -enxio) := by decide
  induction left generalizing n y with
  | zero =>
    unfold attempts
    refine .bind (silent_ends (masterMode_silent _)) fun _ z hz => ?_
    refine .bind (silent_ends (access_silent x)) fun r w hw => ?_
    refine .bind piix4Asf_collects fun a u hu => ?_
    have hnone : Collects y u [] 0 := (hz.trans hw).trans hu.2.2
    split
    · exact .ret hnone
    · exact .ret hnone
  | succ left ih =>
    unfold attempts
    refine .bind (silent_ends (masterMode_silent _)) fun _ z hz => ?_
    refine .bind (access_loses hx) ?_
    rintro _ w ⟨rfl, hw⟩
    refine .bind piix4Asf_collects ?_
    rintro _ u ⟨rfl, -, hu⟩
    have hlost : ¬ (((-eagain : Int) ≠ -eagain ∧ (-eagain : Int) ≠ -enxio) ∨
        (!w.asf.wantListen) = true) := by
      rw [(hz.trans hw).want, hwant]
      rintro (h | h)
      · exact hagain h.1
      · cases h
    rw [if_neg hlost]
    have hyield : (yieldBus x.smba n).Ends (Transcript.exec (colliding x.smba))
        (fun _ v => Collects u v (List.replicate asfDrainMax 8) 1) u := by
      unfold yieldBus
      refine .bind (silent_ends (setListening_silent true)) fun _ z₁ h₁ => ?_
      refine .bind (silent_ends (slaveArm_silent x.smba)) fun _ z₂ h₂ => ?_
      refine .bind (silent_ends ⟨trivial, fun _ => trivial⟩) fun _ z₃ h₃ => ?_
      refine .bind (silent_ends (holdOff_silent x.smba)) fun _ z₄ h₄ => ?_
      have hquiet := ((h₁.trans h₂).trans h₃).trans h₄
      have hkept : z₄.asf.smba = x.smba :=
        (((((hz.trans hw).trans hu).trans hquiet)).smba).trans hsmba
      refine (drain_known n hkept).mono fun _ v hv => ?_
      simpa using hquiet.trans hv
    refine .bind hyield ?_
    rintro ⟨wedged, n'⟩ v hv
    dsimp only
    rw [if_neg fun h => hother h.1]
    have hyv := ((hz.trans hw).trans hu).trans hv
    refine (ih n' (hyv.smba.trans hsmba) (hyv.want.trans hwant)).mono fun _ e he => ?_
    have hall := hyv.trans he
    have hsum : asfDrainMax + asfDrainMax * left = asfDrainMax * (left + 1) := by
      rw [Nat.mul_add, Nat.mul_one, Nat.add_comm]
    have hcount : 0 + 0 + 0 + 1 + left = left + 1 := by omega
    rw [List.nil_append, List.nil_append, List.nil_append, ← List.replicate_add, hsum, hcount] at hall
    exact hall

/-- Three listen windows overrun the list. -/
theorem accessAsf_overruns {x : SmbusXfer} {a : Piix4Asf} (hx : ¬ x.Rejected) (hactive : a.active = true)
    (hwant : a.wantListen = true) (hsmba : a.smba = x.smba) :
    (piix4AccessAsf x).Ends (Transcript.exec (colliding x.smba))
      (fun _ z => asfNotifyMax < (decoded z.past).length) ⟨a, []⟩ := by
  have hmany : asfNotifyMax < asfDrainMax * asfXferRetries := by decide
  unfold piix4AccessAsf
  refine .bind (Q := fun _ z => Collects ⟨a, []⟩ z [] 0 ∧ z.asf = a)
    (.op rfl (.ret ⟨Op.Silent.collects (o := .lock .asf) trivial, rfl⟩)) ?_
  rintro _ y ⟨hy, hasf⟩
  refine .bind piix4Asf_collects ?_
  rintro _ z ⟨rfl, hasf', hz⟩
  rw [hasf, hactive, if_neg (by simp)]
  refine .bind piix4Asf_collects ?_
  rintro _ w ⟨rfl, -, hw⟩
  refine .bind (regionRequest_granted _) ?_
  rintro _ u ⟨rfl, hu⟩
  rw [if_neg fun h => h rfl]
  have hbefore : Collects ⟨a, []⟩ u [] 0 := ((hy.trans hz).trans hw).trans hu
  -- what the locked part decodes
  have hlocked : (accessAsfLocked x).Ends (Transcript.exec (colliding x.smba))
      (fun _ v => asfNotifyMax < (decoded v.past).length) u := by
    unfold accessAsfLocked
    refine .bind (drainListening_collected x.smba u) ?_
    rintro n v ⟨d, k, hd, -⟩
    have hav := hbefore.trans hd
    refine .bind (attempts_known hx asfXferRetries n (hav.smba.trans hsmba) (hav.want.trans hwant)) ?_
    rintro ⟨result, data, n'⟩ e he
    refine .bind piix4Asf_collects ?_
    rintro _ f ⟨rfl, -, hf⟩
    have hlong : ∀ g, Collects f g [] 0 → asfNotifyMax < (decoded g.past).length := by
      intro g hg
      have hall := ((hav.trans he).trans hf).trans hg
      rw [hall.decoded, List.append_nil, List.append_nil, List.length_append, List.length_append,
        List.length_replicate]
      omega
    split
    · refine .bind (silent_ends (setListening_silent true)) fun _ g hg => ?_
      refine .bind (silent_ends (slaveArm_silent _)) fun _ i hi => ?_
      exact .ret (hlong i (hg.trans hi))
    · exact .ret (hlong f (.refl f))
  refine .bind hlocked ?_
  rintro ⟨result, data, n⟩ v hv
  refine .bind piix4Asf_collects ?_
  rintro _ e ⟨rfl, -, he⟩
  refine .bind (silent_ends (regionRelease_silent _)) fun _ f hf => ?_
  refine .bind (silent_ends ⟨trivial, fun _ => trivial⟩) fun _ g hg => ?_
  refine .bind (silent_ends ⟨trivial, fun _ => trivial⟩) fun _ i hi => ?_
  refine .bind (deliver_passes n i) ?_
  rintro _ j ⟨p, l, hj, -⟩
  refine .ret ?_
  have hafter := ((he.trans hf).trans hg).trans hi
  rw [hj.decoded, hafter.decoded]
  simpa using hv

end Colliding

/-! ## No room -/

/-- Nothing is dropped, whatever the hardware answers, where `piix4_access_asf` makes no listen window:
an inactive or deaf target, or a request that is turned down before it reaches the bus. Elsewhere
its windows can overrun the list. The interrupt thread always has room. -/
theorem notifies_fit (x : SmbusXfer) (a : Piix4Asf) (hsmba : a.active = true → a.smba = x.smba) :
    ((∀ h, (piix4AccessAsf x).Ends (Transcript.exec h) (fun _ z => Roomy z.past) ⟨a, []⟩) ↔
      a.active = false ∨ a.wantListen = false ∨ x.Rejected) ∧
    (∀ h, (piix4AccessAsf x).Ends (Transcript.exec h)
      (fun _ z => drains z.past ≤ 2 → Roomy z.past) ⟨a, []⟩) ∧
    ∀ h, piix4AsfIrqThread.Ends (Transcript.exec h) (fun _ z => Roomy z.past) ⟨a, []⟩ := by
  refine ⟨⟨fun hroom => ?_, fun hcond h => ?_⟩, fun h => ?_, fun h => ?_⟩
  · by_contra hno
    rw [not_or, not_or, Bool.not_eq_false, Bool.not_eq_false] at hno
    obtain ⟨hactive, hwant, hx⟩ := hno
    have hover := accessAsf_overruns hx hactive hwant (hsmba hactive)
    obtain ⟨r, z, -, hfits, hlong⟩ := ((hroom (colliding x.smba)).and hover).runAlone
    exact absurd hfits.fits (Nat.not_le_of_lt hlong)
  · exact (accessAsf_hands x ⟨a, []⟩).mono fun _ z hz => (hz.2 hcond).few (by decide)
  · exact (accessAsf_hands x ⟨a, []⟩).mono fun _ z hz => hz.1.roomy
  · exact (irqThread_hands ⟨a, []⟩).mono fun _ z hz => hz.few (Nat.le_refl 2)

/-- A target block that listens. -/
def Piix4Asf.serving : Piix4Asf :=
  { Piix4Asf.loaded with smba := 0xb20, active := true, wantListen := true, listening := true }

/-- A byte read at the same block. -/
def SmbusXfer.collided : SmbusXfer :=
  { smba := 0xb20, addr := 0x2c, read := true, command := 0, size := .byteData, data := fun _ => 0 }

/-- The request is one that reaches the bus. -/
theorem SmbusXfer.collided_accepted : ¬ SmbusXfer.collided.Rejected := by
  rintro (h | ⟨h, -⟩)
  · cases h
  · cases h

/-- Without a listener the notifies of the first drain fit. -/
theorem notifies_fit_deaf :
    (∀ h, (piix4AccessAsf SmbusXfer.collided).Ends (Transcript.exec h) (fun _ z => Roomy z.past)
      ⟨{ Piix4Asf.serving with wantListen := false }, []⟩) ∧
    ¬ (∀ h, (piix4AccessAsf SmbusXfer.collided).Ends (Transcript.exec h) (fun _ z => Roomy z.past)
      ⟨Piix4Asf.serving, []⟩) := by
  refine ⟨(notifies_fit _ _ fun _ => rfl).1.mpr (Or.inr (Or.inl rfl)), fun hroom => ?_⟩
  rcases (notifies_fit _ _ fun _ => rfl).1.mp hroom with h | h | h
  · cases h
  · cases h
  · exact SmbusXfer.collided_accepted h

/-- A transfer that loses the bus four times on a stuck bank. -/
theorem notifies_dropped :
    ∃ r z, (piix4AccessAsf SmbusXfer.collided).runAlone (Transcript.exec (colliding 0xb20))
        ⟨Piix4Asf.serving, []⟩ = some (r, z) ∧ ¬ Roomy z.past := by
  obtain ⟨r, z, hrun, hlong⟩ :=
    (accessAsf_overruns (a := Piix4Asf.serving) SmbusXfer.collided_accepted rfl rfl rfl).runAlone
  exact ⟨r, z, hrun, fun hfits => absurd hfits.fits (Nat.not_le_of_lt hlong)⟩

end HostNotify
