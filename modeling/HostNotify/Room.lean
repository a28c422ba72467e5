import HostNotify.Transcript
import HostNotify.Transaction
import HostNotify.QuietDrain

/-!
# Room for the addresses collected in one call

A drain reads at most eight banks and the list has room for two drains. `piix4_access_asf` drains
once to take a listening slave off the bus and once for every attempt that lost the bus, so a
transfer that loses the bus often enough overruns the list; the interrupt thread never does.
-/

namespace HostNotify

open Bits Interleaving

/-! ## What happened in a call -/

/-- The address decoded by this operation. -/
def Exchange.decodes : Exchange → Option ℕ
  | ⟨.mark (.decoded a), _⟩ => some a
  | _ => none

/-- The address handed to the I2C core by this operation. -/
def Exchange.notifies : Exchange → Option ℕ
  | ⟨.i2cHandleSmbusHostNotify a, _⟩ => some a
  | _ => none

/-- The answer to a question of `piix4_asf_deliver`. -/
def Exchange.permits : Exchange → Option Bool
  | ⟨.deliverOk, r⟩ => some r
  | ⟨.auxAdapter, r⟩ => some r
  | _ => none

/-- The beginning of a drain. -/
def Exchange.drains : Exchange → Bool
  | ⟨.mark .drainBegin, _⟩ => true
  | _ => false

/-- The addresses decoded, in order. -/
def decoded (l : List Exchange) : List ℕ := l.filterMap Exchange.decodes

/-- The addresses handed to the I2C core, in order. -/
def notified (l : List Exchange) : List ℕ := l.filterMap Exchange.notifies

/-- Whether delivery was permitted whenever `piix4_asf_deliver` asked. -/
def Permitted (l : List Exchange) : Prop := ∀ r ∈ l.filterMap Exchange.permits, r = true

/-- The number of drains. -/
def drains (l : List Exchange) : ℕ := l.countP Exchange.drains

/-- Nothing decoded was dropped: there was room, and what delivery passed on is what was decoded. -/
structure Roomy (l : List Exchange) : Prop where
  fits : (decoded l).length ≤ asfNotifyMax
  handed : Permitted l → notified l = decoded l

/-- From `y` to `z` the addresses `d` are decoded in `k` drains, and nothing is delivered. -/
structure Collects (y z : Transcript) (d : List ℕ) (k : ℕ) : Prop where
  decoded : decoded z.past = decoded y.past ++ d
  drains : drains z.past = drains y.past + k
  notified : notified z.past = notified y.past
  permits : z.past.filterMap Exchange.permits = y.past.filterMap Exchange.permits
  want : z.asf.wantListen = y.asf.wantListen
  smba : z.asf.smba = y.asf.smba

variable {h : Answers} {x y z w : Transcript} {d d' : List ℕ} {k k' : ℕ}

/-- Nothing is collected where nothing happens. -/
theorem Collects.refl (y : Transcript) : Collects y y [] 0 :=
  ⟨(List.append_nil _).symm, rfl, rfl, rfl, rfl, rfl⟩

/-- What two parts collect is collected one after the other. -/
theorem Collects.trans (hyz : Collects y z d k) (hzw : Collects z w d' k') :
    Collects y w (d ++ d') (k + k') where
  decoded := by rw [hzw.decoded, hyz.decoded, List.append_assoc]
  drains := by rw [hzw.drains, hyz.drains, Nat.add_assoc]
  notified := hzw.notified.trans hyz.notified
  permits := hzw.permits.trans hyz.permits
  want := hzw.want.trans hyz.want
  smba := hzw.smba.trans hyz.smba

/-! ## Operations that decode nothing -/

/-- The operation leaves the account and the driver's intent alone. -/
def Op.Silent : Op → Prop
  | .mark (.decoded _) | .mark .drainBegin | .i2cHandleSmbusHostNotify _ | .deliverOk | .auxAdapter =>
    False
  | .setAsf f => ∀ a, (f a).wantListen = a.wantListen ∧ (f a).smba = a.smba
  | _ => True

/-- A silent operation collects nothing. -/
theorem Op.Silent.collects {o : Op} (ho : o.Silent) : Collects y (y.next h o) [] 0 := by
  have hdecodes : ∀ r, Exchange.decodes ⟨o, r⟩ = none := by
    intro r
    cases o with
    | mark m => cases m <;> first | rfl | exact ho.elim
    | _ => rfl
  have hnotifies : ∀ r, Exchange.notifies ⟨o, r⟩ = none := by
    intro r
    cases o with
    | i2cHandleSmbusHostNotify a => exact ho.elim
    | _ => rfl
  have hpermits : ∀ r, Exchange.permits ⟨o, r⟩ = none := by
    intro r
    cases o with
    | deliverOk => exact ho.elim
    | auxAdapter => exact ho.elim
    | _ => rfl
  have hdrains : ∀ r, Exchange.drains ⟨o, r⟩ = false := by
    intro r
    cases o with
    | mark m => cases m <;> first | rfl | exact ho.elim
    | _ => rfl
  refine ⟨?_, ?_, ?_, ?_, ?_, ?_⟩
  · simp [Transcript.next, HostNotify.decoded, hdecodes]
  · simp [Transcript.next, HostNotify.drains, hdrains]
  · simp [Transcript.next, HostNotify.notified, hnotifies]
  · simp [Transcript.next, hpermits]
  · cases o with
    | setAsf f => exact (ho y.asf).1
    | _ => rfl
  · cases o with
    | setAsf f => exact (ho y.asf).2
    | _ => rfl

/-- Silent code collects nothing. -/
theorem silent_ends {A : Type} {p : Driver A} (hp : p.AllOps Op.Silent) :
    p.Ends (Transcript.exec h) (fun _ z => Collects y z [] 0) y := by
  induction p generalizing y with
  | ret a => exact .refl y
  | op o next ih =>
    refine .op rfl ?_
    refine (ih _ (hp.2 _)).mono fun _ z hz => ?_
    exact (hp.1.collects (h := h)).trans hz

/-- Reading a port is silent. -/
theorem inb_silent (port : ℕ) : (inb port).AllOps Op.Silent := ⟨trivial, fun _ => trivial⟩

/-- Writing a port is silent. -/
theorem outb_silent (v : Byte) (port : ℕ) : (outb v port).AllOps Op.Silent := ⟨trivial, fun _ => trivial⟩

/-- Changing a bit of a port is silent. -/
theorem updateIoport_silent (n port : ℕ) (set : Bool) :
    (piix4AsfUpdateIoport n port set).AllOps Op.Silent :=
  (inb_silent _).bind fun _ => outb_silent _ _

/-- Changing a bit of DecodeEn is silent. -/
theorem updateMmio_silent (n : ℕ) (set : Bool) : (piix4AsfUpdateMmio n set).AllOps Op.Silent :=
  Prog.AllOps.bind ⟨trivial, fun _ => trivial⟩ fun _ => ⟨trivial, fun _ => trivial⟩

/-- Routing port 0x07 is silent. -/
theorem bnkselDataEn_silent (smba : ℕ) (set : Bool) :
    (piix4AsfBnkselDataEn smba set).AllOps Op.Silent :=
  (inb_silent _).bind fun _ => outb_silent _ _

/-- Entering master mode collects nothing. -/
theorem masterMode_silent (smba : ℕ) : (piix4AsfMasterMode smba).AllOps Op.Silent :=
  (updateIoport_silent _ _ _).bind fun _ => (updateIoport_silent _ _ _).bind fun _ =>
    (updateIoport_silent _ _ _).bind fun _ => (outb_silent _ _).bind fun _ =>
      (updateMmio_silent _ _).bind fun _ => bnkselDataEn_silent _ _

/-- Arming the slave collects nothing. -/
theorem slaveArm_silent (smba : ℕ) : (piix4AsfSlaveArm smba).AllOps Op.Silent := by
  have hmark : (mark .armBegin).AllOps Op.Silent := ⟨trivial, fun _ => trivial⟩
  have hstatus : (piix4AsfClearStatus smba).AllOps Op.Silent :=
    (outb_silent _ _).bind fun _ => (outb_silent _ _).bind fun _ => outb_silent _ _
  exact hmark.bind fun _ => (outb_silent _ _).bind fun _ => hstatus.bind fun _ =>
    (bnkselDataEn_silent _ _).bind fun _ => (outb_silent _ _).bind fun _ =>
      (updateMmio_silent _ _).bind fun _ => (updateMmio_silent _ _).bind fun _ =>
        (updateIoport_silent _ _ _).bind fun _ => (updateIoport_silent _ _ _).bind fun _ =>
          (updateIoport_silent _ _ _).bind fun _ => updateIoport_silent _ _ _

/-- Holding the slave off collects nothing. -/
theorem holdOff_silent (smba : ℕ) : (holdOff smba).AllOps Op.Silent :=
  (updateIoport_silent _ _ _).bind fun _ => (updateIoport_silent _ _ _).bind fun _ =>
    ⟨trivial, fun _ => trivial⟩

/-- What stays on the ports of a transfer decodes nothing. -/
theorem plain_silent {A : Type} {p : Driver A} (hp : p.AllOps (Op.Plain fun _ => True)) :
    p.AllOps Op.Silent := by
  refine hp.mono fun o ho => ?_
  cases o <;> first | exact trivial | exact ho.elim

/-- An SMBus access as a whole decodes nothing. -/
theorem access_silent (x : SmbusXfer) : (piix4Access x).AllOps Op.Silent :=
  plain_silent (piix4Access_plain fun _ _ => trivial)

/-- Writing the block of a command decodes nothing. -/
theorem writeBlock_silent (smba : ℕ) (data : SmbusData) (left i : ℕ) :
    (writeBlock smba data left i).AllOps Op.Silent :=
  plain_silent (writeBlock_plain (fun _ _ => trivial) data left i)

/-- Asking for the region decodes nothing. -/
theorem regionRequest_silent (useMmio : Bool) : (piix4Sb800RegionRequest useMmio).AllOps Op.Silent := by
  cases useMmio with
  | true =>
    refine Prog.AllOps.bind ⟨trivial, fun _ => trivial⟩ fun got => ?_
    cases got with
    | false => exact trivial
    | true =>
      refine Prog.AllOps.bind ⟨trivial, fun _ => trivial⟩ fun mapped => ?_
      cases mapped with
      | false => exact ⟨trivial, fun _ => trivial⟩
      | true => exact trivial
  | false =>
    refine Prog.AllOps.bind ⟨trivial, fun _ => trivial⟩ fun got => ?_
    cases got with
    | false => exact trivial
    | true => exact trivial

/-- Giving the region up decodes nothing. -/
theorem regionRelease_silent (useMmio : Bool) : (piix4Sb800RegionRelease useMmio).AllOps Op.Silent := by
  cases useMmio with
  | true => exact ⟨trivial, fun _ => trivial⟩
  | false => exact ⟨trivial, fun _ => trivial⟩

/-- Reading a payload is silent; what is collected is decided afterwards. -/
theorem readPayload_silent (smba left : ℕ) : (readPayload smba left).AllOps Op.Silent := by
  induction left with
  | zero => exact trivial
  | succ left ih => exact (inb_silent _).bind fun _ => ih.bind fun _ => trivial

/-- Reading a bank is silent. -/
theorem readBank_silent (smba : ℕ) (reg : Byte) (i : Bool) : (readBank smba reg i).AllOps Op.Silent :=
  (outb_silent _ _).bind fun _ => (inb_silent _).bind fun _ => (inb_silent _).bind fun _ =>
    (readPayload_silent _ _).bind fun _ => (outb_silent _ _).bind fun _ => trivial

/-- Taking the signal is silent. -/
theorem takeSignal_silent (smba : ℕ) : (takeSignal smba).AllOps Op.Silent := by
  have hack : (ackStatus smba).AllOps Op.Silent := by
    refine (inb_silent _).bind fun sta => ?_
    dsimp only
    split
    · exact (outb_silent _ _).bind fun _ => trivial
    · exact trivial
  exact hack.bind fun _ => Prog.AllOps.bind ⟨trivial, fun _ => trivial⟩ fun _ => trivial

/-- Looking at the flags of the banks is silent. -/
theorem banksIdle_silent (smba : ℕ) : (banksIdle smba).AllOps Op.Silent :=
  (inb_silent _).bind fun _ => trivial

/-! ## Draining -/

/-- A list of addresses that were decoded, as far as there was room. -/
theorem take_collected (n n' : Notifies) (a : Option ℕ) (d : List ℕ)
    (hn : n'.addr = (n.addr ++ a.toList).take asfNotifyMax) :
    (n'.addr ++ d).take asfNotifyMax = (n.addr ++ (a.toList ++ d)).take asfNotifyMax := by
  rw [hn, take_take_append, List.append_assoc]

/-- An address is decoded. -/
theorem decoded_collects (a : ℕ) : Collects y (y.next h (.mark (.decoded a))) [a] 0 := by
  refine ⟨?_, ?_, ?_, ?_, rfl, rfl⟩
  · simp [Transcript.next, decoded, Exchange.decodes]
  · simp [Transcript.next, drains, Exchange.drains]
  · simp [Transcript.next, notified, Exchange.notifies]
  · simp [Transcript.next, Exchange.permits]

/-- What is decoded is returned. -/
theorem finishBank_collects (smba bank : ℕ) (cmd : Byte) (data : List Byte) :
    (finishBank smba bank cmd data).Ends (Transcript.exec h)
      (fun r z => r.1 = some bank ∧ Collects y z r.2.toList 0) y := by
  unfold finishBank
  refine .bind (silent_ends (outb_silent _ _)) fun _ z hz => ?_
  cases hostNotifyAddr cmd data with
  | none => exact .ret ⟨rfl, hz⟩
  | some a =>
    exact .op rfl (.ret ⟨rfl, by simpa using hz.trans (decoded_collects a)⟩)

/-- Processing a bank collects one address at most, and none if no bank was read. -/
theorem processBank_collects (allow : Bool) (prefer : ℕ) :
    (piix4AsfProcessBank allow prefer).Ends (Transcript.exec h)
      (fun r z => (r.1 = none → r.2 = none) ∧ Collects y z r.2.toList 0) y := by
  have hasf : piix4Asf.AllOps Op.Silent := ⟨trivial, fun _ => trivial⟩
  unfold piix4AsfProcessBank
  refine .bind (silent_ends hasf) fun a z₁ h₁ => ?_
  refine .bind (silent_ends (inb_silent _)) fun v z₂ h₂ => ?_
  have hfinish : ∀ bank cmd data z, Collects y z [] 0 →
      (finishBank a.smba bank cmd data).Ends (Transcript.exec h)
        (fun r z => (r.1 = none → r.2 = none) ∧ Collects y z r.2.toList 0) z := by
    intro bank cmd data z hz
    refine (finishBank_collects a.smba bank cmd data).mono fun r w hw => ⟨fun hnone => ?_, ?_⟩
    · rw [hw.1] at hnone
      cases hnone
    · simpa using hz.trans hw.2
  split
  · refine .bind (silent_ends (inb_silent _)) fun reg z₃ h₃ => ?_
    refine .bind (silent_ends (outb_silent _ _)) fun _ z₄ h₄ => ?_
    refine .bind (silent_ends ⟨trivial, fun _ => trivial⟩) fun _ z₅ h₅ => ?_
    exact hfinish _ _ _ _ ((((h₁.trans h₂).trans h₃).trans h₄).trans h₅)
  · refine .bind (silent_ends (inb_silent _)) fun reg z₃ h₃ => ?_
    split
    · exact .ret ⟨fun _ => rfl, (h₁.trans h₂).trans h₃⟩
    · refine .bind (silent_ends (readBank_silent _ _ _)) fun r z₄ h₄ => ?_
      exact hfinish _ _ _ _ (((h₁.trans h₂).trans h₃).trans h₄)

/-- The passes of a drain decode an address each at most. -/
theorem drainPasses_collects (smba left i : ℕ) (n : Notifies) (y : Transcript) :
    (drainPasses smba left i n).Ends (Transcript.exec h)
      (fun r z => ∃ d, Collects y z d 0 ∧ d.length ≤ left ∧
        r.2.addr = (n.addr ++ d).take asfNotifyMax) y := by
  have hnone : ∀ (left : ℕ) (n : Notifies) (y z : Transcript), Collects y z [] 0 →
      ∃ d, Collects y z d 0 ∧ d.length ≤ left ∧ n.addr = (n.addr ++ d).take asfNotifyMax :=
    fun left n y z hz =>
      ⟨[], hz, Nat.zero_le _, by rw [List.append_nil, List.take_of_length_le n.bounded]⟩
  induction left generalizing i n y with
  | zero => exact .bind (silent_ends (banksIdle_silent _)) fun idle z hz => .ret (hnone 0 n y z hz)
  | succ left ih =>
    have hpass : ∀ sig z, Collects y z [] 0 →
        (readPass sig i n fun n' => drainPasses smba left (i + 1) n').Ends (Transcript.exec h)
          (fun r z => ∃ d, Collects y z d 0 ∧ d.length ≤ left + 1 ∧
            r.2.addr = (n.addr ++ d).take asfNotifyMax) z := by
      intro sig z hz
      refine .bind (processBank_collects sig i) ?_
      rintro ⟨bank, a⟩ w ⟨hquit, hw⟩
      cases bank with
      | none =>
        obtain rfl : a = none := hquit rfl
        exact .ret (hnone _ n y w (hz.trans hw))
      | some bank =>
        have hrest : ∀ n' : Notifies, n'.addr = (n.addr ++ a.toList).take asfNotifyMax →
            (drainPasses smba left (i + 1) n').Ends (Transcript.exec h)
              (fun r z => ∃ d, Collects y z d 0 ∧ d.length ≤ left + 1 ∧
                r.2.addr = (n.addr ++ d).take asfNotifyMax) w := by
          intro n' hn
          refine (ih (i + 1) n' w).mono ?_
          rintro r u ⟨d, hu, hlen, haddr⟩
          refine ⟨a.toList ++ d, by simpa using (hz.trans hw).trans hu, ?_, ?_⟩
          · have hone : a.toList.length ≤ 1 := by cases a <;> simp
            rw [List.length_append]
            omega
          · rw [haddr, take_collected n n' a d hn]
        cases a with
        | none =>
          refine hrest n ?_
          rw [Option.toList_none, List.append_nil]
          exact (List.take_of_length_le n.bounded).symm
        | some a => exact hrest (n.push a) (n.push_take a)
    unfold drainPasses
    refine .bind (silent_ends (takeSignal_silent _)) fun sig z hz => ?_
    cases sig with
    | true => exact hpass true z hz
    | false =>
      refine .bind (silent_ends (banksIdle_silent _)) fun idle w hw => ?_
      cases idle with
      | true => exact .ret (hnone _ n y w (hz.trans hw))
      | false => exact hpass false w (hz.trans hw)

/-- The beginning of a drain collects nothing. -/
theorem drainBegin_collects : Collects y (y.next h (.mark .drainBegin)) [] 1 := by
  refine ⟨?_, ?_, ?_, ?_, rfl, rfl⟩
  · simp [Transcript.next, decoded, Exchange.decodes]
  · simp [Transcript.next, drains, Exchange.drains]
  · simp [Transcript.next, notified, Exchange.notifies]
  · simp [Transcript.next, Exchange.permits]

/-- One drain collects at most as many addresses as it has passes, and keeps what there is room for. -/
theorem drain_collects (smba : ℕ) (n : Notifies) (y : Transcript) :
    (piix4AsfDrain smba n).Ends (Transcript.exec h)
      (fun r z => ∃ d, Collects y z d 1 ∧ d.length ≤ asfDrainMax ∧
        r.2.addr = (n.addr ++ d).take asfNotifyMax) y := by
  unfold piix4AsfDrain
  refine .bind (Q := fun _ z => Collects y z [] 1) (.op rfl (.ret drainBegin_collects)) fun _ z hz => ?_
  refine .bind (drainPasses_collects smba asfDrainMax 0 n z) ?_
  rintro ⟨wedged, n'⟩ w ⟨d, hw, hlen, haddr⟩
  refine .bind (silent_ends ⟨trivial, fun _ => trivial⟩) fun _ u hu => ?_
  exact .ret ⟨d, by simpa using (hz.trans hw).trans hu, hlen, haddr⟩

/-! ## Calls -/

/-- A request that `piix4_access` turns down before it reaches the bus. -/
def SmbusXfer.Rejected (x : SmbusXfer) : Prop :=
  x.size = .other ∨ (x.size = .blockData ∧ x.read = false ∧
    ((x.data 0).toNat = 0 ∨ i2cSmbusBlockMax < (x.data 0).toNat))

/-- Such a request never loses the bus. -/
theorem access_rejected {x : SmbusXfer} (hx : x.Rejected) :
    (piix4Access x).Ends (Transcript.exec h)
      (fun r z => Collects y z [] 0 ∧ r.1 ≠ -eagain ∧ r.1 ≠ -enxio) y := by
  have hsetup : (setupXfer x).Ends (Transcript.exec h)
      (fun r z => Collects y z [] 0 ∧ (r = .error (-einval) ∨ r = .error (-eopnotsupp))) y := by
    unfold setupXfer
    rcases hx with hother | ⟨hblock, hwrite, hlen⟩
    · rw [hother]
      exact .ret ⟨.refl y, Or.inr rfl⟩
    · rw [hblock, hwrite]
      refine .bind (silent_ends (outb_silent _ _)) fun _ z hz => ?_
      refine .bind (silent_ends (outb_silent _ _)) fun _ w hw => ?_
      rw [Bool.not_false, if_pos rfl, if_pos hlen]
      exact .ret ⟨hz.trans hw, Or.inl rfl⟩
  unfold piix4Access accessWith
  refine .bind hsetup fun r z hr => ?_
  obtain ⟨hz, rfl | rfl⟩ := hr
  · have hno : (-einval : Int) ≠ -eagain ∧ (-einval : Int) ≠ -enxio := by decide
    exact .ret ⟨hz, hno⟩
  · have hno : (-eopnotsupp : Int) ≠ -eagain ∧ (-eopnotsupp : Int) ≠ -enxio := by decide
    exact .ret ⟨hz, hno⟩

/-- Every other request is loaded into the host registers. -/
theorem setup_accepted {x : SmbusXfer} (hx : ¬ x.Rejected) :
    (setupXfer x).Ends (Transcript.exec h)
      (fun r z => (∃ size, r = .ok size) ∧ Collects y z [] 0) y := by
  unfold setupXfer
  split
  · refine .bind (silent_ends (outb_silent _ _)) fun _ z hz => ?_
    exact .ret ⟨⟨_, rfl⟩, hz⟩
  · refine .bind (silent_ends (outb_silent _ _)) fun _ z hz => ?_
    split
    · refine .bind (silent_ends (outb_silent _ _)) fun _ w hw => ?_
      exact .ret ⟨⟨_, rfl⟩, hz.trans hw⟩
    · exact .ret ⟨⟨_, rfl⟩, hz⟩
  · refine .bind (silent_ends (outb_silent _ _)) fun _ z hz => ?_
    refine .bind (silent_ends (outb_silent _ _)) fun _ w hw => ?_
    split
    · refine .bind (silent_ends (outb_silent _ _)) fun _ u hu => ?_
      exact .ret ⟨⟨_, rfl⟩, (hz.trans hw).trans hu⟩
    · exact .ret ⟨⟨_, rfl⟩, hz.trans hw⟩
  · refine .bind (silent_ends (outb_silent _ _)) fun _ z hz => ?_
    refine .bind (silent_ends (outb_silent _ _)) fun _ w hw => ?_
    split
    · refine .bind (silent_ends (outb_silent _ _)) fun _ u hu => ?_
      refine .bind (silent_ends (outb_silent _ _)) fun _ v hv => ?_
      exact .ret ⟨⟨_, rfl⟩, ((hz.trans hw).trans hu).trans hv⟩
    · exact .ret ⟨⟨_, rfl⟩, hz.trans hw⟩
  · next hblock =>
    refine .bind (silent_ends (outb_silent _ _)) fun _ z hz => ?_
    refine .bind (silent_ends (outb_silent _ _)) fun _ w hw => ?_
    split
    · next hwrite =>
      dsimp only
      have hlen : ¬ ((x.data 0).toNat = 0 ∨ i2cSmbusBlockMax < (x.data 0).toNat) := fun hbad =>
        hx (Or.inr ⟨hblock, by simpa using hwrite, hbad⟩)
      rw [if_neg hlen]
      refine .bind (silent_ends (outb_silent _ _)) fun _ u hu => ?_
      refine .bind (silent_ends (inb_silent _)) fun _ v hv => ?_
      refine .bind (silent_ends (writeBlock_silent _ _ _ _)) fun _ e he => ?_
      exact .ret ⟨⟨_, rfl⟩, (((hz.trans hw).trans hu).trans hv).trans he⟩
    · exact .ret ⟨⟨_, rfl⟩, hz.trans hw⟩
  · next hother => exact absurd (Or.inl hother) hx

/-- What a call has collected in `k` drains at most since `y`. -/
structure Collected (y z : Transcript) (n n' : Notifies) (k : ℕ) : Prop where
  some : ∃ d k', Collects y z d k' ∧ d.length ≤ asfDrainMax * k' ∧ k' ≤ k ∧
    n'.addr = (n.addr ++ d).take asfNotifyMax

/-- Nothing collected adds nothing. -/
theorem Collects.collected {n : Notifies} (hz : Collects y z [] 0) : Collected y z n n 0 :=
  ⟨[], 0, hz, Nat.zero_le _, Nat.le_refl 0, by
    rw [List.append_nil, List.take_of_length_le n.bounded]⟩

/-- What two parts collect is added one after the other. -/
theorem Collected.trans {n n' n'' : Notifies} (hyz : Collected y z n n' k) (hzw : Collected z w n' n'' k') :
    Collected y w n n'' (k + k') := by
  obtain ⟨d, m, hd, hlen, hm, haddr⟩ := hyz
  obtain ⟨d', m', hd', hlen', hm', haddr'⟩ := hzw
  refine ⟨d ++ d', m + m', hd.trans hd', ?_, by omega, ?_⟩
  · rw [List.length_append, Nat.mul_add]
    omega
  · rw [haddr', haddr, take_take_append, List.append_assoc]

/-- A larger number of drains bounds it as well. -/
theorem Collected.mono {n n' : Notifies} (h : Collected y z n n' k) (hk : k ≤ k') :
    Collected y z n n' k' := by
  obtain ⟨d, m, hd, hlen, hm, haddr⟩ := h
  exact ⟨d, m, hd, hlen, by omega, haddr⟩

/-- Collecting changes nothing about what is wanted. -/
theorem Collected.want {n n' : Notifies} (h : Collected y z n n' k) : z.asf.wantListen = y.asf.wantListen := by
  obtain ⟨d, m, hd, -⟩ := h
  exact hd.want

/-- One drain adds what it collects. -/
theorem drain_collected (smba : ℕ) (n : Notifies) (y : Transcript) :
    (piix4AsfDrain smba n).Ends (Transcript.exec h) (fun r z => Collected y z n r.2 1) y :=
  (drain_collects smba n y).mono fun _ _ hr => by
    obtain ⟨d, hz, hlen, haddr⟩ := hr
    exact ⟨d, 1, hz, by omega, Nat.le_refl 1, haddr⟩

/-- Reading the driver's global. -/
theorem piix4Asf_collects : piix4Asf.Ends (Transcript.exec h)
    (fun a z => a = y.asf ∧ z.asf = y.asf ∧ Collects y z [] 0) y :=
  .op rfl (.ret ⟨rfl, rfl, Op.Silent.collects (o := .asf) trivial⟩)

/-- Setting the flag is silent. -/
theorem setListening_silent (v : Bool) : (setAsf fun a => { a with listening := v }).AllOps Op.Silent :=
  ⟨fun _ => ⟨rfl, rfl⟩, fun _ => trivial⟩

/-- A yield drains once at most. -/
theorem yieldBus_collected (smba : ℕ) (n : Notifies) (y : Transcript) :
    (yieldBus smba n).Ends (Transcript.exec h) (fun r z => Collected y z n r.2 1) y := by
  unfold yieldBus
  refine .bind (silent_ends (setListening_silent true)) fun _ z₁ h₁ => ?_
  refine .bind (silent_ends (slaveArm_silent smba)) fun _ z₂ h₂ => ?_
  refine .bind (silent_ends ⟨trivial, fun _ => trivial⟩) fun _ z₃ h₃ => ?_
  refine .bind (silent_ends (holdOff_silent smba)) fun _ z₄ h₄ => ?_
  refine (drain_collected smba n z₄).mono fun r w hw => ?_
  have hquiet := (((h₁.trans h₂).trans h₃).trans h₄).collected (n := n)
  simpa using hquiet.trans hw

/-- Each lost attempt but the last is followed by a drain; without the intent to listen, and for a
request that is turned down, there is none. -/
theorem attempts_collected (left : ℕ) (x : SmbusXfer) (n : Notifies) (y : Transcript) :
    (attempts x left n).Ends (Transcript.exec h)
      (fun r z => Collected y z n r.2.2 left ∧
        (y.asf.wantListen = false ∨ x.Rejected → Collected y z n r.2.2 0)) y := by
  induction left generalizing x n y with
  | zero =>
    unfold attempts
    refine .bind (silent_ends (masterMode_silent _)) fun _ z hz => ?_
    refine .bind (silent_ends (access_silent x)) fun r w hw => ?_
    refine .bind piix4Asf_collects fun a u hu => ?_
    have hquiet := ((hz.trans hw).trans hu.2.2).collected (n := n)
    split
    · exact .ret ⟨hquiet, fun _ => hquiet⟩
    · exact .ret ⟨hquiet, fun _ => hquiet⟩
  | succ left ih =>
    unfold attempts
    refine .bind (silent_ends (masterMode_silent _)) fun _ z hz => ?_
    have haccess : (piix4Access x).Ends (Transcript.exec h)
        (fun r w => Collects z w [] 0 ∧ (x.Rejected → r.1 ≠ -eagain ∧ r.1 ≠ -enxio)) z := by
      by_cases hx : x.Rejected
      · exact (access_rejected hx).mono fun r w hw => ⟨hw.1, fun _ => hw.2⟩
      · exact (silent_ends (access_silent x)).mono fun r w hw => ⟨hw, fun h => absurd h hx⟩
    refine .bind haccess ?_
    rintro ⟨result, data⟩ w ⟨hw, hkept⟩
    refine .bind piix4Asf_collects ?_
    rintro a u ⟨rfl, -, hu⟩
    have hquiet := ((hz.trans hw).trans hu).collected (n := n)
    have hwant : w.asf.wantListen = y.asf.wantListen := (hz.trans hw).want
    split
    · exact .ret ⟨hquiet.mono (Nat.zero_le _), fun _ => hquiet⟩
    · next hlost =>
      have hnever : ¬ (y.asf.wantListen = false ∨ x.Rejected) := by
        rintro (hno | hx)
        · refine hlost (Or.inr ?_)
          rw [hwant, hno]
          rfl
        · exact hlost (Or.inl (hkept hx))
      refine .bind (yieldBus_collected x.smba n _) ?_
      rintro ⟨wedged, n'⟩ v hv
      have hone : Collected y v n n' 1 := by simpa using hquiet.trans hv
      dsimp only
      split
      · refine .bind (silent_ends ⟨trivial, fun _ => trivial⟩) fun _ e he => ?_
        exact .ret ⟨(hone.trans he.collected).mono (by omega), fun h => absurd h hnever⟩
      · refine (ih _ n' v).mono fun r v hv => ⟨?_, fun h => absurd h hnever⟩
        exact (hone.trans hv.1).mono (by omega)

/-- A listening slave is drained once before the transfer. -/
theorem drainListening_collected (smba : ℕ) (y : Transcript) :
    (drainListening smba).Ends (Transcript.exec h) (fun n z => Collected y z Notifies.none n 1) y := by
  unfold drainListening
  refine .bind piix4Asf_collects ?_
  rintro a z ⟨rfl, -, hz⟩
  split
  · refine .bind (silent_ends (holdOff_silent _)) fun _ w hw => ?_
    refine .bind (drain_collected _ _ _) fun r u hu => .ret ?_
    simpa using (hz.trans hw).collected.trans hu
  · exact .ret (hz.collected.mono (Nat.zero_le _))

/-- A transfer drains once, and once more for each yield; one that is not retried drains once only. -/
theorem accessAsfLocked_collected (x : SmbusXfer) (y : Transcript) :
    (accessAsfLocked x).Ends (Transcript.exec h)
      (fun r z => Collected y z Notifies.none r.2.2 (1 + asfXferRetries) ∧
        (y.asf.wantListen = false ∨ x.Rejected → Collected y z Notifies.none r.2.2 1)) y := by
  unfold accessAsfLocked
  refine .bind (drainListening_collected x.smba y) fun n z hz => ?_
  refine .bind (attempts_collected asfXferRetries x n z) ?_
  rintro ⟨result, data, n'⟩ w ⟨hw, hfew⟩
  refine .bind piix4Asf_collects ?_
  rintro a u ⟨rfl, -, hu⟩
  have hdone : ∀ v, Collects u v [] 0 → Collected y v Notifies.none n' (1 + asfXferRetries) ∧
      (y.asf.wantListen = false ∨ x.Rejected → Collected y v Notifies.none n' 1) := by
    intro v hv
    have hquiet := (hu.trans hv).collected (n := n')
    refine ⟨(hz.trans hw).trans hquiet, fun h => ?_⟩
    rw [← hz.want] at h
    exact (hz.trans (hfew h)).trans hquiet
  split
  · refine .bind (silent_ends (setListening_silent true)) fun _ v hv => ?_
    refine .bind (silent_ends (slaveArm_silent _)) fun _ e he => ?_
    exact .ret (hdone e (hv.trans he))
  · exact .ret (hdone u (.refl u))

/-- The wedge branch of the interrupt thread drains once more. -/
theorem drainThread_collected (smba : ℕ) (y : Transcript) :
    (drainThread smba).Ends (Transcript.exec h) (fun n z => Collected y z Notifies.none n 2) y := by
  unfold drainThread
  refine .bind (drain_collected smba Notifies.none y) ?_
  rintro ⟨wedged, n⟩ z hz
  dsimp only
  split
  · have hreset : (resetWedged smba n).Ends (Transcript.exec h) (fun n' w => Collected z w n n' 1) z := by
      unfold resetWedged
      refine .bind piix4Asf_collects ?_
      rintro a w ⟨rfl, -, hw⟩
      refine .bind (silent_ends (regionRequest_silent _)) fun retval u hu => ?_
      split
      · refine .bind (silent_ends ⟨trivial, fun _ => trivial⟩) fun _ v hv => ?_
        refine .bind (silent_ends (updateIoport_silent _ _ _)) fun _ e he => ?_
        have hbefore := (((hw.trans hu).trans hv).trans he).collected (n := n)
        refine .bind (drain_collected smba n e) ?_
        rintro ⟨again, n'⟩ f hf
        refine .bind (silent_ends (updateIoport_silent _ _ _)) fun _ g hg => ?_
        refine .bind (silent_ends (outb_silent _ _)) fun _ i hi => ?_
        refine .bind (silent_ends (slaveArm_silent _)) fun _ j hj => ?_
        refine .bind piix4Asf_collects ?_
        rintro a k ⟨rfl, -, hk⟩
        refine .bind (silent_ends (regionRelease_silent _)) fun _ l hl => .ret ?_
        have hafter := ((((hg.trans hi).trans hj).trans hk).trans hl).collected (n := n')
        simpa using (hbefore.trans hf).trans hafter
      · refine .bind (silent_ends (updateIoport_silent _ _ _)) fun _ v hv => ?_
        refine .bind (silent_ends (setListening_silent false)) fun _ e he => .ret ?_
        exact (((hw.trans hu).trans hv).trans he).collected.mono (Nat.zero_le _)
    exact hreset.mono fun n' w hw => hz.trans hw
  · exact .ret (hz.mono (by omega))

/-- What a call has decoded in `k` drains at most since `y`, and passed on. -/
structure Handed (y z : Transcript) (k : ℕ) : Prop where
  some : ∃ d k', decoded z.past = decoded y.past ++ d ∧ drains z.past = drains y.past + k' ∧
    d.length ≤ asfDrainMax * k' ∧ k' ≤ k ∧
    (Permitted z.past → notified z.past = notified y.past ++ d.take asfNotifyMax)

/-- Nothing is dropped in two drains. -/
theorem Handed.roomy {a : Piix4Asf} (hz : Handed ⟨a, []⟩ z k) (htwo : drains z.past ≤ 2) : Roomy z.past := by
  obtain ⟨d, k', hd, hk', hlen, -, hnotified⟩ := hz
  have hfew : k' ≤ 2 := by
    rw [hk'] at htwo
    exact Nat.le_trans (Nat.le_add_left _ _) htwo
  have hroom : d.length ≤ asfNotifyMax := by
    have hmax : asfNotifyMax = asfDrainMax * 2 := rfl
    rw [hmax]
    exact Nat.le_trans hlen (Nat.mul_le_mul_left _ hfew)
  have hall : decoded z.past = d := hd
  refine ⟨by rw [hall]; exact hroom, fun hp => ?_⟩
  rw [hall, hnotified hp, List.take_of_length_le hroom]
  rfl

/-- What two drains collect fits. -/
theorem Handed.few {a : Piix4Asf} (hz : Handed ⟨a, []⟩ z k) (hk : k ≤ 2) : Roomy z.past := by
  refine hz.roomy ?_
  obtain ⟨d, k', -, hk', -, hle, -⟩ := hz
  rw [hk']
  exact Nat.le_trans (Nat.le_of_eq (Nat.zero_add k')) (Nat.le_trans hle hk)

/-- From `y` to `z` the answers `p` are given to questions of `piix4_asf_deliver`, and the addresses
`l` are passed on. -/
structure Passes (y z : Transcript) (p : List Bool) (l : List ℕ) : Prop where
  decoded : decoded z.past = decoded y.past
  drains : drains z.past = drains y.past
  permits : z.past.filterMap Exchange.permits = y.past.filterMap Exchange.permits ++ p
  notified : notified z.past = notified y.past ++ l

/-- Where nothing is collected nothing is passed on. -/
theorem Collects.passes (hz : Collects y z [] 0) : Passes y z [] [] :=
  ⟨by simpa using hz.decoded, hz.drains, by simpa using hz.permits, by simpa using hz.notified⟩

/-- What two parts pass on is passed on one after the other. -/
theorem Passes.trans {p p' : List Bool} {l l' : List ℕ} (hyz : Passes y z p l) (hzw : Passes z w p' l') :
    Passes y w (p ++ p') (l ++ l') where
  decoded := hzw.decoded.trans hyz.decoded
  drains := hzw.drains.trans hyz.drains
  permits := by rw [hzw.permits, hyz.permits, List.append_assoc]
  notified := by rw [hzw.notified, hyz.notified, List.append_assoc]

/-- The loop passes on all it is given. -/
theorem deliverAll_passes (l : List ℕ) (y : Transcript) :
    (deliverAll l).Ends (Transcript.exec h) (fun _ z => Passes y z [] l) y := by
  induction l generalizing y with
  | nil => exact .ret (Collects.refl y).passes
  | cons a l ih =>
    unfold deliverAll
    have hnotify : Passes y (y.next h (.i2cHandleSmbusHostNotify a)) [] [a] := by
      refine ⟨?_, ?_, ?_, ?_⟩
      · simp [Transcript.next, decoded, Exchange.decodes]
      · simp [Transcript.next, drains, Exchange.drains]
      · simp [Transcript.next, Exchange.permits]
      · simp [Transcript.next, notified, Exchange.notifies]
    have hmark : (mark .notified).AllOps Op.Silent := ⟨trivial, fun _ => trivial⟩
    refine .bind (Q := fun _ z => Passes y z [] [a]) (.op rfl (.ret hnotify)) fun _ z hz => ?_
    refine .bind (silent_ends hmark) fun _ w hw => ?_
    exact (ih w).mono fun _ u hu => (hz.trans hw.passes).trans hu

/-- `piix4_asf_deliver` passes on the whole list, or nothing if it is told not to. -/
theorem deliver_passes (n : Notifies) (y : Transcript) :
    (piix4AsfDeliver n).Ends (Transcript.exec h)
      (fun _ z => ∃ p l, Passes y z p l ∧
        ((∀ r ∈ p, r = true) → l = n.addr) ∧ (¬ (∀ r ∈ p, r = true) → l = [])) y := by
  unfold piix4AsfDeliver
  split
  · next hempty =>
    exact .ret ⟨[], [], (Collects.refl y).passes, fun _ => hempty.symm, fun _ => rfl⟩
  · refine .bind (silent_ends ⟨trivial, fun _ => trivial⟩) fun _ z hz => ?_
    -- the end of the call once the questions have been answered
    have hunlock : ∀ v p l, Passes y v p l → ((∀ r ∈ p, r = true) → l = n.addr) →
        (¬ (∀ r ∈ p, r = true) → l = []) → (unlock .notify).Ends (Transcript.exec h)
          (fun _ w => ∃ p l, Passes y w p l ∧
            ((∀ r ∈ p, r = true) → l = n.addr) ∧ (¬ (∀ r ∈ p, r = true) → l = [])) v := by
      intro v p l hv hall hnone
      refine .mono (silent_ends ⟨trivial, fun _ => trivial⟩) fun _ w hw => ⟨p, l, ?_, hall, hnone⟩
      simpa using hv.trans hw.passes
    have hask : ∀ o : Op, (∀ r, Exchange.decodes ⟨o, r⟩ = none) → (∀ r, Exchange.drains ⟨o, r⟩ = false) →
        (∀ r, Exchange.notifies ⟨o, r⟩ = none) → ∀ (v : Transcript) r,
        Exchange.permits ⟨o, v.answer h o⟩ = some r → Passes v (v.next h o) [r] [] := by
      intro o hdecodes hdrains hnotifies v r hr
      refine ⟨?_, ?_, ?_, ?_⟩
      · simp [Transcript.next, decoded, hdecodes]
      · simp [Transcript.next, drains, hdrains]
      · simp [Transcript.next, hr]
      · simp [Transcript.next, notified, hnotifies]
    have hfirst := hask .deliverOk (fun _ => rfl) (fun _ => rfl) (fun _ => rfl) z _ rfl
    refine .bind (Q := fun r w => Passes z w [r] []) (.op rfl (.ret hfirst)) fun ok w hw => ?_
    have hyw : Passes y w [ok] [] := by simpa using hz.passes.trans hw
    cases ok with
    | false =>
      exact hunlock w [false] [] hyw (fun hp => absurd (hp false (by simp)) (by decide)) fun _ => rfl
    | true =>
      have hsecond := hask .auxAdapter (fun _ => rfl) (fun _ => rfl) (fun _ => rfl) w _ rfl
      refine .bind (Q := fun r u => Passes w u [r] []) (.op rfl (.ret hsecond)) fun aux u hu => ?_
      have hyu : Passes y u [true, aux] [] := by simpa using hyw.trans hu
      cases aux with
      | false =>
        exact hunlock u [true, false] [] hyu (fun hp => absurd (hp false (by simp)) (by decide)) fun _ => rfl
      | true =>
        refine .bind (deliverAll_passes n.addr u) fun _ v hv => ?_
        exact hunlock v [true, true] n.addr (by simpa using hyu.trans hv) (fun _ => rfl)
          fun hno => absurd (by simp) hno

/-- A delivery hands over what has been collected. -/
theorem deliver_hands {n : Notifies} (hz : Collected y z Notifies.none n k) :
    (piix4AsfDeliver n).Ends (Transcript.exec h) (fun _ w => Handed y w k) z := by
  obtain ⟨d, k', hd, hlen, hk, haddr⟩ := hz
  refine (deliver_passes n z).mono ?_
  rintro _ w ⟨p, l, hw, hall, -⟩
  refine ⟨d, k', hw.decoded.trans hd.decoded, hw.drains.trans hd.drains, hlen, hk, fun hp => ?_⟩
  have hl : l = n.addr := hall fun r hr => hp r (by rw [hw.permits]; exact List.mem_append_right _ hr)
  rw [hw.notified, hd.notified, hl, haddr]
  rfl

/-- `piix4_access_asf` hands over what its drains decode, while there is room. -/
theorem accessAsf_hands (x : SmbusXfer) (y : Transcript) :
    (piix4AccessAsf x).Ends (Transcript.exec h)
      (fun _ z => Handed y z (1 + asfXferRetries) ∧
        (y.asf.active = false ∨ y.asf.wantListen = false ∨ x.Rejected → Handed y z 1)) y := by
  have hquiet : ∀ {z : Transcript}, Collects y z [] 0 → ∀ k, Handed y z k := by
    intro z hz k
    exact ⟨[], 0, hz.decoded, hz.drains, Nat.zero_le _, Nat.zero_le _, fun _ => by
      rw [List.take_nil, List.append_nil]
      exact hz.notified⟩
  have hlock : Collects y (y.next h (.lock .asf)) [] 0 := Op.Silent.collects trivial
  unfold piix4AccessAsf
  refine .bind (Q := fun _ z => Collects y z [] 0 ∧ z.asf = y.asf) (.op rfl (.ret ⟨hlock, rfl⟩)) ?_
  rintro _ z ⟨hz, hasf⟩
  refine .bind piix4Asf_collects ?_
  rintro _ w ⟨rfl, hasf', hw⟩
  rw [hasf] at hasf' ⊢
  split
  · refine .bind (silent_ends ⟨trivial, fun _ => trivial⟩) fun _ u hu => ?_
    refine (silent_ends (access_silent x)).mono fun _ v hv => ?_
    have hnone := hquiet (((hz.trans hw).trans hu).trans hv)
    exact ⟨hnone _, fun _ => hnone _⟩
  · next hactive =>
    refine .bind piix4Asf_collects ?_
    rintro _ u ⟨rfl, -, hu⟩
    refine .bind (silent_ends (regionRequest_silent _)) fun retval v hv => ?_
    have hyv : Collects y v [] 0 := ((hz.trans hw).trans hu).trans hv
    split
    · refine .bind (silent_ends ⟨trivial, fun _ => trivial⟩) fun _ e he => .ret ?_
      have hnone := hquiet (hyv.trans he)
      exact ⟨hnone _, fun _ => hnone _⟩
    · refine .bind (accessAsfLocked_collected x v) ?_
      rintro ⟨result, data, n⟩ e ⟨he, hfew⟩
      refine .bind piix4Asf_collects ?_
      rintro _ f ⟨rfl, -, hf⟩
      refine .bind (silent_ends (regionRelease_silent _)) fun _ g hg => ?_
      refine .bind (silent_ends ⟨trivial, fun _ => trivial⟩) fun _ i hi => ?_
      refine .bind (silent_ends ⟨trivial, fun _ => trivial⟩) fun _ j hj => ?_
      have hafter := (((hf.trans hg).trans hi).trans hj).collected (n := n)
      have hall : ∀ {k}, Collected v e Notifies.none n k → Collected y j Notifies.none n k := by
        intro k hk
        simpa using (hyv.collected.trans hk).trans hafter
      by_cases hcond : v.asf.wantListen = false ∨ x.Rejected
      · refine .bind (deliver_hands (hall (hfew hcond))) fun _ l hl => .ret ⟨?_, fun _ => hl⟩
        obtain ⟨d, k', hd, hk', hlen, hle, hnotified⟩ := hl
        exact ⟨d, k', hd, hk', hlen, Nat.le_trans hle (Nat.le_add_right _ _), hnotified⟩
      · refine .bind (deliver_hands (hall he)) fun _ l hl => .ret ⟨hl, fun h => absurd h ?_⟩
        rw [← hyv.want]
        rintro (hno | hcond')
        · exact hactive (by rw [hno]; rfl)
        · exact hcond hcond'

/-- `piix4_asf_irq_thread` hands over what its drains decode, while there is room. -/
theorem irqThread_hands (y : Transcript) :
    piix4AsfIrqThread.Ends (Transcript.exec h) (fun _ z => Handed y z 2) y := by
  unfold piix4AsfIrqThread
  refine .bind piix4Asf_collects ?_
  rintro _ z ⟨rfl, -, hz⟩
  refine .bind (silent_ends ⟨trivial, fun _ => trivial⟩) fun _ w hw => ?_
  refine .bind piix4Asf_collects ?_
  rintro _ u ⟨rfl, -, hu⟩
  have hyu := (hz.trans hw).trans hu
  split
  · refine .bind (silent_ends ⟨trivial, fun _ => trivial⟩) fun _ v hv => ?_
    refine .mono (silent_ends ⟨trivial, fun _ => trivial⟩) fun _ e he => ?_
    have hnone := (hyu.trans hv).trans he
    exact ⟨[], 0, hnone.decoded, hnone.drains, Nat.zero_le _, Nat.zero_le _, fun _ => by
      rw [List.take_nil, List.append_nil]
      exact hnone.notified⟩
  · refine .bind (drainThread_collected _ u) fun n v hv => ?_
    refine .bind (silent_ends ⟨trivial, fun _ => trivial⟩) fun _ e he => ?_
    refine .bind (silent_ends ⟨trivial, fun _ => trivial⟩) fun _ f hf => ?_
    have hall : Collected y f Notifies.none n 2 := by
      simpa using (hyu.collected.trans hv).trans (he.trans hf).collected
    exact deliver_hands hall

end HostNotify
