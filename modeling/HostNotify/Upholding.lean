import HostNotify.Pledges

/-!
# How the callbacks keep the intent

Start and resume state it, suspend lays it aside for resume, and the other callbacks either leave it
alone or run while nothing is served. So it is kept in every run.
-/

namespace HostNotify

open Bits Interleaving

variable {k : Setting} {b : Board} {s s' : St} {t : ℕ} {p : Pool St Op Op.Ans Call} {i : ℕ}

namespace Intent

/-- What start finds. -/
structure Startable (i : Intent) : Prop where
  rest : i.Rest
  bound : i.bound = true
  awake : i.asleep = false

/-- What start leaves. -/
structure Started (i : Intent) : Prop where
  startable : i.Startable
  want : i.active = true → i.want = true

/-- What suspend finds. -/
structure Awake (i : Intent) : Prop where
  rest : i.Rest
  awake : i.asleep = false

/-- The intent is laid aside for resume. -/
structure LaidAside (i : Intent) : Prop where
  bound : i.serving = true → i.bound = true
  pledged : i.serving = true → i.active = true → i.resume = true

/-- What resume finds. -/
structure Waking (i : Intent) : Prop where
  aside : i.LaidAside
  awake : i.asleep = false

end Intent

namespace Pledge

/-! ## The callbacks -/

section Callbacks

variable {c : CoreCall} {G : Intent → Prop}

/-- Tacit code keeps a callback's intent. -/
theorem mineTacit_spec {A : Type} {q : Driver A} (hq : q.AllOps Op.Tacit)
    (hG : ∀ i, G i → i.Upheld c) :
    Triple (vows k b (.core c) t) (Mine t G) q fun _ => Mine t G :=
  mine_spec (hq.mono fun _ ho => ho.unwilled) hG

/-- Asking for the region states no intent. -/
theorem regionRequest_unwilled (useMmio : Bool) : (piix4Sb800RegionRequest useMmio).AllOps Op.Unwilled :=
  regionRequest_allOps trivial trivial trivial (fun _ _ => trivial) useMmio

/-- Giving the region up states no intent. -/
theorem regionRelease_unwilled (useMmio : Bool) : (piix4Sb800RegionRelease useMmio).AllOps Op.Unwilled :=
  regionRelease_allOps trivial (fun _ _ => trivial) useMmio

/-- One operation that leaves the intent alone. -/
theorem mineOp_spec {o : Op} (ho : o.Unwilled) (hG : ∀ i, G i → i.Upheld c) :
    Triple (vows k b (.core c) t) (Mine t G) (perform o) fun _ => Mine t G :=
  mine_spec ⟨ho, fun _ => trivial⟩ hG

/-- A store into a field that states no intent. -/
theorem mineMild_spec {f : Piix4Asf → Piix4Asf} (hf : Op.Unwilled (.setAsf f))
    (hG : ∀ i, G i → i.Upheld c) :
    Triple (vows k b (.core c) t) (Mine t G) (setAsf f) fun _ => Mine t G :=
  mineOp_spec hf hG

/-- Registering and taking away the adapter leaves the intent alone. -/
theorem unwilled_spec {q : Driver Unit} (hq : q.AllOps Op.Unwilled)
    (hafter : ∀ s : St, ({ s with life := s.life.after c } : St).intent = s.intent) :
    Triple (vows k b (.core c) t) (Mine t Intent.Rest) (q >>= fun _ => perform (.coreDone c))
      fun _ _ => True := by
  have hG : ∀ i, Intent.Rest i → i.Upheld c := fun i h _ _ => h.wanted
  refine .bind (mine_spec hq hG) fun _ => coreDone_spec hG fun s h => ?_
  rw [hafter]
  exact h

/-- Registering the adapter states no intent. -/
theorem addAdapter_unwilled (smba : ℕ) : (piix4AddAdapter smba).AllOps Op.Unwilled :=
  addAdapter_allOps trivial trivial (fun _ => trivial) trivial trivial (fun _ _ => trivial) smba

/-- Removing the adapter states no intent. -/
theorem adapRemove_unwilled (smba : ℕ) : (piix4AdapRemove smba).AllOps Op.Unwilled :=
  adapRemove_allOps trivial trivial (fun _ _ => trivial) smba

/-! ## Callbacks during which nothing is served -/

/-- The operation does not end a callback. -/
def Lasting : Op → Prop
  | .coreDone _ => False
  | _ => True

/-- A device that is not served stays so through code that is lasting. -/
theorem lasting_spec {A : Type} {q : Driver A} (hq : q.AllOps Lasting) :
    Triple (vows k b (.core c) t) (Mine t fun i => i.serving = false) q fun _ =>
      Mine t fun i => i.serving = false := by
  refine Triple.of_allOps stable_mine hq fun o s ho hs h _ =>
    ⟨.of_core fun _ _ => (Intent.Rest.of_unserving h.2).wanted, fun r s' he => ?_⟩
  obtain ⟨he, hown⟩ := Machine.confine_exec.mp he
  rcases exec_serving he with ⟨d, rfl⟩ | ⟨howner, hserving⟩
  · exact ho.elim
  · have howner' := howner.trans h.1
    refine ⟨fun u hu => known_leaves he hown hu, ⟨hown.1, fun hnone => ?_⟩, howner', hserving.trans h.2⟩
    cases hnone.symm.trans howner'

/-- A callback that ends with nothing being served. -/
theorem unserving_spec {q : Driver Unit} (hq : q.AllOps Lasting)
    (hafter : ∀ l : Life, l.serving = false → (l.after c).serving = false) :
    Triple (vows k b (.core c) t) (Mine t fun i => i.serving = false)
      (q >>= fun _ => perform (.coreDone c)) fun _ _ => True :=
  .bind (lasting_spec hq) fun _ =>
    coreDone_spec (fun _ h _ _ => (Intent.Rest.of_unserving h).wanted) fun s h =>
      .of_unserving (hafter s.life h)

section Lasting

/-- Tacit code is lasting. -/
theorem tacit_lasting {A : Type} {q : Driver A} (hq : q.AllOps Op.Tacit) : q.AllOps Lasting :=
  hq.mono fun o ho => by cases o <;> first | exact trivial | exact ho.elim

/-- Asking for the region is lasting. -/
theorem regionRequest_lasting (useMmio : Bool) : (piix4Sb800RegionRequest useMmio).AllOps Lasting :=
  regionRequest_allOps trivial trivial trivial (fun _ _ => trivial) useMmio

/-- Giving the region up is lasting. -/
theorem regionRelease_lasting (useMmio : Bool) : (piix4Sb800RegionRelease useMmio).AllOps Lasting :=
  regionRelease_allOps trivial (fun _ _ => trivial) useMmio

/-- Entering master mode is lasting. -/
theorem masterMode_lasting (smba : ℕ) : (piix4AsfMasterMode smba).AllOps Lasting :=
  tacit_lasting (masterMode_tacit smba)

/-- Giving the interrupt back is lasting. -/
theorem unregisterGsi_lasting (smba : ℕ) : (enableUnregisterGsi smba).AllOps Lasting := by
  have hrest : (do
      setAsf fun a => { a with gsiRegistered := false }
      setAsf fun a => { a with irq := -1 }
      enableReleaseIoregion smba : Driver Unit).AllOps Lasting :=
    ⟨trivial, fun _ => ⟨trivial, fun _ => ⟨trivial, fun _ => trivial⟩⟩⟩
  unfold enableUnregisterGsi
  refine Prog.AllOps.bind ⟨trivial, fun _ => trivial⟩ fun a => ?_
  dsimp only
  split
  · exact ⟨trivial, fun _ => ⟨trivial, fun _ => hrest⟩⟩
  · exact hrest

/-- Restoring what firmware had left is lasting. -/
theorem restoreBootState_lasting (smba : ℕ) : (piix4AsfRestoreBootState smba).AllOps Lasting := by
  refine ⟨trivial, fun _ => ⟨trivial, fun _ => ⟨trivial, fun _ => ⟨trivial, fun _ => ⟨trivial, fun _ =>
    ⟨trivial, fun _ => ?_⟩⟩⟩⟩⟩⟩
  refine (tacit_lasting (clearStatus_tacit smba)).bind fun _ => ?_
  exact ⟨trivial, fun _ => ⟨trivial, fun _ => ⟨trivial, fun _ => ⟨trivial, fun _ => ⟨trivial, fun _ => trivial⟩⟩⟩⟩⟩

/-- Giving up the claim is lasting. -/
theorem unclaimLocked_lasting (smba : ℕ) : (unclaimLocked smba).AllOps Lasting := by
  unfold unclaimLocked
  refine Prog.AllOps.bind ⟨trivial, fun _ => trivial⟩ fun _ => ?_
  refine Prog.AllOps.bind ⟨trivial, fun _ => trivial⟩ fun a => (regionRequest_lasting _).bind fun r => ?_
  split
  · refine (restoreBootState_lasting smba).bind fun _ => ?_
    exact Prog.AllOps.bind ⟨trivial, fun _ => trivial⟩ fun a' => regionRelease_lasting _
  · exact trivial

/-- Taking the block over is lasting. -/
theorem takeover_lasting (smba : ℕ) : (enableTakeover smba).AllOps Lasting := by
  refine ⟨trivial, fun _ => ⟨trivial, fun _ => ⟨trivial, fun _ => ⟨trivial, fun _ => ⟨trivial, fun _ =>
    ⟨trivial, fun _ => ⟨trivial, fun _ => ⟨trivial, fun _ => ⟨trivial, fun _ => ⟨trivial, fun _ => ?_⟩⟩⟩⟩⟩⟩⟩⟩⟩⟩
  exact (masterMode_lasting smba).bind fun _ => ⟨trivial, fun _ => ⟨trivial, fun _ => trivial⟩⟩

/-- Requesting the IRQ is lasting. -/
theorem enableIrq_lasting (smba : ℕ) : (enableIrq smba).AllOps Lasting := by
  unfold enableIrq
  refine Prog.AllOps.bind ⟨trivial, fun _ => trivial⟩ fun a => ?_
  refine Prog.AllOps.bind ⟨trivial, fun _ => trivial⟩ fun retval => ?_
  split
  · exact ⟨trivial, fun _ => trivial⟩
  · refine Prog.AllOps.bind ⟨trivial, fun _ => trivial⟩ fun _ => ?_
    refine Prog.AllOps.bind ⟨trivial, fun _ => trivial⟩ fun _ => ?_
    refine Prog.AllOps.bind ⟨trivial, fun _ => trivial⟩ fun a => (regionRequest_lasting _).bind fun r => ?_
    split
    · exact unregisterGsi_lasting smba
    · refine Prog.AllOps.bind ⟨trivial, fun _ => trivial⟩ fun _ => (takeover_lasting smba).bind fun _ => ?_
      refine Prog.AllOps.bind ⟨trivial, fun _ => trivial⟩ fun a => (regionRelease_lasting _).bind fun _ => ?_
      refine Prog.AllOps.bind ⟨trivial, fun _ => trivial⟩ fun a => ?_
      refine Prog.AllOps.bind ⟨trivial, fun _ => trivial⟩ fun answer => ?_
      split
      · refine Prog.AllOps.bind ⟨trivial, fun _ => trivial⟩ fun _ => (unclaimLocked_lasting smba).bind fun _ => ?_
        exact Prog.AllOps.bind ⟨trivial, fun _ => trivial⟩ fun _ => unregisterGsi_lasting smba
      · exact ⟨trivial, fun _ => trivial⟩

/-- Probe's claim as a whole is lasting. -/
theorem claimAux_lasting (b : Board) : (claimAux b).AllOps Lasting := by
  unfold claimAux
  refine Prog.AllOps.bind ⟨trivial, fun _ => trivial⟩ fun got => ?_
  split
  · have hdetect : (piix4AsfDetect b.auxSmba).AllOps Lasting := by
      unfold piix4AsfDetect
      refine Prog.AllOps.bind ⟨trivial, fun _ => trivial⟩ fun known => ?_
      split
      · exact trivial
      · refine Prog.AllOps.bind ⟨trivial, fun _ => trivial⟩ fun present => ?_
        split
        · exact trivial
        · refine Prog.AllOps.bind ⟨trivial, fun _ => trivial⟩ fun devices => ?_
          split
          · exact trivial
          · exact ⟨trivial, fun _ => trivial⟩
    refine hdetect.bind fun _ => ?_
    unfold piix4AsfEnable
    refine Prog.AllOps.bind ⟨trivial, fun _ => trivial⟩ fun a => ?_
    split
    · exact trivial
    split
    · exact trivial
    split
    · exact trivial
    refine Prog.AllOps.bind ⟨trivial, fun _ => trivial⟩ fun _ => ?_
    refine Prog.AllOps.bind ⟨trivial, fun _ => trivial⟩ fun a' => ?_
    split
    · exact trivial
    refine Prog.AllOps.bind ⟨trivial, fun _ => trivial⟩ fun checked => ?_
    split
    · exact trivial
    refine Prog.AllOps.bind ⟨trivial, fun _ => trivial⟩ fun got => ?_
    split
    · exact trivial
    · exact enableIrq_lasting _
  · exact trivial

/-- Quieting the slave is lasting. -/
theorem quiesce_lasting (smba : ℕ) : (piix4AsfQuiesce smba).AllOps Lasting := by
  unfold piix4AsfQuiesce
  refine Prog.AllOps.bind ⟨trivial, fun _ => trivial⟩ fun _ => ?_
  refine (tacit_lasting (updateIoport_tacit _ _ _)).bind fun _ => ?_
  refine (tacit_lasting (updateIoport_tacit _ _ _)).bind fun _ => ?_
  refine (tacit_lasting (updateIoport_tacit _ _ _)).bind fun _ => ?_
  refine (tacit_lasting (clearStatus_tacit smba)).bind fun _ => ?_
  refine Prog.AllOps.bind ⟨trivial, fun _ => trivial⟩ fun _ => ?_
  refine Prog.AllOps.bind ⟨trivial, fun _ => trivial⟩ fun a => ?_
  dsimp only
  split
  · exact ⟨trivial, fun _ => ⟨trivial, fun _ => trivial⟩⟩
  · exact ⟨trivial, fun _ => trivial⟩

/-- Stop is lasting. -/
theorem stop_lasting : piix4AsfStop.AllOps Lasting := by
  have hfence : (do
      lock .notify
      perform (.setDeliverOk false)
      unlock .notify : Driver Unit).AllOps Lasting :=
    ⟨trivial, fun _ => ⟨trivial, fun _ => ⟨trivial, fun _ => trivial⟩⟩⟩
  have hlocked : ∀ smba, (stopLocked smba).AllOps Lasting := by
    intro smba
    unfold stopLocked
    refine (quiesce_lasting smba).bind fun _ => ?_
    refine Prog.AllOps.bind ⟨trivial, fun _ => trivial⟩ fun a => (regionRequest_lasting _).bind fun r => ?_
    split
    · refine (masterMode_lasting smba).bind fun _ => ?_
      exact Prog.AllOps.bind ⟨trivial, fun _ => trivial⟩ fun a' => regionRelease_lasting _
    · exact trivial
  have hbody : stopBody.AllOps Lasting := by
    unfold stopBody
    refine Prog.AllOps.bind ⟨trivial, fun _ => trivial⟩ fun a => ?_
    refine Prog.AllOps.bind ⟨trivial, fun _ => trivial⟩ fun a' => ?_
    split
    · exact trivial
    · refine Prog.AllOps.bind ⟨trivial, fun _ => trivial⟩ fun _ => (hlocked _).bind fun _ => ?_
      refine Prog.AllOps.bind ⟨trivial, fun _ => trivial⟩ fun _ => ?_
      refine Prog.AllOps.bind ⟨trivial, fun _ => trivial⟩ fun a'' => ?_
      dsimp only
      split
      · exact ⟨trivial, fun _ => ⟨trivial, fun _ => hfence⟩⟩
      · exact hfence
  exact hbody.bind fun _ => ⟨trivial, fun _ => trivial⟩

/-- Disable is lasting. -/
theorem disable_lasting : piix4AsfDisable.AllOps Lasting := by
  have hrest : (do
      setAsf fun _ => Piix4Asf.zero
      setAsf fun a => { a with irq := -1 } : Driver Unit).AllOps Lasting :=
    ⟨trivial, fun _ => ⟨trivial, fun _ => trivial⟩⟩
  have hwindow : ∀ smba, (enableReleaseIoregion smba).AllOps Lasting := fun _ => ⟨trivial, fun _ => trivial⟩
  unfold piix4AsfDisable
  refine Prog.AllOps.bind ⟨trivial, fun _ => trivial⟩ fun a => ?_
  refine Prog.AllOps.bind ⟨trivial, fun _ => trivial⟩ fun a' => ?_
  dsimp only
  split
  · refine stop_lasting.bind fun _ => ?_
    refine Prog.AllOps.bind ⟨trivial, fun _ => trivial⟩ fun _ => (unclaimLocked_lasting _).bind fun _ => ?_
    refine Prog.AllOps.bind ⟨trivial, fun _ => trivial⟩ fun _ => ?_
    refine Prog.AllOps.bind ⟨trivial, fun _ => trivial⟩ fun a'' => ?_
    split
    · exact ⟨trivial, fun _ => ⟨trivial, fun _ => (hwindow _).bind fun _ => hrest⟩⟩
    · exact (hwindow _).bind fun _ => hrest
  · exact hrest

end Lasting

/-! ## Starting -/

/-- The critical section of start states what is wanted. -/
theorem startLocked_spec (smba : ℕ) :
    Triple (vows k b (.core .start) t) (Mine t Intent.Startable) (startLocked smba) fun _ =>
      Mine t Intent.Started := by
  have hG : ∀ i, Intent.Started i → i.Upheld .start := fun i h _ _ => h.startable.rest.wanted
  unfold startLocked
  refine .bind (mineSet_spec (F := Intent.Started) (fun i h _ _ => h.rest.wanted) fun s h => ?_) fun _ => ?_
  · exact ⟨⟨⟨h.rest.bound, fun _ _ _ => rfl, h.rest.pledged⟩, h.bound, h.awake⟩, fun _ => rfl⟩
  refine .bind (mineTacit_spec piix4Asf_tacit hG) fun a => ?_
  refine .bind (mine_spec (regionRequest_unwilled _) hG) fun r => ?_
  split
  · refine .bind (mineMild_spec (fun _ => ⟨rfl, rfl, rfl⟩) hG) fun _ => ?_
    refine .bind (mine_spec (slaveArm_allOps trivial (fun _ ho => ho.unwilled) smba) hG) fun _ => ?_
    exact .bind (mineTacit_spec piix4Asf_tacit hG) fun a' => mine_spec (regionRelease_unwilled _) hG
  · exact .ret fun _ _ h => h

/-- Start states what is wanted, if the block is active. -/
theorem piix4AsfStart_spec :
    Triple (vows k b (.core .start) t) (Mine t Intent.Startable) piix4AsfStart fun _ =>
      Mine t Intent.Started := by
  have hG : ∀ i, Intent.Startable i → i.Upheld .start := fun i h _ _ => h.rest.wanted
  unfold piix4AsfStart startBody
  refine .bind (mineOp_spec trivial hG) fun _ => .bind (mineOp_spec trivial hG) fun a => ?_
  refine .bind (mineRead_spec hG) fun a' => ?_
  split
  · next hinactive =>
    refine .ret fun s _ h => ⟨h.1, h.2.1, fun hactive => ?_⟩
    have hread : a'.active = true := h.2.2.1.symm.trans hactive
    rw [hread] at hinactive
    exact absurd hinactive (by decide)
  · refine .pre (P := Mine t Intent.Startable) ?_ fun s _ h => ⟨h.1, h.2.1⟩
    refine .bind (mineOp_spec trivial hG) fun _ => .bind (mineOp_spec trivial hG) fun _ => ?_
    refine .bind (mineOp_spec trivial hG) fun _ => .bind (mineOp_spec trivial hG) fun _ => ?_
    exact .bind (startLocked_spec _) fun _ =>
      mineOp_spec trivial fun i h _ _ => h.startable.rest.wanted

/-- Start upholds what is wanted. -/
theorem start_spec : Triple (vows k b (.core .start) t) (Mine t Intent.Startable)
    (Call.body b (.core .start)) fun _ _ => True := by
  refine .bind piix4AsfStart_spec fun _ =>
    coreDone_spec (fun i h _ _ => h.startable.rest.wanted) fun s h => ?_
  refine ⟨fun _ => h.startable.bound, fun _ hactive _ => h.want hactive, fun _ _ hasleep => ?_⟩
  exact Bool.noConfusion (hasleep.symm.trans h.startable.awake)

/-! ## Sleeping -/

/-- Quieting the slave keeps what has been laid aside. -/
theorem quiesce_spec (smba : ℕ) :
    Triple (vows k b (.core .suspend) t) (Mine t Intent.LaidAside) (piix4AsfQuiesce smba) fun _ =>
      Mine t Intent.LaidAside := by
  have hG : ∀ {G : Intent → Prop}, ∀ i, G i → i.Upheld .suspend := fun _ _ h _ => absurd rfl h
  unfold piix4AsfQuiesce
  refine .bind (mineSet_spec (F := Intent.LaidAside) hG fun s h => ⟨h.bound, h.pledged⟩) fun _ => ?_
  refine .bind (mineTacit_spec (updateIoport_tacit _ _ _) hG) fun _ => ?_
  refine .bind (mineTacit_spec (updateIoport_tacit _ _ _) hG) fun _ => ?_
  refine .bind (mineTacit_spec (updateIoport_tacit _ _ _) hG) fun _ => ?_
  refine .bind (mineTacit_spec (clearStatus_tacit _) hG) fun _ => ?_
  refine .bind (mineMild_spec (fun _ => ⟨rfl, rfl, rfl⟩) hG) fun _ => ?_
  refine .bind (mineTacit_spec piix4Asf_tacit hG) fun a => ?_
  dsimp only
  split
  · exact .bind (mineOp_spec trivial hG) fun _ => mineMild_spec (fun _ => ⟨rfl, rfl, rfl⟩) hG
  · exact mineMild_spec (fun _ => ⟨rfl, rfl, rfl⟩) hG

/-- The critical section of suspend lays aside what is wanted. -/
theorem suspendLocked_spec (smba : ℕ) :
    Triple (vows k b (.core .suspend) t) (Mine t Intent.Awake) (suspendLocked smba) fun _ =>
      Mine t Intent.LaidAside := by
  have hG : ∀ {G : Intent → Prop}, ∀ i, G i → i.Upheld .suspend := fun _ _ h _ => absurd rfl h
  unfold suspendLocked
  refine .bind (mineRead_spec hG) fun a => ?_
  refine .bind (mineSet_spec (F := Intent.LaidAside) hG fun s h => ?_) fun _ => ?_
  · -- what a started device that is awake wants is what resume will want
    exact ⟨h.1.rest.bound, fun hs ha => h.2.2.1.symm.trans (h.1.rest.wanted hs ha h.1.awake)⟩
  refine .bind (mineTacit_spec piix4Asf_tacit hG) fun a' => ?_
  split
  · exact quiesce_spec _
  · exact .ret fun _ _ h => h

/-- Suspend lays aside what is wanted, if the block is active. -/
theorem piix4AsfSuspend_spec :
    Triple (vows k b (.core .suspend) t) (Mine t Intent.Awake) piix4AsfSuspend fun _ =>
      Mine t Intent.LaidAside := by
  have hG : ∀ {G : Intent → Prop}, ∀ i, G i → i.Upheld .suspend := fun _ _ h _ => absurd rfl h
  unfold piix4AsfSuspend
  refine .bind (mineTacit_spec piix4Asf_tacit hG) fun a => .bind (mineRead_spec hG) fun a' => ?_
  split
  · next hinactive =>
    refine .ret fun s _ h => ⟨h.1, h.2.1.rest.bound, fun _ hactive => ?_⟩
    have hread : a'.active = true := h.2.2.1.symm.trans hactive
    rw [hread] at hinactive
    exact absurd hinactive (by decide)
  · refine .pre (P := Mine t Intent.Awake) ?_ fun s _ h => ⟨h.1, h.2.1⟩
    refine .bind (mineOp_spec trivial hG) fun _ => ?_
    exact .bind (suspendLocked_spec _) fun _ => mineOp_spec trivial hG

/-- Suspend leaves the intent to resume. -/
theorem suspend_spec : Triple (vows k b (.core .suspend) t) (Mine t Intent.Awake)
    (Call.body b (.core .suspend)) fun _ _ => True := by
  refine .bind piix4AsfSuspend_spec fun _ => coreDone_spec (fun _ _ h _ => absurd rfl h) fun s h => ?_
  exact ⟨h.bound, fun _ _ hawake => Bool.noConfusion hawake, fun hs ha _ => h.pledged hs ha⟩

/-! ## Waking up -/

/-- The critical section of resume wants again what was laid aside. -/
theorem resumeLocked_spec (smba : ℕ) :
    Triple (vows k b (.core .resume) t) (Mine t Intent.Waking) (resumeLocked smba) fun _ =>
      Mine t Intent.Awake := by
  have hG : ∀ {G : Intent → Prop}, ∀ i, G i → i.Upheld .resume := fun _ _ _ h => absurd rfl h
  unfold resumeLocked
  refine .bind (mineSet_spec (F := Intent.Awake) hG fun s h => ?_) fun _ => ?_
  · exact ⟨⟨h.aside.bound, fun _ _ _ => rfl, fun hs ha _ => h.aside.pledged hs ha⟩, h.awake⟩
  refine .bind (mineTacit_spec piix4Asf_tacit hG) fun a => ?_
  refine .bind (mine_spec (regionRequest_unwilled _) hG) fun r => ?_
  split
  · refine .bind (mineTacit_spec (updateIoport_tacit _ _ _) hG) fun _ => ?_
    refine .bind (mineTacit_spec (outb_tacit _ _) hG) fun _ => ?_
    refine .bind (mineMild_spec (fun _ => ⟨rfl, rfl, rfl⟩) hG) fun _ => ?_
    refine .bind (mine_spec (slaveArm_allOps trivial (fun _ ho => ho.unwilled) smba) hG) fun _ => ?_
    exact .bind (mineTacit_spec piix4Asf_tacit hG) fun a' => mine_spec (regionRelease_unwilled _) hG
  · exact .ret fun _ _ h => h

/-- Resume wants again what was laid aside, if anything was. -/
theorem piix4AsfResume_spec :
    Triple (vows k b (.core .resume) t) (Mine t Intent.Waking) piix4AsfResume fun _ =>
      Mine t Intent.Awake := by
  have hG : ∀ {G : Intent → Prop}, ∀ i, G i → i.Upheld .resume := fun _ _ _ h => absurd rfl h
  unfold piix4AsfResume
  refine .bind (mineTacit_spec piix4Asf_tacit hG) fun a => .bind (mineRead_spec hG) fun a' => ?_
  refine .bind (mineRead_spec hG) fun a'' => ?_
  split
  · next hskip =>
    -- nothing was laid aside, so nothing is served
    refine .ret fun s _ h => ⟨h.1, ⟨h.2.1.1.aside.bound, fun hs hactive => ?_, fun hs hactive => ?_⟩, h.2.1.1.awake⟩
    all_goals
      have hresume := h.2.1.1.aside.pledged hs hactive
      have hread : a'.active = true := h.2.1.2.1.symm.trans hactive
      have hread' : a''.resumeListen = true := h.2.2.2.2.symm.trans hresume
      rw [hread, hread'] at hskip
      exact absurd hskip (by decide)
  · refine .pre (P := Mine t Intent.Waking) ?_ fun s _ h => ⟨h.1, h.2.1.1⟩
    refine .bind (mineOp_spec trivial hG) fun _ => ?_
    exact .bind (resumeLocked_spec _) fun _ => mineOp_spec trivial hG

/-- Resume upholds what is wanted once it is through. -/
theorem resume_spec : Triple (vows k b (.core .resume) t) (Mine t Intent.Waking)
    (Call.body b (.core .resume)) fun _ _ => True := by
  refine .bind piix4AsfResume_spec fun _ => coreDone_spec (fun _ _ _ h => absurd rfl h) fun s h => ?_
  exact h.rest

end Callbacks

/-! ## Every call -/

/-- A transfer keeps its pledges to its end. -/
theorem transfer_spec (x : SmbusXfer) :
    Triple (vows k b (.transfer x) t) (Guest t) (Call.body b (.transfer x)) fun _ _ => True := by
  refine .bind piix4AccessAsf_spec fun _ => .post (P := Guest t) (Q := fun _ => Guest t) ?_ fun _ _ _ _ => trivial
  exact guest_spec (T := Op.Minor) ⟨trivial, fun _ => trivial⟩ fun _ _ ho => .of_minor nofun ho

/-- The IRQ thread keeps its pledges to its end. -/
theorem irqThread_spec :
    Triple (vows k b .irqThread t) (Interrupt t) (Call.body b .irqThread) fun _ _ => True := by
  refine .bind piix4AsfIrqThread_spec fun _ => .post (P := Guest t) (Q := fun _ => Guest t) ?_ fun _ _ _ _ => trivial
  exact guest_spec (T := Op.Minor) ⟨trivial, fun _ => trivial⟩ fun _ _ ho => .of_minor nofun ho

/-- Calls that have nothing to do with the target block. -/
theorem bystander_spec {call : Call} (htransfer : ∀ x, call ≠ .transfer x) (hthread : call ≠ .irqThread)
    (hcall : ∀ c, call ≠ .core c) :
    Triple (vows k b call t) (Guest t) (Call.body b call) fun _ _ => True :=
  (guest_spec (Prog.allOps_true _) fun _ _ _ => .of_call htransfer hthread hcall).post fun _ _ _ _ => trivial

/-- Every call is safe from where it begins. -/
theorem starts (k : Setting) (b : Board) : (pledges k b).Starts := by
  intro call t s s' he hs habsent
  obtain ⟨hinv', _⟩ := (pledges k b).enter_keeps call t s s' he hs habsent
  obtain ⟨he, hown⟩ := Machine.confine_enter.mp he
  have hguest : (∀ c, call ≠ .core c) → Guest t s' := fun hcall => by
    cases call with
    | core c => exact absurd rfl (hcall c)
    | _ =>
      obtain ⟨_, he⟩ := Option.ite_none_right_eq_some.mp he
      cases he
      exact habsent
  cases call with
  | transfer x => exact .of_triple stable_guest (transfer_spec x) hinv' (hguest nofun)
  | plainTransfer x => exact .of_triple stable_guest (bystander_spec nofun nofun nofun) hinv' (hguest nofun)
  | mainTransfer a x =>
    exact .of_triple stable_guest (bystander_spec nofun nofun nofun) hinv' (hguest nofun)
  | irqThread =>
    refine .of_triple stable_interrupt irqThread_spec hinv' ⟨hguest nofun, ?_⟩
    obtain ⟨_, he⟩ := Option.ite_none_right_eq_some.mp he
    cases he
    rfl
  | core c =>
    obtain ⟨hmay, he⟩ := Option.ite_none_right_eq_some.mp he
    have hrest := hs.2 (mayBegin_owner hmay)
    simp only [St.mayBegin, Bool.and_eq_true] at hmay
    cases he
    cases c with
    | enable =>
      simp only [Bool.and_eq_true, Bool.not_eq_true'] at hmay
      refine .of_triple stable_mine (unserving_spec (claimAux_lasting b) fun _ h => h) hinv'
        ⟨rfl, Bool.eq_false_iff.mpr fun hserving => ?_⟩
      exact Bool.noConfusion ((hrest.bound hserving).symm.trans hmay.2.1.1.1)
    | addAdapter =>
      exact .of_triple stable_mine (unwilled_spec (addAdapter_unwilled _) fun _ => rfl) hinv' ⟨rfl, hrest⟩
    | start =>
      simp only [Bool.and_eq_true, Bool.not_eq_true'] at hmay
      exact .of_triple stable_mine start_spec hinv' ⟨rfl, hrest, hmay.2.1.1.1, hmay.2.1.1.2⟩
    | stop => exact .of_triple stable_mine (unserving_spec stop_lasting fun _ h => h) hinv' ⟨rfl, rfl⟩
    | adapRemove =>
      exact .of_triple stable_mine (unwilled_spec (adapRemove_unwilled _) fun _ => rfl) hinv' ⟨rfl, hrest⟩
    | disable => exact .of_triple stable_mine (unserving_spec disable_lasting fun _ h => h) hinv' ⟨rfl, rfl⟩
    | suspend =>
      simp only [Bool.and_eq_true, Bool.not_eq_true'] at hmay
      exact .of_triple stable_mine suspend_spec hinv' ⟨rfl, hrest, hmay.2.1.2⟩
    | resume =>
      simp only [Bool.and_eq_true, Bool.not_eq_true'] at hmay
      refine .of_triple stable_mine resume_spec hinv' ⟨rfl, ⟨hrest.bound, fun hserving hactive => ?_⟩, rfl⟩
      exact hrest.pledged hserving hactive hmay.2.1.2

/-- In every reachable pool all pledges are kept. -/
theorem covers (h : p.Reachable (machine k b) (Unbound k)) : (pledges k b).Covers p := by
  refine Proof.covers_reachable (pledges k b) (fun s hs => ⟨⟨hs.inv, fun _ => ?_⟩, fun t => ?_⟩) (starts k b)
    ((known_valid k b).reachable h)
  · refine .of_unserving ?_
    unfold St.intent
    rw [hs.life]
  · change s.life.owner ≠ some t
    rw [hs.life]
    nofun

end Pledge

end HostNotify
