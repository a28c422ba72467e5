import HostNotify.Lifecycle
import HostNotify.Transaction

/-!
# Code that only moves data

Most functions around the target block only go through ports and DecodeEn, wait, and ask questions.
They take no lock and no region, store no field of the driver's global, deliver nothing and pass no
mark, whatever the hardware answers.
-/

namespace HostNotify

open Bits Interleaving

/-- The operation changes no variable of the driver but `pending`, takes and gives up nothing, and
passes no mark. -/
def Op.Tacit : Op → Prop
  | .inb _ | .outb _ _ | .ioread32 | .iowrite32 _ | .asf | .xchgPending _ | .usleepRange _ _
  | .dynamicDebug | .synchronizeHardirq => True
  | _ => False

/-- Reading a port is tacit. -/
theorem inb_tacit (port : ℕ) : (inb port).AllOps Op.Tacit := ⟨trivial, fun _ => trivial⟩

/-- Writing a port is tacit. -/
theorem outb_tacit (v : Byte) (port : ℕ) : (outb v port).AllOps Op.Tacit := ⟨trivial, fun _ => trivial⟩

/-- Reading the global is tacit. -/
theorem piix4Asf_tacit : piix4Asf.AllOps Op.Tacit := ⟨trivial, fun _ => trivial⟩

/-- Changing a bit of a port is tacit. -/
theorem updateIoport_tacit (n port : ℕ) (set : Bool) :
    (piix4AsfUpdateIoport n port set).AllOps Op.Tacit :=
  (inb_tacit _).bind fun _ => outb_tacit _ _

/-- Changing a bit of DecodeEn is tacit. -/
theorem updateMmio_tacit (n : ℕ) (set : Bool) : (piix4AsfUpdateMmio n set).AllOps Op.Tacit :=
  Prog.AllOps.bind ⟨trivial, fun _ => trivial⟩ fun _ => ⟨trivial, fun _ => trivial⟩

/-- Routing port 0x07 is tacit. -/
theorem bnkselDataEn_tacit (smba : ℕ) (set : Bool) :
    (piix4AsfBnkselDataEn smba set).AllOps Op.Tacit :=
  (inb_tacit _).bind fun _ => outb_tacit _ _

/-- Clearing the status registers is tacit. -/
theorem clearStatus_tacit (smba : ℕ) : (piix4AsfClearStatus smba).AllOps Op.Tacit :=
  (outb_tacit _ _).bind fun _ => (outb_tacit _ _).bind fun _ => outb_tacit _ _

/-- Entering master mode is tacit. -/
theorem masterMode_tacit (smba : ℕ) : (piix4AsfMasterMode smba).AllOps Op.Tacit :=
  (updateIoport_tacit _ _ _).bind fun _ => (updateIoport_tacit _ _ _).bind fun _ =>
    (updateIoport_tacit _ _ _).bind fun _ => (outb_tacit _ _).bind fun _ =>
      (updateMmio_tacit _ _).bind fun _ => bnkselDataEn_tacit _ _

/-- `piix4_asf_slave_arm` after its mark. -/
theorem slaveArm_allOps {T : Op → Prop} (hmark : T (.mark .armBegin)) (hT : ∀ o, o.Tacit → T o)
    (smba : ℕ) : (piix4AsfSlaveArm smba).AllOps T := by
  have hrest : ∀ {p : Driver Unit}, p.AllOps Op.Tacit → p.AllOps T := fun hp => hp.mono hT
  unfold piix4AsfSlaveArm
  refine Prog.AllOps.bind ⟨hmark, fun _ => trivial⟩ fun _ => hrest ?_
  exact (outb_tacit _ _).bind fun _ => (clearStatus_tacit _).bind fun _ =>
    (bnkselDataEn_tacit _ _).bind fun _ => (outb_tacit _ _).bind fun _ =>
      (updateMmio_tacit _ _).bind fun _ => (updateMmio_tacit _ _).bind fun _ =>
        (updateIoport_tacit _ _ _).bind fun _ => (updateIoport_tacit _ _ _).bind fun _ =>
          (updateIoport_tacit _ _ _).bind fun _ => updateIoport_tacit _ _ _

/-- Holding the slave off is tacit. -/
theorem holdOff_tacit (smba : ℕ) : (holdOff smba).AllOps Op.Tacit :=
  (updateIoport_tacit _ _ _).bind fun _ => (updateIoport_tacit _ _ _).bind fun _ =>
    ⟨trivial, fun _ => trivial⟩

/-- What stays on the ports of a transfer only moves data. -/
theorem plain_tacit {A : Type} {p : Driver A} (hp : p.AllOps (Op.Plain fun _ => True)) :
    p.AllOps Op.Tacit := by
  refine hp.mono fun o ho => ?_
  cases o with
  | inb | outb | usleepRange | dynamicDebug => exact trivial
  | _ => exact ho.elim

/-- An SMBus access is tacit. -/
theorem access_tacit (x : SmbusXfer) : (piix4Access x).AllOps Op.Tacit :=
  plain_tacit (piix4Access_plain fun _ _ => trivial)

/-- The operations by which the region is asked for. -/
theorem regionRequest_allOps {T : Op → Prop} (hrequest : T .requestMemRegionMuxed)
    (hrelease : T .releaseMemRegion) (hmap : T .ioremap) (hlegacy : ∀ start len, T (.requestMuxedRegion start len))
    (useMmio : Bool) : (piix4Sb800RegionRequest useMmio).AllOps T := by
  cases useMmio with
  | true =>
    refine Prog.AllOps.bind ⟨hrequest, fun _ => trivial⟩ fun got => ?_
    cases got with
    | false => exact trivial
    | true =>
      refine Prog.AllOps.bind ⟨hmap, fun _ => trivial⟩ fun mapped => ?_
      cases mapped with
      | false => exact ⟨hrelease, fun _ => trivial⟩
      | true => exact trivial
  | false =>
    refine Prog.AllOps.bind ⟨hlegacy _ _, fun _ => trivial⟩ fun got => ?_
    cases got with
    | false => exact trivial
    | true => exact trivial

/-- Those by which it is given up. -/
theorem regionRelease_allOps {T : Op → Prop} (hrelease : T .releaseMemRegion)
    (hlegacy : ∀ start len, T (.releaseRegion start len)) (useMmio : Bool) :
    (piix4Sb800RegionRelease useMmio).AllOps T := by
  cases useMmio with
  | true => exact ⟨hrelease, fun _ => trivial⟩
  | false => exact ⟨hlegacy _ _, fun _ => trivial⟩

/-- Reading a payload is tacit. -/
theorem readPayload_tacit (smba left : ℕ) : (readPayload smba left).AllOps Op.Tacit := by
  induction left with
  | zero => exact trivial
  | succ left ih => exact (inb_tacit _).bind fun _ => ih.bind fun _ => trivial

/-- Reading a bank is tacit. -/
theorem readBank_tacit (smba : ℕ) (reg : Byte) (i : Bool) : (readBank smba reg i).AllOps Op.Tacit :=
  (outb_tacit _ _).bind fun _ => (inb_tacit _).bind fun _ => (inb_tacit _).bind fun _ =>
    (readPayload_tacit _ _).bind fun _ => (outb_tacit _ _).bind fun _ => trivial

/-- Taking the signal is tacit. -/
theorem takeSignal_tacit (smba : ℕ) : (takeSignal smba).AllOps Op.Tacit := by
  have hack : (ackStatus smba).AllOps Op.Tacit := by
    refine (inb_tacit _).bind fun sta => ?_
    dsimp only
    split
    · exact (outb_tacit _ _).bind fun _ => trivial
    · exact trivial
  exact hack.bind fun _ => Prog.AllOps.bind ⟨trivial, fun _ => trivial⟩ fun _ => trivial

/-- Looking at the flags of the banks is tacit. -/
theorem banksIdle_tacit (smba : ℕ) : (banksIdle smba).AllOps Op.Tacit :=
  (inb_tacit _).bind fun _ => trivial

/-! ## The drain -/

section Drain

variable {T : Op → Prop} (hT : ∀ o, o.Tacit → T o) (hmark : ∀ m, m ≠ .armBegin → m ≠ .transferEnd → T (.mark m))
include hT hmark

/-- The operations by which a bank is processed. -/
theorem processBank_allOps (allow : Bool) (prefer : ℕ) : (piix4AsfProcessBank allow prefer).AllOps T := by
  have htacit : ∀ {A : Type} {p : Driver A}, p.AllOps Op.Tacit → p.AllOps T := fun hp => hp.mono hT
  have hfinish : ∀ smba bank cmd data, (finishBank smba bank cmd data).AllOps T := by
    intro smba bank cmd data
    refine (htacit (outb_tacit _ _)).bind fun _ => ?_
    split
    · exact trivial
    · exact Prog.AllOps.bind ⟨hmark _ nofun nofun, fun _ => trivial⟩ fun _ => trivial
  refine (htacit piix4Asf_tacit).bind fun a => (htacit (inb_tacit _)).bind fun sta => ?_
  split
  · refine (htacit (inb_tacit _)).bind fun reg => (htacit (outb_tacit _ _)).bind fun _ => ?_
    exact Prog.AllOps.bind ⟨hmark _ nofun nofun, fun _ => trivial⟩ fun _ => hfinish _ _ _ _
  · refine (htacit (inb_tacit _)).bind fun reg => ?_
    split
    · exact trivial
    · exact (htacit (readBank_tacit _ _ _)).bind fun _ => hfinish _ _ _ _

/-- Those of the passes of a drain. -/
theorem drainPasses_allOps (smba left i : ℕ) (n : Notifies) : (drainPasses smba left i n).AllOps T := by
  have htacit : ∀ {A : Type} {p : Driver A}, p.AllOps Op.Tacit → p.AllOps T := fun hp => hp.mono hT
  induction left generalizing i n with
  | zero => exact (htacit (banksIdle_tacit _)).bind fun _ => trivial
  | succ left ih =>
    have hpass : ∀ signalled, (readPass signalled i n fun n' => drainPasses smba left (i + 1) n').AllOps T := by
      intro signalled
      refine (processBank_allOps hT hmark signalled i).bind fun r => ?_
      split
      · exact trivial
      · exact ih _ _
    unfold drainPasses
    refine (htacit (takeSignal_tacit _)).bind fun signalled => ?_
    cases signalled with
    | true => exact hpass true
    | false =>
      refine (htacit (banksIdle_tacit _)).bind fun quiet => ?_
      cases quiet with
      | true => exact trivial
      | false => exact hpass false

/-- The operations of a whole drain. -/
theorem drain_allOps (smba : ℕ) (n : Notifies) : (piix4AsfDrain smba n).AllOps T := by
  have hnote : ∀ m, m ≠ .armBegin → m ≠ .transferEnd → (mark m).AllOps T := fun m harm hend =>
    ⟨hmark m harm hend, fun _ => trivial⟩
  refine (hnote .drainBegin nofun nofun).bind fun _ => ?_
  refine (drainPasses_allOps hT hmark smba _ _ _).bind fun r => ?_
  exact (hnote (.drainEnd r.1) nofun nofun).bind fun _ => trivial

end Drain

/-- The operations of a delivery. -/
theorem deliver_allOps {T : Op → Prop} (hnotify : T (.lock .notify)) (hunlock : T (.unlock .notify))
    (hok : T .deliverOk) (hadapter : T .auxAdapter) (hhandle : ∀ a, T (.i2cHandleSmbusHostNotify a))
    (hmark : T (.mark .notified)) (n : Notifies) : (piix4AsfDeliver n).AllOps T := by
  have hall : ∀ l, (deliverAll l).AllOps T := by
    intro l
    induction l with
    | nil => exact trivial
    | cons a rest ih => exact ⟨hhandle a, fun _ => ⟨hmark, fun _ => ih⟩⟩
  have hend : (unlock .notify).AllOps T := ⟨hunlock, fun _ => trivial⟩
  unfold piix4AsfDeliver
  split
  · exact trivial
  · refine Prog.AllOps.bind ⟨hnotify, fun _ => trivial⟩ fun _ => ?_
    refine Prog.AllOps.bind ⟨hok, fun _ => trivial⟩ fun ok => ?_
    cases ok with
    | false => exact hend
    | true =>
      refine Prog.AllOps.bind ⟨hadapter, fun _ => trivial⟩ fun adapter => ?_
      cases adapter with
      | false => exact hend
      | true => exact (hall _).bind fun _ => hend

/-! ## Transfers -/

section Transfers

variable {T : Op → Prop} (hT : ∀ o, o.Tacit → T o) (hmark : ∀ m, m ≠ .transferEnd → T (.mark m))
include hT hmark

/-- Those of the drain at the beginning of a transfer. -/
theorem drainListening_allOps (smba : ℕ) : (drainListening smba).AllOps T := by
  refine (piix4Asf_tacit.mono hT).bind fun a => ?_
  split
  · refine ((holdOff_tacit smba).mono hT).bind fun _ => ?_
    exact (drain_allOps hT (fun m _ hend => hmark m hend) smba _).bind fun _ => trivial
  · exact trivial

variable (hlisten : T (.setAsf fun a => { a with listening := true }))
include hlisten

/-- The operations of the attempts. -/
theorem attempts_allOps (left : ℕ) (x : SmbusXfer) (n : Notifies) : (attempts x left n).AllOps T := by
  have hyield : ∀ smba n, (yieldBus smba n).AllOps T := by
    intro smba n
    refine Prog.AllOps.bind ⟨hlisten, fun _ => trivial⟩ fun _ => ?_
    refine (slaveArm_allOps (hmark _ nofun) hT smba).bind fun _ => ?_
    refine Prog.AllOps.bind ⟨hT _ trivial, fun _ => trivial⟩ fun _ => ?_
    exact ((holdOff_tacit smba).mono hT).bind fun _ => drain_allOps hT (fun m _ hend => hmark m hend) smba n
  induction left generalizing x n with
  | zero =>
    unfold attempts
    refine ((masterMode_tacit _).mono hT).bind fun _ => ((access_tacit x).mono hT).bind fun r => ?_
    refine (piix4Asf_tacit.mono hT).bind fun a => ?_
    split <;> exact trivial
  | succ left ih =>
    unfold attempts
    refine ((masterMode_tacit _).mono hT).bind fun _ => ((access_tacit x).mono hT).bind fun r => ?_
    refine (piix4Asf_tacit.mono hT).bind fun a => ?_
    split
    · exact trivial
    · refine (hyield _ _).bind fun r => ?_
      dsimp only
      split
      · exact Prog.AllOps.bind ⟨hmark _ nofun, fun _ => trivial⟩ fun _ => trivial
      · exact ih _ _

/-- What a transfer does under the mutex and the region. -/
theorem accessAsfLocked_allOps (x : SmbusXfer) : (accessAsfLocked x).AllOps T := by
  refine (drainListening_allOps hT hmark _).bind fun n => ?_
  refine (attempts_allOps hT hmark hlisten _ x n).bind fun r => (piix4Asf_tacit.mono hT).bind fun a => ?_
  split
  · refine Prog.AllOps.bind ⟨hlisten, fun _ => trivial⟩ fun _ => ?_
    exact (slaveArm_allOps (hmark _ nofun) hT _).bind fun _ => trivial
  · exact trivial

end Transfers

/-! ## The adapter -/

/-- Those by which the adapter is registered. -/
theorem addAdapter_allOps {T : Op → Prop} (halloc : T .kzalloc) (hasf : T .asf)
    (hadd : ∀ algo, T (.i2cAddAdapter algo)) (hset : T (.setAuxAdapter true))
    (hmark : T (.mark .registrationFailed)) (hrelease : ∀ start len, T (.releaseRegion start len)) (smba : ℕ) :
    (piix4AddAdapter smba).AllOps T := by
  have hfailed : (addFailed smba).AllOps T := ⟨hmark, fun _ => ⟨hrelease _ _, fun _ => trivial⟩⟩
  have halgo : (piix4AsfAlgo smba).AllOps T := by
    refine Prog.AllOps.bind ⟨hasf, fun _ => trivial⟩ fun a => ?_
    split
    · exact trivial
    · exact ⟨hasf, fun _ => trivial⟩
  unfold piix4AddAdapter
  refine Prog.AllOps.bind ⟨halloc, fun _ => trivial⟩ fun ok => ?_
  split
  · exact hfailed
  · refine halgo.bind fun asfAlgo => Prog.AllOps.bind ⟨halloc, fun _ => trivial⟩ fun ok' => ?_
    split
    · exact hfailed
    · refine Prog.AllOps.bind ⟨hadd _, fun _ => trivial⟩ fun r => ?_
      split
      · exact hfailed
      · exact ⟨hset, fun _ => trivial⟩

/-- Those by which it is removed. -/
theorem adapRemove_allOps {T : Op → Prop} (hdel : T .i2cDelAdapter) (hset : T (.setAuxAdapter false))
    (hrelease : ∀ start len, T (.releaseRegion start len)) (smba : ℕ) : (piix4AdapRemove smba).AllOps T :=
  ⟨hdel, fun _ => ⟨hrelease _ _, fun _ => ⟨hset, fun _ => trivial⟩⟩⟩

end HostNotify
