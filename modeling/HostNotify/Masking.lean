import HostNotify.Contention

/-!
# Arming against the hard handler

The handlers write ASFSLVEN at any time, so what a party that holds `piix4_asf_mutex` knows of the
register is what the order of the accesses says. Each of `piix4_asf_start`, `piix4_asf_resume` and
`piix4_access_asf` gives the mutex back with a slave that is, wherever it listens, enabled but for the
handlers that have overtaken it.
-/

namespace HostNotify

open Bits Interleaving

namespace Contest

variable {b : Board} {s s' : Contest} {t : ℕ} {c : Contender} {smba : ℕ}

/-! ## What a party knows -/

/-- Facts about `want_listen`, `listening`, ASFSLVEN and its accesses. -/
abbrev Facts := Bool → Bool → Byte → List Access → Prop

/-- The handlers cannot falsify the facts. -/
def Closed (F : Facts) : Prop := ∀ w l v log v' log', Meddled v log v' log' → F w l v log → F w l v' log'

/-- Thread `t` has the mutex, and the facts hold. -/
def Holds (t : ℕ) (F : Facts) (s : Contest) : Prop :=
  s.st.mutex = some t ∧ F s.st.asf.wantListen s.st.asf.listening s.st.hw.slven s.log

/-- Thread `t` is at work and has not got the mutex. -/
def Away (t : ℕ) (s : Contest) : Prop := s.st.mutex ≠ some t ∧ t ∈ s.working

/-- A slave that listens is wanted, and as the order of the accesses has it. -/
def Sound : Facts := fun w l v log => l = true → w = true ∧ Agrees v log

/-- The intent is `w`, and a slave that listens is wanted. -/
def Intent (w : Bool) : Facts := fun w' l _ _ => w' = w ∧ (l = true → w = true)

/-- The slave is to listen, as far as software goes. -/
def Flagged : Facts := fun w l _ _ => w = true ∧ l = true

/-- The slave is to listen and the reset has been lifted, unless a handler has put it back. -/
def Lifted : Facts := fun w l v log => (w = true ∧ l = true) ∧ v.getLsbD 4 = spoilt log

/-- The same, where `x` has been read from ASFSLVEN since. -/
def Sighted (x : Byte) : Facts := fun w l _ log => (w = true ∧ l = true) ∧ x.getLsbD 4 = sighted log

/-- The slave listens in software, and ASFSLVEN is as the order of the accesses has it. -/
def Enabled : Facts := fun w l v log => (w = true ∧ l = true) ∧ Agrees v log

/-- No handler's write makes a sound state unsound. -/
theorem closed_sound : Closed Sound :=
  fun _ _ _ _ _ _ hm h hl => ⟨(h hl).1, (h hl).2.meddled hm⟩

/-- What is wanted and heard is not the handler's to change. -/
theorem closed_intent (w : Bool) : Closed (Intent w) := fun _ _ _ _ _ _ _ h => h

/-- A slave that has been flagged as listening stays so. -/
theorem closed_flagged : Closed Flagged := fun _ _ _ _ _ _ _ h => h

/-- What has been written to lift the reset stays on record. -/
theorem closed_lifted : Closed Lifted := by
  intro w l v log v' log' hm ⟨hflagged, hlifted⟩
  cases hm with
  | none => exact ⟨hflagged, hlifted⟩
  | read u rst => exact ⟨hflagged, hlifted⟩
  | write u v' hmasked hreset => exact ⟨hflagged, hreset⟩

/-- What has been seen of the reset stays on record. -/
theorem closed_sighted (x : Byte) : Closed (Sighted x) := by
  intro w l v log v' log' hm h
  cases hm <;> exact h

/-- A slave that has been armed stays so, but for handlers that are late. -/
theorem closed_enabled : Closed Enabled := fun _ _ _ _ _ _ hm h => ⟨h.1, h.2.meddled hm⟩

/-- Armed, the state may be left to others. -/
theorem Enabled.sound {w l : Bool} {v : Byte} {log : List Access} (h : Enabled w l v log) : Sound w l v log :=
  fun _ => ⟨h.1.1, h.2⟩

/-- An armed slave is wanted and listens. -/
theorem Enabled.intent {w l : Bool} {v : Byte} {log : List Access} (h : Enabled w l v log) :
    Intent true w l v log :=
  ⟨h.1.1, fun _ => rfl⟩

variable {F G : Facts}

/-- What the holder of the mutex knows survives the handlers if it is closed under them. -/
theorem stable_holds (hF : Closed F) : (rules b c t).Stable (Holds t F) := by
  intro s s' _ h hr _
  obtain ⟨hmutex, hlistening, hwant, hmeddled⟩ := hr.locked h.1
  refine ⟨hmutex, ?_⟩
  rw [hlistening, hwant]
  exact hF _ _ _ _ _ _ hmeddled h.2

/-- Nobody else gives a thread the mutex. -/
theorem stable_away : (rules b c t).Stable (Away t) :=
  fun _ _ _ h hr _ => ⟨hr.unlocked h.1, hr.working h.2⟩

/-- A weaker fact is known as well. -/
theorem Holds.mono (h : Holds t F s) (hFG : ∀ w l v log, F w l v log → G w l v log) : Holds t G s :=
  ⟨h.1, hFG _ _ _ _ h.2⟩

/-! ## Operations that change nothing here -/

variable {P : Contest → Prop} {A : Type} {q : Driver A}

/-- Code that keeps away from ASFSLVEN and the flags keeps what is known. -/
theorem neutral_spec (hP : (rules b c t).Stable P) (hq : q.AllOps (Neutral b)) :
    Triple (rules b c t) P q fun _ => P := by
  refine Triple.of_allOps hP hq fun o s ho hs hPs _ => ⟨trivial, fun r s' he => ?_⟩
  have hframe := exec_frame ho he
  exact ⟨fun u _ => hframe.rely u, hframe.inv hs, hP s s' hs hPs (hframe.rely t) (hframe.inv hs)⟩

/-- A look at the driver's global. -/
theorem asf_spec (hP : (rules b c t).Stable P) :
    Triple (rules b c t) P piix4Asf fun a s => a.smba = b.auxSmba ∧ P s := by
  refine Triple.perform (fun a => (Discipline.Stable.const _).and hP) fun s hs hPs _ => ⟨trivial, fun r s' he => ?_⟩
  cases he
  have hframe : Frame s s := ⟨rfl, rfl, rfl, rfl, rfl, rfl, rfl⟩
  exact ⟨fun u _ => hframe.rely u, hs, hs.smba, hPs⟩

/-- With the mutex, the flags that have been read stay what they are. -/
theorem asfHeld_spec (hF : Closed F) : Triple (rules b c t) (Holds t F) piix4Asf fun a s =>
    a.smba = b.auxSmba ∧ Holds t (fun w l v log => (w = a.wantListen ∧ l = a.listening) ∧ F w l v log) s := by
  have hclosed : ∀ a : Piix4Asf,
      Closed fun w l v log => (w = a.wantListen ∧ l = a.listening) ∧ F w l v log :=
    fun a w l v log v' log' hm h => ⟨h.1, hF w l v log v' log' hm h.2⟩
  refine Triple.perform (fun a => (Discipline.Stable.const _).and (stable_holds (hclosed a)))
    fun s hs h _ => ⟨trivial, fun r s' he => ?_⟩
  cases he
  have hframe : Frame s s := ⟨rfl, rfl, rfl, rfl, rfl, rfl, rfl⟩
  exact ⟨fun u _ => hframe.rely u, hs, hs.smba, h.1, ⟨rfl, rfl⟩, h.2⟩

/-- Reading another port than ASFSLVEN is neutral. -/
theorem inb_neutral {port : ℕ} (h : decode b.auxSmba port ≠ some .slven) : (inb port).AllOps (Neutral b) :=
  ⟨h, fun _ => trivial⟩

/-- Writing another port than ASFSLVEN is neutral. -/
theorem outb_neutral {port : ℕ} (h : decode b.auxSmba port ≠ some .slven) (v : Byte) :
    (outb v port).AllOps (Neutral b) := ⟨h, fun _ => trivial⟩

/-- Changing a bit of another port than ASFSLVEN is neutral. -/
theorem updateIoport_neutral {port : ℕ} (h : decode b.auxSmba port ≠ some .slven) (n : ℕ) (set : Bool) :
    (piix4AsfUpdateIoport n port set).AllOps (Neutral b) :=
  (inb_neutral h).bind fun _ => outb_neutral h _

/-- A bit of DecodeEn is changed elsewhere. -/
theorem updateMmio_neutral (n : ℕ) (set : Bool) : (piix4AsfUpdateMmio n set).AllOps (Neutral b) :=
  Prog.AllOps.bind ⟨trivial, fun _ => trivial⟩ fun _ => ⟨trivial, fun _ => trivial⟩

/-- Routing port 0x07 touches ASFDATABNKSEL only. -/
theorem bnkselDataEn_neutral (set : Bool) :
    (piix4AsfBnkselDataEn b.auxSmba set).AllOps (Neutral b) :=
  (inb_neutral (by simp)).bind fun _ => outb_neutral (by simp) _

/-- Clearing the status registers is neutral. -/
theorem clearStatus_neutral : (piix4AsfClearStatus b.auxSmba).AllOps (Neutral b) :=
  (outb_neutral (by simp) _).bind fun _ => (outb_neutral (by simp) _).bind fun _ =>
    outb_neutral (by simp) _

/-- Asking for the region is neutral. -/
theorem regionRequest_neutral (useMmio : Bool) :
    (piix4Sb800RegionRequest useMmio).AllOps (Neutral b) := by
  cases useMmio with
  | true =>
    refine Prog.AllOps.bind ⟨trivial, fun _ => trivial⟩ fun got => ?_
    cases got with
    | false => exact trivial
    | true =>
      refine Prog.AllOps.bind ⟨trivial, fun _ => trivial⟩ fun mapped => ?_
      cases mapped with
      | false => exact ⟨trivial, fun _ => trivial⟩
      | true => exact trivial
  | false =>
    refine Prog.AllOps.bind ⟨trivial, fun _ => trivial⟩ fun got => ?_
    cases got with
    | false => exact trivial
    | true => exact trivial

/-- Giving the region up is neutral. -/
theorem regionRelease_neutral (useMmio : Bool) :
    (piix4Sb800RegionRelease useMmio).AllOps (Neutral b) := by
  cases useMmio with
  | true => exact ⟨trivial, fun _ => trivial⟩
  | false => exact ⟨trivial, fun _ => trivial⟩

/-- Marks touch nothing. -/
theorem mark_neutral (m : Mark) : (mark m).AllOps (Neutral b) := ⟨trivial, fun _ => trivial⟩

/-- An SMBus access on the auxiliary port is neutral. -/
theorem access_neutral {x : SmbusXfer} (hx : x.smba = b.auxSmba) :
    (piix4Access x).AllOps (Neutral b) := by
  have hports : Permits (fun port => decode b.auxSmba port ≠ some .slven) x.smba := by
    have hlow : ∀ i ≤ 8, decode 0 i ≠ some .slven := by decide
    intro i hi
    rw [hx, decode_add]
    exact hlow i hi
  refine (piix4Access_plain hports).mono fun o ho => ?_
  cases o with
  | inb port => exact ho
  | outb v port => exact ho
  | usleepRange | dynamicDebug => exact trivial
  | _ => exact ho.elim

/-- Delivering what has been collected is neutral. -/
theorem deliver_neutral (n : Notifies) : (piix4AsfDeliver n).AllOps (Neutral b) := by
  have hall : ∀ l, (deliverAll l).AllOps (Neutral b) := by
    intro l
    induction l with
    | nil => exact trivial
    | cons a rest ih => exact ⟨trivial, fun _ => ⟨trivial, fun _ => ih⟩⟩
  have hend : (unlock .notify).AllOps (Neutral b) := ⟨trivial, fun _ => trivial⟩
  unfold piix4AsfDeliver
  split
  · exact trivial
  · refine Prog.AllOps.bind ⟨trivial, fun _ => trivial⟩ fun _ => ?_
    refine Prog.AllOps.bind ⟨trivial, fun _ => trivial⟩ fun ok => ?_
    cases ok with
    | false => exact hend
    | true =>
      refine Prog.AllOps.bind ⟨trivial, fun _ => trivial⟩ fun adapter => ?_
      cases adapter with
      | false => exact hend
      | true => exact (hall _).bind fun _ => hend

/-! ## The mutex -/

/-- A step of the thread that holds the mutex. -/
theorem holder_step (hm : s.st.mutex = some t) (hs : Inv b s) (hm' : s'.st.mutex = some t)
    (hworking : s'.working = s.working) (hsmba : s'.st.asf.smba = s.st.asf.smba)
    (hfound : ∀ u, u ≠ t → found u s'.log = found u s.log) :
    (∀ u, u ≠ t → Rely u s s') ∧ Inv b s' := by
  refine ⟨fun u hu => ⟨fun h => ?_, fun _ h => ?_, fun h => ?_, hfound u hu⟩, hsmba.trans hs.smba, fun u h => ?_,
    fun h => ?_⟩
  · exact absurd (Option.some.inj (h.symm.trans hm)) hu
  · exact absurd (Option.some.inj (h.symm.trans hm')) hu
  · rw [hworking]
    exact h
  · rw [hworking]
    exact hs.owner u (hm.trans (hm'.symm.trans h))
  · exact absurd (h.symm.trans hm') nofun

/-- Whoever takes the mutex finds a sound state. -/
theorem lock_spec : Triple (rules b c t) (Away t) (lock .asf) fun _ => Holds t Sound := by
  refine Triple.perform (fun _ => stable_holds closed_sound) fun s hs h _ => ⟨trivial, fun r s' he => ?_⟩
  obtain ⟨hx, hsame⟩ := exec_some (o := .lock .asf) he
  obtain ⟨hfree, hst⟩ := exec_lock hx
  rw [hst] at hsame
  subst hsame
  refine ⟨fun u hu => ⟨fun hm => ?_, fun _ hm => ?_, id, rfl⟩, ⟨hs.smba, fun u hm => ?_, nofun⟩, rfl, hs.idle hfree⟩
  · exact absurd (hfree.symm.trans hm) nofun
  · exact hu (Option.some.inj hm).symm
  · obtain rfl := Option.some.inj hm
    exact h.2

/-- Whoever gives it up leaves one. -/
theorem unlock_spec : Triple (rules b c t) (Holds t Sound) (unlock .asf) fun _ => Away t := by
  refine Triple.perform (fun _ => stable_away) fun s hs h _ => ⟨trivial, fun r s' he => ?_⟩
  cases he
  refine ⟨fun u hu => ⟨fun hm => ?_, fun _ => nofun, id, rfl⟩, ⟨hs.smba, nofun, fun _ => h.2⟩, nofun, hs.owner t h.1⟩
  exact absurd (Option.some.inj (hm.symm.trans h.1)) hu

/-- An operation of the holder that stores a flag. -/
theorem setAsf_spec {f : Piix4Asf → Piix4Asf} (hG : Closed G) (hf : ∀ a, (f a).smba = a.smba)
    (hFG : ∀ a v log, F a.wantListen a.listening v log → G (f a).wantListen (f a).listening v log) :
    Triple (rules b c t) (Holds t F) (setAsf f) fun _ => Holds t G := by
  refine Triple.perform (fun _ => stable_holds hG) fun s hs h _ => ⟨trivial, fun r s' he => ?_⟩
  have hst : s'.st = { s.st with asf := f s.st.asf } := by
    cases he
    rfl
  have hworking : s'.working = s.working := by
    cases he
    rfl
  have hm' : s'.st.mutex = some t := by
    rw [hst]
    exact h.1
  have hsmba : s'.st.asf.smba = s.st.asf.smba := by
    rw [hst]
    exact hf _
  have hlog : s'.log = s.log := by
    cases he
    rfl
  obtain ⟨hguar, hinv⟩ := holder_step h.1 hs hm' hworking hsmba fun u _ => congrArg (found u) hlog
  refine ⟨hguar, hinv, hm', ?_⟩
  rw [hst, hlog]
  exact hFG _ _ _ h.2

/-- An access of the holder. -/
theorem Accessed.locked {v : Byte} {log : List Access} (h : Accessed v log s s') (hm : s.st.mutex = some t)
    (hs : Inv b s) (hfound : ∀ u, u ≠ t → found u log = found u s.log) :
    (∀ u, u ≠ t → Rely u s s') ∧ Inv b s' := by
  refine holder_step hm hs (h.mutex.trans hm) h.working (congrArg Piix4Asf.smba h.asf) fun u hu => ?_
  rw [h.log]
  exact hfound u hu

/-- A read-modify-write of ASFSLVEN: `M` is what is known in between, while handlers may write. -/
theorem updateSlven_spec {n : ℕ} {set : Bool} {M : Byte → Facts} (hM : ∀ v, Closed (M v)) (hG : Closed G)
    (hread : ∀ w l v log, F w l v log → M v w l v (.read t true (getElem v 4 (fits rfl)) :: log))
    (hwrite : ∀ x w l v log, M x w l v log → G w l (assignBit n x set) (.write t true :: log)) :
    Triple (rules b c t) (Holds t F) (piix4AsfUpdateIoport n (asfSlvEn b.auxSmba) set) fun _ => Holds t G := by
  refine .bind (Q := fun v => Holds t (M v))
    (Triple.perform (fun v => stable_holds (hM v)) fun s hs h _ => ⟨trivial, fun v s' he => ?_⟩) fun v => ?_
  · obtain ⟨rfl, hacc⟩ := exec_read (decode_asfSlvEn _) he
    obtain ⟨hguar, hinv⟩ := hacc.locked h.1 hs fun u hu => if_neg (Ne.symm hu)
    refine ⟨hguar, hinv, hacc.mutex.trans h.1, ?_⟩
    rw [hacc.asf, hacc.slven, hacc.log, decide_eq_true h.1]
    exact hread _ _ _ _ h.2
  · refine Triple.perform (fun _ => stable_holds hG) fun s hs h _ => ⟨trivial, fun r s' he => ?_⟩
    have hacc := exec_write (decode_asfSlvEn _) he
    obtain ⟨hguar, hinv⟩ := hacc.locked h.1 hs fun u _ => rfl
    refine ⟨hguar, hinv, hacc.mutex.trans h.1, ?_⟩
    rw [hacc.asf, hacc.slven, hacc.log, decide_eq_true h.1]
    exact hwrite _ _ _ _ _ h.2

/-- A read-modify-write that nothing known depends on. -/
theorem updateSlven_blind {n : ℕ} {set : Bool} {φ : Bool → Bool → Prop} :
    Triple (rules b c t) (Holds t fun w l _ _ => φ w l) (piix4AsfUpdateIoport n (asfSlvEn b.auxSmba) set)
      fun _ => Holds t fun w l _ _ => φ w l :=
  updateSlven_spec (M := fun _ w l _ _ => φ w l) (fun _ _ _ _ _ _ _ _ h => h) (fun _ _ _ _ _ _ _ h => h)
    (fun _ _ _ _ h => h) fun _ _ _ _ _ h => h

/-- Leaving the code of a party. -/
theorem transferDone_spec :
    Triple (rules b c t) (Away t) (perform .transferDone) fun _ _ => True := by
  refine Triple.perform (fun _ => Discipline.Stable.const _) fun s hs h _ => ⟨trivial, fun r s' he => ?_⟩
  cases he
  have hstays : ∀ u, u ≠ t → u ∈ s.working → u ∈ s.working.filter (· ≠ t) := fun u hu hw =>
    List.mem_filter.mpr ⟨hw, by simpa using hu⟩
  refine ⟨fun u hu => ⟨fun hm => ⟨hm, rfl, rfl, .none⟩, id, hstays u hu, rfl⟩, ⟨hs.smba, fun u hm => ?_, hs.idle⟩, trivial⟩
  refine hstays u ?_ (hs.owner u hm)
  rintro rfl
  exact h.1 hm

/-! ## The functions of the driver -/

/-- Master mode leaves the flags alone. -/
theorem masterMode_spec {w : Bool} : Triple (rules b c t) (Holds t (Intent w))
    (piix4AsfMasterMode b.auxSmba) fun _ => Holds t (Intent w) := by
  have hkeep := stable_holds (b := b) (c := c) (t := t) (closed_intent w)
  unfold piix4AsfMasterMode
  refine .bind (neutral_spec hkeep (updateIoport_neutral (by simp) _ _)) fun _ => ?_
  refine .bind (updateSlven_blind) fun _ => ?_
  refine .bind (updateSlven_blind) fun _ => ?_
  refine neutral_spec hkeep ?_
  exact (outb_neutral (by simp) _).bind fun _ => (updateMmio_neutral _ _).bind fun _ =>
    bnkselDataEn_neutral _

/-- Arming a flagged slave enables it. -/
theorem slaveArm_spec : Triple (rules b c t) (Holds t Flagged) (piix4AsfSlaveArm b.auxSmba) fun _ =>
    Holds t Enabled := by
  have hkeep := stable_holds (b := b) (c := c) (t := t) closed_flagged
  unfold piix4AsfSlaveArm
  refine .bind (neutral_spec hkeep (mark_neutral _)) fun _ => ?_
  refine .bind (neutral_spec hkeep (outb_neutral (by simp) _)) fun _ => ?_
  refine .bind (neutral_spec hkeep clearStatus_neutral) fun _ => ?_
  refine .bind (neutral_spec hkeep (bnkselDataEn_neutral _)) fun _ => ?_
  refine .bind (neutral_spec hkeep (outb_neutral (by simp) _)) fun _ => ?_
  refine .bind (neutral_spec hkeep (updateMmio_neutral _ _)) fun _ => ?_
  refine .bind (neutral_spec hkeep (updateMmio_neutral _ _)) fun _ => ?_
  refine .bind (neutral_spec hkeep (updateIoport_neutral (by simp) _ _)) fun _ => ?_
  refine .bind (neutral_spec hkeep (updateIoport_neutral (by simp) _ _)) fun _ => ?_
  -- the reset is lifted first, and the last write enables the interrupt with the reset still lifted
  refine .bind (updateSlven_spec (M := fun _ => Flagged) (fun _ => closed_flagged) closed_lifted
    (fun _ _ _ _ h => h) fun x w l v log h => ⟨h, ?_⟩) fun _ => ?_
  · change (assignBit asfSlvRst x false)[4] = false
    rw [getElem_assignBit, if_pos rfl]
  · refine updateSlven_spec (M := Sighted) closed_sighted closed_enabled (fun w l v log h => h)
      fun x w l v log h => ⟨h.1, nofun, fun _ => ⟨?_, ?_⟩⟩
    · rw [getElem_assignBit, if_pos rfl]
    · rw [getElem_assignBit, if_neg (by decide)]
      exact h.2

/-- Flag the slave as listening, to arm it. -/
theorem setListening_spec (hF : ∀ w l v log, F w l v log → w = true) :
    Triple (rules b c t) (Holds t F) (setAsf fun a => { a with listening := true }) fun _ =>
      Holds t Flagged :=
  setAsf_spec closed_flagged (fun _ => rfl) fun _ _ _ h => ⟨hF _ _ _ _ h, rfl⟩

/-- Holding the slave off leaves the flags alone. -/
theorem holdOff_spec {w : Bool} : Triple (rules b c t) (Holds t (Intent w)) (holdOff b.auxSmba)
    fun _ => Holds t (Intent w) := by
  have hkeep := stable_holds (b := b) (c := c) (t := t) (closed_intent w)
  unfold holdOff
  refine .bind (neutral_spec hkeep (updateIoport_neutral (by simp) _ _)) fun _ => ?_
  refine .bind (updateSlven_blind) fun _ => ?_
  exact neutral_spec hkeep ⟨trivial, fun _ => trivial⟩

/-! ## Draining -/

/-- Reading a payload is neutral. -/
theorem readPayload_neutral (left : ℕ) : (readPayload b.auxSmba left).AllOps (Neutral b) := by
  induction left with
  | zero => exact trivial
  | succ left ih => exact (inb_neutral (by simp)).bind fun _ => ih.bind fun _ => trivial

/-- Reading a bank is neutral. -/
theorem readBank_neutral (reg : Byte) (bank : Bool) :
    (readBank b.auxSmba reg bank).AllOps (Neutral b) := by
  refine (outb_neutral (by simp) _).bind fun _ => ?_
  refine (inb_neutral (by simp)).bind fun _ => (inb_neutral (by simp)).bind fun _ => ?_
  exact (readPayload_neutral _).bind fun _ => (outb_neutral (by simp) _).bind fun _ => trivial

/-- Judging what has been read is neutral. -/
theorem finishBank_neutral (bank : ℕ) (cmd : Byte) (data : List Byte) :
    (finishBank b.auxSmba bank cmd data).AllOps (Neutral b) := by
  refine (outb_neutral (by simp) _).bind fun _ => ?_
  split
  · exact trivial
  · exact (mark_neutral _).bind fun _ => trivial

/-- Taking the signal is neutral. -/
theorem takeSignal_neutral : (takeSignal b.auxSmba).AllOps (Neutral b) := by
  refine Prog.AllOps.bind ((inb_neutral (by simp)).bind fun sta => ?_) fun _ =>
    Prog.AllOps.bind ⟨trivial, fun _ => trivial⟩ fun _ => trivial
  dsimp only
  split
  · exact (outb_neutral (by simp) _).bind fun _ => trivial
  · exact trivial

/-- Looking at the flags of the banks is neutral. -/
theorem banksIdle_neutral : (banksIdle b.auxSmba).AllOps (Neutral b) := (inb_neutral (by simp)).bind fun _ => trivial

/-- A bank is processed without a write of ASFSLVEN. -/
theorem processBank_spec (hP : (rules b c t).Stable P) (allow : Bool) (prefer : ℕ) :
    Triple (rules b c t) P (piix4AsfProcessBank allow prefer) fun _ => P := by
  unfold piix4AsfProcessBank
  refine .bind (asf_spec hP) fun a => .pure_pre fun hsmba => ?_
  rw [hsmba]
  refine neutral_spec hP ((inb_neutral (by simp)).bind fun sta => ?_)
  split
  · refine (inb_neutral (by simp)).bind fun reg => (outb_neutral (by simp) _).bind fun _ => ?_
    exact (mark_neutral _).bind fun _ => finishBank_neutral _ _ _
  · refine (inb_neutral (by simp)).bind fun reg => ?_
    split
    · exact trivial
    · exact (readBank_neutral _ _).bind fun _ => finishBank_neutral _ _ _

/-- The passes of a drain keep what is known. -/
theorem drainPasses_spec (hP : (rules b c t).Stable P) (left i : ℕ) (n : Notifies) :
    Triple (rules b c t) P (drainPasses b.auxSmba left i n) fun _ => P := by
  induction left generalizing i n with
  | zero => exact neutral_spec hP (banksIdle_neutral.bind fun _ => trivial)
  | succ left ih =>
    have hpass : ∀ signalled, Triple (rules b c t) P
        (readPass signalled i n fun n' => drainPasses b.auxSmba left (i + 1) n') fun _ => P := by
      intro signalled
      refine .bind (processBank_spec hP signalled i) fun r => ?_
      split
      · exact .ret fun _ _ h => h
      · exact ih _ _
    unfold drainPasses
    refine .bind (neutral_spec hP takeSignal_neutral) fun signalled => ?_
    cases signalled with
    | true => exact hpass true
    | false =>
      refine .bind (neutral_spec hP banksIdle_neutral) fun quiet => ?_
      cases quiet with
      | true => exact .ret fun _ _ h => h
      | false => exact hpass false

/-- A whole drain keeps what is known. -/
theorem drain_spec (hP : (rules b c t).Stable P) (n : Notifies) :
    Triple (rules b c t) P (piix4AsfDrain b.auxSmba n) fun _ => P := by
  unfold piix4AsfDrain
  refine .bind (neutral_spec hP (mark_neutral _)) fun _ => ?_
  refine .bind (drainPasses_spec hP _ _ _) fun r => ?_
  exact neutral_spec hP ((mark_neutral _).bind fun _ => trivial)

/-! ## Transfers -/

section Transfers

variable {x : SmbusXfer} {w : Bool}

/-- The drain at the beginning of a transfer keeps what is known. -/
theorem drainListening_spec : Triple (rules b c t) (Holds t (Intent w)) (drainListening b.auxSmba)
    fun _ => Holds t (Intent w) := by
  have hkeep := stable_holds (b := b) (c := c) (t := t) (closed_intent w)
  unfold drainListening
  refine .bind (asf_spec hkeep) fun a => .pure_pre fun _ => ?_
  cases a.listening with
  | false => exact .ret fun _ _ h => h
  | true =>
    refine .bind holdOff_spec fun _ => ?_
    exact .bind (drain_spec hkeep _) fun r => .ret fun _ _ h => h

/-- A listen window leaves the intent as it is. -/
theorem yieldBus_spec (n : Notifies) : Triple (rules b c t) (Holds t (Intent true))
    (yieldBus b.auxSmba n) fun _ => Holds t (Intent true) := by
  have hkeep := stable_holds (b := b) (c := c) (t := t) (closed_intent true)
  have henabled := stable_holds (b := b) (c := c) (t := t) closed_enabled
  unfold yieldBus
  refine .bind (setListening_spec fun w l v log h => h.1) fun _ => ?_
  refine .bind slaveArm_spec fun _ => ?_
  refine .bind (neutral_spec henabled ⟨trivial, fun _ => trivial⟩) fun _ => ?_
  refine .pre ?_ fun s _ h => h.mono fun w l v log => Enabled.intent
  exact .bind holdOff_spec fun _ => drain_spec hkeep n

/-- The attempts of a transfer leave the flags alone. -/
theorem attempts_spec (hx : x.smba = b.auxSmba) (left : ℕ) (n : Notifies) :
    Triple (rules b c t) (Holds t (Intent w)) (attempts x left n) fun _ => Holds t (Intent w) := by
  have hkeep := stable_holds (b := b) (c := c) (t := t) (closed_intent w)
  -- what has been read of the intent is the intent
  have hread : ∀ {A : Type} {q : Driver A} (a : Piix4Asf),
      (a.wantListen = w → Triple (rules b c t) (Holds t (Intent w)) q fun _ => Holds t (Intent w)) →
      Triple (rules b c t)
        (Holds t fun w' l v log => (w' = a.wantListen ∧ l = a.listening) ∧ Intent w w' l v log) q
        fun _ => Holds t (Intent w) := by
    intro A q a hq
    refine .learn (fun s _ h => h.2.1.1.symm.trans h.2.2.1) fun hw => ?_
    exact .pre (hq hw) fun s _ h => h.mono fun _ _ _ _ h => h.2
  induction left generalizing x n with
  | zero =>
    unfold attempts
    rw [hx]
    refine .bind masterMode_spec fun _ => ?_
    refine .bind (neutral_spec hkeep (access_neutral hx)) fun r => ?_
    refine .bind (asf_spec hkeep) fun a => .pure_pre fun _ => ?_
    split <;> exact .ret fun _ _ h => h
  | succ left ih =>
    unfold attempts
    rw [hx]
    refine .bind masterMode_spec fun _ => ?_
    refine .bind (neutral_spec hkeep (access_neutral hx)) fun r => ?_
    refine .bind (asfHeld_spec (closed_intent w)) fun a => .pure_pre fun _ => hread a fun hwant => ?_
    split
    · exact .ret fun _ _ h => h
    · next hretry =>
      obtain rfl : w = true := by
        rw [← hwant]
        by_contra hdeaf
        exact hretry (Or.inr (by simpa using hdeaf))
      refine .bind (yieldBus_spec n) fun y => ?_
      dsimp only
      split
      · exact neutral_spec hkeep ((mark_neutral _).bind fun _ => trivial)
      · exact ih rfl _

/-- Whatever the intent was, the transfer leaves a slave that is enabled if it listens. -/
theorem accessAsfLocked_spec (hx : x.smba = b.auxSmba) :
    Triple (rules b c t) (Holds t Sound) (accessAsfLocked x) fun _ => Holds t Sound := by
  have hintent : ∀ w, Triple (rules b c t) (Holds t (Intent w)) (accessAsfLocked x) fun _ =>
      Holds t Sound := by
    intro w
    unfold accessAsfLocked
    rw [hx]
    refine .bind drainListening_spec fun n => ?_
    refine .bind (attempts_spec hx _ n) fun r => ?_
    refine .bind (asfHeld_spec (closed_intent w)) fun a => .pure_pre fun _ => ?_
    split
    · next hwant =>
      refine .bind (setListening_spec fun w' l v log h => h.1.1.trans hwant) fun _ => ?_
      refine .bind slaveArm_spec fun _ => .ret fun s _ h => h.mono fun _ _ _ _ => Enabled.sound
    · next hdeaf =>
      refine .ret fun s _ h => h.mono fun w' l v log hfacts hlisten => ?_
      exact absurd (hfacts.1.1.symm.trans (hfacts.2.1.trans (hfacts.2.2 hlisten))) hdeaf
  refine .pre (.exists_pre hintent) fun s _ h => ⟨s.st.asf.wantListen, h.1, rfl, fun hl => (h.2 hl).1⟩

/-- A transfer takes a sound state to a sound one. -/
theorem accessAsf_spec (hx : x.smba = b.auxSmba) :
    Triple (rules b c t) (Away t) (piix4AccessAsf x) fun _ => Away t := by
  have hsound := stable_holds (b := b) (c := c) (t := t) closed_sound
  have haway := stable_away (b := b) (c := c) (t := t)
  unfold piix4AccessAsf
  refine .bind lock_spec fun _ => ?_
  refine .bind (asf_spec hsound) fun a => .pure_pre fun _ => ?_
  split
  · exact .bind unlock_spec fun _ => neutral_spec haway (access_neutral hx)
  · refine .bind (asf_spec hsound) fun a => .pure_pre fun _ => ?_
    refine .bind (neutral_spec hsound (regionRequest_neutral _)) fun retval => ?_
    split
    · exact .bind unlock_spec fun _ => .ret fun _ _ h => h
    · refine .bind (accessAsfLocked_spec hx) fun r => ?_
      refine .bind (asf_spec hsound) fun a => .pure_pre fun _ => ?_
      refine .bind (neutral_spec hsound (regionRelease_neutral _)) fun _ => ?_
      refine .bind (neutral_spec hsound (mark_neutral _)) fun _ => ?_
      refine .bind unlock_spec fun _ => ?_
      exact neutral_spec haway ((deliver_neutral _).bind fun _ => trivial)

end Transfers

/-! ## Starting and resuming -/

/-- The slave is wanted, and as the order of the accesses has it if it listens. -/
def Wanting : Facts := fun w l v log => w = true ∧ (l = true → Agrees v log)

/-- A slave that has been flagged as wanted stays so. -/
theorem closed_wanting : Closed Wanting := fun _ _ _ _ _ _ hm h => ⟨h.1, fun hl => (h.2 hl).meddled hm⟩

/-- A wanted slave that does not listen may be left to others. -/
theorem Wanting.sound {w l : Bool} {v : Byte} {log : List Access} (h : Wanting w l v log) : Sound w l v log :=
  fun hl => ⟨h.1, h.2 hl⟩

/-- Store the intent and ask for the region. -/
theorem setWant_spec : Triple (rules b c t) (Holds t Sound) (setAsf fun a => { a with wantListen := true })
    fun _ => Holds t Wanting :=
  setAsf_spec closed_wanting (fun _ => rfl) fun _ _ _ h => ⟨rfl, fun hl => (h hl).2⟩

/-- After arming only the region is left to be given up. -/
theorem release_spec : Triple (rules b c t) (Holds t Enabled)
    (do piix4Sb800RegionRelease (← piix4Asf).useMmio) fun _ => Holds t Sound := by
  have henabled := stable_holds (b := b) (c := c) (t := t) closed_enabled
  refine .bind (asf_spec henabled) fun a => .pure_pre fun _ => ?_
  exact .post (neutral_spec henabled (regionRelease_neutral _)) fun _ s _ h => h.mono fun _ _ _ _ => Enabled.sound

/-- The critical section of start takes a sound state to a sound one. -/
theorem startLocked_spec :
    Triple (rules b c t) (Holds t Sound) (startLocked b.auxSmba) fun _ => Holds t Sound := by
  have hwanting := stable_holds (b := b) (c := c) (t := t) closed_wanting
  unfold startLocked
  refine .bind setWant_spec fun _ => ?_
  refine .bind (asf_spec hwanting) fun a => .pure_pre fun _ => ?_
  refine .bind (neutral_spec hwanting (regionRequest_neutral _)) fun retval => ?_
  split
  · refine .bind (setListening_spec fun w l v log h => h.1) fun _ => ?_
    exact .bind slaveArm_spec fun _ => release_spec
  · exact .ret fun s _ h => h.mono fun _ _ _ _ => Wanting.sound

/-- The critical section of resume takes a sound state to a sound one. -/
theorem resumeLocked_spec :
    Triple (rules b c t) (Holds t Sound) (resumeLocked b.auxSmba) fun _ => Holds t Sound := by
  have hwanting := stable_holds (b := b) (c := c) (t := t) closed_wanting
  have hwanted : Closed fun w _ _ _ => w = true := fun _ _ _ _ _ _ _ h => h
  unfold resumeLocked
  refine .bind setWant_spec fun _ => ?_
  refine .bind (asf_spec hwanting) fun a => .pure_pre fun _ => ?_
  refine .bind (neutral_spec hwanting (regionRequest_neutral _)) fun retval => ?_
  split
  · -- the reset goes on before the flag: until the slave is armed only the intent is known
    refine .pre ?_ fun s _ h => h.mono (G := fun w _ _ _ => w = true) fun _ _ _ _ h => h.1
    refine .bind (updateSlven_blind (φ := fun w _ => w = true)) fun _ => ?_
    refine .bind (neutral_spec (stable_holds hwanted) (outb_neutral (by simp) _)) fun _ => ?_
    refine .bind (setListening_spec fun w l v log h => h) fun _ => ?_
    exact .bind slaveArm_spec fun _ => release_spec
  · exact .ret fun s _ h => h.mono fun _ _ _ _ => Wanting.sound

/-- Start as a whole leaves a thread outside the mutex there. -/
theorem start_spec : Triple (rules b c t) (Away t) piix4AsfStart fun _ => Away t := by
  have haway := stable_away (b := b) (c := c) (t := t)
  unfold piix4AsfStart startBody
  refine .bind (neutral_spec haway (mark_neutral _)) fun _ => ?_
  refine .bind (asf_spec haway) fun a => .pure_pre fun hsmba => ?_
  refine .bind (asf_spec haway) fun a' => .pure_pre fun _ => ?_
  rw [hsmba]
  split
  · exact .ret fun _ _ h => h
  · refine .bind (neutral_spec haway ⟨trivial, fun _ => trivial⟩) fun _ => ?_
    refine .bind (neutral_spec haway ⟨trivial, fun _ => trivial⟩) fun _ => ?_
    refine .bind (neutral_spec haway ⟨trivial, fun _ => trivial⟩) fun _ => ?_
    exact .bind lock_spec fun _ => .bind startLocked_spec fun _ => unlock_spec

/-- Resume as a whole leaves a thread outside the mutex there. -/
theorem resume_spec : Triple (rules b c t) (Away t) piix4AsfResume fun _ => Away t := by
  have haway := stable_away (b := b) (c := c) (t := t)
  unfold piix4AsfResume
  refine .bind (asf_spec haway) fun a => .pure_pre fun hsmba => ?_
  refine .bind (asf_spec haway) fun a' => .pure_pre fun _ => ?_
  refine .bind (asf_spec haway) fun a'' => .pure_pre fun _ => ?_
  rw [hsmba]
  split
  · exact .ret fun _ _ h => h
  · exact .bind lock_spec fun _ => .bind resumeLocked_spec fun _ => unlock_spec

/-! ## The hard handler -/

/-- Thread `t` has not got the mutex. -/
def Unlocked (t : ℕ) (s : Contest) : Prop := s.st.mutex ≠ some t

/-- Thread `t` has not got the mutex, and what it found in ASFSLVEN was `v`. -/
def Peeked (t : ℕ) (v : Byte) (s : Contest) : Prop := s.st.mutex ≠ some t ∧ v.getLsbD 4 = found t s.log

/-- A handler never comes to hold the mutex. -/
theorem stable_unlocked : (rules b c t).Stable (Unlocked t) := fun _ _ _ h hr _ => hr.unlocked h

/-- What the log says a handler has read is not changed by others. -/
theorem stable_peeked (v : Byte) : (rules b c t).Stable (Peeked t v) :=
  fun _ _ _ h hr _ => ⟨hr.unlocked h.1, h.2.trans hr.found.symm⟩

/-- The handler masks the source. -/
theorem maskSlven_spec : Triple (rules b c t) (Unlocked t)
    (piix4AsfUpdateIoport asfSlvIntr (asfSlvEn b.auxSmba) false) fun _ => Unlocked t := by
  refine .bind (Q := Peeked t)
    (Triple.perform stable_peeked fun s hs h _ => ⟨trivial, fun v s' he => ?_⟩) fun v => ?_
  · obtain ⟨rfl, hacc⟩ := exec_read (decode_asfSlvEn _) he
    rw [decide_eq_false h] at hacc
    obtain ⟨hinv, hguar⟩ := hacc.unlocked hs (.read t _) fun u hu => if_neg (Ne.symm hu)
    have hmutex : s'.st.mutex ≠ some t := by
      rw [hacc.mutex]
      exact h
    refine ⟨hguar, hinv, hmutex, ?_⟩
    rw [hacc.log]
    exact (if_pos rfl).symm
  · refine Triple.perform (fun _ => stable_unlocked) fun s hs h _ => ⟨trivial, fun r s' he => ?_⟩
    have hacc := exec_write (decode_asfSlvEn _) he
    rw [decide_eq_false h.1] at hacc
    have hmasked : (assignBit asfSlvIntr v false)[1] = false := by
      rw [getElem_assignBit, if_pos rfl]
    have hreset : (assignBit asfSlvIntr v false)[4] = found t s.log := by
      rw [getElem_assignBit, if_neg (by decide)]
      exact h.2
    obtain ⟨hinv, hguar⟩ := hacc.unlocked hs (.write t _ hmasked hreset) fun u _ => rfl
    have hmutex : s'.st.mutex ≠ some t := by
      rw [hacc.mutex]
      exact h.1
    exact ⟨hguar, hinv, hmutex⟩

/-- The handler writes what it has read, with the interrupt masked. -/
theorem irqHandler_spec : Triple (rules b c t) (Unlocked t) piix4AsfIrqHandler fun _ => Unlocked t := by
  have hkeep := stable_unlocked (b := b) (c := c) (t := t)
  unfold piix4AsfIrqHandler
  refine .bind (asf_spec hkeep) fun a => .pure_pre fun hsmba => ?_
  dsimp only
  rw [hsmba]
  refine .bind (neutral_spec hkeep (inb_neutral (by simp))) fun sta => ?_
  split
  · refine .bind (neutral_spec hkeep (inb_neutral (by simp))) fun x => ?_
    split
    · exact .ret fun _ _ h => h
    · exact .bind (neutral_spec hkeep (outb_neutral (by simp) _)) fun _ => .ret fun _ _ h => h
  · refine .bind (neutral_spec hkeep (outb_neutral (by simp) _)) fun _ => ?_
    refine .bind (asf_spec hkeep) fun a' => .pure_pre fun _ => ?_
    split
    · exact .bind maskSlven_spec fun _ => .ret fun _ _ h => h
    · refine .bind (neutral_spec hkeep ⟨fun _ => ⟨rfl, rfl, rfl⟩, fun _ => trivial⟩) fun _ => .ret fun _ _ h => h

/-- An execution of the handler from its beginning to its return. -/
theorem hardIrq_spec : Triple (rules b c t) (Unlocked t) (Contender.body .hardIrq) fun _ _ => True :=
  .bind irqHandler_spec fun _ =>
    .post (neutral_spec stable_unlocked ⟨trivial, fun _ => trivial⟩) fun _ _ _ _ => trivial

/-! ## Runs -/

variable {p : Pool Contest Op Op.Ans Contender}

/-- Every party is safe from where it begins. -/
theorem starts (b : Board) : (safety b).Starts := by
  intro c t s s' he hs habsent
  have hwork : ∀ {q : Driver Unit}, Triple (rules b c t) (Away t) q (fun _ => Away t) →
      s' = { s with working := t :: s.working } →
      (safety b).Secured c t (q >>= fun _ => perform .transferDone) s' := by
    rintro q hq rfl
    have hinv : Inv b { s with working := t :: s.working } :=
      ⟨hs.smba, fun u hm => List.mem_cons_of_mem _ (hs.owner u hm), hs.idle⟩
    exact .of_triple stable_away (.bind hq fun _ => transferDone_spec) hinv ⟨habsent, List.mem_cons_self⟩
  cases c with
  | start => exact hwork start_spec (Option.some.inj he).symm
  | resume => exact hwork resume_spec (Option.some.inj he).symm
  | transfer x =>
    obtain ⟨hx, he⟩ := Option.ite_none_right_eq_some.mp he
    refine .of_triple stable_away (.bind (accessAsf_spec hx) fun _ => transferDone_spec) ?_ ?_
    · obtain rfl := Option.some.inj he
      exact ⟨hs.smba, fun u hm => List.mem_cons_of_mem _ (hs.owner u hm), hs.idle⟩
    · obtain rfl := Option.some.inj he
      exact ⟨habsent, List.mem_cons_self⟩
  | hardIrq =>
    obtain ⟨_, he⟩ := Option.ite_none_right_eq_some.mp he
    obtain rfl := Option.some.inj he
    exact .of_triple stable_unlocked hardIrq_spec ⟨hs.smba, hs.owner, hs.idle⟩ habsent

/-- The invariant holds at the beginning. -/
theorem Ready.inv {s : Contest} (h : s.Ready b) : Inv b s where
  smba := h.smba
  owner u hm := by
    rw [h.mutex] at hm
    cases hm
  idle _ hl := by
    obtain ⟨hwant, hinterrupts⟩ := h.guarded hl
    refine ⟨hwant, ?_⟩
    rw [h.log]
    exact .untouched hinterrupts

/-- The invariant holds in every reachable pool. -/
theorem reachable_inv (h : p.Reachable (contest b) (Ready b)) : Inv b p.shared :=
  (Proof.covers_reachable (safety b) (fun s hs => ⟨hs.inv, fun t hm => by
    rw [hs.mutex] at hm
    cases hm⟩) (starts b) h).inv

/-- Wherever the driver itself leaves a claimed block with the mutex free, the contest can begin. -/
theorem ready_of_reachable {k : Setting} {p : Pool St Op Op.Ans Call}
    (h : p.Reachable (machine k b) (Unbound k)) (hfree : p.shared.mutex = none)
    (hactive : p.shared.asf.active = true) : Ready b ⟨p.shared, [], [], []⟩ where
  working := rfl
  handling := rfl
  log := rfl
  mutex := hfree
  smba := ((HostNotify.reachable_inv h).core.claimed hactive).1
  guarded hl := by
    obtain ⟨c, hset, hview⟩ := (HostNotify.reachable_inv h).idle hfree hactive
    have hlisten : c.listening = true := hview.listening.symm.trans hl
    have hwant : c.want = true := hset.want hlisten
    have harmed := (hset.armed hlisten).target (hview.sees (Or.inr hwant)) hlisten
    exact ⟨hview.want.trans hwant, harmed.interrupts, harmed.running⟩

/-- The device sleeps, and the firmware has left the slave interrupt latched. -/
def latchedAsleep : List (Action Call Event) :=
  bringUp ++ .call (.core .suspend) :: advance 3 22 ++ [.event (.firmware { Target.idle with sta := 0x40 })]

/-- What a schedule of the contest leads to from there, if it can be carried out. -/
def outcome (schedule : List (Action Contender Event)) : Option (Pool Contest Op Op.Ans Contender) :=
  (HostNotify.outcome Setting.all latchedAsleep).bind fun p =>
    Pool.run (contest Board.described) schedule ⟨⟨p.shared, [], [], []⟩, []⟩

/-- What a schedule leads to is reachable. -/
theorem outcome_reachable {schedule : List (Action Contender Event)}
    (h : outcome schedule = some p) : p.Reachable (contest Board.described) (Ready Board.described) := by
  obtain ⟨p₀, hp₀, hrun⟩ := Option.bind_eq_some_iff.mp h
  obtain ⟨p₁, hp₁, hstate⟩ := exists_outcome Setting.all latchedAsleep
    (fun p => p.shared.mutex.isNone && p.shared.asf.active) (by decide +kernel)
  obtain rfl := Option.some.inj (hp₀.symm.trans hp₁)
  simp only [Bool.and_eq_true, Option.isNone_iff_eq_none] at hstate
  exact ⟨_, schedule, ready_of_reachable (HostNotify.outcome_reachable hp₀) hstate.1 hstate.2, hrun⟩

/-- The next `n` operations of party `i`. -/
def advance (i n : ℕ) : List (Action Contender Event) := List.replicate n (.step i)

/-- Resuming, with the handler between the slave reset and the flag. -/
def masked : List (Action Contender Event) :=
  .call .resume :: advance 0 11 ++ .call .hardIrq :: advance 1 7 ++ advance 0 25

/-- Resuming, with the handler writing back what it read before the slave was armed. -/
def overtaken : List (Action Contender Event) :=
  .call .resume :: advance 0 11 ++ .call .hardIrq :: advance 1 5 ++ advance 0 25 ++ advance 1 2

end Contest

open Contest in
/-- A slave that listens after the operations have returned is out of reset and interrupts just when no
handler has overtaken the last arming. -/
theorem update_kept {b : Board} {p : Pool Contest Op Op.Ans Contender}
    (h : p.Reachable (contest b) (Ready b)) (hreturned : p.shared.working = [])
    (hlisten : p.shared.st.asf.listening = true) :
    (getElem p.shared.st.hw.slven 1 (fits rfl) = true ∧ getElem p.shared.st.hw.slven 4 (fits rfl) = false) ↔
      ¬ Overtaken p.shared.log := by
  have hinv := Contest.reachable_inv h
  have hfree : p.shared.st.mutex = none := by
    by_contra hheld
    obtain ⟨u, hu⟩ := Option.ne_none_iff_exists'.mp hheld
    have hwork := hinv.owner u hu
    rw [hreturned] at hwork
    exact absurd hwork List.not_mem_nil
  exact (hinv.idle hfree hlisten).2.interrupting_iff

/-- A run in which the handler masks the interrupt before resume has set the flag. -/
theorem update_kept_masked : ∃ p, Contest.outcome Contest.masked = some p ∧ p.shared.handling = [] ∧
    getElem p.shared.st.hw.slven 1 (fits rfl) = true ∧ getElem p.shared.st.hw.slven 4 (fits rfl) = false := by
  have hrun : (Contest.outcome Contest.masked).any (fun p => p.shared.working.isEmpty &&
      p.shared.handling.isEmpty && p.shared.st.asf.listening &&
      decide (¬ Contest.Overtaken p.shared.log)) = true := by decide +kernel
  rw [Option.any_eq_true] at hrun
  obtain ⟨p, hp, hstate⟩ := hrun
  simp only [Bool.and_eq_true, List.isEmpty_iff] at hstate
  obtain ⟨⟨⟨hreturned, hhandled⟩, hlisten⟩, hkept⟩ := hstate
  exact ⟨p, hp, hhandled,
    (update_kept (Contest.outcome_reachable hp) hreturned hlisten).mpr (of_decide_eq_true hkept)⟩

/-- A run in which the handler's write undoes what resume has written. -/
theorem update_lost : ∃ p : Pool Contest Op Op.Ans Contender,
    p.Reachable (contest Board.described) (Contest.Ready Board.described) ∧
      p.shared.working = [] ∧ p.shared.handling = [] ∧ p.shared.st.asf.listening = true ∧
      ¬ (getElem p.shared.st.hw.slven 1 (fits rfl) = true ∧
        getElem p.shared.st.hw.slven 4 (fits rfl) = false) := by
  have hrun : (Contest.outcome Contest.overtaken).any (fun p => p.shared.working.isEmpty &&
      p.shared.handling.isEmpty && p.shared.st.asf.listening &&
      decide (¬ (p.shared.st.hw.slven.getLsbD 1 = true ∧
        p.shared.st.hw.slven.getLsbD 4 = false))) = true := by decide +kernel
  rw [Option.any_eq_true] at hrun
  obtain ⟨p, hp, hstate⟩ := hrun
  simp only [Bool.and_eq_true, List.isEmpty_iff] at hstate
  exact ⟨p, Contest.outcome_reachable hp, hstate.1.1.1, hstate.1.1.2, hstate.1.2,
    of_decide_eq_true hstate.2⟩

end HostNotify
