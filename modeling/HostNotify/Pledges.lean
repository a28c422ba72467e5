import HostNotify.Intent

/-!
# How the intent is kept

Transfers and the IRQ thread act on the intent they find under the mutex; of the callbacks, start
and resume state it, stop takes it back, and suspend lays it aside for resume.
-/

namespace HostNotify

open Bits Interleaving

variable {k : Setting} {b : Board} {s s' : St} {t u : ℕ} {call : Call}

/-- What a proof about the intent and the call running as thread `t` refers to. -/
noncomputable abbrev vows (k : Setting) (b : Board) (call : Call) (t : ℕ) : Discipline St Op Op.Ans :=
  (pledges k b).discipline call t

/-! ## Single operations -/

/-- The operation neither touches the intent and the flags nor passes the mutex on, and it needs no
check. -/
def Op.Minor : Op → Prop
  | .setAsf _ | .coreDone _ | .lock .asf | .unlock .asf | .mark .armBegin | .mark .transferEnd => False
  | _ => True

/-- Tacit operations are minor. -/
theorem Op.Tacit.minor {o : Op} (h : o.Tacit) : o.Minor := by
  cases o <;> first | exact trivial | exact h.elim

/-- A minor operation moves neither the mutex nor the flag. -/
theorem Op.Minor.exec {o : Op} {r : o.Ans} (ho : o.Minor) (he : exec b t o s = some (r, s')) :
    s'.mutex = s.mutex ∧ s'.asf.listening = s.asf.listening := by
  cases o with
  | inb port =>
    obtain rfl : (s.portRead b port).2 = s' := congrArg Prod.snd (Option.some.inj he)
    unfold St.portRead
    split <;> exact ⟨rfl, rfl⟩
  | outb v port =>
    obtain rfl : s.portWrite b t v port = s' := congrArg Prod.snd (Option.some.inj he)
    unfold St.portWrite
    split <;> exact ⟨rfl, rfl⟩
  | setAsf f => exact ho.elim
  | lock l =>
    cases l with
    | asf => exact ho.elim
    | notify =>
      obtain ⟨_, rfl⟩ := exec_lock he
      exact ⟨rfl, rfl⟩
  | unlock l =>
    cases l with
    | asf => exact ho.elim
    | notify =>
      cases he
      exact ⟨rfl, rfl⟩
  | requestMemRegionMuxed =>
    simp only [HostNotify.exec] at he
    split at he
    · cases he
    · split at he <;> cases he <;> exact ⟨rfl, rfl⟩
  | requestMuxedRegion start len =>
    simp only [HostNotify.exec] at he
    split at he
    · cases he
    · split at he <;> cases he <;> exact ⟨rfl, rfl⟩
  | requestRegion start len =>
    simp only [HostNotify.exec] at he
    split at he <;> cases he <;> exact ⟨rfl, rfl⟩
  | freeIrq =>
    simp only [HostNotify.exec] at he
    split at he
    · cases he
    · cases he
      exact ⟨rfl, rfl⟩
  | i2cDelAdapter =>
    simp only [HostNotify.exec] at he
    split at he
    · cases he
      exact ⟨rfl, rfl⟩
    · cases he
  | coreDone c => exact ho.elim
  | _ =>
    cases he
    exact ⟨rfl, rfl⟩

/-- Asking for the region is minor. -/
theorem regionRequest_minor (useMmio : Bool) : (piix4Sb800RegionRequest useMmio).AllOps Op.Minor :=
  regionRequest_allOps trivial trivial trivial (fun _ _ => trivial) useMmio

/-- Giving the region up is minor. -/
theorem regionRelease_minor (useMmio : Bool) : (piix4Sb800RegionRelease useMmio).AllOps Op.Minor :=
  regionRelease_allOps trivial (fun _ _ => trivial) useMmio

/-- Some calls need no check. -/
theorem Vows.of_call {o : Op} (htransfer : ∀ x, call ≠ .transfer x) (hthread : call ≠ .irqThread)
    (hcall : ∀ c, call ≠ .core c) : Vows call o s where
  arm h _ := by
    rcases h with ⟨x, hx⟩ | hx
    · exact absurd hx (htransfer x)
    · exact absurd hx hthread
  finish x hx := absurd hx (htransfer x)
  upheld d h := absurd h (hcall d)

/-- Operations that need no check. -/
theorem Vows.of_op {o : Op} (hcall : ∀ c, call ≠ .core c) (harm : o ≠ .mark .armBegin)
    (hend : o ≠ .mark .transferEnd) : Vows call o s where
  arm _ h := absurd h harm
  finish _ _ h := absurd h hend
  upheld d h := absurd h (hcall d)

/-- Minor operations need no check. -/
theorem Vows.of_minor {o : Op} (hcall : ∀ c, call ≠ .core c) (ho : o.Minor) : Vows call o s := by
  refine .of_op hcall ?_ ?_
  · rintro rfl
    exact ho
  · rintro rfl
    exact ho

/-- A callback that upholds what is wanted passes its check. -/
theorem Vows.of_core {c : CoreCall} {o : Op} (h : s.intent.Upheld c) : Vows (.core c) o s where
  arm hc := by rcases hc with ⟨x, hx⟩ | hx <;> cases hx
  finish x hx := by cases hx
  upheld d hc := Call.core.inj hc ▸ h

/-- What is not served takes no pledge. -/
theorem Intent.Rest.of_unserving {i : Intent} (h : i.serving = false) : i.Rest := by
  refine ⟨fun hs => ?_, fun hs => ?_, fun hs => ?_⟩ <;> exact absurd (hs.symm.trans h) (by decide)

/-- Only the return of a callback changes what is served. -/
theorem exec_serving {o : Op} {r : o.Ans} (he : exec b t o s = some (r, s')) :
    (∃ d, o = .coreDone d) ∨ (s'.life.owner = s.life.owner ∧ s'.life.serving = s.life.serving) := by
  have hkept : o.Unwilled → s'.life.owner = s.life.owner ∧ s'.life.serving = s.life.serving := fun ho =>
    ⟨(ho.exec he).1, congrArg Intent.serving (ho.exec he).2⟩
  cases o with
  | coreDone d => exact Or.inl ⟨d, rfl⟩
  | setAsf f =>
    cases he
    exact Or.inr ⟨rfl, rfl⟩
  | _ => exact Or.inr (hkept trivial)

namespace Pledge

/-- One operation, with what is known of its effect. -/
theorem vow_op {o : Op} {P : St → Prop} {M : o.Ans → St → Prop}
    (hM : ∀ r, (vows k b call t).Stable (M r))
    (hop : ∀ s, (vows k b call t).inv s → P s → Vows call o s ∧
      ∀ r s', exec b t o s = some (r, s') → (known k b).own t s s' →
        (s'.life.owner = none → s'.intent.Rest) ∧ M r s') :
    Triple (vows k b call t) P (perform o) M := by
  refine Triple.perform hM fun s hs hP _ => ?_
  obtain ⟨hok, hstep⟩ := hop s hs hP
  refine ⟨hok, fun r s' he => ?_⟩
  obtain ⟨he, hown⟩ := Machine.confine_exec.mp he
  obtain ⟨hrest, hpost⟩ := hstep r s' he hown
  exact ⟨fun u hu => known_leaves he hown hu, ⟨hown.1, hrest⟩, hpost⟩

/-! ## Calls that own nothing -/

/-- Thread `t` is not the callback in progress. -/
def Guest (t : ℕ) (s : St) : Prop := s.life.owner ≠ some t

/-- Who is no callback does not become one. -/
theorem stable_guest : (vows k b call t).Stable (Guest t) := fun _ _ _ h hr _ => hr.stranger h

/-- Who owns nothing leaves the intent as it is. -/
theorem guest_step {o : Op} {r : o.Ans} (hguest : Guest t s) (hs : (vows k b call t).inv s)
    (he : exec b t o s = some (r, s')) (hown : (known k b).own t s s') :
    Guest t s' ∧ s'.intent = s.intent ∧ (s'.life.owner = none → s'.intent.Rest) := by
  have hguest' := exec_owner he hguest
  obtain ⟨howner, hintent⟩ := hown.2.2 hguest hguest'
  refine ⟨hguest', hintent, fun hnone => ?_⟩
  rw [hintent]
  exact hs.2 (howner ▸ hnone)

/-- What a guest does changes nothing about that. -/
theorem guest_spec {A : Type} {q : Driver A} {T : Op → Prop} (hq : q.AllOps T)
    (hok : ∀ o s, T o → Vows call o s) :
    Triple (vows k b call t) (Guest t) q fun _ => Guest t := by
  refine Triple.of_allOps stable_guest hq fun o s ho hs hguest _ => ⟨hok o s ho, fun r s' he => ?_⟩
  obtain ⟨he, hown⟩ := Machine.confine_exec.mp he
  obtain ⟨hguest', _, hrest⟩ := guest_step hguest hs he hown
  exact ⟨fun u hu => known_leaves he hown hu, ⟨hown.1, hrest⟩, hguest'⟩

/-- Thread `t` has the mutex of a block that is claimed or being claimed, and the intent is `w`. If
`heard`, the block listens where it is wanted. -/
structure Inside (t : ℕ) (w heard : Bool) (s : St) : Prop where
  guest : Guest t s
  holder : s.mutex = some t
  engaged : s.engaged = true
  want : s.asf.wantListen = w
  heard : heard = true → w = true → s.asf.listening = true

/-- What others leave to the holder of the mutex. -/
theorem holder_keeps (hs : Inv k b s) (hr : Rely k b t s s') (hm : s.mutex = some t)
    (heng : s.engaged = true) : s'.mutex = some t ∧ s'.engaged = true ∧
      s'.asf.wantListen = s.asf.wantListen ∧ s'.asf.listening = s.asf.listening := by
  rcases hr with ⟨e, he⟩ | hforeign
  · have hframe := react_frame he hs.smba
    refine ⟨hframe.mutex.trans hm, ?_, ?_, ?_⟩
    · unfold St.engaged
      rw [hframe.asf, hframe.life]
      exact heng
    · rw [hframe.asf]
    · rw [hframe.asf]
  · have hblock := hforeign.block hm heng
    exact ⟨hforeign.holder hm, hblock.engaged.trans heng, hblock.want, hblock.listening⟩

variable {w heard : Bool}

/-- What is known under the mutex stays so. -/
theorem stable_inside : (vows k b call t).Stable (Inside t w heard) := by
  intro s s' hs h hr _
  obtain ⟨hm, heng, hwant, hlisten⟩ := holder_keeps hs.1 hr.rely h.holder h.engaged
  exact ⟨hr.stranger h.guest, hm, heng, hwant.trans h.want, fun hh hw => hlisten.trans (h.heard hh hw)⟩

/-- An operation that leaves the mutex and the flag alone keeps what is known under the mutex. -/
theorem Inside.step {o : Op} {r : o.Ans} (h : Inside t w heard s) (hs : (vows k b call t).inv s)
    (he : exec b t o s = some (r, s')) (hown : (known k b).own t s s') (hm : s'.mutex = s.mutex)
    (hlisten : heard = true → w = true → s'.asf.listening = true) :
    Inside t w heard s' ∧ (s'.life.owner = none → s'.intent.Rest) := by
  obtain ⟨hguest', hintent, hrest⟩ := guest_step h.guest hs he hown
  have hengaged : s'.engaged = s.engaged := by
    have hpair := congrArg (fun i : Intent => i.active || i.enabling) hintent
    exact hpair
  have hwant : s'.asf.wantListen = s.asf.wantListen := congrArg Intent.want hintent
  exact ⟨⟨hguest', hm.trans h.holder, hengaged.trans h.engaged, hwant.trans h.want, hlisten⟩, hrest⟩

/-- A program of operations that leave the mutex and the flag alone keeps what is known under the mutex.
-/
theorem inside_allOps {A : Type} {q : Driver A} {T : Op → Prop} (hq : q.AllOps T)
    (hok : ∀ o s, T o → Inside t w heard s → Vows call o s)
    (hkeep : ∀ o (r : o.Ans) s s', T o → exec b t o s = some (r, s') →
      s'.mutex = s.mutex ∧ s'.asf.listening = s.asf.listening) :
    Triple (vows k b call t) (Inside t w heard) q fun _ => Inside t w heard := by
  refine Triple.of_allOps stable_inside hq fun o s ho hs h _ => ⟨hok o s ho h, fun r s' he => ?_⟩
  obtain ⟨he, hown⟩ := Machine.confine_exec.mp he
  obtain ⟨hm, hlisten⟩ := hkeep o r s s' ho he
  obtain ⟨hinside, hrest⟩ := h.step hs he hown hm fun hh hw => hlisten.trans (h.heard hh hw)
  exact ⟨fun u hu => known_leaves he hown hu, ⟨hown.1, hrest⟩, hinside⟩

/-- Minor operations are of that kind. -/
theorem inside_spec {A : Type} {q : Driver A} (hcall : ∀ c, call ≠ .core c) (hq : q.AllOps Op.Minor) :
    Triple (vows k b call t) (Inside t w heard) q fun _ => Inside t w heard :=
  inside_allOps hq (fun _ _ ho _ => .of_minor hcall ho) fun _ _ _ _ ho he => ho.exec he

/-- Tacit programs keep what is known under the mutex. -/
theorem tacit_spec {A : Type} {q : Driver A} (hcall : ∀ c, call ≠ .core c) (hq : q.AllOps Op.Tacit) :
    Triple (vows k b call t) (Inside t w heard) q fun _ => Inside t w heard :=
  inside_spec hcall (hq.mono fun _ ho => ho.minor)

/-! ## The critical section -/

/-- Thread `t` has just taken the mutex. -/
def Locked (t : ℕ) (s : St) : Prop := Guest t s ∧ s.mutex = some t

/-- The mutex stays with its holder. -/
theorem stable_locked : (vows k b call t).Stable (Locked t) := by
  intro s s' hs h hr _
  refine ⟨hr.stranger h.1, ?_⟩
  rcases hr.rely with ⟨e, he⟩ | hforeign
  · exact (react_frame he hs.1.smba).mutex.trans h.2
  · exact hforeign.holder h.2

/-- A guest takes the mutex. -/
theorem lock_spec (hcall : ∀ c, call ≠ .core c) :
    Triple (vows k b call t) (Guest t) (lock .asf) fun _ => Locked t := by
  refine vow_op (fun _ => stable_locked) fun s hs hguest => ⟨.of_op hcall nofun nofun, fun r s' he hown => ?_⟩
  obtain ⟨hguest', _, hrest⟩ := guest_step hguest hs he hown
  obtain ⟨_, rfl⟩ := exec_lock he
  exact ⟨hrest, hguest', rfl⟩

/-- A guest gives the mutex up. -/
theorem unlock_spec (hcall : ∀ c, call ≠ .core c) {P : St → Prop} (hP : ∀ s, P s → Guest t s) :
    Triple (vows k b call t) P (unlock .asf) fun _ => Guest t := by
  refine .pre (guest_spec (T := fun o => o = .unlock .asf) ⟨rfl, fun _ => trivial⟩ ?_) fun s _ h => hP s h
  rintro o s rfl
  exact .of_op hcall nofun nofun

/-- A look at the driver's global tells whether the block is claimed, and what is intended. -/
theorem look_spec (hcall : ∀ c, call ≠ .core c) : Triple (vows k b call t) (Locked t) piix4Asf fun a s =>
    Locked t s ∧ (a.active = true → Inside t a.wantListen false s) := by
  have hstable : ∀ a : Piix4Asf, (vows k b call t).Stable fun s =>
      a.active = true → Inside t a.wantListen false s :=
    fun a s s' hs h hr hs' hactive => stable_inside s s' hs (h hactive) hr hs'
  refine vow_op (fun a => stable_locked.and (hstable a)) fun s hs h =>
    ⟨.of_op hcall nofun nofun, fun a s' he hown => ?_⟩
  obtain ⟨_, _, hrest⟩ := guest_step h.1 hs he hown
  cases he
  refine ⟨hrest, h, fun hactive => ⟨h.1, h.2, ?_, rfl, nofun⟩⟩
  unfold St.engaged
  rw [hactive]
  rfl

/-- The intent that is read is the intent. -/
theorem readWant_spec (hcall : ∀ c, call ≠ .core c) : Triple (vows k b call t) (Inside t w heard) piix4Asf
    fun a s => a.wantListen = w ∧ Inside t w heard s := by
  refine vow_op (fun a => (Discipline.Stable.const _).and stable_inside) fun s hs h =>
    ⟨.of_op hcall nofun nofun, fun a s' he hown => ?_⟩
  obtain ⟨rfl, rfl⟩ := Prod.mk.inj (Option.some.inj he)
  obtain ⟨_, hrest⟩ := h.step hs he hown rfl h.heard
  exact ⟨hrest, h.want, h⟩

/-- A guest may set the flag under the mutex. -/
theorem setListening_spec (hcall : ∀ c, call ≠ .core c) (v : Bool) :
    Triple (vows k b call t) (Inside t w heard) (setAsf fun a => { a with listening := v }) fun _ =>
      Inside t w v := by
  refine vow_op (fun _ => stable_inside) fun s hs h => ⟨.of_op hcall nofun nofun, fun r s' he hown => ?_⟩
  have hbare : Inside t w false s := ⟨h.guest, h.holder, h.engaged, h.want, nofun⟩
  obtain ⟨hinside, hrest⟩ := hbare.step hs he hown (by cases he; rfl) nofun
  refine ⟨hrest, hinside.guest, hinside.holder, hinside.engaged, hinside.want, fun hv _ => ?_⟩
  cases he
  exact hv

/-- Only a wanted slave is armed. -/
theorem slaveArm_spec (hcall : ∀ c, call ≠ .core c) (smba : ℕ) :
    Triple (vows k b call t) (Inside t true heard) (piix4AsfSlaveArm smba) fun _ =>
      Inside t true heard := by
  refine inside_allOps (slaveArm_allOps (T := fun o => o.Tacit ∨ o = .mark .armBegin) (Or.inr rfl)
    (fun _ => Or.inl) smba) (fun o s ho h => ?_) fun o r s s' ho he => ?_
  · rcases ho with ho | rfl
    · exact .of_minor hcall ho.minor
    · exact ⟨fun _ _ => h.want, nofun, fun d h => absurd h (hcall d)⟩
  · rcases ho with ho | rfl
    · exact ho.minor.exec he
    · cases he
      exact ⟨rfl, rfl⟩

/-- A drain moves no flag. -/
theorem drain_spec (hcall : ∀ c, call ≠ .core c) (smba : ℕ) (n : Notifies) :
    Triple (vows k b call t) (Inside t w heard) (piix4AsfDrain smba n) fun _ => Inside t w heard := by
  refine inside_spec hcall (drain_allOps (fun _ ho => ho.minor) (fun m harm hend => ?_) smba n)
  cases m <;> first | exact trivial | exact (harm rfl).elim | exact (hend rfl).elim

/-- A delivery happens outside the mutex. -/
theorem deliver_spec (hcall : ∀ c, call ≠ .core c) (n : Notifies) :
    Triple (vows k b call t) (Guest t) (piix4AsfDeliver n) fun _ => Guest t :=
  guest_spec (deliver_allOps (T := Op.Minor) trivial trivial trivial trivial (fun _ => trivial) trivial n)
    fun _ _ ho => .of_minor hcall ho

/-! ## Transfers -/

section Transfers

variable {x y : SmbusXfer}

/-- A yield arms the slave, which is wanted. -/
theorem yieldBus_spec (smba : ℕ) (n : Notifies) :
    Triple (vows k b (.transfer y) t) (Inside t true false) (yieldBus smba n) fun _ =>
      Inside t true false := by
  have hcall : ∀ c, Call.transfer y ≠ .core c := nofun
  unfold yieldBus
  refine .bind (setListening_spec hcall true) fun _ => ?_
  refine .bind (slaveArm_spec hcall smba) fun _ => ?_
  refine .bind (tacit_spec hcall ⟨trivial, fun _ => trivial⟩) fun _ => ?_
  refine .bind (tacit_spec hcall (holdOff_tacit smba)) fun _ => ?_
  exact .pre (drain_spec hcall smba n) fun s _ h => ⟨h.guest, h.holder, h.engaged, h.want, nofun⟩

/-- Between attempts what is wanted stays as it was found. -/
theorem attempts_spec (left : ℕ) (n : Notifies) :
    Triple (vows k b (.transfer y) t) (Inside t w false) (attempts x left n) fun _ =>
      Inside t w false := by
  have hcall : ∀ c, Call.transfer y ≠ .core c := nofun
  induction left generalizing x n with
  | zero =>
    unfold attempts
    refine .bind (tacit_spec hcall (masterMode_tacit _)) fun _ => ?_
    refine .bind (tacit_spec hcall (access_tacit x)) fun r => ?_
    refine .bind (readWant_spec hcall) fun a => .pure_pre fun _ => ?_
    split <;> exact .ret fun _ _ h => h
  | succ left ih =>
    unfold attempts
    refine .bind (tacit_spec hcall (masterMode_tacit _)) fun _ => ?_
    refine .bind (tacit_spec hcall (access_tacit x)) fun r => ?_
    refine .bind (readWant_spec hcall) fun a => .pure_pre fun hwant => ?_
    split
    · exact .ret fun _ _ h => h
    · next hretry =>
      obtain rfl : w = true := by
        rw [← hwant]
        by_contra hdeaf
        exact hretry (Or.inr (by simpa using hdeaf))
      refine .bind (yieldBus_spec x.smba n) fun r => ?_
      dsimp only
      split
      · exact inside_spec hcall ⟨trivial, fun _ => trivial⟩
      · exact ih _

/-- At the end a wanted slave listens. -/
theorem accessAsfLocked_spec :
    Triple (vows k b (.transfer y) t) (Inside t w false) (accessAsfLocked x) fun _ =>
      Inside t w true := by
  have hcall : ∀ c, Call.transfer y ≠ .core c := nofun
  have hdrain : Triple (vows k b (.transfer y) t) (Inside t w false) (drainListening x.smba) fun _ =>
      Inside t w false := by
    unfold drainListening
    refine .bind (readWant_spec hcall) fun a => .pure_pre fun _ => ?_
    split
    · refine .bind (tacit_spec hcall (holdOff_tacit _)) fun _ => ?_
      exact .bind (drain_spec hcall _ _) fun _ => .ret fun _ _ h => h
    · exact .ret fun _ _ h => h
  unfold accessAsfLocked
  refine .bind hdrain fun n => ?_
  refine .bind (attempts_spec _ _) fun r => ?_
  refine .bind (readWant_spec hcall) fun a => .pure_pre fun hwant => ?_
  split
  · next hlisten =>
    obtain rfl : w = true := hwant.symm.trans hlisten
    refine .bind (setListening_spec hcall true) fun _ => ?_
    exact .bind (slaveArm_spec hcall _) fun _ => .ret fun _ _ h => h
  · next hdeaf =>
    exact .ret fun s _ h => ⟨h.guest, h.holder, h.engaged, h.want, fun _ hw => absurd (hwant.trans hw) hdeaf⟩

/-- A transfer keeps its pledges. -/
theorem piix4AccessAsf_spec :
    Triple (vows k b (.transfer x) t) (Guest t) (piix4AccessAsf x) fun _ => Guest t := by
  have hcall : ∀ c, Call.transfer x ≠ .core c := nofun
  have hfinish : ∀ w, Triple (vows k b (.transfer x) t) (Inside t w true) (mark .transferEnd) fun _ =>
      Inside t w true := by
    intro w
    refine inside_allOps (T := fun o => o = .mark .transferEnd) ⟨rfl, fun _ => trivial⟩ ?_ ?_
    · rintro o s rfl h
      exact ⟨nofun, fun _ _ _ hw => h.heard rfl (h.want.symm.trans hw), nofun⟩
    · rintro o r s s' rfl he
      cases he
      exact ⟨rfl, rfl⟩
  unfold piix4AccessAsf
  refine .bind (lock_spec hcall) fun _ => ?_
  refine .bind (look_spec hcall) fun a => ?_
  split
  · refine .bind (unlock_spec hcall fun s h => h.1.1) fun _ => ?_
    exact guest_spec (access_tacit x) fun _ _ ho => .of_minor hcall ho.minor
  · next hactive =>
    refine .pre (P := Inside t a.wantListen false) ?_ fun s _ h => h.2 (by simpa using hactive)
    refine .bind (readWant_spec hcall) fun a' => .pure_pre fun _ => ?_
    refine .bind (inside_spec hcall (regionRequest_minor _)) fun retval => ?_
    split
    · exact .bind (unlock_spec hcall fun s h => h.guest) fun _ => .ret fun _ _ h => h
    · refine .bind accessAsfLocked_spec fun r => ?_
      refine .bind (readWant_spec hcall) fun a'' => .pure_pre fun _ => ?_
      refine .bind (inside_spec hcall (regionRelease_minor _)) fun _ => ?_
      refine .bind (hfinish _) fun _ => ?_
      refine .bind (unlock_spec hcall fun s h => h.guest) fun _ => ?_
      exact .bind (deliver_spec hcall _) fun _ => .ret fun _ _ h => h

end Transfers

/-! ## The IRQ thread -/

/-- Thread `t` is the call of the IRQ thread in progress. -/
def Interrupt (t : ℕ) (s : St) : Prop := Guest t s ∧ s.irq.running = some t

/-- The IRQ thread stays the one that is running. -/
theorem stable_interrupt : (vows k b call t).Stable (Interrupt t) := by
  intro s s' hs h hr _
  refine ⟨hr.stranger h.1, ?_⟩
  rcases hr.rely with ⟨e, he⟩ | hforeign
  · rw [(react_frame he hs.1.smba).irq]
    exact h.2
  · exact (hforeign.thread h.2).1

/-- With the mutex: a slave that listens is wanted. -/
structure Found (t : ℕ) (s : St) : Prop where
  guest : Guest t s
  holder : s.mutex = some t
  engaged : s.engaged = true
  wanted : s.asf.listening = true → s.asf.wantListen = true

/-- What it has found under the mutex stays so. -/
theorem stable_found : (vows k b call t).Stable (Found t) := by
  intro s s' hs h hr _
  obtain ⟨hm, heng, hwant, hlisten⟩ := holder_keeps hs.1 hr.rely h.holder h.engaged
  refine ⟨hr.stranger h.guest, hm, heng, fun hl => ?_⟩
  rw [hwant]
  exact h.wanted (hlisten.symm.trans hl)

/-- The IRQ thread takes the mutex. -/
theorem lockThread_spec :
    Triple (vows k b .irqThread t) (Interrupt t) (lock .asf) fun _ => Found t := by
  refine vow_op (fun _ => stable_found) fun s hs h => ⟨.of_op nofun nofun nofun, fun r s' he hown => ?_⟩
  obtain ⟨hguest', _, hrest⟩ := guest_step h.1 hs he hown
  obtain ⟨hfree, rfl⟩ := exec_lock he
  have hmasked : s.irq.masked = true := by
    unfold IrqLine.masked
    rw [h.2]
    simp
  have hactive : s.asf.active = true := hs.1.requested (hs.1.masked hmasked)
  obtain ⟨c, hset, hview⟩ := hs.1.idle hfree hactive
  refine ⟨hrest, hguest', rfl, hview.engaged, fun hl => ?_⟩
  exact hview.want.trans (hset.want (hview.listening.symm.trans hl))

/-- The IRQ thread resets a wedged slave only while it is wanted. -/
theorem resetWedged_spec (smba : ℕ) (n : Notifies) :
    Triple (vows k b .irqThread t) (Inside t true false) (resetWedged smba n) fun _ =>
      Inside t true false := by
  have hcall : ∀ c, Call.irqThread ≠ .core c := nofun
  unfold resetWedged
  refine .bind (readWant_spec hcall) fun a => .pure_pre fun _ => ?_
  refine .bind (inside_spec hcall (regionRequest_minor _)) fun retval => ?_
  split
  · refine .bind (inside_spec hcall ⟨trivial, fun _ => trivial⟩) fun _ => ?_
    refine .bind (tacit_spec hcall (updateIoport_tacit _ _ _)) fun _ => ?_
    refine .bind (drain_spec hcall _ _) fun r => ?_
    refine .bind (tacit_spec hcall (updateIoport_tacit _ _ _)) fun _ => ?_
    refine .bind (tacit_spec hcall (outb_tacit _ _)) fun _ => ?_
    refine .bind (slaveArm_spec hcall _) fun _ => ?_
    refine .bind (readWant_spec hcall) fun a' => .pure_pre fun _ => ?_
    exact .bind (inside_spec hcall (regionRelease_minor _)) fun _ => .ret fun _ _ h => h
  · refine .bind (tacit_spec hcall (updateIoport_tacit _ _ _)) fun _ => ?_
    refine .bind (setListening_spec hcall false) fun _ => ?_
    exact .ret fun _ _ h => h

/-- The IRQ thread keeps its pledges. -/
theorem piix4AsfIrqThread_spec :
    Triple (vows k b .irqThread t) (Interrupt t) piix4AsfIrqThread fun _ => Guest t := by
  have hcall : ∀ c, Call.irqThread ≠ .core c := nofun
  have hread : Triple (vows k b .irqThread t) (Interrupt t) piix4Asf fun _ => Interrupt t := by
    refine vow_op (fun _ => stable_interrupt) fun s hs h => ⟨.of_op hcall nofun nofun, fun a s' he hown => ?_⟩
    obtain ⟨_, _, hrest⟩ := guest_step h.1 hs he hown
    cases he
    exact ⟨hrest, h⟩
  have hheard : Triple (vows k b .irqThread t) (Found t) piix4Asf fun a s =>
      Found t s ∧ (a.listening = true → Inside t true false s) := by
    have hstable : ∀ a : Piix4Asf, (vows k b .irqThread t).Stable fun s =>
        a.listening = true → Inside t true false s :=
      fun a s s' hs h hr hs' hl => stable_inside s s' hs (h hl) hr hs'
    refine vow_op (fun a => stable_found.and (hstable a)) fun s hs h =>
      ⟨.of_op hcall nofun nofun, fun a s' he hown => ?_⟩
    obtain ⟨_, _, hrest⟩ := guest_step h.guest hs he hown
    cases he
    exact ⟨hrest, h, fun hl => ⟨h.guest, h.holder, h.engaged, h.wanted hl, nofun⟩⟩
  have hserved : ∀ {P : St → Prop}, (∀ s, P s → Guest t s) →
      Triple (vows k b .irqThread t) P (mark .served) fun _ => Guest t := fun hP =>
    .pre (guest_spec (T := Op.Minor) ⟨trivial, fun _ => trivial⟩ fun _ _ ho => .of_minor hcall ho)
      fun s _ h => hP s h
  unfold piix4AsfIrqThread
  refine .bind hread fun a => .bind lockThread_spec fun _ => .bind hheard fun a' => ?_
  split
  · exact .bind (hserved fun s h => h.1.guest) fun _ => unlock_spec hcall fun _ h => h
  · next hlisten =>
    refine .pre (P := Inside t true false) ?_ fun s _ h => h.2 (by simpa using hlisten)
    refine .bind (Q := fun _ => Inside t true false) ?_ fun n => ?_
    · unfold drainThread
      refine .bind (drain_spec hcall _ _) fun r => ?_
      dsimp only
      split
      · exact resetWedged_spec _ _
      · exact .ret fun _ _ h => h
    · refine .bind (hserved fun s h => h.guest) fun _ => ?_
      refine .bind (unlock_spec hcall fun _ h => h) fun _ => ?_
      exact deliver_spec hcall n

/-! ## Callbacks -/

/-- Thread `t` is the callback in progress, and the intent satisfies `G`. -/
def Mine (t : ℕ) (G : Intent → Prop) (s : St) : Prop := s.life.owner = some t ∧ G s.intent

variable {G F : Intent → Prop} {c : CoreCall}

/-- A callback's intent is nobody else's to change. -/
theorem stable_mine : (vows k b call t).Stable (Mine t G) := by
  intro s s' _ h hr _
  obtain ⟨howner, hintent⟩ := hr.owner h.1
  refine ⟨howner, ?_⟩
  rw [hintent]
  exact h.2

/-- A callback's own operations leave its intent alone, but for the assignments of flags. -/
theorem mine_spec {A : Type} {q : Driver A} (hq : q.AllOps Op.Unwilled)
    (hG : ∀ i, G i → i.Upheld c) :
    Triple (vows k b (.core c) t) (Mine t G) q fun _ => Mine t G := by
  refine Triple.of_allOps stable_mine hq fun o s ho hs h _ =>
    ⟨.of_core (hG _ h.2), fun r s' he => ?_⟩
  obtain ⟨he, hown⟩ := Machine.confine_exec.mp he
  obtain ⟨howner, hintent⟩ := ho.exec he
  have howner' := howner.trans h.1
  refine ⟨fun u hu => known_leaves he hown hu, ⟨hown.1, fun hnone => ?_⟩, howner', ?_⟩
  · cases hnone.symm.trans howner'
  · rw [hintent]
    exact h.2

/-- Reading the global says what the intent is. -/
theorem mineRead_spec (hG : ∀ i, G i → i.Upheld c) :
    Triple (vows k b (.core c) t) (Mine t G) piix4Asf fun a =>
      Mine t fun i => G i ∧ i.active = a.active ∧ i.want = a.wantListen ∧ i.resume = a.resumeListen := by
  refine vow_op (fun _ => stable_mine) fun s hs h => ⟨.of_core (hG _ h.2), fun a s' he _ => ?_⟩
  cases he
  exact ⟨hs.2, h.1, h.2, rfl, rfl, rfl⟩

/-- An assignment changes the intent as it says. -/
theorem mineSet_spec {f : Piix4Asf → Piix4Asf} (hG : ∀ i, G i → i.Upheld c)
    (hf : ∀ s : St, G s.intent → F ({ s with asf := f s.asf } : St).intent) :
    Triple (vows k b (.core c) t) (Mine t G) (setAsf f) fun _ => Mine t F := by
  refine vow_op (fun _ => stable_mine) fun s hs h => ⟨.of_core (hG _ h.2), fun r s' he _ => ?_⟩
  cases he
  refine ⟨fun hnone => ?_, h.1, hf s h.2⟩
  cases hnone.symm.trans h.1

/-- A callback that returns leaves an intent that may rest. -/
theorem coreDone_spec (hG : ∀ i, G i → i.Upheld c)
    (hrest : ∀ s : St, G s.intent → ({ s with life := s.life.after c } : St).intent.Rest) :
    Triple (vows k b (.core c) t) (Mine t G) (perform (.coreDone c)) fun _ _ => True := by
  refine vow_op (fun _ => Discipline.Stable.const _) fun s hs h =>
    ⟨.of_core (hG _ h.2), fun r s' he _ => ?_⟩
  cases he
  exact ⟨fun _ => hrest s h.2, trivial⟩

end Pledge

end HostNotify
