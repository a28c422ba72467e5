import HostNotify.Adapter
import HostNotify.Claiming
import HostNotify.IrqThread
import HostNotify.MainPort
import HostNotify.Transfer

/-!
# Every call is safe

From its entry each call satisfies its specification, so every pool of calls that some
schedule reaches is covered by the safety argument.
-/

namespace HostNotify

open Bits Interleaving

variable {k : Setting} {b : Board} {s s' : St} {t : ℕ} {x : SmbusXfer}

/-! ## Returning from a callback -/

/-- After a probe the view is lawful. -/
theorem CoreView.Lawful.after_enable {v : CoreView} (h : v.Lawful k b) (hp : Probed v) :
    (v.after .enable).Lawful k b := by
  unfold CoreView.after
  exact ⟨h.claimed, h.requested, fun hr => Or.inl (hp hr), h.inactive, by simp, by simp,
    by simpa using h.asleep, by simpa using h.fresh, by simpa using h.delivering⟩

/-- After start the view is lawful. -/
theorem CoreView.Lawful.after_start {v : CoreView} (h : v.Lawful k b) :
    (v.after .start).Lawful k b := by
  unfold CoreView.after
  exact ⟨h.claimed, h.requested, by simpa using h.freed, h.inactive, by simpa using h.enabling,
    by simpa using h.unbound, by simpa using h.asleep, by simpa using h.fresh,
    by simpa using h.delivering⟩

/-- After the adapter has come or gone the view is lawful. -/
theorem CoreView.Lawful.after_adapter {v : CoreView} (h : v.Lawful k b) {c : CoreCall}
    (hc : c = .addAdapter ∨ c = .adapRemove) : (v.after c).Lawful k b := by
  have hsame : v.after c = v := by
    unfold CoreView.after
    rcases hc with rfl | rfl <;> simp
  rw [hsame]
  exact h

/-- After stop the view is lawful. -/
theorem CoreView.Lawful.after_stop {v : CoreView} (h : v.Lawful k b) (hwild : ¬ k.Tidy) :
    (v.after .stop).Lawful k b := by
  unfold CoreView.after
  exact ⟨h.claimed, h.requested, by simpa using h.freed, h.inactive, by simpa using h.enabling,
    by simpa using h.unbound, by simpa using h.asleep, by simpa using h.fresh,
    fun ht => absurd ht hwild⟩

/-- After disable the view is lawful. -/
theorem CoreView.Lawful.after_disable {v : CoreView} (h : v.Lawful k b) (hz : Zeroed v) :
    (v.after .disable).Lawful k b := by
  unfold CoreView.after
  exact ⟨h.claimed, h.requested, by simpa using h.freed, h.inactive, by simpa using h.enabling,
    fun _ _ => hz.active, by simpa using h.asleep, fun _ _ => ⟨hz.want, hz.resume⟩,
    by simpa using h.delivering⟩

/-- After suspend the view is lawful. -/
theorem CoreView.Lawful.after_suspend {v : CoreView} (h : v.Lawful k b) (hu : Unwanted v) :
    (v.after .suspend).Lawful k b := by
  unfold CoreView.after
  exact ⟨h.claimed, h.requested, by simpa using h.freed, h.inactive, by simpa using h.enabling,
    by simpa using h.unbound, fun _ => hu.2, by simpa using h.fresh, by simpa using h.delivering⟩

/-- After resume the view is lawful. -/
theorem CoreView.Lawful.after_resume {v : CoreView} (h : v.Lawful k b) :
    (v.after .resume).Lawful k b := by
  unfold CoreView.after
  exact ⟨h.claimed, h.requested, by simpa using h.freed, h.inactive, by simpa using h.enabling,
    by simpa using h.unbound, by simpa using h.asleep, by simpa using h.fresh,
    by simpa using h.delivering⟩

/-! ## The bodies -/

/-- A transfer delivers what it has taken off the banks. -/
theorem transfer_spec (hx : x.smba = b.auxSmba) :
    Triple (rules k b (.transfer x) t) (fun s => Transferring t s ∧ Owes k t [] s)
      (Call.body b (.transfer x)) fun _ s => k.Tidy → s.ghost.owed t = [] :=
  Triple.bind (piix4AccessAsf_spec hx) fun _ => transferDone_spec

/-- One on a port without the target takes nothing. -/
theorem plainTransfer_spec (hx : x.smba = b.auxSmba) :
    Triple (rules k b (.plainTransfer x) t) (Outside t (Plain k t))
      (Call.body b (.plainTransfer x)) fun _ _ => True := by
  refine Triple.bind (accessPlain_spec hx) fun _ => ?_
  exact Triple.post (Triple.pre transferDone_spec fun s _ h => ⟨h.1.owes.nil, h.2⟩) fun _ _ _ _ => trivial

/-- The IRQ thread delivers what it has taken. -/
theorem irqThread_spec :
    Triple (rules k b .irqThread t) (fun s => Serving t false s ∧ Owes k t [] s)
      (Call.body b .irqThread) fun _ s => k.Tidy → s.ghost.owed t = [] :=
  Triple.bind piix4AsfIrqThread_spec fun _ => irqThreadDone_spec

/-- Probe's claim follows the rules to its end. -/
theorem enable_spec :
    Triple (rules k b (.core .enable) t) (Calling t Probing) (Call.body b (.core .enable))
      fun _ _ => True := by
  refine Triple.bind (claimAux_spec rfl) fun _ => ?_
  exact coreDone_spec fun v hv hF => ⟨hv.after_enable hF, fun _ => rfl⟩

/-- Start follows the rules to its end. -/
theorem start_spec :
    Triple (rules k b (.core .start) t) (Calling t (Starting k)) (Call.body b (.core .start))
      fun _ _ => True := by
  refine Triple.bind piix4AsfStart_spec fun _ => ?_
  exact coreDone_spec fun v hv hF =>
    ⟨hv.after_start, fun he => absurd (he.symm.trans hF) (by decide)⟩

/-- The registration of the adapter. -/
theorem addAdapter_spec :
    Triple (rules k b (.core .addAdapter) t) (Calling t fun v => v.enabling = false)
      (Call.body b (.core .addAdapter)) fun _ _ => True := by
  refine Triple.bind piix4AddAdapter_spec fun _ => ?_
  exact coreDone_spec fun v hv hF =>
    ⟨hv.after_adapter (Or.inl rfl), fun he => absurd (he.symm.trans hF) (by decide)⟩

/-- The removal of the adapter follows the rules to its end. -/
theorem adapRemove_spec (hwild : ¬ k.Tidy) :
    Triple (rules k b (.core .adapRemove) t) (Calling t fun v => v.enabling = false)
      (Call.body b (.core .adapRemove)) fun _ _ => True := by
  refine Triple.bind (piix4AdapRemove_spec hwild _) fun _ => ?_
  exact coreDone_spec fun v hv hF =>
    ⟨hv.after_adapter (Or.inr rfl), fun he => absurd (he.symm.trans hF) (by decide)⟩

/-- Stop follows the rules to its end. -/
theorem stop_spec (hwild : ¬ k.Tidy) :
    Triple (rules k b (.core .stop) t) (Calling t fun v => v.enabling = false)
      (Call.body b (.core .stop)) fun _ _ => True := by
  refine Triple.bind (piix4AsfStop_spec hwild rfl) fun _ => ?_
  exact coreDone_spec fun v hv hF =>
    ⟨hv.after_stop hwild, fun he => absurd (he.symm.trans hF) (by decide)⟩

/-- Disable follows the rules to its end. -/
theorem disable_spec (hwild : ¬ k.Tidy) :
    Triple (rules k b (.core .disable) t) (Calling t fun v => v.enabling = false)
      (Call.body b (.core .disable)) fun _ _ => True := by
  refine Triple.bind (piix4AsfDisable_spec hwild rfl) fun _ => ?_
  exact coreDone_spec fun v hv hF =>
    ⟨hv.after_disable hF, fun he => absurd (he.symm.trans hF.enabling) (by decide)⟩

/-- Suspend follows the rules to its end. -/
theorem suspend_spec (hwild : ¬ k.Tidy) :
    Triple (rules k b (.core .suspend) t) (Calling t fun v => v.enabling = false)
      (Call.body b (.core .suspend)) fun _ _ => True := by
  refine Triple.bind (piix4AsfSuspend_spec hwild rfl) fun _ => ?_
  exact coreDone_spec fun v hv hF =>
    ⟨hv.after_suspend hF, fun he => absurd (he.symm.trans hF.1) (by decide)⟩

/-- Resume follows the rules to its end. -/
theorem resume_spec (hwild : ¬ k.Tidy) :
    Triple (rules k b (.core .resume) t) (Calling t (Resuming k))
      (Call.body b (.core .resume)) fun _ _ => True := by
  refine Triple.bind (piix4AsfResume_spec hwild) fun _ => ?_
  exact coreDone_spec fun v hv hF =>
    ⟨hv.after_resume, fun he => absurd (he.symm.trans hF) (by decide)⟩

/-! ## Entering -/

/-- A callback that begins finds none in progress. -/
theorem Inv.notClaiming {c : CoreCall} (h : Inv k b s) (hmay : s.mayBegin k c = true) :
    s.life.enabling = false := by
  cases hen : s.life.enabling with
  | false => rfl
  | true => exact absurd (mayBegin_owner hmay) (h.owned hen)

/-- What a callback knows as it begins. -/
theorem calling_begin {c : CoreCall} {F : CoreView → Prop} (h : Inv k b s)
    (hmay : s.mayBegin k c = true)
    (hF : F (s.begin t c).coreView) : Calling t F (s.begin t c) := by
  refine ⟨⟨by cases c <;> rfl, hF⟩, fun hm => ?_⟩
  have haux : (s.begin t c).life.aux = s.life.aux := by cases c <;> rfl
  rw [haux]
  rcases h.locked t hm with ha | hr | ho
  · exact Or.inl ha
  · exact Or.inr hr
  · rw [mayBegin_owner hmay] at ho
    cases ho

/-- A board that is taken down is not a tidy one. -/
theorem not_tidy (ht : k.teardown = true) : ¬ k.Tidy :=
  fun h => absurd (ht.symm.trans h.2.2.2.1) (by decide)

/-- Every call is secured from its entry on. -/
theorem secured (c : Call) (t : ℕ) (s s' : St) (he : (machine k b).enter c t s = some s')
    (hs : Inv k b s) (habsent : s.mutex ≠ some t) :
    (safety k b).Secured c t (Call.body b c) s' := by
  have hinv : Inv k b s' := hs.enter he
  have howed : Owes k t [] (s.fresh t) := fun _ => by simp [St.fresh]
  cases c with
  | transfer x =>
    simp only [machine, HostNotify.enter, Option.ite_none_right_eq_some, Option.some.injEq] at he
    obtain ⟨⟨hx, _⟩, rfl⟩ := he
    refine Proof.Secured.of_triple (stable_private (transferring_private [])) ?_ hinv
      ⟨List.mem_cons_self, howed⟩
    exact Triple.post (transfer_spec hx) fun _ s _ h _ => h
  | mainTransfer a x =>
    simp only [machine, HostNotify.enter, Option.ite_none_right_eq_some, Option.some.injEq] at he
    obtain ⟨⟨_, ⟨hsmba, hx⟩, _, hport⟩, rfl⟩ := he
    refine Proof.Secured.of_triple (Discipline.Stable.const True) ?_ hinv trivial
    refine Triple.bind (piix4AccessSb800_spec hsmba hx hport) fun _ => Triple.ret fun s _ _ => ?_
    rintro (⟨_, h⟩ | h) <;> cases h
  | plainTransfer x =>
    simp only [machine, HostNotify.enter, Option.ite_none_right_eq_some, Option.some.injEq] at he
    obtain ⟨⟨hx, hreg, halgo⟩, rfl⟩ := he
    refine Proof.Secured.of_triple (stable_outside plain_private) ?_ hinv
      ⟨⟨List.mem_cons_self, hs.plain hreg halgo, howed⟩, habsent⟩
    exact Triple.post (plainTransfer_spec hx) fun _ s _ _ => by
      rintro (⟨_, h⟩ | h) <;> cases h
  | irqThread =>
    simp only [machine, HostNotify.enter, Option.ite_none_right_eq_some, Option.some.injEq] at he
    obtain ⟨_, rfl⟩ := he
    refine Proof.Secured.of_triple (stable_private (serving_debtless.private.and (owes_private [])))
      ?_ hinv ⟨⟨rfl, rfl⟩, howed⟩
    exact Triple.post irqThread_spec fun _ s _ h _ => h
  | core c =>
    simp only [machine, HostNotify.enter, Option.ite_none_right_eq_some, Option.some.injEq] at he
    obtain ⟨hmay, rfl⟩ := he
    have hdone : ∀ {c : CoreCall} {s : St}, (safety k b).done (.core c) t s := by
      intro c s h
      rcases h with ⟨_, h⟩ | h <;> cases h
    have hen : s.life.enabling = false := hs.notClaiming hmay
    have hsecured : ∀ {F : CoreView → Prop}, F (s.begin t c).coreView →
        Triple (rules k b (.core c) t) (Calling t F) (Call.body b (.core c)) (fun _ _ => True) →
        (safety k b).Secured (.core c) t (Call.body b (.core c)) (s.begin t c) := by
      intro F hF hbody
      exact Proof.Secured.of_triple stable_calling (Triple.post hbody fun _ s _ _ => hdone) hinv
        (calling_begin hs hmay hF)
    have hguard := hmay
    simp only [St.mayBegin, Bool.and_eq_true] at hguard
    cases c with
    | enable => exact hsecured ⟨rfl, hs.unclaimed hmay⟩ enable_spec
    | start =>
      simp only [Bool.and_eq_true, Bool.not_eq_true', Bool.or_eq_true] at hguard
      refine hsecured ⟨hen, hguard.2.1.1.2, rfl, fun hk => ?_, hguard.2.1.2⟩ start_spec
      have hstarted : s.life.started = false := hguard.2.2.resolve_left fun h =>
        absurd (h.symm.trans hk) (by decide)
      exact (hs.core.fresh hk hstarted).1
    | addAdapter => exact hsecured (F := fun v => v.enabling = false) hen addAdapter_spec
    | stop =>
      simp only [Bool.and_eq_true] at hguard
      exact hsecured (F := fun v => v.enabling = false) hen (stop_spec (not_tidy hguard.2.1.1))
    | adapRemove =>
      simp only [Bool.and_eq_true] at hguard
      exact hsecured (F := fun v => v.enabling = false) hen
        (adapRemove_spec (not_tidy hguard.2.1.1.1.1))
    | disable =>
      simp only [Bool.and_eq_true] at hguard
      exact hsecured (F := fun v => v.enabling = false) hen (disable_spec (not_tidy hguard.2.1))
    | suspend =>
      simp only [Bool.and_eq_true] at hguard
      exact hsecured (F := fun v => v.enabling = false) hen (suspend_spec (not_tidy hguard.2.1.1))
    | resume =>
      simp only [Bool.and_eq_true] at hguard
      exact hsecured ⟨hen, rfl, hs.asleep hguard.2.1.2⟩ (resume_spec (not_tidy hguard.2.1.1))

/-! ## Every reachable pool -/

/-- A loaded driver that has not been probed satisfies the invariant. -/
theorem Unbound.inv (h : Unbound k s) : Inv k b s where
  idle _ hactive := by
    rw [h.asf] at hactive
    cases hactive
  core := by
    unfold St.coreView
    rw [h.asf, h.irq, h.life, h.deliverOk]
    exact ⟨nofun, nofun, nofun, fun _ => rfl, fun _ => rfl, fun _ _ => rfl, fun _ => rfl,
      fun _ _ => ⟨rfl, rfl⟩, fun _ hw => Bool.noConfusion hw⟩
  masked hm := by
    rw [h.irq] at hm
    cases hm
  deaf _ := by
    rw [h.asf]
    rfl
  alone hen := by
    rw [h.life] at hen
    cases hen
  unregistered hen := by
    rw [h.life] at hen
    cases hen
  plain hreg := by
    rw [h.life] at hreg
    cases hreg
  owned hen := by
    rw [h.life] at hen
    cases hen
  locked u hu := by
    rw [h.mutex] at hu
    cases hu
  world := h.world
  sound hk := ⟨h.errorless hk.1, h.unstuck hk.2.1⟩
  intact _ := ⟨h.lost, fun i hu => absurd (hu.symm.trans (h.unread i)) (by decide),
    fun _ => h.unread, fun _ => h.unread⟩

/-- Every pool a schedule reaches is covered by the safety argument. -/
theorem covered {p : Pool St Op Op.Ans Call} (h : p.Reachable (machine k b) (Unbound k)) :
    (safety k b).Covers p :=
  Proof.covers_reachable (safety k b) (fun s hs => ⟨hs.inv, fun t hm => by
    rw [hs.mutex] at hm
    cases hm⟩) (secured (k := k) (b := b)) h

/-- The invariant holds in every reachable pool. -/
theorem reachable_inv {p : Pool St Op Op.Ans Call} (h : p.Reachable (machine k b) (Unbound k)) :
    Inv k b p.shared := (covered h).inv

end HostNotify
