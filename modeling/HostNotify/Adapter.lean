import HostNotify.Callbacks

/-!
# Registering and removing the adapter

`piix4_add_adapter` and `piix4_adap_remove` do not touch the target block. They change who
may call the driver and whether there is somebody to deliver to.
-/

namespace HostNotify

open Bits Interleaving

variable {k : Setting} {b : Board} {s s' : St} {t u : ℕ} {call : Call} {F G : CoreView → Prop}

/-- The state with another registration of the adapter. -/
def St.enlist (s : St) (registered asfAlgo : Bool) : St :=
  { s with life := { s.life with registered := registered, asfAlgo := asfAlgo } }

/-- The registration is no part of what other threads rely on. -/
theorem foreign_enlist (registered asfAlgo : Bool) (howner : s.life.owner = some t) (hu : u ≠ t) :
    Foreign k u s (s.enlist registered asfAlgo) where
  holder := id
  block _ _ := ⟨rfl, fun h => ⟨h, rfl, rfl⟩, rfl, rfl, rfl, rfl, rfl, rfl, rfl, rfl, rfl, rfl⟩
  region hr := ⟨hr, rfl, rfl⟩
  owed := rfl
  owner ho := absurd (Option.some.inj (ho.symm.trans howner)) hu
  thread hr := ⟨hr, rfl⟩
  quiet _ hp := hp
  aux := id
  plain _ hp := hp
  unlocked := id
  delivering _ hd := hd

/-- Putting the adapter on the bus keeps the invariant. -/
theorem Inv.enlist {registered asfAlgo : Bool} (h : Inv k b s)
    (hnew : s.life.enabling = true → registered = false)
    (hplain : registered = true → asfAlgo = false → s.asf.active = false) :
    Inv k b (s.enlist registered asfAlgo) where
  idle hfree hactive := by
    obtain ⟨c, hset, hview⟩ := h.idle hfree hactive
    exact ⟨c, hset, hview.of_sameBlock
      ⟨rfl, fun h => ⟨h, rfl, rfl⟩, rfl, rfl, rfl, rfl, rfl, rfl, rfl, rfl, rfl, rfl⟩ rfl
      fun _ => rfl⟩
  core := h.core
  masked := h.masked
  deaf := h.deaf
  alone := h.alone
  unregistered := hnew
  plain := hplain
  owned := h.owned
  locked := h.locked
  world := h.world
  sound hk := ⟨(h.sound hk).errorless, (h.sound hk).unstuck⟩
  intact ht := (h.intact ht).congr (fun _ => rfl) rfl rfl rfl (h.intact ht).reset

/-- An operation that may change the registration. -/
theorem enlist_spec {o : Op} (hcheck : ∀ s, Check k b call o s) (hen : ∀ v, F v → v.enabling = false)
    (hop : ∀ (s : St) r s', Inv k b s → F s.coreView → exec b t o s = some (r, s') →
      s' = s ∨ ∃ registered asfAlgo, s' = s.enlist registered asfAlgo ∧
        (registered = true → asfAlgo = false → s.asf.active = false)) :
    Triple (rules k b call t) (Calling t F) (perform o) fun _ => Calling t F := by
  refine Triple.perform (fun _ => stable_calling) fun s hs hP _ => ⟨hcheck s, fun r s' he => ?_⟩
  rcases hop s r s' hs hP.1.2 he with rfl | ⟨registered, asfAlgo, rfl, hplain⟩
  · exact ⟨fun u hu => Or.inr ((OwnStep.refl s').foreign hu), hs, hP⟩
  · have hno : s.life.enabling = false := hen _ hP.1.2
    exact ⟨fun u hu => Or.inr (foreign_enlist registered asfAlgo hP.1.1 hu),
      hs.enlist (fun hyes => absurd (hyes.symm.trans hno) (by decide)) hplain, hP⟩

/-- `piix4_asf_algo` only chooses the plain algorithm for a block that is not claimed. -/
theorem piix4AsfAlgo_spec :
    Triple (rules k b call t) (Calling t F) (piix4AsfAlgo b.auxSmba) fun asfAlgo =>
      Calling t fun v => F v ∧ (asfAlgo = false → v.asf.active = false) := by
  unfold piix4AsfAlgo
  refine Triple.bind readCalling_spec fun a => ?_
  cases hactive : a.active with
  | false => exact Triple.ret fun s _ h => h.mono fun hF => ⟨hF.1, fun _ => hF.2.active.trans hactive⟩
  | true =>
    refine Triple.bind readCalling_spec fun a' => Triple.ret fun s hs h => h.mono fun hF => ?_
    have hon : s.coreView.asf.active = true := hF.1.2.active.trans hactive
    have hsmba : b.auxSmba = a'.smba := (hs.core.claimed hon).1.symm.trans hF.2.smba
    exact ⟨hF.1.1, fun hno => absurd hsmba (by simpa using hno)⟩

/-- Giving the window of the auxiliary port back. -/
theorem releaseWindow_spec (start len : ℕ) :
    Triple (rules k b call t) (Calling t F) (perform (.releaseRegion start len))
      fun _ => Calling t F :=
  callingOp_spec (fun _ => .of_other (by simp) (by simp)) fun s r s' he =>
    ⟨_, _, _, (Prod.mk.inj (Option.some.inj he)).2.symm⟩

/-- How `piix4_add_adapter` fails. -/
theorem addFailed_spec (smba : ℕ) :
    Triple (rules k b call t) (Calling t F) (addFailed smba) fun _ => Calling t F :=
  Triple.bind (noteCalling_spec trivial nofun) fun _ => releaseWindow_spec _ _

/-- `piix4_add_adapter` leaves a callback that does not probe where it was, with or without the adapter.
-/
theorem piix4AddAdapter_spec :
    Triple (rules k b call t) (Calling t fun v => v.enabling = false) (piix4AddAdapter b.auxSmba)
      fun _ => Calling t fun v => v.enabling = false := by
  have halloc : ∀ {F : CoreView → Prop},
      Triple (rules k b call t) (Calling t F) (perform .kzalloc) fun _ => Calling t F :=
    callingOp_spec (fun _ => .of_other (by simp) (by simp)) fun s r s' he =>
      ⟨_, _, _, (Prod.mk.inj (Option.some.inj he)).2.symm⟩
  unfold piix4AddAdapter
  refine Triple.bind halloc fun got => ?_
  cases got with
  | false => exact addFailed_spec _
  | true =>
    refine Triple.bind piix4AsfAlgo_spec fun asfAlgo => ?_
    refine Triple.post (Q := fun _ => Calling t fun v => v.enabling = false ∧
      (asfAlgo = false → v.asf.active = false)) ?_ fun _ s _ h => h.mono fun hF => hF.1
    refine Triple.bind halloc fun got => ?_
    cases got with
    | false => exact addFailed_spec _
    | true =>
      refine Triple.bind (enlist_spec (fun _ => .of_other (by simp) (by simp)) (fun v h => h.1)
        fun s r s' hs hF he => ?_) fun retval => ?_
      · obtain ⟨_, rfl⟩ := Prod.mk.inj (Option.some.inj he)
        split
        · exact Or.inr ⟨_, _, rfl, fun _ => hF.2⟩
        · exact Or.inl rfl
      by_cases hretval : retval = 0
      · rw [if_neg (not_not.mpr hretval)]
        exact setAuxAdapter_spec (fun _ => rfl) fun v hv hF =>
          ⟨⟨hv.claimed, hv.requested, hv.freed, hv.inactive, hv.enabling, hv.unbound, hv.asleep,
            hv.fresh, fun ht hw => ⟨(hv.delivering ht hw).1, rfl⟩⟩, hF⟩
      · rw [if_pos hretval]
        exact addFailed_spec _

/-- `piix4_adap_remove` leaves a callback that does not probe where it was. -/
theorem piix4AdapRemove_spec (hwild : ¬ k.Tidy) (smba : ℕ) :
    Triple (rules k b call t) (Calling t fun v => v.enabling = false) (piix4AdapRemove smba)
      fun _ => Calling t fun v => v.enabling = false := by
  unfold piix4AdapRemove
  refine Triple.bind (enlist_spec (fun _ => .of_other (by simp) (by simp)) (fun v h => h)
    fun s r s' _ _ he => ?_) fun _ => ?_
  · simp only [exec] at he
    split at he
    · exact Or.inr ⟨false, s.life.asfAlgo, (Prod.mk.inj (Option.some.inj he)).2.symm, (by intros; contradiction)⟩
    · cases he
  refine Triple.bind (releaseWindow_spec _ _) fun _ => ?_
  exact setAuxAdapter_spec (fun ht => absurd ht hwild) fun v hv hF =>
    ⟨⟨hv.claimed, hv.requested, hv.freed, hv.inactive, hv.enabling, hv.unbound, hv.asleep,
      hv.fresh, fun ht => absurd ht hwild⟩, hF⟩

end HostNotify
