import HostNotify.Psmouse.Unregistering

/-!
# Every step keeps the accounts

The lemmas about the single operations come together: an operation the account permits keeps the
invariant and the accounts of all threads, unless the driver is taken unawares.
-/

namespace HostNotify.Psmouse

open Interleaving

variable {s s' : Board} {t u : ℕ} {p d c : Addr} {l l' : Account}

/-- An operation has one outcome. -/
theorem done_inj {α : Type} {a r : α} {s₁ : Board} (h : some (a, s₁) = some (r, s')) : a = r ∧ s₁ = s' :=
  Prod.mk.inj (Option.some.inj h)

/-! ## Nothing makes up for a lapse -/

namespace Board

/-- Assigning to a mouse is no lapse. -/
@[simp] theorem lapse_onMouse {f : Mouse → Mouse} : (s.onMouse p f).lapse = s.lapse := by
  unfold onMouse
  split <;> rfl

/-- Assigning to a record is no lapse. -/
@[simp] theorem lapse_onDev {f : SmbusDev → SmbusDev} : (s.onDev d f).lapse = s.lapse := by
  unfold onDev
  split <;> rfl

/-- Assigning to a client is no lapse. -/
@[simp] theorem lapse_onClient {f : Client → Client} : (s.onClient c f).lapse = s.lapse := by
  unfold onClient
  split <;> rfl

/-- Touching a mouse is no lapse. -/
@[simp] theorem lapse_touchMouse : (s.touchMouse p).lapse = s.lapse := by
  unfold touchMouse
  split <;> rfl

/-- Touching a client is no lapse. -/
@[simp] theorem lapse_touchClient {o : Option Addr} : (s.touchClient o).lapse = s.lapse := by
  unfold touchClient
  split <;> rfl

/-- Freeing platform data is no lapse. -/
@[simp] theorem lapse_freeData {o : Option Addr} : (s.freeData o).lapse = s.lapse := by
  unfold freeData
  split
  · rfl
  · split <;> rfl

/-- Taking a mutex is no lapse. -/
@[simp] theorem lapse_setHolder {o : Option ℕ} {k : Lock} : (s.setHolder o k).lapse = s.lapse := by
  cases k <;> rfl

end Board

/-- A lapse is for good. -/
theorem exec_lapse {o : Op} {r : o.Ans} (h : exec t o s = some (r, s')) (hs : s.lapse = true) : s'.lapse = true := by
  cases o
  all_goals simp only [exec] at h
  all_goals repeat' split at h
  all_goals first
    | (obtain ⟨-, rfl⟩ := done_inj h
       simp [hs, Board.setMouse, Board.setUsage, Board.setDev, Board.setClient, Board.setData, Board.blame])
    | cases h

/-! ## The steps -/

section Exec

variable (hs : s.Sound) (ht : Tie t l s)
include hs ht

/-- A mutex is taken. -/
theorem exec_lock_kept {k : Lock} {r : Unit} (hallow : l.allows (.lock k)) (hexec : exec t (.lock k) s = some (r, s')) :
    Kept t l (.lock k) r s s' := by
  simp only [exec] at hexec
  split at hexec
  · next hfree =>
    obtain ⟨rfl, rfl⟩ := done_inj hexec
    cases k with
    | psmouse => exact lock_psmouse_kept hs ht hallow hfree
    | smbus => exact lock_smbus_kept hs ht hfree
  · cases hexec

/-- A mouse is allocated, if there is memory. -/
theorem exec_newMouse_kept {r : Option Addr} (hallow : l.allows .newMouse) (hexec : exec t .newMouse s = some (r, s')) :
    Kept t l .newMouse r s s' := by
  simp only [exec] at hexec
  split at hexec
  · next p hp =>
    obtain ⟨rfl, rfl⟩ := done_inj hexec
    exact newMouse_kept hs ht hallow (Board.allot_some hp)
  · obtain ⟨rfl, rfl⟩ := done_inj hexec
    exact learn_kept hs ht rfl

/-- `private` is assigned, with a record or without. -/
theorem exec_setPrivate_kept {v : Private} {r : Unit} (hallow : l.allows (.setPrivate p v))
    (hexec : exec t (.setPrivate p v) s = some (r, s')) : Kept t l (.setPrivate p v) r s s' := by
  obtain ⟨rfl, rfl⟩ := done_inj hexec
  obtain ⟨b, hb, rfl, hcase⟩ := hallow
  rcases hcase with hcase | hcase | ⟨d, hk, rfl, hvisit⟩
  · exact setPrivate_kept hs ht hb (.inl hcase)
  · exact setPrivate_kept hs ht hb (.inr hcase)
  · exact setPrivate_null_kept hs ht hb hk hvisit

/-- The input device is registered; a failure in the course of a change of protocol is a lapse. -/
theorem exec_inputRegisterDevice_kept {change r : Bool}
    (hexec : exec t (.inputRegisterDevice change) s = some (r, s')) (hlapse : s'.lapse = false) :
    Kept t l (.inputRegisterDevice change) r s s' := by
  obtain ⟨rfl, rfl⟩ := done_inj hexec
  refine around_kept s.world s.adapters s.present s.hostNotify _ hs ht ⟨fun hc => ?_, rfl⟩
  obtain ⟨_, hanswer⟩ := Bool.or_eq_false_iff.mp hlapse
  rw [hc, Bool.true_and, Bool.not_eq_false'] at hanswer
  exact hanswer

/-- A record is allocated, if there is memory. -/
theorem exec_newDev_kept {needDeactivate : Bool} {r : Option Addr} (hallow : l.allows (.newDev p needDeactivate))
    (hexec : exec t (.newDev p needDeactivate) s = some (r, s')) : Kept t l (.newDev p needDeactivate) r s s' := by
  simp only [exec] at hexec
  split at hexec
  · next d hd =>
    obtain ⟨rfl, rfl⟩ := done_inj hexec
    exact newDev_kept hs ht hallow (Board.allot_some hd)
  · obtain ⟨rfl, rfl⟩ := done_inj hexec
    exact learn_kept hs ht rfl

/-- The platform data is copied, if there is memory. -/
theorem exec_kmemdup_kept {r : Bool} (hallow : l.allows (.kmemdup d)) (hexec : exec t (.kmemdup d) s = some (r, s')) :
    Kept t l (.kmemdup d) r s s' := by
  simp only [exec] at hexec
  split at hexec
  · next m hm =>
    obtain ⟨rfl, rfl⟩ := done_inj hexec
    exact kmemdup_kept hs ht hallow (Board.allot_some hm)
  · obtain ⟨rfl, rfl⟩ := done_inj hexec
    exact learn_kept hs ht rfl

/-- A record is marked as dead, by its mouse or by the notifier. -/
theorem exec_setDead_kept {r : Unit} (hallow : l.allows (.setDead d)) (hexec : exec t (.setDead d) s = some (r, s')) :
    Kept t l (.setDead d) r s s' := by
  obtain ⟨rfl, rfl⟩ := done_inj hexec
  simp only [Account.allows] at hallow
  split at hallow
  · next d' r hvisit =>
    obtain ⟨rfl, hdead, b, hb, hk⟩ := hallow
    exact setDead_posting_kept hs ht hvisit hdead hb hk
  · next gone todo seen look hvisit =>
    obtain ⟨rfl, c, r, rest, hgone, rfl, hc, hdead⟩ := hallow
    exact setDead_walking_kept hs ht hvisit hgone hc hdead
  · exact hallow.elim

/-- A walk through the list begins. -/
theorem exec_entries_kept {gone : Option Addr} {r : List Addr} (hallow : l.allows (.entries gone))
    (hexec : exec t (.entries gone) s = some (r, s')) : Kept t l (.entries gone) r s s' := by
  cases gone with
  | none =>
    obtain ⟨rfl, rfl⟩ := done_inj hexec
    exact entries_kept hs ht hallow
  | some c =>
    obtain ⟨rfl, rfl⟩ := done_inj hexec
    exact entries_gone_kept hs ht hallow

/-- The I2C core makes a client, or finds no device; a client where a record still points to is a lapse. -/
theorem exec_newScannedDevice_kept {a : ℕ} {r : Option Addr} (hallow : l.allows (.newScannedDevice a d))
    (hexec : exec t (.newScannedDevice a d) s = some (r, s')) (hlapse : s'.lapse = false) :
    Kept t l (.newScannedDevice a d) r s s' := by
  obtain ⟨_, b, hb, hk⟩ := id hallow
  have hstage := (ht.bench b hb).stage
  rw [hk] at hstage
  obtain ⟨_, _, r, hr, _⟩ := hstage
  simp only [exec, hr.2] at hexec
  split at hexec
  · obtain ⟨rfl, rfl⟩ := done_inj hexec
    exact learn_kept hs ht rfl
  · next c hc =>
    obtain ⟨rfl, rfl⟩ := done_inj hexec
    have hfree : s.client c = none := by
      split at hc
      · exact Board.allot_some hc
      · cases hc
    refine newScannedDevice_kept hs ht hallow hr.2 hfree (Bool.or_eq_false_iff.mp hlapse).2 (fun m hm => ?_) fun m hm => ?_
    · simp [hm]
    · cases hpd : r.platformData with
      | none => rfl
      | some m' =>
        have hne : m ≠ m' := fun he => hm (by rw [hpd, he])
        simp [hne]

/-- A removal is queued, if there is memory; that of a client being unregistered is a lapse. -/
theorem exec_queueWork_kept {o : Option Addr} {r : Unit} (hallow : l.allows (.queueWork o))
    (hexec : exec t (.queueWork o) s = some (r, s')) (hlapse : s'.lapse = false) : Kept t l (.queueWork o) r s s' := by
  obtain ⟨d, c, hvisit, rfl, b, hb, hk⟩ := hallow
  obtain ⟨_, _, _, x, hx, _⟩ := ht.visit _ hvisit
  simp only [exec, hx, Board.onClient_of_some hx] at hexec
  split at hexec
  · obtain ⟨rfl, rfl⟩ := done_inj hexec
    refine queueWork_kept hs ht hvisit hb hk hx ?_
    simpa [Client.registered] using (Bool.or_eq_false_iff.mp hlapse).2
  · obtain ⟨rfl, rfl⟩ := done_inj hexec
    exact learn_kept hs (ht.unqueued hvisit) ⟨d, c, hvisit, rfl⟩

/-- The companion's driver is removed. -/
theorem exec_releaseDriver_kept {r : Unit} (hallow : l.allows (.releaseDriver c))
    (hexec : exec t (.releaseDriver c) s = some (r, s')) : Kept t l (.releaseDriver c) r s s' := by
  obtain ⟨x, hx, _⟩ : Role.Holds t s (.destroying c) := hallow.1 ▸ ht.role
  simp only [exec, Board.touchClient_of_some hx] at hexec
  obtain ⟨rfl, rfl⟩ := done_inj hexec
  exact learn_kept hs ht rfl

/-- Every operation that is allowed keeps the invariant and the accounts. -/
theorem exec_kept {o : Op} {r : o.Ans} (hallow : l.allows o) (hexec : exec t o s = some (r, s'))
    (hlapse : s'.lapse = false) : Kept t l o r s s' := by
  cases o with
  | lock k => exact exec_lock_kept hs ht hallow hexec
  | unlock k =>
    obtain ⟨rfl, rfl⟩ := done_inj hexec
    cases k with
    | psmouse => exact unlock_psmouse_kept hs ht hallow
    | smbus => exact unlock_smbus_kept hs ht hallow
  | outcome =>
    obtain ⟨rfl, rfl⟩ := done_inj hexec
    exact learn_kept hs ht rfl
  | rounds =>
    obtain ⟨rfl, rfl⟩ := done_inj hexec
    exact learn_kept hs ht rfl
  | stuck => cases hexec
  | wild => exact hallow.elim
  | newMouse => exact exec_newMouse_kept hs ht hallow hexec
  | freeMouse p =>
    obtain ⟨m, hm⟩ := ht.handled (.inl hallow.1)
    simp only [exec, hm, Option.isSome_some, if_true] at hexec
    obtain ⟨rfl, rfl⟩ := done_inj hexec
    exact freeMouse_kept hs ht hallow
  | handlers p =>
    obtain ⟨m, hm⟩ := ht.handled hallow.2.1
    simp only [exec, hm, Board.touchMouse_of_some hm] at hexec
    obtain ⟨rfl, rfl⟩ := done_inj hexec
    exact handlers_kept hs ht hallow hm
  | setHandlers p h =>
    obtain ⟨rfl, rfl⟩ := done_inj hexec
    exact setHandlers_kept hs ht hallow
  | priv p =>
    obtain ⟨b, hb, rfl⟩ := hallow
    obtain ⟨m, hm, _⟩ := (ht.bench b hb).fields
    simp only [exec, hm, Board.touchMouse_of_some hm] at hexec
    obtain ⟨rfl, rfl⟩ := done_inj hexec
    exact priv_kept hs ht hb hm
  | setPrivate p v => exact exec_setPrivate_kept hs ht hallow hexec
  | command p =>
    obtain ⟨m, hm⟩ := ht.handled hallow
    simp only [exec, Board.touchMouse_of_some hm] at hexec
    obtain ⟨rfl, rfl⟩ := done_inj hexec
    exact learn_kept hs ht rfl
  | inputRegisterDevice change => exact exec_inputRegisterDevice_kept hs ht hexec hlapse
  | activate p => exact activate_kept hs ht hallow hexec
  | bind p =>
    obtain ⟨rfl, rfl⟩ := done_inj hexec
    exact bind_kept hs ht hallow
  | leave p => exact leave_kept hs ht hallow hexec
  | workDone p => exact workDone_kept hs ht hallow hexec
  | disableWorkSync p => exact disableWorkSync_kept hs ht hallow hexec
  | serioUnregisterChildPort p =>
    obtain ⟨rfl, rfl⟩ := done_inj hexec
    exact learn_kept hs ht rfl
  | newDev p needDeactivate => exact exec_newDev_kept hs ht hallow hexec
  | freeDev d =>
    obtain ⟨⟨r, hr⟩, hkept⟩ := freeDev_kept hs ht hallow
    simp only [exec, hr, Option.isSome_some, if_true] at hexec
    obtain ⟨rfl, rfl⟩ := done_inj hexec
    exact hkept
  | readDev d =>
    obtain ⟨r, hr, hkept⟩ := readDev_kept hs ht hallow
    simp only [exec, hr] at hexec
    obtain ⟨rfl, rfl⟩ := done_inj hexec
    exact hkept
  | kmemdup d => exact exec_kmemdup_kept hs ht hallow hexec
  | freeBoardData d =>
    obtain ⟨r, hr, hkept⟩ := freeBoardData_kept hs ht hallow
    simp only [exec, hr] at hexec
    obtain ⟨rfl, rfl⟩ := done_inj hexec
    exact hkept
  | setDead d => exact exec_setDead_kept hs ht hallow hexec
  | setClient d c =>
    obtain ⟨rfl, rfl⟩ := done_inj hexec
    exact setClient_kept hs ht hallow
  | entries gone => exact exec_entries_kept hs ht hallow hexec
  | listAdd d =>
    obtain ⟨rfl, rfl⟩ := done_inj hexec
    exact listAdd_kept hs ht hallow
  | listDel d =>
    obtain ⟨rfl, rfl⟩ := done_inj hexec
    exact (listDel_kept hs ht hallow).2
  | rescan d =>
    obtain ⟨r, m, hr, hm⟩ := rescan_there hs ht hallow
    simp only [exec, hr, Board.touchMouse_of_some hm] at hexec
    obtain ⟨rfl, rfl⟩ := done_inj hexec
    exact learn_kept hs ht rfl
  | hostNotify a =>
    obtain ⟨rfl, rfl⟩ := done_inj hexec
    exact learn_kept hs ht rfl
  | busAdd hostNotify =>
    obtain ⟨rfl, rfl⟩ := done_inj hexec
    exact around_kept s.world _ _ _ s.lapse hs ht rfl
  | nextAdapter k =>
    obtain ⟨rfl, rfl⟩ := done_inj hexec
    exact learn_kept hs ht rfl
  | newScannedDevice a d => exact exec_newScannedDevice_kept hs ht hallow hexec hlapse
  | linkAdd o p =>
    obtain ⟨c, m, rfl, hm, hkept⟩ := linkAdd_kept hs ht hallow
    simp only [exec, Board.touchMouse_of_some hm] at hexec
    obtain ⟨rfl, rfl⟩ := done_inj hexec
    exact hkept
  | linkRemove o p =>
    obtain ⟨⟨m, hm⟩, c, x, rfl, hx⟩ := linkRemove_there ht hallow
    simp only [exec, Board.touchMouse_of_some hm, Board.touchClient_of_some hx] at hexec
    obtain ⟨rfl, rfl⟩ := done_inj hexec
    exact learn_kept hs ht rfl
  | freeClientData c =>
    obtain ⟨x, hx, hkept⟩ := freeClientData_kept hs ht hallow
    simp only [exec, hx] at hexec
    obtain ⟨rfl, rfl⟩ := done_inj hexec
    exact hkept
  | queueWork o => exact exec_queueWork_kept hs ht hallow hexec hlapse
  | deviceDel c =>
    obtain ⟨x, hx, hreg, hkept⟩ := deviceDel_kept hs ht hallow
    simp only [exec, hx, Client.registered, hreg, Option.isNone_none, if_true] at hexec
    obtain ⟨rfl, rfl⟩ := done_inj hexec
    exact hkept
  | releaseDriver c => exact exec_releaseDriver_kept hs ht hallow hexec
  | putDevice c =>
    obtain ⟨⟨x, hx⟩, hkept⟩ := putDevice_kept hs ht hallow
    simp only [exec, hx, Option.isSome_some, if_true] at hexec
    obtain ⟨rfl, rfl⟩ := done_inj hexec
    exact hkept

end Exec

/-! ## Calls -/

/-- What a call is there for when it comes in. -/
def Call.role : Call → Role
  | .connect => .idle
  | .disconnect p => .watching p
  | .reconnect p => .serving p
  | .setProtocol p _ _ => .serving p
  | .resync p => .resyncing p
  | .addAdapter _ => .idle
  | .destroyClient c => .destroying c
  | .removeI2cDevice c => .removing c

/-- A callback comes in. -/
theorem admitUser_kept (hs : s.Sound) (ht : Tie t (.fresh .idle) s) (henter : s.admitUser p t = some s') :
    s'.Sound ∧ Tie t (.fresh (.serving p)) s' ∧ ∀ u, u ≠ t → Spares u s s' := by
  unfold Board.admitUser at henter
  split at henter
  · next m users r hm husage =>
    obtain rfl := Option.some.inj henter
    obtain ⟨hsound, htie, hspares⟩ := setUsage_kept (x := .bound (t :: users) r) hs ht
      (fun u k _ hk => by
        rw [husage] at hk
        obtain ⟨rfl, hmem⟩ | ⟨rfl, rfl⟩ := hk.bound
        · exact ⟨_, _, rfl, List.mem_cons_of_mem _ hmem⟩
        · rfl)
      (fun u _ h => by rw [husage]; exact h) (fun q hq => by cases hq)
    refine ⟨hsound, htie (.serving p) ⟨⟨m, hm⟩, _, _, Board.usage_setUsage, List.mem_cons_self⟩ fun h => ?_, hspares⟩
    cases ht.resync p ⟨⟨m, hm⟩, by rw [husage]; exact h⟩
  · cases henter

/-- The thread that disconnects a mouse comes in. -/
theorem enter_disconnect_kept (hs : s.Sound) (ht : Tie t (.fresh .idle) s) (henter : enter (.disconnect p) t s = some s') :
    s'.Sound ∧ Tie t (.fresh (.watching p)) s' ∧ ∀ u, u ≠ t → Spares u s s' := by
  simp only [enter] at henter
  split at henter
  · next m r hm husage =>
    obtain rfl := Option.some.inj henter
    obtain ⟨hsound, htie, hspares⟩ := setUsage_kept (x := .watched t r) hs ht
      (fun u k _ hk => by
        rw [husage] at hk
        obtain ⟨rfl, hmem⟩ | ⟨rfl, rfl⟩ := hk.bound
        · cases hmem
        · rfl)
      (fun u _ h => by rw [husage]; exact h) (fun q hq => by cases hq)
    refine ⟨hsound, htie (.watching p) ⟨⟨m, hm⟩, r, Board.usage_setUsage⟩ fun h => ?_, hspares⟩
    cases ht.resync p ⟨⟨m, hm⟩, by rw [husage]; exact h⟩
  · cases henter

/-- `psmouse_resync` comes in. -/
theorem enter_resync_kept (hs : s.Sound) (ht : Tie t (.fresh .idle) s) (henter : enter (.resync p) t s = some s') :
    s'.Sound ∧ Tie t (.fresh (.resyncing p)) s' ∧ ∀ u, u ≠ t → Spares u s s' := by
  simp only [enter] at henter
  split at henter
  · next m v hm husage =>
    obtain rfl := Option.some.inj henter
    obtain ⟨hsound, htie, hspares⟩ := setUsage_kept (x := .watched v (some t)) hs ht
      (fun u k _ hk => by
        rw [husage] at hk
        cases k with
        | owner => cases hk
        | watcher =>
          obtain ⟨r', hr'⟩ := hk
          exact ⟨_, by rw [(Usage.watched.inj hr').1]⟩
        | user =>
          obtain ⟨users, r', hr', _⟩ := hk
          cases hr'
        | resync => cases hk)
      (fun u hu h => absurd (Option.some.inj h).symm hu) (fun q hq => by cases hq)
    exact ⟨hsound, htie (.resyncing p) ⟨⟨m, hm⟩, by rw [Board.usage_setUsage]; rfl⟩ fun _ => rfl, hspares⟩
  · next m users hm husage =>
    obtain rfl := Option.some.inj henter
    obtain ⟨hsound, htie, hspares⟩ := setUsage_kept (x := .bound users (some t)) hs ht
      (fun u k _ hk => by
        rw [husage] at hk
        obtain ⟨rfl, hmem⟩ | ⟨rfl, hr⟩ := hk.bound
        · exact ⟨_, _, rfl, hmem⟩
        · cases hr)
      (fun u hu h => absurd (Option.some.inj h).symm hu) (fun q hq => by cases hq)
    exact ⟨hsound, htie (.resyncing p) ⟨⟨m, hm⟩, by rw [Board.usage_setUsage]; rfl⟩ fun _ => rfl, hspares⟩
  · cases henter

/-- A call that comes in keeps the records in order. -/
theorem enter_kept {call : Call} (hs : s.Sound) (ht : Tie t (.fresh .idle) s) (henter : enter call t s = some s')
    (hlapse : s'.lapse = false) : s'.Sound ∧ Tie t (.fresh call.role) s' ∧ ∀ u, u ≠ t → Spares u s s' := by
  have hsame : ∀ u, u ≠ t → Spares u s s := (learn_kept (o := .outcome) (a := true) hs ht rfl).others
  cases call with
  | connect =>
    obtain rfl := Option.some.inj henter
    exact ⟨hs, ht, hsame⟩
  | disconnect p => exact enter_disconnect_kept hs ht henter
  | reconnect p => exact admitUser_kept hs ht henter
  | setProtocol p proto oldProto => exact admitUser_kept hs ht henter
  | resync p => exact enter_resync_kept hs ht henter
  | addAdapter hostNotify =>
    obtain rfl := Option.some.inj henter
    exact ⟨hs, ht, hsame⟩
  | destroyClient c =>
    simp only [enter] at henter
    split at henter
    · next x hx =>
      split at henter
      · next hreg =>
        obtain rfl := Option.some.inj henter
        have hdx : x.destroyer = none := Option.isNone_iff_eq_none.mp hreg
        obtain ⟨hcalm, hbuild⟩ := Bool.or_eq_false_iff.mp hlapse
        have hrem : x.removal = .none := by simpa using (Bool.or_eq_false_iff.mp hcalm).2
        obtain ⟨hsound, htie, hspares⟩ := claim_kept hs ht { x with destroyer := some t } s.work
          (s.lapse || x.removal ≠ .none || x.building) hx hdx rfl rfl (fun _ => ⟨hrem, hbuild⟩)
          (fun u _ h => by cases hrem.symm.trans h)
          (fun c' hc' => ⟨hc', fun he => hs.not_queued hx (.inr (by rw [hrem]; simp)) (he ▸ hc')⟩) hs.workNodup
          (fun q hq => by cases hq)
        exact ⟨hsound, htie (.destroying c) ⟨_, Board.client_setClient, rfl, hs.quiet c x hx hdx⟩, hspares⟩
      · cases henter
    · cases henter
  | removeI2cDevice c =>
    simp only [enter] at henter
    split at henter
    · next hc =>
      obtain rfl := Option.some.inj henter
      obtain ⟨x, hx, hdx, hrem⟩ := hs.work c hc
      rw [Board.onClient_of_some hx]
      obtain ⟨hsound, htie, hspares⟩ := claim_kept hs ht { x with removal := .taken t } (s.work.erase c)
        s.lapse hx hdx rfl rfl (fun h => by cases hrem.symm.trans h)
        (fun u _ h => by cases hrem.symm.trans h)
        (fun c' hc' => ⟨(hs.workNodup.mem_erase_iff.mp hc').2, (hs.workNodup.mem_erase_iff.mp hc').1⟩)
        (hs.workNodup.erase c)
        (fun q hq => by cases hq)
      exact ⟨hsound, htie (.removing c) ⟨_, Board.client_setClient, hdx, rfl⟩, hspares⟩
    · cases henter

/-- A lapse is for good. -/
theorem enter_lapse {call : Call} (henter : enter call t s = some s') (hs : s.lapse = true) : s'.lapse = true := by
  cases call
  all_goals simp only [enter, Board.admitUser] at henter
  all_goals repeat' split at henter
  all_goals first
    | (obtain rfl := Option.some.inj henter
       simp [hs, Board.setUsage])
    | cases henter

/-! ## The accounts of all threads -/

/-- The account of another thread stays true, or is lost. -/
theorem Keeps.other {m : Option Account} (hm : Keeps u m s) (hs : s.Sound) (hlapse : s.lapse = true → s'.lapse = true)
    (hspares : s'.lapse = false → Spares u s s') : Keeps u m s' := by
  cases m with
  | none => exact hlapse hm
  | some a =>
    intro hs'
    have hfree : s.lapse = false := by
      cases h : s.lapse with
      | false => rfl
      | true => exact (hlapse h).symm.trans hs'
    exact (hm hfree).spared hs (hspares hs')

/-- The accounts of the threads, and the invariant. -/
def custody : Custody machine rules.forfeitable where
  known _ := True
  inv s := s.lapse = false → s.Sound
  tie := Keeps
  idle := some (.fresh .idle)
  starts call l := l = some (.fresh call.role)
  during _ _ := True
  rest l := ∀ a, l = some a → a = .fresh .idle
  starts_during _ _ _ := trivial
  moves_during _ _ _ _ _ _ _ := trivial
  event_keeps e s s' _ hs he := by
    have haround : ∃ w n present hostNotify lapse, s' = s.around w n present hostNotify lapse ∧ lapse = s.lapse := by
      cases e with
      | world w =>
        obtain rfl := Option.some.inj he
        exact ⟨w, _, _, _, _, rfl, rfl⟩
      | adapterGone a =>
        obtain rfl := Option.some.inj he
        exact ⟨_, _, _, _, _, rfl, rfl⟩
    obtain ⟨w, n, present, hostNotify, lapse, rfl, rfl⟩ := haround
    refine ⟨fun h => (hs h).around, fun u m hm => ?_⟩
    cases m with
    | none => exact hm
    | some a => exact fun h => (hm h).around (hs h)
  enter_keeps call t s s' _ hs ht he := by
    by_cases hlapse : s'.lapse = true
    · refine ⟨fun h => absurd (hlapse.symm.trans h) (by decide),
        ⟨_, rfl, fun h => absurd (hlapse.symm.trans h) (by decide)⟩,
        fun u m _ hm => ?_⟩
      cases m with
      | none => exact hlapse
      | some a => exact fun h => absurd (hlapse.symm.trans h) (by decide)
    · have hfree : s'.lapse = false := (Bool.not_eq_true _).mp hlapse
      have hbefore : s.lapse = false := by
        cases h : s.lapse with
        | false => rfl
        | true => exact absurd (enter_lapse he h) hlapse
      obtain ⟨hsound, htie, hspares⟩ := enter_kept (hs hbefore) (ht hbefore) he hfree
      exact ⟨fun _ => hsound, ⟨_, rfl, fun _ => htie⟩,
        fun u m hu hm => hm.other (hs hbefore) (enter_lapse he) fun _ => hspares u hu⟩
  step_keeps call t l o s r s' _ hs ht _ hallow _ he := by
    by_cases hlapse : s'.lapse = true
    · refine ⟨fun h => absurd (hlapse.symm.trans h) (by decide), ⟨none, .inl rfl, hlapse⟩, fun u m _ hm => ?_⟩
      cases m with
      | none => exact hlapse
      | some a => exact fun h => absurd (hlapse.symm.trans h) (by decide)
    · have hfree : s'.lapse = false := (Bool.not_eq_true _).mp hlapse
      have hbefore : s.lapse = false := by
        cases h : s.lapse with
        | false => rfl
        | true => exact absurd (exec_lapse he h) hlapse
      cases l with
      | none => exact absurd (ht.symm.trans hbefore) (by decide)
      | some a =>
        obtain ⟨hsound, ⟨a', hmoves, htie⟩, hspares⟩ := exec_kept (hs hbefore) (ht hbefore) (hallow a rfl) he hfree
        exact ⟨fun _ => hsound, ⟨some a', .inr ⟨a, a', rfl, rfl, hmoves⟩, fun _ => htie⟩,
          fun u m hu hm => hm.other (hs hbefore) (exec_lapse he) fun _ => hspares u hu⟩

end HostNotify.Psmouse
