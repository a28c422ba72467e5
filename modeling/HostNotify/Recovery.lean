import HostNotify.Handlers
import HostNotify.Resets
import HostNotify.Retries
import HostNotify.Upholding

/-!
# Recovery from a busy region

A started device that is awake is wanted, whatever requests for the FCH PM region have failed, and
every transfer that gets the region leaves a wanted slave armed.
-/

namespace HostNotify

open Bits Interleaving

variable {k : Setting} {b : Board} {s s' : St} {t i : ℕ} {p : Pool St Op Op.Ans Call} {x : SmbusXfer}

/-! ## What is wanted -/

/-- The callback in progress is a thread with operations left. -/
theorem owner_next (h : p.Reachable (machine k b) (Unbound k)) (howner : p.shared.life.owner = some i) :
    ∃ c o, p.next i = some (.core c, o) := by
  have hcovers := covers h
  rcases lt_or_ge i p.threads.length with hlt | hge
  · obtain ⟨⟨call, q⟩, hi⟩ : ∃ d, p.threads[i]? = some d := ⟨_, List.getElem?_eq_getElem hlt⟩
    obtain ⟨m, hserves, htie, hfollows⟩ := hcovers.thread i call q hi
    obtain ⟨c, v, hrole, _⟩ := htie.owner.mp howner
    change Serves call m.role at hserves
    rw [hrole] at hserves
    obtain rfl : call = .core c := by
      cases call with
      | core d =>
        rcases hserves with ⟨w, hw⟩ | hw
        · rw [(Role.core.inj hw).1]
        · cases hw
      | _ => rcases hserves with hw | hw <;> cases hw
    cases q with
    | ret a => rcases hfollows.2 with hr | hr <;> cases hrole.symm.trans hr
    | op o next =>
      refine ⟨c, o, ?_⟩
      unfold Pool.next
      rw [hi]
  · obtain ⟨c, v, hrole, _⟩ := (hcovers.absent i hge).owner.mp howner
    cases hrole

/-- A started device that is awake is wanted. -/
theorem wanted_kept (h : p.Reachable (machine k b) (Unbound k)) (hserving : p.shared.life.serving = true)
    (hactive : p.shared.asf.active = true) (hawake : p.shared.life.asleep = false)
    (hsteady : ∀ i c o, p.next i = some (.core c, o) → c ≠ .suspend ∧ c ≠ .resume) :
    p.shared.asf.wantListen = true := by
  have hcovers := Pledge.covers h
  cases howner : p.shared.life.owner with
  | none => exact (hcovers.inv.2 howner).wanted hserving hactive hawake
  | some i =>
    obtain ⟨c, o, hnext⟩ := owner_next h howner
    obtain ⟨hsuspend, hresume⟩ := hsteady i c o hnext
    exact (hcovers.next_ok hnext rfl).upheld c rfl hsuspend hresume hserving hactive hawake

/-- Whoever is about to arm the slave on behalf of a transfer or an interrupt finds the device awake. -/
theorem arming_awake (h : p.Reachable (machine k b) (Unbound k)) {call : Call}
    (hcall : (∃ x, call = .transfer x) ∨ call = .irqThread) (hnext : p.next i = some (call, .mark .armBegin)) :
    p.shared.life.asleep = false := by
  have hadmits : (settled k b).admits call (.mark .armBegin) p.shared = true := by
    rcases hcall with ⟨x, rfl⟩ | rfl <;> rfl
  have hwant := ((Pledge.covers h).next_ok hnext hadmits).arm hcall rfl
  by_contra hasleep
  have hunwanted := (reachable_inv h).asleep (Bool.not_eq_false _ ▸ hasleep)
  exact Bool.noConfusion (hwant.symm.trans hunwanted)

/-- While the device sleeps, no transfer and no interrupt arms the slave. -/
theorem asleep_unarmed (h : p.Reachable (machine k b) (Unbound k)) (hasleep : p.shared.life.asleep = true)
    {call : Call} (hcall : (∃ x, call = .transfer x) ∨ call = .irqThread) :
    p.next i ≠ some (call, .mark .armBegin) := by
  intro hnext
  exact Bool.noConfusion (hasleep.symm.trans (arming_awake h hcall hnext))

/-- The device sleeps, and a transfer decides whether to listen again. -/
def suspended : List (Action Call Event) :=
  bringUp ++ .call (.core .suspend) :: advance 3 22 ++ .call (.transfer readByte2c) :: advance 4 31

/-- The device sleeps while a transfer holds the mutex. -/
theorem asleep_unarmed_suspended : ∃ p, outcome Setting.all suspended = some p ∧
    p.shared.life.asleep = true ∧ p.shared.mutex = some 4 ∧
    p.next 4 ≠ some (.transfer readByte2c, .mark .armBegin) := by
  obtain ⟨p, hp, hstate⟩ := exists_outcome Setting.all suspended
    (fun p => p.shared.life.asleep && p.shared.mutex == some 4) (by decide +kernel)
  simp only [Bool.and_eq_true, beq_iff_eq] at hstate
  obtain ⟨hasleep, hholds⟩ := hstate
  exact ⟨p, hp, hasleep, hholds, asleep_unarmed (outcome_reachable hp) hasleep (Or.inl ⟨_, rfl⟩)⟩

/-! ## What a transfer leaves -/

/-- After its last mark the code of a transfer gives up the mutex. -/
def GivesUp (q : Driver Unit) : Prop :=
  ∀ next, q = .op (.mark .transferEnd) next → ∃ rest, next () = .op (.unlock .asf) rest

/-- Operations that are not that mark. -/
def Op.Inner (o : Op) : Prop := o ≠ .mark .transferEnd

/-- Before its last mark the code has still to get there. -/
theorem givesUp_inner {o : Op} {next : o.Ans → Driver Unit} (ho : o.Inner) : GivesUp (.op o next) := by
  intro next' h
  exact absurd (Prog.op.inj h).1 ho

/-- Tacit operations are no marks. -/
theorem Op.Tacit.inner {o : Op} (h : o.Tacit) : o.Inner := by
  rintro rfl
  exact h

/-- Tacit code has no marks. -/
theorem tacit_inner {A : Type} {q : Driver A} (hq : q.AllOps Op.Tacit) : q.AllOps Op.Inner :=
  hq.mono fun _ ho => ho.inner

/-- The code under the mutex has not the last mark. -/
theorem accessAsfLocked_inner (x : SmbusXfer) : (accessAsfLocked x).AllOps Op.Inner :=
  accessAsfLocked_allOps (fun _ ho => ho.inner) (fun _ hm h => hm (Op.mark.inj h)) nofun x

/-- Code without that mark never stands before it. -/
theorem inner_givesUp {q : Driver Unit} (hq : q.AllOps Op.Inner) : q.Always GivesUp :=
  hq.always (fun _ _ ho => givesUp_inner ho) fun _ _ h => nomatch h

/-- After its last mark a transfer gives up the mutex. -/
theorem transfer_givesUp (x : SmbusXfer) : ((Call.transfer x).body b).Always GivesUp := by
  have hskip : ∀ {A : Type} {q : Driver A} {f : A → Driver Unit}, q.AllOps Op.Inner →
      (∀ a, (f a).Always GivesUp) → (q >>= f).Always GivesUp := fun hq hf =>
    .bind hq (fun _ _ ho => givesUp_inner ho) hf
  have hdone : (perform .transferDone).Always GivesUp := inner_givesUp ⟨nofun, fun _ => trivial⟩
  have hunlock : (unlock .asf).AllOps Op.Inner := ⟨nofun, fun _ => trivial⟩
  have hread : piix4Asf.AllOps Op.Inner := ⟨nofun, fun _ => trivial⟩
  change (piix4AccessAsf x >>= fun _ => perform .transferDone).Always GivesUp
  unfold piix4AccessAsf
  rw [Prog.bind_bind]
  refine hskip ⟨nofun, fun _ => trivial⟩ fun _ => ?_
  rw [Prog.bind_bind]
  refine hskip hread fun a => ?_
  split
  · rw [Prog.bind_bind]
    exact hskip hunlock fun _ => hskip (tacit_inner (access_tacit x)) fun _ => hdone
  · rw [Prog.bind_bind]
    refine hskip hread fun a' => ?_
    rw [Prog.bind_bind]
    refine hskip (regionRequest_allOps nofun nofun nofun (fun _ _ => nofun) _) fun retval => ?_
    split
    · rw [Prog.bind_bind]
      exact hskip hunlock fun _ => hdone
    · rw [Prog.bind_bind]
      refine hskip (accessAsfLocked_inner x) fun r => ?_
      rw [Prog.bind_bind]
      refine hskip hread fun a'' => ?_
      rw [Prog.bind_bind]
      refine hskip (regionRelease_allOps nofun (fun _ _ => nofun) _) fun _ => ?_
      have hdeliver : (piix4AsfDeliver r.2.2).AllOps Op.Inner :=
        deliver_allOps nofun nofun nofun nofun (fun _ => nofun) nofun _
      refine ⟨fun next h => ?_, fun _ => ?_⟩
      · cases h
        exact ⟨_, rfl⟩
      · change ((unlock .asf >>= fun _ => piix4AsfDeliver r.2.2 >>= fun _ =>
          pure (r.1, r.2.1)) >>= fun _ => perform .transferDone).Always GivesUp
        rw [Prog.bind_bind]
        refine hskip hunlock fun _ => ?_
        rw [Prog.bind_bind]
        exact hskip hdeliver fun _ => hdone

/-- What holds of the rest of a call. -/
def Ending : Call → Driver Unit → Prop
  | .transfer _ => GivesUp
  | _ => fun _ => True

/-- Every call ends as it should. -/
theorem body_ending (c : Call) : (c.body b).Always (Ending c) := by
  cases c with
  | transfer x => exact transfer_givesUp x
  | _ => exact (Prog.allOps_true _).always (fun _ _ _ => trivial) fun _ => trivial

/-- At the end of its critical section a transfer leaves a wanted slave armed. -/
theorem transfer_leaves_armed (h : p.Reachable (machine k b) (Unbound k))
    (hnext : p.next i = some (.transfer x, .mark .transferEnd)) (hwant : p.shared.asf.wantListen = true) :
    p.shared.asf.listening = true ∧ p.shared.hw.Armed := by
  have hlisten := ((Pledge.covers h).next_ok hnext rfl).finish x rfl rfl hwant
  have hactive : p.shared.asf.active = true := by
    by_contra hinactive
    have hunwanted := (reachable_inv h).core.inactive (Bool.not_eq_true _ ▸ hinactive)
    exact Bool.noConfusion (hwant.symm.trans hunwanted)
  obtain ⟨q, hi⟩ := Pool.next_some hnext
  obtain ⟨rest, hrest⟩ := (h.always body_ending hi).now q rfl
  have hlt : i < p.threads.length := (List.getElem?_eq_some_iff.mp hi).1
  -- two steps on the mutex is free, and the registers are as they were
  have hmark : p.act (machine k b) (.step i) = some ⟨{ p.shared with
      ghost := p.shared.ghost.after p.shared.hw .transferEnd, irq := p.shared.irq.after .transferEnd },
      p.threads.set i (.transfer x, .op (.unlock .asf) rest)⟩ := by
    rw [← hrest]
    simp only [Pool.act, hi]
    rfl
  have hunlock : Pool.act (machine k b) ⟨{ p.shared with
      ghost := p.shared.ghost.after p.shared.hw .transferEnd, irq := p.shared.irq.after .transferEnd },
      p.threads.set i (.transfer x, .op (.unlock .asf) rest)⟩ (.step i) = some ⟨{ p.shared with
      ghost := p.shared.ghost.after p.shared.hw .transferEnd, irq := p.shared.irq.after .transferEnd
      mutex := none }, (p.threads.set i (.transfer x, .op (.unlock .asf) rest)).set i (.transfer x, rest ())⟩ := by
    simp only [Pool.act, List.getElem?_set_self hlt]
    rfl
  exact ⟨hlisten, (listening_armed ((h.act hmark).act hunlock) rfl hactive hlisten).2⟩

/-! ## A transfer scheduled alone -/

/-- The operation never waits, and takes back neither the claim nor what is wanted or heard. -/
def Op.Prompt : Op → Prop
  | .lock _ | .requestMemRegionMuxed | .requestMuxedRegion _ _ | .requestRegion _ _ | .freeIrq
  | .i2cDelAdapter => False
  | .setAsf f => ∀ a, (f a).active = a.active ∧ (f a).wantListen = a.wantListen ∧
      (a.listening = true → (f a).listening = true)
  | _ => True

/-- From `s` to `s'` no mutex is taken, and nothing is taken back. -/
structure Undropped (s s' : St) : Prop where
  mutex : s.mutex = none → s'.mutex = none
  notifyMutex : s.notifyMutex = none → s'.notifyMutex = none
  active : s'.asf.active = s.asf.active
  want : s'.asf.wantListen = s.asf.wantListen
  listening : s.asf.listening = true → s'.asf.listening = true

/-- Nothing is dropped where nothing happens. -/
theorem Undropped.refl (s : St) : Undropped s s := ⟨id, id, rfl, rfl, id⟩

/-- What two parts leave alone both leave alone. -/
theorem Undropped.trans {s s' s'' : St} (h : Undropped s s') (h' : Undropped s' s'') : Undropped s s'' :=
  ⟨h'.mutex ∘ h.mutex, h'.notifyMutex ∘ h.notifyMutex, h'.active.trans h.active, h'.want.trans h.want,
    h'.listening ∘ h.listening⟩

/-- Nothing is dropped while the mutexes and the global stay as they are. -/
theorem Undropped.of_eq (hmutex : s'.mutex = s.mutex) (hnotify : s'.notifyMutex = s.notifyMutex)
    (hasf : s'.asf = s.asf) : Undropped s s' := by
  refine ⟨hmutex.trans, hnotify.trans, ?_, ?_, fun h => ?_⟩
  · rw [hasf]
  · rw [hasf]
  · rw [hasf]
    exact h

/-- A prompt operation never waits. -/
theorem Op.Prompt.exec {o : Op} (ho : o.Prompt) (s : St) :
    ∃ r s', exec b t o s = some (r, s') ∧ Undropped s s' := by
  cases o with
  | inb port =>
    refine ⟨_, _, rfl, ?_⟩
    split <;> exact .of_eq rfl rfl rfl
  | outb v port =>
    refine ⟨_, _, rfl, ?_⟩
    unfold St.portWrite
    split <;> exact .of_eq rfl rfl rfl
  | setAsf f => exact ⟨_, _, rfl, id, id, (ho _).1, (ho _).2.1, (ho _).2.2⟩
  | xchgPending v => exact ⟨_, _, rfl, id, id, rfl, rfl, id⟩
  | unlock l =>
    refine ⟨_, _, rfl, ?_⟩
    cases l with
    | asf => exact ⟨fun _ => rfl, id, rfl, rfl, id⟩
    | notify => exact ⟨id, fun _ => rfl, rfl, rfl, id⟩
  | lock | requestMemRegionMuxed | requestMuxedRegion | requestRegion | freeIrq | i2cDelAdapter => exact ho.elim
  | _ => exact ⟨_, _, rfl, .of_eq rfl rfl rfl⟩

/-- With all ways out open, the machine admits every operation of a transfer. -/
theorem own_transfer (hk : k.stuckExit = true) (o : Op) (s : St) :
    (machine k b).own (.transfer x) t o s = exec b t o s := by
  refine if_pos ?_
  change k.admits (.transfer x) o s = true
  cases o with
  | mark m =>
    cases m with
    | nakExit =>
      unfold Setting.admits
      rw [hk]
      rfl
    | _ => rfl
  | _ => rfl

/-- Prompt code runs to its end. -/
theorem prompt_ends {A : Type} {q : Driver A} (hk : k.stuckExit = true) (hq : q.AllOps Op.Prompt) :
    q.Ends ((machine k b).own (.transfer x) t) (fun _ => Undropped s) s := by
  refine .of_allOps hq Undropped.refl (fun _ _ _ => Undropped.trans) fun o s ho => ?_
  rw [own_transfer hk]
  exact ho.exec s

/-- Tacit operations are prompt. -/
theorem Op.Tacit.prompt {o : Op} (h : o.Tacit) : o.Prompt := by
  cases o <;> first | exact trivial | exact h.elim

/-- One operation whose answer is known. -/
theorem own_ends {o : Op} {r : o.Ans} (hk : k.stuckExit = true) (he : exec b t o s = some (r, s')) :
    (perform o).Ends ((machine k b).own (.transfer x) t) (fun r' s'' => r' = r ∧ s' = s'') s :=
  .op ((own_transfer hk o s).trans he) (.ret ⟨rfl, rfl⟩)

/-- A wanted slave listens at the end of the critical section. -/
theorem accessAsfLocked_ends (hk : k.stuckExit = true) (hwant : s.asf.wantListen = true) :
    (accessAsfLocked x).Ends ((machine k b).own (.transfer x) t)
      (fun _ s' => Undropped s s' ∧ s'.asf.listening = true) s := by
  have htacit : ∀ o : Op, o.Tacit → o.Prompt := fun _ ho => ho.prompt
  have hmark : ∀ m : Mark, m ≠ .transferEnd → Op.Prompt (.mark m) := fun _ _ => trivial
  have hlisten : Op.Prompt (.setAsf fun a => { a with listening := true }) := fun _ => ⟨rfl, rfl, fun _ => rfl⟩
  refine .bind (prompt_ends hk (drainListening_allOps htacit hmark _)) fun n s₁ h₁ => ?_
  refine .bind (prompt_ends hk (attempts_allOps htacit hmark hlisten _ _ _)) fun r s₂ h₂ => ?_
  refine .bind (own_ends hk rfl) ?_
  rintro _ _ ⟨rfl, rfl⟩
  have hwanted : s₂.asf.wantListen = true := h₂.want.trans (h₁.want.trans hwant)
  rw [if_pos hwanted]
  refine .bind (own_ends hk rfl) ?_
  rintro _ _ ⟨-, rfl⟩
  refine .bind (prompt_ends hk (slaveArm_allOps trivial htacit _)) fun _ s₄ h₄ => .ret ⟨?_, h₄.listening rfl⟩
  have hset : Undropped s₂ { s₂ with asf := { s₂.asf with listening := true } } := ⟨id, id, rfl, rfl, fun _ => rfl⟩
  exact (h₁.trans h₂).trans (hset.trans h₄)

/-- The request of a region that is free and mapped. -/
theorem requestFree_ends (hk : k.stuckExit = true) (hregion : s.region = none)
    (hidle : s.world.regionBusy = false) (hmaps : s.world.ioremapFails = false) :
    (piix4Sb800RegionRequest true).Ends ((machine k b).own (.transfer x) t)
      (fun r s' => r = 0 ∧ Undropped s s') s := by
  have hrequest : exec b t .requestMemRegionMuxed s = some (true,
      { s with region := some t, ghost := { s.ghost with touched := false } }) := by
    simp [exec, hregion, hidle]
  refine .bind (own_ends hk hrequest) ?_
  rintro _ _ ⟨rfl, rfl⟩
  refine .bind (own_ends hk rfl) ?_
  rintro _ _ ⟨rfl, rfl⟩
  rw [hmaps]
  exact .ret ⟨rfl, .of_eq rfl rfl rfl⟩

/-- A delivery runs to its end once it has the notify mutex. -/
theorem deliver_ends (hk : k.stuckExit = true) (hnotify : s.notifyMutex = none) (n : Notifies) :
    (piix4AsfDeliver n).Ends ((machine k b).own (.transfer x) t)
      (fun _ s' => ∃ u, (u = s ∨ u = { s with notifyMutex := some t }) ∧ Undropped u s') s := by
  unfold piix4AsfDeliver
  split
  · exact .ret ⟨s, Or.inl rfl, .refl s⟩
  · have hlock : exec b t (.lock .notify) s = some ((), { s with notifyMutex := some t }) := if_pos hnotify
    refine .bind (own_ends hk hlock) ?_
    rintro _ _ ⟨-, rfl⟩
    have hend : (unlock .notify).AllOps Op.Prompt := ⟨trivial, fun _ => trivial⟩
    have hall : ∀ l, (deliverAll l).AllOps Op.Prompt := by
      intro l
      induction l with
      | nil => exact trivial
      | cons a rest ih => exact ⟨trivial, fun _ => ⟨trivial, fun _ => ih⟩⟩
    refine (prompt_ends hk ?_).mono fun _ _ h => ⟨_, Or.inr rfl, h⟩
    refine Prog.AllOps.bind ⟨trivial, fun _ => trivial⟩ fun ok => ?_
    cases ok with
    | false => exact hend
    | true =>
      refine Prog.AllOps.bind ⟨trivial, fun _ => trivial⟩ fun adapter => ?_
      cases adapter with
      | false => exact hend
      | true => exact (hall _).bind fun _ => hend

/-- The call runs to its end and leaves the slave listening. -/
theorem transfer_ends (hk : k.stuckExit = true) (hfree : s.mutex = none) (hnotify : s.notifyMutex = none)
    (hregion : s.region = none) (hidle : s.world.regionBusy = false) (hmaps : s.world.ioremapFails = false)
    (hactive : s.asf.active = true) (hmmio : s.asf.useMmio = true) (hwant : s.asf.wantListen = true) :
    ((Call.transfer x).body b).Ends ((machine k b).own (.transfer x) t)
      (fun _ s' => s'.mutex = none ∧ s'.asf.active = true ∧ s'.asf.listening = true) s := by
  have hlock : exec b t (.lock .asf) s = some ((), { s with mutex := some t }) := if_pos hfree
  change (piix4AccessAsf x >>= fun _ => perform .transferDone).Ends _ _ _
  unfold piix4AccessAsf
  rw [Prog.bind_bind]
  refine .bind (own_ends hk hlock) ?_
  rintro _ _ ⟨-, rfl⟩
  rw [Prog.bind_bind]
  refine .bind (own_ends hk rfl) ?_
  rintro _ _ ⟨rfl, rfl⟩
  rw [if_neg (by simp [hactive]), Prog.bind_bind]
  refine .bind (own_ends hk rfl) ?_
  rintro _ _ ⟨rfl, rfl⟩
  rw [Prog.bind_bind, hmmio]
  refine .bind (requestFree_ends hk hregion hidle hmaps) ?_
  rintro _ s₁ ⟨rfl, h₁⟩
  rw [if_neg (by simp), Prog.bind_bind]
  refine .bind (accessAsfLocked_ends hk (h₁.want.trans hwant)) ?_
  rintro r s₂ ⟨h₂, hlisten⟩
  rw [Prog.bind_bind]
  refine .bind (own_ends hk rfl) ?_
  rintro a _ ⟨-, rfl⟩
  rw [Prog.bind_bind]
  refine .bind (prompt_ends hk (regionRelease_allOps trivial (fun _ _ => trivial) _)) fun _ s₃ h₃ => ?_
  rw [Prog.bind_bind]
  refine .bind (prompt_ends hk ⟨trivial, fun _ => trivial⟩) fun _ s₄ h₄ => ?_
  have hkept := ((h₁.trans h₂).trans h₃).trans h₄
  rw [Prog.bind_bind]
  refine .bind (own_ends hk rfl) ?_
  rintro _ _ ⟨-, rfl⟩
  rw [Prog.bind_bind]
  refine .bind (deliver_ends (s := s₄.setHolder none .asf) hk (hkept.notifyMutex hnotify) _) ?_
  rintro _ s₅ ⟨u, hu, h₅⟩
  have hdone : (perform .transferDone).AllOps Op.Prompt := ⟨trivial, fun _ => trivial⟩
  refine (prompt_ends hk hdone).mono fun _ s₆ h₆ => ?_
  have hlast := h₅.trans h₆
  have hlisten₄ : s₄.asf.listening = true := h₄.listening (h₃.listening hlisten)
  rcases hu with rfl | rfl
  · exact ⟨hlast.mutex rfl, hlast.active.trans (hkept.active.trans hactive), hlast.listening hlisten₄⟩
  · exact ⟨hlast.mutex rfl, hlast.active.trans (hkept.active.trans hactive), hlast.listening hlisten₄⟩

/-- The mutexes and the region are free, and the region can be had. -/
structure St.Uncontended (s : St) : Prop where
  mutex : s.mutex = none
  notifyMutex : s.notifyMutex = none
  region : s.region = none
  granted : s.world.regionBusy = false
  mapped : s.world.ioremapFails = false

/-- A transfer that is entered and scheduled alone returns with the slave armed. -/
theorem transfer_recovers (h : p.Reachable (machine k b) (Unbound k)) (hk : k.stuckExit = true)
    (hactive : p.shared.asf.active = true) (hwant : p.shared.asf.wantListen = true)
    (hfree : p.shared.Uncontended) (hentered : enter k b (.transfer x) p.threads.length p.shared = some s') :
    ∃ n q, Pool.run (machine k b) (.call (.transfer x) :: advance p.threads.length n) p = some q ∧
      q.returned p.threads.length = some (.transfer x) ∧ q.shared.asf.listening = true ∧ q.shared.hw.Armed := by
  have hact : p.act (machine k b) (.call (.transfer x)) =
      some ⟨s', p.threads ++ [(.transfer x, (Call.transfer x).body b)]⟩ := by
    have henter : (machine k b).enter (.transfer x) p.threads.length p.shared = some s' := hentered
    simp only [Pool.act, henter, Option.map_some]
    rfl
  have hreach := h.act hact
  have hmmio := ((reachable_inv h).claimed hactive).2
  obtain ⟨hmutex, hnotify, hregion, hworld, hasf⟩ : s'.mutex = p.shared.mutex ∧
      s'.notifyMutex = p.shared.notifyMutex ∧ s'.region = p.shared.region ∧ s'.world = p.shared.world ∧
      s'.asf = p.shared.asf := by
    obtain ⟨_, hsame⟩ := Option.ite_none_right_eq_some.mp hentered
    cases hsame
    exact ⟨rfl, rfl, rfl, rfl, rfl⟩
  rw [← hasf] at hactive hmmio hwant
  have hends := transfer_ends (b := b) (t := p.threads.length) (x := x) hk (hmutex.trans hfree.mutex)
    (hnotify.trans hfree.notifyMutex) (hregion.trans hfree.region) (hworld ▸ hfree.granted)
    (hworld ▸ hfree.mapped) hactive hmmio hwant
  obtain ⟨n, q, hrun, hret, hmutex', hq, hlisten⟩ := Pool.run_alone
    (p := ⟨s', p.threads ++ [(.transfer x, (Call.transfer x).body b)]⟩) (by simp) hends
  refine ⟨n, q, ?_, hret, hlisten, ?_⟩
  · rw [Pool.run, hact]
    exact hrun
  · have hreach' : q.Reachable (machine k b) (Unbound k) := by
      obtain ⟨s₀, schedule, hs₀, hschedule⟩ := hreach
      refine ⟨s₀, schedule ++ List.replicate n (.step p.threads.length), hs₀, ?_⟩
      rw [Pool.run_append, hschedule]
      exact hrun
    exact (listening_armed hreach' hmutex' hq hlisten).2

/-! ## A transfer without the region -/

variable {a : Piix4Asf} {h : Answers} {y : Transcript}

/-- A port or DecodeEn is accessed. -/
def Exchange.reaches : Exchange → Bool
  | ⟨.inb _, _⟩ | ⟨.outb _ _, _⟩ | ⟨.ioread32, _⟩ | ⟨.iowrite32 _, _⟩ | ⟨.ioread8 _, _⟩ | ⟨.iowrite8 _ _, _⟩ => true
  | _ => false

/-- The operation asks for the mutex or the region, gives one of them up, or looks at a flag. -/
def Op.Withdrawn : Op → Prop
  | .lock _ | .unlock _ | .asf | .requestMemRegionMuxed | .ioremap | .releaseMemRegion
  | .requestMuxedRegion _ _ => True
  | _ => False

/-- The operation does not ask for the region. -/
def Op.Unasking : Op → Prop
  | .requestMemRegionMuxed | .ioremap | .requestMuxedRegion _ _ => False
  | _ => True

/-- Tacit operations do not ask for the region. -/
theorem Op.Tacit.unasking {o : Op} (h : o.Tacit) : o.Unasking := by
  cases o <;> first | exact trivial | exact h.elim

/-- What an uninterrupted run adds to the transcript. -/
theorem allOps_ends {A : Type} {T : Op → Prop} {q : Driver A} (hq : q.AllOps T) :
    q.Ends (Transcript.exec h) (fun _ z => ∃ tail, z.past = y.past ++ tail ∧ ∀ e ∈ tail, T e.1) y := by
  induction q generalizing y with
  | ret a => exact ⟨[], (List.append_nil _).symm, fun e he => absurd he List.not_mem_nil⟩
  | op o next ih =>
    refine .op rfl ((ih _ (hq.2 _)).mono fun _ z hz => ?_)
    obtain ⟨tail, hpast, htail⟩ := hz
    refine ⟨⟨o, y.answer h o⟩ :: tail, by rw [hpast, Transcript.next, List.append_assoc]; rfl, fun e he => ?_⟩
    rcases List.mem_cons.mp he with rfl | he
    · exact hq.1
    · exact htail e he

/-- Code that only asks and gives up leaves the global alone. -/
theorem withdrawn_ends {A : Type} {q : Driver A} (hq : q.AllOps Op.Withdrawn) :
    q.Ends (Transcript.exec h) (fun _ z => z.asf = y.asf) y := by
  induction q generalizing y with
  | ret a => exact rfl
  | op o next ih =>
    refine .op rfl ((ih _ (hq.2 _)).mono fun _ z hz => hz.trans ?_)
    have ho := hq.1
    cases o <;> first | rfl | exact ho.elim

/-- A request that succeeds has been answered with consent throughout. -/
theorem regionRequest_consents (useMmio : Bool) :
    (piix4Sb800RegionRequest useMmio).Ends (Transcript.exec h)
      (fun r z => r = 0 → ∃ tail, z.past = y.past ++ tail ∧ ∀ e ∈ tail, e.refuses = false) y := by
  cases useMmio with
  | true =>
    refine .op rfl ?_
    cases hgot : y.answer h .requestMemRegionMuxed with
    | false => exact .ret fun hr => absurd hr (by decide)
    | true =>
      refine .op rfl ?_
      cases hmapped : (y.next h .requestMemRegionMuxed).answer h .ioremap with
      | false => exact .op rfl (.ret fun hr => absurd hr (by decide))
      | true =>
        refine .ret fun _ => ⟨[⟨.requestMemRegionMuxed, true⟩, ⟨.ioremap, true⟩], ?_, fun e he => ?_⟩
        · change (y.past ++ [⟨.requestMemRegionMuxed, y.answer h .requestMemRegionMuxed⟩]) ++
            [⟨.ioremap, (y.next h .requestMemRegionMuxed).answer h .ioremap⟩] = _
          rw [hgot, hmapped, List.append_assoc]
          rfl
        · simp only [List.mem_cons, List.not_mem_nil, or_false] at he
          rcases he with rfl | rfl <;> rfl
  | false =>
    refine .op rfl ?_
    cases hgot : y.answer h (.requestMuxedRegion 0xcd6 2) with
    | false => exact .ret fun hr => absurd hr (by decide)
    | true =>
      refine .ret fun _ => ⟨[⟨.requestMuxedRegion 0xcd6 2, true⟩], ?_, fun e he => ?_⟩
      · simp [Transcript.next, hgot]
      · obtain rfl := List.mem_singleton.mp he
        rfl

/-- Nothing is refused that has not been asked for. -/
theorem Exchange.refuses_of_unasking {e : Exchange} (he : Op.Unasking e.1) : e.refuses = false := by
  obtain ⟨o, r⟩ := e
  cases o <;> first | rfl | exact he.elim

/-- Withdrawn operations reach no register. -/
theorem Exchange.reaches_of_withdrawn {e : Exchange} (he : Op.Withdrawn e.1) : e.reaches = false := by
  obtain ⟨o, r⟩ := e
  cases o <;> first | rfl | exact he.elim

/-- What a transfer does once it has the region. -/
theorem afterRequest_unasking (x : SmbusXfer) : (do
    let (result, data, n) ← accessAsfLocked x
    piix4Sb800RegionRelease (← piix4Asf).useMmio
    mark .transferEnd
    unlock .asf
    piix4AsfDeliver n
    pure (result, data) : Driver (Int × SmbusData)).AllOps Op.Unasking := by
  refine (accessAsfLocked_allOps (fun _ ho => ho.unasking) (fun _ _ => trivial) trivial x).bind fun r => ?_
  refine Prog.AllOps.bind ⟨trivial, fun _ => trivial⟩ fun a => ?_
  refine (regionRelease_allOps trivial (fun _ _ => trivial) _).bind fun _ => ?_
  refine Prog.AllOps.bind ⟨trivial, fun _ => trivial⟩ fun _ => ?_
  refine Prog.AllOps.bind ⟨trivial, fun _ => trivial⟩ fun _ => ?_
  exact (deliver_allOps trivial trivial trivial trivial (fun _ => trivial) trivial _).bind fun _ => trivial

/-- A transfer whose request for the region is turned down reaches no register and changes no flag,
whatever the system answers. -/
theorem refused_untouched (x : SmbusXfer) (h : Answers) (hactive : a.active = true) :
    (piix4AccessAsf x).Ends (Transcript.exec h) (fun _ z => (∃ e ∈ z.past, e.refuses = true) →
      z.asf = a ∧ ∀ e ∈ z.past, e.reaches = false) ⟨a, []⟩ := by
  have hread : ∀ y, piix4Asf.Ends (Transcript.exec h) (fun r z => y.asf = r ∧ y.next h .asf = z) y :=
    fun _ => .op rfl (.ret ⟨rfl, rfl⟩)
  have hlock : (lock .asf).Ends (Transcript.exec h)
      (fun _ z => Transcript.next h (.lock .asf) ⟨a, []⟩ = z) ⟨a, []⟩ := .op rfl (.ret rfl)
  unfold piix4AccessAsf
  refine .bind hlock ?_
  rintro _ _ rfl
  refine .bind (hread _) ?_
  rintro _ _ ⟨rfl, rfl⟩
  rw [if_neg (by simp [Transcript.next, Op.store, hactive])]
  refine .bind (hread _) ?_
  rintro _ _ ⟨rfl, rfl⟩
  have hrequest : ∀ useMmio, (piix4Sb800RegionRequest useMmio).AllOps Op.Withdrawn :=
    regionRequest_allOps trivial trivial trivial fun _ _ => trivial
  have hopening : ∀ e ∈ ([⟨.lock .asf, ()⟩, ⟨.asf, a⟩, ⟨.asf, a⟩] : List Exchange),
      e.reaches = false ∧ e.refuses = false := by
    intro e he
    simp only [List.mem_cons, List.not_mem_nil, or_false] at he
    rcases he with rfl | rfl | rfl <;> exact ⟨rfl, rfl⟩
  refine .bind (.and (withdrawn_ends (hrequest _)) (.and (allOps_ends (hrequest _)) (regionRequest_consents _))) ?_
  rintro retval z ⟨hasf, ⟨tail, hpast, htail⟩, hconsent⟩
  split
  · -- the mutex is given up, and that is all
    have hunlock : (unlock .asf).AllOps Op.Withdrawn := ⟨trivial, fun _ => trivial⟩
    refine .bind (.and (withdrawn_ends hunlock) (allOps_ends hunlock)) ?_
    rintro _ w ⟨hasf', tail', hpast', htail'⟩
    refine .ret fun _ => ⟨hasf'.trans hasf, fun e he => ?_⟩
    rw [hpast', hpast, List.append_assoc] at he
    rcases List.mem_append.mp he with he | he
    · exact (hopening e he).1
    · exact Exchange.reaches_of_withdrawn ((List.mem_append.mp he).elim (htail e) (htail' e))
  · next hgranted =>
    obtain ⟨tail₁, hpast₁, hconsents⟩ := hconsent (not_not.mp hgranted)
    refine (allOps_ends (afterRequest_unasking x)).mono ?_
    rintro r w ⟨tail', hpast', htail'⟩ ⟨e, he, hrefuses⟩
    rw [hpast', hpast₁, List.append_assoc] at he
    have hgrants : e.refuses = false := by
      rcases List.mem_append.mp he with he | he
      · exact (hopening e he).2
      · exact (List.mem_append.mp he).elim (hconsents e) fun he => Exchange.refuses_of_unasking (htail' e he)
    exact Bool.noConfusion (hrefuses.symm.trans hgrants)

/-! ## The intent survives -/

/-- A busy FCH PM region never disables Host Notify for good while each execution of the hard
handler is a step of its own: started and awake, the device is wanted, whatever requests have
failed; the end of a critical section of a transfer finds the slave armed, and a transfer that is
left alone gets there; one whose request is turned down changes nothing; and while the device
sleeps, nothing arms the slave. -/
theorem notify_recovered (h : p.Reachable (machine k b) (Unbound k)) :
    (p.shared.life.serving = true → p.shared.asf.active = true → p.shared.life.asleep = false →
      (∀ i c o, p.next i = some (.core c, o) → c ≠ .suspend ∧ c ≠ .resume) →
      p.shared.asf.wantListen = true ∧
      (∀ i x, p.next i = some (.transfer x, .mark .transferEnd) →
        p.shared.asf.listening = true ∧ p.shared.hw.Armed) ∧
      ∀ x s', k.stuckExit = true → p.shared.Uncontended →
        enter k b (.transfer x) p.threads.length p.shared = some s' →
        ∃ n q, Pool.run (machine k b) (.call (.transfer x) :: advance p.threads.length n) p = some q ∧
          q.returned p.threads.length = some (.transfer x) ∧ q.shared.asf.listening = true ∧
          q.shared.hw.Armed) ∧
    (∀ x (a : Piix4Asf) (answers : Answers), a.active = true →
      (piix4AccessAsf x).Ends (Transcript.exec answers) (fun _ z => (∃ e ∈ z.past, e.refuses = true) →
        z.asf = a ∧ ∀ e ∈ z.past, e.reaches = false) ⟨a, []⟩) ∧
    (p.shared.life.asleep = true → ∀ i call, ((∃ x, call = .transfer x) ∨ call = .irqThread) →
      p.next i ≠ some (call, .mark .armBegin)) := by
  refine ⟨fun hserving hactive hawake hsteady => ?_, fun x a answers hactive => refused_untouched x answers hactive,
    fun hasleep i call hcall hnext => ?_⟩
  · have hwant := wanted_kept h hserving hactive hawake hsteady
    exact ⟨hwant, fun i x hnext => transfer_leaves_armed h hnext hwant,
      fun x s' hk hfree hentered => transfer_recovers h hk hactive hwant hfree hentered⟩
  · exact Bool.noConfusion (hasleep.symm.trans (arming_awake h hcall hnext))

/-- After a wedge that the busy region left unresolved, the region can be had again. -/
def recovering : List (Action Call Event) :=
  wedgedWhileBusy ++ advance 3 21 ++ [.event (.world St.loaded.world)]

/-- After a wedge with the region busy a transfer gets the slave listening again. -/
theorem notify_recovered_recovering : ∃ p, outcome Setting.all recovering = some p ∧
    p.shared.asf.listening = false ∧ p.shared.asf.wantListen = true ∧
    ∃ n q, Pool.run (machine Setting.all Board.described)
        (.call (.transfer readByte2c) :: advance p.threads.length n) p = some q ∧
      q.returned p.threads.length = some (.transfer readByte2c) ∧
      q.shared.asf.listening = true ∧ q.shared.hw.Armed := by
  obtain ⟨p, hp, hstate⟩ := exists_outcome Setting.all recovering
    (fun p => p.shared.life.serving && p.shared.asf.active && !p.shared.life.asleep &&
      !p.shared.asf.listening && (List.range p.threads.length).all (fun i => (p.next i).isNone) &&
      p.shared.mutex.isNone && p.shared.notifyMutex.isNone && p.shared.region.isNone &&
      !p.shared.world.regionBusy && !p.shared.world.ioremapFails &&
      (enter Setting.all Board.described (.transfer readByte2c) p.threads.length p.shared).isSome)
    (by decide +kernel)
  simp only [Bool.and_eq_true, Bool.not_eq_true', List.all_eq_true, List.mem_range,
    Option.isNone_iff_eq_none] at hstate
  obtain ⟨⟨⟨⟨⟨⟨⟨⟨⟨⟨hserving, hactive⟩, hawake⟩, hdeaf⟩, hidle⟩, hmutex⟩, hnotify⟩, hregion⟩, hgranted⟩, hmapped⟩,
    hentered⟩ := hstate
  obtain ⟨s', hs'⟩ := Option.isSome_iff_exists.mp hentered
  have hsteady : ∀ i c o, p.next i = some (.core c, o) → c ≠ .suspend ∧ c ≠ .resume := by
    intro i c o hnext
    obtain ⟨q, hq⟩ := Pool.next_some hnext
    cases hnext.symm.trans (hidle i (List.getElem?_eq_some_iff.mp hq).1)
  obtain ⟨hwant, -, hrecovers⟩ :=
    (notify_recovered (outcome_reachable hp)).1 hserving hactive hawake hsteady
  exact ⟨p, hp, hdeaf, hwant,
    hrecovers readByte2c s' rfl ⟨hmutex, hnotify, hregion, hgranted, hmapped⟩ hs'⟩

/-- The wedge has left the slave to a handler that has found nobody listening and read ASFSLVEN; a
transfer arms the slave; and the handler writes back what it has read. -/
def overtaken : List (Action Party Event) :=
  Interrupted.calls (bringUp ++ [arrival, .event (.stick false)]) ++
    .call .hardIrq :: Interrupted.advance 3 6 ++
    Interrupted.calls ([regionTaken, .call .irqThread] ++ advance 4 124 ++
      .event (.receive true [0x10, 0x58, 0x00, 0x00] 3) :: advance 4 29) ++
    .call .hardIrq :: Interrupted.advance 5 5 ++
    Interrupted.calls ([.event (.world St.loaded.world), .call (.transfer readByte2c)] ++ advance 6 55) ++
    Interrupted.advance 5 1

/-- Thread `i` is a transfer at the end of its critical section. -/
def endsTransfer (p : Pool Interrupted Move Move.Ans Party) (i : ℕ) : Bool :=
  match p.next i with
  | some (.call (.transfer _), .inl (.mark .transferEnd)) => true
  | _ => false

/-- What the test finds is a transfer at its end. -/
theorem endsTransfer_some {p : Pool Interrupted Move Move.Ans Party} (h : endsTransfer p i = true) :
    ∃ x, p.next i = some (.call (.transfer x), .inl (.mark .transferEnd)) := by
  unfold endsTransfer at h
  split at h
  · next x hnext => exact ⟨x, hnext⟩
  · cases h

/-- Where the handler is a thread like others, a transfer can end with the slave disarmed. -/
theorem arming_overtaken : ∃ p : Pool Interrupted Move Move.Ans Party,
    p.Reachable (interruptible Setting.all Board.described) (Interrupted.Unbound Setting.all) ∧
    p.shared.st.life.serving = true ∧ p.shared.st.asf.active = true ∧ p.shared.st.life.asleep = false ∧
    p.shared.st.life.owner = none ∧
    ∃ x, p.next 6 = some (.call (.transfer x), .inl (.mark .transferEnd)) ∧
      p.shared.st.asf.listening = true ∧ ¬ p.shared.st.hw.Armed := by
  have hrun : (Interrupted.outcome Setting.all overtaken).any (fun p =>
      endsTransfer p 6 && p.shared.st.life.serving && p.shared.st.asf.active && !p.shared.st.life.asleep &&
        p.shared.st.life.owner.isNone && p.shared.st.asf.listening && !p.shared.st.hw.slven[1]) = true := by
    decide +kernel
  obtain ⟨p, hp, hstate⟩ := (Option.any_eq_true _ _).mp hrun
  simp only [Bool.and_eq_true, Bool.not_eq_true', Option.isNone_iff_eq_none] at hstate
  obtain ⟨⟨⟨⟨⟨⟨hends, hserving⟩, hactive⟩, hawake⟩, howner⟩, hlisten⟩, hmasked⟩ := hstate
  obtain ⟨x, hnext⟩ := endsTransfer_some hends
  refine ⟨p, Interrupted.outcome_reachable hp, hserving, hactive, hawake, howner, x, hnext, hlisten, ?_⟩
  intro harmed
  exact Bool.noConfusion (harmed.interrupts.symm.trans hmasked)

end HostNotify
