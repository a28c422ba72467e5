import HostNotify.Events

/-!
# Steps of the calls

The safety argument shared by all statements: the invariant, what each thread relies on,
and the checks made at single operations. `OwnStep` describes the steps that keep the
invariant for a simple reason, and is what nearly every operation of the driver is shown
to be.
-/

namespace HostNotify

open Bits Interleaving

variable {k : Setting} {b : Board} {s s' : St} {t u : ℕ}

/-! ## Views across foreign steps -/

/-- A state has its own block. -/
theorem SameBlock.refl (s : St) : SameBlock s s :=
  ⟨rfl, fun h => ⟨h, rfl, rfl⟩, rfl, rfl, rfl, rfl, rfl, rfl, rfl, rfl, rfl, rfl⟩

/-- A step that leaves the block alone falsifies nobody's view. -/
theorem View.of_sameBlock {o : Option ℕ} {c : Control} (h : View k o c s) (hb : SameBlock s s')
    (hmutex : s'.mutex = s.mutex) (hregion : c.held = true → s'.region = s.region) :
    View k o c s' where
  holder := hmutex.trans h.holder
  engaged := hb.engaged.trans h.engaged
  listening := hb.listening.trans h.listening
  want := hb.want.trans h.want
  held hc := (hregion hc).trans (h.held hc)
  fresh hc hk := (hb.mode (h.fresh hc hk)).1
  sees hk := (h.sees hk).of_sameBlock hb

/-- A step of another thread falsifies nothing the holder of the mutex knows. -/
theorem View.foreign {c : Control} (h : View k (some u) c s) (hf : Foreign k u s s') :
    View k (some u) c s' :=
  h.of_sameBlock (hf.block h.holder h.engaged) ((hf.holder h.holder).trans h.holder.symm)
    fun hc => (hf.region (h.held hc)).1.trans (h.held hc).symm

/-- What thread `t` knows of the driver's state apart from the block is still true. -/
structure Stays (t : ℕ) (s s' : St) : Prop where
  owner : s.life.owner = some t → s'.life.owner = some t ∧ s'.coreView = s.coreView
  thread : s.irq.running = some t → s'.irq.running = some t ∧ s'.irq.served = s.irq.served
  quiet : s.irq.running = some t → s.asf.pending = false → s'.asf.pending = false
  aux : t ∈ s.life.aux → t ∈ s'.life.aux
  plain : t ∈ s.life.aux → s.asf.active = false → s'.asf.active = false

/-- On top of that, it still owes the same messages. -/
structure Keeps (t : ℕ) (s s' : St) : Prop extends Stays t s s' where
  owed : s'.ghost.owed t = s.ghost.owed t

/-- An assertion about what only thread `t` changes. -/
def Private (t : ℕ) (Q : St → Prop) : Prop := ∀ s s', Keeps t s s' → Q s → Q s'

/-- Such an assertion that says nothing about owed messages. -/
def Debtless (t : ℕ) (Q : St → Prop) : Prop := ∀ s s', Stays t s s' → Q s → Q s'

/-- An assertion that says nothing about owed messages is the thread's own. -/
theorem Debtless.private {Q : St → Prop} (h : Debtless t Q) : Private t Q :=
  fun s s' hk => h s s' hk.toStays

/-- The step of another thread keeps what this one knows. -/
theorem Foreign.keeps (h : Foreign k u s s') : Keeps u s s' where
  owner := h.owner
  thread := h.thread
  quiet := h.quiet
  aux := h.aux
  plain := h.plain
  owed := h.owed

/-- An event keeps what every thread knows. -/
theorem EventFrame.keeps (h : EventFrame s s') (u : ℕ) : Keeps u s s' where
  owed := by rw [h.owed]
  owner ho := ⟨h.life ▸ ho, h.coreView⟩
  thread hr := by
    rw [h.irq]
    exact ⟨hr, rfl⟩
  quiet hr hp := by
    rw [(h.masked (by simp [IrqLine.masked, hr])).2]
    exact hp
  aux ha := h.life ▸ ha
  plain _ hp := by
    rw [h.asf]
    exact hp

/-- Whatever happens around a thread keeps what it knows. -/
theorem Rely.keeps (h : Rely k b u s s') (hinv : Inv k b s) : Keeps u s s' := by
  rcases h with ⟨e, he⟩ | hf
  · exact (react_frame he hinv.smba).keeps u
  · exact hf.keeps

/-- Two private facts are one. -/
theorem Private.and {Q R : St → Prop} (hQ : Private t Q) (hR : Private t R) :
    Private t fun s => Q s ∧ R s :=
  fun s s' hk h => ⟨hQ s s' hk h.1, hR s s' hk h.2⟩

/-! ## The safety argument -/

/-- The calls whose resets must not discard messages. -/
def Call.service : Call → Bool
  | .transfer _ | .mainTransfer _ _ | .irqThread | .core .start | .core .resume => true
  | _ => false

/-- The reset check applies to the call. -/
def Setting.Guards (k : Setting) (call : Call) : Prop :=
  k.Reliable ∧ k.Resets ∧ call.service = true

/-- The checks at single operations. -/
structure Check (k : Setting) (b : Board) (call : Call) (o : Op) (s : St) : Prop where
  /-- The slave is not armed while a bank is known to be stuck. -/
  arm : k.Rearms → o = .mark .armBegin → s.ghost.debt = false
  /-- A slave reset discards no message. -/
  reset : k.Guards call → ∀ v port, o = .outb v port → decode b.auxSmba port = some .slven →
    getElem v 4 (fits rfl) = true → ∀ i, ((s.hw.bank i).full && (s.hw.bank i).unread) = false
  /-- Clearing a full flag consumes a message that was read out whole, or flushes both banks
  on a reception error. -/
  consume : k.firmware = false → k.late = false → ∀ v port, o = .outb v port →
    decode b.auxSmba port = some .bnksel →
    (∀ i, v.getLsbD (Target.flagBit i) = true → (s.hw.bank i).full = true →
      (s.hw.bank i).seen = true ∧ (s.hw.bank i).late = false) ∨
    (v &&& asfBnkFull = asfBnkFull ∧ s.hw.slvsta &&& asfErrorStatus ≠ 0)

/-- Operations other than port writes and the arming mark need no check. -/
theorem Check.of_other {call : Call} {o : Op} (hmark : o ≠ .mark .armBegin)
    (hout : ∀ v port, o ≠ .outb v port) : Check k b call o s where
  arm _ h := absurd h hmark
  reset _ v port h := absurd h (hout v port)
  consume _ _ v port h := absurd h (hout v port)

/-- Port writes to other registers need no check. -/
theorem Check.of_port {call : Call} {v : Byte} {port : ℕ}
    (hslven : decode b.auxSmba port ≠ some .slven) (hbnksel : decode b.auxSmba port ≠ some .bnksel) :
    Check k b call (.outb v port) s where
  arm _ h := by cases h
  reset _ v' port' h hd := by
    cases h
    exact absurd hd hslven
  consume _ _ v' port' h hd := by
    cases h
    exact absurd hd hbnksel

/-! ## Steps that keep the invariant -/

/-- A step of thread `t` that changes the block only under the mutex, and of the rest only
what no invariant depends on. -/
structure OwnStep (k : Setting) (t : ℕ) (s s' : St) : Prop where
  life : s'.life = s.life
  irq : s'.irq = s.irq
  asf : s'.asf = { s.asf with listening := s'.asf.listening, pending := s'.asf.pending }
  world : s'.world = s.world
  deliverOk : s'.deliverOk = s.deliverOk
  auxAdapter : s'.auxAdapter = s.auxAdapter
  owed : ∀ u, u ≠ t → s'.ghost.owed u = s.ghost.owed u
  region : ∀ u, u ≠ t → s.region = some u →
    s'.region = some u ∧ s'.hw.decodeEn = s.hw.decodeEn ∧ s'.ghost.touched = s.ghost.touched
  mutex : s'.mutex = s.mutex
  block : s.mutex = some t ∨ s.engaged = false ∨ SameBlock s s'
  listening : s'.asf.listening = true → s.asf.wantListen = true ∨ s.asf.listening = true
  pending : s.asf.pending = false → s'.asf.pending = false
  sound : Sound s → Sound s'
  intact : k.Tidy → Intact s → Intact s'

namespace OwnStep

/-- An own step leaves the claim as it is. -/
theorem active (h : OwnStep k t s s') : s'.asf.active = s.asf.active := by rw [h.asf]

/-- An own step leaves what is wanted as it is. -/
theorem want (h : OwnStep k t s s') : s'.asf.wantListen = s.asf.wantListen := by rw [h.asf]

/-- An own step leaves what the driver core sees as it is. -/
theorem coreView (h : OwnStep k t s s') : s'.coreView = s.coreView := by
  unfold St.coreView
  rw [h.asf, h.life, h.irq, h.deliverOk, h.auxAdapter]

/-- To another thread it is a foreign step. -/
theorem foreign (h : OwnStep k t s s') (hu : u ≠ t) : Foreign k u s s' where
  holder hm := h.mutex.trans hm
  block hm heng := by
    rcases h.block with ht | hno | hb
    · exact absurd (Option.some.inj (hm.symm.trans ht)) hu
    · exact absurd (heng.symm.trans hno) (by decide)
    · exact hb
  region := h.region u hu
  owed := h.owed u hu
  owner ho := ⟨h.life ▸ ho, h.coreView⟩
  thread hr := by
    rw [h.irq]
    exact ⟨hr, rfl⟩
  quiet _ hp := h.pending hp
  aux ha := h.life ▸ ha
  plain _ hp := h.active.trans hp
  unlocked hm := h.mutex.symm ▸ hm
  delivering _ hd := ⟨h.deliverOk.trans hd.1, h.auxAdapter.trans hd.2⟩

/-- An own step leaves the thread where it is. -/
theorem stays (h : OwnStep k t s s') : Stays t s s' where
  owner ho := ⟨h.life ▸ ho, h.coreView⟩
  thread hr := by
    rw [h.irq]
    exact ⟨hr, rfl⟩
  quiet _ hp := h.pending hp
  aux ha := h.life ▸ ha
  plain _ hp := h.active.trans hp

/-- An own step that leaves the owed messages alone keeps what the thread knows. -/
theorem keeps (h : OwnStep k t s s') (howed : s'.ghost.owed t = s.ghost.owed t) :
    Keeps t s s' := ⟨h.stays, howed⟩

/-- An own step keeps the invariant. -/
theorem inv (h : OwnStep k t s s') (hinv : Inv k b s) : Inv k b s' where
  idle hfree hact := by
    rcases h.block with ht | hno | hb
    · rw [h.mutex, ht] at hfree
      cases hfree
    · have hact' : s.asf.active = true := h.active ▸ hact
      simp [St.engaged, hact'] at hno
    · obtain ⟨c, hsettled, hview⟩ := hinv.idle (h.mutex ▸ hfree) (h.active ▸ hact)
      exact ⟨c, hsettled, hview.of_sameBlock hb h.mutex fun hc => by
        simp [hsettled.released] at hc⟩
  core := h.coreView ▸ hinv.core
  masked hm := by
    rw [h.irq] at hm ⊢
    exact hinv.masked hm
  deaf hd := by
    rw [h.active, h.life] at hd
    cases hl : s'.asf.listening with
    | false => rfl
    | true =>
      -- nothing starts listening where nobody wants to
      have hwant : s.asf.wantListen = false := by
        rcases hd with ha | he
        · exact (hinv.inactive ha).1
        · exact (hinv.enabling he).1
      rcases h.listening hl with hw | hold
      · exact absurd (hw.symm.trans hwant) (by decide)
      · exact absurd (hold.symm.trans (hinv.deaf hd)) (by decide)
  alone hen := by
    rw [h.life] at hen ⊢
    rw [h.irq]
    exact hinv.alone hen
  unregistered hen := by
    rw [h.life] at hen ⊢
    exact hinv.unregistered hen
  plain hreg halgo := by
    rw [h.life] at hreg halgo
    exact h.active.trans (hinv.plain hreg halgo)
  owned hen := by
    rw [h.life] at hen ⊢
    exact hinv.owned hen
  locked u hu := by
    rw [h.life, h.irq]
    exact hinv.locked u (h.mutex ▸ hu)
  world hk := by
    rw [h.world]
    exact hinv.world hk
  sound hk := h.sound (hinv.sound hk)
  intact ht := h.intact ht (hinv.intact ht)

end OwnStep

/-! ## Entering a call -/

/-- A callback only begins when no other is in progress. -/
theorem mayBegin_owner {c : CoreCall} (h : s.mayBegin k c = true) : s.life.owner = none := by
  simp only [St.mayBegin, Bool.and_eq_true, Option.isNone_iff_eq_none] at h
  exact h.1

/-- What a thread's entry shows to the others. -/
theorem enter_foreign {c : Call} (he : enter k b c t s = some s') (hu : u ≠ t) :
    Foreign k u s s' := by
  have howed : ∀ s : St, (s.fresh t).ghost.owed u = s.ghost.owed u := fun s => by
    simp [St.fresh, hu]
  have hjoin : Foreign k u s { s.fresh t with life := { s.life with aux := t :: s.life.aux } } := {
    holder := id
    block := fun _ _ => ⟨rfl, fun h => ⟨h, rfl, rfl⟩, rfl, rfl, rfl, rfl, rfl, rfl, rfl, rfl, rfl,
      rfl⟩
    region := fun h => ⟨h, rfl, rfl⟩
    owed := howed s
    owner := fun h => ⟨h, rfl⟩
    thread := fun h => ⟨h, rfl⟩
    quiet := fun _ h => h
    aux := fun h => List.mem_cons_of_mem _ h
    plain := fun _ h => h
    unlocked := id
    delivering := fun _ h => h }
  cases c with
  | transfer x =>
    simp only [enter, Option.ite_none_right_eq_some, Option.some.injEq] at he
    obtain ⟨_, rfl⟩ := he
    exact hjoin
  | plainTransfer x =>
    simp only [enter, Option.ite_none_right_eq_some, Option.some.injEq] at he
    obtain ⟨_, rfl⟩ := he
    exact hjoin
  | mainTransfer a x =>
    simp only [enter, Option.ite_none_right_eq_some, Option.some.injEq] at he
    obtain ⟨_, rfl⟩ := he
    exact {
      holder := id
      block := fun _ _ => SameBlock.refl s
      region := fun h => ⟨h, rfl, rfl⟩
      owed := rfl
      owner := fun h => ⟨h, rfl⟩
      thread := fun h => ⟨h, rfl⟩
      quiet := fun _ h => h
      aux := id
      plain := fun _ h => h
      unlocked := id
      delivering := fun _ h => h }
  | irqThread =>
    simp only [enter, Option.ite_none_right_eq_some, Option.some.injEq, Bool.and_eq_true,
      Option.isNone_iff_eq_none] at he
    obtain ⟨⟨hwoken, hrun⟩, rfl⟩ := he
    exact {
      holder := id
      block := fun _ _ => ⟨rfl, fun h => ⟨h, rfl, rfl⟩, rfl, rfl, rfl, rfl, by simp [IrqLine.due, hwoken], rfl,
        rfl, rfl, rfl, rfl⟩
      region := fun h => ⟨h, rfl, rfl⟩
      owed := howed s
      owner := fun h => ⟨h, rfl⟩
      thread := fun h => by simp [hrun] at h
      quiet := fun _ h => h
      aux := id
      plain := fun _ h => h
      unlocked := id
      delivering := fun _ h => h }
  | core c =>
    simp only [enter, Option.ite_none_right_eq_some, Option.some.injEq] at he
    obtain ⟨hmay, rfl⟩ := he
    have howner := mayBegin_owner hmay
    exact {
      holder := id
      block := fun _ heng => by
        have hsame : (s.life.begin t c).enabling = true ∨
            (s.life.begin t c).enabling = s.life.enabling := by
          cases c <;> simp [Life.begin]
        refine ⟨rfl, fun h => ⟨h, rfl, rfl⟩, rfl, rfl, rfl, ?_, rfl, rfl, rfl, rfl, rfl, rfl⟩
        unfold St.engaged at heng ⊢
        rcases hsame with hon | hsame
        · simp [St.begin, hon, heng]
        · simp [St.begin, hsame]
      region := fun h => ⟨h, rfl, rfl⟩
      owed := rfl
      owner := fun h => by simp [howner] at h
      thread := fun h => ⟨h, rfl⟩
      quiet := fun _ h => h
      aux := fun h => by cases c <;> exact h
      plain := fun _ h => h
      unlocked := id
      delivering := fun _ h => h }

/-- An entered call that leaves the driver's own state alone keeps the invariant. -/
theorem Inv.of_entry (h : Inv k b s) (hb : SameBlock s s') (hmutex : s'.mutex = s.mutex)
    (hasf : s'.asf = s.asf) (hhw : s'.hw = s.hw) (hworld : s'.world = s.world)
    (hrequested : s'.irq.requested = s.irq.requested)
    (hmasked : s'.irq.masked = true → s.irq.masked = true)
    (hrunning : ∀ u, s.irq.running = some u → s'.irq.running = some u)
    (hdeliver : s'.deliverOk = s.deliverOk) (hadapter : s'.auxAdapter = s.auxAdapter)
    (hlife : s'.life = { s.life with aux := s'.life.aux })
    (haux : ∀ u, u ∈ s.life.aux → u ∈ s'.life.aux)
    (halone : s.life.enabling = true → s'.life.aux = []) : Inv k b s' where
  idle hfree hact := by
    obtain ⟨c, hsettled, hview⟩ := h.idle (hmutex ▸ hfree) (by rw [← hasf]; exact hact)
    exact ⟨c, hsettled, hview.of_sameBlock hb hmutex fun hc => by simp [hsettled.released] at hc⟩
  core := by
    have hcore : s'.coreView = s.coreView := by
      unfold St.coreView
      rw [hasf, hlife, hrequested, hdeliver, hadapter]
    exact hcore ▸ h.core
  masked hm := by
    rw [hrequested]
    exact h.masked (hmasked hm)
  deaf hd := by
    rw [hasf, hlife] at hd
    rw [hasf]
    exact h.deaf hd
  alone hen := by
    rw [hlife] at hen
    refine ⟨halone hen, ?_⟩
    cases hm : s'.irq.masked with
    | false => rfl
    | true => exact absurd ((hmasked hm).symm.trans (h.alone hen).2) (by decide)
  unregistered hen := by
    rw [hlife] at hen ⊢
    exact h.unregistered hen
  plain hreg halgo := by
    rw [hlife] at hreg halgo
    rw [hasf]
    exact h.plain hreg halgo
  owned hen := by
    rw [hlife] at hen ⊢
    exact h.owned hen
  locked u hu := by
    rcases h.locked u (hmutex ▸ hu) with ha | hr | ho
    · exact Or.inl (haux u ha)
    · exact Or.inr (Or.inl (hrunning u hr))
    · rw [hlife]
      exact Or.inr (Or.inr ho)
  world hk := by
    rw [hworld]
    exact h.world hk
  sound hk := by
    obtain ⟨herror, hstuck⟩ := h.sound hk
    exact ⟨by rw [hhw]; exact herror, by rw [hhw]; exact hstuck⟩
  intact ht := by
    obtain ⟨hlost, horphan, hreset, hinactive⟩ := h.intact ht
    refine ⟨?_, ?_, ?_, ?_⟩
    · rw [hhw]; exact hlost
    · rw [hhw, hb.drain]; exact horphan
    · rw [hhw]; exact hreset
    · rw [hhw, hasf]; exact hinactive

/-- A probe begins with the block unclaimed. -/
theorem Inv.unclaimed (h : Inv k b s) (hmay : s.mayBegin k .enable = true) :
    s.asf.active = false := by
  simp only [St.mayBegin, Bool.and_eq_true, Bool.not_eq_true', Option.isNone_iff_eq_none] at hmay
  refine h.unbound hmay.2.1.1.1 ?_
  cases hen : s.life.enabling with
  | false => rfl
  | true => exact absurd hmay.1 (h.owned hen)

/-- Beginning a device callback keeps the invariant. -/
theorem Inv.begin {c : CoreCall} (h : Inv k b s) (hmay : s.mayBegin k c = true) :
    Inv k b (s.begin t c) where
  idle hfree hact := by
    obtain ⟨d, hsettled, hview⟩ := h.idle hfree hact
    refine ⟨d, hsettled, ?_⟩
    exact {
      holder := hview.holder
      engaged := by
        have hact' : (s.begin t c).asf.active = true := hact
        simp [St.engaged, hact']
      listening := hview.listening
      want := hview.want
      held := hview.held
      fresh := hview.fresh
      sees := fun hk => (hview.sees hk).of_sameBlock
        ⟨rfl, fun h => ⟨h, rfl, rfl⟩, rfl, rfl, rfl, by
          have hact' : s.asf.active = true := hact
          simp [St.engaged, St.begin, hact'], rfl, rfl, rfl, rfl, rfl, rfl⟩ }
  core := by
    have hcore := h.core
    have hdeliver := hcore.delivering
    cases c with
    | enable =>
      have hwant := hcore.inactive (h.unclaimed hmay)
      exact ⟨hcore.claimed, hcore.requested, fun _ => Or.inr rfl, hcore.inactive, fun _ => hwant,
        nofun, hcore.asleep, hcore.fresh, hdeliver⟩
    | start =>
      exact ⟨hcore.claimed, hcore.requested, hcore.freed, hcore.inactive, hcore.enabling,
        hcore.unbound, hcore.asleep, nofun, hdeliver⟩
    | resume =>
      exact ⟨hcore.claimed, hcore.requested, hcore.freed, hcore.inactive, hcore.enabling,
        hcore.unbound, nofun, hcore.fresh, hdeliver⟩
    | _ =>
      exact ⟨hcore.claimed, hcore.requested, hcore.freed, hcore.inactive, hcore.enabling,
        hcore.unbound, hcore.asleep, hcore.fresh, hdeliver⟩
  masked := h.masked
  deaf hd := by
    cases c with
    | enable => exact (h.inactive (h.unclaimed hmay)).2
    | _ => exact h.deaf hd
  alone hen := by
    cases c with
    | enable =>
      have hinactive := h.unclaimed hmay
      simp only [St.mayBegin, Bool.and_eq_true, List.isEmpty_iff] at hmay
      refine ⟨hmay.2.1.2, ?_⟩
      cases hm : s.irq.masked with
      | false => exact hm
      | true => exact absurd ((h.requested (h.masked hm)).symm.trans hinactive) (by decide)
    | _ => exact h.alone hen
  unregistered hen := by
    cases c with
    | enable =>
      simp only [St.mayBegin, Bool.and_eq_true, Bool.not_eq_true'] at hmay
      exact hmay.2.2
    | _ => exact h.unregistered hen
  plain hreg halgo := by cases c <;> exact h.plain hreg halgo
  owned hen := by
    cases c <;> simp [St.begin, Life.begin]
  locked u hu := by
    rcases h.locked u hu with ha | hr | ho
    · exact Or.inl (by cases c <;> exact ha)
    · exact Or.inr (Or.inl hr)
    · simp [mayBegin_owner hmay] at ho
  world := h.world
  sound hk := by
    obtain ⟨herror, hstuck⟩ := h.sound hk
    exact ⟨herror, hstuck⟩
  intact ht := by
    obtain ⟨hlost, horphan, hreset, hinactive⟩ := h.intact ht
    exact ⟨hlost, horphan, hreset, hinactive⟩

/-- A transfer joins those on a registered adapter. -/
theorem Inv.join (h : Inv k b s) (hreg : s.life.registered = true) :
    Inv k b { s.fresh t with life := { s.life with aux := t :: s.life.aux } } := by
  refine h.of_entry ⟨rfl, fun h => ⟨h, rfl, rfl⟩, rfl, rfl, rfl, rfl, rfl, rfl, rfl, rfl, rfl, rfl⟩ rfl rfl rfl
    rfl rfl id (fun _ => id) rfl rfl rfl (fun _ => List.mem_cons_of_mem _) fun hen => ?_
  exact absurd (hreg.symm.trans (h.unregistered hen)) (by decide)

/-- Entering a call keeps the invariant. -/
theorem Inv.enter {c : Call} (h : Inv k b s) (he : enter k b c t s = some s') : Inv k b s' := by
  cases c with
  | transfer x =>
    simp only [HostNotify.enter, Option.ite_none_right_eq_some, Option.some.injEq] at he
    obtain ⟨⟨_, hreg, _⟩, rfl⟩ := he
    exact h.join hreg
  | plainTransfer x =>
    simp only [HostNotify.enter, Option.ite_none_right_eq_some, Option.some.injEq] at he
    obtain ⟨⟨_, hreg, _⟩, rfl⟩ := he
    exact h.join hreg
  | mainTransfer a x =>
    simp only [HostNotify.enter, Option.ite_none_right_eq_some, Option.some.injEq] at he
    obtain ⟨_, rfl⟩ := he
    exact h
  | irqThread =>
    simp only [HostNotify.enter, Option.ite_none_right_eq_some, Option.some.injEq,
      Bool.and_eq_true, Option.isNone_iff_eq_none] at he
    obtain ⟨⟨hwoken, hrun⟩, rfl⟩ := he
    refine h.of_entry ⟨rfl, fun h => ⟨h, rfl, rfl⟩, rfl, rfl, rfl, rfl, by simp [IrqLine.due, hwoken], rfl, rfl,
      rfl, rfl, rfl⟩ rfl rfl rfl rfl rfl (fun _ => ?_) (fun u hu => ?_) rfl rfl rfl (fun _ => id)
      fun hen => (h.alone hen).1
    · simp [IrqLine.masked, hwoken]
    · simp [hrun] at hu
  | core c =>
    simp only [HostNotify.enter, Option.ite_none_right_eq_some, Option.some.injEq] at he
    obtain ⟨hmay, rfl⟩ := he
    exact h.begin hmay

/-- The safety argument of all calls. -/
def safety (k : Setting) (b : Board) : Proof (machine k b) where
  inv := Inv k b
  rely := Rely k b
  ok := Check k b
  done c t s := (∃ x, c = .transfer x) ∨ c = .irqThread → k.Tidy → s.ghost.owed t = []
  absent t s := s.mutex ≠ some t
  absent_keeps t s s' hinv h hr _ := by
    rcases hr with ⟨e, he⟩ | hf
    · rw [(react_frame he hinv.smba).mutex]
      exact h
    · exact hf.unlocked h
  event_keeps _ _ _ he hinv := ⟨hinv.react he, fun _ => Or.inl ⟨_, he⟩⟩
  enter_keeps _ _ _ _ he hinv _ := ⟨hinv.enter he, fun _ hu => Or.inr (enter_foreign he hu)⟩

/-- What a proof about the call running as thread `t` refers to. -/
abbrev rules (k : Setting) (b : Board) (call : Call) (t : ℕ) : Discipline St Op Op.Ans :=
  (safety k b).discipline call t

section Stability

variable {call : Call}

/-- A private fact is stable. -/
theorem stable_private {Q : St → Prop} (hQ : Private t Q) : (rules k b call t).Stable Q :=
  fun s s' hs h hr _ => hQ s s' (Rely.keeps hr hs) h

/-- What a thread with the mutex knows of the block is stable. -/
theorem stable_view (c : Control) : (rules k b call t).Stable (View k (some t) c) := by
  intro s s' hs h hr _
  rcases hr with ⟨e, he⟩ | hf
  · exact h.react hs he
  · exact h.foreign hf

end Stability

end HostNotify
