import HostNotify.Locks
import HostNotify.Modes

/-!
# Steps of the device callbacks

The driver core runs one callback at a time, so what only callbacks change is known to the
one in progress. A `CoreStep` changes some of it: fields of the driver's global, the delivery
flag, the interrupt request. Everything the invariant says of these parts is carried by
`CoreView.Lawful`, which each such step has to show again.
-/

namespace HostNotify

open Bits Interleaving

variable {k : Setting} {b : Board} {c : Control} {s s' : St} {t u : ℕ} {call : Call}
  {P Q : St → Prop} {F G : CoreView → Prop}

/-! ## What a callback knows -/

/-- The thread is the callback in progress, and `F` holds of what only callbacks change. -/
def Owning (t : ℕ) (F : CoreView → Prop) (s : St) : Prop := s.life.owner = some t ∧ F s.coreView

/-- Owning the driver says nothing about owed messages. -/
theorem owning_debtless : Debtless t (Owning t F) := fun s s' hk h => by
  obtain ⟨howner, hview⟩ := hk.owner h.1
  refine ⟨howner, ?_⟩
  rw [hview]
  exact h.2

/-- A callback outside the mutex: if the mutex seems to be its own, another call of the
invariant accounts for it. -/
def Calling (t : ℕ) (F : CoreView → Prop) (s : St) : Prop :=
  Owning t F s ∧ (s.mutex = some t → t ∈ s.life.aux ∨ s.irq.running = some t)

/-- That a callback is in progress is stable. -/
theorem stable_calling : (rules k b call t).Stable (Calling t F) := by
  intro s s' hs h hr hs'
  have hkeeps := Rely.keeps hr hs
  refine ⟨owning_debtless s s' hkeeps.toStays h.1, fun hm => ?_⟩
  have hold : s.mutex = some t := by
    by_contra hno
    exact stable_unlocked s s' hs hno hr hs' hm
  exact (h.2 hold).imp hkeeps.aux fun hrun => (hkeeps.thread hrun).1

/-- A weaker fact about the driver core holds of the same callback. -/
theorem Calling.mono (h : Calling t F s) (hF : F s.coreView → G s.coreView) : Calling t G s :=
  ⟨⟨h.1.1, hF h.1.2⟩, h.2⟩

/-! ## The steps -/

/-- A step of the callback in progress that changes what callbacks own. -/
structure CoreStep (k : Setting) (b : Board) (t : ℕ) (s s' : St) : Prop where
  owner : s.life.owner = some t
  hw : s'.hw = s.hw
  world : s'.world = s.world
  ghost : s'.ghost = s.ghost
  mutex : s'.mutex = s.mutex
  region : s'.region = s.region
  life : s'.life = s.life
  irq : s'.irq = { s.irq with requested := s'.irq.requested }
  delivering : k.Tidy → s.deliverOk = true ∧ s.auxAdapter = true →
    s'.deliverOk = true ∧ s'.auxAdapter = true
  lawful : s'.coreView.Lawful k b
  masked : s.irq.masked = true → s'.irq.requested = true
  block : s.mutex = some t ∨ s.life.enabling = true ∨ s.engaged = false ∨ SameBlock s s'
  idle : s.mutex = none → s'.asf.active = true → s.asf.active = true ∧ SameBlock s s'
  pending : s.asf.pending = false → s'.asf.pending = false
  claim : s.asf.active = false → s'.asf.active = true → s.life.enabling = true
  deaf : s'.asf.active = false ∨ s.life.enabling = true → s'.asf.listening = false
  intact : k.Tidy → s'.asf.active = false → ∀ i, (s.hw.bank i).unread = false

/-- While the block is being claimed, nobody but the callback can hold the mutex. -/
theorem Inv.aloneHolder (h : Inv k b s) (hen : s.life.enabling = true)
    (howner : s.life.owner = some t) (hm : s.mutex = some u) : u = t := by
  obtain ⟨haux, hmasked⟩ := h.alone hen
  rcases h.locked u hm with ha | hr | ho
  · rw [haux] at ha
    cases ha
  · simp [IrqLine.masked, hr] at hmasked
  · exact Option.some.inj (ho.symm.trans howner)

/-- To another thread the step of a callback is a foreign step. -/
theorem CoreStep.foreign (h : CoreStep k b t s s') (hs : Inv k b s) (hu : u ≠ t) :
    Foreign k u s s' where
  holder hm := h.mutex.trans hm
  block hm heng := by
    rcases h.block with ht | hen | hno | hb
    · exact absurd (Option.some.inj (hm.symm.trans ht)) hu
    · exact absurd (hs.aloneHolder hen h.owner hm) hu
    · exact absurd (heng.symm.trans hno) (by decide)
    · exact hb
  region hr := ⟨h.region.trans hr, by rw [h.hw], by rw [h.ghost]⟩
  owed := by rw [h.ghost]
  owner ho := absurd (Option.some.inj (ho.symm.trans h.owner)) hu
  thread hr := by
    rw [h.irq]
    exact ⟨hr, rfl⟩
  quiet _ hp := h.pending hp
  aux ha := h.life ▸ ha
  plain ha hp := by
    cases hact : s'.asf.active with
    | false => rfl
    | true =>
      rw [(hs.alone (h.claim hp hact)).1] at ha
      cases ha
  unlocked hm := h.mutex.symm ▸ hm
  delivering := h.delivering

/-- The step of a callback keeps the invariant. -/
theorem CoreStep.inv (h : CoreStep k b t s s') (hs : Inv k b s) : Inv k b s' where
  idle hfree hact := by
    obtain ⟨hold, hb⟩ := h.idle (h.mutex ▸ hfree) hact
    obtain ⟨c, hset, hview⟩ := hs.idle (h.mutex ▸ hfree) hold
    exact ⟨c, hset, hview.of_sameBlock hb h.mutex fun _ => h.region⟩
  core := h.lawful
  masked hm := by
    rw [h.irq] at hm
    exact h.masked hm
  deaf hd := h.deaf (h.life ▸ hd)
  alone hen := by
    rw [h.life] at hen ⊢
    rw [h.irq]
    exact hs.alone hen
  unregistered hen := by
    rw [h.life] at hen ⊢
    exact hs.unregistered hen
  plain hreg halgo := by
    rw [h.life] at hreg halgo
    have hold := hs.plain hreg halgo
    cases hact : s'.asf.active with
    | false => rfl
    | true => exact absurd (hreg.symm.trans (hs.unregistered (h.claim hold hact))) (by decide)
  owned hen := by
    rw [h.life] at hen ⊢
    exact hs.owned hen
  locked u hu := by
    rw [h.life, h.irq]
    exact hs.locked u (h.mutex ▸ hu)
  world hk := by
    rw [h.world]
    exact hs.world hk
  sound hk := by
    obtain ⟨herror, hstuck⟩ := hs.sound hk
    exact ⟨by rw [h.hw]; exact herror, by rw [h.hw]; exact hstuck⟩
  intact ht := by
    obtain ⟨hlost, horphan, hreset, _⟩ := hs.intact ht
    exact ⟨by rw [h.hw]; exact hlost, by rw [h.hw, h.ghost]; exact horphan,
      by rw [h.hw]; exact hreset, by rw [h.hw]; exact h.intact ht⟩

/-- An operation all of whose effects are such steps establishes what it leaves. -/
theorem core_op {o : Op} {M : o.Ans → St → Prop} (hM : ∀ r, (rules k b call t).Stable (M r))
    (hcheck : ∀ s, Check k b call o s)
    (hop : ∀ s r s', Inv k b s → P s → exec b t o s = some (r, s') →
      CoreStep k b t s s' ∧ M r s') :
    Triple (rules k b call t) P (perform o) M :=
  Triple.perform hM fun s hs hP _ => ⟨hcheck s, fun r s' he => by
    obtain ⟨hstep, hM'⟩ := hop s r s' hs hP he
    exact ⟨fun u hu => Or.inr (hstep.foreign hs hu), hstep.inv hs, hM'⟩⟩

/-! ## Fields nobody else looks at -/

/-- The update leaves the fields that the state of the block depends on. -/
def Quiet (f : Piix4Asf → Piix4Asf) : Prop :=
  ∀ a, (f a).active = a.active ∧ (f a).wantListen = a.wantListen ∧ (f a).listening = a.listening ∧
    (f a).pending = a.pending

/-- A quiet assignment leaves the block alone. -/
theorem Quiet.sameBlock {f : Piix4Asf → Piix4Asf} (hf : Quiet f) (s : St) :
    SameBlock s { s with asf := f s.asf } where
  hw := rfl
  mode h := ⟨h, rfl, rfl⟩
  listening := (hf s.asf).2.2.1
  want := (hf s.asf).2.1
  pending := (hf s.asf).2.2.2
  engaged := by simp [St.engaged, (hf s.asf).1]
  due := rfl
  drain := rfl
  debt := rfl
  flushed := rfl
  erred := rfl
  resetting := rfl

/-- Setting such a field is a step of the callback. -/
theorem Quiet.coreStep {f : Piix4Asf → Piix4Asf} (hf : Quiet f) (hs : Inv k b s)
    (howner : s.life.owner = some t)
    (hlawful : ({ s with asf := f s.asf } : St).coreView.Lawful k b) :
    CoreStep k b t s { s with asf := f s.asf } where
  owner := howner
  hw := rfl
  world := rfl
  ghost := rfl
  mutex := rfl
  region := rfl
  life := rfl
  irq := rfl
  delivering _ hd := hd
  lawful := hlawful
  masked := hs.masked
  block := Or.inr (Or.inr (Or.inr (hf.sameBlock s)))
  idle _ hact := ⟨(hf s.asf).1.symm.trans hact, hf.sameBlock s⟩
  pending hp := (hf s.asf).2.2.2.trans hp
  claim hno hact := absurd (hact.symm.trans ((hf s.asf).1.trans hno)) (by decide)
  deaf hd := by
    have hold : s.asf.active = false ∨ s.life.enabling = true :=
      hd.imp (fun h => (hf s.asf).1.symm.trans h) id
    exact (hf s.asf).2.2.1.trans (hs.deaf hold)
  intact ht hno := (hs.intact ht).inactive ((hf s.asf).1.symm.trans hno)

section QuietSets

variable {f : Piix4Asf → Piix4Asf} {g : CoreView → CoreView} (hf : Quiet f)
  (hg : ∀ s : St, ({ s with asf := f s.asf } : St).coreView = g s.coreView)
  (hF : ∀ v, v.Lawful k b → F v → (g v).Lawful k b ∧ G (g v))
include hf hg hF

/-- Setting a quiet field outside the mutex. -/
theorem setCalling_spec :
    Triple (rules k b call t) (Calling t F) (setAsf f) fun _ => Calling t G := by
  refine core_op (fun _ => stable_calling) (fun _ => .of_other (by simp) (by simp))
    fun s r s' hs hP he => ?_
  obtain rfl : { s with asf := f s.asf } = s' := (Prod.mk.inj (Option.some.inj he)).2
  obtain ⟨hlawful, hG⟩ := hF _ hs.core hP.1.2
  rw [← hg] at hlawful hG
  exact ⟨hf.coreStep hs hP.1.1 hlawful, ⟨hP.1.1, hG⟩, hP.2⟩

/-- Setting a quiet field under the mutex. -/
theorem setHolds_spec :
    Triple (rules k b call t) (Holds k t c (Owning t F)) (setAsf f)
      fun _ => Holds k t c (Owning t G) := by
  refine core_op (fun _ => stable_holds owning_debtless.private)
    (fun _ => .of_other (by simp) (by simp)) fun s r s' hs hP he => ?_
  obtain rfl : { s with asf := f s.asf } = s' := (Prod.mk.inj (Option.some.inj he)).2
  obtain ⟨hlawful, hG⟩ := hF _ hs.core hP.2.2
  rw [← hg] at hlawful hG
  exact ⟨hf.coreStep hs hP.2.1 hlawful,
    hP.1.of_sameBlock (hf.sameBlock s) rfl fun _ => rfl, hP.2.1, hG⟩

end QuietSets

/-! ## Fields the view depends on -/

/-- What can be read off the state itself. -/
def Control.observe (s : St) (held : Bool) : Control :=
  { lisaddr := s.hw.lisaddr, rst := s.hw.slven.getLsbD 4, intr := none, dataEn := s.hw.bnksel.getLsbD 7
    mstr := none, clk := none, listening := s.asf.listening, want := s.asf.wantListen
    clean := false, kept := false, calm := false, debt := true, flushed := true, erred := false
    resetting := true, held := held }

/-- What is observed of a block is seen of it. -/
theorem sees_observe (s : St) (held : Bool) : Sees (Control.observe s held) s where
  regs := ⟨rfl, rfl, rfl, nofun, nofun, nofun, nofun⟩
  record := ⟨fun _ => rfl, fun _ => rfl, nofun, fun _ => rfl⟩
  signalled := nofun
  empty := nofun
  kept := nofun
  calm := nofun

/-- The view of a block nothing else is known of. -/
theorem view_observe {held : Bool} (hm : s.mutex = some t) (heng : s.engaged = true)
    (hregion : held = true → s.region = some t ∧
      (k.firmware = false ∨ s.asf.wantListen = true → s.ghost.touched = false)) :
    View k (some t) (Control.observe s held) s where
  holder := hm
  engaged := heng
  listening := rfl
  want := rfl
  held hh := (hregion hh).1
  fresh hh := (hregion hh).2
  sees _ := sees_observe s held

/-- A view without the knowledge of the region. -/
theorem View.forget (h : View k (some t) c s) : View k (some t) (c.setHeld false) s where
  holder := h.holder
  engaged := h.engaged
  listening := h.listening
  want := h.want
  held := nofun
  fresh := nofun
  sees hk := by
    have hsees := h.sees hk
    exact ⟨⟨hsees.regs.lisaddr, hsees.regs.rst, hsees.regs.dataEn, hsees.regs.mstr,
      hsees.regs.clk, hsees.regs.intrOn, hsees.regs.intrOff⟩, ⟨hsees.record.debt,
      hsees.record.flushed, hsees.record.erred, hsees.record.resetting⟩, hsees.signalled,
      hsees.empty, hsees.kept, hsees.calm⟩

/-- The control state after `want_listen` is set; to start listening under a firmware that may
have been at the registers, the callback starts from what is there. -/
structure Control.Wants (k : Setting) (c : Control) (v : Bool) (c' : Control) : Prop where
  known : k.firmware = false ∨ c.want = true → c' = c.setWant v
  listening : c'.listening = c.listening
  want : c'.want = v
  held : c'.held = c.held

/-- Assigning what is wanted changes what is known of it. -/
theorem View.setWant (h : View k (some t) c s) (hheld : c.held = false) (v : Bool) :
    ∃ c', c.Wants k v c' ∧
      View k (some t) c' { s with asf := { s.asf with wantListen := v } } := by
  by_cases hk : k.firmware = false ∨ c.want = true
  · have hsees := h.sees hk
    refine ⟨c.setWant v, ⟨fun _ => rfl, rfl, rfl, rfl⟩, ?_⟩
    exact {
      holder := h.holder
      engaged := h.engaged
      listening := h.listening
      want := rfl
      held := h.held
      fresh := fun hh => absurd (hh.symm.trans hheld) (by decide)
      sees := fun _ => {
        regs := ⟨hsees.regs.lisaddr, hsees.regs.rst, hsees.regs.dataEn, hsees.regs.mstr,
          hsees.regs.clk, hsees.regs.intrOn, hsees.regs.intrOff⟩
        record := ⟨hsees.record.debt, hsees.record.flushed, hsees.record.erred,
          hsees.record.resetting⟩
        signalled := hsees.signalled
        empty := hsees.empty
        kept := hsees.kept
        calm := fun hc => ⟨(hsees.calm hc).rdptr, (hsees.calm hc).reading, (hsees.calm hc).got⟩ } }
  · exact ⟨Control.observe { s with asf := { s.asf with wantListen := v } } false,
      ⟨fun hk' => absurd hk' hk, h.listening, rfl, hheld.symm⟩,
      view_observe h.holder h.engaged nofun⟩

/-- A step on the driver's global by the holder of the mutex. -/
theorem CoreStep.locked {f : Piix4Asf → Piix4Asf} (hs : Inv k b s) (hm : s.mutex = some t)
    (howner : s.life.owner = some t)
    (hlawful : ({ s with asf := f s.asf } : St).coreView.Lawful k b)
    (hpending : s.asf.pending = false → (f s.asf).pending = false)
    (hclaim : s.asf.active = false → (f s.asf).active = true → s.life.enabling = true)
    (hdeaf : (f s.asf).active = false ∨ s.life.enabling = true → (f s.asf).listening = false)
    (hintact : k.Tidy → (f s.asf).active = false → ∀ i, (s.hw.bank i).unread = false) :
    CoreStep k b t s { s with asf := f s.asf } where
  owner := howner
  hw := rfl
  world := rfl
  ghost := rfl
  mutex := rfl
  region := rfl
  life := rfl
  irq := rfl
  delivering _ hd := hd
  lawful := hlawful
  masked := hs.masked
  block := Or.inl hm
  idle hfree := by
    rw [hm] at hfree
    cases hfree
  pending := hpending
  claim := hclaim
  deaf := hdeaf
  intact := hintact

/-- `piix4_asf.want_listen = v`. -/
theorem setWant_spec {v : Bool} (hheld : c.held = false)
    (hF : ∀ w, w.Lawful k b → F w →
      ({ w with asf := { w.asf with wantListen := v } } : CoreView).Lawful k b ∧
        G { w with asf := { w.asf with wantListen := v } }) :
    Triple (rules k b call t) (Holds k t c (Owning t F))
      (setAsf fun a => { a with wantListen := v })
      fun _ s => ∃ c', c.Wants k v c' ∧ Holds k t c' (Owning t G) s := by
  refine core_op (fun _ => Discipline.Stable.exists fun _ => (Discipline.Stable.const _).and
    (stable_holds owning_debtless.private)) (fun _ => .of_other (by simp) (by simp))
    fun s r s' hs hP he => ?_
  obtain rfl : { s with asf := { s.asf with wantListen := v } } = s' :=
    (Prod.mk.inj (Option.some.inj he)).2
  obtain ⟨hlawful, hG⟩ := hF _ hs.core hP.2.2
  obtain ⟨c', hc', hview⟩ := hP.1.setWant hheld v
  refine ⟨.locked (f := fun a => { a with wantListen := v }) hs hP.1.holder hP.2.1 hlawful id
    (fun hno hact => absurd (hact.symm.trans hno) (by decide)) hs.deaf
    fun ht => (hs.intact ht).inactive, c', hc', hview, hP.2.1, hG⟩

/-- `piix4_asf.active = true` while probe claims the block. -/
theorem claim_spec
    (hF : ∀ v, v.Lawful k b → F v → v.enabling = true ∧
      ({ v with asf := { v.asf with active := true } } : CoreView).Lawful k b ∧
        G { v with asf := { v.asf with active := true } }) :
    Triple (rules k b call t) (Holds k t c (Owning t F))
      (setAsf fun a => { a with active := true })
      fun _ => Holds k t c (Owning t G) := by
  refine core_op (fun _ => stable_holds owning_debtless.private)
    (fun _ => .of_other (by simp) (by simp)) fun s r s' hs hP he => ?_
  obtain rfl : { s with asf := { s.asf with active := true } } = s' :=
    (Prod.mk.inj (Option.some.inj he)).2
  obtain ⟨hen, hlawful, hG⟩ := hF _ hs.core hP.2.2
  have henabling : s.life.enabling = true := hen
  refine ⟨.locked (f := fun a => { a with active := true }) hs hP.1.holder hP.2.1 hlawful id
    (fun _ _ => hen) (fun hd => hs.deaf (Or.inr (hd.resolve_left nofun)))
    fun _ hno => Bool.noConfusion hno, ?_, hP.2.1, hG⟩
  refine hP.1.of_sameBlock ⟨rfl, fun h => ⟨h, rfl, rfl⟩, rfl, rfl, rfl, ?_, rfl, rfl, rfl, rfl, rfl,
    rfl⟩ rfl fun _ => rfl
  simp [St.engaged, henabling]

/-- The callback holds the mutex of a block that is not claimed. -/
def Released (t : ℕ) (F : CoreView → Prop) (s : St) : Prop := Owning t F s ∧ s.mutex = some t

/-- That a callback has given up the mutex is stable. -/
theorem stable_released : (rules k b call t).Stable (Released t F) :=
  (stable_private owning_debtless.private).and stable_locked

/-- `piix4_asf.active = false`. -/
theorem unclaim_spec (hlisten : c.listening = false)
    (hclear : k.Tidy → c.clean = true ∧ c.accepting = false ∧ c.kept = true)
    (hF : ∀ v, v.Lawful k b → F v →
      ({ v with asf := { v.asf with active := false } } : CoreView).Lawful k b ∧
        G { v with asf := { v.asf with active := false } }) :
    Triple (rules k b call t) (Holds k t c (Owning t F))
      (setAsf fun a => { a with active := false }) fun _ => Released t G := by
  refine core_op (fun _ => stable_released)
    (fun _ => .of_other (by simp) (by simp)) fun s r s' hs hP he => ?_
  obtain rfl : { s with asf := { s.asf with active := false } } = s' :=
    (Prod.mk.inj (Option.some.inj he)).2
  obtain ⟨hlawful, hG⟩ := hF _ hs.core hP.2.2
  refine ⟨.locked (f := fun a => { a with active := false }) hs hP.1.holder hP.2.1 hlawful id
    (fun _ hact => Bool.noConfusion hact) (fun _ => hP.1.listening.trans hlisten)
    fun ht _ i => ?_, ⟨hP.2.1, hG⟩, hP.1.holder⟩
  obtain ⟨hclean, hacc, hkept⟩ := hclear ht
  have hsees := hP.1.sees (Or.inl ht.known)
  cases hu : (s.hw.bank i).unread with
  | false => rfl
  | true => exact absurd ((hsees.kept hkept i hu).symm.trans (hsees.empty hclean hacc i)) (by decide)

/-! ## Parts outside the driver's global -/

/-- Changing the delivery flag, the adapter pointer or the interrupt request. -/
theorem CoreStep.outer (ok adapter requested : Bool) (hs : Inv k b s)
    (howner : s.life.owner = some t)
    (hlawful : ({ s with
      deliverOk := ok, auxAdapter := adapter
      irq := { s.irq with requested := requested } } : St).coreView.Lawful k b)
    (hmasked : s.irq.masked = true → requested = true)
    (hdeliver : k.Tidy → s.deliverOk = true ∧ s.auxAdapter = true → ok = true ∧ adapter = true) :
    CoreStep k b t s { s with
      deliverOk := ok, auxAdapter := adapter, irq := { s.irq with requested := requested } } where
  owner := howner
  hw := rfl
  world := rfl
  ghost := rfl
  mutex := rfl
  region := rfl
  life := rfl
  irq := rfl
  delivering := hdeliver
  lawful := hlawful
  masked := hmasked
  block := Or.inr (Or.inr (Or.inr ⟨rfl, fun h => ⟨h, rfl, rfl⟩, rfl, rfl, rfl, rfl, rfl, rfl, rfl,
    rfl, rfl, rfl⟩))
  idle _ hact := ⟨hact, rfl, fun h => ⟨h, rfl, rfl⟩, rfl, rfl, rfl, rfl, rfl, rfl, rfl, rfl, rfl, rfl⟩
  pending := id
  claim hno hact := absurd (hact.symm.trans hno) (by decide)
  deaf := hs.deaf
  intact ht := (hs.intact ht).inactive

/-- A callback sets `deliver_ok`. -/
theorem setDeliverOk_spec {ok : Bool} (hok : k.Tidy → ok = true)
    (hF : ∀ v, v.Lawful k b → F v →
      ({ v with deliverOk := ok } : CoreView).Lawful k b ∧ G { v with deliverOk := ok }) :
    Triple (rules k b call t) (Calling t F) (perform (.setDeliverOk ok))
      fun _ => Calling t G := by
  refine core_op (fun _ => stable_calling) (fun _ => .of_other (by simp) (by simp))
    fun s r s' hs hP he => ?_
  obtain rfl : { s with deliverOk := ok } = s' := (Prod.mk.inj (Option.some.inj he)).2
  obtain ⟨hlawful, hG⟩ := hF _ hs.core hP.1.2
  exact ⟨.outer ok s.auxAdapter s.irq.requested hs hP.1.1 hlawful hs.masked
    fun ht hd => ⟨hok ht, hd.2⟩, ⟨hP.1.1, hG⟩, hP.2⟩

/-- Setting `piix4_aux_adapter`. -/
theorem setAuxAdapter_spec {adapter : Bool} (hadapter : k.Tidy → adapter = true)
    (hF : ∀ v, v.Lawful k b → F v →
      ({ v with auxAdapter := adapter } : CoreView).Lawful k b ∧ G { v with auxAdapter := adapter }) :
    Triple (rules k b call t) (Calling t F) (perform (.setAuxAdapter adapter))
      fun _ => Calling t G := by
  refine core_op (fun _ => stable_calling) (fun _ => .of_other (by simp) (by simp))
    fun s r s' hs hP he => ?_
  obtain rfl : { s with auxAdapter := adapter } = s' := (Prod.mk.inj (Option.some.inj he)).2
  obtain ⟨hlawful, hG⟩ := hF _ hs.core hP.1.2
  exact ⟨.outer s.deliverOk adapter s.irq.requested hs hP.1.1 hlawful hs.masked
    fun ht hd => ⟨hd.1, hadapter ht⟩, ⟨hP.1.1, hG⟩, hP.2⟩

/-- A callback calls `request_threaded_irq`. -/
theorem requestThreadedIrq_spec {irq : Int} {shared : Bool} {G : Int → CoreView → Prop}
    (hF : ∀ (r : Int) v, v.Lawful k b → F v →
      ({ v with requested := v.requested || decide (r = 0) } : CoreView).Lawful k b ∧
        G r { v with requested := v.requested || decide (r = 0) }) :
    Triple (rules k b call t) (Calling t F) (perform (.requestThreadedIrq irq shared))
      fun r => Calling t (G r) := by
  refine core_op (fun _ => stable_calling) (fun _ => .of_other (by simp) (by simp))
    fun s r s' hs hP he => ?_
  obtain ⟨hr, rfl⟩ := Prod.mk.inj (Option.some.inj he)
  obtain ⟨hlawful, hG⟩ := hF s.world.irqAnswer _ hs.core hP.1.2
  have hmasked : s.irq.masked = true →
      (s.irq.requested || decide (s.world.irqAnswer = 0)) = true := fun hm => by
    rw [hs.masked hm, Bool.true_or]
  refine ⟨.outer s.deliverOk s.auxAdapter _ hs hP.1.1 hlawful hmasked fun _ hd => hd, ⟨hP.1.1, ?_⟩, hP.2⟩
  rw [← hr]
  exact hG

/-- `free_irq` waits for the thread. -/
theorem freeIrq_spec
    (hF : ∀ v, v.Lawful k b → F v →
      ({ v with requested := false } : CoreView).Lawful k b ∧ G { v with requested := false }) :
    Triple (rules k b call t) (Calling t F) (perform .freeIrq) fun _ => Calling t G := by
  refine core_op (fun _ => stable_calling) (fun _ => .of_other (by simp) (by simp))
    fun s r s' hs hP he => ?_
  simp only [exec] at he
  split at he
  · cases he
  · next hidle =>
    obtain rfl : { s with irq := { s.irq with requested := false } } = s' :=
      (Prod.mk.inj (Option.some.inj he)).2
    obtain ⟨hlawful, hG⟩ := hF _ hs.core hP.1.2
    exact ⟨.outer s.deliverOk s.auxAdapter _ hs hP.1.1 hlawful (fun hm => absurd hm hidle)
      fun _ hd => hd, ⟨hP.1.1, hG⟩, hP.2⟩

/-! ## Steps of a callback that change nothing it owns -/

/-- An own step leaves the callback in progress. -/
theorem Calling.own (h : Calling t F s) (hown : OwnStep k t s s') : Calling t F s' := by
  refine ⟨owning_debtless s s' hown.stays h.1, ?_⟩
  rw [hown.mutex, hown.life, hown.irq]
  exact h.2

/-- An operation on windows and the GSI, or a question to the rest of the system. -/
theorem callingOp_spec {o : Op} (hcheck : ∀ s, Check k b call o s)
    (hop : ∀ (s : St) r s', exec b t o s = some (r, s') →
      ∃ windows muxed gsiHeld, s' = s.setHoldings windows muxed gsiHeld s.granted) :
    Triple (rules k b call t) (Calling t F) (perform o) fun _ => Calling t F := by
  refine own_op (fun _ => stable_calling) fun s hs hP _ => ⟨hcheck s, fun r s' he => ?_⟩
  obtain ⟨windows, muxed, gsiHeld, rfl⟩ := hop s r s' he
  have hstable : (rules k b call t).Stable (Calling t F) := stable_calling
  exact ⟨.holdings .., setHoldings_of_stable _ _ _ _ hstable hs hP⟩

/-- Passing a mark that records nothing of the block. -/
theorem noteCalling_spec {mk : Mark} (hmk : mk.Aside) (harm : mk ≠ .armBegin) :
    Triple (rules k b call t) (Calling t F) (mark mk) fun _ => Calling t F :=
  note_spec hmk stable_calling (fun _ _ => .of_other (by simpa using harm) (by simp))
    fun _ hown h => h.own hown

/-! ## The end of a callback -/

/-- What only callbacks change, once one has returned. -/
def CoreView.after (v : CoreView) (c : CoreCall) : CoreView :=
  { v with
    enabling := v.enabling && decide (c ≠ .enable)
    bound := (v.bound || decide (c = .enable)) && decide (c ≠ .disable)
    started := v.started && decide (c ≠ .disable)
    asleep := v.asleep || decide (c = .suspend) }

/-- The state after a callback has returned. -/
def St.returned (s : St) (c : CoreCall) : St := { s with life := s.life.after c }

/-- What the driver core sees after a callback has returned. -/
theorem coreView_returned (c : CoreCall) : (s.returned c).coreView = s.coreView.after c := by
  cases c <;> simp [St.returned, St.coreView, CoreView.after, Life.after]

/-- A callback that returns leaves the block alone. -/
theorem sameBlock_returned (c : CoreCall) (h : s.life.enabling = false ∨ s.asf.active = true) :
    SameBlock s (s.returned c) where
  hw := rfl
  mode hm := ⟨hm, rfl, rfl⟩
  listening := rfl
  want := rfl
  pending := rfl
  engaged := by
    rcases h with hno | hact
    · cases c <;> simp [St.engaged, St.returned, Life.after, hno]
    · simp [St.engaged, St.returned, hact]
  due := rfl
  drain := rfl
  debt := rfl
  flushed := rfl
  erred := rfl
  resetting := rfl

/-- A callback returns. -/
theorem coreDone_spec {c : CoreCall}
    (hF : ∀ v, v.Lawful k b → F v → (v.after c).Lawful k b ∧ (v.enabling = true → c = .enable)) :
    Triple (rules k b call t) (Calling t F) (perform (.coreDone c)) fun _ _ => True := by
  refine Triple.perform (fun _ => Discipline.Stable.const _) fun s hs hP _ =>
    ⟨.of_other (by simp) (by simp), fun _ s' he => ?_⟩
  obtain rfl : s.returned c = s' := (Prod.mk.inj (Option.some.inj he)).2
  obtain ⟨hlawful, honly⟩ := hF _ hs.core hP.1.2
  have howner := hP.1.1
  have hnot : (s.returned c).life.enabling = false := by
    cases hen : s.life.enabling with
    | false => cases c <;> simp [St.returned, Life.after, hen]
    | true =>
      have hc : c = .enable := honly hen
      rw [hc]
      rfl
  have haux : (s.returned c).life.aux = s.life.aux := by cases c <;> rfl
  refine ⟨fun u hu => Or.inr ?_, ?_, trivial⟩
  · exact {
      holder := id
      block := fun hm _ => by
        cases hen : s.life.enabling with
        | true => exact absurd (hs.aloneHolder hen howner hm) hu
        | false => exact sameBlock_returned c (Or.inl hen)
      region := fun hr => ⟨hr, rfl, rfl⟩
      owed := rfl
      owner := fun ho => absurd (Option.some.inj (ho.symm.trans howner)) hu
      thread := fun hr => ⟨hr, rfl⟩
      quiet := fun _ hp => hp
      aux := fun ha => haux ▸ ha
      plain := fun _ hp => hp
      unlocked := id
      delivering := fun _ hd => hd }
  · exact {
      idle := fun hfree hact => by
        obtain ⟨d, hset, hview⟩ := hs.idle hfree hact
        exact ⟨d, hset, hview.of_sameBlock (sameBlock_returned c (Or.inr hact)) rfl fun _ => rfl⟩
      core := coreView_returned c ▸ hlawful
      masked := hs.masked
      deaf := fun hd => hs.deaf (hd.imp id fun hen => absurd (hen.symm.trans hnot) (by decide))
      alone := fun hen => absurd (hen.symm.trans hnot) (by decide)
      unregistered := fun hen => absurd (hen.symm.trans hnot) (by decide)
      plain := fun hreg halgo => by cases c <;> exact hs.plain hreg halgo
      owned := fun hen => absurd (hen.symm.trans hnot) (by decide)
      locked := fun u hu => by
        rw [haux]
        rcases hs.locked u hu with ha | hr | ho
        · exact Or.inl ha
        · exact Or.inr (Or.inl hr)
        · have hsame : u = t := Option.some.inj (ho.symm.trans howner)
          subst hsame
          exact (hP.2 hu).imp id Or.inl
      world := hs.world
      sound := fun hk => ⟨(hs.sound hk).errorless, (hs.sound hk).unstuck⟩
      intact := fun ht => (hs.intact ht).congr (fun _ => rfl) rfl rfl rfl (hs.intact ht).reset }

end HostNotify
