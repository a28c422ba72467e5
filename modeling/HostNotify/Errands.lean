import HostNotify.Rounds

/-!
# The device callbacks respect the ledger

Each callback owns its estate and takes it from one lawful state of rest to another.
-/

namespace HostNotify

open Bits Interleaving

variable {k : Setting} {b : Board} {m : Hand} {p : Stance} {c : CoreCall} {v : Estate}
  {K K' : Seen → Bool → Prop}

/-! ## Operations of a callback -/

/-- The stance of a callback that holds nothing. -/
def Stance.calling (c : CoreCall) (v : Estate) (K : Seen → Bool → Prop) : Stance :=
  { role := .core c v, asf := false, notify := false, held := false, active := false, window := false
    ok := false, known := K }

/-- Nothing in particular is known. -/
def anything : Seen → Bool → Prop := fun _ _ => True

/-- A callback's own stance says what it owns. -/
theorem Hand.Takes.owns (h : m.Takes k p) (hrole : p.role = .core c v) {P : CoreCall → Estate → Prop}
    (hP : P c v) : m.Owns P := ⟨c, v, h.role.trans hrole, hP⟩

/-- An operation that changes the estate. -/
theorem estate_obeys {o : Op} (g : o.Ans → Estate → Estate)
    (hallow : ∀ m : Hand, m.Takes k p → m.allows k b o)
    (hmove : ∀ (m : Hand) r m', m.Takes k p → m.moves k b o r m' → m' = m.onEstate (g r)) :
    Obeys (ledger k b) (Hand.Takes k p) (perform o) fun r =>
      Hand.Takes k { p with role := p.role.onEstate (g r) } :=
  .perform fun m hm => ⟨hallow m hm, fun r m' h => hmove m r m' hm h ▸ hm.onEstate (g r)⟩

/-- Two fields of the global that only the callbacks change cannot differ between reads. -/
theorem settings_active {a : Piix4Asf} (h : a.settings = v.asf) : a.active = v.asf.active :=
  show a.settings.active = v.asf.active from congrArg Piix4Asf.active h

/-- Storing a field that says nothing about the claim on the block. -/
structure Mild (f : Piix4Asf → Piix4Asf) : Prop where
  tame : Hand.Tame f
  active : ∀ a, (f a).active = a.active
  smba : ∀ a, (f a).smba = a.smba
  useMmio : ∀ a, (f a).useMmio = a.useMmio
  boot : ∀ a, ((f a).bootLisaddr = a.bootLisaddr ∧ (f a).bootSlven = a.bootSlven) ∧
    (f a).bootBnksel = a.bootBnksel ∧ (f a).bootCtl = a.bootCtl

/-- Setting the flag is mild. -/
theorem mild_listening (x : Bool) : Mild fun a => { a with listening := x } :=
  ⟨⟨fun _ => rfl, fun _ h => h⟩, fun _ => rfl, fun _ => rfl, fun _ => rfl,
    fun _ => ⟨⟨rfl, rfl⟩, rfl, rfl⟩⟩

/-- Stating what is wanted is mild. -/
theorem mild_wantListen (x : Bool) : Mild fun a => { a with wantListen := x } :=
  ⟨⟨fun _ => rfl, fun _ h => h⟩, fun _ => rfl, fun _ => rfl, fun _ => rfl,
    fun _ => ⟨⟨rfl, rfl⟩, rfl, rfl⟩⟩

/-- Laying the intent aside is mild. -/
theorem mild_resumeListen (x : Bool) : Mild fun a => { a with resumeListen := x } :=
  ⟨⟨fun _ => rfl, fun _ h => h⟩, fun _ => rfl, fun _ => rfl, fun _ => rfl,
    fun _ => ⟨⟨rfl, rfl⟩, rfl, rfl⟩⟩

/-- Clearing the word for the thread is mild. -/
theorem mild_pending : Mild fun a => { a with pending := false } :=
  ⟨⟨fun _ => rfl, fun _ _ => rfl⟩, fun _ => rfl, fun _ => rfl, fun _ => rfl,
    fun _ => ⟨⟨rfl, rfl⟩, rfl, rfl⟩⟩

/-- Noting whether the IRQ is requested is mild. -/
theorem mild_irqRequested (x : Bool) : Mild fun a => { a with irqRequested := x } :=
  ⟨⟨fun _ => rfl, fun _ h => h⟩, fun _ => rfl, fun _ => rfl, fun _ => rfl,
    fun _ => ⟨⟨rfl, rfl⟩, rfl, rfl⟩⟩

/-- A claimed block, as far as the callbacks' own fields go. -/
structure Estate.Claimed (b : Board) (v : Estate) : Prop where
  active : v.asf.active = true
  smba : v.asf.smba = b.auxSmba
  useMmio : v.asf.useMmio = true

/-- A mild assignment keeps the claim. -/
theorem Estate.Claimed.store {f : Piix4Asf → Piix4Asf} (h : v.Claimed b) (hf : Mild f) :
    (v.store f).Claimed b where
  active := (hf.active v.asf).trans h.active
  smba := (hf.smba v.asf).trans h.smba
  useMmio := (hf.useMmio v.asf).trans h.useMmio

/-- Who may want the slave to listen. -/
def Estate.MayWant (v : Estate) (a : Piix4Asf) : Prop :=
  a.wantListen = true ∨ a.resumeListen = true →
    v.registered = true ∨ (v.leaving = true ∧ v.requested = false)

/-- A mild assignment that wants nothing it may not want keeps the estate lawful. -/
theorem Estate.Lawful.store {f : Piix4Asf → Piix4Asf} (h : v.Lawful b) (hf : Mild f)
    (hwant : v.MayWant (f v.asf)) : (v.store f).Lawful b where
  registered := h.registered
  requested hr := ⟨(hf.active v.asf).trans (h.requested hr).1, (h.requested hr).2⟩
  active ha := by
    obtain ⟨hheld, hsaved⟩ := h.active ((hf.active v.asf).symm.trans ha)
    obtain ⟨⟨hlis, hsl⟩, hbnk, hctl⟩ := hf.boot v.asf
    exact ⟨hheld, hlis.trans hsaved.lisaddr, hsl.trans hsaved.slven,
      (congrArg (· &&& ~~~asfBnkFull) hbnk).trans hsaved.bnksel, hctl.trans hsaved.ctl⟩
  claimed ha := by
    obtain ⟨hsmba, hmmio⟩ := h.claimed ((hf.active v.asf).symm.trans ha)
    exact ⟨(hf.smba v.asf).trans hsmba, (hf.useMmio v.asf).trans hmmio⟩
  enabling := h.enabling
  delivering hd := ⟨(hf.active v.asf).trans (h.delivering hd).1, (h.delivering hd).2⟩
  wanted := hwant
  halted := h.halted

/-- A callback stores such a field. -/
theorem field_obeys {f : Piix4Asf → Piix4Asf} (hf : Mild f) (h : v.Lawful b)
    (hwant : v.MayWant (f v.asf)) (hrole : p.role = .core c v) (hK : p.known = anything)
    (hlisten : (∀ a, a.listening = false → (f a).listening = false) ∨
      (v.enabling = false ∧ (v.registered = true ∨ v.requested = false) ∧ (f v.asf).active = true)) :
    Obeys (ledger k b) (Hand.Takes k p) (setAsf f) fun _ =>
      Hand.Takes k { p with role := .core c (v.store f) } :=
  store_obeys (K := p.known) hrole hf.tame (h.store hf hwant) (fun hne => absurd (hf.active v.asf) hne)
    hlisten fun _ _ _ => hK ▸ trivial

/-- The callback is done. -/
theorem coreDone_obeys (hrest : (v.after c).Rest) (hlawful : (v.after c).Lawful b)
    (hstill : (v.after c).bound = false → ∀ n st, K n st → st = true)
    (hrestored : c = .disable → v.granted = true → v.asleep = false → ∀ m : Hand,
      K m.seen m.still → m.Restored v) :
    Obeys (ledger k b) (Hand.Takes k (.calling c v K)) (perform (.coreDone c)) fun _ => Resting := by
  refine .perform fun m hm => ⟨⟨hm.free rfl rfl rfl, hm.owns rfl ⟨rfl, hrest, hlawful,
    fun hb => hstill hb _ _ hm.known, fun hc hg ha => hrestored hc hg ha m hm.known⟩⟩, ?_⟩
  rintro r m' rfl
  exact ⟨⟨rfl, rfl, rfl, rfl, rfl⟩, Or.inr rfl⟩

/-- Asking for the FCH PM region, under the mutex or not. -/
theorem coreRequest_obeys (asf : Bool) :
    Obeys (ledger k b) (Hand.Takes k { Stance.calling c v K with asf := asf })
      (piix4Sb800RegionRequest true) fun r m =>
        (r = 0 ∧ m.Takes k { Stance.calling c { v with granted := true } K with
          asf := asf, held := true }) ∨
        (r ≠ 0 ∧ m.Takes k { Stance.calling c { v with granted := false } K with asf := asf }) :=
  regionRequest_obeys rfl rfl

/-- A callback under the mutex. -/
abbrev Stance.locked (c : CoreCall) (v : Estate) (K : Seen → Bool → Prop) : Stance :=
  { Stance.calling c v K with asf := true }

/-- A callback under the mutex reaches the target block's own window. -/
theorem asf_works (h : v.Lawful b) (hactive : v.asf.active = true) (held : Bool) :
    { Stance.locked c v K with held := held }.Works b (Within b.asfWindow) :=
  Stance.works_core (asfPorts_window b) rfl rfl (h.active hactive).1 (fun _ hw => Or.inl hw)
    fun hclear => absurd (hclear.symm.trans hactive) (by decide)

/-- A callback of an active driver steers the block once it has the region. -/
theorem asf_steers (h : v.Lawful b) (hactive : v.asf.active = true) :
    { Stance.locked c v K with held := true }.Steers b (Within b.asfWindow) :=
  ⟨asf_works h hactive true, rfl, Or.inr ⟨c, v, rfl⟩⟩

/-- While the adapter is registered it reaches both windows. -/
theorem block_steers (h : v.Lawful b) (hreg : v.registered = true) (hactive : v.asf.active = true) :
    { Stance.locked c v K with held := true }.Steers b (InBlock b) := by
  refine ⟨Stance.works_core (asfPorts_block b) rfl rfl (h.active hactive).1 (fun port hport => ?_)
    fun hclear => absurd (hclear.symm.trans hactive) (by decide), rfl, Or.inr ⟨c, v, rfl⟩⟩
  rcases hport.window with hw | hw
  · exact Or.inr ⟨hw, h.registered hreg⟩
  · exact Or.inl hw

/-- A callback may take the mutex. -/
theorem coreLock_obeys :
    Obeys (ledger k b) (Hand.Takes k (.calling c v K)) (lock .asf) fun _ =>
      Hand.Takes k (.locked c v K) := lockAsf_obeys rfl rfl (Or.inl rfl)

/-- A callback may give the mutex up. -/
theorem coreUnlock_obeys :
    Obeys (ledger k b) (Hand.Takes k (.locked c v K)) (unlock .asf) fun _ =>
      Hand.Takes k (.calling c v K) := unlockAsf_obeys rfl

/-- What a callback reads of a claimed block. -/
theorem claimedAsf_obeys (h : v.Claimed b) (hrole : p.role = .core c v) :
    Obeys (ledger k b) (Hand.Takes k p) piix4Asf fun a m =>
      (a.settings = v.asf ∧ a.useMmio = true) ∧ m.Takes k p :=
  (coreAsf_obeys hrole).post fun a _ ⟨⟨hset, _⟩, hm⟩ =>
    ⟨⟨hset, (show a.settings.useMmio = v.asf.useMmio from congrArg Piix4Asf.useMmio hset).trans
      h.useMmio⟩, hm⟩

/-- Listening and arming, under the mutex and the region. -/
theorem coreArm_obeys (h : v.Lawful b) (hclaimed : v.Claimed b) (hreg : v.registered = true) :
    Obeys (ledger k b) (Hand.Takes k { Stance.locked c v anything with held := true })
      (do
        setAsf fun a => { a with listening := true }
        piix4AsfSlaveArm b.auxSmba
        piix4Sb800RegionRelease (← piix4Asf).useMmio) fun _ =>
      Hand.Takes k (.locked c (v.store fun a => { a with listening := true }) anything) := by
  have hlisten := mild_listening true
  have hstored := h.store hlisten h.wanted
  have hkept := hclaimed.store hlisten
  have hen : v.enabling = false := by
    by_contra hen
    exact absurd ((h.enabling (Bool.not_eq_false _ ▸ hen)).symm.trans hreg) (by decide)
  refine .bind (field_obeys hlisten h h.wanted rfl rfl
    (Or.inr ⟨hen, Or.inl hreg, hclaimed.active⟩)) fun _ => ?_
  refine .bind (slaveArm_obeys (block_steers hstored hreg hkept.active)) fun _ => ?_
  refine .bind (claimedAsf_obeys hkept rfl) fun a => .pure_pre fun ha => ?_
  rw [ha.2]
  exact regionRelease_obeys rfl

/-! ## Starting -/

/-- The estate in which listening is wanted, whether or not the slave could be armed. -/
def Estate.Wants (v v' : Estate) : Prop := ∃ g,
  v' = { v with granted := g }.store (fun a => { a with wantListen := true }) ∨
    v' = ({ v with granted := g }.store (fun a => { a with wantListen := true })).store
      fun a => { a with listening := true }

/-- The critical section of start changes what is wanted, and nothing else it owns. -/
theorem startLocked_obeys (h : v.Lawful b) (hclaimed : v.Claimed b) (hreg : v.registered = true) :
    Obeys (ledger k b) (Hand.Takes k (.locked c v anything)) (startLocked b.auxSmba) fun _ m =>
      ∃ v', v.Wants v' ∧ m.Takes k (.locked c v' anything) := by
  have hwant := mild_wantListen true
  have hstored : ∀ g, ({ v with granted := g }.store fun a => { a with wantListen := true }).Lawful b :=
    fun g => Estate.Lawful.store { h with } hwant fun _ => Or.inl hreg
  have hkept : ∀ g, ({ v with granted := g }.store fun a => { a with wantListen := true }).Claimed b :=
    fun g => Estate.Claimed.store { hclaimed with } hwant
  unfold startLocked
  refine .bind (field_obeys hwant h (fun _ => Or.inl hreg) rfl rfl (Or.inl fun _ hl => hl)) fun _ => ?_
  refine .bind (claimedAsf_obeys (hkept v.granted) rfl) fun a => .pure_pre fun ha => ?_
  rw [ha.2]
  refine .bind (coreRequest_obeys true) fun r => ?_
  by_cases hr : r = 0
  · rw [if_pos hr]
    refine .pre ?_ fun m hm => (hm.resolve_right fun h => h.1 hr).2
    exact (coreArm_obeys (hstored true) (hkept true) hreg).post fun _ m hm =>
      ⟨_, ⟨true, Or.inr rfl⟩, hm⟩
  · rw [if_neg hr]
    exact .ret fun m hm => ⟨_, ⟨false, Or.inl rfl⟩, (hm.resolve_left fun h => hr h.1).2⟩

/-- With something wanted the device may still be left to others. -/
theorem Estate.Wants.rest {v' : Estate} (h : v.Wants v') (hrest : v.Rest) (hbound : v.bound = true) :
    v'.Rest ∧ v'.bound = true := by
  obtain ⟨g, rfl | rfl⟩ := h
  · exact ⟨{ hrest with fresh := fun hb => absurd (hb.symm.trans hbound) (by decide) }, hbound⟩
  · exact ⟨{ hrest with fresh := fun hb => absurd (hb.symm.trans hbound) (by decide) }, hbound⟩

/-- With something wanted the estate is still lawful once the adapter is registered. -/
theorem Estate.Wants.lawful {v' : Estate} (h : v.Wants v') (hlawful : v.Lawful b)
    (hreg : v.registered = true) : v'.Lawful b := by
  obtain ⟨g, hv⟩ := h
  have hfirst : ({ v with granted := g }.store fun a => { a with wantListen := true }).Lawful b :=
    Estate.Lawful.store { hlawful with } (mild_wantListen true) fun _ => Or.inl hreg
  rcases hv with rfl | rfl
  · exact hfirst
  · exact hfirst.store (mild_listening true) fun _ => Or.inl hreg

/-- What the first two reads of a callback make of it. -/
theorem Estate.claimed_of_reads {a : Piix4Asf} (hset : a.settings = v.asf)
    (hclaimed : a.active = true → a.smba = b.auxSmba ∧ a.useMmio = true)
    (hactive : v.asf.active = true) : v.Claimed b ∧ a.smba = b.auxSmba := by
  have ha := hclaimed ((settings_active hset).trans hactive)
  have hsmba : a.settings.smba = v.asf.smba := congrArg Piix4Asf.smba hset
  have hmmio : a.settings.useMmio = v.asf.useMmio := congrArg Piix4Asf.useMmio hset
  exact ⟨⟨hactive, hsmba.symm.trans ha.1, hmmio.symm.trans ha.2⟩, ha.1⟩

/-- A callback that returns at once unless the block is claimed. -/
theorem ifClaimed_obeys {q : ℕ → Driver Unit} {Q : Unit → Hand → Prop}
    (hidle : v.asf.active = false → ∀ m : Hand, m.Takes k (.calling c v K) → Q () m)
    (hbusy : v.Claimed b → Obeys (ledger k b) (Hand.Takes k (.calling c v K)) (q b.auxSmba) Q) :
    Obeys (ledger k b) (Hand.Takes k (.calling c v K)) (do
      let smba := (← piix4Asf).smba
      if !(← piix4Asf).active then pure ()
      else q smba) Q := by
  refine .bind (coreAsf_obeys rfl) fun a₁ => .pure_pre fun h₁ => ?_
  refine .bind (coreAsf_obeys rfl) fun a₂ => .pure_pre fun h₂ => ?_
  rw [settings_active h₂.1]
  cases hactive : v.asf.active with
  | false => exact .ret fun m hm => hidle hactive m hm
  | true =>
    obtain ⟨hclaimed, hsmba⟩ := Estate.claimed_of_reads h₁.1 h₁.2 hactive
    rw [hsmba]
    exact hbusy hclaimed

/-- The mark at the beginning of start. -/
theorem starting_obeys :
    Obeys (ledger k b) (Hand.Takes k (.calling c v K)) (mark .starting) fun _ =>
      Hand.Takes k (.calling c { v with fenced := false } K) :=
  estate_obeys (fun _ v => { v with fenced := false }) (fun _ hm => hm.owns rfl trivial)
    fun _ _ _ _ h => h

/-- Start leaves nothing behind but what it owns. -/
theorem start_obeys (h : v.Lawful b) (hrest : v.Rest) (hbound : v.bound = true)
    (hadapter : v.auxAdapter = true) (hhalted : v.halted = false) :
    Obeys (ledger k b) (Hand.Takes k (.calling .start v anything)) (do
      piix4AsfStart
      perform (.coreDone .start)) fun _ => Resting := by
  have hreg : v.registered = true := hrest.adapter.trans hadapter
  have hbegun : ({ v with fenced := false } : Estate).Lawful b :=
    { h with delivering := fun hd => ⟨(h.delivering hd).1, (h.delivering hd).2.1, hreg, rfl⟩ }
  refine .bind (Q := fun _ m => ∃ v' : Estate, (v'.Lawful b ∧ v'.Rest ∧ v'.bound = true) ∧
    m.Takes k (.calling .start v' anything)) ?_ fun _ => ?_
  · unfold piix4AsfStart startBody
    refine .bind starting_obeys fun _ => ?_
    refine ifClaimed_obeys (q := fun smba => do
        lock .notify
        perform (.setDeliverOk true)
        unlock .notify
        lock .asf
        startLocked smba
        unlock .asf) (fun _ m hm => ⟨_, ⟨hbegun, { hrest with }, hbound⟩, hm⟩) fun hclaimed => ?_
    have hallowed : ({ v with fenced := false, deliverOk := true } : Estate).Lawful b :=
      { hbegun with
        delivering := fun _ => ⟨hclaimed.active, hadapter, hreg, rfl⟩
        halted := fun hh => absurd (hh.symm.trans hhalted) (by decide) }
    refine .bind (lockNotify_obeys rfl rfl rfl) fun _ => ?_
    refine .bind (estate_obeys (fun _ v => { v with deliverOk := true })
      (fun m hm => ⟨hm.notify, hm.owns rfl hallowed⟩) fun _ _ _ _ h => h) fun _ => ?_
    refine .bind (unlockNotify_obeys rfl) fun _ => ?_
    refine .bind coreLock_obeys fun _ => ?_
    refine .bind (startLocked_obeys hallowed { hclaimed with } hreg) fun _ => ?_
    intro m ⟨v', hwants, hm⟩
    have hdone := hwants.rest { hrest with } hbound
    exact (coreUnlock_obeys.post fun _ m hm =>
      ⟨v', ⟨hwants.lawful hallowed hreg, hdone⟩, hm⟩) m hm
  · intro m ⟨v', ⟨hlawful, hrest', hbound'⟩, hm⟩
    exact coreDone_obeys (c := .start) hrest' hlawful (fun hb => absurd (hb.symm.trans hbound') (by decide))
      nofun m hm

/-! ## Stopping -/

/-- The estate after `piix4_asf_quiesce`. -/
def Estate.quieted (v : Estate) : Estate := v.store fun a => { a with wantListen := false }

/-- Wanting less is always allowed. -/
theorem Estate.mayWant_less (h : v.Lawful b) {a : Piix4Asf} (hwant : a.wantListen = true → v.asf.wantListen = true)
    (hresume : a.resumeListen = true → v.asf.resumeListen = true) : v.MayWant a :=
  fun ha => h.wanted (ha.imp hwant hresume)

/-- A quieted estate is lawful. -/
theorem Estate.Lawful.quieted (h : v.Lawful b) : v.quieted.Lawful b :=
  h.store (mild_wantListen false) (Estate.mayWant_less h nofun id)

/-- Quieting the slave takes back what is wanted. -/
theorem quiesce_obeys (h : v.Lawful b) (hclaimed : v.Claimed b) :
    Obeys (ledger k b) (Hand.Takes k (.locked c v anything)) (piix4AsfQuiesce b.auxSmba) fun _ =>
      Hand.Takes k (.locked c v.quieted anything) := by
  have hquiet := h.quieted
  have hwork : (Stance.locked c v.quieted anything).Works b (Within b.asfWindow) :=
    asf_works hquiet hclaimed.active false
  have hlis : Within b.asfWindow (asfLisAddr b.auxSmba) := hwork.asf 0x09 (by decide) (by decide)
  have hslv : Within b.asfWindow (asfSlvEn b.auxSmba) := hwork.asf 0x15 (by decide) (by decide)
  unfold piix4AsfQuiesce
  refine .bind (field_obeys (mild_wantListen false) h (Estate.mayWant_less h nofun id) rfl rfl
    (Or.inl fun _ hl => hl)) fun _ => ?_
  refine .bind (onBlock_obeys hwork (updateIoport_onBlock hlis _ _)) fun _ => ?_
  refine .bind (onBlock_obeys hwork (updateIoport_onBlock hslv _ _)) fun _ => ?_
  refine .bind (onBlock_obeys hwork (updateIoport_onBlock hslv _ _)) fun _ => ?_
  refine .bind (onBlock_obeys hwork (clearStatus_onAsf hwork.asf)) fun _ => ?_
  refine .bind (field_obeys (mild_listening false) hquiet hquiet.wanted rfl rfl
    (Or.inl fun _ _ => rfl)) fun _ => ?_
  refine .bind (coreAsf_obeys rfl) fun a => .pure_pre fun _ => ?_
  have hlast : Obeys (ledger k b) (Hand.Takes k (.locked c v.quieted anything))
      (setAsf fun a => { a with pending := false }) fun _ =>
        Hand.Takes k (.locked c v.quieted anything) :=
    field_obeys mild_pending hquiet hquiet.wanted rfl rfl (Or.inl fun _ hl => hl)
  dsimp only
  split
  · exact .bind (onBlock_obeys hwork ⟨trivial, fun _ => trivial⟩) fun _ => hlast
  · exact hlast

/-- The critical section of stop. -/
theorem stopLocked_obeys (h : v.Lawful b) (hclaimed : v.Claimed b) :
    Obeys (ledger k b) (Hand.Takes k (.locked c v anything)) (stopLocked b.auxSmba) fun _ m =>
      ∃ g, m.Takes k (.locked c { v.quieted with granted := g } anything) := by
  have hkept : v.quieted.Claimed b := hclaimed.store (mild_wantListen false)
  have hgranted : ({ v.quieted with granted := true } : Estate).Lawful b := { h.quieted with }
  unfold stopLocked
  refine .bind (quiesce_obeys h hclaimed) fun _ => ?_
  refine .bind (claimedAsf_obeys hkept rfl) fun a => .pure_pre fun ha => ?_
  rw [ha.2]
  refine .bind (coreRequest_obeys true) fun r => ?_
  by_cases hr : r = 0
  · rw [if_pos hr]
    refine .pre ?_ fun m hm => (hm.resolve_right fun h => h.1 hr).2
    refine .bind (masterMode_obeys (asf_steers hgranted hkept.active)) fun _ => ?_
    have hkept' : ({ v.quieted with granted := true } : Estate).Claimed b := { hkept with }
    refine .bind (claimedAsf_obeys hkept' rfl) fun a => .pure_pre fun ha => ?_
    rw [ha.2]
    exact (regionRelease_obeys rfl).post fun _ m hm => ⟨true, hm⟩
  · rw [if_neg hr]
    exact .ret fun m hm => ⟨false, (hm.resolve_left fun h => hr h.1).2⟩

/-- The estate after `piix4_asf_stop`. -/
def Estate.stopped (v : Estate) (granted : Bool) : Estate :=
  { v with
    asf := { v.asf with
      listening := false, pending := false, wantListen := false, irqRequested := false }
    requested := false, deliverOk := false, fenced := true, granted := granted }

/-- A stopped estate is lawful. -/
theorem Estate.Lawful.stopped (h : v.Lawful b) (g : Bool) : (v.stopped g).Lawful b where
  registered := h.registered
  requested := nofun
  active ha := ⟨(h.active ha).1, { (h.active ha).2 with }⟩
  claimed := h.claimed
  enabling := h.enabling
  delivering := nofun
  wanted hw := by
    rcases h.wanted (Or.inr (hw.resolve_left nofun)) with hreg | hleave
    · exact Or.inl hreg
    · exact Or.inr ⟨hleave.1, rfl⟩
  halted _ := ⟨rfl, rfl⟩

/-- Without an IRQ there is less to stop. -/
theorem Estate.stopped_eq (hreq : v.requested = false) (hirq : v.asf.irqRequested = false) (g : Bool) :
    v.stopped g = { v.quieted with granted := g, deliverOk := false, fenced := true } := by
  simp [Estate.stopped, Estate.quieted, Estate.store, Piix4Asf.settings, hreq, hirq]

/-- Taking the permission to deliver away. -/
theorem undeliver_obeys (h : v.Lawful b) :
    Obeys (ledger k b) (Hand.Takes k (.calling c v K)) (do
      lock .notify
      perform (.setDeliverOk false)
      unlock .notify) fun _ => Hand.Takes k (.calling c { v with deliverOk := false } K) := by
  have hlawful : ({ v with deliverOk := false } : Estate).Lawful b :=
    { h with delivering := nofun, halted := fun hh => ⟨(h.halted hh).1, rfl⟩ }
  refine .bind (lockNotify_obeys rfl rfl rfl) fun _ => ?_
  refine .bind (estate_obeys (fun _ v => { v with deliverOk := false })
    (fun m hm => ⟨hm.notify, hm.owns rfl hlawful⟩) fun _ _ _ _ h => h) fun _ => ?_
  exact unlockNotify_obeys rfl

/-- `piix4_asf_stop` on a claimed block, up to its return. -/
theorem stopBody_obeys (h : v.Lawful b) (hactive : v.asf.active = true)
    (hirq : v.asf.irqRequested = v.requested) :
    Obeys (ledger k b) (Hand.Takes k (.calling c v anything)) stopBody fun _ m =>
      ∃ g, m.Takes k (.calling c { v.stopped g with fenced := v.fenced } anything) := by
  unfold stopBody
  refine ifClaimed_obeys (q := fun smba => do
    lock .asf
    stopLocked smba
    unlock .asf
    if (← piix4Asf).irqRequested then
      perform .freeIrq
      setAsf fun a => { a with irqRequested := false }
    lock .notify
    perform (.setDeliverOk false)
    unlock .notify) (fun hno => absurd (hno.symm.trans hactive) (by decide))
    fun hclaimed => ?_
  refine .bind coreLock_obeys fun _ => .bind (stopLocked_obeys h hclaimed) fun _ => ?_
  intro m ⟨g, hm⟩
  have hquiet : ({ v.quieted with granted := g } : Estate).Lawful b := { h.quieted with }
  refine Obeys.bind coreUnlock_obeys (fun _ => .bind (coreAsf_obeys rfl) fun a => .pure_pre fun ha => ?_)
    m hm
  have hread : a.irqRequested = v.requested :=
    (show a.settings.irqRequested = v.quieted.asf.irqRequested from
      congrArg Piix4Asf.irqRequested ha.1).trans hirq
  rw [hread]
  dsimp only
  cases hreq : v.requested with
  | false =>
    refine (undeliver_obeys hquiet).post fun _ m hm => ⟨g, ?_⟩
    rw [Estate.stopped_eq hreq (hirq.trans hreq)]
    exact hm
  | true =>
    have hfreed : ({ v.quieted with granted := g, requested := false } : Estate).Lawful b :=
      { hquiet with
        requested := nofun
        wanted := fun hw => (hquiet.wanted hw).imp id fun hl => ⟨hl.1, rfl⟩
        halted := fun hh => ⟨rfl, (hquiet.halted hh).2⟩ }
    refine .bind (estate_obeys (fun _ v => { v with requested := false })
      (fun m hm => ⟨hm.free rfl rfl rfl, hm.owns rfl ⟨hreq, hfreed⟩⟩) fun _ _ _ _ h => h) fun _ => ?_
    refine .bind (field_obeys (mild_irqRequested false) hfreed hfreed.wanted rfl rfl
      (Or.inl fun _ hl => hl)) fun _ => ?_
    exact (undeliver_obeys (hfreed.store (mild_irqRequested false) hfreed.wanted)).post fun _ m hm =>
      ⟨g, hm⟩

/-- The mark at the end of stop. -/
theorem stopped_obeys (hreq : v.requested = false) (hen : v.enabling = false)
    (h : ({ v with fenced := true } : Estate).Lawful b) :
    Obeys (ledger k b) (Hand.Takes k (.calling c v K)) (mark .stopped) fun _ =>
      Hand.Takes k (.calling c { v with fenced := true } K) :=
  estate_obeys (fun _ v => { v with fenced := true }) (fun _ hm => hm.owns rfl ⟨hreq, hen, h⟩)
    fun _ _ _ _ h => h

/-- `piix4_asf_stop` on a claimed block. -/
theorem piix4AsfStop_obeys (h : v.Lawful b) (hactive : v.asf.active = true)
    (hirq : v.asf.irqRequested = v.requested) (hen : v.enabling = false) :
    Obeys (ledger k b) (Hand.Takes k (.calling c v anything)) piix4AsfStop fun _ m =>
      ∃ g, m.Takes k (.calling c (v.stopped g) anything) := by
  refine .bind (stopBody_obeys h hactive hirq) fun _ => ?_
  intro m ⟨g, hm⟩
  exact (stopped_obeys (v := { v.stopped g with fenced := v.fenced }) rfl hen (h.stopped g)).post
    (fun _ m hm => ⟨g, hm⟩) m hm

/-- Stop frees the IRQ and leaves the rest to disable. -/
theorem stop_obeys (h : v.Lawful b) (hrest : v.Rest) (hbound : v.bound = true) :
    Obeys (ledger k b) (Hand.Takes k (.calling .stop v anything)) (do
      piix4AsfStop
      perform (.coreDone .stop)) fun _ => Resting := by
  have hunbound : v.bound = false → False := fun hb => absurd (hb.symm.trans hbound) (by decide)
  cases hactive : v.asf.active with
  | true =>
    obtain ⟨hgsi, hgsi', hirq⟩ := hrest.claimed hactive
    refine .bind (piix4AsfStop_obeys h hactive hirq hrest.enabling) fun _ => ?_
    intro m ⟨g, hm⟩
    have hlawful : ((v.stopped g).after .stop).Lawful b :=
      { h.stopped g with halted := fun _ => ⟨rfl, rfl⟩ }
    have hdone : ((v.stopped g).after .stop).Rest :=
      { hrest with
        claimed := fun _ => ⟨hgsi, hgsi', rfl⟩
        unclaimed := fun hno => absurd (hno.symm.trans hactive) (by decide)
        fresh := fun hb => (hunbound hb).elim
        vacant := fun hb => (hunbound hb).elim }
    exact coreDone_obeys hdone hlawful (fun hb => (hunbound hb).elim) nofun m hm
  | false =>
    -- there is nothing to stop
    have hreq := h.unrequested hactive
    have hdeliver := h.undelivered hactive
    have hfenced : ({ v with fenced := true } : Estate).Lawful b :=
      { h with delivering := fun hd => absurd (hd.symm.trans hdeliver) (by decide) }
    refine .bind (Q := fun _ => Hand.Takes k (.calling .stop { v with fenced := true } anything)) ?_ fun _ =>
      coreDone_obeys (c := .stop) { hrest with } { hfenced with halted := fun _ => ⟨hreq, hdeliver⟩ }
        (fun hb => (hunbound hb).elim) nofun
    refine .bind (Q := fun _ => Hand.Takes k (.calling .stop v anything)) ?_ fun _ =>
      stopped_obeys hreq hrest.enabling hfenced
    unfold stopBody
    exact ifClaimed_obeys (q := fun smba => do
      lock .asf
      stopLocked smba
      unlock .asf
      if (← piix4Asf).irqRequested then
        perform .freeIrq
        setAsf fun a => { a with irqRequested := false }
      lock .notify
      perform (.setDeliverOk false)
      unlock .notify) (fun _ _ hm => hm)
      fun hclaimed => absurd (hactive.symm.trans hclaimed.active) (by decide)

/-! ## Power management -/

/-- What an unbound driver knows from the beginning of a callback. -/
def stillUnbound (v : Estate) : Seen → Bool → Prop := fun _ st => v.bound = false → st = true

/-- A stance may forget what it knew. -/
theorem Hand.Takes.forget (h : m.Takes k p) : m.Takes k { p with known := anything } :=
  { h with known := trivial }

/-- The critical section of suspend lays aside at most what was wanted. -/
theorem suspendLocked_obeys (h : v.Lawful b) (hclaimed : v.Claimed b) :
    Obeys (ledger k b) (Hand.Takes k (.locked c v anything)) (suspendLocked b.auxSmba) fun _ m =>
      ∃ x, (x = true → v.asf.wantListen = true) ∧
        (m.Takes k (.locked c (v.store fun a => { a with resumeListen := x }) anything) ∨
          m.Takes k (.locked c (v.store fun a => { a with resumeListen := x }).quieted anything)) := by
  unfold suspendLocked
  refine .bind (coreAsf_obeys rfl) fun a => .pure_pre fun ha => ?_
  have hread : a.wantListen = v.asf.wantListen :=
    show a.settings.wantListen = v.asf.wantListen from congrArg Piix4Asf.wantListen ha.1
  have hwant : v.MayWant { v.asf with resumeListen := a.wantListen } := fun hx =>
    h.wanted (Or.inl (hx.elim id fun hr => hread.symm.trans hr))
  have hresume := mild_resumeListen a.wantListen
  have hstored := h.store hresume hwant
  refine .bind (field_obeys hresume h hwant rfl rfl (Or.inl fun _ hl => hl)) fun _ => ?_
  refine .bind (coreAsf_obeys rfl) fun a₂ => .pure_pre fun _ => ?_
  have hx : a.wantListen = true → v.asf.wantListen = true := fun hx => hread.symm.trans hx
  split
  · exact (quiesce_obeys hstored (hclaimed.store hresume)).post fun _ m hm =>
      ⟨a.wantListen, hx, Or.inr hm⟩
  · exact .ret fun m hm => ⟨a.wantListen, hx, Or.inl hm⟩

/-- Suspend as a whole respects the ledger. -/
theorem suspend_obeys (h : v.Lawful b) (hrest : v.Rest) :
    Obeys (ledger k b) (Hand.Takes k (.calling .suspend v (stillUnbound v))) (do
      piix4AsfSuspend
      perform (.coreDone .suspend)) fun _ => Resting := by
  have hdone : ∀ v' : Estate, v'.Lawful b → v'.Rest → (v'.bound = false → v.bound = false) →
      Obeys (ledger k b) (Hand.Takes k (.calling .suspend v' (stillUnbound v)))
        (perform (.coreDone .suspend)) fun _ => Resting := by
    intro v' hl hr hb
    have hlawful : (v'.after .suspend).Lawful b := { hl with }
    exact coreDone_obeys (c := .suspend) { hr with } hlawful (fun hb' n st hst => hst (hb hb')) nofun
  refine .bind (Q := fun _ m => ∃ v' : Estate, (v'.Lawful b ∧ v'.Rest ∧ (v'.bound = false → v.bound = false)) ∧
    m.Takes k (.calling .suspend v' (stillUnbound v))) ?_ fun _ m ⟨v', hv', hm⟩ =>
      hdone v' hv'.1 hv'.2.1 hv'.2.2 m hm
  unfold piix4AsfSuspend
  refine ifClaimed_obeys (q := fun smba => do
    lock .asf
    suspendLocked smba
    unlock .asf) (fun _ m hm => ⟨v, ⟨h, hrest, id⟩, hm⟩) fun hclaimed => ?_
  have hbound : v.bound = false → False := fun hb => by
    have hloaded := congrArg Piix4Asf.active (hrest.fresh hb)
    exact absurd (hloaded.symm.trans hclaimed.active) (by decide)
  refine .pre (.bind coreLock_obeys fun _ => .bind (suspendLocked_obeys h hclaimed) fun _ => ?_)
    fun m hm => hm.forget
  intro m ⟨x, hx, hm⟩
  have hwant : v.MayWant { v.asf with resumeListen := x } := fun ha =>
    h.wanted (Or.inl (ha.elim id hx))
  have hstored := h.store (mild_resumeListen x) hwant
  have hkeep : ∀ v' : Estate, v'.Lawful b ∧ v'.Rest ∧ (v'.bound = false → v.bound = false) →
      m.Takes k (.locked .suspend v' anything) →
      Follows (ledger k b) (fun _ m => ∃ v' : Estate, (v'.Lawful b ∧ v'.Rest ∧
        (v'.bound = false → v.bound = false)) ∧ m.Takes k (.calling .suspend v' (stillUnbound v)))
        (unlock .asf) m := fun v' hv' hm =>
    coreUnlock_obeys.post (fun _ m hm => ⟨v', hv', { hm with known := fun hb => (hbound hb).elim }⟩) m hm
  rcases hm with hm | hm
  · exact hkeep _ ⟨hstored, { hrest with fresh := fun hb => (hbound hb).elim }, id⟩ hm
  · exact hkeep _ ⟨hstored.quieted, { hrest with fresh := fun hb => (hbound hb).elim }, id⟩ hm

/-- The critical section of resume wants again what was laid aside. -/
theorem resumeLocked_obeys (h : v.Lawful b) (hclaimed : v.Claimed b) (hreg : v.registered = true) :
    Obeys (ledger k b) (Hand.Takes k (.locked c v anything)) (resumeLocked b.auxSmba) fun _ m =>
      ∃ v', v.Wants v' ∧ m.Takes k (.locked c v' anything) := by
  have hwant := mild_wantListen true
  have hstored : ∀ g, ({ v with granted := g }.store fun a => { a with wantListen := true }).Lawful b :=
    fun g => Estate.Lawful.store { h with } hwant fun _ => Or.inl hreg
  have hkept : ∀ g, ({ v with granted := g }.store fun a => { a with wantListen := true }).Claimed b :=
    fun g => Estate.Claimed.store { hclaimed with } hwant
  unfold resumeLocked
  refine .bind (field_obeys hwant h (fun _ => Or.inl hreg) rfl rfl (Or.inl fun _ hl => hl)) fun _ => ?_
  refine .bind (claimedAsf_obeys (hkept v.granted) rfl) fun a => .pure_pre fun ha => ?_
  rw [ha.2]
  refine .bind (coreRequest_obeys true) fun r => ?_
  by_cases hr : r = 0
  · rw [if_pos hr]
    refine .pre ?_ fun m hm => (hm.resolve_right fun h => h.1 hr).2
    have hwork := (asf_steers (c := c) (K := anything) (b := b) (hstored true) (hkept true).active).toWorks
    have hslv : Within b.asfWindow (asfSlvEn b.auxSmba) := hwork.asf 0x15 (by decide) (by decide)
    refine .bind (onBlock_obeys hwork (updateIoport_onBlock hslv _ _)) fun _ => ?_
    refine .bind (onBlock_obeys hwork (outb_onAsf hwork.asf (by decide) (by decide) _)) fun _ => ?_
    exact (coreArm_obeys (hstored true) (hkept true) hreg).post fun _ m hm =>
      ⟨_, ⟨true, Or.inr rfl⟩, hm⟩
  · rw [if_neg hr]
    exact .ret fun m hm => ⟨_, ⟨false, Or.inl rfl⟩, (hm.resolve_left fun h => hr h.1).2⟩

/-- Resume as a whole respects the ledger. -/
theorem resume_obeys (h : v.Lawful b) (hrest : v.Rest) (hleaving : v.leaving = false) :
    Obeys (ledger k b) (Hand.Takes k (.calling .resume v (stillUnbound v))) (do
      piix4AsfResume
      perform (.coreDone .resume)) fun _ => Resting := by
  refine .bind (Q := fun _ m => ∃ v' : Estate, (v'.Lawful b ∧ v'.Rest ∧ (v'.bound = false → v.bound = false)) ∧
    m.Takes k (.calling .resume v' (stillUnbound v))) ?_ fun _ m ⟨v', hv', hm⟩ =>
      coreDone_obeys (c := .resume) hv'.2.1 hv'.1 (fun hb n st hst => hst (hv'.2.2 hb)) nofun m hm
  unfold piix4AsfResume
  refine .bind (coreAsf_obeys rfl) fun a₁ => .pure_pre fun h₁ => ?_
  refine .bind (coreAsf_obeys rfl) fun a₂ => .pure_pre fun h₂ => ?_
  refine .bind (coreAsf_obeys rfl) fun a₃ => .pure_pre fun h₃ => ?_
  by_cases hcond : (!a₂.active || !a₃.resumeListen) = true
  · rw [if_pos hcond]
    exact .ret fun m hm => ⟨v, ⟨h, hrest, id⟩, hm⟩
  · rw [if_neg hcond]
    simp only [Bool.or_eq_true, Bool.not_eq_true', not_or, Bool.not_eq_false] at hcond
    have hactive : v.asf.active = true := (settings_active h₂.1).symm.trans hcond.1
    have hresume : v.asf.resumeListen = true :=
      (show a₃.settings.resumeListen = v.asf.resumeListen from
        congrArg Piix4Asf.resumeListen h₃.1).symm.trans hcond.2
    have hreg : v.registered = true :=
      (h.wanted (Or.inr hresume)).resolve_right fun hl => absurd (hl.1.symm.trans hleaving) (by decide)
    obtain ⟨hclaimed, hsmba⟩ := Estate.claimed_of_reads h₁.1 h₁.2 hactive
    have hbound : v.bound = true := by
      by_contra hb
      have hloaded := congrArg Piix4Asf.active (hrest.fresh (by simpa using hb))
      exact absurd (hloaded.symm.trans hactive) (by decide)
    rw [hsmba]
    refine .pre (.bind coreLock_obeys fun _ => .bind (resumeLocked_obeys h hclaimed hreg) fun _ => ?_)
      fun m hm => hm.forget
    intro m ⟨v', hwants, hm⟩
    have hdone := hwants.rest hrest hbound
    refine coreUnlock_obeys.post (fun _ m hm => ⟨v', ⟨hwants.lawful h hreg, hdone.1, ?_⟩, ?_⟩) m hm
    · exact fun hb => absurd (hb.symm.trans hdone.2) (by decide)
    · exact { hm with known := fun hb => absurd (hb.symm.trans hbound) (by decide) }

/-! ## The auxiliary adapter -/

/-- How giving a window back changes the account of a callback. -/
theorem releaseRegion_obeys {w : ℕ × ℕ} (hrole : p.role = .core c v)
    (hheld : (w = b.auxWindow ∧ v.auxHeld = true) ∨ (w = b.asfWindow ∧ v.asfHeld = true))
    (hlawful : (v.setWindow b w false).Lawful b) :
    Obeys (ledger k b) (Hand.Takes k p) (perform (.releaseRegion w.1 w.2)) fun _ =>
      Hand.Takes k { p with role := .core c (v.setWindow b w false) } := by
  refine .perform fun m hm => ⟨Or.inl (hm.owns hrole ⟨hheld, hlawful⟩), fun r m' hmove => ?_⟩
  obtain rfl : m' = { m with role := .core c (v.setWindow b w false) } := by
    rw [show m' = _ from hmove, hm.role, hrole]
  exact { hm with role := rfl }

/-- The auxiliary window is the one over the port. -/
theorem setWindow_aux (x : Bool) : v.setWindow b b.auxWindow x = { v with auxHeld := x } := if_pos rfl

/-- The other one is over the block. -/
theorem setWindow_asfHeld (x : Bool) : v.setWindow b b.asfWindow x = { v with asfHeld := x } := by
  have hne : b.asfWindow ≠ b.auxWindow := fun h => nomatch congrArg Prod.snd h
  rw [Estate.setWindow, if_neg hne, if_pos rfl]

/-- A port whose adapter was never registered may be orphaned. -/
theorem Estate.Lawful.orphan (h : v.Lawful b) (hreg : v.registered = false) :
    ({ v with orphaned := true, auxHeld := false } : Estate).Lawful b :=
  { h with
    registered := fun hr => absurd (hr.symm.trans hreg) (by decide)
    requested := fun hr => ⟨(h.requested hr).1, Or.inr rfl⟩ }

/-- Assigning `piix4_aux_adapter`. -/
theorem setAuxAdapter_obeys (x : Bool) (h : ({ v with auxAdapter := x } : Estate).Lawful b) :
    Obeys (ledger k b) (Hand.Takes k (.calling c v K)) (perform (.setAuxAdapter x)) fun _ =>
      Hand.Takes k (.calling c { v with auxAdapter := x } K) :=
  estate_obeys (fun _ v => { v with auxAdapter := x }) (fun _ hm => hm.owns rfl h) fun _ _ _ _ h => h

/-- A failed registration gives the port's window back. -/
theorem addFailed_obeys (h : v.Lawful b) (haux : v.auxHeld = true) (hreg : v.registered = false) :
    Obeys (ledger k b) (Hand.Takes k (.calling c v K)) (addFailed b.auxSmba) fun _ =>
      Hand.Takes k (.calling c { v with orphaned := true, auxHeld := false } K) := by
  unfold addFailed
  refine .bind (estate_obeys (fun _ v => { v with orphaned := true })
    (fun m hm => hm.owns rfl trivial) fun _ _ _ _ h => h) fun _ => ?_
  have hrelease := releaseRegion_obeys (k := k) (b := b) (v := { v with orphaned := true })
    (p := .calling c { v with orphaned := true } K) (w := b.auxWindow) rfl (Or.inl ⟨rfl, haux⟩)
  rw [setWindow_aux] at hrelease
  exact hrelease (h.orphan hreg)

/-- Registering the adapter, with its way out. -/
theorem addAdapter_obeys (h : v.Lawful b) (hrest : v.Rest) (hbound : v.bound = true)
    (hreg : v.registered = false) (haux : v.auxHeld = true) :
    Obeys (ledger k b) (Hand.Takes k (.calling .addAdapter v anything)) (do
      piix4AddAdapter b.auxSmba
      perform (.coreDone .addAdapter)) fun _ => Resting := by
  have hunbound : v.bound = false → False := fun hb => absurd (hb.symm.trans hbound) (by decide)
  have hadapter : v.auxAdapter = false := hrest.adapter.symm.trans hreg
  refine .bind (Q := fun _ m => ∃ v' : Estate, (v'.Lawful b ∧ v'.Rest ∧ v'.bound = true) ∧
    m.Takes k (.calling .addAdapter v' anything)) ?_ fun _ m ⟨v', hv', hm⟩ =>
      coreDone_obeys (c := .addAdapter) hv'.2.1 hv'.1
        (fun hb => absurd (hb.symm.trans hv'.2.2) (by decide)) nofun m hm
  have hidle : ∀ {o : Op} {P : Hand → Prop}, (∀ m : Hand, m.allows k b o) →
      (∀ (m : Hand) r m', m.moves k b o r m' → m' = m) →
      Obeys (ledger k b) P (perform o) fun _ => P := fun h₁ h₂ => idle_obeys h₁ h₂
  have hfailed : Obeys (ledger k b) (Hand.Takes k (.calling .addAdapter v anything))
      (addFailed b.auxSmba) fun _ m => ∃ v' : Estate, (v'.Lawful b ∧ v'.Rest ∧ v'.bound = true) ∧
        m.Takes k (.calling .addAdapter v' anything) := by
    have hout : ({ v with orphaned := true, auxHeld := false } : Estate).Rest :=
      { hrest with vacant := fun hb => (hunbound hb).elim }
    exact (addFailed_obeys h haux hreg).post fun _ m hm => ⟨_, ⟨h.orphan hreg, hout, hbound⟩, hm⟩
  unfold piix4AddAdapter
  refine .bind (hidle (fun _ => trivial) fun _ _ _ h => h) fun got => ?_
  cases got with
  | false => exact hfailed
  | true =>
    have halgo : Obeys (ledger k b) (Hand.Takes k (.calling .addAdapter v anything))
        (piix4AsfAlgo b.auxSmba) fun _ => Hand.Takes k (.calling .addAdapter v anything) := by
      unfold piix4AsfAlgo
      refine .bind (coreAsf_obeys rfl) fun a => .pure_pre fun _ => ?_
      split
      · exact .ret fun _ hm => hm
      · exact .bind (coreAsf_obeys rfl) fun a => .pure_pre fun _ => .ret fun _ hm => hm
    refine .bind halgo fun algo => ?_
    refine .bind (hidle (fun _ => trivial) fun _ _ _ h => h) fun got => ?_
    cases got with
    | false => exact hfailed
    | true =>
      have hadded : ({ v with registered := true } : Estate).Lawful b :=
        { h with
          registered := fun _ => haux
          enabling := fun hen => absurd (hen.symm.trans hrest.enabling) (by decide)
          delivering := fun hd => ⟨(h.delivering hd).1, (h.delivering hd).2.1, rfl, (h.delivering hd).2.2.2⟩
          wanted := fun _ => Or.inl rfl }
      refine .bind (estate_obeys (fun r v => { v with registered := v.registered || decide (r = 0) })
        (fun m hm => hm.owns rfl ⟨hreg, hadded⟩) fun _ _ _ _ h => h) fun r => ?_
      by_cases hr : r = 0
      · rw [if_neg (not_not.mpr hr)]
        have hstate : (Role.core CoreCall.addAdapter v).onEstate (fun v =>
            { v with registered := v.registered || decide (r = 0) }) =
            .core .addAdapter { v with registered := true } := by
          simp [Role.onEstate, hr]
        refine .pre (P := Hand.Takes k (.calling .addAdapter { v with registered := true } anything)) ?_
          fun m hm => { hm with role := hm.role.trans hstate }
        have hboth : ({ v with registered := true, auxAdapter := true } : Estate).Lawful b :=
          { hadded with
            delivering := fun hd => ⟨(h.delivering hd).1, rfl, rfl, (h.delivering hd).2.2.2⟩ }
        have hdone : ({ v with registered := true, auxAdapter := true } : Estate).Rest :=
          { hrest with adapter := rfl, vacant := fun hb => (hunbound hb).elim }
        exact (setAuxAdapter_obeys true hboth).post fun _ m hm => ⟨_, ⟨hboth, hdone, hbound⟩, hm⟩
      · rw [if_pos hr]
        refine .pre hfailed fun m hm => { hm with role := hm.role.trans ?_ }
        simp [Role.onEstate, hr, Stance.calling]

/-- Removing the adapter respects the ledger. -/
theorem adapRemove_obeys (h : v.Lawful b) (hrest : v.Rest) (hbound : v.bound = true)
    (hadapter : v.auxAdapter = true) (hreq : v.requested = false) (hdeliver : v.deliverOk = false)
    (hleaving : v.leaving = true) :
    Obeys (ledger k b) (Hand.Takes k (.calling .adapRemove v anything)) (do
      piix4AdapRemove b.auxSmba
      perform (.coreDone .adapRemove)) fun _ => Resting := by
  have hreg : v.registered = true := hrest.adapter.trans hadapter
  have hdeleted : ({ v with registered := false } : Estate).Lawful b :=
    { h with
      registered := nofun
      enabling := fun _ => rfl
      delivering := fun hd => absurd (hd.symm.trans hdeliver) (by decide)
      wanted := fun _ => Or.inr ⟨hleaving, hreq⟩ }
  have hvacated : ({ v with registered := false, auxHeld := false } : Estate).Lawful b :=
    { hdeleted with
      registered := nofun
      requested := fun hr => absurd (hr.symm.trans hreq) (by decide) }
  have hcleared : ({ v with registered := false, auxHeld := false, auxAdapter := false } :
      Estate).Lawful b :=
    { hvacated with delivering := fun hd => absurd (hd.symm.trans hdeliver) (by decide) }
  refine .bind ?_ fun _ => coreDone_obeys (c := .adapRemove)
    (v := { v with registered := false, auxHeld := false, auxAdapter := false }) (K := anything)
    { hrest with adapter := rfl, vacant := fun _ _ => rfl } hcleared
    (fun hb => absurd (hb.symm.trans hbound) (by decide)) nofun
  unfold piix4AdapRemove
  refine .bind (estate_obeys (fun _ v => { v with registered := false })
    (fun m hm => ⟨hm.free rfl rfl rfl, hm.owns rfl ⟨hreg, hreq, hdeleted⟩⟩) fun _ _ _ _ h => h) fun _ => ?_
  have hrelease := releaseRegion_obeys (k := k) (b := b) (v := { v with registered := false })
    (p := .calling .adapRemove { v with registered := false } anything) (w := b.auxWindow) rfl
    (Or.inl ⟨rfl, h.registered hreg⟩)
  rw [setWindow_aux] at hrelease
  refine .bind (hrelease hvacated) fun _ => ?_
  exact setAuxAdapter_obeys false hcleared

end HostNotify
