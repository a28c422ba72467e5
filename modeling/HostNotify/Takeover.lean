import HostNotify.Errands

/-!
# Claiming the block and giving it back

The two callbacks during which the block is unclaimed but driven: `piix4_asf_enable` saves the
firmware's state before it changes anything, and `piix4_asf_disable` writes it back.
-/

namespace HostNotify

open Bits Interleaving

variable {k : Setting} {b : Board} {m : Hand} {p : Stance} {c : CoreCall} {v : Estate}
  {K K' : Seen → Bool → Prop}

/-! ## Giving back -/

/-- A write to a register of the unclaimed block is remembered. -/
theorem seenOutb_obeys {port : ℕ} {r : Reg} {x : Byte} (hrole : p.role = .core c v)
    (hunclaimed : v.asf.active = false) (hlock : p.asf = true) (hheld : v.asfHeld = true)
    (hport : Within b.asfWindow port) (hreg : decode b.auxSmba port = some r)
    (hK : ∀ n st, p.known n st → K (n.write r x) st) :
    Obeys (ledger k b) (Hand.Takes k p) (outb x port) fun _ => Hand.Takes k { p with known := K } := by
  refine .perform fun m hm => ⟨?_, fun _ m' hmove => ?_⟩
  · change m.Reaches b port
    unfold Hand.Reaches
    rw [hm.role, hrole]
    exact Or.inr ⟨hport, hm.asf.trans hlock, hheld⟩
  · obtain rfl : m' = { m with seen := m.seen.write r x } := by
      rw [show m' = m.written b x port from hmove]
      unfold Hand.written
      rw [hm.role, hrole, hreg]
      dsimp only
      rw [hunclaimed]
      rfl
    exact { hm with known := hK _ _ hm.known }

/-- The registers in which the firmware state has been written back, apart from DecodeEn. -/
structure Seen.Ports (h : Target) (n : Seen) : Prop where
  lisaddr : n.lisaddr = some h.lisaddr
  slven : n.slven = some h.slven
  bnksel : n.bnksel = some (h.bnksel &&& ~~~asfBnkFull)

/-- The whole firmware state has been written back. -/
structure Seen.Boot (h : Target) (n : Seen) : Prop extends Seen.Ports h n where
  modes : n.modes = some (getElem h.decodeEn 16 (fits rfl), getElem h.decodeEn 17 (fits rfl))

/-- What has been written back from the boot values restores them. -/
theorem Seen.Boot.restored (h : m.seen.Boot v.boot) : m.Restored v :=
  ⟨h.lisaddr, h.slven, h.bnksel, h.modes⟩

/-- The word that gives the mode bits back. -/
theorem restored_word {d ctl boot : BitVec 32} (hctl : ctl = boot &&& Estate.modeBits) :
    ((d &&& ~~~(bit asfMstrEn ||| bit asfClkEn)) ||| ctl) &&& ~~~Estate.modeBits =
        d &&& ~~~Estate.modeBits ∧
      getElem ((d &&& ~~~(bit asfMstrEn ||| bit asfClkEn)) ||| ctl) 16 (fits rfl) =
        getElem boot 16 (fits rfl) ∧
      getElem ((d &&& ~~~(bit asfMstrEn ||| bit asfClkEn)) ||| ctl) 17 (fits rfl) =
        getElem boot 17 (fits rfl) := by
  subst hctl
  refine ⟨?_, ?_, ?_⟩
  · ext j hj
    simp only [Estate.modeBits, BitVec.getElem_and, BitVec.getElem_or, BitVec.getElem_not]
    cases (bit asfMstrEn : BitVec 32)[j] <;> cases (bit asfClkEn : BitVec 32)[j] <;> simp
  · simp [Estate.modeBits]
  · simp [Estate.modeBits]

/-- Storing the mode bits that firmware had, under the region. -/
theorem restoreModes_obeys (hunclaimed : v.asf.active = false) {ctl d : BitVec 32}
    (hctl : ctl = v.boot.decodeEn &&& Estate.modeBits) {P : Hand → Prop}
    (hP : ∀ m, P m → m.Takes k { Stance.locked c v (fun n _ => n.Ports v.boot) with held := true } ∧
      (k.Spares → ∀ q, m.region = some q → d = q.1)) :
    Obeys (ledger k b) P
      (iowrite32 ((d &&& ~~~(bit asfMstrEn ||| bit asfClkEn)) ||| ctl)) fun _ =>
        Hand.Takes k { Stance.locked c v (fun n _ => n.Boot v.boot) with held := true } := by
  refine .perform fun m hPm => ?_
  obtain ⟨hm, hd⟩ := hP m hPm
  refine ⟨⟨hm.region_some rfl, Or.inr (hm.owns rfl trivial), fun hk q hq => ?_⟩, fun _ m' hmove => ?_⟩
  · rw [(restored_word hctl).1, hd hk q hq]
  · obtain rfl := (show m' = m.switched _ from hmove)
    have hseen : (m.switched ((d &&& ~~~(bit asfMstrEn ||| bit asfClkEn)) ||| ctl)).seen =
        { m.seen with
          modes := some (((d &&& ~~~(bit asfMstrEn ||| bit asfClkEn)) ||| ctl)[16],
            ((d &&& ~~~(bit asfMstrEn ||| bit asfClkEn)) ||| ctl)[17]) } := by
      unfold Hand.switched
      dsimp only
      rw [hm.role]
      exact if_neg (by simp [hunclaimed])
    refine { hm with held := Option.isSome_map.trans hm.held, known := ?_, square := ?_ }
    · rw [hseen]
      refine { hm.known with modes := ?_ }
      dsimp only
      rw [(restored_word hctl).2.1, (restored_word hctl).2.2]
    · intro hk q hq
      obtain ⟨q₀, hq₀, rfl⟩ := Option.map_eq_some_iff.mp hq
      have hold := hm.square hk q₀ hq₀
      have hword := (restored_word (d := d) hctl).1
      rw [hd hk q₀ hq₀] at hword ⊢
      dsimp only
      rw [← hold, adopt_self hword]

/-- `piix4_asf_restore_boot_state` under the mutex and the region. -/
theorem restoreBootState_obeys (hunclaimed : v.asf.active = false) (hheld : v.asfHeld = true)
    (hsaved : Estate.Saved v.asf v.boot) :
    Obeys (ledger k b) (Hand.Takes k { Stance.locked c v anything with held := true })
      (piix4AsfRestoreBootState b.auxSmba) fun _ =>
        Hand.Takes k { Stance.locked c v (fun n _ => n.Boot v.boot) with held := true } := by
  have hport := asfPorts_window b
  have hread : ∀ {K : Seen → Bool → Prop}, Obeys (ledger k b)
      (Hand.Takes k { Stance.locked c v K with held := true }) piix4Asf fun a m =>
        a.settings = v.asf ∧ m.Takes k { Stance.locked c v K with held := true } := fun {K} =>
    (coreAsf_obeys (p := { Stance.locked c v K with held := true }) rfl).post fun _ _ h => ⟨h.1.1, h.2⟩
  unfold piix4AsfRestoreBootState
  refine .bind hread fun a₁ => .pure_pre fun _ => ?_
  refine .bind (seenOutb_obeys (K := anything) rfl hunclaimed rfl hheld
    (hport 0x15 (by decide) (by decide)) (decode_asfSlvEn _) fun _ _ _ => trivial) fun _ => ?_
  refine .bind hread fun a₂ => .pure_pre fun h₂ => ?_
  have hlis : a₂.bootLisaddr = v.boot.lisaddr :=
    (show a₂.settings.bootLisaddr = v.asf.bootLisaddr from congrArg Piix4Asf.bootLisaddr h₂).trans
      hsaved.lisaddr
  rw [hlis]
  refine .bind (seenOutb_obeys (K := fun n _ => n.lisaddr = some v.boot.lisaddr) rfl hunclaimed rfl
    hheld (hport 0x09 (by decide) (by decide)) (decode_asfLisAddr _) fun _ _ _ => rfl) fun _ => ?_
  refine .bind hread fun a₃ => .pure_pre fun h₃ => ?_
  have hbnk : (a₃.bootBnksel &&& ~~~asfBnkFull) &&& ~~~asfBnkFull = v.boot.bnksel &&& ~~~asfBnkFull := by
    have hread : a₃.settings.bootBnksel = v.asf.bootBnksel := congrArg Piix4Asf.bootBnksel h₃
    rw [show a₃.bootBnksel = v.asf.bootBnksel from hread, BitVec.and_assoc, BitVec.and_self]
    exact hsaved.bnksel
  refine .bind (seenOutb_obeys (K := fun n _ => n.lisaddr = some v.boot.lisaddr ∧
      n.bnksel = some (v.boot.bnksel &&& ~~~asfBnkFull)) rfl hunclaimed rfl hheld
    (hport 0x13 (by decide) (by decide)) (decode_asfDataBnkSel _) fun _ _ hn =>
      ⟨hn, congrArg some hbnk⟩) fun _ => ?_
  have hstatus : ∀ {r : Reg} {x : Byte} {K : Seen → Bool → Prop} {port : ℕ}, Within b.asfWindow port →
      decode b.auxSmba port = some r → (∀ n : Seen, n.write r x = n) →
      Obeys (ledger k b) (Hand.Takes k { Stance.locked c v K with held := true }) (outb x port)
        fun _ => Hand.Takes k { Stance.locked c v K with held := true } :=
    fun hw hd hn => seenOutb_obeys rfl hunclaimed rfl hheld hw hd fun n _ h => (hn n).symm ▸ h
  have hclear : ∀ {K : Seen → Bool → Prop}, Obeys (ledger k b)
      (Hand.Takes k { Stance.locked c v K with held := true }) (piix4AsfClearStatus b.auxSmba)
        fun _ => Hand.Takes k { Stance.locked c v K with held := true } := by
    intro K
    refine .bind (hstatus (hport 0x0D (by decide) (by decide)) (decode_asfSlvSta _) fun _ => rfl) fun _ => ?_
    refine .bind (hstatus (hport 0x0A (by decide) (by decide)) (decode_asfSta _) fun _ => rfl) fun _ => ?_
    exact hstatus (hport 0x0A (by decide) (by decide)) (decode_asfSta _) fun _ => rfl
  refine .bind hclear fun _ => ?_
  refine .bind hread fun a₄ => .pure_pre fun h₄ => ?_
  have hslv : a₄.bootSlven = v.boot.slven :=
    (show a₄.settings.bootSlven = v.asf.bootSlven from congrArg Piix4Asf.bootSlven h₄).trans
      hsaved.slven
  rw [hslv]
  refine .bind (seenOutb_obeys (K := fun n _ => n.Ports v.boot) rfl hunclaimed rfl hheld
    (hport 0x15 (by decide) (by decide)) (decode_asfSlvEn _) fun _ _ hn => ⟨hn.1, rfl, hn.2⟩) fun _ => ?_
  refine .bind (Q := fun d m => m.Takes k { Stance.locked c v (fun n _ => n.Ports v.boot) with held := true } ∧
    (k.Spares → ∀ q, m.region = some q → d = q.1))
    (.perform fun m hm => ⟨hm.region_some rfl, fun d m' hmove => ?_⟩) fun d => ?_
  · obtain ⟨rfl, hd⟩ := hmove
    exact ⟨hm, fun hk => hd (Or.inl hk)⟩
  refine .bind (Q := fun a m => a.settings = v.asf ∧
      m.Takes k { Stance.locked c v (fun n _ => n.Ports v.boot) with held := true } ∧
      (k.Spares → ∀ q, m.region = some q → d = q.1)) ?_ fun a₅ => .pure_pre fun h₅ => ?_
  · refine .perform fun m hm => ⟨trivial, fun a m' hmove => ?_⟩
    obtain ⟨hreads, rfl⟩ := hmove
    have hsame : m.read a = m := by
      unfold Hand.read
      rw [show m.role = .core c v from hm.1.role]
    rw [hsame]
    exact ⟨hreads.settings c v hm.1.role, hm⟩
  · refine restoreModes_obeys hunclaimed ?_ fun _ hm => hm
    exact (show a₅.settings.bootCtl = v.asf.bootCtl from congrArg Piix4Asf.bootCtl h₅).trans
      hsaved.ctl

/-- The estate once the block has been given back. -/
def Estate.unclaimed (v : Estate) : Estate := v.store fun a => { a with active := false }

/-- Without the claim the estate is lawful. -/
theorem Estate.Lawful.unclaimed (h : v.Lawful b) (hreq : v.requested = false)
    (hdeliver : v.deliverOk = false) : v.unclaimed.Lawful b where
  registered := h.registered
  requested hr := absurd (hr.symm.trans hreq) (by decide)
  active := nofun
  claimed := nofun
  enabling := h.enabling
  delivering hd := absurd (hd.symm.trans hdeliver) (by decide)
  wanted := h.wanted
  halted := h.halted

/-- Whenever the region was to be had, the firmware state is back. -/
def givenBack (v : Estate) : Seen → Bool → Prop :=
  fun n _ => v.granted = true → n.Boot v.boot

/-- Giving the block back to the firmware, under the mutex. -/
theorem unclaimLocked_obeys (h : v.Lawful b) (hclaimed : v.Claimed b) (hreq : v.requested = false)
    (hdeliver : v.deliverOk = false) :
    Obeys (ledger k b) (Hand.Takes k (.locked c v anything)) (unclaimLocked b.auxSmba) fun _ m =>
      ∃ g, m.Takes k (.locked c { v.unclaimed with granted := g }
        (givenBack { v.unclaimed with granted := g })) := by
  obtain ⟨hheld, hsaved⟩ := h.active hclaimed.active
  have hread : ∀ (held : Bool) {K : Seen → Bool → Prop} (g : Bool), Obeys (ledger k b)
      (Hand.Takes k { Stance.locked c { v.unclaimed with granted := g } K with held := held }) piix4Asf
      fun a m => a.useMmio = true ∧
        m.Takes k { Stance.locked c { v.unclaimed with granted := g } K with held := held } :=
    fun _ {_} g => (coreAsf_obeys (v := { v.unclaimed with granted := g }) rfl).post fun a _ h =>
      ⟨(show a.settings.useMmio = v.unclaimed.asf.useMmio from
        congrArg Piix4Asf.useMmio h.1.1).trans hclaimed.useMmio, h.2⟩
  unfold unclaimLocked
  refine .bind (store_obeys (c := c) (v := v) (K := anything) rfl ⟨fun _ => rfl, fun _ hp => hp⟩
    (h.unclaimed hreq hdeliver) (fun _ => rfl) (Or.inl fun _ hl => hl) fun _ _ _ => trivial) fun _ => ?_
  refine .bind (hread false v.granted) fun a => .pure_pre fun ha => ?_
  rw [ha]
  refine .bind (coreRequest_obeys true) fun r => ?_
  by_cases hr : r = 0
  · rw [if_pos hr]
    refine .pre ?_ fun m hm => (hm.resolve_right fun h => h.1 hr).2
    refine .bind (restoreBootState_obeys (v := { v.unclaimed with granted := true }) rfl hheld
      { hsaved with }) fun _ => ?_
    refine .bind (hread true true) fun a => .pure_pre fun ha => ?_
    rw [ha]
    exact (regionRelease_obeys rfl).post fun _ m hm => ⟨true, { hm with known := fun _ => hm.known }⟩
  · rw [if_neg hr]
    exact .ret fun m hm =>
      ⟨false, { (hm.resolve_left fun h => hr h.1).2 with known := fun hno => nomatch hno }⟩

/-! ## `piix4_asf_disable` -/

/-- Nothing of the ASF half is left but the fields of the global. -/
structure Estate.Vacated (v : Estate) : Prop where
  active : v.asf.active = false
  requested : v.requested = false
  deliverOk : v.deliverOk = false
  gsiHeld : v.gsiHeld = false
  asfHeld : v.asfHeld = false
  enabling : v.enabling = false
  adapter : v.registered = v.auxAdapter
  window : v.registered = v.auxHeld

/-- The estate with the driver's global as it was loaded. -/
def Estate.reloaded (v : Estate) : Estate := { v with asf := Piix4Asf.loaded }

/-- An estate that has been vacated is lawful. -/
theorem Estate.Vacated.lawful (h : v.Vacated) {a : Piix4Asf} (hactive : a.active = false)
    (hwant : a.wantListen = false) (hresume : a.resumeListen = false) :
    ({ v with asf := a } : Estate).Lawful b where
  registered hr := h.window.symm.trans hr
  requested hr := absurd (hr.symm.trans h.requested) (by decide)
  active ha := absurd (ha.symm.trans hactive) (by decide)
  claimed ha := absurd (ha.symm.trans hactive) (by decide)
  enabling he := absurd (he.symm.trans h.enabling) (by decide)
  delivering hd := absurd (hd.symm.trans h.deliverOk) (by decide)
  wanted hw := hw.elim (fun hw => absurd (hw.symm.trans hwant) (by decide))
    fun hr => absurd (hr.symm.trans hresume) (by decide)
  halted _ := ⟨h.requested, h.deliverOk⟩

/-- Clearing the driver's global. -/
theorem clearGlobal_obeys (h : v.Vacated) (hK : ∀ n st, K n st → givenBack v n st) :
    Obeys (ledger k b) (Hand.Takes k (.calling c v K)) (do
      setAsf fun _ => Piix4Asf.zero
      setAsf fun a => { a with irq := -1 }) fun _ =>
      Hand.Takes k (.calling c v.reloaded fun n st => st = true ∧ givenBack v n st) := by
  have hzero : (v.store fun _ => Piix4Asf.zero).Vacated := { h with active := rfl }
  have hclears : Hand.clears v.asf (fun _ => Piix4Asf.zero) = true := rfl
  refine .bind (store_obeys (c := c) (v := v) (K := fun n st => st = true ∧ givenBack v n st) rfl
    ⟨fun _ => rfl, fun _ _ => rfl⟩ (hzero.lawful rfl rfl rfl)
    (fun hne => absurd h.active.symm hne) (Or.inl fun _ _ => rfl) fun n st hn => ⟨?_, hK n st hn⟩) fun _ => ?_
  · rw [h.requested, hclears, Bool.not_false, Bool.and_true, Bool.or_true]
    rfl
  · exact store_obeys (c := c) (v := v.store fun _ => Piix4Asf.zero)
      (K := fun n st => st = true ∧ givenBack v n st) rfl ⟨fun _ => rfl, fun _ hp => hp⟩
      (h.lawful rfl rfl rfl) (fun hne => absurd rfl hne) (Or.inl fun _ hl => hl)
      fun n st hn => ⟨by rw [hn.1, Bool.true_or]; rfl, hn.2⟩

/-- Disable ends with the estate vacated. -/
theorem disableDone_obeys (h : v.Vacated) :
    Obeys (ledger k b) (Hand.Takes k (.calling .disable v.reloaded
      fun n st => st = true ∧ givenBack v n st)) (perform (.coreDone .disable)) fun _ => Resting := by
  have hlawful : (v.reloaded.after .disable).Lawful b :=
    { h.lawful (a := Piix4Asf.loaded) rfl rfl rfl with wanted := fun hw => hw.elim nofun nofun }
  refine coreDone_obeys (c := .disable) ?_ hlawful (fun _ n st hn => hn.1)
    fun _ hg _ m hm => { (hm.2 hg).restored with }
  exact {
    enabling := h.enabling
    claimed := nofun
    unclaimed := fun _ => ⟨h.gsiHeld, h.asfHeld, rfl, rfl⟩
    adapter := h.adapter
    fresh := fun _ => rfl
    vacant := fun _ hr => h.window.symm.trans hr }

/-- Giving the GSI back, before going on with `q`. -/
theorem unregisterGsi_obeys {A : Type} {q : Driver A} {Q : A → Hand → Prop} (hgsi : v.gsiHeld = true)
    (hgsi' : v.asf.gsiRegistered = true)
    (hq : Obeys (ledger k b) (Hand.Takes k (.calling c { v with gsiHeld := false } K)) q Q) :
    Obeys (ledger k b) (Hand.Takes k (.calling c v K)) (do
      if (← piix4Asf).gsiRegistered then perform (.acpiUnregisterGsi (← piix4Asf).gsi)
      q) Q := by
  refine .bind (coreAsf_obeys rfl) fun a => .pure_pre fun ha => ?_
  have hread : a.gsiRegistered = true :=
    (show a.settings.gsiRegistered = v.asf.gsiRegistered from
      congrArg Piix4Asf.gsiRegistered ha.1).trans hgsi'
  dsimp only
  rw [if_pos hread]
  refine .bind (coreAsf_obeys rfl) fun a₂ => .pure_pre fun _ => ?_
  exact .bind (estate_obeys (fun _ v => { v with gsiHeld := false })
    (fun m hm => hm.owns rfl hgsi) fun _ _ _ _ h => h) fun _ => hq

/-- Giving the target block's own window back. -/
theorem releaseIoregion_obeys (h : v.Lawful b) (hunclaimed : v.asf.active = false)
    (hheld : v.asfHeld = true) :
    Obeys (ledger k b) (Hand.Takes k (.calling c v K)) (enableReleaseIoregion b.auxSmba) fun _ =>
      Hand.Takes k (.calling c { v with asfHeld := false } K) := by
  have hrelease := releaseRegion_obeys (k := k) (b := b) (v := v) (p := .calling c v K)
    (w := b.asfWindow) rfl (Or.inr ⟨rfl, hheld⟩)
  rw [setWindow_asfHeld] at hrelease
  exact hrelease { h with active := fun ha => absurd (ha.symm.trans hunclaimed) (by decide) }

/-- Disable gives back all it owns. -/
theorem disable_obeys (h : v.Lawful b) (hrest : v.Rest)
    (hmay : v.registered = true ∨ v.auxHeld = false) (hgranted : v.granted = false) :
    Obeys (ledger k b) (Hand.Takes k (.calling .disable v anything)) (do
      piix4AsfDisable
      perform (.coreDone .disable)) fun _ => Resting := by
  have hwindow : v.registered = v.auxHeld := by
    rcases hmay with hreg | haux
    · rw [hreg, h.registered hreg]
    · cases hreg : v.registered with
      | false => exact haux.symm
      | true => exact (h.registered hreg).symm
  refine .bind (Q := fun _ m => ∃ v' : Estate, v'.Vacated ∧ m.Takes k (.calling .disable v'.reloaded
    fun n st => st = true ∧ givenBack v' n st)) ?_ fun _ m ⟨v', hv', hm⟩ =>
      disableDone_obeys hv' m hm
  unfold piix4AsfDisable
  refine .bind (coreAsf_obeys rfl) fun a₁ => .pure_pre fun h₁ => ?_
  refine .bind (coreAsf_obeys rfl) fun a₂ => .pure_pre fun h₂ => ?_
  rw [settings_active h₂.1]
  dsimp only
  cases hactive : v.asf.active with
  | false =>
    obtain ⟨hgsi, hasf, _, _⟩ := hrest.unclaimed hactive
    have hvacated : v.Vacated :=
      ⟨hactive, h.unrequested hactive, h.undelivered hactive, hgsi, hasf, hrest.enabling, hrest.adapter,
        hwindow⟩
    exact (clearGlobal_obeys hvacated fun _ _ _ hg => absurd (hg.symm.trans hgranted) (by decide)).post
      fun _ m hm => ⟨v, hvacated, hm⟩
  | true =>
    obtain ⟨hgsi, hgsi', hirq⟩ := hrest.claimed hactive
    obtain ⟨hclaimed, hsmba⟩ := Estate.claimed_of_reads h₁.1 h₁.2 hactive
    rw [hsmba]
    refine .bind (piix4AsfStop_obeys h hactive hirq hrest.enabling) fun _ m ⟨g, hm⟩ => ?_
    have hstopped := h.stopped g
    have hkept : (v.stopped g).Claimed b := { hclaimed with }
    refine Obeys.bind coreLock_obeys (fun _ => .bind (unclaimLocked_obeys hstopped hkept rfl rfl)
      fun _ m ⟨g', hm⟩ => ?_) m hm
    have hlawful : ({ (v.stopped g).unclaimed with granted := g' } : Estate).Lawful b :=
      { hstopped.unclaimed rfl rfl with }
    have hheld := (h.active hactive).1
    have hvacated : ({ (v.stopped g).unclaimed with granted := g', gsiHeld := false, asfHeld := false } :
        Estate).Vacated :=
      ⟨rfl, rfl, rfl, rfl, rfl, hrest.enabling, hrest.adapter, hwindow⟩
    refine Obeys.bind coreUnlock_obeys (fun _ => unregisterGsi_obeys
      (v := { (v.stopped g).unclaimed with granted := g' }) hgsi hgsi' ?_) m hm
    have hreleased : ({ (v.stopped g).unclaimed with granted := g', gsiHeld := false } : Estate).Lawful b :=
      { hlawful with }
    refine .bind (releaseIoregion_obeys hreleased rfl hheld) fun _ => ?_
    exact (clearGlobal_obeys hvacated fun _ _ hn => hn).post fun _ m hm => ⟨_, hvacated, hm⟩

/-! ## `piix4_asf_enable` -/

/-- Storing a field that claims nothing. -/
structure Neutral (f : Piix4Asf → Piix4Asf) : Prop where
  tame : Hand.Tame f
  active : ∀ a, (f a).active = a.active
  listening : ∀ a, (f a).listening = a.listening
  wantListen : ∀ a, (f a).wantListen = a.wantListen
  resumeListen : ∀ a, (f a).resumeListen = a.resumeListen
  irqRequested : ∀ a, (f a).irqRequested = a.irqRequested

/-- What stays so while probe is claiming the block. -/
structure Estate.Opening (v : Estate) : Prop where
  active : v.asf.active = false
  requested : v.requested = false
  deliverOk : v.deliverOk = false
  registered : v.registered = false
  adapter : v.auxAdapter = false
  enabling : v.enabling = true
  asleep : v.asleep = false
  halted : v.halted = false
  wantListen : v.asf.wantListen = false
  resumeListen : v.asf.resumeListen = false
  irqRequested : v.asf.irqRequested = false

/-- An opening estate is lawful. -/
theorem Estate.Opening.lawful (h : v.Opening) : v.Lawful b where
  registered hr := absurd (hr.symm.trans h.registered) (by decide)
  requested hr := absurd (hr.symm.trans h.requested) (by decide)
  active ha := absurd (ha.symm.trans h.active) (by decide)
  claimed ha := absurd (ha.symm.trans h.active) (by decide)
  enabling _ := h.registered
  delivering hd := absurd (hd.symm.trans h.deliverOk) (by decide)
  wanted hw := hw.elim (fun hw => absurd (hw.symm.trans h.wantListen) (by decide))
    fun hr => absurd (hr.symm.trans h.resumeListen) (by decide)
  halted _ := ⟨h.requested, h.deliverOk⟩

/-- Neutral assignments leave it one. -/
theorem Estate.Opening.store {f : Piix4Asf → Piix4Asf} (h : v.Opening) (hf : Neutral f) :
    (v.store f).Opening :=
  { h with
    active := (hf.active v.asf).trans h.active
    wantListen := (hf.wantListen v.asf).trans h.wantListen
    resumeListen := (hf.resumeListen v.asf).trans h.resumeListen
    irqRequested := (hf.irqRequested v.asf).trans h.irqRequested }

/-- Probe stores such a field. -/
theorem openField_obeys {f : Piix4Asf → Piix4Asf} (hf : Neutral f) (h : v.Opening)
    (hrole : p.role = .core c v) (hK : ∀ n st st', p.known n st → p.known n st') :
    Obeys (ledger k b) (Hand.Takes k p) (setAsf f) fun _ =>
      Hand.Takes k { p with role := .core c (v.store f) } := by
  have hkept : (f v.asf).active = v.asf.active := hf.active v.asf
  refine store_obeys (K := p.known) hrole hf.tame (h.store hf).lawful (fun hne => absurd hkept hne)
    (Or.inl fun a hl => (hf.listening a).trans hl) fun n st hn => ?_
  rw [if_neg (by rw [hkept, h.active]; decide)]
  exact hK n st _ hn

/-- Probe has failed to claim the block, or has not tried. -/
structure Estate.Declined (v : Estate) : Prop extends v.Opening where
  gsiHeld : v.gsiHeld = false
  asfHeld : v.asfHeld = false
  gsiRegistered : v.asf.gsiRegistered = false

/-- The two ways in which probe leaves the estate. -/
def Estate.Enabled (b : Board) (v : Estate) : Prop :=
  (v.after .enable).Rest ∧ (v.after .enable).Lawful b

/-- A probe that declines may end there. -/
theorem Estate.Declined.enabled (h : v.Declined) : v.Enabled b :=
  ⟨{ enabling := rfl
     claimed := fun ha => absurd (ha.symm.trans h.active) (by decide)
     unclaimed := fun _ => ⟨h.gsiHeld, h.asfHeld, h.gsiRegistered, h.irqRequested⟩
     adapter := h.registered.trans h.adapter.symm
     fresh := nofun
     vacant := nofun },
    { h.lawful with enabling := nofun }⟩

/-- Probe's claim ends with the block enabled. -/
theorem enableDone_obeys (h : v.Enabled b) :
    Obeys (ledger k b) (Hand.Takes k (.calling .enable v anything)) (perform (.coreDone .enable))
      fun _ => Resting :=
  coreDone_obeys h.1 h.2 nofun nofun

/-- A register of the block that has just been saved reads as it was found. -/
theorem readBack_obeys {port : ℕ} {h : Target} (hrole : p.role = .core c v) (hawake : v.asleep = false)
    (hlock : p.asf = true) (hheld : v.asfHeld = true) (hport : Within b.asfWindow port)
    (hK : ∀ n st, p.known n st → n = Seen.of h) :
    Obeys (ledger k b) (Hand.Takes k p) (inb port) fun x m =>
      ((decode b.auxSmba port = some .lisaddr → x = h.lisaddr) ∧
        (decode b.auxSmba port = some .slven → x = h.slven) ∧
        (decode b.auxSmba port = some .bnksel →
          x &&& ~~~asfBnkFull = h.bnksel &&& ~~~asfBnkFull)) ∧ m.Takes k p := by
  refine .perform fun m hm => ⟨?_, fun x m' hmove => ?_⟩
  · change m.Reaches b port
    unfold Hand.Reaches
    rw [hm.role, hrole]
    exact Or.inr ⟨hport, hm.asf.trans hlock, hheld⟩
  · obtain ⟨rfl, hfinds⟩ := hmove
    have hseen : m'.seen = Seen.of h := hK _ _ hm.known
    have howns : m'.Owns fun _ e => e.asleep = false := hm.owns hrole hawake
    refine ⟨⟨fun hd => ?_, fun hd => ?_, fun hd => ?_⟩, hm⟩
    · exact hfinds.lisaddr howns hd _ (by rw [hseen]; rfl)
    · exact hfinds.slven howns hd _ (by rw [hseen]; rfl)
    · exact hfinds.bnksel howns hd _ (by rw [hseen]; rfl)

/-- Probe has claimed the block, but for the IRQ. -/
structure Estate.Holding (b : Board) (v : Estate) : Prop extends v.Claimed b where
  lawful : v.Lawful b
  requested : v.requested = false
  deliverOk : v.deliverOk = false
  registered : v.registered = false
  adapter : v.auxAdapter = false
  enabling : v.enabling = true
  asleep : v.asleep = false
  halted : v.halted = false
  wantListen : v.asf.wantListen = false
  resumeListen : v.asf.resumeListen = false
  irqRequested : v.asf.irqRequested = false
  gsiHeld : v.gsiHeld = true
  gsiRegistered : v.asf.gsiRegistered = true
  auxHeld : v.auxHeld = true

/-- What probe has got hold of before it saves the firmware state. -/
structure Estate.Ready (b : Board) (v : Estate) : Prop extends v.Opening where
  smba : v.asf.smba = b.auxSmba
  useMmio : v.asf.useMmio = true
  gsiHeld : v.gsiHeld = true
  gsiRegistered : v.asf.gsiRegistered = true
  asfHeld : v.asfHeld = true
  auxHeld : v.auxHeld = true

/-- Storing a field of the saved state. -/
theorem neutral_boot (x : BitVec 32) : Neutral fun a => { a with bootCtl := x } :=
  ⟨⟨fun _ => rfl, fun _ h => h⟩, fun _ => rfl, fun _ => rfl, fun _ => rfl, fun _ => rfl, fun _ => rfl⟩

/-- Saving the listening address is neutral. -/
theorem neutral_lisaddr (x : Byte) : Neutral fun a => { a with bootLisaddr := x } :=
  ⟨⟨fun _ => rfl, fun _ h => h⟩, fun _ => rfl, fun _ => rfl, fun _ => rfl, fun _ => rfl, fun _ => rfl⟩

/-- Saving the enable bits is neutral. -/
theorem neutral_slven (x : Byte) : Neutral fun a => { a with bootSlven := x } :=
  ⟨⟨fun _ => rfl, fun _ h => h⟩, fun _ => rfl, fun _ => rfl, fun _ => rfl, fun _ => rfl, fun _ => rfl⟩

/-- Saving the bank selection is neutral. -/
theorem neutral_bnksel (x : Byte) : Neutral fun a => { a with bootBnksel := x } :=
  ⟨⟨fun _ => rfl, fun _ h => h⟩, fun _ => rfl, fun _ => rfl, fun _ => rfl, fun _ => rfl, fun _ => rfl⟩

/-- The estate with the state in which probe found the block. -/
def Estate.found (v : Estate) (h : Target) : Estate := { v with boot := h, orphaned := false }

/-- The stance of probe while it saves the state `h`. -/
def Stance.saving (v : Estate) (h : Target) : Stance :=
  { Stance.locked .enable v (fun n _ => n = Seen.of h) with held := true }

/-- The boot values are those the block was found with. -/
theorem bootSaved_obeys (h : v.Ready b) {A : Type} {q : Driver A} {Q : A → Hand → Prop}
    (hq : ∀ h : Target, Obeys (ledger k b) (fun m => m.Takes k (.saving (v.found h) h) ∧
      ∀ q, m.region = some q → h.decodeEn = q.1) q Q) :
    Obeys (ledger k b) (Hand.Takes k { Stance.locked .enable v anything with held := true })
      (do mark .bootSaved; q) Q := by
  refine .bind (Q := fun _ m => ∃ h : Target, m.Takes k (.saving (v.found h) h) ∧
      ∀ q, m.region = some q → h.decodeEn = q.1)
    (.perform fun m hm => ⟨hm.owns rfl ⟨h.active, h.auxHeld⟩, fun _ m' hmove => ?_⟩)
    fun _ m ⟨h, hm⟩ => hq h m hm
  obtain ⟨g, hd, rfl⟩ := hmove
  have hm' := hm.onEstate fun v => { v with boot := g, orphaned := false }
  refine ⟨g, { hm' with known := rfl }, fun q hq => hd (Or.inr (hm.owns rfl h.asleep)) q ?_⟩
  rw [Hand.onEstate_role] at hq
  exact hq

/-- Saving one register: it is read as found, and the field is stored. -/
theorem saveReg_obeys {port : ℕ} {h : Target} {f : Byte → Piix4Asf → Piix4Asf} {A : Type} {q : Driver A}
    {Q : A → Hand → Prop} (hopen : v.Opening) (hheld : v.asfHeld = true) (hport : Within b.asfWindow port)
    (hf : ∀ x, Neutral (f x))
    (hq : ∀ x, (decode b.auxSmba port = some .lisaddr → x = h.lisaddr) ∧
        (decode b.auxSmba port = some .slven → x = h.slven) ∧
        (decode b.auxSmba port = some .bnksel → x &&& ~~~asfBnkFull = h.bnksel &&& ~~~asfBnkFull) →
      Obeys (ledger k b) (Hand.Takes k (.saving (v.store (f x)) h)) q Q) :
    Obeys (ledger k b) (Hand.Takes k (.saving v h)) (do
      let x ← inb port
      setAsf (f x)
      q) Q := by
  have hread := readBack_obeys (k := k) (b := b) (p := .saving v h) (h := h) rfl hopen.asleep rfl hheld hport
    fun _ _ hn => hn
  refine .bind hread fun x => .pure_pre fun hx => ?_
  exact .bind (openField_obeys (hf x) hopen rfl fun _ _ _ hn => hn) fun _ => hq x hx

/-- The estate once everything has been saved. -/
def Estate.saved (v : Estate) (h : Target) (ctl : BitVec 32) (bnksel : Byte) : Estate :=
  (v.found h).store fun a => { a with
    bootCtl := ctl &&& Estate.modeBits, bootLisaddr := h.lisaddr, bootSlven := h.slven
    bootBnksel := bnksel }

/-- Saving them one by one is saving them together. -/
theorem Estate.saved_eq (v : Estate) (h : Target) (ctl : BitVec 32) (bnksel : Byte) :
    ((((v.found h).store fun a => { a with bootCtl := ctl &&& Estate.modeBits }).store
      fun a => { a with bootLisaddr := h.lisaddr }).store
      fun a => { a with bootSlven := h.slven }).store (fun a => { a with bootBnksel := bnksel }) =
      v.saved h ctl bnksel := rfl

/-- With the boot values saved the estate is still ready. -/
theorem Estate.Ready.saved (h : v.Ready b) (g : Target) (ctl : BitVec 32) (bnksel : Byte) :
    (v.saved g ctl bnksel).Ready b where
  toOpening := ⟨h.active, h.requested, h.deliverOk, h.registered, h.adapter, h.enabling, h.asleep,
    h.halted, h.wantListen, h.resumeListen, h.irqRequested⟩
  smba := h.smba
  useMmio := h.useMmio
  gsiHeld := h.gsiHeld
  gsiRegistered := h.gsiRegistered
  asfHeld := h.asfHeld
  auxHeld := h.auxHeld

/-- A block that has been saved and is in master mode may be claimed. -/
theorem Estate.Ready.holding (h : v.Ready b) {g : Target} {ctl : BitVec 32} {bnksel : Byte}
    (hctl : ctl = g.decodeEn)
    (hbnk : bnksel &&& ~~~asfBnkFull = g.bnksel &&& ~~~asfBnkFull) :
    ((v.saved g ctl bnksel).store fun a => { a with active := true }).Holding b where
  active := rfl
  smba := h.smba
  useMmio := h.useMmio
  lawful :=
    { (h.saved g ctl bnksel).toOpening.lawful (b := b) with
      requested := fun hr => absurd (hr.symm.trans h.requested) (by decide)
      active := fun _ => ⟨h.asfHeld, rfl, rfl, hbnk, congrArg (· &&& Estate.modeBits) hctl⟩
      claimed := fun _ => ⟨h.smba, h.useMmio⟩
      delivering := fun hd => absurd (hd.symm.trans h.deliverOk) (by decide) }
  requested := h.requested
  deliverOk := h.deliverOk
  registered := h.registered
  adapter := h.adapter
  enabling := h.enabling
  asleep := h.asleep
  halted := h.halted
  wantListen := h.wantListen
  resumeListen := h.resumeListen
  irqRequested := h.irqRequested
  gsiHeld := h.gsiHeld
  gsiRegistered := h.gsiRegistered
  auxHeld := h.auxHeld

/-- Saving the firmware state, before going on with `q`. -/
theorem saveBoot_obeys (h : v.Ready b) (g : Target) {q : Driver Unit} {Q : Unit → Hand → Prop}
    (hq : ∀ ctl bnksel, ctl = g.decodeEn →
      bnksel &&& ~~~asfBnkFull = g.bnksel &&& ~~~asfBnkFull →
      Obeys (ledger k b) (Hand.Takes k (.saving (v.saved g ctl bnksel) g)) q Q) :
    Obeys (ledger k b) (fun m => m.Takes k (.saving (v.found g) g) ∧
      ∀ q, m.region = some q → g.decodeEn = q.1) (do
        let ctl ← ioread32
        setAsf fun a => { a with bootCtl := ctl &&& (bit asfMstrEn ||| bit asfClkEn) }
        let lisaddr ← inb (asfLisAddr b.auxSmba)
        setAsf fun a => { a with bootLisaddr := lisaddr }
        let slven ← inb (asfSlvEn b.auxSmba)
        setAsf fun a => { a with bootSlven := slven }
        let bnksel ← inb (asfDataBnkSel b.auxSmba)
        setAsf fun a => { a with bootBnksel := bnksel }
        q) Q := by
  have hport := asfPorts_window b
  have hopen : (v.found g).Opening := { h.toOpening with }
  have hmodes : Obeys (ledger k b) (fun m => m.Takes k (.saving (v.found g) g) ∧
      ∀ q, m.region = some q → g.decodeEn = q.1) ioread32 fun ctl m =>
        ctl = g.decodeEn ∧ m.Takes k (.saving (v.found g) g) := by
    refine .perform fun m hm => ?_
    have hsome := hm.1.region_some rfl
    refine ⟨hsome, fun d m' hmove => ?_⟩
    obtain ⟨rfl, hd⟩ := hmove
    obtain ⟨q, hq⟩ := Option.ne_none_iff_exists'.mp hsome
    exact ⟨(hd (Or.inr (hm.1.owns rfl h.asleep)) q hq).trans (hm.2 q hq).symm, hm.1⟩
  refine .bind hmodes fun ctl => .pure_pre fun hctl => ?_
  have hopen₁ := hopen.store (neutral_boot (ctl &&& Estate.modeBits))
  refine .bind (openField_obeys (neutral_boot (ctl &&& Estate.modeBits)) hopen rfl
    fun _ _ _ hn => hn) fun _ => ?_
  refine saveReg_obeys (f := fun x a => { a with bootLisaddr := x }) hopen₁ h.asfHeld
    (hport 0x09 (by decide) (by decide)) neutral_lisaddr fun lisaddr hlis => ?_
  rw [hlis.1 (decode_asfLisAddr _)]
  have hopen₂ := hopen₁.store (neutral_lisaddr g.lisaddr)
  refine saveReg_obeys (f := fun x a => { a with bootSlven := x }) hopen₂ h.asfHeld
    (hport 0x15 (by decide) (by decide)) neutral_slven fun slven hsl => ?_
  rw [hsl.2.1 (decode_asfSlvEn _)]
  have hopen₃ := hopen₂.store (neutral_slven g.slven)
  refine saveReg_obeys (f := fun x a => { a with bootBnksel := x }) hopen₃ h.asfHeld
    (hport 0x13 (by decide) (by decide)) neutral_bnksel fun bnksel hbnk => ?_
  have hrest := hq ctl bnksel hctl (hbnk.2.2 (decode_asfDataBnkSel _))
  rw [← Estate.saved_eq] at hrest
  exact hrest

/-- The takeover leaves a claimed block. -/
theorem enableTakeover_obeys (h : v.Ready b) :
    Obeys (ledger k b) (Hand.Takes k { Stance.calling .enable v anything with held := true })
      (enableTakeover b.auxSmba) fun _ m => ∃ v' : Estate, v'.Holding b ∧
        m.Takes k { Stance.calling .enable v' anything with held := true } := by
  unfold enableTakeover
  refine .bind (lockAsf_obeys rfl rfl (Or.inr ⟨_, v, rfl, h.enabling⟩)) fun _ => ?_
  refine bootSaved_obeys h fun g => saveBoot_obeys h g fun ctl bnksel hctl hbnk => ?_
  have hready := h.saved g ctl bnksel
  have hsteers : { Stance.locked .enable (v.saved g ctl bnksel) anything with held := true }.Steers b
      (Within b.asfWindow) :=
    ⟨Stance.works_core (asfPorts_window b) rfl rfl hready.asfHeld (fun _ hw => Or.inl hw)
      fun _ _ _ _ _ => trivial, rfl, Or.inr ⟨.enable, _, rfl⟩⟩
  refine .pre (.bind (masterMode_obeys hsteers) fun _ => ?_) fun m hm => { hm with known := trivial }
  have hholding := h.holding hctl hbnk
  refine .bind (store_obeys (K := anything) rfl ⟨fun _ => rfl, fun _ hp => hp⟩ hholding.lawful
    (fun _ => rfl) (Or.inl fun _ hl => hl) fun _ _ _ => trivial) fun _ => ?_
  exact (unlockAsf_obeys rfl).post fun _ m hm => ⟨_, hholding, hm⟩

/-- Probe gives the block's window back, having claimed nothing else. -/
theorem declineWindow_obeys (h : v.Opening) (hgsi : v.gsiHeld = false)
    (hgsi' : v.asf.gsiRegistered = false) (hheld : v.asfHeld = true) :
    Obeys (ledger k b) (Hand.Takes k (.calling .enable v anything)) (enableReleaseIoregion b.auxSmba)
      fun _ m => ∃ v' : Estate, v'.Enabled b ∧ m.Takes k (.calling .enable v' anything) := by
  have hdeclined : ({ v with asfHeld := false } : Estate).Declined :=
    { h with gsiHeld := hgsi, asfHeld := rfl, gsiRegistered := hgsi' }
  exact (releaseIoregion_obeys h.lawful h.active hheld).post fun _ m hm => ⟨_, hdeclined.enabled, hm⟩

/-- Noting the interrupt is neutral. -/
theorem neutral_gsiRegistered (x : Bool) : Neutral fun a => { a with gsiRegistered := x } :=
  ⟨⟨fun _ => rfl, fun _ h => h⟩, fun _ => rfl, fun _ => rfl, fun _ => rfl, fun _ => rfl, fun _ => rfl⟩

/-- Noting the interrupt's number is neutral. -/
theorem neutral_irq (x : Int) : Neutral fun a => { a with irq := x } :=
  ⟨⟨fun _ => rfl, fun _ h => h⟩, fun _ => rfl, fun _ => rfl, fun _ => rfl, fun _ => rfl, fun _ => rfl⟩

/-- Clearing the word for the thread is neutral. -/
theorem neutral_pending : Neutral fun a => { a with pending := false } :=
  ⟨⟨fun _ => rfl, fun _ _ => rfl⟩, fun _ => rfl, fun _ => rfl, fun _ => rfl, fun _ => rfl, fun _ => rfl⟩

/-- Noting the way of access is neutral. -/
theorem neutral_useMmio (x : Bool) : Neutral fun a => { a with useMmio := x } :=
  ⟨⟨fun _ => rfl, fun _ h => h⟩, fun _ => rfl, fun _ => rfl, fun _ => rfl, fun _ => rfl, fun _ => rfl⟩

/-- The `unregister_gsi` label. -/
theorem enableUnregisterGsi_obeys (h : v.Opening) (hgsi : v.gsiHeld = true)
    (hgsi' : v.asf.gsiRegistered = true) (hheld : v.asfHeld = true) :
    Obeys (ledger k b) (Hand.Takes k (.calling .enable v anything)) (enableUnregisterGsi b.auxSmba)
      fun _ m => ∃ v' : Estate, v'.Enabled b ∧ m.Takes k (.calling .enable v' anything) := by
  have hfreed : ({ v with gsiHeld := false } : Estate).Opening := { h with }
  have hcleared := hfreed.store (neutral_gsiRegistered false)
  have hirq := hcleared.store (neutral_irq (-1))
  unfold enableUnregisterGsi
  refine unregisterGsi_obeys hgsi hgsi' ?_
  refine .bind (openField_obeys (neutral_gsiRegistered false) hfreed rfl fun _ _ _ hn => hn) fun _ => ?_
  refine .bind (openField_obeys (neutral_irq (-1)) hcleared rfl fun _ _ _ hn => hn) fun _ => ?_
  exact declineWindow_obeys hirq rfl rfl hheld

/-- The `restore` label respects the ledger. -/
theorem enableRestore_obeys (h : v.Holding b) :
    Obeys (ledger k b) (Hand.Takes k (.calling .enable v anything)) (enableRestore b.auxSmba)
      fun _ m => ∃ v' : Estate, v'.Enabled b ∧ m.Takes k (.calling .enable v' anything) := by
  unfold enableRestore
  refine .bind coreLock_obeys fun _ => ?_
  refine .bind (unclaimLocked_obeys h.lawful h.toClaimed h.requested h.deliverOk) fun _ m ⟨g, hm⟩ => ?_
  have hopen : ({ v.unclaimed with granted := g } : Estate).Opening :=
    ⟨rfl, h.requested, h.deliverOk, h.registered, h.adapter, h.enabling, h.asleep, h.halted,
      h.wantListen, h.resumeListen, h.irqRequested⟩
  have hheld := (h.lawful.active h.active).1
  refine Obeys.bind coreUnlock_obeys (fun _ => ?_) m hm
  exact (enableUnregisterGsi_obeys hopen h.gsiHeld h.gsiRegistered hheld).pre fun m hm =>
    { hm with known := trivial }

/-- The IRQ is the last thing that probe asks for. -/
theorem enableRequest_obeys (h : v.Holding b) (irq : Int) (shareable : Bool) :
    Obeys (ledger k b) (Hand.Takes k (.calling .enable v anything)) (do
      if (← perform (.requestThreadedIrq irq shareable)) ≠ 0 then enableRestore b.auxSmba
      else setAsf fun a => { a with irqRequested := true }) fun _ m =>
        ∃ v' : Estate, v'.Enabled b ∧ m.Takes k (.calling .enable v' anything) := by
  have hlawful : ({ v with requested := true } : Estate).Lawful b :=
    { h.lawful with
      requested := fun _ => ⟨h.active, Or.inl h.auxHeld⟩
      enabling := fun _ => h.registered
      wanted := fun hw => hw.elim (fun hw => absurd (hw.symm.trans h.wantListen) (by decide))
        fun hr => absurd (hr.symm.trans h.resumeListen) (by decide)
      halted := fun hh => absurd (hh.symm.trans h.halted) (by decide) }
  have hrequest : Obeys (ledger k b) (Hand.Takes k (.calling .enable v anything))
      (perform (.requestThreadedIrq irq shareable)) fun r =>
        Hand.Takes k (.calling .enable { v with requested := decide (r = 0) } anything) := by
    refine .perform fun m hm => ⟨hm.owns rfl ⟨h.requested, h.enabling, hlawful⟩, fun r m' hmove => ?_⟩
    obtain rfl : m' = _ := hmove
    have hm' := hm.onEstate fun v => { v with requested := v.requested || decide (r = 0) }
    refine { hm' with role := hm'.role.trans ?_, known := trivial }
    simp [Stance.calling, Role.onEstate, h.requested]
  refine .bind hrequest fun r => ?_
  by_cases hr : r = 0
  · rw [if_neg (not_not.mpr hr), decide_eq_true hr]
    have hwant : ({ v with requested := true } : Estate).MayWant { v.asf with irqRequested := true } :=
      hlawful.wanted
    have hstored := hlawful.store (mild_irqRequested true) hwant
    have hrest : ((({ v with requested := true } : Estate).store fun a =>
        { a with irqRequested := true }).after .enable).Rest := {
      enabling := rfl
      claimed := fun _ => ⟨h.gsiHeld, h.gsiRegistered, rfl⟩
      unclaimed := fun ha => absurd (ha.symm.trans h.active) (by decide)
      adapter := h.registered.trans h.adapter.symm
      fresh := (by intros; contradiction)
      vacant := (by intros; contradiction) }
    exact (field_obeys (mild_irqRequested true) hlawful hwant rfl rfl (Or.inl fun _ hl => hl)).post
      fun _ m hm => ⟨_, ⟨hrest, { hstored with enabling := (by intros; contradiction) }⟩, hm⟩
  · rw [if_pos hr, decide_eq_false hr, ← h.requested]
    exact enableRestore_obeys h

/-- What probe has got hold of once the window is its own. -/
structure Estate.Windowed (b : Board) (v : Estate) : Prop extends v.Opening where
  smba : v.asf.smba = b.auxSmba
  useMmio : v.asf.useMmio = true
  gsiHeld : v.gsiHeld = false
  gsiRegistered : v.asf.gsiRegistered = false
  asfHeld : v.asfHeld = true
  auxHeld : v.auxHeld = true

/-- The way from the registered GSI to the end of probe's claim. -/
theorem enableClaim_obeys (h : v.Ready b) :
    Obeys (ledger k b) (Hand.Takes k { Stance.calling .enable v anything with held := true }) (do
      enableTakeover b.auxSmba
      piix4Sb800RegionRelease (← piix4Asf).useMmio
      let a ← piix4Asf
      if (← perform (.requestThreadedIrq a.irq a.shareable)) ≠ 0 then enableRestore b.auxSmba
      else setAsf fun a => { a with irqRequested := true }) fun _ m =>
        ∃ v' : Estate, v'.Enabled b ∧ m.Takes k (.calling .enable v' anything) := by
  refine .bind (enableTakeover_obeys h) fun _ m ⟨v', hv', hm⟩ => ?_
  refine Obeys.bind (claimedAsf_obeys hv'.toClaimed rfl) (fun a => .pure_pre fun ha => ?_) m hm
  rw [ha.2]
  refine .bind (regionRelease_obeys rfl) fun _ => ?_
  exact .bind (coreAsf_obeys rfl) fun a => .pure_pre fun _ => enableRequest_obeys hv' a.irq a.shareable

/-- Requesting the IRQ ends with the block claimed, or with nothing. -/
theorem enableIrq_obeys (h : v.Windowed b) :
    Obeys (ledger k b) (Hand.Takes k (.calling .enable v anything)) (enableIrq b.auxSmba) fun _ m =>
      ∃ v' : Estate, v'.Enabled b ∧ m.Takes k (.calling .enable v' anything) := by
  unfold enableIrq
  refine .bind (coreAsf_obeys rfl) fun a => .pure_pre fun _ => ?_
  refine .bind (estate_obeys (fun r v => { v with gsiHeld := v.gsiHeld || decide (0 ≤ r) })
    (fun m hm => hm.owns rfl h.gsiHeld) fun _ _ _ _ h => h) fun (gsi : ℤ) => ?_
  have hstate : { Stance.calling .enable v (K := anything) with
      role := (Role.core .enable v).onEstate fun v => { v with gsiHeld := v.gsiHeld || decide (0 ≤ gsi) } } =
      .calling .enable { v with gsiHeld := decide (0 ≤ gsi) } anything := by
    simp [Stance.calling, Role.onEstate, h.gsiHeld]
  refine .pre ?_ fun m hm => (hstate ▸ hm :
    m.Takes k (.calling .enable { v with gsiHeld := decide (0 ≤ gsi) } anything))
  by_cases hneg : gsi < 0
  · rw [if_pos hneg, decide_eq_false (Int.not_le.mpr hneg), ← h.gsiHeld]
    exact declineWindow_obeys h.toOpening h.gsiHeld h.gsiRegistered h.asfHeld
  · rw [if_neg hneg, decide_eq_true (Int.not_lt.mp hneg)]
    have hopen : ({ v with gsiHeld := true } : Estate).Opening := { h.toOpening with }
    have hirq := hopen.store (neutral_irq gsi)
    have hreg := hirq.store (neutral_gsiRegistered true)
    refine .bind (openField_obeys (neutral_irq gsi) hopen rfl fun _ _ _ hn => hn) fun _ => ?_
    refine .bind (openField_obeys (neutral_gsiRegistered true) hirq rfl fun _ _ _ hn => hn) fun _ => ?_
    refine .bind (coreAsf_obeys rfl) fun a => .pure_pre fun ha => ?_
    have hmmio : a.useMmio = true :=
      (show a.settings.useMmio = _ from congrArg Piix4Asf.useMmio ha.1).trans h.useMmio
    rw [hmmio]
    refine .bind (coreRequest_obeys false) fun r => ?_
    by_cases hr : r = 0
    · rw [if_neg (not_not.mpr hr)]
      refine .pre ?_ fun m hm => (hm.resolve_right fun h => h.1 hr).2
      have hgranted : ∀ {w : Estate}, w.Opening → ({ w with granted := true } : Estate).Opening :=
        fun hw => { hw with }
      refine .bind (openField_obeys neutral_pending (hgranted hreg) rfl fun _ _ _ hn => hn) fun _ => ?_
      exact enableClaim_obeys
        { (hgranted hreg).store neutral_pending with
          smba := h.smba, useMmio := h.useMmio, gsiHeld := rfl, gsiRegistered := rfl
          asfHeld := h.asfHeld, auxHeld := h.auxHeld }
    · rw [if_pos hr]
      refine .pre ?_ fun m hm => (hm.resolve_left fun h => hr h.1).2
      have hrefused : ∀ {w : Estate}, w.Opening → ({ w with granted := false } : Estate).Opening :=
        fun hw => { hw with }
      exact enableUnregisterGsi_obeys (hrefused hreg) rfl rfl h.asfHeld

/-- A neutral assignment changes nothing about having declined. -/
theorem Estate.Declined.mono (h : v.Declined) {a : Piix4Asf} {f : Piix4Asf → Piix4Asf} (hf : Neutral f)
    (ha : a = v.asf) (hgsi : (f a).gsiRegistered = a.gsiRegistered) : (v.store f).Declined :=
  { h.toOpening.store hf with
    gsiHeld := h.gsiHeld
    asfHeld := h.asfHeld
    gsiRegistered := (ha ▸ hgsi).trans h.gsiRegistered }

/-- Probe respects the ledger from the checks on. -/
theorem enable_checked (h : v.Declined) (haux : v.auxHeld = true) {smba : ℕ} (hsmba : v.asf.smba = b.auxSmba)
    (hmmio : v.asf.useMmio = true) (hb : smba = b.auxSmba) :
    Obeys (ledger k b) (Hand.Takes k (.calling .enable v anything)) (do
      if (← perform (.acpiCheckRegion (smba + smbiosize) (asfIosize - smbiosize))) ≠ 0 then pure ()
      else if !(← perform (.requestRegion (smba + smbiosize) (asfIosize - smbiosize))) then pure ()
      else enableIrq smba) fun _ m =>
        ∃ v' : Estate, v'.Enabled b ∧ m.Takes k (.calling .enable v' anything) := by
  subst hb
  refine .bind (idle_obeys (fun _ => trivial) fun _ _ _ h => h) fun r => ?_
  by_cases hr : r = 0
  · rw [if_neg (not_not.mpr hr)]
    have hsame : { v with asfHeld := false } = v := by rw [← h.asfHeld]
    have hgot : Obeys (ledger k b) (Hand.Takes k (.calling .enable v anything))
        (perform (.requestRegion (b.auxSmba + smbiosize) (asfIosize - smbiosize))) fun got m =>
          m.Takes k (.calling .enable { v with asfHeld := got } anything) := by
      refine .perform fun m hm => ⟨hm.owns rfl (Or.inr ⟨rfl, h.asfHeld⟩), fun got m' hmove => ?_⟩
      obtain rfl : m' = _ := hmove
      cases got with
      | false => exact hsame.symm ▸ hm
      | true =>
        rw [← setWindow_asfHeld]
        exact hm.onEstate fun v => v.setWindow b (b.auxSmba + smbiosize, asfIosize - smbiosize) true
    refine .bind hgot fun got => ?_
    cases got with
    | false => exact .ret fun m hm => ⟨v, h.enabled, hsame ▸ hm⟩
    | true =>
      exact enableIrq_obeys
        { h.toOpening with
          smba := hsmba, useMmio := hmmio, gsiHeld := h.gsiHeld, gsiRegistered := h.gsiRegistered
          asfHeld := rfl, auxHeld := haux }
  · rw [if_pos hr]
    exact .ret fun m hm => ⟨v, h.enabled, hm⟩

/-- Claiming the block ends with all of it or nothing. -/
theorem piix4AsfEnable_obeys (h : v.Declined) (haux : v.auxHeld = true) :
    Obeys (ledger k b) (Hand.Takes k (.calling .enable v anything)) (piix4AsfEnable b.dev b.auxSmba)
      fun _ m => ∃ v' : Estate, v'.Enabled b ∧ m.Takes k (.calling .enable v' anything) := by
  have hout : ∀ m : Hand, m.Takes k (.calling .enable v anything) →
      ∃ v' : Estate, v'.Enabled b ∧ m.Takes k (.calling .enable v' anything) :=
    fun m hm => ⟨v, h.enabled, hm⟩
  unfold piix4AsfEnable
  refine .bind (coreAsf_obeys rfl) fun a => .pure_pre fun ha => ?_
  split
  · exact .ret hout
  · next hsmba =>
    rw [not_or, not_not] at hsmba
    have hbase : v.asf.smba = b.auxSmba :=
      (show a.settings.smba = v.asf.smba from congrArg Piix4Asf.smba ha.1).symm.trans hsmba.2
    split
    · exact .ret hout
    split
    · exact .ret hout
    have hf := neutral_useMmio (piix4Sb800UseMmio b.dev)
    have hstored := h.mono hf rfl rfl
    refine .bind (openField_obeys hf h.toOpening rfl fun _ _ _ hn => hn) fun _ => ?_
    refine .bind (coreAsf_obeys rfl) fun a' => .pure_pre fun ha' => ?_
    cases hmmio : a'.useMmio with
    | false => exact .ret fun m hm => ⟨_, hstored.enabled, hm⟩
    | true =>
      exact enable_checked hstored haux hbase
        ((show a'.settings.useMmio = _ from congrArg Piix4Asf.useMmio ha'.1).symm.trans hmmio) rfl

/-- Storing what `piix4_asf_detect` found out. -/
theorem neutral_detected (start size : ℕ) (crs : Piix4AsfCrs) : Neutral fun a => { a with
    smba := start, iolen := size, gsi := crs.gsi, triggering := crs.triggering
    polarity := crs.polarity, shareable := crs.shareable, hasIrq := crs.hasIrq } :=
  ⟨⟨fun _ => rfl, fun _ h => h⟩, fun _ => rfl, fun _ => rfl, fun _ => rfl, fun _ => rfl, fun _ => rfl⟩

/-- Detecting the block claims nothing. -/
theorem piix4AsfDetect_obeys (h : v.Declined) (haux : v.auxHeld = true) :
    Obeys (ledger k b) (Hand.Takes k (.calling .enable v anything)) (piix4AsfDetect b.auxSmba)
      fun _ m => ∃ v' : Estate, (v'.Declined ∧ v'.auxHeld = true) ∧
        m.Takes k (.calling .enable v' anything) := by
  have hout : ∀ m : Hand, m.Takes k (.calling .enable v anything) →
      ∃ v' : Estate, (v'.Declined ∧ v'.auxHeld = true) ∧ m.Takes k (.calling .enable v' anything) :=
    fun m hm => ⟨v, ⟨h, haux⟩, hm⟩
  unfold piix4AsfDetect
  refine .bind (idle_obeys (fun _ => trivial) fun _ _ _ h => h) fun on => ?_
  split
  · exact .ret hout
  refine .bind (idle_obeys (fun _ => trivial) fun _ _ _ h => h) fun present => ?_
  split
  · exact .ret hout
  refine .bind (idle_obeys (fun _ => trivial) fun _ _ _ h => h) fun devices => ?_
  split
  · exact .ret hout
  · next start size crs _ =>
    have hf := neutral_detected start size crs
    exact (openField_obeys hf h.toOpening rfl fun _ _ _ hn => hn).post fun _ m hm =>
      ⟨_, ⟨h.mono hf rfl rfl, haux⟩, hm⟩

/-- Probe's claim of both windows respects the ledger. -/
theorem claimAux_obeys (h : v.Declined) (haux : v.auxHeld = false) :
    Obeys (ledger k b) (Hand.Takes k (.calling .enable v anything)) (claimAux b) fun _ m =>
      ∃ v' : Estate, v'.Enabled b ∧ m.Takes k (.calling .enable v' anything) := by
  have hsame : { v with auxHeld := false } = v := by rw [← haux]
  have hgot : Obeys (ledger k b) (Hand.Takes k (.calling .enable v anything))
      (perform (.requestRegion b.auxSmba smbiosize)) fun got m =>
        m.Takes k (.calling .enable { v with auxHeld := got } anything) := by
    refine .perform fun m hm => ⟨hm.owns rfl (Or.inl ⟨rfl, haux⟩), fun got m' hmove => ?_⟩
    obtain rfl : m' = _ := hmove
    cases got with
    | false => exact hsame.symm ▸ hm
    | true =>
      rw [← setWindow_aux]
      exact hm.onEstate fun v => v.setWindow b (b.auxSmba, smbiosize) true
  unfold claimAux
  refine .bind hgot fun got => ?_
  cases got with
  | false => exact .ret fun m hm => ⟨v, h.enabled, hsame ▸ hm⟩
  | true =>
    have hkept : ({ v with auxHeld := true } : Estate).Declined := { h with }
    refine .bind (piix4AsfDetect_obeys hkept rfl) fun _ m ⟨v', ⟨hv', haux'⟩, hm⟩ => ?_
    exact piix4AsfEnable_obeys hv' haux' m hm

/-- The first part of probe as a whole. -/
theorem enable_obeys {v : Estate} (h : v.Lawful b) (hrest : v.Rest) (hmay : v.MayBegin .enable) :
    Obeys (ledger k b) (Hand.Takes k (.calling .enable (v.begin .enable) anything)) (do
      claimAux b
      perform (.coreDone .enable)) fun _ => Resting := by
  obtain ⟨hbound, hawake, hreg⟩ := hmay
  have hloaded := hrest.fresh hbound
  have hactive : v.asf.active = false := by rw [hloaded]; rfl
  have hdeclined : (v.begin .enable).Declined := by
    obtain ⟨hgsi, hheld, hgsi', hirq⟩ := hrest.unclaimed hactive
    have hwant : v.asf.wantListen = false := congrArg Piix4Asf.wantListen hloaded
    have hresume : v.asf.resumeListen = false := congrArg Piix4Asf.resumeListen hloaded
    exact ⟨⟨hactive, h.unrequested hactive, h.undelivered hactive, hreg, hrest.adapter.symm.trans hreg,
      rfl, hawake, rfl, hwant, hresume, hirq⟩, hgsi, hheld, hgsi'⟩
  refine .bind (claimAux_obeys hdeclined (hrest.vacant hbound hreg)) fun _ m ⟨v', hv', hm⟩ => ?_
  exact enableDone_obeys hv' m hm

end HostNotify
