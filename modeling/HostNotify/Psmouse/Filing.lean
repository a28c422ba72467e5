import HostNotify.Psmouse.Handling

/-!
# Records are made, filed and thrown away

The operations on the records and on the list. A record off the list is its thread's alone; a record on
it changes in one of two ways: it is marked as dead, or it comes to name its client.
-/

namespace HostNotify.Psmouse

open Interleaving

variable {s s' : Board} {t u : ℕ} {p d c : Addr} {r : SmbusDev} {l l' : Account}

/-! ## Records off the list -/

/-- Nothing has changed but a record of thread `t` that is not on the list, and platform data. -/
structure Aside (t : ℕ) (d : Addr) (s s' : Board) : Prop where
  mouse : s'.mouse = s.mouse
  usage : s'.usage = s.usage
  list : s'.list = s.list
  client : s'.client = s.client
  work : s'.work = s.work
  psmouse : s'.psmouseMutex = s.psmouseMutex
  smbus : s'.smbusMutex = s.smbusMutex
  fault : s'.fault = s.fault
  dev : ∀ d', d' ≠ d → s'.smbdev d' = s.smbdev d'
  off : d ∉ s.list
  owner : ∀ r, s.smbdev d = some r → r.owner = some t
  owner' : ∀ r, s'.smbdev d = some r → r.owner = some t
  data : ∀ m u, u ≠ t → s.data m = some (.thread u) → s'.data m = some (.thread u)
  clients : ∀ m c, s.data m = some (.client c) → s'.data m = some (.client c)

namespace Aside

variable (h : Aside t d s s')
include h

/-- The list is as it was. -/
theorem listed {d' : Addr} : s'.Listed d' r ↔ s.Listed d' r := by
  unfold Board.Listed
  rw [h.list]
  by_cases hd : d' = d
  · subst hd
    simp [h.off]
  · rw [h.dev d' hd]

/-- Mice are driven as before. -/
theorem attached {q e : Addr} : s'.Attached q e ↔ s.Attached q e := by
  rw [Board.Attached, h.mouse]
  exact Iff.rfl

/-- No record on the list has changed. -/
theorem aged : Aged s s' where
  mouse := h.mouse
  back _ r' hr' := ⟨r', h.listed.mp hr', rfl, rfl, id⟩
  keep _ r hr _ := ⟨r, h.listed.mpr hr, rfl, rfl, fun _ => rfl⟩

/-- Each record is in order as before. -/
theorem neat {e : Addr} (he : s.Neat e) : s'.Neat e := by
  intro r c hr hc
  obtain ⟨hlive, hdead⟩ := he r c (h.listed.mp hr) hc
  rw [h.client]
  exact ⟨hlive, fun hr q ha => hdead hr q (h.attached.mp ha)⟩

/-- Whoever is at the list finds it as it was. -/
theorem steady : Steady u s s' where
  list := h.list
  dev _ r hr := ⟨r, (h.listed.mpr hr).2, rfl, rfl, .inl rfl⟩
  still _ _ _ hr := (h.listed.mpr hr).2
  hooks _ _ _ ha := h.attached.mp ha
  marks _ _ _ _ _ ha := h.attached.mpr ha
  neat _ he := h.neat he
  idle _ _ x hx hn hrem := ⟨x, h.client ▸ hx, hn, hrem⟩
  destroyer _ x hx hd := ⟨x, h.client ▸ hx, hd⟩

/-- Nobody is kept from what he is there for. -/
theorem attends : Attends u s s' where
  mouse k p hp := by
    rw [Board.Deals, h.mouse, h.usage]
    exact hp
  resync p hp := by
    rw [Board.Deals, h.mouse, h.usage] at hp
    exact hp
  client _ x hx _ := ⟨x, h.client ▸ hx, rfl, rfl, rfl⟩
  names _ _ _ _ _ r' hr' hdead hc := ⟨r', h.listed.mp hr', hdead, hc⟩

/-- No client is finished behind its maker's back. -/
theorem building (hc : s.Building c) : s'.Building c := by
  rw [Board.Building, h.client]
  exact hc

/-- The invariant is kept. -/
theorem sound (hs : s.Sound) : s'.Sound where
  nodup := h.list ▸ hs.nodup
  listed e he := by
    obtain ⟨r, hr, ho⟩ := hs.listed e (h.list ▸ he)
    exact ⟨r, (h.listed.mpr ⟨h.list ▸ he, hr⟩).2, ho⟩
  unowned e r hr ho := by
    by_cases he : e = d
    · subst he
      cases ho.symm.trans (h.owner' r hr)
    · rw [h.list]
      exact hs.unowned e r (h.dev e he ▸ hr) ho
  alive e r hr hdead := h.mouse ▸ hs.alive e r (h.listed.mp hr) hdead
  attached e r hr hdead hc := h.attached.mpr (hs.attached e r (h.listed.mp hr) hdead hc)
  named e r e' r' c hr hr' := hs.named e r e' r' c (h.listed.mp hr) (h.listed.mp hr')
  neat hfree e := h.neat (hs.neat (h.smbus ▸ hfree) e)
  settled hfree q := h.aged.settled (hs.settled (h.psmouse ▸ hfree) q)
  data c x m hx hm := h.clients m c (hs.data c x m (h.client ▸ hx) hm)
  quiet c x hx := hs.quiet c x (h.client ▸ hx)
  work c hc := by
    rw [h.client]
    exact hs.work c (h.work ▸ hc)
  workNodup := h.work ▸ hs.workNodup
  fault := h.fault.trans hs.fault

/-- Every other thread is spared. -/
theorem spares (hu : u ≠ t) : Spares u s s' where
  psmouse := by rw [h.psmouse]
  smbus := by rw [h.smbus]
  attends := h.attends
  later _ := { h.aged with
    own := fun e r hr ho => by
      have he : e ≠ d := by
        rintro rfl
        exact hu (Option.some.inj (ho.symm.trans (h.owner r hr)))
      rw [h.dev e he, hr]
    stocks := fun m hm => h.data m u hu hm
    board := fun _ r r' hr hr' _ => by
      rw [Option.some.inj ((h.listed.mpr hr).2.symm.trans hr'.2)]
    building := fun _ hc => h.building hc }
  steady _ := h.steady
  loose e := by
    by_cases he : e = d
    · subst he
      constructor
      · rintro ⟨r, hr, ho⟩
        exact absurd (Option.some.inj (ho.symm.trans (h.owner' r hr))) hu
      · rintro ⟨r, hr, ho⟩
        exact absurd (Option.some.inj (ho.symm.trans (h.owner r hr))) hu
    · rw [h.dev e he]

/-- The account of the thread itself, once it is known what has become of its bench. -/
theorem tie (hs : s.Sound) (ht : Tie t l s) (hrole : l'.role = l.role) (hmutex : l'.mutex = l.mutex)
    (hvisit : l'.visit = l.visit) (hmice : l'.bench.map Bench.mouse = l.bench.map Bench.mouse)
    (hbench : ∀ b, l'.bench = some b → b.Holds t s')
    (hloose : ∀ d', l'.loose = some d' ↔ ∃ r, s'.smbdev d' = some r ∧ r.owner = some t) : Tie t l' s' where
  role := hrole ▸ h.attends.role ht.role
  resync q hq := hrole.trans (ht.resync q (h.attends.resync q hq))
  mutex := by rw [hmutex, h.psmouse, ht.mutex]
  benched hb := by
    rw [hmutex]
    refine ht.benched ?_
    rw [← Option.isSome_map (f := Bench.mouse), ← hmice, Option.isSome_map, hb]
  bench := hbench
  rest hm q hq := by
    refine h.aged.settled (ht.rest (hmutex ▸ hm) q fun b hb hbq => ?_)
    have hmap : l'.bench.map Bench.mouse = some q := by
      rw [hmice, hb, Option.map_some, hbq]
    obtain ⟨b', hb', hbq'⟩ := Option.map_eq_some_iff.mp hmap
    exact hq b' hb' hbq'
  smbus := by rw [hvisit, h.smbus, ht.smbus]
  visit x hx := h.steady.visit hs (by rw [h.psmouse]) (ht.visit x (hvisit ▸ hx))
  loose := hloose

end Aside

section Off

variable (hs : s.Sound) (ht : Tie t l s)
include hs ht

/-- A new record, for a mouse without others. -/
theorem newDev_kept {needDeactivate : Bool} (hallow : l.allows (.newDev p needDeactivate)) (hfree : s.smbdev d = none) :
    Kept t l (.newDev p needDeactivate) (some d) s (s.setDev d (some (.fresh p needDeactivate t))) := by
  obtain ⟨hloose, b, hb, rfl, hk⟩ := hallow
  obtain ⟨hfields, hstage⟩ := ht.bench b hb
  rw [hk] at hstage
  have hnone : ∀ r, s.smbdev d ≠ some r := fun r hr => by cases hfree.symm.trans hr
  have h : Aside t d s (s.setDev d (some (.fresh b.mouse needDeactivate t))) := by
    refine ⟨rfl, rfl, rfl, rfl, rfl, rfl, rfl, rfl, fun d' hd => Board.smbdev_setDev_of_ne hd, fun hd => ?_,
      fun r hr => absurd hr (hnone r), fun r hr => ?_, fun _ _ _ hm => hm, fun _ _ hm => hm⟩
    · obtain ⟨r, hr, _⟩ := hs.listed d hd
      exact hnone r hr
    · obtain rfl := Option.some.inj ((Board.smbdev_setDev (s := s)).symm.trans hr)
      rfl
  refine ⟨h.sound hs, ⟨_, rfl, h.tie hs ht rfl rfl rfl ?_ ?_ ?_⟩, fun u hu => h.spares hu⟩
  · simp [Account.move, Account.onBench, hb]
  · intro b' hb'
    simp only [Account.move, Account.onBench, hb, Option.map_some, Option.some.injEq] at hb'
    subst hb'
    refine ⟨hfields, h.aged.clear hstage.1, h.aged.unhooked hstage.2, _, Board.smbdev_setDev, rfl, rfl, rfl, rfl, ?_⟩
    intro m hm
    cases hm
  · intro d'
    by_cases hd : d' = d
    · subst hd
      exact ⟨fun _ => ⟨_, Board.smbdev_setDev, rfl⟩, fun _ => rfl⟩
    · have hbefore := ht.loose d'
      rw [hloose] at hbefore
      rw [h.dev d' hd, ← hbefore]
      simp [Ne.symm hd]

/-- A record the thread has to itself is freed. -/
theorem freeDev_kept (hallow : l.allows (.freeDev d)) :
    (∃ r, s.smbdev d = some r) ∧ Kept t l (.freeDev d) () s (s.setDev d none) := by
  have hloose : l.loose = some d := hallow
  obtain ⟨r, hr, ho⟩ := (ht.loose d).mp hloose
  have h : Aside t d s (s.setDev d none) := by
    refine ⟨rfl, rfl, rfl, rfl, rfl, rfl, rfl, rfl, fun d' hd => Board.smbdev_setDev_of_ne hd, hs.not_mem hr ho,
      fun r' hr' => ?_, fun r' hr' => ?_, fun _ _ _ hm => hm, fun _ _ hm => hm⟩
    · rw [← Option.some.inj (hr.symm.trans hr'), ho]
    · rw [Board.smbdev_setDev] at hr'
      cases hr'
  refine ⟨⟨r, hr⟩, h.sound hs, ⟨_, rfl, h.tie hs ht rfl rfl rfl ?_ ?_ ?_⟩, fun u hu => h.spares hu⟩
  · simp [Account.onBench, Option.map_map, Function.comp_def]
  · intro b' hb'
    obtain ⟨b, hb, rfl⟩ := Option.map_eq_some_iff.mp hb'
    obtain ⟨hfields, hstage⟩ := ht.bench b hb
    refine ⟨hfields, ?_⟩
    change (b.stage.freed d).Holds t b.mouse _
    cases hk : b.stage with
    | made d' =>
      rw [hk] at hstage
      obtain ⟨hclear, hun, r', hr', hp, hc, hdead, ho', hstock⟩ := hstage
      by_cases hd : d' = d
      · rw [show Stage.freed d (.made d') = .clear from if_pos hd]
        exact ⟨h.aged.clear hclear, h.aged.unhooked hun⟩
      · rw [show Stage.freed d (.made d') = .made d' from if_neg hd]
        exact ⟨h.aged.clear hclear, h.aged.unhooked hun, r', (h.dev d' hd).trans hr', hp, hc, hdead, ho', hstock⟩
    | removed d' =>
      rw [hk] at hstage
      by_cases hd : d' = d
      · rw [show Stage.freed d (.removed d') = .clear from if_pos hd]
        exact ⟨h.aged.clear hstage.1, h.aged.unhooked hstage.2⟩
      · rw [show Stage.freed d (.removed d') = .removed d' from if_neg hd]
        exact ⟨h.aged.clear hstage.1, h.aged.unhooked hstage.2⟩
    | settled =>
      rw [hk] at hstage
      exact h.aged.settled hstage
    | clear =>
      rw [hk] at hstage
      exact ⟨h.aged.clear hstage.1, h.aged.unhooked hstage.2⟩
    | crumbs =>
      rw [hk] at hstage
      exact ⟨h.aged.crumbs hstage.1, h.aged.unhooked hstage.2⟩
    | listed d' =>
      rw [hk] at hstage
      obtain ⟨honly, hun, r', hr', hfacts⟩ := hstage
      exact ⟨h.aged.only honly, h.aged.unhooked hun, r', h.listed.mpr hr', hfacts⟩
    | found d' c =>
      rw [hk] at hstage
      obtain ⟨honly, hun, ⟨r', hr', hfacts⟩, hbuild, hnames⟩ := hstage
      exact ⟨h.aged.only honly, h.aged.unhooked hun, ⟨r', h.listed.mpr hr', hfacts⟩, h.building hbuild,
        fun d₂ r₂ hr₂ => hnames d₂ r₂ (h.listed.mp hr₂)⟩
    | noted d' c =>
      rw [hk] at hstage
      obtain ⟨honly, ha, ⟨r', hr', hfacts⟩, hbuild⟩ := hstage
      exact ⟨h.aged.only honly, h.attached.mpr ha, ⟨r', h.listed.mpr hr', hfacts⟩, h.building hbuild⟩
    | used d' =>
      rw [hk] at hstage
      exact h.aged.used hstage
    | parting d' =>
      rw [hk] at hstage
      obtain ⟨hclear, ha, r', hr', hfacts⟩ := hstage
      exact ⟨h.aged.clear hclear, h.attached.mpr ha, r', h.listed.mpr hr', hfacts⟩
  · intro d'
    refine ⟨fun hd => (by cases hd), ?_⟩
    rintro ⟨r', hr', ho'⟩
    by_cases hd : d' = d
    · subst hd
      rw [Board.smbdev_setDev] at hr'
      cases hr'
    · have hloose' := (ht.loose d').mpr ⟨r', (h.dev d' hd).symm.trans hr', ho'⟩
      exact absurd (Option.some.inj (hloose'.symm.trans hloose)) hd

/-- The record in the making gets its platform data. -/
theorem kmemdup_kept {m : Addr} (hallow : l.allows (.kmemdup d)) (hfree : s.data m = none) :
    Kept t l (.kmemdup d) true s
      ((s.setData m (some (.thread t))).onDev d fun r => { r with platformData := some m }) := by
  obtain ⟨b, hb, hk⟩ := hallow
  obtain ⟨hfields, hstage⟩ := ht.bench b hb
  rw [hk] at hstage
  obtain ⟨hclear, hun, r, hr, hp, hc, hdead, ho, hstock⟩ := hstage
  have hr₁ : (s.setData m (some (.thread t))).smbdev d = some r := hr
  rw [Board.onDev_of_some hr₁]
  have hne : ∀ m' x, s.data m' = some x → m' ≠ m := by
    rintro m' x hx rfl
    cases hfree.symm.trans hx
  have h : Aside t d s
      ((s.setData m (some (.thread t))).setDev d (some { r with platformData := some m })) := by
    refine ⟨rfl, rfl, rfl, rfl, rfl, rfl, rfl, rfl, fun d' hd => Board.smbdev_setDev_of_ne hd, hs.not_mem hr ho,
      fun r' hr' => ?_, fun r' hr' => ?_, fun m' u _ hm => ?_, fun m' c hm => ?_⟩
    · rw [← Option.some.inj (hr.symm.trans hr'), ho]
    · rw [Board.smbdev_setDev] at hr'
      obtain rfl := Option.some.inj hr'
      exact ho
    · exact (Board.data_setData_of_ne (hne m' _ hm)).trans hm
    · exact (Board.data_setData_of_ne (hne m' _ hm)).trans hm
  refine ⟨h.sound hs, ⟨l, rfl, h.tie hs ht rfl rfl rfl rfl ?_ ?_⟩, fun u hu => h.spares hu⟩
  · intro b' hb'
    obtain rfl := Option.some.inj (hb.symm.trans hb')
    refine ⟨hfields, ?_⟩
    rw [hk]
    refine ⟨h.aged.clear hclear, h.aged.unhooked hun, _, Board.smbdev_setDev, hp, hc, hdead, ho, fun m' hm' => ?_⟩
    obtain rfl := Option.some.inj hm'
    exact Board.data_setData
  · intro d'
    rw [ht.loose d']
    by_cases hd : d' = d
    · subst hd
      exact ⟨fun _ => ⟨_, Board.smbdev_setDev, ho⟩, fun _ => ⟨r, hr, ho⟩⟩
    · rw [h.dev d' hd]

end Off

end HostNotify.Psmouse
