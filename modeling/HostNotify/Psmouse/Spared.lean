import HostNotify.Psmouse.Records

/-!
# What others leave alone

A step of one thread must not falsify what another one knows. What a thread knows of the mice is safe
while it holds `psmouse_mutex`, what it knows of the list while it holds `psmouse_smbus_mutex`; each
of the three frames below says how the rest of the system may change under it.
-/

namespace HostNotify.Psmouse

variable {s s' : Board} {t u : ℕ} {p d c : Addr} {r : SmbusDev}

/-- What may change for a thread that is there for a mouse or a client. -/
structure Attends (u : ℕ) (s s' : Board) : Prop where
  mouse : ∀ k p, s.Deals u k p → s'.Deals u k p
  resync : ∀ p, s'.Deals u .resync p → s.Deals u .resync p
  client : ∀ c x, s.client c = some x → (x.destroyer = some u ∨ x.destroyer = none ∧ x.removal = .taken u) →
    ∃ x', s'.client c = some x' ∧ x'.destroyer = x.destroyer ∧ x'.removal = x.removal ∧ x'.notified = x.notified
  names : ∀ c x, s.client c = some x → x.destroyer = some u → ∀ d r', s'.Listed d r' → r'.dead = false →
    r'.client = some c → ∃ r, s.Listed d r ∧ r.dead = false ∧ r.client = some c

/-- Records die, and dead ones go; those that drive a mouse stay. -/
structure Aged (s s' : Board) : Prop where
  mouse : s'.mouse = s.mouse
  back : ∀ d r', s'.Listed d r' → ∃ r, s.Listed d r ∧ r.psmouse = r'.psmouse ∧ r.client = r'.client ∧
    (r.dead = true → r'.dead = true)
  keep : ∀ d r, s.Listed d r → (r.dead = false ∨ ∃ p, s.Attached p d) → ∃ r', s'.Listed d r' ∧
    r'.psmouse = r.psmouse ∧ r'.client = r.client ∧ (r.client = none ∨ r.dead = true → r'.dead = r.dead)

/-- What may change for a thread that holds `psmouse_mutex`. -/
structure Later (u : ℕ) (s s' : Board) : Prop extends Aged s s' where
  own : ∀ d r, s.smbdev d = some r → r.owner = some u → s'.smbdev d = some r
  stocks : ∀ m, s.data m = some (.thread u) → s'.data m = some (.thread u)
  board : ∀ d r r', s.Listed d r → s'.Listed d r' → r.dead = false → r'.platformData = r.platformData
  building : ∀ c, s.Building c → s'.Building c

/-- What may change for a thread that holds `psmouse_smbus_mutex`. -/
structure Steady (u : ℕ) (s s' : Board) : Prop where
  list : s'.list = s.list
  dev : ∀ d r, s.Listed d r → ∃ r', s'.smbdev d = some r' ∧ r'.psmouse = r.psmouse ∧ r'.dead = r.dead ∧
    (r'.client = r.client ∨ r.client = none ∧ ∃ c, r'.client = some c ∧ s.Building c)
  still : s.psmouseMutex = some u → ∀ d r, s.Listed d r → s'.smbdev d = some r
  hooks : ∀ p d, d ∈ s.list → s'.Attached p d → s.Attached p d
  marks : ∀ p d r, s.Listed d r → r.client.isSome → s.Attached p d → s'.Attached p d
  neat : ∀ d, s.Neat d → s'.Neat d
  idle : s.psmouseMutex = some u → ∀ c x, s.client c = some x → x.notified = false → x.removal = .none →
    ∃ x', s'.client c = some x' ∧ x'.notified = false ∧ x'.removal = .none
  destroyer : ∀ c x, s.client c = some x → x.destroyer = some u →
    ∃ x', s'.client c = some x' ∧ x'.destroyer = some u

/-- What a step leaves alone as far as thread `u` is concerned. -/
structure Spares (u : ℕ) (s s' : Board) : Prop where
  psmouse : s'.psmouseMutex = some u ↔ s.psmouseMutex = some u
  smbus : s'.smbusMutex = some u ↔ s.smbusMutex = some u
  attends : Attends u s s'
  later : s.psmouseMutex = some u → Later u s s'
  steady : s.smbusMutex = some u → Steady u s s'
  loose : ∀ d, (∃ r, s'.smbdev d = some r ∧ r.owner = some u) ↔ ∃ r, s.smbdev d = some r ∧ r.owner = some u

/-- A thread is there for the same purpose as before. -/
theorem Attends.role (h : Attends u s s') {x : Role} (hx : x.Holds u s) : x.Holds u s' := by
  cases x with
  | idle => trivial
  | owning p => exact h.mouse .owner p hx
  | watching p => exact h.mouse .watcher p hx
  | serving p => exact h.mouse .user p hx
  | resyncing p => exact h.mouse .resync p hx
  | removing c =>
    obtain ⟨x, hx, hd, hr⟩ := hx
    obtain ⟨x', hx', hd', hr', _⟩ := h.client c x hx (.inr ⟨hd, hr⟩)
    exact ⟨x', hx', hd'.trans hd, hr'.trans hr⟩
  | destroying c =>
    obtain ⟨x, hx, hd, hn⟩ := hx
    obtain ⟨x', hx', hd', _, hn'⟩ := h.client c x hx (.inl hd)
    exact ⟨x', hx', hd'.trans hd, hn'.trans hn⟩
  | notifying c =>
    obtain ⟨x, hx, hd, hn⟩ := hx
    obtain ⟨x', hx', hd', _, hn'⟩ := h.client c x hx (.inl hd)
    exact ⟨x', hx', hd'.trans hd, hn'.trans hn⟩
  | notified c =>
    obtain ⟨⟨x, hx, hd, hn⟩, hnames⟩ := hx
    obtain ⟨x', hx', hd', _, hn'⟩ := h.client c x hx (.inl hd)
    refine ⟨⟨x', hx', hd'.trans hd, hn'.trans hn⟩, fun d r' hr' hdead hc => ?_⟩
    obtain ⟨r, hr, hdead', hc'⟩ := h.names c x hx hd d r' hr' hdead hc
    exact hnames d r hr hdead' hc'

namespace Aged

/-- Mice are driven as before. -/
theorem attached (h : Aged s s') : s'.Attached p d ↔ s.Attached p d := by
  simp only [Board.Attached, h.mouse]

/-- No live record has come up. -/
theorem clear (h : Aged s s') (hp : s.Clear p) : s'.Clear p := by
  intro d r' hr' hpsmouse
  obtain ⟨r, hr, hpr, _, hdead⟩ := h.back d r' hr'
  exact hdead (hp d r hr (hpr.trans hpsmouse))

/-- No breadcrumb has got a client. -/
theorem crumbs (h : Aged s s') (hp : s.Crumbs p) : s'.Crumbs p := by
  intro d r' hr' hpsmouse
  obtain ⟨r, hr, hpr, hc, hdead⟩ := h.back d r' hr'
  exact (hp d r hr (hpr.trans hpsmouse)).imp hdead fun hn => hc.symm.trans hn

/-- No second record is alive. -/
theorem only (h : Aged s s') (hp : s.Only p d) : s'.Only p d := by
  intro d' r' hr' hpsmouse
  obtain ⟨r, hr, hpr, _, hdead⟩ := h.back d' r' hr'
  exact (hp d' r hr (hpr.trans hpsmouse)).imp_left hdead

/-- A mouse without a companion has none now. -/
theorem unhooked (h : Aged s s') (hp : s.Unhooked p) : s'.Unhooked p := by
  intro d r' hr' ha
  obtain ⟨r, hr, _, hc, _⟩ := h.back d r' hr'
  exact hc.symm.trans (hp d r hr (h.attached.mp ha))

/-- A companion's mouse still has it. -/
theorem used (h : Aged s s') (hp : s.Used p d) : s'.Used p d := by
  obtain ⟨ha, honly, r, hr, hpsmouse, hc⟩ := hp
  obtain ⟨r', hr', hp', hc', _⟩ := h.keep d r hr (.inr ⟨p, ha⟩)
  exact ⟨h.attached.mpr ha, h.only honly, r', hr', hp'.trans hpsmouse, by rwa [hc']⟩

/-- What was settled is settled. -/
theorem settled (h : Aged s s') (hp : s.Settled p) : s'.Settled p := by
  intro m hm
  obtain ⟨hplain, hvendor, hsmbus⟩ := hp m (h.mouse ▸ hm)
  refine ⟨fun hh => h.clear (hplain hh), fun hh => h.crumbs (hvendor hh), fun hh => ?_⟩
  obtain ⟨d, hd⟩ := hsmbus hh
  exact ⟨d, h.used hd⟩

/-- A live record without a client stays as it is. -/
theorem idle (h : Aged s s') (hr : s.Listed d r) (hc : r.client = none) (hdead : r.dead = false) :
    ∃ r', s'.Listed d r' ∧ r'.psmouse = r.psmouse ∧ r'.client = none ∧ r'.dead = false := by
  obtain ⟨r', hr', hp', hc', hd'⟩ := h.keep d r hr (.inl hdead)
  exact ⟨r', hr', hp', hc'.trans hc, (hd' (.inl hc)).trans hdead⟩

end Aged

namespace Later

/-- The work on a mouse is where it was. -/
theorem stage (h : Later u s s') {k : Stage} (hk : k.Holds u p s) : k.Holds u p s' := by
  cases k with
  | settled => exact h.toAged.settled hk
  | clear => exact ⟨h.toAged.clear hk.1, h.toAged.unhooked hk.2⟩
  | crumbs => exact ⟨h.toAged.crumbs hk.1, h.toAged.unhooked hk.2⟩
  | made d =>
    obtain ⟨hclear, hun, r, hr, hp, hc, hdead, howner, hstock⟩ := hk
    exact ⟨h.toAged.clear hclear, h.toAged.unhooked hun, r, h.own d r hr howner, hp, hc, hdead, howner,
      fun m hm => h.stocks m (hstock m hm)⟩
  | listed d =>
    obtain ⟨honly, hun, r, hr, hp, hc, hdead, hstock⟩ := hk
    obtain ⟨r', hr', hp', hc', hdead'⟩ := h.toAged.idle hr hc hdead
    exact ⟨h.toAged.only honly, h.toAged.unhooked hun, r', hr', hp'.trans hp, hc', hdead',
      fun m hm => h.stocks m (hstock m (h.board d r r' hr hr' hdead ▸ hm))⟩
  | found d c =>
    obtain ⟨honly, hun, ⟨r, hr, hp, hc, hdead⟩, hbuild, hnames⟩ := hk
    obtain ⟨r', hr', hp', hc', hdead'⟩ := h.toAged.idle hr hc hdead
    refine ⟨h.toAged.only honly, h.toAged.unhooked hun, ⟨r', hr', hp'.trans hp, hc', hdead'⟩, h.building c hbuild,
      fun d₂ r₂ hr₂ => ?_⟩
    obtain ⟨r₁, hr₁, _, hc₁, _⟩ := h.toAged.back d₂ r₂ hr₂
    rw [← hc₁]
    exact hnames d₂ r₁ hr₁
  | noted d c =>
    obtain ⟨honly, hattached, ⟨r, hr, hp, hc⟩, hbuild⟩ := hk
    obtain ⟨r', hr', hp', hc', _⟩ := h.toAged.keep d r hr (.inr ⟨p, hattached⟩)
    exact ⟨h.toAged.only honly, h.toAged.attached.mpr hattached, ⟨r', hr', hp'.trans hp, hc'.trans hc⟩,
      h.building c hbuild⟩
  | used d => exact h.toAged.used hk
  | removed d => exact ⟨h.toAged.clear hk.1, h.toAged.unhooked hk.2⟩
  | parting d =>
    obtain ⟨hclear, hattached, r, hr, hp, hdead⟩ := hk
    obtain ⟨r', hr', hp', _, hd'⟩ := h.toAged.keep d r hr (.inr ⟨p, hattached⟩)
    exact ⟨h.toAged.clear hclear, h.toAged.attached.mpr hattached, r', hr', hp'.trans hp, (hd' (.inr hdead)).trans hdead⟩

/-- What was known of a mouse is so. -/
theorem bench (h : Later u s s') {b : Bench} (hb : b.Holds u s) : b.Holds u s' where
  fields := by
    rw [h.mouse]
    exact hb.fields
  stage := h.stage hb.stage

end Later

namespace Steady

/-- A record that is on the list was there, and has got a client at most. -/
theorem listed (h : Steady u s s') {r' : SmbusDev} (hs : s.Sound) (hr' : s'.Listed d r') :
    ∃ r, s.Listed d r ∧ r'.psmouse = r.psmouse ∧ r'.dead = r.dead ∧
      (r'.client = r.client ∨ r.client = none ∧ ∃ c, r'.client = some c ∧ s.Building c) := by
  have hd : d ∈ s.list := h.list ▸ hr'.1
  obtain ⟨r, hr, _⟩ := hs.listed d hd
  obtain ⟨r₁, hr₁, hfacts⟩ := h.dev d r ⟨hd, hr⟩
  obtain rfl : r₁ = r' := Option.some.inj (hr₁.symm.trans hr'.2)
  exact ⟨r, ⟨hd, hr⟩, hfacts⟩

/-- A client that is being unregistered is named by the same records as before. -/
theorem client (hd : ∃ x, s.client c = some x ∧ x.destroyer = some u) {r r' : SmbusDev}
    (h : r'.client = r.client ∨ r.client = none ∧ ∃ c, r'.client = some c ∧ s.Building c) :
    r'.client = some c ↔ r.client = some c := by
  rcases h with h | ⟨hnone, c', hc', hbuild⟩
  · rw [h]
  · have hne : c' ≠ c := by
      rintro rfl
      obtain ⟨x, hx, hdx⟩ := hd
      obtain ⟨y, hy, _, hdy, _⟩ := hbuild
      obtain rfl : y = x := Option.some.inj (hy.symm.trans hx)
      cases hdx.symm.trans hdy
    simp [hnone, hc', hne]

/-- A walk goes on as if nothing had happened. -/
theorem walk (h : Steady u s s') (hs : s.Sound) {gone : Option Addr} {todo : List Addr}
    {seen : List (Addr × SmbusDev)} {look : Look} (hw : Walk u s gone todo seen look) :
    Walk u s' gone todo seen look where
  nodup := hw.nodup
  covers := h.list ▸ hw.covers
  ahead := h.list ▸ hw.ahead
  mirrors x hx := by
    obtain ⟨r, hr, hm⟩ := hw.mirrors x hx
    obtain ⟨r', hr', hp', hd', hc'⟩ := h.dev x.1 r hr
    refine ⟨r', ⟨h.list ▸ hr.1, hr'⟩, hp'.trans hm.psmouse, hd'.trans hm.dead, fun c hc => ?_⟩
    exact (client (hw.leaving c hc) hc').trans (hm.client c hc)
  neat d hd := by
    refine h.neat d (hw.neat d fun r c hr hc hrc => ?_)
    obtain ⟨r', hr', _, _, hc'⟩ := h.dev d r hr
    exact hd r' c ⟨h.list ▸ hr.1, hr'⟩ hc ((client (hw.leaving c hc) hc').mpr hrc)
  dead c d r' hc hr' hrc hdead hat p ha := by
    obtain ⟨r, hr, _, hd', hc'⟩ := h.listed hs hr'
    refine hw.dead c d r hc hr ((client (hw.leaving c hc) hc').mp hrc) (hd' ▸ hdead) hat p ?_
    exact h.hooks p d hr.1 ha
  marked hl d r rest hseen := by
    obtain ⟨ha, c, hc, hrc⟩ := hw.marked hl d r rest hseen
    obtain ⟨r', hr', hm⟩ := hw.mirrors (d, r) (hseen ▸ List.mem_cons_self)
    refine ⟨h.marks _ d r' hr' ?_ ha, c, hc, hrc⟩
    rw [(hm.client c hc).mpr hrc]
    rfl
  leaving c hc := by
    obtain ⟨x, hx, hd⟩ := hw.leaving c hc
    exact h.destroyer c x hx hd

/-- A visit to the list goes on as if nothing had happened. -/
theorem visit (h : Steady u s s') (hs : s.Sound)
    (hmutex : s'.psmouseMutex = some u ↔ s.psmouseMutex = some u) {x : Visit} (hx : x.Holds u s) :
    x.Holds u s' := by
  cases x with
  | entered => exact fun d => h.neat d (hx d)
  | walking gone todo seen look => exact h.walk hs hx
  | posting d r =>
    obtain ⟨hm, hneat, hr⟩ := hx
    exact ⟨hmutex.mpr hm, fun d => h.neat d (hneat d), h.list ▸ hr.1, h.still hm d r hr⟩
  | marked d c =>
    obtain ⟨hm, hneat, ⟨r, hr, hdead, hc⟩, x, hx, hn, hrem⟩ := hx
    exact ⟨hmutex.mpr hm, fun d' hd' => h.neat d' (hneat d' hd'),
      ⟨r, ⟨h.list ▸ hr.1, h.still hm d r hr⟩, hdead, hc⟩, h.idle hm c x hx hn hrem⟩
  | queued d =>
    obtain ⟨hm, hneat⟩ := hx
    exact ⟨hmutex.mpr hm, fun d' hd' => h.neat d' (hneat d' hd')⟩

end Steady

/-- The account of a thread that is spared stays true. -/
theorem Tie.spared {l : Account} (h : Tie u l s) (hs : s.Sound) (hsp : Spares u s s') : Tie u l s' where
  role := hsp.attends.role h.role
  resync p hp := h.resync p (hsp.attends.resync p hp)
  mutex := h.mutex.trans hsp.psmouse.symm
  benched := h.benched
  bench b hb := (hsp.later (h.mutex.mp (h.benched (by rw [hb]; rfl)))).bench (h.bench b hb)
  rest hm p hp := (hsp.later (h.mutex.mp hm)).toAged.settled (h.rest hm p hp)
  smbus := h.smbus.trans hsp.smbus.symm
  visit x hx := (hsp.steady (h.smbus.mp (by rw [hx]; rfl))).visit hs hsp.psmouse (h.visit x hx)
  loose d := (h.loose d).trans (hsp.loose d).symm

/-! ## Steps that leave all of it alone -/

section Equal

variable (hmouse : s'.mouse = s.mouse) (husage : s'.usage = s.usage) (hlist : s'.list = s.list)
  (hdev : s'.smbdev = s.smbdev) (hclient : s'.client = s.client) (hdata : s'.data = s.data)

include hmouse husage hlist hdev hclient in
/-- Nothing a thread is there for has been touched. -/
theorem Attends.of_eq : Attends u s s' where
  mouse k p h := by
    rw [Board.Deals, hmouse, husage]
    exact h
  resync p h := by
    rw [Board.Deals, hmouse, husage] at h
    exact h
  client _ x hx _ := ⟨x, hclient ▸ hx, rfl, rfl, rfl⟩
  names _ _ _ _ _ r' hr' hdead hc := ⟨r', ⟨hlist ▸ hr'.1, hdev ▸ hr'.2⟩, hdead, hc⟩

include hmouse hlist hdev hclient hdata in
/-- Nothing about the mouse has been touched. -/
theorem Later.of_eq : Later u s s' where
  mouse := hmouse
  back _ r' hr' := ⟨r', ⟨hlist ▸ hr'.1, hdev ▸ hr'.2⟩, rfl, rfl, id⟩
  keep _ r hr _ := ⟨r, ⟨hlist ▸ hr.1, hdev ▸ hr.2⟩, rfl, rfl, fun _ => rfl⟩
  own _ _ h _ := hdev ▸ h
  stocks _ h := hdata ▸ h
  board _ r r' hr hr' _ := by
    obtain rfl := Option.some.inj (hr.2.symm.trans (hdev ▸ hr'.2))
    rfl
  building _ h := by
    rw [Board.Building, hclient]
    exact h

include hmouse hlist hdev hclient in
/-- Nothing about the list has been touched. -/
theorem Steady.of_eq : Steady u s s' where
  list := hlist
  dev _ r hr := ⟨r, hdev ▸ hr.2, rfl, rfl, .inl rfl⟩
  still _ _ _ hr := hdev ▸ hr.2
  hooks _ _ _ h := by
    rw [Board.Attached, hmouse] at h
    exact h
  marks _ _ _ _ _ h := by
    rw [Board.Attached, hmouse]
    exact h
  neat _ h := by
    simp only [Board.Neat, Board.Listed, Board.Attached, hmouse, hlist, hdev, hclient]
    exact h
  idle _ _ x hx hn hr := ⟨x, hclient ▸ hx, hn, hr⟩
  destroyer _ x hx hd := ⟨x, hclient ▸ hx, hd⟩

/-- What a thread knows of a mouse does not depend on anything else. -/
theorem Bench.Holds.of_eq {b : Bench} (h : b.Holds t s) (hmouse : s'.mouse = s.mouse) (hlist : s'.list = s.list)
    (hdev : s'.smbdev = s.smbdev) (hclient : s'.client = s.client) (hdata : s'.data = s.data) : b.Holds t s' :=
  (Later.of_eq hmouse hlist hdev hclient hdata).bench h

/-- A role depends on the memory alone. -/
theorem Role.Holds.of_eq {x : Role} (h : x.Holds t s) (hmouse : s'.mouse = s.mouse) (husage : s'.usage = s.usage)
    (hlist : s'.list = s.list) (hdev : s'.smbdev = s.smbdev) (hclient : s'.client = s.client) : x.Holds t s' :=
  (Attends.of_eq hmouse husage hlist hdev hclient).role h

/-- A visit depends on the memory and on who has the mice. -/
theorem Visit.Holds.of_eq {x : Visit} (h : x.Holds t s) (hs : s.Sound) (hmouse : s'.mouse = s.mouse)
    (hlist : s'.list = s.list) (hdev : s'.smbdev = s.smbdev) (hclient : s'.client = s.client)
    (hmutex : s'.psmouseMutex = s.psmouseMutex) : x.Holds t s' :=
  (Steady.of_eq hmouse hlist hdev hclient).visit hs (by rw [hmutex]) h

end Equal

end HostNotify.Psmouse
