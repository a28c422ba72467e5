import HostNotify.Psmouse.Filing

/-!
# Records on the list

A record on the list is marked as dead, comes to name its client, gives up its platform data, or is
taken off the list; a record off the list is put on it.
-/

namespace HostNotify.Psmouse

open Interleaving

variable {s s' : Board} {t u : ℕ} {p d c : Addr} {r : SmbusDev} {l l' : Account}

/-! ## A record is rewritten -/

/-- Nothing has changed but what record `d` reads, and platform data. -/
structure Rewrites (d : Addr) (r r' : SmbusDev) (s s' : Board) : Prop where
  mouse : s'.mouse = s.mouse
  usage : s'.usage = s.usage
  list : s'.list = s.list
  client : s'.client = s.client
  work : s'.work = s.work
  psmouse : s'.psmouseMutex = s.psmouseMutex
  smbus : s'.smbusMutex = s.smbusMutex
  fault : s'.fault = s.fault
  dev : ∀ e, e ≠ d → s'.smbdev e = s.smbdev e
  before : s.Listed d r
  after : s'.smbdev d = some r'
  about : r'.psmouse = r.psmouse
  owner : r'.owner = r.owner
  dies : r.dead = true → r'.dead = true
  clients : ∀ m c, s.data m = some (.client c) → s'.data m = some (.client c)

namespace Rewrites

variable {r' : SmbusDev} (h : Rewrites d r r' s s')
include h

/-- The record reads as it was assigned. -/
theorem there : s'.Listed d r' := ⟨h.list ▸ h.before.1, h.after⟩

/-- The others are on the list as before. -/
theorem listed_of_ne {e : Addr} {x : SmbusDev} (he : e ≠ d) : s'.Listed e x ↔ s.Listed e x := by
  rw [Board.Listed, Board.Listed, h.list, h.dev e he]

/-- A record on the list is the one that was rewritten or reads as before. -/
theorem cases_listed {e : Addr} {x : SmbusDev} (hx : s'.Listed e x) :
    e = d ∧ x = r' ∨ e ≠ d ∧ s.Listed e x := by
  by_cases he : e = d
  · subst he
    exact .inl ⟨rfl, Option.some.inj (hx.2.symm.trans h.after)⟩
  · exact .inr ⟨he, (h.listed_of_ne he).mp hx⟩

/-- Mice are driven as before. -/
theorem attached {q e : Addr} : s'.Attached q e ↔ s.Attached q e := by
  rw [Board.Attached, h.mouse]
  exact Iff.rfl

/-- Where a record keeps its client, records have aged at most. -/
theorem aged (hc : r'.client = r.client) (hd : r.client = none ∨ r.dead = true → r'.dead = r.dead) : Aged s s' where
  mouse := h.mouse
  back e x hx := by
    rcases h.cases_listed hx with ⟨rfl, rfl⟩ | ⟨_, hx'⟩
    · exact ⟨r, h.before, h.about.symm, hc.symm, h.dies⟩
    · exact ⟨x, hx', rfl, rfl, id⟩
  keep e x hx _ := by
    by_cases he : e = d
    · subst he
      obtain rfl := Option.some.inj (h.before.2.symm.trans hx.2)
      exact ⟨r', h.there, h.about, hc, hd⟩
    · exact ⟨x, (h.listed_of_ne he).mpr hx, rfl, rfl, fun _ => rfl⟩

/-- The others are in order as before. -/
theorem neat_of_ne {e : Addr} (he : e ≠ d) (hn : s.Neat e) : s'.Neat e := by
  intro x c hx hc
  obtain ⟨hlive, hdead⟩ := hn x c ((h.listed_of_ne he).mp hx) hc
  rw [h.client]
  exact ⟨hlive, fun hx q ha => hdead hx q (h.attached.mp ha)⟩

/-- Nobody is kept from what he is there for. -/
theorem attends (hnames : ∀ c x, s.client c = some x → x.destroyer = some u → r'.dead = false → r'.client = some c →
    r.dead = false ∧ r.client = some c) : Attends u s s' where
  mouse k p hp := by
    rw [Board.Deals, h.mouse, h.usage]
    exact hp
  resync p hp := by
    rw [Board.Deals, h.mouse, h.usage] at hp
    exact hp
  client _ x hx _ := ⟨x, h.client ▸ hx, rfl, rfl, rfl⟩
  names c x hx hu e y hy hdead hc := by
    rcases h.cases_listed hy with ⟨rfl, rfl⟩ | ⟨_, hy'⟩
    · exact ⟨r, h.before, hnames c x hx hu hdead hc⟩
    · exact ⟨y, hy', hdead, hc⟩

/-- Nobody else's records are touched. -/
theorem loose (e : Addr) : (∃ x, s'.smbdev e = some x ∧ x.owner = some u) ↔
    ∃ x, s.smbdev e = some x ∧ x.owner = some u := by
  by_cases he : e = d
  · subst he
    constructor
    · rintro ⟨x, hx, ho⟩
      obtain rfl := Option.some.inj (hx.symm.trans h.after)
      exact ⟨r, h.before.2, h.owner.symm.trans ho⟩
    · rintro ⟨x, hx, ho⟩
      obtain rfl := Option.some.inj (h.before.2.symm.trans hx)
      exact ⟨r', h.after, h.owner.trans ho⟩
  · rw [h.dev e he]

/-- The work of others goes on if the record has only grown older. -/
theorem later (haged : Aged s s') (hs : s.Sound) (hboard : r.dead = false → r'.platformData = r.platformData)
    (hstocks : ∀ m, s.data m = some (.thread u) → s'.data m = some (.thread u)) : Later u s s' :=
  { haged with
    own := fun e x hx ho => by
      have he : e ≠ d := by
        rintro rfl
        exact hs.not_mem hx ho h.before.1
      rw [h.dev e he, hx]
    stocks := hstocks
    board := fun e x x' hx hx' hdead => by
      rcases h.cases_listed hx' with ⟨rfl, rfl⟩ | ⟨he, hx''⟩
      · obtain rfl := Option.some.inj (h.before.2.symm.trans hx.2)
        exact hboard hdead
      · rw [Option.some.inj (hx.2.symm.trans hx''.2)]
    building := fun c hc => by
      rw [Board.Building, h.client]
      exact hc }

/-- For a thread that holds `psmouse_smbus_mutex` while another one has `psmouse_mutex`. -/
theorem steady (hm : s.psmouseMutex ≠ some u) (hdead : r'.dead = r.dead)
    (hc : r'.client = r.client ∨ r.client = none ∧ ∃ c, r'.client = some c ∧ s.Building c) (hneat : s'.Neat d) :
    Steady u s s' where
  list := h.list
  dev e x hx := by
    by_cases he : e = d
    · subst he
      obtain rfl := Option.some.inj (h.before.2.symm.trans hx.2)
      exact ⟨r', h.after, h.about, hdead, hc⟩
    · exact ⟨x, (h.dev e he).trans hx.2, rfl, rfl, .inl rfl⟩
  still hmu := absurd hmu hm
  hooks _ _ _ ha := h.attached.mp ha
  marks _ _ _ _ _ ha := h.attached.mpr ha
  neat e hn := by
    by_cases he : e = d
    · exact he ▸ hneat
    · exact h.neat_of_ne he hn
  idle hmu := absurd hmu hm
  destroyer _ x hx hd := ⟨x, h.client ▸ hx, hd⟩

/-- What the new fields must obey for the invariant to be kept. -/
theorem sound (hs : s.Sound) (hfiled : r.owner = none)
    (halive : r'.dead = false → r.dead = false)
    (hattached : r'.dead = false → r'.client.isSome → s.Attached r.psmouse d)
    (hnamed : ∀ e x c, e ≠ d → s.Listed e x → x.client = some c → r'.client = some c → r'.dead = false ∨ x.dead = false →
      e = d)
    (hneat : s.smbusMutex = none → s'.Neat d) (hsettled : s.psmouseMutex = none → ∀ q, s'.Settled q) : s'.Sound where
  nodup := h.list ▸ hs.nodup
  listed e he := by
    by_cases hed : e = d
    · subst hed
      exact ⟨r', h.after, h.owner.trans hfiled⟩
    · rw [h.dev e hed]
      exact hs.listed e (h.list ▸ he)
  unowned e x hx ho := by
    rw [h.list]
    by_cases hed : e = d
    · exact hed ▸ h.before.1
    · exact hs.unowned e x ((h.dev e hed).symm.trans hx) ho
  alive e x hx hdead := by
    rw [h.mouse]
    rcases h.cases_listed hx with ⟨rfl, rfl⟩ | ⟨_, hx'⟩
    · rw [h.about]
      exact hs.alive e r h.before (halive hdead)
    · exact hs.alive e x hx' hdead
  attached e x hx hdead hc := by
    rw [h.attached]
    rcases h.cases_listed hx with ⟨rfl, rfl⟩ | ⟨_, hx'⟩
    · rw [h.about]
      exact hattached hdead hc
    · exact hs.attached e x hx' hdead hc
  named e x e' x' c hx hx' hdead hc hc' := by
    rcases h.cases_listed hx with ⟨rfl, rfl⟩ | ⟨he, hx⟩ <;> rcases h.cases_listed hx' with ⟨rfl, rfl⟩ | ⟨he', hx'⟩
    · rfl
    · exact hnamed e' x' c he' hx' hc' hc (.inl hdead)
    · exact (hnamed e x c he hx hc hc' (.inr hdead)).symm
    · exact hs.named e x e' x' c hx hx' hdead hc hc'
  neat hfree e := by
    rw [h.smbus] at hfree
    by_cases hed : e = d
    · exact hed ▸ hneat hfree
    · exact h.neat_of_ne hed (hs.neat hfree e)
  settled hfree := hsettled (h.psmouse ▸ hfree)
  data c x m hx hm := h.clients m c (hs.data c x m (h.client ▸ hx) hm)
  quiet c x hx := hs.quiet c x (h.client ▸ hx)
  work c hc := by
    rw [h.client]
    exact hs.work c (h.work ▸ hc)
  workNodup := h.work ▸ hs.workNodup
  fault := h.fault.trans hs.fault

end Rewrites

/-! ## By the thread that works on the mouse -/

/-- The mice other than the one on the bench are in order. -/
theorem Tie.rest_of {b : Bench} {q : Addr} (ht : Tie t l s) (hb : l.bench = some b) (hq : q ≠ b.mouse) : s.Settled q := by
  refine ht.rest (ht.mutex.mpr (ht.at_bench hb)) q fun b₁ hb₁ h => hq ?_
  obtain rfl := Option.some.inj (hb.symm.trans hb₁)
  exact h.symm

/-- The work on the mouse has come to stage `k`. -/
theorem Tie.moved {b : Bench} {k : Stage} {v : Option Visit} {o : Option Addr} (ht : Tie t l s) (hb : l.bench = some b)
    (hmouse : s'.mouse = s.mouse) (hm : s'.psmouseMutex = s.psmouseMutex) (hsm : s'.smbusMutex = s.smbusMutex)
    (hattends : Attends t s s') (hstage : k.Holds t b.mouse s')
    (hrest : ∀ q, q ≠ b.mouse → s.Settled q → s'.Settled q) (hv : v.isSome = l.visit.isSome)
    (hvisit : ∀ x, v = some x → x.Holds t s')
    (hloose : ∀ d', o = some d' ↔ ∃ r, s'.smbdev d' = some r ∧ r.owner = some t) :
    Tie t { l.move k with visit := v, loose := o } s' := by
  have hbench : (l.move k).bench = some { b with stage := k } := by
    simp [Account.move, Account.onBench, hb]
  refine ⟨hattends.role ht.role, fun q hq => ht.resync q (hattends.resync q hq), ?_,
    fun _ => ht.mutex.mpr (ht.at_bench hb), fun b' hb' => ?_, fun _ q hq => ?_, ?_, hvisit, hloose⟩
  · rw [hm]
    exact ht.mutex
  · obtain rfl := Option.some.inj (hbench.symm.trans hb')
    refine ⟨?_, hstage⟩
    rw [hmouse]
    exact (ht.bench b hb).fields
  · have hne : q ≠ b.mouse := fun h => hq _ hbench h.symm
    exact hrest q hne (ht.rest_of hb hne)
  · rw [hsm, hv]
    exact ht.smbus

/-- Freeing what is there, or nothing. -/
theorem freeData_eq {o : Option Addr} (h : ∀ m, o = some m → ∃ x, s.data m = some x) :
    ∃ data, s.freeData o = { s with data := data } ∧ (∀ m, o ≠ some m → data m = s.data m) ∧
      ∀ m x, data m = some x → s.data m = some x := by
  cases o with
  | none => exact ⟨s.data, rfl, fun _ _ => rfl, fun _ _ hx => hx⟩
  | some m =>
    obtain ⟨x, hx⟩ := h m rfl
    refine ⟨Function.update s.data m none, ?_, fun m' hm' => ?_, fun m' y hy => ?_⟩
    · simp [Board.freeData, hx, Board.setData]
    · exact Function.update_of_ne (fun he => hm' (by rw [he])) _ _
    · by_cases hm : m' = m
      · subst hm
        rw [Function.update_self] at hy
        cases hy
      · rwa [Function.update_of_ne hm] at hy

section Bench

variable (hs : s.Sound) (ht : Tie t l s)
include hs ht

/-- The platform data that no client has taken over are freed. -/
theorem freeBoardData_kept (hallow : l.allows (.freeBoardData d)) :
    ∃ r, s.smbdev d = some r ∧ Kept t l (.freeBoardData d) () s
      ((s.freeData r.platformData).onDev d fun r => { r with platformData := none }) := by
  obtain ⟨hvisit, b, hb, hk⟩ := hallow
  have hheld := ht.at_bench hb
  obtain ⟨hfields, hstage⟩ := ht.bench b hb
  rw [hk] at hstage
  obtain ⟨honly, hun, r, hr, hp, hc, hdead, hstock⟩ := hstage
  obtain ⟨data, hdata, hkeep, _⟩ := freeData_eq fun m hm => ⟨_, hstock m hm⟩
  refine ⟨r, hr.2, ?_⟩
  rw [hdata, Board.onDev_of_some (show { s with data := data }.smbdev d = some r from hr.2)]
  have hne : ∀ m x, x ≠ .thread t → s.data m = some x → data m = some x := by
    refine fun m x hx hm => (hkeep m fun hm' => hx ?_).trans hm
    exact Option.some.inj (hm.symm.trans (hstock m hm'))
  obtain ⟨r₀, hr₀, ho⟩ := hs.listed d hr.1
  obtain rfl := Option.some.inj (hr.2.symm.trans hr₀)
  have h : Rewrites d r { r with platformData := none } s
      ({ s with data := data }.setDev d (some { r with platformData := none })) := by
    refine ⟨rfl, rfl, rfl, rfl, rfl, rfl, rfl, rfl, fun e he => Board.smbdev_setDev_of_ne he, hr, Board.smbdev_setDev,
      rfl, rfl, id, fun m c hm => hne m _ (by simp) hm⟩
  have haged := h.aged rfl fun _ => rfl
  have hneat : ({ s with data := data }.setDev d (some { r with platformData := none })).Neat d := by
    intro x c hx hcx
    obtain ⟨_, rfl⟩ | ⟨hne, _⟩ := h.cases_listed hx
    · cases hc.symm.trans hcx
    · exact absurd rfl hne
  have hnames : ∀ u, Attends u s ({ s with data := data }.setDev d (some { r with platformData := none })) :=
    fun u => h.attends fun _ _ _ _ hd hcx => ⟨hd, hcx⟩
  refine ⟨h.sound hs ho id ?_ ?_ ?_ ?_, ⟨l, rfl, ?_⟩, fun u hu => ⟨Iff.rfl, Iff.rfl, hnames u, ?_, ?_, h.loose⟩⟩
  · exact fun hd hcs => hs.attached d r hr hd hcs
  · intro e x c' _ _ _ hc' _
    cases hc.symm.trans hc'
  · exact fun _ => hneat
  · exact fun hfree => by cases hfree.symm.trans hheld
  · refine ⟨(hnames t).role ht.role, ht.resync, ht.mutex, ht.benched, fun b' hb' => ?_,
      fun _ q hq => ?_, ht.smbus, fun x hx => ?_,
      fun e => (ht.loose e).trans (h.loose e).symm⟩
    · obtain rfl := Option.some.inj (hb.symm.trans hb')
      refine ⟨hfields, ?_⟩
      rw [hk]
      refine ⟨haged.only honly, haged.unhooked hun, _, h.there, hp, hc, hdead, fun m hm => ?_⟩
      cases hm
    · exact haged.settled (ht.rest_of hb fun he => hq b hb he.symm)
    · cases hvisit.symm.trans hx
  · exact fun hm => absurd hm (ne_holder hheld hu)
  · exact fun _ => h.steady (ne_holder hheld hu) rfl (.inl rfl) hneat

/-- The record comes to name its client. -/
theorem setClient_kept (hallow : l.allows (.setClient d c)) :
    Kept t l (.setClient d c) () s (s.onDev d fun r => { r with client := some c }) := by
  obtain ⟨hvisit, b, hb, hk, hhooked⟩ := hallow
  have hheld := ht.at_bench hb
  obtain ⟨⟨m, hm, hhandlers, hpriv⟩, hstage⟩ := ht.bench b hb
  rw [hk] at hstage
  obtain ⟨honly, hun, ⟨r, hr, hp, hc, hdead⟩, hbuild, hnames⟩ := hstage
  have hattached : s.Attached b.mouse d := ⟨m, hm, hhandlers _ hhooked.1, hpriv _ hhooked.2⟩
  rw [Board.onDev_of_some hr.2]
  obtain ⟨r₀, hr₀, ho⟩ := hs.listed d hr.1
  obtain rfl := Option.some.inj (hr.2.symm.trans hr₀)
  have h : Rewrites d r { r with client := some c } s (s.setDev d (some { r with client := some c })) :=
    ⟨rfl, rfl, rfl, rfl, rfl, rfl, rfl, rfl, fun e he => Board.smbdev_setDev_of_ne he, hr, Board.smbdev_setDev,
      rfl, rfl, id, fun _ _ hm => hm⟩
  obtain ⟨x, hx, _, hdestroyer, hrem, hnotified⟩ := hbuild
  have hneat : (s.setDev d (some { r with client := some c })).Neat d := by
    intro y c' hy hcy
    obtain ⟨_, rfl⟩ | ⟨hne, _⟩ := h.cases_listed hy
    · obtain rfl := Option.some.inj hcy
      exact ⟨fun _ => ⟨x, hx, hnotified, hrem⟩, fun hd => by cases hdead.symm.trans hd⟩
    · exact absurd rfl hne
  have hattends : ∀ u, Attends u s (s.setDev d (some { r with client := some c })) := by
    refine fun u => h.attends fun c' y hy hu _ hcy => ?_
    obtain rfl := Option.some.inj hcy
    obtain rfl := Option.some.inj (hx.symm.trans hy)
    cases hdestroyer.symm.trans hu
  refine ⟨h.sound hs ho id ?_ ?_ ?_ ?_, ⟨l.move (.noted d c), rfl, ?_⟩,
    fun u hu => ⟨Iff.rfl, Iff.rfl, hattends u, ?_, ?_, h.loose⟩⟩
  · exact fun _ _ => hp ▸ hattached
  · intro e y c' he hy hcy hc' _
    obtain rfl := Option.some.inj hc'
    exact absurd hcy (hnames e y hy)
  · exact fun _ => hneat
  · exact fun hfree => by cases hfree.symm.trans hheld
  · refine ht.moved hb rfl rfl rfl (hattends t) ?_ ?_ rfl ?_ fun e => (ht.loose e).trans (h.loose e).symm
    · refine ⟨fun e y hy hpy => ?_, hattached, ⟨_, h.there, hp, rfl⟩, x, hx, by assumption, hdestroyer, hrem, hnotified⟩
      obtain ⟨rfl, _⟩ | ⟨_, hy'⟩ := h.cases_listed hy
      · exact .inr rfl
      · exact honly e y hy' hpy
    · intro q hq hsettled m' hm'
      obtain ⟨hplain, hvendor, hsmbus⟩ := hsettled m' hm'
      have hback : ∀ e y, Board.Listed (s.setDev d (some { r with client := some c })) e y →
          y.psmouse = q → s.Listed e y := by
        intro e y hy hpy
        obtain ⟨rfl, rfl⟩ | ⟨_, hy'⟩ := h.cases_listed hy
        · exact absurd (hpy.symm.trans hp) hq
        · exact hy'
      refine ⟨fun hh e y hy hpy => hplain hh e y (hback e y hy hpy) hpy,
        fun hh e y hy hpy => hvendor hh e y (hback e y hy hpy) hpy, fun hh => ?_⟩
      obtain ⟨e, ha, honly', y, hy, hpy, hcy⟩ := hsmbus hh
      have he : e ≠ d := by
        rintro rfl
        obtain rfl := Option.some.inj (hr.2.symm.trans hy.2)
        exact hq (hpy.symm.trans hp)
      exact ⟨e, ha, fun e' y' hy' hpy' => honly' e' y' (hback e' y' hy' hpy') hpy',
        y, (h.listed_of_ne he).mpr hy, hpy, hcy⟩
    · intro x hx
      cases hvisit.symm.trans hx
  · exact fun hm => absurd hm (ne_holder hheld hu)
  · exact fun _ => h.steady (ne_holder hheld hu) rfl
      (.inr ⟨hc, c, rfl, x, hx, by assumption, hdestroyer, hrem, hnotified⟩) hneat

omit hs ht in
/-- A live record with a client is marked as dead. -/
theorem Rewrites.of_dead (hr : s.Listed d r) :
    Rewrites d r { r with dead := true } s (s.setDev d (some { r with dead := true })) :=
  ⟨rfl, rfl, rfl, rfl, rfl, rfl, rfl, rfl, fun _ he => Board.smbdev_setDev_of_ne he, hr, Board.smbdev_setDev,
    rfl, rfl, fun _ => rfl, fun _ _ hm => hm⟩

omit hs ht in
/-- Marking a record as dead ages it. -/
theorem Aged.of_dead (hr : s.Listed d r) (hdead : r.dead = false) (hc : r.client = some c) :
    Aged s (s.setDev d (some { r with dead := true })) := by
  refine (Rewrites.of_dead hr).aged rfl fun h => ?_
  rcases h with h | h
  · cases h.symm.trans hc
  · cases h.symm.trans hdead

omit ht in
/-- Marking a record as dead keeps the invariant. -/
theorem Board.Sound.of_dead (hr : s.Listed d r) (hdead : r.dead = false) (hc : r.client = some c)
    (hlock : s.smbusMutex = some t) : (s.setDev d (some { r with dead := true })).Sound := by
  obtain ⟨r₀, hr₀, ho⟩ := hs.listed d hr.1
  obtain rfl := Option.some.inj (hr.2.symm.trans hr₀)
  refine (Rewrites.of_dead hr).sound hs ho (fun h => by cases h) (fun h => by cases h) ?_ ?_ ?_
  · intro e x c' _ hx hcx hc' hlive
    rcases hlive with h | h
    · cases h
    · exact (hs.named e x d r c' hx hr h hcx hc').symm
  · exact fun hfree => by cases hfree.symm.trans hlock
  · exact fun hfree q => (Aged.of_dead hr hdead hc).settled (hs.settled hfree q)

omit hs ht in
/-- Marking a record as dead keeps nobody from what he is there for. -/
theorem Attends.of_dead (hr : s.Listed d r) : Attends u s (s.setDev d (some { r with dead := true })) :=
  (Rewrites.of_dead hr).attends fun _ _ _ _ h => by cases h

omit ht in
/-- Marking a record as dead disturbs nobody's work. -/
theorem Later.of_dead (hr : s.Listed d r) (hdead : r.dead = false) (hc : r.client = some c) :
    Later u s (s.setDev d (some { r with dead := true })) :=
  (Rewrites.of_dead hr).later (Aged.of_dead hr hdead hc) hs (fun _ => rfl) fun _ hm => hm

/-- The mouse is disconnected while its companion is in use. -/
theorem setDead_posting_kept {b : Bench} (hvisit : l.visit = some (.posting d r)) (hdead : r.dead = false)
    (hb : l.bench = some b) (hk : b.stage = .used d) :
    Kept t l (.setDead d) () s (s.onDev d fun r => { r with dead := true }) := by
  have hheld := ht.at_bench hb
  have hlock := ht.at_list hvisit
  obtain ⟨_, hneat, hr⟩ := ht.visit _ hvisit
  have hstage := (ht.bench b hb).stage
  rw [hk] at hstage
  obtain ⟨hattached, honly, r₁, hr₁, hp, hsome⟩ := hstage
  obtain rfl := Option.some.inj (hr.2.symm.trans hr₁.2)
  obtain ⟨c, hc⟩ := Option.isSome_iff_exists.mp hsome
  rw [Board.onDev_of_some hr.2]
  have h := Rewrites.of_dead hr
  refine ⟨hs.of_dead hr hdead hc hlock, ⟨(l.move (.parting d)).turn (.marked d c), ?_, ?_⟩,
    fun u hu => ⟨Iff.rfl, Iff.rfl, .of_dead hr, fun hm => absurd hm (ne_holder hheld hu),
      fun hm => absurd hm (ne_holder hlock hu), h.loose⟩⟩
  · simp only [Account.moves, hvisit]
    exact ⟨c, hc, rfl⟩
  · refine ht.moved (v := some (.marked d c)) hb rfl rfl rfl (Attends.of_dead hr) ?_
      (fun q _ hq => (Aged.of_dead hr hdead hc).settled hq) (by rw [hvisit]; rfl) (fun x hx => ?_)
      fun e => (ht.loose e).trans (h.loose e).symm
    · refine ⟨fun e y hy hpy => ?_, hattached, _, h.there, hp, rfl⟩
      obtain ⟨_, rfl⟩ | ⟨hne, hy'⟩ := h.cases_listed hy
      · rfl
      · exact (honly e y hy' hpy).resolve_right hne
    · obtain rfl := Option.some.inj hx
      obtain ⟨x, hx, hn, hrem⟩ := (hneat d r c hr hc).1 hdead
      exact ⟨hheld, fun e he => h.neat_of_ne he (hneat e), ⟨_, h.there, rfl, hc⟩, x, hx, hn, hrem⟩

/-- The client a mouse is driven by has gone. -/
theorem setDead_walking_kept {gone : Option Addr} {todo : List Addr} {rest : List (Addr × SmbusDev)}
    (hvisit : l.visit = some (.walking gone todo ((d, r) :: rest) .fresh)) (hgone : gone = some c)
    (hc : r.client = some c) (hdead : r.dead = false) :
    Kept t l (.setDead d) () s (s.onDev d fun r => { r with dead := true }) := by
  have hlock := ht.at_list hvisit
  have hw : Walk t s gone todo ((d, r) :: rest) .fresh := ht.visit _ hvisit
  obtain ⟨r₀, hr, hm⟩ := hw.mirrors (d, r) List.mem_cons_self
  have hc₀ : r₀.client = some c := (hm.client c hgone).mpr hc
  have hdead₀ : r₀.dead = false := hm.dead.trans hdead
  rw [Board.onDev_of_some hr.2]
  have h := Rewrites.of_dead hr
  have hlater : ∀ u, Later u s (s.setDev d (some { r₀ with dead := true })) := fun u => .of_dead hs hr hdead₀ hc₀
  have hfresh : d ∉ todo ∧ d ∉ rest.map Prod.fst := by
    have hnodup := hw.nodup
    rw [List.map_cons, List.nodup_append, List.nodup_cons] at hnodup
    exact ⟨fun hd => hnodup.2.2 d hd d List.mem_cons_self rfl, hnodup.2.1.1⟩
  refine ⟨hs.of_dead hr hdead₀ hc₀ hlock,
    ⟨l.turn (.walking gone todo ((d, { r with dead := true }) :: rest) .marked), ?_, ?_⟩,
    fun u hu => ⟨Iff.rfl, Iff.rfl, .of_dead hr, fun _ => hlater u,
      fun hm => absurd hm (ne_holder hlock hu), h.loose⟩⟩
  · simp only [Account.moves, hvisit]
  · refine ⟨(Attends.of_dead hr).role ht.role, ht.resync, ht.mutex, ht.benched,
      fun b hb => (hlater t).bench (ht.bench b hb),
      fun hmu q hq => (hlater t).toAged.settled (ht.rest hmu q hq), ?_, fun x hx => ?_,
      fun e => (ht.loose e).trans (h.loose e).symm⟩
    · exact ⟨fun _ => hlock, fun _ => rfl⟩
    · obtain rfl := Option.some.inj hx
      refine ⟨hw.nodup, hw.covers, hw.ahead, fun x hx => ?_, fun e he => ?_, fun c' e y hc' hy hcy hdy hat q ha => ?_,
        fun _ e y rest' hseen => ?_, hw.leaving⟩
      · rcases List.mem_cons.mp hx with rfl | hx
        · exact ⟨_, h.there, hm.psmouse, rfl, hm.client⟩
        · have hne : x.1 ≠ d := fun he => hfresh.2 (he ▸ List.mem_map_of_mem hx)
          obtain ⟨y, hy, hmy⟩ := hw.mirrors x (List.mem_cons_of_mem _ hx)
          exact ⟨y, (h.listed_of_ne hne).mpr hy, hmy⟩
      · by_cases hed : e = d
        · subst hed
          exact absurd hc₀ (he { r₀ with dead := true } c h.there hgone)
        · exact h.neat_of_ne hed (hw.neat e fun y c' hy => he y c' ((h.listed_of_ne hed).mpr hy))
      · have hin : e ∈ todo := hat.resolve_right fun h => by cases h.1
        have hed : e ≠ d := fun he => hfresh.1 (he ▸ hin)
        exact hw.dead c' e y hc' ((h.listed_of_ne hed).mp hy) hcy hdy (.inl hin) q ha
      · obtain ⟨hhead, _⟩ := List.cons.inj hseen
        obtain ⟨rfl, rfl⟩ := Prod.mk.inj hhead
        refine ⟨?_, c, hgone, hc⟩
        have hattached := hs.attached d r₀ hr hdead₀ (by rw [hc₀]; rfl)
        rwa [hm.psmouse] at hattached

end Bench

end HostNotify.Psmouse
