import HostNotify.Psmouse.Walking

/-!
# Clients come and go

The operations on the clients. A client is made for a record, which then names it; it is unregistered
by the work queue or by somebody else, and the notifier finds the record in between.
-/

namespace HostNotify.Psmouse

open Interleaving

variable {s s' : Board} {t u : ℕ} {p d c : Addr} {r : SmbusDev} {x x' : Client} {l l' : Account}

/-- Nothing has changed but client `c`, platform data and the work queue. -/
structure Concerns (c : Addr) (s s' : Board) : Prop where
  mouse : s'.mouse = s.mouse
  usage : s'.usage = s.usage
  list : s'.list = s.list
  dev : s'.smbdev = s.smbdev
  psmouse : s'.psmouseMutex = s.psmouseMutex
  smbus : s'.smbusMutex = s.smbusMutex
  fault : s'.fault = s.fault
  client : ∀ c', c' ≠ c → s'.client c' = s.client c'

namespace Concerns

variable (h : Concerns c s s')
include h

/-- The records are on the list as before. -/
theorem listed {e : Addr} {y : SmbusDev} : s'.Listed e y ↔ s.Listed e y := by
  rw [Board.Listed, Board.Listed, h.list, h.dev]

/-- Mice are driven as before. -/
theorem attached {q e : Addr} : s'.Attached q e ↔ s.Attached q e := by
  rw [Board.Attached, h.mouse]
  exact Iff.rfl

/-- No record has changed. -/
theorem aged : Aged s s' where
  mouse := h.mouse
  back _ y hy := ⟨y, h.listed.mp hy, rfl, rfl, id⟩
  keep _ y hy _ := ⟨y, h.listed.mpr hy, rfl, rfl, fun _ => rfl⟩

/-- The list stays in order, by what has become of the client. -/
theorem neat
    (hlive : ∀ e y x, s.Listed e y → y.dead = false → y.client = some c → s.client c = some x → x.notified = false →
      x.removal = .none → ∃ x', s'.client c = some x' ∧ x'.notified = false ∧ x'.removal = .none)
    (hdead : ∀ e y x', s.Listed e y → y.client = some c → s'.client c = some x' →
      ∃ x, s.client c = some x ∧ (x.notified = true → x'.notified = true))
    {e : Addr} (he : s.Neat e) : s'.Neat e := by
  intro y c' hy hcy
  have hy' := h.listed.mp hy
  obtain ⟨hl, hd⟩ := he y c' hy' hcy
  by_cases hc : c' = c
  · subst hc
    refine ⟨fun hdy => ?_, fun hdy q ha x' hx' => ?_⟩
    · obtain ⟨x, hx, hn, hrem⟩ := hl hdy
      exact hlive e y x hy' hdy hcy hx hn hrem
    · obtain ⟨x, hx, hmono⟩ := hdead e y x' hy' hcy hx'
      exact hmono (hd hdy q (h.attached.mp ha) x hx)
  · rw [h.client c' hc]
    exact ⟨hl, fun hdy q ha => hd hdy q (h.attached.mp ha)⟩

/-- Nobody is kept from what he is there for. -/
theorem attends (hc : ∀ x, s.client c = some x → (x.destroyer = some u ∨ x.destroyer = none ∧ x.removal = .taken u) →
    ∃ x', s'.client c = some x' ∧ x'.destroyer = x.destroyer ∧ x'.removal = x.removal ∧ x'.notified = x.notified) :
    Attends u s s' where
  mouse k p hp := by
    rw [Board.Deals, h.mouse, h.usage]
    exact hp
  resync p hp := by
    rw [Board.Deals, h.mouse, h.usage] at hp
    exact hp
  client c' x hx hu := by
    by_cases hcc : c' = c
    · subst hcc
      exact hc x hx hu
    · exact ⟨x, (h.client c' hcc).trans hx, rfl, rfl, rfl⟩
  names _ _ _ _ _ y hy hdead hcy := ⟨y, h.listed.mp hy, hdead, hcy⟩

/-- No client is finished behind its maker's back. -/
theorem building (hc : s.Building c → s'.Building c) {c' : Addr} (hb : s.Building c') : s'.Building c' := by
  by_cases hcc : c' = c
  · subst hcc
    exact hc hb
  · rw [Board.Building, h.client c' hcc]
    exact hb

/-- The work of others goes on. -/
theorem later (hstocks : ∀ m, s.data m = some (.thread u) → s'.data m = some (.thread u))
    (hc : s.Building c → s'.Building c) : Later u s s' :=
  { h.aged with
    own := fun _ _ hr _ => h.dev ▸ hr
    stocks := hstocks
    board := fun _ y y' hy hy' _ => by rw [Option.some.inj (hy.2.symm.trans (h.listed.mp hy').2)]
    building := fun _ hb => h.building hc hb }

/-- Whoever is at the list finds it as it was. -/
theorem steady (hneat : ∀ e, s.Neat e → s'.Neat e)
    (hidle : s.psmouseMutex = some u → ∀ x, s.client c = some x → x.notified = false → x.removal = .none →
      ∃ x', s'.client c = some x' ∧ x'.notified = false ∧ x'.removal = .none)
    (hdestroyer : ∀ x, s.client c = some x → x.destroyer = some u → ∃ x', s'.client c = some x' ∧ x'.destroyer = some u) :
    Steady u s s' where
  list := h.list
  dev _ y hy := ⟨y, (h.listed.mpr hy).2, rfl, rfl, .inl rfl⟩
  still _ _ _ hy := (h.listed.mpr hy).2
  hooks _ _ _ ha := h.attached.mp ha
  marks _ _ _ _ _ ha := h.attached.mpr ha
  neat := hneat
  idle hm c' x hx hn hrem := by
    by_cases hcc : c' = c
    · subst hcc
      exact hidle hm x hx hn hrem
    · exact ⟨x, (h.client c' hcc).trans hx, hn, hrem⟩
  destroyer c' x hx hd := by
    by_cases hcc : c' = c
    · subst hcc
      exact hdestroyer x hx hd
    · exact ⟨x, (h.client c' hcc).trans hx, hd⟩

/-- What the new fields must obey for the invariant to be kept. -/
theorem sound (hs : s.Sound) (hneat : s.smbusMutex = none → ∀ e, s.Neat e → s'.Neat e)
    (hdata : ∀ c' y m, s'.client c' = some y → y.platformData = some m → s'.data m = some (.client c'))
    (hquiet : ∀ y, s'.client c = some y → y.destroyer = none → y.notified = false)
    (hwork : ∀ c' ∈ s'.work, ∃ y, s'.client c' = some y ∧ y.destroyer = none ∧ y.removal = .queued)
    (hnodup : s'.work.Nodup) : s'.Sound where
  nodup := h.list ▸ hs.nodup
  listed e he := by
    rw [h.dev]
    exact hs.listed e (h.list ▸ he)
  unowned e y hy ho := by
    rw [h.list]
    exact hs.unowned e y (h.dev ▸ hy) ho
  alive e y hy hdead := h.mouse ▸ hs.alive e y (h.listed.mp hy) hdead
  attached e y hy hdead hc := h.attached.mpr (hs.attached e y (h.listed.mp hy) hdead hc)
  named e y e' y' c' hy hy' := hs.named e y e' y' c' (h.listed.mp hy) (h.listed.mp hy')
  neat hfree e := hneat (h.smbus ▸ hfree) e (hs.neat (h.smbus ▸ hfree) e)
  settled hfree q := h.aged.settled (hs.settled (h.psmouse ▸ hfree) q)
  data := hdata
  quiet c' y hy hd := by
    by_cases hcc : c' = c
    · subst hcc
      exact hquiet y hy hd
    · exact hs.quiet c' y ((h.client c' hcc).symm.trans hy) hd
  work := hwork
  workNodup := hnodup
  fault := h.fault.trans hs.fault

/-- The client keeps its platform data. -/
theorem same_data (hs : s.Sound) (hdata : s'.data = s.data)
    (hc : ∀ y, s'.client c = some y → ∃ x, s.client c = some x ∧ x.platformData = y.platformData)
    (c' : Addr) (y : Client) (m : Addr) (hy : s'.client c' = some y) (hm : y.platformData = some m) :
    s'.data m = some (.client c') := by
  rw [hdata]
  by_cases hcc : c' = c
  · subst hcc
    obtain ⟨x, hx, hp⟩ := hc y hy
    exact hs.data c' x m hx (hp.trans hm)
  · exact hs.data c' y m ((h.client c' hcc).symm.trans hy) hm

/-- The client is not waiting to be removed. -/
theorem same_work (hs : s.Sound) (hwork : ∀ c' ∈ s'.work, c' ∈ s.work ∧ c' ≠ c) (c' : Addr) (hc : c' ∈ s'.work) :
    ∃ y, s'.client c' = some y ∧ y.destroyer = none ∧ y.removal = .queued := by
  obtain ⟨hin, hne⟩ := hwork c' hc
  rw [h.client c' hne]
  exact hs.work c' hin

/-- A change of one client spares the accounts of the other threads. -/
theorem spares (hattends : Attends u s s') (hlater : s.psmouseMutex = some u → Later u s s')
    (hsteady : s.smbusMutex = some u → Steady u s s') : Spares u s s' where
  psmouse := by rw [h.psmouse]
  smbus := by rw [h.smbus]
  attends := hattends
  later := hlater
  steady := hsteady
  loose e := by rw [h.dev]

/-- The thread goes on with its mouse as before. -/
theorem tie (ht : Tie t l s) (hlater : Later t s s') (hrole : l'.role.Holds t s')
    (hresync : ∀ q, l.role = .resyncing q → l'.role = .resyncing q) (hmutex : l'.mutex = l.mutex)
    (hbench : l'.bench = l.bench) (hloose : l'.loose = l.loose) (hv : l'.visit.isSome = l.visit.isSome)
    (hvisit : ∀ y, l'.visit = some y → y.Holds t s') : Tie t l' s' where
  role := hrole
  resync q hq := by
    rw [Board.Deals, h.mouse, h.usage] at hq
    exact hresync q (ht.resync q hq)
  mutex := by rw [hmutex, h.psmouse, ht.mutex]
  benched hb := by
    rw [hmutex]
    exact ht.benched (hbench ▸ hb)
  bench b hb := hlater.bench (ht.bench b (hbench ▸ hb))
  rest hm q hq := hlater.toAged.settled (ht.rest (hmutex ▸ hm) q fun b hb => hq b (hbench ▸ hb))
  smbus := by rw [hv, h.smbus, ht.smbus]
  visit := hvisit
  loose e := by rw [hloose, h.dev, ht.loose]

end Concerns

/-- A client that waits to be removed is in no other state. -/
theorem Board.Sound.not_queued (hs : s.Sound) (hx : s.client c = some x) (h : x.destroyer ≠ none ∨ x.removal ≠ .queued) :
    c ∉ s.work := by
  intro hc
  obtain ⟨y, hy, hd, hrem⟩ := hs.work c hc
  obtain rfl := Option.some.inj (hx.symm.trans hy)
  rcases h with h | h
  · exact h hd
  · exact h hrem

end HostNotify.Psmouse
