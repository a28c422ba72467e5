import HostNotify.Psmouse.Clients

/-!
# From registration to removal

One lemma for each operation on a client, in the order of its life.
-/

namespace HostNotify.Psmouse

open Interleaving

variable {s s' : Board} {t u : ℕ} {p d c : Addr} {r : SmbusDev} {x x' : Client} {l l' : Account}

/-- No record on the list names the client. -/
theorem not_names (h : s.names c = false) (hr : s.Listed d r) : r.client ≠ some c := by
  intro hc
  have hall := List.any_eq_false.mp h d hr.1
  rw [hr.2, Option.bind_some, hc] at hall
  simp at hall

section Life

variable (hs : s.Sound) (ht : Tie t l s)
include hs ht

/-- A client is made for a record; it takes over the platform data. -/
theorem newScannedDevice_kept {a : ℕ} {data : Addr → Option Holder} {lapse : Bool}
    (hallow : l.allows (.newScannedDevice a d)) (hr : s.smbdev d = some r) (hfree : s.client c = none)
    (hnames : s.names c = false) (htaken : ∀ m, r.platformData = some m → data m = some (.client c))
    (hother : ∀ m, r.platformData ≠ some m → data m = s.data m) :
    Kept t l (.newScannedDevice a d) (some c) s
      { s.setClient c (some (.fresh r.platformData)) with data := data, lapse := lapse } := by
  obtain ⟨hvisit, b, hb, hk⟩ := hallow
  have hheld := ht.at_bench hb
  have hstage := (ht.bench b hb).stage
  rw [hk] at hstage
  obtain ⟨honly, hun, r₀, hr₀, hp, hc, hdead, hstock⟩ := hstage
  obtain rfl := Option.some.inj (hr.symm.trans hr₀.2)
  have hnone : ∀ y, s.client c ≠ some y := fun y hy => by cases hfree.symm.trans hy
  have h : Concerns c s { s.setClient c (some (.fresh r.platformData)) with data := data, lapse := lapse } :=
    ⟨rfl, rfl, rfl, rfl, rfl, rfl, rfl, fun _ hne => Board.client_setClient_of_ne hne⟩
  have hneat : ∀ e, s.Neat e →
      Board.Neat { s.setClient c (some (.fresh r.platformData)) with data := data, lapse := lapse } e := by
    refine fun e => h.neat (fun e y z _ _ _ hz => absurd hz (hnone z)) fun e y z hy hcy => ?_
    exact absurd hcy (not_names hnames hy)
  have hattends : ∀ u, Attends u s
      { s.setClient c (some (.fresh r.platformData)) with data := data, lapse := lapse } :=
    fun u => h.attends fun y hy => absurd hy (hnone y)
  refine ⟨h.sound hs (fun _ => hneat) ?_ ?_ ?_ hs.workNodup, ⟨l.move (.found d c), rfl, ?_⟩,
    fun u hu => h.spares (hattends u) (fun hm => absurd hm (ne_holder hheld hu)) fun _ =>
      h.steady hneat (fun _ y hy => absurd hy (hnone y)) fun y hy => absurd hy (hnone y)⟩
  · intro c' y m hy hm
    by_cases hcc : c' = c
    · subst hcc
      obtain rfl := Option.some.inj ((Board.client_setClient (s := s)).symm.trans hy)
      exact htaken m hm
    · have hdata := hs.data c' y m ((h.client c' hcc).symm.trans hy) hm
      refine (hother m fun hpm => ?_).trans hdata
      cases (hstock m hpm).symm.trans hdata
  · intro y hy _
    obtain rfl := Option.some.inj ((Board.client_setClient (s := s)).symm.trans hy)
    rfl
  · refine h.same_work hs fun c' hc' => ⟨hc', ?_⟩
    rintro rfl
    obtain ⟨y, hy, _⟩ := hs.work c' hc'
    exact hnone y hy
  · refine ht.moved hb rfl rfl rfl (hattends t) ?_ (fun q _ hq => h.aged.settled hq) rfl ?_ ht.loose
    · exact ⟨honly, hun, ⟨r, h.listed.mpr hr₀, hp, hc, hdead⟩, ⟨_, Board.client_setClient, rfl, rfl, rfl, rfl⟩,
        fun e y hy => not_names hnames (h.listed.mp hy)⟩
    · intro y hy
      cases hvisit.symm.trans hy

/-- The client is linked to the mouse; the companion is in use. -/
theorem linkAdd_kept {o : Option Addr} (hallow : l.allows (.linkAdd o p)) :
    ∃ c m, o = some c ∧ s.mouse p = some m ∧
      Kept t l (.linkAdd o p) () s (s.onClient c fun x => { x with building := false }) := by
  obtain ⟨hvisit, b, d, c, hb, rfl, hk, rfl⟩ := hallow
  have hheld := ht.at_bench hb
  obtain ⟨⟨m, hm, _⟩, hstage⟩ := ht.bench b hb
  rw [hk] at hstage
  obtain ⟨honly, hattached, ⟨r, hr, hp, hc⟩, x, hx, hbuild, hdx, hrem, hn⟩ := hstage
  refine ⟨c, m, rfl, hm, ?_⟩
  rw [Board.onClient_of_some hx]
  have h : Concerns c s (s.setClient c (some { x with building := false })) :=
    ⟨rfl, rfl, rfl, rfl, rfl, rfl, rfl, fun _ hne => Board.client_setClient_of_ne hne⟩
  have hthere : (s.setClient c (some { x with building := false })).client c = some { x with building := false } :=
    Board.client_setClient
  have hneat : ∀ e, s.Neat e → (s.setClient c (some { x with building := false })).Neat e := by
    refine fun e => h.neat (fun _ _ _ _ _ _ _ _ _ => ⟨_, hthere, hn, hrem⟩) fun e y z _ _ hz => ⟨x, hx, fun hnx => ?_⟩
    cases hn.symm.trans hnx
  have hattends : ∀ u, Attends u s (s.setClient c (some { x with building := false })) := by
    refine fun u => h.attends fun y hy _ => ?_
    obtain rfl := Option.some.inj (hx.symm.trans hy)
    exact ⟨_, hthere, rfl, rfl, rfl⟩
  refine ⟨h.sound hs (fun _ => hneat) ?_ ?_ ?_ hs.workNodup, ⟨l.move (.used d), ⟨b, d, c, hb, hk, rfl⟩, ?_⟩,
    fun u hu => h.spares (hattends u) (fun hm => absurd hm (ne_holder hheld hu)) fun _ =>
      h.steady hneat (fun _ _ _ _ _ => ⟨_, hthere, hn, hrem⟩) fun y hy hdy => ?_⟩
  · refine h.same_data hs rfl fun y hy => ⟨x, hx, ?_⟩
    obtain rfl := Option.some.inj (hthere.symm.trans hy)
    rfl
  · intro y hy _
    obtain rfl := Option.some.inj (hthere.symm.trans hy)
    exact hn
  · refine h.same_work hs fun c' hc' => ⟨hc', ?_⟩
    rintro rfl
    exact hs.not_queued hx (.inr (by rw [hrem]; simp)) hc'
  · refine ht.moved hb rfl rfl rfl (hattends t) ?_ (fun q _ hq => h.aged.settled hq) rfl ?_ ht.loose
    · exact ⟨h.attached.mpr hattached, h.aged.only honly, r, h.listed.mpr hr, hp, by rw [hc]; rfl⟩
    · intro y hy
      cases hvisit.symm.trans hy
  · obtain rfl := Option.some.inj (hx.symm.trans hy)
    cases hdx.symm.trans hdy

/-- The removal of the client is left to the work queue. -/
theorem queueWork_kept {lapse : Bool} (hvisit : l.visit = some (.marked d c)) {b : Bench} (hb : l.bench = some b)
    (hk : b.stage = .parting d) (hx : s.client c = some x) (hreg : x.destroyer = none) :
    Kept t l (.queueWork (some c)) () s
      { s.setClient c (some { x with removal := .queued }) with work := s.work ++ [c], lapse := lapse } := by
  have hheld := ht.at_bench hb
  have hlock := ht.at_list hvisit
  obtain ⟨_, hneat, ⟨r, hr, hdead, hc⟩, x₀, hx₀, hn, hrem⟩ := ht.visit _ hvisit
  obtain rfl := Option.some.inj (hx.symm.trans hx₀)
  have h : Concerns c s
      { s.setClient c (some { x with removal := .queued }) with work := s.work ++ [c], lapse := lapse } :=
    ⟨rfl, rfl, rfl, rfl, rfl, rfl, rfl, fun _ hne => Board.client_setClient_of_ne hne⟩
  have hthere : (s.setClient c (some { x with removal := .queued })).client c = some { x with removal := .queued } :=
    Board.client_setClient
  have hattends : ∀ u, Attends u s
      { s.setClient c (some { x with removal := .queued }) with work := s.work ++ [c], lapse := lapse } := by
    refine fun u => h.attends fun y hy hu => ?_
    obtain rfl := Option.some.inj (hx.symm.trans hy)
    rcases hu with hu | ⟨_, hu⟩
    · cases hreg.symm.trans hu
    · cases hrem.symm.trans hu
  have hnot : c ∉ s.work := hs.not_queued hx (.inr (by rw [hrem]; simp))
  refine ⟨h.sound hs (fun hfree => by cases hfree.symm.trans hlock) ?_ ?_ ?_ ?_,
    ⟨l.turn (.queued d), ⟨d, c, hvisit, rfl⟩, ?_⟩,
    fun u hu => h.spares (hattends u) (fun hm => absurd hm (ne_holder hheld hu)) fun hm => absurd hm (ne_holder hlock hu)⟩
  · refine h.same_data hs rfl fun y hy => ⟨x, hx, ?_⟩
    obtain rfl := Option.some.inj (hthere.symm.trans hy)
    rfl
  · intro y hy _
    obtain rfl := Option.some.inj (hthere.symm.trans hy)
    exact hn
  · intro c' hc'
    rcases List.mem_append.mp hc' with hin | hin
    · rw [h.client c' fun he => hnot (he ▸ hin)]
      exact hs.work c' hin
    · obtain rfl := List.mem_singleton.mp hin
      exact ⟨_, hthere, hreg, rfl⟩
  · rw [List.nodup_append]
    refine ⟨hs.workNodup, (by simp), fun a ha e he => ?_⟩
    rw [List.mem_singleton.mp he]
    exact fun hac => hnot (hac ▸ ha)
  · have hother : ∀ e, e ≠ d → Board.Neat
        { s.setClient c (some { x with removal := .queued }) with work := s.work ++ [c], lapse := lapse } e := by
      intro e he y c' hy hcy
      have hy' := h.listed.mp hy
      by_cases hcc : c' = c
      · subst hcc
        refine ⟨fun hdy => absurd (hs.named e y d r c' hy' hr hdy hcy hc).symm he, fun hdy q ha z hz => ?_⟩
        have hnx := (hneat e he y c' hy' hcy).2 hdy q (h.attached.mp ha) x hx
        cases hn.symm.trans hnx
      · obtain ⟨hl, hd⟩ := hneat e he y c' hy' hcy
        rw [h.client c' hcc]
        exact ⟨hl, fun hdy q ha => hd hdy q (h.attached.mp ha)⟩
    refine ⟨(hattends t).role ht.role, ht.resync, ht.mutex, ht.benched, fun b' hb' => ?_,
      fun hm q hq => h.aged.settled (ht.rest hm q hq),
      ⟨fun _ => hlock, fun _ => rfl⟩, fun y hy => ?_, ht.loose⟩
    · obtain rfl := Option.some.inj (hb.symm.trans hb')
      obtain ⟨hfields, hstage⟩ := ht.bench b hb
      refine ⟨hfields, ?_⟩
      rw [hk] at hstage ⊢
      obtain ⟨hclear, ha, y, hy, hfacts⟩ := hstage
      exact ⟨h.aged.clear hclear, h.attached.mpr ha, y, h.listed.mpr hy, hfacts⟩
    · obtain rfl := Option.some.inj hy
      exact ⟨hheld, hother⟩

omit hs in
/-- There is no memory for the removal; the client stays. -/
theorem Tie.unqueued (hvisit : l.visit = some (.marked d c)) : Tie t (l.turn (.queued d)) s := by
  obtain ⟨hm, hneat, _⟩ := ht.visit _ hvisit
  refine { ht with smbus := ⟨fun _ => ht.at_list hvisit, fun _ => rfl⟩, visit := fun y hy => ?_ }
  obtain rfl := Option.some.inj hy
  exact ⟨hm, hneat⟩

/-- The notifier begins to look for the record of a client. -/
theorem entries_gone_kept (hallow : l.allows (.entries (some c))) :
    Kept t l (.entries (some c)) s.list s (s.onClient c fun x => { x with notified := true }) := by
  obtain ⟨hvisit, hgone⟩ := hallow
  have hlock := ht.at_list hvisit
  have hneat : ∀ e, s.Neat e := ht.visit _ hvisit
  obtain ⟨x, hx, hdx, hn⟩ : Role.Holds t s (.destroying c) := hgone c rfl ▸ ht.role
  rw [Board.onClient_of_some hx]
  have h : Concerns c s (s.setClient c (some { x with notified := true })) :=
    ⟨rfl, rfl, rfl, rfl, rfl, rfl, rfl, fun _ hne => Board.client_setClient_of_ne hne⟩
  have hthere : (s.setClient c (some { x with notified := true })).client c = some { x with notified := true } :=
    Board.client_setClient
  have hattends : ∀ u, u ≠ t → Attends u s (s.setClient c (some { x with notified := true })) := by
    refine fun u hut => h.attends fun y hy hu => ?_
    obtain rfl := Option.some.inj (hx.symm.trans hy)
    rcases hu with hu | ⟨hu, _⟩
    · exact absurd (Option.some.inj (hdx.symm.trans hu)).symm hut
    · cases hdx.symm.trans hu
  have hlater : ∀ u, Later u s (s.setClient c (some { x with notified := true })) := by
    refine fun u => h.later (fun _ hm => hm) fun hb => ?_
    obtain ⟨y, hy, _, hdy, _⟩ := hb
    obtain rfl := Option.some.inj (hx.symm.trans hy)
    cases hdx.symm.trans hdy
  refine ⟨h.sound hs (fun hfree => by cases hfree.symm.trans hlock) ?_ ?_ ?_ hs.workNodup, ⟨_, rfl, ?_⟩,
    fun u hu => h.spares (hattends u hu) (fun _ => hlater u) fun hm => absurd hm (ne_holder hlock hu)⟩
  · refine h.same_data hs rfl fun y hy => ⟨x, hx, ?_⟩
    obtain rfl := Option.some.inj (hthere.symm.trans hy)
    rfl
  · intro y hy hdy
    obtain rfl := Option.some.inj (hthere.symm.trans hy)
    cases hdx.symm.trans hdy
  · refine h.same_work hs fun c' hc' => ⟨hc', ?_⟩
    rintro rfl
    exact hs.not_queued hx (.inl (by rw [hdx]; simp)) hc'
  · refine h.tie ht (hlater t) ⟨_, hthere, hdx, rfl⟩ (fun q hq => by cases (hgone c rfl).symm.trans hq) rfl rfl rfl
      (by rw [hvisit]; rfl) fun y hy => ?_
    obtain rfl := Option.some.inj hy
    refine ⟨by simpa using hs.nodup, fun _ => .inl, fun _ => id, fun z hz => (by cases hz), fun e he => ?_,
      fun c' e z hc hz hcz hdz _ q ha => ?_, fun hl => (by cases hl), fun c' hc => ?_⟩
    · intro z c' hz hcz
      have hcc : c' ≠ c := by
        rintro rfl
        exact he z c' hz rfl hcz
      obtain ⟨hl, hd⟩ := hneat e z c' (h.listed.mp hz) hcz
      rw [h.client c' hcc]
      exact ⟨hl, fun hdz q ha => hd hdz q (h.attached.mp ha)⟩
    · obtain rfl := Option.some.inj hc
      have hnx := (hneat e z c (h.listed.mp hz) hcz).2 hdz q (h.attached.mp ha) x hx
      cases hn.symm.trans hnx
    · obtain rfl := Option.some.inj hc
      exact ⟨_, hthere, hdx⟩

/-- The platform data of a client that goes are freed. -/
theorem freeClientData_kept (hallow : l.allows (.freeClientData c)) :
    ∃ x, s.client c = some x ∧ Kept t l (.freeClientData c) () s
      ((s.freeData x.platformData).onClient c fun x => { x with platformData := none }) := by
  have hrole : l.role = .notifying c := hallow
  obtain ⟨x, hx, hdx, hn⟩ : Role.Holds t s (.notifying c) := hrole ▸ ht.role
  obtain ⟨data, hdata, hkeep, _⟩ := freeData_eq fun m hm => ⟨_, hs.data c x m hx hm⟩
  refine ⟨x, hx, ?_⟩
  rw [hdata, Board.onClient_of_some (show { s with data := data }.client c = some x from hx)]
  have h : Concerns c s ({ s with data := data }.setClient c (some { x with platformData := none })) :=
    ⟨rfl, rfl, rfl, rfl, rfl, rfl, rfl, fun _ hne => Board.client_setClient_of_ne hne⟩
  have hthere : ({ s with data := data }.setClient c (some { x with platformData := none })).client c =
      some { x with platformData := none } := Board.client_setClient
  have hother : ∀ m y, y ≠ .client c → s.data m = some y → data m = some y := by
    refine fun m y hy hm => (hkeep m fun hpm => hy ?_).trans hm
    exact Option.some.inj (hm.symm.trans (hs.data c x m hx hpm))
  have hneat : ∀ e, s.Neat e → ({ s with data := data }.setClient c (some { x with platformData := none })).Neat e := by
    refine fun e => h.neat (fun e y z _ _ _ hz hnz hrz => ?_) fun e y z _ _ hz => ?_
    · obtain rfl := Option.some.inj (hx.symm.trans hz)
      exact ⟨_, hthere, hnz, hrz⟩
    · obtain rfl := Option.some.inj (hthere.symm.trans hz)
      exact ⟨x, hx, id⟩
  have hattends : ∀ u, Attends u s ({ s with data := data }.setClient c (some { x with platformData := none })) := by
    refine fun u => h.attends fun y hy _ => ?_
    obtain rfl := Option.some.inj (hx.symm.trans hy)
    exact ⟨_, hthere, rfl, rfl, rfl⟩
  have hlater : ∀ u, Later u s ({ s with data := data }.setClient c (some { x with platformData := none })) := by
    refine fun u => h.later (fun m hm => hother m _ (by simp) hm) fun hb => ?_
    obtain ⟨y, hy, _, hdy, _⟩ := hb
    obtain rfl := Option.some.inj (hx.symm.trans hy)
    cases hdx.symm.trans hdy
  have hsteady : ∀ u, Steady u s ({ s with data := data }.setClient c (some { x with platformData := none })) := by
    refine fun u => h.steady hneat (fun _ y hy hny hry => ?_) fun y hy hdy => ?_
    · obtain rfl := Option.some.inj (hx.symm.trans hy)
      exact ⟨_, hthere, hny, hry⟩
    · obtain rfl := Option.some.inj (hx.symm.trans hy)
      exact ⟨_, hthere, hdy⟩
  refine ⟨h.sound hs (fun _ => hneat) ?_ ?_ ?_ hs.workNodup, ⟨l, rfl, ?_⟩,
    fun u _ => h.spares (hattends u) (fun _ => hlater u) fun _ => hsteady u⟩
  · intro c' y m hy hm
    by_cases hcc : c' = c
    · subst hcc
      obtain rfl := Option.some.inj (hthere.symm.trans hy)
      cases hm
    · refine hother m _ (fun he => hcc ?_) (hs.data c' y m ((h.client c' hcc).symm.trans hy) hm)
      exact Holder.client.inj he
  · intro y hy hdy
    obtain rfl := Option.some.inj (hthere.symm.trans hy)
    cases hdx.symm.trans hdy
  · refine h.same_work hs fun c' hc' => ⟨hc', ?_⟩
    rintro rfl
    exact hs.not_queued hx (.inl (by rw [hdx]; simp)) hc'
  · exact h.tie ht (hlater t) ((hattends t).role ht.role) (fun _ hq => hq) rfl rfl rfl rfl
      fun y hy => (hsteady t).visit hs Iff.rfl (ht.visit y hy)

/-- Thread `t` takes charge of the removal of a client nobody unregisters yet. -/
theorem claim_kept (x' : Client) (work : List Addr) (lapse : Bool) (hx : s.client c = some x) (hreg : x.destroyer = none)
    (hdata : x'.platformData = x.platformData) (hnotified : x'.notified = x.notified)
    (hrem : x.removal = .none → x'.removal = .none ∧ x.building = false) (hmine : ∀ u, u ≠ t → x.removal ≠ .taken u)
    (hwork : ∀ c' ∈ work, c' ∈ s.work ∧ c' ≠ c) (hnodup : work.Nodup) (hcalm : ∀ q, l.role ≠ .resyncing q) :
    let s' : Board := { s.setClient c (some x') with work := work, lapse := lapse }
    s'.Sound ∧ (∀ role : Role, role.Holds t s' → Tie t { l with role := role } s') ∧ ∀ u, u ≠ t → Spares u s s' := by
  intro s'
  have hn : x.notified = false := hs.quiet c x hx hreg
  have h : Concerns c s s' := ⟨rfl, rfl, rfl, rfl, rfl, rfl, rfl, fun _ hne => Board.client_setClient_of_ne hne⟩
  have hthere : s'.client c = some x' := Board.client_setClient
  have hidle : ∀ y, s.client c = some y → y.notified = false → y.removal = .none →
      ∃ z, s'.client c = some z ∧ z.notified = false ∧ z.removal = .none := by
    intro y hy _ hry
    obtain rfl := Option.some.inj (hx.symm.trans hy)
    exact ⟨x', hthere, hnotified.trans hn, (hrem hry).1⟩
  have hneat : ∀ e, s.Neat e → s'.Neat e := by
    refine fun e => h.neat (fun _ _ y _ _ _ => hidle y) fun _ _ z _ _ hz => ⟨x, hx, fun hnx => ?_⟩
    cases hn.symm.trans hnx
  have hattends : ∀ u, u ≠ t → Attends u s s' := by
    refine fun u hut => h.attends fun y hy hu => ?_
    obtain rfl := Option.some.inj (hx.symm.trans hy)
    rcases hu with hu | ⟨_, hu⟩
    · cases hreg.symm.trans hu
    · exact absurd hu (hmine u hut)
  have hlater : ∀ u, Later u s s' := by
    refine fun u => h.later (fun _ hm => hm) fun hb => ?_
    obtain ⟨y, hy, hby, _, hry, _⟩ := hb
    obtain rfl := Option.some.inj (hx.symm.trans hy)
    cases (hrem hry).2.symm.trans hby
  have hsteady : ∀ u, Steady u s s' := by
    refine fun u => h.steady hneat (fun _ => hidle) fun y hy hdy => ?_
    obtain rfl := Option.some.inj (hx.symm.trans hy)
    cases hreg.symm.trans hdy
  refine ⟨h.sound hs (fun _ => hneat) ?_ ?_ (h.same_work hs hwork) hnodup, fun role hrole => ?_,
    fun u hu => h.spares (hattends u hu) (fun _ => hlater u) fun _ => hsteady u⟩
  · refine h.same_data hs rfl fun y hy => ⟨x, hx, ?_⟩
    obtain rfl := Option.some.inj (hthere.symm.trans hy)
    exact hdata.symm
  · intro y hy _
    obtain rfl := Option.some.inj (hthere.symm.trans hy)
    exact hnotified.trans hn
  · exact h.tie ht (hlater t) hrole (fun q hq => absurd hq (hcalm q)) rfl rfl rfl rfl
      fun y hy => (hsteady t).visit hs Iff.rfl (ht.visit y hy)

/-- The work queue unregisters the device. -/
theorem deviceDel_kept (hallow : l.allows (.deviceDel c)) :
    ∃ x, s.client c = some x ∧ x.destroyer = none ∧
      Kept t l (.deviceDel c) () s (s.setClient c (some { x with destroyer := some t, removal := .none })) := by
  have hrole : l.role = .removing c := hallow
  obtain ⟨x, hx, hreg, hrem⟩ : Role.Holds t s (.removing c) := hrole ▸ ht.role
  refine ⟨x, hx, hreg, ?_⟩
  obtain ⟨hsound, htie, hspares⟩ := claim_kept hs ht { x with destroyer := some t, removal := .none } s.work
    s.lapse hx hreg rfl rfl (fun h => by cases hrem.symm.trans h)
    (fun u hu h => hu (Removal.taken.inj (hrem.symm.trans h)).symm)
    (fun c' hc' => ⟨hc', fun he => hs.not_queued hx (.inr (by rw [hrem]; simp)) (he ▸ hc')⟩) hs.workNodup
    (fun q hq => by cases hrole.symm.trans hq)
  refine ⟨hsound, ⟨_, rfl, htie (.destroying c) ⟨_, Board.client_setClient, rfl, hs.quiet c x hx hreg⟩⟩, hspares⟩

/-- The client is freed. -/
theorem putDevice_kept (hallow : l.allows (.putDevice c)) :
    (∃ x, s.client c = some x) ∧ Kept t l (.putDevice c) () s (s.setClient c none) := by
  obtain ⟨hrole, hvisit⟩ := hallow
  obtain ⟨⟨x, hx, hdx, hn⟩, hnames⟩ : Role.Holds t s (.notified c) := hrole ▸ ht.role
  have h : Concerns c s (s.setClient c none) :=
    ⟨rfl, rfl, rfl, rfl, rfl, rfl, rfl, fun _ hne => Board.client_setClient_of_ne hne⟩
  have hgone : ∀ y, (s.setClient c none).client c ≠ some y := by
    intro y hy
    rw [Board.client_setClient] at hy
    cases hy
  have hneat : ∀ e, s.Neat e → (s.setClient c none).Neat e := by
    refine fun e => h.neat (fun e y _ hy hdy hcy => absurd hcy (hnames e y hy hdy)) fun _ _ z _ _ hz => ?_
    exact absurd hz (hgone z)
  have hattends : ∀ u, u ≠ t → Attends u s (s.setClient c none) := by
    refine fun u hut => h.attends fun y hy hu => ?_
    obtain rfl := Option.some.inj (hx.symm.trans hy)
    rcases hu with hu | ⟨hu, _⟩
    · exact absurd (Option.some.inj (hdx.symm.trans hu)).symm hut
    · cases hdx.symm.trans hu
  have hlater : ∀ u, Later u s (s.setClient c none) := by
    refine fun u => h.later (fun _ hm => hm) fun hb => ?_
    obtain ⟨y, hy, _, hdy, _⟩ := hb
    obtain rfl := Option.some.inj (hx.symm.trans hy)
    cases hdx.symm.trans hdy
  refine ⟨⟨x, hx⟩, h.sound hs (fun _ => hneat) ?_ (fun y hy => absurd hy (hgone y)) ?_ hs.workNodup, ⟨_, rfl, ?_⟩,
    fun u hu => h.spares (hattends u hu) (fun _ => hlater u) fun _ => h.steady hneat (fun _ y hy hny _ => ?_)
      fun y hy hdy => ?_⟩
  · exact h.same_data hs rfl fun y hy => absurd hy (hgone y)
  · refine h.same_work hs fun c' hc' => ⟨hc', ?_⟩
    rintro rfl
    exact hs.not_queued hx (.inl (by rw [hdx]; simp)) hc'
  · refine h.tie ht (hlater t) trivial (fun q hq => by cases hrole.symm.trans hq) rfl rfl rfl rfl fun y hy => ?_
    cases hvisit.symm.trans hy
  · obtain rfl := Option.some.inj (hx.symm.trans hy)
    cases hn.symm.trans hny
  · obtain rfl := Option.some.inj (hx.symm.trans hy)
    exact absurd (Option.some.inj (hdx.symm.trans hdy)).symm hu

end Life

end HostNotify.Psmouse
