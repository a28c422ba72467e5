import HostNotify.Psmouse.Listing

/-!
# On the list and off it

A record comes on the list before its client is looked for. It leaves the list when there is none,
when its mouse or its client has gone before, or when a mouse sheds the records about it.
-/

namespace HostNotify.Psmouse

open Interleaving

variable {s s' : Board} {t u : ℕ} {p d c : Addr} {r : SmbusDev} {l l' : Account}

/-! ## On the list -/

/-- The state after the list has taken the record `r` at `d` from the thread that had it. -/
def Board.joined (s : Board) (d : Addr) (r : SmbusDev) : Board :=
  { s.setDev d (some { r with owner := none }) with list := s.list ++ [d] }

/-- The new record is on the list besides those that were. -/
theorem listed_joined (hoff : d ∉ s.list) {e : Addr} {x : SmbusDev} :
    (s.joined d r).Listed e x ↔ e = d ∧ x = { r with owner := none } ∨ e ≠ d ∧ s.Listed e x := by
  simp only [Board.joined, Board.Listed, List.mem_append, List.mem_singleton]
  by_cases he : e = d
  · subst he
    simp [eq_comm, hoff]
  · simp [he, Board.smbdev_setDev_of_ne he]

/-- The other records are as they were. -/
theorem smbdev_joined_of_ne {e : Addr} (he : e ≠ d) : (s.joined d r).smbdev e = s.smbdev e :=
  Board.smbdev_setDev_of_ne he

section Joined

variable (hr : s.smbdev d = some r) (hoff : d ∉ s.list) (hc : r.client = none)
include hoff hc

/-- What a thread attends to has not changed. -/
theorem Attends.joined : Attends u s (s.joined d r) := by
  refine ⟨fun _ _ h => h, fun _ h => h,
    fun _ x hx _ => ⟨x, hx, rfl, rfl, rfl⟩, fun c' _ _ _ e y hy hdy hcy => ?_⟩
  rcases (listed_joined hoff).mp hy with ⟨_, rfl⟩ | ⟨_, hy'⟩
  · cases hc.symm.trans hcy
  · exact ⟨y, hy', hdy, hcy⟩

/-- A record without a client may come on the list while both mutexes are held. -/
theorem Board.Sound.joined (hs : s.Sound) {m : Mouse} (hm : s.mouse r.psmouse = some m)
    (hlock : s.smbusMutex = some t) (hheld : s.psmouseMutex = some t) : (s.joined d r).Sound :=
  { hs with
    nodup := by
      change (s.list ++ [d]).Nodup
      rw [List.nodup_append]
      refine ⟨hs.nodup, (by simp), fun x hx y hy => ?_⟩
      rw [List.mem_singleton.mp hy]
      exact fun h => hoff (h ▸ hx)
    listed := fun e he => by
      by_cases hed : e = d
      · subst hed
        exact ⟨_, Board.smbdev_setDev, rfl⟩
      · obtain ⟨x, hx, hox⟩ := hs.listed e ((List.mem_append.mp he).resolve_right (by simpa using hed))
        exact ⟨x, (smbdev_joined_of_ne hed).trans hx, hox⟩
    unowned := fun e x hx hox => by
      by_cases hed : e = d
      · simp [Board.joined, hed]
      · exact List.mem_append_left _ (hs.unowned e x ((smbdev_joined_of_ne hed).symm.trans hx) hox)
    alive := fun e x hx hdx => by
      rcases (listed_joined hoff).mp hx with ⟨_, rfl⟩ | ⟨_, hx'⟩
      · exact ⟨m, hm⟩
      · exact hs.alive e x hx' hdx
    attached := fun e x hx hdx hcx => by
      rcases (listed_joined hoff).mp hx with ⟨_, rfl⟩ | ⟨_, hx'⟩
      · rw [show ({ r with owner := none } : SmbusDev).client = none from hc] at hcx
        cases hcx
      · exact hs.attached e x hx' hdx hcx
    named := fun e x e' x' c' hx hx' hdx hcx hcx' => by
      rcases (listed_joined hoff).mp hx with ⟨_, rfl⟩ | ⟨_, hx⟩
      · cases hc.symm.trans hcx
      · rcases (listed_joined hoff).mp hx' with ⟨_, rfl⟩ | ⟨_, hx'⟩
        · cases hc.symm.trans hcx'
        · exact hs.named e x e' x' c' hx hx' hdx hcx hcx'
    neat := fun hfree => by cases hfree.symm.trans hlock
    settled := fun hfree => by cases hfree.symm.trans hheld }

omit hc in
/-- A record about one mouse settles nothing about another. -/
theorem settled_joined {q : Addr} (hq : q ≠ r.psmouse) (hsettled : s.Settled q) : (s.joined d r).Settled q := by
  intro m' hm'
  obtain ⟨hplain, hvendor, hsmbus⟩ := hsettled m' hm'
  have hback : ∀ e x, (s.joined d r).Listed e x → x.psmouse = q → s.Listed e x := by
    intro e x hx hpx
    rcases (listed_joined hoff).mp hx with ⟨_, rfl⟩ | ⟨_, hx'⟩
    · exact absurd hpx.symm hq
    · exact hx'
  refine ⟨fun hh e x hx hpx => hplain hh e x (hback e x hx hpx) hpx,
    fun hh e x hx hpx => hvendor hh e x (hback e x hx hpx) hpx, fun hh => ?_⟩
  obtain ⟨e, ha, honly, x, hx, hpx, hcx⟩ := hsmbus hh
  have hed : e ≠ d := fun he => hoff (he ▸ hx.1)
  exact ⟨e, ha, fun e' x' hx' hpx' => honly e' x' (hback e' x' hx' hpx') hpx', x,
    (listed_joined hoff).mpr (.inr ⟨hed, hx⟩), hpx, hcx⟩

omit hoff hc in
include hr in
/-- The record was the thread's own, and is nobody's now. -/
theorem loose_joined (ho : r.owner = some t) (hu : u ≠ t) (e : Addr) :
    (∃ x, (s.joined d r).smbdev e = some x ∧ x.owner = some u) ↔ ∃ x, s.smbdev e = some x ∧ x.owner = some u := by
  by_cases hed : e = d
  · subst hed
    constructor
    · rintro ⟨x, hx, hox⟩
      obtain rfl := Option.some.inj ((Board.smbdev_setDev (s := s)).symm.trans hx)
      cases hox
    · rintro ⟨x, hx, hox⟩
      obtain rfl := Option.some.inj (hr.symm.trans hx)
      exact absurd (Option.some.inj (ho.symm.trans hox)).symm hu
  · rw [smbdev_joined_of_ne hed]

end Joined

/-- A record is put on the list. -/
theorem listAdd_kept (hs : s.Sound) (ht : Tie t l s) (hallow : l.allows (.listAdd d)) :
    Kept t l (.listAdd d) () s { s.onDev d fun r => { r with owner := none } with list := s.list ++ [d] } := by
  obtain ⟨hvisit, b, hb, hk⟩ := hallow
  have hheld := ht.at_bench hb
  have hlock := ht.at_list hvisit
  obtain ⟨⟨m, hm, _⟩, hstage⟩ := ht.bench b hb
  rw [hk] at hstage
  obtain ⟨hclear, hun, r, hr, hp, hc, hdead, ho, hstock⟩ := hstage
  have hoff := hs.not_mem hr ho
  rw [Board.onDev_of_some hr]
  have hattends : ∀ u, Attends u s (s.joined d r) := fun u => .joined hoff hc
  refine ⟨hs.joined hoff hc (hp ▸ hm) hlock hheld, ⟨{ l.move (.listed d) with loose := none }, rfl, ?_⟩,
    fun u hu => ⟨Iff.rfl, Iff.rfl, hattends u, fun hmu => absurd hmu (ne_holder hheld hu),
      fun hmu => absurd hmu (ne_holder hlock hu), loose_joined hr ho hu⟩⟩
  refine ht.moved (o := none) hb rfl rfl rfl (hattends t) ?_ (fun q hq => settled_joined hoff (hp ▸ hq)) rfl ?_ ?_
  · refine ⟨fun e x hx hpx => ?_, fun e x hx ha => ?_, _, (listed_joined hoff).mpr (.inl ⟨rfl, rfl⟩), hp, hc, hdead,
      hstock⟩
    · rcases (listed_joined hoff).mp hx with ⟨rfl, _⟩ | ⟨_, hx'⟩
      · exact .inr rfl
      · exact .inl (hclear e x hx' hpx)
    · rcases (listed_joined hoff).mp hx with ⟨_, rfl⟩ | ⟨_, hx'⟩
      · exact hc
      · exact hun e x hx' ha
  · intro x hx
    obtain rfl := Option.some.inj (hvisit.symm.trans hx)
    intro e y c' hy hcy
    rcases (listed_joined hoff).mp hy with ⟨_, rfl⟩ | ⟨_, hy'⟩
    · cases hc.symm.trans hcy
    · exact ht.visit _ hvisit e y c' hy' hcy
  · intro e
    refine ⟨fun h => (by cases h), ?_⟩
    rintro ⟨x, hx, hox⟩
    by_cases hed : e = d
    · subst hed
      obtain rfl := Option.some.inj ((Board.smbdev_setDev (s := s)).symm.trans hx)
      cases hox
    · have hloose := (ht.loose e).mpr ⟨x, (smbdev_joined_of_ne hed).symm.trans hx, hox⟩
      have hloose' := (ht.loose d).mpr ⟨r, hr, ho⟩
      exact absurd (Option.some.inj (hloose.symm.trans hloose')) hed

/-! ## Off the list -/

/-- Record `d` has been taken off the list by thread `t`. -/
def Board.without (s : Board) (d : Addr) (t : ℕ) (r : SmbusDev) : Board :=
  { s.setDev d (some { r with owner := some t }) with list := s.list.erase d }

section Without

variable (hs : s.Sound)
include hs

/-- Off the list is one record, and the others are on it. -/
theorem listed_without {e : Addr} {x : SmbusDev} : (s.without d t r).Listed e x ↔ e ≠ d ∧ s.Listed e x := by
  simp only [Board.Listed, Board.without, hs.nodup.mem_erase_iff, and_assoc]
  refine and_congr_right fun he => ?_
  rw [show (s.setDev d (some { r with owner := some t })).smbdev e = s.smbdev e from Board.smbdev_setDev_of_ne he]

/-- They are in order as before. -/
theorem Board.Neat.without {e : Addr} (h : s.Neat e) : (s.without d t r).Neat e :=
  fun x c hx hc => h x c ((listed_without hs).mp hx).2 hc

/-- A mouse that does not use the record stays settled. -/
theorem settled_without {q : Addr} (hq : s.Settled q) (hd : ¬ s.Used q d) : (s.without d t r).Settled q := by
  intro m hm
  obtain ⟨hplain, hvendor, hsmbus⟩ := hq m hm
  refine ⟨fun hh e x hx => hplain hh e x ((listed_without hs).mp hx).2,
    fun hh e x hx => hvendor hh e x ((listed_without hs).mp hx).2, fun hh => ?_⟩
  obtain ⟨e, hused⟩ := hsmbus hh
  have he : e ≠ d := by
    rintro rfl
    exact hd hused
  obtain ⟨ha, honly, x, hx, hfacts⟩ := hused
  exact ⟨e, ha, fun e' x' hx' => honly e' x' ((listed_without hs).mp hx').2, x, (listed_without hs).mpr ⟨he, hx⟩, hfacts⟩

/-- Taking a record off the list keeps the invariant, if no settled mouse uses it. -/
theorem Board.Sound.without (hlock : s.smbusMutex = some t) (hd : s.psmouseMutex = none → ∀ q, ¬ s.Used q d) :
    (s.without d t r).Sound :=
  { hs with
    nodup := hs.nodup.erase d
    listed := fun e he => by
      obtain ⟨hne, hin⟩ := hs.nodup.mem_erase_iff.mp he
      obtain ⟨x, hx, ho⟩ := hs.listed e hin
      exact ⟨x, (Board.smbdev_setDev_of_ne hne).trans hx, ho⟩
    unowned := fun e x hx ho => by
      have hne : e ≠ d := by
        rintro rfl
        obtain rfl := Option.some.inj ((Board.smbdev_setDev (s := s)).symm.trans hx)
        cases ho
      exact hs.nodup.mem_erase_iff.mpr ⟨hne, hs.unowned e x ((Board.smbdev_setDev_of_ne hne).symm.trans hx) ho⟩
    alive := fun e x hx => hs.alive e x ((listed_without hs).mp hx).2
    attached := fun e x hx => hs.attached e x ((listed_without hs).mp hx).2
    named := fun e x e' x' c hx hx' =>
      hs.named e x e' x' c ((listed_without hs).mp hx).2 ((listed_without hs).mp hx').2
    neat := fun hfree => by cases hfree.symm.trans hlock
    settled := fun hfree q => settled_without hs (hs.settled hfree q) (hd hfree q) }

/-- Taking a record off the list keeps nobody from what he is there for. -/
theorem Attends.without : Attends u s (s.without d t r) where
  mouse _ _ h := h
  resync _ h := h
  client _ x hx _ := ⟨x, hx, rfl, rfl, rfl⟩
  names _ _ _ _ _ y hy hdead hc := ⟨y, ((listed_without hs).mp hy).2, hdead, hc⟩

/-- A dead record that drives no mouse is of no use to anybody. -/
theorem Later.without (hr : s.Listed d r) (hdead : r.dead = true) (hfree : ∀ q, ¬ s.Attached q d) :
    Later u s (s.without d t r) where
  mouse := rfl
  back e x hx := ⟨x, ((listed_without hs).mp hx).2, rfl, rfl, id⟩
  keep _ x hx hlive := by
    refine ⟨x, (listed_without hs).mpr ⟨?_, hx⟩, rfl, rfl, fun _ => rfl⟩
    rintro rfl
    obtain rfl := Option.some.inj (hr.2.symm.trans hx.2)
    rcases hlive with h | ⟨q, hq⟩
    · cases hdead.symm.trans h
    · exact hfree q hq
  own e x hx ho := by
    refine (Board.smbdev_setDev_of_ne fun he => ?_).trans hx
    subst he
    exact hs.not_mem hx ho hr.1
  stocks _ h := h
  board e x x' hx hx' _ := by
    rw [Option.some.inj (hx.2.symm.trans ((listed_without hs).mp hx').2.2)]
  building _ h := h

omit hs in
/-- The record taken off the list is nobody else's. -/
theorem loose_without (hr : s.smbdev d = some r) (ho : r.owner = none) (hu : u ≠ t) (e : Addr) :
    (∃ x, (s.without d t r).smbdev e = some x ∧ x.owner = some u) ↔ ∃ x, s.smbdev e = some x ∧ x.owner = some u := by
  by_cases he : e = d
  · subst he
    constructor
    · rintro ⟨x, hx, hox⟩
      obtain rfl := Option.some.inj ((Board.smbdev_setDev (s := s)).symm.trans hx)
      exact absurd (Option.some.inj hox).symm hu
    · rintro ⟨x, hx, hox⟩
      obtain rfl := Option.some.inj (hr.symm.trans hx)
      cases ho.symm.trans hox
  · rw [show (s.without d t r).smbdev e = s.smbdev e from Board.smbdev_setDev_of_ne he]

omit hs in
/-- The record taken off the list is the only one the thread has to itself. -/
theorem taken_without (hl : ∀ e, ¬ ∃ x, s.smbdev e = some x ∧ x.owner = some t) (e : Addr) :
    some d = some e ↔ ∃ x, (s.without d t r).smbdev e = some x ∧ x.owner = some t := by
  by_cases he : e = d
  · subst he
    exact ⟨fun _ => ⟨_, Board.smbdev_setDev, rfl⟩, fun _ => rfl⟩
  · rw [show (s.without d t r).smbdev e = s.smbdev e from Board.smbdev_setDev_of_ne he]
    exact ⟨fun h => absurd (Option.some.inj h).symm he, fun h => absurd h (hl e)⟩

/-- The walk goes on without the record it has read last. -/
theorem Walk.without {gone : Option Addr} {todo : List Addr} {rest : List (Addr × SmbusDev)} {x : SmbusDev} {look : Look}
    (hw : Walk t s gone todo ((d, x) :: rest) look) : Walk t (s.without d t r) gone todo rest .past := by
  have hnodup := hw.nodup
  rw [List.map_cons, List.nodup_append, List.nodup_cons] at hnodup
  obtain ⟨htodo, ⟨hhead, hrest⟩, hapart⟩ := hnodup
  have hne : ∀ e ∈ todo, e ≠ d := fun e he => hapart e he d List.mem_cons_self
  refine ⟨?_, fun e he => ?_, fun e he => ?_, fun y hy => ?_, fun e he => ?_, fun c e y hc hy hcy hdy hat => ?_,
    fun h => (by cases h), hw.leaving⟩
  · rw [List.nodup_append]
    exact ⟨htodo, hrest, fun a ha b hb => hapart a ha b (List.mem_cons_of_mem _ hb)⟩
  · obtain ⟨hed, hin⟩ := hs.nodup.mem_erase_iff.mp he
    rcases hw.covers e hin with h | h
    · exact .inl h
    · exact .inr ((List.mem_cons.mp h).resolve_left hed)
  · exact hs.nodup.mem_erase_iff.mpr ⟨hne e he, hw.ahead e he⟩
  · obtain ⟨z, hz, hm⟩ := hw.mirrors y (List.mem_cons_of_mem _ hy)
    have hyd : y.1 ≠ d := fun h => hhead (List.mem_map.mpr ⟨y, hy, h⟩)
    exact ⟨z, (listed_without hs).mpr ⟨hyd, hz⟩, hm⟩
  · by_cases hed : e = d
    · intro y c hy
      exact absurd hed ((listed_without hs).mp hy).1
    · exact (hw.neat e fun y c hy => he y c ((listed_without hs).mpr ⟨hed, hy⟩)).without hs
  · have hin : e ∈ todo := hat.resolve_right fun h => by cases h.1
    exact hw.dead c e y hc ((listed_without hs).mp hy).2 hcy hdy (.inl hin)

omit hs in
/-- That is what `list_del` does. -/
theorem without_eq (hr : s.smbdev d = some r) :
    ({ s.onDev d fun r => { r with owner := some t } with list := s.list.erase d } : Board) = s.without d t r := by
  rw [Board.onDev_of_some hr]
  rfl

end Without

section Delete

variable (hs : s.Sound) (ht : Tie t l s)
include hs ht

omit hs in
/-- A thread whose account names no record has none. -/
theorem Tie.empty (hloose : l.loose = none) (e : Addr) : ¬ ∃ x, s.smbdev e = some x ∧ x.owner = some t := by
  rw [← ht.loose e, hloose]
  exact fun h => by cases h

/-- The thread that works on the mouse takes the record off the list. -/
theorem Tie.shed {b : Bench} (hb : l.bench = some b) (hlock : s.smbusMutex = some t) (hloose : l.loose = none)
    (hr : s.Listed d r) (hp : r.psmouse = b.mouse) (honly : s.Only b.mouse d)
    (hun : ∀ e x, e ≠ d → s.Listed e x → s.Attached b.mouse e → x.client = none) (hneat : ∀ e, s.Neat e)
    (hv : l.visit.isSome = true) :
    (s.without d t r).Sound ∧ Tie t { (l.move (.removed d)).turn .entered with loose := some d } (s.without d t r) ∧
      ∀ u, u ≠ t → Spares u s (s.without d t r) := by
  have hheld := ht.at_bench hb
  obtain ⟨r₀, hr₀, ho⟩ := hs.listed d hr.1
  obtain rfl := Option.some.inj (hr.2.symm.trans hr₀)
  refine ⟨hs.without hlock fun hfree => (by cases hfree.symm.trans hheld), ?_, fun u hu => ⟨Iff.rfl, Iff.rfl, .without hs,
    fun hm => absurd hm (ne_holder hheld hu), fun hm => absurd hm (ne_holder hlock hu), loose_without hr.2 ho hu⟩⟩
  refine ht.moved (v := some .entered) (o := some d) hb rfl rfl rfl (Attends.without hs) ?_ ?_ hv.symm ?_
    (taken_without (ht.empty hloose))
  · refine ⟨fun e x hx hpx => ?_, fun e x hx ha => ?_⟩ <;> obtain ⟨he, hx'⟩ := (listed_without hs).mp hx
    · exact (honly e x hx' hpx).resolve_right he
    · exact hun e x he hx' ha
  · refine fun q hq hsettled => settled_without hs hsettled fun hused => hq ?_
    obtain ⟨_, _, x, hx, hpx, _⟩ := hused
    obtain rfl := Option.some.inj (hr.2.symm.trans hx.2)
    exact hpx.symm.trans hp
  · intro x hx
    obtain rfl := Option.some.inj hx
    exact fun e => (hneat e).without hs

/-- No client has been found. -/
theorem listDel_entered_kept {b : Bench} (hloose : l.loose = none) (hvisit : l.visit = some .entered)
    (hb : l.bench = some b) (hk : b.stage = .listed d) :
    Kept t l (.listDel d) () s { s.onDev d fun r => { r with owner := some t } with list := s.list.erase d } := by
  have hstage := (ht.bench b hb).stage
  rw [hk] at hstage
  obtain ⟨honly, hun, r, hr, hp, _⟩ := hstage
  obtain ⟨hsound, htie, hspares⟩ := ht.shed hs hb (ht.at_list hvisit) hloose hr hp honly
    (fun e x _ hx ha => hun e x hx ha) (ht.visit _ hvisit) (by rw [hvisit]; rfl)
  rw [without_eq hr.2]
  refine ⟨hsound, ⟨_, ?_, htie⟩, hspares⟩
  simp only [Account.moves, hvisit]

/-- The mouse is disconnected after its client has gone. -/
theorem listDel_posting_kept {b : Bench} (hloose : l.loose = none) (hvisit : l.visit = some (.posting d r))
    (hb : l.bench = some b) (hk : b.stage = .used d) :
    Kept t l (.listDel d) () s { s.onDev d fun r => { r with owner := some t } with list := s.list.erase d } := by
  obtain ⟨_, hneat, hr⟩ := ht.visit _ hvisit
  have hstage := (ht.bench b hb).stage
  rw [hk] at hstage
  obtain ⟨⟨m, hm, _, hpriv⟩, honly, r₁, hr₁, hp, _⟩ := hstage
  obtain rfl := Option.some.inj (hr.2.symm.trans hr₁.2)
  have hun : ∀ e x, e ≠ d → s.Listed e x → s.Attached b.mouse e → x.client = none := by
    rintro e x he _ ⟨m', hm', _, hpriv'⟩
    obtain rfl := Option.some.inj (hm.symm.trans hm')
    exact absurd (Private.smbdev.inj (hpriv'.symm.trans hpriv)) he
  obtain ⟨hsound, htie, hspares⟩ := ht.shed hs hb (ht.at_list hvisit) hloose hr hp honly hun hneat (by rw [hvisit]; rfl)
  rw [without_eq hr.2]
  refine ⟨hsound, ⟨_, ?_, htie⟩, hspares⟩
  simp only [Account.moves, hvisit]

/-- A mouse sheds a record about it. -/
theorem listDel_sweeping_kept {b : Bench} {todo : List Addr} {rest : List (Addr × SmbusDev)} {look : Look}
    (hloose : l.loose = none) (hvisit : l.visit = some (.walking none todo ((d, r) :: rest) look))
    (hb : l.bench = some b) (hp : b.mouse = r.psmouse) (hidle : b.idle = true) :
    Kept t l (.listDel d) () s { s.onDev d fun r => { r with owner := some t } with list := s.list.erase d } := by
  have hheld := ht.at_bench hb
  have hlock := ht.at_list hvisit
  have hw : Walk t s none todo ((d, r) :: rest) look := ht.visit _ hvisit
  obtain ⟨r₀, hr, hm⟩ := hw.mirrors (d, r) List.mem_cons_self
  have hp₀ : r₀.psmouse = b.mouse := hm.psmouse.trans hp.symm
  obtain ⟨r₁, hr₁, ho⟩ := hs.listed d hr.1
  obtain rfl := Option.some.inj (hr.2.symm.trans hr₁)
  rw [without_eq hr.2]
  refine ⟨hs.without hlock fun hfree => (by cases hfree.symm.trans hheld),
    ⟨{ l.turn (.walking none todo rest .past) with loose := some d }, ?_, ?_⟩, fun u hu => ⟨Iff.rfl, Iff.rfl, .without hs,
    fun hm => absurd hm (ne_holder hheld hu), fun hm => absurd hm (ne_holder hlock hu), loose_without hr.2 ho hu⟩⟩
  · simp only [Account.moves, hvisit, List.tail_cons]
  · refine ⟨(Attends.without hs).role ht.role, ht.resync, ht.mutex, ht.benched, fun b' hb' => ?_, fun _ q hq => ?_,
      ⟨fun _ => hlock, fun _ => rfl⟩, fun x hx => ?_, taken_without (ht.empty hloose)⟩
    · obtain rfl := Option.some.inj (hb.symm.trans hb')
      obtain ⟨hfields, hstage⟩ := ht.bench b hb
      refine ⟨hfields, ?_⟩
      have hback : ∀ e x, Board.Listed (s.without d t r₀) e x → s.Listed e x := fun e x hx => ((listed_without hs).mp hx).2
      rcases (Bool.or_eq_true _ _).mp (Bool.and_eq_true_iff.mp hidle).2 with hk | hk <;>
      · rw [of_decide_eq_true hk] at hstage ⊢
        exact ⟨fun e x hx => hstage.1 e x (hback e x hx), fun e x hx => hstage.2 e x (hback e x hx)⟩
    · have hne : q ≠ b.mouse := fun h => hq b hb h.symm
      refine settled_without hs (ht.rest_of hb hne) fun hused => hne ?_
      obtain ⟨_, _, x, hx, hpx, _⟩ := hused
      obtain rfl := Option.some.inj (hr.2.symm.trans hx.2)
      exact hpx.symm.trans hp₀
    · obtain rfl := Option.some.inj hx
      exact hw.without hs

/-- The client of a dead record has gone. -/
theorem listDel_leaving_kept {todo : List Addr} {rest : List (Addr × SmbusDev)}
    (hloose : l.loose = none) (hvisit : l.visit = some (.walking (some c) todo ((d, r) :: rest) .fresh))
    (hdead : r.dead = true) (hc : r.client = some c) :
    Kept t l (.listDel d) () s { s.onDev d fun r => { r with owner := some t } with list := s.list.erase d } := by
  have hlock := ht.at_list hvisit
  have hw : Walk t s (some c) todo ((d, r) :: rest) .fresh := ht.visit _ hvisit
  obtain ⟨r₀, hr, hm⟩ := hw.mirrors (d, r) List.mem_cons_self
  have hdead₀ : r₀.dead = true := hm.dead.trans hdead
  have hfree : ∀ q, ¬ s.Attached q d :=
    hw.dead c d r₀ rfl hr ((hm.client c rfl).mpr hc) hdead₀ (.inr ⟨rfl, r, rest, rfl⟩)
  obtain ⟨r₁, hr₁, ho⟩ := hs.listed d hr.1
  obtain rfl := Option.some.inj (hr.2.symm.trans hr₁)
  have hunused : ∀ q, ¬ s.Used q d := fun q hused => hfree q hused.1
  have hlater : ∀ u, Later u s (s.without d t r₀) := fun u => .without hs hr hdead₀ hfree
  rw [without_eq hr.2]
  refine ⟨hs.without hlock fun _ => hunused,
    ⟨{ l.turn (.walking (some c) todo rest .past) with loose := some d }, ?_, ?_⟩, fun u hu => ⟨Iff.rfl, Iff.rfl,
    .without hs, fun _ => hlater u, fun hm => absurd hm (ne_holder hlock hu), loose_without hr.2 ho hu⟩⟩
  · simp only [Account.moves, hvisit, List.tail_cons]
  · refine ⟨(Attends.without hs).role ht.role, ht.resync, ht.mutex, ht.benched,
      fun b hb => (hlater t).bench (ht.bench b hb),
      fun hmu q hq => settled_without hs (ht.rest hmu q hq) (hunused q), ⟨fun _ => hlock, fun _ => rfl⟩, fun x hx => ?_,
      taken_without (ht.empty hloose)⟩
    obtain rfl := Option.some.inj hx
    exact hw.without hs

/-- A record is taken off the list. -/
theorem listDel_kept (hallow : l.allows (.listDel d)) :
    (∃ r, s.smbdev d = some r) ∧
      Kept t l (.listDel d) () s { s.onDev d fun r => { r with owner := some t } with list := s.list.erase d } := by
  obtain ⟨hloose, hallow⟩ := hallow
  split at hallow
  · next hvisit =>
    obtain ⟨b, hb, hk⟩ := hallow
    have hstage := (ht.bench b hb).stage
    rw [hk] at hstage
    obtain ⟨_, _, r, hr, _⟩ := hstage
    exact ⟨⟨r, hr.2⟩, listDel_entered_kept hs ht hloose hvisit hb hk⟩
  · next d' r hvisit =>
    obtain ⟨rfl, _, b, hb, hk⟩ := hallow
    obtain ⟨_, _, hr⟩ := ht.visit _ hvisit
    exact ⟨⟨r, hr.2⟩, listDel_posting_kept hs ht hloose hvisit hb hk⟩
  · next todo seen look hvisit =>
    obtain ⟨r, rest, rfl, b, hb, hp, hidle⟩ := hallow
    obtain ⟨r₀, hr, _⟩ := Walk.mirrors (ht.visit _ hvisit) (d, r) List.mem_cons_self
    exact ⟨⟨r₀, hr.2⟩, listDel_sweeping_kept hs ht hloose hvisit hb hp hidle⟩
  · next c todo seen look hvisit =>
    obtain ⟨rfl, r, rest, rfl, hdead, hc⟩ := hallow
    obtain ⟨r₀, hr, _⟩ := Walk.mirrors (ht.visit _ hvisit) (d, r) List.mem_cons_self
    exact ⟨⟨r₀, hr.2⟩, listDel_leaving_kept hs ht hloose hvisit hdead hc⟩
  · exact hallow.elim

end Delete

end HostNotify.Psmouse
