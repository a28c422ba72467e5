import HostNotify.Psmouse.Spared

/-!
# Every step keeps the records in order

One lemma for each operation an account permits: the invariant holds after it, the account it leaves
is true, and what the other threads know is still so. The mutexes and the fields of the mice come
first, then the records, then the clients.
-/

namespace HostNotify.Psmouse

open Interleaving

variable {s s' : Board} {t u : ℕ} {p d c : Addr} {r : SmbusDev} {l : Account}

/-- What an operation `o` of thread `t` with account `l` has to keep. -/
structure Kept (t : ℕ) (l : Account) (o : Op) (r : o.Ans) (s s' : Board) : Prop where
  inv : s'.Sound
  account : ∃ l', l.moves o r l' ∧ Tie t l' s'
  others : ∀ u, u ≠ t → Spares u s s'

/-- A mutex another thread holds. -/
theorem ne_holder {m : Option ℕ} (hm : m = some t) (hu : u ≠ t) : m ≠ some u := by
  rw [hm]
  exact fun h => hu (Option.some.inj h).symm

namespace Tie

variable (ht : Tie t l s)
include ht

/-- A thread that works on a mouse has `psmouse_mutex`. -/
theorem at_bench {b : Bench} (hb : l.bench = some b) : s.psmouseMutex = some t :=
  ht.mutex.mp (ht.benched (by rw [hb]; rfl))

/-- A thread that is at the list has `psmouse_smbus_mutex`. -/
theorem at_list {x : Visit} (hx : l.visit = some x) : s.smbusMutex = some t :=
  ht.smbus.mp (by rw [hx]; rfl)

end Tie

/-! ## Nothing happens -/

/-- Nothing is changed, neither the account. -/
theorem same_kept {o : Op} {r : o.Ans} (hs : s.Sound) (ht : Tie t l s) (hmoves : l.moves o r l) :
    Kept t l o r s s where
  inv := hs
  account := ⟨l, hmoves, ht⟩
  others _ _ := ⟨Iff.rfl, Iff.rfl, .of_eq rfl rfl rfl rfl rfl, fun _ => .of_eq rfl rfl rfl rfl rfl,
    fun _ => .of_eq rfl rfl rfl rfl, fun _ => Iff.rfl⟩

/-! ## The mutexes -/

section Locks

variable (hs : s.Sound) (ht : Tie t l s)
include hs ht

/-- `psmouse_mutex` is taken. -/
theorem lock_psmouse_kept (hallow : l.allows (.lock .psmouse)) (hfree : s.psmouseMutex = none) :
    Kept t l (.lock .psmouse) () s { s with psmouseMutex := some t } where
  inv := { hs with settled := fun h => (nomatch h) }
  account := by
    refine ⟨_, rfl, { ht with mutex := by simp, benched := fun h => ?_, bench := fun b hb => ?_, rest := ?_, visit := ?_ }⟩
    · simp at h
    · cases hb
    · exact fun _ p _ => hs.settled hfree p
    · intro x hx
      rw [show l.visit = none from hallow.2] at hx
      cases hx
  others u hu := by
    have hno : s.psmouseMutex ≠ some u := by rw [hfree]; nofun
    exact ⟨⟨fun h => absurd (Option.some.inj h).symm hu, fun h => absurd h hno⟩, Iff.rfl, .of_eq rfl rfl rfl rfl rfl,
      fun h => absurd h hno, fun _ => .of_eq rfl rfl rfl rfl, fun _ => Iff.rfl⟩

omit hs in
/-- The mouse a thread leaves is in order. -/
theorem Bench.Leaves.settled {b : Bench} (hb : l.bench = some b) (h : b.Leaves) : s.Settled b.mouse := by
  obtain ⟨⟨m, hm, hhandlers, hpriv⟩, hstage⟩ := ht.bench b hb
  unfold Bench.Leaves at h
  intro m' hm'
  obtain rfl : m = m' := Option.some.inj (hm.symm.trans hm')
  split at h
  · next hk =>
    rw [hk] at hstage
    exact hstage m hm
  · next hk =>
    rw [hk] at hstage
    refine ⟨fun _ => hstage.1, fun _ d r hr hp => .inl (hstage.1 d r hr hp), fun hh => ?_⟩
    rcases h with h | h <;> cases (hhandlers _ h).symm.trans hh
  · next hk =>
    rw [hk] at hstage
    refine ⟨fun hh => ?_, fun _ => hstage.1, fun hh => ?_⟩ <;> cases (hhandlers _ h).symm.trans hh
  · next d hk =>
    rw [hk] at hstage
    have hsmbus : m.handlers = .smbus := hhandlers _ h.1
    refine ⟨fun hh => ?_, fun hh => ?_, fun _ => ⟨d, hstage⟩⟩ <;> cases hsmbus.symm.trans hh
  · exact h.elim

/-- `psmouse_mutex` is given up. -/
theorem unlock_psmouse_kept (hallow : l.allows (.unlock .psmouse)) :
    Kept t l (.unlock .psmouse) () s { s with psmouseMutex := none } where
  inv := by
    refine { hs with settled := fun _ p => ?_ }
    by_cases hp : ∃ b, l.bench = some b ∧ b.mouse = p
    · obtain ⟨b, hb, rfl⟩ := hp
      exact Bench.Leaves.settled ht hb (hallow.2.2 b hb)
    · exact ht.rest hallow.1 p fun b hb hbp => hp ⟨b, hb, hbp⟩
  account := by
    refine ⟨_, rfl, { ht with mutex := by simp, benched := fun h => ?_, bench := fun b hb => ?_, rest := ?_, visit := ?_ }⟩
    · simp at h
    · cases hb
    · exact fun h => (nomatch h)
    · intro x hx
      rw [show l.visit = none from hallow.2.1] at hx
      cases hx
  others u hu := by
    have hno : s.psmouseMutex ≠ some u := ne_holder (ht.mutex.mp hallow.1) hu
    exact ⟨⟨fun h => (nomatch h), fun h => absurd h hno⟩, Iff.rfl, .of_eq rfl rfl rfl rfl rfl,
      fun h => absurd h hno, fun _ => .of_eq rfl rfl rfl rfl, fun _ => Iff.rfl⟩

/-- `psmouse_smbus_mutex` is taken. -/
theorem lock_smbus_kept (hfree : s.smbusMutex = none) :
    Kept t l (.lock .smbus) () s { s with smbusMutex := some t } where
  inv := { hs with neat := fun h => (nomatch h) }
  account := by
    refine ⟨_, rfl, { ht with bench := ?_, smbus := by simp [Account.turn], visit := fun x hx => ?_ }⟩
    · intro b hb
      refine (ht.bench b hb).of_eq ?_ ?_ ?_ ?_ ?_ <;> rfl
    · obtain rfl : x = .entered := (Option.some.inj hx).symm
      exact hs.neat hfree
  others u hu := by
    have hno : s.smbusMutex ≠ some u := by rw [hfree]; nofun
    exact ⟨Iff.rfl, ⟨fun h => absurd (Option.some.inj h).symm hu, fun h => absurd h hno⟩, .of_eq rfl rfl rfl rfl rfl,
      fun _ => .of_eq rfl rfl rfl rfl rfl, fun h => absurd h hno, fun _ => Iff.rfl⟩

omit hs ht in
/-- The walker has come to the end: the list is in order. -/
theorem Walk.neat_all {gone : Option Addr} {seen : List (Addr × SmbusDev)} {look : Look}
    (hw : Walk t s gone [] seen look) (hseen : Visit.Handled gone seen)
    (hrole : ∀ c, gone = some c → ∃ x, s.client c = some x ∧ x.notified = true) (d : Addr) : s.Neat d := by
  intro r c hr hc
  by_cases hgone : gone = some c
  · have hdead : r.dead = true := by
      obtain ⟨x, hx, rfl⟩ := List.mem_map.mp ((hw.covers d hr.1).resolve_left (by simp))
      obtain ⟨r', hr', hm⟩ := hw.mirrors x hx
      obtain rfl : r = r' := Option.some.inj (hr.2.symm.trans hr'.2)
      rw [hm.dead]
      exact hseen x hx c hgone ((hm.client c hgone).mp hc)
    refine ⟨fun h => absurd h (by simp [hdead]), fun _ p _ x hx => ?_⟩
    obtain ⟨y, hy, hn⟩ := hrole c hgone
    obtain rfl : y = x := Option.some.inj (hy.symm.trans hx)
    exact hn
  · refine hw.neat d (fun r' c' hr' hc' hrc => hgone ?_) r c hr hc
    obtain rfl : r = r' := Option.some.inj (hr.2.symm.trans hr'.2)
    rw [hc', ← hrc, hc]

omit hs in
/-- The mouse the walker was sent for has no record left. -/
theorem bench_closed {x : Visit} (hx : l.visit = some x) {b : Bench} (hb : l.bench = some b) :
    (x.bench b).Holds t s := by
  have hbench := ht.bench b hb
  unfold Visit.bench
  split
  · next hsweep =>
    obtain ⟨hsweep, hidle⟩ := Bool.and_eq_true_iff.mp hsweep
    have hwalk := ht.visit x hx
    unfold Visit.sweeps at hsweep
    split at hsweep
    · next seen look =>
      have hclear : s.Clear b.mouse := by
        intro d r hr hp
        obtain ⟨y, hy, rfl⟩ := List.mem_map.mp ((Walk.covers hwalk d hr.1).resolve_left (by simp))
        obtain ⟨r', hr', hm⟩ := Walk.mirrors hwalk y hy
        obtain rfl : r = r' := Option.some.inj (hr.2.symm.trans hr'.2)
        have hne : y.2.psmouse ≠ b.mouse := by simpa using List.all_eq_true.mp hsweep y hy
        exact absurd (hm.psmouse.symm.trans hp) hne
      refine ⟨hbench.fields, hclear, ?_⟩
      have hstage := hbench.stage
      rcases (Bool.or_eq_true _ _).mp (Bool.and_eq_true_iff.mp hidle).2 with hk | hk <;>
      · rw [of_decide_eq_true hk] at hstage
        exact hstage.2
    · cases hsweep
  · exact hbench

/-- `psmouse_smbus_mutex` is given up. -/
theorem unlock_smbus_kept (hallow : l.allows (.unlock .smbus)) :
    Kept t l (.unlock .smbus) () s { s with smbusMutex := none } := by
  obtain ⟨x, hx, hcloses⟩ := hallow
  have hvisit := ht.visit x hx
  have hheld : s.smbusMutex = some t := ht.at_list hx
  have hneat : ∀ d, s.Neat d := by
    unfold Visit.Closes at hcloses
    split at hcloses
    · exact hvisit
    · next gone todo seen look =>
      obtain ⟨rfl, hseen, hrole⟩ := hcloses
      refine Walk.neat_all hvisit hseen fun c hc => ?_
      obtain ⟨y, hy, _, hn⟩ : Role.Holds t s (.notifying c) := hrole c hc ▸ ht.role
      exact ⟨y, hy, hn⟩
    · exact hcloses.elim
  have hresync : ∀ q, s.Deals t .resync q → x.role l.role = .resyncing q := by
    intro q hq
    unfold Visit.Closes at hcloses
    split at hcloses
    · exact ht.resync q hq
    · next gone todo seen look =>
      cases gone with
      | none => exact ht.resync q hq
      | some c => cases (hcloses.2.2 c rfl).symm.trans (ht.resync q hq)
    · exact hcloses.elim
  have hrole : (x.role l.role).Holds t s := by
    unfold Visit.Closes at hcloses
    split at hcloses
    · exact ht.role
    · next gone todo seen look =>
      obtain ⟨rfl, hseen, hrole⟩ := hcloses
      cases gone with
      | none => exact ht.role
      | some c =>
        obtain ⟨y, hy, hd, hn⟩ : Role.Holds t s (.notifying c) := hrole c rfl ▸ ht.role
        refine ⟨⟨y, hy, hd, hn⟩, fun d r hr hdead hc => ?_⟩
        obtain ⟨z, hz, rfl⟩ := List.mem_map.mp ((Walk.covers hvisit d hr.1).resolve_left (by simp))
        obtain ⟨r', hr', hm⟩ := Walk.mirrors hvisit z hz
        obtain rfl : r = r' := Option.some.inj (hr.2.symm.trans hr'.2)
        rw [hm.dead, hseen z hz c rfl ((hm.client c rfl).mp hc)] at hdead
        cases hdead
    · exact hcloses.elim
  refine ⟨{ hs with neat := fun _ => hneat }, ⟨_, ⟨x, hx, rfl⟩, ?_⟩, fun u hu => ?_⟩
  · refine ⟨?_, hresync, ht.mutex, ?_, ?_, ?_, by simp, fun _ h => (nomatch h), ht.loose⟩
    · refine hrole.of_eq ?_ ?_ ?_ ?_ ?_ <;> rfl
    · intro h
      exact ht.benched (by simpa [Account.onBench] using h)
    · intro b hb
      simp only [Account.onBench, Option.map_eq_some_iff] at hb
      obtain ⟨b', hb', rfl⟩ := hb
      refine (bench_closed ht hx hb').of_eq ?_ ?_ ?_ ?_ ?_ <;> rfl
    · intro hm p hp
      refine ht.rest hm p fun b hb hbp => hp (x.bench b) ?_ ?_
      · simp [Account.onBench, hb]
      · unfold Visit.bench
        split <;> exact hbp
  · have hno : s.smbusMutex ≠ some u := ne_holder hheld hu
    exact ⟨Iff.rfl, ⟨fun h => (nomatch h), fun h => absurd h hno⟩, .of_eq rfl rfl rfl rfl rfl,
      fun _ => .of_eq rfl rfl rfl rfl rfl, fun h => absurd h hno, fun _ => Iff.rfl⟩

end Locks

/-! ## The fields of a mouse -/

section Mice

variable {m' : Option Mouse}

/-- Other mice are driven as before. -/
theorem attached_setMouse_of_ne {q : Addr} (h : q ≠ p) : (s.setMouse p m').Attached q d ↔ s.Attached q d := by
  simp only [Board.Attached, Board.mouse_setMouse_of_ne h]

/-- Other mice are as settled as before. -/
theorem settled_setMouse_of_ne {q : Addr} (h : q ≠ p) (hq : s.Settled q) : (s.setMouse p m').Settled q := by
  intro m hm
  have hm' : s.mouse q = some m := Board.mouse_setMouse_of_ne h ▸ hm
  obtain ⟨hplain, hvendor, hsmbus⟩ := hq m hm'
  refine ⟨hplain, hvendor, fun hh => ?_⟩
  obtain ⟨d, ha, honly, hlisted⟩ := hsmbus hh
  exact ⟨d, (attached_setMouse_of_ne h).mpr ha, honly, hlisted⟩

/-- A mouse may get the contents `m'` without anybody else being the wiser. -/
structure Remakes (p : Addr) (m' : Option Mouse) (s : Board) : Prop where
  clear : m' = none → s.Clear p
  crumbs : s.Crumbs p
  /-- It is not put in charge of a record that is on the list already. -/
  hooks : ∀ d, (s.setMouse p m').Attached p d → d ∈ s.list → s.Attached p d

/-- No record on the list comes to drive the mouse. -/
theorem Remakes.attached (h : Remakes p m' s) {q : Addr} (ha : (s.setMouse p m').Attached q d) (hd : d ∈ s.list) :
    s.Attached q d := by
  by_cases hq : q = p
  · subst hq
    exact h.hooks d ha hd
  · exact (attached_setMouse_of_ne hq).mp ha

/-- A record in order stays in order. -/
theorem Remakes.neat (h : Remakes p m' s) (hd : s.Neat d) : (s.setMouse p m').Neat d := by
  intro r c hr hc
  obtain ⟨hlive, hdead⟩ := hd r c hr hc
  exact ⟨hlive, fun hr' q ha => hdead hr' q (h.attached ha hr.1)⟩

/-- The invariant is kept while the mouse is in the thread's hands. -/
theorem Remakes.sound (h : Remakes p m' s) (hs : s.Sound) (hheld : s.psmouseMutex = some t) :
    (s.setMouse p m').Sound :=
  { hs with
    alive := by
      intro d r hr hdead
      by_cases hp : r.psmouse = p
      · cases hm : m' with
        | none => cases hdead.symm.trans (h.clear hm d r hr hp)
        | some m => exact ⟨m, by rw [hp, Board.mouse_setMouse]⟩
      · obtain ⟨m, hm⟩ := hs.alive d r hr hdead
        exact ⟨m, by rw [Board.mouse_setMouse_of_ne hp, hm]⟩
    attached := by
      intro d r hr hdead hc
      have hp : r.psmouse ≠ p := by
        intro hp
        rcases h.crumbs d r hr hp with hd | hn
        · cases hdead.symm.trans hd
        · rw [hn] at hc
          cases hc
      exact (attached_setMouse_of_ne hp).mpr (hs.attached d r hr hdead hc)
    neat := fun hfree d => h.neat (hs.neat hfree d)
    settled := fun hfree => by cases hfree.symm.trans hheld }

/-- Whoever is at the list finds it as it was. -/
theorem Remakes.steady (h : Remakes p m' s) (hun : s.Unhooked p) : Steady u s (s.setMouse p m') where
  list := rfl
  dev _ r hr := ⟨r, hr.2, rfl, rfl, .inl rfl⟩
  still _ _ _ hr := hr.2
  hooks _ _ hd ha := h.attached ha hd
  marks q d r hr hc ha := by
    by_cases hq : q = p
    · subst hq
      rw [hun d r hr ha] at hc
      cases hc
    · exact (attached_setMouse_of_ne hq).mpr ha
  neat _ hd := h.neat hd
  idle _ _ x hx hn hrem := ⟨x, hx, hn, hrem⟩
  destroyer _ x hx hd := ⟨x, hx, hd⟩

/-- A mouse that is assigned to is still there. -/
theorem attends_setMouse {m m₀ : Mouse} (hm₀ : s.mouse p = some m₀) : Attends u s (s.setMouse p (some m)) where
  mouse k q h := by
    obtain ⟨⟨m₀, hm⟩, hu⟩ := h
    refine ⟨?_, hu⟩
    by_cases hq : q = p
    · subst hq
      exact ⟨m, Board.mouse_setMouse⟩
    · exact ⟨m₀, by rw [Board.mouse_setMouse_of_ne hq, hm]⟩
  resync q h := by
    obtain ⟨⟨m', hm'⟩, hr⟩ := h
    refine ⟨?_, hr⟩
    by_cases hq : q = p
    · exact ⟨m₀, hq ▸ hm₀⟩
    · exact ⟨m', (Board.mouse_setMouse_of_ne hq).symm.trans hm'⟩
  client _ x hx _ := ⟨x, hx, rfl, rfl, rfl⟩
  names _ _ _ _ _ r' hr' hdead hc := ⟨r', hr', hdead, hc⟩

/-- Who is not driven by a companion drives no record of the list. -/
theorem unhooked_setMouse {m : Mouse} (h : m.handlers ≠ .smbus ∨ ∀ d, m.priv = .smbdev d → d ∉ s.list) :
    (s.setMouse p (some m)).Unhooked p := by
  intro d r hr ha
  obtain ⟨m', hm', hh, hp⟩ := ha
  obtain rfl : m = m' := by simpa using hm'
  rcases h with h | h
  · exact absurd hh h
  · exact absurd hr.1 (h d hp)

/-- A mouse without a live record that has a client may be put in charge of a record that is not on
the list, or of none. -/
theorem Remakes.of_new {m : Mouse} (hcrumbs : s.Crumbs p)
    (h : m.handlers ≠ .smbus ∨ ∀ d, m.priv = .smbdev d → d ∉ s.list) : Remakes p (some m) s where
  clear h := by cases h
  crumbs := hcrumbs
  hooks d ha hd := by
    obtain ⟨m', hm', hh, hp⟩ := ha
    rw [Board.mouse_setMouse] at hm'
    obtain rfl := Option.some.inj hm'
    rcases h with h | h
    · exact absurd hh h
    · exact absurd hd (h d hp)

/-- The thread that works on a mouse changes it. -/
theorem remade_kept {o : Op} {a : o.Ans} {b w : Bench} {m : Mouse} (hs : s.Sound) (ht : Tie t l s)
    (hb : l.bench = some b) (hmouse : w.mouse = b.mouse) (hre : Remakes b.mouse (some m) s)
    (hun : s.Unhooked b.mouse) (hw : w.Holds t (s.setMouse b.mouse (some m)))
    (hmoves : l.moves o a { l with bench := some w }) : Kept t l o a s (s.setMouse b.mouse (some m)) := by
  have hheld := ht.at_bench hb
  obtain ⟨m₀, hm₀, _⟩ := (ht.bench b hb).fields
  have hattends : ∀ u, Attends u s (s.setMouse b.mouse (some m)) := fun _ => attends_setMouse hm₀
  refine ⟨hre.sound hs hheld, ⟨_, hmoves, ?_⟩, fun u hu => ?_⟩
  · refine ⟨(hattends t).role ht.role, fun q hq => ht.resync q ((hattends t).resync q hq), ht.mutex,
      fun _ => ht.mutex.mpr hheld, fun b₁ hb₁ => ?_, fun _ q hq => ?_,
      ht.smbus, fun x hx => (hre.steady hun).visit hs Iff.rfl (ht.visit x hx), ht.loose⟩
    · obtain rfl := Option.some.inj hb₁
      exact hw
    · have hne : q ≠ b.mouse := fun h => hq w rfl (hmouse.trans h.symm)
      refine settled_setMouse_of_ne hne (ht.rest (ht.mutex.mpr hheld) q fun b₁ hb₁ h => hne ?_)
      obtain rfl := Option.some.inj (hb.symm.trans hb₁)
      exact h.symm
  · exact ⟨Iff.rfl, Iff.rfl, hattends u, fun h => absurd h (ne_holder hheld hu), fun _ => hre.steady hun,
      fun _ => Iff.rfl⟩

/-- At these stages the mouse has breadcrumbs at most. -/
theorem Stage.Holds.crumbs {k : Stage} (hk : k.Holds t p s) (h : k = .clear ∨ k = .crumbs ∨ (∃ d, k = .made d) ∨
    ∃ d, k = .listed d) : s.Crumbs p ∧ s.Unhooked p := by
  rcases h with rfl | rfl | ⟨d, rfl⟩ | ⟨d, rfl⟩
  · exact ⟨fun d r hr hp => .inl (hk.1 d r hr hp), hk.2⟩
  · exact hk
  · exact ⟨fun d' r hr hp => .inl (hk.1 d' r hr hp), hk.2.1⟩
  · obtain ⟨honly, hun, r, hr, _, hc, _⟩ := hk
    refine ⟨fun d' r' hr' hp' => (honly d' r' hr' hp').imp_right fun h => ?_, hun⟩
    subst h
    obtain rfl := Option.some.inj (hr.2.symm.trans hr'.2)
    exact hc

/-- A record that a thread has to itself is not on the list. -/
theorem Board.Sound.not_mem (hs : s.Sound) (hr : s.smbdev d = some r) (ho : r.owner = some u) : d ∉ s.list := by
  intro hd
  obtain ⟨r', hr', ho'⟩ := hs.listed d hd
  obtain rfl := Option.some.inj (hr.symm.trans hr')
  cases ho.symm.trans ho'

/-- The handlers are assigned. -/
theorem setHandlers_kept {h : Handlers} (hs : s.Sound) (ht : Tie t l s) (hallow : l.allows (.setHandlers p h)) :
    Kept t l (.setHandlers p h) () s (s.onMouse p fun m => { m with handlers := h }) := by
  obtain ⟨b, hb, rfl, hcase⟩ := hallow
  obtain ⟨⟨m, hm, hhandlers, hpriv⟩, hstage⟩ := ht.bench b hb
  rw [Board.onMouse_of_some hm]
  have hfields : ∃ m₁, (s.setMouse b.mouse (some { m with handlers := h })).mouse b.mouse = some m₁ ∧
      (∀ h', some h = some h' → m₁.handlers = h') ∧ ∀ v, b.priv = some v → m₁.priv = v :=
    ⟨_, Board.mouse_setMouse, fun _ h' => Option.some.inj h', hpriv⟩
  have hnew : ({ m with handlers := h } : Mouse).handlers ≠ .smbus ∨
      ∀ d, ({ m with handlers := h } : Mouse).priv = .smbdev d → d ∉ s.list := by
    rcases hcase with ⟨_, hh⟩ | ⟨_, rfl⟩ | ⟨d, hk, rfl, hd⟩
    · exact .inl hh
    · exact .inl nofun
    · refine .inr fun d' hd' => ?_
      rw [hk] at hstage
      obtain ⟨_, _, r, hr, _, _, _, ho, _⟩ := hstage
      obtain rfl : d = d' := Private.smbdev.inj ((hpriv _ hd).symm.trans hd')
      exact hs.not_mem hr ho
  obtain ⟨hcrumbs, hun⟩ : s.Crumbs b.mouse ∧ s.Unhooked b.mouse := by
    refine hstage.crumbs ?_
    rcases hcase with ⟨hk, _⟩ | ⟨hk, _⟩ | ⟨d, hk, _⟩
    · exact .inl hk
    · exact .inr (.inl hk)
    · exact .inr (.inr (.inl ⟨d, hk⟩))
  refine remade_kept (w := { b with handlers := some h }) hs ht hb rfl (.of_new hcrumbs hnew) hun ⟨hfields, ?_⟩
    ⟨b, hb, rfl⟩
  have hun' := unhooked_setMouse (p := b.mouse) (s := s) hnew
  change b.stage.Holds t b.mouse _
  rcases hcase with ⟨hk, _⟩ | ⟨hk, _⟩ | ⟨d, hk, _⟩ <;> rw [hk] at hstage ⊢
  · exact ⟨hstage.1, hun'⟩
  · exact ⟨hstage.1, hun'⟩
  · exact ⟨hstage.1, hun', hstage.2.2⟩

/-- Assigning `private`, unless the mouse is being disconnected. -/
theorem setPrivate_kept {v : Private} (hs : s.Sound) (ht : Tie t l s) {b : Bench} (hb : l.bench = some b)
    (hcase : (v = .null ∨ v = .vendor) ∧ (b.stage = .clear ∨ b.stage = .crumbs ∨ ∃ d, b.stage = .listed d) ∨
      ∃ d, b.stage = .made d ∧ v = .smbdev d) :
    Kept t l (.setPrivate b.mouse v) () s (s.onMouse b.mouse fun m => { m with priv := v }) := by
  obtain ⟨⟨m, hm, hhandlers, hpriv⟩, hstage⟩ := ht.bench b hb
  rw [Board.onMouse_of_some hm]
  have hfields : ∃ m₁, (s.setMouse b.mouse (some { m with priv := v })).mouse b.mouse = some m₁ ∧
      (∀ h, b.handlers = some h → m₁.handlers = h) ∧ ∀ v', some v = some v' → m₁.priv = v' :=
    ⟨_, Board.mouse_setMouse, hhandlers, fun _ h' => Option.some.inj h'⟩
  have hnew : ∀ d, v = .smbdev d → d ∉ s.list := by
    rintro d rfl
    rcases hcase with ⟨hv | hv, _⟩ | ⟨d', hk, hv⟩
    · cases hv
    · cases hv
    · obtain rfl := Private.smbdev.inj hv
      rw [hk] at hstage
      obtain ⟨_, _, r, hr, _, _, _, ho, _⟩ := hstage
      exact hs.not_mem hr ho
  obtain ⟨hcrumbs, hun⟩ : s.Crumbs b.mouse ∧ s.Unhooked b.mouse := by
    refine hstage.crumbs ?_
    rcases hcase with ⟨_, hk | hk | hk⟩ | ⟨d, hk, _⟩
    · exact .inl hk
    · exact .inr (.inl hk)
    · exact .inr (.inr (.inr hk))
    · exact .inr (.inr (.inl ⟨d, hk⟩))
  have hback : b.stage.back l.visit = l.visit := by
    rcases hcase with ⟨_, hk | hk | ⟨d, hk⟩⟩ | ⟨d, hk, _⟩ <;> rw [hk] <;> rfl
  refine remade_kept (w := { b with priv := some v, stage := b.stage.reset }) hs ht hb rfl
    (.of_new hcrumbs (.inr hnew)) hun ⟨hfields, ?_⟩ ⟨b, hb, by rw [hback]⟩
  have hun' := unhooked_setMouse (m := { m with priv := v }) (p := b.mouse) (s := s) (.inr hnew)
  change b.stage.reset.Holds t b.mouse _
  rcases hcase with ⟨_, hk | hk | ⟨d, hk⟩⟩ | ⟨d, hk, _⟩ <;> rw [hk] at hstage ⊢
  · exact ⟨hstage.1, hun'⟩
  · exact ⟨hstage.1, hun'⟩
  · exact ⟨hcrumbs, hun'⟩
  · exact ⟨hstage.1, hun', hstage.2.2⟩

/-- A mouse nobody works on is driven by a record about itself. -/
theorem Board.Settled.about {q : Addr} (hq : s.Settled q) (ha : s.Attached q d) :
    ∃ r, s.Listed d r ∧ r.psmouse = q ∧ r.client.isSome := by
  obtain ⟨m, hm, hh, hp⟩ := ha
  obtain ⟨d', ⟨m', hm', _, hp'⟩, _, hlisted⟩ := (hq m hm).2.2 hh
  obtain rfl := Option.some.inj (hm.symm.trans hm')
  obtain rfl : d = d' := Private.smbdev.inj (hp.symm.trans hp')
  exact hlisted

/-- `private` is cleared when the mouse is disconnected. -/
theorem setPrivate_null_kept (hs : s.Sound) (ht : Tie t l s) {b : Bench} (hb : l.bench = some b)
    (hk : b.stage = .parting d) (hvisit : l.visit = some (.queued d)) :
    Kept t l (.setPrivate b.mouse .null) () s (s.onMouse b.mouse fun m => { m with priv := .null }) := by
  have hheld := ht.at_bench hb
  have hlock := ht.at_list hvisit
  obtain ⟨⟨m, hm, hhandlers, hpriv⟩, hstage⟩ := ht.bench b hb
  rw [hk] at hstage
  obtain ⟨hclear, hattached, r, hr, hp, hdead⟩ := hstage
  rw [Board.onMouse_of_some hm]
  have hnew : ∀ d, Private.null = .smbdev d → d ∉ s.list := nofun
  have hre : Remakes b.mouse (some { m with priv := .null }) s :=
    .of_new (fun d r hr hp => .inl (hclear d r hr hp)) (.inr hnew)
  have hrest : ∀ q, q ≠ b.mouse → s.Settled q := by
    refine fun q hq => ht.rest (ht.mutex.mpr hheld) q fun b₁ hb₁ h => hq ?_
    obtain rfl := Option.some.inj (hb.symm.trans hb₁)
    exact h.symm
  have hneat : ∀ d', (s.setMouse b.mouse (some { m with priv := .null })).Neat d' := by
    intro d'
    by_cases hd : d' = d
    · subst hd
      intro r' c hr' hc
      obtain rfl := Option.some.inj (hr.2.symm.trans hr'.2)
      refine ⟨fun h => (by rw [hdead] at h; cases h), fun _ q ha => ?_⟩
      have hne : q ≠ b.mouse := by
        rintro rfl
        obtain ⟨m', hm', _, hp'⟩ := ha
        rw [Board.mouse_setMouse] at hm'
        obtain rfl := Option.some.inj hm'
        cases hp'
      obtain ⟨r₁, hr₁, hp₁, _⟩ := (hrest q hne).about ((attached_setMouse_of_ne hne).mp ha)
      obtain rfl := Option.some.inj (hr.2.symm.trans hr₁.2)
      exact absurd (hp₁.symm.trans hp) hne
    · exact hre.neat ((ht.visit _ hvisit).2 d' hd)
  have hattends : ∀ u, Attends u s (s.setMouse b.mouse (some { m with priv := .null })) := fun _ => attends_setMouse hm
  refine ⟨hre.sound hs hheld, ⟨_, ⟨b, hb, rfl⟩, ?_⟩, fun u hu => ?_⟩
  · refine ⟨(hattends t).role ht.role, fun q hq => ht.resync q ((hattends t).resync q hq), ht.mutex,
      fun _ => ht.mutex.mpr hheld, fun b₁ hb₁ => ?_, fun _ q hq => ?_,
      ?_, fun x hx => ?_, ht.loose⟩
    · obtain rfl := Option.some.inj hb₁
      refine ⟨⟨_, Board.mouse_setMouse, hhandlers, fun _ h' => Option.some.inj h'⟩, ?_⟩
      change b.stage.reset.Holds t b.mouse _
      rw [hk]
      exact ⟨hclear, unhooked_setMouse (.inr hnew)⟩
    · have hne : q ≠ b.mouse := fun h => hq _ rfl h.symm
      exact settled_setMouse_of_ne hne (hrest q hne)
    · rw [hk]
      exact ⟨fun _ => hlock, fun _ => rfl⟩
    · rw [hk] at hx
      obtain rfl := Option.some.inj hx
      exact hneat
  · exact ⟨Iff.rfl, Iff.rfl, hattends u, fun h => absurd h (ne_holder hheld hu),
      fun h => absurd h (ne_holder hlock hu), fun _ => Iff.rfl⟩

/-- The invariant does not say who uses a mouse. -/
theorem Board.Sound.setUsage {x : Usage} (hs : s.Sound) : (s.setUsage p x).Sound := { hs with }

/-- Nobody resynchronises a new mouse. -/
theorem resync_newMouse {m : Mouse} {q : Addr} (h : ((s.setMouse p (some m)).setUsage p (.owned t)).Deals u .resync q) :
    s.Deals u .resync q := by
  obtain ⟨⟨m', hm'⟩, hr⟩ := h
  by_cases hq : q = p
  · subst hq
    rw [Board.usage_setUsage] at hr
    cases hr
  · rw [Board.usage_setUsage_of_ne hq] at hr
    exact ⟨⟨m', (Board.mouse_setMouse_of_ne hq).symm.trans hm'⟩, hr⟩

/-- A mouse is allocated. -/
theorem newMouse_kept (hs : s.Sound) (ht : Tie t l s) (hallow : l.allows .newMouse) (hp : s.mouse p = none) :
    Kept t l .newMouse (some p) s
      ((s.setMouse p (some { handlers := .plain, priv := .null })).setUsage p (.owned t)) := by
  obtain ⟨hmutex, hnone, hidle⟩ := hallow
  have hheld := ht.mutex.mp hmutex
  have hclear : s.Clear p := by
    intro d r hr hrp
    cases hdead : r.dead with
    | true => rfl
    | false =>
      obtain ⟨m, hm⟩ := hs.alive d r hr hdead
      rw [hrp, hp] at hm
      cases hm
  have hun : s.Unhooked p := by
    rintro d r hr ⟨m, hm, _⟩
    rw [hp] at hm
    cases hm
  have hre : Remakes p (some { handlers := .plain, priv := .null }) s :=
    .of_new (fun d r hr hrp => .inl (hclear d r hr hrp)) (.inl (by decide))
  have hne : ∀ q m, s.mouse q = some m → q ≠ p := by
    rintro q m hm rfl
    rw [hp] at hm
    cases hm
  refine ⟨(hre.sound hs hheld).setUsage, ⟨_, rfl, ?_⟩, fun u hu => ?_⟩
  · refine ⟨⟨⟨_, Board.mouse_setMouse⟩, Board.usage_setUsage⟩, fun q hq => ?_, ht.mutex, fun _ => hmutex,
      fun b hb => ?_, fun _ q hq => ?_, ht.smbus, fun x hx => ?_, ht.loose⟩
    · exact absurd (hidle.symm.trans (ht.resync q (resync_newMouse hq))) (by simp)
    · obtain rfl := Option.some.inj hb
      have hun' : (s.setMouse p (some { handlers := .plain, priv := .null })).Unhooked p :=
        unhooked_setMouse (.inl (by decide))
      exact ⟨⟨_, Board.mouse_setMouse, fun _ h => Option.some.inj h, fun _ h => Option.some.inj h⟩, hclear, hun'⟩
    · exact settled_setMouse_of_ne (fun h => hq _ rfl h.symm)
        (ht.rest hmutex q fun b hb => by rw [hnone] at hb; cases hb)
    · have hvisit := (hre.steady hun).visit hs Iff.rfl (ht.visit x hx)
      refine hvisit.of_eq (hre.sound hs hheld) ?_ ?_ ?_ ?_ ?_ <;> rfl
  · refine ⟨Iff.rfl, Iff.rfl, ⟨fun k q h => ?_, fun q => resync_newMouse, fun c x hx _ => ⟨x, hx, rfl, rfl, rfl⟩,
      fun _ _ _ _ _ r' hr' hdead hc => ⟨r', hr', hdead, hc⟩⟩, fun h => absurd h (ne_holder hheld hu), fun _ => ?_,
      fun _ => Iff.rfl⟩
    · obtain ⟨⟨m, hm⟩, hk⟩ := h
      have hqp := hne q m hm
      exact ⟨⟨m, (Board.mouse_setMouse_of_ne hqp).trans hm⟩, by rwa [Board.usage_setUsage_of_ne hqp]⟩
    · have hsteady := hre.steady (u := u) hun
      exact { hsteady with }

/-- Nobody else deals with a mouse that a thread has to itself. -/
theorem Usage.Has.alone {x : Usage} {k : Part} (h : x.Has t .owner) (hu : u ≠ t) : ¬ x.Has u k := by
  obtain rfl : x = .owned t := h
  cases k with
  | owner => exact fun hk => hu (Usage.owned.inj hk).symm
  | watcher =>
    rintro ⟨r, hr⟩
    cases hr
  | user =>
    rintro ⟨users, r, hr, _⟩
    cases hr
  | resync =>
    intro hr
    cases hr

/-- A mouse that has been freed is dealt with by nobody. -/
theorem deals_setMouse_none {k : Part} {q : Addr} (h : (s.setMouse p none).Deals u k q) : s.Deals u k q := by
  obtain ⟨⟨m, hm⟩, hk⟩ := h
  by_cases hq : q = p
  · subst hq
    rw [Board.mouse_setMouse] at hm
    cases hm
  · exact ⟨⟨m, (Board.mouse_setMouse_of_ne hq).symm.trans hm⟩, hk⟩

/-- A mouse is freed. -/
theorem freeMouse_kept (hs : s.Sound) (ht : Tie t l s) (hallow : l.allows (.freeMouse p)) :
    Kept t l (.freeMouse p) () s (s.setMouse p none) := by
  obtain ⟨hrole, b, hb, rfl, hk⟩ := hallow
  have hheld := ht.at_bench hb
  have hstage := (ht.bench b hb).stage
  rw [hk] at hstage
  obtain ⟨hclear, hun⟩ := hstage
  obtain ⟨_, husage⟩ : Role.Holds t s (.owning b.mouse) := hrole ▸ ht.role
  have hre : Remakes b.mouse none s := by
    refine ⟨fun _ => hclear, fun d r hr hp => .inl (hclear d r hr hp), fun d ha _ => ?_⟩
    obtain ⟨m', hm', _⟩ := ha
    rw [Board.mouse_setMouse] at hm'
    cases hm'
  refine ⟨hre.sound hs hheld, ⟨_, rfl, ?_⟩, fun u hu => ?_⟩
  · refine ⟨trivial, fun q hq => absurd (hrole.symm.trans (ht.resync q (deals_setMouse_none hq))) (by simp), ht.mutex,
      fun h => (nomatch h),
      fun b₁ hb₁ => (nomatch hb₁), fun _ q _ => ?_, ht.smbus,
      fun x hx => (hre.steady hun).visit hs Iff.rfl (ht.visit x hx), ht.loose⟩
    by_cases hq : q = b.mouse
    · subst hq
      intro m' hm'
      rw [Board.mouse_setMouse] at hm'
      cases hm'
    · refine settled_setMouse_of_ne hq (ht.rest (ht.mutex.mpr hheld) q fun b₁ hb₁ h => hq ?_)
      obtain rfl := Option.some.inj (hb.symm.trans hb₁)
      exact h.symm
  · refine ⟨Iff.rfl, Iff.rfl, ⟨fun k q h => ?_, fun _ => deals_setMouse_none, fun c x hx _ => ⟨x, hx, rfl, rfl, rfl⟩,
      fun _ _ _ _ _ r' hr' hdead hc => ⟨r', hr', hdead, hc⟩⟩,
      fun h => absurd h (ne_holder hheld hu), fun _ => hre.steady hun, fun _ => Iff.rfl⟩
    obtain ⟨⟨m', hm'⟩, hk⟩ := h
    have hne : q ≠ b.mouse := by
      rintro rfl
      exact husage.alone hu hk
    exact ⟨⟨m', (Board.mouse_setMouse_of_ne hne).trans hm'⟩, hk⟩

/-- The mouse of a callback is there. -/
theorem Tie.handled (ht : Tie t l s) (h : l.Handles p) : ∃ m, s.mouse p = some m := by
  have hrole := ht.role
  unfold Account.Handles Role.Handles at h
  rcases h with h | h | h | h
  all_goals
    rw [h] at hrole
    exact hrole.1

/-- The stage of a mouse nobody has been working on. -/
theorem Board.Settled.taken {m : Mouse} (hp : s.Settled p) (hm : s.mouse p = some m) :
    (Stage.taken m.handlers).Holds t p s := by
  obtain ⟨hplain, hvendor, _⟩ := hp m hm
  have hun : m.handlers ≠ .smbus → s.Unhooked p := by
    rintro h d r hr ⟨m', hm', hh, _⟩
    obtain rfl := Option.some.inj (hm.symm.trans hm')
    exact absurd hh h
  cases hh : m.handlers with
  | plain => exact ⟨hplain hh, hun (by rw [hh]; nofun)⟩
  | vendor => exact ⟨hvendor hh, hun (by rw [hh]; nofun)⟩
  | smbus => exact hp

/-- The handlers are read. -/
theorem handlers_kept {m : Mouse} (hs : s.Sound) (ht : Tie t l s) (hallow : l.allows (.handlers p))
    (hm : s.mouse p = some m) : Kept t l (.handlers p) m.handlers s s := by
  obtain ⟨hmutex, _, hbench⟩ := hallow
  have hsame := same_kept (o := .outcome) (r := true) hs ht rfl
  cases hb : l.bench with
  | none =>
    refine ⟨hs, ⟨{ l with bench := some ⟨p, some m.handlers, none, .taken m.handlers⟩ }, ?_, ?_⟩, hsame.others⟩
    · simp only [Account.moves, hb]
    · have hsettled : ∀ q, s.Settled q := fun q => ht.rest hmutex q fun b h => by rw [hb] at h; cases h
      refine { ht with benched := fun _ => hmutex, bench := fun b h => ?_, rest := fun _ q _ => hsettled q }
      obtain rfl := Option.some.inj h
      exact ⟨⟨m, hm, fun _ h => Option.some.inj h, fun _ h => (nomatch h)⟩, (hsettled p).taken hm⟩
  | some b =>
    obtain ⟨rfl, hsome⟩ := hbench b hb
    obtain ⟨m', hm', hh, _⟩ := (ht.bench b hb).fields
    obtain rfl := Option.some.inj (hm.symm.trans hm')
    obtain ⟨h, hh'⟩ := Option.isSome_iff_exists.mp hsome
    refine ⟨hs, ⟨l, ?_, ht⟩, hsame.others⟩
    simp only [Account.moves, hb]
    exact ⟨by rw [hh', hh h hh'], trivial⟩

/-- `private` is read. -/
theorem priv_kept {m : Mouse} (hs : s.Sound) (ht : Tie t l s) {b : Bench} (hb : l.bench = some b)
    (hm : s.mouse b.mouse = some m) : Kept t l (.priv b.mouse) m.priv s s := by
  obtain ⟨⟨m', hm', hhandlers, hpriv⟩, hstage⟩ := ht.bench b hb
  obtain rfl := Option.some.inj (hm.symm.trans hm')
  have hlooked : b.stage = .settled → b.handlers = some .smbus → ∃ d, m.priv = .smbdev d ∧ s.Used b.mouse d := by
    intro hk hh
    rw [hk] at hstage
    obtain ⟨d, hd⟩ := (hstage m hm).2.2 (hhandlers _ hh)
    obtain ⟨m', hm', _, hp⟩ := hd.1
    obtain rfl := Option.some.inj (hm.symm.trans hm')
    exact ⟨d, hp, hd⟩
  refine ⟨hs, ⟨_, ⟨b, hb, fun v hv => hpriv v hv, fun hk hh => (hlooked hk hh).imp fun _ h => h.1, rfl⟩, ?_⟩,
    (same_kept (o := .outcome) (r := true) hs ht rfl).others⟩
  refine { ht with benched := fun _ => ht.mutex.mpr (ht.at_bench hb), bench := fun b₁ h => ?_, rest := fun hm q hq => ?_ }
  · obtain rfl := Option.some.inj h
    refine ⟨⟨m, hm, hhandlers, fun _ h => Option.some.inj h⟩, ?_⟩
    change (b.stage.looked b.handlers m.priv).Holds t b.mouse s
    unfold Stage.looked
    split
    · next hk hh hv =>
      obtain ⟨d, hd, hused⟩ := hlooked hk hh
      obtain rfl := Private.smbdev.inj (hd.symm.trans hv)
      exact hused
    · exact hstage
  · refine ht.rest hm q fun b₁ hb₁ h => hq _ rfl ?_
    obtain rfl := Option.some.inj (hb.symm.trans hb₁)
    exact h

/-- Who is there for a mouse changes, and nobody else is affected. -/
theorem setUsage_kept {x : Usage} (hs : s.Sound) (ht : Tie t l s)
    (hothers : ∀ u k, u ≠ t → (s.usage p).Has u k → x.Has u k)
    (hresync : ∀ u, u ≠ t → x.resync = some u → (s.usage p).resync = some u)
    (hown : ∀ q, l.role = .resyncing q → q = p) :
    (s.setUsage p x).Sound ∧
      (∀ role : Role, role.Holds t (s.setUsage p x) → (x.resync = some t → role = .resyncing p) →
        Tie t { l with role := role } (s.setUsage p x)) ∧
      ∀ u, u ≠ t → Spares u s (s.setUsage p x) := by
  refine ⟨hs.setUsage, fun role hrole hx => ?_, fun u hu => ?_⟩
  · refine ⟨hrole, fun q hq => ?_, ht.mutex, ht.benched, fun b hb => ?_, ht.rest, ht.smbus, fun x hx => ?_, ht.loose⟩
    · by_cases hqp : q = p
      · subst hqp
        exact hx ((congrArg Usage.resync Board.usage_setUsage).symm.trans hq.2)
      · rw [Board.Deals, Board.usage_setUsage_of_ne hqp] at hq
        exact absurd (hown q (ht.resync q hq)) hqp
    · refine (ht.bench b hb).of_eq ?_ ?_ ?_ ?_ ?_ <;> rfl
    · refine (ht.visit x hx).of_eq hs ?_ ?_ ?_ ?_ ?_ <;> rfl
  · refine ⟨Iff.rfl, Iff.rfl, ⟨fun k q h => ⟨h.1, ?_⟩, fun q hq => ?_, fun c x hx _ => ⟨x, hx, rfl, rfl, rfl⟩,
      fun _ _ _ _ _ r' hr' hdead hc => ⟨r', hr', hdead, hc⟩⟩,
      fun _ => .of_eq rfl rfl rfl rfl rfl, fun _ => .of_eq rfl rfl rfl rfl, fun _ => Iff.rfl⟩
    · by_cases hqp : q = p
      · subst hqp
        rw [Board.usage_setUsage]
        exact hothers u k hu h.2
      · rw [Board.usage_setUsage_of_ne hqp]
        exact h.2
    · by_cases hqp : q = p
      · subst hqp
        exact ⟨hq.1, hresync u hu ((congrArg Usage.resync Board.usage_setUsage).symm.trans hq.2)⟩
      · rw [Board.Deals, Board.usage_setUsage_of_ne hqp] at hq
        exact hq

/-- A mouse that its thread watches is otherwise dealt with by `psmouse_resync` alone. -/
theorem Usage.Has.watched {k : Part} {r : Option ℕ} (hu : u ≠ t) (h : (Usage.watched t r).Has u k) :
    k = .resync ∧ r = some u := by
  cases k with
  | owner => cases h
  | watcher =>
    obtain ⟨r', hr'⟩ := h
    exact absurd (Usage.watched.inj hr').1.symm hu
  | user =>
    obtain ⟨users, r', hr', _⟩ := h
    cases hr'
  | resync => exact ⟨rfl, h⟩

/-- A bound mouse is dealt with by its users and `psmouse_resync`. -/
theorem Usage.Has.bound {k : Part} {users : List ℕ} {r : Option ℕ} (h : (Usage.bound users r).Has u k) :
    (k = .user ∧ u ∈ users) ∨ k = .resync ∧ r = some u := by
  cases k with
  | owner => cases h
  | watcher =>
    obtain ⟨r', hr'⟩ := h
    cases hr'
  | user =>
    obtain ⟨users', r', hr', hmem⟩ := h
    obtain ⟨rfl, -⟩ := Usage.bound.inj hr'
    exact .inl ⟨rfl, hmem⟩
  | resync => exact .inr ⟨rfl, h⟩

/-- `psmouse_resync` may come in. -/
theorem activate_kept (hs : s.Sound) (ht : Tie t l s) (hallow : l.allows (.activate p))
    (hexec : exec t (.activate p) s = some ((), s')) : Kept t l (.activate p) () s s' := by
  have hrole : l.role = .owning p := hallow
  obtain ⟨⟨m, hm⟩, husage⟩ : Role.Holds t s (.owning p) := hrole ▸ ht.role
  have husage' : s.usage p = .owned t := husage
  simp only [exec, husage', Board.touchMouse_of_some hm, Option.some.injEq, Prod.mk.injEq, true_and] at hexec
  obtain rfl := hexec
  obtain ⟨hsound, htie, hspares⟩ := setUsage_kept (x := .watched t none) hs ht
    (fun u k hu hk => absurd hk (husage.alone hu)) (fun u _ h => by cases h)
    (fun q hq => by cases hrole.symm.trans hq)
  exact ⟨hsound, ⟨_, rfl, htie (.watching p) ⟨⟨m, hm⟩, none, Board.usage_setUsage⟩ fun h => by cases h⟩, hspares⟩

/-- A mouse is bound. -/
theorem bind_kept (hs : s.Sound) (ht : Tie t l s) (hallow : l.allows (.bind p)) :
    Kept t l (.bind p) () s (s.setUsage p (.bound [] (s.usage p).resync)) := by
  have hrole : l.role = .watching p := hallow
  obtain ⟨hm, r, husage⟩ : Role.Holds t s (.watching p) := hrole ▸ ht.role
  obtain ⟨hsound, htie, hspares⟩ := setUsage_kept (x := .bound [] (s.usage p).resync) hs ht
    (fun u k hu hk => by
      rw [husage] at hk ⊢
      obtain ⟨rfl, rfl⟩ := Usage.Has.watched hu hk
      rfl)
    (fun u _ h => h) (fun q hq => by cases hrole.symm.trans hq)
  exact ⟨hsound, ⟨_, rfl, htie .idle trivial fun h => by cases hrole.symm.trans (ht.resync p ⟨hm, h⟩)⟩, hspares⟩

/-- A callback is through with its mouse. -/
theorem leave_kept (hs : s.Sound) (ht : Tie t l s) (hallow : l.allows (.leave p))
    (hexec : exec t (.leave p) s = some ((), s')) : Kept t l (.leave p) () s s' := by
  have hrole : l.role = .serving p := hallow
  obtain ⟨hm, users, r, husage, hmem⟩ : Role.Holds t s (.serving p) := hrole ▸ ht.role
  simp only [exec, husage, Option.some.injEq, Prod.mk.injEq, true_and] at hexec
  obtain rfl := hexec
  obtain ⟨hsound, htie, hspares⟩ := setUsage_kept (x := .bound (users.erase t) r) hs ht
    (fun u k hu hk => by
      rw [husage] at hk
      obtain ⟨rfl, hmem'⟩ | ⟨rfl, rfl⟩ := hk.bound
      · exact ⟨_, _, rfl, (List.mem_erase_of_ne hu).mpr hmem'⟩
      · rfl)
    (fun u _ h => by rw [husage]; exact h) (fun q hq => by cases hrole.symm.trans hq)
  refine ⟨hsound, ⟨_, rfl, htie .idle trivial fun h => ?_⟩, hspares⟩
  cases hrole.symm.trans (ht.resync p ⟨hm, by rw [husage]; exact h⟩)

/-- `psmouse_resync` is through with its mouse. -/
theorem workDone_kept (hs : s.Sound) (ht : Tie t l s) (hallow : l.allows (.workDone p))
    (hexec : exec t (.workDone p) s = some ((), s')) : Kept t l (.workDone p) () s s' := by
  have hrole : l.role = .resyncing p := hallow
  obtain ⟨_, hresync⟩ : Role.Holds t s (.resyncing p) := hrole ▸ ht.role
  have hown : ∀ q, l.role = .resyncing q → q = p := fun q hq => (Role.resyncing.inj (hrole.symm.trans hq)).symm
  simp only [exec] at hexec
  split at hexec
  · next v husage =>
    rw [husage] at hresync
    cases hresync
  · next v r husage =>
    obtain rfl : r = some t := by rwa [husage] at hresync
    obtain ⟨-, rfl⟩ := Prod.mk.inj (Option.some.inj hexec)
    obtain ⟨hsound, htie, hspares⟩ := setUsage_kept (x := .watched v none) hs ht
      (fun u k hu hk => by
        rw [husage] at hk
        cases k with
        | owner => cases hk
        | watcher =>
          obtain ⟨r', hr'⟩ := hk
          exact ⟨none, by rw [(Usage.watched.inj hr').1]⟩
        | user =>
          obtain ⟨users, r', hr', _⟩ := hk
          cases hr'
        | resync => exact absurd (Option.some.inj hk).symm hu)
      (fun u _ h => by cases h) hown
    exact ⟨hsound, ⟨_, rfl, htie .idle trivial fun h => by cases h⟩, hspares⟩
  · next users r husage =>
    obtain rfl : r = some t := by rwa [husage] at hresync
    obtain ⟨-, rfl⟩ := Prod.mk.inj (Option.some.inj hexec)
    obtain ⟨hsound, htie, hspares⟩ := setUsage_kept (x := .bound users none) hs ht
      (fun u k hu hk => by
        rw [husage] at hk
        obtain ⟨rfl, hmem⟩ | ⟨rfl, hr⟩ := hk.bound
        · exact ⟨_, _, rfl, hmem⟩
        · exact absurd (Option.some.inj hr).symm hu)
      (fun u _ h => by cases h) hown
    exact ⟨hsound, ⟨_, rfl, htie .idle trivial fun h => by cases h⟩, hspares⟩

/-- `psmouse_resync` does not come in any more. -/
theorem disableWorkSync_kept (hs : s.Sound) (ht : Tie t l s) (hallow : l.allows (.disableWorkSync p))
    (hexec : exec t (.disableWorkSync p) s = some ((), s')) : Kept t l (.disableWorkSync p) () s s' := by
  have hrole : l.role = .watching p := hallow.1
  obtain ⟨⟨m, hm⟩, r, husage⟩ : Role.Holds t s (.watching p) := hrole ▸ ht.role
  cases r with
  | some u => simp only [exec, husage, reduceCtorEq] at hexec
  | none =>
    simp only [exec, husage, Board.touchMouse_of_some hm, Option.some.injEq, Prod.mk.injEq, true_and] at hexec
    obtain rfl := hexec
    obtain ⟨hsound, htie, hspares⟩ := setUsage_kept (x := .owned t) hs ht
      (fun u k hu hk => by
        rw [husage] at hk
        cases (Usage.Has.watched hu hk).2)
      (fun u _ h => by cases h) (fun q hq => by cases hrole.symm.trans hq)
    exact ⟨hsound, ⟨_, rfl, htie (.owning p) ⟨⟨m, hm⟩, Board.usage_setUsage⟩ fun h => by cases h⟩, hspares⟩

end Mice

end HostNotify.Psmouse
