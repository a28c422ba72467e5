import HostNotify.Routing

/-!
# Passing the port on

The mutex carries the routing from its last holder to the next, and the driver's global says who
has business with the block. With these steps the accounts are true in every run.
-/

namespace HostNotify

open Bits Interleaving

variable {k : Setting} {b : Board} {s s' : St} {t u : ℕ} {w : Wire}

/-! ## The driver's global -/

namespace Wire.Fits

variable (h : w.Fits t s)
include h

/-- Who serves the aux adapter is among its users. -/
theorem aux (hrole : w.office = .aux) : t ∈ s.life.aux := by
  have hold := h.office
  rw [hrole] at hold
  exact hold

/-- Who serves as the IRQ thread is running as it. -/
theorem thread (hrole : w.office = .thread) : s.irq.running = some t := by
  have hold := h.office
  rw [hrole] at hold
  exact hold

/-- Who serves a callback owns the driver. -/
theorem core {c : CoreCall} {v : Charge} (hrole : w.office = .core c v) :
    s.life.owner = some t ∧ s.charge = v := by
  have hold := h.office
  rw [hrole] at hold
  exact hold

end Wire.Fits

/-- Off a drain there is none in progress. -/
theorem Lane.Shows.drained {d : Lane} (h : d.Shows s) (hd : d.draining = false) : s.ghost.drain = none := by
  rw [← Option.not_isSome_iff_eq_none, h.draining, hd]
  decide

/-- The IRQ thread only runs while the block is claimed. -/
theorem Inv.running (h : Inv k b s) (hr : s.irq.running = some t) : s.asf.active = true :=
  h.requested (h.masked (by simp [IrqLine.masked, hr]))

/-- While there are transfers, an engaged block is claimed. -/
theorem Inv.joined (h : Inv k b s) (haux : t ∈ s.life.aux) (hengaged : s.engaged = true) :
    s.asf.active = true := by
  unfold St.engaged at hengaged
  cases henabling : s.life.enabling with
  | false =>
    rw [henabling, Bool.or_false] at hengaged
    exact hengaged
  | true =>
    rw [(h.alone henabling).1] at haux
    cases haux

/-- Who serves an engaged block finds it claimed, a callback excepted that is claiming it. -/
theorem Wire.Fits.claims (hinv : Inv k b s) (hfits : w.Fits t s) (hserves : w.office.Serves)
    (hengaged : s.engaged = true) (hclaims : w.office.Claims) : s.asf.active = true := by
  cases hrole : w.office with
  | idle =>
    rw [hrole] at hserves
    exact hserves.elim
  | main =>
    rw [hrole] at hserves
    exact hserves.elim
  | aux => exact hinv.joined (hfits.aux hrole) hengaged
  | thread => exact hinv.running (hfits.thread hrole)
  | core c v =>
    obtain ⟨_, rfl⟩ := hfits.core hrole
    rw [hrole] at hclaims
    exact hclaims

/-- The driver's global is read. -/
theorem routed_asf {r : Piix4Asf} (hinv : Inv k b s) (hwired : Wired s) (hfits : w.Fits t s)
    (he : exec b t .asf s = some (r, s')) : Routed b t w .asf r s' := by
  obtain ⟨rfl, rfl⟩ := Prod.mk.inj (Option.some.inj he)
  have hlearns : w.Learns b s.asf := {
    claimed := hinv.claimed
    settings := fun c v hrole => by
      obtain ⟨_, rfl⟩ := hfits.core hrole
      rfl
    listening := fun d hd => (hfits.lane d hd).2.2.listening
    want := fun d hd => (hfits.lane d hd).2.2.want
    aux := fun hrole hlane => by
      obtain ⟨d, hd⟩ := Option.ne_none_iff_exists'.mp hlane
      exact hinv.joined (hfits.aux hrole) (hfits.lane d hd).2.1
    thread := fun hrole => hinv.running (hfits.thread hrole)
    unclaimed := fun hun => (hfits.unclaimed hun).2 }
  exact ⟨hwired, w, ⟨hlearns, rfl⟩, hfits⟩

/-- Storing a field changes of the routing what it stores. -/
theorem Lane.Shows.store {d : Lane} {f : Piix4Asf → Piix4Asf} (h : d.Shows s) (hf : Fieldwise f) :
    (d.store f).Shows { s with asf := f s.asf } where
  draining := h.draining
  listening := by
    refine (hf.listening s.asf).trans ?_
    rw [h.listening]
    rfl
  want := by
    refine (hf.want s.asf).trans ?_
    rw [h.want]
    rfl
  resume := by
    refine (hf.resume s.asf).trans ?_
    rw [h.resume]
    rfl
  listn := h.listn
  rst := h.rst
  dataEn := h.dataEn
  ptr := h.ptr

/-- Whoever holds the mutex may say whether the slave listens. -/
theorem Fieldwise.listen {f : Piix4Asf → Piix4Asf} {x : Bool} (hf : ∀ a, f a = { a with listening := x }) :
    Fieldwise f where
  settings a := by rw [hf, hf]; rfl
  listening a := by rw [hf, hf]
  want a := by rw [hf, hf]
  resume a := by rw [hf, hf]

/-- The settings of the driver's global tell everything but the two flags. -/
theorem Fieldwise.active {f : Piix4Asf → Piix4Asf} (hf : Fieldwise f) (a : Piix4Asf) :
    (f a).active = (f a.settings).active ∧ (f a).resumeListen = (f a.settings).resumeListen := by
  have hactive := congrArg (fun x => x.active) (hf.settings a)
  have hresume := congrArg (fun x => x.resumeListen) (hf.settings a)
  exact ⟨hactive, hresume⟩

/-- A callback stores a field of its own. -/
theorem routed_store {f : Piix4Asf → Piix4Asf} {c : CoreCall} {v : Charge} {r : Unit} (hinv : Inv k b s)
    (hwired : Wired s) (hfits : w.Fits t s) (hrole : w.office = .core c v) (hf : Fieldwise f)
    (hmay : w.MayStore f v) (he : exec b t (.setAsf f) s = some (r, s')) : Routed b t w (.setAsf f) r s' := by
  cases he
  obtain ⟨howner, rfl⟩ := hfits.core hrole
  obtain ⟨hactive, hresume⟩ := hf.active s.asf
  have hcharge : St.charge { s with asf := f s.asf } = s.charge.store f := by
    unfold St.charge Charge.store
    dsimp only
    rw [hf.settings]
  refine ⟨?_, _, rfl, ?_⟩
  · cases hmay with
    | locked d hd hdrain hpledged =>
      obtain ⟨hm, _, hshows⟩ := hfits.lane d hd
      exact .of_held (hfits.mutex hm) (fun _ => hshows.drained hdrain) fun hs ha =>
        hresume.trans (hpledged (hactive.symm.trans ha) hs)
    | plain h =>
      obtain ⟨hact, hlisten, hres⟩ := h s.asf
      exact {
        listening := fun hm hl => hwired.listening hm (hlisten.symm.trans hl)
        drained := hwired.drained
        vacant := fun hv => hwired.vacant (hact.symm.trans hv)
        rewound := fun hm ha hr => hwired.rewound hm (hact.symm.trans ha) (hres.symm.trans hr)
        pledged := fun hs ha => hres.trans (hwired.pledged hs (hact.symm.trans ha)) }
    | vacant hvacant hstays hdeaf =>
      have hidle : s.asf.active = false := (Bool.or_eq_false_iff.mp hvacant).1
      have hstill : (f s.asf).active = false := hactive.trans hstays
      have hsilent : (f s.asf).listening = false := hdeaf _ (hinv.inactive hidle).2
      exact {
        listening := fun _ hl => absurd (hl.symm.trans hsilent) (by decide)
        drained := hwired.drained
        vacant := fun _ => hwired.vacant hidle
        rewound := fun _ ha => absurd (ha.symm.trans hstill) (by decide)
        pledged := fun _ ha => absurd (ha.symm.trans hstill) (by decide) }
  · unfold Wire.store
    rw [hrole]
    exact {
      office := ⟨howner, hcharge⟩
      mutex := hfits.mutex
      lane := fun d' hd' => by
        dsimp only at hd'
        split at hd'
        · next hengaged =>
          obtain ⟨d, hd, rfl⟩ := Option.map_eq_some_iff.mp hd'
          obtain ⟨hm, _, hshows⟩ := hfits.lane d hd
          refine ⟨hm, ?_, hshows.store hf⟩
          exact (congrArg Charge.engaged hcharge).trans hengaged
        · cases hd'
      region := hfits.region
      unclaimed := fun hun => by cases hrole.symm.trans (hfits.unclaimed hun).1 }

/-- The driver's global is assigned to. -/
theorem routed_setAsf {f : Piix4Asf → Piix4Asf} {r : Unit} (hinv : Inv k b s) (hwired : Wired s)
    (hfits : w.Fits t s) (hallow : w.allows b (.setAsf f)) (he : exec b t (.setAsf f) s = some (r, s')) :
    Routed b t w (.setAsf f) r s' := by
  have hcore : ∀ c v, w.office = .core c v → Fieldwise f → w.MayStore f v → Routed b t w (.setAsf f) r s' :=
    fun c v hrole hf hmay => routed_store hinv hwired hfits hrole hf hmay he
  rcases hallow with ⟨d, hd, hdrain, x, hf⟩ | ⟨c, v, hrole, hf, hmay⟩
  · obtain ⟨hm, hengaged, hshows⟩ := hfits.lane d hd
    have hguest : (∀ c v, w.office ≠ .core c v) → Routed b t w (.setAsf f) r s' := by
      intro hnot
      cases he
      have hstore : w.store f = w.onLane fun d => d.store f := by
        unfold Wire.store
        split
        · next c v hrole => exact absurd hrole (hnot c v)
        · rfl
      refine ⟨?_, _, rfl, ?_⟩
      · refine .of_held (hfits.mutex hm) (fun _ => hshows.drained hdrain) ?_
        rw [hf]
        exact hwired.pledged
      · rw [hstore]
        exact {
          office := hfits.office.congr rfl rfl rfl (by
            unfold St.charge
            rw [hf]
            rfl)
          mutex := hfits.mutex
          lane := fun d' hd' => by
            obtain ⟨e, hlane, rfl⟩ := Option.map_eq_some_iff.mp hd'
            obtain ⟨_, _, hshows⟩ := hfits.lane e hlane
            refine ⟨hm, ?_, hshows.store (.listen hf)⟩
            unfold St.engaged at hengaged ⊢
            rw [hf]
            exact hengaged
          region := hfits.region
          unclaimed := fun hun => by
            obtain ⟨hrole, hactive⟩ := hfits.unclaimed hun
            rw [hf]
            exact ⟨hrole, hactive⟩ }
    cases hrole : w.office with
    | core c v =>
      obtain ⟨_, rfl⟩ := hfits.core hrole
      refine hcore c _ hrole (.listen hf) (.locked d hd hdrain fun ha hs => ?_)
      rw [hf] at ha ⊢
      exact hwired.pledged hs ha
    | _ => exact hguest fun c v h => nomatch hrole.symm.trans h
  · exact hcore c v hrole hf hmay

/-! ## The mutex -/

/-- The block's mutex is taken, and port 0x07 with it. -/
theorem routed_lock {r : Unit} (hinv : Inv k b s) (hwired : Wired s) (hfits : w.Fits t s)
    (hserves : w.office.Serves) (he : exec b t (.lock .asf) s = some (r, s')) :
    Routed b t w (.lock .asf) r s' := by
  obtain ⟨hfree, rfl⟩ := exec_lock he
  have hfree : s.mutex = none := hfree
  have hwired' : Wired (s.setHolder (some t) .asf) := .of_held rfl hwired.vacant hwired.pledged
  cases hengaged : s.engaged with
  | false =>
    have hactive : s.asf.active = false := by
      unfold St.engaged at hengaged
      exact (Bool.or_eq_false_iff.mp hengaged).1
    have henters : w.Enters none := {
      idle := fun d hd => nomatch hd
      wanted := fun d hd => nomatch hd
      core := fun d c v hd => nomatch hd
      engaged := fun c v hrole => by
        obtain ⟨_, rfl⟩ := hfits.core hrole
        exact ⟨fun _ => hengaged, fun _ => rfl⟩
      thread := fun hrole =>
        absurd ((hinv.running (hfits.thread hrole)).symm.trans hactive) (by decide) }
    refine ⟨hwired', _, ⟨none, henters, rfl⟩, ?_⟩
    exact {
      office := hfits.office.congr rfl rfl rfl rfl
      mutex := fun _ => rfl
      lane := fun d hd => nomatch hd
      region := hfits.region
      unclaimed := fun hun => by
        rcases (Bool.or_eq_true _ _).mp hun with hold | hnew
        · exact hfits.unclaimed hold
        · refine ⟨?_, hactive⟩
          cases hrole : w.office with
          | aux => rfl
          | _ =>
            rw [hrole] at hnew
            cases hnew }
  | true =>
    have hrewound : s.asf.resumeListen = false → w.office.Claims → Pointer.start.Holds s.hw :=
      fun hresume hclaims => hwired.rewound hfree (hfits.claims hinv hserves hengaged hclaims) hresume
    have hlisten := hwired.listening hfree
    let rewound := s.asf.listening || (s.asf.active && !s.asf.resumeListen)
    let d : Lane := {
      draining := false, listening := s.asf.listening, want := s.asf.wantListen, resume := s.asf.resumeListen
      listn := none, rst := none, dataEn := if s.asf.listening then some false else none
      ptr := if rewound then .start else .lost }
    have hidle : d.Idle w.office.Claims := {
      draining := rfl
      listening := fun hl => by
        have hl : s.asf.listening = true := hl
        exact ⟨if_pos hl, if_pos (by simp [rewound, hl])⟩
      rewound := fun hresume hclaims => by
        have hresume : s.asf.resumeListen = false := hresume
        exact if_pos (by simp [rewound, hresume, hfits.claims hinv hserves hengaged hclaims]) }
    have hshows : d.Shows s := {
      draining := by rw [hwired.drained hfree]; rfl
      listening := rfl
      want := rfl
      resume := rfl
      listn := fun v hv => nomatch hv
      rst := fun v hv => nomatch hv
      dataEn := fun v hv => by
        dsimp only [d] at hv
        split at hv
        · next hl => exact (hlisten hl).1.trans (Option.some.inj hv)
        · cases hv
      ptr := by
        dsimp only [d]
        split
        · next hptr =>
          rcases (Bool.or_eq_true _ _).mp hptr with hl | hr
          · exact (hlisten hl).2
          · obtain ⟨hactive, hresume⟩ := (Bool.and_eq_true _ _).mp hr
            exact hwired.rewound hfree hactive ((Bool.not_eq_true' _).mp hresume)
        · trivial }
    have henters : w.Enters (some d) := {
      idle := fun e he => Option.some.inj he ▸ hidle
      wanted := fun e he hl => by
        obtain rfl := Option.some.inj he
        exact hinv.wanted hfree hl
      core := fun e c v he hrole => by
        obtain rfl := Option.some.inj he
        obtain ⟨_, rfl⟩ := hfits.core hrole
        refine ⟨rfl, fun hl => ⟨?_, ?_⟩⟩
        · by_contra hnot
          exact absurd (hl.symm.trans (hinv.deaf (Or.inl ((Bool.not_eq_true _).mp hnot)))) (by decide)
        · by_contra hnot
          exact absurd (hl.symm.trans (hinv.deaf (Or.inr ((Bool.not_eq_false _).mp hnot)))) (by decide)
      engaged := fun c v hrole => by
        obtain ⟨_, rfl⟩ := hfits.core hrole
        exact ⟨(fun h => nomatch h), fun h => absurd (hengaged.symm.trans h) (by decide)⟩
      thread := fun _ h => nomatch h }
    refine ⟨hwired', _, ⟨some d, henters, rfl⟩, ?_⟩
    exact {
      office := hfits.office.congr rfl rfl rfl rfl
      mutex := fun _ => rfl
      lane := fun e he => by
        obtain rfl := Option.some.inj he
        exact ⟨rfl, hengaged, hshows.unmoved (.of_hw rfl rfl) rfl rfl rfl⟩
      region := hfits.region
      unclaimed := fun hun => by
        rcases (Bool.or_eq_true _ _).mp hun with hold | hnew
        · exact hfits.unclaimed hold
        · simp at hnew }

/-- The block's mutex is given up, and port 0x07 with it. -/
theorem routed_unlock {r : Unit} (hinv : Inv k b s) (hwired : Wired s) (hfits : w.Fits t s)
    (hallow : w.MayUnlock) (he : exec b t (.unlock .asf) s = some (r, s')) :
    Routed b t w (.unlock .asf) r s' := by
  cases he
  have hvacant : s.asf.active = false → Wired (s.setHolder none .asf) := fun hactive => {
    listening := fun _ hl => absurd (hl.symm.trans (hinv.inactive hactive).2) (by decide)
    drained := fun _ => hwired.vacant hactive
    vacant := hwired.vacant
    rewound := fun _ ha => absurd (ha.symm.trans hactive) (by decide)
    pledged := hwired.pledged }
  refine ⟨?_, _, rfl, ?_⟩
  · cases hallow with
    | settled d hlane hidle =>
      obtain ⟨_, _, hshows⟩ := hfits.lane d hlane
      have hclaims : s.asf.active = true → w.office.Claims := fun ha => by
        cases hrole : w.office with
        | core c v =>
          obtain ⟨_, rfl⟩ := hfits.core hrole
          exact ha
        | _ => trivial
      exact {
        listening := fun _ hl => by
          obtain ⟨hdata, hptr⟩ := hidle.listening (hshows.listening.symm.trans hl)
          exact ⟨hshows.dataEn _ hdata, hptr ▸ hshows.ptr⟩
        drained := fun _ => hshows.drained hidle.draining
        vacant := hwired.vacant
        rewound := fun _ ha hr => hidle.rewound (hshows.resume.symm.trans hr) (hclaims ha) ▸ hshows.ptr
        pledged := hwired.pledged }
    | unclaimed _ hun => exact hvacant (hfits.unclaimed hun).2
    | vacant _ c v hrole hv =>
      obtain ⟨_, rfl⟩ := hfits.core hrole
      exact hvacant (Bool.or_eq_false_iff.mp hv).1
  · exact {
      office := hfits.office.congr rfl rfl rfl rfl
      mutex := fun h => nomatch h
      lane := fun d hd => nomatch hd
      region := hfits.region
      unclaimed := hfits.unclaimed }

/-! ## Marks and returns -/

/-- A drain begins. -/
theorem routed_drainBegin {r : Unit} (hinv : Inv k b s) (hwired : Wired s) (hfits : w.Fits t s)
    (hallow : w.lane ≠ none ∧ (w.office = .aux ∨ w.office = .thread))
    (he : exec b t (.mark .drainBegin) s = some (r, s')) : Routed b t w (.mark .drainBegin) r s' := by
  cases he
  obtain ⟨d, hd⟩ := Option.ne_none_iff_exists'.mp hallow.1
  obtain ⟨hm, hengaged, _⟩ := hfits.lane d hd
  have hactive : s.asf.active = true := by
    rcases hallow.2 with hrole | hrole
    · exact hinv.joined (hfits.aux hrole) hengaged
    · exact hinv.running (hfits.thread hrole)
  refine ⟨.of_held (hfits.mutex hm) (fun hv => absurd (hactive.symm.trans hv) (by decide)) hwired.pledged,
    _, rfl, ?_⟩
  exact {
    office := hfits.office.congr rfl rfl rfl rfl
    mutex := hfits.mutex
    lane := fun d' hd' => by
      obtain ⟨e, he, rfl⟩ := Option.map_eq_some_iff.mp hd'
      obtain ⟨_, _, hshows⟩ := hfits.lane e he
      exact ⟨hm, hengaged, rfl, hshows.listening, hshows.want, hshows.resume,
        hshows.listn, hshows.rst, hshows.dataEn, hshows.ptr⟩
    region := hfits.region
    unclaimed := hfits.unclaimed }

/-- A drain ends. -/
theorem routed_drainEnd {wedged : Bool} {r : Unit} (hwired : Wired s) (hfits : w.Fits t s)
    (he : exec b t (.mark (.drainEnd wedged)) s = some (r, s')) :
    Routed b t w (.mark (.drainEnd wedged)) r s' := by
  cases he
  refine ⟨⟨hwired.listening, fun _ => rfl, fun _ => rfl, hwired.rewound, hwired.pledged⟩, _, rfl, ?_⟩
  exact {
    office := hfits.office.congr rfl rfl rfl rfl
    mutex := hfits.mutex
    lane := fun d' hd' => by
      obtain ⟨e, he, rfl⟩ := Option.map_eq_some_iff.mp hd'
      obtain ⟨hm, hengaged, hshows⟩ := hfits.lane e he
      exact ⟨hm, hengaged, rfl, hshows.listening, hshows.want, hshows.resume,
        hshows.listn, hshows.rst, hshows.dataEn, hshows.ptr⟩
    region := hfits.region
    unclaimed := hfits.unclaimed }

/-- The account of a thread that has returned is true of any state. -/
theorem Wire.fits_idle (t : ℕ) (s : St) : (Wire.free .idle).Fits t s :=
  ⟨trivial, fun h => (nomatch h), fun _ h => (nomatch h), fun _ h => (nomatch h), fun h => nomatch h⟩

/-- A callback is through. -/
theorem routed_coreDone {c : CoreCall} {r : Unit} (hwired : Wired s) (hfits : w.Fits t s)
    (hallow : w.allows b (.coreDone c)) (he : exec b t (.coreDone c) s = some (r, s')) :
    Routed b t w (.coreDone c) r s' := by
  cases he
  obtain ⟨v, hrole, hsuspend⟩ := hallow
  obtain ⟨_, rfl⟩ := hfits.core hrole
  refine ⟨⟨hwired.listening, hwired.drained, hwired.vacant, hwired.rewound, fun hs ha => ?_⟩, _, rfl,
    Wire.fits_idle t _⟩
  cases c with
  | suspend => exact hsuspend rfl ha
  | _ => exact hwired.pledged hs ha

/-- One step of a thread whose account permits it keeps the routing and the account. -/
theorem routed_step {o : Op} {r : o.Ans} (hinv : Inv k b s) (hwired : Wired s) (hfits : w.Fits t s)
    (hallow : w.allows b o) (he : exec b t o s = some (r, s')) : Routed b t w o r s' := by
  have hoff : o.Offside b → w.moves b o r w → Routed b t w o r s' := fun ho hmove =>
    (ho.exec he).routed hwired hfits hmove
  cases o with
  | inb port => exact routed_inb hinv hwired hfits hallow he
  | outb v port => exact routed_outb hwired hfits hallow he
  | iowrite32 d => exact routed_iowrite32 hwired hfits he
  | iowrite8 v offset => exact routed_iowrite8 hwired hfits he
  | asf => exact routed_asf hinv hwired hfits he
  | setAsf f => exact routed_setAsf hinv hwired hfits hallow he
  | lock l =>
    cases l with
    | asf => exact routed_lock hinv hwired hfits hallow he
    | notify => exact hoff trivial rfl
  | unlock l =>
    cases l with
    | asf => exact routed_unlock hinv hwired hfits hallow he
    | notify => exact hoff trivial rfl
  | requestMemRegionMuxed => exact routed_requestMemRegionMuxed hwired hfits he
  | releaseMemRegion => exact routed_releaseMemRegion hwired hfits he
  | mark m =>
    cases m with
    | drainBegin => exact routed_drainBegin hinv hwired hfits hallow he
    | drainEnd wedged => exact routed_drainEnd hwired hfits he
    | _ => exact hoff trivial rfl
  | transferDone =>
    cases he
    exact ⟨⟨hwired.listening, hwired.drained, hwired.vacant, hwired.rewound, hwired.pledged⟩, _, rfl,
      Wire.fits_idle t _⟩
  | irqThreadDone =>
    cases he
    exact ⟨⟨hwired.listening, hwired.drained, hwired.vacant, hwired.rewound, hwired.pledged⟩, _, rfl,
      Wire.fits_idle t _⟩
  | coreDone c => exact routed_coreDone hwired hfits hallow he
  | _ => exact hoff trivial rfl

/-! ## Other threads -/

/-- The intent to listen after the system has slept only changes where nobody counts on it. -/
theorem step_resume {o : Op} {r : o.Ans} {m : Wire} (hfits : w.Fits t s) (hallow : w.allows b o)
    (he : exec b t o s = some (r, s')) (hm : m.Fits u s) (hlane : m.lane ≠ none) (hu : u ≠ t) :
    s'.asf.resumeListen = s.asf.resumeListen := by
  have hunwilled : o.Unwilled → s'.asf.resumeListen = s.asf.resumeListen := fun ho =>
    congrArg Intent.resume (ho.exec he).2
  cases o with
  | setAsf f =>
    cases he
    obtain ⟨e, hmlane⟩ := Option.ne_none_iff_exists'.mp hlane
    obtain ⟨hmutex, hengaged, _⟩ := hm.lane e hmlane
    have hother : ∀ d, w.lane ≠ some d := fun d hd =>
      hu (Option.some.inj ((hm.mutex hmutex).symm.trans (hfits.mutex (hfits.lane d hd).1)))
    rcases hallow with ⟨d, hd, _⟩ | ⟨c, v, hrole, _, hmay⟩
    · exact absurd hd (hother d)
    · cases hmay with
      | locked d hd => exact absurd hd (hother d)
      | plain h => exact (h s.asf).2.2
      | vacant hvacant =>
        obtain ⟨_, rfl⟩ := hfits.core hrole
        exact absurd (hengaged.symm.trans hvacant) (by decide)
  | coreDone c =>
    cases he
    rfl
  | _ => exact hunwilled trivial

/-! ## Entering a call -/

/-- What a callback begins with. -/
def Charge.Begins (v : Charge) : CoreCall → Prop
  | .enable => v.enabling = true ∧ v.asf.active = false ∧ v.asleep = false
  | .start => v.enabling = false ∧ v.asleep = false ∧ v.asf.resumeListen = false
  | .suspend => v.enabling = false ∧ v.asleep = false ∧ (v.asf.active = true → v.asf.wantListen = true)
  | .resume => v.enabling = false ∧ v.asleep = false
  | _ => v.enabling = false

/-- What a call begins with. -/
def Boards (b : Board) : Call → Wire → Prop
  | .transfer x, w => w = .free .aux ∧ x.smba = b.auxSmba
  | .plainTransfer x, w => w = { Wire.free .aux with unclaimed := true } ∧ x.smba = b.auxSmba
  | .mainTransfer a x, w => w = .free .main ∧ a.smba = b.mainSmba ∧ x.smba = b.mainSmba
  | .irqThread, w => w = .free .thread
  | .core c, w => ∃ v, w = .free (.core c v) ∧ v.Begins c

/-- The account of a thread that holds nothing. -/
theorem Wire.fits_free {o : Office} (h : o.Held t s) : (Wire.free o).Fits t s :=
  ⟨h, fun h => (nomatch h), fun _ h => (nomatch h), fun _ h => (nomatch h), fun h => nomatch h⟩

/-- A callback comes in. -/
theorem routed_begin {c : CoreCall} (hk : k.restart = false) (hinv : Inv k b s) (hwired : Wired s)
    (hrest : s.life.owner = none → s.intent.Rest) (hmay : s.mayBegin k c = true)
    (hundivided : s.undivided (.core c) = true) :
    Wired (s.begin t c) ∧ ∃ w, Boards b (.core c) w ∧ w.Fits t (s.begin t c) := by
  have hnone := mayBegin_owner hmay
  have hidle : s.life.enabling = false := by
    by_contra hnot
    exact hinv.owned ((Bool.not_eq_false _).mp hnot) hnone
  refine ⟨⟨hwired.listening, hwired.drained, hwired.vacant, hwired.rewound, fun hs ha => ?_⟩,
    _, ⟨(s.begin t c).charge, rfl, ?_⟩, Wire.fits_free ⟨by cases c <;> rfl, rfl⟩⟩
  · cases c with
    | resume => cases hs
    | _ => exact hwired.pledged hs ha
  · cases c with
    | enable =>
      have hactive := hinv.unclaimed hmay
      simp only [St.mayBegin, Bool.and_eq_true, Bool.not_eq_true'] at hmay
      exact ⟨rfl, hactive, hmay.2.1.1.2⟩
    | start =>
      simp only [St.mayBegin, Bool.and_eq_true, Bool.not_eq_true', Bool.or_eq_true] at hmay
      refine ⟨hidle, hmay.2.1.1.2, ?_⟩
      rcases hmay.2.2 with hbad | hfresh
      · exact absurd (hk.symm.trans hbad) (by decide)
      · exact (hinv.core.fresh hk hfresh).2
    | suspend =>
      simp only [St.mayBegin, Bool.and_eq_true, Bool.not_eq_true'] at hmay
      refine ⟨hidle, hmay.2.1.2, fun hactive => ?_⟩
      rcases (Bool.or_eq_true _ _).mp hundivided with hserving | hvacant
      · exact (hrest hnone).wanted hserving hactive hmay.2.1.2
      · exact absurd (hactive.symm.trans ((Bool.not_eq_true' _).mp hvacant)) (by decide)
    | resume => exact ⟨hidle, rfl⟩
    | _ => exact hidle

/-- A call comes in. -/
theorem routed_enter {c : Call} (hk : k.restart = false) (hinv : Inv k b s) (hwired : Wired s)
    (hrest : s.life.owner = none → s.intent.Rest) (he : (whole k b).enter c t s = some s') :
    Wired s' ∧ (∃ w, Boards b c w ∧ w.Fits t s') ∧ s'.asf.resumeListen = s.asf.resumeListen := by
  obtain ⟨hundivided, he⟩ := Machine.restrict_enter.mp he
  cases c with
  | transfer x =>
    obtain ⟨⟨hsmba, _⟩, he⟩ := Option.ite_none_right_eq_some.mp he
    cases he
    refine ⟨⟨hwired.listening, hwired.drained, hwired.vacant, hwired.rewound, hwired.pledged⟩,
      ⟨_, ⟨rfl, hsmba⟩, Wire.fits_free ?_⟩, rfl⟩
    exact List.mem_cons_self
  | plainTransfer x =>
    obtain ⟨⟨hsmba, hreg, halgo⟩, he⟩ := Option.ite_none_right_eq_some.mp he
    cases he
    refine ⟨⟨hwired.listening, hwired.drained, hwired.vacant, hwired.rewound, hwired.pledged⟩,
      ⟨_, ⟨rfl, hsmba⟩, ?_⟩, rfl⟩
    exact { Wire.fits_free (o := .aux) List.mem_cons_self with unclaimed := fun _ => ⟨rfl, hinv.plain hreg halgo⟩ }
  | mainTransfer a x =>
    obtain ⟨⟨_, ⟨ha, hx⟩, _⟩, he⟩ := Option.ite_none_right_eq_some.mp he
    cases he
    exact ⟨hwired, ⟨_, ⟨rfl, ha, hx⟩, Wire.fits_free trivial⟩, rfl⟩
  | irqThread =>
    obtain ⟨_, he⟩ := Option.ite_none_right_eq_some.mp he
    cases he
    exact ⟨⟨hwired.listening, hwired.drained, hwired.vacant, hwired.rewound, hwired.pledged⟩,
      ⟨_, rfl, Wire.fits_free rfl⟩, rfl⟩
  | core c =>
    obtain ⟨hmay, he⟩ := Option.ite_none_right_eq_some.mp he
    cases he
    obtain ⟨hwired', hboards⟩ := routed_begin (t := t) hk hinv hwired hrest hmay hundivided
    exact ⟨hwired', hboards, rfl⟩

/-! ## The accounts of all threads -/

/-- Every thread has an account of the routing that is true. -/
noncomputable def switchboard (hintrude : k.intrude = false) (hrestart : k.restart = false) (b : Board) :
    Custody ((whole k b).confine (known k b)) (wiring b) where
  known s := Inv k b s ∧ (s.life.owner = none → s.intent.Rest)
  inv := Wired
  tie := fun u w s => w.Fits u s
  idle := .free .idle
  starts := Boards b
  during _ _ := True
  rest _ := True
  starts_during _ _ _ := trivial
  moves_during _ _ _ _ _ _ _ := trivial
  event_keeps e s s' hknown hwired he := by
    obtain ⟨he, _⟩ := Machine.confine_react.mp he
    have hasf := (react_frame he hknown.1.smba).asf
    exact ⟨hwired.react hknown.1 he, fun u m hm =>
      hm.rely hknown.1 hintrude (Or.inl ⟨e, he⟩) fun _ => by rw [hasf]⟩
  enter_keeps c t s s' hknown hwired _ he := by
    obtain ⟨he, hown⟩ := Machine.confine_enter.mp he
    obtain ⟨hwired', hboards, hresume⟩ := routed_enter hrestart hknown.1 hwired hknown.2 he
    exact ⟨hwired', hboards, fun u m hu hm => hm.rely hknown.1 hintrude (hown.2.1 u hu) fun _ => hresume⟩
  step_keeps c t w o s r s' hknown hwired hfits _ hallow _ he := by
    obtain ⟨he, hown⟩ := Machine.confine_exec.mp he
    obtain ⟨hwired', hfits'⟩ := routed_step hknown.1 hwired hfits hallow he
    exact ⟨hwired', hfits', fun u m hu hm =>
      hm.rely hknown.1 hintrude (hown.2.1 u hu) fun hlane => step_resume hfits hallow he hm hlane hu⟩

end HostNotify
