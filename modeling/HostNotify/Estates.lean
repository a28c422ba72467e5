import HostNotify.Keeping

/-!
# Steps of a callback

A callback changes its estate. Such a step keeps the accounts true if the laws hold of the
new estate and nothing is taken away that another thread relies on.
-/

namespace HostNotify

open Bits Interleaving

variable {k : Setting} {b : Board} {s s' : St} {t u : ℕ} {m : Hand} {c : CoreCall} {v : Estate}

/-! ## Changing the estate -/

/-- Two states that differ in the callbacks' estate and the flags around it at most. -/
structure Beside (s s' : St) : Prop where
  mutex : s'.mutex = s.mutex
  notify : s'.notifyMutex = s.notifyMutex
  region : s'.region = s.region
  pm : s'.muxed 0xcd6 = s.muxed 0xcd6
  imc : s'.muxed imcIdx = s.muxed imcIdx
  aux : s'.life.aux = s.life.aux
  thread : s'.irq.running = s.irq.running
  woken : s'.irq.woken = s.irq.woken
  owner : s'.life.owner = s.life.owner
  decodeEn : s'.hw.decodeEn = s.hw.decodeEn
  touched : s'.ghost.touched = s.ghost.touched
  firmware : s'.ghost.firmware = s.ghost.firmware
  wrote : s'.ghost.wrote = s.ghost.wrote
  before : s'.ghost.before = s.ghost.before

/-- Beside the estate the mode bits stay as they are. -/
theorem Beside.modes (h : Beside s s') : s'.hw.modes = s.hw.modes := by
  simp only [Target.modes, h.decodeEn]

/-- What a change of the estate by the callback in progress has to respect. -/
structure Change (b : Board) (v v' : Estate) (t : ℕ) (s s' : St) : Prop where
  lawful : v'.Lawful b
  awake : v'.asleep = v.asleep
  active : ∀ u, u ≠ t → s.mutex = some u ∨ s.irq.running = some u → v.asf.active = true →
    v'.asf.active = true
  registered : v.registered = true → v'.registered = true ∨
    (s.life.aux = [] ∧ s.irq.running = none)
  ok : ∀ u, u ≠ t → s.notifyMutex = some u → v.deliverOk = true → v'.deliverOk = true
  listening : s'.asf.listening = true → v'.registered = true ∨ v'.requested = false
  enabling : v'.enabling = true → s'.asf.listening = false
  masked : s.irq.masked = true → v'.requested = true

/-- A callback's step keeps the shared state orderly and disturbs nobody. -/
theorem Beside.orderly {v' : Estate} (h : Beside s s') (ho : Orderly k b s) (ht : Tie k b t m s)
    (hrole : m.role = .core c v) (hestate : s'.estate b = v') (hc : Change b v v' t s s')
    (hwindows : ∀ w ∈ s'.windows, w = b.auxWindow ∨ w = b.asfWindow) :
    Orderly k b s' ∧ ∀ u, u ≠ t → (s.life.owner = some u → s'.hw.lisaddr = s.hw.lisaddr ∧
      s'.hw.slven = s.hw.slven ∧ s'.hw.bnksel = s.hw.bnksel) → Apart k b u s s' := by
  have howner : s.life.owner = some t := ht.owner.mpr ⟨c, v, hrole, trivial⟩
  have hold : s.estate b = v := ht.estate c v hrole
  have hreg : s.life.registered = v.registered := congrArg Estate.registered hold
  have hreg' : s'.life.registered = v'.registered := congrArg Estate.registered hestate
  have hreq' : s'.irq.requested = v'.requested := congrArg Estate.requested hestate
  have hdue : s'.ghost.due = s.ghost.due := by
    unfold Ghost.due
    rw [h.firmware, h.wrote]
  constructor
  · exact {
      lawful := hestate ▸ hc.lawful
      rest := fun hnone => absurd (h.owner.symm.trans hnone) (by rw [howner]; nofun)
      aux := fun hne => by
        rw [h.aux] at hne
        rcases hc.registered (hreg ▸ ho.aux hne) with hr | ⟨hnone, _⟩
        · exact hreg'.trans hr
        · exact absurd hnone hne
      listening := fun hl => by
        rw [hreg', hreq']
        exact hc.listening hl
      enabling := fun hen => hc.enabling ((congrArg Estate.enabling hestate).symm.trans hen)
      masked := fun hm => by
        rw [IrqLine.masked, h.woken, h.thread] at hm
        exact hreq'.trans (hc.masked hm)
      windows := hwindows
      released := fun hk hnone => by
        rw [h.decodeEn, hdue]
        exact ho.released hk (h.region ▸ hnone)
      decodeEn := fun hk j hj hf => by
        simp only [h.decodeEn, hdue]
        exact ho.decodeEn hk j hj hf
      before := fun hk hne hawake j hj hf h16 h17 => by
        have hsleep : s.life.asleep = s'.life.asleep :=
          (congrArg Estate.asleep hold).trans (hc.awake.symm.trans (congrArg Estate.asleep hestate).symm)
        simp only [h.before, h.firmware]
        exact ho.before hk (h.owner ▸ hne) (hsleep.trans hawake) j hj hf h16 h17 }
  · intro u hu hshows
    exact {
      mutex := by rw [h.mutex]
      notify := by rw [h.notify]
      region := by rw [h.region]
      pm := by rw [h.pm]
      imc := by rw [h.imc]
      aux := by rw [h.aux]
      thread := by rw [h.thread]
      owner := by rw [h.owner]
      estate := fun hu' => absurd (Option.some.inj (howner.symm.trans hu')).symm hu
      untouched := fun _ _ => h.touched.trans
      decodeEn := fun _ htouched => ⟨h.touched.symm.trans htouched, h.decodeEn⟩
      due := fun _ _ => hdue
      active := fun hwho hact => by
        have hact' := hc.active u hu hwho ((congrArg (fun e => e.asf.active) hold).symm.trans hact)
        exact (congrArg (fun e => e.asf.active) hestate).trans hact'
      window := fun hwho hr => by
        rcases hc.registered (hreg.symm.trans hr) with hr' | ⟨hnone, hidle⟩
        · exact hreg'.trans hr'
        · rcases hwho with ha | hrun
          · rw [hnone] at ha
            cases ha
          · rw [hidle] at hrun
            cases hrun
      ok := fun hwho hok => by
        have hok' := hc.ok u hu hwho ((congrArg Estate.deliverOk hold).symm.trans hok)
        exact (congrArg Estate.deliverOk hestate).trans hok'
      shows := fun hu' _ _ => ⟨(hshows hu').1, (hshows hu').2.1, (hshows hu').2.2, fun htouched =>
        ⟨h.touched.trans htouched, h.modes⟩⟩
      still := fun hu' => absurd (Option.some.inj (howner.symm.trans hu')).symm hu }

/-- The account of the callback after its step. -/
theorem Beside.tie {v' : Estate} {n : Seen} {still : Bool} (h : Beside s s') (ht : Tie k b t m s)
    (hrole : m.role = .core c v) (hestate : s'.estate b = v') (hsleep : v'.asleep = v.asleep)
    (hn : n ≠ Seen.nothing → v'.asf.active = false)
    (hshows : v'.asleep = false → n.Shows s'.hw s'.ghost.touched)
    (hstill : still = true → s'.asf.Still v'.requested) :
    Tie k b t { m with role := .core c v', seen := n, still := still } s' := by
  have howner : s.life.owner = some t := ht.owner.mpr ⟨c, v, hrole, trivial⟩
  have hdue : s'.ghost.due = s.ghost.due := by
    unfold Ghost.due
    rw [h.firmware, h.wrote]
  exact {
    mutex := by rw [h.mutex]; exact ht.mutex
    notify := by rw [h.notify]; exact ht.notify
    region := by rw [h.region]; exact ht.region
    pm := by rw [h.pm]; exact ht.pm
    imc := by rw [h.imc]; exact ht.imc
    aux := by
      rw [h.aux, ht.aux, hrole]
      exact ⟨nofun, nofun⟩
    thread := by
      rw [h.thread, ht.thread, hrole]
      exact ⟨nofun, nofun⟩
    owner := ⟨fun _ => ⟨c, v', rfl, trivial⟩, fun _ => h.owner.trans howner⟩
    estate := fun c' w hw => by
      obtain ⟨_, rfl⟩ := Role.core.inj hw
      exact hestate
    main := nofun
    untouched := fun hfirm hheld => by
      refine h.touched.trans (ht.untouched (hfirm.imp_right ?_) hheld)
      rintro ⟨c', w, hw, hawake⟩
      obtain ⟨_, rfl⟩ := Role.core.inj hw
      exact ⟨c, v, hrole, hsleep.symm.trans hawake⟩
    decodeEn := fun htouched p hp => h.decodeEn.trans (ht.decodeEn (h.touched.symm.trans htouched) p hp)
    due := fun hk p hp => hdue.trans (ht.due hk p hp)
    active := fun hm => by
      rcases (ht.active hm).2 with ⟨_, hno⟩ | hno <;> exact absurd (hrole.symm.trans hno) nofun
    window := fun hm => by
      rcases (ht.window hm).2 with hno | hno <;> exact absurd (hrole.symm.trans hno) nofun
    ok := fun hm => by
      rcases (ht.ok hm).2.2 with hno | hno <;> exact absurd (hrole.symm.trans hno) nofun
    unclaimed := fun hm => ⟨(congrArg (fun e => e.asf.active) hestate).trans (hn hm), c, v', rfl, trivial⟩
    shows := fun hawake => hshows ((congrArg Estate.asleep hestate).symm.trans hawake)
    still := fun hm => by
      rw [show s'.irq.requested = v'.requested from congrArg Estate.requested hestate]
      exact ⟨hstill hm, c, v', rfl, trivial⟩ }

/-- A callback's estate is changed in its role. -/
theorem Hand.onEstate_core (hrole : m.role = .core c v) (g : Estate → Estate) :
    m.onEstate g = { m with role := .core c (g v) } := by
  unfold Hand.onEstate
  rw [hrole]

/-- A step of a callback that changes only its estate, and of that nothing others rely on. -/
theorem kept_estate {o : Op} {r : o.Ans} (g : Estate → Estate) (ho : Orderly k b s)
    (ht : Tie k b t m s) (hrole : m.role = .core c v) (h : Beside s s') (hhw : s'.hw = s.hw ∧ s'.asf = s.asf)
    (hestate : s'.estate b = g v) (hc : Change b v (g v) t s s')
    (hwindows : ∀ w ∈ s'.windows, w = b.auxWindow ∨ w = b.asfWindow)
    (hactive : (g v).asf.active = v.asf.active)
    (hrequested : (g v).requested = true → v.requested = true)
    (hm : m.moves k b o r (m.onEstate g)) : Kept k b t m o r s s' := by
  rw [Hand.onEstate_core hrole] at hm
  obtain ⟨horderly, hothers⟩ := h.orderly ho ht hrole hestate hc hwindows
  refine ⟨horderly, ⟨_, hm, ?_⟩, fun u hu => hothers u hu fun _ => by rw [hhw.1]; exact ⟨rfl, rfl, rfl⟩⟩
  refine h.tie ht hrole hestate hc.awake (fun hn => ?_) (fun hawake => ?_) fun hs => ?_
  · exact hactive.trans ((ht.claimed hrole).symm.trans (ht.unclaimed hn).1)
  · rw [hhw.1, h.touched]
    exact ht.shows ((ht.asleep hrole).trans (hc.awake.symm.trans hawake))
  · obtain ⟨hstill, _⟩ := ht.still hs
    rw [hhw.2]
    refine { hstill with requested := ?_ }
    have hno : v.requested = false := (ht.requested hrole).symm.trans hstill.requested
    cases hr : (g v).requested with
    | false => rfl
    | true => exact absurd ((hrequested hr).symm.trans hno) (by decide)

/-- Nothing changes beside itself. -/
theorem Beside.refl (s : St) : Beside s s :=
  ⟨rfl, rfl, rfl, rfl, rfl, rfl, rfl, rfl, rfl, rfl, rfl, rfl, rfl, rfl⟩

/-- A change of the estate that takes nothing away from others. -/
theorem Change.of_more {v' : Estate} (ho : Orderly k b s) (ht : Tie k b t m s)
    (hrole : m.role = .core c v) (hlawful : v'.Lawful b) (hawake : v'.asleep = v.asleep)
    (hactive : v'.asf.active = v.asf.active) (hreg : v.registered = true → v'.registered = true)
    (hok : v'.deliverOk = v.deliverOk) (hreq : v'.requested = v.requested) (hen : v'.enabling = v.enabling)
    (hlisten : s'.asf.listening = s.asf.listening) : Change b v v' t s s' where
  lawful := hlawful
  awake := hawake
  active _ _ _ ha := hactive.trans ha
  registered hr := Or.inl (hreg hr)
  ok _ _ _ h := hok.trans h
  listening hl := by
    rw [hreq, ← ht.requested hrole]
    refine (ho.listening (hlisten.symm.trans hl)).imp_left fun hr => hreg ?_
    exact (congrArg Estate.registered (ht.estate c v hrole)).symm.trans hr
  enabling henabling := by
    refine hlisten.trans (ho.enabling ?_)
    exact (congrArg Estate.enabling (ht.estate c v hrole)).trans (hen.symm.trans henabling)
  masked hm := by
    rw [hreq, ← ht.requested hrole]
    exact ho.masked hm

/-- Assigning `piix4_aux_adapter` keeps the accounts. -/
theorem kept_setAuxAdapter {x : Bool} {r : Unit} (ho : Orderly k b s) (ht : Tie k b t m s)
    (hallow : m.allows k b (.setAuxAdapter x)) (he : exec b t (.setAuxAdapter x) s = some (r, s')) :
    Kept k b t m (.setAuxAdapter x) r s s' := by
  obtain rfl : { s with auxAdapter := x } = s' := (Prod.mk.inj (Option.some.inj he)).2
  obtain ⟨c, v, hrole, hlawful⟩ := hallow
  have hestate : St.estate b { s with auxAdapter := x } = { v with auxAdapter := x } := by
    rw [← ht.estate c v hrole]
    rfl
  exact kept_estate (fun v => { v with auxAdapter := x }) ho ht hrole { Beside.refl s with } ⟨rfl, rfl⟩
    hestate (.of_more ho ht hrole hlawful rfl rfl id rfl rfl rfl rfl) ho.windows rfl id rfl

/-- Permitting or forbidding delivery keeps the accounts. -/
theorem kept_setDeliverOk {x : Bool} {r : Unit} (ho : Orderly k b s) (ht : Tie k b t m s)
    (hallow : m.allows k b (.setDeliverOk x)) (he : exec b t (.setDeliverOk x) s = some (r, s')) :
    Kept k b t m (.setDeliverOk x) r s s' := by
  obtain rfl : { s with deliverOk := x } = s' := (Prod.mk.inj (Option.some.inj he)).2
  obtain ⟨hn, c, v, hrole, hlawful⟩ := hallow
  have hestate : St.estate b { s with deliverOk := x } = { v with deliverOk := x } := by
    rw [← ht.estate c v hrole]
    rfl
  have hchange : Change b v { v with deliverOk := x } t s { s with deliverOk := x } := {
    lawful := hlawful
    awake := rfl
    active := fun _ _ _ h => h
    registered := Or.inl
    -- the flag is guarded by the mutex that the callback holds
    ok := fun u hu hwho _ => absurd (Option.some.inj (hwho.symm.trans (ht.notify.mpr hn))) hu
    listening := fun hl => by
      have hold := ht.estate c v hrole
      rcases ho.listening hl with hr | hq
      · exact Or.inl ((congrArg Estate.registered hold).symm.trans hr)
      · exact Or.inr ((congrArg Estate.requested hold).symm.trans hq)
    enabling := fun hen => ho.enabling ((congrArg Estate.enabling (ht.estate c v hrole)).trans hen)
    masked := fun hm => (ht.requested hrole).symm.trans (ho.masked hm) }
  exact kept_estate (fun v => { v with deliverOk := x }) ho ht hrole { Beside.refl s with } ⟨rfl, rfl⟩
    hestate hchange ho.windows rfl id rfl

/-- A callback that owns its estate knows the laws. -/
theorem Tie.lawful (ht : Tie k b t m s) (ho : Orderly k b s) (hrole : m.role = .core c v) :
    v.Lawful b := ht.estate c v hrole ▸ ho.lawful

/-- Being told about the region changes nothing but the callback's own record of it. -/
theorem kept_answer {o : Op} {r : o.Ans} {x : Bool} (ho : Orderly k b s) (ht : Tie k b t m s)
    (hm : m.moves k b o r (m.onEstate fun v => { v with granted := x })) :
    Kept k b t m o r s (s.answer t x) := by
  by_cases hown : m.Owns fun _ _ => True
  · obtain ⟨c, v, hrole, _⟩ := hown
    have howner : s.life.owner = some t := ht.owner.mpr ⟨c, v, hrole, trivial⟩
    have hestate : St.estate b (s.answer t x) = { v with granted := x } := by
      rw [← ht.estate c v hrole]
      simp [St.estate, St.answer, howner]
    exact kept_estate (fun v => { v with granted := x }) ho ht hrole { Beside.refl s with } ⟨rfl, rfl⟩ hestate
      (.of_more ho ht hrole { ht.lawful ho hrole with } rfl rfl id rfl rfl rfl rfl) ho.windows rfl id hm
  · have howner : s.life.owner ≠ some t := fun h => hown (ht.owner.mp h)
    have hsame : s.answer t x = s := by
      unfold St.answer
      rw [if_neg howner]
    have hhand : m.onEstate (fun v => { v with granted := x }) = m := by
      unfold Hand.onEstate
      split
      · next c v hrole => exact absurd ⟨c, v, hrole, trivial⟩ hown
      · rfl
    rw [hsame]
    rw [hhand] at hm
    exact kept_ask ho ht rfl hm

/-- Asking for the region keeps the accounts. -/
theorem kept_requestMemRegionMuxed {r : Bool} (ho : Orderly k b s) (ht : Tie k b t m s)
    (he : exec b t .requestMemRegionMuxed s = some (r, s')) :
    Kept k b t m .requestMemRegionMuxed r s s' := by
  simp only [exec] at he
  split at he
  · cases he
  · next hfree =>
    have hnone : s.region = none := by simpa using hfree
    split at he
    · simp only [Option.some.injEq, Prod.mk.injEq] at he
      obtain ⟨rfl, rfl⟩ := he
      exact kept_answer ho ht rfl
    · simp only [Option.some.injEq, Prod.mk.injEq] at he
      obtain ⟨rfl, rfl⟩ := he
      refine ⟨{ ho with
          lawful := ho.lawful
          released := fun _ h => by cases h },
        ⟨{ m with region := some (s.hw.decodeEn, s.hw.decodeEn) }, ⟨_, rfl⟩, { ht with
          region := ⟨fun _ => Option.some_ne_none _, fun _ => rfl⟩
          untouched := fun _ _ => rfl
          decodeEn := fun _ p hp => ?_
          due := fun hk p hp => ?_
          shows := fun hawake => { ht.shows hawake with
            modes := fun x hx => ⟨rfl, ((ht.shows hawake).modes x hx).2⟩ } }⟩,
        fun u hu => { Apart.refl k b u s with
          region := ?_, untouched := fun _ _ _ => rfl
          decodeEn := fun hheld => absurd (hnone.symm.trans hheld) (Option.some_ne_none u).symm
          shows := fun _ _ _ => ⟨rfl, rfl, rfl, fun _ => ⟨rfl, rfl⟩⟩ }⟩
      · obtain rfl := Option.some.inj hp
        rfl
      · obtain rfl := Option.some.inj hp
        exact (ho.released hk hnone).symm
      · rw [hnone]
        exact ⟨fun h => absurd (Option.some.inj h).symm hu, (by intros; contradiction)⟩

/-- Giving the region up keeps the accounts. -/
theorem kept_releaseMemRegion {r : Unit} (ho : Orderly k b s) (ht : Tie k b t m s)
    (hallow : m.allows k b .releaseMemRegion) (he : exec b t .releaseMemRegion s = some (r, s')) :
    Kept k b t m .releaseMemRegion r s s' := by
  obtain rfl : { s with region := none } = s' := (Prod.mk.inj (Option.some.inj he)).2
  obtain ⟨hheld, hdue⟩ := hallow
  obtain ⟨p, hp⟩ := Option.ne_none_iff_exists'.mp hheld
  have hmine : s.region = some t := ht.region.mpr hheld
  refine ⟨{ ho with
      lawful := ho.lawful
      released := fun hk _ => ?_ },
    ⟨{ m with region := none }, rfl, { ht with
      region := ⟨nofun, fun h => absurd rfl h⟩
      untouched := fun _ h => absurd rfl h
      decodeEn := fun _ p hp => by cases hp
      due := fun _ p hp => by cases hp }⟩,
    fun u hu => { Apart.refl k b u s with region := ?_ }⟩
  · exact (ht.word (Or.inl hk) p hp).trans ((hdue hk p hp).trans (ht.due hk p hp).symm)
  · rw [hmine]
    exact ⟨nofun, fun h => absurd (Option.some.inj h).symm hu⟩

/-- Mapping the region keeps the accounts. -/
theorem kept_ioremap {r : Bool} (ho : Orderly k b s) (ht : Tie k b t m s)
    (he : exec b t .ioremap s = some (r, s')) : Kept k b t m .ioremap r s s' := by
  simp only [exec, Option.some.injEq, Prod.mk.injEq] at he
  obtain ⟨rfl, rfl⟩ := he
  exact kept_answer ho ht rfl

/-! ## I/O regions and the interrupt -/

/-- The muxed regions of the main port are neither of the driver's windows. -/
theorem muxed_not_window (b : Board) (start : ℕ) :
    (start, 2) ≠ b.auxWindow ∧ (start, 2) ≠ b.asfWindow := by
  constructor <;> intro heq
  · have hlen : 2 = smbiosize := congrArg Prod.snd heq
    exact absurd hlen (by decide)
  · have hlen : 2 = asfIosize - smbiosize := congrArg Prod.snd heq
    exact absurd hlen (by decide)

/-- The two windows are none of the muxed regions. -/
theorem window_not_muxed {start len : ℕ} (h : (start, len) = b.auxWindow ∨ (start, len) = b.asfWindow) :
    start ≠ 0xcd6 ∧ start ≠ imcIdx := by
  have hstart : start = b.auxSmba ∨ start = b.auxSmba + smbiosize :=
    h.imp (congrArg Prod.fst) (congrArg Prod.fst)
  unfold Board.auxSmba smbiosize at hstart
  unfold imcIdx
  omega

/-- Asking for a muxed region keeps the accounts. -/
theorem kept_requestMuxedRegion {start len : ℕ} {r : Bool} (ho : Orderly k b s) (ht : Tie k b t m s)
    (hallow : m.allows k b (.requestMuxedRegion start len))
    (he : exec b t (.requestMuxedRegion start len) s = some (r, s')) :
    Kept k b t m (.requestMuxedRegion start len) r s s' := by
  obtain ⟨_, _, _, hstart⟩ := hallow
  simp only [exec] at he
  split at he
  · cases he
  · next hfree =>
    have hnone : s.muxed start = none := by simpa using hfree
    split at he
    · simp only [Option.some.injEq, Prod.mk.injEq] at he
      obtain ⟨rfl, rfl⟩ := he
      exact kept_ask ho ht rfl rfl
    · simp only [Option.some.injEq, Prod.mk.injEq] at he
      obtain ⟨rfl, rfl⟩ := he
      have hother : ∀ u, u ≠ t → ∀ p, Function.update s.muxed start (some t) p = some u ↔
          s.muxed p = some u := by
        intro u hu p
        by_cases hp : p = start
        · subst hp
          rw [Function.update_self, hnone]
          exact ⟨fun h => absurd (Option.some.inj h).symm hu, (by intros; contradiction)⟩
        · rw [Function.update_of_ne hp]
      refine ⟨{ ho with lawful := ho.lawful }, ⟨_, rfl, ?_⟩,
        fun u hu => { Apart.refl k b u s with pm := hother u hu _, imc := hother u hu _ }⟩
      rcases hstart with ⟨rfl, _⟩ | ⟨rfl, _⟩
      · have hne : (0xcd6 : ℕ) ≠ imcIdx := by decide
        have hpm : Function.update s.muxed 0xcd6 (some t) 0xcd6 = some t := Function.update_self ..
        have himc : Function.update s.muxed 0xcd6 (some t) imcIdx = s.muxed imcIdx :=
          Function.update_of_ne hne.symm ..
        simp only [if_true, if_neg hne]
        exact { ht with
          pm := ⟨fun _ => rfl, fun _ => hpm⟩
          imc := by
            simp only [himc]
            exact ht.imc }
      · have hne : (0xcd6 : ℕ) ≠ imcIdx := by decide
        have hpm : Function.update s.muxed imcIdx (some t) 0xcd6 = s.muxed 0xcd6 :=
          Function.update_of_ne hne ..
        have himc : Function.update s.muxed imcIdx (some t) imcIdx = some t := Function.update_self ..
        simp only [if_true]
        exact { ht with
          pm := by
            simp only [hpm]
            exact ht.pm
          imc := ⟨fun _ => rfl, fun _ => himc⟩ }

/-- Taking or giving back a window shows in the estate. -/
theorem estate_windows {w : ℕ × ℕ} {ws : List (ℕ × ℕ)} {muxed : ℕ → Option ℕ} {held : Bool}
    (hw : w = b.auxWindow ∨ w = b.asfWindow)
    (hin : ∀ w', w' ∈ ws ↔ (if w' = w then held = true else w' ∈ s.windows)) :
    St.estate b { s with windows := ws, muxed := muxed } = (s.estate b).setWindow b w held := by
  have hne : b.asfWindow ≠ b.auxWindow := by
    intro h
    have hlen : asfIosize - smbiosize = smbiosize := congrArg Prod.snd h
    exact absurd hlen (by decide)
  unfold Estate.setWindow St.estate
  rcases hw with rfl | rfl
  · simp [hin, hne]
  · simp [hin, hne, hne.symm]

/-- A window is a matter of two flags only. -/
theorem setWindow_asf (v : Estate) (w : ℕ × ℕ) (held : Bool) :
    (v.setWindow b w held).asf = v.asf ∧ (v.setWindow b w held).requested = v.requested ∧
      (v.setWindow b w held).registered = v.registered ∧
      (v.setWindow b w held).deliverOk = v.deliverOk ∧
      (v.setWindow b w held).asleep = v.asleep ∧ (v.setWindow b w held).enabling = v.enabling := by
  unfold Estate.setWindow
  split
  · exact ⟨rfl, rfl, rfl, rfl, rfl, rfl⟩
  · split <;> exact ⟨rfl, rfl, rfl, rfl, rfl, rfl⟩

/-- More windows break no law. -/
theorem Estate.Lawful.take (h : v.Lawful b) (w : ℕ × ℕ) : (v.setWindow b w true).Lawful b := by
  unfold Estate.setWindow
  split
  · exact { h with
      registered := fun _ => rfl
      requested := fun hr => ⟨(h.requested hr).1, Or.inl rfl⟩ }
  · split
    · exact { h with active := fun ha => ⟨rfl, (h.active ha).2⟩ }
    · exact h

/-- Asking for a window keeps the accounts. -/
theorem kept_requestRegion {start len : ℕ} {r : Bool} (ho : Orderly k b s) (ht : Tie k b t m s)
    (hallow : m.allows k b (.requestRegion start len))
    (he : exec b t (.requestRegion start len) s = some (r, s')) :
    Kept k b t m (.requestRegion start len) r s s' := by
  obtain ⟨c, v, hrole, hw⟩ := hallow
  have hw' : (start, len) = b.auxWindow ∨ (start, len) = b.asfWindow := hw.imp And.left And.left
  simp only [exec] at he
  split at he
  · simp only [Option.some.injEq, Prod.mk.injEq] at he
    obtain ⟨rfl, rfl⟩ := he
    exact kept_ask ho ht rfl rfl
  · simp only [Option.some.injEq, Prod.mk.injEq] at he
    obtain ⟨rfl, rfl⟩ := he
    obtain ⟨hasf, hreq, hreg, hok, hsleep, hen⟩ := setWindow_asf (b := b) v (start, len) true
    have hestate : St.estate b { s with windows := (start, len) :: s.windows } =
        v.setWindow b (start, len) true := by
      rw [← ht.estate c v hrole]
      exact estate_windows hw' fun w' => by
        by_cases h : w' = (start, len) <;> simp [h]
    refine kept_estate (fun v => v.setWindow b (start, len) true) ho ht hrole
      { Beside.refl s with } ⟨rfl, rfl⟩ hestate
      (.of_more ho ht hrole ((ht.lawful ho hrole).take _) hsleep (by rw [hasf])
        (fun h => hreg.trans h) hok hreq hen rfl)
      (fun w hin => ?_) (by rw [hasf]) (fun h => hreq.symm.trans h) rfl
    rcases List.mem_cons.mp hin with rfl | hold
    · exact hw'
    · exact ho.windows w hold

/-- Giving a window up keeps the accounts. -/
theorem kept_releaseRegion {start len : ℕ} {r : Unit} (ho : Orderly k b s) (ht : Tie k b t m s)
    (hallow : m.allows k b (.releaseRegion start len))
    (he : exec b t (.releaseRegion start len) s = some (r, s')) :
    Kept k b t m (.releaseRegion start len) r s s' := by
  obtain rfl : { s with
      windows := s.windows.filter (· ≠ (start, len))
      muxed := Function.update s.muxed start none } = s' := (Prod.mk.inj (Option.some.inj he)).2
  have hfilter : ∀ w ∈ s.windows.filter (· ≠ (start, len)), w ∈ s.windows := fun w hw =>
    (List.mem_filter.mp hw).1
  rcases hallow with ⟨c, v, hrole, hw, hlawful⟩ | ⟨hrole, hw⟩
  · have hw' : (start, len) = b.auxWindow ∨ (start, len) = b.asfWindow := hw.imp And.left And.left
    obtain ⟨hpm, himc⟩ := window_not_muxed hw'
    obtain ⟨hasf, hreq, hreg, hok, hsleep, hen⟩ := setWindow_asf (b := b) v (start, len) false
    have hestate : St.estate b { s with
        windows := s.windows.filter (· ≠ (start, len))
        muxed := Function.update s.muxed start none } = v.setWindow b (start, len) false := by
      rw [← ht.estate c v hrole]
      exact estate_windows hw' fun w' => by
        by_cases h : w' = (start, len) <;> simp [h]
    refine kept_estate (fun v => v.setWindow b (start, len) false) ho ht hrole
      { Beside.refl s with
        pm := Function.update_of_ne (Ne.symm hpm) ..
        imc := Function.update_of_ne (Ne.symm himc) .. } ⟨rfl, rfl⟩ hestate
      (.of_more ho ht hrole hlawful hsleep (by rw [hasf])
        (fun h => hreg.trans h) hok hreq hen rfl)
      (fun w hin => ho.windows w (hfilter w hin)) (by rw [hasf]) (fun h => hreq.symm.trans h) ?_
    show m.onEstate _ = _
    unfold Hand.onEstate
    rw [hrole]
  · -- the main port gives a muxed region back
    have hlen : len = 2 := by rcases hw with ⟨_, h, _⟩ | ⟨_, h, _⟩ <;> exact h
    subst hlen
    obtain ⟨haux, hasf⟩ := muxed_not_window b start
    have hmem : ∀ w, w ≠ (start, 2) → (w ∈ s.windows.filter (· ≠ (start, 2)) ↔ w ∈ s.windows) := by
      intro w hne
      simp [hne]
    have hestate : St.estate b { s with
        windows := s.windows.filter (· ≠ (start, 2))
        muxed := Function.update s.muxed start none } = s.estate b := by
      unfold St.estate
      simp only [hmem _ haux.symm, hmem _ hasf.symm]
    have hmine : s.muxed start = some t := by
      rcases hw with ⟨rfl, _, hpm, _⟩ | ⟨rfl, _, himc⟩
      · exact ht.pm.mpr hpm
      · exact ht.imc.mpr himc
    have hother : ∀ u, u ≠ t → ∀ p, Function.update s.muxed start none p = some u ↔
        s.muxed p = some u := by
      intro u hu p
      by_cases hp : p = start
      · subst hp
        rw [Function.update_self, hmine]
        exact ⟨(by intros; contradiction), fun h => absurd (Option.some.inj h).symm hu⟩
      · rw [Function.update_of_ne hp]
    refine ⟨{ ho with
        lawful := hestate ▸ ho.lawful
        rest := fun hnone => ⟨hestate ▸ (ho.rest hnone).1, (ho.rest hnone).2⟩
        windows := fun w hin => ho.windows w (hfilter w hin) },
      ⟨if start = imcIdx then { m with imc := false } else { m with pm := false }, ?_, ?_⟩,
      fun u hu => { Apart.refl k b u s with
        pm := hother u hu _, imc := hother u hu _, estate := fun _ => hestate }⟩
    · simp only [Hand.moves, hrole]
    · have hne : (0xcd6 : ℕ) ≠ imcIdx := by decide
      rcases hw with ⟨rfl, _⟩ | ⟨rfl, _⟩
      · have hpm : Function.update s.muxed 0xcd6 none 0xcd6 = none := Function.update_self ..
        have himc : Function.update s.muxed 0xcd6 none imcIdx = s.muxed imcIdx :=
          Function.update_of_ne hne.symm ..
        rw [if_neg hne]
        exact { ht with
          pm := by
            simp only [hpm]
            exact ⟨(by intros; contradiction), (by intros; contradiction)⟩
          imc := by
            simp only [himc]
            exact ht.imc
          estate := fun c v h => hestate.trans (ht.estate c v h) }
      · have hpm : Function.update s.muxed imcIdx none 0xcd6 = s.muxed 0xcd6 :=
          Function.update_of_ne hne ..
        have himc : Function.update s.muxed imcIdx none imcIdx = none := Function.update_self ..
        rw [if_pos rfl]
        exact { ht with
          pm := by
            simp only [hpm]
            exact ht.pm
          imc := by
            simp only [himc]
            exact ⟨(by intros; contradiction), (by intros; contradiction)⟩
          estate := fun c v h => hestate.trans (ht.estate c v h) }

/-- Registering the interrupt keeps the accounts. -/
theorem kept_acpiRegisterGsi {gsi : ℕ} {x y : Byte} {r : Int} (ho : Orderly k b s)
    (ht : Tie k b t m s) (hallow : m.allows k b (.acpiRegisterGsi gsi x y))
    (he : exec b t (.acpiRegisterGsi gsi x y) s = some (r, s')) :
    Kept k b t m (.acpiRegisterGsi gsi x y) r s s' := by
  obtain ⟨c, v, hrole, _⟩ := hallow
  simp only [exec, Option.some.injEq, Prod.mk.injEq] at he
  obtain ⟨rfl, rfl⟩ := he
  have hestate : St.estate b { s with gsiHeld := s.gsiHeld || decide (0 ≤ s.world.gsiAnswer) } =
      { v with gsiHeld := v.gsiHeld || decide (0 ≤ s.world.gsiAnswer) } := by
    rw [← ht.estate c v hrole]
    rfl
  exact kept_estate (fun v => { v with gsiHeld := v.gsiHeld || decide (0 ≤ s.world.gsiAnswer) }) ho ht
    hrole { Beside.refl s with } ⟨rfl, rfl⟩ hestate
    (.of_more ho ht hrole { ht.lawful ho hrole with } rfl rfl id rfl rfl rfl rfl) ho.windows rfl id rfl

/-- Giving the interrupt back keeps the accounts. -/
theorem kept_acpiUnregisterGsi {gsi : ℕ} {r : Unit} (ho : Orderly k b s) (ht : Tie k b t m s)
    (hallow : m.allows k b (.acpiUnregisterGsi gsi))
    (he : exec b t (.acpiUnregisterGsi gsi) s = some (r, s')) :
    Kept k b t m (.acpiUnregisterGsi gsi) r s s' := by
  obtain ⟨c, v, hrole, _⟩ := hallow
  obtain rfl : { s with gsiHeld := false } = s' := (Prod.mk.inj (Option.some.inj he)).2
  have hestate : St.estate b { s with gsiHeld := false } = { v with gsiHeld := false } := by
    rw [← ht.estate c v hrole]
    rfl
  exact kept_estate (fun v => { v with gsiHeld := false }) ho ht hrole { Beside.refl s with } ⟨rfl, rfl⟩
    hestate (.of_more ho ht hrole { ht.lawful ho hrole with } rfl rfl id rfl rfl rfl rfl) ho.windows rfl
    id rfl

/-- Requesting the IRQ keeps the accounts. -/
theorem kept_requestThreadedIrq {irq : Int} {shared : Bool} {r : Int}
    (ho : Orderly k b s) (ht : Tie k b t m s)
    (hallow : m.allows k b (.requestThreadedIrq irq shared))
    (he : exec b t (.requestThreadedIrq irq shared) s = some (r, s')) :
    Kept k b t m (.requestThreadedIrq irq shared) r s s' := by
  obtain ⟨c, v, hrole, hno, henabling, hlawful⟩ := hallow
  simp only [exec, Option.some.injEq, Prod.mk.injEq] at he
  obtain ⟨rfl, rfl⟩ := he
  have hold := ht.estate c v hrole
  have hestate : St.estate b { s with
      irq := { s.irq with requested := s.irq.requested || decide (s.world.irqAnswer = 0) } } =
      { v with requested := v.requested || decide (s.world.irqAnswer = 0) } := by
    rw [← hold]
    rfl
  have hlaws : Estate.Lawful b { v with requested := v.requested || decide (s.world.irqAnswer = 0) } := by
    rw [hno, Bool.false_or]
    cases decide (s.world.irqAnswer = 0) with
    | true => exact hlawful
    | false =>
      rw [← hno]
      exact ht.lawful ho hrole
  -- nothing listens before the adapter is registered
  have hdeaf : s.asf.listening = false :=
    ho.enabling ((congrArg Estate.enabling hold).trans henabling)
  have hchange : Change b v { v with requested := v.requested || decide (s.world.irqAnswer = 0) } t s
      { s with irq := { s.irq with requested := s.irq.requested || decide (s.world.irqAnswer = 0) } } := {
    lawful := hlaws
    awake := rfl
    active := fun _ _ _ h => h
    registered := Or.inl
    ok := fun _ _ _ h => h
    listening := fun hl => absurd (hl.symm.trans hdeaf) (by decide)
    enabling := fun _ => hdeaf
    masked := fun hm => absurd ((ht.requested hrole).symm.trans (ho.masked hm)) (by simp [hno]) }
  have hbeside : Beside s { s with
      irq := { s.irq with requested := s.irq.requested || decide (s.world.irqAnswer = 0) } } :=
    { Beside.refl s with }
  obtain ⟨horderly, hothers⟩ := hbeside.orderly ho ht hrole hestate hchange ho.windows
  refine ⟨horderly, ⟨_, rfl, ?_⟩, fun u hu => hothers u hu fun _ => ⟨rfl, rfl, rfl⟩⟩
  rw [Hand.onEstate_core hrole]
  exact hbeside.tie (m := m) (n := m.seen) ht hrole hestate rfl
    (fun hn => (ht.claimed hrole).symm.trans (ht.unclaimed hn).1)
    (fun hawake => ht.shows ((ht.asleep hrole).trans hawake)) (by intros; contradiction)

/-- Freeing the IRQ with nobody in the handlers keeps the accounts. -/
theorem kept_freeIrq {r : Unit} (ho : Orderly k b s) (ht : Tie k b t m s)
    (hallow : m.allows k b .freeIrq) (he : exec b t .freeIrq s = some (r, s')) :
    Kept k b t m .freeIrq r s s' := by
  obtain ⟨_, c, v, hrole, _, hlawful⟩ := hallow
  simp only [exec] at he
  split at he
  · cases he
  · next hunmasked =>
    simp only [Option.some.injEq, Prod.mk.injEq] at he
    obtain ⟨_, rfl⟩ := he
    have hold := ht.estate c v hrole
    have hestate : St.estate b { s with irq := { s.irq with requested := false } } =
        { v with requested := false } := by
      rw [← ht.estate c v hrole]
      rfl
    exact kept_estate (fun v => { v with requested := false }) ho ht hrole { Beside.refl s with } ⟨rfl, rfl⟩
      hestate
      { lawful := hlawful
        awake := rfl
        active := fun _ _ _ h => h
        registered := Or.inl
        ok := fun _ _ _ h => h
        listening := fun _ => Or.inr rfl
        enabling := fun hen => ho.enabling ((congrArg Estate.enabling hold).trans hen)
        masked := fun hm => absurd hm hunmasked }
      ho.windows rfl (by intros; contradiction) rfl

/-! ## The adapter -/

/-- Registering the adapter keeps the accounts. -/
theorem kept_i2cAddAdapter {algo : Bool} {r : Int} (ho : Orderly k b s) (ht : Tie k b t m s)
    (hallow : m.allows k b (.i2cAddAdapter algo)) (he : exec b t (.i2cAddAdapter algo) s = some (r, s')) :
    Kept k b t m (.i2cAddAdapter algo) r s s' := by
  obtain ⟨c, v, hrole, hno, hlawful⟩ := hallow
  simp only [exec, Option.some.injEq, Prod.mk.injEq] at he
  obtain ⟨rfl, rfl⟩ := he
  have hold := ht.estate c v hrole
  by_cases hans : s.world.addAnswer = 0
  · rw [if_pos hans]
    have hestate : St.estate b { s with life := { s.life with registered := true, asfAlgo := algo } } =
        { v with registered := v.registered || decide (s.world.addAnswer = 0) } := by
      rw [← hold]
      simp [St.estate, hans]
    have hlaws : Estate.Lawful b { v with registered := v.registered || decide (s.world.addAnswer = 0) } := by
      simpa [hans] using hlawful
    exact kept_estate (fun v => { v with registered := v.registered || decide (s.world.addAnswer = 0) })
      ho ht hrole { Beside.refl s with } ⟨rfl, rfl⟩ hestate
      (.of_more ho ht hrole hlaws rfl rfl (fun h => by simp [hans]) rfl rfl rfl rfl) ho.windows rfl id rfl
  · rw [if_neg hans]
    refine kept_ask ho ht rfl ?_
    show m = m.onEstate _
    rw [Hand.onEstate_core hrole]
    simp [hans, ← hrole]

/-- Removing the adapter with no transfer in progress keeps the accounts. -/
theorem kept_i2cDelAdapter {r : Unit} (ho : Orderly k b s) (ht : Tie k b t m s)
    (hallow : m.allows k b .i2cDelAdapter) (he : exec b t .i2cDelAdapter s = some (r, s')) :
    Kept k b t m .i2cDelAdapter r s s' := by
  obtain ⟨_, c, v, hrole, _, hreq, hlawful⟩ := hallow
  simp only [exec, Option.ite_none_right_eq_some, Option.some.injEq, Prod.mk.injEq] at he
  obtain ⟨hnone, _, rfl⟩ := he
  have hold := ht.estate c v hrole
  have hestate : St.estate b { s with life := { s.life with registered := false } } =
      { v with registered := false } := by
    rw [← hold]
    rfl
  have hidle : s.irq.running = none := by
    have hreq' : s.irq.requested = false := (ht.requested hrole).trans hreq
    have hmasked : s.irq.masked = false := by
      cases hm : s.irq.masked with
      | false => rfl
      | true => exact absurd ((ho.masked hm).symm.trans hreq') (by decide)
    simp only [IrqLine.masked, Bool.or_eq_false_iff] at hmasked
    simpa using hmasked.2
  exact kept_estate (fun v => { v with registered := false }) ho ht hrole { Beside.refl s with } ⟨rfl, rfl⟩
    hestate
    { lawful := hlawful
      awake := rfl
      active := fun _ _ _ h => h
      registered := fun _ => Or.inr ⟨hnone, hidle⟩
      ok := fun _ _ _ h => h
      listening := fun _ => Or.inr hreq
      enabling := fun hen => ho.enabling ((congrArg Estate.enabling hold).trans hen)
      masked := fun hm => (ht.requested hrole).symm.trans (ho.masked hm) } ho.windows rfl id rfl

/-- A delivery keeps the accounts. -/
theorem kept_handle {addr : ℕ} {r : Unit} (ho : Orderly k b s) (ht : Tie k b t m s)
    (he : exec b t (.i2cHandleSmbusHostNotify addr) s = some (r, s')) :
    Kept k b t m (.i2cHandleSmbusHostNotify addr) r s s' := by
  simp only [exec, Option.some.injEq, Prod.mk.injEq] at he
  obtain ⟨_, rfl⟩ := he
  have halike : Alike b s { s with
      delivered := s.delivered ++ [addr]
      ghost := { s.ghost with
        owed := Function.update s.ghost.owed t ((s.ghost.owed t).erase addr) } } :=
    { Alike.refl b s with }
  exact halike.kept ho ht rfl

/-- Taking the word left for the thread keeps the accounts. -/
theorem kept_xchgPending {r : Bool} (ho : Orderly k b s) (ht : Tie k b t m s)
    (he : exec b t (.xchgPending false) s = some (r, s')) :
    Kept k b t m (.xchgPending false) r s s' := by
  simp only [exec, Option.some.injEq, Prod.mk.injEq] at he
  obtain ⟨_, rfl⟩ := he
  have halike : Alike b s { s with asf := { s.asf with pending := false } } :=
    { Alike.refl b s with estate := rfl, pending := fun _ => rfl }
  exact halike.kept ho ht rfl

/-! ## The driver's global -/

/-- The global is what the callback knows of it and two flags. -/
theorem Tie.global (ht : Tie k b t m s) (hrole : m.role = .core c v) :
    s.asf = { v.asf with listening := s.asf.listening, pending := s.asf.pending } := by
  rw [← ht.estate c v hrole]
  rfl

/-- A store that clears the two flags clears them whatever they are. -/
theorem Hand.clears_flags {f : Piix4Asf → Piix4Asf} {a a' : Piix4Asf} (hclears : Hand.clears a f = true)
    (ha : a' = { a with listening := a'.listening, pending := a'.pending }) :
    (f a').pending = false ∧ (f a').listening = false := by
  have hany : ∀ x : Bool, x ∈ [false, true] := by decide
  have hboth := List.all_eq_true.mp (List.all_eq_true.mp hclears _ (hany a'.listening)) _ (hany a'.pending)
  rw [← ha, Bool.and_eq_true, Bool.not_eq_true', Bool.not_eq_true'] at hboth
  exact hboth

/-- An assignment to the global keeps the accounts. -/
theorem kept_setAsf {f : Piix4Asf → Piix4Asf} {r : Unit} (ho : Orderly k b s)
    (ht : Tie k b t m s) (hallow : m.allows k b (.setAsf f))
    (he : exec b t (.setAsf f) s = some (r, s')) : Kept k b t m (.setAsf f) r s s' := by
  obtain rfl : { s with asf := f s.asf } = s' := (Prod.mk.inj (Option.some.inj he)).2
  rcases hallow with ⟨_, hactive, hwindow, hf⟩ | ⟨c, v, hrole, hstore⟩
  · have hstore : m.store f = m := by
      unfold Hand.store
      split
      · next c v hrole =>
        rcases (ht.active hactive).2 with ⟨_, hno⟩ | hno <;> exact absurd (hrole.symm.trans hno) nofun
      · rfl
    have halike : Alike b s { s with asf := f s.asf } := { Alike.refl b s with
      estate := by
        rw [hf s.asf]
        rfl
      pending := fun hp => by
        rw [hf s.asf]
        exact hp
      listening := fun _ => Or.inr ⟨(ht.window hwindow).1, (ht.active hactive).1⟩ }
    exact halike.kept ho ht hstore.symm
  · obtain ⟨hf, hlawful, hlocked, hlisten⟩ := hstore
    have hold := ht.estate c v hrole
    have hglobal := ht.global hrole
    have hasf : s.asf.settings = v.asf := congrArg Estate.asf hold
    have hestate : St.estate b { s with asf := f s.asf } = v.store f := by
      unfold Estate.store
      rw [← hasf, ← hf.settings, ← hold]
      rfl
    have hactive : (v.store f).asf.active = (f v.asf).active := rfl
    have hchange : Change b v (v.store f) t s { s with asf := f s.asf } := {
      lawful := hlawful
      awake := rfl
      active := fun u hu hwho ha => by
        by_cases hsame : (f v.asf).active = v.asf.active
        · exact hsame.trans ha
        · rcases hwho with hmutex | hrun
          · -- whoever changes `active` holds the mutex
            have hmine : s.mutex = some t := ht.mutex.mpr (hlocked hsame)
            exact absurd (Option.some.inj (hmutex.symm.trans hmine)) hu
          · have hmasked : s.irq.masked = true := by simp [IrqLine.masked, hrun]
            exact (hlawful.requested ((ht.requested hrole).symm.trans (ho.masked hmasked))).1
      registered := Or.inl
      ok := fun _ _ _ h => h
      listening := fun hl => by
        rcases hlisten with hkeep | hfree
        · cases hprev : s.asf.listening with
          | false => exact absurd ((hkeep _ hprev).symm.trans hl) (by decide)
          | true =>
            rcases ho.listening hprev with hr | hq
            · exact Or.inl ((congrArg Estate.registered hold).symm.trans hr)
            · exact Or.inr ((congrArg Estate.requested hold).symm.trans hq)
        · exact hfree.2.1
      enabling := fun hen => by
        have henabling : s.life.enabling = true := (congrArg Estate.enabling hold).trans hen
        rcases hlisten with hkeep | ⟨hno, -⟩
        · exact hkeep _ (ho.enabling henabling)
        · exact absurd (hen.symm.trans hno) (by decide)
      masked := fun hm => (ht.requested hrole).symm.trans (ho.masked hm) }
    have hbeside : Beside s { s with asf := f s.asf } := { Beside.refl s with }
    obtain ⟨horderly, hothers⟩ := hbeside.orderly ho ht hrole hestate hchange ho.windows
    refine ⟨horderly, ⟨m.store f, rfl, ?_⟩, fun u hu => hothers u hu fun _ => ⟨rfl, rfl, rfl⟩⟩
    unfold Hand.store
    rw [hrole]
    refine hbeside.tie (m := m) ht hrole hestate rfl (fun hn => ?_) (fun hawake => ?_) fun hstill => ?_
    · split at hn
      · exact absurd rfl hn
      · next hno => exact hactive.trans (by simpa using hno)
    · split
      · exact .nothing _ _
      · exact ht.shows ((ht.asleep hrole).trans hawake)
    · obtain ⟨hstill, hclear⟩ := Bool.and_eq_true _ _ ▸ hstill
      have hunclaimed : (f v.asf).active = false := by simpa using hclear
      have hnow : (f s.asf).active = false :=
        (congrArg Piix4Asf.active ((hf.settings s.asf).trans (congrArg (fun a => (f a).settings) hasf))).trans
          hunclaimed
      rcases Bool.or_eq_true _ _ ▸ hstill with hs | hs
      · obtain ⟨hold, _⟩ := ht.still hs
        refine ⟨hf.pending _ hold.pending, ?_, hnow, (ht.requested hrole).symm.trans hold.requested⟩
        rcases hlisten with hkeep | ⟨-, -, hclaims⟩
        · exact hkeep _ hold.listening
        · exact absurd (hclaims.symm.trans hunclaimed) (by decide)
      · obtain ⟨hreq, hclears⟩ := Bool.and_eq_true _ _ ▸ hs
        obtain ⟨hpending, hlistening⟩ := Hand.clears_flags hclears hglobal
        have hno : v.requested = false := by simpa using hreq
        exact ⟨hpending, hlistening, hnow, hno⟩

/-! ## Marks and ends -/

/-- Passing a mark keeps the accounts. -/
theorem kept_mark {mk : Mark} {r : Unit} (ho : Orderly k b s) (ht : Tie k b t m s)
    (hallow : m.allows k b (.mark mk)) (he : exec b t (.mark mk) s = some (r, s')) :
    Kept k b t m (.mark mk) r s s' := by
  obtain rfl : { s with ghost := s.ghost.after s.hw mk, irq := s.irq.after mk } = s' :=
    (Prod.mk.inj (Option.some.inj he)).2
  cases mk with
  | starting =>
    obtain ⟨c, v, hrole, _⟩ := hallow
    have hl := ht.lawful ho hrole
    have hestate : St.estate b { s with ghost := { s.ghost with fenced := false } } =
        { v with fenced := false } := by
      rw [← ht.estate c v hrole]
      rfl
    exact kept_estate (fun v => { v with fenced := false }) ho ht hrole { Beside.refl s with } ⟨rfl, rfl⟩
      hestate (.of_more ho ht hrole { hl with
        delivering := fun hd => ⟨(hl.delivering hd).1, (hl.delivering hd).2.1,
          (hl.delivering hd).2.2.1, rfl⟩ } rfl rfl id rfl rfl rfl rfl) ho.windows rfl id rfl
  | stopped =>
    obtain ⟨c, v, hrole, _, _, hlawful⟩ := hallow
    have hestate : St.estate b { s with ghost := { s.ghost with fenced := true } } =
        { v with fenced := true } := by
      rw [← ht.estate c v hrole]
      rfl
    exact kept_estate (fun v => { v with fenced := true }) ho ht hrole { Beside.refl s with } ⟨rfl, rfl⟩
      hestate (.of_more ho ht hrole hlawful rfl rfl id rfl rfl rfl rfl) ho.windows rfl id rfl
  | registrationFailed =>
    obtain ⟨c, v, hrole, _⟩ := hallow
    have hl := ht.lawful ho hrole
    have hestate : St.estate b { s with ghost := { s.ghost with orphaned := true } } =
        { v with orphaned := true } := by
      rw [← ht.estate c v hrole]
      rfl
    exact kept_estate (fun v => { v with orphaned := true }) ho ht hrole { Beside.refl s with } ⟨rfl, rfl⟩
      hestate (.of_more ho ht hrole { hl with
        requested := fun hr => ⟨(hl.requested hr).1, Or.inr rfl⟩ } rfl rfl id rfl rfl rfl rfl) ho.windows
      rfl id rfl
  | bootSaved =>
    obtain ⟨c, v, hrole, hact, haux⟩ := hallow
    have hl := ht.lawful ho hrole
    have hestate : St.estate b { s with ghost := { s.ghost with boot := s.hw, orphaned := false } } =
        { v with boot := s.hw, orphaned := false } := by
      rw [← ht.estate c v hrole]
      rfl
    have hbeside : Beside s { s with ghost := { s.ghost with boot := s.hw, orphaned := false } } :=
      { Beside.refl s with }
    have hlaws : Estate.Lawful b { v with boot := s.hw, orphaned := false } := { hl with
      requested := fun hr => ⟨(hl.requested hr).1, Or.inl haux⟩
      active := fun ha => absurd (ha.symm.trans hact) (by decide)
      claimed := fun ha => absurd (ha.symm.trans hact) (by decide) }
    obtain ⟨horderly, hothers⟩ := hbeside.orderly ho ht hrole hestate
      (.of_more ho ht hrole hlaws rfl rfl id rfl rfl rfl rfl) ho.windows
    refine ⟨horderly, ⟨_, ⟨s.hw, ht.word, rfl⟩, ?_⟩,
      fun u hu => hothers u hu fun _ => ⟨rfl, rfl, rfl⟩⟩
    rw [Hand.onEstate_core hrole]
    refine hbeside.tie (m := m) (n := Seen.of s.hw) ht hrole hestate rfl (fun _ => hact) (fun _ => ?_)
      fun hs => ?_
    · exact ⟨fun x hx => Option.some.inj hx, fun x hx => Option.some.inj hx,
        fun x hx => Option.some.inj hx, nofun⟩
    · obtain ⟨hstill, _⟩ := ht.still hs
      exact { hstill with requested := (ht.requested hrole).symm.trans hstill.requested }
  | drainBegin | drainEnd | armBegin | nakExit | served | errorFlush | wedgeReset | decoded
    | transferEnd | notified =>
    refine Alike.kept { Alike.refl b s with } ho ht rfl

/-- A thread that holds nothing is given a role. -/
theorem Tie.enroll {role : Role} {active window still : Bool} (ht : Tie k b t m s) (hfree : m.Free)
    (hmutex : s'.mutex = s.mutex) (hnotify : s'.notifyMutex = s.notifyMutex)
    (hregion : s'.region = s.region) (hmuxed : s'.muxed = s.muxed)
    (haux : t ∈ s'.life.aux ↔ role = .aux) (hthread : s'.irq.running = some t ↔ role = .thread)
    (howner : s'.life.owner = some t ↔ ∃ c v, role = .core c v ∧ True)
    (hestate : ∀ c v, role = .core c v → s'.estate b = v)
    (hmain : role = .main → k.mainPort = true)
    (hactive : active = true → s'.asf.active = true ∧ role = .thread)
    (hwindow : window = true → s'.life.registered = true ∧ role = .aux)
    (hstill : still = true → s'.asf.Still s'.irq.requested ∧ ∃ c v, role = .core c v ∧ True) :
    Tie k b t { Hand.empty role with active := active, window := window, still := still } s' where
  mutex := by
    rw [hmutex, ht.mutex, hfree.asf]
    exact Iff.rfl
  notify := by
    rw [hnotify, ht.notify, hfree.notify]
    exact Iff.rfl
  region := by
    rw [hregion, ht.region, hfree.region]
    exact Iff.rfl
  pm := by
    rw [hmuxed, ht.pm, hfree.pm]
    exact Iff.rfl
  imc := by
    rw [hmuxed, ht.imc, hfree.imc]
    exact Iff.rfl
  aux := haux
  thread := hthread
  owner := howner
  estate := hestate
  main := hmain
  untouched _ h := absurd rfl h
  decodeEn _ p h := nomatch h
  due _ p h := nomatch h
  active h := ⟨(hactive h).1, Or.inr (hactive h).2⟩
  window h := ⟨(hwindow h).1, Or.inl (hwindow h).2⟩
  ok h := nomatch h
  unclaimed h := (h rfl).elim
  shows _ := .nothing _ _
  still := hstill

/-- A thread that holds nothing and has nothing to do. -/
theorem Tie.idle (ht : Tie k b t m s) (hfree : m.Free) (hmutex : s'.mutex = s.mutex)
    (hnotify : s'.notifyMutex = s.notifyMutex) (hregion : s'.region = s.region)
    (hmuxed : s'.muxed = s.muxed) (haux : t ∉ s'.life.aux) (hthread : s'.irq.running ≠ some t)
    (howner : s'.life.owner ≠ some t) : Tie k b t (Hand.empty .idle) s' :=
  ht.enroll hfree hmutex hnotify hregion hmuxed ⟨fun h => absurd h haux, fun h => nomatch h⟩
    ⟨fun h => absurd h hthread, fun h => nomatch h⟩
    ⟨fun h => absurd h howner, fun ⟨_, _, h, _⟩ => nomatch h⟩ (fun _ _ h => nomatch h)
    (fun h => nomatch h) (fun h => nomatch h) (fun h => nomatch h) (fun h => nomatch h)

/-- A thread has one role. -/
theorem Tie.notAux (ht : Tie k b t m s) (h : m.role ≠ .aux) : t ∉ s.life.aux :=
  fun hin => h (ht.aux.mp hin)

/-- Who is not the IRQ thread is not running as it. -/
theorem Tie.notThread (ht : Tie k b t m s) (h : m.role ≠ .thread) : s.irq.running ≠ some t :=
  fun hrun => h (ht.thread.mp hrun)

/-- Who is no callback owns none. -/
theorem Tie.notCore (ht : Tie k b t m s) (h : ∀ c v, m.role ≠ .core c v) : s.life.owner ≠ some t := by
  intro howner
  obtain ⟨c, v, hrole, _⟩ := ht.owner.mp howner
  exact h c v hrole

/-- The end of a transfer keeps the accounts. -/
theorem kept_transferDone {r : Unit} (ho : Orderly k b s) (ht : Tie k b t m s)
    (hallow : m.allows k b .transferDone) (he : exec b t .transferDone s = some (r, s')) :
    Kept k b t m .transferDone r s s' := by
  obtain rfl : { s with life := { s.life with aux := s.life.aux.filter (· ≠ t) } } = s' :=
    (Prod.mk.inj (Option.some.inj he)).2
  obtain ⟨hfree, hrole⟩ := hallow
  have hmem : ∀ u, u ≠ t → (u ∈ s.life.aux.filter (· ≠ t) ↔ u ∈ s.life.aux) := by
    intro u hu
    simp [hu]
  refine ⟨{ ho with lawful := ho.lawful, rest := ho.rest, aux := fun hne => ho.aux ?_ },
    ⟨Hand.empty .idle, rfl, ?_⟩, fun u hu => { Apart.refl k b u s with aux := hmem u hu }⟩
  · intro hnil
    have hnil' : s.life.aux.filter (· ≠ t) = [] := by rw [hnil]; rfl
    exact hne hnil'
  · exact ht.idle hfree rfl rfl rfl rfl (by simp) (ht.notThread (by simp [hrole]))
      (ht.notCore (by simp [hrole]))

/-- The end of the IRQ thread keeps the accounts. -/
theorem kept_irqThreadDone {r : Unit} (ho : Orderly k b s) (ht : Tie k b t m s)
    (hallow : m.allows k b .irqThreadDone) (he : exec b t .irqThreadDone s = some (r, s')) :
    Kept k b t m .irqThreadDone r s s' := by
  obtain rfl : { s with irq := { s.irq with running := none } } = s' :=
    (Prod.mk.inj (Option.some.inj he)).2
  obtain ⟨hfree, hrole⟩ := hallow
  have hrun : s.irq.running = some t := ht.thread.mpr hrole
  have hmasked : s.irq.masked = true := by simp [IrqLine.masked, hrun]
  refine ⟨{ ho with lawful := ho.lawful, rest := ho.rest, masked := fun _ => ho.masked hmasked },
    ⟨Hand.empty .idle, rfl, ?_⟩, fun u hu => { Apart.refl k b u s with thread := ?_, active := ?_, window := ?_ }⟩
  · exact ht.idle hfree rfl rfl rfl rfl (ht.notAux (by simp [hrole]))
      (Option.some_ne_none t).symm (ht.notCore (by simp [hrole]))
  · rw [hrun]
    exact ⟨(by intros; contradiction), fun h => absurd (Option.some.inj h).symm hu⟩
  · exact fun _ h => h
  · exact fun _ h => h

/-- A callback that returns leaves the estate as it is. -/
theorem estate_after (c : CoreCall) : St.estate b { s with life := s.life.after c } =
    (s.estate b).after c := by
  cases c <;> rfl

/-- The end of a callback keeps the accounts. -/
theorem kept_coreDone {r : Unit} (ho : Orderly k b s) (ht : Tie k b t m s)
    (hallow : m.allows k b (.coreDone c)) (he : exec b t (.coreDone c) s = some (r, s')) :
    Kept k b t m (.coreDone c) r s s' := by
  obtain rfl : { s with life := s.life.after c } = s' := (Prod.mk.inj (Option.some.inj he)).2
  obtain ⟨hfree, c', v, hrole, rfl, hrest, hlawful, hstill, _⟩ := hallow
  have hold := ht.estate c' v hrole
  have howner : s.life.owner = some t := ht.owner.mpr ⟨c', v, hrole, trivial⟩
  have hestate : St.estate b { s with life := s.life.after c' } = v.after c' := by
    rw [estate_after, hold]
  have hnone : (s.life.after c').owner = none := by cases c' <;> rfl
  have haux : (s.life.after c').aux = s.life.aux := by cases c' <;> rfl
  have hreg : (s.life.after c').registered = s.life.registered := by cases c' <;> rfl
  refine ⟨{ ho with
      lawful := hestate ▸ hlawful
      rest := fun _ => ⟨hestate ▸ hrest, fun hb => ?_⟩
      aux := fun hne => hreg.trans (ho.aux (haux ▸ hne))
      listening := fun hl => by
        simp only [hreg]
        exact ho.listening hl
      enabling := fun hen => by
        have henabling : (v.after c').enabling = true := (congrArg Estate.enabling hestate).symm.trans hen
        exact absurd (henabling.symm.trans hrest.enabling) (by decide)
      before := fun _ hne => absurd hnone hne }, ⟨Hand.empty .idle, rfl, ?_⟩,
    fun u hu => { Apart.refl k b u s with
      aux := by simp only [haux]
      owner := by simp only [hnone, howner]; exact ⟨nofun, fun h => absurd (Option.some.inj h).symm hu⟩
      estate := fun hu' => absurd (Option.some.inj (howner.symm.trans hu')).symm hu
      window := fun _ h => hreg.trans h }⟩
  · have hbound : (v.after c').bound = false := (congrArg Estate.bound hestate).symm.trans hb
    exact ⟨(ht.still (hstill hbound)).1.pending, (ht.still (hstill hbound)).1.listening⟩
  · refine ht.idle hfree rfl rfl rfl rfl ?_ (ht.notThread (by simp [hrole])) ?_
    · simp only [haux]
      exact ht.notAux (by simp [hrole])
    · simp only [hnone]
      exact nofun

end HostNotify
