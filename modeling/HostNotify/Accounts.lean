import HostNotify.Holdings
import HostNotify.View

/-!
# True accounts

`Tie` says that the account of a thread is true, `Orderly` what holds of the shared state at
all times, and `Apart` what a step of somebody else leaves alone.
-/

namespace HostNotify

open Bits Interleaving

variable {k : Setting} {b : Board} {s s' : St} {t u : ℕ} {m m' : Hand}

/-- DecodeEn as the firmware left it, with the mode bits that the driver wrote last. -/
def Ghost.due (g : Ghost) : BitVec 32 := assignBit asfClkEn (assignBit asfMstrEn g.firmware g.wrote.1) g.wrote.2

/-- The mode bits of DecodeEn. -/
def Target.modes (h : Target) : Bool × Bool := (h.decodeEn.getLsbD 16, h.decodeEn.getLsbD 17)

/-- What is left of the block while it is unclaimed and the system awake. -/
structure Seen.Shows (n : Seen) (h : Target) (touched : Bool) : Prop where
  lisaddr : ∀ v, n.lisaddr = some v → h.lisaddr = v
  slven : ∀ v, n.slven = some v → h.slven = v
  bnksel : ∀ v, n.bnksel = some v → h.bnksel &&& ~~~asfBnkFull = v
  modes : ∀ v, n.modes = some v → touched = false ∧ h.modes = v

/-- Having seen nothing is true of any block. -/
theorem Seen.Shows.nothing (h : Target) (touched : Bool) : Seen.nothing.Shows h touched :=
  ⟨nofun, nofun, nofun, nofun⟩

/-- The block is unclaimed, and both flags that others change are clear. -/
structure Piix4Asf.Still (a : Piix4Asf) (requested : Bool) : Prop where
  pending : a.pending = false
  listening : a.listening = false
  active : a.active = false
  requested : requested = false

/-- The account `m` of thread `u` is true. -/
structure Tie (k : Setting) (b : Board) (u : ℕ) (m : Hand) (s : St) : Prop where
  mutex : s.mutex = some u ↔ m.asf = true
  notify : s.notifyMutex = some u ↔ m.notify = true
  region : s.region = some u ↔ m.region ≠ none
  pm : s.muxed 0xcd6 = some u ↔ m.pm = true
  imc : s.muxed imcIdx = some u ↔ m.imc = true
  aux : u ∈ s.life.aux ↔ m.role = .aux
  thread : s.irq.running = some u ↔ m.role = .thread
  owner : s.life.owner = some u ↔ m.Owns fun _ _ => True
  estate : ∀ c v, m.role = .core c v → s.estate b = v
  main : m.role = .main → k.mainPort = true
  untouched : m.Firm k → m.region ≠ none → s.ghost.touched = false
  decodeEn : s.ghost.touched = false → ∀ p, m.region = some p → s.hw.decodeEn = p.1
  due : k.Spares → ∀ p, m.region = some p → s.ghost.due = p.2
  active : m.active = true →
    s.asf.active = true ∧ ((m.asf = true ∧ m.role = .aux) ∨ m.role = .thread)
  window : m.window = true → s.life.registered = true ∧ (m.role = .aux ∨ m.role = .thread)
  ok : m.ok = true → s.deliverOk = true ∧ m.notify = true ∧ (m.role = .aux ∨ m.role = .thread)
  unclaimed : m.seen ≠ Seen.nothing → s.asf.active = false ∧ m.Owns fun _ _ => True
  shows : s.life.asleep = false → m.seen.Shows s.hw s.ghost.touched
  still : m.still = true → s.asf.Still s.irq.requested ∧ m.Owns fun _ _ => True

/-- The bits of DecodeEn that agree with the driver's intent at all times. -/
def Setting.Fixed (k : Setting) (j : ℕ) : Prop := k.mainPort = false ∨ (j ≠ 19 ∧ j ≠ 20)

/-- What holds of the shared state at all times. -/
structure Orderly (k : Setting) (b : Board) (s : St) : Prop where
  lawful : (s.estate b).Lawful b
  rest : s.life.owner = none → (s.estate b).Rest ∧
    (s.life.bound = false → s.asf.pending = false ∧ s.asf.listening = false)
  aux : s.life.aux ≠ [] → s.life.registered = true
  listening : s.asf.listening = true → s.life.registered = true ∨ s.irq.requested = false
  enabling : s.life.enabling = true → s.asf.listening = false
  masked : s.irq.masked = true → s.irq.requested = true
  windows : ∀ w ∈ s.windows, w = b.auxWindow ∨ w = b.asfWindow
  released : k.Spares → s.region = none → s.hw.decodeEn = s.ghost.due
  decodeEn : k.Spares → ∀ j, (hj : j < 32) → k.Fixed j →
    s.hw.decodeEn[j] = s.ghost.due[j]
  before : k.Spares → s.life.owner ≠ none → s.life.asleep = false →
    ∀ j, (hj : j < 32) → k.Fixed j → j ≠ 16 → j ≠ 17 → s.ghost.before[j] = s.ghost.firmware[j]

/-- What a step of somebody else leaves alone, as thread `u` sees it. -/
structure Apart (k : Setting) (b : Board) (u : ℕ) (s s' : St) : Prop where
  mutex : s'.mutex = some u ↔ s.mutex = some u
  notify : s'.notifyMutex = some u ↔ s.notifyMutex = some u
  region : s'.region = some u ↔ s.region = some u
  pm : s'.muxed 0xcd6 = some u ↔ s.muxed 0xcd6 = some u
  imc : s'.muxed imcIdx = some u ↔ s.muxed imcIdx = some u
  aux : u ∈ s'.life.aux ↔ u ∈ s.life.aux
  thread : s'.irq.running = some u ↔ s.irq.running = some u
  owner : s'.life.owner = some u ↔ s.life.owner = some u
  estate : s.life.owner = some u → s'.estate b = s.estate b
  untouched : s.region = some u → k.Spares ∨ (s.life.owner = some u ∧ s.life.asleep = false) →
    s.ghost.touched = false → s'.ghost.touched = false
  decodeEn : s.region = some u → s'.ghost.touched = false →
    s.ghost.touched = false ∧ s'.hw.decodeEn = s.hw.decodeEn
  due : k.Spares → s.region = some u → s'.ghost.due = s.ghost.due
  active : s.mutex = some u ∨ s.irq.running = some u → s.asf.active = true → s'.asf.active = true
  window : u ∈ s.life.aux ∨ s.irq.running = some u → s.life.registered = true →
    s'.life.registered = true
  ok : s.notifyMutex = some u → s.deliverOk = true → s'.deliverOk = true
  shows : s.life.owner = some u → s.asf.active = false → s.life.asleep = false →
    s'.hw.lisaddr = s.hw.lisaddr ∧ s'.hw.slven = s.hw.slven ∧ s'.hw.bnksel = s.hw.bnksel ∧
      (s.ghost.touched = false → s'.ghost.touched = false ∧ s'.hw.modes = s.hw.modes)
  still : s.life.owner = some u → s.asf.Still s.irq.requested → s'.asf.pending = false ∧ s'.asf.listening = false

/-- A step that changes nothing keeps apart. -/
theorem Apart.refl (k : Setting) (b : Board) (u : ℕ) (s : St) : Apart k b u s s where
  mutex := Iff.rfl
  notify := Iff.rfl
  region := Iff.rfl
  pm := Iff.rfl
  imc := Iff.rfl
  aux := Iff.rfl
  thread := Iff.rfl
  owner := Iff.rfl
  estate _ := rfl
  untouched _ _ h := h
  decodeEn _ h := ⟨h, rfl⟩
  due _ _ := rfl
  active _ h := h
  window _ h := h
  ok _ h := h
  shows _ _ _ := ⟨rfl, rfl, rfl, fun h => ⟨h, rfl⟩⟩
  still _ h := ⟨h.pending, h.listening⟩

/-- The laws are those of the callbacks' estate. -/
theorem Tie.asleep {c : CoreCall} {v : Estate} (h : Tie k b u m s) (hm : m.role = .core c v) :
    s.life.asleep = v.asleep := congrArg Estate.asleep (h.estate c v hm)

/-- The estate of a callback says whether the IRQ is requested. -/
theorem Tie.requested {c : CoreCall} {v : Estate} (h : Tie k b u m s) (hm : m.role = .core c v) :
    s.irq.requested = v.requested := congrArg Estate.requested (h.estate c v hm)

/-- The estate of a callback says whether the block is claimed. -/
theorem Tie.claimed {c : CoreCall} {v : Estate} (h : Tie k b u m s) (hm : m.role = .core c v) :
    s.asf.active = v.asf.active := congrArg (fun e => e.asf.active) (h.estate c v hm)

/-- A step of somebody else falsifies no account. -/
theorem Tie.apart (h : Tie k b u m s) (ha : Apart k b u s s') : Tie k b u m s' := by
  have hcore : m.Owns (fun _ _ => True) → s.life.owner = some u := h.owner.mpr
  have hestate : m.Owns (fun _ _ => True) → s'.estate b = s.estate b := fun hm => ha.estate (hcore hm)
  exact {
    mutex := ha.mutex.trans h.mutex
    notify := ha.notify.trans h.notify
    region := ha.region.trans h.region
    pm := ha.pm.trans h.pm
    imc := ha.imc.trans h.imc
    aux := ha.aux.trans h.aux
    thread := ha.thread.trans h.thread
    owner := ha.owner.trans h.owner
    estate := fun c v hm => (hestate ⟨c, v, hm, trivial⟩).trans (h.estate c v hm)
    main := h.main
    untouched := fun hfirm hheld => by
      refine ha.untouched (h.region.mpr hheld) (hfirm.imp_right ?_) (h.untouched hfirm hheld)
      rintro ⟨c, v, hrole, hawake⟩
      exact ⟨hcore ⟨c, v, hrole, trivial⟩, (h.asleep hrole).trans hawake⟩
    decodeEn := fun htouched p hp => by
      obtain ⟨hold, hd⟩ := ha.decodeEn (h.region.mpr (by simp [hp])) htouched
      exact hd.trans (h.decodeEn hold p hp)
    due := fun hk p hp => (ha.due hk (h.region.mpr (by simp [hp]))).trans (h.due hk p hp)
    active := fun hm => by
      obtain ⟨hact, hwho⟩ := h.active hm
      exact ⟨ha.active (hwho.imp (fun hm => h.mutex.mpr hm.1) h.thread.mpr) hact, hwho⟩
    window := fun hm => by
      obtain ⟨hreg, hwho⟩ := h.window hm
      exact ⟨ha.window (hwho.imp h.aux.mpr h.thread.mpr) hreg, hwho⟩
    ok := fun hm => by
      obtain ⟨hok, hn⟩ := h.ok hm
      exact ⟨ha.ok (h.notify.mpr hn.1) hok, hn⟩
    unclaimed := fun hm => by
      obtain ⟨hact, hwho⟩ := h.unclaimed hm
      have hsame := congrArg (fun e => e.asf.active) (hestate hwho)
      exact ⟨hsame.trans hact, hwho⟩
    shows := fun hawake => by
      by_cases hm : m.seen = Seen.nothing
      · rw [hm]
        exact ⟨nofun, nofun, nofun, nofun⟩
      · obtain ⟨hact, hwho⟩ := h.unclaimed hm
        have hsleep := congrArg Estate.asleep (hestate hwho)
        have hawake' : s.life.asleep = false := hsleep.symm.trans hawake
        obtain ⟨hlis, hsl, hbnk, hmodes⟩ := ha.shows (hcore hwho) hact hawake'
        have hold := h.shows hawake'
        refine ⟨fun v hv => hlis.trans (hold.lisaddr v hv), fun v hv => hsl.trans (hold.slven v hv),
          fun v hv => by rw [hbnk]; exact hold.bnksel v hv, fun v hv => ?_⟩
        obtain ⟨huntouched, hbits⟩ := hold.modes v hv
        exact (hmodes huntouched).imp_right fun hsame => hsame.trans hbits
    still := fun hm => by
      obtain ⟨hstill, hwho⟩ := h.still hm
      obtain ⟨hpending, hlistening⟩ := ha.still (hcore hwho) hstill
      have hrequested := congrArg Estate.requested (hestate hwho)
      have hactive := congrArg (fun e => e.asf.active) (hestate hwho)
      exact ⟨⟨hpending, hlistening, hactive.trans hstill.active, hrequested.trans hstill.requested⟩, hwho⟩ }

/-- Two states that the laws cannot tell apart: they differ in the target block at most. -/
structure Level (b : Board) (s s' : St) : Prop where
  mutex : s'.mutex = s.mutex
  notify : s'.notifyMutex = s.notifyMutex
  region : s'.region = s.region
  muxed : s'.muxed = s.muxed
  aux : s'.life.aux = s.life.aux
  thread : s'.irq.running = s.irq.running
  owner : s'.life.owner = s.life.owner
  estate : s'.estate b = s.estate b
  windows : s'.windows = s.windows
  masked : s'.irq.masked = true → s.irq.masked = true
  pending : s.asf.pending = false → s'.asf.pending = false
  listening : s'.asf.listening = true → s.asf.listening = true ∨
    (s.life.registered = true ∧ s.asf.active = true)
  decodeEn : s'.hw.decodeEn = s.hw.decodeEn
  touched : s'.ghost.touched = s.ghost.touched
  firmware : s'.ghost.firmware = s.ghost.firmware
  wrote : s'.ghost.wrote = s.ghost.wrote
  before : s'.ghost.before = s.ghost.before

namespace Level

/-- A state is level with itself. -/
theorem refl (b : Board) (s : St) : Level b s s :=
  ⟨rfl, rfl, rfl, rfl, rfl, rfl, rfl, rfl, rfl, id, id, Or.inl, rfl, rfl, rfl, rfl, rfl⟩

/-- Level states owe the same bits of DecodeEn. -/
theorem due (h : Level b s s') : s'.ghost.due = s.ghost.due := by
  unfold Ghost.due
  rw [h.firmware, h.wrote]

/-- Level states have the adapter registered alike. -/
theorem registered (h : Level b s s') : s'.life.registered = s.life.registered :=
  congrArg Estate.registered h.estate

/-- Level states have the IRQ requested alike. -/
theorem requested (h : Level b s s') : s'.irq.requested = s.irq.requested :=
  congrArg Estate.requested h.estate

/-- Level states are alike asleep. -/
theorem asleep (h : Level b s s') : s'.life.asleep = s.life.asleep :=
  congrArg Estate.asleep h.estate

/-- Level states are alike bound. -/
theorem bound (h : Level b s s') : s'.life.bound = s.life.bound :=
  congrArg Estate.bound h.estate

/-- Level states have the block claimed alike. -/
theorem active (h : Level b s s') : s'.asf.active = s.asf.active :=
  congrArg (fun e => e.asf.active) h.estate

/-- Level states have seen the same modes. -/
theorem modes (h : Level b s s') : s'.hw.modes = s.hw.modes := by
  simp only [Target.modes, h.decodeEn]

/-- Level states permit delivery alike. -/
theorem deliverOk (h : Level b s s') : s'.deliverOk = s.deliverOk :=
  congrArg Estate.deliverOk h.estate

/-- Nobody listens at an unclaimed block. -/
theorem silent (h : Level b s s') (hactive : s.asf.active = false) (hl : s.asf.listening = false) :
    s'.asf.listening = false := by
  by_contra hnow
  rcases h.listening (Bool.not_eq_false _ ▸ hnow) with hold | ⟨-, hclaimed⟩
  · exact absurd (hold.symm.trans hl) (by decide)
  · exact absurd (hclaimed.symm.trans hactive) (by decide)

/-- What is level with an orderly state is orderly. -/
theorem orderly (h : Level b s s') (ho : Orderly k b s) : Orderly k b s' where
  lawful := h.estate ▸ ho.lawful
  rest hnone := by
    obtain ⟨hrest, hpend⟩ := ho.rest (h.owner ▸ hnone)
    refine ⟨h.estate ▸ hrest, fun hb => ?_⟩
    have hbound : s.life.bound = false := h.bound ▸ hb
    have hactive : s.asf.active = false := congrArg Piix4Asf.active (hrest.fresh hbound)
    exact ⟨h.pending (hpend hbound).1, h.silent hactive (hpend hbound).2⟩
  aux hne := h.registered.trans (ho.aux (h.aux ▸ hne))
  listening hl := by
    rw [h.registered, h.requested]
    rcases h.listening hl with hold | hreg
    · exact ho.listening hold
    · exact Or.inl hreg.1
  enabling hen := by
    have henabling : s.life.enabling = true := (congrArg Estate.enabling h.estate).symm.trans hen
    by_contra hl
    rcases h.listening (Bool.not_eq_false _ ▸ hl) with hold | ⟨hreg, -⟩
    · exact absurd (hold.symm.trans (ho.enabling henabling)) (by decide)
    · exact absurd (hreg.symm.trans (ho.lawful.enabling henabling)) (by decide)
  masked hm := h.requested.trans (ho.masked (h.masked hm))
  windows w hw := ho.windows w (h.windows ▸ hw)
  released hk hnone := by
    rw [h.decodeEn, h.due]
    exact ho.released hk (h.region ▸ hnone)
  decodeEn hk j hj hf := by
    simp only [h.decodeEn, h.due]
    exact ho.decodeEn hk j hj hf
  before hk hne hawake j hj hf h16 h17 := by
    simp only [h.before, h.firmware]
    exact ho.before hk (h.owner ▸ hne) (h.asleep ▸ hawake) j hj hf h16 h17

/-- To see no difference, a callback must find the block's control registers unchanged while
it knows them. -/
theorem apart (h : Level b s s') (hshows : s.life.owner = some u → s.asf.active = false →
    s'.hw.lisaddr = s.hw.lisaddr ∧ s'.hw.slven = s.hw.slven ∧ s'.hw.bnksel = s.hw.bnksel) :
    Apart k b u s s' where
  mutex := by rw [h.mutex]
  notify := by rw [h.notify]
  region := by rw [h.region]
  pm := by rw [h.muxed]
  imc := by rw [h.muxed]
  aux := by rw [h.aux]
  thread := by rw [h.thread]
  owner := by rw [h.owner]
  estate _ := h.estate
  untouched _ _ := h.touched.trans
  decodeEn _ htouched := ⟨h.touched.symm.trans htouched, h.decodeEn⟩
  due _ _ := h.due
  active _ := h.active.trans
  window _ := h.registered.trans
  ok _ := h.deliverOk.trans
  shows howner hact _ := by
    obtain ⟨hlis, hsl, hbnk⟩ := hshows howner hact
    exact ⟨hlis, hsl, hbnk, fun htouched => ⟨h.touched.trans htouched, h.modes⟩⟩
  still _ hstill := ⟨h.pending hstill.pending, h.silent hstill.active hstill.listening⟩

end Level

/-- In the own step, what has been seen of the block is to be shown anew. -/
theorem Tie.level {n : Seen} (h : Tie k b t m s) (hl : Level b s s')
    (hunclaimed : n ≠ Seen.nothing → s.asf.active = false ∧ m.Owns fun _ _ => True)
    (hshows : s.life.asleep = false → n.Shows s'.hw s'.ghost.touched) : Tie k b t { m with seen := n } s' where
  mutex := by rw [hl.mutex]; exact h.mutex
  notify := by rw [hl.notify]; exact h.notify
  region := by rw [hl.region]; exact h.region
  pm := by rw [hl.muxed]; exact h.pm
  imc := by rw [hl.muxed]; exact h.imc
  aux := by rw [hl.aux]; exact h.aux
  thread := by rw [hl.thread]; exact h.thread
  owner := by rw [hl.owner]; exact h.owner
  estate c v hm := hl.estate.trans (h.estate c v hm)
  main := h.main
  untouched hfirm hheld := hl.touched.trans (h.untouched hfirm hheld)
  decodeEn htouched p hp := hl.decodeEn.trans (h.decodeEn (hl.touched.symm.trans htouched) p hp)
  due hk p hp := hl.due.trans (h.due hk p hp)
  active hm := ⟨hl.active.trans (h.active hm).1, (h.active hm).2⟩
  window hm := ⟨hl.registered.trans (h.window hm).1, (h.window hm).2⟩
  ok hm := ⟨hl.deliverOk.trans (h.ok hm).1, (h.ok hm).2⟩
  unclaimed hm := ⟨hl.active.trans (hunclaimed hm).1, (hunclaimed hm).2⟩
  shows hawake := hshows (hl.asleep.symm.trans hawake)
  still hm := by
    obtain ⟨hstill, hwho⟩ := h.still hm
    exact ⟨⟨hl.pending hstill.pending, hl.silent hstill.active hstill.listening,
      hl.active.trans hstill.active, hl.requested.trans hstill.requested⟩, hwho⟩

/-- Two states that the accounts cannot tell apart either. -/
structure Alike (b : Board) (s s' : St) : Prop extends Level b s s' where
  lisaddr : s'.hw.lisaddr = s.hw.lisaddr
  slven : s'.hw.slven = s.hw.slven
  bnksel : s'.hw.bnksel = s.hw.bnksel

/-- A state is like itself. -/
theorem Alike.refl (b : Board) (s : St) : Alike b s s := ⟨.refl b s, rfl, rfl, rfl⟩

/-- Likeness keeps every thread apart. -/
theorem Alike.apart (h : Alike b s s') (u : ℕ) : Apart k b u s s' :=
  h.toLevel.apart fun _ _ => ⟨h.lisaddr, h.slven, h.bnksel⟩

end HostNotify
