import HostNotify.Wiring

/-!
# How the routing is kept

What events and the steps of others leave of the routing, and what an own step makes of it.
-/

namespace HostNotify

open Bits Interleaving

variable {k : Setting} {b : Board} {s s' : St} {t u : ℕ} {w : Wire}

/-! ## Steps of others -/

/-- The routing and the read pointer are as they were. -/
structure Unmoved (s s' : St) : Prop where
  lisaddr : s'.hw.lisaddr = s.hw.lisaddr
  rst : getElem s'.hw.slven 4 (fits rfl) = getElem s.hw.slven 4 (fits rfl)
  bnksel : s'.hw.bnksel = s.hw.bnksel
  ptr : ∀ q : Pointer, q.Holds s.hw → q.Holds s'.hw
  drain : s'.ghost.drain.isSome = s.ghost.drain.isSome

/-- What changes DecodeEn only moves nothing. -/
theorem Unmoved.of_hw (hhw : s'.hw = { s.hw with decodeEn := s'.hw.decodeEn })
    (hdrain : s'.ghost.drain = s.ghost.drain) : Unmoved s s' where
  lisaddr := by rw [hhw]
  rst := by rw [hhw]
  bnksel := by rw [hhw]
  ptr q hq := by
    rw [hhw]
    cases q <;> exact hq
  drain := by rw [hdrain]

/-- The read pointer stays where it is, unless it is rewound. -/
theorem Pointer.Holds.of_moved {h h' : Target}
    (hmoved : (h'.rdptr = h.rdptr ∧ h'.reading = h.reading) ∨ (h'.rdptr = 0 ∧ h'.reading = false))
    (q : Pointer) (hq : q.Holds h) : q.Holds h' := by
  rcases hmoved with ⟨hptr, hread⟩ | ⟨hptr, hread⟩
  · cases q with
    | start => exact ⟨hptr.trans hq.1, hread.trans hq.2⟩
    | within => exact fun hr => hptr.trans (hq (hread.symm.trans hr))
    | finished => exact hread.trans hq
    | lost => trivial
  · exact .of_start hptr hread q

/-- Only firmware moves the routing, while the system sleeps and nobody holds the mutex. -/
theorem react_unmoved {e : Event} (he : react k b e s = some s')
    (hsmba : s.irq.requested = true → s.asf.smba = b.auxSmba) :
    (Unmoved s s' ∧ s'.hw.decodeEn = s.hw.decodeEn) ∨
      (s.life.asleep = true ∧ (k.intrude = false → s.mutex = none ∧ s.region = none) ∧
        s'.ghost.drain = s.ghost.drain) := by
  cases e with
  | hardIrq =>
    obtain ⟨_, _, rfl | ⟨_, ⟨_, rfl⟩ | ⟨_, rfl⟩⟩⟩ := hardIrq_cases he hsmba
    · exact Or.inl ⟨.of_hw rfl rfl, rfl⟩
    · exact Or.inl ⟨⟨rfl, rfl, rfl, .of_moved (Or.inl ⟨rfl, rfl⟩), rfl⟩, rfl⟩
    · left
      cases hr : s.hw.slven[4] with
      | false =>
        rw [mask_eq_of_running hr]
        exact ⟨⟨rfl, by simp, rfl, .of_moved (Or.inl ⟨rfl, rfl⟩), rfl⟩, rfl⟩
      | true =>
        rw [mask_eq_of_reset hr]
        exact ⟨⟨rfl, by simp, rfl, .of_moved (Or.inr ⟨rfl, rfl⟩), rfl⟩, rfl⟩
  | world w =>
    simp only [react, Option.ite_none_right_eq_some, Option.some.injEq] at he
    obtain ⟨_, rfl⟩ := he
    exact Or.inl ⟨.of_hw rfl rfl, rfl⟩
  | receive i data rwptr =>
    simp only [react, Option.ite_none_right_eq_some, Option.some.injEq] at he
    obtain ⟨_, rfl⟩ := he
    refine Or.inl ⟨⟨?_, ?_, ?_, .of_moved (Or.inl ⟨?_, ?_⟩), ?_⟩, ?_⟩ <;> simp [Target.receive]
  | rxError errors signal =>
    simp only [react, Option.ite_none_right_eq_some, Option.some.injEq] at he
    obtain ⟨_, rfl⟩ := he
    exact Or.inl ⟨⟨rfl, rfl, rfl, .of_moved (Or.inl ⟨rfl, rfl⟩), rfl⟩, rfl⟩
  | stick i =>
    simp only [react, Option.ite_none_right_eq_some, Option.some.injEq] at he
    obtain ⟨_, rfl⟩ := he
    refine Or.inl ⟨⟨?_, ?_, ?_, .of_moved (Or.inl ⟨?_, ?_⟩), rfl⟩, ?_⟩ <;> simp
  | firmware h =>
    simp only [react, Option.ite_none_right_eq_some, Option.some.injEq, Bool.and_eq_true, Bool.or_eq_true,
      Option.isNone_iff_eq_none] at he
    obtain ⟨⟨⟨⟨_, hasleep⟩, hquiet⟩, _⟩, rfl⟩ := he
    refine Or.inr ⟨hasleep, fun hk => ?_, rfl⟩
    rcases hquiet with hbad | hfree
    · exact absurd (hk.symm.trans hbad) (by decide)
    · exact hfree

/-- What is known of the routing stays true. -/
theorem Lane.Shows.unmoved {d : Lane} (h : d.Shows s) (hu : Unmoved s s')
    (hlisten : s'.asf.listening = s.asf.listening) (hwant : s'.asf.wantListen = s.asf.wantListen)
    (hresume : s'.asf.resumeListen = s.asf.resumeListen) : d.Shows s' where
  draining := hu.drain.trans h.draining
  listening := hlisten.trans h.listening
  want := hwant.trans h.want
  resume := hresume.trans h.resume
  listn v hv := by
    rw [hu.lisaddr]
    exact h.listn v hv
  rst v hv := hu.rst.trans (h.rst v hv)
  dataEn v hv := by
    rw [hu.bnksel]
    exact h.dataEn v hv
  ptr := hu.ptr _ h.ptr

/-- Callbacks see the same of their own. -/
theorem charge_eq (h : s'.coreView = s.coreView) : s'.charge = s.charge := by
  have hasf : s'.asf.settings = s.asf.settings := congrArg CoreView.asf h
  have henabling : s'.life.enabling = s.life.enabling := congrArg CoreView.enabling h
  have hasleep : s'.life.asleep = s.life.asleep := congrArg CoreView.asleep h
  unfold St.charge
  rw [hasf, henabling, hasleep]

/-- An office is held while the lists it is on stay as they are. -/
theorem Office.Held.congr {o : Office} (h : o.Held t s) (haux : s'.life.aux = s.life.aux)
    (hrunning : s'.irq.running = s.irq.running) (howner : s'.life.owner = s.life.owner)
    (hcharge : s'.charge = s.charge) : o.Held t s' := by
  cases o with
  | idle => trivial
  | main => trivial
  | aux =>
    change t ∈ s'.life.aux
    rw [haux]
    exact h
  | thread => exact hrunning.trans h
  | core c v => exact ⟨howner.trans h.1, hcharge.trans h.2⟩

/-- A step of somebody else falsifies no account. -/
theorem Wire.Fits.rely (h : w.Fits u s) (hinv : Inv k b s) (hk : k.intrude = false)
    (hr : Rely k b u s s')
    (hresume : w.lane ≠ none → s'.asf.resumeListen = s.asf.resumeListen) : w.Fits u s' := by
  have hkeeps := hr.keeps hinv
  have hlane : ∀ d, w.lane = some d → s'.engaged = true ∧ Unmoved s s' ∧
      s'.asf.listening = s.asf.listening ∧ s'.asf.wantListen = s.asf.wantListen := by
    intro d hd
    obtain ⟨hm, hengaged, _⟩ := h.lane d hd
    rcases hr with ⟨e, he⟩ | hf
    · have hframe := react_frame he hinv.smba
      refine ⟨?_, ?_, by rw [hframe.asf], by rw [hframe.asf]⟩
      · unfold St.engaged at hengaged ⊢
        rw [hframe.asf, hframe.life]
        exact hengaged
      · rcases react_unmoved he hinv.smba with ⟨hu, _⟩ | ⟨_, hquiet, _⟩
        · exact hu
        · cases (hquiet hk).1.symm.trans (h.mutex hm)
    · have hblock := hf.block (h.mutex hm) hengaged
      exact ⟨hblock.engaged.trans hengaged, .of_hw hblock.hw hblock.drain, hblock.listening, hblock.want⟩
  exact {
    office := by
      have hold := h.office
      cases hrole : w.office with
      | idle => trivial
      | main => trivial
      | aux =>
        rw [hrole] at hold
        exact hkeeps.aux hold
      | thread =>
        rw [hrole] at hold
        exact (hkeeps.thread hold).1
      | core c v =>
        rw [hrole] at hold
        obtain ⟨howner, hview⟩ := hkeeps.owner hold.1
        exact ⟨howner, (charge_eq hview).trans hold.2⟩
    mutex := fun hm => by
      rcases hr with ⟨e, he⟩ | hf
      · exact (react_frame he hinv.smba).mutex.trans (h.mutex hm)
      · exact hf.holder (h.mutex hm)
    lane := fun d hd => by
      obtain ⟨hengaged, hu, hlisten, hwant⟩ := hlane d hd
      obtain ⟨hm, _, hshows⟩ := h.lane d hd
      exact ⟨hm, hengaged, hshows.unmoved hu hlisten hwant (hresume (by simp [hd]))⟩
    region := fun m hm => by
      obtain ⟨hregion, hmstr⟩ := h.region m hm
      rcases hr with ⟨e, he⟩ | hf
      · refine ⟨(react_frame he hinv.smba).region.trans hregion, fun v hv => ?_⟩
        rcases react_unmoved he hinv.smba with ⟨_, hdec⟩ | ⟨_, hquiet, _⟩
        · rw [hdec]
          exact hmstr v hv
        · cases (hquiet hk).2.symm.trans hregion
      · obtain ⟨hregion', hdec, _⟩ := hf.region hregion
        refine ⟨hregion', fun v hv => ?_⟩
        rw [hdec]
        exact hmstr v hv
    unclaimed := fun hun => by
      obtain ⟨hrole, hactive⟩ := h.unclaimed hun
      have hold := h.office
      rw [hrole] at hold
      exact ⟨hrole, hkeeps.plain hold hactive⟩ }

/-- While the mutex is free, a slave that listens is wanted. -/
theorem Inv.wanted (h : Inv k b s) (hfree : s.mutex = none) (hlisten : s.asf.listening = true) :
    s.asf.wantListen = true := by
  have hactive : s.asf.active = true := by
    by_contra hnot
    exact absurd (hlisten.symm.trans (h.inactive ((Bool.not_eq_true _).mp hnot)).2) (by decide)
  obtain ⟨c, hsettled, hview⟩ := h.idle hfree hactive
  exact hview.want.trans (hsettled.want (hview.listening.symm.trans hlisten))

/-- While the system sleeps and the mutex is free, the slave is not listening. -/
theorem Inv.silent (h : Inv k b s) (hasleep : s.life.asleep = true) (hfree : s.mutex = none) :
    s.asf.listening = false := by
  cases hlisten : s.asf.listening with
  | false => rfl
  | true => exact absurd ((h.wanted hfree hlisten).symm.trans (h.asleep hasleep)) (by decide)

/-- Events keep the routing. -/
theorem Wired.react {e : Event} (h : Wired s) (hinv : Inv k b s) (he : react k b e s = some s') : Wired s' := by
  have hframe := react_frame he hinv.smba
  have hactive : s'.asf.active = s.asf.active := by rw [hframe.asf]
  rcases react_unmoved he hinv.smba with ⟨hu, _⟩ | ⟨hasleep, hquiet, hdrain⟩
  · have hdrain : s.ghost.drain = none → s'.ghost.drain = none := fun hnone => by
      rw [← Option.not_isSome_iff_eq_none, hu.drain, hnone]
      decide
    exact {
      listening := fun hm hl => by
        rw [hframe.mutex] at hm
        rw [hframe.asf] at hl
        obtain ⟨hdata, hptr⟩ := h.listening hm hl
        rw [hu.bnksel]
        exact ⟨hdata, hu.ptr _ hptr⟩
      drained := fun hm => hdrain (h.drained (hframe.mutex ▸ hm))
      vacant := fun hv => hdrain (h.vacant (hactive ▸ hv))
      rewound := fun hm ha hr => by
        rw [hframe.mutex] at hm
        rw [hframe.asf] at ha hr
        exact hu.ptr _ (h.rewound hm ha hr)
      pledged := fun hs ha => by
        rw [hframe.life] at hs
        rw [hframe.asf] at ha ⊢
        exact h.pledged hs ha }
  · exact {
      listening := fun hm hl => by
        rw [hframe.mutex] at hm
        rw [hframe.asf] at hl
        exact absurd (hl.symm.trans (hinv.silent hasleep hm)) (by decide)
      drained := fun hm => hdrain.trans (h.drained (hframe.mutex ▸ hm))
      vacant := fun hv => hdrain.trans (h.vacant (hactive ▸ hv))
      rewound := fun _ ha hr => by
        rw [hframe.asf] at ha hr
        exact absurd (hr.symm.trans (h.pledged hasleep ha)) (by decide)
      pledged := fun hs ha => by
        rw [hframe.life] at hs
        rw [hframe.asf] at ha ⊢
        exact h.pledged hs ha }

/-! ## Own steps that concern something else -/

/-- The states do not differ as far as the accounts can tell. -/
structure Indistinct (s s' : St) : Prop where
  hw : s'.hw = s.hw
  mutex : s'.mutex = s.mutex
  region : s'.region = s.region
  owner : s'.life.owner = s.life.owner
  charge : s'.charge = s.charge
  aux : s'.life.aux = s.life.aux
  running : s'.irq.running = s.irq.running
  drain : s'.ghost.drain = s.ghost.drain
  listening : s'.asf.listening = s.asf.listening

namespace Indistinct

/-- A state is indistinct from itself. -/
theorem refl (s : St) : Indistinct s s := ⟨rfl, rfl, rfl, rfl, rfl, rfl, rfl, rfl, rfl⟩

variable (h : Indistinct s s')
include h

/-- An indistinct state is as active. -/
theorem active : s'.asf.active = s.asf.active := congrArg (fun v => v.asf.active) h.charge

/-- An indistinct state has as much laid aside. -/
theorem resume : s'.asf.resumeListen = s.asf.resumeListen := congrArg (fun v => v.asf.resumeListen) h.charge

/-- An indistinct state wants as much. -/
theorem want : s'.asf.wantListen = s.asf.wantListen := congrArg (fun v => v.asf.wantListen) h.charge

/-- An indistinct state is as much asleep. -/
theorem asleep : s'.life.asleep = s.life.asleep := congrArg Charge.asleep h.charge

/-- An indistinct state is as much engaged. -/
theorem engaged : s'.engaged = s.engaged := congrArg Charge.engaged h.charge

/-- An indistinct state is wired. -/
theorem wired (hw : Wired s) : Wired s' where
  listening hm hl := by
    rw [h.hw]
    exact hw.listening (h.mutex ▸ hm) (h.listening ▸ hl)
  drained hm := h.drain.trans (hw.drained (h.mutex ▸ hm))
  vacant hv := h.drain.trans (hw.vacant (h.active ▸ hv))
  rewound hm ha hr := by
    rw [h.hw]
    exact hw.rewound (h.mutex ▸ hm) (h.active ▸ ha) (h.resume ▸ hr)
  pledged hs ha := h.resume.trans (hw.pledged (h.asleep ▸ hs) (h.active ▸ ha))

/-- A lane that shows a state shows one that is indistinct from it. -/
theorem shows {d : Lane} (hd : d.Shows s) : d.Shows s' where
  draining := by
    rw [h.drain]
    exact hd.draining
  listening := h.listening.trans hd.listening
  want := h.want.trans hd.want
  resume := h.resume.trans hd.resume
  listn := by
    rw [h.hw]
    exact hd.listn
  rst := by
    rw [h.hw]
    exact hd.rst
  dataEn := by
    rw [h.hw]
    exact hd.dataEn
  ptr := by
    rw [h.hw]
    exact hd.ptr

/-- An account that fits a state fits one that is indistinct from it. -/
theorem fits (hw : w.Fits t s) : w.Fits t s' where
  office := hw.office.congr h.aux h.running h.owner h.charge
  mutex hm := h.mutex.trans (hw.mutex hm)
  lane d hd := by
    obtain ⟨hm, hengaged, hshows⟩ := hw.lane d hd
    exact ⟨hm, h.engaged.trans hengaged, h.shows hshows⟩
  region m hm := by
    rw [h.hw]
    exact ⟨h.region.trans (hw.region m hm).1, (hw.region m hm).2⟩
  unclaimed hun := ⟨(hw.unclaimed hun).1, h.active.trans (hw.unclaimed hun).2⟩

end Indistinct

/-- The operation touches neither the routing nor what the accounts say. -/
def Op.Offside (b : Board) : Op → Prop
  | .inb port => decode b.auxSmba port ≠ some .index
  | .outb _ port => ∀ r, decode b.auxSmba port = some r → r = .index
  | .iowrite32 _ | .iowrite8 _ _ | .setAsf _ | .lock .asf | .unlock .asf | .requestMemRegionMuxed
  | .releaseMemRegion | .mark .drainBegin | .mark (.drainEnd _) | .transferDone | .irqThreadDone
  | .coreDone _ => False
  | _ => True

/-- Such an operation leaves a state that the accounts cannot tell apart. -/
theorem Op.Offside.exec {o : Op} {r : o.Ans} (ho : o.Offside b) (he : exec b t o s = some (r, s')) :
    Indistinct s s' := by
  cases o with
  | inb port =>
    have hread : s.portRead b port = (r, s') := Option.some.inj he
    cases hport : decode b.auxSmba port with
    | none =>
      rw [St.portRead_host s hport] at hread
      obtain ⟨_, rfl⟩ := Prod.mk.inj hread
      exact .refl s
    | some reg =>
      rw [St.portRead_reg s hport] at hread
      obtain ⟨_, rfl⟩ := Prod.mk.inj hread
      cases reg with
      | index => exact absurd hport ho
      | _ => exact .refl s
  | outb v port =>
    have hwrite : s.portWrite b t v port = s' := (Prod.mk.inj (Option.some.inj he)).2
    cases hport : decode b.auxSmba port with
    | none =>
      rw [St.portWrite_host s t v hport] at hwrite
      exact hwrite ▸ .refl s
    | some reg =>
      obtain rfl := ho reg hport
      rw [St.portWrite_reg s t v hport] at hwrite
      exact hwrite ▸ .refl s
  | lock l =>
    cases l with
    | asf => exact ho.elim
    | notify =>
      obtain ⟨_, rfl⟩ := exec_lock he
      exact ⟨rfl, rfl, rfl, rfl, rfl, rfl, rfl, rfl, rfl⟩
  | unlock l =>
    cases l with
    | asf => exact ho.elim
    | notify =>
      cases he
      exact ⟨rfl, rfl, rfl, rfl, rfl, rfl, rfl, rfl, rfl⟩
  | requestMuxedRegion start len =>
    simp only [HostNotify.exec] at he
    split at he
    · cases he
    · split at he <;> cases he <;> exact ⟨rfl, rfl, rfl, rfl, rfl, rfl, rfl, rfl, rfl⟩
  | requestRegion start len =>
    simp only [HostNotify.exec] at he
    split at he <;> cases he <;> exact ⟨rfl, rfl, rfl, rfl, rfl, rfl, rfl, rfl, rfl⟩
  | freeIrq =>
    simp only [HostNotify.exec] at he
    split at he
    · cases he
    · cases he
      exact ⟨rfl, rfl, rfl, rfl, rfl, rfl, rfl, rfl, rfl⟩
  | i2cAddAdapter algo =>
    cases he
    have hlife : (if s.world.addAnswer = 0 then { s.life with registered := true, asfAlgo := algo }
        else s.life).owner = s.life.owner ∧
        (if s.world.addAnswer = 0 then { s.life with registered := true, asfAlgo := algo }
        else s.life).enabling = s.life.enabling ∧
        (if s.world.addAnswer = 0 then { s.life with registered := true, asfAlgo := algo }
        else s.life).asleep = s.life.asleep ∧
        (if s.world.addAnswer = 0 then { s.life with registered := true, asfAlgo := algo }
        else s.life).aux = s.life.aux := by
      split <;> exact ⟨rfl, rfl, rfl, rfl⟩
    obtain ⟨howner, henabling, hasleep, haux⟩ := hlife
    refine ⟨rfl, rfl, rfl, howner, ?_, haux, rfl, rfl, rfl⟩
    simp only [St.charge, henabling, hasleep]
  | i2cDelAdapter =>
    simp only [HostNotify.exec] at he
    split at he
    · cases he
      exact ⟨rfl, rfl, rfl, rfl, rfl, rfl, rfl, rfl, rfl⟩
    · cases he
  | mark m =>
    cases he
    cases m with
    | drainBegin => exact ho.elim
    | drainEnd => exact ho.elim
    | _ => exact ⟨rfl, rfl, rfl, rfl, rfl, rfl, rfl, rfl, rfl⟩
  | iowrite32 | iowrite8 | setAsf | requestMemRegionMuxed | releaseMemRegion | transferDone
  | irqThreadDone | coreDone => exact ho.elim
  | _ =>
    cases he
    exact ⟨rfl, rfl, rfl, rfl, rfl, rfl, rfl, rfl, rfl⟩

/-! ## Own steps -/

/-- What an own step makes of the routing and of the own account. -/
structure Routed (b : Board) (t : ℕ) (w : Wire) (o : Op) (r : o.Ans) (s' : St) : Prop where
  wired : Wired s'
  fits : ∃ w', w.moves b o r w' ∧ w'.Fits t s'

/-- With the mutex held, only a drain in an unclaimed block or a broken pledge could do harm. -/
theorem Wired.of_held (hm : s'.mutex = some t) (hvacant : s'.asf.active = false → s'.ghost.drain = none)
    (hpledged : s'.life.asleep = true → s'.asf.active = true → s'.asf.resumeListen = true) : Wired s' where
  listening hnone := by cases hnone.symm.trans hm
  drained hnone := by cases hnone.symm.trans hm
  vacant := hvacant
  rewound hnone := by cases hnone.symm.trans hm
  pledged := hpledged

/-- A step to an indistinct state is routed. -/
theorem Indistinct.routed {o : Op} {r : o.Ans} (h : Indistinct s s') (hwired : Wired s) (hfits : w.Fits t s)
    (hmove : w.moves b o r w) : Routed b t w o r s' :=
  ⟨h.wired hwired, w, hmove, h.fits hfits⟩

section Ports

/-- A port write outside the shared port changes the block alone. -/
theorem Ghost.afterWrite_drain (g : Ghost) (h : Target) (x : Byte) (r : Reg) :
    (g.afterWrite t h x r).drain = g.drain := by
  cases r with
  | slven =>
    simp only [Ghost.afterWrite]
    split <;> rfl
  | _ => rfl

/-- What a write makes of the read pointer. -/
theorem Pointer.Holds.write {h : Target} {d : Lane} (v : Byte) (r : Reg) (hd : d.ptr.Holds h) :
    (d.write v r).ptr.Holds (h.write v r) := by
  cases r with
  | slven =>
    simp only [Lane.write, Target.write]
    split
    · exact .of_start rfl rfl _
    · exact Pointer.Holds.of_moved (h := h) (Or.inl ⟨rfl, rfl⟩) d.ptr hd
  | bnksel =>
    simp only [Lane.write, Target.write, Target.clearFlags]
    cases hflag : v.getLsbD 2 || v.getLsbD 3 with
    | false =>
      simp only [Bool.not_false, Bool.and_true, Bool.false_eq_true, if_false]
      exact .of_moved (h := h) (Or.inl ⟨rfl, rfl⟩) d.ptr hd
    | true =>
      cases hptr : d.ptr with
      | start =>
        rw [hptr] at hd
        refine ⟨hd.1, ?_⟩
        simp
      | _ =>
        change (h.reading && !true) = false
        simp
  | setrdptr =>
    simp only [Lane.write, Target.write]
    split
    · next hv =>
      subst hv
      cases hptr : d.ptr with
      | start =>
        rw [hptr] at hd
        exact ⟨rfl, hd.2⟩
      | finished =>
        rw [hptr] at hd
        exact ⟨rfl, hd⟩
      | within => exact fun _ => rfl
      | lost => exact fun _ => rfl
    · trivial
  | _ => exact Pointer.Holds.of_moved (h := h) (Or.inl ⟨rfl, rfl⟩) d.ptr hd

/-- What a write makes of the routing. -/
theorem Lane.Shows.write {d : Lane} (h : d.Shows s) (v : Byte) (r : Reg) :
    (d.write v r).Shows { s with hw := s.hw.write v r, ghost := s.ghost.afterWrite t s.hw v r } := by
  have hptr := Pointer.Holds.write (d := d) v r h.ptr
  have hdrain : (s.ghost.afterWrite t s.hw v r).drain.isSome = d.draining := by
    rw [Ghost.afterWrite_drain]
    exact h.draining
  cases r with
  | lisaddr => exact ⟨hdrain, h.listening, h.want, h.resume, fun x hx => Option.some.inj hx, h.rst, h.dataEn, hptr⟩
  | slven =>
    have hwrite : (s.hw.write v .slven).lisaddr = s.hw.lisaddr ∧ (s.hw.write v .slven).slven = v ∧
        (s.hw.write v .slven).bnksel = s.hw.bnksel := by
      simp only [Target.write]
      split <;> exact ⟨rfl, rfl, rfl⟩
    refine ⟨hdrain, h.listening, h.want, h.resume, fun x hx => ?_, fun x hx => ?_, fun x hx => ?_, hptr⟩
    · dsimp only
      rw [hwrite.1]
      exact h.listn x hx
    · dsimp only
      rw [hwrite.2.1]
      exact Option.some.inj hx
    · dsimp only
      rw [hwrite.2.2]
      exact h.dataEn x hx
  | bnksel =>
    refine ⟨hdrain, h.listening, h.want, h.resume, h.listn, h.rst, fun x hx => ?_, hptr⟩
    refine Eq.trans ?_ (Option.some.inj hx)
    simp [Target.write, asfBnkFull]
  | _ => exact ⟨hdrain, h.listening, h.want, h.resume, h.listn, h.rst, h.dataEn, hptr⟩

/-- A write of a port is routed. -/
theorem routed_outb {v : Byte} {port : ℕ} {r : Unit} (hwired : Wired s) (hfits : w.Fits t s)
    (hallow : w.MayWrite b port) (he : exec b t (.outb v port) s = some (r, s')) :
    Routed b t w (.outb v port) r s' := by
  have hwrite : s.portWrite b t v port = s' := (Prod.mk.inj (Option.some.inj he)).2
  cases hport : decode b.auxSmba port with
  | none =>
    have hmove : w.moves b (.outb v port) r w := by
      change w = w.written b v port
      unfold Wire.written
      rw [hport]
    refine Indistinct.routed (Op.Offside.exec (o := .outb v port) ?_ he) hwired hfits hmove
    exact fun reg hreg => by cases hport.symm.trans hreg
  | some reg =>
    rw [St.portWrite_reg s t v hport] at hwrite
    have hmove : w.moves b (.outb v port) r (w.onLane fun d => d.write v reg) := by
      change _ = w.written b v port
      unfold Wire.written
      rw [hport]
    have hfits' : (w.onLane fun d => d.write v reg).Fits t s' := by
      subst hwrite
      exact {
        office := hfits.office.congr rfl rfl rfl rfl
        mutex := hfits.mutex
        lane := fun d' hd' => by
          obtain ⟨d, hd, rfl⟩ := Option.map_eq_some_iff.mp hd'
          obtain ⟨hm, hengaged, hshows⟩ := hfits.lane d hd
          exact ⟨hm, hengaged, hshows.write v reg⟩
        region := fun m hm => by
          refine ⟨(hfits.region m hm).1, fun x hx => ?_⟩
          dsimp only
          rw [Target.write_decodeEn]
          exact (hfits.region m hm).2 x hx
        unclaimed := hfits.unclaimed }
    refine ⟨?_, _, hmove, hfits'⟩
    by_cases hreg : reg = .index
    · subst hreg
      subst hwrite
      exact Indistinct.wired (s := s) ⟨rfl, rfl, rfl, rfl, rfl, rfl, rfl, rfl, rfl⟩ hwired
    · have hm := hfits.mutex (hallow.other reg hport hreg)
      subst hwrite
      refine .of_held hm (fun hv => ?_) hwired.pledged
      dsimp only
      rw [Ghost.afterWrite_drain]
      exact hwired.vacant hv

/-- A read of a port is routed. -/
theorem routed_inb {port : ℕ} {r : Byte} (hinv : Inv k b s) (hwired : Wired s) (hfits : w.Fits t s)
    (hallow : w.MayRead b port) (he : exec b t (.inb port) s = some (r, s')) :
    Routed b t w (.inb port) r s' := by
  by_cases hindex : decode b.auxSmba port = some .index
  · have hread : s.portRead b port = (r, s') := Option.some.inj he
    rw [St.portRead_reg s hindex] at hread
    obtain ⟨rfl, rfl⟩ := Prod.mk.inj hread
    obtain ⟨hlis, hsl, hbnk, hdec⟩ := Target.read_frame s.hw s.world.bus .index
    have hfinds : w.Finds b port (s.hw.read s.world.bus .index).1 := by
      constructor
      · intro h
        cases hindex.symm.trans h
      · intro h
        cases hindex.symm.trans h
    have hpeek : ∀ d, w.lane = some d → d.peek.Shows { s with hw := (s.hw.read s.world.bus .index).2 } := by
      intro d hd
      obtain ⟨_, _, hshows⟩ := hfits.lane d hd
      have hside : d.dataEn = some false ∨ d.dataEn = some true := by
        rcases hallow.index hindex with ⟨d', hd', hdrains⟩ | ⟨⟨d', hd', hmaster⟩, _⟩ | ⟨_, hnone⟩
        · obtain rfl := Option.some.inj (hd.symm.trans hd')
          exact Or.inl hdrains.dataEn
        · obtain rfl := Option.some.inj (hd.symm.trans hd')
          exact Or.inr hmaster.dataEn
        · cases hd.symm.trans hnone
      have hregs : ∀ q : Pointer, q.Holds (s.hw.read s.world.bus .index).2 →
          Lane.Shows { d with ptr := q } { s with hw := (s.hw.read s.world.bus .index).2 } := by
        intro q hq
        refine ⟨hshows.draining, hshows.listening, hshows.want, hshows.resume,
          fun v hv => ?_, fun v hv => ?_, fun v hv => ?_, hq⟩
        · dsimp only
          rw [hlis]
          exact hshows.listn v hv
        · dsimp only
          rw [hsl]
          exact hshows.rst v hv
        · dsimp only
          rw [hbnk]
          exact hshows.dataEn v hv
      unfold Lane.peek
      rcases hside with hslave | hmaster
      · rw [if_pos hslave]
        refine hregs _ fun hidle => ?_
        have hrouted : s.hw.bnksel.getLsbD 7 = false := hshows.dataEn _ hslave
        rw [Target.read, if_neg (by rw [hrouted]; decide)] at hidle
        cases hidle
      · rw [if_neg (by rw [hmaster]; decide)]
        refine hregs d.ptr ?_
        have hrouted : s.hw.bnksel.getLsbD 7 = true := hshows.dataEn _ hmaster
        rw [Target.read, if_pos hrouted]
        exact hshows.ptr
    refine ⟨?_, w.onLane Lane.peek, ⟨hfinds, by rw [if_pos hindex]⟩, ?_⟩
    · rcases hallow.index hindex with ⟨d, hd, _⟩ | ⟨⟨d, hd, _⟩, _⟩ | ⟨hun, _⟩
      · exact .of_held (hfits.mutex (hfits.lane d hd).1) hwired.vacant hwired.pledged
      · exact .of_held (hfits.mutex (hfits.lane d hd).1) hwired.vacant hwired.pledged
      · obtain ⟨_, hactive⟩ := hfits.unclaimed hun
        exact {
          listening := fun _ hl => absurd (hl.symm.trans (hinv.inactive hactive).2) (by decide)
          drained := hwired.drained
          vacant := hwired.vacant
          rewound := fun _ ha => absurd (ha.symm.trans hactive) (by decide)
          pledged := hwired.pledged }
    · exact {
        office := hfits.office.congr rfl rfl rfl rfl
        mutex := hfits.mutex
        lane := fun d' hd' => by
          obtain ⟨d, hd, rfl⟩ := Option.map_eq_some_iff.mp hd'
          obtain ⟨hm, hengaged, _⟩ := hfits.lane d hd
          exact ⟨hm, hengaged, hpeek d hd⟩
        region := fun m hm => by
          refine ⟨(hfits.region m hm).1, fun x hx => ?_⟩
          dsimp only
          rw [hdec]
          exact (hfits.region m hm).2 x hx
        unclaimed := hfits.unclaimed }
  · refine (Op.Offside.exec (o := .inb port) hindex he).routed hwired hfits ⟨?_, by rw [if_neg hindex]⟩
    have hread : s.portRead b port = (r, s') := Option.some.inj he
    refine ⟨fun hport d hd v hv => ?_, fun hport d hd v hv => ?_⟩
    · rw [St.portRead_reg s hport] at hread
      obtain ⟨rfl, _⟩ := Prod.mk.inj hread
      exact (hfits.lane d hd).2.2.rst v hv
    · rw [St.portRead_reg s hport] at hread
      obtain ⟨rfl, _⟩ := Prod.mk.inj hread
      refine Eq.trans ?_ ((hfits.lane d hd).2.2.dataEn v hv)
      simp [Target.read, Target.bnkselValue]

end Ports

section Regions

/-- The knowledge of the region changes. -/
theorem Wire.Fits.setRegion {m : Option (Option Bool)} (h : w.Fits t s) (hhw : Unmoved s s')
    (hmutex : s'.mutex = s.mutex) (hlife : s'.life = s.life) (hirq : s'.irq = s.irq) (hasf : s'.asf = s.asf)
    (hregion : ∀ x, m = some x → s'.region = some t ∧
      ∀ v, x = some v → getElem s'.hw.decodeEn 16 (fits rfl) = v) :
    Wire.Fits t { w with region := m } s' where
  office := by
    refine h.office.congr ?_ ?_ ?_ ?_
    · rw [hlife]
    · rw [hirq]
    · rw [hlife]
    · unfold St.charge
      rw [hasf, hlife]
  mutex hm := hmutex.trans (h.mutex hm)
  lane d hd := by
    obtain ⟨hm, hengaged, hshows⟩ := h.lane d hd
    refine ⟨hm, ?_, hshows.unmoved hhw (by rw [hasf]) (by rw [hasf]) (by rw [hasf])⟩
    unfold St.engaged at hengaged ⊢
    rw [hasf, hlife]
    exact hengaged
  region := hregion
  unclaimed hun := by
    rw [hasf]
    exact h.unclaimed hun

/-- States with the same routing and the same flags are wired alike. -/
theorem Wired.unmoved (h : Wired s) (hhw : Unmoved s s') (hmutex : s'.mutex = s.mutex)
    (hlife : s'.life = s.life) (hasf : s'.asf = s.asf) : Wired s' := by
  have hdrain : s.ghost.drain = none → s'.ghost.drain = none := fun hnone => by
    rw [← Option.not_isSome_iff_eq_none, hhw.drain, hnone]
    decide
  exact {
    listening := fun hm hl => by
      obtain ⟨hdata, hptr⟩ := h.listening (hmutex ▸ hm) (hasf ▸ hl)
      rw [hhw.bnksel]
      exact ⟨hdata, hhw.ptr _ hptr⟩
    drained := fun hm => hdrain (h.drained (hmutex ▸ hm))
    vacant := fun hv => hdrain (h.vacant (hasf ▸ hv))
    rewound := fun hm ha hr => hhw.ptr _ (h.rewound (hmutex ▸ hm) (hasf ▸ ha) (hasf ▸ hr))
    pledged := fun hs ha => by
      rw [hasf] at ha ⊢
      exact h.pledged (hlife ▸ hs) ha }

/-- A write of DecodeEn is routed. -/
theorem routed_iowrite32 {d : BitVec 32} {r : Unit} (hwired : Wired s) (hfits : w.Fits t s)
    (he : exec b t (.iowrite32 d) s = some (r, s')) : Routed b t w (.iowrite32 d) r s' := by
  cases he
  have hhw : Unmoved s (s.writeDecodeEn d) := .of_hw rfl rfl
  refine ⟨hwired.unmoved hhw rfl rfl rfl, _, rfl, hfits.setRegion hhw rfl rfl rfl rfl fun x hx => ?_⟩
  obtain ⟨m, hm, rfl⟩ := Option.map_eq_some_iff.mp hx
  exact ⟨(hfits.region m hm).1, fun v hv => Option.some.inj hv⟩

/-- A write of one byte of DecodeEn is routed. -/
theorem routed_iowrite8 {v : Byte} {offset : ℕ} {r : Unit} (hwired : Wired s) (hfits : w.Fits t s)
    (he : exec b t (.iowrite8 v offset) s = some (r, s')) : Routed b t w (.iowrite8 v offset) r s' := by
  cases he
  have hhw : Unmoved s { s with hw := { s.hw with decodeEn := setPmByte s.hw.decodeEn v offset } } :=
    .of_hw rfl rfl
  refine ⟨hwired.unmoved hhw rfl rfl rfl, _, rfl, hfits.setRegion hhw rfl rfl rfl rfl fun x hx => ?_⟩
  obtain ⟨m, hm, rfl⟩ := Option.map_eq_some_iff.mp hx
  exact ⟨(hfits.region m hm).1, fun v hv => nomatch hv⟩

/-- Asking for the region is routed. -/
theorem routed_requestMemRegionMuxed {r : Bool} (hwired : Wired s) (hfits : w.Fits t s)
    (he : exec b t .requestMemRegionMuxed s = some (r, s')) : Routed b t w .requestMemRegionMuxed r s' := by
  simp only [exec] at he
  split at he
  · cases he
  · split at he
    · obtain ⟨rfl, rfl⟩ := Prod.mk.inj (Option.some.inj he)
      have hsame : Indistinct s (s.answer t false) := ⟨rfl, rfl, rfl, rfl, rfl, rfl, rfl, rfl, rfl⟩
      exact hsame.routed hwired hfits rfl
    · obtain ⟨rfl, rfl⟩ := Prod.mk.inj (Option.some.inj he)
      have hhw : Unmoved s { s with region := some t, ghost := { s.ghost with touched := false } } :=
        .of_hw rfl rfl
      refine ⟨hwired.unmoved hhw rfl rfl rfl, _, rfl, hfits.setRegion hhw rfl rfl rfl rfl fun x hx => ?_⟩
      obtain rfl := Option.some.inj hx
      exact ⟨rfl, fun v hv => by cases hv⟩

/-- Giving the region up is routed. -/
theorem routed_releaseMemRegion {r : Unit} (hwired : Wired s) (hfits : w.Fits t s)
    (he : exec b t .releaseMemRegion s = some (r, s')) : Routed b t w .releaseMemRegion r s' := by
  cases he
  have hhw : Unmoved s { s with region := none } := .of_hw rfl rfl
  exact ⟨hwired.unmoved hhw rfl rfl rfl, _, rfl, hfits.setRegion hhw rfl rfl rfl rfl fun x hx => nomatch hx⟩

end Regions

end HostNotify
