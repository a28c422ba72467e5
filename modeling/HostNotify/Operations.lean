import HostNotify.Ports

/-!
# Other operations under the mutex

DecodeEn under the FCH PM region, the region itself, the flags of the driver's global,
and operations that only ask the rest of the system a question.
-/

namespace HostNotify

open Bits Interleaving

variable {k : Setting} {b : Board} {c : Control} {s s' : St} {t : ℕ} {call : Call}
  {Q : St → Prop}

/-- An operation that changes nothing keeps every stable assertion. -/
theorem idle_op {o : Op} {P : St → Prop} {F : o.Ans → Prop} (hP : (rules k b call t).Stable P)
    (hcheck : ∀ s, Check k b call o s)
    (hidle : ∀ s r s', Inv k b s → P s → k.admits call o s = true →
      exec b t o s = some (r, s') → s' = s ∧ F r) :
    Triple (rules k b call t) P (perform o) fun r s => F r ∧ P s := by
  refine own_op (fun r => (Discipline.Stable.const _).and hP) fun s hs hPs hmay => ?_
  refine ⟨hcheck s, fun r s' he => ?_⟩
  obtain ⟨rfl, hfact⟩ := hidle s r s' hs hPs hmay he
  exact ⟨OwnStep.refl _, hfact, hPs⟩

/-- An operation that changes nothing, with an answer that does not matter. -/
theorem idle_op' {o : Op} {P : St → Prop} (hP : (rules k b call t).Stable P)
    (hcheck : ∀ s, Check k b call o s)
    (hidle : ∀ s r s', exec b t o s = some (r, s') → s' = s) :
    Triple (rules k b call t) P (perform o) fun _ => P :=
  Triple.post (idle_op (F := fun _ => True) hP hcheck
    fun s r s' _ _ _ he => ⟨hidle s r s' he, trivial⟩) fun _ _ _ h => h.2

/-- Reading the driver's global. -/
theorem asf_spec {P : St → Prop} {F : Piix4Asf → Prop} (hP : (rules k b call t).Stable P)
    (hfact : ∀ s, Inv k b s → P s → F s.asf) :
    Triple (rules k b call t) P piix4Asf fun a s => F a ∧ P s :=
  idle_op hP (fun _ => .of_other (by simp) (by simp)) fun s r s' hs hPs _ he => by
    simp only [exec, Option.some.injEq, Prod.mk.injEq] at he
    obtain ⟨rfl, rfl⟩ := he
    exact ⟨rfl, hfact _ hs hPs⟩

/-! ## Host registers -/

/-- Reading a port that is not the slave's changes nothing. -/
theorem inb_host_spec {P : St → Prop} {port : ℕ} (hP : (rules k b call t).Stable P)
    (hport : decode b.auxSmba port = none) :
    Triple (rules k b call t) P (inb port) fun _ => P :=
  idle_op' hP (fun _ => .of_other (by simp) (by simp)) fun s r s' he => by
    simp only [exec, St.portRead_host s hport, Option.some.injEq, Prod.mk.injEq] at he
    exact he.2.symm

/-- Writing a port that is not the slave's changes nothing that is known. -/
theorem outb_host_spec {P : St → Prop} {port : ℕ} (v : Byte) (hP : (rules k b call t).Stable P)
    (hport : decode b.auxSmba port = none) :
    Triple (rules k b call t) P (outb v port) fun _ => P :=
  idle_op' hP (fun _ => .of_port (by simp [hport]) (by simp [hport])) fun s r s' he => by
    simp only [exec, St.portWrite_host s t v hport, Option.some.injEq, Prod.mk.injEq] at he
    exact he.2.symm

/-- Changing a bit of such a port changes nothing that is known. -/
theorem updateHost_spec {P : St → Prop} {port : ℕ} (bitno : ℕ) (set : Bool)
    (hP : (rules k b call t).Stable P) (hport : decode b.auxSmba port = none) :
    Triple (rules k b call t) P (piix4AsfUpdateIoport bitno port set) fun _ => P :=
  Triple.bind (inb_host_spec hP hport) fun _ => outb_host_spec _ hP hport

/-! ## DecodeEn and the region -/

section Region

variable (hQ : Private t Q)
include hQ

/-- DecodeEn reads as the account says. -/
theorem ioread32_spec :
    Triple (rules k b call t) (Holds k t c Q) ioread32 fun d s =>
      (k.firmware = false ∨ c.want = true →
        (∀ v, c.mstr = some v → getElem d 16 (fits rfl) = v) ∧
          ∀ v, c.clk = some v → getElem d 17 (fits rfl) = v) ∧ Holds k t c Q s :=
  idle_op (stable_holds hQ) (fun _ => .of_other (by simp) (by simp)) fun s r s' _ hP _ he => by
    simp only [exec, Option.some.injEq, Prod.mk.injEq] at he
    obtain ⟨rfl, rfl⟩ := he
    exact ⟨rfl, fun hk => ⟨fun v hv => ((hP.1.sees hk).regs.mstr v hv).2,
      fun v hv => ((hP.1.sees hk).regs.clk v hv).2⟩⟩

/-- Writing DecodeEn while holding the region. -/
theorem iowrite32_spec (d : BitVec 32) {mstr clk : Option Bool} (hheld : c.held = true)
    (hbits : k.firmware = false ∨ c.want = true →
      (∀ v, mstr = some v → getElem d 16 (fits rfl) = v) ∧ ∀ v, clk = some v → getElem d 17 (fits rfl) = v) :
    Triple (rules k b call t) (Holds k t c Q) (iowrite32 d)
      fun _ => Holds k t { c with mstr := mstr, clk := clk } Q := by
  refine own_op (fun _ => stable_holds hQ) fun s _ hP _ => ?_
  refine ⟨.of_other (by simp) (by simp), fun _ s' he => ?_⟩
  simp only [exec, Option.some.injEq, Prod.mk.injEq] at he
  obtain ⟨_, rfl⟩ := he
  have hregion := hP.1.held hheld
  have hown : OwnStep k t s (s.writeDecodeEn d) := {
    life := rfl
    irq := rfl
    asf := rfl
    world := rfl
    deliverOk := rfl
    auxAdapter := rfl
    owed := fun _ _ => rfl
    region := fun u hu hr => absurd (Option.some.inj (hr.symm.trans hregion)) hu
    mutex := rfl
    block := Or.inl hP.1.holder
    listening := fun hl => Or.inr hl
    pending := id
    sound := fun h => ⟨h.errorless, fun i => by cases i <;> exact h.unstuck _⟩
    intact := fun _ h => h.congr (fun i => by cases i <;> rfl) rfl rfl rfl h.reset }
  refine ⟨hown, ?_, hQ _ _ (hown.keeps rfl) hP.2⟩
  exact {
    holder := hP.1.holder
    engaged := hP.1.engaged
    listening := hP.1.listening
    want := hP.1.want
    held := hP.1.held
    fresh := hP.1.fresh
    sees := fun hk => (hP.1.sees hk).write_decodeEn (hP.1.fresh hheld hk) (hbits hk).1 (hbits hk).2 }

/-- `ASF_MSTR_EN` is changed in DecodeEn. -/
theorem updateMstr_spec (set : Bool) (hheld : c.held = true) :
    Triple (rules k b call t) (Holds k t c Q) (piix4AsfUpdateMmio asfMstrEn set)
      fun _ => Holds k t (c.setMstr set) Q := by
  refine Triple.bind (ioread32_spec hQ) fun d => Triple.pure_pre fun hd => ?_
  refine iowrite32_spec hQ (assignBit asfMstrEn d set) hheld fun hk => ⟨fun v hv => ?_,
    fun v hv => ?_⟩
  · obtain rfl := Option.some.inj hv
    simp
  · simpa using (hd hk).2 v hv

/-- `ASF_CLK_EN` is changed in DecodeEn. -/
theorem updateClk_spec (set : Bool) (hheld : c.held = true) :
    Triple (rules k b call t) (Holds k t c Q) (piix4AsfUpdateMmio asfClkEn set)
      fun _ => Holds k t (c.setClk set) Q := by
  refine Triple.bind (ioread32_spec hQ) fun d => Triple.pure_pre fun hd => ?_
  refine iowrite32_spec hQ (assignBit asfClkEn d set) hheld fun hk => ⟨fun v hv => ?_,
    fun v hv => ?_⟩
  · simpa using (hd hk).1 v hv
  · obtain rfl := Option.some.inj hv
    simp

end Region

/-- The state after thread `t` got the region. -/
def St.acquire (s : St) (t : ℕ) : St :=
  { s with region := some t, ghost := { s.ghost with touched := false } }

/-- Taking or giving up the region is an own step. -/
theorem OwnStep.setRegion {r : Option ℕ} {touched : Bool}
    (hfree : s.region = none ∨ s.region = some t) (htouched : touched = true → s.ghost.touched = true) :
    OwnStep k t s { s with region := r, ghost := { s.ghost with touched := touched } } where
  life := rfl
  irq := rfl
  asf := rfl
  world := rfl
  deliverOk := rfl
  auxAdapter := rfl
  owed _ _ := rfl
  region u hu hr := by
    rcases hfree with hnone | hown
    · simp [hnone] at hr
    · exact absurd (Option.some.inj (hr.symm.trans hown)) hu
  mutex := rfl
  block := Or.inr (Or.inr ⟨rfl, fun h => ⟨by
    cases touched with
    | false => rfl
    | true => exact absurd ((htouched rfl).symm.trans h) (by decide), rfl, rfl⟩, rfl, rfl, rfl, rfl,
    rfl, rfl, rfl, rfl, rfl, rfl⟩)
  listening hl := Or.inr hl
  pending := id
  sound h := ⟨h.errorless, h.unstuck⟩
  intact _ h := h.congr (fun _ => rfl) rfl rfl rfl h.reset

/-- The holder gives up the region. -/
theorem releaseMemRegion_spec {P P' : St → Prop} (hP : (rules k b call t).Stable P)
    (hregion : ∀ s, P' s → s.region = some t)
    (hrelease : ∀ s, P' s → P { s with region := none }) :
    Triple (rules k b call t) P' (perform .releaseMemRegion) fun _ => P := by
  refine own_op (fun _ => hP) fun s _ hPs _ => ⟨.of_other (by simp) (by simp), fun _ s' he => ?_⟩
  simp only [exec, Option.some.injEq, Prod.mk.injEq] at he
  obtain ⟨_, rfl⟩ := he
  exact ⟨.setRegion (Or.inr (hregion s hPs)) id, hrelease s hPs⟩

/-- The state with other I/O regions, GSI and answer to the latest region request. -/
def St.setHoldings (s : St) (windows : List (ℕ × ℕ)) (muxed : ℕ → Option ℕ)
    (gsiHeld granted : Bool) : St :=
  { s with windows := windows, muxed := muxed, gsiHeld := gsiHeld, granted := granted }

section Holdings

variable (windows : List (ℕ × ℕ)) (muxed : ℕ → Option ℕ) (gsiHeld granted : Bool)

/-- These are nobody else's business. -/
theorem OwnStep.holdings : OwnStep k t s (s.setHoldings windows muxed gsiHeld granted) where
  life := rfl
  irq := rfl
  asf := rfl
  world := rfl
  deliverOk := rfl
  auxAdapter := rfl
  owed _ _ := rfl
  region _ _ h := ⟨h, rfl, rfl⟩
  mutex := rfl
  block := Or.inr (Or.inr ⟨rfl, fun h => ⟨h, rfl, rfl⟩, rfl, rfl, rfl, rfl, rfl, rfl, rfl, rfl, rfl,
    rfl⟩)
  listening hl := Or.inr hl
  pending := id
  sound h := ⟨h.errorless, h.unstuck⟩
  intact _ h := h.congr (fun _ => rfl) rfl rfl rfl h.reset

/-- An assertion that holds under interference does not depend on them. -/
theorem setHoldings_of_stable {P : St → Prop} (hP : (rules k b call t).Stable P)
    (hs : Inv k b s) (h : P s) : P (s.setHoldings windows muxed gsiHeld granted) := by
  have hother : OwnStep k (t + 1) s (s.setHoldings windows muxed gsiHeld granted) := .holdings ..
  exact hP _ _ hs h (Or.inr (hother.foreign (Nat.ne_of_lt t.lt_succ_self))) (hother.inv hs)

end Holdings

/-- `piix4_sb800_region_request` over MMIO: either it returns zero and the region is ours, or
it fails, which it does not where the setting makes `sure`. -/
theorem regionRequest_spec {P P' : St → Prop} {sure : Prop} (hP : (rules k b call t).Stable P)
    (hP' : (rules k b call t).Stable P')
    (hacquire : ∀ s, P s → s.region = none → P' (s.acquire t))
    (hregion : ∀ s, P' s → s.region = some t)
    (hrelease : ∀ s, P' s → P { s with region := none })
    (hbusy : sure → ∀ s, Inv k b s → P s → k.admits call .requestMemRegionMuxed s = true →
      s.world.regionBusy = false)
    (hremap : sure → ∀ s, Inv k b s → P' s → k.admits call .ioremap s = true →
      s.world.ioremapFails = false) :
    Triple (rules k b call t) P (piix4Sb800RegionRequest true) fun r s =>
      (r = 0 ∧ P' s) ∨ (r ≠ 0 ∧ ¬ sure ∧ P s) := by
  have hrequest : Triple (rules k b call t) P (perform .requestMemRegionMuxed) fun ok s =>
      (ok = true ∧ P' s) ∨ (ok = false ∧ ¬ sure ∧ P s) := by
    refine own_op (fun ok => ?_) fun s hs hPs hmay => ?_
    · intro s s' hs h hr hs'
      rcases h with ⟨hok, h⟩ | ⟨hok, hsure, h⟩
      · exact Or.inl ⟨hok, hP' s s' hs h hr hs'⟩
      · exact Or.inr ⟨hok, hsure, hP s s' hs h hr hs'⟩
    · refine ⟨.of_other (by simp) (by simp), fun ok s' he => ?_⟩
      simp only [exec] at he
      split at he
      · cases he
      · next hfree =>
        have hnone : s.region = none := by simpa using hfree
        split at he
        · next hbusyNow =>
          simp only [Option.some.injEq, Prod.mk.injEq] at he
          obtain ⟨rfl, rfl⟩ := he
          refine ⟨.holdings .., Or.inr ⟨rfl, fun hsure => ?_, setHoldings_of_stable _ _ _ _ hP hs hPs⟩⟩
          exact absurd (hbusyNow.symm.trans (hbusy hsure _ hs hPs hmay)) (by decide)
        · simp only [Option.some.injEq, Prod.mk.injEq] at he
          obtain ⟨rfl, rfl⟩ := he
          exact ⟨.setRegion (Or.inl hnone) (fun h => by cases h), Or.inl ⟨rfl, hacquire _ hPs hnone⟩⟩
  have hmap : Triple (rules k b call t) P' (perform .ioremap) fun ok s =>
      (sure → ok = true) ∧ P' s := by
    refine own_op (fun ok => (Discipline.Stable.const _).and hP') fun s hs hPs hmay => ?_
    refine ⟨.of_other (by simp) (by simp), fun ok s' he => ?_⟩
    simp only [exec, Option.some.injEq, Prod.mk.injEq] at he
    obtain ⟨rfl, rfl⟩ := he
    refine ⟨.holdings .., fun hsure => ?_, setHoldings_of_stable _ _ _ _ hP' hs hPs⟩
    rw [hremap hsure _ hs hPs hmay]
    rfl
  unfold piix4Sb800RegionRequest
  refine Triple.bind hrequest fun ok => ?_
  cases ok with
  | false =>
    refine Triple.ret fun s _ h => Or.inr ⟨by decide, ?_⟩
    rcases h with ⟨hok, _⟩ | ⟨_, h⟩
    · cases hok
    · exact h
  | true =>
    refine Triple.pre (P := P') ?_ fun s _ h => ?_
    · refine Triple.bind hmap fun mapped => Triple.pure_pre fun hmapped => ?_
      cases mapped with
      | false =>
        refine Triple.bind (releaseMemRegion_spec hP hregion hrelease) fun _ => ?_
        exact Triple.ret fun s _ h => Or.inr
          ⟨by decide, fun hsure => absurd (hmapped hsure) (by decide), h⟩
      | true => exact Triple.ret fun s _ h => Or.inl ⟨rfl, h⟩
    · rcases h with ⟨_, h⟩ | ⟨hok, _⟩
      · exact h
      · cases hok

/-! ## The region while holding the mutex -/

/-- What a thread knows of the block after the region has changed hands. -/
theorem View.setRegion (h : View k (some t) c s) {held touched : Bool} {r : Option ℕ}
    (hr : held = true → r = some t ∧ touched = false)
    (htouched : touched = true → s.ghost.touched = true) :
    View k (some t) (c.setHeld held)
      { s with region := r, ghost := { s.ghost with touched := touched } } where
  holder := h.holder
  engaged := h.engaged
  listening := h.listening
  want := h.want
  held hh := (hr hh).1
  fresh hh _ := (hr hh).2
  sees hk := by
    have hsees := h.sees hk
    have hclear : s.ghost.touched = false → touched = false := by
      cases touched with
      | false => exact fun _ => rfl
      | true => exact fun hno => absurd ((htouched rfl).symm.trans hno) (by decide)
    exact {
      regs := ⟨hsees.regs.lisaddr, hsees.regs.rst, hsees.regs.dataEn,
        fun v hv => ⟨hclear (hsees.regs.mstr v hv).1, (hsees.regs.mstr v hv).2⟩,
        fun v hv => ⟨hclear (hsees.regs.clk v hv).1, (hsees.regs.clk v hv).2⟩, hsees.regs.intrOn,
        hsees.regs.intrOff⟩
      record := ⟨hsees.record.debt, hsees.record.flushed, hsees.record.erred,
        hsees.record.resetting⟩
      signalled := hsees.signalled
      empty := hsees.empty
      kept := hsees.kept
      calm := fun hc => ⟨(hsees.calm hc).rdptr, (hsees.calm hc).reading, (hsees.calm hc).got⟩ }

/-- The region is nothing a thread knows of by itself. -/
theorem keeps_setRegion {r : Option ℕ} {touched : Bool} :
    Keeps t s { s with region := r, ghost := { s.ghost with touched := touched } } where
  owed := rfl
  owner ho := ⟨ho, rfl⟩
  thread hr := ⟨hr, rfl⟩
  quiet _ h := h
  aux := id
  plain _ h := h

/-- Requesting the region under the mutex. -/
theorem holdsRequest_spec {sure : Prop} (hQ : Private t Q) (hheld : c.held = false)
    (hbusy : sure → ∀ s, Inv k b s → Holds k t c Q s →
      k.admits call .requestMemRegionMuxed s = true → s.world.regionBusy = false)
    (hremap : sure → ∀ s, Inv k b s → Holds k t (c.setHeld true) Q s →
      k.admits call .ioremap s = true → s.world.ioremapFails = false) :
    Triple (rules k b call t) (Holds k t c Q) (piix4Sb800RegionRequest true) fun r s =>
      (r = 0 ∧ Holds k t (c.setHeld true) Q s) ∨ (r ≠ 0 ∧ ¬ sure ∧ Holds k t c Q s) := by
  refine regionRequest_spec (stable_holds hQ) (stable_holds hQ)
    (fun s h _ => ⟨h.1.setRegion (fun _ => ⟨rfl, rfl⟩) (fun h => by cases h),
      hQ _ _ keeps_setRegion h.2⟩)
    (fun s h => h.1.held rfl) (fun s h => ⟨?_, hQ _ _ keeps_setRegion h.2⟩) hbusy hremap
  have hview : View k (some t) (c.setHeld false) { s with region := none } :=
    h.1.setRegion (fun hf => by cases hf) id
  have hc : c.setHeld false = c := by
    unfold Control.setHeld
    rw [← hheld]
  rw [← hc]
  exact hview

/-- Requesting the region under the mutex, with no promise about the outcome. -/
theorem tryRequest_spec (hQ : Private t Q) (hheld : c.held = false) :
    Triple (rules k b call t) (Holds k t c Q) (piix4Sb800RegionRequest true) fun r s =>
      (r = 0 ∧ Holds k t (c.setHeld true) Q s) ∨ (r ≠ 0 ∧ Holds k t c Q s) := by
  have hrequest : Triple (rules k b call t) (Holds k t c Q) (piix4Sb800RegionRequest true) fun r s =>
      (r = 0 ∧ Holds k t (c.setHeld true) Q s) ∨ (r ≠ 0 ∧ ¬ False ∧ Holds k t c Q s) :=
    holdsRequest_spec hQ hheld nofun nofun
  exact Triple.post hrequest fun r s _ h => h.imp id fun h => ⟨h.1, h.2.2⟩

/-- Releasing the region under the mutex. -/
theorem holdsRelease_spec (hQ : Private t Q) (hheld : c.held = true) :
    Triple (rules k b call t) (Holds k t c Q) (piix4Sb800RegionRelease true)
      fun _ => Holds k t (c.setHeld false) Q :=
  releaseMemRegion_spec (stable_holds hQ) (fun _ h => h.1.held hheld) fun _ h =>
    ⟨h.1.setRegion (fun hf => by cases hf) id, hQ _ _ keeps_setRegion h.2⟩

/-! ## Flags and marks -/

/-- A mark of the history is an own step. -/
theorem OwnStep.mark {mk : Mark} (hm : s.mutex = some t)
    (howed : (s.ghost.after s.hw mk).owed = s.ghost.owed)
    (hintact : k.Tidy → Intact s → Intact { s with ghost := s.ghost.after s.hw mk }) :
    OwnStep k t s { s with ghost := s.ghost.after s.hw mk } where
  life := rfl
  irq := rfl
  asf := rfl
  world := rfl
  deliverOk := rfl
  auxAdapter := rfl
  owed u _ := congrFun howed u
  region _ _ h := ⟨h, rfl, by cases mk <;> rfl⟩
  mutex := rfl
  block := Or.inl hm
  listening hl := Or.inr hl
  pending := id
  sound h := ⟨h.errorless, h.unstuck⟩
  intact := hintact

/-- Marks that record nothing of what the view speaks of. -/
def Mark.Aside : Mark → Prop
  | .transferEnd | .notified | .bootSaved | .starting | .stopped
  | .registrationFailed => True
  | _ => False

/-- The state after a mark of the history. -/
def St.noted (s : St) (mk : Mark) : St := { s with ghost := s.ghost.after s.hw mk }

/-- A mark set aside leaves the block alone. -/
theorem sameBlock_noted {mk : Mark} (h : mk.Aside) : SameBlock s (s.noted mk) := by
  cases mk <;> first
    | exact absurd h id
    | exact ⟨rfl, fun h => ⟨h, rfl, rfl⟩, rfl, rfl, rfl, rfl, rfl, rfl, rfl, rfl, rfl, rfl⟩

/-- A mark leaves the owed messages alone. -/
theorem owed_noted {mk : Mark} : (s.noted mk).ghost.owed = s.ghost.owed := by
  cases mk <;> rfl

/-- A mark set aside is an own step. -/
theorem OwnStep.noted {mk : Mark} (h : mk.Aside) : OwnStep k t s (s.noted mk) where
  life := rfl
  irq := rfl
  asf := rfl
  world := rfl
  deliverOk := rfl
  auxAdapter := rfl
  owed u _ := congrFun owed_noted u
  region _ _ h := ⟨h, rfl, by cases mk <;> rfl⟩
  mutex := rfl
  block := Or.inr (Or.inr (sameBlock_noted h))
  listening hl := Or.inr hl
  pending := id
  sound h := ⟨h.errorless, h.unstuck⟩
  intact _ hi := hi.congr (fun _ => rfl) rfl (sameBlock_noted h).drain rfl hi.reset

/-- Passing such a mark keeps what does not depend on the history. -/
theorem note_spec {mk : Mark} {P : St → Prop} (hmk : mk.Aside) (hP : (rules k b call t).Stable P)
    (hcheck : ∀ s, P s → Check k b call (.mark mk) s)
    (hset : ∀ s, OwnStep k t s (s.noted mk) → P s → P (s.noted mk)) :
    Triple (rules k b call t) P (mark mk) fun _ => P := by
  refine own_op (fun _ => hP) fun s _ hPs _ => ⟨hcheck s hPs, fun _ s' he => ?_⟩
  have hirq : s.irq.after mk = s.irq := by cases mk <;> first | exact absurd hmk id | rfl
  simp only [exec, hirq, Option.some.injEq, Prod.mk.injEq] at he
  obtain ⟨_, rfl⟩ := he
  have hown : OwnStep k t s (s.noted mk) := .noted hmk
  exact ⟨hown, hset s hown hPs⟩

/-- Passing such a mark under the mutex. -/
theorem noteHolds_spec {mk : Mark} (hQ : Private t Q) (hmk : mk.Aside)
    (hcheck : ∀ s, Holds k t c Q s → Check k b call (.mark mk) s) :
    Triple (rules k b call t) (Holds k t c Q) (mark mk) fun _ => Holds k t c Q :=
  note_spec hmk (stable_holds hQ) hcheck fun _ hown h =>
    ⟨h.1.of_sameBlock (sameBlock_noted hmk) rfl fun _ => rfl,
      hQ _ _ (hown.keeps (congrFun owed_noted t)) h.2⟩

/-- A change of the history leaves the block as it is seen. -/
theorem Sees.remember {g : Ghost} {debt flushed erred resetting : Bool} (h : Sees c s)
    (htouched : g.touched = s.ghost.touched)
    (hrecord : Recorded { c with
      debt := debt, flushed := flushed, erred := erred, resetting := resetting } g) :
    Sees { c with debt := debt, flushed := flushed, erred := erred, resetting := resetting }
      { s with ghost := g } where
  regs := ⟨h.regs.lisaddr, h.regs.rst, h.regs.dataEn,
    fun v hv => ⟨htouched.trans (h.regs.mstr v hv).1, (h.regs.mstr v hv).2⟩,
    fun v hv => ⟨htouched.trans (h.regs.clk v hv).1, (h.regs.clk v hv).2⟩, h.regs.intrOn,
    h.regs.intrOff⟩
  record := hrecord
  signalled := h.signalled
  empty := h.empty
  kept := h.kept
  calm hc := ⟨(h.calm hc).rdptr, (h.calm hc).reading, (h.calm hc).got⟩

/-- Changing the flags that are not the device callbacks' own. -/
theorem OwnStep.setFlags {listening pending : Bool} (hm : s.mutex = some t)
    (hp : s.asf.pending = false → pending = false)
    (hl : listening = true → s.asf.wantListen = true ∨ s.asf.listening = true) :
    OwnStep k t s { s with asf := { s.asf with listening := listening, pending := pending } } where
  life := rfl
  irq := rfl
  asf := rfl
  world := rfl
  deliverOk := rfl
  auxAdapter := rfl
  owed _ _ := rfl
  region _ _ h := ⟨h, rfl, rfl⟩
  mutex := rfl
  block := Or.inl hm
  listening := hl
  pending := hp
  sound h := ⟨h.errorless, h.unstuck⟩
  intact _ h := h.congr (fun _ => rfl) rfl rfl rfl h.reset

/-- The flag `listening` is seen as it was assigned. -/
theorem Sees.setListening {listening : Bool} (h : Sees c s) : Sees (c.setListening listening)
    { s with asf := { s.asf with listening := listening } } where
  regs := {
    lisaddr := h.regs.lisaddr
    rst := h.regs.rst
    dataEn := h.regs.dataEn
    mstr := h.regs.mstr
    clk := h.regs.clk
    intrOn := fun hi => by
      unfold Control.setListening at hi
      dsimp only at hi
      split at hi <;> cases hi
    intrOff := fun hi => by
      unfold Control.setListening at hi
      dsimp only at hi
      split at hi
      · next hoff => exact h.regs.intrOff hoff
      · cases hi }
  record := ⟨h.record.debt, h.record.flushed, h.record.erred, h.record.resetting⟩
  signalled hc ha hl := by
    have hlisten : listening = true := hl
    have hacc : c.accepting = true := ha
    simp only [Control.setListening, hlisten, hacc, Bool.not_true, Bool.or_false,
      Bool.and_eq_true] at hc
    exact h.signalled hc.1 hacc hc.2
  empty hc := by
    simp only [Control.setListening, Bool.and_eq_true] at hc
    exact h.empty hc.1
  kept := h.kept
  calm hc := ⟨(h.calm hc).rdptr, (h.calm hc).reading, (h.calm hc).got⟩

/-- Dropping the pending flag loses no signal while nothing can arrive. -/
theorem Sees.clearPending (h : Sees c s)
    (hclosed : c.clean = true → c.accepting = false ∨ c.listening = false) :
    Sees c { s with asf := { s.asf with pending := false } } where
  regs := h.regs.congr rfl rfl rfl fun h => ⟨h, rfl, rfl⟩
  record := h.record
  signalled hc ha hl := by
    rcases hclosed hc with hno | hno
    · exact absurd (ha.symm.trans hno) (by decide)
    · exact absurd (hl.symm.trans hno) (by decide)
  empty := h.empty
  kept := h.kept
  calm hc := ⟨(h.calm hc).rdptr, (h.calm hc).reading, (h.calm hc).got⟩

section Flags

variable (hQ : Private t Q)
include hQ

/-- `WRITE_ONCE(piix4_asf.listening, v)`. -/
theorem setListening_spec (listening : Bool) (hwant : listening = true → c.want = true) :
    Triple (rules k b call t) (Holds k t c Q) (setAsf fun a => { a with listening := listening })
      fun _ => Holds k t (c.setListening listening) Q := by
  refine own_op (fun _ => stable_holds hQ) fun s hs hP _ => ?_
  refine ⟨.of_other (by simp) (by simp), fun _ s' he => ?_⟩
  simp only [exec, Option.some.injEq, Prod.mk.injEq] at he
  obtain ⟨_, rfl⟩ := he
  have hown : OwnStep k t s { s with asf := { s.asf with listening := listening } } :=
    .setFlags hP.1.holder id fun hl => Or.inl (hP.1.want.trans (hwant hl))
  refine ⟨hown, ?_, hQ _ _ (hown.keeps rfl) hP.2⟩
  exact {
    holder := hP.1.holder
    engaged := hP.1.engaged
    listening := rfl
    want := hP.1.want
    held := hP.1.held
    fresh := hP.1.fresh
    sees := fun hk => (hP.1.sees hk).setListening }

/-- `atomic_set(&piix4_asf.pending, 0)`. -/
theorem clearPending_spec (hclosed : c.clean = true → c.accepting = false ∨ c.listening = false) :
    Triple (rules k b call t) (Holds k t c Q) (setAsf fun a => { a with pending := false })
      fun _ => Holds k t c Q := by
  refine own_op (fun _ => stable_holds hQ) fun s hs hP _ => ?_
  refine ⟨.of_other (by simp) (by simp), fun _ s' he => ?_⟩
  simp only [exec, Option.some.injEq, Prod.mk.injEq] at he
  obtain ⟨_, rfl⟩ := he
  have hown : OwnStep k t s { s with asf := { s.asf with pending := false } } :=
    .setFlags hP.1.holder (fun _ => rfl) fun hl => Or.inr hl
  refine ⟨hown, ?_, hQ _ _ (hown.keeps rfl) hP.2⟩
  exact {
    holder := hP.1.holder
    engaged := hP.1.engaged
    listening := hP.1.listening
    want := hP.1.want
    held := hP.1.held
    fresh := hP.1.fresh
    sees := fun hk => (hP.1.sees hk).clearPending hclosed }

/-- Passing a mark that only concerns the history. -/
theorem mark_spec {mk : Mark} (c' : Control) (hirq : ∀ l : IrqLine, l.after mk = l)
    (hframe : ∀ (g : Ghost) h, (g.after h mk).owed = g.owed ∧ (g.after h mk).drain = g.drain)
    (hcheck : ∀ s, Holds k t c Q s → Check k b call (.mark mk) s)
    (hsees : ∀ s, k.admits call (.mark mk) s = true → Sees c s →
      Sees c' { s with ghost := s.ghost.after s.hw mk })
    (hlisten : c'.listening = c.listening) (hwant : c'.want = c.want) (hheld : c'.held = c.held) :
    Triple (rules k b call t) (Holds k t c Q) (mark mk) fun _ => Holds k t c' Q := by
  refine own_op (fun _ => stable_holds hQ) fun s hs hP hadm => ⟨hcheck s hP, fun _ s' he => ?_⟩
  simp only [exec, hirq, Option.some.injEq, Prod.mk.injEq] at he
  obtain ⟨_, rfl⟩ := he
  have htouched : (s.ghost.after s.hw mk).touched = s.ghost.touched := by cases mk <;> rfl
  have hown : OwnStep k t s { s with ghost := s.ghost.after s.hw mk } :=
    .mark hP.1.holder (hframe _ _).1 fun _ h =>
      h.congr (fun _ => rfl) rfl (hframe _ _).2 rfl h.reset
  refine ⟨hown, ?_, hQ _ _ (hown.keeps (congrFun (hframe _ _).1 t)) hP.2⟩
  exact {
    holder := hP.1.holder
    engaged := hP.1.engaged
    listening := hP.1.listening.trans hlisten.symm
    want := hP.1.want.trans hwant.symm
    held := fun hh => hP.1.held (hheld ▸ hh)
    fresh := fun hh hk => htouched.trans (hP.1.fresh (hheld ▸ hh) (hwant ▸ hk))
    sees := fun hk => hsees s hadm (hP.1.sees (hwant ▸ hk)) }

/-- The mark at the start of `piix4_asf_slave_arm` carries the check that no bank is stuck. -/
theorem armBegin_spec (hdebt : k.Rearms → c.debt = false) :
    Triple (rules k b call t) (Holds k t c Q) (mark .armBegin)
      fun _ => Holds k t c.beginArm Q := by
  refine mark_spec hQ c.beginArm (fun _ => rfl) (fun _ _ => ⟨rfl, rfl⟩) (fun s hP => ?_)
    (fun s _ h => h.remember rfl ⟨h.record.debt, h.record.flushed, h.record.erred, nofun⟩)
    rfl rfl rfl
  exact {
    arm := fun hk _ => (hP.1.sees (Or.inl hk.1)).record.debtless (hdebt hk)
    reset := fun _ _ _ h => by cases h
    consume := fun _ _ _ _ h => by cases h }

/-- The IRQ thread begins to reset a wedged slave. -/
theorem wedgeReset_spec :
    Triple (rules k b call t) (Holds k t c Q) (mark .wedgeReset)
      fun _ => Holds k t c.beginReset Q :=
  mark_spec hQ c.beginReset (fun _ => rfl) (fun _ _ => ⟨rfl, rfl⟩)
    (fun _ _ => .of_other (by simp) (by simp))
    (fun s _ h => h.remember rfl ⟨h.record.debt, h.record.flushed, h.record.erred, fun _ => rfl⟩)
    rfl rfl rfl

/-- Waiting for the handler changes nothing that is known. -/
theorem synchronizeHardirq_spec :
    Triple (rules k b call t) (Holds k t c Q) (perform .synchronizeHardirq)
      fun _ => Holds k t c Q :=
  idle_op' (stable_holds hQ) (fun _ => .of_other (by simp) (by simp)) fun s r s' he => by
    simp only [exec, Option.some.injEq, Prod.mk.injEq] at he
    exact he.2.symm

/-- Sleeping changes nothing that is known. -/
theorem usleepRange_spec (lo hi : ℕ) :
    Triple (rules k b call t) (Holds k t c Q) (usleepRange lo hi) fun _ => Holds k t c Q :=
  idle_op' (stable_holds hQ) (fun _ => .of_other (by simp) (by simp)) fun s r s' he => by
    simp only [exec, Option.some.injEq, Prod.mk.injEq] at he
    exact he.2.symm

end Flags

end HostNotify
