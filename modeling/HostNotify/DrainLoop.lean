import HostNotify.Drain

/-!
# The loop of the drain

The passes of `piix4_asf_drain` put together: by induction on the passes left, the work
bound falls with each pass that finds something, so a bounded drain ends quietly.
-/

namespace HostNotify

open Bits Interleaving

variable {k : Setting} {b : Board} {c c' : Control} {s s' : St} {t : ℕ} {call : Call}
  {Q X : St → Prop} {m cap : ℕ} {own : List ℕ}

/-- What the loop leaves: a bounded drain is not wedged, the list stays within `cap`, and a
drain that is not wedged leaves the banks quiet. -/
def Drained (k : Setting) (t : ℕ) (c : Control) (Q : St → Prop) (cap : ℕ)
    (r : Bool × Notifies) (s : St) : Prop :=
  (Bounded k c → r.1 = false) ∧ (k.Tidy → r.2.addr.length ≤ cap) ∧
    ∃ m c', c.Flushes c' ∧
      At k t (if r.1 then c' else c'.quieted k) Q m r.2.addr (fun _ => True) s

/-- The control state of a drain between two passes. -/
structure Control.Draining (k : Setting) (c : Control) : Prop where
  listening : c.listening = true
  want : c.want = true
  clean : c.clean = false
  kept : c.kept = false
  dataEn : c.dataEn = false
  calm : k.firmware = false → c.calm = true

/-- A block that is drained is at work. -/
theorem Control.Draining.working (h : c.Draining k) : c.Working := ⟨h.listening, h.want⟩

/-- Flushing goes on with the drain. -/
theorem Control.Draining.flushes (h : c.Draining k) (hf : c.Flushes c') : c'.Draining k := by
  rcases hf with rfl | rfl
  · exact h
  · exact ⟨h.listening, h.want, h.clean, h.kept, h.dataEn, h.calm⟩

/-- Flushing twice is flushing. -/
theorem Control.Flushes.trans {c₁ c₂ c₃ : Control} (h₁ : c₁.Flushes c₂) (h₂ : c₂.Flushes c₃) :
    c₁.Flushes c₃ := by
  rcases h₁ with rfl | rfl
  · exact h₂
  · rcases h₂ with rfl | rfl
    · exact Or.inr rfl
    · exact Or.inr rfl

/-- Flushing does not bound the signals otherwise than before. -/
theorem Control.Flushes.bounded (h : c.Flushes c') : Bounded k c ↔ Bounded k c' := by
  rcases h with rfl | rfl
  · exact Iff.rfl
  · exact Iff.rfl

/-- A drain that begins after a flush has drained. -/
theorem Drained.of_flushes {r : Bool × Notifies} (hf : c.Flushes c')
    (h : Drained k t c' Q cap r s) : Drained k t c Q cap r s := by
  obtain ⟨hwedge, hlen, m, d, hd, hP⟩ := h
  exact ⟨fun hb => hwedge (hf.bounded.mp hb), hlen, m, d, hf.trans hd, hP⟩

section Loop

variable (hQ : Debtless t Q)
include hQ

/-- Whether no bank is flagged; if so, and if no signal was taken, the banks are quiet. -/
theorem banksIdle_spec (hc : c.Draining k) :
    Triple (rules k b call t) (At k t c Q m own (Entry k false)) (banksIdle b.auxSmba)
      fun idle s => (idle = false → Bounded k c → 1 ≤ m) ∧
        At k t (if idle then c.quieted k else c) Q m own (Entry k false) s := by
  unfold banksIdle
  refine Triple.bind (readFlags_spec (Y := fun _ => Entry k false) hc.working hQ
    (fun _ _ => entry_carried) (fun (_ : false = false) s hX ht => ?_) fun s hP => hP.here)
    fun v => Triple.ret fun s _ hP => ⟨fun hbusy => hP.1.2 (of_decide_eq_false hbusy), ?_⟩
  · rcases hX ht with hkept | ⟨hyes, _⟩
    · exact hkept
    · cases hyes
  · by_cases hidle : v &&& asfBnkFull = 0
    · rw [if_pos (decide_eq_true hidle)]
      have hP' := hP.2
      rw [if_pos ⟨rfl, hidle⟩] at hP'
      exact hP'
    · rw [if_neg (by simpa using hidle)]
      have hP' := hP.2
      rw [if_neg fun h => hidle h.2] at hP'
      exact hP'

/-- After the last pass: without work left, nothing is flagged and nothing is signalled. -/
theorem lastLook_spec (hc : c.Draining k) (n : Notifies) (hm : Bounded k c → m = 0)
    (hcap : k.Tidy → n.addr.length + m ≤ cap) :
    Triple (rules k b call t) (At k t c Q m n.addr fun s => k.Tidy → s.Orderly)
      (do
        let idle ← banksIdle b.auxSmba
        pure (!idle, n)) (Drained k t c Q cap) := by
  refine Triple.bind (Triple.pre (banksIdle_spec hQ hc) fun s _ hP =>
    ⟨hP.view, hP.known, hP.budget, hP.owed, fun ht => ?_⟩) fun idle =>
    Triple.pure_pre fun hbusy => Triple.ret fun s _ hP => ?_
  · rcases hP.here ht with hkept | ⟨_, hsignal⟩
    · exact Or.inl hkept
    · have hwork := (hP.budget ht.bounded).pos_of_signal hsignal
      have hzero := hm ht.bounded
      omega
  · cases idle with
    | true =>
      exact ⟨fun _ => rfl, fun ht => Nat.le_trans (Nat.le_add_right _ _) (hcap ht), m, c,
        Or.inl rfl, hP.mono fun _ => trivial⟩
    | false =>
      refine ⟨fun hb => ?_, fun ht => Nat.le_trans (Nat.le_add_right _ _) (hcap ht), m, c,
        Or.inl rfl, hP.mono fun _ => trivial⟩
      have hpos := hbusy rfl hb
      have hzero := hm hb
      omega

/-- One pass, given that the passes after it end as they should. -/
theorem pass_spec (hc : c.Draining k) (left i : ℕ) (n : Notifies)
    (hrun : ∀ s, Q s → call = .irqThread → s.irq.running = some t)
    (hm : Bounded k c → m ≤ left + 1) (hcap : k.Tidy → n.addr.length + m ≤ cap)
    (hmax : cap ≤ asfNotifyMax)
    (hrest : ∀ c', c.Flushes c' → ∀ n' : Notifies, (Bounded k c' → m - 1 ≤ left) →
      (k.Tidy → n'.addr.length + (m - 1) ≤ cap) →
      Triple (rules k b call t)
        (At k t c' (fun s => Q s ∧ Quieted call t s) (m - 1) n'.addr fun s => k.Tidy → s.Orderly)
        (drainPasses b.auxSmba left (i + 1) n')
        (Drained k t c' (fun s => Q s ∧ Quieted call t s) cap)) :
    Triple (rules k b call t) (At k t c Q m n.addr fun s => k.Tidy → s.Orderly)
      (drainPasses b.auxSmba (left + 1) i n)
      (Drained k t c (fun s => Q s ∧ Quieted call t s) cap) := by
  have hQ' : Debtless t fun s => Q s ∧ Quieted call t s := hQ.and quieted_debtless
  have hshort : k.Tidy → n.addr.length ≤ cap := fun ht =>
    Nat.le_trans (Nat.le_add_right _ _) (hcap ht)
  -- the rest of the pass once a signal or a flag called for it
  have hread : ∀ sig : Bool, (Bounded k c → 1 ≤ m) → Triple (rules k b call t)
      (At k t c (fun s => Q s ∧ Quieted call t s) (if sig then m - 1 else m) n.addr (Entry k sig))
      (readPass sig i n fun n' => drainPasses b.auxSmba left (i + 1) n')
      (Drained k t c (fun s => Q s ∧ Quieted call t s) cap) := by
    intro sig hwork
    refine Triple.bind (processBank_spec hc.working hQ' ⟨hc.clean, hc.kept⟩ hc.dataEn hc.calm sig i)
      fun r => ?_
    obtain ⟨bank, addr⟩ := r
    cases bank with
    | none =>
      refine Triple.ret fun s _ h => ⟨fun _ => rfl, hshort, ?_⟩
      rcases h with ⟨_, hP⟩ | ⟨hsome, _⟩
      · exact ⟨_, c, Or.inl rfl, hP⟩
      · cases hsome
    | some bank =>
      intro s hs h
      rcases h with ⟨hnone, _⟩ | ⟨_, _, c', hflush, hP⟩
      · cases hnone
      refine Safe.mono hs (hrest c' hflush _ (fun hb => ?_) (fun ht => ?_) s hs
        ⟨hP.view, hP.known, fun hb => (hP.budget hb).mono ?_, fun ht => ?_, hP.here⟩)
        fun r s _ hd => hd.of_flushes hflush
      · have hle := hm (hflush.bounded.mpr hb)
        omega
      · have hpos := hwork ht.bounded
        have hfit := hcap ht
        cases addr with
        | none =>
          dsimp only
          omega
        | some a =>
          dsimp only
          rw [Notifies.push_addr, if_pos (by omega), List.length_append, List.length_singleton]
          omega
      · cases sig <;> simp
      · have hpos := hwork ht.bounded
        have hfit := hcap ht
        have howed := hP.owed ht
        cases addr with
        | none => simpa using howed
        | some a =>
          dsimp only
          rw [Notifies.push_addr, if_pos (by omega)]
          exact howed
  refine Triple.bind (takeSignal_spec hc.working hQ hc.clean hrun) fun sig =>
    Triple.pure_pre fun hpos => ?_
  cases sig with
  | true => exact hread true (hpos rfl)
  | false =>
    refine Triple.bind (banksIdle_spec hQ' hc) fun idle => Triple.pure_pre fun hbusy => ?_
    cases idle with
    | true =>
      exact Triple.ret fun s _ hP => ⟨fun _ => rfl, hshort, m, c, Or.inl rfl,
        hP.mono fun _ => trivial⟩
    | false => exact hread false (hbusy rfl)

end Loop

/-- The loop of `piix4_asf_drain`. -/
theorem drainPasses_spec (left i : ℕ) (n : Notifies) (hQ : Debtless t Q) (hc : c.Draining k)
    (hrun : ∀ s, Q s → call = .irqThread → s.irq.running = some t)
    (hm : Bounded k c → m ≤ left) (hcap : k.Tidy → n.addr.length + m ≤ cap)
    (hmax : cap ≤ asfNotifyMax) :
    Triple (rules k b call t) (At k t c Q m n.addr fun s => k.Tidy → s.Orderly)
      (drainPasses b.auxSmba left i n) (Drained k t c Q cap) := by
  induction left generalizing i n m c Q with
  | zero => exact lastLook_spec hQ hc n (fun hb => Nat.le_zero.mp (hm hb)) hcap
  | succ left ih =>
    refine Triple.post (pass_spec hQ hc left i n hrun hm hcap hmax fun c' hflush n' hm' hcap' =>
      ih (i + 1) n' (hQ.and quieted_debtless) (hc.flushes hflush) (fun s hs => hrun s hs.1) hm'
        hcap') fun r s _ h => ?_
    obtain ⟨hwedge, hlen, m', d, hd, hP⟩ := h
    exact ⟨hwedge, hlen, m', d, hd, hP.view, hP.known.1, hP.budget, hP.owed, hP.here⟩

/-! ## The whole drain -/

/-- The control states in which a drain may begin. -/
structure Control.Ready (k : Setting) (c : Control) : Prop where
  listening : c.listening = true
  want : c.want = true
  dataEn : c.dataEn = false
  kept : k.Tidy → c.kept = true
  calm : k.firmware = false → c.calm = true

/-- The control state after a drain. -/
def Control.drained (c : Control) (k : Setting) (wedged erred : Bool) : Control :=
  { c with
    clean := !wedged
    kept := decide k.Tidy && !wedged
    debt := c.debt || wedged
    flushed := c.flushed || erred
    erred := erred }

/-- The control state while a drain is in progress. -/
def Control.opened (c : Control) : Control :=
  { c with clean := false, kept := false, erred := false }

/-- A ready block may be drained once it is open. -/
theorem Control.Ready.draining (h : c.Ready k) : c.opened.Draining k :=
  ⟨h.listening, h.want, rfl, rfl, h.dataEn, h.calm⟩

/-- There are at most four things left to read. -/
theorem load_le (s : St) : s.load ≤ 4 := by
  have h0 := Bool.toNat_le (s.hw.bank false).full
  have h1 := Bool.toNat_le (s.hw.bank true).full
  have h2 := Bool.toNat_le (s.hw.sta.getLsbD 6)
  have h3 := Bool.toNat_le s.asf.pending
  unfold St.load
  omega

/-- The passes that can find work: two flags and two signals, and one more message with its
signal while the slave accepts. -/
def Control.passes (c : Control) : ℕ := if c.accepting then 6 else 4

/-- A drain begins with a count of its own. -/
theorem drainBegin_spec (hQ : Debtless t Q) (hc : c.Ready k) :
    Triple (rules k b call t)
      (Holds k t c fun s => Q s ∧ (k.Tidy → (s.ghost.owed t).Subperm own)) (mark .drainBegin)
      fun _ => At k t c.opened Q c.passes own fun s => k.Tidy → s.Orderly := by
  refine own_op (fun _ => stable_at hc.draining.working hQ orderly_carried) fun s hs hP _ => ?_
  refine ⟨.of_other (by simp) (by simp), fun _ s' he => ?_⟩
  simp only [exec, Option.some.injEq, Prod.mk.injEq] at he
  obtain ⟨_, rfl⟩ := he
  have hsees := hP.1.sees (Or.inr hc.want)
  have hown : OwnStep k t s { s with ghost := s.ghost.after s.hw .drainBegin } :=
    .mark hP.1.holder rfl fun ht h =>
      ⟨h.lost, fun i hu => Or.inl (hsees.kept (hc.kept ht) i hu), h.reset, h.inactive⟩
  refine ⟨hown, ?_, hQ _ _ hown.stays hP.2.1, fun hb => ⟨rfl, ?_⟩, hP.2.2,
    fun ht => Or.inl (hsees.kept (hc.kept ht))⟩
  · exact {
      holder := hP.1.holder
      engaged := hP.1.engaged
      listening := hP.1.listening
      want := hP.1.want
      held := hP.1.held
      fresh := hP.1.fresh
      sees := fun _ => {
        regs := ⟨hsees.regs.lisaddr, hsees.regs.rst, hsees.regs.dataEn, hsees.regs.mstr,
          hsees.regs.clk, hsees.regs.intrOn, hsees.regs.intrOff⟩
        record := ⟨hsees.record.debt, hsees.record.flushed, (by intros; contradiction), hsees.record.resetting⟩
        signalled := (by intros; contradiction)
        empty := (by intros; contradiction)
        kept := (by intros; contradiction)
        calm := fun h => ⟨(hsees.calm h).rdptr, (hsees.calm h).reading, (hsees.calm h).got⟩ } }
  · have hload := load_le s
    have hacc : c.opened.accepting = c.accepting := rfl
    rw [hacc, Control.passes, room]
    cases c.accepting with
    | true =>
      rw [if_pos ⟨rfl, rfl⟩, if_pos rfl]
      exact Nat.add_le_add_right hload 2
    | false =>
      rw [if_neg (by simp), if_neg (by simp)]
      exact hload

/-- What a drain leaves is seen by the control state after it. -/
theorem Sees.drainEnd {wedged : Bool} (hf : c.opened.Flushes c')
    (h : Sees (if wedged then c' else c'.quieted k) s) :
    Sees (c.drained k wedged c'.erred) { s with ghost := s.ghost.after s.hw (.drainEnd wedged) } := by
  have hclean : (if wedged then c' else c'.quieted k).clean = !wedged := by
    rcases hf with rfl | rfl <;> cases wedged <;> rfl
  have hkept : (if wedged then c' else c'.quieted k).kept = (decide k.Tidy && !wedged) := by
    rcases hf with rfl | rfl <;> cases wedged <;> simp [Control.quieted, Control.opened]
  have hregs : SeesRegs c s := by
    have hr := h.regs
    rcases hf with rfl | rfl <;> cases wedged <;>
      exact ⟨hr.lisaddr, hr.rst, hr.dataEn, hr.mstr, hr.clk, hr.intrOn, hr.intrOff⟩
  have hacc : (if wedged then c' else c'.quieted k).accepting = c.accepting := by
    rcases hf with rfl | rfl <;> cases wedged <;> rfl
  have hlisten : (if wedged then c' else c'.quieted k).listening = c.listening := by
    rcases hf with rfl | rfl <;> cases wedged <;> rfl
  have hcalm : (if wedged then c' else c'.quieted k).calm = c.calm := by
    rcases hf with rfl | rfl <;> cases wedged <;> rfl
  exact {
    regs := ⟨hregs.lisaddr, hregs.rst, hregs.dataEn, hregs.mstr, hregs.clk, hregs.intrOn,
      hregs.intrOff⟩
    record := {
      debt := fun hd => by
        simp only [Ghost.after, Bool.or_eq_true] at hd
        simp only [Control.drained, Bool.or_eq_true]
        refine hd.imp (fun hd => ?_) id
        have hold := h.record.debt hd
        rcases hf with rfl | rfl <;> cases wedged <;> exact hold
      flushed := fun hfl => by
        have hold := h.record.flushed hfl
        simp only [Control.drained, Bool.or_eq_true]
        rcases hf with rfl | rfl
        · left
          cases wedged <;> exact hold
        · exact Or.inr rfl
      erred := fun he => by
        refine h.record.erred ?_
        have herred : c'.erred = true := he
        cases wedged <;> exact herred
      resetting := fun hr => by
        have hold := h.record.resetting hr
        rcases hf with rfl | rfl <;> cases wedged <;> exact hold }
    signalled := fun hcl ha hl => h.signalled (hclean.trans hcl) (hacc.trans ha) (hlisten.trans hl)
    empty := fun hcl ha => h.empty (hclean.trans hcl) (hacc.trans ha)
    kept := fun hk => h.kept (hkept.trans hk)
    calm := fun hc => by
      have hold := h.calm (hcalm.trans hc)
      exact ⟨hold.rdptr, hold.reading, hold.got⟩ }

/-- A drain ends, with its verdict on the banks. -/
theorem drainEnd_spec (hQ : Debtless t Q) (hc : c.Ready k) (wedged : Bool)
    (hf : c.opened.Flushes c') (hwedge : k.Tidy → wedged = false) :
    Triple (rules k b call t)
      (At k t (if wedged then c' else c'.quieted k) Q m own fun _ => True)
      (mark (.drainEnd wedged)) fun _ s => ∃ e,
        (call = .irqThread → k.muted = false → c.resetting = false → wedged = false → e = false) ∧
          Holds k t (c.drained k wedged e)
            (fun s => (Q s ∧ (k.Tidy → (s.ghost.owed t).Subperm own)) ∧
              (wedged = true → s.ghost.debt = true)) s := by
  refine own_op (fun _ => Discipline.Stable.exists fun e => (Discipline.Stable.const _).and
    (Carried.stable ⟨hc.listening, hc.want⟩
      ((Carried.of_private (hQ.private.and (owed_private _))).and
        (Carried.imp fun _ => debt_carried)))) fun s hs hP hadm => ?_
  refine ⟨.of_other (by simp) (by simp), fun _ s' he => ?_⟩
  simp only [exec, Option.some.injEq, Prod.mk.injEq] at he
  obtain ⟨_, rfl⟩ := he
  have hwork : (if wedged then c' else c'.quieted k).Working := by
    rcases hf with rfl | rfl <;> cases wedged <;> exact ⟨hc.listening, hc.want⟩
  have hsees := hP.sees hwork
  have hown : OwnStep k t s { s with ghost := s.ghost.after s.hw (.drainEnd wedged) } := by
    refine .mark hP.view.holder rfl fun ht h => ⟨h.lost, fun i hu => Or.inl ?_, h.reset, h.inactive⟩
    refine hsees.kept ?_ i hu
    rw [hwedge ht]
    exact decide_eq_true ht
  refine ⟨hown, c'.erred, fun hcall hmuted hresetting hquiet => ?_, ⟨?_,
    ⟨hQ _ _ hown.stays hP.known, hP.owed⟩, fun hw => by simp [Ghost.after, hw]⟩⟩
  · cases herred : c'.erred with
    | false => rfl
    | true =>
      have hghost : s.ghost.erred = true := by
        refine hsees.record.erred ?_
        cases wedged <;> exact herred
      have hreset : s.ghost.resetting = false := by
        cases hr : s.ghost.resetting with
        | false => rfl
        | true =>
          have hbad := hsees.record.resetting hr
          rcases hf with rfl | rfl <;> cases wedged <;>
            exact absurd (hbad.symm.trans hresetting) (by decide)
      subst hcall
      have hadm' : (k.muted || !s.ghost.erred || wedged || s.ghost.resetting) = true := hadm
      rw [hmuted, hghost, hquiet, hreset] at hadm'
      exact absurd hadm' (by decide)
  · exact {
      holder := hP.view.holder
      engaged := hP.view.engaged
      listening := by
        have hl := hP.view.listening
        rcases hf with rfl | rfl <;> cases wedged <;> exact hl
      want := by
        have hw := hP.view.want
        rcases hf with rfl | rfl <;> cases wedged <;> exact hw
      held := fun hh => by
        refine hP.view.held ?_
        have hold : c.held = true := hh
        rcases hf with rfl | rfl <;> cases wedged <;> exact hold
      fresh := fun hh hk => by
        have hold : c.held = true := hh
        have hwant : k.firmware = false ∨ c.want = true := hk
        refine hP.view.fresh ?_ ?_
        · rcases hf with rfl | rfl <;> cases wedged <;> exact hold
        · rcases hf with rfl | rfl <;> cases wedged <;> exact hwant
      sees := fun _ => hsees.drainEnd hf }

/-- What one call of `piix4_asf_drain` leaves. -/
theorem drain_spec (hQ : Debtless t Q) (hc : c.Ready k) (n : Notifies)
    (hrun : ∀ s, Q s → call = .irqThread → s.irq.running = some t)
    (hcap : k.Tidy → n.addr.length + c.passes ≤ cap) (hmax : cap ≤ asfNotifyMax) :
    Triple (rules k b call t)
      (Holds k t c fun s => Q s ∧ (k.Tidy → (s.ghost.owed t).Subperm n.addr))
      (piix4AsfDrain b.auxSmba n) fun r s =>
        ((Bounded k c → r.1 = false) ∧ (k.Tidy → r.2.addr.length ≤ cap)) ∧ ∃ e,
          (call = .irqThread → k.muted = false → c.resetting = false → r.1 = false → e = false) ∧
            Holds k t (c.drained k r.1 e) (fun s => ((Q s ∧ Quieted call t s) ∧
              (k.Tidy → (s.ghost.owed t).Subperm r.2.addr)) ∧
                (r.1 = true → s.ghost.debt = true)) s := by
  have hpasses : c.passes ≤ asfDrainMax := by
    unfold Control.passes
    split <;> decide
  unfold piix4AsfDrain
  refine Triple.bind (drainBegin_spec hQ hc) fun _ => ?_
  refine Triple.bind (pass_spec hQ hc.draining 7 0 n hrun (fun _ => hpasses) hcap hmax
    fun c' hflush n' hm' hcap' => drainPasses_spec 7 1 n' (hQ.and quieted_debtless)
      (hc.draining.flushes hflush) (fun s hs => hrun s hs.1) hm' hcap' hmax) fun r => ?_
  refine Triple.pure_pre fun hwedge => Triple.pure_pre fun hlen => ?_
  refine Triple.exists_pre fun m' => Triple.exists_pre fun c' => Triple.pure_pre fun hf => ?_
  refine Triple.bind (drainEnd_spec (hQ.and quieted_debtless) hc r.1 hf
    fun ht => hwedge ht.bounded) fun _ => ?_
  exact Triple.ret fun s _ h => ⟨⟨hwedge, hlen⟩, h⟩

/-! ## Clear banks -/

/-- The slave may be reset: the banks hold nothing that still has to be read. -/
structure Control.Clear (k : Setting) (call : Call) (c : Control) : Prop where
  tidy : k.Tidy → c.clean = true ∧ c.accepting = false ∧ c.kept = true
  guards : k.Guards call → c.clean = true ∧ c.accepting = false

/-- A reset of a cleared block spares what has to be read. -/
theorem Control.Clear.spares (h : c.Clear k call) (Q : St → Prop) : Spares k call c Q :=
  ⟨fun ht => Or.inl (h.tidy ht), h.guards⟩

/-- A drain of a slave that is off the bus leaves the banks clear. -/
theorem Control.clear_drained {w e : Bool} (hacc : c.accepting = false)
    (hw : Bounded k c → w = false) : (c.drained k w e).Clear k call where
  tidy ht := by
    have hquiet := hw ht.bounded
    exact ⟨by simp [Control.drained, hquiet], hacc, by simp [Control.drained, hquiet, ht]⟩
  guards hg := by
    have hquiet := hw ⟨hg.1, Or.inl hacc⟩
    exact ⟨by simp [Control.drained, hquiet], hacc⟩

end HostNotify
