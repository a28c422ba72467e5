import HostNotify.Delivery
import HostNotify.DrainLoop
import HostNotify.Modes
import HostNotify.Transaction

/-!
# Transfers on the auxiliary adapter

`piix4_access_asf` under interference. Every attempt resets the slave, so before each one the
banks must have been drained; the listen window of a retry is an armed slave that is held off
and drained again. Whatever way the attempts end, the slave can be armed or stays silent.
-/

namespace HostNotify

open Bits Interleaving

variable {k : Setting} {b : Board} {c c' : Control} {s s' : St} {t : ℕ} {call : Call}
  {Q : St → Prop} {x x₀ : SmbusXfer}

/-! ## The transfer proper -/

/-- The ports that move no register of the target block but the data window. -/
def DataPort (b : Board) (port : ℕ) : Prop :=
  decode b.auxSmba port = none ∨ decode b.auxSmba port = some .index

/-- The ports of the aux adapter are its own. -/
theorem permits_aux (b : Board) : Permits (DataPort b) b.auxSmba := by
  intro i hi
  unfold DataPort
  rw [decode_add]
  have hall : ∀ i ≤ 8, decode 0 i = none ∨ decode 0 i = some .index := by decide
  exact hall i hi

/-- A plain operation on these ports reads a byte of the selected bank at most. -/
theorem plain_cases {o : Op} {r : o.Ans} (ho : o.Plain (DataPort b))
    (he : exec b t o s = some (r, s')) :
    s' = s ∨ (getElem s.hw.bnksel 7 (fits rfl) = false ∧ s' = s.readByte) := by
  cases o with
  | inb port =>
    have hread : s.portRead b port = (r, s') := Option.some.inj he
    rcases ho with hnone | hindex
    · rw [St.portRead_host s hnone] at hread
      exact Or.inl (Prod.mk.inj hread).2.symm
    · rw [St.portRead_reg s hindex] at hread
      obtain ⟨_, rfl⟩ := Prod.mk.inj hread
      cases hdata : s.hw.bnksel[7] with
      | true =>
        left
        simp [Target.read, hdata]
      | false =>
        right
        simp [Target.read, hdata, St.readByte]
  | outb v port =>
    have hwrite : s.portWrite b t v port = s' := (Prod.mk.inj (Option.some.inj he)).2
    left
    rcases ho with hnone | hindex
    · rw [St.portWrite_host s t v hnone] at hwrite
      exact hwrite.symm
    · rw [St.portWrite_reg s t v hindex] at hwrite
      exact hwrite.symm
  | usleepRange lo hi => exact Or.inl (Prod.mk.inj (Option.some.inj he)).2.symm
  | dynamicDebug => exact Or.inl (Prod.mk.inj (Option.some.inj he)).2.symm
  | _ => exact absurd ho id

/-- Plain operations need no check. -/
theorem Check.of_plain {o : Op} (ho : o.Plain (DataPort b)) : Check k b call o s := by
  cases o with
  | outb v port =>
    refine .of_port (fun h => ?_) fun h => ?_ <;>
      rcases ho with hnone | hindex <;> simp_all
  | inb | usleepRange | dynamicDebug => exact .of_other (by simp) (by simp)
  | _ => exact absurd ho id

/-- A transfer in master mode sees the host FIFO and leaves the view. -/
theorem access_spec (hQ : Private t Q) (hx : x.smba = b.auxSmba) (hdata : c.dataEn = true) :
    Triple (rules k b call t) (Holds k t c Q) (piix4Access x) fun _ => Holds k t c Q := by
  have hplain : (piix4Access x).AllOps (Op.Plain (DataPort b)) :=
    piix4Access_plain (hx ▸ permits_aux b)
  refine Triple.of_allOps (stable_holds hQ) hplain fun o s ho hs hP _ => ⟨.of_plain ho, ?_⟩
  intro r s' he
  rcases plain_cases ho he with rfl | ⟨hwindow, rfl⟩
  · exact ⟨fun u hu => Or.inr ((OwnStep.refl s').foreign hu), hs, hP⟩
  · have hown : OwnStep k t s s.readByte := .readByte (Or.inl hP.1.holder)
    refine ⟨fun u hu => Or.inr (hown.foreign hu), hown.inv hs, ?_, hQ _ _ (hown.keeps rfl) hP.2⟩
    have hknown : ¬ (k.firmware = false ∨ c.want = true) := by
      intro hk
      have hset := (hP.1.sees hk).regs.dataEn.trans hdata
      exact absurd (hset.symm.trans hwindow) (by decide)
    exact {
      holder := hP.1.holder
      engaged := hP.1.engaged
      listening := hP.1.listening
      want := hP.1.want
      held := hP.1.held
      fresh := fun _ hk => absurd hk hknown
      sees := fun hk => absurd hk hknown }

/-! ## Between two attempts -/

/-- The listen window of a retry, after the slave has been held off again. -/
def Control.window (c : Control) : Control := c.masterMode.rearm.holdOff

/-- What is known of the block in the listening window. -/
theorem Control.window_eq (c : Control) : c.window =
    { lisaddr := assignBit asfSlvListn ((asfHostAddr <<< 1) ||| bit asfSlvListn) false
      rst := false, intr := some false, dataEn := false, mstr := some false, clk := some true
      listening := true, want := c.want, clean := false, kept := true, calm := true, debt := false
      flushed := false, erred := c.erred, resetting := false, held := c.held } := by
  have hacc : ((c.masterMode.setListening true).slaveArm).accepting = true :=
    (Control.slaveArm_armed _).accepting
  unfold Control.window Control.rearm
  rw [Control.holdOff_eq, hacc, Control.slaveArm_eq, Control.masterMode_eq]
  simp [Control.setListening]

/-- In the listening window the slave is held off. -/
@[simp] theorem Control.window_accepting (c : Control) : c.window.accepting = false :=
  Control.holdOff_accepting _

/-- A wanted slave is ready in the listening window. -/
theorem Control.window_ready (hwant : c.want = true) : c.window.Ready k := by
  rw [Control.window_eq]
  exact ⟨rfl, hwant, rfl, fun _ => rfl, fun _ => rfl⟩

/-- What the attempts leave: the slave can be armed, or stays silent if nobody listens. -/
structure Control.Parked (k : Setting) (wanted : Bool) (c : Control) : Prop where
  held : c.held = true
  want : c.want = wanted
  accepting : c.accepting = false
  ready : k.Rearms → c.clean = true ∧ c.debt = false
  kept : k.Tidy → c.kept = true
  calm : c.calm = true
  silent : wanted = false →
    c.listening = false ∧ getElem c.lisaddr 0 (fits rfl) = false ∧ c.Silent ∧ c.flushed = false

/-- Leaving straight from master mode. -/
theorem Control.parked_masterMode (hheld : c.held = true)
    (hlisten : c.listening = true → c.want = true) : c.masterMode.Parked k c.want := by
  rw [Control.masterMode_eq]
  refine ⟨hheld, rfl, by simp [Control.accepting], fun _ => ⟨rfl, rfl⟩, fun _ => rfl, rfl,
    fun hw => ⟨?_, by simp, ⟨rfl, rfl, rfl⟩, rfl⟩⟩
  cases hl : c.listening with
  | false => rfl
  | true => exact absurd ((hlisten hl).symm.trans hw) (by decide)

/-- Leaving after a listen window whose drain did not find a stuck bank. -/
theorem Control.parked_window {w e : Bool} (hheld : c.held = true) (hwant : c.want = true)
    (hw : k.Rearms ∨ k.Tidy → w = false) : (c.window.drained k w e).Parked k c.want := by
  rw [Control.window_eq]
  refine ⟨hheld, rfl, by simp [Control.accepting, Control.drained], fun hk => ?_, fun ht => ?_, rfl,
    fun hno => ?_⟩
  · have hquiet := hw (Or.inl hk)
    simp [Control.drained, hquiet]
  · have hquiet := hw (Or.inr ht)
    simp [Control.drained, hquiet, ht]
  · exact absurd (hwant.symm.trans hno) (by decide)

/-- Armed again, the slave is settled. -/
theorem Control.Parked.rearm (h : c.Parked k true) : (c.rearm.setHeld false).Settled k :=
  Control.settled_rearm h.want (fun hk => ⟨h.ready hk, h.accepting⟩) h.kept fun _ => h.calm

/-- Where nobody listens, the slave is settled as it is. -/
theorem Control.Parked.rest (h : c.Parked k false) : (c.setHeld false).Settled k := by
  obtain ⟨hlisten, hclosed, hsilent, hflushed⟩ := h.silent rfl
  exact {
    released := rfl
    want := fun hl => absurd (hl.symm.trans hlisten) (by decide)
    armed := fun hl => absurd (hl.symm.trans hlisten) (by decide)
    held := fun hl => absurd (hl.symm.trans hlisten) (by decide)
    closed := fun _ _ => hclosed
    silent := fun _ _ _ => ⟨hsilent.intr, hsilent.clean, hsilent.debt⟩
    kept := h.kept
    calm := fun _ => h.calm
    flushed := fun _ _ => hflushed
    resetting := fun hl => absurd (hl.symm.trans hlisten) (by decide) }

/-! ## The attempts -/

/-- A drain of a slave that is off the bus. -/
theorem drainOff_spec (hQ : Debtless t Q) (hc : c.Ready k) (hacc : c.accepting = false)
    (n : Notifies) (hroom : k.Tidy → n.addr.length + 4 ≤ asfNotifyMax) :
    Triple (rules k b (.transfer x₀) t) (Holds k t c fun s => Q s ∧ Owes k t n.addr s)
      (piix4AsfDrain b.auxSmba n) fun r s =>
        ((Bounded k c → r.1 = false) ∧ (k.Tidy → r.2.addr.length ≤ n.addr.length + 4)) ∧
          ∃ e, Holds k t (c.drained k r.1 e)
            (fun s => (Q s ∧ Owes k t r.2.addr s) ∧ (r.1 = true → s.ghost.debt = true)) s := by
  have hpasses : c.passes = 4 := by rw [Control.passes, hacc, if_neg (by decide)]
  have hcap : k.Tidy → n.addr.length + c.passes ≤ min (n.addr.length + 4) asfNotifyMax := by
    intro ht
    rw [hpasses, Nat.min_eq_left (hroom ht)]
  refine Triple.post (drain_spec hQ hc n (fun _ _ hcall => by cases hcall) hcap
    (Nat.min_le_right _ _)) fun r s _ h => ?_
  obtain ⟨⟨hwedge, hlen⟩, e, _, hholds⟩ := h
  exact ⟨⟨hwedge, fun ht => Nat.le_trans (hlen ht) (Nat.min_le_left _ _)⟩, e, hholds.1,
    ⟨hholds.2.1.1.1, hholds.2.1.2⟩, hholds.2.2⟩

/-- The listen window of a retry. -/
theorem yieldBus_spec (hQ : Debtless t Q) (hheld : c.held = true) (hwant : c.want = true)
    (n : Notifies) (hroom : k.Tidy → n.addr.length + 4 ≤ asfNotifyMax) :
    Triple (rules k b (.transfer x₀) t) (Holds k t c.masterMode fun s => Q s ∧ Owes k t n.addr s)
      (yieldBus b.auxSmba n) fun r s =>
        ((Bounded k c.window → r.1 = false) ∧ (k.Tidy → r.2.addr.length ≤ n.addr.length + 4)) ∧
          ∃ e, Holds k t (c.window.drained k r.1 e)
            (fun s => (Q s ∧ Owes k t r.2.addr s) ∧ (r.1 = true → s.ghost.debt = true)) s := by
  have hprivate : Private t fun s => Q s ∧ Owes k t n.addr s := hQ.private.and (owes_private _)
  unfold yieldBus
  refine Triple.bind (setListening_spec hprivate true fun _ => hwant) fun _ => ?_
  refine Triple.bind (slaveArm_spec hprivate hheld fun _ => rfl) fun _ => ?_
  refine Triple.bind (usleepRange_spec hprivate _ _) fun _ => ?_
  refine Triple.bind (holdOff_spec hprivate (Control.slaveArm_armed _).rst) fun _ => ?_
  exact drainOff_spec hQ (Control.window_ready hwant) c.window_accepting n hroom

/-- Leaving on an unexplained NAK, which the setting may exclude after a stuck bank. -/
theorem nakExit_spec {w : Bool} (hQ : Private t Q) :
    Triple (rules k b (.transfer x₀) t)
      (Holds k t c fun s => Q s ∧ (w = true → s.ghost.debt = true)) (mark .nakExit)
      fun _ s => (k.stuckExit = false → w = false) ∧ Holds k t c Q s := by
  refine own_op (fun _ => (Discipline.Stable.const _).and (stable_holds hQ))
    fun s hs hP hadm => ⟨.of_other (by simp) (by simp), fun _ s' he => ?_⟩
  obtain rfl : s = s' := (Prod.mk.inj (Option.some.inj he)).2
  refine ⟨OwnStep.refl s, fun hk => ?_, hP.1, hP.2.1⟩
  cases hw : w with
  | false => rfl
  | true =>
    have hadm' : (k.stuckExit || !s.ghost.debt) = true := hadm
    rw [hk, hP.2.2 hw] at hadm'
    exact absurd hadm' (by decide)

/-- The attempts have ended, and what was read out is on the list. -/
def Ended (k : Setting) (t : ℕ) (wanted : Bool) (Q : St → Prop) (l : List ℕ) (s : St) : Prop :=
  ∃ c : Control, c.Parked k wanted ∧ Holds k t c (fun s => Q s ∧ Owes k t l s) s

/-- One attempt up to the point where its outcome is judged. -/
theorem attempt_spec {A : Type} {f : Int × SmbusData → Piix4Asf → Driver A} {R : A → St → Prop}
    (hQ : Private t Q) (hx : x.smba = b.auxSmba) (hheld : c.held = true)
    (hclear : c.Clear k (.transfer x₀))
    (hf : ∀ r a, a.wantListen = c.want →
      Triple (rules k b (.transfer x₀) t) (Holds k t c.masterMode Q) (f r a) R) :
    Triple (rules k b (.transfer x₀) t) (Holds k t c Q)
      (do
        piix4AsfMasterMode x.smba
        let r ← piix4Access x
        let a ← piix4Asf
        f r a) R := by
  rw [hx]
  refine Triple.bind (masterMode_spec hQ hheld (hclear.spares _)) fun _ => ?_
  refine Triple.bind (access_spec hQ hx rfl) fun r => ?_
  exact Triple.bind (asf_spec (stable_holds hQ) fun _ _ hP => hP.1.want) fun a =>
    Triple.pure_pre fun ha => hf r a ha

/-- The attempts of a transfer, from banks that are clear. -/
theorem attempts_spec (left : ℕ) (hQ : Debtless t Q) (hx : x.smba = b.auxSmba)
    (hheld : c.held = true) (hlisten : c.listening = true → c.want = true)
    (hclear : c.Clear k (.transfer x₀)) (n : Notifies)
    (hroom : k.Tidy → n.addr.length + 4 * left ≤ asfNotifyMax) :
    Triple (rules k b (.transfer x₀) t) (Holds k t c fun s => Q s ∧ Owes k t n.addr s)
      (attempts x left n) fun r s =>
        (c.want = false → r.2.2 = n) ∧ Ended k t c.want Q r.2.2.addr s := by
  have hexit : ∀ {c : Control} (r : Int × SmbusData) (n : Notifies), c.held = true →
      (c.listening = true → c.want = true) → Triple (rules k b (.transfer x₀) t)
        (Holds k t c.masterMode fun s => Q s ∧ Owes k t n.addr s) (pure (r.1, r.2, n))
        fun r s => (c.want = false → r.2.2 = n) ∧ Ended k t c.want Q r.2.2.addr s :=
    fun r n hheld hlisten => Triple.ret fun s _ h =>
      ⟨fun _ => rfl, _, Control.parked_masterMode hheld hlisten, h⟩
  induction left generalizing x c n with
  | zero =>
    unfold attempts
    refine attempt_spec (hQ.private.and (owes_private _)) hx hheld hclear fun r a _ => ?_
    split
    · exact hexit r n hheld hlisten
    · exact hexit r n hheld hlisten
  | succ left ih =>
    unfold attempts
    refine attempt_spec (hQ.private.and (owes_private _)) hx hheld hclear fun r a ha => ?_
    split
    · exact hexit r n hheld hlisten
    · next hretry =>
      have hwant : c.want = true := by
        rw [← ha]
        cases hw : a.wantListen with
        | true => rfl
        | false => exact absurd (Or.inr (by rw [hw]; rfl)) hretry
      have hyield : Triple (rules k b (.transfer x₀) t) _ (yieldBus b.auxSmba n) _ :=
        yieldBus_spec hQ hheld hwant n fun ht => by
          have hfit := hroom ht
          omega
      rw [← hx] at hyield
      refine Triple.bind hyield fun y => Triple.pure_pre fun hy => Triple.exists_pre fun e => ?_
      obtain ⟨w, n'⟩ := y
      have hbounded : Bounded k c.window → w = false := hy.1
      have htidy : k.Tidy → w = false := fun ht => hbounded ht.bounded
      dsimp only
      split
      · -- an address NAK that no message of the target explains
        refine Triple.bind (nakExit_spec (hQ.private.and (owes_private _))) fun _ =>
          Triple.pure_pre fun hexcluded => Triple.ret fun s _ h => ⟨fun hno => ?_, _,
            Control.parked_window hheld hwant fun hk => ?_, h⟩
        · exact absurd (hwant.symm.trans hno) (by decide)
        · rcases hk with hk | ht
          · exact hk.2.2.elim hexcluded htidy
          · exact htidy ht
      · have hsame : (c.window.drained k w e).want = c.want := by
          rw [Control.window_eq]
          rfl
        have hrest := ih (x := { x with data := r.2 }) (c := c.window.drained k w e) hx
          (by rw [Control.window_eq]; exact hheld) (fun _ => hsame.trans hwant)
          (Control.clear_drained c.window_accepting hbounded) n' fun ht => by
            have hfit := hroom ht
            have hlen := hy.2 ht
            dsimp only at hlen
            omega
        rw [hsame] at hrest
        exact Triple.post (Triple.pre hrest fun s _ h => ⟨h.1, h.2.1⟩) fun r s _ h =>
          ⟨fun hno => absurd (hwant.symm.trans hno) (by decide), h.2⟩

/-! ## The critical section -/

/-- Before the attempts: the banks are clear, and what was read out is on the list. -/
structure Control.Entered (k : Setting) (call : Call) (c c' : Control) (n : Notifies) : Prop where
  held : c'.held = true
  want : c'.want = c.want
  listening : c'.listening = true → c'.want = true
  clear : c'.Clear k call
  room : k.Tidy → n.addr.length ≤ 4
  none : c.want = false → n = Notifies.none

/-- A settled slave that is not listening may be reset. -/
theorem Control.Settled.clear (h : c.Settled k) (hlisten : c.listening = false) :
    (c.setHeld true).Clear k call where
  tidy ht := by
    have hsilent := h.silent hlisten ht.known (Or.inl (Or.inr ht.2.2.1))
    have hclosed := h.closed hlisten ht.known
    exact ⟨hsilent.clean, by simp [Control.setHeld, Control.accepting, hclosed], h.kept ht⟩
  guards hg := by
    have hsilent := h.silent hlisten hg.1.2.2 (Or.inl hg.2.1)
    have hclosed := h.closed hlisten hg.1.2.2
    exact ⟨hsilent.clean, by simp [Control.setHeld, Control.accepting, hclosed]⟩

/-- The first drain of a transfer, if the slave was listening. -/
theorem drainListening_spec (hQ : Debtless t Q) (hc : c.Settled k) :
    Triple (rules k b (.transfer x₀) t) (Holds k t (c.setHeld true) fun s => Q s ∧ Owes k t [] s)
      (drainListening b.auxSmba) fun n s => ∃ c', c.Entered k (.transfer x₀) c' n ∧
        Holds k t c' (fun s => Q s ∧ Owes k t n.addr s) s := by
  have hprivate : Private t fun s => Q s ∧ Owes k t [] s := hQ.private.and (owes_private _)
  unfold drainListening
  refine Triple.bind (asf_spec (F := fun a => a.listening = c.listening) (stable_holds hprivate)
    fun _ _ hP => hP.1.listening) fun a => Triple.pure_pre fun ha => ?_
  rw [ha]
  cases hl : c.listening with
  | false =>
    have hclear : (c.setHeld true).Clear k (.transfer x₀) := hc.clear hl
    rw [if_neg (by decide)]
    refine Triple.ret fun s _ h => ⟨c.setHeld true, ⟨rfl, rfl, fun hyes => ?_, hclear,
      fun _ => Nat.zero_le _, fun _ => rfl⟩, h⟩
    exact absurd (hyes.symm.trans hl) (by decide)
  | true =>
    rw [if_pos rfl]
    have hwant := hc.want hl
    have harmed := hc.armed hl
    have hready : (c.setHeld true).holdOff.Ready k := by
      rw [Control.holdOff_eq]
      exact ⟨hl, hwant, harmed.dataEn, hc.kept, hc.calm⟩
    have hacc : (c.setHeld true).holdOff.accepting = false := Control.holdOff_accepting _
    refine Triple.bind (holdOff_spec hprivate harmed.rst) fun _ => ?_
    refine Triple.bind (drainOff_spec hQ hready hacc Notifies.none fun _ => by decide)
      fun r => Triple.pure_pre fun hr => Triple.exists_pre fun e => Triple.ret fun s _ h => ?_
    have hsame : ((c.setHeld true).holdOff.drained k r.1 e).want = c.want := by
      rw [Control.holdOff_eq]
      rfl
    refine ⟨_, ⟨?_, hsame, fun _ => hsame.trans hwant, Control.clear_drained hacc hr.1, fun ht => ?_,
      fun hno => ?_⟩, h.1, h.2.1⟩
    · rw [Control.holdOff_eq]
      rfl
    · exact hr.2 ht
    · exact absurd (hwant.symm.trans hno) (by decide)

/-- What the critical section of a transfer leaves. -/
structure Control.Left (k : Setting) (l : List ℕ) (c : Control) : Prop where
  held : c.held = true
  settled : (c.setHeld false).Settled k
  none : c.want = false → l = []

/-- The part of `piix4_access_asf` under the mutex and the region. -/
theorem accessAsfLocked_spec (hQ : Debtless t Q) (hc : c.Settled k) (hx : x.smba = b.auxSmba) :
    Triple (rules k b (.transfer x₀) t) (Holds k t (c.setHeld true) fun s => Q s ∧ Owes k t [] s)
      (accessAsfLocked x) fun r s => ∃ c' : Control, c'.Left k r.2.2.addr ∧
        Holds k t c' (fun s => Q s ∧ Owes k t r.2.2.addr s) s := by
  unfold accessAsfLocked
  rw [hx]
  refine Triple.bind (drainListening_spec hQ hc) fun n => Triple.exists_pre fun c₁ =>
    Triple.pure_pre fun h₁ => ?_
  refine Triple.bind (attempts_spec asfXferRetries hQ hx h₁.held h₁.listening h₁.clear n
    fun ht => ?_) fun r => Triple.pure_pre fun hr => Triple.exists_pre fun c₂ =>
      Triple.pure_pre fun h₂ => ?_
  · calc n.addr.length + 4 * asfXferRetries ≤ 4 + 4 * asfXferRetries :=
        Nat.add_le_add_right (h₁.room ht) _
      _ = asfNotifyMax := rfl
  have hprivate : Private t fun s => Q s ∧ Owes k t r.2.2.addr s := hQ.private.and (owes_private _)
  obtain ⟨result, data, n'⟩ := r
  refine Triple.bind (asf_spec (F := fun a => a.wantListen = c₁.want) (stable_holds hprivate)
    fun _ _ hP => hP.1.want.trans h₂.want) fun a => Triple.pure_pre fun ha => ?_
  rw [ha]
  cases hwant : c₁.want with
  | false =>
    rw [hwant] at h₂
    refine Triple.ret fun s _ h => ⟨c₂, ⟨h₂.held, h₂.rest, fun _ => ?_⟩, h⟩
    have hn : n' = n := hr hwant
    rw [hn, h₁.none (h₁.want.symm.trans hwant)]
    rfl
  | true =>
    rw [hwant] at h₂
    refine Triple.bind (setListening_spec hprivate true fun _ => h₂.want) fun _ => ?_
    refine Triple.bind (slaveArm_spec hprivate h₂.held fun hk => (h₂.ready hk).2) fun _ => ?_
    refine Triple.ret fun s _ h => ⟨c₂.rearm, ⟨h₂.held, h₂.rearm, fun hno => ?_⟩, h⟩
    exact absurd (h₂.want.symm.trans hno) (by decide)

/-! ## The call -/

/-- The thread is a transfer on the auxiliary adapter. -/
def Transferring (t : ℕ) (s : St) : Prop := t ∈ s.life.aux

/-- That a transfer is in progress says nothing about owed messages. -/
theorem transferring_debtless : Debtless t (Transferring t) := fun _ _ hk h => hk.aux h

/-- While a transfer is in progress the block is not being claimed. -/
theorem Inv.notEnabling (h : Inv k b s) (ht : Transferring t s) : s.life.enabling = false := by
  cases hen : s.life.enabling with
  | false => rfl
  | true =>
    have hnone : t ∈ s.life.aux := ht
    rw [(h.alone hen).1] at hnone
    cases hnone

/-- The adapter is a plain one, and a transfer on it owes nothing. -/
structure Plain (k : Setting) (t : ℕ) (s : St) : Prop where
  transferring : Transferring t s
  inactive : s.asf.active = false
  owes : Owes k t [] s

/-- What a plain transfer knows is its own. -/
theorem plain_private : Private t (Plain k t) := fun s s' hk h =>
  ⟨hk.aux h.transferring, hk.plain h.transferring h.inactive, owes_private [] s s' hk h.owes⟩

/-- A transfer on the plain adapter. -/
theorem accessPlain_spec (hx : x.smba = b.auxSmba) :
    Triple (rules k b call t) (Outside t (Plain k t)) (piix4Access x)
      fun _ => Outside t (Plain k t) := by
  have hplain : (piix4Access x).AllOps (Op.Plain (DataPort b)) :=
    piix4Access_plain (hx ▸ permits_aux b)
  refine Triple.of_allOps (stable_outside plain_private) hplain
    fun o s ho hs hP _ => ⟨.of_plain ho, fun r s' he => ?_⟩
  rcases plain_cases ho he with rfl | ⟨_, rfl⟩
  · exact ⟨fun u hu => Or.inr ((OwnStep.refl s').foreign hu), hs, hP⟩
  · have hfree : s.engaged = false := by
      simp [St.engaged, hP.1.inactive, hs.notEnabling hP.1.transferring]
    have hown : OwnStep k t s s.readByte := .readByte (Or.inr hfree)
    exact ⟨fun u hu => Or.inr (hown.foreign hu), hown.inv hs,
      plain_private _ _ (hown.keeps rfl) hP.1, hP.2⟩

/-- The state after a transfer has returned. -/
def St.transferred (s : St) (t : ℕ) : St :=
  { s with life := { s.life with aux := s.life.aux.filter (· ≠ t) } }

/-- To another thread the end of a transfer is a foreign step. -/
theorem foreign_transferred (hu : u ≠ t) : Foreign k u s (s.transferred t) where
  holder := id
  block _ _ := ⟨rfl, fun h => ⟨h, rfl, rfl⟩, rfl, rfl, rfl, rfl, rfl, rfl, rfl, rfl, rfl, rfl⟩
  region hr := ⟨hr, rfl, rfl⟩
  owed := rfl
  owner ho := ⟨ho, rfl⟩
  thread hr := ⟨hr, rfl⟩
  quiet _ hp := hp
  aux ha := List.mem_filter.mpr ⟨ha, by simpa using hu⟩
  plain _ hp := hp
  unlocked := id
  delivering _ hd := hd

/-- The end of a transfer keeps the invariant. -/
theorem Inv.transferred (h : Inv k b s) (hfree : s.mutex ≠ some t) : Inv k b (s.transferred t) where
  idle hnone hactive := by
    obtain ⟨c, hset, hview⟩ := h.idle hnone hactive
    exact ⟨c, hset, hview.of_sameBlock
      ⟨rfl, fun h => ⟨h, rfl, rfl⟩, rfl, rfl, rfl, rfl, rfl, rfl, rfl, rfl, rfl, rfl⟩ rfl
      fun _ => rfl⟩
  core := h.core
  masked := h.masked
  deaf := h.deaf
  alone hen := by
    refine ⟨?_, (h.alone hen).2⟩
    have hnone : s.life.aux = [] := (h.alone hen).1
    simp [St.transferred, hnone]
  unregistered := h.unregistered
  plain := h.plain
  owned := h.owned
  locked u hu := by
    refine (h.locked u hu).imp (fun ha => List.mem_filter.mpr ⟨ha, ?_⟩) id
    have hne : u ≠ t := fun heq => hfree (heq ▸ hu)
    simpa using hne
  world := h.world
  sound hk := ⟨(h.sound hk).errorless, (h.sound hk).unstuck⟩
  intact ht := (h.intact ht).congr (fun _ => rfl) rfl rfl rfl (h.intact ht).reset

/-- Returning from a transfer that owes nothing. -/
theorem transferDone_spec :
    Triple (rules k b call t) (fun s => (k.Tidy → s.ghost.owed t = []) ∧ s.mutex ≠ some t)
      (perform .transferDone) fun _ s => k.Tidy → s.ghost.owed t = [] := by
  refine Triple.perform (fun _ => stable_private owesNothing_private) fun s hs hP _ =>
    ⟨.of_other (by simp) (by simp), fun _ s' he => ?_⟩
  obtain rfl : s.transferred t = s' := (Prod.mk.inj (Option.some.inj he)).2
  exact ⟨fun u hu => Or.inr (foreign_transferred hu), hs.transferred hP.2, hP.1⟩

/-- Inside the mutex: a settled view if the block is claimed, and the plain adapter if not. -/
def Inside (k : Setting) (t : ℕ) (s : St) : Prop :=
  (∃ c : Control, c.Settled k ∧ Holds k t c (fun s => Transferring t s ∧ Owes k t [] s) s) ∨
    (Plain k t s ∧ s.mutex = some t)

/-- What a transfer knows is its own. -/
theorem transferring_private (l : List ℕ) :
    Private t fun s => Transferring t s ∧ Owes k t l s :=
  transferring_debtless.private.and (owes_private l)

/-- What a transfer knows under the mutex is stable. -/
theorem stable_inside : (rules k b call t).Stable (Inside k t) :=
  (Discipline.Stable.exists fun _ => (Discipline.Stable.const _).and
    (stable_holds (transferring_private []))).or ((stable_private plain_private).and stable_locked)

/-- Taking the mutex for a transfer. -/
theorem lockTransfer_spec :
    Triple (rules k b call t) (fun s => Transferring t s ∧ Owes k t [] s) (lock .asf)
      fun _ => Inside k t := by
  refine lock_spec stable_inside (fun s h => Or.inl h.1) fun s hs h hfree => ?_
  cases hactive : s.asf.active with
  | true =>
    obtain ⟨c, hset, hview⟩ := hs.settled hfree hactive t
    exact Or.inl ⟨c, hset, hview, h⟩
  | false => exact Or.inr ⟨⟨h.1, hactive, h.2⟩, rfl⟩

/-- Under a view, the block is claimed. -/
theorem Holds.claimed (h : Holds k t c Q s) (hs : Inv k b s) (ht : Transferring t s) :
    s.asf.active = true ∧ s.asf.useMmio = true := by
  have hengaged := h.1.engaged
  unfold St.engaged at hengaged
  rw [hs.notEnabling ht, Bool.or_false] at hengaged
  exact ⟨hengaged, (hs.claimed hengaged).2⟩

/-- Looking whether the block is claimed. -/
theorem readActive_spec :
    Triple (rules k b call t) (Inside k t) piix4Asf fun a s =>
      (a.active = true ∧ ∃ c : Control, c.Settled k ∧
        Holds k t c (fun s => Transferring t s ∧ Owes k t [] s) s) ∨
      (a.active = false ∧ Plain k t s ∧ s.mutex = some t) := by
  refine own_op (fun a => ?_) fun s hs hP _ => ⟨.of_other (by simp) (by simp), fun a s' he => ?_⟩
  · exact ((Discipline.Stable.const _).and (Discipline.Stable.exists fun _ =>
      (Discipline.Stable.const _).and (stable_holds (transferring_private [])))).or
      ((Discipline.Stable.const _).and ((stable_private plain_private).and stable_locked))
  · obtain ⟨rfl, rfl⟩ := Prod.mk.inj (Option.some.inj he)
    refine ⟨OwnStep.refl s, hP.imp (fun h => ?_) fun h => ⟨h.1.inactive, h⟩⟩
    obtain ⟨c, hset, hholds⟩ := h
    exact ⟨(hholds.claimed hs hholds.2.1).1, c, hset, hholds⟩

/-- `piix4_access_asf` hands over all the messages it takes. -/
theorem piix4AccessAsf_spec (hx : x.smba = b.auxSmba) :
    Triple (rules k b (.transfer x₀) t) (fun s => Transferring t s ∧ Owes k t [] s)
      (piix4AccessAsf x) fun _ s => (k.Tidy → s.ghost.owed t = []) ∧ s.mutex ≠ some t := by
  unfold piix4AccessAsf
  refine Triple.bind lockTransfer_spec fun _ => ?_
  refine Triple.bind readActive_spec fun a => ?_
  cases ha : a.active with
  | false =>
    rw [if_pos (by rfl)]
    refine Triple.pre (P := fun s => Plain k t s ∧ s.mutex = some t) ?_ fun s _ h => ?_
    · refine Triple.bind (unlock_spec (stable_outside plain_private) (fun s h => h.2)
        (fun s _ h hact => absurd (hact.symm.trans h.1.inactive) (by decide))
        fun s _ h => ⟨plain_private _ _ (keeps_setMutex none) h.1, nofun⟩) fun _ => ?_
      exact Triple.post (accessPlain_spec hx) fun _ s _ h => ⟨h.1.owes.nil, h.2⟩
    · exact (h.resolve_left fun h' => absurd h'.1 (by decide)).2
  | true =>
    rw [if_neg (by decide)]
    refine Triple.pre (P := fun s => ∃ c : Control, c.Settled k ∧
      Holds k t c (fun s => Transferring t s ∧ Owes k t [] s) s) ?_ fun s _ h =>
      (h.resolve_right fun h' => absurd h'.1 (by decide)).2
    refine Triple.exists_pre fun c => Triple.pure_pre fun hc => ?_
    have hprivate : Private t fun s => Transferring t s ∧ Owes k t [] s := transferring_private []
    refine Triple.bind (asf_spec (F := fun a => a.useMmio = true) (stable_holds hprivate)
      fun s hs hP => (hP.claimed hs hP.2.1).2) fun a => Triple.pure_pre fun hmmio => ?_
    rw [hmmio]
    refine Triple.bind (tryRequest_spec hprivate hc.released) fun r => ?_
    by_cases hr : r = 0
    · rw [if_neg (not_not.mpr hr)]
      refine Triple.pre (P := Holds k t (c.setHeld true) fun s => Transferring t s ∧ Owes k t [] s)
        ?_ fun s _ h => (h.resolve_right fun h' => h'.1 hr).2
      refine Triple.bind (accessAsfLocked_spec transferring_debtless hc hx) fun y =>
        Triple.exists_pre fun c' => Triple.pure_pre fun hc' => ?_
      have hafter : Private t fun s => Transferring t s ∧ Owes k t y.2.2.addr s :=
        transferring_private _
      obtain ⟨result, data, n⟩ := y
      refine Triple.bind (asf_spec (F := fun a => a.useMmio = true) (stable_holds hafter)
        fun s hs hP => (hP.claimed hs hP.2.1).2) fun a => Triple.pure_pre fun hmmio => ?_
      rw [hmmio]
      refine Triple.bind (holdsRelease_spec hafter hc'.held) fun _ => ?_
      refine Triple.bind (noteHolds_spec hafter trivial fun _ _ => .of_other (by simp) (by simp))
        fun _ => ?_
      refine Triple.bind (unlockDue_spec transferring_debtless.private hc'.settled n.addr hc'.none)
        fun _ => ?_
      refine Triple.bind (deliver_spec transferring_debtless n) fun _ => ?_
      exact Triple.ret fun s _ h => ⟨h.2, h.1.2⟩
    · rw [if_pos hr]
      refine Triple.pre (P := Holds k t c fun s => Transferring t s ∧ Owes k t [] s)
        ?_ fun s _ h => (h.resolve_left fun h' => hr h'.1).2
      refine Triple.bind (unlock_spec (stable_outside hprivate) (fun s h => h.1.holder)
        (fun s _ h _ => ⟨c, hc, h.1⟩) fun s _ h =>
          ⟨hprivate _ _ (keeps_setMutex none) h.2, nofun⟩) fun _ => ?_
      exact Triple.ret fun s _ h => ⟨h.1.2.nil, h.2⟩

end HostNotify
