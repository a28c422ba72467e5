import HostNotify.Operations

/-!
# Mode switches

`piix4_asf_master_mode`, `piix4_asf_slave_arm` and the code that takes the slave off the
bus carry out the control state's mode switches, under any interference.
-/

namespace HostNotify

open Bits Interleaving

variable {k : Setting} {b : Board} {c : Control} {t : ℕ} {call : Call} {Q : St → Prop}

/-- Taking the slave off the bus first spares at least as much. -/
theorem Spares.setListn (h : Spares k call c Q) : Spares k call (c.setListn false) Q := by
  have hacc : (c.setListn false).accepting = false := by
    simp [Control.setListn, Control.setLisaddr, Control.accepting]
  have hclean : c.clean = true → c.accepting = false → (c.setListn false).clean = true := by
    intro hc ha
    simp [Control.setListn, Control.setLisaddr, hc, ha]
  refine ⟨fun ht => ?_, fun hg => ⟨hclean (h.guards hg).1 (h.guards hg).2, hacc⟩⟩
  rcases h.tidy ht with ⟨hc, ha, hk⟩ | hinactive
  · exact Or.inl ⟨hclean hc ha, hacc, hk⟩
  · exact Or.inr hinactive

/-- Setting SLV_INTR spares what was spared. -/
theorem Spares.setIntr (h : Spares k call c Q) (v : Bool) : Spares k call (c.setIntr v) Q :=
  ⟨h.tidy, h.guards⟩

/-- `piix4_asf_master_mode` from a state whose banks may be reset. -/
theorem masterMode_spec (hQ : Private t Q) (hheld : c.held = true) (h : Spares k call c Q) :
    Triple (rules k b call t) (Holds k t c Q) (piix4AsfMasterMode b.auxSmba)
      fun _ => Holds k t c.masterMode Q := by
  unfold piix4AsfMasterMode
  refine Triple.bind (updateListn_spec hQ false) fun _ => ?_
  refine Triple.bind (updateIntr_spec hQ false fun hg _ => (h.setListn.guards hg).1) fun _ => ?_
  refine Triple.bind (setRst_spec hQ (h.setListn.setIntr false)) fun _ => ?_
  refine Triple.bind (clearSlvSta_spec hQ) fun _ => ?_
  refine Triple.bind (updateMstr_spec hQ true hheld) fun _ => ?_
  exact bnkselDataEn_spec hQ true

/-- `piix4_asf_slave_arm` once listening is set. -/
theorem slaveArm_spec (hQ : Private t Q) (hheld : c.held = true)
    (hdebt : k.Rearms → c.debt = false) :
    Triple (rules k b call t) (Holds k t c Q) (piix4AsfSlaveArm b.auxSmba)
      fun _ => Holds k t c.slaveArm Q := by
  unfold piix4AsfSlaveArm
  refine Triple.bind (armBegin_spec hQ hdebt) fun _ => ?_
  refine Triple.bind (outb_host_spec 0 (stable_holds hQ) (decode_smbHstSts _)) fun _ => ?_
  refine Triple.bind (clearStatus_spec hQ) fun _ => ?_
  refine Triple.bind (bnkselDataEn_spec hQ false) fun _ => ?_
  refine Triple.bind (writeLisaddr_spec hQ _) fun _ => ?_
  refine Triple.bind (updateMstr_spec hQ false hheld) fun _ => ?_
  refine Triple.bind (updateClk_spec hQ true hheld) fun _ => ?_
  refine Triple.bind (updateHost_spec _ _ (stable_holds hQ) (decode_smbHstCnt _)) fun _ => ?_
  refine Triple.bind (updateHost_spec _ _ (stable_holds hQ) (decode_smbHstCnt _)) fun _ => ?_
  refine Triple.bind (clearRst_spec hQ) fun _ => ?_
  exact updateIntr_spec hQ true fun _ hr => by cases hr

/-- Stop listening, mask the slave interrupt and wait for the handler. -/
theorem holdOff_spec (hQ : Private t Q) (hrst : c.rst = false) :
    Triple (rules k b call t) (Holds k t c Q) (holdOff b.auxSmba)
      fun _ => Holds k t c.holdOff Q := by
  unfold holdOff
  refine Triple.bind (updateListn_spec hQ false) fun _ => ?_
  refine Triple.bind (updateIntr_spec hQ false fun _ hr => ?_) fun _ => ?_
  · exact absurd (hr.symm.trans hrst) (by decide)
  · exact synchronizeHardirq_spec hQ

/-- Set listening and arm: from banks that nothing can have reached, the slave ends up
settled. -/
def Control.rearm (c : Control) : Control := (c.setListening true).slaveArm

/-- A slave that is armed from clear banks is settled. -/
theorem Control.settled_rearm (hwant : c.want = true)
    (hready : k.Rearms → (c.clean = true ∧ c.debt = false) ∧ c.accepting = false)
    (hkept : k.Tidy → c.kept = true) (hcalm : k.firmware = false → c.calm = true) :
    (c.rearm.setHeld false).Settled k := by
  have harmed : c.rearm.Armed := Control.slaveArm_armed _
  unfold Control.rearm at harmed ⊢
  rw [Control.slaveArm_eq] at harmed ⊢
  exact {
    released := rfl
    want := fun _ => hwant
    armed := fun _ => ⟨harmed.lisaddr, harmed.rst, harmed.intr, harmed.dataEn, harmed.mstr,
      harmed.clk⟩
    held := fun _ hk => by
      obtain ⟨⟨hclean, hdebt⟩, hacc⟩ := hready hk
      have hopen : (c.setListening true).clean = true := by
        simp [Control.setListening, hclean, hacc]
      have hclosed : (c.setListening true).accepting = false := hacc
      exact ⟨by simp only [Control.setHeld, hopen, hclosed, Bool.not_false, Bool.and_true], hdebt⟩
    closed := nofun
    silent := nofun
    kept := hkept
    calm := hcalm
    flushed := fun _ _ => rfl
    resetting := fun _ => rfl }

end HostNotify
