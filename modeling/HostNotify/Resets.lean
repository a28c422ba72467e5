import HostNotify.Listening

/-!
# Resets and stuck banks

A slave reset empties both banks, which is wrong while they hold messages and necessary once
a flag is stuck. When a reset discards a message, and when a stuck bank is armed again.
-/

namespace HostNotify

open Bits Interleaving

variable {k : Setting} {b : Board} {p : Pool St Op Op.Ans Call} {i : ℕ} {c : Call}

/-- Port writes and marks on the way to arming are never kept from happening. -/
theorem admits_outb (v : Byte) (port : ℕ) (s : St) : k.admits c (.outb v port) s = true := by
  cases c <;> rfl

/-- Arming the slave is always admitted. -/
theorem admits_armBegin (s : St) : k.admits c (.mark .armBegin) s = true := by
  cases c <;> rfl

/-! ## Resets discard no message -/

/-- No thread's next step is a reset that discards a message `piix4_asf_process_bank` has not
read, if the IRQ thread never finds the region busy when it has to reset the slave. -/
theorem reset_discards_nothing (hk : k.Reliable) (hbusy : k.busyReset = false)
    (h : p.Reachable (machine k b) (Unbound k)) (hserv : c.service = true) {v : Byte} {port : ℕ}
    (hi : p.next i = some (c, .outb v port)) (hport : decode b.auxSmba port = some .slven)
    (hreset : getElem v 4 (fits rfl) = true) (j : Bool) :
    ((p.shared.hw.bank j).full && (p.shared.hw.bank j).unread) = false := by
  have hok := (covered h).next_ok hi (admits_outb v port p.shared)
  exact hok.reset ⟨hk, Or.inl hbusy, hserv⟩ v port rfl hport hreset j

/-- Receptions do not fail, flags clear as told, and firmware keeps away. -/
def Setting.faultless : Setting :=
  { Setting.all with firmware := false, errors := false, stuck := false }

/-- The next operation of a thread is a write of ASFSLVEN that resets the slave. -/
def resetsNext (p : Pool St Op Op.Ans Call) (i : ℕ) : Bool :=
  match p.next i with
  | some (c, .outb v port) =>
    c.service && decide (decode Board.described.auxSmba port = some .slven) && v.getLsbD 4
  | _ => false

/-- The thread is about to set SLV_RST. -/
theorem resetsNext_some (h : resetsNext p i = true) : ∃ c v port,
    p.next i = some (c, .outb v port) ∧ c.service = true ∧
      decode Board.described.auxSmba port = some .slven ∧ getElem v 4 (fits rfl) = true := by
  unfold resetsNext at h
  split at h
  · next c v port hi =>
    simp only [Bool.and_eq_true, decide_eq_true_eq] at h
    exact ⟨c, v, port, hi, h.1.1, h.1.2, h.2⟩
  · cases h

/-- A message arrives after a transfer has got the region. -/
def messageInTransfer : List (Action Call Event) :=
  bringUp ++ .call (.transfer readByte2c) :: advance 3 4 ++ [arrival]

/-- The message that arrives is drained before the transfer resets the slave. -/
theorem reset_discards_nothing_drained :
    (∃ p, outcome { Setting.faultless with busyReset := false } messageInTransfer = some p ∧
      ((p.shared.hw.bank false).full && (p.shared.hw.bank false).unread) = true) ∧
    ∃ p, outcome { Setting.faultless with busyReset := false } (messageInTransfer ++ advance 3 32) = some p ∧
      resetsNext p 3 = true ∧ p.shared.ghost.owed 3 = [0x2c] ∧
      ((p.shared.hw.bank false).full && (p.shared.hw.bank false).unread) = false := by
  refine ⟨exists_outcome { Setting.faultless with busyReset := false } messageInTransfer
    (fun p => (p.shared.hw.bank false).full && (p.shared.hw.bank false).unread) (by decide +kernel), ?_⟩
  obtain ⟨p, hp, hstate⟩ := exists_outcome { Setting.faultless with busyReset := false }
    (messageInTransfer ++ advance 3 32)
    (fun p => resetsNext p 3 && decide (p.shared.ghost.owed 3 = [0x2c])) (by decide +kernel)
  rw [Bool.and_eq_true, decide_eq_true_eq] at hstate
  obtain ⟨hnext, howed⟩ := hstate
  obtain ⟨c, v, port, hi, hserv, hport, hreset⟩ := resetsNext_some hnext
  exact ⟨p, hp, hnext, howed, reset_discards_nothing ⟨rfl, rfl, rfl⟩ rfl (outcome_reachable hp) hserv hi
    hport hreset false⟩

/-- Messages keep arriving while the IRQ thread drains and finds the region busy; the next
transfer then skips the drain. -/
def floodedWhileBusy : List (Action Call Event) :=
  bringUp ++ [arrival, .event .hardIrq, regionTaken, .call .irqThread] ++ advance 3 16 ++
    arrival :: ((List.replicate 7 (advance 3 15 ++ [arrival])).flatten ++ advance 3 24 ++
      [.event (.world St.loaded.world), .call (.transfer readByte2c)] ++ advance 4 11)

/-- The transfer resets the slave over an unread message. -/
theorem reset_discards_message : ∃ (p : Pool St Op Op.Ans Call) (c : Call) (v : Byte) (port : ℕ),
    p.Reachable (machine Setting.faultless Board.described) (Unbound Setting.faultless) ∧
      c.service = true ∧ p.next 4 = some (c, .outb v port) ∧
      decode Board.described.auxSmba port = some .slven ∧ getElem v 4 (fits rfl) = true ∧
      (p.shared.hw.bank false).full = true ∧ (p.shared.hw.bank false).unread = true := by
  obtain ⟨p, hp, hstate⟩ := exists_outcome Setting.faultless floodedWhileBusy
    (fun p => resetsNext p 4 && (p.shared.hw.bank false).full && (p.shared.hw.bank false).unread)
    (by decide +kernel)
  simp only [Bool.and_eq_true] at hstate
  obtain ⟨c, v, port, hi, hserv, hport, hreset⟩ := resetsNext_some hstate.1.1
  exact ⟨p, c, v, port, outcome_reachable hp, hserv, hi, hport, hreset, hstate.1.2, hstate.2⟩

/-! ## Stuck banks are reset before the slave is armed -/

/-- The next operation of a thread is the first of `piix4_asf_slave_arm`. -/
def Pool.ArmsNext (p : Pool St Op Op.Ans Call) (i : ℕ) : Prop :=
  ∃ c, p.next i = some (c, .mark .armBegin)

/-- If no transfer ends on an unexplained NAK with a stuck bank behind it, a bank that a drain
reported stuck is reset before the slave is armed again, and a block that listens has every
full bank signalled while the mutex is free. -/
theorem stuck_bank_reset (hk : k.firmware = false) (hrestart : k.restart = false)
    (hexit : k.stuckExit = false) (h : p.Reachable (machine k b) (Unbound k)) :
    (∀ i, Pool.ArmsNext p i → p.shared.ghost.debt = false) ∧
      (p.shared.mutex = none → p.shared.asf.active = true → p.shared.asf.listening = true →
        p.shared.Signalled) := by
  refine ⟨fun i hi => ?_, fun hfree hactive hlisten => ?_⟩
  · obtain ⟨c, hi⟩ := hi
    have hok := (covered h).next_ok hi (admits_armBegin p.shared)
    exact hok.arm ⟨hk, hrestart, Or.inl hexit⟩ rfl
  · obtain ⟨d, hset, hview⟩ := (reachable_inv h).idle hfree hactive
    have hl : d.listening = true := hview.listening.symm.trans hlisten
    have hclean := (hset.held hl ⟨hk, hrestart, Or.inl hexit⟩).1
    exact (hview.sees (Or.inl hk)).signalled hclean (hset.armed hl).accepting hl

/-- The driver as it is loaded once, with every fault of the hardware. -/
def Setting.once : Setting := { Setting.undisturbed with restart := false }

/-- A transfer to an absent device; the message of another device arrives in the listen window
and its bank gets stuck. -/
def nakWithStuckBank : List (Action Call Event) :=
  bringUp ++ .call (.transfer readByte2c) :: advance 3 35 ++
    .event (.world { St.loaded.world with bus := 0x04 }) :: advance 3 28 ++
    [.event (.receive false [0x10, 0x60, 0x00, 0x00] 3), .event (.stick false)]

/-- The next operation of a thread is the mark at the start of `piix4_asf_slave_arm`. -/
def armsNext (p : Pool St Op Op.Ans Call) (i : ℕ) : Bool :=
  match p.next i with
  | some (_, .mark .armBegin) => true
  | _ => false

/-- The thread is about to arm the slave. -/
theorem armsNext_some (h : armsNext p i = true) : Pool.ArmsNext p i := by
  unfold armsNext at h
  split at h
  · next c hi => exact ⟨c, hi⟩
  · cases h

/-- The bank of a message is stuck when a transfer begins. -/
def transferAfterStuck : List (Action Call Event) :=
  bringUp ++ [arrival, .event (.stick false), .call (.transfer readByte2c)]

/-- The stuck bank that the drain reports is reset before the slave is armed again. -/
theorem stuck_bank_reset_transfer :
    (∃ p, outcome { Setting.once with stuckExit := false } (transferAfterStuck ++ advance 3 134) = some p ∧
      p.shared.ghost.debt = true) ∧
    (∃ p, outcome { Setting.once with stuckExit := false } (transferAfterStuck ++ advance 3 161) = some p ∧
      Pool.ArmsNext p 3 ∧ p.shared.ghost.debt = false) ∧
    ∃ p, outcome { Setting.once with stuckExit := false } (transferAfterStuck ++ advance 3 206) = some p ∧
      p.shared.asf.listening = true ∧ p.shared.Signalled := by
  refine ⟨exists_outcome { Setting.once with stuckExit := false } (transferAfterStuck ++ advance 3 134)
    (fun p => p.shared.ghost.debt) (by decide +kernel), ?_, ?_⟩
  · obtain ⟨p, hp, hnext⟩ := exists_outcome { Setting.once with stuckExit := false }
      (transferAfterStuck ++ advance 3 161) (fun p => armsNext p 3) (by decide +kernel)
    have harms := armsNext_some hnext
    exact ⟨p, hp, harms, (stuck_bank_reset rfl rfl rfl (outcome_reachable hp)).1 3 harms⟩
  · obtain ⟨p, hp, hstate⟩ := exists_outcome { Setting.once with stuckExit := false }
      (transferAfterStuck ++ advance 3 206)
      (fun p => p.shared.mutex.isNone && p.shared.asf.active && p.shared.asf.listening) (by decide +kernel)
    simp only [Bool.and_eq_true, Option.isNone_iff_eq_none] at hstate
    exact ⟨p, hp, hstate.2,
      (stuck_bank_reset rfl rfl rfl (outcome_reachable hp)).2 hstate.1.1 hstate.1.2 hstate.2⟩

/-- After the NAK the slave is armed with the bank stuck, and no signal comes. -/
theorem stuck_bank_armed :
    (∃ p : Pool St Op Op.Ans Call,
      p.Reachable (machine Setting.once Board.described) (Unbound Setting.once) ∧
        Pool.ArmsNext p 3 ∧ p.shared.ghost.debt = true) ∧
    ∃ p : Pool St Op Op.Ans Call,
      p.Reachable (machine Setting.once Board.described) (Unbound Setting.once) ∧
        (p.returned 3).isSome = true ∧ p.shared.mutex = none ∧ p.shared.asf.listening = true ∧
        getElem p.shared.hw.slven 1 (fits rfl) = true ∧ (p.shared.hw.bank false).full = true ∧
        getElem p.shared.hw.sta 6 (fits rfl) = false ∧ p.shared.irq.due = false := by
  constructor
  · obtain ⟨p, hp, hstate⟩ := exists_outcome Setting.once (nakWithStuckBank ++ advance 3 132)
      (fun p => armsNext p 3 && p.shared.ghost.debt) (by decide +kernel)
    simp only [Bool.and_eq_true] at hstate
    exact ⟨p, outcome_reachable hp, armsNext_some hstate.1, hstate.2⟩
  · obtain ⟨p, hp, hstate⟩ := exists_outcome Setting.once (nakWithStuckBank ++ advance 3 177)
      (fun p => (p.returned 3).isSome && p.shared.mutex.isNone && p.shared.asf.listening &&
        p.shared.hw.slven[1] && (p.shared.hw.bank false).full && !p.shared.hw.sta[6] &&
        !p.shared.irq.due) (by decide +kernel)
    simp only [Bool.and_eq_true, Option.isNone_iff_eq_none, Bool.not_eq_true'] at hstate
    obtain ⟨⟨⟨⟨⟨⟨hret, hfree⟩, hlisten⟩, hintr⟩, hfull⟩, hsta⟩, hdue⟩ := hstate
    exact ⟨p, outcome_reachable hp, hret, hfree, hlisten, hintr, hfull, hsta, hdue⟩

end HostNotify
