import HostNotify.Resets

/-!
# What becomes of received messages

Without faults every message is read out and delivered. Clearing a full flag consumes a
message that was read, and a reception error keeps flushing the banks until the status is
cleared.
-/

namespace HostNotify

open Bits Interleaving

variable {k : Setting} {b : Board} {p : Pool St Op Op.Ans Call} {i : ℕ} {c : Call}

/-! ## Nothing is lost -/

/-- On a faultless board whose device only ever starts, no message is lost. One that was not
read yet is in a full bank, or in reach of the drain in progress; while the mutex is free the
block listens then, with the message signalled. A call that returned has delivered whatever it
took off the banks. -/
theorem nothing_lost (ht : k.Tidy) (h : p.Reachable (machine k b) (Unbound k)) :
    p.shared.hw.lost = false ∧
      (∀ j, (p.shared.hw.bank j).unread = true →
        (p.shared.hw.bank j).full = true ∨ ∃ n, p.shared.ghost.drain = some (n + 1)) ∧
      (p.shared.mutex = none → p.shared.asf.active = true → ∀ j,
        (p.shared.hw.bank j).unread = true → (p.shared.hw.bank j).full = true ∧
          p.shared.asf.listening = true ∧ getElem p.shared.hw.slven 1 (fits rfl) = true ∧
          (getElem p.shared.hw.sta 6 (fits rfl) = true ∨
            (p.shared.asf.pending = true ∧ p.shared.irq.due = true))) ∧
      ∀ i c, p.returned i = some c → ((∃ x, c = .transfer x) ∨ c = .irqThread) →
        p.shared.ghost.owed i = [] := by
  have hinv := reachable_inv h
  refine ⟨(hinv.intact ht).lost, (hinv.intact ht).orphan, fun hfree hactive j hu => ?_,
    fun i c hi hc => (covered h).returned hi hc ht⟩
  obtain ⟨d, hset, hview⟩ := hinv.idle hfree hactive
  have hsees := hview.sees (Or.inl ht.known)
  have hfull := hsees.kept (hset.kept ht) j hu
  have hl : d.listening = true := by
    cases hl : d.listening with
    | true => rfl
    | false =>
      obtain ⟨hclean, hclosed, _⟩ := hset.emptied hl ht
      exact absurd ((hsees.empty hclean hclosed j).symm.trans hfull) (by decide)
  have harmed := hset.armed hl
  have hclean := (hset.held hl ⟨ht.known, ht.2.2.2.2, Or.inr ht⟩).1
  exact ⟨hfull, hview.listening.trans hl, hsees.regs.intrOn harmed.intr hl,
    hsees.signalled hclean harmed.accepting hl j hfull⟩

/-- A faultless board, with bursts, late receptions and whatever the region admits excluded. -/
def Setting.tidy : Setting :=
  { firmware := false, intrude := false, trample := false, errors := false, stuck := false, burst := false
    late := true, regionFails := false, teardown := false, restart := false, busyReset := true
    stuckExit := true, muted := true, strayIrq := true, mainPort := true }

/-- A message that has arrived is in its bank, and the line is asserted. -/
theorem nothing_lost_arrival : ∃ p, outcome Setting.tidy (bringUp ++ [arrival]) = some p ∧
    (p.shared.hw.bank false).full = true ∧ p.shared.asf.listening = true ∧
      getElem p.shared.hw.slven 1 (fits rfl) = true ∧
      (getElem p.shared.hw.sta 6 (fits rfl) = true ∨ (p.shared.asf.pending = true ∧ p.shared.irq.due = true)) := by
  obtain ⟨p, hp, hstate⟩ := exists_outcome Setting.tidy (bringUp ++ [arrival])
    (fun p => p.shared.mutex.isNone && p.shared.asf.active && (p.shared.hw.bank false).unread)
    (by decide +kernel)
  simp only [Bool.and_eq_true, Option.isNone_iff_eq_none] at hstate
  obtain ⟨_, _, hsignal, _⟩ := nothing_lost (by decide) (outcome_reachable hp)
  exact ⟨p, hp, hsignal hstate.1.1 hstate.1.2 false hstate.2⟩

/-! ## Reception errors -/

/-- If the IRQ thread resets the slave whenever a drain of its own met a reception error, no
error that already caused a flush is still in force while the mutex is free. -/
theorem error_cleared (hk : k.firmware = false) (hmuted : k.muted = false)
    (h : p.Reachable (machine k b) (Unbound k)) (hfree : p.shared.mutex = none)
    (hactive : p.shared.asf.active = true) : p.shared.ghost.flushed = false := by
  obtain ⟨c, hset, hview⟩ := (reachable_inv h).idle hfree hactive
  have hrecord := (hview.sees (Or.inl hk)).record
  cases hf : p.shared.ghost.flushed with
  | false => rfl
  | true => exact absurd ((hrecord.flushed hf).symm.trans (hset.flushed hk hmuted)) (by decide)

/-- A message gets stuck in its bank, and a bad reception follows it. -/
def badAfterStuck : List (Action Call Event) :=
  bringUp ++ [arrival, .event (.stick false), .event (.rxError 0x02 true), .event .hardIrq,
    .call .irqThread]

/-- The reset of the wedged slave clears the error status that came with the bad reception. -/
theorem error_cleared_wedged :
    (∃ p, outcome { Setting.undisturbed with muted := false } (badAfterStuck ++ advance 3 76) = some p ∧
      p.shared.ghost.flushed = true) ∧
    ∃ p, outcome { Setting.undisturbed with muted := false } (badAfterStuck ++ advance 3 186) = some p ∧
      p.shared.asf.listening = true ∧ p.shared.ghost.flushed = false := by
  refine ⟨exists_outcome { Setting.undisturbed with muted := false } (badAfterStuck ++ advance 3 76)
    (fun p => p.shared.ghost.flushed) (by decide +kernel), ?_⟩
  obtain ⟨p, hp, hstate⟩ := exists_outcome { Setting.undisturbed with muted := false }
    (badAfterStuck ++ advance 3 186)
    (fun p => p.shared.mutex.isNone && p.shared.asf.active && p.shared.asf.listening) (by decide +kernel)
  simp only [Bool.and_eq_true, Option.isNone_iff_eq_none] at hstate
  exact ⟨p, hp, hstate.2, error_cleared rfl rfl (outcome_reachable hp) hstate.1.1 hstate.1.2⟩

/-- A bad reception, the interrupt it raises, and a good reception with its own interrupt. -/
def goodAfterBad : List (Action Call Event) :=
  bringUp ++ [.event (.rxError 0x02 true), .event .hardIrq, .call .irqThread] ++ advance 3 19 ++
    [arrival, .event .hardIrq, .call .irqThread] ++ advance 4 19

/-- Thread `i` has returned from the IRQ thread. -/
def threadReturned (p : Pool St Op Op.Ans Call) (i : ℕ) : Bool :=
  match p.returned i with
  | some .irqThread => true
  | _ => false

/-- The IRQ thread has returned. -/
theorem threadReturned_some {i : ℕ} (h : threadReturned p i = true) :
    p.returned i = some .irqThread := by
  unfold threadReturned at h
  split at h
  · assumption
  · cases h

/-- The good message after a bad one is neither kept nor delivered. -/
theorem error_mutes : ∃ p : Pool St Op Op.Ans Call,
    p.Reachable (machine Setting.undisturbed Board.described) (Unbound Setting.undisturbed) ∧
      p.returned 4 = some .irqThread ∧ p.shared.mutex = none ∧ p.shared.asf.listening = true ∧
      p.shared.ghost.flushed = true ∧ p.shared.hw.slvsta &&& asfErrorStatus ≠ 0 ∧
      (p.shared.hw.bank false).full = false ∧ p.shared.delivered = [] := by
  obtain ⟨p, hp, hstate⟩ := exists_outcome Setting.undisturbed goodAfterBad
    (fun p => threadReturned p 4 &&
      p.shared.mutex.isNone && p.shared.asf.listening && p.shared.ghost.flushed &&
      decide (p.shared.hw.slvsta &&& asfErrorStatus ≠ 0) && !(p.shared.hw.bank false).full &&
      decide (p.shared.delivered = [])) (by decide +kernel)
  simp only [Bool.and_eq_true, Option.isNone_iff_eq_none, Bool.not_eq_true',
    decide_eq_true_eq] at hstate
  obtain ⟨⟨⟨⟨⟨⟨hret, hfree⟩, hlisten⟩, hflushed⟩, herror⟩, hfull⟩, hnone⟩ := hstate
  exact ⟨p, outcome_reachable hp, threadReturned_some hret, hfree, hlisten, hflushed, herror, hfull,
    hnone⟩

/-! ## Clearing a full flag -/

/-- Whenever a thread's next step clears the full flag of a bank, the message was in the bank
when the read-out in progress began and has been read whole, or both banks are flushed on a
reception error; this is so if no reception completes into the bank that is being read. -/
theorem flag_cleared_after_read (hk : k.firmware = false) (hlate : k.late = false)
    (h : p.Reachable (machine k b) (Unbound k)) {v : Byte} {port : ℕ}
    (hi : p.next i = some (c, .outb v port)) (hport : decode b.auxSmba port = some .bnksel) :
    (∀ j, v.getLsbD (Target.flagBit j) = true → (p.shared.hw.bank j).full = true →
      (p.shared.hw.bank j).seen = true ∧ (p.shared.hw.bank j).late = false) ∨
    (v &&& asfBnkFull = asfBnkFull ∧ p.shared.hw.slvsta &&& asfErrorStatus ≠ 0) :=
  ((covered h).next_ok hi (admits_outb v port p.shared)).consume hk hlate v port rfl hport

/-- The next operation of a thread is a write of ASFDATABNKSEL that clears the flag of bank 0. -/
def clearsNext (p : Pool St Op Op.Ans Call) (i : ℕ) : Option (Byte × ℕ) :=
  match p.next i with
  | some (_, .outb v port) =>
    if decode Board.described.auxSmba port = some .bnksel ∧ v.getLsbD (Target.flagBit false) = true
    then some (v, port) else none
  | _ => none

/-- The thread is about to write to ASFDATABNKSEL. -/
theorem clearsNext_some {v : Byte} {port : ℕ} (h : clearsNext p i = some (v, port)) :
    (∃ c, p.next i = some (c, .outb v port)) ∧
      decode Board.described.auxSmba port = some .bnksel ∧
      v.getLsbD (Target.flagBit false) = true := by
  unfold clearsNext at h
  split at h
  · next c v' port' hi =>
    simp only [Option.ite_none_right_eq_some, Option.some.injEq, Prod.mk.injEq] at h
    obtain ⟨⟨hport, hv⟩, rfl, rfl⟩ := h
    exact ⟨⟨c, hi⟩, hport, hv⟩
  · cases h

/-- The IRQ thread has read the message in bank 0 and is about to clear its flag. -/
def consumeNext : List (Action Call Event) :=
  bringUp ++ [arrival, .event .hardIrq, .call .irqThread] ++ advance 3 15

/-- The flag about to be cleared is that of a message that has been read. -/
theorem flag_cleared_after_read_first : ∃ p,
    outcome { Setting.undisturbed with late := false } consumeNext = some p ∧
      (p.shared.hw.bank false).full = true ∧ (p.shared.hw.bank false).seen = true ∧
      (p.shared.hw.bank false).late = false := by
  obtain ⟨p, hp, hstate⟩ := exists_outcome { Setting.undisturbed with late := false } consumeNext
    (fun p => (clearsNext p 3).isSome && (p.shared.hw.bank false).full &&
      decide (p.shared.hw.slvsta &&& asfErrorStatus = 0)) (by decide +kernel)
  simp only [Bool.and_eq_true, decide_eq_true_eq] at hstate
  obtain ⟨⟨hnext, hfull⟩, herror⟩ := hstate
  obtain ⟨⟨v, port⟩, hnext⟩ := Option.isSome_iff_exists.mp hnext
  obtain ⟨⟨c, hi⟩, hport, hv⟩ := clearsNext_some hnext
  rcases flag_cleared_after_read rfl rfl (outcome_reachable hp) hi hport with hseen | ⟨_, hflush⟩
  · exact ⟨p, hp, hfull, hseen false hv hfull⟩
  · exact absurd herror hflush

/-- A signal without a flag makes the drain read bank 0, where a message arrives meanwhile. -/
def lateArrival : List (Action Call Event) :=
  bringUp ++ [arrival, .event .hardIrq, .call .irqThread] ++ advance 3 20 ++
    arrival :: advance 3 21 ++ arrival :: advance 3 4

/-- The flag about to be cleared is that of the message that came late. -/
theorem flag_cleared_unread : ∃ (p : Pool St Op Op.Ans Call) (c : Call) (v : Byte) (port : ℕ),
    p.Reachable (machine Setting.faultless Board.described) (Unbound Setting.faultless) ∧
      p.next 3 = some (c, .outb v port) ∧ decode Board.described.auxSmba port = some .bnksel ∧
      v.getLsbD (Target.flagBit false) = true ∧ (p.shared.hw.bank false).full = true ∧
      (p.shared.hw.bank false).late = true ∧ p.shared.hw.slvsta &&& asfErrorStatus = 0 := by
  obtain ⟨p, hp, hstate⟩ := exists_outcome Setting.faultless lateArrival
    (fun p => (clearsNext p 3).isSome && (p.shared.hw.bank false).full &&
      (p.shared.hw.bank false).late && decide (p.shared.hw.slvsta &&& asfErrorStatus = 0))
    (by decide +kernel)
  simp only [Bool.and_eq_true, decide_eq_true_eq] at hstate
  obtain ⟨⟨⟨hnext, hfull⟩, hlate⟩, herror⟩ := hstate
  obtain ⟨⟨v, port⟩, hnext⟩ := Option.isSome_iff_exists.mp hnext
  obtain ⟨⟨c, hi⟩, hport, hv⟩ := clearsNext_some hnext
  exact ⟨p, c, v, port, outcome_reachable hp, hi, hport, hv, hfull, hlate, herror⟩

end HostNotify
