import HostNotify.Modes

/-!
# Messages, flags and signals

A received message shows up in three places: the full flag of its bank, the status bit,
and the pending flag of the interrupt thread. While a thread drains a listening block the
other parties can only move these in five ways, listed by `Shift`. Assertions that none
of the five falsifies are `Carried`; the ones here bound the work left and say where the
unread messages are.
-/

namespace HostNotify

open Bits Interleaving

variable {k : Setting} {b : Board} {c : Control} {s s' : St} {t : ℕ} {call : Call}

/-! ## Simple facts about single events -/

section Fields

variable (h : Target) (i j unread : Bool) (data : List Byte) (rwptr : Byte)

/-- The bank a reception leaves. -/
@[simp] theorem receive_bank : (h.receive i data rwptr unread).bank j =
    if i = j then
      { full := true, stuck := false, data := data, rwptr := rwptr, unread := unread, got := 0,
        late := h.reading && decide (h.selected = i) }
    else h.bank j := by
  cases i <;> cases j <;> rfl

/-- A reception sets the status bit. -/
@[simp] theorem receive_sta : getElem (h.receive i data rwptr unread).sta 6 (fits rfl) = true := by
  simp [Target.receive]

/-- A reception leaves the bank selection alone. -/
@[simp] theorem receive_bnksel : (h.receive i data rwptr unread).bnksel = h.bnksel := by
  simp [Target.receive]

/-- A reception leaves the read pointer alone. -/
@[simp] theorem receive_rdptr : (h.receive i data rwptr unread).rdptr = h.rdptr := by
  simp [Target.receive]

/-- A reception does not end a read-out. -/
@[simp] theorem receive_reading : (h.receive i data rwptr unread).reading = h.reading := by
  simp [Target.receive]

/-- A reception reports no error. -/
@[simp] theorem receive_slvsta : (h.receive i data rwptr unread).slvsta = h.slvsta := by
  simp [Target.receive]

/-- Waking the thread leaves the banks alone. -/
@[simp] theorem wake_bank (s : St) : s.wake.hw.bank i = s.hw.bank i := by cases i <;> rfl

/-- Waking the thread acknowledges the status bit. -/
@[simp] theorem wake_sta (s : St) : getElem s.wake.hw.sta 6 (fits rfl) = false := by
  simp [St.wake, St.ack, Target.write]

/-- Waking the thread leaves the bank selection alone. -/
@[simp] theorem wake_bnksel (s : St) : s.wake.hw.bnksel = s.hw.bnksel := rfl
/-- Waking the thread leaves the read pointer alone. -/
@[simp] theorem wake_rdptr (s : St) : s.wake.hw.rdptr = s.hw.rdptr := rfl
/-- Waking the thread does not end a read-out. -/
@[simp] theorem wake_reading (s : St) : s.wake.hw.reading = s.hw.reading := rfl
/-- Waking the thread leaves the error status alone. -/
@[simp] theorem wake_slvsta (s : St) : s.wake.hw.slvsta = s.hw.slvsta := rfl
/-- Waking the thread leaves word for it. -/
@[simp] theorem wake_pending (s : St) : s.wake.asf.pending = true := rfl
/-- Waking the thread leaves the history alone. -/
@[simp] theorem wake_ghost (s : St) : s.wake.ghost = s.ghost := rfl

end Fields

/-- A block that is the same has the same banks. -/
theorem SameBlock.bank (h : SameBlock s s') (i : Bool) : s'.hw.bank i = s.hw.bank i := by
  rw [h.hw]
  cases i <;> rfl

/-- A block that is the same has the same status. -/
theorem SameBlock.sta (h : SameBlock s s') : s'.hw.sta = s.hw.sta := by rw [h.hw]
/-- A block that is the same has the same error status. -/
theorem SameBlock.slvsta (h : SameBlock s s') : s'.hw.slvsta = s.hw.slvsta := by rw [h.hw]
/-- A block that is the same has the same bank selected. -/
theorem SameBlock.bnksel (h : SameBlock s s') : s'.hw.bnksel = s.hw.bnksel := by rw [h.hw]
/-- A block that is the same has the same read pointer. -/
theorem SameBlock.rdptr (h : SameBlock s s') : s'.hw.rdptr = s.hw.rdptr := by rw [h.hw]
/-- A block that is the same is in the same read-out. -/
theorem SameBlock.reading (h : SameBlock s s') : s'.hw.reading = s.hw.reading := by rw [h.hw]

/-! ## What the other parties can do -/

/-- The steps of the other parties, as a thread draining a listening block sees them. -/
inductive Shift (k : Setting) (s : St) : St → Prop where
  | same {s' : St} (h : SameBlock s s') : Shift k s s'
  | wake (hsta : getElem s.hw.sta 6 (fits rfl) = true) (hidle : s.irq.masked = false) : Shift k s s.wake
  | receive (i : Bool) (data : List Byte) (rwptr : Byte) (hacc : s.hw.accepts i = true)
      (hburst : k.burst = false → s.ghost.drain.all (· == 0) = true)
      (hlate : k.late = false → s.hw.reading = true → s.hw.selected ≠ i) :
      Shift k s { s with
        hw := s.hw.receive i data rwptr s.asf.active
        ghost := { s.ghost with drain := s.ghost.drain.map (· + 1) } }
  | error (errors : Byte) (signal : Bool) (hk : k.errors = true) :
      Shift k s { s with hw := { s.hw with
        slvsta := s.hw.slvsta ||| (errors &&& asfErrorStatus)
        sta := if signal then s.hw.sta ||| bit asfStaSlvInt else s.hw.sta } }
  | stick (i : Bool) (hk : k.stuck = true) :
      Shift k s { s with hw := s.hw.setBank i { s.hw.bank i with stuck := true } }

/-- The control states under which a drain runs. -/
structure Control.Working (c : Control) : Prop where
  listening : c.listening = true
  want : c.want = true

/-- A thread that holds the mutex of a listening block sees the others make shifts only. -/
theorem View.shift (h : View k (some t) c s) (hc : c.Working) (hinv : Inv k b s)
    (hr : Rely k b t s s') : Shift k s s' := by
  have hlisten : s.asf.listening = true := h.listening.trans hc.listening
  have hwant : s.asf.wantListen = true := h.want.trans hc.want
  rcases hr with ⟨e, he⟩ | hf
  · cases e with
    | hardIrq =>
      obtain ⟨_, hidle, rfl | ⟨hsta, ⟨_, rfl⟩ | ⟨hdeaf, rfl⟩⟩⟩ := hardIrq_cases he hinv.smba
      · exact .same (SameBlock.refl s')
      · exact .wake hsta hidle
      · exact absurd (hlisten.symm.trans hdeaf) (by decide)
    | world w =>
      simp only [HostNotify.react, Option.ite_none_right_eq_some, Option.some.injEq] at he
      obtain ⟨_, rfl⟩ := he
      exact .same ⟨rfl, fun h => ⟨h, rfl, rfl⟩, rfl, rfl, rfl, rfl, rfl, rfl, rfl, rfl, rfl, rfl⟩
    | receive i data rwptr =>
      simp only [HostNotify.react, Option.ite_none_right_eq_some, Option.some.injEq, Bool.and_eq_true,
        Bool.or_eq_true, Bool.not_eq_true', Bool.and_eq_false_iff] at he
      obtain ⟨⟨⟨hacc, hburst⟩, hlate⟩, rfl⟩ := he
      refine .receive i data rwptr hacc (fun hk => ?_) fun hk hread hsel => ?_
      · simpa [hk] using hburst
      · simp [hk, hread, hsel] at hlate
    | rxError errors signal =>
      simp only [HostNotify.react, Option.ite_none_right_eq_some, Option.some.injEq, Bool.and_eq_true] at he
      obtain ⟨⟨⟨hk, _⟩, _⟩, rfl⟩ := he
      exact .error errors signal hk
    | stick i =>
      simp only [HostNotify.react, Option.ite_none_right_eq_some, Option.some.injEq, Bool.and_eq_true] at he
      obtain ⟨⟨hk, _⟩, rfl⟩ := he
      exact .stick i hk
    | firmware hw =>
      simp only [HostNotify.react, Option.ite_none_right_eq_some, Option.some.injEq, Bool.and_eq_true] at he
      exact absurd (hwant.symm.trans (hinv.asleep he.1.1.1.2)) (by decide)
  · exact .same (hf.block h.holder h.engaged)

/-- An assertion that the other parties keep while thread `t` drains. -/
def Carried (k : Setting) (b : Board) (t : ℕ) (c : Control) (P : St → Prop) : Prop :=
  ∀ s s', Inv k b s → View k (some t) c s → Shift k s s' → Keeps t s s' → P s → P s'

namespace Carried

variable {P R : St → Prop}

/-- Two carried assertions are carried together. -/
theorem and (hP : Carried k b t c P) (hR : Carried k b t c R) :
    Carried k b t c fun s => P s ∧ R s :=
  fun s s' hs hv h hk hPR => ⟨hP s s' hs hv h hk hPR.1, hR s s' hs hv h hk hPR.2⟩

/-- One of two carried assertions stays true. -/
theorem or (hP : Carried k b t c P) (hR : Carried k b t c R) :
    Carried k b t c fun s => P s ∨ R s :=
  fun s s' hs hv h hk hPR => hPR.imp (hP s s' hs hv h hk) (hR s s' hs hv h hk)

/-- A condition that does not speak of the state may be carried along. -/
theorem imp {p : Prop} (hP : p → Carried k b t c P) : Carried k b t c fun s => p → P s :=
  fun s s' hs hv h hk hpP hp => hP hp s s' hs hv h hk (hpP hp)

/-- What does not speak of the state is carried. -/
theorem const (p : Prop) : Carried k b t c fun _ => p := fun _ _ _ _ _ _ h => h

/-- What only the thread itself changes is carried. -/
theorem of_private (hP : Private t P) : Carried k b t c P := fun s s' _ _ _ hk => hP s s' hk

/-- With the view it is carried under, a carried assertion is stable. -/
theorem stable (hc : c.Working) (hP : Carried k b t c P) :
    (rules k b call t).Stable (Holds k t c P) := by
  intro s s' hs h hr hs'
  have hview : (rules k b call t).Stable (View k (some t) c) := stable_view c
  refine ⟨hview s s' hs h.1 hr hs', ?_⟩
  exact hP s s' hs h.1 (h.1.shift hc hs hr) (Rely.keeps hr hs) h.2

end Carried

/-! ## Flags and signals -/

namespace St

/-- The status bit or the pending flag authorizes a read. -/
def Signal (s : St) : Prop := s.hw.sta.getLsbD 6 = true ∨ s.asf.pending = true

/-- The flag of the last unread message was cleared by a read-out of bank 0 that missed it. -/
structure Stray (s : St) : Prop where
  empty : s.NoFull
  unread : (s.hw.bank true).unread = false
  arrived : ∃ n, s.ghost.drain = some (n + 1)

/-- Flags and signals that a pass of a drain may still answer. -/
def load (s : St) : ℕ :=
  (s.hw.bank false).full.toNat + (s.hw.bank true).full.toNat + (s.hw.sta.getLsbD 6).toNat +
    s.asf.pending.toNat

end St

/-- Flags, unread messages and signals are the same. -/
structure SameFlags (s s' : St) : Prop where
  full : ∀ i, (s'.hw.bank i).full = (s.hw.bank i).full
  unread : ∀ i, (s'.hw.bank i).unread = (s.hw.bank i).unread
  sta : getElem s'.hw.sta 6 (fits rfl) = getElem s.hw.sta 6 (fits rfl)
  pending : s'.asf.pending = s.asf.pending
  drain : s'.ghost.drain = s.ghost.drain

namespace SameFlags

/-- A block that is the same has the same flags. -/
theorem of_block (h : SameBlock s s') : SameFlags s s' where
  full i := by rw [h.bank]
  unread i := by rw [h.bank]
  sta := by rw [h.sta]
  pending := h.pending
  drain := h.drain

/-- A flag that gets stuck is still the same flag. -/
theorem of_stick (s : St) (i : Bool) :
    SameFlags s { s with hw := s.hw.setBank i { s.hw.bank i with stuck := true } } where
  full j := by
    rw [Target.bank_setBank]
    split
    · next hij => rw [hij]
    · rfl
  unread j := by
    rw [Target.bank_setBank]
    split
    · next hij => rw [hij]
    · rfl
  sta := by simp
  pending := rfl
  drain := rfl

/-- With the same flags no bank becomes full. -/
theorem noFull (h : SameFlags s s') (hs : s.NoFull) : s'.NoFull :=
  fun i => (h.full i).trans (hs i)

/-- With the same flags a full bank stays unread. -/
theorem kept (h : SameFlags s s') (hs : s.Kept) : s'.Kept := by
  intro i hu
  rw [h.unread] at hu
  rw [h.full]
  exact hs i hu

/-- With the same flags a stray message stays one. -/
theorem stray (h : SameFlags s s') (hs : s.Stray) : s'.Stray where
  empty := h.noFull hs.empty
  unread := (h.unread true).trans hs.unread
  arrived := by
    rw [h.drain]
    exact hs.arrived

/-- With the same flags the signal stays accounted for. -/
theorem signal (h : SameFlags s s') (hs : s.Signal) : s'.Signal := by
  simp only [St.Signal, BitVec.getLsbD_eq_getElem, Nat.reduceLT] at hs ⊢
  rwa [h.sta, h.pending]

/-- With the same flags there are as many full banks. -/
theorem load (h : SameFlags s s') : s'.load = s.load := by
  simp only [St.load, BitVec.getLsbD_eq_getElem, Nat.reduceLT]
  rw [h.full, h.full, h.sta, h.pending]

end SameFlags

namespace Shift

/-- Unread messages stay flagged. -/
theorem kept (h : Shift k s s') (hs : s.Kept) : s'.Kept := by
  cases h with
  | same h => exact (SameFlags.of_block h).kept hs
  | wake =>
    intro i hu
    rw [wake_bank] at hu ⊢
    exact hs i hu
  | receive i data rwptr =>
    intro j hu
    simp only [receive_bank] at hu ⊢
    split
    · rfl
    · next hij =>
      rw [if_neg hij] at hu
      exact hs j hu
  | error => exact hs
  | stick i => exact (SameFlags.of_stick s i).kept hs

/-- A signal moves to the pending flag at most. -/
theorem signal (h : Shift k s s') (hs : s.Signal) : s'.Signal := by
  cases h with
  | same h => exact (SameFlags.of_block h).signal hs
  | wake => exact Or.inr rfl
  | receive => exact Or.inl (receive_sta ..)
  | error errors signal =>
    refine hs.imp (fun hsta => ?_) id
    have hsta' : s.hw.sta[6] = true := hsta
    cases signal
    · exact hsta'
    · simp [hsta']
  | stick i => exact (SameFlags.of_stick s i).signal hs

/-- Without bursts, nothing arrives any more once a message has. -/
theorem stray (h : Shift k s s') (hk : k.burst = false) (hs : s.Stray) : s'.Stray := by
  cases h with
  | same h => exact (SameFlags.of_block h).stray hs
  | wake => exact ⟨fun i => by rw [wake_bank]; exact hs.empty i, by rw [wake_bank]; exact hs.unread,
      hs.arrived⟩
  | receive i data rwptr hacc hburst =>
    obtain ⟨n, hn⟩ := hs.arrived
    have hall := hburst hk
    simp [hn] at hall
  | error => exact ⟨hs.empty, hs.unread, hs.arrived⟩
  | stick i => exact (SameFlags.of_stick s i).stray hs

end Shift

/-! ## The work left -/

/-- What a reception that may still come adds to the work. -/
def room (accepting : Bool) (drain : Option ℕ) : ℕ :=
  if accepting = true ∧ drain = some 0 then 2 else 0

/-- The passes of a drain are bounded: nothing arrives, or no more than one message. -/
def Bounded (k : Setting) (c : Control) : Prop :=
  k.Reliable ∧ (c.accepting = false ∨ k.burst = false)

/-- At most `m` more passes of the drain in progress find work. -/
structure Budget (accepting : Bool) (m : ℕ) (s : St) : Prop where
  begun : s.ghost.drain.isSome = true
  work : s.load + room accepting s.ghost.drain ≤ m

/-- With the same flags the budget of passes stays as it is. -/
theorem Budget.of_flags {a : Bool} {m : ℕ} (h : Budget a m s) (hf : SameFlags s s') :
    Budget a m s' where
  begun := by
    rw [hf.drain]
    exact h.begun
  work := by
    rw [hf.load, hf.drain]
    exact h.work

/-- A larger budget suffices as well. -/
theorem Budget.mono {a : Bool} {m m' : ℕ} (h : Budget a m s) (hm : m ≤ m') : Budget a m' s :=
  ⟨h.begun, Nat.le_trans h.work hm⟩

/-- A full bank is work left. -/
theorem Budget.pos_of_full {a : Bool} {m : ℕ} (h : Budget a m s) {i : Bool}
    (hfull : (s.hw.bank i).full = true) : 1 ≤ m := by
  have hwork := h.work
  unfold St.load at hwork
  cases i <;> rw [hfull, Bool.toNat_true] at hwork <;> omega

/-- A signal is work left. -/
theorem Budget.pos_of_signal {a : Bool} {m : ℕ} (h : Budget a m s) (hsignal : s.Signal) :
    1 ≤ m := by
  have hwork := h.work
  unfold St.load at hwork
  rcases hsignal with hsta | hp
  · rw [hsta, Bool.toNat_true] at hwork
    omega
  · rw [hp, Bool.toNat_true] at hwork
    omega

/-- A slave that accepts a message is one that its account says accepts. -/
theorem Sees.accepts (h : Sees c s) {i : Bool} (hacc : s.hw.accepts i = true) :
    c.accepting = true := by
  simp only [Target.accepts, Bool.and_eq_true, Bool.not_eq_true'] at hacc
  have hrunning : s.hw.slven[4] = false := hacc.1.2
  simp only [Control.accepting, ← h.regs.lisaddr, ← h.regs.rst, hacc.1.1, hrunning]
  rfl

/-- On a tidy board a drain is never outrun. -/
theorem Setting.Tidy.bounded (h : k.Tidy) : Bounded k c := ⟨h.1, Or.inr h.2.1⟩

/-- A woken thread takes over the signal of the status bit. -/
theorem load_wake (hsta : getElem s.hw.sta 6 (fits rfl) = true) : s.wake.load ≤ s.load := by
  simp only [St.load, BitVec.getLsbD_eq_getElem, Nat.reduceLT]
  rw [wake_bank, wake_bank, wake_sta, wake_pending, hsta]
  simp only [Bool.toNat_false, Bool.toNat_true]
  omega

/-- A reception adds its flag and its signal. -/
theorem load_receive {i unread : Bool} {data : List Byte} {rwptr : Byte} {drain : Option ℕ} :
    St.load { s with
      hw := s.hw.receive i data rwptr unread
      ghost := { s.ghost with drain := drain } } ≤ s.load + 2 := by
  have h0 := Bool.toNat_le (s.hw.bank false).full
  have h1 := Bool.toNat_le (s.hw.bank true).full
  simp only [St.load, BitVec.getLsbD_eq_getElem, Nat.reduceLT, receive_bank, receive_sta,
    Bool.toNat_true]
  cases i <;> simp only [if_true, Bool.false_eq_true, Bool.true_eq_false, if_false,
    Bool.toNat_true] <;> omega

/-- The other parties add no work beyond the reception already counted. -/
theorem Budget.carried {m : ℕ} (hk : Bounded k c) : Carried k b t c (Budget c.accepting m) := by
  intro s s' hs hv h _ hbudget
  cases h with
  | same h => exact hbudget.of_flags (.of_block h)
  | wake hsta =>
    refine ⟨hbudget.begun, ?_⟩
    have hwork := hbudget.work
    have hload := load_wake hsta
    rw [wake_ghost]
    omega
  | receive i data rwptr hacc hburst =>
    have hcacc := (hv.sees (Or.inl hk.1.2.2)).accepts hacc
    have hone : k.burst = false := by
      rcases hk.2 with hno | hone
      · exact absurd (hcacc.symm.trans hno) (by decide)
      · exact hone
    obtain ⟨n, hn⟩ := Option.isSome_iff_exists.mp hbudget.begun
    have hzero : n = 0 := by simpa [hn] using hburst hone
    have hwork := hbudget.work
    simp only [hn, hzero, room, hcacc, and_self, if_true] at hwork
    refine ⟨by simp [hn], ?_⟩
    have hroom : room c.accepting (s.ghost.drain.map (· + 1)) = 0 := by simp [room, hn]
    rw [hroom, Nat.add_zero]
    exact Nat.le_trans load_receive hwork
  | error errors signal herr => exact absurd (herr.symm.trans hk.1.1) (by decide)
  | stick i hstuck => exact absurd (hstuck.symm.trans hk.1.2.1) (by decide)

/-! ## Carried assertions about messages -/

/-- Unread messages are flagged, or stray with a signal that lets the drain read on. -/
def St.Orderly (s : St) : Prop := s.Kept ∨ (s.Stray ∧ s.Signal)

/-- That full banks are unread is carried through a pass. -/
theorem kept_carried : Carried k b t c St.Kept := fun _ _ _ _ h _ => h.kept

/-- What is known of the signal is carried through a pass. -/
theorem signal_carried : Carried k b t c St.Signal := fun _ _ _ _ h _ => h.signal

/-- A message that nothing has signalled yet is carried through a pass. -/
theorem stray_carried (ht : k.Tidy) : Carried k b t c St.Stray :=
  fun _ _ _ _ h _ => h.stray ht.2.1

/-- The order of the banks is carried through a pass. -/
theorem orderly_carried : Carried k b t c fun s => k.Tidy → s.Orderly :=
  .imp fun ht => kept_carried.or ((stray_carried ht).and signal_carried)

/-- The flag of a bank stays set until the driver clears it. -/
theorem full_carried (i : Bool) : Carried k b t c fun s => (s.hw.bank i).full = true := by
  intro s s' _ _ h _ hfull
  cases h with
  | same h =>
    rw [h.bank]
    exact hfull
  | wake =>
    rw [wake_bank]
    exact hfull
  | receive j data rwptr =>
    simp only [receive_bank]
    split
    · rfl
    · exact hfull
  | error => exact hfull
  | stick j => exact ((SameFlags.of_stick s j).full i).trans hfull

/-- A pending flag stays set until the driver takes it. -/
theorem pending_carried : Carried k b t c fun s => s.asf.pending = true := by
  intro s s' _ _ h _ hp
  cases h with
  | same h => exact h.pending.trans hp
  | wake => rfl
  | receive => exact hp
  | error => exact hp
  | stick => exact hp

/-- What a drain reported stays recorded until the slave is reset. -/
theorem debt_carried : Carried k b t c fun s => s.ghost.debt = true := by
  intro s s' _ _ h _ hd
  cases h with
  | same h => exact h.debt.trans hd
  | wake => exact hd
  | receive => exact hd
  | error => exact hd
  | stick => exact hd

/-- A stray message whose signal has left the status bit stays as it is. -/
theorem strayPending_carried (ht : k.Tidy) :
    Carried k b t c fun s => s.Stray ∧ getElem s.hw.sta 6 (fits rfl) = false ∧ s.asf.pending = true := by
  intro s s' _ _ h _ ⟨hstray, hsta, hp⟩
  refine ⟨h.stray ht.2.1 hstray, ?_⟩
  cases h with
  | same h => exact ⟨by rw [h.sta]; exact hsta, h.pending.trans hp⟩
  | wake hset => exact absurd (hset.symm.trans hsta) (by decide)
  | receive i data rwptr hacc hburst =>
    obtain ⟨n, hn⟩ := hstray.arrived
    have hall := hburst ht.2.1
    simp [hn] at hall
  | error errors signal herr => exact absurd (herr.symm.trans ht.1.1) (by decide)
  | stick i => exact ⟨by simpa using hsta, hp⟩

/-- A reception error stays recorded until the driver clears it. -/
theorem error_carried : Carried k b t c fun s => s.hw.slvsta &&& asfErrorStatus ≠ 0 := by
  intro s s' _ _ h _ herr
  cases h with
  | same h =>
    rw [h.slvsta]
    exact herr
  | wake => exact herr
  | receive => simpa using herr
  | error errors signal =>
    intro hzero
    refine herr (BitVec.eq_of_getElem_eq fun i hi => ?_)
    have hbit := congrArg (fun v => v[i]) hzero
    simp only [BitVec.ofNat_eq_ofNat, BitVec.getElem_zero, BitVec.getElem_and, BitVec.getElem_or,
      Bool.and_or_distrib_right, Bool.or_eq_false_iff] at hbit ⊢
    exact hbit.1
  | stick i => simpa using herr

end HostNotify
