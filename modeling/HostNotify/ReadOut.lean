import HostNotify.Messages
import Mathlib.Data.List.GetD
import Mathlib.Data.List.Perm.Subperm

/-!
# Reading out one bank

`piix4_asf_process_bank` under interference. `ReadOut` relates the bytes read so far to
the message in the selected bank; a message that arrives after the read-out began is
`Missed` by it and keeps its place until the next pass.
-/

namespace HostNotify

open Bits Interleaving

variable {k : Setting} {b : Board} {c c' : Control} {s s' : St} {t : ℕ} {call : Call}
  {Q X : St → Prop} {m m' : ℕ} {own own' : List ℕ}

/-! ## Assertions inside a drain -/

/-- What holds between two accesses of a drain: `m` bounds the passes that still find work,
`own` lists the notifies taken note of, `X` is particular to the point of the code. -/
structure At (k : Setting) (t : ℕ) (c : Control) (Q : St → Prop) (m : ℕ) (own : List ℕ)
    (X : St → Prop) (s : St) : Prop where
  view : View k (some t) c s
  known : Q s
  budget : Bounded k c → Budget c.accepting m s
  owed : k.Tidy → (s.ghost.owed t).Subperm own
  here : X s

/-- At its work a thread sees the block as its account says. -/
theorem At.sees (h : At k t c Q m own X s) (hc : c.Working) : Sees c s :=
  h.view.sees (Or.inr hc.want)

/-- A weaker assertion holds as well. -/
theorem At.mono {Y : St → Prop} (h : At k t c Q m own X s) (hY : X s → Y s) :
    At k t c Q m own Y s :=
  ⟨h.view, h.known, h.budget, h.owed, hY h.here⟩

/-- The owed notifies change with the thread's own steps only. -/
theorem owed_private (p : Prop) : Private t fun s => p → (s.ghost.owed t).Subperm own := by
  intro s s' hk h hp
  rw [hk.owed]
  exact h hp

/-- What is carried stays true while others go on. -/
theorem stable_at (hc : c.Working) (hQ : Debtless t Q) (hX : Carried k b t c X) :
    (rules k b call t).Stable (At k t c Q m own X) := by
  have hall : (rules k b call t).Stable (Holds k t c fun s =>
      (Q s ∧ (Bounded k c → Budget c.accepting m s)) ∧
        (k.Tidy → (s.ghost.owed t).Subperm own) ∧ X s) :=
    Carried.stable hc (((Carried.of_private hQ.private).and (Carried.imp fun hk =>
      Budget.carried hk)).and ((Carried.of_private (owed_private _)).and hX))
  intro s s' hs h hr hs'
  obtain ⟨hview, ⟨hknown, hbudget⟩, howed, hhere⟩ :=
    hall s s' hs ⟨h.view, ⟨h.known, h.budget⟩, h.owed, h.here⟩ hr hs'
  exact ⟨hview, hknown, hbudget, howed, hhere⟩

section Accesses

variable (hc : c.Working) (hQ : Debtless t Q)
include hc hQ

/-- Reading a register during a drain: the value may settle something. -/
theorem at_read {port : ℕ} {r : Reg} {F : Byte → Prop} {Y : Byte → St → Prop}
    (hY : ∀ v, Carried k b t c (Y v)) (hport : decode b.auxSmba port = some r)
    (hr : r ≠ .index)
    (hfact : ∀ s, Inv k b s → At k t c Q m own X s → Sees c s →
      F (s.hw.read s.world.bus r).1 ∧ Y (s.hw.read s.world.bus r).1 s) :
    Triple (rules k b call t) (At k t c Q m own X) (inb port)
      fun v s => F v ∧ At k t c Q m own (Y v) s := by
  refine own_op (fun v => (Discipline.Stable.const _).and (stable_at hc hQ (hY v)))
    fun s hs hP _ => ⟨.of_other (by simp) (by simp), fun v s' he => ?_⟩
  simp only [exec, St.portRead_reg s hport, read_eq hr, Option.some.injEq, Prod.mk.injEq] at he
  obtain ⟨rfl, rfl⟩ := he
  obtain ⟨hF, hY'⟩ := hfact s hs hP (hP.sees hc)
  exact ⟨OwnStep.refl s, hF, hP.mono fun _ => hY'⟩

/-- Writing a register during a drain. -/
theorem at_write {port : ℕ} {r : Reg} {v : Byte} {Y : St → Prop}
    (hY : Carried k b t c' Y) (hport : decode b.auxSmba port = some r)
    (hv : r = .slvsta → v = 0) (hsame : c'.listening = c.listening ∧ c'.want = c.want ∧
      c'.held = c.held)
    (hcheck : ∀ s, Inv k b s → At k t c Q m own X s → Sees c s → Check k b call (.outb v port) s)
    (hstep : ∀ s, Inv k b s → At k t c Q m own X s → Sees c s →
      (k.Tidy → Intact (s.written t v r)) ∧ Sees c' (s.written t v r) ∧
      (Bounded k c' → Budget c'.accepting m' (s.written t v r)) ∧
      (k.Tidy → ((s.written t v r).ghost.owed t).Subperm own') ∧ Y (s.written t v r)) :
    Triple (rules k b call t) (At k t c Q m own X) (outb v port)
      fun _ => At k t c' Q m' own' Y := by
  have hc' : c'.Working := ⟨hsame.1.trans hc.listening, hsame.2.1.trans hc.want⟩
  refine own_op (fun _ => stable_at hc' hQ hY) fun s hs hP _ => ?_
  have hsees := hP.sees hc
  obtain ⟨hintact, hsees', hbudget, howed, hhere⟩ := hstep s hs hP hsees
  refine ⟨hcheck s hs hP hsees, fun _ s' he => ?_⟩
  simp only [exec, St.portWrite_reg s t v hport, Option.some.injEq, Prod.mk.injEq] at he
  obtain ⟨_, rfl⟩ := he
  have hown : OwnStep k t s (s.written t v r) :=
    OwnStep.written hP.view.holder hv fun ht _ => hintact ht
  exact ⟨hown, hP.view.written (fun _ _ => hsees') hsame.1 hsame.2.1 hsame.2.2,
    hQ _ _ hown.stays hP.known, hbudget, howed, hhere⟩

/-- Passing a mark that changes the history only. -/
theorem at_mark {mk : Mark} {Y : St → Prop} (hY : Carried k b t c' Y)
    (harm : mk ≠ .armBegin) (hserved : mk ≠ .served)
    (hsame : c'.listening = c.listening ∧ c'.want = c.want ∧ c'.held = c.held)
    (hstep : ∀ s, Inv k b s → At k t c Q m own X s → k.admits call (.mark mk) s = true →
      (k.Tidy → Intact { s with ghost := s.ghost.after s.hw mk }) ∧
      (Sees c s → Sees c' { s with ghost := s.ghost.after s.hw mk }) ∧
      (Bounded k c' → Budget c'.accepting m' { s with ghost := s.ghost.after s.hw mk }) ∧
      Y { s with ghost := s.ghost.after s.hw mk }) :
    Triple (rules k b call t) (At k t c Q m own X) (mark mk)
      fun _ => At k t c' Q m' own Y := by
  have hc' : c'.Working := ⟨hsame.1.trans hc.listening, hsame.2.1.trans hc.want⟩
  refine own_op (fun _ => stable_at hc' hQ hY) fun s hs hP hadm => ?_
  obtain ⟨hintact, hsees, hbudget, hhere⟩ := hstep s hs hP hadm
  refine ⟨.of_other (by simpa using harm) (by simp), fun _ s' he => ?_⟩
  have hirq : s.irq.after mk = s.irq := by
    cases mk <;> first | rfl | exact absurd rfl hserved
  have howed : (s.ghost.after s.hw mk).owed = s.ghost.owed := by cases mk <;> rfl
  simp only [exec, hirq, Option.some.injEq, Prod.mk.injEq] at he
  obtain ⟨_, rfl⟩ := he
  have hown : OwnStep k t s { s with ghost := s.ghost.after s.hw mk } := {
    life := rfl
    irq := rfl
    asf := rfl
    world := rfl
    deliverOk := rfl
    auxAdapter := rfl
    owed := fun u _ => congrFun howed u
    region := fun _ _ h => ⟨h, rfl, by cases mk <;> rfl⟩
    mutex := rfl
    block := Or.inl hP.view.holder
    listening := fun hl => Or.inr hl
    pending := id
    sound := fun h => ⟨h.errorless, h.unstuck⟩
    intact := fun ht _ => hintact ht }
  refine ⟨hown, ?_, hQ _ _ hown.stays hP.known, hbudget, fun ht => ?_, hhere⟩
  · exact {
      holder := hP.view.holder
      engaged := hP.view.engaged
      listening := hP.view.listening.trans hsame.1.symm
      want := hP.view.want.trans hsame.2.1.symm
      held := fun hh => hP.view.held (hsame.2.2 ▸ hh)
      fresh := fun hh hk => by
        have htouched := hP.view.fresh (hsame.2.2 ▸ hh) (hsame.2.1 ▸ hk)
        cases mk <;> exact htouched
      sees := fun _ => hsees (hP.sees hc) }
  · rw [show ({ s with ghost := s.ghost.after s.hw mk } : St).ghost.owed t = s.ghost.owed t from
      congrFun howed t]
    exact hP.owed ht

end Accesses

/-! ## Choosing a bank -/

/-- The flags are read as they are. -/
theorem bnkselValue_flag (h : Target) (i : Bool) :
    h.bnkselValue.getLsbD (Target.flagBit i) = (h.bank i).full := by
  cases i <;> simp [Target.bnkselValue, Target.flagBit, Target.bank, BitVec.getLsbD_eq_getElem]

/-- The chosen bank is flagged, or neither is and bank 0 is read unflagged. -/
theorem chooseBank_some {reg : Byte} {allow : Bool} {prefer : ℕ} {i : Bool}
    (h : chooseBank reg allow prefer = some i) :
    reg.getLsbD (Target.flagBit i) = true ∨
      (allow = true ∧ i = false ∧ ∀ j, reg.getLsbD (Target.flagBit j) = false) := by
  unfold chooseBank at h
  split at h
  · next hboth =>
    left
    have h2 := congrArg (fun v : Byte => v[2]) hboth
    have h3 := congrArg (fun v : Byte => v[3]) hboth
    cases i
    · simpa [Target.flagBit, BitVec.getLsbD_eq_getElem] using h2
    · simpa [Target.flagBit, BitVec.getLsbD_eq_getElem] using h3
  · split at h
    · next h3 =>
      left
      obtain rfl := Option.some.inj h
      simpa [Target.flagBit, BitVec.getLsbD_eq_getElem] using h3
    · next h3 =>
      split at h
      · next h2 =>
        left
        obtain rfl := Option.some.inj h
        simpa [Target.flagBit, BitVec.getLsbD_eq_getElem] using h2
      · next h2 =>
        right
        split at h
        · next hallow =>
          obtain rfl := Option.some.inj h
          refine ⟨hallow, rfl, fun j => ?_⟩
          cases j
          · simpa [Target.flagBit, BitVec.getLsbD_eq_getElem] using h2
          · simpa [Target.flagBit, BitVec.getLsbD_eq_getElem] using h3
        · cases h

/-- No bank is chosen when neither is flagged and no signal authorizes a read. -/
theorem chooseBank_none {reg : Byte} {allow : Bool} {prefer : ℕ}
    (h : chooseBank reg allow prefer = none) :
    allow = false ∧ ∀ j, reg.getLsbD (Target.flagBit j) = false := by
  unfold chooseBank at h
  split at h
  · cases h
  · split at h
    · cases h
    · next h3 =>
      split at h
      · cases h
      · next h2 =>
        split at h
        · cases h
        · next hallow =>
          refine ⟨by simpa using hallow, fun j => ?_⟩
          cases j
          · simpa [Target.flagBit, BitVec.getLsbD_eq_getElem] using h2
          · simpa [Target.flagBit, BitVec.getLsbD_eq_getElem] using h3

/-! ## The position of a read-out -/

/-- Bank `i` is selected and nothing of it has been read; unless it is read as a fallback,
it is flagged. -/
structure Selected (fallback i : Bool) (s : St) : Prop where
  selected : s.hw.selected = i
  rdptr : s.hw.rdptr = 0
  reading : s.hw.reading = false
  got : (s.hw.bank i).got = 0
  flagged : fallback = false → (s.hw.bank i).full = true

/-- The bytes read so far begin the message in bank `i`, whose length is `len` if known. -/
structure Matches (i : Bool) (bytes : List Byte) (len : Option Byte) (s : St) : Prop where
  late : (s.hw.bank i).late = false
  got : (s.hw.bank i).got = bytes.length
  data : ∀ j, j < bytes.length → bytes.getD j 0 = (s.hw.bank i).data.getD j 0
  len : ∀ l, len = some l → (s.hw.bank i).rwptr = l

/-- The message in bank `i` arrived after the read-out of the unflagged bank began. -/
structure Missed (k : Setting) (fallback i : Bool) (s : St) : Prop where
  fallback : fallback = true
  allowed : k.late = true
  late : (s.hw.bank i).late = true
  got : (s.hw.bank i).got = 0
  full : (s.hw.bank i).full = true

/-- The read-out of bank `i` has returned `bytes`, at least the first one. -/
structure ReadOut (k : Setting) (fallback i : Bool) (bytes : List Byte) (len : Option Byte)
    (s : St) : Prop where
  selected : s.hw.selected = i
  begun : bytes ≠ []
  rdptr : s.hw.rdptr = bytes.length
  reading : s.hw.reading = true
  flagged : fallback = false → (s.hw.bank i).full = true
  message : Matches i bytes len s ∨ Missed k fallback i s

section Positions

variable {fallback i : Bool} {bytes : List Byte} {len : Option Byte}

/-- A bank that differs in its stuck bit at most is in the same position. -/
theorem Selected.congr (h : Selected fallback i s) (hbnksel : s'.hw.bnksel = s.hw.bnksel)
    (hrdptr : s'.hw.rdptr = s.hw.rdptr) (hreading : s'.hw.reading = s.hw.reading)
    (hbank : ∃ x, s'.hw.bank i = { s.hw.bank i with stuck := x }) : Selected fallback i s' := by
  obtain ⟨x, hbank⟩ := hbank
  refine ⟨?_, hrdptr.trans h.rdptr, hreading.trans h.reading, ?_, fun hf => ?_⟩
  · unfold Target.selected
    rw [hbnksel]
    exact h.selected
  · rw [hbank]
    exact h.got
  · rw [hbank]
    exact h.flagged hf

/-- A read-out goes on while its bank, the pointer and the selection stay as they are. -/
theorem ReadOut.congr (h : ReadOut k fallback i bytes len s) (hbnksel : s'.hw.bnksel = s.hw.bnksel)
    (hrdptr : s'.hw.rdptr = s.hw.rdptr) (hreading : s'.hw.reading = s.hw.reading)
    (hbank : ∃ x, s'.hw.bank i = { s.hw.bank i with stuck := x }) :
    ReadOut k fallback i bytes len s' := by
  obtain ⟨x, hbank⟩ := hbank
  refine ⟨?_, h.begun, hrdptr.trans h.rdptr, hreading.trans h.reading, fun hf => ?_, ?_⟩
  · unfold Target.selected
    rw [hbnksel]
    exact h.selected
  · rw [hbank]
    exact h.flagged hf
  · refine h.message.imp (fun hm => ⟨?_, ?_, fun j hj => ?_, fun l hl => ?_⟩)
      fun hm => ⟨hm.fallback, hm.allowed, ?_, ?_, ?_⟩
    · rw [hbank]
      exact hm.late
    · rw [hbank]
      exact hm.got
    · rw [hbank]
      exact hm.data j hj
    · rw [hbank]
      exact hm.len l hl
    · rw [hbank]
      exact hm.late
    · rw [hbank]
      exact hm.got
    · rw [hbank]
      exact hm.full

/-- A bank that gets stuck is otherwise the same. -/
theorem stick_bank (h : Target) (i j : Bool) :
    ∃ x, (h.setBank j { h.bank j with stuck := true }).bank i = { h.bank i with stuck := x } := by
  rw [Target.bank_setBank]
  by_cases hij : j = i
  · rw [if_pos hij, hij]
    exact ⟨true, rfl⟩
  · rw [if_neg hij]
    exact ⟨(h.bank i).stuck, rfl⟩

/-- Only the thread's own accesses begin a read-out. -/
theorem unread_carried : Carried k b t c fun s => s.hw.reading = false := by
  intro s s' _ _ h _ hread
  cases h with
  | same h => exact h.reading.trans hread
  | wake => exact hread
  | receive => simpa using hread
  | error => exact hread
  | stick => simpa using hread

/-- A message may still arrive before the first byte is read. -/
theorem selected_carried : Carried k b t c (Selected fallback i) := by
  intro s s' _ _ h _ hpos
  cases h with
  | same h => exact hpos.congr h.bnksel h.rdptr h.reading ⟨_, h.bank i⟩
  | wake => exact hpos.congr rfl rfl rfl ⟨_, wake_bank i s⟩
  | receive j data rwptr =>
    refine ⟨?_, by simpa using hpos.rdptr, by simpa using hpos.reading, ?_, fun hf => ?_⟩
    · unfold Target.selected
      rw [receive_bnksel]
      exact hpos.selected
    · rw [receive_bank]
      split
      · rfl
      · exact hpos.got
    · rw [receive_bank]
      split
      · rfl
      · exact hpos.flagged hf
  | error => exact hpos.congr rfl rfl rfl ⟨_, rfl⟩
  | stick j => exact hpos.congr (by simp) (by simp) (by simp) (stick_bank s.hw i j)

/-- A message that arrives in the bank being read is missed; a flagged bank takes none. -/
theorem readOut_carried : Carried k b t c (ReadOut k fallback i bytes len) := by
  intro s s' _ _ h _ hpos
  cases h with
  | same h => exact hpos.congr h.bnksel h.rdptr h.reading ⟨_, h.bank i⟩
  | wake => exact hpos.congr rfl rfl rfl ⟨_, wake_bank i s⟩
  | receive j data rwptr hacc _ hlate =>
    by_cases hji : j = i
    · subst hji
      simp only [Target.accepts, Bool.and_eq_true, Bool.not_eq_true'] at hacc
      have hfall : fallback = true := by
        cases hf : fallback with
        | true => rfl
        | false => exact absurd ((hpos.flagged hf).symm.trans hacc.2) (by decide)
      have hallow : k.late = true := by
        cases hk : k.late with
        | true => rfl
        | false => exact absurd hpos.selected (hlate hk hpos.reading)
      refine ⟨?_, hpos.begun, by simpa using hpos.rdptr, by simpa using hpos.reading,
        fun hf => absurd (hf.symm.trans hfall) (by decide), Or.inr ⟨hfall, hallow, ?_, ?_, ?_⟩⟩
      · unfold Target.selected
        rw [receive_bnksel]
        exact hpos.selected
      · simp [hpos.reading, hpos.selected]
      · simp
      · simp
    · refine hpos.congr (by simp) (by simp) (by simp) ⟨(s.hw.bank i).stuck, ?_⟩
      rw [receive_bank, if_neg hji]
  | error => exact hpos.congr rfl rfl rfl ⟨_, rfl⟩
  | stick j => exact hpos.congr (by simp) (by simp) (by simp) (stick_bank s.hw i j)

end Positions

/-! ## Reading one byte -/

section ReadIndex

variable (h : Target) (j : Bool)

/-- What one read of the data window leaves in the banks. -/
theorem readIndex_bank : h.readIndex.2.bank j =
    if h.selected = j then
      { h.bank j with
        got := if h.rdptr = (h.bank j).got then (h.bank j).got + 1 else (h.bank j).got
        late := (h.bank j).late && decide (h.rdptr ≠ 0) }
    else h.bank j := by
  have hset := Target.bank_setBank h h.selected j
    { h.bank h.selected with
      got := if h.rdptr = (h.bank h.selected).got then (h.bank h.selected).got + 1
        else (h.bank h.selected).got
      late := (h.bank h.selected).late && decide (h.rdptr ≠ 0) }
  have hbank : h.readIndex.2.bank j = (h.setBank h.selected { h.bank h.selected with
      got := if h.rdptr = (h.bank h.selected).got then (h.bank h.selected).got + 1
        else (h.bank h.selected).got
      late := (h.bank h.selected).late && decide (h.rdptr ≠ 0) }).bank j := by
    cases j <;> rfl
  rw [hbank, hset]
  split
  · next hsel => rw [hsel]
  · rfl

/-- Reading a byte leaves the bank selection alone. -/
@[simp] theorem readIndex_bnksel : h.readIndex.2.bnksel = h.bnksel := by simp [Target.readIndex]
/-- Reading a byte moves the pointer on. -/
@[simp] theorem readIndex_rdptr : h.readIndex.2.rdptr = h.rdptr + 1 := rfl
/-- Reading a byte begins a read-out, or continues one. -/
@[simp] theorem readIndex_reading : h.readIndex.2.reading = true := rfl
/-- Reading a byte leaves the listening address alone. -/
@[simp] theorem readIndex_lisaddr : h.readIndex.2.lisaddr = h.lisaddr := by simp [Target.readIndex]
/-- Reading a byte leaves the status alone. -/
@[simp] theorem readIndex_sta : h.readIndex.2.sta = h.sta := by simp [Target.readIndex]
/-- Reading a byte leaves the error status alone. -/
@[simp] theorem readIndex_slvsta : h.readIndex.2.slvsta = h.slvsta := by simp [Target.readIndex]
/-- Reading a byte leaves the enable bits alone. -/
@[simp] theorem readIndex_slven : h.readIndex.2.slven = h.slven := by simp [Target.readIndex]
/-- Reading a byte leaves DecodeEn alone. -/
@[simp] theorem readIndex_decodeEn : h.readIndex.2.decodeEn = h.decodeEn := by
  simp [Target.readIndex]
/-- Reading a byte loses nothing. -/
@[simp] theorem readIndex_lost : h.readIndex.2.lost = h.lost := by simp [Target.readIndex]

/-- Reading a byte clears no flag. -/
@[simp] theorem readIndex_full : (h.readIndex.2.bank j).full = (h.bank j).full := by
  rw [readIndex_bank]
  split <;> rfl

/-- Reading a byte takes no message off a bank yet. -/
@[simp] theorem readIndex_unread : (h.readIndex.2.bank j).unread = (h.bank j).unread := by
  rw [readIndex_bank]
  split <;> rfl

/-- Reading a byte mends no stuck flag. -/
@[simp] theorem readIndex_stuck : (h.readIndex.2.bank j).stuck = (h.bank j).stuck := by
  rw [readIndex_bank]
  split <;> rfl

/-- Reading a byte leaves the bytes of the banks alone. -/
@[simp] theorem readIndex_data : (h.readIndex.2.bank j).data = (h.bank j).data := by
  rw [readIndex_bank]
  split <;> rfl

/-- Reading a byte leaves the write pointer alone. -/
@[simp] theorem readIndex_rwptr : (h.readIndex.2.bank j).rwptr = (h.bank j).rwptr := by
  rw [readIndex_bank]
  split <;> rfl

end ReadIndex

/-- The state after a read of the data window. -/
def St.readByte (s : St) : St := { s with hw := s.hw.readIndex.2 }

/-- Reading a byte leaves all flags alone. -/
theorem SameFlags.readByte (s : St) : SameFlags s s.readByte where
  full i := readIndex_full s.hw i
  unread i := readIndex_unread s.hw i
  sta := by simp [St.readByte]
  pending := rfl
  drain := rfl

/-- Reading bytes moves no message. -/
theorem Intact.of_flags (h : Intact s) (hf : SameFlags s s') (hlost : s'.hw.lost = s.hw.lost)
    (hslven : s'.hw.slven = s.hw.slven) (hactive : s'.asf.active = s.asf.active) : Intact s' where
  lost := hlost.trans h.lost
  orphan i hu := by
    rw [hf.unread] at hu
    rw [hf.full, hf.drain]
    exact h.orphan i hu
  reset hr i := by
    rw [hslven] at hr
    rw [hf.unread]
    exact h.reset hr i
  inactive ha i := by
    rw [hactive] at ha
    rw [hf.unread]
    exact h.inactive ha i

/-- A read of the data window is an own step. -/
theorem OwnStep.readByte (hm : s.mutex = some t ∨ s.engaged = false) :
    OwnStep k t s s.readByte where
  life := rfl
  irq := rfl
  asf := rfl
  world := rfl
  deliverOk := rfl
  auxAdapter := rfl
  owed _ _ := rfl
  region _ _ h := ⟨h, readIndex_decodeEn s.hw, rfl⟩
  mutex := rfl
  block := hm.imp id Or.inl
  listening hl := Or.inr hl
  pending := id
  sound h := by
    refine ⟨?_, fun i => (readIndex_stuck s.hw i).trans (h.unstuck i)⟩
    simpa [St.readByte] using h.errorless
  intact _ h := h.of_flags (.readByte s) (readIndex_lost s.hw) (readIndex_slven s.hw) rfl

/-- Where the position is not part of the view, reading bytes leaves the view. -/
theorem Sees.readByte (h : Sees c s) (hcalm : c.calm = false) : Sees c s.readByte where
  regs := h.regs.congr (readIndex_lisaddr s.hw) (readIndex_slven s.hw) (readIndex_bnksel s.hw)
    fun h => ⟨h, by simp [St.readByte], by simp [St.readByte]⟩
  record := h.record
  signalled hcl ha hl i hi := by
    rw [(SameFlags.readByte s).full] at hi
    simpa [St.readByte] using h.signalled hcl ha hl i hi
  empty hcl ha := (SameFlags.readByte s).noFull (h.empty hcl ha)
  kept hk := (SameFlags.readByte s).kept (h.kept hk)
  calm hc := absurd (hc.symm.trans hcalm) (by decide)

section Bytes

variable {fallback i : Bool} {bytes : List Byte} {len : Option Byte}

/-- The first byte of a read-out belongs to the message in the bank, if there is one. -/
theorem Selected.read (h : Selected fallback i s) :
    ReadOut k fallback i [(s.hw.bank i).data.getD 0 0] none s.readByte where
  selected := by
    unfold Target.selected St.readByte
    rw [readIndex_bnksel]
    exact h.selected
  begun := by simp
  rdptr := by simp [St.readByte, h.rdptr]
  reading := rfl
  flagged hf := (readIndex_full s.hw i).trans (h.flagged hf)
  message := by
    left
    have hbank := readIndex_bank s.hw i
    rw [if_pos h.selected, h.rdptr, h.got] at hbank
    refine ⟨?_, ?_, fun j hj => ?_, fun l hl => by cases hl⟩
    · simp [St.readByte, hbank]
    · simp [St.readByte, hbank]
    · have hzero : j = 0 := by simpa using hj
      simp [St.readByte, hbank, hzero]

/-- Every further byte continues the message, unless the message was missed. -/
theorem ReadOut.read (h : ReadOut k fallback i bytes len s) :
    ReadOut k fallback i (bytes ++ [(s.hw.bank i).data.getD bytes.length 0]) len s.readByte where
  selected := by
    unfold Target.selected St.readByte
    rw [readIndex_bnksel]
    exact h.selected
  begun := by simp
  rdptr := by simp [St.readByte, h.rdptr]
  reading := rfl
  flagged hf := (readIndex_full s.hw i).trans (h.flagged hf)
  message := by
    have hbank := readIndex_bank s.hw i
    rw [if_pos h.selected, h.rdptr] at hbank
    have hpos : bytes.length ≠ 0 := by simpa using h.begun
    refine h.message.imp (fun hm => ⟨?_, ?_, fun j hj => ?_, fun l hl => ?_⟩)
      fun hm => ⟨hm.fallback, hm.allowed, ?_, ?_, (readIndex_full s.hw i).trans hm.full⟩
    · simp [St.readByte, hbank, hm.late]
    · simp [St.readByte, hbank, hm.got]
    · have hdata : (s.readByte.hw.bank i).data = (s.hw.bank i).data := by
        simp [St.readByte, hbank]
      rw [hdata, List.length_append, List.length_singleton] at *
      rcases Nat.lt_succ_iff_lt_or_eq.mp hj with hlt | rfl
      · rw [List.getD_append _ _ _ _ hlt]
        exact hm.data j hlt
      · simp
    · have hrwptr : (s.readByte.hw.bank i).rwptr = (s.hw.bank i).rwptr := by
        simp [St.readByte, hbank]
      rw [hrwptr]
      exact hm.len l hl
    · simp [St.readByte, hbank, hm.late, hpos]
    · simp [St.readByte, hbank, hm.got, hpos]

end Bytes

end HostNotify
