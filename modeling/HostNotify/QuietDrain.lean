import HostNotify.Interleaving.Alone
import HostNotify.Drain
import HostNotify.Listening

/-!
# Draining on a quiet bus

`piix4_asf_drain` run by itself, with no reception and no reception error meanwhile. Which
banks it reads, and in which order, depends on the full flags, the stuck flags and the signal
alone; `reads` computes it.
-/

namespace HostNotify

open Bits Interleaving

/-! ## Which banks are read -/

/-- The bank a pass reads. -/
def pick (allow : Bool) (prefer : ℕ) (full : Bool → Bool) : Option Bool :=
  if full true && full false then some (prefer % 2 == 1)
  else if full true then some true
  else if full false then some false
  else if allow then some false
  else none

/-- The full flags once bank `i` has been marked consumed. -/
def consumed (stuck full : Bool → Bool) (i j : Bool) : Bool :=
  full j && (decide (j ≠ i) || stuck j)

/-- The banks that pass `i` and the passes after it read, in order. -/
def reads (stuck : Bool → Bool) : ℕ → ℕ → Bool → (Bool → Bool) → List Bool
  | 0, _, _, _ => []
  | left + 1, i, signalled, full =>
    match pick signalled i full with
    | none => []
    | some j => j :: reads stuck left (i + 1) false (consumed stuck full j)

/-- The full flags after reading the given banks. -/
def remaining (stuck : Bool → Bool) (full : Bool → Bool) (log : List Bool) : Bool → Bool :=
  log.foldl (consumed stuck) full

/-- A pass that reads nothing finds no bank flagged and no signal. -/
theorem pick_eq_none {allow : Bool} {prefer : ℕ} {full : Bool → Bool} :
    pick allow prefer full = none ↔ allow = false ∧ ∀ j, full j = false := by
  unfold pick
  cases h1 : full true <;> cases h0 : full false <;> cases allow <;> simp [h1, h0]

/-- A function of the bank number that is known in both banks. -/
theorem eq_of_banks {full : Bool → Bool} {f0 f1 : Bool} (h0 : full false = f0) (h1 : full true = f1) :
    full = fun j => if j then f1 else f0 := by
  funext j
  cases j with
  | false => exact h0
  | true => exact h1

/-- What the passes of one drain read: every flagged bank, one whose flag clears just once, an
unflagged bank only as the first and only read on behalf of a signal; afterwards the stuck flags
are left. -/
structure Fair (stuck full : Bool → Bool) (signalled : Bool) (log : List Bool) : Prop where
  least : ∀ i, full i = true → i ∈ log
  once : ∀ i, full i = true → stuck i = false → log.count i = 1
  fallback : ∀ i, full i = false → i ∈ log →
    i = false ∧ log = [false] ∧ (∀ j, full j = false) ∧ signalled = true
  remaining : ∀ i, remaining stuck full log i = (full i && stuck i)

/-- Eight passes over two banks suffice. -/
theorem reads_fair (stuck full : Bool → Bool) (signalled : Bool) :
    Fair stuck full signalled (reads stuck asfDrainMax 0 signalled full) := by
  obtain ⟨f0, hf0⟩ : ∃ f0, full false = f0 := ⟨_, rfl⟩
  obtain ⟨f1, hf1⟩ : ∃ f1, full true = f1 := ⟨_, rfl⟩
  obtain ⟨s0, hs0⟩ : ∃ s0, stuck false = s0 := ⟨_, rfl⟩
  obtain ⟨s1, hs1⟩ : ∃ s1, stuck true = s1 := ⟨_, rfl⟩
  rw [eq_of_banks hf0 hf1, eq_of_banks hs0 hs1]
  clear hf0 hf1 hs0 hs1
  refine ⟨?_, ?_, ?_, ?_⟩
  · revert f0 f1 s0 s1 signalled
    decide
  · revert f0 f1 s0 s1 signalled
    decide
  · revert f0 f1 s0 s1 signalled
    decide
  · revert f0 f1 s0 s1 signalled
    decide

/-! ## Runs with a log -/

/-- A read of ASFINDEX at the start of the selected bank begins to read that bank. -/
def St.readOut (b : Board) (s : St) : Op → List Bool
  | .inb port =>
    if decode b.auxSmba port = some .index ∧ s.hw.bnksel.getLsbD 7 = false ∧ s.hw.rdptr = 0 then
      [s.hw.selected]
    else []
  | _ => []

/-- One operation of thread `t`, with a log of the banks read so far. -/
def logged (b : Board) (t : ℕ) (o : Op) (x : St × List Bool) : Option (o.Ans × St × List Bool) :=
  (exec b t o x.1).map fun rs => (rs.1, rs.2, x.2 ++ x.1.readOut b o)

/-- The control bits of ASFDATABNKSEL other than the bank select. -/
def Target.steering (h : Target) : Byte := h.bnksel &&& ~~~(asfBnkFull ||| bit asfBnkSel)

/-- On a quiet bus that began with the block as `h`: the banks have kept their contents, the flags
are `full`, the read pointer is at `pos`, and `signalled` says whether a signal is outstanding. -/
structure QuietBus (b : Board) (h : Target) (full : Bool → Bool) (signalled : Bool) (pos : ℕ) (s : St) :
    Prop where
  smba : s.asf.smba = b.auxSmba
  errorless : s.hw.slvsta &&& asfErrorStatus = 0
  pos : s.hw.rdptr = pos
  routed : getElem s.hw.bnksel 7 (fits rfl) = false
  steering : s.hw.steering = h.steering
  data : ∀ i, (s.hw.bank i).data = (h.bank i).data
  rwptr : ∀ i, (s.hw.bank i).rwptr = (h.bank i).rwptr
  stuck : ∀ i, (s.hw.bank i).stuck = (h.bank i).stuck
  full : ∀ i, (s.hw.bank i).full = full i
  signal : (getElem s.hw.sta 6 (fits rfl) || s.asf.pending) = signalled

section Steps

variable {b : Board} {t : ℕ} {h : Target} {full : Bool → Bool} {signalled : Bool} {pos : ℕ}
  {x : St × List Bool}

/-- A port read other than of ASFINDEX leaves everything as it is. -/
theorem logged_inb {port : ℕ} {r : Reg} (hr : decode b.auxSmba port = some r) (hne : r ≠ .index) :
    logged b t (.inb port) x = some ((x.1.hw.read x.1.world.bus r).1, x) := by
  have hsame : (x.1.hw.read x.1.world.bus r).2 = x.1.hw := by
    cases r with
    | index => exact absurd rfl hne
    | _ => rfl
  have hquiet : x.1.readOut b (.inb port) = [] := by
    simp [St.readOut, hr, hne]
  simp only [logged, exec, St.portRead_reg _ hr, hquiet, hsame, List.append_nil]
  rfl

/-- A port write leaves the log as it is. -/
theorem logged_outb {port : ℕ} {r : Reg} (v : Byte) (hr : decode b.auxSmba port = some r) :
    logged b t (.outb v port) x =
      some ((), x.1.written t v r, x.2) := by
  simp only [logged, exec, St.portWrite_reg _ _ _ hr, St.readOut, List.append_nil]
  rfl

/-- A read of the selected bank. -/
theorem logged_index (hquiet : QuietBus b h full signalled pos x.1) :
    logged b t (.inb (asfIndex b.auxSmba)) x =
      some ((h.bank x.1.hw.selected).data.getD pos 0, x.1.readByte,
        if pos = 0 then x.2 ++ [x.1.hw.selected] else x.2) := by
  have hread : x.1.hw.read x.1.world.bus .index = x.1.hw.readIndex := by
    simp only [Target.read]
    exact if_neg (by simp [hquiet.routed])
  have hfirst : x.1.hw.readIndex.1 = (h.bank x.1.hw.selected).data.getD pos 0 := by
    rw [← hquiet.data, ← hquiet.pos]
    rfl
  have hrouted : x.1.hw.bnksel.getLsbD 7 = false := hquiet.routed
  simp only [logged, exec, St.portRead_reg _ (decode_asfIndex _), hread, hfirst, St.readOut,
    decode_asfIndex, hrouted, hquiet.pos, true_and]
  split
  · simp [St.readByte]
  · simp [St.readByte]

/-- One operation, ending with its answer. -/
theorem logged_ends {o : Op} {r : o.Ans} {y : St × List Bool} {Z : o.Ans → St × List Bool → Prop}
    (hexec : logged b t o x = some (r, y)) (h : Z r y) :
    (Prog.op o Prog.ret).Ends (logged b t) Z x :=
  .op hexec (.ret h)

/-- Acknowledging the status bit leaves the pending flag as the signal. -/
theorem ackStatus_ends (hquiet : QuietBus b h full signalled pos x.1) :
    (ackStatus b.auxSmba).Ends (logged b t)
      (fun sta y => sta = x.1.hw.sta ∧ y.2 = x.2 ∧ QuietBus b h full x.1.asf.pending pos y.1 ∧
        y.1.asf = x.1.asf ∧ getElem y.1.hw.sta 6 (fits rfl) = false) x := by
  unfold ackStatus
  refine .bind (Q := fun v y => v = x.1.hw.sta ∧ y = x)
    (logged_ends (logged_inb (decode_asfSta _) (by decide)) ⟨rfl, rfl⟩) ?_
  rintro _ y ⟨rfl, rfl⟩
  by_cases hset : y.1.hw.sta &&& bit asfStaSlvInt ≠ 0
  · rw [if_pos hset]
    refine .bind (Q := fun _ z => z = _) (logged_ends (logged_outb _ (decode_asfSta _)) rfl) ?_
    rintro _ z rfl
    refine .ret ⟨rfl, rfl, { hquiet with signal := ?_ }, rfl, ?_⟩
    · simp [St.written, Target.write]
    · simp [St.written, Target.write]
  · rw [if_neg hset]
    have hclear : y.1.hw.sta[6] = false := by simpa using hset
    refine .ret ⟨rfl, rfl, { hquiet with signal := ?_ }, rfl, hclear⟩
    rw [hclear, Bool.false_or]

/-- Acknowledging the status bit and taking the pending flag leaves no signal. -/
theorem takeSignal_ends (hquiet : QuietBus b h full signalled pos x.1) :
    (takeSignal b.auxSmba).Ends (logged b t)
      (fun r y => r = signalled ∧ y.2 = x.2 ∧ QuietBus b h full false pos y.1) x := by
  unfold takeSignal
  refine .bind (ackStatus_ends hquiet) ?_
  rintro _ y ⟨rfl, hlog, hquiet', hasf, hclear⟩
  refine .bind (Q := fun v z => v = x.1.asf.pending ∧ z = (y.1.takePending, y.2))
    (logged_ends (y := (y.1.takePending, y.2)) ?_ ⟨rfl, rfl⟩) ?_
  · rw [← hasf]
    simp only [logged, exec, St.readOut, List.append_nil]
    rfl
  rintro _ z ⟨rfl, rfl⟩
  refine .ret ⟨?_, hlog, { hquiet' with signal := ?_ }⟩
  · rw [← hquiet.signal]
    simp
  · show (y.1.hw.sta[6] || false) = false
    rw [hclear, Bool.false_or]

/-- The flags as they read back. -/
theorem flag_full (hquiet : QuietBus b h full signalled pos x.1) (j : Bool) :
    x.1.hw.bnkselValue.getLsbD (Target.flagBit j) = full j := by
  rw [bnkselValue_flag, hquiet.full]

/-- Looking at both flags reads no bank. -/
theorem banksIdle_ends (hquiet : QuietBus b h full signalled pos x.1) :
    (banksIdle b.auxSmba).Ends (logged b t)
      (fun r y => (r = true ↔ ∀ j, full j = false) ∧ y = x) x := by
  unfold banksIdle
  refine .bind (Q := fun v y => v = x.1.hw.bnkselValue ∧ y = x)
    (logged_ends (logged_inb (decode_asfDataBnkSel _) (by decide)) ⟨rfl, rfl⟩) ?_
  rintro _ y ⟨rfl, rfl⟩
  refine .ret ⟨?_, rfl⟩
  rw [decide_eq_true_iff, flags_zero]
  exact forall_congr' fun j => by rw [flag_full hquiet]

/-- The choice of a bank depends on the flags alone. -/
theorem chooseBank_eq (v : Byte) (allow : Bool) (prefer : ℕ) :
    chooseBank v allow prefer = pick allow prefer fun j => v.getLsbD (Target.flagBit j) := by
  have hboth : v &&& asfBnkFull = asfBnkFull ↔ v.getLsbD 3 = true ∧ v.getLsbD 2 = true := by
    have hmask : asfBnkFull = bit 2 ||| bit 3 := by decide
    constructor
    · intro h
      have h3 := congrArg (fun x : Byte => x.getLsbD 3) h
      have h2 := congrArg (fun x : Byte => x.getLsbD 2) h
      rw [hmask] at h3 h2
      exact ⟨by simpa [BitVec.getLsbD_eq_getElem] using h3,
        by simpa [BitVec.getLsbD_eq_getElem] using h2⟩
    · rintro ⟨h3, h2⟩
      rw [BitVec.getLsbD_eq_getElem (by decide)] at h3 h2
      refine BitVec.eq_of_getElem_eq fun j hj => ?_
      rw [hmask, BitVec.getElem_and, BitVec.getElem_or, getElem_bit, getElem_bit]
      by_cases hj2 : 2 = j
      · subst hj2
        simp [h2]
      · by_cases hj3 : 3 = j
        · subst hj3
          simp [h3]
        · simp [hj2, hj3]
  have h3 : v &&& bit 3 ≠ 0 ↔ v.getLsbD 3 = true := by
    simp [BitVec.getLsbD_eq_getElem]
  have h2 : v &&& bit 2 ≠ 0 ↔ v.getLsbD 2 = true := by
    simp [BitVec.getLsbD_eq_getElem]
  simp only [chooseBank, pick, Target.flagBit, hboth, h3, h2, if_true, Bool.false_eq_true, if_false,
    Bool.and_eq_true]

/-! ## Reading one bank -/

/-- Reading a byte of the selected bank moves the read pointer. -/
theorem QuietBus.readByte {s : St} (hquiet : QuietBus b h full signalled pos s) :
    QuietBus b h full signalled (pos + 1) s.readByte where
  smba := hquiet.smba
  errorless := by
    rw [← hquiet.errorless]
    simp [St.readByte]
  pos := by
    rw [← hquiet.pos]
    rfl
  routed := by
    rw [← hquiet.routed]
    simp [St.readByte]
  steering := by
    rw [← hquiet.steering]
    simp [St.readByte, Target.steering]
  data i := by
    rw [← hquiet.data, St.readByte, readIndex_data]
  rwptr i := by
    rw [← hquiet.rwptr, St.readByte, readIndex_rwptr]
  stuck i := by
    rw [← hquiet.stuck, St.readByte, readIndex_stuck]
  full i := by
    rw [← hquiet.full, St.readByte, readIndex_full]
  signal := by
    rw [← hquiet.signal]
    simp [St.readByte]

/-- A write to ASFDATABNKSEL that keeps the control bits clears the flags it names, unless they
are stuck. -/
theorem QuietBus.write_bnksel {s : St} {v : Byte} (hquiet : QuietBus b h full signalled pos s)
    (hsteer : v &&& ~~~(asfBnkFull ||| bit asfBnkSel) = h.steering) (h7 : getElem v 7 (fits rfl) = false) :
    QuietBus b h (fun j => full j && (!v.getLsbD (Target.flagBit j) || (h.bank j).stuck)) signalled pos
      (s.written t v .bnksel) where
  smba := hquiet.smba
  errorless := hquiet.errorless
  pos := hquiet.pos
  routed := by
    simpa [St.written, Target.write] using h7
  steering := by
    have hmask : ~~~asfBnkFull &&& ~~~(asfBnkFull ||| bit asfBnkSel) =
        ~~~(asfBnkFull ||| bit asfBnkSel) := by decide
    rw [← hsteer]
    show (v &&& ~~~asfBnkFull) &&& ~~~(asfBnkFull ||| bit asfBnkSel) = _
    rw [BitVec.and_assoc, hmask]
  data j := by
    rw [← hquiet.data, written_bnksel_bank]
    split <;> rfl
  rwptr j := by
    rw [← hquiet.rwptr, written_bnksel_bank]
    split <;> rfl
  stuck j := by
    rw [← hquiet.stuck, written_bnksel_bank]
    split <;> rfl
  full j := by
    rw [written_bnksel_bank, ← hquiet.full, ← hquiet.stuck]
    split
    · next hset => simp [Bank.consume, hset]
    · next hset => simp [hset]
  signal := hquiet.signal

/-- Reading payload bytes of bank `i`. -/
theorem readPayload_ends {i : Bool} (left : ℕ) {pos : ℕ} {x : St × List Bool} (hpos : pos ≠ 0)
    (hsel : x.1.hw.selected = i) (hquiet : QuietBus b h full signalled pos x.1) :
    (readPayload b.auxSmba left).Ends (logged b t)
      (fun data y => (data.length = left ∧
          ∀ j, j < left → data.getD j 0 = (h.bank i).data.getD (pos + j) 0) ∧
        y.2 = x.2 ∧ y.1.hw.selected = i ∧ QuietBus b h full signalled (pos + left) y.1) x := by
  induction left generalizing pos x with
  | zero =>
    refine .ret ⟨⟨rfl, fun j hj => absurd hj (Nat.not_lt_zero j)⟩, rfl, hsel, hquiet⟩
  | succ left ih =>
    unfold readPayload
    refine .bind (Q := fun v y => v = (h.bank i).data.getD pos 0 ∧ y = (x.1.readByte, x.2))
      (logged_ends (logged_index hquiet) ?_) ?_
    · rw [hsel, if_neg hpos]
      exact ⟨rfl, rfl⟩
    rintro v y ⟨rfl, rfl⟩
    refine .bind (ih (by omega : pos + 1 ≠ 0) (by simpa [St.readByte, Target.selected] using hsel)
      hquiet.readByte) ?_
    rintro data y ⟨⟨hlen, hdata⟩, hlog, hsel', hquiet'⟩
    refine .ret ⟨⟨by rw [List.length_cons, hlen], fun j hj => ?_⟩, hlog, hsel', ?_⟩
    · cases j with
      | zero => rfl
      | succ j =>
        rw [List.getD_cons_succ, hdata j (Nat.lt_of_succ_lt_succ hj), Nat.add_right_comm]
        rfl
    · rw [Nat.add_right_comm] at hquiet'
      exact hquiet'

/-- The values `piix4_asf_process_bank` writes to ASFDATABNKSEL keep its control bits. -/
theorem steering_select (v : Byte) (i : Bool) :
    assignBit asfBnkSel (v &&& ~~~asfBnkFull) i &&& ~~~(asfBnkFull ||| bit asfBnkSel) =
      v &&& ~~~(asfBnkFull ||| bit asfBnkSel) := by
  ext j hj
  by_cases h4 : 4 = j
  · simp [h4]
  · simp only [BitVec.getElem_and, getElem_assignBit, BitVec.getElem_not, BitVec.getElem_or,
      getElem_bit, h4, if_false, decide_false, Bool.or_false, Bool.and_assoc, Bool.and_self]

/-- Consuming a bank does not touch the steering bits. -/
theorem steering_consume (v : Byte) (i : Bool) :
    (v ||| bit (Target.flagBit i)) &&& ~~~(asfBnkFull ||| bit asfBnkSel) =
      v &&& ~~~(asfBnkFull ||| bit asfBnkSel) := by
  have hmask : (bit (Target.flagBit i) : Byte) &&& ~~~(asfBnkFull ||| bit asfBnkSel) = 0 := by
    cases i with
    | false => decide
    | true => decide
  rw [BitVec.and_or_distrib_right, hmask]
  exact BitVec.or_zero

/-- The control bits are read back together with the flags. -/
theorem bnkselValue_steering (g : Target) :
    g.bnkselValue &&& ~~~(asfBnkFull ||| bit asfBnkSel) = g.steering := by
  have hmask : ~~~(asfBnkFull ||| bit asfBnkSel) =
      ~~~asfBnkFull &&& ~~~(asfBnkFull ||| bit asfBnkSel) := by decide
  rw [Target.steering, hmask, ← BitVec.and_assoc, ← BitVec.and_assoc, Target.bnkselValue_and]

/-- Reading out bank `i` and marking it consumed. -/
theorem readBank_ends (i : Bool) (hquiet : QuietBus b h full signalled 0 x.1) :
    (readBank b.auxSmba x.1.hw.bnkselValue i).Ends (logged b t)
      (fun r y => (h.bank i).notifier = hostNotifyAddr r.1 r.2 ∧ y.2 = x.2 ++ [i] ∧
        ∃ p, QuietBus b h (consumed (fun j => (h.bank j).stuck) full i) signalled p y.1) x := by
  obtain ⟨reg, hreg⟩ : ∃ reg, assignBit asfBnkSel (x.1.hw.bnkselValue &&& ~~~asfBnkFull) i = reg :=
    ⟨_, rfl⟩
  have hsteer : reg &&& ~~~(asfBnkFull ||| bit asfBnkSel) = h.steering := by
    rw [← hreg, steering_select, bnkselValue_steering, hquiet.steering]
  have h7 : reg[7] = false := by
    have hrouted := hquiet.routed
    rw [← hreg, Target.bnkselValue_and]
    simpa using hrouted
  have h4 : reg[4] = i := by simp [← hreg]
  have hflags : ∀ j, reg.getLsbD (Target.flagBit j) = false := by
    intro j
    cases j with
    | false => simp [← hreg, Target.flagBit, BitVec.getLsbD_eq_getElem]
    | true => simp [← hreg, Target.flagBit, BitVec.getLsbD_eq_getElem]
  have hmarks : ∀ j, (reg ||| bit (Target.flagBit i)).getLsbD (Target.flagBit j) = decide (j = i) := by
    intro j
    rw [BitVec.getLsbD_or, hflags, Bool.false_or]
    cases i <;> cases j <;> decide
  unfold readBank
  rw [hreg]
  -- select the bank
  refine .bind (Q := fun _ y => y = (x.1.written t reg .bnksel, x.2))
    (logged_ends (logged_outb reg (decode_asfDataBnkSel _)) rfl) ?_
  rintro _ y rfl
  have hselect : QuietBus b h full signalled 0 (x.1.written t reg .bnksel) := by
    have hwritten := hquiet.write_bnksel (t := t) hsteer h7
    simpa only [hflags, Bool.not_false, Bool.true_or, Bool.and_true] using hwritten
  have hsel : (x.1.written t reg .bnksel).hw.selected = i := by
    rw [written_bnksel_selected]
    exact h4
  -- its first byte, its length and its payload
  refine .bind (Q := fun v y => v = (h.bank i).data.getD 0 0 ∧
    y = ((x.1.written t reg .bnksel).readByte, x.2 ++ [i])) (logged_ends (logged_index hselect) ?_) ?_
  · rw [hsel, if_pos rfl]
    exact ⟨rfl, rfl⟩
  rintro cmd y ⟨hcmd, rfl⟩
  have hread := hselect.readByte
  have hsel' : (x.1.written t reg .bnksel).readByte.hw.selected = i := by
    simpa [St.readByte, Target.selected] using hsel
  refine .bind (Q := fun v y => v = (h.bank i).rwptr ∧
    y = ((x.1.written t reg .bnksel).readByte, x.2 ++ [i]))
    (logged_ends (logged_inb (decode_asfDataRwPtr _) (by decide)) ⟨?_, rfl⟩) ?_
  · show ((x.1.written t reg .bnksel).readByte.hw.bank _).rwptr = _
    rw [hsel', hread.rwptr]
  rintro len y ⟨hlen, rfl⟩
  refine .bind (readPayload_ends _ (by omega : 0 + 1 ≠ 0) hsel' hread) ?_
  rintro data y ⟨⟨hcount, hdata⟩, hlog, _, hquiet'⟩
  -- mark it consumed
  refine .bind (Q := fun _ z => z = (y.1.written t (reg ||| bit (Target.flagBit i)) .bnksel, y.2))
    (logged_ends (logged_outb _ (decode_asfDataBnkSel _)) rfl) ?_
  rintro _ z rfl
  refine .ret ⟨?_, hlog, 0 + 1 + min len.toNat asfBlockMaxBytes, ?_⟩
  · refine Bank.notifier_eq hcmd.symm ?_ fun hthree => ?_
    · rw [← hlen]
      exact long_enough hcount
    · exact (hdata 0 (by simp only [asfHostNotifyLen] at hthree; omega)).symm
  · have hwritten := hquiet'.write_bnksel (t := t) (v := reg ||| bit (Target.flagBit i))
      ((steering_consume reg i).trans hsteer) (by cases i <;> simp [h7, Target.flagBit])
    have hconsumed : (fun j => full j && (!decide (j = i) || (h.bank j).stuck)) =
        consumed (fun j => (h.bank j).stuck) full i := by
      funext j
      rw [consumed, decide_not]
    rw [← hconsumed]
    simpa only [hmarks] using hwritten

/-- A mark leaves everything as it is. -/
theorem quiet_mark {mk : Mark} (hquiet : QuietBus b h full signalled pos x.1) :
    (mark mk).Ends (logged b t) (fun _ y => y.2 = x.2 ∧ QuietBus b h full signalled pos y.1) x := by
  refine logged_ends (r := ())
    (y := ({ x.1 with ghost := x.1.ghost.after x.1.hw mk, irq := x.1.irq.after mk }, x.2)) ?_ ⟨rfl, ?_⟩
  · simp only [logged, exec, St.readOut, List.append_nil]
    rfl
  · exact ⟨hquiet.smba, hquiet.errorless, hquiet.pos, hquiet.routed, hquiet.steering, hquiet.data,
      hquiet.rwptr, hquiet.stuck, hquiet.full, hquiet.signal⟩

/-- Rewinding the read pointer and decoding. -/
theorem finishBank_ends (n : ℕ) (cmd : Byte) (data : List Byte)
    (hquiet : QuietBus b h full signalled pos x.1) :
    (finishBank b.auxSmba n cmd data).Ends (logged b t)
      (fun r y => r = (some n, hostNotifyAddr cmd data) ∧ y.2 = x.2 ∧
        QuietBus b h full signalled 0 y.1) x := by
  have hrewound : QuietBus b h full signalled 0 (x.1.written t 0 .setrdptr) :=
    ⟨hquiet.smba, hquiet.errorless, rfl, hquiet.routed, hquiet.steering,
      fun i => by rw [← hquiet.data]; cases i <;> rfl, fun i => by rw [← hquiet.rwptr]; cases i <;> rfl,
      fun i => by rw [← hquiet.stuck]; cases i <;> rfl, fun i => by rw [← hquiet.full]; cases i <;> rfl,
      hquiet.signal⟩
  unfold finishBank
  refine .bind (Q := fun _ y => y = (x.1.written t 0 .setrdptr, x.2))
    (logged_ends (logged_outb 0 (decode_asfSetDataRdPtr _)) rfl) ?_
  rintro _ y rfl
  cases haddr : hostNotifyAddr cmd data with
  | none => exact .ret ⟨rfl, rfl, hrewound⟩
  | some a =>
    refine .bind (quiet_mark (x := (x.1.written t 0 .setrdptr, x.2)) hrewound) ?_
    rintro _ y ⟨hlog, hquiet'⟩
    exact .ret ⟨rfl, hlog, hquiet'⟩

/-- `piix4_asf_process_bank` reads the bank picked. -/
theorem processBank_ends {allow : Bool} {prefer : ℕ} {i : Bool} (hpick : pick allow prefer full = some i)
    (hquiet : QuietBus b h full signalled 0 x.1) :
    (piix4AsfProcessBank allow prefer).Ends (logged b t)
      (fun r y => r.1 ≠ none ∧ r.2 = (h.bank i).notifier ∧ y.2 = x.2 ++ [i] ∧
        QuietBus b h (consumed (fun j => (h.bank j).stuck) full i) signalled 0 y.1) x := by
  unfold piix4AsfProcessBank
  refine .bind (Q := fun a y => a = x.1.asf ∧ y = x)
    (.op rfl (.ret ⟨rfl, Prod.ext rfl (List.append_nil _)⟩)) ?_
  rintro _ y ⟨rfl, rfl⟩
  rw [hquiet.smba]
  refine .bind (Q := fun v z => v = y.1.hw.slvsta ∧ z = y)
    (logged_ends (logged_inb (decode_asfSlvSta _) (by decide)) ⟨rfl, rfl⟩) ?_
  rintro _ z ⟨rfl, rfl⟩
  rw [if_neg (not_not.mpr hquiet.errorless)]
  refine .bind (Q := fun v y => v = z.1.hw.bnkselValue ∧ y = z)
    (logged_ends (logged_inb (decode_asfDataBnkSel _) (by decide)) ⟨rfl, rfl⟩) ?_
  rintro _ y ⟨rfl, rfl⟩
  have hchoose : chooseBank y.1.hw.bnkselValue allow prefer = some i := by
    rw [chooseBank_eq, ← hpick]
    congr 1
    funext j
    exact flag_full hquiet j
  rw [hchoose]
  refine .bind (readBank_ends i hquiet) ?_
  rintro r z ⟨hnotifier, hlog, p, hquiet'⟩
  refine .mono (finishBank_ends _ r.1 r.2 hquiet') ?_
  rintro _ w ⟨rfl, hsame, hquiet''⟩
  exact ⟨Option.some_ne_none _, hnotifier.symm, hsame.trans hlog, hquiet''⟩

end Steps

/-! ## The whole drain -/

/-- The list keeps the first addresses that fit. -/
theorem Notifies.push_take (n : Notifies) (a : ℕ) :
    (n.push a).addr = (n.addr ++ [a]).take asfNotifyMax := by
  rw [Notifies.push_addr]
  split
  · next hroom =>
    refine (List.take_of_length_le ?_).symm
    rw [List.length_append, List.length_singleton]
    exact hroom
  · next hfull =>
    have hlen : n.addr.length = asfNotifyMax := Nat.le_antisymm n.bounded (Nat.not_lt.mp hfull)
    rw [← hlen, List.take_left]

/-- Cutting a list short before or after adding to it. -/
theorem take_take_append {α : Type} (m : ℕ) (l l' : List α) :
    (l.take m ++ l').take m = (l ++ l').take m := by
  rw [List.take_append, List.take_append, List.take_take, Nat.min_self, List.length_take]
  congr 2
  omega

/-- The addresses of the notifying devices in the banks read. -/
def Target.notifiers (h : Target) (log : List Bool) : List ℕ := log.filterMap fun i => (h.bank i).notifier

/-- What the passes of a drain come to when they read the banks in `log`. -/
structure ReadThrough (b : Board) (h : Target) (full : Bool → Bool) (n : Notifies) (log : List Bool)
    (r : Bool × Notifies) (s : St) : Prop where
  quiet : QuietBus b h (remaining (fun j => (h.bank j).stuck) full log) false 0 s
  wedged : r.1 = true ↔ ∃ i, remaining (fun j => (h.bank j).stuck) full log i = true
  addr : r.2.addr = (n.addr ++ h.notifiers log).take asfNotifyMax

section Passes

variable {b : Board} {t : ℕ} {h : Target}

/-- A drain that finds nothing to read ends at once. -/
theorem ReadThrough.idle {full : Bool → Bool} {n : Notifies} {s : St}
    (hquiet : QuietBus b h full false 0 s) (hidle : ∀ j, full j = false) :
    ReadThrough b h full n [] (false, n) s where
  quiet := hquiet
  wedged := by
    constructor
    · intro hf
      cases hf
    · rintro ⟨i, hi⟩
      exact absurd (hi.symm.trans (hidle i)) (by decide)
  addr := by
    rw [Target.notifiers, List.filterMap_nil, List.append_nil, List.take_of_length_le n.bounded]

/-- One bank read before the others. -/
theorem ReadThrough.read {full : Bool → Bool} {n n' : Notifies} {i : Bool} {log : List Bool}
    {r : Bool × Notifies} {s : St}
    (hrest : ReadThrough b h (consumed (fun j => (h.bank j).stuck) full i) n' log r s)
    (hn : n'.addr = (n.addr ++ (h.bank i).notifier.toList).take asfNotifyMax) :
    ReadThrough b h full n (i :: log) r s where
  quiet := hrest.quiet
  wedged := hrest.wedged
  addr := by
    rw [hrest.addr, hn, take_take_append, List.append_assoc, Target.notifiers, Target.notifiers]
    cases hnotifier : (h.bank i).notifier with
    | none => simp [hnotifier]
    | some a => simp [hnotifier]

/-- The passes read what `reads` computes: by induction on the number of passes left, where only
the first may still find a signal. -/
theorem drainPasses_ends (left : ℕ) {i : ℕ} {n : Notifies} {full : Bool → Bool} {signalled : Bool}
    {x : St × List Bool} (hspent : left ≠ 0 ∨ signalled = false)
    (hquiet : QuietBus b h full signalled 0 x.1) :
    (drainPasses b.auxSmba left i n).Ends (logged b t)
      (fun r y => y.2 = x.2 ++ reads (fun j => (h.bank j).stuck) left i signalled full ∧
        ReadThrough b h full n (reads (fun j => (h.bank j).stuck) left i signalled full) r y.1) x := by
  induction left generalizing i n full signalled x with
  | zero =>
    have hnone : signalled = false := hspent.resolve_left fun hz => hz rfl
    subst hnone
    unfold drainPasses
    refine .bind (banksIdle_ends hquiet) ?_
    rintro idle _ ⟨hidle, rfl⟩
    refine .ret ⟨(List.append_nil _).symm, hquiet, ?_, ?_⟩
    · rw [Bool.not_eq_true', ← Bool.not_eq_true, hidle, not_forall]
      exact exists_congr fun j => by rw [Bool.not_eq_false]; rfl
    · rw [reads, Target.notifiers, List.filterMap_nil, List.append_nil,
        List.take_of_length_le n.bounded]
  | succ left ih =>
    -- the rest of the pass once there is something to read
    have hpass : ∀ {sig : Bool} {j : Bool} {y : St × List Bool}, pick sig i full = some j →
        QuietBus b h full false 0 y.1 →
        (readPass sig i n fun n' => drainPasses b.auxSmba left (i + 1) n').Ends (logged b t)
          (fun r z => z.2 = y.2 ++ reads (fun j => (h.bank j).stuck) (left + 1) i sig full ∧
            ReadThrough b h full n (reads (fun j => (h.bank j).stuck) (left + 1) i sig full) r z.1)
          y := by
      intro sig j y hpick hquiet'
      have hreads : reads (fun j => (h.bank j).stuck) (left + 1) i sig full =
          j :: reads (fun j => (h.bank j).stuck) left (i + 1) false
            (consumed (fun j => (h.bank j).stuck) full j) := by
        rw [reads, hpick]
      rw [hreads]
      refine .bind (processBank_ends hpick hquiet') ?_
      rintro ⟨bank, addr⟩ z ⟨hread, rfl, hlog, hquiet''⟩
      obtain ⟨bank, rfl⟩ := Option.ne_none_iff_exists'.mp hread
      refine .mono (ih (Or.inr rfl) hquiet'') ?_
      rintro r v ⟨hrest, hdrained⟩
      refine ⟨?_, hdrained.read ?_⟩
      · rw [hrest, hlog, List.append_assoc, List.singleton_append]
      · cases (h.bank j).notifier with
        | none =>
          rw [Option.toList_none, List.append_nil]
          exact (List.take_of_length_le n.bounded).symm
        | some a => exact n.push_take a
    unfold drainPasses
    refine .bind (takeSignal_ends hquiet) ?_
    rintro sig y ⟨rfl, hlog, hquiet'⟩
    rw [← hlog]
    cases sig with
    | true =>
      obtain ⟨j, hpick⟩ : ∃ j, pick true i full = some j := by
        rw [← Option.ne_none_iff_exists', ne_eq, pick_eq_none]
        exact fun h => absurd h.1 (by decide)
      exact hpass hpick hquiet'
    | false =>
      refine .bind (banksIdle_ends hquiet') ?_
      rintro idle z ⟨hidle, rfl⟩
      cases idle with
      | true =>
        have hnone : ∀ j, full j = false := hidle.mp rfl
        have hnothing : reads (fun j => (h.bank j).stuck) (left + 1) i false full = [] := by
          rw [reads, pick_eq_none.mpr ⟨rfl, hnone⟩]
        rw [hnothing]
        exact .ret ⟨(List.append_nil _).symm, .idle hquiet' hnone⟩
      | false =>
        obtain ⟨j, hpick⟩ : ∃ j, pick false i full = some j := by
          rw [← Option.ne_none_iff_exists', ne_eq, pick_eq_none]
          intro h
          exact absurd (hidle.mpr h.2) (by decide)
        exact hpass hpick hquiet'

end Passes

/-- On a quiet bus the drain empties the banks: it reads every flagged bank, one whose flag
clears just once, and an unflagged bank only as the single fallback that a signal justifies; it
reports exactly the stuck flags, which alone are left, and collects the notifiers of the banks it
read in that order. -/
theorem drain_quiet (b : Board) (t : ℕ) (s : St) (n : Notifies) (hsmba : s.asf.smba = b.auxSmba)
    (herrorless : s.hw.slvsta &&& asfErrorStatus = 0) (hrewound : s.hw.rdptr = 0)
    (hrouted : getElem s.hw.bnksel 7 (fits rfl) = false) :
    (piix4AsfDrain b.auxSmba n).Ends (logged b t) (fun r y =>
      -- which banks were read
      (∀ i, (s.hw.bank i).full = true → i ∈ y.2) ∧
      (∀ i, (s.hw.bank i).full = true → (s.hw.bank i).stuck = false → y.2.count i = 1) ∧
      (∀ i, (s.hw.bank i).full = false → i ∈ y.2 → i = false ∧ y.2 = [false] ∧
        (∀ j, (s.hw.bank j).full = false) ∧
        (getElem s.hw.sta 6 (fits rfl) = true ∨ s.asf.pending = true)) ∧
      -- what it returned
      (r.1 = true ↔ ∃ i, (s.hw.bank i).full = true ∧ (s.hw.bank i).stuck = true) ∧
      r.2.addr = (n.addr ++ s.hw.notifiers y.2).take asfNotifyMax ∧
      -- what it left behind
      getElem y.1.hw.sta 6 (fits rfl) = false ∧ y.1.asf.pending = false ∧
      (∀ i, (y.1.hw.bank i).full = ((s.hw.bank i).full && (s.hw.bank i).stuck)) ∧
      y.1.hw.steering = s.hw.steering) (s, []) := by
  have hquiet : QuietBus b s.hw (fun i => (s.hw.bank i).full)
      (getElem s.hw.sta 6 (fits rfl) || s.asf.pending) 0 s :=
    ⟨hsmba, herrorless, hrewound, hrouted, rfl, fun _ => rfl, fun _ => rfl, fun _ => rfl,
      fun _ => rfl, rfl⟩
  have hfair := reads_fair (fun i => (s.hw.bank i).stuck) (fun i => (s.hw.bank i).full)
    (getElem s.hw.sta 6 (fits rfl) || s.asf.pending)
  unfold piix4AsfDrain
  refine .bind (quiet_mark (x := (s, [])) hquiet) ?_
  rintro _ x ⟨hlog, hquiet'⟩
  refine .bind (drainPasses_ends asfDrainMax (Or.inl (by decide)) hquiet') ?_
  rintro r y ⟨hlog', hdrained⟩
  rw [hlog, List.nil_append] at hlog'
  rw [← hlog'] at hdrained hfair
  refine .bind (quiet_mark hdrained.quiet) ?_
  rintro _ z ⟨hlog'', hquiet''⟩
  have hsignal := hquiet''.signal
  rw [Bool.or_eq_false_iff] at hsignal
  refine .ret ?_
  rw [hlog'']
  refine ⟨hfair.least, hfair.once, fun i hi hmem => ?_, ?_, hdrained.addr, hsignal.1, hsignal.2,
    fun i => ?_, hquiet''.steering⟩
  · obtain ⟨hzero, honly, hnone, hsig⟩ := hfair.fallback i hi hmem
    exact ⟨hzero, honly, hnone, (Bool.or_eq_true _ _).mp hsig⟩
  · rw [hdrained.wedged]
    exact exists_congr fun i => by rw [hfair.remaining, Bool.and_eq_true]
  · rw [hquiet''.full, hfair.remaining]

/-- A block on which a Host Notify from device 0x15 sits in bank 1 under a stuck flag, signalled by
the hard handler. -/
def St.clogged : St :=
  { St.loaded with
    hw := Target.idle.setBank true
      { Bank.empty with full := true, stuck := true, data := [0x10, 0x2a, 0, 0], rwptr := 3 }
    asf := { Piix4Asf.loaded with smba := 0xb20, pending := true } }

/-- The stuck bank is read, bank 0 is not, and the wedge is reported. -/
theorem drain_quiet_clogged :
    (piix4AsfDrain Board.described.auxSmba Notifies.none).Ends (logged Board.described 0)
      (fun r y => true ∈ y.2 ∧ false ∉ y.2 ∧ r.1 = true ∧
        r.2.addr = (St.clogged.hw.notifiers y.2).take asfNotifyMax) (St.clogged, []) := by
  refine .mono (drain_quiet Board.described 0 St.clogged Notifies.none rfl (by decide) rfl rfl) ?_
  rintro r y ⟨hleast, -, hfallback, hwedged, haddr, -⟩
  refine ⟨hleast true rfl, fun h => ?_, hwedged.mpr ⟨true, rfl, rfl⟩, haddr⟩
  exact absurd ((hfallback false rfl h).2.2.1 true) (by decide)

end HostNotify
