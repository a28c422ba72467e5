import HostNotify.Host

/-!
# The ports of a master transfer

`piix4_access` and `piix4_access_sb800` touch nothing but the ports of their own adapter,
whatever the hardware answers: every operation they can issue is a `Plain` one.
-/

namespace HostNotify

open Bits Interleaving

variable {ok : ℕ → Prop} {smba : ℕ}

/-- The operation moves a byte through a permitted port, or asks the system a question. -/
def Op.Plain (ok : ℕ → Prop) : Op → Prop
  | .inb port => ok port
  | .outb _ port => ok port
  | .usleepRange _ _ => True
  | .dynamicDebug => True
  | _ => False

/-- The ports of an adapter up to its data register are permitted. -/
def Permits (ok : ℕ → Prop) (smba : ℕ) : Prop := ∀ i ≤ 8, ok (i + smba)

/-- A port of the engine may be read. -/
theorem Permits.inb (h : Permits ok smba) {i : ℕ} (hi : i ≤ 8) :
    (inb (i + smba)).AllOps (Op.Plain ok) := ⟨h i hi, fun _ => trivial⟩

/-- A port of the engine may be written. -/
theorem Permits.outb (h : Permits ok smba) {i : ℕ} (hi : i ≤ 8) (v : Byte) :
    (outb v (i + smba)).AllOps (Op.Plain ok) := ⟨h i hi, fun _ => trivial⟩

/-- Sleeping is plain. -/
theorem usleepRange_plain (lo hi : ℕ) : (usleepRange lo hi).AllOps (Op.Plain ok) :=
  ⟨trivial, fun _ => trivial⟩

section Access

variable (h : Permits ok smba)
include h

/-- The debug output of a transaction is plain. -/
theorem transactionDebug_plain : (transactionDebug smba).AllOps (Op.Plain ok) := by
  refine Prog.AllOps.bind ⟨trivial, fun _ => trivial⟩ fun on => ?_
  cases on with
  | false => exact trivial
  | true =>
    refine Prog.AllOps.bind (h.inb (i := 2) (by decide)) fun _ => ?_
    refine Prog.AllOps.bind (h.inb (i := 3) (by decide)) fun _ => ?_
    refine Prog.AllOps.bind (h.inb (i := 4) (by decide)) fun _ => ?_
    refine Prog.AllOps.bind (h.inb (i := 5) (by decide)) fun _ => ?_
    exact Prog.AllOps.bind (h.inb (i := 6) (by decide)) fun _ => trivial

/-- Polling the engine is plain. -/
theorem pollHost_plain (left : ℕ) (temp : Byte) :
    (pollHost smba left temp).AllOps (Op.Plain ok) := by
  induction left generalizing temp with
  | zero => exact trivial
  | succ left ih =>
    refine Prog.AllOps.bind (h.inb (i := 0) (by decide)) fun sts => ?_
    split
    · exact Prog.AllOps.bind (usleepRange_plain _ _) fun _ => ih sts
    · exact trivial

/-- Running a transaction is plain. -/
theorem runTransaction_plain (classify : Bool → Byte → Int) (csb5Delay : Bool) :
    (runTransaction classify smba csb5Delay).AllOps (Op.Plain ok) := by
  have hpoll : ∀ r : Bool × Byte, (do
      if (← inb (smbHstSts smba)) ≠ 0 then
        let sts ← inb (smbHstSts smba)
        outb sts (smbHstSts smba)
      let _ ← inb (smbHstSts smba)
      transactionDebug smba
      pure (classify r.1 r.2) : Driver Int).AllOps (Op.Plain ok) := by
    intro r
    have hend : (do
        let _ ← inb (smbHstSts smba)
        transactionDebug smba
        pure (classify r.1 r.2) : Driver Int).AllOps (Op.Plain ok) :=
      Prog.AllOps.bind (h.inb (i := 0) (by decide)) fun _ =>
        Prog.AllOps.bind (transactionDebug_plain h) fun _ => trivial
    refine Prog.AllOps.bind (h.inb (i := 0) (by decide)) fun sts => ?_
    split
    · refine Prog.AllOps.bind (h.inb (i := 0) (by decide)) fun sts => ?_
      exact Prog.AllOps.bind (h.outb (i := 0) (by decide) sts) fun _ => hend
    · exact hend
  refine Prog.AllOps.bind (h.inb (i := 2) (by decide)) fun cnt => ?_
  refine Prog.AllOps.bind (h.outb (i := 2) (by decide) _) fun _ => ?_
  cases csb5Delay with
  | false =>
    exact Prog.AllOps.bind (usleepRange_plain _ _) fun _ =>
      Prog.AllOps.bind (pollHost_plain h _ _) hpoll
  | true =>
    exact Prog.AllOps.bind (usleepRange_plain _ _) fun _ =>
      Prog.AllOps.bind (pollHost_plain h _ _) hpoll

/-- A transaction with its checks is plain. -/
theorem transactionWith_plain (classify : Bool → Byte → Int) (csb5Delay : Bool) :
    (transactionWith classify smba csb5Delay).AllOps (Op.Plain ok) := by
  refine Prog.AllOps.bind (transactionDebug_plain h) fun _ => ?_
  refine Prog.AllOps.bind (h.inb (i := 0) (by decide)) fun temp => ?_
  split
  · refine Prog.AllOps.bind (h.outb (i := 0) (by decide) _) fun _ => ?_
    refine Prog.AllOps.bind (h.inb (i := 0) (by decide)) fun temp => ?_
    split
    · exact trivial
    · exact runTransaction_plain h classify csb5Delay
  · exact runTransaction_plain h classify csb5Delay

/-- Writing the block is plain. -/
theorem writeBlock_plain (data : SmbusData) (left i : ℕ) :
    (writeBlock smba data left i).AllOps (Op.Plain ok) := by
  induction left generalizing i with
  | zero => exact trivial
  | succ left ih =>
    exact Prog.AllOps.bind (h.outb (i := 7) (by decide) _) fun _ => ih (i + 1)

/-- Reading the block is plain. -/
theorem readBlock_plain (left i : ℕ) (data : SmbusData) :
    (readBlock smba left i data).AllOps (Op.Plain ok) := by
  induction left generalizing i data with
  | zero => exact trivial
  | succ left ih =>
    exact Prog.AllOps.bind (h.inb (i := 7) (by decide)) fun v => ih (i + 1) _

end Access

variable {x : SmbusXfer}

/-- Setting up a transfer is plain. -/
theorem setupXfer_plain (h : Permits ok x.smba) : (setupXfer x).AllOps (Op.Plain ok) := by
  have hadd := h.outb (i := 4) (by decide) x.addressByte
  have hcmd := h.outb (i := 3) (by decide) x.command
  have hdat0 := h.outb (i := 5) (by decide) (x.data 0)
  have hdat1 := h.outb (i := 6) (by decide) (x.data 1)
  unfold setupXfer
  split
  · exact Prog.AllOps.bind hadd fun _ => trivial
  · refine Prog.AllOps.bind hadd fun _ => ?_
    split
    · exact Prog.AllOps.bind hcmd fun _ => trivial
    · exact trivial
  · refine Prog.AllOps.bind hadd fun _ => Prog.AllOps.bind hcmd fun _ => ?_
    split
    · exact Prog.AllOps.bind hdat0 fun _ => trivial
    · exact trivial
  · refine Prog.AllOps.bind hadd fun _ => Prog.AllOps.bind hcmd fun _ => ?_
    split
    · exact Prog.AllOps.bind hdat0 fun _ => Prog.AllOps.bind hdat1 fun _ => trivial
    · exact trivial
  · refine Prog.AllOps.bind hadd fun _ => Prog.AllOps.bind hcmd fun _ => ?_
    split
    · dsimp only
      split
      · exact trivial
      · refine Prog.AllOps.bind hdat0 fun _ => ?_
        refine Prog.AllOps.bind (h.inb (i := 2) (by decide)) fun _ => ?_
        exact Prog.AllOps.bind (writeBlock_plain h _ _ _) fun _ => trivial
    · exact trivial
  · exact trivial

/-- Fetching the result is plain. -/
theorem fetchXfer_plain (h : Permits ok x.smba) : (fetchXfer x).AllOps (Op.Plain ok) := by
  have hdat0 := h.inb (i := 5) (by decide)
  unfold fetchXfer
  split
  · exact Prog.AllOps.bind hdat0 fun _ => trivial
  · exact Prog.AllOps.bind hdat0 fun _ => trivial
  · exact Prog.AllOps.bind hdat0 fun _ =>
      Prog.AllOps.bind (h.inb (i := 6) (by decide)) fun _ => trivial
  · refine Prog.AllOps.bind hdat0 fun len => ?_
    split
    · exact trivial
    · refine Prog.AllOps.bind (h.inb (i := 2) (by decide)) fun _ => ?_
      exact Prog.AllOps.bind (readBlock_plain h _ _ _) fun _ => trivial
  · exact trivial
  · exact trivial

/-- A transfer around any transaction that stays on the adapter's ports stays on them. -/
theorem accessWith_plain (h : Permits ok x.smba) {transaction : ℕ → Driver Int}
    (htransaction : (transaction x.smba).AllOps (Op.Plain ok)) :
    (accessWith transaction x).AllOps (Op.Plain ok) := by
  refine Prog.AllOps.bind (setupXfer_plain h) fun r => ?_
  cases r with
  | error e => exact trivial
  | ok size =>
    refine Prog.AllOps.bind (h.outb (i := 2) (by decide) _) fun _ => ?_
    refine Prog.AllOps.bind htransaction fun status => ?_
    split
    · exact trivial
    · split
      · exact trivial
      · exact fetchXfer_plain h

/-- An SMBus access is plain. -/
theorem piix4Access_plain (h : Permits ok x.smba) : (piix4Access x).AllOps (Op.Plain ok) :=
  accessWith_plain h (transactionWith_plain h patchedResult false)

end HostNotify
