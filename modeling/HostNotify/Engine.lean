import HostNotify.Asf
import HostNotify.Interleaving.Hidden

/-!
# The host engine

The registers behind the ports up to base+0x07 as the driver finds them: a write-1-to-clear status,
a control register whose reads rewind the block FIFO and whose start bit begins a transaction, and
the command, address and data registers. What the engine and the device on the bus make of a
transaction is arbitrary, except that it does not depend on the done bit and that an idle engine
does nothing.
-/

namespace HostNotify

open Bits Interleaving

/-- The registers of the host engine. -/
inductive HostReg where
  | sts | cnt | cmd | add | dat0 | dat1 | blkdat
  deriving DecidableEq

/-- Which host register of a block at `base` a port number selects. -/
def decodeHost (base port : ℕ) : Option HostReg :=
  if port < base then none
  else match port - base with
    | 0x00 => some .sts
    | 0x02 => some .cnt
    | 0x03 => some .cmd
    | 0x04 => some .add
    | 0x05 => some .dat0
    | 0x06 => some .dat1
    | 0x07 => some .blkdat
    | _ => none

section DecodePorts

variable (base : ℕ)

/-- Where a port lies does not depend on the base address. -/
theorem decodeHost_add (offset : ℕ) : decodeHost base (offset + base) = decodeHost 0 offset := by
  unfold decodeHost
  rw [if_neg (by omega), if_neg (by omega), Nat.add_sub_cancel, Nat.sub_zero]

/-- SMBHSTSTS is the status register. -/
@[simp] theorem decodeHost_smbHstSts : decodeHost base (smbHstSts base) = some .sts :=
  decodeHost_add base _
/-- SMBHSTCNT is the control register. -/
@[simp] theorem decodeHost_smbHstCnt : decodeHost base (smbHstCnt base) = some .cnt :=
  decodeHost_add base _
/-- SMBHSTCMD is the command register. -/
@[simp] theorem decodeHost_smbHstCmd : decodeHost base (smbHstCmd base) = some .cmd :=
  decodeHost_add base _
/-- SMBHSTADD is the address register. -/
@[simp] theorem decodeHost_smbHstAdd : decodeHost base (smbHstAdd base) = some .add :=
  decodeHost_add base _
/-- SMBHSTDAT0 is the first data register. -/
@[simp] theorem decodeHost_smbHstDat0 : decodeHost base (smbHstDat0 base) = some .dat0 :=
  decodeHost_add base _
/-- SMBHSTDAT1 is the second data register. -/
@[simp] theorem decodeHost_smbHstDat1 : decodeHost base (smbHstDat1 base) = some .dat1 :=
  decodeHost_add base _
/-- SMBBLKDAT is the block data register. -/
@[simp] theorem decodeHost_smbBlkDat : decodeHost base (smbBlkDat base) = some .blkdat :=
  decodeHost_add base _
/-- ASFSTA is none of the engine's registers. -/
@[simp] theorem decodeHost_asfSta : decodeHost base (asfSta base) = none := decodeHost_add base _
/-- ASFSLVEN is none of the engine's registers. -/
@[simp] theorem decodeHost_asfSlvEn : decodeHost base (asfSlvEn base) = none := decodeHost_add base _

end DecodePorts

/-- The host engine, with the state that no register shows. -/
structure Engine (δ : Type) where
  sts : Byte
  cnt : Byte
  cmd : Byte
  add : Byte
  dat0 : Byte
  dat1 : Byte
  fifo : ℕ → Byte
  /-- Position of the next SMBBLKDAT access. -/
  index : ℕ
  hidden : δ

/-- The engine with the done bit of SMBHSTSTS clear. -/
def Engine.forget {δ : Type} (e : Engine δ) : Engine δ :=
  { e with sts := assignBit asfHstIntr e.sts false }

/-- How the engine behaves with the device on its bus. -/
structure Hardware (δ : Type) where
  /-- Status bits that a write does not clear. -/
  sticky : Byte
  /-- What setting the start bit of SMBHSTCNT does. -/
  start : Engine δ → Engine δ
  /-- What happens until the driver next looks. -/
  advance : Engine δ → Engine δ
  sticky_done : getElem sticky 1 (fits rfl) = false
  start_forget : ∀ e, (start e.forget).forget = (start e).forget
  advance_forget : ∀ e, (advance e.forget).forget = (advance e).forget
  /-- Nothing happens while the busy bit is clear. -/
  advance_idle : ∀ e : Engine δ, getElem e.sts 0 (fits rfl) = false → advance e = e

namespace Engine

variable {δ : Type}

/-- Read a register. -/
def read (e : Engine δ) : HostReg → Byte × Engine δ
  | .sts => (e.sts, e)
  | .cnt => (e.cnt, { e with index := 0 })
  | .cmd => (e.cmd, e)
  | .add => (e.add, e)
  | .dat0 => (e.dat0, e)
  | .dat1 => (e.dat1, e)
  | .blkdat => (e.fifo e.index, { e with index := e.index + 1 })

/-- Write a register. -/
def write (hard : Hardware δ) (e : Engine δ) (v : Byte) : HostReg → Engine δ
  | .sts => { e with sts := e.sts &&& (~~~v ||| hard.sticky) }
  | .cnt => if v.getLsbD 6 then hard.start { e with cnt := v } else { e with cnt := v }
  | .cmd => { e with cmd := v }
  | .add => { e with add := v }
  | .dat0 => { e with dat0 := v }
  | .dat1 => { e with dat1 := v }
  | .blkdat => { e with fifo := Function.update e.fifo e.index v, index := e.index + 1 }

/-- The engine carries out no transaction. -/
def Idle (e : Engine δ) : Prop := e.sts.getLsbD 0 = false

/-! ## The done bit -/

/-- There is nothing to forget if the done bit is clear. -/
theorem forget_eq_iff (e : Engine δ) : e.forget = e ↔ getElem e.sts 1 (fits rfl) = false := by
  constructor
  · intro h
    rw [← h]
    simp [forget]
  · intro h
    unfold forget
    rw [assignBit_same (by decide) h]

/-- Forgetting twice is forgetting once. -/
@[simp] theorem forget_forget (e : Engine δ) : e.forget.forget = e.forget := by
  rw [forget_eq_iff]
  simp [forget]

/-- An engine is idle whether or not it has forgotten. -/
@[simp] theorem forget_idle (e : Engine δ) : e.forget.Idle ↔ e.Idle := by
  simp [Idle, forget]

/-- The other registers read the same with the done bit and without. -/
theorem read_forget {r : HostReg} (hr : r ≠ .sts) (e : Engine δ) :
    (e.forget.read r).1 = (e.read r).1 ∧ (e.forget.read r).2 = (e.read r).2.forget := by
  cases r with
  | sts => exact absurd rfl hr
  | cnt => exact ⟨rfl, rfl⟩
  | cmd => exact ⟨rfl, rfl⟩
  | add => exact ⟨rfl, rfl⟩
  | dat0 => exact ⟨rfl, rfl⟩
  | dat1 => exact ⟨rfl, rfl⟩
  | blkdat => exact ⟨rfl, rfl⟩

/-- A write does to the other bits the same with the done bit and without. -/
theorem write_forget (hard : Hardware δ) (e : Engine δ) (v : Byte) (r : HostReg) :
    (e.forget.write hard v r).forget = (e.write hard v r).forget := by
  cases r with
  | sts =>
    have hsts : assignBit asfHstIntr (assignBit asfHstIntr e.sts false &&& (~~~v ||| hard.sticky)) false =
        assignBit asfHstIntr (e.sts &&& (~~~v ||| hard.sticky)) false := by
      ext i hi
      by_cases hone : 1 = i
      · simp [hone]
      · simp [hone]
    unfold forget write
    rw [hsts]
  | cnt =>
    by_cases hgo : v.getLsbD 6 = true
    · simp only [write, hgo, if_true]
      exact hard.start_forget { e with cnt := v }
    · simp only [write, hgo]
      exact forget_forget { e with cnt := v }
  | cmd => exact forget_forget { e with cmd := v }
  | add => exact forget_forget { e with add := v }
  | dat0 => exact forget_forget { e with dat0 := v }
  | dat1 => exact forget_forget { e with dat1 := v }
  | blkdat =>
    exact forget_forget { e with fifo := Function.update e.fifo e.index v, index := e.index + 1 }

/-- The other bits are the same whether or not a write clears the done bit. -/
theorem write_sts_forget (hard : Hardware δ) (e : Engine δ) (v : Byte) :
    (e.write hard (assignBit asfHstIntr v false) .sts).forget = (e.write hard v .sts).forget := by
  have hsts : assignBit asfHstIntr (e.sts &&& (~~~(assignBit asfHstIntr v false) ||| hard.sticky)) false =
      assignBit asfHstIntr (e.sts &&& (~~~v ||| hard.sticky)) false := by
    ext i hi
    by_cases hone : 1 = i
    · simp [hone]
    · simp [hone]
  unfold forget write
  rw [hsts]

/-- The acknowledgement of the hard handler clears the done bit and no other. -/
theorem write_done (hard : Hardware δ) (e : Engine δ) :
    e.write hard (bit asfHstIntr) .sts = e.forget := by
  have hsts : e.sts &&& (~~~(bit asfHstIntr) ||| hard.sticky) = assignBit asfHstIntr e.sts false := by
    have hdone := hard.sticky_done
    ext i hi
    by_cases hone : 1 = i
    · subst hone
      simp [hdone]
    · simp [hone]
  unfold forget write
  rw [hsts]

end Engine

/-! ## The engine under the driver -/

/-- The whole machine: the system, its host engine, and executions of the hard handler, each as
the rest it still has to do. -/
structure Scene (δ : Type) where
  st : St
  engine : Engine δ
  handlers : ℕ → Driver IrqReturn

namespace Scene

variable {δ : Type}

/-- The host register behind a port; SMBBLKDAT gives way to the banks while DATA_EN is clear. -/
def host (b : Board) (x : Scene δ) (port : ℕ) : Option HostReg :=
  if decodeHost b.auxSmba port = some .blkdat ∧ x.st.hw.bnksel.getLsbD 7 = false then none
  else decodeHost b.auxSmba port

/-- What the host engine puts on the data bus. -/
def answer (b : Board) (x : Scene δ) : Op → Byte
  | .inb port => ((x.host b port).map fun r => (x.engine.read r).1).getD x.st.world.bus
  | _ => x.st.world.bus

/-- What an operation does to the host engine. -/
def respond (hard : Hardware δ) (b : Board) (x : Scene δ) : Op → Engine δ
  | .inb port => ((x.host b port).map fun r => (x.engine.read r).2).getD x.engine
  | .outb v port => ((x.host b port).map fun r => x.engine.write hard v r).getD x.engine
  | _ => x.engine

/-- The system with the engine's answer on the bus. -/
def bused (b : Board) (x : Scene δ) (o : Op) : St :=
  { x.st with world := { x.st.world with bus := x.answer b o } }

/-- One operation of thread `t`: that of the system, with what the engine adds to it. -/
def exec (hard : Hardware δ) (b : Board) (t : ℕ) (o : Op) (x : Scene δ) : Option (o.Ans × Scene δ) :=
  (HostNotify.exec b t o (x.bused b o)).map fun rs =>
    (rs.1, { x with st := rs.2, engine := x.respond hard b o })

/-- The next operation of one execution of the hard handler. -/
def poke (hard : Hardware δ) (b : Board) (x : Scene δ) (j : ℕ) : Scene δ :=
  match x.handlers j with
  | .ret _ => x
  | .op o next =>
    match x.exec hard b j o with
    | none => x
    | some (r, y) => { y with handlers := Function.update y.handlers j (next r) }

/-- What happens on the bus. -/
def advance (hard : Hardware δ) (x : Scene δ) : Scene δ := { x with engine := hard.advance x.engine }

/-- Between two operations of a transfer: some steps of hard handlers, what happens on the bus,
and more steps of hard handlers. -/
def between (hard : Hardware δ) (b : Board) (g : List ℕ × List ℕ) (x : Scene δ) : Scene δ :=
  g.2.foldl (poke hard b) (advance hard (g.1.foldl (poke hard b) x))

/-- One operation of thread `t` amid the others. -/
def disturbed (hard : Hardware δ) (b : Board) (t : ℕ) : (o : Op) →
    Scene δ × (ℕ → List ℕ × List ℕ) →
      Option (o.Ans × Scene δ × (ℕ → List ℕ × List ℕ)) :=
  Prog.interrupted (exec hard b t) (between hard b)

end Scene

end HostNotify
