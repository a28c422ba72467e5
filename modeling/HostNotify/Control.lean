import HostNotify.Registers
import Mathlib.Tactic.ByContra

/-!
# Control state of the target block

What the holder of the mutex knows about the block, as plain data: the control bits
that only it changes, and three summaries of the banks and of the history. The mode
switches of the driver act on this state by composing the single register updates
below; their net effect is a record that can be read off.
-/

namespace HostNotify

open Bits

/-- The mutex holder's knowledge of the block and of the flags that steer it. -/
structure Control where
  lisaddr : Byte
  rst : Bool
  /-- Slave interrupt enable, where it is known. -/
  intr : Option Bool
  dataEn : Bool
  /-- Master and clock enable, where they are known. -/
  mstr : Option Bool
  clk : Option Bool
  listening : Bool
  want : Bool
  /-- No bank holds a message that nothing signals; none at all while not accepting. -/
  clean : Bool
  /-- No unread message sits in a bank whose flag is clear. -/
  kept : Bool
  /-- No read-out is in progress and the read pointer is at the start. -/
  calm : Bool
  /-- A bank may be stuck. -/
  debt : Bool
  /-- A reception error that caused a flush may still be in force. -/
  flushed : Bool
  /-- The drain in progress took the error branch. -/
  erred : Bool
  /-- The IRQ thread may be resetting a wedged slave. -/
  resetting : Bool
  /-- The holder of the mutex also holds the FCH PM region. -/
  held : Bool

namespace Control

variable (c : Control)

/-- Receptions can complete. -/
def accepting : Bool := c.lisaddr.getLsbD 0 && !c.rst

/-- The slave is armed for Host Notify, as `piix4_asf_slave_arm` leaves it. -/
structure Armed : Prop where
  lisaddr : c.lisaddr = (asfHostAddr <<< 1) ||| bit asfSlvListn
  rst : c.rst = false
  intr : c.intr = some true
  dataEn : c.dataEn = false
  mstr : c.mstr = some false
  clk : c.clk = some true

/-- The slave neither accepts messages nor interrupts, and its banks are empty. -/
structure Silent : Prop where
  intr : c.intr = some false
  clean : c.clean = true
  debt : c.debt = false

/-! ## Single updates -/

/-- A write to ASFLISADDR; to stop accepting leaves what is in the banks. -/
def setLisaddr (v : Byte) : Control :=
  { c with
    lisaddr := v
    clean := c.clean && (!c.accepting || v.getLsbD 0) }

def setListn (v : Bool) : Control := c.setLisaddr (assignBit asfSlvListn c.lisaddr v)

def setIntr (v : Bool) : Control := { c with intr := some v }

/-- Setting the reset empties the banks; clearing it may open them. -/
def setRst (v : Bool) : Control :=
  if v then
    { c with rst := true, clean := true, kept := true, calm := true, debt := false, flushed := false }
  else { c with rst := false }

def clearSlvSta : Control := { c with flushed := false }

/-- Acknowledging the status bit takes the signal from whatever is in the banks. -/
def ackSta : Control := { c with clean := c.clean && !c.accepting }

def setDataEn (v : Bool) : Control := { c with dataEn := v }

def setMstr (v : Bool) : Control := { c with mstr := some v }

def setClk (v : Bool) : Control := { c with clk := some v }

/-- The interrupt enable may have been masked by the handler before listening was set. -/
def setListening (v : Bool) : Control :=
  { c with
    listening := v
    intr := if c.intr = some false then some false else none
    clean := c.clean && (c.listening || !c.accepting || !v) }

def setWant (v : Bool) : Control := { c with want := v }

def setHeld (v : Bool) : Control := { c with held := v }

/-! ## Mode switches -/

/-- The accesses of `piix4_asf_master_mode`. -/
def masterMode : Control :=
  (((((c.setListn false).setIntr false).setRst true).clearSlvSta).setMstr true).setDataEn true

/-- A slave that is armed again is no longer being reset. -/
def beginArm : Control := { c with resetting := false }

def beginReset : Control := { c with resetting := true }

/-- The accesses of `piix4_asf_slave_arm`. -/
def slaveArm : Control :=
  (((((((c.beginArm.clearSlvSta.ackSta).setDataEn false).setLisaddr
    ((asfHostAddr <<< 1) ||| bit asfSlvListn)).setMstr false).setClk true).setRst false).setIntr true)

/-- The accesses that take the slave off the bus before a drain. -/
def holdOff : Control := (c.setListn false).setIntr false

/-- The accesses of `piix4_asf_quiesce` once nobody wants to listen any more. -/
def silence : Control :=
  ((((c.setListn false).setIntr false).setRst true).clearSlvSta.ackSta).setListening false

/-- What `piix4_asf_master_mode` leaves, from any state. -/
theorem masterMode_eq : c.masterMode =
    { lisaddr := assignBit asfSlvListn c.lisaddr false, rst := true, intr := some false
      dataEn := true, mstr := some true, clk := c.clk, listening := c.listening, want := c.want
      clean := true, kept := true, calm := true, debt := false, flushed := false
      erred := c.erred, resetting := c.resetting, held := c.held } := rfl

/-- In master mode the slave accepts nothing. -/
@[simp] theorem masterMode_accepting : c.masterMode.accepting = false := by
  simp [masterMode_eq, accepting]

/-- What `piix4_asf_slave_arm` leaves: armed, with the banks as accounted for as before. -/
theorem slaveArm_eq : c.slaveArm =
    { c with
      lisaddr := (asfHostAddr <<< 1) ||| bit asfSlvListn, rst := false, intr := some true
      dataEn := false, mstr := some false, clk := some true, clean := c.clean && !c.accepting
      flushed := false, resetting := false } := by
  have hlisten : ((asfHostAddr <<< 1) ||| bit asfSlvListn : Byte).getLsbD 0 = true := by decide
  simp only [slaveArm, setIntr, setRst, setClk, setMstr, setLisaddr, setDataEn, ackSta,
    clearSlvSta, beginArm, hlisten, Bool.or_true, Bool.and_true, Bool.false_eq_true, if_false]
  rfl

/-- `piix4_asf_slave_arm` arms the slave from any state. -/
theorem slaveArm_armed : c.slaveArm.Armed := by
  rw [slaveArm_eq]
  exact ⟨rfl, rfl, rfl, rfl, rfl, rfl⟩

/-- An armed slave accepts messages. -/
theorem Armed.accepting {c : Control} (h : c.Armed) : c.accepting = true := by
  unfold Control.accepting
  rw [h.lisaddr, h.rst]
  decide

/-- What taking the slave off the bus leaves. -/
theorem holdOff_eq : c.holdOff =
    { c with
      lisaddr := assignBit asfSlvListn c.lisaddr false, intr := some false
      clean := c.clean && !c.accepting } := by
  simp [holdOff, setIntr, setListn, setLisaddr]

/-- Held off the bus, the slave accepts nothing. -/
@[simp] theorem holdOff_accepting : c.holdOff.accepting = false := by
  simp [holdOff_eq, accepting]

/-- What `piix4_asf_quiesce` leaves: a silent slave in reset. -/
theorem silence_eq : c.silence =
    { c with
      lisaddr := assignBit asfSlvListn c.lisaddr false, rst := true, intr := some false
      listening := false, clean := true, kept := true, calm := true, debt := false
      flushed := false } := by
  simp [silence, setListening, ackSta, clearSlvSta, setRst, setIntr, setListn, setLisaddr, accepting]

end Control

end HostNotify
