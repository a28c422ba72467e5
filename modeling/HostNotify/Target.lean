import HostNotify.Registers

/-!
# The ASF target block

The registers behind the ports from base+0x07 on, as the driver's comments and
register recipe describe them: two data banks whose full flags are write-1-to-clear,
a write-1-to-clear slave interrupt status, and a slave reset that empties both banks.
Port base+0x07 is either the selected bank or the host FIFO, steered by DATA_EN.

Three fields of a bank are history, never read by the driver: whether its message
still has to be read out, how many leading bytes the current read-out has seen, and
whether the message arrived while its bank was being read.
-/

namespace HostNotify

open Bits

/-- The registers the driver addresses; every other port belongs to the host engine. -/
inductive Reg where
  | index | lisaddr | sta | slvsta | rwptr | setrdptr | bnksel | slven
  deriving DecidableEq

/-- Which register of a block at `base` a port number selects. -/
def decode (base port : ℕ) : Option Reg :=
  if port < base then none
  else match port - base with
    | 0x07 => some .index
    | 0x09 => some .lisaddr
    | 0x0A => some .sta
    | 0x0D => some .slvsta
    | 0x11 => some .rwptr
    | 0x12 => some .setrdptr
    | 0x13 => some .bnksel
    | 0x15 => some .slven
    | _ => none

section DecodePorts

variable (base : ℕ)

/-- Where a port lies relative to the base decides what it is. -/
theorem decode_add (offset : ℕ) : decode base (offset + base) = decode 0 offset := by
  unfold decode
  rw [if_neg (by omega), if_neg (by omega), Nat.add_sub_cancel, Nat.sub_zero]

/-- Port 0x07 is ASFINDEX. -/
@[simp] theorem decode_asfIndex : decode base (asfIndex base) = some .index := decode_add base _
/-- SMBBLKDAT is the same port. -/
@[simp] theorem decode_smbBlkDat : decode base (smbBlkDat base) = some .index := decode_add base _
/-- The listening address is a register of the target. -/
@[simp] theorem decode_asfLisAddr : decode base (asfLisAddr base) = some .lisaddr := decode_add base _
/-- The slave's interrupt status. -/
@[simp] theorem decode_asfSta : decode base (asfSta base) = some .sta := decode_add base _
/-- The slave's error status is a register of the target. -/
@[simp] theorem decode_asfSlvSta : decode base (asfSlvSta base) = some .slvsta := decode_add base _
/-- The write pointer is a register of the target. -/
@[simp] theorem decode_asfDataRwPtr : decode base (asfDataRwPtr base) = some .rwptr :=
  decode_add base _
/-- The read pointer is a register of the target. -/
@[simp] theorem decode_asfSetDataRdPtr : decode base (asfSetDataRdPtr base) = some .setrdptr :=
  decode_add base _
/-- The bank selection is a register of the target. -/
@[simp] theorem decode_asfDataBnkSel : decode base (asfDataBnkSel base) = some .bnksel :=
  decode_add base _
/-- The enable bits of the slave. -/
@[simp] theorem decode_asfSlvEn : decode base (asfSlvEn base) = some .slven := decode_add base _
/-- The registers of the SMBus engine are none of the target's: its status. -/
@[simp] theorem decode_smbHstSts : decode base (smbHstSts base) = none := decode_add base _
/-- The engine's control is none of the target's. -/
@[simp] theorem decode_smbHstCnt : decode base (smbHstCnt base) = none := decode_add base _
/-- The engine's command is none of the target's. -/
@[simp] theorem decode_smbHstCmd : decode base (smbHstCmd base) = none := decode_add base _
/-- The engine's address is none of the target's. -/
@[simp] theorem decode_smbHstAdd : decode base (smbHstAdd base) = none := decode_add base _
/-- The engine's first data byte is none of the target's. -/
@[simp] theorem decode_smbHstDat0 : decode base (smbHstDat0 base) = none := decode_add base _
/-- The engine's second data byte is none of the target's. -/
@[simp] theorem decode_smbHstDat1 : decode base (smbHstDat1 base) = none := decode_add base _

end DecodePorts

/-- One data bank. -/
structure Bank where
  full : Bool
  /-- Writing 1 does not clear the flag; only a slave reset does. -/
  stuck : Bool
  /-- The bytes ASFINDEX reads return, the target address byte first. -/
  data : List Byte
  /-- ASFDATARWPTR while this bank is selected: the payload length. -/
  rwptr : Byte
  /-- History: the message arrived for the driver and has not been read out since. -/
  unread : Bool
  /-- History: leading bytes of the message seen by the current read-out. -/
  got : ℕ
  /-- History: the message arrived after the current read-out of this bank began. -/
  late : Bool

/-- A bank with nothing in it. -/
def Bank.empty : Bank :=
  { full := false, stuck := false, data := [], rwptr := 0, unread := false, got := 0, late := false }

/-- The bytes of a message one `piix4_asf_process_bank` call reads: address and payload. -/
def Bank.readable (b : Bank) : ℕ := 1 + min b.rwptr.toNat asfBlockMaxBytes

/-- The current read-out has seen the whole message. -/
def Bank.seen (b : Bank) : Bool := decide (b.readable ≤ b.got)

/-- The notifying device, when the bank holds a valid Host Notify. -/
def Bank.notifier (b : Bank) : Option ℕ :=
  if b.data.getD 0 0 = asfHostAddr <<< 1 ∧ asfHostNotifyLen ≤ b.rwptr.toNat ∧
      (b.data.getD 1 0).getLsbD 0 = false ∧ 0x08 ≤ (b.data.getD 1 0 >>> 1).toNat ∧
      (b.data.getD 1 0 >>> 1).toNat ≤ 0x77 then
    some (b.data.getD 1 0 >>> 1).toNat
  else none

/-- Writing 1 to a full flag clears it unless it is stuck; a message that was read out
is then accounted for. -/
def Bank.consume (b : Bank) : Bank :=
  { b with full := b.full && b.stuck, unread := b.unread && !b.seen }

/-- The target block with the DecodeEn register that switches it between master and slave. -/
structure Target where
  lisaddr : Byte
  sta : Byte
  slvsta : Byte
  slven : Byte
  /-- Control bits of ASFDATABNKSEL; the flags are kept with the banks. -/
  bnksel : Byte
  /-- Position of the next ASFINDEX read. -/
  rdptr : ℕ
  bank0 : Bank
  bank1 : Bank
  decodeEn : BitVec 32
  /-- History: a read-out has begun and its bank has not been marked consumed yet. -/
  reading : Bool
  /-- History: some message was overwritten or reset away before it was read out. -/
  lost : Bool

namespace Target

/-- Bank 1 for `true`, bank 0 for `false`. -/
def bank (h : Target) (i : Bool) : Bank := if i then h.bank1 else h.bank0

def setBank (h : Target) (i : Bool) (b : Bank) : Target :=
  if i then { h with bank1 := b } else { h with bank0 := b }

/-- The bank ASFINDEX and ASFDATARWPTR refer to. -/
def selected (h : Target) : Bool := h.bnksel.getLsbD 4

/-- The full-flag position of a bank in ASFDATABNKSEL. -/
def flagBit (i : Bool) : ℕ := if i then 3 else 2

/-- ASFDATABNKSEL as it reads back: control bits and both flags. -/
def bnkselValue (h : Target) : Byte :=
  assignBit 3 (assignBit 2 h.bnksel h.bank0.full) h.bank1.full

/-- Masking the flags leaves the control bits. -/
theorem bnkselValue_and (h : Target) : h.bnkselValue &&& ~~~asfBnkFull = h.bnksel &&& ~~~asfBnkFull := by
  ext j hj
  by_cases h2 : j = 2 <;> by_cases h3 : j = 3 <;> simp [bnkselValue, h2, h3, eq_comm]

/-- One ASFINDEX read of the selected bank moves the read pointer. -/
def readIndex (h : Target) : Byte × Target :=
  let b := h.bank h.selected
  let got := if h.rdptr = b.got then b.got + 1 else b.got
  (b.data.getD h.rdptr 0,
    { h.setBank h.selected { b with got := got, late := b.late && decide (h.rdptr ≠ 0) } with
      rdptr := h.rdptr + 1
      reading := true })

/-- Read a register; `bus` is what the host FIFO would return. -/
def read (h : Target) (bus : Byte) : Reg → Byte × Target
  | .index => if h.bnksel.getLsbD 7 then (bus, h) else h.readIndex
  | .lisaddr => (h.lisaddr, h)
  | .sta => (h.sta, h)
  | .slvsta => (h.slvsta, h)
  | .rwptr => ((h.bank h.selected).rwptr, h)
  | .setrdptr => (bus, h)
  | .bnksel => (h.bnkselValue, h)
  | .slven => (h.slven, h)

/-- The flags a write of `v` to ASFDATABNKSEL clears. -/
def clearFlags (h : Target) (v : Byte) : Target :=
  { h with
    bank0 := if v.getLsbD 2 then Bank.consume h.bank0 else h.bank0
    bank1 := if v.getLsbD 3 then Bank.consume h.bank1 else h.bank1
    reading := h.reading && !(v.getLsbD 2 || v.getLsbD 3) }

/-- A slave reset empties both banks and rewinds the read pointer. -/
def slaveReset (h : Target) : Target :=
  { h with
    slvsta := 0
    rdptr := 0
    reading := false
    bank0 := { h.bank0 with full := false, stuck := false, unread := false, got := 0 }
    bank1 := { h.bank1 with full := false, stuck := false, unread := false, got := 0 }
    lost := h.lost || h.bank0.unread || h.bank1.unread }

/-- Write a register. -/
def write (h : Target) (v : Byte) : Reg → Target
  | .index => h
  | .lisaddr => { h with lisaddr := v }
  | .sta => { h with sta := assignBit asfStaSlvInt v (h.sta.getLsbD 6 && !v.getLsbD 6) }
  | .slvsta => { h with slvsta := v }
  | .rwptr => h
  | .setrdptr => { h with
      rdptr := v.toNat
      bank0 := { h.bank0 with got := 0 }
      bank1 := { h.bank1 with got := 0 } }
  | .bnksel => { h.clearFlags v with bnksel := v &&& ~~~asfBnkFull }
  | .slven => if v.getLsbD 4 then { h.slaveReset with slven := v } else { h with slven := v }

/-- The valid Host Notifies that a write of `v` to ASFDATABNKSEL takes off the banks after
they were read out. -/
def taken (h : Target) (v : Byte) : List ℕ :=
  (if v.getLsbD 2 && h.bank0.unread && h.bank0.seen then h.bank0.notifier.toList else []) ++
    (if v.getLsbD 3 && h.bank1.unread && h.bank1.seen then h.bank1.notifier.toList else [])

/-! ## What single accesses leave alone -/

section Frames

variable (h : Target) (i j : Bool) (b : Bank)

/-- A change to a bank leaves the registers alone: the listening address. -/
@[simp] theorem setBank_lisaddr : (h.setBank i b).lisaddr = h.lisaddr := by cases i <;> rfl
/-- Setting a bank leaves the interrupt status alone. -/
@[simp] theorem setBank_sta : (h.setBank i b).sta = h.sta := by cases i <;> rfl
/-- Setting a bank leaves the error status alone. -/
@[simp] theorem setBank_slvsta : (h.setBank i b).slvsta = h.slvsta := by cases i <;> rfl
/-- Setting a bank leaves the enable bits alone. -/
@[simp] theorem setBank_slven : (h.setBank i b).slven = h.slven := by cases i <;> rfl
/-- Setting a bank leaves the bank selection alone. -/
@[simp] theorem setBank_bnksel : (h.setBank i b).bnksel = h.bnksel := by cases i <;> rfl
/-- Setting a bank leaves the read pointer alone. -/
@[simp] theorem setBank_rdptr : (h.setBank i b).rdptr = h.rdptr := by cases i <;> rfl
/-- Setting a bank leaves DecodeEn alone. -/
@[simp] theorem setBank_decodeEn : (h.setBank i b).decodeEn = h.decodeEn := by cases i <;> rfl
/-- Setting a bank leaves the reading in progress alone. -/
@[simp] theorem setBank_reading : (h.setBank i b).reading = h.reading := by cases i <;> rfl
/-- Setting a bank loses no message. -/
@[simp] theorem setBank_lost : (h.setBank i b).lost = h.lost := by cases i <;> rfl

/-- Replacing one bank leaves the other. -/
@[simp] theorem bank_setBank : (h.setBank i b).bank j = if i = j then b else h.bank j := by
  cases i <;> cases j <;> rfl

/-- A slave reset empties the banks. -/
@[simp] theorem slaveReset_full : (h.slaveReset.bank i).full = false := by cases i <;> rfl
/-- A slave reset leaves no message to be read. -/
@[simp] theorem slaveReset_unread : (h.slaveReset.bank i).unread = false := by cases i <;> rfl
/-- A slave reset forgets how far a bank has been read. -/
@[simp] theorem slaveReset_got : (h.slaveReset.bank i).got = 0 := by cases i <;> rfl

end Frames

/-- The block accepts messages: listening, out of reset, and bank `i` free. -/
def accepts (h : Target) (i : Bool) : Bool := h.lisaddr.getLsbD 0 && !h.slven.getLsbD 4 && !(h.bank i).full

/-- A reception completes into bank `i`; `unread` if it is meant for the driver. -/
def receive (h : Target) (i : Bool) (data : List Byte) (rwptr : Byte) (unread : Bool) : Target :=
  { h.setBank i
      { full := true, stuck := false, data := data, rwptr := rwptr, unread := unread, got := 0,
        late := h.reading && decide (h.selected = i) } with
    sta := h.sta ||| bit asfStaSlvInt
    lost := h.lost || (h.bank i).unread }

end Target

end HostNotify
