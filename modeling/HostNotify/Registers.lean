import HostNotify.Bits

/-!
# Constants and port addresses of the driver

The register bits, offsets and limits of `i2c-piix4.c`, `i2c-piix4.h` and the
Host Notify patch. Ports are plain numbers relative to a base, as in the source.
-/

namespace HostNotify

open Bits

/-- A value moved by one port access. -/
abbrev Byte := BitVec 8

/-! ## ASF target bits -/

/-- ASFLISADDR: listen enable. -/
@[simp] abbrev asfSlvListn : ℕ := 0
/-- ASFSLVEN: slave interrupt enable. -/
@[simp] abbrev asfSlvIntr : ℕ := 1
/-- ASFSLVEN: slave reset. -/
@[simp] abbrev asfSlvRst : ℕ := 4
/-- SMBHSTCNT: PEC append. -/
@[simp] abbrev asfHstPecSp : ℕ := 5
/-- SMBHSTCNT: PEC/data enable. -/
@[simp] abbrev asfHstDataEn : ℕ := 7
/-- SMBHSTSTS: host transaction done, write 1 to ack. -/
@[simp] abbrev asfHstIntr : ℕ := 1
/-- FCH PM DecodeEn: master enable. -/
@[simp] abbrev asfMstrEn : ℕ := 16
/-- FCH PM DecodeEn: clock enable. -/
@[simp] abbrev asfClkEn : ℕ := 17
/-- ASFSTA: slave interrupt pending, write 1 to ack. -/
@[simp] abbrev asfStaSlvInt : ℕ := 6
/-- ASFDATABNKSEL: bank 0/1 holds a message (write 1 to clear). -/
abbrev asfBnkFull : Byte := 0x0C
/-- ASFDATABNKSEL: select bank 1 for reading. -/
@[simp] abbrev asfBnkSel : ℕ := 4
/-- ASFDATABNKSEL: route port 0x07 to the host FIFO. -/
@[simp] abbrev asfBnkDataEn : ℕ := 7
/-- ASFSLVSTA: reception errors. -/
abbrev asfErrorStatus : Byte := 0x0E

/-! ## Limits -/

abbrev asfBlockMaxBytes : ℕ := 72
/-- SMBus Host address, the Host Notify target. -/
abbrev asfHostAddr : Byte := 0x08
/-- Device address byte and two status bytes. -/
abbrev asfHostNotifyLen : ℕ := 3
/-- I/O window declared by the `_CRS` of SMB0001. -/
abbrev asfIosize : ℕ := 0x20
/-- Bank reads per drain before declaring a wedge. -/
abbrev asfDrainMax : ℕ := 8
abbrev asfNotifyMax : ℕ := 2 * asfDrainMax
/-- Master retries after losing the bus. -/
abbrev asfXferRetries : ℕ := 3
abbrev asfYieldUs : ℕ := 1000
/-- I/O window requested for every adapter. -/
abbrev smbiosize : ℕ := 9
abbrev maxTimeout : ℕ := 500
abbrev enableInt9 : ℕ := 0
abbrev i2cSmbusBlockMax : ℕ := 32

/-! ## Port addresses -/

variable (piix4_smba : ℕ)

def smbHstSts : ℕ := 0x00 + piix4_smba
def smbHstCnt : ℕ := 0x02 + piix4_smba
def smbHstCmd : ℕ := 0x03 + piix4_smba
def smbHstAdd : ℕ := 0x04 + piix4_smba
def smbHstDat0 : ℕ := 0x05 + piix4_smba
def smbHstDat1 : ℕ := 0x06 + piix4_smba
def smbBlkDat : ℕ := 0x07 + piix4_smba
def smbSlvCnt : ℕ := 0x08 + piix4_smba
def asfIndex : ℕ := 0x07 + piix4_smba
def asfLisAddr : ℕ := 0x09 + piix4_smba
def asfSta : ℕ := 0x0A + piix4_smba
def asfSlvSta : ℕ := 0x0D + piix4_smba
def asfDataRwPtr : ℕ := 0x11 + piix4_smba
def asfSetDataRdPtr : ℕ := 0x12 + piix4_smba
def asfDataBnkSel : ℕ := 0x13 + piix4_smba
def asfSlvEn : ℕ := 0x15 + piix4_smba

/-! ## Error codes -/

abbrev eperm : Int := 1
abbrev eio : Int := 5
abbrev enxio : Int := 6
abbrev eagain : Int := 11
abbrev enomem : Int := 12
abbrev ebusy : Int := 16
abbrev enodev : Int := 19
abbrev einval : Int := 22
abbrev eproto : Int := 71
abbrev eopnotsupp : Int := 95
abbrev etimedout : Int := 110

end HostNotify
