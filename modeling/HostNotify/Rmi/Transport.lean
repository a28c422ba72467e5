import HostNotify.Interleaving.Pool
import HostNotify.RegisterFile
import HostNotify.Registers
import Mathlib.Data.BitVec

/-!
# The SMBus transport of RMI4

`rmi_smbus.c` reaches the registers of a touchpad through eight command codes. A table on the device
says which registers each of them stands for; the driver fills it in as it goes, remembers what it
has put there, and splits every transfer into blocks of at most 32 bytes.
-/

namespace HostNotify.Rmi

open Bits Interleaving RegisterFile

/-! ## The mapping table -/

/-- An address of the register space. -/
abbrev RmiAddr := BitVec 16

abbrev smbProtocolVersionAddress : Byte := 0xfd
abbrev smbMaxCount : ℕ := 32
abbrev rmiSmb2MapSize : ℕ := 8
abbrev rmiSmb2MapFlagsWe : Byte := 0x01
abbrev rmiSmbResumeSettleMs : ℕ := 300

/-- `struct mapping_table_entry`. -/
structure MappingTableEntry where
  rmiaddr : RmiAddr
  readcount : Byte
  flags : Byte
  deriving DecidableEq

namespace MappingTableEntry

/-- All fields zero, as after `memset`. -/
def zero : MappingTableEntry := { rmiaddr := 0, readcount := 0, flags := 0 }

/-- The entry in memory: the address is little endian. -/
def bytes (e : MappingTableEntry) : List Byte :=
  [e.rmiaddr.setWidth 8, (e.rmiaddr >>> 8).setWidth 8, e.readcount, e.flags]

/-- What the device makes of the bytes it is sent. -/
def ofBytes : List Byte → Option MappingTableEntry
  | [lo, hi, readcount, flags] => some { rmiaddr := hi ++ lo, readcount := readcount, flags := flags }
  | _ => none

/-- The device understands the entry as the driver meant it. -/
@[simp] theorem ofBytes_bytes (e : MappingTableEntry) : ofBytes e.bytes = some e := by
  have haddr : ((e.rmiaddr >>> 8).setWidth 8 ++ e.rmiaddr.setWidth 8 : BitVec 16) = e.rmiaddr := by
    ext i hi
    simp only [BitVec.getElem_append, BitVec.getElem_setWidth, BitVec.getLsbD_ushiftRight]
    split
    · rw [BitVec.getLsbD_eq_getElem]
    · rw [Nat.add_sub_cancel' (by omega), BitVec.getLsbD_eq_getElem]
  simp only [ofBytes, bytes, haddr]

end MappingTableEntry

abbrev MappingTable := Fin rmiSmb2MapSize → MappingTableEntry

/-- The slot after a slot. -/
def turn (i : Fin rmiSmb2MapSize) : Fin rmiSmb2MapSize := i + 1

/-- The command code under which entry `i` is used. -/
def commandCode (i : Fin rmiSmb2MapSize) : Byte := BitVec.ofNat 8 i

/-- The command code that fills in entry `i`. -/
def mapCode (i : Fin rmiSmb2MapSize) : Byte := BitVec.ofNat 8 (i + 0x80)

/-! ## The device -/

/-- The entry a command code uses. -/
def entryOf (code : Byte) : Option (Fin rmiSmb2MapSize) :=
  if h : code.toNat < rmiSmb2MapSize then some ⟨code.toNat, h⟩ else none

/-- The entry a command code fills in. -/
def slotOf (code : Byte) : Option (Fin rmiSmb2MapSize) :=
  if h : code.toNat - 0x80 < rmiSmb2MapSize then
    if 0x80 ≤ code.toNat then some ⟨code.toNat - 0x80, h⟩ else none
  else none

/-- Command code `i` stands for slot `i`. -/
@[simp] theorem entryOf_commandCode (i : Fin rmiSmb2MapSize) : entryOf (commandCode i) = some i := by
  revert i
  decide

/-- A command code is not that of a slot. -/
@[simp] theorem slotOf_commandCode (i : Fin rmiSmb2MapSize) : slotOf (commandCode i) = none := by
  revert i
  decide

/-- The code under which slot `i` is written. -/
@[simp] theorem slotOf_mapCode (i : Fin rmiSmb2MapSize) : slotOf (mapCode i) = some i := by
  revert i
  decide

-- unfolding the subtraction for an unknown code takes as many steps as the base is large
attribute [irreducible] slotOf

/-- The values of the registers. -/
abbrev Regs := RmiAddr → Byte

/-- How a transfer on the bus can fail: with an error, after some bytes, and with anything in an
entry that was to be filled in. -/
structure Fault where
  error : Int
  negative : error < 0
  taken : ℕ
  entry : MappingTableEntry

/-! ## State and operations -/

/-- The two mutexes of `struct rmi_smb_xport`. -/
inductive Lock where
  | page | mappingtable
  deriving DecidableEq

/-- The transport and the device, and what has gone on between them. -/
structure Transport where
  regs : Regs
  deviceTable : MappingTable
  mappingTable : MappingTable
  tableIndex : Fin rmiSmb2MapSize
  /-- What has been put into the driver's table since it was last cleared, the latest first. -/
  noted : List MappingTableEntry
  pageMutex : Option ℕ
  mappingtableMutex : Option ℕ
  resetDelayMs : ℕ
  /-- What becomes of the transfers on the bus until further notice. -/
  fault : Option Fault
  /-- The answer to a read of the version byte. -/
  version : Int
  /-- The registers at the beginning. -/
  origin : Regs
  /-- What has been done since, and by which thread. -/
  log : List (Option ℕ × Transfer RmiAddr Byte)
  /-- The accesses of the transfer in progress. -/
  trace : List (Access RmiAddr Byte)
  /-- The device has been reset, and the driver still remembers what it had put into the table. -/
  stale : Bool

/-- One step of the transport's code. -/
inductive Op where
  | lock (l : Lock)
  | unlock (l : Lock)
  | mappingTable
  | setMappingTable (i : Fin rmiSmb2MapSize) (e : MappingTableEntry)
  | clearMappingTable
  | tableIndex
  | setTableIndex (i : Fin rmiSmb2MapSize)
  /-- `i2c_smbus_write_block_data`. -/
  | writeBlockData (code : Byte) (buf : List Byte)
  /-- `i2c_smbus_read_block_data`. -/
  | readBlockData (code : Byte)
  /-- `i2c_smbus_read_byte_data`. -/
  | readByteData (code : Byte)
  | resetDelayMs
  | msleep (ms : ℕ)
  /-- A transfer is about to give up `page_mutex`. -/
  | leaves (x : Transfer RmiAddr Byte)

/-- The answer of an operation. -/
abbrev Op.Ans : Op → Type
  | .mappingTable => MappingTable
  | .tableIndex => Fin rmiSmb2MapSize
  | .writeBlockData _ _ => Int
  | .readBlockData _ => Int × List Byte
  | .readByteData _ => Int
  | .resetDelayMs => ℕ
  | _ => Unit

/-- Code of the transport. -/
abbrev Driver := Prog Op Op.Ans

namespace Transport

variable (s : Transport)

/-- The holder of a mutex. -/
def holder : Lock → Option ℕ
  | .page => s.pageMutex
  | .mappingtable => s.mappingtableMutex

def setHolder (holder : Option ℕ) : Lock → Transport
  | .page => { s with pageMutex := holder }
  | .mappingtable => { s with mappingtableMutex := holder }

/-- The bytes of a block that reach the device. -/
def delivered (buf : List Byte) : List Byte :=
  match s.fault with
  | none => buf
  | some f => buf.take f.taken

/-- The device receives a block: a new entry, or values for registers it may write. -/
def receive (code : Byte) (buf : List Byte) : Transport :=
  match slotOf code with
  | some i =>
    match s.fault with
    | none => { s with deviceTable :=
        Function.update s.deviceTable i ((MappingTableEntry.ofBytes buf).getD (s.deviceTable i)) }
    | some f => { s with deviceTable := Function.update s.deviceTable i f.entry }
  | none =>
    match entryOf code with
    | some i =>
      if (s.deviceTable i).flags &&& rmiSmb2MapFlagsWe ≠ 0 then
        { s with
          regs := writeRow s.regs (s.deviceTable i).rmiaddr (s.delivered buf)
          trace := s.trace ++ row .write (s.deviceTable i).rmiaddr (s.delivered buf) }
      else s
    | none => s

/-- The registers a command code stands for. -/
def mapped (code : Byte) : Option (RmiAddr × List Byte) :=
  (entryOf code).map fun i =>
    ((s.deviceTable i).rmiaddr, readRow s.regs (s.deviceTable i).rmiaddr (s.deviceTable i).readcount.toNat)

end Transport

/-- One operation of thread `t`; `none` while it has to wait. -/
def exec (t : ℕ) : (o : Op) → Transport → Option (o.Ans × Transport)
  | .lock l, s => if s.holder l = none then some ((), s.setHolder (some t) l) else none
  | .unlock l, s => some ((), s.setHolder none l)
  | .mappingTable, s => some (s.mappingTable, s)
  | .setMappingTable i e, s =>
    some ((), { s with mappingTable := Function.update s.mappingTable i e, noted := e :: s.noted })
  | .clearMappingTable, s => some ((), { s with mappingTable := fun _ => .zero, noted := [], stale := false })
  | .tableIndex, s => some (s.tableIndex, s)
  | .setTableIndex i, s => some ((), { s with tableIndex := i })
  | .writeBlockData code buf, s => some ((s.fault.map Fault.error).getD 0, s.receive code buf)
  | .readBlockData code, s =>
    match s.fault, s.mapped code with
    | some f, _ => some ((f.error, []), s)
    | none, some (addr, bytes) =>
      some ((bytes.length, bytes), { s with trace := s.trace ++ row .read addr bytes })
    | none, none => some ((-eproto, []), s)
  | .readByteData _, s => some (s.version, s)
  | .resetDelayMs, s => some (s.resetDelayMs, s)
  | .msleep _, s => some ((), s)
  | .leaves x, s => some ((), { s with log := s.log ++ [(some t, x)], trace := [] })

/-! ## The code -/

def perform (o : Op) : Driver o.Ans := Prog.perform o

def lock (l : Lock) : Driver Unit := perform (.lock l)
def unlock (l : Lock) : Driver Unit := perform (.unlock l)

/-- `rmi_smb_get_version`. -/
def rmiSmbGetVersion : Driver Int := do
  let retval ← perform (.readByteData smbProtocolVersionAddress)
  if retval < 0 then pure retval else pure (retval + 1)

/-- `smb_block_write`. -/
def smbBlockWrite (commandcode : Byte) (buf : List Byte) : Driver Int :=
  perform (.writeBlockData commandcode buf)

/-- `smb_block_read`: the return value and what the buffer receives. -/
def smbBlockRead (commandcode : Byte) : Driver (Int × List Byte) :=
  perform (.readBlockData commandcode)

/-- The entry serves a transfer. -/
def MappingTableEntry.serves (e : MappingTableEntry) (rmiaddr : RmiAddr) (bytecount : ℕ) (isread : Bool) :
    Bool :=
  e.rmiaddr = rmiaddr &&
    if isread then e.readcount.toNat = bytecount else e.flags &&& rmiSmb2MapFlagsWe ≠ 0

/-- The first entry that serves a transfer. -/
def MappingTable.find (table : MappingTable) (rmiaddr : RmiAddr) (bytecount : ℕ) (isread : Bool) :
    Option (Fin rmiSmb2MapSize) :=
  (List.finRange rmiSmb2MapSize).find? fun i => (table i).serves rmiaddr bytecount isread

/-- The entry made for a transfer. -/
def MappingTableEntry.made (rmiaddr : RmiAddr) (bytecount : ℕ) (isread : Bool) : MappingTableEntry :=
  { rmiaddr := rmiaddr, readcount := BitVec.ofNat 8 bytecount
    flags := if isread then 0 else rmiSmb2MapFlagsWe }

/-- `rmi_smb_get_command_code`: an error, or the command code. -/
def rmiSmbGetCommandCode (rmiaddr : RmiAddr) (bytecount : ℕ) (isread : Bool) :
    Driver (Except Int Byte) := do
  lock .mappingtable
  match (← perform .mappingTable).find rmiaddr bytecount isread with
  | some i =>
    unlock .mappingtable
    pure (.ok (commandCode i))
  | none =>
    let i ← perform .tableIndex
    perform (.setTableIndex (turn i))
    let newMap := MappingTableEntry.made rmiaddr bytecount isread
    let retval ← smbBlockWrite (mapCode i) newMap.bytes
    perform (.setMappingTable i (if retval < 0 then .zero else newMap))
    unlock .mappingtable
    if retval < 0 then pure (.error retval) else pure (.ok (commandCode i))

/-- The loop of `rmi_smb_write_block`, of at most `left` passes. -/
def writeBlocks : ℕ → RmiAddr → List Byte → Driver Int
  | 0, _, _ => pure 0
  | left + 1, rmiaddr, databuff =>
    if databuff = [] then pure 0
    else do
      let blockLen := min databuff.length smbMaxCount
      match ← rmiSmbGetCommandCode rmiaddr blockLen false with
      | .error retval => pure retval
      | .ok commandcode =>
        let retval ← smbBlockWrite commandcode (databuff.take blockLen)
        if retval < 0 then pure retval
        else writeBlocks left (rmiaddr + BitVec.ofNat 16 blockLen) (databuff.drop blockLen)

/-- `rmi_smb_write_block`. -/
def rmiSmbWriteBlock (rmiaddr : RmiAddr) (databuff : List Byte) : Driver Int := do
  lock .page
  let retval ← writeBlocks databuff.length rmiaddr databuff
  perform (.leaves (.write rmiaddr databuff (0 ≤ retval)))
  unlock .page
  pure retval

/-- Bytes stored from a position of a buffer on. -/
def store (buf : ℕ → Byte) (pos : ℕ) : List Byte → ℕ → Byte
  | [] => buf
  | v :: rest => store (Function.update buf pos v) (pos + 1) rest

/-- The loop of `rmi_smb_read_block`, of at most `left` passes; `pos` is where `databuff` has got to. -/
def readBlocks : ℕ → RmiAddr → ℕ → ℕ → (ℕ → Byte) → Driver (Int × (ℕ → Byte))
  | 0, _, _, _, buf => pure (0, buf)
  | left + 1, rmiaddr, pos, curLen, buf =>
    if curLen = 0 then pure (0, buf)
    else do
      let blockLen := min curLen smbMaxCount
      match ← rmiSmbGetCommandCode rmiaddr blockLen true with
      | .error retval => pure (retval, buf)
      | .ok commandcode =>
        let r ← smbBlockRead commandcode
        if r.1 < 0 then pure (r.1, buf)
        else
          let rmiaddr := rmiaddr + BitVec.ofNat 16 smbMaxCount
          readBlocks left rmiaddr (pos + smbMaxCount) (curLen - smbMaxCount) (store buf pos r.2)

/-- `rmi_smb_read_block`. -/
def rmiSmbReadBlock (rmiaddr : RmiAddr) (databuff : ℕ → Byte) (len : ℕ) :
    Driver (Int × (ℕ → Byte)) := do
  lock .page
  let (retval, buf) ← readBlocks len rmiaddr 0 len fun k => if k < len then 0 else databuff k
  perform (.leaves (.read rmiaddr databuff len (0 ≤ retval) buf))
  unlock .page
  pure (retval, buf)

/-- `rmi_smb_clear_state`. -/
def rmiSmbClearState : Driver Unit := do
  lock .mappingtable
  perform .clearMappingTable
  unlock .mappingtable

/-- `rmi_smb_enable_smbus_mode`. -/
def rmiSmbEnableSmbusMode : Driver Int := do
  let resetDelayMs ← perform .resetDelayMs
  if resetDelayMs ≠ 0 then perform (.msleep resetDelayMs)
  let smbusVersion ← rmiSmbGetVersion
  if smbusVersion < 0 then pure smbusVersion
  else if smbusVersion ≠ 2 ∧ smbusVersion ≠ 3 then pure (-enodev)
  else pure 0

/-- `rmi_smb_reset`. -/
def rmiSmbReset : Driver Int := do
  rmiSmbClearState
  rmiSmbEnableSmbusMode

/-- `rmi_smb_resume` up to the calls into the RMI core. -/
def rmiSmbResume : Driver Unit := do
  let _ ← rmiSmbReset
  perform (.msleep rmiSmbResumeSettleMs)

/-! ## The running transport -/

/-- A call into the transport. -/
inductive Call where
  | readBlock (rmiaddr : RmiAddr) (databuff : ℕ → Byte) (len : ℕ)
  | writeBlock (rmiaddr : RmiAddr) (databuff : List Byte)
  | reset
  | resume

/-- Something that happens around it. -/
inductive Event where
  /-- The device changes registers of its own accord. -/
  | registers (regs : Regs)
  /-- The bus fails from now on, or works again. -/
  | bus (fault : Option Fault)
  /-- The version byte reads differently from now on. -/
  | version (answer : Int)
  /-- The device is reset through its PS/2 side, and forgets the table. -/
  | ps2Reset (regs : Regs)

def Call.body : Call → Driver Unit
  | .readBlock rmiaddr databuff len => do
    let _ ← rmiSmbReadBlock rmiaddr databuff len
    pure ()
  | .writeBlock rmiaddr databuff => do
    let _ ← rmiSmbWriteBlock rmiaddr databuff
    pure ()
  | .reset => do
    let _ ← rmiSmbReset
    pure ()
  | .resume => rmiSmbResume

/-- A reset goes through PS/2 while nothing is transferred; registers change of their own accord if
`volatile`. -/
def react (volatile : Bool) : Event → Transport → Option Transport
  | .registers regs, s => if volatile then some { s with regs := regs } else none
  | .bus fault, s => some { s with fault := fault }
  | .version answer, s => some { s with version := answer }
  | .ps2Reset regs, s =>
    if s.pageMutex = none then
      some { s with
        regs := regs, deviceTable := fun _ => .zero
        log := s.log ++ [(none, .reset regs)], stale := true }
    else none

/-- After a reset of the device no transfer begins before the transport has been reset. -/
def admits : Op → Transport → Bool
  | .lock .page, s => !s.stale
  | _, _ => true

/-- The transport with its surroundings; it is reset promptly if `prompt`. -/
def machine (volatile prompt : Bool) : Machine Transport Op Op.Ans Call Event where
  exec := exec
  body := Call.body
  enter _ _ s := some s
  react := react volatile
  admits _ o s := !prompt || admits o s

/-- The transport has been allocated; the device may have anything in its table. -/
structure Fresh (s : Transport) : Prop where
  mappingTable : s.mappingTable = fun _ => .zero
  noted : s.noted = []
  pageMutex : s.pageMutex = none
  mappingtableMutex : s.mappingtableMutex = none
  origin : s.origin = s.regs
  log : s.log = []
  trace : s.trace = []
  stale : s.stale = false

end HostNotify.Rmi
