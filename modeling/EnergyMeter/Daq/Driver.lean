import EnergyMeter.Daq.Model
import EnergyMeter.Lib.Intc

/-!
# Starting the PRUs — model of `prussdrv.c`, `pru.c` and `DAQ.c`

`DAQ_Setup` opens the driver, programs the interrupt controller, tells PRU0 the address of
the shared memory and loads and starts both programs; `DAQ_Stop` halts them. All of it goes
through a window of the process onto the subsystem.

* `Pruss` — the subsystem behind the window, by words; a store into the part of the
  interrupt controller is a write of one of its registers.
* `Prussdrv` — the static variable of the driver.
* `daqSetup`, `daqStop` — the calls of `AnalogCore.c` and `main.cpp`.

A call gives the state after it. One that returns `-1`, or that dereferences a null pointer,
gives the state in which it did so.
-/

namespace EnergyMeter.Daq.Driver

open Lib Lib.Intc

/-! ## Numbers of the headers -/

/-- `PRU0_PRU1_INTERRUPT`, … of `pruss_intc_mapping.h`: system events. -/
def pru0Pru1Interrupt : ℕ := 17
def pru1Pru0Interrupt : ℕ := 18
def pru0ArmInterrupt : ℕ := 19
def pru1ArmInterrupt : ℕ := 20
def armPru0Interrupt : ℕ := 21
def armPru1Interrupt : ℕ := 22

def numPruHosts : ℕ := 10
def numPruChannels : ℕ := 10
def numPruSysEvts : ℕ := 64
def maxHostsSupported : ℕ := 10
def prussMaxIramSize : ℕ := 8192

/-- The offsets of `__prussdrv.h`. -/
def pruIntcGerReg : ℕ := 0x010
def pruIntcSicrReg : ℕ := 0x024
def pruIntcHieisrReg : ℕ := 0x034
def pruIntcHidisrReg : ℕ := 0x038
def pruIntcSrsr1Reg : ℕ := 0x200
def pruIntcSecr1Reg : ℕ := 0x280
def pruIntcSecr2Reg : ℕ := 0x284
def pruIntcEsr1Reg : ℕ := 0x300
def pruIntcEsr2Reg : ℕ := 0x304
def pruIntcEcr1Reg : ℕ := 0x380
def pruIntcCmr1Reg : ℕ := 0x400
def pruIntcHmr1Reg : ℕ := 0x800
def pruIntcSipr1Reg : ℕ := 0xD00
def pruIntcSipr2Reg : ℕ := 0xD04
def pruIntcSitr1Reg : ℕ := 0xD80
def pruIntcSitr2Reg : ℕ := 0xD84

/-! ## The subsystem -/

/-- The parts of the window that the driver knows, by words from `pru0_dataram_base` on. -/
structure Bases where
  pru1Dataram : ℕ
  sharedram : ℕ
  intc : ℕ
  pru0Control : ℕ
  pru1Control : ℕ
  pru0Iram : ℕ
  pru1Iram : ℕ

/-- From the addresses `AM33XX_..._PHYS_BASE`. -/
def am33xx : Bases where
  pru1Dataram := (0x4a302000 - 0x4a300000) / 4
  sharedram := (0x4a310000 - 0x4a300000) / 4
  intc := (0x4a320000 - 0x4a300000) / 4
  pru0Control := (0x4a322000 - 0x4a300000) / 4
  pru1Control := (0x4a324000 - 0x4a300000) / 4
  pru0Iram := (0x4a334000 - 0x4a300000) / 4
  pru1Iram := (0x4a338000 - 0x4a300000) / 4

/-- From the addresses `AM18XX_..._PHYS_BASE`; this chip has no shared memory of its own. -/
def am18xx : Bases where
  pru1Dataram := (0x01C32000 - 0x01C30000) / 4
  sharedram := 0
  intc := (0x01C34000 - 0x01C30000) / 4
  pru0Control := (0x01C37000 - 0x01C30000) / 4
  pru1Control := (0x01C37800 - 0x01C30000) / 4
  pru0Iram := (0x01C38000 - 0x01C30000) / 4
  pru1Iram := (0x01C3C000 - 0x01C30000) / 4

/-- Without a version the addresses are zeros, and so are their differences. -/
def unknown : Bases := ⟨0, 0, 0, 0, 0, 0, 0⟩

/-- The register of the interrupt controller at an offset. -/
def intcRegister (offset : ℕ) : Option Register :=
  if offset = pruIntcGerReg then some .globalEnable
  else if offset = pruIntcSicrReg then some .statusClearIndex
  else if offset = pruIntcHieisrReg then some .hostEnableIndex
  else if offset = pruIntcHidisrReg then some .hostDisableIndex
  else if pruIntcSrsr1Reg ≤ offset ∧ offset < 0x208 then
    some (.statusSet ((offset - pruIntcSrsr1Reg) / 4))
  else if pruIntcSecr1Reg ≤ offset ∧ offset < 0x288 then
    some (.statusClear ((offset - pruIntcSecr1Reg) / 4))
  else if pruIntcEsr1Reg ≤ offset ∧ offset < 0x308 then
    some (.enableSet ((offset - pruIntcEsr1Reg) / 4))
  else if pruIntcEcr1Reg ≤ offset ∧ offset < 0x388 then
    some (.enableClear ((offset - pruIntcEcr1Reg) / 4))
  else if pruIntcCmr1Reg ≤ offset ∧ offset < 0x440 then
    some (.channelMap ((offset - pruIntcCmr1Reg) / 4))
  else if pruIntcHmr1Reg ≤ offset ∧ offset < 0x80C then
    some (.hostMap ((offset - pruIntcHmr1Reg) / 4))
  else if pruIntcSipr1Reg ≤ offset ∧ offset < 0xD08 then
    some (.polarity ((offset - pruIntcSipr1Reg) / 4))
  else if pruIntcSitr1Reg ≤ offset ∧ offset < 0xD88 then
    some (.type ((offset - pruIntcSitr1Reg) / 4))
  else none

/-- An AM33XX behind its window. The words of the interrupt controller are not among
`words`. -/
structure Pruss where
  words : ℕ → BitVec 32
  intc : Controller

/-- The interrupt controller ends where the control registers of PRU0 begin. -/
def InIntc (w : ℕ) : Prop := am33xx.intc ≤ w ∧ w < am33xx.pru0Control

instance (w : ℕ) : Decidable (InIntc w) := instDecidableAnd

namespace Pruss

def store (p : Pruss) (w : ℕ) (v : BitVec 32) : Pruss :=
  if InIntc w then
    match intcRegister (4 * (w - am33xx.intc)) with
    | some r => { p with intc := p.intc.write r v }
    | none => p
  else { p with words := Function.update p.words w v }

/-- Of the controller the tables are read, and `PRU_INTC_REVID_REG`. -/
def load (p : Pruss) (w : ℕ) : BitVec 32 :=
  if InIntc w then
    match intcRegister (4 * (w - am33xx.intc)) with
    | some (.channelMap k) => p.intc.channels k
    | some (.hostMap k) => p.intc.hosts k
    | _ => if w = am33xx.intc then 0x4E82A900 else 0
  else p.words w

end Pruss

/-! ## `prussdrv.c` -/

/-- `tpruss_intc_initdata`. Each array of the source ends with an entry of `-1`s, in the
first one `255`; these are the entries before it. -/
structure IntcInitdata where
  sysevtsEnabled : List (BitVec 8)
  /-- `sysevt` and `channel` -/
  sysevtToChannelMap : List (BitVec 16 × BitVec 16)
  /-- `channel` and `host` -/
  channelToHostMap : List (BitVec 16 × BitVec 16)
  hostEnableBitmask : BitVec 32

/-- What has been found by `__pruss_detect_hw_version`. -/
inductive Version
  | v1
  | v2
  | none
deriving DecidableEq, Repr

/-- `static tprussdrv prussdrv`. -/
structure Prussdrv where
  version : Version
  /-- the entries that are not zero -/
  fd : ℕ → Bool
  /-- the pointers into the window, all null before `mmap` -/
  base : Option Bases
  intcData : Option IntcInitdata

/-- The driver and what it works on. -/
structure Session where
  drv : Prussdrv
  pruss : Pruss
  /-- History: the PRUs that have been started, each with the subsystem that it found. -/
  started : List (ℕ × Pruss)

/-- How a call ends that does not return `0`. -/
inductive Abort
  | /-- the value `-1` -/ failed
  | /-- a null pointer is dereferenced -/ crashed
deriving DecidableEq, Repr

/-- A call on a state. -/
abbrev Call := Except (Abort × Session) Session

/-- What the system answers: `/dev/uio%d`, and the files of `sysfs` for the subsystem and
the external memory. -/
structure Uio where
  dev : ℕ → Bool
  prussBase : Bool
  prussSize : Bool
  extramBase : Bool
  extramSize : Bool

/-- The PRU that a store starts: bit 1 of a control register enables it. -/
def startedBy (w : ℕ) (v : BitVec 32) : Option ℕ :=
  if v.getLsbD 1 = true ∧ w = am33xx.pru0Control then some 0
  else if v.getLsbD 1 = true ∧ w = am33xx.pru1Control then some 1
  else none

def Session.store (d : Session) (w : ℕ) (v : BitVec 32) : Session :=
  { d with
    pruss := d.pruss.store w v
    started := d.started ++ (startedBy w v).toList.map fun prunum => (prunum, d.pruss) }

/-- `__pruss_detect_hw_version`. -/
def prussDetectHwVersion (p : Pruss) : Version :=
  if p.load ((0x01C34000 - 0x01C30000) / 4) = 0x4E825900 then .v1
  else if p.load ((0x4a320000 - 0x4a300000) / 4) = 0x4E82A900 then .v2
  else .none

def Version.bases : Version → Bases
  | .v1 => am18xx
  | .v2 => am33xx
  | .none => unknown

/-- `__prussdrv_memmap_init`; `mmap` succeeds. -/
def prussdrvMemmapInit (os : Uio) (d : Session) : Call :=
  if !os.prussBase || !os.prussSize then .error (.failed, d)
  else
    let version := prussDetectHwVersion d.pruss
    let d := { d with drv := { d.drv with version, base := some version.bases } }
    if !os.extramBase || !os.extramSize then .error (.failed, d) else .ok d

/-- `prussdrv_init`. -/
def prussdrvInit (d : Session) : Session := { d with drv := ⟨.none, fun _ => false, none, none⟩ }

/-- `prussdrv_open`. What `open` returns is stored even if it is `-1`. -/
def prussdrvOpen (os : Uio) (d : Session) (hostInterrupt : ℕ) : Call :=
  if d.drv.fd hostInterrupt then .error (.failed, d)
  else
    let d := { d with drv := { d.drv with fd := Function.update d.drv.fd hostInterrupt true } }
    if os.dev hostInterrupt then prussdrvMemmapInit os d else .error (.failed, d)

/-- The pointers; null ones are not dereferenced twice. -/
def bases (d : Session) : Except (Abort × Session) Bases :=
  match d.drv.base with
  | some base => .ok base
  | none => .error (.crashed, d)

/-- The control register of a PRU. -/
def control (base : Bases) (prunum : ℕ) : Option ℕ :=
  if prunum = 0 then some base.pru0Control
  else if prunum = 1 then some base.pru1Control
  else none

/-- `prussdrv_pru_disable`, and with another value `prussdrv_pru_enable_at`. -/
def storeControl (d : Session) (prunum : ℕ) (v : BitVec 32) : Call := do
  let base ← bases d
  match control base prunum with
  | some w => .ok (d.store w v)
  | none => .error (.failed, d)

def prussdrvPruDisable (d : Session) (prunum : ℕ) : Call := storeControl d prunum 1

/-- The address is in bytes and is stored in words. -/
def prussdrvPruEnableAt (d : Session) (prunum addr : ℕ) : Call :=
  storeControl d prunum (BitVec.ofNat 32 (addr / 4) <<< 16 ||| 2)

/-- The loop of `prussdrv_pru_write_memory`. -/
def copyWords (d : Session) (area : ℕ) (memarea : ℕ → BitVec 32) (wordlength : ℕ) : Session :=
  (List.range wordlength).foldl (fun d i => d.store (area + i) (memarea i)) d

/-- `prussdrv_pru_write_memory` for `PRUSS0_PRU0_IRAM` and `PRUSS0_PRU1_IRAM`, the two that
`prussdrv_exec_code_at` passes, and offset 0. -/
def prussdrvPruWriteMemory (d : Session) (prunum : ℕ) (memarea : ℕ → BitVec 32) (bytelength : ℕ) :
    Call := do
  let base ← bases d
  let area := if prunum = 0 then base.pru0Iram else base.pru1Iram
  .ok (copyWords d area memarea ((bytelength + 3) >>> 2))

/-- `prussdrv_exec_code_at`. The values that the three calls return are not looked at. -/
def prussdrvExecCodeAt (d : Session) (prunum : ℕ) (code : ℕ → BitVec 32) (codelen addr : ℕ) : Call :=
  if prunum = 0 ∨ prunum = 1 then do
    let d ← prussdrvPruDisable d prunum
    let d ← prussdrvPruWriteMemory d prunum code codelen
    prussdrvPruEnableAt d prunum addr
  else .error (.failed, d)

/-- A word of four bytes. -/
def wordAt (bytes : ℕ → Byte) (i : ℕ) : BitVec 32 :=
  bytes (4 * i + 3) ++ bytes (4 * i + 2) ++ bytes (4 * i + 1) ++ bytes (4 * i)

/-- `fileDataArray` when the file has been read: behind its bytes the array is as it was. -/
def fileData (stack : ℕ → Byte) (file : List Byte) (i : ℕ) : Byte := file.getD i (stack i)

/-- `prussdrv_exec_program`; `none` is a file that cannot be opened. -/
def prussdrvExecProgram (d : Session) (prunum : ℕ) (stack : ℕ → Byte) (file : Option (List Byte)) :
    Call :=
  match file with
  | none => .error (.failed, d)
  | some file =>
    if file.length = 0 then .error (.failed, d)
    else if file.length > prussMaxIramSize then .error (.failed, d)
    else prussdrvExecCodeAt d prunum (wordAt (fileData stack file)) file.length 0

/-! ### The interrupt controller -/

/-- `__prussintc_set_cmr` and `__prussintc_set_hmr`: `|=` into a table of fields. -/
def prussintcSet (table : ℕ) (io : ℕ) (p : Pruss) (e : BitVec 16 × BitVec 16) : Pruss :=
  let w := io + (table + (e.1 &&& ~~~(3#16)).toNat) >>> 2
  p.store w (p.load w ||| (e.2 &&& 0xF#16).setWidth 32 <<< ((e.1 &&& 3#16).toNat <<< 3))

def prussintcSetCmr : ℕ → Pruss → BitVec 16 × BitVec 16 → Pruss := prussintcSet pruIntcCmr1Reg

def prussintcSetHmr : ℕ → Pruss → BitVec 16 × BitVec 16 → Pruss := prussintcSet pruIntcHmr1Reg

/-- `pruintc_io[(reg >> 2) + i] = 0` for the first `n` words of a table. -/
def clearTable (table n : ℕ) (io : ℕ) (p : Pruss) : Pruss :=
  (List.range n).foldl (fun p i => p.store (io + table >>> 2 + i) 0) p

/-- The loop over `sysevts_enabled`; `none` is the event out of range. -/
def enabledMasks : List (BitVec 8) → BitVec 32 → BitVec 32 → Option (BitVec 32 × BitVec 32)
  | [], mask1, mask2 => some (mask1, mask2)
  | e :: es, mask1, mask2 =>
    if e.toNat < 32 then enabledMasks es (mask1 + 1#32 <<< e.toNat) mask2
    else if e.toNat < 64 then enabledMasks es mask1 (mask2 + 1#32 <<< (e.toNat - 32))
    else none

/-- The loop over `host_enable_bitmask`. -/
def enableHosts (bitmask : BitVec 32) (io : ℕ) (p : Pruss) : Pruss :=
  (List.range maxHostsSupported).foldl (fun p i =>
    if bitmask &&& 1#32 <<< i ≠ 0 then p.store (io + pruIntcHieisrReg >>> 2) (BitVec.ofNat 32 i)
    else p) p

/-- The stores of `prussdrv_pruintc_init` before the masks are known. -/
def routeEvents (data : IntcInitdata) (io : ℕ) (p : Pruss) : Pruss :=
  let p := p.store (io + pruIntcSipr1Reg >>> 2) 0xFFFFFFFF
  let p := p.store (io + pruIntcSipr2Reg >>> 2) 0xFFFFFFFF
  let p := clearTable pruIntcCmr1Reg ((numPruSysEvts + 3) >>> 2) io p
  let p := data.sysevtToChannelMap.foldl (prussintcSetCmr io) p
  let p := clearTable pruIntcHmr1Reg ((numPruHosts + 3) >>> 2) io p
  let p := data.channelToHostMap.foldl (prussintcSetHmr io) p
  let p := p.store (io + pruIntcSitr1Reg >>> 2) 0
  p.store (io + pruIntcSitr2Reg >>> 2) 0

/-- Those after it. -/
def enableEvents (data : IntcInitdata) (mask1 mask2 : BitVec 32) (io : ℕ) (p : Pruss) : Pruss :=
  let p := p.store (io + pruIntcEsr1Reg >>> 2) mask1
  let p := p.store (io + pruIntcSecr1Reg >>> 2) mask1
  let p := p.store (io + pruIntcEsr2Reg >>> 2) mask2
  let p := p.store (io + pruIntcSecr2Reg >>> 2) mask2
  let p := enableHosts data.hostEnableBitmask io p
  p.store (io + pruIntcGerReg >>> 2) 1

/-- `prussdrv_pruintc_init`. -/
def prussdrvPruintcInit (data : IntcInitdata) (d : Session) : Call := do
  let base ← bases d
  let d := { d with pruss := routeEvents data base.intc d.pruss }
  match enabledMasks data.sysevtsEnabled 0 0 with
  | none => .error (.failed, d)
  | some (mask1, mask2) =>
    .ok { d with
          drv := { d.drv with intcData := some data }
          pruss := enableEvents data mask1 mask2 base.intc d.pruss }

/-- `prussdrv_get_event_to_channel_map`. -/
def prussdrvGetEventToChannelMap (data : IntcInitdata) (eventnum : ℕ) : ℤ :=
  match (data.sysevtToChannelMap.take numPruSysEvts).find? fun e => e.1.toNat = eventnum with
  | some e => e.2.toInt
  | none => -1

/-- `prussdrv_get_channel_to_host_map`. The first two lines belong to the PRUs. -/
def prussdrvGetChannelToHostMap (data : IntcInitdata) (channel : ℕ) : ℤ :=
  match (data.channelToHostMap.take numPruChannels).find? fun e => e.1.toNat = channel with
  | some e => e.2.toInt - 2
  | none => -1

/-- `prussdrv_get_event_to_host_map`. -/
def prussdrvGetEventToHostMap (data : IntcInitdata) (eventnum : ℕ) : ℤ :=
  let ans := prussdrvGetEventToChannelMap data eventnum
  if ans < 0 then ans else prussdrvGetChannelToHostMap data ans.toNat

/-- `PRUSS_INTC_INITDATA`. -/
def prussIntcInitdata : IntcInitdata where
  sysevtsEnabled := [17, 18, 19, 20, 21, 22]
  sysevtToChannelMap := [(17, 1), (18, 0), (19, 2), (20, 3), (21, 0), (22, 1)]
  channelToHostMap := [(0, 0), (1, 1), (2, 2), (3, 3)]
  hostEnableBitmask := 0x0001 ||| 0x0002 ||| 0x0004 ||| 0x0008

/-! ## `pru.c` and `DAQ.c` -/

/-- `pru_setup`. -/
def pruSetup (os : Uio) (d : Session) : Call := do
  let d ← prussdrvOpen os (prussdrvInit d) 0
  let d ← prussdrvOpen os d 1
  prussdrvPruintcInit prussIntcInitdata d

/-- The two programs, and what the stack holds where they are read to. -/
structure Programs where
  pru0 : Option (List Byte)
  pru1 : Option (List Byte)
  stack : ℕ → Byte

/-- `DAQ_Setup`. -/
def daqSetup (os : Uio) (files : Programs) (addr : BitVec 32) (d : Session) : Call := do
  let d ← pruSetup os d
  -- `pru_mmap` gives the data memory of PRU0
  let d := d.store 0 addr
  let d ← prussdrvExecProgram d 0 files.stack files.pru0
  prussdrvExecProgram d 1 files.stack files.pru1

/-- `DAQ_Stop`. What `pru_stop` returns is not looked at; `pru_cleanup` unmaps the window. -/
def daqStop (d : Session) : Call := do
  let d ← prussdrvPruDisable d 1
  let d ← prussdrvPruDisable d 0
  .ok { d with drv := { d.drv with base := none } }

end EnergyMeter.Daq.Driver
