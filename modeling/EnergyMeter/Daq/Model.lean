import EnergyMeter.Lib.Run
import Mathlib.Algebra.Group.Nat.Defs
import Mathlib.Data.Fin.Basic

/-!
# Acquisition pipeline — model of `ads131e08s_pru1.asm`, `ads131e08s_pru0.asm`, `DAQ.c` and `AnalogCore.c`

Three processors pass the samples on. PRU1 reads the converter and leaves
packets of 100 bytes in the scratch pad, PRU0 stores them in the memory shared
with the ARM, one half after the other, and the ARM copies a half for each
event that PRU0 raises.

* `Pipeline` — the state of the three processors and what they share.
* `step` — one instruction of one of them; the stores of `SBBO` and the copies
  of `memcpy` go byte by byte, so that the other processors may move between
  two bytes.
* `Handshake`, `InTime`, `OnTime` — what the environment promises about a run.

The packets that PRU1 publishes are the items of a stream `x : ℕ → Packet`;
`byteAt x` is the same stream byte by byte.
-/

namespace EnergyMeter.Daq

/-! ## Constants -/

/-- `PKG_SIZE`: the bytes of a packet, registers `r1` to `r25` of a PRU. -/
abbrev pkgSize : ℕ := 100

/-- `LOOPS_PER_MSG`, and `PKG_COUNT` of `AnalogCore.c`: 15360 samples at four
samples a packet. -/
abbrev loopsPerMsg : ℕ := 3840

/-- `PRU_PACKET_SIZE`: the bytes of one half of the shared memory. -/
abbrev pruPacketSize : ℕ := 384000

/-- `PRU_BUFFER_SIZE`: both halves. -/
abbrev pruBufferSize : ℕ := 768000

example : pruPacketSize = loopsPerMsg * pkgSize ∧ pruBufferSize = 2 * pruPacketSize := by decide

abbrev Byte := BitVec 8

abbrev Packet := Fin pkgSize → Byte

/-- Byte number `q` of the stream of packets. -/
def byteAt (x : ℕ → Packet) (q : ℕ) : Byte := x (q / pkgSize) (Fin.ofNat pkgSize q)

/-- The bytes of a word that was put together from four. -/
theorem extractLsb'_word (b : ℕ → Byte) {k : ℕ} (hk : k < 4) :
    (b 3 ++ b 2 ++ b 1 ++ b 0).extractLsb' (8 * k) 8 = b k := by
  refine BitVec.eq_of_getLsbD_eq fun i hi => ?_
  rw [BitVec.getLsbD_extractLsb', decide_eq_true hi, Bool.true_and, BitVec.getLsbD_append,
    BitVec.getLsbD_append, BitVec.getLsbD_append]
  -- bit `8 k + i` of the word is behind the `k` bytes below
  obtain rfl | rfl | rfl | rfl : k = 0 ∨ k = 1 ∨ k = 2 ∨ k = 3 := by omega
  · rw [if_pos (by omega), Nat.mul_zero, Nat.zero_add]
  · rw [if_neg (by omega), if_pos (by omega)]
    exact congrArg (b 1).getLsbD (by omega)
  · rw [if_neg (by omega), if_neg (by omega), if_pos (by omega)]
    exact congrArg (b 2).getLsbD (by omega)
  · rw [if_neg (by omega), if_neg (by omega), if_neg (by omega)]
    exact congrArg (b 3).getLsbD (by omega)

/-! ## Program counters -/

/-- `mainloop` of PRU1, from the moment four samples are in `r1` to `r25`. -/
inductive Pc1
  | /-- `XOUT XFR_BANK0, &r1, 100` -/ xout
  | /-- `LDI r31.b0, PRU_INT_VALID + PRU1_PRU0_INTERRUPT` -/ signal
  deriving DecidableEq, Repr

/-- The two copies of the inner loop of PRU0, each with its half of the shared
memory. -/
inductive Half
  | one
  | two
  deriving DecidableEq, Repr

def Half.num : Half → ℕ
  | one => 0
  | two => 1

/-- `outer_loop` of PRU0. -/
inductive Pc0
  | /-- `LDI r29, 0` -/ outerLoop
  | /-- `LDI32 r27, LOOPS_PER_MSG` -/ load (h : Half)
  | /-- `WBS r31, 30` -/ wbs (h : Half)
  | /-- `SBCO &r0, C0, 0x24, 4` with `r0 = 18` -/ sbco (h : Half)
  | /-- `XIN XFR_BANK0, &r1, 100` -/ xin (h : Half)
  | /-- byte `k` of `SBBO &r1, r28, r29, 100` -/ sbbo (h : Half) (k : ℕ)
  | /-- `ADD r29, r29, 100` -/ add (h : Half)
  | /-- `SUB r27, r27, 1` -/ sub (h : Half)
  | /-- `QBNE inner_loop, r27, 0` -/ qbne (h : Half)
  | /-- `LDI r31.b0, PRU_INT_VALID + PRU0_ARM_INTERRUPT` -/ raise (h : Half)
  deriving DecidableEq, Repr

/-- `AnalogCore_GetSamples` with the body of `DAQ_Run` in it; `from` is the
offset in the shared memory that `DAQ_Run` is called with. -/
inductive PcA
  | /-- outside, until the next call -/ idle
  | /-- `prussdrv_pru_wait_event` -/ wait (src : ℕ)
  | /-- `prussdrv_pru_clear_event` -/ clear (src : ℕ)
  | /-- byte `k` of `memcpy` -/ memcpy (src k : ℕ)
  | /-- `buffer_ix = 1` or `buffer_ix = 0` -/ toggle
  deriving DecidableEq, Repr

/-! ## State -/

/-- What one call of `DAQ_Run` has delivered, for the statements. -/
structure Copied where
  /-- The offset in the shared memory that was copied. -/
  src : ℕ
  /-- `dbuffer` at the end of `memcpy`. -/
  data : ℕ → Byte
  /-- The events that PRU0 had raised by then. -/
  raised : ℕ

structure Pipeline where
  pc1 : Pc1
  /-- Bank 0 of the scratch pad. -/
  scratch : Packet
  /-- System event 18, from PRU1 to PRU0. -/
  evt18 : Bool
  pc0 : Pc0
  /-- `r1` to `r25` of PRU0, byte by byte. -/
  regs : Packet
  r27 : ℕ
  r28 : ℕ
  r29 : ℕ
  /-- The memory, by physical address. -/
  ddr : ℕ → Byte
  /-- System event 19, from PRU0 to the ARM. -/
  evt19 : Bool
  pcA : PcA
  bufferIx : ℕ
  /-- The physical address that `ram_addr` is mapped to. -/
  ramAddr : ℕ
  dbuffer : ℕ → Byte
  /-- History: the packets that PRU1 has published. -/
  published : ℕ
  /-- History: the packets that PRU0 has read from the scratch pad. -/
  xined : ℕ
  /-- History: the events 19 that PRU0 has raised. -/
  raised : ℕ
  /-- History: those raised while the one before was still pending. -/
  merged : ℕ
  /-- History: the events 19 that the ARM has cleared. -/
  woken : ℕ
  /-- History: what the calls of `DAQ_Run` have delivered. -/
  copies : List Copied

/-- After `AnalogCore_Init` and `AnalogCore_Setup`: the area at `addr`, with
whatever it contains, is known to PRU0 and to the ARM. -/
def init (addr : ℕ) (mem : ℕ → Byte) : Pipeline where
  pc1 := .xout
  scratch := fun _ => 0
  evt18 := false
  pc0 := .outerLoop
  regs := fun _ => 0
  r27 := 0
  r28 := addr
  r29 := 0
  ddr := mem
  evt19 := false
  pcA := .idle
  bufferIx := 0
  ramAddr := addr
  dbuffer := fun _ => 0
  published := 0
  xined := 0
  raised := 0
  merged := 0
  woken := 0
  copies := []

/-! ## Steps -/

/-- Registers of a PRU have 32 bits. -/
def reg32 (n : ℕ) : ℕ := n % 2 ^ 32

def pru1Step (x : ℕ → Packet) (s : Pipeline) : Pipeline :=
  match s.pc1 with
  | .xout => { s with pc1 := .signal, scratch := x s.published, published := s.published + 1 }
  | .signal => { s with pc1 := .xout, evt18 := true }

def pru0Step (s : Pipeline) : Option Pipeline :=
  match s.pc0 with
  | .outerLoop => some { s with pc0 := .load .one, r29 := 0 }
  | .load h => some { s with pc0 := .wbs h, r27 := loopsPerMsg }
  | .wbs h => if s.evt18 then some { s with pc0 := .sbco h } else none
  | .sbco h => some { s with pc0 := .xin h, evt18 := false }
  | .xin h => some { s with pc0 := .sbbo h 0, regs := s.scratch, xined := s.xined + 1 }
  | .sbbo h k =>
    some { s with
      pc0 := if k + 1 < pkgSize then .sbbo h (k + 1) else .add h
      ddr := Function.update s.ddr (s.r28 + s.r29 + k) (s.regs (Fin.ofNat pkgSize k)) }
  | .add h => some { s with pc0 := .sub h, r29 := reg32 (s.r29 + 100) }
  | .sub h => some { s with pc0 := .qbne h, r27 := reg32 (s.r27 + 2 ^ 32 - 1) }
  | .qbne h => some { s with pc0 := if s.r27 ≠ 0 then .wbs h else .raise h }
  | .raise h =>
    -- an event raised while the previous one is pending is lost in it
    some { s with
      pc0 := match h with
        | .one => .load .two
        | .two => .outerLoop
      evt19 := true
      raised := s.raised + 1
      merged := if s.evt19 then s.merged + 1 else s.merged }

def armStep (s : Pipeline) : Option Pipeline :=
  match s.pcA with
  | .idle => some { s with pcA := .wait (if s.bufferIx = 0 then 0 else pruPacketSize) }
  | .wait src => if s.evt19 then some { s with pcA := .clear src } else none
  | .clear src => some { s with pcA := .memcpy src 0, evt19 := false, woken := s.woken + 1 }
  | .memcpy src k =>
    let dbuffer := Function.update s.dbuffer k (s.ddr (s.ramAddr + src + k))
    if k + 1 < pruPacketSize then some { s with pcA := .memcpy src (k + 1), dbuffer := dbuffer }
    else
      some { s with
        pcA := .toggle
        dbuffer := dbuffer
        copies := s.copies ++ [⟨src, dbuffer, s.raised⟩] }
  | .toggle => some { s with pcA := .idle, bufferIx := if s.bufferIx = 0 then 1 else 0 }

inductive Agent
  | pru1
  | pru0
  | arm
  deriving DecidableEq, Repr

def step (x : ℕ → Packet) (s : Pipeline) : Agent → Option Pipeline
  | .pru1 => some (pru1Step x s)
  | .pru0 => pru0Step s
  | .arm => armStep s

/-! ## Promises of the environment -/

/-- PRU1 publishes a packet only after PRU0 has read the previous one. -/
def Handshake (s : Pipeline) (a : Agent) : Prop :=
  a = .pru1 → s.pc1 = .xout → s.xined = s.published

/-- Moreover, PRU0 raises an event only after the copies for all the events
before it are complete. -/
def InTime (s : Pipeline) (a : Agent) : Prop :=
  Handshake s a ∧ (a = .pru0 → ∀ h, s.pc0 = .raise h → s.copies.length = s.raised)

/-- As `Handshake`, and PRU0 raises an event only when none is pending and none
is being copied for. Events that were merged before do not matter. -/
def OnTime (s : Pipeline) (a : Agent) : Prop :=
  Handshake s a ∧
    (a = .pru0 → ∀ h, s.pc0 = .raise h → s.evt19 = false ∧ ∀ src k, s.pcA ≠ .memcpy src k)

end EnergyMeter.Daq
