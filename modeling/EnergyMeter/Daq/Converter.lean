import EnergyMeter.Daq.Packing
import EnergyMeter.Daq.Startup
import EnergyMeter.Lib.PruIo
import EnergyMeter.Lib.Serial

/-!
# Acquisition pipeline — the converter on its bus

The other side of the pins of PRU1, as `ads131_defs.inc` and the comments of
`ads131e08s.inc` and `spi.inc` describe it: a converter that latches a bit of a command
with every falling edge of the clock and shifts a bit out with every rising one, most
significant bit first, while it is selected. A command is complete when the converter
is deselected. In continuous mode one conversion follows the other, each in its own time
and whatever has been read: its end pulls `ADS_DRDY` low, and its frame takes the place
of the one before.

* `Mode.execute` — the commands.
* `Converter.next` — what the converter does with the pins after one instruction.
* `Hears` — the converter in agreement with the pins; the lemmas on `next` say what each
  edge does to it.
* `Holds` — a frame is held for some time yet; `Undisturbed` says what is left of it.
-/

namespace EnergyMeter.Daq

open Lib Lib.PruIo

/-! ## Symbols -/

def spiMiso : ℕ := 3
def adsDrdy : ℕ := 1

def config1 : ℕ := 0x01
def config3 : ℕ := 0x03
/-- `CH1SET` to `CH8SET`, by the number of the channel less one. -/
def chSet (i : ℕ) : ℕ := 0x05 + i

def chGain1 : ℕ := 0x10
def chNormal : ℕ := 0x0
def chVdd : ℕ := 0x3

def adsCmdOffsetcal : ℕ := 0x1A
def adsCmdRdatac : ℕ := 0x10
def adsCmdWreg : ℕ := 0x40

/-! ## Commands -/

/-- The registers, and whether frames are shifted out. -/
structure Mode where
  regs : ℕ → Byte
  continuous : Bool

/-- Consecutive registers from `first` on. -/
def writeRegs (regs : ℕ → Byte) (first : ℕ) (data : List Byte) : ℕ → Byte := fun r =>
  if first ≤ r then (data[r - first]?).getD (regs r) else regs r

/-- A command with its data; what is none changes nothing, and the registers cannot be
written in continuous mode. -/
def Mode.execute (defaults : ℕ → Byte) (m : Mode) : List Byte → Mode
  | [cmd] =>
    if cmd.toNat = adsCmdReset then ⟨defaults, true⟩
    else if cmd.toNat = adsCmdRdatac then { m with continuous := true }
    else if cmd.toNat = adsCmdSdatac then { m with continuous := false }
    else m
  | cmd :: count :: data =>
    -- 0b010r rrrr 0b000n nnnn: n + 1 registers from r on
    if cmd.toNat / 32 * 32 = adsCmdWreg ∧ data.length = count.toNat + 1 ∧ m.continuous = false then
      { m with regs := writeRegs m.regs (cmd.toNat % 32) data }
    else m
  | [] => m

/-! ## Conversions -/

/-- What the program does not decide: the registers after a reset, the bytes of the
frames one after the other, and the time from the end of one conversion to that of
the next. -/
structure Supply where
  defaults : ℕ → Byte
  bytes : ℕ → Byte
  period : ℕ → ℕ

structure Converter where
  mode : Mode
  /-- The clock and the select pin after the last instruction. -/
  sclk : Bool
  cs : Bool
  /-- The bits of the command that is being received. -/
  heard : List Bool
  /-- The conversions that have ended. -/
  done : ℕ
  /-- The bits that have been shifted out of the frame of the last one. -/
  shifted : ℕ
  /-- The time until the next one ends. -/
  wait : ℕ

/-- The bits of a frame. -/
def frameBits : ℕ := 216

namespace Converter

variable (supply : Supply) (c : Converter)

/-- Conversions begin anew. -/
def restart : Converter := { c with done := 0, shifted := 0, wait := supply.period 0 }

def execute (cmd : List Byte) : Converter :=
  let mode := c.mode.execute supply.defaults cmd
  if mode.continuous && !c.mode.continuous then { c.restart supply with mode := mode }
  else { c with mode := mode }

/-- Conversions go on while the start pin is high, whatever has been read: the frame of
the next one takes the place of the frame of the last one. -/
def tick (start : Bool) : Converter :=
  if c.mode.continuous && start then
    if c.wait ≤ 1 then { c with done := c.done + 1, shifted := 0, wait := supply.period (c.done + 1) }
    else { c with wait := c.wait - 1 }
  else c

def edge (sclk mosi : Bool) : Converter :=
  match c.sclk, sclk with
  | false, true => if c.mode.continuous ∧ 0 < c.done then { c with shifted := c.shifted + 1 } else c
  | true, false => { c with heard := c.heard ++ [mosi] }
  | _, _ => c

/-- What holds while the select pin is high. -/
def deselect : Converter :=
  { (if c.cs then c else c.execute supply (Serial.bytes c.heard)) with heard := [] }

/-- The levels that `pins` has. -/
def levels (pins : BitVec 32) : Converter :=
  { c with sclk := pins.getLsbD spiSclk, cs := pins.getLsbD spiCs }

def next (pins : BitVec 32) : Converter :=
  if pins.getLsbD adsReset = false then
    { c.restart supply with mode := ⟨supply.defaults, true⟩, heard := [] }.levels pins
  else
    let c := c.tick supply (pins.getLsbD adsStart)
    if pins.getLsbD spiCs then (c.deselect supply).levels pins
    else (c.edge (pins.getLsbD spiSclk) (pins.getLsbD spiMosi)).levels pins

/-- The bit that was shifted out last; behind the frame there are zeros. -/
def miso : Bool :=
  decide (c.shifted ≤ frameBits) &&
    (supply.bytes (27 * (c.done - 1) + (c.shifted - 1) / 8)).getLsbD (7 - (c.shifted - 1) % 8)

/-- High while there is no new frame: until the first conversion ends, and from the first
bit of a frame on. -/
def drdy : Bool := c.done = 0 ∨ c.shifted ≠ 0

/-- The input pins. -/
def pins : BitVec 32 := drive (drive 0 spiMiso (c.miso supply)) adsDrdy c.drdy

theorem pins_miso : (c.pins supply).getLsbD spiMiso = c.miso supply := by
  rw [pins, drive_of_ne (by decide), drive_self (by decide)]

theorem pins_drdy : (c.pins supply).getLsbD adsDrdy = c.drdy := drive_self (by decide)

@[simp] theorem tick_mode (start : Bool) : (c.tick supply start).mode = c.mode := by
  unfold tick
  split_ifs <;> rfl

@[simp] theorem tick_sclk (start : Bool) : (c.tick supply start).sclk = c.sclk := by
  unfold tick
  split_ifs <;> rfl

@[simp] theorem tick_cs (start : Bool) : (c.tick supply start).cs = c.cs := by
  unfold tick
  split_ifs <;> rfl

@[simp] theorem tick_heard (start : Bool) : (c.tick supply start).heard = c.heard := by
  unfold tick
  split_ifs <;> rfl

theorem edge_rise {c : Converter} (h : c.sclk = false) (mosi : Bool) :
    c.edge true mosi =
      if c.mode.continuous ∧ 0 < c.done then { c with shifted := c.shifted + 1 } else c := by
  unfold edge
  rw [h]

theorem edge_fall {c : Converter} (h : c.sclk = true) (mosi : Bool) :
    c.edge false mosi = { c with heard := c.heard ++ [mosi] } := by
  unfold edge
  rw [h]

theorem edge_none {c : Converter} (mosi : Bool) : c.edge c.sclk mosi = c := by
  unfold edge
  cases c.sclk <;> rfl

end Converter

/-! ## The converter and the pins -/

/-- The converter has seen `pins`: it is not held in reset, the clock is `sclk`, the
select pin `cs`, and `heard` has been received of a command. -/
structure Hears (m : Mode) (sclk cs : Bool) (heard : List Bool) (pins : BitVec 32)
    (c : Converter) : Prop where
  reset : pins.getLsbD adsReset = true
  pinSclk : pins.getLsbD spiSclk = sclk
  pinCs : pins.getLsbD spiCs = cs
  mode : c.mode = m
  sclk : c.sclk = sclk
  cs : c.cs = cs
  heard : c.heard = heard

/-- `done` conversions have ended, `bits` bits of the frame of the last one have been
shifted out, and for more than `time` the next one does not end. -/
structure Holds (done bits time : ℕ) (c : Converter) : Prop where
  done : c.done = done
  shifted : c.shifted = bits
  time : time < c.wait

/-- In `time` no bit was shifted out: a frame is still held if its time was not over. -/
structure Undisturbed (time : ℕ) (c c' : Converter) : Prop where
  fresh : c.shifted = 0 → c'.shifted = 0
  held : ∀ done bits t, Holds done bits (t + time) c → Holds done bits t c'

/-- `done` conversions have ended, the last one just now. -/
structure Fresh (supply : Supply) (done : ℕ) (c : Converter) : Prop where
  wait : c.wait = supply.period done
  shifted : c.shifted = 0
  done : c.done = done

theorem Fresh.holds {supply : Supply} {done t : ℕ} {c : Converter} (h : Fresh supply done c)
    (ht : t < supply.period done) : Holds done 0 t c :=
  ⟨h.done, h.shifted, ht.trans_eq h.wait.symm⟩

theorem Holds.mono {done bits t t' : ℕ} {c : Converter} (h : Holds done bits t c) (hLe : t' ≤ t) :
    Holds done bits t' c :=
  ⟨h.done, h.shifted, hLe.trans_lt h.time⟩

theorem Undisturbed.refl (c : Converter) : Undisturbed 0 c c := ⟨id, fun _ _ _ => id⟩

theorem Undisturbed.trans {n n' : ℕ} {c c' c'' : Converter} (h : Undisturbed n c c')
    (h' : Undisturbed n' c' c'') : Undisturbed (n + n') c c'' where
  fresh hFresh := h'.fresh (h.fresh hFresh)
  held done bits t hHolds := by
    refine h'.held _ _ _ (h.held _ _ _ ?_)
    rwa [Nat.add_assoc, Nat.add_comm n' n]

/-- Conversions have begun at most `d` ago; no bit of a frame has been shifted out. -/
structure Begun (supply : Supply) (d : ℕ) (c : Converter) : Prop where
  shifted : c.shifted = 0
  holds : ∀ t, t + d < supply.period 0 → Holds 0 0 t c

theorem Fresh.begun {supply : Supply} {c : Converter} (h : Fresh supply 0 c) : Begun supply 0 c :=
  ⟨h.shifted, fun _ ht => h.holds ht⟩

theorem Begun.later {supply : Supply} {d n : ℕ} {c c' : Converter} (h : Begun supply d c)
    (hSame : Undisturbed n c c') : Begun supply (d + n) c' where
  shifted := hSame.fresh h.shifted
  holds t ht := hSame.held _ _ _ (h.holds _ (by omega))

section Next

variable (supply : Supply) {m : Mode} {s cs : Bool} {heard : List Bool} {o o' : BitVec 32}
  {c : Converter}

/-- The end of a conversion is the only thing that a tick does to the frames. -/
theorem Converter.tick_undisturbed (start : Bool) : Undisturbed 1 c (c.tick supply start) := by
  unfold tick
  split_ifs with hOn hEnd
  · exact ⟨fun _ => rfl, fun _ _ t h => absurd h.time (by omega)⟩
  · exact ⟨id, fun _ _ t h => ⟨h.done, h.shifted, by have := h.time; show t < c.wait - 1; omega⟩⟩
  · exact ⟨id, fun _ _ t h => h.mono (Nat.le_succ t)⟩

/-- While the select pin is low. -/
theorem Converter.next_selected (hReset : o'.getLsbD adsReset = true)
    (hCs : o'.getLsbD spiCs = false) :
    c.next supply o' = ((c.tick supply (o'.getLsbD adsStart)).edge (o'.getLsbD spiSclk)
      (o'.getLsbD spiMosi)).levels o' := by
  rw [Converter.next, hReset, if_neg Bool.noConfusion, hCs, if_neg Bool.noConfusion]

/-- While the select pin is high. -/
theorem Converter.next_deselected (hReset : o'.getLsbD adsReset = true)
    (hCs : o'.getLsbD spiCs = true) :
    c.next supply o' = ((c.tick supply (o'.getLsbD adsStart)).deselect supply).levels o' := by
  rw [Converter.next, hReset, if_neg Bool.noConfusion, hCs, if_pos rfl]

/-- The frames are those of another converter. -/
theorem Undisturbed.of_eq {n : ℕ} {c' c'' : Converter} (h : Undisturbed n c c')
    (hDone : c''.done = c'.done) (hShifted : c''.shifted = c'.shifted) (hWait : c''.wait = c'.wait) :
    Undisturbed n c c'' where
  fresh hFresh := hShifted.trans (h.fresh hFresh)
  held done bits t hHolds :=
    have hHeld := h.held done bits t hHolds
    ⟨hDone.trans hHeld.done, hShifted.trans hHeld.shifted, hHeld.time.trans_eq hWait.symm⟩

/-- An instruction without an edge, behind which the converter is selected. -/
theorem Hears.next_same (h : Hears m s cs heard o c) (hReset : o'.getLsbD adsReset = true)
    (hSclk : o'.getLsbD spiSclk = s) (hCs : o'.getLsbD spiCs = false) :
    Hears m s false heard o' (c.next supply o') ∧ Undisturbed 1 c (c.next supply o') := by
  have hLevel : o'.getLsbD spiSclk = (c.tick supply (o'.getLsbD adsStart)).sclk := by
    rw [Converter.tick_sclk, h.sclk, hSclk]
  rw [Converter.next_selected supply hReset hCs, hLevel, Converter.edge_none]
  refine ⟨⟨hReset, hSclk, hCs, ?_, hSclk, hCs, ?_⟩, ?_⟩
  · exact (Converter.tick_mode _ _ _).trans h.mode
  · exact (Converter.tick_heard _ _ _).trans h.heard
  · exact (Converter.tick_undisturbed supply _).of_eq rfl rfl rfl

/-- The clock goes high, or is high: a bit of a frame is shifted out with the edge. -/
theorem Hears.next_high (h : Hears m s false heard o c) (hReset : o'.getLsbD adsReset = true)
    (hSclk : o'.getLsbD spiSclk = true) (hCs : o'.getLsbD spiCs = false) :
    Hears m true false heard o' (c.next supply o') ∧
      (s = false → m.continuous = true → ∀ f n t, Holds (f + 1) n (t + 1) c →
        Holds (f + 1) (n + 1) t (c.next supply o')) := by
  -- the line of the clock was high before, and nothing happens, or this is its edge
  cases s with
  | true => exact ⟨(h.next_same supply hReset hSclk hCs).1, nofun⟩
  | false =>
    rw [Converter.next_selected supply hReset hCs, hSclk,
      Converter.edge_rise ((Converter.tick_sclk _ _ _).trans h.sclk)]
    refine ⟨⟨hReset, hSclk, hCs, ?_, hSclk, hCs, ?_⟩, fun _ hContinuous f n t hHolds => ?_⟩
    · show (ite _ _ _ : Converter).mode = m
      split <;> exact (Converter.tick_mode _ _ _).trans h.mode
    · show (ite _ _ _ : Converter).heard = heard
      split <;> exact (Converter.tick_heard _ _ _).trans h.heard
    · have hTick : Holds (f + 1) n t (c.tick supply (o'.getLsbD adsStart)) :=
        (Converter.tick_undisturbed supply _).held _ _ _ hHolds
      have hDone : 0 < (c.tick supply (o'.getLsbD adsStart)).done := by
        rw [hTick.done]
        exact Nat.succ_pos f
      rw [if_pos ⟨by rw [Converter.tick_mode, h.mode, hContinuous], hDone⟩]
      exact ⟨hTick.done, congrArg (· + 1) hTick.shifted, hTick.time⟩

/-- The clock goes low: a bit is latched. -/
theorem Hears.next_low (h : Hears m true false heard o c) (hReset : o'.getLsbD adsReset = true)
    (hSclk : o'.getLsbD spiSclk = false) (hCs : o'.getLsbD spiCs = false) :
    Hears m false false (heard ++ [o'.getLsbD spiMosi]) o' (c.next supply o') ∧
      Undisturbed 1 c (c.next supply o') := by
  rw [Converter.next_selected supply hReset hCs, hSclk,
    Converter.edge_fall ((Converter.tick_sclk _ _ _).trans h.sclk), Converter.tick_heard, h.heard]
  refine ⟨⟨hReset, hSclk, hCs, ?_, hSclk, hCs, rfl⟩, ?_⟩
  · exact (Converter.tick_mode _ _ _).trans h.mode
  · exact (Converter.tick_undisturbed supply _).of_eq rfl rfl rfl

/-- The converter stays deselected. -/
theorem Hears.next_parked (h : Hears m s true [] o c) (hReset : o'.getLsbD adsReset = true)
    (hSclk : o'.getLsbD spiSclk = s) (hCs : o'.getLsbD spiCs = true) :
    Hears m s true [] o' (c.next supply o') ∧ Undisturbed 1 c (c.next supply o') := by
  rw [Converter.next_deselected supply hReset hCs, Converter.deselect, Converter.tick_cs,
    h.cs, if_pos rfl]
  refine ⟨⟨hReset, hSclk, hCs, ?_, hSclk, hCs, rfl⟩, ?_⟩
  · exact (Converter.tick_mode _ _ _).trans h.mode
  · exact (Converter.tick_undisturbed supply _).of_eq rfl rfl rfl

/-- While the start pin is high, the next conversion comes closer, or ends. -/
theorem Hears.next_converts (h : Hears m s true [] o c) (hReset : o'.getLsbD adsReset = true)
    (hCs : o'.getLsbD spiCs = true) (hContinuous : m.continuous = true)
    (hStart : o'.getLsbD adsStart = true) :
    if c.wait ≤ 1 then Fresh supply (c.done + 1) (c.next supply o')
    else (c.next supply o').wait = c.wait - 1 := by
  rw [Converter.next_deselected supply hReset hCs, Converter.deselect, Converter.tick_cs,
    h.cs, if_pos rfl, hStart, Converter.tick, h.mode, hContinuous, Bool.and_true, if_pos rfl]
  by_cases hEnd : c.wait ≤ 1
  · rw [if_pos hEnd, if_pos hEnd]
    exact ⟨rfl, rfl, rfl⟩
  · rw [if_neg hEnd, if_neg hEnd]
    rfl

/-- The converter is deselected and executes what it has heard. -/
theorem Hears.next_deselect (h : Hears m s false heard o c) (hReset : o'.getLsbD adsReset = true)
    (hSclk : o'.getLsbD spiSclk = s) (hCs : o'.getLsbD spiCs = true) :
    Hears (m.execute supply.defaults (Serial.bytes heard)) s true [] o' (c.next supply o') ∧
      (m.continuous = false → (m.execute supply.defaults (Serial.bytes heard)).continuous = true →
        Fresh supply 0 (c.next supply o')) ∧
      (m.continuous = true → Undisturbed 1 c (c.next supply o')) := by
  rw [Converter.next_deselected supply hReset hCs, Converter.deselect, Converter.tick_cs, h.cs,
    if_neg Bool.noConfusion, Converter.tick_heard, h.heard, Converter.execute, Converter.tick_mode,
    h.mode]
  dsimp only
  refine ⟨⟨hReset, hSclk, hCs, ?_, hSclk, hCs, rfl⟩, fun hBefore hAfter => ?_, fun hBefore => ?_⟩
  · show (ite _ _ _ : Converter).mode = _
    split <;> rfl
  · rw [hBefore, hAfter]
    exact ⟨rfl, rfl, rfl⟩
  · rw [hBefore, Bool.not_true, Bool.and_false, if_neg Bool.noConfusion]
    exact (Converter.tick_undisturbed supply _).of_eq rfl rfl rfl

/-- At power-up, whatever the converter was doing: it is deselected. -/
theorem hears_deselected (hReset : o'.getLsbD adsReset = true) (hCs : o'.getLsbD spiCs = true) :
    ∃ m s, Hears m s true [] o' (c.next supply o') := by
  rw [Converter.next_deselected supply hReset hCs]
  exact ⟨_, _, hReset, rfl, hCs, rfl, rfl, hCs, rfl⟩

end Next

end EnergyMeter.Daq
