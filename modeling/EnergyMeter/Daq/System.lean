import EnergyMeter.Daq.Delivery
import EnergyMeter.Daq.Readout
import EnergyMeter.Daq.Unpacking

/-!
# Acquisition pipeline — from the bus of the converter to the ARM

In `Daq.Model` PRU1 is two steps that publish a given stream. Here it is its program:
one instruction of PRU1 with the converter, one of PRU0, or one step of the ARM, in any
order.

* `System`, `System.step` — the three processors and the converter.
* `system_run_iff` — what PRU0 and the ARM can see of the runs of the system are the runs
  of the pipeline, no more and no less.
* `system_samples` — the samples that `ConvertRawValues` makes of a buffer are the codes
  of the converter, whichever way the steps of the three processors interleave.
-/

namespace EnergyMeter.Daq

open Lib Lib.PruIo Relation StateTransition
open Lib.Pru (Regs)

/-! ## The system -/

/-- PRU1 with its converter, and everything else. The fields of `rest` about PRU1 say what
it has handed over last. -/
structure System where
  pru1 : State Bench
  rest : Pipeline

/-- The scratch pad after `XOUT`. -/
def packetOf (words : List (BitVec 32)) : Packet := fun p =>
  ((words[p.val / 4]?).getD 0).extractLsb' (8 * (p.val % 4)) 8

/-- What PRU1 hands over, at the other side. -/
def Pipeline.receive (s : Pipeline) : Effect → Pipeline
  | .xout _ words =>
    { s with pc1 := .signal, scratch := packetOf words, published := s.published + 1 }
  | .event _ => { s with pc1 := .xout, evt18 := true }

namespace System

/-- One instruction of PRU1. -/
def pru1Step (supply : Supply) (channel : ℕ) (s : System) : Option System :=
  (PruIo.step (bench supply) (pru1Code channel) s.pru1).map fun t =>
    ⟨t, (t.dev.log.drop s.pru1.dev.log.length).foldl Pipeline.receive s.rest⟩

def step (supply : Supply) (channel : ℕ) (s : System) : Agent → Option System
  | .pru1 => s.pru1Step supply channel
  | .pru0 => (pru0Step s.rest).map fun rest => { s with rest := rest }
  | .arm => (armStep s.rest).map fun rest => { s with rest := rest }

/-- PRU1 begins with any registers, the converter in any state. -/
def init (regs : Regs) (c : Converter) (addr : ℕ) (mem : ℕ → Byte) : System where
  pru1 := ⟨0, regs, ⟨c, []⟩⟩
  rest := Daq.init addr mem

/-- The promises of `Daq.Model`: PRU1 comes to `XOUT` only after PRU0 has read the packet
before, PRU0 to its event only after the copies for those before it. -/
def InTime (channel : ℕ) (s : System) (a : Agent) : Prop :=
  (a = .pru1 → ∀ bank first len, pru1Code channel s.pru1.pc = some (.xout bank first len) →
    s.rest.xined = s.rest.published) ∧
  (a = .pru0 → ∀ h, s.rest.pc0 = .raise h → s.rest.copies.length = s.rest.raised)

end System

theorem packetOf_packetWords (p : Packet) : packetOf (packetWords p) = p := by
  funext i
  have hi : i.val < 100 := i.isLt
  have hWord : (packetWords p)[i.val / 4]? = some (p (Fin.ofNat pkgSize (4 * (i.val / 4) + 3)) ++
      p (Fin.ofNat pkgSize (4 * (i.val / 4) + 2)) ++ p (Fin.ofNat pkgSize (4 * (i.val / 4) + 1)) ++
      p (Fin.ofNat pkgSize (4 * (i.val / 4)))) := by
    rw [packetWords, List.getElem?_map, List.getElem?_range (by omega)]
    rfl
  have hByte := extractLsb'_word (fun k => p (Fin.ofNat pkgSize (4 * (i.val / 4) + k)))
    (Nat.mod_lt i.val (show 0 < 4 by decide))
  rw [packetOf, hWord, Option.getD_some]
  refine hByte.trans (congrArg p (Fin.ext ?_))
  show (4 * (i.val / 4) + i.val % 4) % 100 = i.val
  omega

/-! ## What PRU1 hands over -/

/-- Of the stream the effects are known by their number. -/
theorem publications_get (x : ℕ → Packet) {k n : ℕ} (hk : k < n) :
    (publications x n)[2 * k]? = some (.xout xfrBank0 (packetWords (x k))) ∧
      (publications x n)[2 * k + 1]? = some (.event (pruIntValid + pru1Pru0Interrupt)) := by
  induction n with
  | zero => omega
  | succ n ih =>
    have hSucc : publications x (n + 1) = publications x n ++ publication (x n) := by
      rw [publications, List.range_succ, List.flatMap_append, List.flatMap_singleton, publications]
    have hLen := length_publications x n
    rw [hSucc]
    rcases Nat.lt_succ_iff_lt_or_eq.mp hk with hlt | rfl
    · rw [List.getElem?_append_left (by omega), List.getElem?_append_left (by omega)]
      exact ih hlt
    · rw [List.getElem?_append_right (by omega), List.getElem?_append_right (by omega), hLen,
        Nat.sub_self, Nat.add_sub_cancel_left]
      exact ⟨rfl, rfl⟩

section Handover

variable {supply : Supply} {code : Code} {s t : State Bench}

/-- What one instruction hands over: nothing, or one effect. -/
inductive HandsOver (code : Code) (s t : State Bench) : Prop
  | silent (hLog : t.dev.log = s.dev.log)
      (hCode : ∀ bank first len, code s.pc ≠ some (.xout bank first len))
  | xout (bank len : ℕ) (first : Pru.Reg) (words : List (BitVec 32))
      (hCode : code s.pc = some (.xout bank first len))
      (hLog : t.dev.log = s.dev.log ++ [.xout bank words])
  | event (imm : ℕ) (hCode : code s.pc = some (.event imm))
      (hLog : t.dev.log = s.dev.log ++ [.event imm])

theorem step_handsOver (h : t ∈ PruIo.step (bench supply) code s) : HandsOver code s t := by
  obtain ⟨ins, hCode, hExec⟩ := Option.bind_eq_some_iff.mp (Option.mem_def.mp h)
  cases ins with
  | halt => cases hExec
  | event imm =>
    obtain rfl := Option.some.inj hExec
    exact .event imm hCode rfl
  | xout bank first len =>
    obtain rfl := Option.some.inj hExec
    exact .xout bank len first _ hCode rfl
  | core ins =>
    obtain rfl := Option.some.inj hExec
    exact .silent (idle_log supply _ _ _) fun _ _ _ hEq => by rw [hCode] at hEq; cases hEq
  | qbbs offset bit | jmp target =>
    obtain rfl := Option.some.inj hExec
    exact .silent rfl fun _ _ _ hEq => by rw [hCode] at hEq; cases hEq

end Handover

/-! ## The invariant -/

/-- Whether a packet is in the scratch pad that has not been signalled. -/
def Pc1.pending : Pc1 → ℕ
  | .xout => 0
  | .signal => 1

/-- PRU1 is where its program may be, and the other side has received what it has handed
over. -/
structure System.Inv (supply : Supply) (channel : ℕ) (regs : Regs) (c : Converter) (s : System) :
    Prop where
  run : Pru1Run supply channel regs c s.pru1
  received : s.pru1.dev.log.length + s.rest.pc1.pending = 2 * s.rest.published

section Refinement

variable {channel : ℕ} {regs : Regs} {c : Converter} {v : Conversions} {addr : ℕ}
  {mem : ℕ → Byte} {s s' : System} {t : State Bench}

/-- The stream that PRU1 publishes. -/
abbrev packetStream (v : Conversions) (regs : Regs) : ℕ → Packet := packets v.frames (regByte regs)

theorem init_received : System.Inv v.supply channel regs c (System.init regs c addr mem) where
  run := ReflTransGen.refl
  received := rfl

/-- What an instruction of PRU1 is to the pipeline: no step, or the one of its PRU1. -/
inductive Advances (x : ℕ → Packet) (channel : ℕ) (s : System) (t : State Bench) : System → Prop
  | silent (hLog : t.dev.log = s.pru1.dev.log)
      (hCode : ∀ bank first len, pru1Code channel s.pru1.pc ≠ some (.xout bank first len)) :
      Advances x channel s t ⟨t, s.rest⟩
  | publish (hLog : t.dev.log.length = s.pru1.dev.log.length + 1)
      (hCode : s.rest.pc1 = .xout ↔
        ∃ bank first len, pru1Code channel s.pru1.pc = some (.xout bank first len)) :
      Advances x channel s t ⟨t, Daq.pru1Step x s.rest⟩

theorem System.pru1_advances (hChannel : channel < 256)
    (hReset : (regs 30).getLsbD adsReset = true) (hSpaced : v.supply.Spaced)
    (h : System.Inv v.supply channel regs c s)
    (hStep : t ∈ PruIo.step (bench v.supply) (pru1Code channel) s.pru1) :
    ∃ s', s.pru1Step v.supply channel = some s' ∧ System.Inv v.supply channel regs c s' ∧
      Advances (packetStream v regs) channel s t s' := by
  have hRun : Pru1Run v.supply channel regs c t := h.run.tail hStep
  have hMove : s.pru1Step v.supply channel =
      some ⟨t, (t.dev.log.drop s.pru1.dev.log.length).foldl Pipeline.receive s.rest⟩ := by
    rw [System.pru1Step, Option.mem_def.mp hStep, Option.map_some]
  -- an effect is the next one of the stream
  obtain ⟨n, hPrefix⟩ := pru1_log_prefix hChannel hReset hSpaced hRun
  have hNext : ∀ e, t.dev.log = s.pru1.dev.log ++ [e] →
      s.pru1.dev.log.length < 2 * n ∧
        (publications (packetStream v regs) n)[s.pru1.dev.log.length]? = some e := by
    intro e hLog
    have hGet : t.dev.log[s.pru1.dev.log.length]? = some e := by
      rw [hLog, List.getElem?_concat_length]
    have hSome : (publications (packetStream v regs) n)[s.pru1.dev.log.length]? = some e := by
      obtain ⟨rest, hEq⟩ := hPrefix
      obtain ⟨hLt, -⟩ := List.getElem?_eq_some_iff.mp hGet
      rw [← hGet, ← hEq, List.getElem?_append_left hLt]
    refine ⟨?_, hSome⟩
    rw [← length_publications (packetStream v regs)]
    exact (List.getElem?_eq_some_iff.mp hSome).1
  have hReceived := h.received
  cases step_handsOver hStep with
  | silent hLog hCode =>
    rw [hLog, List.drop_length, List.foldl_nil] at hMove
    exact ⟨_, hMove, ⟨hRun, hLog ▸ h.received⟩, .silent hLog hCode⟩
  | xout bank len first words hCode hLog =>
    rw [hLog, List.drop_left, List.foldl_cons, List.foldl_nil] at hMove
    obtain ⟨hLt, hGet⟩ := hNext _ hLog
    cases hPc : s.rest.pc1 with
    | xout =>
      -- an even number has been handed over: this is the packet
      have hEven : s.pru1.dev.log.length = 2 * s.rest.published := by rwa [hPc] at hReceived
      rw [hEven, (publications_get _ (by omega)).1] at hGet
      obtain ⟨-, rfl⟩ := Effect.xout.inj (Option.some.inj hGet)
      have hRest : s.rest.receive (.xout bank (packetWords (packetStream v regs s.rest.published))) =
          Daq.pru1Step (packetStream v regs) s.rest := by
        rw [Pipeline.receive, packetOf_packetWords, Daq.pru1Step, hPc]
      rw [hRest] at hMove
      refine ⟨_, hMove, ⟨hRun, ?_⟩, .publish ?_ (iff_of_true hPc ⟨bank, first, len, hCode⟩)⟩
      · rw [hLog, Daq.pru1Step, hPc, List.length_append, List.length_singleton, hEven]
        show _ + 1 = 2 * (s.rest.published + 1)
        omega
      · rw [hLog, List.length_append, List.length_singleton]
    | signal =>
      have hOdd : s.pru1.dev.log.length + 1 = 2 * s.rest.published := by rwa [hPc] at hReceived
      have hIndex : s.pru1.dev.log.length = 2 * (s.rest.published - 1) + 1 := by omega
      rw [hIndex, (publications_get _ (by omega)).2] at hGet
      cases hGet
  | event imm hCode hLog =>
    rw [hLog, List.drop_left, List.foldl_cons, List.foldl_nil] at hMove
    obtain ⟨hLt, hGet⟩ := hNext _ hLog
    cases hPc : s.rest.pc1 with
    | xout =>
      have hEven : s.pru1.dev.log.length = 2 * s.rest.published := by rwa [hPc] at hReceived
      rw [hEven, (publications_get _ (by omega)).1] at hGet
      cases hGet
    | signal =>
      have hOdd : s.pru1.dev.log.length + 1 = 2 * s.rest.published := by rwa [hPc] at hReceived
      have hRest : s.rest.receive (.event imm) = Daq.pru1Step (packetStream v regs) s.rest := by
        rw [Pipeline.receive, Daq.pru1Step, hPc]
      rw [hRest] at hMove
      refine ⟨_, hMove, ⟨hRun, ?_⟩, .publish ?_ ⟨fun hXout => ?_, ?_⟩⟩
      · rw [hLog, Daq.pru1Step, hPc, List.length_append, List.length_singleton]
        exact hOdd
      · rw [hLog, List.length_append, List.length_singleton]
      · cases hPc.symm.trans hXout
      · rintro ⟨_, _, _, hOther⟩
        cases hCode.symm.trans hOther

/-- The other processors leave alone what PRU1 has handed over. -/
theorem System.Inv.other {rest : Pipeline} (h : System.Inv v.supply channel regs c s)
    (hPc : rest.pc1 = s.rest.pc1) (hPublished : rest.published = s.rest.published) :
    System.Inv v.supply channel regs c { s with rest := rest } :=
  ⟨h.run, by rw [hPc, hPublished]; exact h.received⟩

theorem pru0Step_handed {p p' : Pipeline} (hStep : pru0Step p = some p') :
    p'.pc1 = p.pc1 ∧ p'.published = p.published := by
  cases pru0Step_moves hStep <;> exact ⟨rfl, rfl⟩

theorem armStep_handed {p p' : Pipeline} (hStep : armStep p = some p') :
    p'.pc1 = p.pc1 ∧ p'.published = p.published := by
  cases armStep_moves hStep <;> exact ⟨rfl, rfl⟩

/-! ## Refinement -/

/-- A step of the system is a step of the pipeline, or none. -/
theorem System.step_refines (hChannel : channel < 256) (hReset : (regs 30).getLsbD adsReset = true)
    (hSpaced : v.supply.Spaced) {a : Agent} (h : System.Inv v.supply channel regs c s)
    (hGuard : System.InTime channel s a)
    (hStep : System.step v.supply channel s a = some s') :
    System.Inv v.supply channel regs c s' ∧
      (s'.rest = s.rest ∨
        ∃ b, Daq.InTime s.rest b ∧ Daq.step (packetStream v regs) s.rest b = some s'.rest) := by
  cases a with
  | pru1 =>
    obtain ⟨t, hMove, -⟩ := Option.map_eq_some_iff.mp hStep
    obtain ⟨s₁, hStep₁, hInv, hAdvances⟩ := pru1_advances hChannel hReset hSpaced h hMove
    obtain rfl := Option.some.inj (hStep₁.symm.trans hStep)
    refine ⟨hInv, ?_⟩
    -- an instruction that hands nothing over is not seen
    cases hAdvances with
    | silent => exact .inl rfl
    | publish hLog hCode =>
      refine .inr ⟨.pru1, ⟨fun _ hXout => ?_, nofun⟩, rfl⟩
      obtain ⟨bank, first, len, hNext⟩ := hCode.mp hXout
      exact hGuard.1 rfl bank first len hNext
  | pru0 =>
    obtain ⟨rest, hRest, rfl⟩ := Option.map_eq_some_iff.mp hStep
    obtain ⟨hPc, hPublished⟩ := pru0Step_handed hRest
    exact ⟨h.other hPc hPublished, .inr ⟨.pru0, ⟨nofun, hGuard.2⟩, hRest⟩⟩
  | arm =>
    obtain ⟨rest, hRest, rfl⟩ := Option.map_eq_some_iff.mp hStep
    obtain ⟨hPc, hPublished⟩ := armStep_handed hRest
    exact ⟨h.other hPc hPublished, .inr ⟨.arm, ⟨nofun, nofun⟩, hRest⟩⟩

/-- The step of PRU1 in the pipeline is some instructions of the program. -/
theorem System.pru1_reaches (hChannel : channel < 256) (hReset : (regs 30).getLsbD adsReset = true)
    (hSpaced : v.supply.Spaced) (h : System.Inv v.supply channel regs c s)
    (hGuard : Daq.InTime s.rest .pru1) :
    ∃ s', Run (System.step v.supply channel) (System.InTime channel) s s' ∧
      System.Inv v.supply channel regs c s' ∧ s'.rest = Daq.pru1Step (packetStream v regs) s.rest := by
  -- the run of PRU1 comes to a state behind the next effect
  obtain ⟨u, hu, hLonger⟩ : ∃ u, Reaches (PruIo.step (bench v.supply) (pru1Code channel)) s.pru1 u ∧
      s.pru1.dev.log.length < u.dev.log.length := by
    obtain ⟨u, hRun, hLog⟩ :=
      pru1_reaches_publications hChannel hReset c hSpaced (s.pru1.dev.log.length + 1)
    have hLen : u.dev.log.length = 2 * (s.pru1.dev.log.length + 1) := by
      rw [hLog, length_publications]
    refine ⟨u, (reaches_total h.run hRun).resolve_right fun hBack => ?_, by omega⟩
    have hLe := (reaches_log _ hBack).length_le
    omega
  -- until then its instructions are no steps of the pipeline
  generalize hFrom : s.pru1 = p at hu
  induction hu using ReflTransGen.head_induction_on generalizing s with
  | refl => exact absurd hLonger (hFrom ▸ lt_irrefl _)
  | head hStep _ ih =>
    subst hFrom
    obtain ⟨s₁, hMove, hInv, hAdvances⟩ := pru1_advances hChannel hReset hSpaced h hStep
    have hAllowed : System.InTime channel s .pru1 := by
      refine ⟨fun _ bank first len hNext => ?_, nofun⟩
      cases hAdvances with
      | silent _ hCode => exact absurd hNext (hCode bank first len)
      | publish _ hCode => exact hGuard.1 rfl (hCode.mpr ⟨bank, first, len, hNext⟩)
    have hRun : Run (System.step v.supply channel) (System.InTime channel) s s₁ :=
      Run.single (a := .pru1) hAllowed hMove
    cases hAdvances with
    | silent hLog _ =>
      obtain ⟨s', hRun', hInv', hRest⟩ := ih hInv hGuard (hLog ▸ hLonger) rfl
      exact ⟨s', hRun.trans hRun', hInv', hRest⟩
    | publish _ _ => exact ⟨_, hRun, hInv, rfl⟩

/-- A run in time of the system is one of the pipeline. -/
theorem system_refines (hChannel : channel < 256) (hReset : (regs 30).getLsbD adsReset = true)
    (hSpaced : v.supply.Spaced)
    (h : Run (System.step v.supply channel) (System.InTime channel) (System.init regs c addr mem) s) :
    Run (Daq.step (packetStream v regs)) Daq.InTime (Daq.init addr mem) s.rest :=
  (h.simulate System.rest init_received fun _ _ _ hInv hGuard hStep =>
    System.step_refines hChannel hReset hSpaced hInv hGuard hStep).2

/-- And every run in time of the pipeline is there. -/
theorem system_lifts (hChannel : channel < 256) (hReset : (regs 30).getLsbD adsReset = true)
    (hSpaced : v.supply.Spaced) (c : Converter) {p : Pipeline}
    (h : Run (Daq.step (packetStream v regs)) Daq.InTime (Daq.init addr mem) p) :
    ∃ s, Run (System.step v.supply channel) (System.InTime channel) (System.init regs c addr mem) s ∧
      System.Inv v.supply channel regs c s ∧ s.rest = p := by
  induction h with
  | refl => exact ⟨_, Run.refl, init_received, rfl⟩
  | @tail p p' a _ hGuard hStep ih =>
    obtain ⟨s, hSystem, hInv, rfl⟩ := ih
    -- the other two step in the system as they do in the pipeline
    cases a with
    | pru1 =>
      obtain ⟨s', hRun', hInv', hRest⟩ := System.pru1_reaches hChannel hReset hSpaced hInv hGuard
      exact ⟨s', hSystem.trans hRun', hInv', hRest.trans (Option.some.inj hStep)⟩
    | pru0 =>
      obtain ⟨hPc, hPublished⟩ := pru0Step_handed hStep
      refine ⟨{ s with rest := p' }, hSystem.tail (a := .pru0) ⟨nofun, hGuard.2⟩ ?_,
        hInv.other hPc hPublished, rfl⟩
      exact Option.map_eq_some_iff.mpr ⟨p', hStep, rfl⟩
    | arm =>
      obtain ⟨hPc, hPublished⟩ := armStep_handed hStep
      refine ⟨{ s with rest := p' }, hSystem.tail (a := .arm) ⟨nofun, nofun⟩ ?_,
        hInv.other hPc hPublished, rfl⟩
      exact Option.map_eq_some_iff.mpr ⟨p', hStep, rfl⟩

end Refinement

section Results

variable {channel : ℕ} {regs : Regs}

/-- **Refinement, both ways.** What PRU0, the ARM and the memory go through in the runs in
time of the system is what they go through in the runs in time of the pipeline, fed with
the packets that PRU1 makes of the frames of the converter, where no conversion takes
less than PRU1 with a frame. -/
theorem system_run_iff (hChannel : channel < 256) (hReset : (regs 30).getLsbD adsReset = true)
    (c : Converter) {v : Conversions} (hSpaced : v.supply.Spaced) (addr : ℕ) (mem : ℕ → Byte)
    (p : Pipeline) :
    Run (Daq.step (packets v.frames (regByte regs))) Daq.InTime (Daq.init addr mem) p ↔
      ∃ s, Run (System.step v.supply channel) (System.InTime channel)
          (System.init regs c addr mem) s ∧ s.rest = p := by
  constructor
  · intro h
    obtain ⟨s, hRun, -, hRest⟩ := system_lifts hChannel hReset hSpaced c h
    exact ⟨s, hRun, hRest⟩
  · rintro ⟨s, hRun, rfl⟩
    exact system_refines hChannel hReset hSpaced hRun

theorem system_run_iff_counted :
    ∃ p s, p.copies.length = 2 ∧
      Run (Daq.step (packets counted.frames (regByte released))) Daq.InTime (Daq.init 0 fun _ => 0)
        p ∧
      Run (System.step counted.supply (chGain1 + chNormal)) (System.InTime (chGain1 + chNormal))
        (System.init released (powerUp fun _ => 0) 0 fun _ => 0) s ∧ s.rest = p := by
  obtain ⟨p, hRun, hReady⟩ := inTime_copies (packetStream counted released) 0 (fun _ => 0) 2
  obtain ⟨s, hSystem, hRest⟩ := (system_run_iff (show chGain1 + chNormal < 256 by decide) (by decide)
    (powerUp fun _ => 0) counted_spaced 0 (fun _ => 0) p).mp hRun
  exact ⟨p, s, hReady.copies, hRun, hSystem, hRest⟩

/-- The bytes that `ConvertRawValues` takes together are a code of the converter. -/
theorem system_valueAt (hChannel : channel < 256) (hReset : (regs 30).getLsbD adsReset = true)
    {c : Converter} {v : Conversions} (hSpaced : v.supply.Spaced) {addr : ℕ} {mem : ℕ → Byte}
    {s : System}
    (h : Run (System.step v.supply channel) (System.InTime channel) (System.init regs c addr mem) s)
    {e : ℕ} {d : Copied} (hd : s.rest.copies[e]? = some d) {R F : Type} [Field R] (single : R → F)
    (double : F → R) (k : Fin 8) {i : ℕ} (hi : i < 15360) :
    valueAt single double d.data k i =
      sampleValue single double ((v.frames (15360 * e + i)).code k).toInt := by
  have hRun := system_refines hChannel hReset hSpaced h
  have hStep : ∀ u a u', Daq.Inv (packetStream v regs) u → Daq.InTime u a →
      Daq.step (packetStream v regs) u a = some u' → Daq.Inv (packetStream v regs) u' :=
    fun u a u' hInv hGuard hs => step_inv hInv hGuard.1 hs
  have hTime : Run (Daq.step (packetStream v regs)) OnTime (Daq.init addr mem) s.rest :=
    hRun.mono_of_invariant (init_inv addr mem) hStep fun _ _ => InTime.onTime
  have hDel : Delivered (packetStream v regs) 0 e d :=
    onTime_delivered (init_inv addr mem) hTime (Nat.zero_le e) hd
  -- the three bytes of a code are in the buffer
  have hByte : ∀ l < 3, d.data (offset i k + l) = msbByte ((v.frames (15360 * e + i)).code k) l := by
    intro l hl
    have hInside : offset i k + l < 384000 := by
      refine (read_inside k.isLt hi ?_).1
      omega
    rw [hDel.data Even.zero _ hInside, Nat.zero_add, byteAt_offset v.frames (regByte regs) e k hl]
  have h0 := hByte 0 (by decide)
  have h1 := hByte 1 (by decide)
  have h2 := hByte 2 (by decide)
  rw [Nat.add_zero] at h0
  rw [valueAt, h0, h1, h2, sign_extension]

/-- **From the bus to the samples.** In a run in time of the system, where no conversion
takes less than PRU1 with a frame, buffer number `e` that `DAQ_Run` returns gives, channel
by channel, the codes of the frames `15360 * e` to `15360 * e + 15359` of the converter,
whichever way the instructions of the processors and the bytes that they store and copy
interleave. -/
theorem system_samples (hChannel : channel < 256) (hReset : (regs 30).getLsbD adsReset = true)
    {c : Converter} {v : Conversions} (hSpaced : v.supply.Spaced) {addr : ℕ} {mem : ℕ → Byte}
    {s : System}
    (h : Run (System.step v.supply channel) (System.InTime channel) (System.init regs c addr mem) s)
    {e : ℕ} {d : Copied} (hd : s.rest.copies[e]? = some d) {R F : Type} [Field R] (single : R → F)
    (double : F → R) (chData : ℕ → ℕ → F) :
    ∀ k : Fin 8, ∀ i < 15360, (convertRawValues single double d.data 8 chData).chData k i =
      sampleValue single double ((v.frames (15360 * e + i)).code k).toInt := by
  intro k i hi
  have hSpec : Unpacked single double d.data 8 15360 0
      (convertRawValues single double d.data 8 chData) :=
    convertRawValues_spec (by decide) chData
  rw [hSpec.values k i (.inl ⟨k.isLt, hi⟩),
    system_valueAt hChannel hReset hSpaced h hd single double k hi]

theorem system_samples_counted :
    ∃ s d, Run (System.step counted.supply (chGain1 + chNormal)) (System.InTime (chGain1 + chNormal))
        (System.init released (powerUp fun _ => 0) 0 fun _ => 0) s ∧
      s.rest.copies[1]? = some d ∧
      ∀ k : Fin 8, ∀ i < 15360,
        (convertRawValues (id : ℚ → ℚ) id d.data 8 fun _ _ => 0).chData k i =
          sampleValue id id ((counted.frames (15360 * 1 + i)).code k).toInt := by
  obtain ⟨p, hRun, hReady⟩ := inTime_copies (packetStream counted released) 0 (fun _ => 0) 2
  obtain ⟨s, hSystem, -, rfl⟩ := system_lifts
    (show chGain1 + chNormal < 256 by decide) (by decide) counted_spaced (powerUp fun _ => 0) hRun
  have hLen : 1 < s.rest.copies.length := by
    rw [hReady.copies]
    decide
  have hd := List.getElem?_eq_getElem hLen
  exact ⟨s, _, hSystem, hd, system_samples (by decide) (by decide) counted_spaced hSystem hd id id _⟩

end Results

end EnergyMeter.Daq
