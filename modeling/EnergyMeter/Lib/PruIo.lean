import EnergyMeter.Lib.Pru
import Mathlib.Algebra.GroupWithZero.Nat

/-!
# A PRU among other devices

The instructions of `Lib.Pru` together with those that reach outside: `r31` reads
the input pins, a store into it raises an event, `XOUT` copies registers to the
scratch pad. What is outside, a device, sees the output pins `r30` after every
instruction, as often as the instruction takes time.

* `Instruction`, `step` — the instructions and the run of both sides.
* `Triple` — total correctness of a piece of code wherever it stands, with the device
  in the assertions; one rule for each way to put pieces together.
* `Triple.quiet`, `Triple.lasts` — what is proved about code without `r31` and `r30`
  holds here, while the device sees the same pins for some time, or for a known one.
-/

namespace EnergyMeter.Lib.PruIo

open Relation StateTransition Pru

/-! ## Instructions -/

inductive Instruction
  | core (ins : Instr)
  /-- `QBBS offset, r31, bit`. -/
  | qbbs (offset : ℤ) (bit : ℕ)
  /-- `JMP` to a label. -/
  | jmp (target : ℕ)
  /-- `LDI r31.b0, imm`. -/
  | event (imm : ℕ)
  /-- `XOUT bank, &first, 4 * len`. -/
  | xout (bank : ℕ) (first : Reg) (len : ℕ)
  | halt

/-- `WBC r31, bit`: a branch to itself while the bit is set. -/
def wbc (bit : ℕ) : Instruction := .qbbs 0 bit

/-- What an instruction hands to the outside besides the pins. -/
inductive Effect
  | event (imm : ℕ)
  | xout (bank : ℕ) (words : List (BitVec 32))

/-- The other side: what it drives `r31` to, how it goes on while it sees `r30`, and
what it does with an effect. -/
structure Device (D : Type*) where
  pins : D → BitVec 32
  clock : D → BitVec 32 → D
  emit : D → Effect → D

structure State (D : Type*) where
  pc : ℕ
  reg : Regs
  dev : D

abbrev Code := ℕ → Option Instruction

section Step

variable {D : Type*} (device : Device D)

@[instance] theorem regs_neZero : NeZero 31 := ⟨by decide⟩

/-- The device sees the pins for some time. -/
def Device.idle (pins : BitVec 32) (n : ℕ) (d : D) : D := (fun d => device.clock d pins)^[n] d

/-- The device sees the pins after the instruction. -/
def State.seen (pc : ℕ) (reg : Regs) (dev : D) : State D := ⟨pc, reg, device.clock dev (reg 30)⟩

def Instruction.exec (s : State D) : Instruction → Option (State D)
  | core ins =>
    let t := ins.exec ⟨s.pc, s.reg⟩
    some ⟨t.pc, t.reg, device.idle (t.reg 30) ins.cycles s.dev⟩
  | qbbs offset bit =>
    let pc := if (device.pins s.dev).getLsbD bit then (s.pc + offset).toNat else s.pc + 1
    some (.seen device pc s.reg s.dev)
  | jmp target => some (.seen device target s.reg s.dev)
  | event imm => some (.seen device (s.pc + 1) s.reg (device.emit s.dev (.event imm)))
  | xout bank first len =>
    let words := (List.range len).map fun i => s.reg (first + Fin.ofNat 31 i)
    some (.seen device (s.pc + 1) s.reg (device.emit s.dev (.xout bank words)))
  | halt => none

/-- One instruction. -/
def step (code : Code) (s : State D) : Option (State D) := (code s.pc).bind (Instruction.exec device s)

variable {device}

theorem Device.idle_succ (pins : BitVec 32) (n : ℕ) (d : D) :
    device.idle pins (n + 1) d = device.clock (device.idle pins n d) pins :=
  Function.iterate_succ_apply' _ _ _

theorem Device.idle_add (pins : BitVec 32) (n m : ℕ) (d : D) :
    device.idle pins (n + m) d = device.idle pins m (device.idle pins n d) := by
  rw [Device.idle, Nat.add_comm, Function.iterate_add_apply]
  rfl

/-- What one instruction is to an indexed assertion, some are. -/
theorem Device.idle_rule {pins : BitVec 32} {I : ℕ → D → Prop} {d : D} (h : I 0 d)
    (hClock : ∀ n d, I n d → I (n + 1) (device.clock d pins)) (n : ℕ) : I n (device.idle pins n d) := by
  induction n with
  | zero => exact h
  | succ n ih =>
    rw [Device.idle_succ]
    exact hClock _ _ ih

variable (device)

theorem mem_step {code : Code} {ins : Instruction} {s t : State D} (hCode : code s.pc = some ins)
    (hExec : ins.exec device s = some t) : t ∈ step device code s := by
  rw [step, hCode]
  exact hExec

end Step

/-! ## Pins -/

/-- `pins` with one of them driven to `level`. -/
def drive (pins : BitVec 32) (b : ℕ) (level : Bool) : BitVec 32 :=
  if level then pins ||| BitVec.twoPow 32 b else pins &&& ~~~BitVec.twoPow 32 b

section Drive

variable {pins : BitVec 32} {b i : ℕ} {level : Bool}

theorem drive_self (hb : b < 32) : (drive pins b level).getLsbD b = level := by
  cases level <;> simp [drive, hb]

theorem drive_of_ne (hi : i ≠ b) : (drive pins b level).getLsbD i = pins.getLsbD i := by
  cases level with
  | true => exact or_twoPow_bit hi
  | false => exact and_not_twoPow_bit hi

/-- A field with one bit driven. -/
theorem put_drive {f : Field} {reg : Regs} (hb : b < f.len) (hi : i < 32) :
    (f.put reg (drive (f.get reg) b level) f.reg).getLsbD i =
      if i = f.off + b then level else (reg f.reg).getLsbD i := by
  rw [Field.put_bit f reg _ hi]
  by_cases hIn : f.off ≤ i ∧ i < f.off + f.len
  · rw [if_pos hIn]
    split_ifs with hEq
    · rw [hEq, Nat.add_sub_cancel_left]
      exact drive_self (by omega)
    · rw [drive_of_ne (by omega), Field.get_bit, Nat.add_sub_cancel' hIn.1,
        decide_eq_true (by omega), Bool.true_and]
  · rw [if_neg hIn, if_neg (by omega)]

/-- A field depends on its own bits. -/
theorem get_congr {f : Field} {reg reg' : Regs}
    (h : ∀ i < f.len, (reg f.reg).getLsbD (f.off + i) = (reg' f.reg).getLsbD (f.off + i)) :
    f.get reg = f.get reg' := by
  refine BitVec.eq_of_getLsbD_eq fun i _ => ?_
  rw [Field.get_bit, Field.get_bit]
  by_cases hi : i < f.len
  · rw [h i hi]
  · rw [decide_eq_false hi, Bool.false_and, Bool.false_and]

theorem within_drive {scratch : List Reg} {bits : List ℕ} {reg₀ reg : Regs}
    (h : Within scratch 30 bits reg₀ reg) (hb : b ∈ bits) :
    Within scratch 30 bits reg₀ (Function.update reg 30 (drive (reg 30) b level)) where
  regs x hx hne := by rw [Function.update_of_ne hne, h.regs x hx hne]
  bits i hi := by
    have hne : i ≠ b := fun hEq => hi (hEq ▸ hb)
    rw [Function.update_self, drive_of_ne hne, h.bits i hi]

end Drive

/-! ## Pieces of code -/

/-- `xs` stands at address `a`. Addresses have 16 bits, the one behind `xs` too. -/
structure At (code : Code) (a : ℕ) (xs : List Instruction) : Prop where
  fits : a + xs.length < 2 ^ 16
  get : ∀ i ins, xs[i]? = some ins → code (a + i) = some ins

namespace At

variable {code : Code} {a : ℕ} {ins : Instruction} {xs ys : List Instruction}

theorem left (h : At code a (xs ++ ys)) : At code a xs where
  fits := by
    have hFits := h.fits
    rw [List.length_append] at hFits
    omega
  get i ins hi := by
    obtain ⟨hLt, -⟩ := List.getElem?_eq_some_iff.mp hi
    exact h.get i ins (by rwa [List.getElem?_append_left hLt])

theorem right (h : At code a (xs ++ ys)) : At code (a + xs.length) ys where
  fits := by
    have hFits := h.fits
    rw [List.length_append] at hFits
    omega
  get i ins hi := by
    rw [Nat.add_assoc]
    refine h.get _ ins ?_
    rwa [List.getElem?_append_right (Nat.le_add_right _ _), Nat.add_sub_cancel_left]

theorem head (h : At code a (ins :: xs)) : code a = some ins := h.get 0 ins rfl

theorem tail (h : At code a (ins :: xs)) : At code (a + 1) xs := by
  rw [← List.singleton_append] at h
  exact h.right

/-- A part of a text stands where the part in front of it ends. -/
theorem of_text {text xs zs : List Instruction} (hText : text = xs ++ ys ++ zs)
    (ha : xs.length = a) (hFits : text.length < 2 ^ 16) : At (fun i => text[i]?) a ys where
  fits := by
    rw [hText, List.length_append, List.length_append] at hFits
    omega
  get i ins hi := by
    obtain ⟨hLt, -⟩ := List.getElem?_eq_some_iff.mp hi
    rw [hText, ← ha, List.append_assoc, List.getElem?_append_right (Nat.le_add_right _ _),
      Nat.add_sub_cancel_left, List.getElem?_append_left hLt, hi]

end At

/-! ## Triples -/

section Triple

variable {D : Type*} {device : Device D} {code : Code}

/-- From the first instruction of `xs`, where `P` holds, the run of both sides goes to
the end of `xs`, and there `Q` holds. -/
def Triple (device : Device D) (code : Code) (xs : List Instruction) (P Q : Regs → D → Prop) : Prop :=
  ∀ a reg d, At code a xs → P reg d →
    ∃ reg' d', Reaches (step device code) ⟨a, reg, d⟩ ⟨a + xs.length, reg', d'⟩ ∧ Q reg' d'

namespace Triple

variable {xs ys : List Instruction} {P P' Q Q' R : Regs → D → Prop}

theorem pre (h : Triple device code xs P Q) (hP : ∀ reg d, P' reg d → P reg d) :
    Triple device code xs P' Q :=
  fun a reg d hAt hPre => h a reg d hAt (hP reg d hPre)

theorem post (h : Triple device code xs P Q) (hQ : ∀ reg d, Q reg d → Q' reg d) :
    Triple device code xs P Q' := by
  intro a reg d hAt hPre
  obtain ⟨reg', d', hRun, hPost⟩ := h a reg d hAt hPre
  exact ⟨reg', d', hRun, hQ _ _ hPost⟩

/-- The state before may be named. -/
theorem ghost (h : ∀ reg₀ d₀, P reg₀ d₀ →
      Triple device code xs (fun reg d => reg = reg₀ ∧ d = d₀) Q) : Triple device code xs P Q :=
  fun a reg d hAt hPre => h reg d hPre a reg d hAt ⟨rfl, rfl⟩

theorem exists_pre {α : Type*} {P : α → Regs → D → Prop} (h : ∀ x, Triple device code xs (P x) Q) :
    Triple device code xs (fun reg d => ∃ x, P x reg d) Q :=
  fun a reg d hAt ⟨x, hPre⟩ => h x a reg d hAt hPre

theorem nil (h : ∀ reg d, P reg d → Q reg d) : Triple device code [] P Q :=
  fun _ reg d _ hPre => ⟨reg, d, ReflTransGen.refl, h reg d hPre⟩

theorem append (h : Triple device code xs P Q) (h' : Triple device code ys Q R) :
    Triple device code (xs ++ ys) P R := by
  intro a reg d hAt hPre
  obtain ⟨mid, e, hRun, hMid⟩ := h a reg d hAt.left hPre
  obtain ⟨reg', d', hRun', hPost⟩ := h' _ mid e hAt.right hMid
  rw [List.length_append, ← Nat.add_assoc]
  exact ⟨reg', d', hRun.trans hRun', hPost⟩

theorem cons {ins : Instruction} (h : Triple device code [ins] P Q)
    (h' : Triple device code xs Q R) : Triple device code (ins :: xs) P R := by
  rw [← List.singleton_append]
  exact h.append h'

/-- Pieces for the members of a list, with an assertion for every prefix. -/
theorem flatMap {α : Type*} {f : α → List Instruction} (I : List α → Regs → D → Prop) (l : List α)
    (h : ∀ done a rest, l = done ++ a :: rest →
      Triple device code (f a) (I done) (I (done ++ [a]))) :
    Triple device code (l.flatMap f) (I []) (I l) := by
  have hRest : ∀ rest done, l = done ++ rest →
      Triple device code (rest.flatMap f) (I done) (I l) := by
    intro rest
    induction rest with
    | nil =>
      intro done hl
      rw [hl, List.append_nil]
      exact nil fun _ _ => id
    | cons a rest ih =>
      intro done hl
      exact (h done a rest hl).append (ih (done ++ [a]) (by rw [hl, List.append_assoc]; rfl))
  exact hRest l [] rfl

/-- An instruction that goes on to the next one. -/
theorem op {ins : Instr} {g : Regs → Regs} (hExec : ∀ s, ins.exec s = s.next (g s.reg))
    (h : ∀ reg d, P reg d → Q (g reg) (device.idle (g reg 30) ins.cycles d)) :
    Triple device code [.core ins] P Q := by
  intro a reg d hAt hPre
  refine ⟨g reg, _, ReflTransGen.single (mem_step device hAt.head ?_), h reg d hPre⟩
  rw [Instruction.exec, hExec]
  rfl

theorem event {imm : ℕ}
    (h : ∀ reg d, P reg d → Q reg (device.clock (device.emit d (.event imm)) (reg 30))) :
    Triple device code [.event imm] P Q :=
  fun _ reg d hAt hPre =>
    ⟨reg, _, ReflTransGen.single (mem_step device hAt.head rfl), h reg d hPre⟩

theorem xout {bank len : ℕ} {first : Reg}
    (h : ∀ reg d, P reg d → Q reg (device.clock (device.emit d (.xout bank
      ((List.range len).map fun i => reg (first + Fin.ofNat 31 i)))) (reg 30))) :
    Triple device code [.xout bank first len] P Q :=
  fun _ reg d hAt hPre =>
    ⟨reg, _, ReflTransGen.single (mem_step device hAt.head rfl), h reg d hPre⟩

section Bits

variable {f : Field} {b : ℕ}

/-- `SET` and `CLR` of a field on itself. -/
theorem setField (h : ∀ reg d, P reg d → Q (f.put reg (drive (f.get reg) b true))
      (device.clock d (f.put reg (drive (f.get reg) b true) 30))) :
    Triple device code [.core (.set f f b)] P Q :=
  op (g := fun reg => f.put reg (drive (f.get reg) b true)) (fun _ => rfl) h

theorem clrField (h : ∀ reg d, P reg d → Q (f.put reg (drive (f.get reg) b false))
      (device.clock d (f.put reg (drive (f.get reg) b false) 30))) :
    Triple device code [.core (.clr f f b)] P Q :=
  op (g := fun reg => f.put reg (drive (f.get reg) b false)) (fun _ => rfl) h

/-- `SET` and `CLR` on the output pins. -/
theorem set (h : ∀ reg d, P reg d →
      Q (Function.update reg 30 (drive (reg 30) b true)) (device.clock d (drive (reg 30) b true))) :
    Triple device code [.core (.set (Reg.word 30) (Reg.word 30) b)] P Q := by
  refine setField fun reg d hPre => ?_
  rw [Reg.word_get, Reg.word_put, Function.update_self]
  exact h reg d hPre

theorem clr (h : ∀ reg d, P reg d →
      Q (Function.update reg 30 (drive (reg 30) b false)) (device.clock d (drive (reg 30) b false))) :
    Triple device code [.core (.clr (Reg.word 30) (Reg.word 30) b)] P Q := by
  refine clrField fun reg d hPre => ?_
  rw [Reg.word_get, Reg.word_put, Function.update_self]
  exact h reg d hPre

end Bits

/-- `WBC`: a rank falls with every round until the device releases the pin. -/
theorem wbc {bit : ℕ} (rank : D → ℕ)
    (hWait : ∀ reg d, P reg d → (device.pins d).getLsbD bit = true →
      P reg (device.clock d (reg 30)) ∧ rank (device.clock d (reg 30)) < rank d)
    (hGo : ∀ reg d, P reg d → (device.pins d).getLsbD bit = false →
      Q reg (device.clock d (reg 30))) :
    Triple device code [PruIo.wbc bit] P Q := by
  intro a reg d hAt hPre
  -- the device comes closer to the release with every round of the wait
  induction hn : rank d using Nat.strong_induction_on generalizing d with
  | _ n ih =>
    cases hPin : (device.pins d).getLsbD bit with
    | true =>
      obtain ⟨hNext, hLt⟩ := hWait reg d hPre hPin
      obtain ⟨reg', d', hRun, hPost⟩ := ih _ (hn ▸ hLt) _ hNext rfl
      refine ⟨reg', d', ReflTransGen.head (mem_step device hAt.head ?_) hRun, hPost⟩
      simp only [PruIo.wbc, Instruction.exec, hPin, if_true, add_zero, Int.toNat_natCast]
      rfl
    | false =>
      refine ⟨reg, _, ReflTransGen.single (mem_step device hAt.head ?_), hGo reg d hPre hPin⟩
      simp only [PruIo.wbc, Instruction.exec, hPin, Bool.false_eq_true, if_false]
      rfl

end Triple

/-! ### Branches -/

/-- A branch over `ys` if `test` holds of the registers and the device. -/
structure Branches (device : Device D) (ins : Instruction) (offset : ℤ) (test : Regs → D → Bool) :
    Prop where
  exec : ∀ s : State D, ins.exec device s =
    some (.seen device (if test s.reg s.dev then (s.pc + offset).toNat else s.pc + 1) s.reg s.dev)

theorem Branches.qbbs (offset : ℤ) (bit : ℕ) :
    Branches device (.qbbs offset bit) offset fun _ d => (device.pins d).getLsbD bit :=
  ⟨fun _ => rfl⟩

theorem Branches.field (offset : ℤ) (f : Field) (bit : ℕ) :
    Branches device (.core (.qbbs offset f bit)) offset fun reg _ => (f.get reg).getLsbD bit := by
  constructor
  intro s
  simp only [Instruction.exec, Instr.exec, Pru.State.branch, Pru.State.next]
  split <;> rfl

/-- A branch over `ys` and the branch behind it over `xs`: `ys` without the bit, `xs`
with it. -/
theorem Triple.ite {ins : Instruction} {xs ys : List Instruction} {test : Regs → D → Bool}
    {P P₀ P₁ Q R : Regs → D → Prop} (hIns : Branches device ins (ys.length + 2) test)
    (hFalse : ∀ reg d, P reg d → test reg d = false → P₀ reg (device.clock d (reg 30)))
    (hTrue : ∀ reg d, P reg d → test reg d = true → P₁ reg (device.clock d (reg 30)))
    (hElse : Triple device code ys P₀ R) (hOver : ∀ reg d, R reg d → Q reg (device.clock d (reg 30)))
    (hThen : Triple device code xs P₁ Q) :
    Triple device code (ins :: ys ++ .core (.qba (xs.length + 1)) :: xs) P Q := by
  intro a reg d hAt hPre
  have hEnd : a + (ins :: ys ++ .core (.qba (xs.length + 1)) :: xs).length =
      a + ys.length + xs.length + 2 := by
    simp only [List.length_append, List.length_cons]
    omega
  rw [hEnd]
  cases hTest : test reg d with
  | false =>
    obtain ⟨reg', d', hRun, hR⟩ := hElse _ reg _ hAt.left.tail (hFalse reg d hPre hTest)
    refine ⟨reg', _, ReflTransGen.head (mem_step device hAt.left.head ?_) (hRun.tail ?_),
      hOver reg' d' hR⟩
    · rw [hIns.exec, hTest]
      rfl
    -- behind `ys` the branch leads over `xs`
    · have hCode : code (a + 1 + ys.length) = some (.core (.qba (xs.length + 1))) := by
        rw [← hAt.right.head, List.length_cons, Nat.add_comm ys.length, Nat.add_assoc]
      refine mem_step device (s := ⟨a + 1 + ys.length, reg', d'⟩) hCode ?_
      simp only [Instruction.exec, Instr.exec, Pru.State.branch, if_true]
      congr 2
      omega
  | true =>
    obtain ⟨reg', d', hRun, hQ⟩ := hThen _ reg _ hAt.right.tail (hTrue reg d hPre hTest)
    have hTaken : ins.exec device ⟨a, reg, d⟩ =
        some ⟨a + (ins :: ys).length + 1, reg, device.clock d (reg 30)⟩ := by
      rw [hIns.exec, hTest]
      rfl
    have hStop : a + (ins :: ys).length + 1 + xs.length = a + ys.length + xs.length + 2 := by
      rw [List.length_cons]
      omega
    rw [hStop] at hRun
    exact ⟨reg', d', ReflTransGen.head (mem_step device hAt.left.head hTaken) hRun, hQ⟩

/-! ### Subroutines -/

/-- A subroutine `xs` behind which `JMP` takes the return address that `JAL` has left
in `f`. -/
theorem Triple.call {f : Field} {target : ℕ} {xs : List Instruction} {P Q : Regs → D → Prop}
    {P' Q' : BitVec 32 → Regs → D → Prop}
    (hAt : At code target (xs ++ [.core (.jmp f)])) (hField : f.off + f.len ≤ 32)
    (hLen : 16 ≤ f.len)
    (hPre : ∀ ret reg d, P reg d →
      P' ret (f.put reg ret) (device.clock d (f.put reg ret 30)))
    (h : ∀ ret, Triple device code xs (fun reg d => P' ret reg d ∧ f.get reg = ret)
      (fun reg d => Q' ret reg d ∧ f.get reg = ret))
    (hPost : ∀ ret reg d, Q' ret reg d → Q reg (device.clock d (reg 30))) :
    Triple device code [.core (.jal f target)] P Q := by
  intro a reg d hCall hP
  -- the return address fits in the field
  have hFits : a + 1 < 2 ^ 16 := hCall.fits
  have hNat : (BitVec.ofNat 32 (a + 1)).toNat = a + 1 :=
    (BitVec.toNat_ofNat _ _).trans (Nat.mod_eq_of_lt (hFits.trans (by decide)))
  have hGet : f.get (f.put reg (BitVec.ofNat 32 (a + 1))) = BitVec.ofNat 32 (a + 1) := by
    refine Field.get_put _ _ hField ?_
    rw [hNat]
    exact hFits.trans_le (Nat.pow_le_pow_right (by decide) hLen)
  obtain ⟨reg', d', hRun, hQ', hKeep⟩ := h (BitVec.ofNat 32 (a + 1)) target _ _ hAt.left
    ⟨hPre _ reg d hP, hGet⟩
  refine ⟨reg', _, ReflTransGen.head (mem_step device hCall.head rfl) (hRun.tail ?_),
    hPost _ reg' d' hQ'⟩
  refine mem_step device (s := ⟨target + xs.length, reg', d'⟩) hAt.right.head ?_
  simp only [Instruction.exec, Instr.exec, hKeep, hNat, List.length_singleton]
  rfl

/-! ### Code that leaves the pins alone -/

section Quiet

/-- Nothing but `xs`, at address `a`. -/
def piece (a : ℕ) (xs : List Instr) : Pru.Code := fun p => if a ≤ p then xs[p - a]? else none

theorem piece_at {a : ℕ} {xs : List Instr} (h : a + xs.length < 2 ^ 16) :
    Pru.At (piece a xs) a xs where
  fits := h
  get i hi := by
    rw [piece, if_pos (Nat.le_add_right _ _), Nat.add_sub_cancel_left, List.getElem?_eq_getElem hi]

/-- A run of a piece of code that does not touch the pins: the device sees them for its
time. -/
theorem takes_piece {a n : ℕ} {xs : List Instr} (hAt : At code a (xs.map .core))
    (hTouches : Touches xs 30 []) {s t : Pru.State} (hRun : Pru.Takes (piece a xs) s n t) (d : D) :
    t.reg 30 = s.reg 30 ∧ Reaches (step device code) ⟨s.pc, s.reg, d⟩
      ⟨t.pc, t.reg, device.idle (s.reg 30) n d⟩ := by
  induction hRun with
  | refl => exact ⟨rfl, ReflTransGen.refl⟩
  | @tail n t ins _ hCode ih =>
    obtain ⟨hPins, hReach⟩ := ih
    -- the instruction is one of the piece, at its place in the program
    have hLe : a ≤ t.pc := by
      by_contra hNot
      rw [piece, if_neg hNot] at hCode
      cases hCode
    rw [piece, if_pos hLe] at hCode
    have hPins' : (ins.exec t).reg 30 = s.reg 30 := by
      rw [← hPins]
      refine BitVec.eq_of_getLsbD_eq fun i _ => Pru.exec_untouched fun hTouch => ?_
      exact List.not_mem_nil (hTouches ins (List.mem_of_getElem? hCode) i hTouch)
    have hProgram : code t.pc = some (.core ins) := by
      have hGet := hAt.get (t.pc - a) (.core ins) (by rw [List.getElem?_map, hCode]; rfl)
      rwa [Nat.add_sub_cancel' hLe] at hGet
    refine ⟨hPins', hReach.tail (mem_step device (s := ⟨t.pc, t.reg, _⟩) hProgram ?_)⟩
    rw [Device.idle_add, ← hPins']
    rfl

/-- What holds of a piece of code wherever it stands, and without a device. -/
theorem Triple.quiet {xs : List Instr} {R : Regs → Regs → Prop} {P Q : Regs → D → Prop}
    (h : ∀ code, Does code xs R) (hTouches : Touches xs 30 [])
    (hPost : ∀ reg reg' d n, P reg d → R reg reg' → reg' 30 = reg 30 →
      Q reg' (device.idle (reg 30) n d)) :
    Triple device code (xs.map .core) P Q := by
  intro a reg d hAt hPre
  have hFits := hAt.fits
  rw [List.length_map] at hFits ⊢
  obtain ⟨reg', hRun, hR⟩ := h (piece a xs) a reg (piece_at hFits)
  obtain ⟨n, hTakes⟩ := Pru.Takes.of_reaches hRun
  obtain ⟨hPins, hReach⟩ : reg' 30 = reg 30 ∧ Reaches (step device code) ⟨a, reg, d⟩
      ⟨a + xs.length, reg', device.idle (reg 30) n d⟩ := takes_piece hAt hTouches hTakes d
  exact ⟨reg', _, hReach, hPost reg reg' d n hPre hR hPins⟩

/-- And in a known time. -/
theorem Triple.lasts {xs : List Instr} {n : ℕ} {R : Regs → Regs → Prop} {P Q : Regs → D → Prop}
    (h : ∀ code, Lasts code xs n (fun _ => True) R) (hTouches : Touches xs 30 [])
    (hPost : ∀ reg reg' d, P reg d → R reg reg' → reg' 30 = reg 30 →
      Q reg' (device.idle (reg 30) n d)) :
    Triple device code (xs.map .core) P Q := by
  intro a reg d hAt hPre
  have hFits := hAt.fits
  rw [List.length_map] at hFits ⊢
  obtain ⟨reg', hTakes, hR⟩ := h (piece a xs) a reg (piece_at hFits) trivial
  obtain ⟨hPins, hReach⟩ : reg' 30 = reg 30 ∧ Reaches (step device code) ⟨a, reg, d⟩
      ⟨a + xs.length, reg', device.idle (reg 30) n d⟩ := takes_piece hAt hTouches hTakes d
  exact ⟨reg', _, hReach, hPost reg reg' d hPre hR hPins⟩

end Quiet

end Triple

end EnergyMeter.Lib.PruIo
