import Mathlib.Computability.StateTransition
import Mathlib.Logic.Function.Basic

/-!
# The instruction set of a PRU

A PRU executes instructions of one word each, from an address of 16 bits, on
32-bit registers; operands are registers or their bytes and half-words. This is
the part of it that bit-banged drivers use: bits, immediates, subtraction, moves,
branches relative to the instruction, and subroutines that keep their return
address in a register. `r30` drives the output pins. `r31`, which reads the input
pins, is left out.

* `step` — one instruction; the run is `StateTransition.eval` of it.
* `reaches_untouched` — a bit that no instruction of a program touches keeps its
  value at every point of every run.
* `Does` — total correctness of a piece of code wherever it stands, with a rule for
  each way to put pieces together: `Does.op`, `Does.append`, `Does.ite`,
  `Does.delay`, `Does.call`.
* `Within` — what code may change, as a relation that composes.
* `Lasts` — the same for code whose time is known, with the rules that counted loops
  need.
-/

namespace EnergyMeter.Lib.Pru

open Relation StateTransition

/-! ## Registers -/

/-- `r0` to `r30`. -/
abbrev Reg := Fin 31

abbrev Regs := Reg → BitVec 32

/-- An operand: `len` bits of a register from bit `off` on. -/
structure Field where
  reg : Reg
  off : ℕ
  len : ℕ

/-- The whole register. -/
def Reg.word (r : Reg) : Field := ⟨r, 0, 32⟩

/-- `r.b0` to `r.b3`. -/
def Reg.b (r : Reg) (i : ℕ) : Field := ⟨r, 8 * i, 8⟩

/-- `r.w0` to `r.w2`. -/
def Reg.w (r : Reg) (i : ℕ) : Field := ⟨r, 8 * i, 16⟩

namespace Field

variable (f : Field) (reg : Regs) (v : BitVec 32)

def mask : BitVec 32 := BitVec.ofNat 32 (2 ^ f.len - 1)

def get : BitVec 32 := (reg f.reg >>> f.off) &&& f.mask

def put : Regs :=
  Function.update reg f.reg
    ((reg f.reg &&& ~~~(f.mask <<< f.off)) ||| ((v &&& f.mask) <<< f.off))

theorem mask_bit (i : ℕ) : f.mask.getLsbD i = (decide (i < 32) && decide (i < f.len)) := by
  rw [mask, BitVec.getLsbD_ofNat, Nat.testBit_two_pow_sub_one]

theorem get_bit (i : ℕ) :
    (f.get reg).getLsbD i = (decide (i < f.len) && (reg f.reg).getLsbD (f.off + i)) := by
  rw [get, BitVec.getLsbD_and, BitVec.getLsbD_ushiftRight, mask_bit]
  by_cases hi : i < 32
  · simp [hi, Bool.and_comm]
  · rw [BitVec.getLsbD_of_ge _ _ (show 32 ≤ f.off + i by omega)]
    simp

theorem put_bit {i : ℕ} (hi : i < 32) :
    (f.put reg v f.reg).getLsbD i =
      if f.off ≤ i ∧ i < f.off + f.len then v.getLsbD (i - f.off) else (reg f.reg).getLsbD i := by
  rw [put, Function.update_self]
  simp only [BitVec.getLsbD_or, BitVec.getLsbD_and, BitVec.getLsbD_not, BitVec.getLsbD_shiftLeft,
    mask_bit]
  by_cases hLow : f.off ≤ i
  · have hLen : i - f.off < f.len ↔ i < f.off + f.len := by omega
    by_cases hHigh : i < f.off + f.len
    · simp [hi, hLow, hHigh, hLen.mpr hHigh, Nat.not_lt.mpr hLow, show i - f.off < 32 by omega]
    · simp [hi, hLow, hHigh, mt hLen.mp hHigh]
  · simp [hi, hLow, Nat.lt_of_not_le hLow]

@[simp] theorem put_of_ne {x : Reg} (h : x ≠ f.reg) : f.put reg v x = reg x :=
  Function.update_of_ne h _ _

/-- A field holds what it has been given, if that fits. -/
theorem get_put (h : f.off + f.len ≤ 32) {v : BitVec 32} (hv : v.toNat < 2 ^ f.len) :
    f.get (f.put reg v) = v := by
  refine BitVec.eq_of_getLsbD_eq fun i hi => ?_
  rw [get_bit]
  -- above the field neither side has a bit
  by_cases hLen : i < f.len
  · rw [put_bit f reg v (show f.off + i < 32 by omega), if_pos (by omega), Nat.add_sub_cancel_left]
    simp [hLen]
  · have hZero : v.getLsbD i = false := by
      refine Nat.testBit_lt_two_pow (hv.trans_le ?_)
      exact Nat.pow_le_pow_right (by decide) (Nat.not_lt.mp hLen)
    simp [hLen, hZero]

end Field

section Word

variable (r : Reg) (reg : Regs) (v : BitVec 32)

theorem Reg.word_mask : r.word.mask = BitVec.allOnes 32 := rfl

@[simp] theorem Reg.word_get : r.word.get reg = reg r := by
  rw [Field.get, word_mask, BitVec.and_allOnes]
  exact BitVec.ushiftRight_zero _

@[simp] theorem Reg.word_put : r.word.put reg v = Function.update reg r v := by
  rw [Field.put, word_mask, BitVec.and_allOnes]
  congr 1
  show (reg r &&& ~~~(BitVec.allOnes 32 <<< 0)) ||| (v <<< 0) = v
  rw [BitVec.shiftLeft_zero, BitVec.shiftLeft_zero, BitVec.not_allOnes, BitVec.and_zero,
    BitVec.zero_or]

end Word

/-! ## Instructions -/

inductive Instr
  | set (rd rs : Field) (bit : ℕ)
  | clr (rd rs : Field) (bit : ℕ)
  | ldi (rd : Field) (imm : ℕ)
  | ldi32 (rd : Field) (imm : ℕ)
  | sub (rd rs : Field) (imm : ℕ)
  | mov (rd rs : Field)
  | qbne (offset : ℤ) (rs : Field) (imm : ℕ)
  | qbbs (offset : ℤ) (rs : Field) (bit : ℕ)
  | qba (offset : ℤ)
  | jal (rd : Field) (target : ℕ)
  | jmp (rs : Field)

structure State where
  pc : ℕ
  reg : Regs

namespace State

/-- On to the next instruction. -/
def next (s : State) (reg : Regs) : State := ⟨s.pc + 1, reg⟩

/-- A branch relative to the instruction. -/
def branch (s : State) (taken : Bool) (offset : ℤ) : State :=
  if taken then ⟨(s.pc + offset).toNat, s.reg⟩ else s.next s.reg

end State

def Instr.exec (s : State) : Instr → State
  | set rd rs bit => s.next (rd.put s.reg (rs.get s.reg ||| BitVec.twoPow 32 bit))
  | clr rd rs bit => s.next (rd.put s.reg (rs.get s.reg &&& ~~~BitVec.twoPow 32 bit))
  | ldi rd imm | ldi32 rd imm => s.next (rd.put s.reg (BitVec.ofNat 32 imm))
  | sub rd rs imm => s.next (rd.put s.reg (rs.get s.reg - BitVec.ofNat 32 imm))
  | mov rd rs => s.next (rd.put s.reg (rs.get s.reg))
  | qbne offset rs imm => s.branch (rs.get s.reg != BitVec.ofNat 32 imm) offset
  | qbbs offset rs bit => s.branch ((rs.get s.reg).getLsbD bit) offset
  | qba offset => s.branch true offset
  | jal rd target => ⟨target, rd.put s.reg (BitVec.ofNat 32 (s.pc + 1))⟩
  | jmp rs => ⟨(rs.get s.reg).toNat, s.reg⟩

/-- The instructions by address. -/
abbrev Code := ℕ → Option Instr

/-- One instruction; there is no step where there is no code. -/
def step (code : Code) (s : State) : Option State := (code s.pc).map (Instr.exec s)

/-! ## What an instruction cannot change -/

section Bits

variable {v : BitVec 32} {b i : ℕ}

theorem or_twoPow_bit (hi : i ≠ b) : (v ||| BitVec.twoPow 32 b).getLsbD i = v.getLsbD i := by
  simp [BitVec.getLsbD_twoPow, Ne.symm hi]

theorem and_not_twoPow_bit (hi : i ≠ b) :
    (v &&& ~~~BitVec.twoPow 32 b).getLsbD i = v.getLsbD i := by
  by_cases hLt : i < 32
  · simp [hLt, hi]
  · rw [BitVec.getLsbD_of_ge _ _ (Nat.not_lt.mp hLt), BitVec.getLsbD_of_ge _ _ (Nat.not_lt.mp hLt)]

end Bits

/-- The instruction may change bit `i` of register `x`. -/
def Instr.touches (x : Reg) (i : ℕ) : Instr → Prop
  | set rd rs bit | clr rd rs bit => rd.reg = x ∧ (rd = rs → rd.off + bit = i)
  | ldi rd _ | ldi32 rd _ | sub rd _ _ | mov rd _ | jal rd _ => rd.reg = x
  | qbne .. | qbbs .. | qba _ | jmp _ => False

/-- The bits of `x` that `xs` may change are among `bits`. -/
def Touches (xs : List Instr) (x : Reg) (bits : List ℕ) : Prop :=
  ∀ ins ∈ xs, ∀ i, ins.touches x i → i ∈ bits

namespace Touches

variable {xs ys : List Instr} {x : Reg} {bits : List ℕ}

@[simp] theorem nil_iff : Touches [] x bits ↔ True := by
  simp [Touches]

@[simp] theorem cons_iff {ins : Instr} :
    Touches (ins :: xs) x bits ↔ (∀ i, ins.touches x i → i ∈ bits) ∧ Touches xs x bits :=
  List.forall_mem_cons

@[simp] theorem append_iff :
    Touches (xs ++ ys) x bits ↔ Touches xs x bits ∧ Touches ys x bits :=
  List.forall_mem_append

theorem flatMap {α : Type*} {l : List α} {f : α → List Instr} (h : ∀ a, Touches (f a) x bits) :
    Touches (l.flatMap f) x bits := by
  intro ins hMem
  obtain ⟨a, -, hIns⟩ := List.mem_flatMap.mp hMem
  exact h a ins hIns

end Touches

section Untouched

variable {code : Code} {x : Reg} {i : ℕ}

/-- A bit operation of a field on itself changes one bit of it. -/
theorem Field.put_untouched {rd rs : Field} {reg : Regs} {v : BitVec 32} {bit : ℕ}
    (hv : ∀ j, j ≠ bit → v.getLsbD j = (rs.get reg).getLsbD j) (hi : i < 32)
    (h : ¬(rd.reg = x ∧ (rd = rs → rd.off + bit = i))) :
    (rd.put reg v x).getLsbD i = (reg x).getLsbD i := by
  by_cases hx : rd.reg = x
  · subst hx
    -- an operation of one field on another touches all bits
    obtain ⟨rfl, hBit⟩ : rd = rs ∧ rd.off + bit ≠ i := by
      by_contra hNot
      exact h ⟨rfl, fun hEq => by_contra fun hBit => hNot ⟨hEq, hBit⟩⟩
    rw [put_bit rd reg v hi]
    split_ifs with hIn
    · rw [hv _ (fun hEq => hBit (by omega)), get_bit, Nat.add_sub_cancel' hIn.1]
      simp [show i - rd.off < rd.len by omega]
    · rfl
  · rw [put_of_ne rd reg v (Ne.symm hx)]

theorem exec_untouched {ins : Instr} {s : State} (h : ¬ins.touches x i) :
    ((ins.exec s).reg x).getLsbD i = (s.reg x).getLsbD i := by
  -- a bit beyond the register is not set, before and after
  by_cases hi : i < 32
  swap
  · rw [BitVec.getLsbD_of_ge _ _ (Nat.not_lt.mp hi), BitVec.getLsbD_of_ge _ _ (Nat.not_lt.mp hi)]
  cases ins with
  | set rd rs bit => exact Field.put_untouched (fun _ => or_twoPow_bit) hi h
  | clr rd rs bit => exact Field.put_untouched (fun _ => and_not_twoPow_bit) hi h
  | ldi rd imm | ldi32 rd imm | sub rd rs imm | mov rd rs | jal rd target =>
    exact congrArg (BitVec.getLsbD · i) (Field.put_of_ne _ _ _ (Ne.symm h))
  | qbne offset rs imm | qbbs offset rs bit | qba offset =>
    simp only [Instr.exec, State.branch, State.next]
    split <;> rfl
  | jmp rs => rfl

theorem mem_step {ins : Instr} {s t : State} (hCode : code s.pc = some ins)
    (hExec : ins.exec s = t) : t ∈ step code s :=
  Option.map_eq_some_iff.mpr ⟨ins, hCode, hExec⟩

theorem step_cases {s t : State} (h : t ∈ step code s) :
    ∃ ins, code s.pc = some ins ∧ t = ins.exec s := by
  obtain ⟨ins, hCode, rfl⟩ := Option.map_eq_some_iff.mp h
  exact ⟨ins, hCode, rfl⟩

/-- **The frame of a program**: a bit that no instruction of the code touches keeps
its value along every run. -/
theorem reaches_untouched (h : ∀ a ins, code a = some ins → ¬ins.touches x i) {s t : State}
    (hRun : Reaches (step code) s t) : (t.reg x).getLsbD i = (s.reg x).getLsbD i := by
  induction hRun with
  | refl => rfl
  | tail _ hStep ih =>
    obtain ⟨ins, hCode, rfl⟩ := step_cases hStep
    exact (exec_untouched (h _ _ hCode)).trans ih

end Untouched

/-! ## Pieces of code -/

/-- `xs` stands at address `a`. Addresses have 16 bits, the one behind `xs` too. -/
structure At (code : Code) (a : ℕ) (xs : List Instr) : Prop where
  fits : a + xs.length < 2 ^ 16
  get : ∀ i, (h : i < xs.length) → code (a + i) = some xs[i]

namespace At

variable {code : Code} {a : ℕ} {xs ys : List Instr}

theorem left (h : At code a (xs ++ ys)) : At code a xs where
  fits := by
    have hFits := h.fits
    rw [List.length_append] at hFits
    omega
  get i hi := by
    rw [h.get i (by rw [List.length_append]; omega), List.getElem_append_left hi]

theorem right (h : At code a (xs ++ ys)) : At code (a + xs.length) ys where
  fits := by
    have hFits := h.fits
    rw [List.length_append] at hFits
    omega
  get i hi := by
    rw [Nat.add_assoc, Nat.add_comm xs.length i, h.get _ (by rw [List.length_append]; omega),
      ← List.getElem_append_right' xs hi]

theorem head {ins : Instr} (h : At code a (ins :: xs)) : code a = some ins :=
  h.get 0 (Nat.succ_pos _)

theorem tail {ins : Instr} (h : At code a (ins :: xs)) : At code (a + 1) xs := by
  rw [← List.singleton_append] at h
  exact h.right

end At

/-- Total correctness of a piece of code, wherever it stands: from its first
instruction a run goes to its end, and the registers before and after are related by
`Q`. -/
def Does (code : Code) (xs : List Instr) (Q : Regs → Regs → Prop) : Prop :=
  ∀ a reg, At code a xs →
    ∃ reg', Reaches (step code) ⟨a, reg⟩ ⟨a + xs.length, reg'⟩ ∧ Q reg reg'

namespace Does

variable {code : Code} {xs ys : List Instr} {P Q : Regs → Regs → Prop}

theorem mono (h : Does code xs P) (hMono : ∀ reg reg', P reg reg' → Q reg reg') :
    Does code xs Q := by
  intro a reg hAt
  obtain ⟨reg', hRun, hP⟩ := h a reg hAt
  exact ⟨reg', hRun, hMono _ _ hP⟩

theorem append (h : Does code xs P) (h' : Does code ys Q) :
    Does code (xs ++ ys) (Relation.Comp P Q) := by
  intro a reg hAt
  obtain ⟨mid, hRun, hP⟩ := h a reg hAt.left
  obtain ⟨reg', hRun', hQ⟩ := h' _ mid hAt.right
  rw [List.length_append, ← Nat.add_assoc]
  exact ⟨reg', hRun.trans hRun', mid, hP, hQ⟩

theorem seq {R : Regs → Regs → Prop} (h : Does code xs P) (h' : Does code ys Q)
    (hComp : ∀ u v w, P u v → Q v w → R u w) : Does code (xs ++ ys) R :=
  (h.append h').mono fun u w ⟨v, hFirst, hSecond⟩ => hComp u v w hFirst hSecond

/-- An instruction that goes on to the next one. -/
theorem op {ins : Instr} {g : Regs → Regs} (h : ∀ s, ins.exec s = s.next (g s.reg)) :
    Does code [ins] (fun reg reg' => reg' = g reg) := by
  intro a reg hAt
  exact ⟨g reg, ReflTransGen.single (mem_step hAt.head (h _)), rfl⟩

/-- `QBBS` over a branch: `ys` without the bit, `xs` with it. -/
theorem ite {f : Field} {bit : ℕ} (hElse : Does code ys Q) (hThen : Does code xs Q) :
    Does code (.qbbs (ys.length + 2) f bit :: ys ++ .qba (xs.length + 1) :: xs) Q := by
  intro a reg hAt
  have hEnd : a + (.qbbs (ys.length + 2) f bit :: ys ++ .qba (xs.length + 1) :: xs).length =
      a + ys.length + xs.length + 2 := by
    simp only [List.length_append, List.length_cons]
    omega
  rw [hEnd]
  cases hBit : (f.get reg).getLsbD bit with
  | false =>
    obtain ⟨reg', hRun, hQ⟩ := hElse _ reg hAt.left.tail
    refine ⟨reg', ReflTransGen.head (mem_step hAt.left.head ?_) (hRun.tail ?_), hQ⟩
    · simp only [Instr.exec, State.branch, hBit, Bool.false_eq_true, if_false, State.next]
    -- behind `ys` the branch leads over `xs`
    · have hCode : code (a + 1 + ys.length) = some (.qba (xs.length + 1)) := by
        rw [← hAt.right.head, List.length_cons, Nat.add_comm ys.length, Nat.add_assoc]
      refine mem_step (s := ⟨a + 1 + ys.length, reg'⟩) hCode ?_
      · simp only [Instr.exec, State.branch, if_true]
        congr 1
        omega
  | true =>
    obtain ⟨reg', hRun, hQ⟩ := hThen _ reg hAt.right.tail
    have hTaken : (Instr.qbbs (ys.length + 2) f bit).exec ⟨a, reg⟩ =
        ⟨a + (ys.length + 1) + 1, reg⟩ := by
      simp only [Instr.exec, State.branch, hBit, if_true]
      congr 1
    refine ⟨reg', ReflTransGen.head (mem_step hAt.left.head hTaken) ?_, hQ⟩
    rw [List.length_cons] at hRun
    rwa [show a + (ys.length + 1) + 1 + xs.length = a + ys.length + xs.length + 2 by omega] at hRun

/-- The loop that counts a register down to zero. It ends from every value: zero is
counted down through the whole range. -/
theorem delay {r : Reg} :
    Does code [.sub r.word r.word 1, .qbne (-1) r.word 0]
      (fun reg reg' => reg' = Function.update reg r 0) := by
  intro a reg hAt
  have hSub : ∀ reg, (⟨a + 1, Function.update reg r (reg r - 1)⟩ : State) ∈
      step code ⟨a, reg⟩ := by
    intro reg
    exact mem_step hAt.head (by simp [Instr.exec, State.next])
  refine ⟨Function.update reg r 0, ?_, rfl⟩
  -- induction on the rounds that are left after this one
  induction hn : (reg r - 1).toNat generalizing reg with
  | zero =>
    have hZero : reg r - 1 = 0 := BitVec.eq_of_toNat_eq hn
    refine ReflTransGen.head (hSub reg) (ReflTransGen.single (mem_step hAt.tail.head ?_))
    rw [hZero]
    simp [Instr.exec, State.branch, State.next]
  | succ n ih =>
    -- not yet zero: the branch leads back to the subtraction
    have hNext : (Function.update reg r (reg r - 1) r - 1).toNat = n := by
      rw [Function.update_self]
      bv_omega
    have hRun := ih (Function.update reg r (reg r - 1)) hNext
    rw [Function.update_idem] at hRun
    refine ReflTransGen.head (hSub reg) (ReflTransGen.head (mem_step hAt.tail.head ?_) hRun)
    have hNonzero : reg r - 1#32 ≠ 0#32 := by
      intro hEq
      rw [show reg r - 1 = 0#32 from hEq] at hn
      cases hn
    simp [Instr.exec, State.branch, hNonzero]

/-- A subroutine `xs` behind which `JMP` takes the return address that `JAL` has
left: it must not change the register of that address. -/
theorem call {f : Field} {target : ℕ} (hAt : At code target (xs ++ [.jmp f]))
    (hField : f.off + f.len ≤ 32) (hLen : 16 ≤ f.len)
    (h : Does code xs fun reg reg' => Q reg reg' ∧ reg' f.reg = reg f.reg) :
    Does code [.jal f target] fun reg reg' => ∃ ret, Q (f.put reg ret) reg' := by
  intro a reg hCall
  obtain ⟨reg', hRun, hQ, hKeep⟩ := h target (f.put reg (BitVec.ofNat 32 (a + 1))) hAt.left
  refine ⟨reg', ReflTransGen.head (mem_step hCall.head rfl) (hRun.tail ?_), _, hQ⟩
  -- the return address fits in the field
  have hFits : a + 1 < 2 ^ 16 := hCall.fits
  have hNat : (BitVec.ofNat 32 (a + 1)).toNat = a + 1 :=
    (BitVec.toNat_ofNat _ _).trans (Nat.mod_eq_of_lt (hFits.trans (by decide)))
  have hReturn : (f.get reg').toNat = a + 1 := by
    rw [Field.get, hKeep, ← Field.get, Field.get_put _ _ hField, hNat]
    rw [hNat]
    exact hFits.trans_le (Nat.pow_le_pow_right (by decide) hLen)
  refine mem_step (s := ⟨target + xs.length, reg'⟩) hAt.right.head ?_
  simp only [Instr.exec, hReturn, List.length_singleton]

end Does

/-! ## What code may change -/

/-- No register changes but those of `scratch` and `out`, and no bit of `out` but
those of `bits`. -/
structure Within (scratch : List Reg) (out : Reg) (bits : List ℕ) (reg reg' : Regs) : Prop where
  regs : ∀ x, x ∉ scratch → x ≠ out → reg' x = reg x
  bits : ∀ b, b ∉ bits → (reg' out).getLsbD b = (reg out).getLsbD b

namespace Within

variable {scratch scratch' : List Reg} {out : Reg} {bits bits' : List ℕ} {u v w : Regs}

theorem refl : Within scratch out bits u u := ⟨fun _ _ _ => rfl, fun _ _ => rfl⟩

theorem trans (h : Within scratch out bits u v) (h' : Within scratch out bits v w) :
    Within scratch out bits u w where
  regs x hx hOut := (h'.regs x hx hOut).trans (h.regs x hx hOut)
  bits b hb := (h'.bits b hb).trans (h.bits b hb)

theorem mono (h : Within scratch out bits u v) (hScratch : scratch ⊆ scratch')
    (hBits : bits ⊆ bits') : Within scratch' out bits' u v where
  regs x hx := h.regs x (fun hMem => hx (hScratch hMem))
  bits b hb := h.bits b (fun hMem => hb (hBits hMem))

/-- A store into a register of `scratch`. -/
theorem of_put {f : Field} {x : BitVec 32} (h : f.reg ∈ scratch) (hOut : f.reg ≠ out) :
    Within scratch out bits u (f.put u x) where
  regs y hy _ := Field.put_of_ne _ _ _ (fun hEq => hy (hEq ▸ h))
  bits b _ := by rw [Field.put_of_ne _ _ _ (Ne.symm hOut)]

end Within

section Pins

variable {code : Code} {r : Reg} {b : ℕ}

/-- `SET` drives one pin high. -/
theorem Does.set (hb : b < 32) : Does code [.set r.word r.word b] fun reg reg' =>
    (reg' r).getLsbD b = true ∧ Within [] r [b] reg reg' := by
  refine (Does.op (g := fun reg => Function.update reg r (reg r ||| BitVec.twoPow 32 b))
    fun s => by simp [Instr.exec]).mono ?_
  rintro reg _ rfl
  refine ⟨by simp [hb], fun x _ hx => Function.update_of_ne hx _ _, fun i hi => ?_⟩
  rw [Function.update_self, or_twoPow_bit (List.ne_of_not_mem_cons hi)]

/-- `CLR` drives one pin low. -/
theorem Does.clr : Does code [.clr r.word r.word b] fun reg reg' =>
    (reg' r).getLsbD b = false ∧ Within [] r [b] reg reg' := by
  refine (Does.op (g := fun reg => Function.update reg r (reg r &&& ~~~BitVec.twoPow 32 b))
    fun s => by simp [Instr.exec]).mono ?_
  rintro reg _ rfl
  refine ⟨by simp, fun x _ hx => Function.update_of_ne hx _ _, fun i hi => ?_⟩
  rw [Function.update_self, and_not_twoPow_bit (List.ne_of_not_mem_cons hi)]

end Pins

/-! ## Code that stays within limits -/

section Limits

variable {code : Code} {ins : Instr} {xs ys : List Instr} {scratch : List Reg} {out : Reg}
  {bits : List ℕ}

namespace Does

theorem within (h : Does code xs (Within scratch out bits))
    (h' : Does code ys (Within scratch out bits)) :
    Does code (xs ++ ys) (Within scratch out bits) :=
  h.seq h' fun _ _ _ => Within.trans

theorem cons (h : Does code [ins] (Within scratch out bits))
    (h' : Does code xs (Within scratch out bits)) :
    Does code (ins :: xs) (Within scratch out bits) := by
  rw [← List.singleton_append]
  exact within h h'

theorem nil : Does code [] (Within scratch out bits) :=
  fun _ reg _ => ⟨reg, ReflTransGen.refl, Within.refl⟩

theorem flatMap {α : Type*} {f : α → List Instr} {l : List α}
    (h : ∀ a, Does code (f a) (Within scratch out bits)) :
    Does code (l.flatMap f) (Within scratch out bits) := by
  induction l with
  | nil => exact nil
  | cons a l ih => exact within (h a) ih

/-- An instruction that stores into a register of `scratch`. -/
theorem store {f : Field} {v : Regs → BitVec 32}
    (h : ∀ s, ins.exec s = s.next (f.put s.reg (v s.reg))) (hMem : f.reg ∈ scratch)
    (hOut : f.reg ≠ out) : Does code [ins] (Within scratch out bits) :=
  (op h).mono fun _ _ hEq => hEq ▸ Within.of_put hMem hOut

section Store

variable {f : Field} (hMem : f.reg ∈ scratch) (hOut : f.reg ≠ out)
include hMem hOut

theorem ldi (imm : ℕ) : Does code [.ldi f imm] (Within scratch out bits) :=
  store (v := fun _ => BitVec.ofNat 32 imm) (fun _ => rfl) hMem hOut

theorem ldi32 (imm : ℕ) : Does code [.ldi32 f imm] (Within scratch out bits) :=
  store (v := fun _ => BitVec.ofNat 32 imm) (fun _ => rfl) hMem hOut

theorem sub (rs : Field) (imm : ℕ) : Does code [.sub f rs imm] (Within scratch out bits) :=
  store (v := fun reg => rs.get reg - BitVec.ofNat 32 imm) (fun _ => rfl) hMem hOut

end Store

end Does

end Limits

/-! ## Time -/

/-- The time of an instruction; `LDI32` stands for two. -/
def Instr.cycles : Instr → ℕ
  | ldi32 .. => 2
  | _ => 1

/-- A run from `s` to `t` takes time `n`. -/
inductive Takes (code : Code) (s : State) : ℕ → State → Prop
  | refl : Takes code s 0 s
  | tail {n : ℕ} {t : State} {ins : Instr} (hRun : Takes code s n t)
      (hCode : code t.pc = some ins) : Takes code s (n + ins.cycles) (ins.exec t)

section Time

variable {code : Code} {s t u : State} {n m : ℕ} {xs ys : List Instr} {P P' : Regs → Prop}
  {Q Q' R : Regs → Regs → Prop}

theorem Takes.trans (h : Takes code s n t) (h' : Takes code t m u) : Takes code s (n + m) u := by
  induction h' with
  | refl => exact h
  | tail _ hCode ih =>
    rw [← Nat.add_assoc]
    exact ih.tail hCode

theorem Takes.single {ins : Instr} (hCode : code s.pc = some ins) (hExec : ins.exec s = t) :
    Takes code s ins.cycles t := by
  have hStep : Takes code s (0 + ins.cycles) (ins.exec s) := Takes.refl.tail hCode
  rwa [Nat.zero_add, hExec] at hStep

theorem Takes.of_reaches (h : Reaches (step code) s t) : ∃ n, Takes code s n t := by
  induction h with
  | refl => exact ⟨0, .refl⟩
  | tail _ hStep ih =>
    obtain ⟨n, hRun⟩ := ih
    obtain ⟨ins, hCode, rfl⟩ := step_cases hStep
    exact ⟨_, hRun.tail hCode⟩

/-- `Does`, from registers with `P`, and the time that it takes. -/
def Lasts (code : Code) (xs : List Instr) (n : ℕ) (P : Regs → Prop) (Q : Regs → Regs → Prop) : Prop :=
  ∀ a reg, At code a xs → P reg →
    ∃ reg', Takes code ⟨a, reg⟩ n ⟨a + xs.length, reg'⟩ ∧ Q reg reg'

theorem Lasts.mono (h : Lasts code xs n P Q) (hMono : ∀ reg reg', P reg → Q reg reg' → R reg reg') :
    Lasts code xs n P R := by
  intro a reg hAt hPre
  obtain ⟨reg', hRun, hQ⟩ := h a reg hAt hPre
  exact ⟨reg', hRun, hMono _ _ hPre hQ⟩

theorem Lasts.seq (h : Lasts code xs n P Q) (h' : Lasts code ys m P' Q')
    (hMid : ∀ u v, P u → Q u v → P' v) (hComp : ∀ u v w, P u → Q u v → Q' v w → R u w) :
    Lasts code (xs ++ ys) (n + m) P R := by
  intro a reg hAt hPre
  obtain ⟨mid, hRun, hQ⟩ := h a reg hAt.left hPre
  obtain ⟨reg', hRun', hQ'⟩ := h' _ mid hAt.right (hMid _ _ hPre hQ)
  rw [List.length_append, ← Nat.add_assoc]
  exact ⟨reg', hRun.trans hRun', hComp _ _ _ hPre hQ hQ'⟩

theorem Lasts.op {ins : Instr} {g : Regs → Regs} (h : ∀ s, ins.exec s = s.next (g s.reg)) :
    Lasts code [ins] ins.cycles P fun reg reg' => reg' = g reg :=
  fun _ reg hAt _ => ⟨g reg, Takes.single hAt.head (h _), rfl⟩

/-- The loop that counts a register down takes two instructions a round. -/
theorem Lasts.delay {r : Reg} {v : ℕ} (hPos : 0 < v) (hLt : v < 2 ^ 32) :
    Lasts code [.sub r.word r.word 1, .qbne (-1) r.word 0] (2 * v)
      (fun reg => reg r = BitVec.ofNat 32 v) fun reg reg' => reg' = Function.update reg r 0 := by
  intro a reg hAt hReg
  refine ⟨Function.update reg r 0, ?_, rfl⟩
  have hSub : ∀ reg, Takes code ⟨a, reg⟩ 1 ⟨a + 1, Function.update reg r (reg r - 1)⟩ := by
    intro reg
    have hExec : (Instr.sub r.word r.word 1).exec ⟨a, reg⟩ =
        ⟨a + 1, Function.update reg r (reg r - 1)⟩ := by
      simp [Instr.exec, State.next]
    exact Takes.single (s := ⟨a, reg⟩) hAt.head hExec
  -- induction on the rounds
  induction v, hPos using Nat.le_induction generalizing reg with
  | base =>
    have hZero : reg r - 1 = 0 := by
      rw [hReg]
      rfl
    refine (hSub reg).trans (Takes.single (s := ⟨a + 1, _⟩) hAt.tail.head ?_)
    rw [hZero]
    simp [Instr.exec, State.branch, State.next]
  | succ v hPos ih =>
    have hLeft : reg r - 1 = BitVec.ofNat 32 v := by
      rw [hReg]
      bv_omega
    have hNonzero : BitVec.ofNat 32 v ≠ 0#32 := by bv_omega
    have hRun := ih (by omega) (Function.update reg r (BitVec.ofNat 32 v)) (Function.update_self ..)
    rw [Function.update_idem] at hRun
    have hBack : Takes code ⟨a + 1, Function.update reg r (BitVec.ofNat 32 v)⟩ 1
        ⟨a, Function.update reg r (BitVec.ofNat 32 v)⟩ := by
      refine Takes.single (s := ⟨a + 1, _⟩) hAt.tail.head ?_
      simp [Instr.exec, State.branch, hNonzero]
    have hRound := hSub reg
    rw [hLeft] at hRound
    have hAll := (hRound.trans hBack).trans hRun
    rwa [show 1 + 1 + 2 * v = 2 * (v + 1) by omega] at hAll

/-! ### Counted loops -/

section Countdown

variable {r : Reg} {v : ℕ}

theorem Lasts.load (imm : ℕ) : Lasts code [.ldi32 r.word imm] 2 (fun _ => True) fun reg reg' =>
    reg' = Function.update reg r (BitVec.ofNat 32 imm) :=
  Lasts.op (g := fun reg => Function.update reg r (BitVec.ofNat 32 imm)) fun s => by
    simp [Instr.exec]

/-- A constant is subtracted from what has been loaded. -/
theorem Lasts.sub {imm : ℕ} (hLe : imm ≤ v) (hLt : v < 2 ^ 32)
    (h : Lasts code xs n (fun _ => True) fun reg reg' =>
      reg' = Function.update reg r (BitVec.ofNat 32 v)) :
    Lasts code (xs ++ [.sub r.word r.word imm]) (n + 1) (fun _ => True) fun reg reg' =>
      reg' = Function.update reg r (BitVec.ofNat 32 (v - imm)) := by
  have hSub : Lasts code [.sub r.word r.word imm] 1 (fun _ => True) fun reg reg' =>
      reg' = Function.update reg r (reg r - BitVec.ofNat 32 imm) :=
    Lasts.op (g := fun reg => Function.update reg r (reg r - BitVec.ofNat 32 imm)) fun s => by
      simp [Instr.exec]
  refine h.seq hSub (fun _ _ _ _ => trivial) ?_
  rintro reg _ _ - rfl rfl
  rw [Function.update_self, Function.update_idem]
  congr 1
  bv_omega

/-- What has been loaded is counted down. -/
theorem Lasts.countdown {out : Reg} (hPos : 0 < v) (hLt : v < 2 ^ 32) (hOut : r ≠ out)
    (h : Lasts code xs n (fun _ => True) fun reg reg' =>
      reg' = Function.update reg r (BitVec.ofNat 32 v)) :
    Lasts code (xs ++ [.sub r.word r.word 1, .qbne (-1) r.word 0]) (n + 2 * v) (fun _ => True)
      (Within [r] out []) := by
  refine h.seq (Lasts.delay hPos hLt) ?_ ?_
  · rintro reg _ - rfl
    exact Function.update_self ..
  · rintro reg _ _ - rfl rfl
    rw [Function.update_idem, ← Reg.word_put]
    exact Within.of_put (List.mem_singleton_self r) hOut

end Countdown

end Time

end EnergyMeter.Lib.Pru
