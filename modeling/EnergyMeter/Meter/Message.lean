import EnergyMeter.Cpt.Maf
import EnergyMeter.Lib.Binary32
import Mathlib.Algebra.Order.Archimedean.Real.Basic

/-!
# EnergyMeter — the message of a second

`send_data` prints the means of the eleven attributes of the three phases into
one line of text and sends it, without its terminator, to the datalogger.

Main result:

* `sendData_text` — the text is `messageText` of the stored means: every value
  stands under the name of its attribute and the letter of its phase.
-/

namespace EnergyMeter.Meter

open Lib Cpt

/-! ## Attributes -/

/-- `e_attributes`. -/
inductive EAttributes
  | ATTR_VOLTAGE_RMS
  | ATTR_CURRENT_RMS
  | ATTR_POWER_APPARENT
  | ATTR_POWER_ACTIVE
  | ATTR_ENERGY_REACTIVE
  | ATTR_CURRENT_ACTIVE
  | ATTR_CURRENT_REACTIVE
  | ATTR_CURRENT_VOID
  | ATTR_PF
  | ATTR_QF
  | ATTR_VF
deriving DecidableEq, Repr

open EAttributes

/-- `ATTR_MAX`. -/
def attrMax : ℕ := 11

/-- The value of an enumerator. -/
def EAttributes.toNat : EAttributes → ℕ
  | ATTR_VOLTAGE_RMS => 0
  | ATTR_CURRENT_RMS => 1
  | ATTR_POWER_APPARENT => 2
  | ATTR_POWER_ACTIVE => 3
  | ATTR_ENERGY_REACTIVE => 4
  | ATTR_CURRENT_ACTIVE => 5
  | ATTR_CURRENT_REACTIVE => 6
  | ATTR_CURRENT_VOID => 7
  | ATTR_PF => 8
  | ATTR_QF => 9
  | ATTR_VF => 10

/-- The attributes in the order of `for (j = 0; j < ATTR_MAX; j++)`. -/
def attributes : List EAttributes :=
  [ATTR_VOLTAGE_RMS, ATTR_CURRENT_RMS, ATTR_POWER_APPARENT, ATTR_POWER_ACTIVE,
    ATTR_ENERGY_REACTIVE, ATTR_CURRENT_ACTIVE, ATTR_CURRENT_REACTIVE, ATTR_CURRENT_VOID,
    ATTR_PF, ATTR_QF, ATTR_VF]

theorem attributes_toNat : attributes.map toNat = List.range attrMax := by
  decide

theorem mem_attributes (a : EAttributes) : a ∈ attributes := by
  cases a <;> decide

theorem EAttributes.toNat_lt (a : EAttributes) : a.toNat < attrMax := by
  cases a <;> decide

theorem EAttributes.toNat_inj {a a' : EAttributes} (h : a.toNat = a'.toNat) : a = a' := by
  revert h
  cases a <;> cases a' <;> decide

/-- `NUMBER_OF_MAF_BUFFERS`, with `APP_PHASES` three. -/
def numberOfMafBuffers : ℕ := attrMax * 3

/-- `phase_order`. -/
def phaseOrder : Fin 3 → Fin 3 := ![0, 1, 2]

/-- `phase`. -/
def phase : Fin 3 → Char := ![ 'A', 'B', 'C']

@[simp] theorem phaseOrder_eq (i : Fin 3) : phaseOrder i = i := by
  revert i
  decide

/-! ## Text -/

/-- The part of `param_name_format[j]` before `%c`. -/
def paramName : EAttributes → List Char
  | ATTR_VOLTAGE_RMS => [ 'V', '_', 'r', 'm', 's', '_']
  | ATTR_CURRENT_RMS => [ 'I', '_', 'r', 'm', 's', '_']
  | ATTR_POWER_APPARENT => [ 'A', '_']
  | ATTR_POWER_ACTIVE => [ 'P', '_']
  | ATTR_ENERGY_REACTIVE => [ 'Q', '_']
  | ATTR_CURRENT_ACTIVE => [ 'I', 'b', 'a', '_', 'r', 'm', 's', '_']
  | ATTR_CURRENT_REACTIVE => [ 'I', 'b', 'r', '_', 'r', 'm', 's', '_']
  | ATTR_CURRENT_VOID => [ 'I', 'v', '_', 'r', 'm', 's', '_']
  | ATTR_PF => [ 'P', 'F', '_']
  | ATTR_QF => [ 'Q', 'F', '_']
  | ATTR_VF => [ 'V', 'F', '_']

/-- `"$bbb:1,"`. -/
def messageHeader : List Char := [ '$', 'b', 'b', 'b', ':', '1', ',']

/-- The terminator of a C string. -/
def nul : Char := Char.ofNat 0

section Text

variable {R : Type} [Field R] [LinearOrder R] [FloorRing R]

/-- What `printf` writes for `%.2f`. -/
def twoDecimals (x : R) : List Char :=
  let cents := (roundHalfEven (|x| * 100)).toNat
  (if x < 0 then [ '-'] else []) ++ Nat.toDigits 10 (cents / 100) ++
    [ '.', Nat.digitChar (cents / 10 % 10), Nat.digitChar (cents % 10)]

/-- `sprintf(.., param_name_format[j], c, x)`. -/
def sprintfParam (j : EAttributes) (c : Char) (x : R) : List Char :=
  paramName j ++ [c, ':'] ++ twoDecimals x

/-- The text of a second, by what stands in it: for every phase and every
attribute, in order, name, letter and value. -/
def messageText (value : Fin 3 → EAttributes → R) : List Char :=
  messageHeader ++ List.intercalate [ ','] ((List.finRange 3).flatMap fun c =>
    attributes.map fun a => sprintfParam a (phase c) (value c a))

end Text

/-! ## `send_data` -/

section Code

variable {m : Type → Type} [Monad m] [MonadRequire m] {R : Type}

/-- `_maf[k]`, read. -/
def loadMaf (maf : ℕ → TMAF R) (k : ℕ) : m (TMAF R) := do
  require (k < numberOfMafBuffers) .outOfBounds
  return maf k

variable [Field R] [LinearOrder R] [FloorRing R]

/-- The loops of `send_data`, which print every value with a comma after it. -/
def printParams (maf : ℕ → TMAF R) : m (List Char) :=
  (List.finRange 3).foldlM (fun message i =>
    attributes.foldlM (fun message j => do
      let k := phaseOrder i
      let f ← loadMaf maf (j.toNat + i.val * attrMax)
      return message ++ sprintfParam j (phase k) f.MeanValue ++ [ ',']) message) messageHeader

/-- `send_data`: the characters that `send` is given. The last comma gives way
to the terminator, up to which `strlen` counts. -/
def sendData (maf : ℕ → TMAF R) : m (List Char) := do
  let message ← printParams maf
  require (message.length ≤ 1000) .outOfBounds
  let message := message.dropLast ++ [nul]
  return message.takeWhile (· ≠ nul)

end Code

/-! ## The text of a message -/

section TextLemmas

variable {R : Type} [Field R] [LinearOrder R] [FloorRing R]

/-- The characters of a printed value. -/
def valueChar (c : Char) : Prop := c = '-' ∨ c = '.' ∨ c.isDigit = true

theorem valueChar_digitChar {n : ℕ} (hn : n < 10) : valueChar (Nat.digitChar n) := by
  refine .inr (.inr ?_)
  rw [Nat.isDigit_digitChar]
  simpa using hn

theorem valueChar_twoDecimals (x : R) : ∀ c ∈ twoDecimals x, valueChar c := by
  intro c hc
  simp only [twoDecimals, List.mem_append, List.mem_cons, List.not_mem_nil, or_false] at hc
  rcases hc with (hSign | hInt) | rfl | rfl | rfl
  · -- the sign
    split at hSign
    · exact .inl (List.mem_singleton.mp hSign)
    · cases hSign
  · -- the integer part
    exact .inr (.inr (Nat.isDigit_of_mem_toDigits (by decide) le_rfl hInt))
  · exact .inr (.inl rfl)
  · exact valueChar_digitChar (Nat.mod_lt _ (by decide))
  · exact valueChar_digitChar (Nat.mod_lt _ (by decide))

/-- A character that no value contains is in no value. -/
theorem not_mem_twoDecimals {c : Char} (hc : ¬ valueChar c) (x : R) : c ∉ twoDecimals x :=
  fun h => hc (valueChar_twoDecimals x c h)

/-- A separator is in no item: neither in a name nor in a value. -/
theorem not_mem_sprintfParam {s : Char} (hName : ∀ a, s ∉ paramName a)
    (hPhase : ∀ i, s ≠ phase i) (hColon : s ≠ ':') (hValue : ¬ valueChar s)
    (j : EAttributes) (i : Fin 3) (x : R) : s ∉ sprintfParam j (phase i) x := by
  simp only [sprintfParam, List.mem_append, List.mem_cons, List.not_mem_nil, or_false, not_or]
  exact ⟨⟨hName j, hPhase i, hColon⟩, not_mem_twoDecimals hValue x⟩

theorem comma_not_mem (j : EAttributes) (i : Fin 3) (x : R) :
    ',' ∉ sprintfParam j (phase i) x :=
  not_mem_sprintfParam (by intro a; cases a <;> decide) (by decide) (by decide)
    (by simp only [valueChar]; decide) j i x

theorem nul_not_mem (j : EAttributes) (i : Fin 3) (x : R) :
    nul ∉ sprintfParam j (phase i) x :=
  not_mem_sprintfParam (by intro a; cases a <;> decide) (by decide) (by decide)
    (by simp only [valueChar]; decide) j i x

/-- Items with a comma after each, less the last comma. -/
theorem dropLast_flatMap_comma {l : List (List Char)} (hl : l ≠ []) :
    (l.flatMap (· ++ [ ','])).dropLast = List.intercalate [ ','] l := by
  induction l with
  | nil => exact absurd rfl hl
  | cons item rest ih =>
    cases rest with
    | nil => simp
    | cons next rest =>
      rw [List.intercalate_cons_cons, ← ih (List.cons_ne_nil _ _), List.flatMap_cons]
      rw [List.dropLast_append_of_ne_nil (by simp)]

/-- The items of a message, in the order they are printed. -/
def items (value : Fin 3 → EAttributes → R) : List (List Char) :=
  (List.finRange 3).flatMap fun c => attributes.map fun a => sprintfParam a (phase c) (value c a)

theorem mem_items {value : Fin 3 → EAttributes → R} {item : List Char} :
    item ∈ items value ↔ ∃ c a, item = sprintfParam a (phase c) (value c a) := by
  simp only [items, List.mem_flatMap, List.mem_finRange, List.mem_map, true_and]
  constructor
  · rintro ⟨c, a, -, rfl⟩
    exact ⟨c, a, rfl⟩
  · rintro ⟨c, a, rfl⟩
    exact ⟨c, a, mem_attributes a, rfl⟩

theorem items_ne_nil (value : Fin 3 → EAttributes → R) : items value ≠ [] :=
  List.ne_nil_of_mem (mem_items.mpr ⟨0, .ATTR_PF, rfl⟩)

theorem messageText_eq (value : Fin 3 → EAttributes → R) :
    messageText value = messageHeader ++ List.intercalate [ ','] (items value) := rfl

theorem mem_intercalate_comma {l : List (List Char)} {c : Char}
    (h : c ∈ List.intercalate [ ','] l) : c = ',' ∨ ∃ item ∈ l, c ∈ item := by
  induction l with
  | nil => cases h
  | cons item rest ih =>
    cases rest with
    | nil =>
      rw [List.intercalate_singleton] at h
      exact .inr ⟨item, List.mem_singleton_self _, h⟩
    | cons next rest =>
      rw [List.intercalate_cons_cons, List.mem_append, List.mem_append] at h
      rcases h with (h | h) | h
      · exact .inr ⟨item, List.mem_cons_self .., h⟩
      · exact .inl (List.mem_singleton.mp h)
      · rcases ih h with h | ⟨item', hMem, h⟩
        · exact .inl h
        · exact .inr ⟨item', List.mem_cons_of_mem _ hMem, h⟩

theorem nul_not_mem_messageText (value : Fin 3 → EAttributes → R) :
    nul ∉ messageText value := by
  rw [messageText_eq, List.mem_append, not_or]
  refine ⟨by decide, fun h => ?_⟩
  rcases mem_intercalate_comma h with h | ⟨item, hItem, h⟩
  · exact absurd h (by decide)
  · obtain ⟨c, a, rfl⟩ := mem_items.mp hItem
    exact nul_not_mem a c _ h

end TextLemmas

/-! ## What `send_data` sends -/

section SendData

variable {R : Type} [Field R] [LinearOrder R] [FloorRing R]

/-- The place of an attribute of a phase among the filters. -/
def mafIndex (i : Fin 3) (a : EAttributes) : ℕ := a.toNat + i.val * attrMax

theorem mafIndex_lt (i : Fin 3) (a : EAttributes) : mafIndex i a < numberOfMafBuffers := by
  have ha := a.toNat_lt
  have hi := i.isLt
  unfold mafIndex numberOfMafBuffers attrMax at *
  omega

/-- Attributes and phases do not share filters. -/
theorem mafIndex_inj {i i' : Fin 3} {a a' : EAttributes} (h : mafIndex i a = mafIndex i' a') :
    i = i' ∧ a = a' := by
  have ha := a.toNat_lt
  have ha' := a'.toNat_lt
  unfold mafIndex attrMax at *
  have hi : i.val = i'.val := by omega
  have hNat : a.toNat = a'.toNat := by
    rw [hi] at h
    omega
  exact ⟨Fin.ext hi, EAttributes.toNat_inj hNat⟩

/-- What the stored means are printed as. -/
def storedMeans (maf : ℕ → TMAF R) (c : Fin 3) (a : EAttributes) : R :=
  (maf (mafIndex c a)).MeanValue

theorem printParams_eq {m : Type → Type} [Monad m] [LawfulMonad m] [MonadRequire m]
    [LawfulRequire m] (maf : ℕ → TMAF R) :
    (printParams maf : m (List Char)) =
      pure (messageHeader ++ (items (storedMeans maf)).flatMap (· ++ [ ','])) := by
  have hItem : ∀ (i : Fin 3) (j : EAttributes) (message : List Char), (do
      let f ← loadMaf maf (j.toNat + i.val * attrMax)
      return message ++ sprintfParam j (phase (phaseOrder i)) f.MeanValue ++ [ ','] :
        m (List Char)) =
      pure (message ++ (sprintfParam j (phase i) (storedMeans maf i j) ++ [ ','])) := by
    intro i j message
    have hIndex : j.toNat + i.val * attrMax < numberOfMafBuffers := mafIndex_lt i j
    rw [loadMaf, require_of hIndex, pure_bind, pure_bind, phaseOrder_eq, List.append_assoc]
    rfl
  -- the inner loop appends the items of one phase
  have hPhase : ∀ (i : Fin 3) (l : List EAttributes) (message : List Char),
      l.foldlM (fun message j => do
        let f ← loadMaf maf (j.toNat + i.val * attrMax)
        return message ++ sprintfParam j (phase (phaseOrder i)) f.MeanValue ++ [ ',']) message =
      (pure (message ++ (l.map fun a => sprintfParam a (phase i)
        (storedMeans maf i a)).flatMap (· ++ [ ','])) : m (List Char)) := by
    intro i l
    induction l with
    | nil => simp
    | cons j l ih =>
      intro message
      rw [List.foldlM_cons, hItem, pure_bind, ih]
      simp
  have hAll : ∀ (l : List (Fin 3)) (message : List Char),
      l.foldlM (fun message i => attributes.foldlM (fun message j => do
        let f ← loadMaf maf (j.toNat + i.val * attrMax)
        return message ++ sprintfParam j (phase (phaseOrder i)) f.MeanValue ++ [ ',']) message)
        message =
      (pure (message ++ (l.flatMap fun c => attributes.map fun a => sprintfParam a (phase c)
        (storedMeans maf c a)).flatMap (· ++ [ ','])) : m (List Char)) := by
    intro l
    induction l with
    | nil => simp
    | cons i l ih =>
      intro message
      rw [List.foldlM_cons, hPhase, pure_bind, ih]
      simp
  exact hAll (List.finRange 3) messageHeader

/-- The buffer without its last comma. -/
theorem dropLast_message (value : Fin 3 → EAttributes → R) :
    (messageHeader ++ (items value).flatMap (· ++ [ ','])).dropLast = messageText value := by
  have hItems : (items value).flatMap (· ++ [ ',']) ≠ [] := by
    obtain ⟨item, rest, hEq⟩ := List.exists_cons_of_ne_nil (items_ne_nil value)
    simp [hEq]
  rw [List.dropLast_append_of_ne_nil hItems, dropLast_flatMap_comma (items_ne_nil value)]
  rfl

/-- The text up to the terminator that replaces the last comma. -/
theorem takeWhile_message (value : Fin 3 → EAttributes → R) :
    ((messageHeader ++ (items value).flatMap (· ++ [ ','])).dropLast ++ [nul]).takeWhile
      (· ≠ nul) = messageText value := by
  have hNul : ∀ c ∈ messageText value, decide (c ≠ nul) = true := fun c hc => by
    refine decide_eq_true ?_
    rintro rfl
    exact nul_not_mem_messageText value hc
  rw [dropLast_message, List.takeWhile_append_of_pos hNul]
  simp

/-- **The text of a second.** Whatever it overwrites, `send_data` sends the text
of the stored means. -/
theorem sendData_text (maf : ℕ → TMAF R) :
    (sendData (m := Id) maf).run = messageText (storedMeans maf) := by
  rw [sendData, printParams_eq, pure_bind]
  exact takeWhile_message (storedMeans maf)

/-- Where the message fits its buffer, sending it meets its requirements. -/
theorem sendData_computes (maf : ℕ → TMAF R)
    (hFits : (messageText (storedMeans maf)).length + 1 ≤ 1000) :
    Computes (fun m => sendData (m := m) maf) (messageText (storedMeans maf)) := by
  intro m _ _ _ _
  have hLength : (messageHeader ++ (items (storedMeans maf)).flatMap (· ++ [ ','])).length ≤
      1000 := by
    rw [← dropLast_message, List.length_dropLast] at hFits
    omega
  show sendData (m := m) maf = _
  rw [sendData, printParams_eq, pure_bind, require_of hLength, pure_bind]
  exact congrArg pure (takeWhile_message (storedMeans maf))

/-- The checked reading sends a message exactly where it fits. -/
theorem sendData_eq_ok_iff {maf : ℕ → TMAF R} {message : List Char} :
    sendData (m := Except Fault) maf = .ok message ↔
      (messageText (storedMeans maf)).length + 1 ≤ 1000 ∧
        message = messageText (storedMeans maf) := by
  constructor
  · intro h
    have hBind := h
    rw [sendData, printParams_eq, pure_bind, bind_eq_ok] at hBind
    obtain ⟨_, hRequire, -⟩ := hBind
    -- the text with its last comma is as long as the text with the terminator
    have hFits : (messageText (storedMeans maf)).length + 1 ≤ 1000 := by
      rw [← dropLast_message, List.length_dropLast]
      have hLength := of_require_eq_ok hRequire
      omega
    refine ⟨hFits, ?_⟩
    have hOk := h.symm.trans (sendData_computes maf hFits).checked
    exact Except.ok.inj hOk
  · rintro ⟨hFits, rfl⟩
    exact (sendData_computes maf hFits).checked

end SendData

end EnergyMeter.Meter
