import Mathlib.Data.List.Induction
import Mathlib.Data.List.Nodup
import Mathlib.Logic.Function.Basic

/-!
# An interrupt controller

System events are collected into channels and channels are led to host lines. Two tables
of registers hold the routes, four fields of a byte in a word; other registers set, clear,
enable and disable by masks, 32 events in each, or by the number of one event or line.

* `field`, `orField` — a table of fields, and `|=` into one of them.
* `maskOf` — a mask that is added up bit by bit.
* `Controller`, `Controller.write` — the registers and what a store into one does.
* `Controller.line` — the level of a host line.

Main results:

* `field_table` — a cleared table that a list of entries is or'ed into.
* `getLsbD_maskOf` — a mask has the bits of the list.
* `line_iff` — a line is up exactly while an enabled event of its route is pending.
-/

namespace EnergyMeter.Lib.Intc

/-! ## Tables of fields -/

/-- Field `i` of a table of words. -/
def field (words : ℕ → BitVec 32) (i : ℕ) : BitVec 8 := (words (i / 4)).extractLsb' (8 * (i % 4)) 8

/-- `|=` of a byte into field `i`. -/
def orField (words : ℕ → BitVec 32) (i : ℕ) (v : BitVec 8) : ℕ → BitVec 32 :=
  Function.update words (i / 4) (words (i / 4) ||| v.setWidth 32 <<< (8 * (i % 4)))

theorem field_orField (words : ℕ → BitVec 32) (i j : ℕ) (v : BitVec 8) :
    field (orField words i v) j = if j = i then field words j ||| v else field words j := by
  by_cases hWord : j / 4 = i / 4
  · refine BitVec.eq_of_getLsbD_eq fun b hb => ?_
    have hBit : (field (orField words i v) j).getLsbD b = ((field words j).getLsbD b ||
        (decide (8 * (i % 4) ≤ 8 * (j % 4) + b) && v.getLsbD (8 * (j % 4) + b - 8 * (i % 4)))) := by
      rw [field, orField, hWord, Function.update_self, field, BitVec.getLsbD_extractLsb',
        BitVec.getLsbD_extractLsb', BitVec.getLsbD_or, BitVec.getLsbD_shiftLeft,
        BitVec.getLsbD_setWidth, hWord]
      have hLt : 8 * (j % 4) + b < 32 := by omega
      have hLt' : 8 * (j % 4) + b - 8 * (i % 4) < 32 := by omega
      by_cases hLe : 8 * (i % 4) ≤ 8 * (j % 4) + b
      · simp [hb, hLt, hLt', hLe, Nat.not_lt.mpr hLe]
      · simp [hb, hLe, Nat.lt_of_not_le hLe]
    rw [hBit]
    by_cases hEq : j = i
    · subst hEq
      rw [if_pos rfl, BitVec.getLsbD_or, Nat.add_sub_cancel_left, decide_eq_true (Nat.le_add_right _ _),
        Bool.true_and]
    · -- another field of the same word
      have hNe : j % 4 ≠ i % 4 := fun hMod => hEq (by omega)
      rw [if_neg hEq]
      by_cases hLe : 8 * (i % 4) ≤ 8 * (j % 4) + b
      · rw [BitVec.getLsbD_of_ge v _ (by omega), Bool.and_false, Bool.or_false]
      · rw [decide_eq_false hLe, Bool.false_and, Bool.or_false]
  · have hEq : j ≠ i := fun h => hWord (h ▸ rfl)
    rw [if_neg hEq, field, orField, Function.update_of_ne hWord, ← field]

/-- Several entries, one after the other. -/
def orFields (words : ℕ → BitVec 32) (entries : List (ℕ × BitVec 8)) : ℕ → BitVec 32 :=
  entries.foldl (fun words p => orField words p.1 p.2) words

/-- **A field of several entries** collects those that are its own. -/
theorem field_orFields (entries : List (ℕ × BitVec 8)) (words : ℕ → BitVec 32) (i : ℕ) :
    field (orFields words entries) i =
      (entries.filter fun p => p.1 = i).foldl (fun a p => a ||| p.2) (field words i) := by
  induction entries generalizing words with
  | nil => rfl
  | cons p entries ih =>
    rw [orFields, List.foldl_cons, ← orFields, ih, field_orField, List.filter_cons]
    by_cases hEq : p.1 = i
    · rw [if_pos hEq.symm, if_pos (decide_eq_true hEq), List.foldl_cons]
    · rw [if_neg (Ne.symm hEq), if_neg (by simpa using hEq)]

/-- **A table of routes**: with one entry for each field it holds the entries. -/
theorem field_table {entries : List (ℕ × BitVec 8)} (hNodup : (entries.map Prod.fst).Nodup)
    {words : ℕ → BitVec 32} {i : ℕ} (hClear : field words i = 0) :
    field (orFields words entries) i = ((entries.find? fun p => p.1 = i).map Prod.snd).getD 0 := by
  rw [field_orFields, hClear]
  induction entries with
  | nil => rfl
  | cons p entries ih =>
    rw [List.map_cons, List.nodup_cons] at hNodup
    obtain ⟨hNotMem, hRest⟩ := hNodup
    by_cases hEq : p.1 = i
    · -- no entry behind the first one has its number
      have hNone : entries.filter (fun q => q.1 = i) = [] := by
        refine List.filter_eq_nil_iff.mpr fun q hq hSame => hNotMem ?_
        rw [hEq, ← of_decide_eq_true hSame]
        exact List.mem_map_of_mem hq
      rw [List.filter_cons, if_pos (decide_eq_true hEq), hNone, List.find?_cons,
        decide_eq_true hEq]
      exact BitVec.zero_or
    · rw [List.filter_cons, if_neg (by simpa using hEq), List.find?_cons, decide_eq_false hEq]
      exact ih hRest

/-! ## Masks -/

/-- `mask = mask + (1 << e)` for one number after the other. -/
def maskOf (es : List ℕ) : BitVec 32 := es.foldl (fun mask e => mask + 1#32 <<< e) 0#32

theorem getLsbD_add_bit {mask : BitVec 32} {e : ℕ} (h : mask.getLsbD e = false) (k : ℕ) (hk : k < 32) :
    (mask + 1#32 <<< e).getLsbD k = (mask.getLsbD k || decide (k = e)) := by
  have hBit : ∀ k < 32, (1#32 <<< e).getLsbD k = decide (k = e) := by
    intro k hk
    rw [← BitVec.twoPow_eq, BitVec.getLsbD_twoPow, ← Bool.decide_and]
    exact decide_eq_decide.mpr ⟨fun hBoth => hBoth.2.symm, fun hEq => ⟨hEq ▸ hk, hEq.symm⟩⟩
  -- nothing is carried
  have hApart : mask &&& 1#32 <<< e = 0#32 := by
    refine BitVec.eq_of_getLsbD_eq fun k hk => ?_
    rw [BitVec.getLsbD_and, hBit k hk, BitVec.getLsbD_zero]
    by_cases hEq : k = e
    · rw [hEq, h, Bool.false_and]
    · rw [decide_eq_false hEq, Bool.and_false]
  rw [BitVec.add_eq_or_of_and_eq_zero _ _ hApart, BitVec.getLsbD_or, hBit k hk]

/-- The test of a bit. -/
theorem and_bit_ne_zero {x : BitVec 32} {i : ℕ} (hi : i < 32) :
    x &&& 1#32 <<< i ≠ 0 ↔ x.getLsbD i = true := by
  rw [← BitVec.twoPow_eq, BitVec.and_twoPow]
  split
  · rename_i hBit
    refine iff_of_true (fun hZero => ?_) hBit
    have hNat := congrArg BitVec.toNat hZero
    rw [BitVec.toNat_twoPow_of_lt hi] at hNat
    exact absurd hNat (Nat.ne_of_gt (Nat.two_pow_pos i))
  · rename_i hBit
    exact iff_of_false (fun hNe => hNe rfl) hBit

/-- **A mask** has the bits of a list without repetition. -/
theorem getLsbD_maskOf {es : List ℕ} (hNodup : es.Nodup) {k : ℕ} (hk : k < 32) :
    (maskOf es).getLsbD k = decide (k ∈ es) := by
  induction es using List.reverseRecOn generalizing k with
  | nil => simp [maskOf]
  | append_singleton es e ih =>
    have hParts := List.nodup_append.mp hNodup
    have hNotMem : e ∉ es := fun hMem => hParts.2.2 e hMem e (List.mem_singleton_self e) rfl
    have hFree : (maskOf es).getLsbD e = false := by
      by_cases he : e < 32
      · rw [ih hParts.1 he, decide_eq_false hNotMem]
      · exact BitVec.getLsbD_of_ge _ _ (by omega)
    have hLast : maskOf (es ++ [e]) = maskOf es + 1#32 <<< e := by
      rw [maskOf, List.foldl_append, ← maskOf]
      rfl
    rw [hLast, getLsbD_add_bit hFree k hk, ih hParts.1 hk, ← Bool.decide_or]
    simp only [List.mem_append, List.mem_singleton]

/-! ## The controller -/

structure Controller where
  /-- The events that are pending. -/
  status : ℕ → Bool
  enabled : ℕ → Bool
  /-- The channel of every event, in fields. -/
  channels : ℕ → BitVec 32
  /-- The host line of every channel, in fields. -/
  hosts : ℕ → BitVec 32
  hostEnabled : ℕ → Bool
  global : Bool
  /-- A bit for every event, in words: its signal is high when it is active. -/
  polarity : ℕ → BitVec 32
  /-- A bit for every event, in words: its signal is an edge, not a level or a pulse. -/
  type : ℕ → BitVec 32

/-- What can be written. -/
inductive Register
  | globalEnable
  | /-- the number of an event -/ statusClearIndex
  | /-- the number of a line -/ hostEnableIndex
  | /-- the number of a line -/ hostDisableIndex
  | /-- mask of events `32 k, …` -/ statusSet (k : ℕ)
  | /-- mask of events `32 k, …` -/ statusClear (k : ℕ)
  | /-- mask of events `32 k, …` -/ enableSet (k : ℕ)
  | /-- mask of events `32 k, …` -/ enableClear (k : ℕ)
  | /-- word `k` of the table -/ channelMap (k : ℕ)
  | /-- word `k` of the table -/ hostMap (k : ℕ)
  | /-- word `k` of the polarities -/ polarity (k : ℕ)
  | /-- word `k` of the types -/ type (k : ℕ)
deriving DecidableEq, Repr

/-- Event `e` has its bit in a mask for events `32 k, …`. -/
def masked (k : ℕ) (v : BitVec 32) (e : ℕ) : Bool := decide (e / 32 = k) && v.getLsbD (e % 32)

namespace Controller

def write (c : Controller) (r : Register) (v : BitVec 32) : Controller :=
  match r with
  | .globalEnable => { c with global := v.getLsbD 0 }
  | .statusClearIndex => { c with status := Function.update c.status v.toNat false }
  | .hostEnableIndex => { c with hostEnabled := Function.update c.hostEnabled v.toNat true }
  | .hostDisableIndex => { c with hostEnabled := Function.update c.hostEnabled v.toNat false }
  | .statusSet k => { c with status := fun e => c.status e || masked k v e }
  | .statusClear k => { c with status := fun e => c.status e && !masked k v e }
  | .enableSet k => { c with enabled := fun e => c.enabled e || masked k v e }
  | .enableClear k => { c with enabled := fun e => c.enabled e && !masked k v e }
  | .channelMap k => { c with channels := Function.update c.channels k v }
  | .hostMap k => { c with hosts := Function.update c.hosts k v }
  | .polarity k => { c with polarity := Function.update c.polarity k v }
  | .type k => { c with type := Function.update c.type k v }

/-- An event that comes from outside. -/
def raise (c : Controller) (e : ℕ) : Controller := { c with status := Function.update c.status e true }

def channelOf (c : Controller) (e : ℕ) : ℕ := (field c.channels e).toNat

/-- The signal of event `e` is active when it is high. -/
def activeHigh (c : Controller) (e : ℕ) : Bool := (c.polarity (e / 32)).getLsbD (e % 32)

/-- The signal of event `e` is an edge. -/
def edge (c : Controller) (e : ℕ) : Bool := (c.type (e / 32)).getLsbD (e % 32)

def hostOf (c : Controller) (ch : ℕ) : ℕ := (field c.hosts ch).toNat

/-- The line that event `e` is led to. -/
def route (c : Controller) (e : ℕ) : ℕ := c.hostOf (c.channelOf e)

/-- The events are 64. -/
def line (c : Controller) (h : ℕ) : Bool :=
  c.global && c.hostEnabled h &&
    (List.range 64).any fun e => c.status e && c.enabled e && decide (c.route e = h)

theorem line_iff {c : Controller} {h : ℕ} :
    c.line h = true ↔ c.global = true ∧ c.hostEnabled h = true ∧
      ∃ e < 64, c.status e = true ∧ c.enabled e = true ∧ c.route e = h := by
  simp only [line, Bool.and_eq_true, List.any_eq_true, List.mem_range, decide_eq_true_eq, and_assoc]

/-- Two controllers that lead every event the same way, with the same ones enabled. -/
structure SameRoutes (c c' : Controller) : Prop where
  enabled : c'.enabled = c.enabled
  channels : c'.channels = c.channels
  hosts : c'.hosts = c.hosts
  global : c'.global = c.global

theorem SameRoutes.refl (c : Controller) : SameRoutes c c := ⟨rfl, rfl, rfl, rfl⟩

theorem SameRoutes.trans {c c' c'' : Controller} (h : SameRoutes c c') (h' : SameRoutes c' c'') :
    SameRoutes c c'' :=
  ⟨h'.enabled.trans h.enabled, h'.channels.trans h.channels, h'.hosts.trans h.hosts,
    h'.global.trans h.global⟩

theorem SameRoutes.route {c c' : Controller} (h : SameRoutes c c') (e : ℕ) :
    c'.route e = c.route e := by
  rw [Controller.route, Controller.route, hostOf, hostOf, channelOf, channelOf, h.channels, h.hosts]

end Controller

end EnergyMeter.Lib.Intc
