import EnergyMeter.Daq.Driver
import Mathlib.Data.List.Perm.Subperm

/-!
# The interrupt controller after `prussdrv_pruintc_init`

The tables of the controller are cleared and the entries of the configuration or'ed into
them, the masks of the enabled events are added up. For a configuration in which no event
and no channel has two entries, what the controller then does is what the configuration
says, whatever the registers held before.

* `IntcInitdata.Valid` — what the code relies on.
* `Routed` — the controller afterwards.

Main result:

* `pruintcInit_routes` — the call, and when it fails.
-/

namespace EnergyMeter.Daq.Driver

open Lib Lib.Intc

/-! ## Stores into the controller -/

section Stores

variable {k : ℕ} {r : Register}

theorem store_intc (hk : k < 0x800) (hReg : intcRegister (4 * k) = some r) (p : Pruss)
    (v : BitVec 32) : p.store (am33xx.intc + k) v = { p with intc := p.intc.write r v } := by
  have hIn : InIntc (am33xx.intc + k) := by
    refine ⟨Nat.le_add_right _ _, ?_⟩
    show 0x8000 + k < 0x8800
    omega
  rw [Pruss.store, if_pos hIn, Nat.add_sub_cancel_left, hReg]

theorem store_words {w : ℕ} (hw : ¬InIntc w) (p : Pruss) (v : BitVec 32) :
    p.store w v = { p with words := Function.update p.words w v } := by
  rw [Pruss.store, if_neg hw]

end Stores

/-! ## Tables -/

/-- The `n` words at offset `table` of the controller are a table that `get` reads and `put`
replaces. -/
structure IsTable (table n : ℕ) (get : Controller → ℕ → BitVec 32)
    (put : Controller → (ℕ → BitVec 32) → Controller) : Prop where
  fits : n ≤ 16 ∧ 4 ∣ table
  store : ∀ (p : Pruss) {k : ℕ} (v : BitVec 32), k < n →
    p.store (am33xx.intc + (table / 4 + k)) v =
      { p with intc := put p.intc (Function.update (get p.intc) k v) }
  load : ∀ (p : Pruss) {k : ℕ}, k < n → p.load (am33xx.intc + (table / 4 + k)) = get p.intc k
  get_put : ∀ c words, get (put c words) = words
  put_get : ∀ c, put c (get c) = c
  put_put : ∀ c words words', put (put c words) words' = put c words'

theorem cmr_isTable :
    IsTable pruIntcCmr1Reg 16 Controller.channels fun c words => { c with channels := words } := by
  have hReg : ∀ k < 16, intcRegister (4 * (pruIntcCmr1Reg / 4 + k)) = some (.channelMap k) := by
    decide
  have hIn : ∀ k < 16, InIntc (am33xx.intc + (pruIntcCmr1Reg / 4 + k)) := by decide
  refine ⟨by decide, fun p k v hk => ?_, fun p k hk => ?_, fun _ _ => rfl, fun _ => rfl,
    fun _ _ _ => rfl⟩
  · exact store_intc (by show 0x100 + k < 0x800; omega) (hReg k hk) p v
  · rw [Pruss.load, if_pos (hIn k hk), Nat.add_sub_cancel_left, hReg k hk]

theorem hmr_isTable :
    IsTable pruIntcHmr1Reg 3 Controller.hosts fun c words => { c with hosts := words } := by
  have hReg : ∀ k < 3, intcRegister (4 * (pruIntcHmr1Reg / 4 + k)) = some (.hostMap k) := by decide
  have hIn : ∀ k < 3, InIntc (am33xx.intc + (pruIntcHmr1Reg / 4 + k)) := by decide
  refine ⟨by decide, fun p k v hk => ?_, fun p k hk => ?_, fun _ _ => rfl, fun _ => rfl,
    fun _ _ _ => rfl⟩
  · exact store_intc (by show 0x200 + k < 0x800; omega) (hReg k hk) p v
  · rw [Pruss.load, if_pos (hIn k hk), Nat.add_sub_cancel_left, hReg k hk]

/-- The entry of a table that `__prussintc_set_cmr` and `__prussintc_set_hmr` add. -/
def entry (e : BitVec 16 × BitVec 16) : ℕ × BitVec 8 := (e.1.toNat, (e.2 &&& 0xF#16).setWidth 8)

/-- The word and the place in it. -/
theorem entry_place {x : BitVec 16} (hx : x.toNat < 64) :
    (x &&& ~~~(3#16)).toNat = 4 * (x.toNat / 4) ∧ (x &&& 3#16).toNat <<< 3 = 8 * (x.toNat % 4) := by
  have hCheck : ∀ n < 64, (BitVec.ofNat 16 n &&& ~~~(3#16)).toNat = 4 * (n / 4) ∧
      (BitVec.ofNat 16 n &&& 3#16).toNat <<< 3 = 8 * (n % 4) := by decide
  have hPlace := hCheck x.toNat hx
  rwa [BitVec.ofNat_toNat, BitVec.setWidth_eq] at hPlace

theorem entry_value (x : BitVec 16) :
    (x &&& 0xF#16).setWidth 32 = ((x &&& 0xF#16).setWidth 8).setWidth 32 := by
  have hSmall : (x &&& 0xF#16).toNat ≤ 15 := by
    rw [BitVec.toNat_and]
    exact Nat.and_le_right
  refine BitVec.eq_of_toNat_eq ?_
  rw [BitVec.toNat_setWidth, BitVec.toNat_setWidth, BitVec.toNat_setWidth]
  omega

/-- The first `n` words of a table, cleared. -/
def clearWords (n : ℕ) (words : ℕ → BitVec 32) (k : ℕ) : BitVec 32 := if k < n then 0 else words k

theorem clearWords_succ (n : ℕ) (words : ℕ → BitVec 32) :
    Function.update (clearWords n words) n 0 = clearWords (n + 1) words := by
  funext k
  by_cases hk : k = n
  · rw [hk, Function.update_self, clearWords, if_pos (Nat.lt_succ_self n)]
  · rw [Function.update_of_ne hk, clearWords, clearWords]
    simp only [show k < n + 1 ↔ k < n by omega]

theorem field_clearWords {n i : ℕ} (hi : i / 4 < n) (words : ℕ → BitVec 32) :
    field (clearWords n words) i = 0 := by
  rw [field, clearWords, if_pos hi]
  simp

section Tables

variable {table n : ℕ} {get : Controller → ℕ → BitVec 32}
  {put : Controller → (ℕ → BitVec 32) → Controller}

theorem IsTable.set_eq (h : IsTable table n get put) {e : BitVec 16 × BitVec 16}
    (he : e.1.toNat < 4 * n) (p : Pruss) :
    prussintcSet table am33xx.intc p e =
      { p with intc := put p.intc (orField (get p.intc) (entry e).1 (entry e).2) } := by
  obtain ⟨hLe, hDvd⟩ := h.fits
  obtain ⟨hWord, hShift⟩ := entry_place (show e.1.toNat < 64 by omega)
  have hk : e.1.toNat / 4 < n := by omega
  have hAddr : (table + (e.1 &&& ~~~(3#16)).toNat) >>> 2 = table / 4 + e.1.toNat / 4 := by
    rw [hWord, Nat.shiftRight_eq_div_pow]
    omega
  simp only [prussintcSet]
  rw [hAddr, h.load p hk, h.store p _ hk, hShift, entry_value]
  rfl

/-- The loop over the entries. -/
theorem IsTable.sets_eq (h : IsTable table n get put) {entries : List (BitVec 16 × BitVec 16)}
    (hEntries : ∀ e ∈ entries, e.1.toNat < 4 * n) (p : Pruss) :
    entries.foldl (prussintcSet table am33xx.intc) p =
      { p with intc := put p.intc (orFields (get p.intc) (entries.map entry)) } := by
  induction entries generalizing p with
  | nil => rw [List.map_nil, orFields, List.foldl_nil, List.foldl_nil, h.put_get]
  | cons e entries ih =>
    rw [List.foldl_cons, h.set_eq (hEntries e List.mem_cons_self),
      ih fun e he => hEntries e (List.mem_cons_of_mem _ he), h.get_put, h.put_put]
    rfl

theorem IsTable.clear_eq (h : IsTable table n get put) {i : ℕ} (hi : i ≤ n) (p : Pruss) :
    clearTable table i am33xx.intc p =
      { p with intc := put p.intc (clearWords i (get p.intc)) } := by
  obtain ⟨-, hDvd⟩ := h.fits
  induction i with
  | zero =>
    have hNone : clearWords 0 (get p.intc) = get p.intc := rfl
    rw [hNone, h.put_get]
    rfl
  | succ i ih =>
    have hStep := ih (by omega)
    rw [clearTable] at hStep ⊢
    rw [List.range_succ, List.foldl_append, hStep, List.foldl_cons, List.foldl_nil,
      Nat.shiftRight_eq_div_pow, Nat.add_assoc, h.store _ _ (by omega), h.get_put, h.put_put,
      clearWords_succ]

end Tables

/-- Two words, all of whose bits are `v`. -/
def bothWords (v : BitVec 32) (words : ℕ → BitVec 32) : ℕ → BitVec 32 :=
  Function.update (Function.update words 0 v) 1 v

theorem bothWords_div {e : ℕ} (he : e < 64) (v : BitVec 32) (words : ℕ → BitVec 32) :
    bothWords v words (e / 32) = v := by
  have hCases : e / 32 = 0 ∨ e / 32 = 1 := by omega
  rcases hCases with h | h <;> rw [h] <;> rfl

/-- The two tables, and the signals behind the events. -/
theorem routeEvents_eq {data : IntcInitdata}
    (hEvents : ∀ e ∈ data.sysevtToChannelMap, e.1.toNat < 64)
    (hChannels : ∀ e ∈ data.channelToHostMap, e.1.toNat < 12) (p : Pruss) :
    routeEvents data am33xx.intc p =
      { p with intc := { p.intc with
          polarity := bothWords 0xFFFFFFFF p.intc.polarity
          type := bothWords 0 p.intc.type
          channels := orFields (clearWords 16 p.intc.channels) (data.sysevtToChannelMap.map entry)
          hosts := orFields (clearWords 3 p.intc.hosts) (data.channelToHostMap.map entry) } } := by
  simp only [routeEvents]
  -- the stores in the order of the source
  rw [@store_intc (pruIntcSipr1Reg >>> 2) (.polarity 0) (by decide) (by decide),
    @store_intc (pruIntcSipr2Reg >>> 2) (.polarity 1) (by decide) (by decide),
    show (numPruSysEvts + 3) >>> 2 = 16 from rfl, show (numPruHosts + 3) >>> 2 = 3 from rfl,
    cmr_isTable.clear_eq le_rfl, prussintcSetCmr, cmr_isTable.sets_eq hEvents,
    hmr_isTable.clear_eq le_rfl, prussintcSetHmr, hmr_isTable.sets_eq hChannels,
    @store_intc (pruIntcSitr1Reg >>> 2) (.type 0) (by decide) (by decide),
    @store_intc (pruIntcSitr2Reg >>> 2) (.type 1) (by decide) (by decide)]
  rfl

/-! ## Masks -/

section Masks

/-- The events of the two words. -/
def lowEvents (es : List (BitVec 8)) : List ℕ := (es.map BitVec.toNat).filter (· < 32)

def highEvents (es : List (BitVec 8)) : List ℕ :=
  ((es.map BitVec.toNat).filter (32 ≤ ·)).map (· - 32)

theorem enabledMasks_eq {es : List (BitVec 8)} (h : ∀ e ∈ es, e.toNat < 64) (mask1 mask2 : BitVec 32) :
    enabledMasks es mask1 mask2 =
      some ((lowEvents es).foldl (fun mask e => mask + 1#32 <<< e) mask1,
        (highEvents es).foldl (fun mask e => mask + 1#32 <<< e) mask2) := by
  induction es generalizing mask1 mask2 with
  | nil => rfl
  | cons e es ih =>
    have hRest := fun mask1 mask2 => ih (fun e he => h e (List.mem_cons_of_mem _ he)) mask1 mask2
    have he := h e List.mem_cons_self
    rw [enabledMasks]
    by_cases hLow : e.toNat < 32
    · have hNotHigh : ¬32 ≤ e.toNat := by omega
      rw [if_pos hLow, hRest]
      simp [lowEvents, highEvents, hLow, hNotHigh]
    · have hHigh : 32 ≤ e.toNat := by omega
      rw [if_neg hLow, if_pos he, hRest]
      simp [lowEvents, highEvents, hLow, hHigh]

/-- An event out of range ends the loop. -/
theorem enabledMasks_eq_none {es : List (BitVec 8)} {mask1 mask2 : BitVec 32} :
    enabledMasks es mask1 mask2 = none ↔ ∃ e ∈ es, 64 ≤ e.toNat := by
  constructor
  · intro h
    by_contra hAll
    push Not at hAll
    rw [enabledMasks_eq hAll] at h
    cases h
  · rintro ⟨e, he, hFar⟩
    -- the loop gets to the first event out of range, whatever it has summed up
    induction es generalizing mask1 mask2 with
    | nil => cases he
    | cons x es ih =>
      rw [enabledMasks]
      rcases List.mem_cons.mp he with rfl | hRest
      · rw [if_neg (by omega), if_neg (by omega)]
      · split
        · exact ih hRest
        · split
          · exact ih hRest
          · rfl

/-- An event is in one of the masks if it is in the list. -/
theorem masked_enabled {es : List (BitVec 8)} (hNodup : es.Nodup) (h : ∀ e ∈ es, e.toNat < 64)
    (e : ℕ) :
    (masked 0 (maskOf (lowEvents es)) e || masked 1 (maskOf (highEvents es)) e) =
      decide (e ∈ es.map BitVec.toNat) := by
  have hNodup' : (es.map BitVec.toNat).Nodup := hNodup.map fun _ _ => BitVec.eq_of_toNat_eq
  have hHighNodup : (highEvents es).Nodup := by
    refine (hNodup'.filter _).map_on fun x hx y hy hEq => ?_
    have hx' := of_decide_eq_true (List.mem_filter.mp hx).2
    have hy' := of_decide_eq_true (List.mem_filter.mp hy).2
    omega
  have hLt : e % 32 < 32 := Nat.mod_lt _ (by decide)
  -- bit `b` of the first mask is event `b`, of the second one event `b + 32`
  have hLow : e % 32 ∈ lowEvents es ↔ e % 32 ∈ es.map BitVec.toNat := by
    simp only [lowEvents, List.mem_filter, decide_eq_true hLt, and_true]
  have hHigh : e % 32 ∈ highEvents es ↔ e % 32 + 32 ∈ es.map BitVec.toNat := by
    simp only [highEvents, List.mem_map, List.mem_filter, decide_eq_true_eq]
    constructor
    · rintro ⟨x, ⟨hx, hLe⟩, hEq⟩
      rwa [show e % 32 + 32 = x by omega]
    · intro hMem
      exact ⟨e % 32 + 32, ⟨hMem, by omega⟩, by omega⟩
  have hLowNodup : (lowEvents es).Nodup := hNodup'.filter _
  rw [masked, masked, getLsbD_maskOf hLowNodup hLt, getLsbD_maskOf hHighNodup hLt]
  simp only [hLow, hHigh]
  -- an event of the first word, of the second one, or of none
  rcases Nat.lt_or_ge e 32 with h32 | h32
  · rw [Nat.mod_eq_of_lt h32, show e / 32 = 0 by omega]
    simp
  · rcases Nat.lt_or_ge e 64 with h64 | h64
    · rw [show e % 32 + 32 = e by omega, show e / 32 = 1 by omega]
      simp
    · have hNone : e ∉ es.map BitVec.toNat := by
        intro hMem
        obtain ⟨x, hx, rfl⟩ := List.mem_map.mp hMem
        exact absurd (h x hx) (by omega)
      rw [decide_eq_false hNone, decide_eq_false (show ¬e / 32 = 0 by omega),
        decide_eq_false (show ¬e / 32 = 1 by omega)]
      rfl

/-- The first `n` bits of the mask of the lines. -/
theorem enableHosts_eq {n : ℕ} (hn : n ≤ 32) (bitmask : BitVec 32) (p : Pruss) :
    (List.range n).foldl (fun p i =>
      if bitmask &&& 1#32 <<< i ≠ 0 then
        p.store (am33xx.intc + pruIntcHieisrReg >>> 2) (BitVec.ofNat 32 i)
      else p) p =
      { p with intc := { p.intc with
          hostEnabled := fun h =>
            p.intc.hostEnabled h || (decide (h < n) && bitmask.getLsbD h) } } := by
  induction n with
  | zero => simp
  | succ n ih =>
    have hBit := and_bit_ne_zero (x := bitmask) (show n < 32 by omega)
    have hIndex : (BitVec.ofNat 32 n).toNat = n := by
      rw [BitVec.toNat_ofNat, Nat.mod_eq_of_lt (by omega)]
    have hSucc : ∀ h, h ≠ n → (h < n + 1 ↔ h < n) := fun h hne => by omega
    rw [List.range_succ, List.foldl_append, ih (by omega), List.foldl_cons, List.foldl_nil]
    -- the round of line `n` writes its index, or leaves the line as it is
    split
    · rename_i hSet
      have hLines : Function.update (fun h => p.intc.hostEnabled h ||
          (decide (h < n) && bitmask.getLsbD h)) n true =
            fun h => p.intc.hostEnabled h || (decide (h < n + 1) && bitmask.getLsbD h) := by
        funext h
        by_cases hEq : h = n
        · rw [hEq, Function.update_self, decide_eq_true (Nat.lt_succ_self n), hBit.mp hSet,
            Bool.and_true, Bool.or_true]
        · rw [Function.update_of_ne hEq]
          simp only [hSucc h hEq]
      rw [@store_intc (pruIntcHieisrReg >>> 2) .hostEnableIndex (by decide) (by decide),
        Controller.write, hIndex, hLines]
    · rename_i hSet
      have hLines : (fun h => p.intc.hostEnabled h || (decide (h < n) && bitmask.getLsbD h)) =
          fun h => p.intc.hostEnabled h || (decide (h < n + 1) && bitmask.getLsbD h) := by
        funext h
        by_cases hEq : h = n
        · rw [hEq, Bool.eq_false_of_not_eq_true (mt hBit.mpr hSet)]
          simp
        · simp only [hSucc h hEq]
      rw [hLines]

/-- The masks are written, the events that are enabled lose what was pending. -/
theorem enableEvents_eq {data : IntcInitdata} (hNodup : data.sysevtsEnabled.Nodup)
    (h : ∀ e ∈ data.sysevtsEnabled, e.toNat < 64) (p : Pruss) :
    enableEvents data (maskOf (lowEvents data.sysevtsEnabled))
        (maskOf (highEvents data.sysevtsEnabled)) am33xx.intc p =
      { p with intc := { p.intc with
          status := fun e =>
            p.intc.status e && !decide (e ∈ data.sysevtsEnabled.map BitVec.toNat)
          enabled := fun e =>
            p.intc.enabled e || decide (e ∈ data.sysevtsEnabled.map BitVec.toNat)
          hostEnabled := fun h =>
            p.intc.hostEnabled h || (decide (h < 10) && data.hostEnableBitmask.getLsbD h)
          global := true } } := by
  have hMasks := masked_enabled hNodup h
  simp only [enableEvents, enableHosts]
  -- the stores in the order of the source
  rw [@store_intc (pruIntcEsr1Reg >>> 2) (.enableSet 0) (by decide) (by decide),
    @store_intc (pruIntcSecr1Reg >>> 2) (.statusClear 0) (by decide) (by decide),
    @store_intc (pruIntcEsr2Reg >>> 2) (.enableSet 1) (by decide) (by decide),
    @store_intc (pruIntcSecr2Reg >>> 2) (.statusClear 1) (by decide) (by decide),
    show maxHostsSupported = 10 from rfl, enableHosts_eq (by decide),
    @store_intc (pruIntcGerReg >>> 2) .globalEnable (by decide) (by decide)]
  simp only [Controller.write, ← hMasks, Bool.or_assoc, Bool.and_assoc, Bool.not_or]
  rfl

end Masks

/-! ## The call -/

/-- What the code relies on: no event is enabled twice, none is led to two channels and no
channel to two lines, and all numbers exist. -/
structure IntcInitdata.Valid (data : IntcInitdata) : Prop where
  enabled_nodup : data.sysevtsEnabled.Nodup
  enabled_lt : ∀ e ∈ data.sysevtsEnabled, e.toNat < numPruSysEvts
  events_nodup : (data.sysevtToChannelMap.map fun e => e.1.toNat).Nodup
  events_lt : ∀ e ∈ data.sysevtToChannelMap, e.1.toNat < numPruSysEvts ∧ e.2.toNat < numPruChannels
  channels_nodup : (data.channelToHostMap.map fun e => e.1.toNat).Nodup
  channels_lt : ∀ e ∈ data.channelToHostMap, e.1.toNat < numPruChannels ∧ e.2.toNat < numPruHosts

theorem prussIntcInitdata_valid : prussIntcInitdata.Valid where
  enabled_nodup := by decide
  enabled_lt := by decide
  events_nodup := by decide
  events_lt := by simp [prussIntcInitdata, numPruSysEvts, numPruChannels]
  channels_nodup := by decide
  channels_lt := by simp [prussIntcInitdata, numPruChannels, numPruHosts]

/-- The entry of number `n`. -/
def entryOf (entries : List (BitVec 16 × BitVec 16)) (n : ℕ) : Option (BitVec 16 × BitVec 16) :=
  entries.find? fun e => e.1.toNat = n

/-- The controller `c'` after a call on the controller `c`: the tables and the signals are
those of the configuration, and its events and lines are enabled beside those that were. -/
structure Routed (data : IntcInitdata) (c c' : Controller) : Prop where
  channelOf : ∀ e < numPruSysEvts,
    c'.channelOf e = ((entryOf data.sysevtToChannelMap e).map fun x => x.2.toNat).getD 0
  hostOf : ∀ ch < numPruChannels,
    c'.hostOf ch = ((entryOf data.channelToHostMap ch).map fun x => x.2.toNat).getD 0
  status : ∀ e, c'.status e =
    (c.status e && !decide (e ∈ data.sysevtsEnabled.map BitVec.toNat))
  enabled : ∀ e, c'.enabled e =
    (c.enabled e || decide (e ∈ data.sysevtsEnabled.map BitVec.toNat))
  hostEnabled : ∀ h, c'.hostEnabled h =
    (c.hostEnabled h || (decide (h < 10) && data.hostEnableBitmask.getLsbD h))
  global : c'.global = true
  activeHigh : ∀ e < numPruSysEvts, c'.activeHigh e = true
  edge : ∀ e < numPruSysEvts, c'.edge e = false

section Entries

variable {entries : List (BitVec 16 × BitVec 16)}

theorem entryOf_of_mem (hNodup : (entries.map fun e => e.1.toNat).Nodup) {e : BitVec 16 × BitVec 16}
    (he : e ∈ entries) : entryOf entries e.1.toNat = some e := by
  induction entries with
  | nil => cases he
  | cons x entries ih =>
    rw [List.map_cons, List.nodup_cons] at hNodup
    obtain ⟨hNotMem, hRest⟩ := hNodup
    rcases List.mem_cons.mp he with rfl | hMem
    · rw [entryOf, List.find?_cons, decide_eq_true rfl]
    · have hNe : x.1.toNat ≠ e.1.toNat := fun hEq => hNotMem (hEq ▸ List.mem_map_of_mem hMem)
      rw [entryOf, List.find?_cons, decide_eq_false hNe]
      exact ih hRest hMem

/-- The bound of the search is no bound. -/
theorem entryOf_take (hNodup : (entries.map fun e => e.1.toNat).Nodup) {n : ℕ}
    (h : ∀ e ∈ entries, e.1.toNat < n) (i : ℕ) : entryOf (entries.take n) i = entryOf entries i := by
  have hSubset : (entries.map fun e => e.1.toNat) ⊆ List.range n := by
    intro k hk
    obtain ⟨e, he, rfl⟩ := List.mem_map.mp hk
    exact List.mem_range.mpr (h e he)
  have hLen := (List.subperm_of_subset hNodup hSubset).length_le
  rw [List.length_map, List.length_range] at hLen
  rw [List.take_of_length_le hLen]

/-- What is read of a table that was cleared and filled. -/
theorem field_entries (hNodup : (entries.map fun e => e.1.toNat).Nodup)
    (h : ∀ e ∈ entries, e.2.toNat < 10) {n i : ℕ} (hi : i / 4 < n) (words : ℕ → BitVec 32) :
    (field (orFields (clearWords n words) (entries.map entry)) i).toNat =
      ((entryOf entries i).map fun x => x.2.toNat).getD 0 := by
  have hKeys : ((entries.map entry).map Prod.fst).Nodup := by rwa [List.map_map]
  rw [field_table hKeys (field_clearWords hi words), List.find?_map]
  show ((((entryOf entries i).map entry).map Prod.snd).getD 0).toNat = _
  cases hEntry : entryOf entries i with
  | none => rfl
  | some e =>
    -- four bits are enough for a number below ten
    have hSmall := h e (List.mem_of_find?_eq_some hEntry)
    show ((e.2 &&& 0xF#16).setWidth 8).toNat = e.2.toNat
    rw [BitVec.toNat_setWidth, BitVec.toNat_and]
    have hMask : e.2.toNat &&& (0xF#16).toNat = e.2.toNat % 2 ^ 4 :=
      Nat.and_two_pow_sub_one_eq_mod e.2.toNat 4
    rw [hMask]
    omega

end Entries

section Lookup

variable {data : IntcInitdata}

theorem getEventToChannelMap_of_mem (hValid : data.Valid) {e : BitVec 16 × BitVec 16}
    (he : e ∈ data.sysevtToChannelMap) :
    prussdrvGetEventToChannelMap data e.1.toNat = e.2.toNat := by
  have hFind : (data.sysevtToChannelMap.take numPruSysEvts).find?
      (fun x => x.1.toNat = e.1.toNat) = some e :=
    (entryOf_take hValid.events_nodup (fun x hx => (hValid.events_lt x hx).1) _).trans
      (entryOf_of_mem hValid.events_nodup he)
  have hSmall : e.2.toNat < 10 := (hValid.events_lt e he).2
  rw [prussdrvGetEventToChannelMap, hFind]
  exact BitVec.toInt_eq_toNat_of_lt (by omega)

theorem getChannelToHostMap_of_mem (hValid : data.Valid) {c : BitVec 16 × BitVec 16}
    (hc : c ∈ data.channelToHostMap) :
    prussdrvGetChannelToHostMap data c.1.toNat = (c.2.toNat : ℤ) - 2 := by
  have hFind : (data.channelToHostMap.take numPruChannels).find?
      (fun x => x.1.toNat = c.1.toNat) = some c :=
    (entryOf_take hValid.channels_nodup (fun x hx => (hValid.channels_lt x hx).1) _).trans
      (entryOf_of_mem hValid.channels_nodup hc)
  have hSmall : c.2.toNat < 10 := (hValid.channels_lt c hc).2
  rw [prussdrvGetChannelToHostMap, hFind]
  show c.2.toInt - 2 = _
  rw [BitVec.toInt_eq_toNat_of_lt (by omega)]

theorem getEventToHostMap_of_mem (hValid : data.Valid) {e c : BitVec 16 × BitVec 16}
    (he : e ∈ data.sysevtToChannelMap) (hc : c ∈ data.channelToHostMap) (hMeet : e.2 = c.1) :
    prussdrvGetEventToHostMap data e.1.toNat = (c.2.toNat : ℤ) - 2 := by
  simp only [prussdrvGetEventToHostMap]
  rw [getEventToChannelMap_of_mem hValid he, if_neg (by omega), Int.toNat_natCast, hMeet,
    getChannelToHostMap_of_mem hValid hc]

end Lookup

/-- What the tables and the masks together are. -/
theorem routed_spec {data : IntcInitdata} (hValid : data.Valid) (p : Pruss) :
    ∃ intc, enableEvents data (maskOf (lowEvents data.sysevtsEnabled))
        (maskOf (highEvents data.sysevtsEnabled)) am33xx.intc (routeEvents data am33xx.intc p) =
          { p with intc } ∧ Routed data p.intc intc := by
  have hChannels : ∀ e ∈ data.channelToHostMap, e.1.toNat < 10 := fun e he =>
    (hValid.channels_lt e he).1
  rw [routeEvents_eq (fun e he => (hValid.events_lt e he).1)
    (fun e he => (hChannels e he).trans (by decide)),
    enableEvents_eq hValid.enabled_nodup hValid.enabled_lt]
  refine ⟨_, rfl, fun e he => ?_, fun ch hch => ?_, fun _ => rfl, fun _ => rfl, fun _ => rfl, rfl,
    fun e he => ?_, fun e he => ?_⟩
  · exact field_entries hValid.events_nodup (fun x hx => (hValid.events_lt x hx).2)
      (Nat.div_lt_of_lt_mul he) _
  · have hch' : ch < 10 := hch
    exact field_entries hValid.channels_nodup (fun x hx => (hValid.channels_lt x hx).2)
      (show ch / 4 < 3 by omega) _
  · show (bothWords 0xFFFFFFFF p.intc.polarity (e / 32)).getLsbD (e % 32) = true
    rw [bothWords_div he, show (0xFFFFFFFF : BitVec 32) = BitVec.allOnes 32 from rfl,
      BitVec.getLsbD_allOnes]
    exact decide_eq_true (Nat.mod_lt e (by decide))
  · show (bothWords 0 p.intc.type (e / 32)).getLsbD (e % 32) = false
    rw [bothWords_div he]
    exact BitVec.getLsbD_zero

/-- The call where the window has been mapped. -/
theorem pruintcInit_eq {data : IntcInitdata} {d : Session} (hBase : d.drv.base = some am33xx) :
    prussdrvPruintcInit data d =
      match enabledMasks data.sysevtsEnabled 0 0 with
      | none => .error (.failed, { d with pruss := routeEvents data am33xx.intc d.pruss })
      | some (mask1, mask2) => .ok
        { d with
          drv := { d.drv with intcData := some data }
          pruss := enableEvents data mask1 mask2 am33xx.intc
            (routeEvents data am33xx.intc d.pruss) } := by
  simp only [prussdrvPruintcInit, bases, hBase]
  rfl

/-- **The interrupt controller is what the configuration says**, whatever it was before: the
call succeeds, touches nothing else and starts no PRU; an event that is led to a channel, and the
channel to a line, is led to that line, and the driver's own lookup finds the same line, counted
from the first one of the host. -/
theorem pruintcInit_routes {data : IntcInitdata} (hValid : data.Valid) {d : Session}
    (hBase : d.drv.base = some am33xx) :
    ∃ intc, prussdrvPruintcInit data d =
        .ok ⟨{ d.drv with intcData := some data }, { d.pruss with intc }, d.started⟩ ∧
      Routed data d.pruss.intc intc ∧
      ∀ e ∈ data.sysevtToChannelMap, ∀ c ∈ data.channelToHostMap, e.2 = c.1 →
        intc.route e.1.toNat = c.2.toNat ∧
          prussdrvGetEventToHostMap data e.1.toNat = (intc.route e.1.toNat : ℤ) - 2 := by
  obtain ⟨intc, hEq, hRouted⟩ := routed_spec hValid d.pruss
  refine ⟨intc, ?_, hRouted, fun e he c hc hMeet => ?_⟩
  · rw [pruintcInit_eq hBase, enabledMasks_eq hValid.enabled_lt]
    exact congrArg (fun p => Except.ok (Session.mk _ p _)) hEq
  -- both lookups find the only entry for their number
  · have hChannel : intc.channelOf e.1.toNat = c.1.toNat := by
      rw [hRouted.channelOf _ (hValid.events_lt e he).1, entryOf_of_mem hValid.events_nodup he,
        ← hMeet]
      rfl
    have hRoute : intc.route e.1.toNat = c.2.toNat := by
      rw [Controller.route, hChannel, hRouted.hostOf _ (hValid.channels_lt c hc).1,
        entryOf_of_mem hValid.channels_nodup hc]
      rfl
    exact ⟨hRoute, hRoute ▸ getEventToHostMap_of_mem hValid he hc hMeet⟩

/-- **When it fails**: only for an event out of range, and then no event and no line has been
enabled. -/
theorem pruintcInit_error_iff {data : IntcInitdata} {d : Session} (hBase : d.drv.base = some am33xx)
    (hEvents : ∀ e ∈ data.sysevtToChannelMap, e.1.toNat < 64)
    (hChannels : ∀ e ∈ data.channelToHostMap, e.1.toNat < 12) :
    (∃ d', prussdrvPruintcInit data d = .error (.failed, d') ∧
      d'.pruss.intc.enabled = d.pruss.intc.enabled ∧
      d'.pruss.intc.hostEnabled = d.pruss.intc.hostEnabled ∧
      d'.pruss.intc.global = d.pruss.intc.global) ↔
    ∃ e ∈ data.sysevtsEnabled, 64 ≤ e.toNat := by
  rw [pruintcInit_eq hBase, ← @enabledMasks_eq_none _ 0 0]
  constructor
  · rintro ⟨d', hCall, -⟩
    split at hCall
    · assumption
    · cases hCall
  · intro hNone
    refine ⟨_, by rw [hNone], ?_⟩
    rw [routeEvents_eq hEvents hChannels]
    exact ⟨rfl, rfl, rfl⟩

/-- A controller with everything pending and every field of the tables set. -/
def stale : Controller where
  status := fun _ => true
  enabled := fun _ => false
  channels := fun _ => 0xFFFFFFFF
  hosts := fun _ => 0xFFFFFFFF
  hostEnabled := fun _ => false
  global := false
  polarity := fun _ => 0
  type := fun _ => 0xFFFFFFFF

theorem pruintcInit_routes_stale :
    ∃ intc, prussdrvPruintcInit prussIntcInitdata
        ⟨⟨.v2, fun _ => true, some am33xx, none⟩, ⟨fun _ => 0, stale⟩, []⟩ =
        .ok ⟨⟨.v2, fun _ => true, some am33xx, some prussIntcInitdata⟩, ⟨fun _ => 0, intc⟩, []⟩ ∧
      Routed prussIntcInitdata stale intc ∧
      ∀ e ∈ prussIntcInitdata.sysevtToChannelMap, ∀ c ∈ prussIntcInitdata.channelToHostMap,
        e.2 = c.1 → intc.route e.1.toNat = c.2.toNat ∧
          prussdrvGetEventToHostMap prussIntcInitdata e.1.toNat = (intc.route e.1.toNat : ℤ) - 2 :=
  pruintcInit_routes prussIntcInitdata_valid rfl

end EnergyMeter.Daq.Driver
