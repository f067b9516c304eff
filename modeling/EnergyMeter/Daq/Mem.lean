import EnergyMeter.Daq.Model
import Mathlib.Data.Nat.Bitwise
import Mathlib.Tactic.Ring

/-!
# Acquisition pipeline — the window on the shared memory

`Mem.c` maps the memory that PRU0 fills into the process: it reads the physical
address of the pool, asks `mmap` for a window from the page that the address lies
in, and moves the pointer on by the offset of the address in that page. The length
it asks for is the size of the buffer, and the offset comes on top of it:
`MAP_SIZE`, one page more, is defined for that and not used.

* `Os` — what the system answers.
* `Window` — a mapping made by `mmap`: whole pages, as many as the length needs.

Main results:

* `allocateRam_covers_iff` — when the window covers the buffer, and both halves
  that `AnalogCore_GetSamples` copies.
* `allocateRam_short` — a window that ends before the buffer does.
-/

namespace EnergyMeter.Daq

/-- The page size of the BeagleBone Black. -/
abbrev pageSize : ℕ := 4096

/-- `PAGE_MASK`. -/
def pageMask : UInt32 := 4096 - 1

/-- `MAP_SIZE`. -/
def mapSize (ramBytes : ℕ) : ℕ := ramBytes + 4096

/-- A mapping made by `mmap` at `base`, of `length` bytes from `offset` of the
physical memory on. -/
structure Window where
  base : ℕ
  offset : UInt32
  length : ℕ

/-- What the system answers: the two files of `getMemInfo`, `open` of `/dev/mem`, and
the address that `mmap` returns for a length and an offset. -/
structure Os where
  addr : UInt32
  size : UInt32
  openMem : Bool
  mmap : ℕ → UInt32 → Option ℕ

/-- What `Allocate_RAM` stores through its pointers. -/
structure Ram where
  mem_map : Window
  ram_addr : ℕ
  addr : UInt32

/-- `getMemInfo`. -/
def getMemInfo (os : Os) : UInt32 × UInt32 := (os.addr, os.size)

/-- `Allocate_RAM`; `none` is the return value `-1`. -/
def allocateRam (os : Os) (buffer_size : ℕ) : Option Ram := do
  let (addr, size) := getMemInfo os
  if size.toNat < buffer_size then
    none
  else if !os.openMem then
    none
  else
    let base ← os.mmap buffer_size (addr &&& ~~~pageMask)
    let mem_map := { base, offset := addr &&& ~~~pageMask, length := buffer_size }
    return { mem_map, ram_addr := base + (addr &&& pageMask).toNat, addr }

/-! ## Pages -/

namespace Window

variable (w : Window)

/-- The bytes that are mapped: whole pages that contain the length asked for. -/
def bytes : ℕ := pageSize * ((w.length + (pageSize - 1)) / pageSize)

/-- The process may read the byte at `p`. -/
def Mapped (p : ℕ) : Prop := w.base ≤ p ∧ p < w.base + w.bytes

/-- The process may read `len` bytes from `start` on. -/
def Covers (start len : ℕ) : Prop := ∀ k < len, w.Mapped (start + k)

/-- The physical address of the byte at `p`. -/
def physical (p : ℕ) : ℕ := w.offset.toNat + (p - w.base)

variable {w}

/-- From an address inside the window on, its end decides. -/
theorem covers_iff {k len : ℕ} (hLen : 0 < len) :
    w.Covers (w.base + k) len ↔ k + len ≤ w.bytes := by
  unfold Covers Mapped
  constructor
  · intro h
    have hLast := (h (len - 1) (by omega)).2
    omega
  · intro h q hq
    omega

/-- Two stretches one after the other. -/
theorem covers_add_iff {start len len' : ℕ} :
    w.Covers start (len + len') ↔ w.Covers start len ∧ w.Covers (start + len) len' := by
  unfold Covers
  constructor
  · intro h
    refine ⟨fun k hk => h k (by omega), fun k hk => ?_⟩
    have hFar := h (len + k) (by omega)
    rwa [← Nat.add_assoc] at hFar
  · rintro ⟨hFirst, hSecond⟩ k hk
    rcases Nat.lt_or_ge k len with hlt | hge
    · exact hFirst k hlt
    · have hNear := hSecond (k - len) (by omega)
      rwa [show start + len + (k - len) = start + k by omega] at hNear

end Window

/-! ## Masks -/

theorem toNat_and_pageMask (addr : UInt32) : (addr &&& pageMask).toNat = addr.toNat % pageSize := by
  rw [UInt32.toNat_and]
  exact Nat.and_two_pow_sub_one_eq_mod addr.toNat 12

/-- The mask of the pages clears the offset in the page. -/
theorem toNat_and_not_pageMask (addr : UInt32) :
    (addr &&& ~~~pageMask).toNat = addr.toNat / pageSize * pageSize := by
  have hMask : (~~~pageMask).toNat = (2 ^ 20 - 1) * 2 ^ 12 := by decide
  have hBound : addr.toNat < 2 ^ 32 := addr.toNat_lt
  rw [UInt32.toNat_and, hMask]
  refine Nat.eq_of_testBit_eq fun i => ?_
  rw [Nat.testBit_and, Nat.testBit_mul_two_pow, Nat.testBit_two_pow_sub_one,
    show addr.toNat / pageSize * pageSize = addr.toNat / 2 ^ 12 * 2 ^ 12 from rfl,
    Nat.testBit_mul_two_pow, Nat.testBit_div_two_pow]
  by_cases hi : 12 ≤ i
  · rw [Nat.sub_add_cancel hi]
    by_cases hHigh : i < 32
    · simp [hi, show i - 12 < 20 by omega]
    -- the address has no bits beyond the word
    · have hZero : addr.toNat.testBit i = false :=
        Nat.testBit_lt_two_pow (hBound.trans_le (Nat.pow_le_pow_right two_pos (by omega)))
      simp [hZero]
  · simp [hi]

/-! ## The buffer -/

section Allocate

variable {os : Os} {buffer_size : ℕ} {ram : Ram}

/-- What `Allocate_RAM` has stored when it returns zero. -/
theorem allocateRam_some (h : allocateRam os buffer_size = some ram) :
    ∃ base, buffer_size ≤ os.size.toNat ∧
      os.mmap buffer_size (os.addr &&& ~~~pageMask) = some base ∧
      ram = { mem_map := ⟨base, os.addr &&& ~~~pageMask, buffer_size⟩
              ram_addr := base + os.addr.toNat % pageSize
              addr := os.addr } := by
  unfold allocateRam getMemInfo at h
  dsimp only at h
  by_cases hSize : os.size.toNat < buffer_size
  · rw [if_pos hSize] at h
    cases h
  · rw [if_neg hSize] at h
    by_cases hOpen : (!os.openMem) = true
    · rw [if_pos hOpen] at h
      cases h
    · rw [if_neg hOpen] at h
      obtain ⟨base, hMmap, hRam⟩ := Option.bind_eq_some_iff.mp h
      cases hRam
      -- the pointer is moved on by the offset in the page
      refine ⟨base, not_lt.mp hSize, hMmap, ?_⟩
      rw [toNat_and_pageMask]

/-- The pointer shows the byte at the address of the pool. -/
theorem allocateRam_physical (h : allocateRam os buffer_size = some ram) :
    ram.mem_map.physical ram.ram_addr = ram.addr.toNat := by
  obtain ⟨base, -, -, rfl⟩ := allocateRam_some h
  unfold Window.physical
  dsimp only
  rw [toNat_and_not_pageMask, Nat.add_sub_cancel_left]
  exact Nat.div_add_mod' os.addr.toNat pageSize

/-- **When the window covers the buffer**, and both halves of it: the offset of the
address in its page and the buffer fit in the pages that the buffer alone needs. -/
theorem allocateRam_covers_iff (hSize : 0 < buffer_size)
    (h : allocateRam os buffer_size = some ram) :
    (ram.mem_map.Covers ram.ram_addr buffer_size ↔
      ram.addr.toNat % pageSize + buffer_size ≤
        pageSize * ((buffer_size + (pageSize - 1)) / pageSize)) ∧
    ∀ half, buffer_size = half + half →
      (ram.mem_map.Covers ram.ram_addr half ∧ ram.mem_map.Covers (ram.ram_addr + half) half ↔
        ram.addr.toNat % pageSize + buffer_size ≤
          pageSize * ((buffer_size + (pageSize - 1)) / pageSize)) := by
  obtain ⟨base, -, -, rfl⟩ := allocateRam_some h
  have hCovers := Window.covers_iff (w := ⟨base, os.addr &&& ~~~pageMask, buffer_size⟩)
    (k := os.addr.toNat % pageSize) hSize
  refine ⟨hCovers, fun half hHalf => ?_⟩
  rw [← Window.covers_add_iff, ← hHalf]
  exact hCovers

/-- `MAP_SIZE` would do: one page more makes room for every offset. -/
theorem Window.covers_of_mapSize {w : Window} {k : ℕ} (hLength : w.length = mapSize buffer_size)
    (hk : k < pageSize) (hSize : 0 < buffer_size) : w.Covers (w.base + k) buffer_size := by
  rw [Window.covers_iff hSize, Window.bytes, hLength]
  change k + buffer_size ≤ 4096 * ((buffer_size + 4096 + 4095) / 4096)
  change k < 4096 at hk
  omega

end Allocate

/-- A pool of one megabyte whose address has the offset `offset` in its page. -/
def poolAt (offset : UInt32) : Os where
  addr := 0x9f800000 + offset
  size := 0x100000
  openMem := true
  mmap _ _ := some 0xb6000000

/-- On a page boundary both halves of the buffer of PRU0 are covered. -/
theorem allocateRam_covers_iff_aligned :
    ∃ ram, allocateRam (poolAt 0) pruBufferSize = some ram ∧
      ram.mem_map.Covers ram.ram_addr pruPacketSize ∧
      ram.mem_map.Covers (ram.ram_addr + pruPacketSize) pruPacketSize := by
  have hRam : allocateRam (poolAt 0) pruBufferSize =
      some ⟨⟨0xb6000000, 0x9f800000, pruBufferSize⟩, 0xb6000000, 0x9f800000⟩ := rfl
  obtain ⟨-, hHalves⟩ := allocateRam_covers_iff (by decide) hRam
  exact ⟨_, hRam, (hHalves pruPacketSize rfl).mpr (by decide)⟩

/-- **A window that is too short.** At the last byte of a page the buffer of PRU0 ends
beyond the window. -/
theorem allocateRam_short :
    ∃ ram, allocateRam (poolAt 4095) pruBufferSize = some ram ∧
      ¬ ram.mem_map.Mapped (ram.ram_addr + (pruBufferSize - 1)) := by
  refine ⟨_, rfl, ?_⟩
  unfold Window.Mapped Window.bytes
  decide

end EnergyMeter.Daq
