import D1Flash.Lib.BitField
import D1Flash.Lib.LittleEndian

namespace D1Flash
open BitField (and_low_toNat and_high_toNat)
open LittleEndian (load store)
set_option autoImplicit true

/-- `align` as `hal_malloc_align` rounds it, to the size of a pointer. -/
def alignOf (align : BitVec 32) : BitVec 32 := (align + 7) &&& ~~~7

/-- `align_size`; the sum is one of `uint32_t`s. -/
def alignSize (size align : BitVec 32) : BitVec 64 :=
  (((size + 7) &&& ~~~7) + alignOf align).setWidth 64

/-- `hal_malloc_align` over a `malloc`, with the memory after it; 0 is `NULL`. -/
def halMallocAlign (aosMalloc : BitVec 64 → BitVec 64) (size align : BitVec 32)
    (mem : Nat → UInt8) : BitVec 64 × (Nat → UInt8) :=
  let ptr := aosMalloc (alignSize size align)
  let align := alignOf align
  if ptr ≠ 0 then
    let alignPtr :=
      if ptr &&& (align - 1).signExtend 64 = 0 then ptr + align.signExtend 64
      else (ptr + (align - 1).signExtend 64) &&& (~~~(align - 1)).signExtend 64
    (alignPtr, store mem (alignPtr - 8).toNat 8 ptr.toNat)
  else (ptr, mem)

/-- The address that `hal_free_align` hands to `free`. -/
def halFreeAlign (mem : Nat → UInt8) (p : BitVec 64) : BitVec 64 :=
  BitVec.ofNat 64 (load mem (p - 8).toNat 8)

/-- What a call that got the block of `asked` bytes at `p` is to return: an aligned part of the
block of `size` bytes, after a slot for the address of the block that a free finds again, whatever
the owner of the part and the owners of other blocks write. -/
structure AlignedIn (p asked : Nat) (size align : Nat) (ptr : BitVec 64) (mem : Nat → UInt8) :
    Prop where
  aligned : align ∣ ptr.toNat
  slot : p + 8 ≤ ptr.toNat
  inside : ptr.toNat + size ≤ p + asked
  frees : ∀ mem' : Nat → UInt8,
    (∀ a, p ≤ a → a < p + asked → a < ptr.toNat ∨ ptr.toNat + size ≤ a → mem' a = mem a) →
      (halFreeAlign mem' ptr).toNat = p

theorem alignOf_pow (hk : k ≤ 30) :
    alignOf (BitVec.ofNat 32 (2 ^ k)) = BitVec.ofNat 32 (2 ^ max k 3) := by
  have h : ∀ k < 31, alignOf (BitVec.ofNat 32 (2 ^ k)) = BitVec.ofNat 32 (2 ^ max k 3) := by decide
  exact h k (Nat.lt_succ_of_le hk)

/-- The masks of an alignment, as the `unsigned long`s that they are extended to. -/
theorem align_masks (hj : j ≤ 30) :
    (BitVec.ofNat 32 (2 ^ j)).signExtend 64 = BitVec.ofNat 64 (2 ^ j) ∧
      (BitVec.ofNat 32 (2 ^ j) - 1).signExtend 64 = BitVec.ofNat 64 (2 ^ j - 1) ∧
      (~~~(BitVec.ofNat 32 (2 ^ j) - 1)).signExtend 64 = ~~~(BitVec.ofNat 64 (2 ^ j - 1)) := by
  have h : ∀ j < 31, (BitVec.ofNat 32 (2 ^ j)).signExtend 64 = BitVec.ofNat 64 (2 ^ j) ∧
      (BitVec.ofNat 32 (2 ^ j) - 1).signExtend 64 = BitVec.ofNat 64 (2 ^ j - 1) ∧
      (~~~(BitVec.ofNat 32 (2 ^ j) - 1)).signExtend 64 = ~~~(BitVec.ofNat 64 (2 ^ j - 1)) := by
    decide
  exact h j (Nat.lt_succ_of_le hj)

theorem alignSize_toNat (size : BitVec 32) (hk : k ≤ 30) :
    (alignSize size (BitVec.ofNat 32 (2 ^ k))).toNat =
      ((size.toNat + 7) % 0x100000000 / 8 * 8 + 2 ^ max k 3) % 0x100000000 := by
  have hpow : 2 ^ max k 3 < 2 ^ 32 := Nat.pow_lt_pow_right (by decide) (by omega)
  have hsize : ((size + 7) &&& ~~~7).toNat = (size.toNat + 7) % 0x100000000 / 8 * 8 := by
    have h := and_high_toNat (size + 7) 3
    rw [BitVec.toNat_add] at h
    exact h
  rw [alignSize, alignOf_pow hk, BitVec.toNat_setWidth, BitVec.toNat_add, hsize,
    BitVec.toNat_ofNat, Nat.mod_eq_of_lt hpow]
  exact Nat.mod_eq_of_lt (Nat.lt_trans (Nat.mod_lt _ (by decide)) (by decide))

theorem next_multiple (hc : 0 < c) (h : n % c ≠ 0) : (n + (c - 1)) / c * c = n + (c - n % c) := by
  have hr := Nat.mod_lt n hc
  have hn := Nat.div_add_mod n c
  have hsum : n + (c - 1) = n % c - 1 + (n / c + 1) * c := by
    rw [Nat.add_mul, Nat.mul_comm, Nat.one_mul]
    omega
  have hq : (n + (c - 1)) / c = n / c + 1 := by
    rw [hsum, Nat.add_mul_div_right _ _ hc, Nat.div_eq_of_lt (by omega), Nat.zero_add]
  rw [hq, Nat.add_mul, Nat.mul_comm, Nat.one_mul]
  omega

theorem halMallocAlign_null {aosMalloc : BitVec 64 → BitVec 64} {size align : BitVec 32}
    (h : aosMalloc (alignSize size align) = 0) (mem : Nat → UInt8) :
    halMallocAlign aosMalloc size align mem = (0, mem) := by
  rw [halMallocAlign, h, if_neg (not_not.2 rfl)]

/-- The address that is returned is the next multiple of the alignment, and the address of the block
stands before it. -/
theorem halMallocAlign_eq {aosMalloc : BitVec 64 → BitVec 64} {size : BitVec 32} (hk : k ≤ 30)
    (hp : aosMalloc (alignSize size (BitVec.ofNat 32 (2 ^ k))) = p) (hne : p ≠ 0)
    (hend : p.toNat + 2 ^ max k 3 < 2 ^ 64) (mem : Nat → UInt8) :
    ∃ ptr : BitVec 64, ptr.toNat = p.toNat + (2 ^ max k 3 - p.toNat % 2 ^ max k 3) ∧
      halMallocAlign aosMalloc size (BitVec.ofNat 32 (2 ^ k)) mem =
        (ptr, store mem (ptr - 8).toNat 8 p.toNat) := by
  obtain ⟨hal, hlow, hhigh⟩ := align_masks (j := max k 3) (by omega)
  have hpos := Nat.two_pow_pos (max k 3)
  rw [halMallocAlign, hp, alignOf_pow hk, if_pos hne, hal, hlow, hhigh]
  dsimp only
  refine ⟨_, ?_, rfl⟩
  have hrem := and_low_toNat p (k := max k 3) (by omega)
  by_cases h0 : p &&& BitVec.ofNat 64 (2 ^ max k 3 - 1) = 0
  · rw [h0] at hrem
    have hz : p.toNat % 2 ^ max k 3 = 0 := hrem.symm
    have hal : 2 ^ max k 3 < 2 ^ 64 := by omega
    rw [if_pos h0, hz, Nat.sub_zero, BitVec.toNat_add, BitVec.toNat_ofNat, Nat.mod_eq_of_lt hal,
      Nat.mod_eq_of_lt hend]
  · have hz : p.toNat % 2 ^ max k 3 ≠ 0 := by
      rw [← hrem]
      exact fun hz => h0 (BitVec.eq_of_toNat_eq hz)
    have hmask : 2 ^ max k 3 - 1 < 2 ^ 64 := by omega
    have hsum : p.toNat + (2 ^ max k 3 - 1) < 2 ^ 64 := by omega
    rw [if_neg h0, and_high_toNat, BitVec.toNat_add, BitVec.toNat_ofNat, Nat.mod_eq_of_lt hmask,
      Nat.mod_eq_of_lt hsum]
    exact next_multiple hpos hz

/-- A slot in the block, before the part that is handed out, is found again. -/
theorem halFreeAlign_finds {ptr : BitVec 64} {p : BitVec 64} (hslot : p.toNat + 8 ≤ ptr.toNat)
    (hin : ptr.toNat ≤ p.toNat + asked) (mem mem' : Nat → UInt8)
    (h : ∀ a, p.toNat ≤ a → a < p.toNat + asked → a < ptr.toNat ∨ ptr.toNat + size ≤ a →
      mem' a = store mem (ptr - 8).toNat 8 p.toNat a) :
    halFreeAlign mem' ptr = p := by
  have hsub : (ptr - 8).toNat = ptr.toNat - 8 :=
    BitVec.toNat_sub_of_le (BitVec.le_def.2 (show 8 ≤ ptr.toNat by omega))
  have hload : load mem' (ptr - 8).toNat 8 =
      load (store mem (ptr - 8).toNat 8 p.toNat) (ptr - 8).toNat 8 :=
    LittleEndian.load_congr fun i hi hi' =>
      h i (by omega) (by omega) (.inl (by omega))
  have hlt : p.toNat < 256 ^ 8 := p.isLt
  rw [halFreeAlign, hload, LittleEndian.load_store, Nat.mod_eq_of_lt hlt, BitVec.ofNat_toNat,
    BitVec.setWidth_eq]

theorem AlignedIn.of_next {ptr : BitVec 64} {p : BitVec 64} (hkm : k ≤ m)
    (hptr : ptr.toNat = p.toNat + (2 ^ m - p.toNat % 2 ^ m)) (hslot : p.toNat + 8 ≤ ptr.toNat)
    (hin : ptr.toNat + size ≤ p.toNat + asked) (mem : Nat → UInt8) :
    AlignedIn p.toNat asked size (2 ^ k) ptr (store mem (ptr - 8).toNat 8 p.toNat) := by
  refine ⟨?_, hslot, hin, fun mem' hmem => ?_⟩
  · have hmul : ptr.toNat = (p.toNat / 2 ^ m + 1) * 2 ^ m := by
      have hdiv := Nat.div_add_mod' p.toNat (2 ^ m)
      have hrem := Nat.mod_lt p.toNat (Nat.two_pow_pos m)
      rw [Nat.succ_mul]
      omega
    exact Nat.dvd_trans (Nat.pow_dvd_pow 2 hkm) ⟨_, hmul.trans (Nat.mul_comm _ _)⟩
  · exact congrArg BitVec.toNat (halFreeAlign_finds hslot (by omega) mem mem' hmem)

/-- An aligned allocation keeps to its block exactly when no sum of sizes leaves 32 bits and the
block does not start one word before a multiple of the alignment. -/
theorem halMallocAlign_alignedIn_iff (aosMalloc : BitVec 64 → BitVec 64)
    (h4 : ∀ n, 4 ∣ (aosMalloc n).toNat)
    (hend : ∀ n, aosMalloc n ≠ 0 → (aosMalloc n).toNat + n.toNat < 2 ^ 64)
    (size : BitVec 32) (hk : k ≤ 30) (mem : Nat → UInt8) :
    let align := BitVec.ofNat 32 (2 ^ k)
    let asked := alignSize size align
    let p := aosMalloc asked
    let r := halMallocAlign aosMalloc size align mem
    (if p = 0 then r = (0, mem)
      else AlignedIn p.toNat asked.toNat size.toNat (2 ^ k) r.1 r.2) ↔
    p = 0 ∨
      ((size.toNat + 7) / 8 * 8 + 2 ^ max k 3 < 2 ^ 32 ∧
        p.toNat % 2 ^ max k 3 ≠ 2 ^ max k 3 - 4) := by
  intro align asked p r
  by_cases hp : p = 0
  · rw [if_pos hp]
    exact ⟨fun _ => .inl hp, fun _ => halMallocAlign_null hp mem⟩
  · rw [if_neg hp]
    have hasked : asked.toNat =
        ((size.toNat + 7) % 0x100000000 / 8 * 8 + 2 ^ max k 3) % 0x100000000 :=
      alignSize_toNat size hk
    have hblock : p.toNat + asked.toNat < 2 ^ 64 := hend asked hp
    have hbig : 2 ^ max k 3 ≤ 2 ^ 30 := Nat.pow_le_pow_right (by decide) (by omega)
    have height : 2 ^ 3 ∣ 2 ^ max k 3 := Nat.pow_dvd_pow 2 (Nat.le_max_right k 3)
    have hfour : p.toNat % 2 ^ max k 3 % 4 = 0 := by
      rw [Nat.mod_mod_of_dvd _ (Nat.dvd_trans (by decide) height)]
      exact Nat.mod_eq_zero_of_dvd (h4 asked)
    have hsize := size.isLt
    have hpow := Nat.two_pow_pos (max k 3)
    have hrem := Nat.mod_lt p.toNat hpow
    constructor
    · intro h
      have hslot := h.slot
      have hinside := h.inside
      have hfit : (size.toNat + 7) / 8 * 8 + 2 ^ max k 3 < 2 ^ 32 := by omega
      refine .inr ⟨hfit, fun hlast => ?_⟩
      obtain ⟨ptr, hptr, hr⟩ := halMallocAlign_eq (p := p) hk rfl hp (by omega) mem
      have hr' : r.1 = ptr := congrArg Prod.fst hr
      rw [hr', hptr] at hslot
      omega
    · rintro (h0 | ⟨hfit, hlast⟩)
      · exact (hp h0).elim
      · obtain ⟨ptr, hptr, hr⟩ := halMallocAlign_eq (p := p) hk rfl hp (by omega) mem
        have hr' : r = (ptr, store mem (ptr - 8).toNat 8 p.toNat) := hr
        have hslot : p.toNat + 8 ≤ ptr.toNat := by omega
        have hin : ptr.toNat + size.toNat ≤ p.toNat + asked.toNat := by omega
        rw [hr']
        exact .of_next (Nat.le_max_left k 3) hptr hslot hin mem

/-- A heap with one block left. -/
def oneBlock (start len : BitVec 64) (n : BitVec 64) : BitVec 64 := if n ≤ len then start else 0

theorem oneBlock_dvd (h : 4 ∣ start.toNat) (n : BitVec 64) : 4 ∣ (oneBlock start len n).toNat := by
  rw [oneBlock]
  split
  · exact h
  · exact Nat.dvd_zero 4

theorem oneBlock_end (h : start.toNat + len.toNat < 2 ^ 64) (n : BitVec 64)
    (hn : oneBlock start len n ≠ 0) : (oneBlock start len n).toNat + n.toNat < 2 ^ 64 := by
  rw [oneBlock] at hn ⊢
  split
  case isTrue hle => exact Nat.lt_of_le_of_lt (Nat.add_le_add_left hle _) h
  case isFalse hgt =>
    rw [if_neg hgt] at hn
    exact (hn rfl).elim

/-- A block that is not aligned is used from the next multiple on, unless that is one word away. -/
theorem halMallocAlign_sixteen :
    let align := BitVec.ofNat 32 (2 ^ 4)
    let asked := alignSize 100 align
    let taken := fun p => halMallocAlign (oneBlock p 0x1000) 100 align fun _ => 0
    (taken 0x10014).1 = 0x10020 ∧
      AlignedIn 0x10014 asked.toNat 100 (2 ^ 4) (taken 0x10014).1 (taken 0x10014).2 ∧
      ¬ AlignedIn 0x1001C asked.toNat 100 (2 ^ 4) (taken 0x1001C).1 (taken 0x1001C).2 := by
  intro align asked taken
  have hin := halMallocAlign_alignedIn_iff (oneBlock 0x10014 0x1000) (oneBlock_dvd (by decide))
    (oneBlock_end (by decide)) 100 (k := 4) (by decide) fun _ => 0
  have hout := halMallocAlign_alignedIn_iff (oneBlock 0x1001C 0x1000) (oneBlock_dvd (by decide))
    (oneBlock_end (by decide)) 100 (k := 4) (by decide) fun _ => 0
  dsimp only at hin hout
  rw [if_neg (by decide)] at hin hout
  exact ⟨by decide, hin.2 (.inr (by decide)), mt hout.1 (by decide)⟩

/-- At a block that starts four bytes before a multiple, the slot is outside it. -/
theorem halMallocAlign_slot_outside :
    let asked := alignSize 16 8
    let r := halMallocAlign (oneBlock 0x10004 0x1000) 16 8 fun _ => 0
    ¬ AlignedIn 0x10004 asked.toNat 16 8 r.1 r.2 := by
  intro asked r h
  have hslot := h.slot
  revert hslot
  decide

end D1Flash
