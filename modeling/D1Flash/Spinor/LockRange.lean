import D1Flash.Spinor.Chip
import D1Flash.Spinor.WrLock

namespace D1Flash
set_option autoImplicit true

/-- The protection unit of a cell, its start and its size: a sector in the first and the last 64K,
else a block. -/
def protectionUnit (totalSize x : Nat) : Nat × Nat :=
  if x < sz64K ∨ totalSize - sz64K ≤ x then (x / sz4K * sz4K, sz4K)
  else (x / sz64K * sz64K, sz64K)

/-- The units that the range loops ask their hook for. -/
def lockUnits (totalSize : Nat) : Nat → Nat → Nat → List (Nat × Nat)
  | 0, _, _ => []
  | fuel + 1, addr, len =>
    if len = 0 then []
    else
      let alignSize := lockAlignSize totalSize addr
      let len' := len - min alignSize len
      (alignDown addr alignSize, alignSize) ::
        lockUnits totalSize fuel (u32 (addr + min alignSize len')) len'

/-- Where the walk over the units of a range is complete. Among sectors and among blocks: the range
lies in one of them or ends with one. From the first sectors into the blocks: it also may end in the
second block, but for the first 4K of it. Into the last sectors: it starts with a unit and runs to
the end of the chip. -/
def WalksExactly (totalSize addr len : Nat) : Prop :=
  let stop := addr + len
  if totalSize = 2 * sz64K ∨ totalSize - sz64K ≤ addr then
    addr / sz4K = (stop - 1) / sz4K ∨ stop % sz4K = 0
  else if sz64K ≤ addr then
    stop ≤ totalSize - sz64K ∧ (addr / sz64K = (stop - 1) / sz64K ∨ stop % sz64K = 0) ∨
      stop = totalSize ∧ addr % sz64K = 0
  else
    stop ≤ sz64K ∧ (addr / sz4K = (stop - 1) / sz4K ∨ stop % sz4K = 0) ∨
      sz64K + sz4K ≤ stop ∧ stop ≤ 2 * sz64K ∨
      stop ≤ totalSize - sz64K ∧ stop % sz64K = 0 ∨ stop = totalSize ∧ addr % sz4K = 0

variable {T : Nat}

/-- The size of a chip with sector protection. -/
structure LockableSize (T : Nat) : Prop where
  mod : T % sz64K = 0
  ge : 2 * sz64K ≤ T
  lt : T < 0x100000000

theorem LockableSize.unit (hT : LockableSize T) (h : addr < T) :
    (alignDown addr (lockAlignSize T addr), lockAlignSize T addr) = protectionUnit T addr := by
  have hsub : u32Sub T sz64K = T - sz64K := by
    have := hT.ge
    have := hT.lt
    simp only [u32Sub, u32, sz64K] at *
    omega
  have hlt := hT.lt
  rw [lockAlignSize, protectionUnit, hsub]
  by_cases hs : addr < sz64K ∨ T - sz64K ≤ addr
  · rw [if_pos hs, if_pos hs.symm]
    simp only [alignDown, align, u32Sub, u32, sz4K, Prod.mk.injEq, and_true]
    omega
  · rw [if_neg hs, if_neg fun h => hs h.symm, alignDown_64K (by omega)]

theorem lockUnits_zero (fuel addr : Nat) : lockUnits T fuel addr 0 = [] := by
  cases fuel <;> rfl

theorem lockUnits_succ (hT : LockableSize T) (hpos : 0 < len) (hle : addr + len ≤ T) :
    lockUnits T (fuel + 1) addr len = protectionUnit T addr ::
      lockUnits T fuel
        (addr + min (protectionUnit T addr).2 (len - min (protectionUnit T addr).2 len))
        (len - min (protectionUnit T addr).2 len) := by
  have hu := hT.unit (show addr < T by omega)
  have hsize : lockAlignSize T addr = (protectionUnit T addr).2 := by rw [← hu]
  have hlt := hT.lt
  rw [lockUnits, if_neg (Nat.pos_iff_ne_zero.1 hpos)]
  dsimp only
  rw [hu, hsize, u32_of_lt (by omega)]

theorem unit_of_small (h : x < sz64K ∨ T - sz64K ≤ x) :
    protectionUnit T x = (x / sz4K * sz4K, sz4K) := if_pos h

theorem unit_of_large (h : sz64K ≤ x) (h' : x < T - sz64K) :
    protectionUnit T x = (x / sz64K * sz64K, sz64K) := by
  rw [protectionUnit, if_neg]
  omega

theorem small_or_large (T x : Nat) :
    (x < sz64K ∨ T - sz64K ≤ x) ∨ sz64K ≤ x ∧ x < T - sz64K := by
  omega

theorem unit_eq_iff : protectionUnit T x = protectionUnit T y ↔
    ((x < sz64K ∨ T - sz64K ≤ x) ∧ (y < sz64K ∨ T - sz64K ≤ y) ∧ x / sz4K = y / sz4K) ∨
      (sz64K ≤ x ∧ x < T - sz64K ∧ sz64K ≤ y ∧ y < T - sz64K ∧ x / sz64K = y / sz64K) := by
  have hne : ¬ sz4K = sz64K := by decide
  have hne' : ¬ sz64K = sz4K := by decide
  rcases small_or_large T x with hx | hx <;> rcases small_or_large T y with hy | hy
  · rw [unit_of_small hx, unit_of_small hy, Prod.mk.injEq, and_iff_left rfl,
      Nat.mul_left_inj (by decide)]
    omega
  · rw [unit_of_small hx, unit_of_large hy.1 hy.2, Prod.mk.injEq]
    simp only [hne, and_false, false_iff]
    omega
  · rw [unit_of_large hx.1 hx.2, unit_of_small hy, Prod.mk.injEq]
    simp only [hne', and_false, false_iff]
    omega
  · rw [unit_of_large hx.1 hx.2, unit_of_large hy.1 hy.2, Prod.mk.injEq, and_iff_left rfl,
      Nat.mul_left_inj (by decide)]
    omega

theorem protectionUnit_size (T x : Nat) : sz4K ≤ (protectionUnit T x).2 := by
  rcases small_or_large T x with hs | hl
  · have hsize : (protectionUnit T x).2 = sz4K := congrArg Prod.snd (unit_of_small hs)
    exact Nat.le_of_eq hsize.symm
  · have hsize : (protectionUnit T x).2 = sz64K := congrArg Prod.snd (unit_of_large hl.1 hl.2)
    have hle : sz4K ≤ sz64K := by decide
    exact Nat.le_trans hle (Nat.le_of_eq hsize.symm)

/-- The units visited start below what is left of the range but for a sector. -/
theorem lockUnits_le (hT : LockableSize T) (hf : len ≤ fuel) (hpos : 0 < len)
    (hle : addr + len ≤ T) (hu : u ∈ lockUnits T fuel addr len) :
    ∃ x, addr ≤ x ∧ x < addr + len ∧ x ≤ max addr (addr + len - sz4K) ∧ u = protectionUnit T x := by
  induction fuel generalizing addr len with
  | zero => omega
  | succ fuel ih =>
    have hsize : sz4K ≤ (protectionUnit T addr).2 := protectionUnit_size T addr
    rw [lockUnits_succ hT hpos hle] at hu
    generalize (protectionUnit T addr).2 = a at hu hsize
    cases hu with
    | head => exact ⟨addr, Nat.le_refl _, by omega, Nat.le_max_left _ _, rfl⟩
    | tail _ hu =>
      have : sz4K = 4096 := rfl
      by_cases hz : len ≤ a
      · rw [Nat.min_eq_right hz, Nat.sub_self, lockUnits_zero] at hu
        cases hu
      · obtain ⟨x, hx, hx', hmax, rfl⟩ := ih (by omega) (by omega) (by omega) hu
        exact ⟨x, by omega, by omega, by omega, rfl⟩

theorem walksExactly_sectors (h : T = 2 * sz64K ∨ T - sz64K ≤ addr) :
    WalksExactly T addr len ↔
      addr / sz4K = (addr + len - 1) / sz4K ∨ (addr + len) % sz4K = 0 := by
  rw [WalksExactly]
  exact iff_of_eq (if_pos h)

theorem walksExactly_blocks (h : sz64K ≤ addr) (h' : addr < T - sz64K) :
    WalksExactly T addr len ↔ addr + len ≤ T - sz64K ∧
        (addr / sz64K = (addr + len - 1) / sz64K ∨ (addr + len) % sz64K = 0) ∨
      addr + len = T ∧ addr % sz64K = 0 := by
  have hno : ¬ (T = 2 * sz64K ∨ T - sz64K ≤ addr) := by
    simp only [sz64K] at *
    omega
  rw [WalksExactly, if_neg hno, if_pos h]

theorem walksExactly_first (h : addr < sz64K) (h' : 2 * sz64K < T) :
    WalksExactly T addr len ↔
      addr + len ≤ sz64K ∧ (addr / sz4K = (addr + len - 1) / sz4K ∨ (addr + len) % sz4K = 0) ∨
      sz64K + sz4K ≤ addr + len ∧ addr + len ≤ 2 * sz64K ∨
      addr + len ≤ T - sz64K ∧ (addr + len) % sz64K = 0 ∨ addr + len = T ∧ addr % sz4K = 0 := by
  have hno : ¬ (T = 2 * sz64K ∨ T - sz64K ≤ addr) := by
    simp only [sz64K] at *
    omega
  rw [WalksExactly, if_neg hno, if_neg (Nat.not_le.2 h)]

/-- The three places a range can start in. -/
theorem LockableSize.start (hT : LockableSize T) (addr : Nat) :
    (T = 2 * sz64K ∨ T - sz64K ≤ addr) ∨ (sz64K ≤ addr ∧ addr < T - sz64K) ∨
      (addr < sz64K ∧ 2 * sz64K < T) := by
  have := hT.ge
  omega

theorem small_of_sectors (h : T = 2 * sz64K ∨ T - sz64K ≤ addr) :
    addr < sz64K ∨ T - sz64K ≤ addr := by
  simp only [sz64K] at *
  omega

theorem walksExactly_next (hT : LockableSize T) (hle : addr + len ≤ T)
    (hlen : 2 * (protectionUnit T addr).2 ≤ len) (hpos : 0 < len) :
    WalksExactly T addr len ↔
      WalksExactly T (addr + (protectionUnit T addr).2) (len - (protectionUnit T addr).2) := by
  have he : addr + (protectionUnit T addr).2 + (len - (protectionUnit T addr).2) = addr + len := by
    omega
  have hmod := hT.mod
  rcases hT.start addr with hs | ⟨hl, hl'⟩ | ⟨hf, hf'⟩
  · rw [unit_of_small (small_of_sectors hs)] at *
    rw [walksExactly_sectors hs, walksExactly_sectors (by omega), he]
    simp only [sz4K, sz64K] at *
    omega
  · rw [unit_of_large hl hl'] at *
    rw [walksExactly_blocks hl hl']
    by_cases hn : T - sz64K ≤ addr + sz64K
    · rw [walksExactly_sectors (.inr hn), he]
      simp only [sz4K, sz64K] at *
      omega
    · rw [walksExactly_blocks (Nat.le_add_left _ _) (Nat.lt_of_not_le hn), he]
      simp only [sz64K] at *
      omega
  · rw [unit_of_small (.inl hf)] at *
    rw [walksExactly_first hf hf']
    by_cases hn : addr + sz4K < sz64K
    · rw [walksExactly_first hn hf', he]
      simp only [sz4K, sz64K] at *
      omega
    · rw [walksExactly_blocks (Nat.le_of_not_lt hn) (by simp only [sz4K, sz64K] at *; omega), he]
      simp only [sz4K, sz64K] at *
      omega

theorem LockableSize.unit_eq (hT : LockableSize T) (h : addr ≤ x) :
    protectionUnit T x = protectionUnit T addr ↔
      if (T = 2 * sz64K ∨ T - sz64K ≤ addr) ∨ addr < sz64K then x / sz4K = addr / sz4K
      else x / sz64K = addr / sz64K := by
  have := hT.mod
  have := hT.ge
  rw [unit_eq_iff]
  split
  · simp only [sz4K, sz64K] at *
    omega
  · simp only [sz64K] at *
    omega

theorem unit_eq_sectors (hT : LockableSize T) (hs : T = 2 * sz64K ∨ T - sz64K ≤ addr)
    (h : addr ≤ x) :
    protectionUnit T x = protectionUnit T addr ↔ x / sz4K = addr / sz4K := by
  rw [hT.unit_eq h, if_pos (.inl hs)]

theorem unit_eq_first (hT : LockableSize T) (hf : addr < sz64K) (h : addr ≤ x) :
    protectionUnit T x = protectionUnit T addr ↔ x / sz4K = addr / sz4K := by
  rw [hT.unit_eq h, if_pos (.inr hf)]

theorem unit_eq_blocks (hT : LockableSize T) (hl : sz64K ≤ addr) (hl' : addr < T - sz64K)
    (h : addr ≤ x) :
    protectionUnit T x = protectionUnit T addr ↔ x / sz64K = addr / sz64K := by
  rw [hT.unit_eq h, if_neg]
  simp only [sz64K] at *
  omega

theorem LockableSize.unit_convex (hT : LockableSize T) (h : addr ≤ x) (h' : x ≤ z)
    (hz : protectionUnit T z = protectionUnit T addr) :
    protectionUnit T x = protectionUnit T addr := by
  rw [hT.unit_eq (Nat.le_trans h h')] at hz
  rw [hT.unit_eq h]
  split at hz
  · rw [if_pos ‹_›]
    simp only [sz4K] at *
    omega
  · rw [if_neg ‹_›]
    simp only [sz64K] at *
    omega

theorem LockableSize.unit_next (hT : LockableSize T) (h : addr ≤ x) (hxy : x < y)
    (hy : y ≤ addr + (protectionUnit T addr).2)
    (hy' : sz64K ≤ addr → addr < T - sz64K → y ≤ T - sz64K)
    (hne : protectionUnit T x ≠ protectionUnit T addr) :
    protectionUnit T y = protectionUnit T x := by
  have hmod := hT.mod
  rcases hT.start addr with hs | ⟨hl, hl'⟩ | ⟨hf, hf'⟩
  · rw [unit_of_small (small_of_sectors hs)] at hy
    rw [Ne, unit_eq_sectors hT hs h] at hne
    rw [unit_eq_sectors hT (hs.imp_right fun hz => Nat.le_trans hz h) (Nat.le_of_lt hxy)]
    simp only [sz4K] at *
    omega
  · rw [unit_of_large hl hl'] at hy
    rw [Ne, unit_eq_blocks hT hl hl' h] at hne
    have hyT := hy' hl hl'
    rw [unit_eq_blocks hT (by omega) (by simp only [sz64K] at *; omega) (Nat.le_of_lt hxy)]
    simp only [sz64K] at *
    omega
  · rw [unit_of_small (.inl hf)] at hy
    rw [Ne, unit_eq_first hT hf h] at hne
    by_cases hx : x < sz64K
    · rw [unit_eq_first hT hx (Nat.le_of_lt hxy)]
      simp only [sz4K, sz64K] at *
      omega
    · rw [unit_eq_blocks hT (by omega) (by simp only [sz4K, sz64K] at *; omega)
        (Nat.le_of_lt hxy)]
      simp only [sz4K, sz64K] at *
      omega

theorem LockableSize.unit_far (hT : LockableSize T) (h : addr + (protectionUnit T addr).2 ≤ x) :
    protectionUnit T x ≠ protectionUnit T addr := by
  rw [Ne, hT.unit_eq (by omega)]
  split
  · rename_i hs
    rw [unit_of_small (by rcases hs with hs | hs; exacts [small_of_sectors hs, .inl hs])] at h
    simp only [sz4K] at *
    omega
  · rename_i hl
    rw [unit_of_large (by omega) (by omega)] at h
    simp only [sz64K] at *
    omega

/-- A range that takes one turn. -/
theorem walksExactly_one (hT : LockableSize T) (hpos : 0 < len) (hle : addr + len ≤ T)
    (hlen : len ≤ (protectionUnit T addr).2) :
    (∀ x, addr ≤ x → x < addr + len → protectionUnit T x = protectionUnit T addr) ↔
      WalksExactly T addr len := by
  have hmod := hT.mod
  have hlast : (∀ x, addr ≤ x → x < addr + len → protectionUnit T x = protectionUnit T addr) ↔
      protectionUnit T (addr + len - 1) = protectionUnit T addr := by
    constructor
    · intro h
      exact h _ (by omega) (by omega)
    · intro h x hx hx'
      exact hT.unit_convex hx (by omega) h
  rw [hlast]
  rcases hT.start addr with hs | ⟨hl, hl'⟩ | ⟨hf, hf'⟩
  · rw [walksExactly_sectors hs, unit_eq_sectors hT hs (by omega)]
    rw [unit_of_small (small_of_sectors hs)] at hlen
    simp only [sz4K] at *
    omega
  · rw [walksExactly_blocks hl hl', unit_eq_blocks hT hl hl' (by omega)]
    rw [unit_of_large hl hl'] at hlen
    simp only [sz64K] at *
    omega
  · rw [walksExactly_first hf hf', unit_eq_first hT hf (by omega)]
    rw [unit_of_small (.inl hf)] at hlen
    simp only [sz4K, sz64K] at *
    omega

/-- A range that takes two turns, the second from a unit's size before the end. -/
theorem walksExactly_two (hT : LockableSize T) (hle : addr + len ≤ T)
    (hlen : (protectionUnit T addr).2 < len) (hlen' : len < 2 * (protectionUnit T addr).2) :
    (∀ x, addr ≤ x → x < addr + len → protectionUnit T x = protectionUnit T addr ∨
        protectionUnit T x = protectionUnit T (addr + len - (protectionUnit T addr).2)) ↔
      WalksExactly T addr len := by
  have hmod := hT.mod
  generalize hy : addr + len - (protectionUnit T addr).2 = y
  have hlast : (∀ x, addr ≤ x → x < addr + len → protectionUnit T x = protectionUnit T addr ∨
      protectionUnit T x = protectionUnit T y) ↔
        protectionUnit T (addr + len - 1) = protectionUnit T y := by
    constructor
    · intro h
      exact (h _ (by omega) (by omega)).resolve_left (hT.unit_far (by omega))
    · intro h x hx hx'
      by_cases hu : protectionUnit T x = protectionUnit T addr
      · exact .inl hu
      right
      by_cases hxy : y ≤ x
      · exact hT.unit_convex hxy (by omega) h
      · apply (hT.unit_next hx (by omega) (by omega) _ hu).symm
        intro hl hl'
        rw [unit_of_large hl hl'] at hy
        simp only at hy
        omega
  rw [hlast, hT.unit_eq (by omega)]
  rcases hT.start addr with hs | ⟨hl, hl'⟩ | ⟨hf, hf'⟩
  · rw [unit_of_small (small_of_sectors hs)] at *
    rw [walksExactly_sectors hs, if_pos (.inl (hs.imp_right fun hz => by omega))]
    simp only [sz4K] at *
    omega
  · rw [unit_of_large hl hl'] at *
    rw [walksExactly_blocks hl hl']
    split <;> simp only [sz4K, sz64K] at * <;> omega
  · rw [unit_of_small (.inl hf)] at *
    rw [walksExactly_first hf hf']
    split <;> simp only [sz4K, sz64K] at * <;> omega

theorem lockUnits_last (hT : LockableSize T) (hf : len ≤ fuel) (hpos : 0 < len)
    (hle : addr + len ≤ T) (hlen : len ≤ (protectionUnit T addr).2) :
    lockUnits T fuel addr len = [protectionUnit T addr] := by
  obtain ⟨n, rfl⟩ : ∃ n, fuel = n + 1 := ⟨fuel - 1, by omega⟩
  rw [lockUnits_succ hT hpos hle, Nat.min_eq_right hlen, Nat.sub_self, lockUnits_zero]

/-- A second turn in the last sectors does not get to the end of the chip. -/
theorem lockUnits_short (hT : LockableSize T) (hf : len ≤ fuel + 1) (hle : addr + len ≤ T)
    (hlen : (protectionUnit T addr).2 < len) (hlen' : len < 2 * (protectionUnit T addr).2)
    (hrest : (protectionUnit T (addr + len - (protectionUnit T addr).2)).2 <
      len - (protectionUnit T addr).2) :
    ¬ WalksExactly T addr len ∧ addr + len = T ∧
      protectionUnit T (T - 1) ∉ protectionUnit T addr ::
        lockUnits T fuel (addr + len - (protectionUnit T addr).2)
          (len - (protectionUnit T addr).2) := by
  have hmod := hT.mod
  -- only from a block into the last 64K is the second unit shorter
  rcases small_or_large T addr with hs | ⟨hl, hl'⟩
  · have ha : (protectionUnit T addr).2 = sz4K := by rw [unit_of_small hs]
    rw [ha] at hlen hlen' hrest
    have hy : sz4K ≤ (protectionUnit T (addr + len - sz4K)).2 := protectionUnit_size T _
    omega
  have ha : (protectionUnit T addr).2 = sz64K := by rw [unit_of_large hl hl']
  have hfar : ∀ {x}, addr + (protectionUnit T addr).2 ≤ x →
      protectionUnit T x ≠ protectionUnit T addr := hT.unit_far
  rw [ha] at hlen hlen' hrest hfar ⊢
  rcases small_or_large T (addr + len - sz64K) with hy | hy
  swap
  · rw [unit_of_large hy.1 hy.2] at hrest
    simp only at hrest
    omega
  have hend : addr + len = T := by
    simp only [sz64K] at *
    omega
  refine ⟨?_, hend, ?_⟩
  · rw [walksExactly_blocks hl hl']
    simp only [sz64K] at *
    omega
  · intro h
    rcases List.mem_cons.1 h with h | h
    · exact hfar (by omega) h
    · obtain ⟨y, hyd⟩ : ∃ y, y = addr + len - sz64K := ⟨_, rfl⟩
      obtain ⟨n, hn⟩ : ∃ n, n = len - sz64K := ⟨_, rfl⟩
      rw [← hyd, ← hn] at h
      rw [← hyd] at hy
      obtain ⟨x, hx, hx', hmax, hu⟩ :=
        lockUnits_le hT (by omega) (by omega) (by omega) h
      have hxs : T = 2 * sz64K ∨ T - sz64K ≤ x := by omega
      rw [unit_eq_sectors hT hxs (by omega)] at hu
      simp only [sz4K, sz64K] at *
      omega

/-- The walk visits the units of its range exactly when `WalksExactly` holds of the range. -/
theorem lockUnits_covers (hT : LockableSize T) (hf : len ≤ fuel) (hpos : 0 < len)
    (hle : addr + len ≤ T) :
    (∀ x, addr ≤ x → x < addr + len → protectionUnit T x ∈ lockUnits T fuel addr len) ↔
      WalksExactly T addr len := by
  induction fuel generalizing addr len with
  | zero => omega
  | succ fuel ih =>
    rw [lockUnits_succ hT hpos hle]
    by_cases hone : len ≤ (protectionUnit T addr).2
    · rw [Nat.min_eq_right hone, Nat.sub_self, lockUnits_zero]
      simp only [List.mem_singleton]
      exact walksExactly_one hT hpos hle hone
    have hsize : 0 < (protectionUnit T addr).2 :=
      Nat.lt_of_lt_of_le (by decide) (protectionUnit_size T addr)
    rw [Nat.min_eq_left (Nat.le_of_not_le hone)]
    by_cases htwo : len < 2 * (protectionUnit T addr).2
    · rw [Nat.min_eq_right (by omega)]
      have hstart : addr + (len - (protectionUnit T addr).2) =
        addr + len - (protectionUnit T addr).2 := by omega
      rw [hstart]
      by_cases hrest : len - (protectionUnit T addr).2 ≤
          (protectionUnit T (addr + len - (protectionUnit T addr).2)).2
      · rw [lockUnits_last hT (by omega) (by omega) (by omega) hrest]
        simp only [List.mem_cons, List.not_mem_nil, or_false]
        exact walksExactly_two hT hle (Nat.lt_of_not_le hone) htwo
      · obtain ⟨hno, hend, hmiss⟩ := lockUnits_short hT hf hle (Nat.lt_of_not_le hone) htwo
          (Nat.lt_of_not_le hrest)
        exact iff_of_false (fun h => hmiss (h _ (by omega) (by omega))) hno
    · have hlen : (protectionUnit T addr).2 ≤ len - (protectionUnit T addr).2 := by omega
      rw [Nat.min_eq_left hlen, walksExactly_next hT hle (Nat.le_of_not_lt htwo) hpos,
        ← ih (by omega) (by omega) (by omega)]
      have hstop : addr + (protectionUnit T addr).2 + (len - (protectionUnit T addr).2) =
        addr + len := by omega
      rw [hstop]
      constructor
      · intro h x hx hx'
        exact (List.mem_cons.1 (h x (by omega) hx')).resolve_left (hT.unit_far hx)
      · intro h x hx hx'
        rw [List.mem_cons]
        by_cases hu : protectionUnit T x = protectionUnit T addr
        · exact .inl hu
        right
        by_cases hnext : addr + (protectionUnit T addr).2 ≤ x
        · exact h x hnext hx'
        · rw [← hT.unit_next hx (Nat.lt_of_not_le hnext) (Nat.le_refl _) _ hu]
          · exact h _ (Nat.le_refl _) (by omega)
          · intro hl hl'
            rw [unit_of_large hl hl'] at *
            simp only at *
            omega

/-- A hook with a log of the units it was asked for. -/
def recordCall (hook : NorFlash → Nat → Nat → δ → ρ × δ) (nor : NorFlash) (addr len : Nat)
    (s : δ × List (Nat × Nat)) : ρ × δ × List (Nat × Nat) :=
  match hook nor addr len s.1 with
  | (r, s₁) => (r, s₁, s.2 ++ [(addr, len)])

theorem lockLoop_log {hook : Nat → Nat → δ × List (Nat × Nat) → Int × δ × List (Nat × Nat)}
    (hh : ∀ addr len s, (hook addr len s).1 = 0 ∧ (hook addr len s).2.2 = s.2 ++ [(addr, len)])
    (s : δ × List (Nat × Nat)) :
    (lockLoop T hook fuel addr len s).2.2 = s.2 ++ lockUnits T fuel addr len := by
  induction fuel generalizing addr len s with
  | zero => exact (List.append_nil _).symm
  | succ fuel ih =>
    rw [lockLoop, lockUnits]
    by_cases hz : len = 0
    · rw [if_pos hz, if_pos hz, List.append_nil]
    rw [if_neg hz, if_neg hz]
    dsimp only
    obtain ⟨h0, hlog⟩ := hh (alignDown addr (lockAlignSize T addr)) (lockAlignSize T addr) s
    rcases h : hook (alignDown addr (lockAlignSize T addr)) (lockAlignSize T addr) s with ⟨ret, s₁⟩
    rw [h] at h0 hlog
    dsimp only at h0 hlog ⊢
    rw [if_neg (not_not.2 h0), ih, hlog, List.append_assoc]
    rfl

theorem lockAlignSize_pos (T addr : Nat) : 0 < lockAlignSize T addr := by
  rw [lockAlignSize]
  split
  · exact show 0 < sz4K by decide
  · exact show 0 < sz64K by decide

/-- The loop ends by itself within as many turns as the range has bytes. -/
theorem lockLoop_terminates (hook : Nat → Nat → δ → Int × δ) (hf : len ≤ fuel) :
    lockLoop T hook fuel addr len s = lockLoop T hook len addr len s := by
  suffices h : ∀ fuel' ≥ len, lockLoop T hook fuel addr len s = lockLoop T hook fuel' addr len s by
    exact h len (Nat.le_refl _)
  induction fuel generalizing addr len s with
  | zero =>
    intro fuel' _
    obtain rfl := Nat.le_zero.1 hf
    cases fuel' <;> rfl
  | succ fuel ih =>
    intro fuel' hf'
    by_cases hz : len = 0
    · subst hz
      cases fuel' <;> rfl
    obtain ⟨n, rfl⟩ : ∃ n, fuel' = n + 1 := ⟨fuel' - 1, by omega⟩
    have hpos := lockAlignSize_pos T addr
    rw [lockLoop, lockLoop, if_neg hz, if_neg hz]
    dsimp only
    rcases hook (alignDown addr (lockAlignSize T addr)) (lockAlignSize T addr) s with ⟨ret, s₁⟩
    by_cases h0 : ret = 0
    · simp only [h0, ne_eq, not_true_eq_false, if_false]
      exact ih (by omega) n (by omega)
    · simp only [h0, ne_eq, not_false_eq_true, if_true]

/-- The calls of a hook are the units that meet a range. -/
def LogsUnits (T addr len : Nat) (log : List (Nat × Nat)) : Prop :=
  ∀ u, u ∈ log ↔ ∃ x, addr ≤ x ∧ x < addr + len ∧ u = protectionUnit T x

theorem lockUnits_logs (hT : LockableSize T) (hpos : 0 < len) (hle : addr + len ≤ T) :
    LogsUnits T addr len (lockUnits T len addr len) ↔ WalksExactly T addr len := by
  rw [← lockUnits_covers hT (Nat.le_refl len) hpos hle]
  constructor
  · intro h x hx hx'
    exact (h _).2 ⟨x, hx, hx', rfl⟩
  · intro h u
    constructor
    · intro hu
      obtain ⟨x, hx, hx', -, rfl⟩ := lockUnits_le hT (Nat.le_refl len) hpos hle hu
      exact ⟨x, hx, hx', rfl⟩
    · rintro ⟨x, hx, hx', rfl⟩
      exact h x hx hx'

theorem norWrLock_log {nor : Nor (δ × List (Nat × Nat))}
    {lock : NorFlash → Nat → Nat → δ → Int × δ} (hf : nor.factory = some factory)
    (hlock : factory.lock = some (recordCall lock))
    (hlock₀ : ∀ nor addr len s, (lock nor addr len s).1 = 0) (s : δ) :
    (norWrLock nor addr len (s, [])).2.2 = lockUnits nor.totalSize len addr len := by
  rw [norWrLock, hf, Option.bind_some, hlock]
  exact lockLoop_log (fun addr len s => ⟨hlock₀ _ addr len s.1, rfl⟩) (s, [])

/-- The range functions ask their hooks for the units of a range exactly when the walk over it is
complete; they always end. -/
theorem norWrLock_units {nor : Nor (δ × List (Nat × Nat))}
    {lock unlock : NorFlash → Nat → Nat → δ → Int × δ}
    {islock : NorFlash → Nat → Nat → δ → Bool × δ} (hf : nor.factory = some factory)
    (hlock : factory.lock = some (recordCall lock))
    (hunlock : factory.unlock = some (recordCall unlock))
    (hislock : factory.islock = some (recordCall islock))
    (hlock₀ : ∀ nor addr len s, (lock nor addr len s).1 = 0)
    (hunlock₀ : ∀ nor addr len s, (unlock nor addr len s).1 = 0)
    (hislock₀ : ∀ nor addr len s, (islock nor addr len s).1 = false)
    (hT : LockableSize nor.totalSize) (hpos : 0 < len) (hle : addr + len ≤ nor.totalSize) (s : δ) :
    (LogsUnits nor.totalSize addr len (norWrLock nor addr len (s, [])).2.2 ∧
        LogsUnits nor.totalSize addr len (norWrUnlock nor addr len (s, [])).2.2 ∧
        LogsUnits nor.totalSize addr len (norWrIslock nor addr len (s, [])).2.2 ↔
      WalksExactly nor.totalSize addr len) ∧
    ∀ (hook : Nat → Nat → δ × List (Nat × Nat) → Int × δ × List (Nat × Nat)) (fuel : Nat) s,
      len ≤ fuel → lockLoop nor.totalSize hook fuel addr len s =
        lockLoop nor.totalSize hook len addr len s := by
  have hl : (norWrLock nor addr len (s, [])).2.2 = lockUnits nor.totalSize len addr len :=
    norWrLock_log hf hlock hlock₀ s
  have hu : (norWrUnlock nor addr len (s, [])).2.2 = lockUnits nor.totalSize len addr len := by
    rw [norWrUnlock, hf, Option.bind_some, hunlock]
    exact lockLoop_log (fun addr len s => ⟨hunlock₀ _ addr len s.1, rfl⟩) (s, [])
  have hi : (norWrIslock nor addr len (s, [])).2.2 = lockUnits nor.totalSize len addr len := by
    rw [norWrIslock, hf, Option.bind_some, hislock]
    refine lockLoop_log (fun addr len s => ⟨?_, rfl⟩) (s, [])
    exact if_neg (by rw [recordCall, hislock₀]; exact Bool.false_ne_true)
  rw [hl, hu, hi, and_self, and_self]
  exact ⟨lockUnits_logs hT hpos hle, fun hook fuel s hf => lockLoop_terminates hook hf⟩

def loggedNor : Nor (Unit × List (Nat × Nat)) where
  cmdRead := norCmdFastRead
  cmdWrite := norCmdProg
  rCmdSlen := 5
  wCmdSlen := 4
  totalSize := 0x800000
  blkSize := sz4K
  pageSize := norPageSize
  addrWidth := 3
  info := none
  factory := some {
    factory := 0xEF
    idtCnt := 0
    idt := fun _ => default
    idtLen := 0
    init := none
    initLock := none
    lock := some (recordCall fun _ _ _ s => (0, s))
    unlock := some (recordCall fun _ _ _ s => (0, s))
    islock := some (recordCall fun _ _ _ s => (false, s))
    setQuadMode := none
    set4BytesAddr := none }

/-- A lock of 6K from 4K on asks for the second sector twice and not for the third. -/
theorem norWrLock_units_skipped :
    ¬ ∀ addr len, 0 < len → addr + len ≤ loggedNor.totalSize →
      LogsUnits loggedNor.totalSize addr len (norWrLock loggedNor addr len ((), [])).2.2 := by
  intro h
  have hmiss := (h 0x1000 0x1800 (by decide) (by decide) (0x2000, 0x1000)).2
    ⟨0x2000, by decide, by decide, by decide⟩
  rw [norWrLock_log rfl rfl (fun _ _ _ _ => rfl)] at hmiss
  revert hmiss
  decide +kernel

theorem norWrLock_units_logged :
    (LogsUnits 0x800000 0xF000 0x9000 (norWrLock loggedNor 0xF000 0x9000 ((), [])).2.2 ∧
        LogsUnits 0x800000 0xF000 0x9000 (norWrUnlock loggedNor 0xF000 0x9000 ((), [])).2.2 ∧
        LogsUnits 0x800000 0xF000 0x9000 (norWrIslock loggedNor 0xF000 0x9000 ((), [])).2.2 ↔
      WalksExactly 0x800000 0xF000 0x9000) ∧
    ∀ (hook : Nat → Nat → Unit × List (Nat × Nat) → Int × Unit × List (Nat × Nat)) (fuel : Nat) s,
      0x9000 ≤ fuel → lockLoop 0x800000 hook fuel 0xF000 0x9000 s =
        lockLoop 0x800000 hook 0x9000 0xF000 0x9000 s :=
  norWrLock_units rfl rfl rfl rfl (fun _ _ _ _ => rfl) (fun _ _ _ _ => rfl) (fun _ _ _ _ => rfl)
    ⟨by decide, by decide, by decide⟩ (by decide) (by decide) ()

end D1Flash
