import D1Flash.Spinor.FlashOps

namespace D1Flash
open NorArray (erase erased program)
set_option autoImplicit true

variable {nor : Nor SpiBus}

/-- On every reliable bus to such a chip the call changes no cell outside its range and does not
succeed when the range leaves the chip. -/
def RangeSafe (nor : NorFlash) (size addr n : Nat) (call : SpiBus → Int × SpiBus) : Prop :=
  ∀ b, nor.On size b → b.Reliable →
    (∀ i, i < size → ¬ (addr ≤ i ∧ i < addr + n) → (call b).2.chip.mem i = b.chip.mem i) ∧
    (size < addr + n → (call b).1 ≠ 0)

/-- A chip of that size at rest, with all cells programmed. -/
def zeroBus (size : Nat) : SpiBus := .atRest [] size fun _ => 0

theorem zeroBus_on {nor : NorFlash} (h : nor.On size b) : nor.On size (zeroBus size) :=
  h.kept ⟨h.1.symm, fun _ => SpiBus.atRest_reliable _ _ _⟩

theorem zeroBus_reliable (size : Nat) : (zeroBus size).Reliable := SpiBus.atRest_reliable _ _ _

/-- A program command has no range check: it succeeds wherever it goes. -/
theorem norWrite_rangeSafe_iff (hu : nor.Unlocks cfg) (hon : nor.toNorFlash.On size b)
    (ha : addr < 0x100000000) :
    RangeSafe nor.toNorFlash size addr buf.length (norWrite cfg busPort nor addr buf) ↔
      addr + buf.length ≤ size ∨ buf = [] := by
  constructor
  · intro h
    by_cases hle : addr + buf.length ≤ size
    · exact .inl hle
    · right
      by_cases hne : buf = []
      · exact hne
      · have hz := zeroBus_on hon
        have hrel := zeroBus_reliable size
        obtain ⟨-, hret⟩ := h _ hz hrel
        obtain ⟨-, -, -, hr⟩ := norWrite_bus hu hz.2 ha rfl
        exact absurd (hr hrel hne) (hret (Nat.lt_of_not_le hle))
  · intro h b hb hrel
    rcases h₁ : norWrite cfg busPort nor addr buf b with ⟨ret, b'⟩
    cases h with
    | inl hle =>
      obtain ⟨-, hm, -⟩ := norWrite_bus hu hb.2 ha h₁
      obtain ⟨k, hk, -, hm⟩ := hm (hb.1 ▸ hle)
      refine ⟨?_, fun h => absurd hle (Nat.not_le_of_lt h)⟩
      intro i _ hi
      rw [hm]
      exact NorArray.program_outside _ (by rw [List.length_take]; omega)
    | inr hnil =>
      subst hnil
      obtain ⟨info, hi⟩ := Option.isSome_iff_exists.1 hb.2.info
      rw [norWrite, hi] at h₁
      rcases h₂ : norWaitReady busPort 0 500 b with ⟨ret₂, b₂⟩
      obtain ⟨hp, -, -⟩ := norWaitReady_bus h₂
      simp only [h₂, List.length_nil, norWriteLoop, ite_self] at h₁
      obtain ⟨rfl, rfl⟩ := Prod.mk.inj h₁
      exact ⟨fun i _ _ => congrFun hp.mem i, fun _ => show -eBusy ≠ 0 by decide⟩

theorem norEraseLoop_erased (hu : nor.Unlocks cfg) (hd : nor.toNorFlash.Drives b.chip)
    (h : norEraseLoop cfg busPort nor info fuel addr size b = (ret, b'))
    (hi : b.chip.mem i = erased) : b'.chip.mem i = erased := by
  induction fuel generalizing addr size b with
  | zero =>
    obtain ⟨-, rfl⟩ := Prod.mk.inj h
    exact hi
  | succ fuel ih =>
    rw [norEraseLoop] at h
    by_cases hz : size = 0
    · rw [if_pos hz] at h
      obtain ⟨-, rfl⟩ := Prod.mk.inj h
      exact hi
    rw [if_neg hz] at h
    cases hcmd : eraseCmdFor info addr size with
    | none =>
      rw [hcmd] at h
      obtain ⟨-, rfl⟩ := Prod.mk.inj h
      exact hi
    | some blk =>
      rcases h₁ : norEraseBy cfg busPort nor blk addr b with ⟨ret₁, b₁⟩
      obtain ⟨hk, hm, -, -⟩ := norEraseBy_bus hu hd h₁
      have hi₁ : b₁.chip.mem i = erased := by
        rcases hm with ⟨-, hm⟩ | hm
        · rw [hm, hi]
        · rw [hm]
          exact NorArray.erase_of_erased _ hi
      simp only [hcmd, h₁] at h
      by_cases h0 : ret₁ = 0
      · rw [if_neg (not_not.2 h0)] at h
        exact ih (hk.drives hd) h hi₁
      · rw [if_pos h0] at h
        obtain ⟨-, rfl⟩ := Prod.mk.inj h
        exact hi₁

theorem norEraseLoop_first (hu : nor.Unlocks cfg) (hd : nor.toNorFlash.Drives b.chip)
    (hrel : b.Reliable) (hb : b.chip.busy = 0) (hcmd : eraseCmdFor info addr size = some blk)
    (hf : size ≤ fuel) (h : norEraseLoop cfg busPort nor info fuel addr size b = (ret, b')) :
    b'.chip.mem (b.chip.decode nor.addrWidth addr) = erased := by
  have hpos := blk.bytes_pos
  obtain ⟨hfit, -⟩ := eraseCmdFor_some hcmd
  cases fuel with
  | zero => omega
  | succ fuel =>
    rcases h₁ : norEraseBy cfg busPort nor blk addr b with ⟨ret₁, b₁⟩
    obtain ⟨hk, hm, -, hr⟩ := norEraseBy_bus hu hd h₁
    have h0 := hr hrel hb
    rw [norEraseLoop, if_neg (by omega)] at h
    simp only [hcmd, h₁] at h
    rw [if_neg (not_not.2 h0)] at h
    apply norEraseLoop_erased hu (hk.drives hd) h
    rcases hm with ⟨hne, -⟩ | hm
    · exact (hne h0).elim
    · rw [hm]
      exact NorArray.erase_inside _ (Nat.div_mul_le_self _ _) (Nat.lt_div_mul_add hpos)

/-- A range over the end of the chip is erased on from its start. -/
theorem norEraseLoop_wraps (hu : nor.Unlocks cfg) (hd : nor.toNorFlash.Drives b.chip)
    (hrel : b.Reliable) (hb : b.chip.busy = 0) (hg : NorInfo.erasesBy info g)
    (ha : addr % g.bytes = 0) (htotal : b.chip.size % sz64K = 0) (hle : addr ≤ b.chip.size)
    (hover : b.chip.size + g.bytes ≤ addr + size) (hf : size ≤ fuel)
    (h : norEraseLoop cfg busPort nor info fuel addr size b = (ret, b')) :
    b'.chip.mem 0 = erased := by
  induction fuel generalizing addr size b with
  | zero =>
    have := g.bytes_pos
    omega
  | succ fuel ih =>
    obtain ⟨blk, hcmd, hmod⟩ := eraseCmdFor_of_erasesBy hg ha (show g.bytes ≤ size by omega)
    by_cases hend : addr = b.chip.size
    · have hdec : b.chip.decode nor.addrWidth addr = 0 := by
        have hfits := hd.fits
        rw [hend, NorChip.decode]
        rcases Nat.lt_or_eq_of_le hfits with hlt | heq
        · rw [Nat.mod_eq_of_lt hlt, Nat.mod_self]
        · rw [← heq, Nat.mod_self, Nat.zero_mod]
      exact hdec ▸ norEraseLoop_first hu hd hrel hb hcmd hf h
    · obtain ⟨hfit, hal⟩ := eraseCmdFor_some hcmd
      have hpos := blk.bytes_pos
      -- the chip ends on a block boundary, so the block ends inside
      have hin : addr + blk.bytes ≤ b.chip.size := by
        clear hmod hcmd
        cases blk <;> simp only [EraseSize.bytes, sz64K, sz32K, sz4K] at * <;> omega
      have hlt := hd.size_lt
      have hnext : u32 (addr + blk.bytes) = addr + blk.bytes :=
        u32_of_lt (Nat.lt_of_le_of_lt hin hlt)
      rcases h₁ : norEraseBy cfg busPort nor blk addr b with ⟨ret₁, b₁⟩
      obtain ⟨hk, -, hz, hr⟩ := norEraseBy_bus hu hd h₁
      have h0 := hr hrel hb
      have hleft : size - blk.bytes ≤ fuel := by omega
      have hsum : b₁.chip.size + g.bytes ≤ addr + blk.bytes + (size - blk.bytes) := by
        rw [hk.size]
        omega
      rw [norEraseLoop, if_neg (by omega)] at h
      simp only [hcmd, h₁, hnext] at h
      rw [if_neg (not_not.2 h0)] at h
      exact ih (hk.drives hd) (hk.reliable hrel) (hz h0) (hnext ▸ g.mod_next ha hmod)
        (hk.size ▸ htotal) (hk.size ▸ hin) hsum hleft h

/-- The sum of a request does not wrap, or the request is turned away before it erases. -/
def EraseInRange (info : NorInfo) (size addr n : Nat) : Prop :=
  addr + n ≤ size ∨ size < u32 (addr + n) ∨ n % sz4K ≠ 0 ∨ eraseCmdFor info addr n = none

theorem norErase_rangeSafe (hu : nor.Unlocks cfg) (hi : nor.info = some info)
    (ha : addr < 0x100000000) (h : EraseInRange info size addr n) :
    RangeSafe nor.toNorFlash size addr n (norErase cfg busPort nor addr n) := by
  intro b hb hrel
  rcases h₁ : norErase cfg busPort nor addr n b with ⟨ret, b'⟩
  have hzero : u32 (addr + 0) = addr := u32_of_lt ha
  by_cases hle : addr + n ≤ size
  · obtain ⟨-, ⟨k, hk, -, hm⟩, -⟩ := norErase_bus hu hb.2 (hb.1 ▸ hle) h₁
    refine ⟨?_, fun h => absurd hle (Nat.not_le_of_lt h)⟩
    intro i _ hi
    rw [hm]
    exact NorArray.erase_outside _ (by omega)
  have hsame : ret ≠ 0 → b' = b →
      (∀ i, i < size → ¬ (addr ≤ i ∧ i < addr + n) → b'.chip.mem i = b.chip.mem i) ∧
        (size < addr + n → ret ≠ 0) := by
    rintro hr rfl
    exact ⟨fun _ _ _ => rfl, fun _ => hr⟩
  have htotal := hb.2.totalSize.trans hb.1
  have hsize := hb.2.size_lt
  rw [hb.1] at hsize
  rw [norErase, hi] at h₁
  dsimp only at h₁
  rw [htotal] at h₁
  by_cases h4K : n % sz4K ≠ 0
  · rw [if_pos h4K] at h₁
    obtain ⟨rfl, rfl⟩ := Prod.mk.inj h₁
    exact hsame (by decide) rfl
  rw [if_neg h4K] at h₁
  by_cases hover : u32 (addr + n) > size
  · rw [if_pos hover] at h₁
    obtain ⟨rfl, rfl⟩ := Prod.mk.inj h₁
    exact hsame (by decide) rfl
  rw [if_neg hover, if_neg (by omega)] at h₁
  have hcmd : eraseCmdFor info addr n = none := by
    rcases h with h | h | h | h
    · exact (hle h).elim
    · exact (hover h).elim
    · exact (h4K h).elim
    · exact h
  cases n with
  | zero =>
    rw [hzero] at hover
    exact (hle (Nat.le_of_not_lt hover)).elim
  | succ n =>
    rw [norEraseLoop, if_neg (Nat.succ_ne_zero n), hcmd] at h₁
    obtain ⟨rfl, rfl⟩ := Prod.mk.inj h₁
    exact hsame (by decide) rfl

theorem norErase_not_rangeSafe (hu : nor.Unlocks cfg) (hon : nor.toNorFlash.On size b)
    (hi : nor.info = some info) (hn : n < 0x100000000) (hpos : 0 < size)
    (htotal : size % sz64K = 0) (h : ¬ EraseInRange info size addr n) :
    ¬ RangeSafe nor.toNorFlash size addr n (norErase cfg busPort nor addr n) := by
  intro hsafe
  obtain ⟨hle, h⟩ := not_or.1 h
  obtain ⟨hover, h⟩ := not_or.1 h
  obtain ⟨h4K, hcmd⟩ := not_or.1 h
  have hz := zeroBus_on hon
  obtain ⟨hframe, -⟩ := hsafe _ hz (zeroBus_reliable size)
  have hsize := hz.2.size_lt
  have hwrap : 0x100000000 ≤ addr + n := by
    apply Nat.le_of_not_lt
    intro hlt
    rw [u32_of_lt hlt] at hover
    exact hover (Nat.lt_of_not_le hle)
  rcases h₁ : norErase cfg busPort nor addr n (zeroBus size) with ⟨ret, b'⟩
  have hloop := h₁
  rw [norErase, hi] at hloop
  dsimp only at hloop
  rw [if_neg h4K, hz.2.totalSize, hz.1, if_neg hover, if_neg (by omega)] at hloop
  obtain ⟨blk, hcmd⟩ := Option.ne_none_iff_exists'.1 hcmd
  -- a cell outside the range that is erased
  have herased : ∃ i < size, ¬ (addr ≤ i ∧ i < addr + n) ∧ b'.chip.mem i = erased := by
    by_cases hin : addr < size
    · obtain ⟨-, hal⟩ := eraseCmdFor_some hcmd
      refine ⟨0, hpos, by omega, ?_⟩
      apply norEraseLoop_wraps hu hz.2 (zeroBus_reliable size) rfl (eraseCmdFor_erasesBy hcmd) hal
        htotal (Nat.le_of_lt hin) ?_ (Nat.le_refl _) hloop
      change size + blk.bytes ≤ addr + n
      change size < 0x100000000 at hsize
      cases blk <;> simp only [EraseSize.bytes, sz64K, sz32K, sz4K] at * <;> omega
    · refine ⟨_, Nat.mod_lt _ hpos, ?_, norEraseLoop_first hu hz.2 (zeroBus_reliable size) rfl hcmd
        (Nat.le_refl _) hloop⟩
      intro h
      exact hin (Nat.lt_of_le_of_lt h.1 (Nat.mod_lt _ hpos))
  obtain ⟨i, hi', hout, he⟩ := herased
  have hsame := hframe i hi' hout
  rw [h₁] at hsame
  exact absurd (hsame.symm.trans he) (show (0 : Byte) ≠ 0xFF by decide)

/-- Exactly which requests to the raw operations stay in their range. -/
theorem norWrite_norErase_rangeSafe (hu : nor.Unlocks cfg) (hon : nor.toNorFlash.On size b)
    (hi : nor.info = some info) (ha : addr < 0x100000000) (hn : n < 0x100000000) :
    (∀ buf, RangeSafe nor.toNorFlash size addr buf.length (norWrite cfg busPort nor addr buf) ↔
      addr + buf.length ≤ size ∨ buf = []) ∧
    (EraseInRange info size addr n →
      RangeSafe nor.toNorFlash size addr n (norErase cfg busPort nor addr n)) ∧
    (0 < size → size % sz64K = 0 →
      RangeSafe nor.toNorFlash size addr n (norErase cfg busPort nor addr n) →
        EraseInRange info size addr n) := by
  refine ⟨fun buf => norWrite_rangeSafe_iff hu hon ha, norErase_rangeSafe hu hi ha, ?_⟩
  intro hpos htotal hsafe
  by_contra h
  exact norErase_not_rangeSafe hu hon hi hn hpos htotal h hsafe

/-- A program over the end of the chip goes on at its start. -/
theorem norWrite_wraps :
    ¬ ∀ addr buf, addr < 0x100000000 →
      RangeSafe norW25q64jv.toNorFlash 0x800000 addr buf.length
        (norWrite ⟨false, false, false⟩ busPort norW25q64jv addr buf) := by
  intro h
  obtain ⟨hframe, -⟩ := h 0x7FFF80 (List.replicate 256 0) (by decide) _
    (norW25q64jv_on (b := .atRest w25q64jv.id 0x800000 fun _ => 0xFF) rfl)
    (SpiBus.atRest_reliable _ _ _)
  exact absurd (hframe 0 (by decide) (by decide +kernel)) (by decide +kernel)

theorem norWrite_norErase_rangeSafe_w25q64jv :
    let nor := norW25q64jv
    let cfg : Config := ⟨false, false, false⟩
    (∀ buf, RangeSafe nor.toNorFlash 0x800000 0x7FF000 buf.length
        (norWrite cfg busPort nor 0x7FF000 buf) ↔ 0x7FF000 + buf.length ≤ 0x800000 ∨ buf = []) ∧
    (EraseInRange w25q64jv 0x800000 0x7FF000 0xFF802000 →
      RangeSafe nor.toNorFlash 0x800000 0x7FF000 0xFF802000
        (norErase cfg busPort nor 0x7FF000 0xFF802000)) ∧
    (0 < 0x800000 → 0x800000 % sz64K = 0 →
      RangeSafe nor.toNorFlash 0x800000 0x7FF000 0xFF802000
        (norErase cfg busPort nor 0x7FF000 0xFF802000) →
        EraseInRange w25q64jv 0x800000 0x7FF000 0xFF802000) :=
  norWrite_norErase_rangeSafe (Nor.unlocks_of_noLock rfl) (norW25q64jv_ready fun _ => 0xFF).1 rfl
    (by decide) (by decide)

end D1Flash
