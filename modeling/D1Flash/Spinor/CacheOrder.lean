import Mathlib.Data.List.Rotate
import D1Flash.Spinor.CacheTransparent

namespace D1Flash
open NorArray (slice)
open Runs (run)
set_option autoImplicit true

/-- The operations with a log of the programs that were asked for and of their results. -/
def NorOps.recording (ops : NorOps σ) : NorOps (σ × List ((Nat × List Byte) × Int)) where
  norRead addr len s :=
    match ops.norRead addr len s.1 with
    | (r, s₁) => (r, s₁, s.2)
  norWrite addr buf s :=
    match ops.norWrite addr buf s.1 with
    | (ret, s₁) => (ret, s₁, s.2 ++ [((addr, buf), ret)])
  norErase addr len s :=
    match ops.norErase addr len s.1 with
    | (ret, s₁) => (ret, s₁, s.2)

namespace NorCache

def pageProgram (c : NorCache) (nor : NorFlash) (page : Nat) : Nat × List Byte :=
  (c.getAddrByPage nor page, slice c.buf (page * nor.pageSize) nor.pageSize)

/-- The log of programs of these pages that all succeeded. -/
def programmed (c : NorCache) (nor : NorFlash) (pages : List Nat) :
    List ((Nat × List Byte) × Int) :=
  pages.map fun page => (c.pageProgram nor page, 0)

/-- The pages in the order of a flush, from the one after `lastWrite` round to it. -/
def walk (c : NorCache) : List Nat := (List.range c.pageCnt).rotate (c.lastWrite + 1)

def flushOrder (c : NorCache) : List Nat := c.walk.filter c.bitmapPage

variable {c : NorCache}

theorem walk_length (c : NorCache) : c.walk.length = c.pageCnt := by
  rw [walk, List.length_rotate, List.length_range]

theorem walk_getElem (h : i < c.walk.length) : c.walk[i] = (i + c.lastWrite + 1) % c.pageCnt := by
  simp only [walk, List.getElem_rotate, List.getElem_range, List.length_range, Nat.add_assoc]

theorem walk_last (h : c.lastWrite < c.pageCnt) : ∃ front, c.walk = front ++ [c.lastWrite] := by
  refine ⟨(List.range c.pageCnt).drop (c.lastWrite + 1) ++ List.range c.lastWrite, ?_⟩
  rw [walk, List.rotate_eq_drop_append_take (by rw [List.length_range]; exact h),
    List.take_range, Nat.min_eq_left h, List.range_succ, List.append_assoc]

theorem flushOrder_nodup (c : NorCache) : c.flushOrder.Nodup :=
  (List.nodup_rotate.2 List.nodup_range).filter _

theorem mem_flushOrder (hlt : ∀ p, c.bitmapPage p = true → p < c.pageCnt) :
    p ∈ c.flushOrder ↔ c.bitmapPage p = true := by
  rw [flushOrder, List.mem_filter, walk, List.mem_rotate, List.mem_range]
  exact ⟨And.right, fun h => ⟨hlt p h, h⟩⟩

theorem flushOrder_last (hlt : c.lastWrite < c.pageCnt) (h : c.bitmapPage c.lastWrite = true) :
    c.flushOrder.getLast? = some c.lastWrite := by
  obtain ⟨front, hw⟩ := walk_last hlt
  rw [flushOrder, hw, List.filter_append, List.filter_singleton, h]
  exact List.getLast?_concat

end NorCache

variable {ops : NorOps σ} {nor : NorFlash} {c : NorCache}

/-- The rest of a flush programs the dirty pages of the rest of the walk, up to a program that
fails. -/
theorem norFlushWriteLoop_recording (hn : n ≤ c.pageCnt)
    (h : norFlushWriteLoop ops.recording nor c n (s, log) = (ret, s', log'))
    (hok : ∀ e ∈ log', e.2 = 0) :
    ret = 0 ∧ norFlushWriteLoop ops nor c n s = (0, s') ∧
      log' = log ++
        c.programmed nor ((c.walk.drop (c.pageCnt - n)).filter c.bitmapPage) := by
  induction n generalizing s log with
  | zero =>
    cases h
    rw [Nat.sub_zero, List.drop_eq_nil_of_le (Nat.le_of_eq c.walk_length)]
    exact ⟨rfl, rfl, (List.append_nil _).symm⟩
  | succ n ih =>
    have hi : c.pageCnt - (n + 1) < c.walk.length := by
      rw [c.walk_length]
      omega
    have hnext : c.pageCnt - (n + 1) + 1 = c.pageCnt - n := by omega
    have hn' : n ≤ c.pageCnt := by omega
    rw [List.drop_eq_getElem_cons hi, NorCache.walk_getElem, hnext]
    rw [norFlushWriteLoop] at h ⊢
    dsimp only at h ⊢
    generalize (c.pageCnt - (n + 1) + c.lastWrite + 1) % c.pageCnt = page at h ⊢
    cases hd : c.bitmapPage page with
    | true =>
      rw [if_pos hd] at h
      rw [if_pos rfl, List.filter_cons_of_pos hd]
      rcases h₁ : ops.norWrite (c.getAddrByPage nor page)
        (slice c.buf (page * nor.pageSize) nor.pageSize) s with ⟨ret₁, s₁⟩
      simp only [NorOps.recording, h₁] at h
      by_cases h0 : ret₁ = 0
      · subst h0
        rw [if_neg (not_not.2 rfl)] at h
        obtain ⟨hret, hrun, rfl⟩ := ih hn' h
        simp only [h₁, ne_eq, not_true_eq_false, if_false]
        refine ⟨hret, hrun, ?_⟩
        rw [List.append_assoc]
        rfl
      · -- the program that fails is in the log
        rw [if_pos h0] at h
        cases h
        exact (h0 (hok _ (List.mem_append_right _ (List.mem_singleton_self _)))).elim
    | false =>
      rw [if_neg (by rw [hd]; decide)] at h
      rw [if_neg Bool.false_ne_true, List.filter_cons_of_neg (by rw [hd]; decide)]
      exact ih hn' h

/-- A flush whose programs all succeed answers 0 and programs the dirty pages in their order. -/
theorem norFlushWrite_recording
    (h : norFlushWrite ops.recording nor c (s, []) = (ret, c', s', log))
    (hok : ∀ e ∈ log, e.2 = 0) :
    ret = 0 ∧ norFlushWrite ops nor c s = (0, c', s') ∧ log = c.programmed nor c.flushOrder := by
  rw [norFlushWrite] at h ⊢
  rcases h₁ : norFlushWriteLoop ops.recording nor c c.pageCnt (s, []) with ⟨ret₁, s₁, log₁⟩
  simp only [h₁] at h
  have hlog : log₁ = log := by
    split at h <;> cases h <;> rfl
  obtain ⟨rfl, hrun, he⟩ := norFlushWriteLoop_recording (Nat.le_refl _) h₁ (hlog ▸ hok)
  rw [if_neg (not_not.2 rfl)] at h
  cases h
  rw [hrun]
  refine ⟨rfl, rfl, ?_⟩
  rw [he, Nat.sub_self, List.drop_zero]
  rfl

/-- The page on which a call that stores in a window ends. -/
def CacheOp.lastPage : CacheOp → Option Nat
  | .write addr buf =>
    if 0 < buf.length ∧ addr % cacheSize + buf.length ≤ cacheSize then
      some ((addr + buf.length - 1) / norPageSize * norPageSize)
    else none
  | _ => none

/-- The last page of the most recent write that went into a window, after one more call. -/
def storedLast (last : Option Nat) (a : CacheOp) (out : Option (List Byte)) : Option Nat :=
  if out.isSome then a.lastPage.or last else last

/-- The arguments of a call are `unsigned int`s. -/
def CacheOp.Typed : CacheOp → Prop
  | .write addr buf => addr < 0x100000000 ∧ buf.length < 0x100000000
  | .read addr len => addr < 0x100000000 ∧ len < 0x100000000
  | .erase addr len => addr < 0x100000000 ∧ len < 0x100000000
  | .sync => True

/-- Where a page is dirty, so is the one that the last write into the window ended on. -/
structure NorCache.EndsDirty (c : NorCache) (nor : NorFlash) (last : Option Nat) : Prop where
  pageCnt : c.pageCnt = cacheSize / norPageSize
  window : c.addr = invalidCacheAddr → ∀ p, c.bitmapPage p = false
  page : ∀ p, c.bitmapPage p = true → p < c.pageCnt
  ends : ∀ p, c.bitmapPage p = true →
    c.bitmapPage c.lastWrite = true ∧ last = some (c.getAddrByPage nor c.lastWrite)

/-- Nothing is stored: the dirty pages stay as they are, or there are none left. -/
structure NorCache.StoresNothing (c c' : NorCache) : Prop where
  pageCnt : c'.pageCnt = c.pageCnt
  lastWrite : c'.lastWrite = c.lastWrite
  page : c'.addr = c.addr ∧ c'.bitmapPage = c.bitmapPage ∨ ∀ p, c'.bitmapPage p = false

theorem NorCache.StoresNothing.refl (c : NorCache) : c.StoresNothing c :=
  ⟨rfl, rfl, .inl ⟨rfl, rfl⟩⟩

theorem NorCache.StoresNothing.moved (h : NorCache.StoresNothing c c')
    (hp : ∀ p, c'.bitmapPage p = false) (a : Nat) : c.StoresNothing { c' with addr := a } :=
  ⟨h.pageCnt, h.lastWrite, .inr hp⟩

theorem NorCache.EndsDirty.kept (h : NorCache.EndsDirty c nor g) (hk : c.StoresNothing c') :
    c'.EndsDirty nor g := by
  have hcnt := hk.pageCnt.trans h.pageCnt
  rcases hk.page with ⟨ha, hp⟩ | hp
  · have haddr : c'.getAddrByPage nor c'.lastWrite = c.getAddrByPage nor c.lastWrite := by
      rw [NorCache.getAddrByPage, NorCache.getAddrByPage, ha, hk.lastWrite]
    refine ⟨hcnt, ?_, ?_, ?_⟩
    · rw [ha, hp]
      exact h.window
    · rw [hk.pageCnt, hp]
      exact h.page
    · rw [haddr, hk.lastWrite, hp]
      exact h.ends
  · have hno : ∀ p, c'.bitmapPage p ≠ true := fun p => by rw [hp p]; decide
    exact ⟨hcnt, fun _ => hp, fun p hd => (hno p hd).elim, fun p hd => (hno p hd).elim⟩

theorem norFlushErase_storesNothing (h : norFlushErase ops nor c s = (ret, c', s')) :
    c.StoresNothing c' := by
  rw [norFlushErase] at h
  rcases h₁ : norFlushEraseLoop ops nor c c.blkCnt 0 0 s with ⟨ret₁, s₁⟩
  simp only [h₁] at h
  by_cases h0 : ret₁ = 0
  · rw [if_neg (not_not.2 h0)] at h
    cases h
    exact ⟨rfl, rfl, .inl ⟨rfl, rfl⟩⟩
  · rw [if_pos h0] at h
    cases h
    exact .refl c

theorem norFlushCache_storesNothing (hinv : c.addr = invalidCacheAddr → ∀ p, c.bitmapPage p = false)
    (h : norFlushCache ops nor c s = (ret, c', s')) :
    c.StoresNothing c' ∧ (ret = 0 → ∀ p, c'.bitmapPage p = false) := by
  rw [norFlushCache] at h
  by_cases ha : c.addr = invalidCacheAddr
  · rw [if_pos ha] at h
    cases h
    exact ⟨.refl c, fun _ => hinv ha⟩
  rw [if_neg ha] at h
  rcases h₁ : norFlushErase ops nor c s with ⟨ret₁, c₁, s₁⟩
  have hk₁ := norFlushErase_storesNothing h₁
  simp only [h₁] at h
  by_cases h0 : ret₁ = 0
  swap
  · rw [if_pos h0] at h
    cases h
    exact ⟨hk₁, fun h => (h0 h).elim⟩
  rw [if_neg (not_not.2 h0), norFlushWrite] at h
  rcases h₂ : norFlushWriteLoop ops nor c₁ c₁.pageCnt s₁ with ⟨ret₂, s₂⟩
  simp only [h₂] at h
  by_cases hw : ret₂ = 0
  · simp only [hw, ne_eq, not_true_eq_false, if_false] at h
    cases h
    exact ⟨⟨hk₁.pageCnt, hk₁.lastWrite, .inr fun _ => rfl⟩, fun _ _ => rfl⟩
  · simp only [hw, ne_eq, not_false_eq_true, if_true] at h
    cases h
    exact ⟨hk₁, fun h => (hw h).elim⟩

theorem norCacheMove_storesNothing
    (hinv : c.addr = invalidCacheAddr → ∀ p, c.bitmapPage p = false) (ha : addr < 0x100000000)
    (h : norCacheMove ops nor addr len c s = (ret, c', s')) :
    c.StoresNothing c' ∧ (ret = 0 → c'.addr = addr / cacheSize * cacheSize) := by
  rw [norCacheMove] at h
  by_cases hc : c.checkCacheAddr addr len = 0
  · rw [if_neg (not_not.2 hc)] at h
    simp only [Prod.mk.injEq] at h
    obtain ⟨-, rfl, -⟩ := h
    exact ⟨.refl c, fun _ => checkCacheAddr_hit ha hc⟩
  rw [if_pos hc] at h
  rcases h₁ : norFlushCache ops nor c s with ⟨ret₁, c₁, s₁⟩
  obtain ⟨hk₁, hd₁⟩ := norFlushCache_storesNothing hinv h₁
  simp only [h₁] at h
  by_cases h0 : ret₁ = 0
  · have haddr : (c₁.setCacheAddr addr).addr = addr / cacheSize * cacheSize := alignDown_64K ha
    rw [if_neg (not_not.2 h0)] at h
    simp only [Prod.mk.injEq] at h
    obtain ⟨-, rfl, -⟩ := h
    exact ⟨hk₁.moved (hd₁ h0) _, fun _ => haddr⟩
  · rw [if_pos h0] at h
    simp only [Prod.mk.injEq] at h
    obtain ⟨rfl, rfl, -⟩ := h
    exact ⟨hk₁, fun h => (h0 h).elim⟩

/-- Pages stored in the window of their address: the last of them is dirty. -/
theorem endsDirty_stored (hg : nor.Geometry) (h : NorCache.EndsDirty c nor g)
    (hw : c.addr = addr / cacheSize * cacheSize) (ha : addr % norPageSize = 0)
    (hlt : addr < 0x100000000) (hlen : buf.length % norPageSize = 0) (hpos : 0 < buf.length)
    (hin : addr % cacheSize + buf.length ≤ cacheSize) :
    (c.stored (addr % cacheSize / norPageSize) (addr % cacheSize) buf).EndsDirty nor
      (some ((addr + buf.length - 1) / norPageSize * norPageSize)) := by
  generalize hc' : c.stored (addr % cacheSize / norPageSize) (addr % cacheSize) buf = c'
  have hcnt : c'.pageCnt = cacheSize / norPageSize := hc' ▸ h.pageCnt
  have hlast : c'.lastWrite =
      addr % cacheSize / norPageSize + buf.length / norPageSize - 1 := by
    rw [← hc', NorCache.stored]
    exact if_neg (Nat.pos_iff_ne_zero.1 hpos)
  have haddr : c'.getAddrByPage nor c'.lastWrite =
      (addr + buf.length - 1) / norPageSize * norPageSize := by
    rw [NorCache.getAddrByPage, hlast, hg.page, ← hc']
    simp only [NorCache.stored, hw, u32, cacheSize, sz64K, norPageSize] at *
    omega
  have hdirty : c'.bitmapPage c'.lastWrite = true := by
    rw [hlast, ← hc']
    simp only [NorCache.stored, Bool.or_eq_true, decide_eq_true_eq, norPageSize] at *
    omega
  refine ⟨hcnt, ?_, ?_, fun _ _ => ⟨hdirty, by rw [haddr]⟩⟩
  · intro hinv
    have : c.addr = invalidCacheAddr := by rw [← hinv, ← hc']; rfl
    simp only [hw, cacheSize, sz64K, invalidCacheAddr] at this
    omega
  · intro p hp
    rw [hcnt]
    cases hold : c.bitmapPage p with
    | true => exact h.pageCnt ▸ h.page p hold
    | false =>
      rw [← hc'] at hp
      simp only [NorCache.stored, hold, Bool.false_or, decide_eq_true_eq, cacheSize, sz64K,
        norPageSize] at *
      omega

theorem norCacheRead_storesNothing
    (hwin : c.addr = invalidCacheAddr → ∀ p, c.bitmapPage p = false)
    (h : norCacheRead ops nor addr len c s = ((ret, d), c', s')) : c.StoresNothing c' := by
  rw [norCacheRead] at h
  by_cases ha : addr % nor.pageSize = 0
  swap
  · rw [if_pos ha] at h
    cases h
    exact .refl c
  by_cases hlen : len % nor.pageSize = 0
  swap
  · rw [if_neg (not_not.2 ha), if_pos hlen] at h
    cases h
    exact .refl c
  rw [if_neg (not_not.2 ha), if_neg (not_not.2 hlen)] at h
  by_cases hover : overCache addr len = true
  · rw [if_pos hover] at h
    rcases h₁ : norFlushCache ops nor c s with ⟨ret₁, c₁, s₁⟩
    obtain ⟨hk, -⟩ := norFlushCache_storesNothing hwin h₁
    simp only [h₁] at h
    by_cases h0 : ret₁ = 0
    · rw [if_neg (not_not.2 h0)] at h
      simp only [Prod.mk.injEq] at h
      obtain ⟨-, rfl, -⟩ := h
      exact hk
    · rw [if_pos h0] at h
      simp only [Prod.mk.injEq] at h
      obtain ⟨-, rfl, -⟩ := h
      exact hk
  · rw [if_neg hover] at h
    by_cases hc : c.checkCacheAddr addr len = 0
    · rw [if_neg (not_not.2 hc)] at h
      simp only [Prod.mk.injEq] at h
      obtain ⟨-, rfl, -⟩ := h
      exact .refl c
    · rw [if_pos hc] at h
      simp only [Prod.mk.injEq] at h
      obtain ⟨-, rfl, -⟩ := h
      exact .refl c

theorem norCacheErase_storesNothing (hg : nor.Geometry)
    (hwin : c.addr = invalidCacheAddr → ∀ p, c.bitmapPage p = false) (hlt : addr < 0x100000000)
    (h : norCacheErase ops nor addr len c s = (ret, c', s')) : c.StoresNothing c' := by
  rw [norCacheErase] at h
  by_cases ha : addr % nor.blkSize = 0
  swap
  · rw [if_pos ha] at h
    cases h
    exact .refl c
  by_cases hlen : len % nor.blkSize = 0
  swap
  · rw [if_neg (not_not.2 ha), if_pos hlen] at h
    cases h
    exact .refl c
  rw [if_neg (not_not.2 ha), if_neg (not_not.2 hlen)] at h
  by_cases hover : overCache addr len = true
  · rw [if_pos hover] at h
    rcases h₁ : norFlushErase ops nor c s with ⟨ret₁, c₁, s₁⟩
    have hk := norFlushErase_storesNothing h₁
    simp only [h₁] at h
    by_cases h0 : ret₁ = 0
    · rw [if_neg (not_not.2 h0)] at h
      cases h
      exact hk
    · rw [if_pos h0] at h
      cases h
      exact hk
  · rw [if_neg hover] at h
    rcases h₁ : norCacheMove ops nor addr len c s with ⟨ret₁, c₁, s₁⟩
    obtain ⟨hk, -⟩ := norCacheMove_storesNothing hwin hlt h₁
    simp only [h₁] at h
    by_cases h0 : ret₁ = 0
    · rw [if_neg (not_not.2 h0), norCacheEraseLoop_eq hg.blk_pos hlen (Nat.le_refl _)] at h
      cases h
      exact ⟨hk.pageCnt, hk.lastWrite, hk.page⟩
    · rw [if_pos h0] at h
      cases h
      exact hk

theorem norCacheWrite_endsDirty (hg : nor.Geometry) (hd : NorCache.EndsDirty c nor last)
    (hlt : addr < 0x100000000) (h : norCacheWrite ops nor addr buf c s = (ret, c', s')) :
    c'.EndsDirty nor
      (storedLast last (.write addr buf) (if ret = 0 then some [] else none)) := by
  have hfail : ∀ {r : Int}, r ≠ 0 →
      storedLast last (.write addr buf) (if r = 0 then some [] else none) = last := by
    intro r hr
    rw [if_neg hr]
    rfl
  rw [norCacheWrite] at h
  by_cases ha : addr % nor.pageSize = 0
  swap
  · rw [if_pos ha] at h
    cases h
    rw [hfail (by decide)]
    exact hd
  by_cases hlen : buf.length % nor.pageSize = 0
  swap
  · rw [if_neg (not_not.2 ha), if_pos hlen] at h
    cases h
    rw [hfail (by decide)]
    exact hd
  rw [if_neg (not_not.2 ha), if_neg (not_not.2 hlen)] at h
  rw [hg.page] at ha hlen
  by_cases hover : overCache addr buf.length = true
  · have hover' := (overCache_iff hlt).1 hover
    have hnone : (CacheOp.write addr buf).lastPage = none := if_neg (by omega)
    have hout : ∀ out, storedLast last (.write addr buf) out = last := by
      intro out
      rw [storedLast, hnone]
      exact ite_self _
    rw [hout]
    rw [if_pos hover] at h
    rcases h₁ : norFlushCache ops nor c s with ⟨ret₁, c₁, s₁⟩
    obtain ⟨hk, -⟩ := norFlushCache_storesNothing hd.window h₁
    simp only [h₁] at h
    by_cases h0 : ret₁ = 0
    · rw [if_neg (not_not.2 h0)] at h
      cases h
      exact hd.kept hk
    · rw [if_pos h0] at h
      cases h
      exact hd.kept hk
  rw [if_neg hover] at h
  rcases h₁ : norCacheMove ops nor addr buf.length c s with ⟨ret₁, c₁, s₁⟩
  obtain ⟨hk, hw⟩ := norCacheMove_storesNothing hd.window hlt h₁
  simp only [h₁] at h
  by_cases h0 : ret₁ = 0
  swap
  · rw [if_pos h0] at h
    cases h
    rw [hfail h0]
    exact hd.kept hk
  have haddr := hw h0
  obtain ⟨hoff, -⟩ := window_off haddr
  have hin : addr % cacheSize + buf.length ≤ cacheSize :=
    Nat.le_of_not_lt fun hlt' => hover ((overCache_iff hlt).2 hlt')
  rw [if_neg (not_not.2 h0), hoff, hg.page, norCacheWriteLoop_eq hg hlen (Nat.le_refl _)] at h
  cases h
  by_cases hpos : 0 < buf.length
  · have hsome : (CacheOp.write addr buf).lastPage =
        some ((addr + buf.length - 1) / norPageSize * norPageSize) := if_pos ⟨hpos, hin⟩
    rw [if_pos rfl, storedLast, hsome]
    exact endsDirty_stored hg (hd.kept hk) haddr ha hlt hlen hpos hin
  · obtain rfl := List.length_eq_zero_iff.1 (Nat.eq_zero_of_not_pos hpos)
    have hnone : (CacheOp.write addr []).lastPage = none := by
      rw [CacheOp.lastPage, if_neg]
      exact fun h => hpos h.1
    rw [if_pos rfl, storedLast, hnone, NorCache.stored_nil]
    exact hd.kept hk

theorem cacheStep_endsDirty {st : NorCache × σ} (hg : nor.Geometry)
    (h : st.1.EndsDirty nor last) (ht : a.Typed) :
    (cacheStep ops nor st a).2.1.EndsDirty nor (storedLast last a (cacheStep ops nor st a).1) := by
  obtain ⟨c, s⟩ := st
  cases a with
  | write addr buf =>
    rw [cacheStep]
    rcases h₁ : norCacheWrite ops nor addr buf c s with ⟨ret, c', s'⟩
    exact norCacheWrite_endsDirty hg h ht.1 h₁
  | read addr len =>
    have hlast : ∀ out, storedLast last (.read addr len) out = last := fun out => ite_self _
    rw [hlast, cacheStep]
    rcases h₁ : norCacheRead ops nor addr len c s with ⟨⟨ret, d⟩, c', s'⟩
    exact h.kept (norCacheRead_storesNothing h.window h₁)
  | erase addr len =>
    have hlast : ∀ out, storedLast last (.erase addr len) out = last := fun out => ite_self _
    rw [hlast, cacheStep]
    rcases h₁ : norCacheErase ops nor addr len c s with ⟨ret, c', s'⟩
    exact h.kept (norCacheErase_storesNothing hg h.window ht.1 h₁)
  | sync =>
    have hlast : ∀ out, storedLast last .sync out = last := fun out => ite_self _
    rw [hlast, cacheStep, norCacheSync]
    rcases h₁ : norFlushCache ops nor c s with ⟨ret, c', s'⟩
    exact h.kept (norFlushCache_storesNothing h.window h₁).1

theorem NorCache.fresh_endsDirty (hg : nor.Geometry) (lastWrite : Nat) :
    (NorCache.fresh nor lastWrite).EndsDirty nor none where
  pageCnt := by rw [NorCache.fresh, hg.page]
  window _ _ := rfl
  page _ h := by cases h
  ends _ h := by cases h

/-- After any calls, where a page is dirty, so is the last page of the latest write that went into
the window, and a flush whose programs all succeed answers 0 and programs every dirty page once and
that one last. -/
theorem norCache_metadataLast (ops : NorOps σ) (hg : nor.Geometry) (lastWrite : Nat) (s : σ)
    (ht : ∀ a ∈ calls, a.Typed) :
    let r := run (cacheStep ops nor) (NorCache.fresh nor lastWrite, s) calls
    let c := r.2.1
    (∃ p, c.bitmapPage p = true) →
      ∃ q, (calls.zip r.1).foldl (fun last p => storedLast last p.1 p.2) none =
          some (c.getAddrByPage nor q) ∧ c.bitmapPage q = true ∧
        ∀ t, let flushed := norFlushWrite ops.recording nor c (t, [])
          (∀ e ∈ flushed.2.2.2, e.2 = 0) →
            flushed.1 = 0 ∧ norFlushWrite ops nor c t = (0, flushed.2.1, flushed.2.2.1) ∧
              ∃ pages : List Nat, flushed.2.2.2 = c.programmed nor pages ∧ pages.Nodup ∧
                (∀ p, p ∈ pages ↔ c.bitmapPage p = true) ∧ pages.getLast? = some q := by
  intro r c hp
  obtain ⟨p, hp⟩ := hp
  have hd : NorCache.EndsDirty c nor
      ((calls.zip r.1).foldl (fun last p => storedLast last p.1 p.2) none) :=
    Runs.run_observed (R := fun (st : NorCache × σ) last => st.1.EndsDirty nor last)
      (fun st last a h ha => cacheStep_endsDirty hg h ha)
      (NorCache.fresh_endsDirty hg lastWrite) ht
  obtain ⟨hq, hlast⟩ := hd.ends p hp
  refine ⟨c.lastWrite, hlast, hq, ?_⟩
  intro t flushed hok
  obtain ⟨hret, hrun, he⟩ := norFlushWrite_recording rfl hok
  exact ⟨hret, hrun, c.flushOrder, he, c.flushOrder_nodup,
    fun p => NorCache.mem_flushOrder hd.page, NorCache.flushOrder_last (hd.page _ hq) hq⟩

/-- A page and then two before it: the flush starts with the later one. -/
theorem norCache_metadataLast_w25q64jv :
    let nor := norW25q64jv.toNorFlash
    let ops := coreOps ⟨false, true, true⟩ busPort norW25q64jv
    let calls := [CacheOp.write 0x300 (List.replicate 0x100 0), .write 0 (List.replicate 0x200 0)]
    let r := run (cacheStep ops nor)
      (NorCache.fresh nor 0, .atRest w25q64jv.id 0x800000 fun _ => 0xFF) calls
    let c := r.2.1
    let flushed := norFlushWrite ops.recording nor c (r.2.2, [])
    flushed.2.2.2.map (fun e => e.1.1) = [0x300, 0, 0x100] ∧
      ∃ q, (calls.zip r.1).foldl (fun last p => storedLast last p.1 p.2) none =
          some (c.getAddrByPage nor q) ∧ c.bitmapPage q = true ∧
        flushed.1 = 0 ∧ norFlushWrite ops nor c r.2.2 = (0, flushed.2.1, flushed.2.2.1) ∧
        ∃ pages : List Nat, flushed.2.2.2 = c.programmed nor pages ∧ pages.Nodup ∧
          (∀ p, p ∈ pages ↔ c.bitmapPage p = true) ∧ pages.getLast? = some q := by
  have ht : ∀ a ∈ [CacheOp.write 0x300 (List.replicate 0x100 0),
      .write 0 (List.replicate 0x200 0)], a.Typed := by
    intro a ha
    rcases List.mem_pair.1 ha with rfl | rfl <;>
      simp only [CacheOp.Typed, List.length_replicate] <;> decide
  obtain ⟨q, hlast, hq, hflush⟩ := norCache_metadataLast
    (coreOps ⟨false, true, true⟩ busPort norW25q64jv) norW25q64jv_geometry 0
    (.atRest w25q64jv.id 0x800000 fun _ => 0xFF) ht ⟨3, by decide +kernel⟩
  exact ⟨by decide +kernel, q, hlast, hq, hflush _ (by decide +kernel)⟩

end D1Flash
