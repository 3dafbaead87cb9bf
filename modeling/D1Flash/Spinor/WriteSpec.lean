import D1Flash.Spinor.WrLockSpec

namespace D1Flash
open NorArray (erase program slice)
set_option autoImplicit true

theorem norWriteDo_bus {nor : Nor SpiBus} (hd : nor.toNorFlash.Drives b.chip)
    (h : norWriteDo busPort nor addr buf b = (ret, b')) :
    b.Kept b' ∧
      (b.chip.decode nor.addrWidth addr % norPageSize + buf.length ≤ norPageSize →
        ∃ k ≤ buf.length, (ret = 0 → k = buf.length) ∧
          b'.chip.mem = program b.chip.mem (b.chip.decode nor.addrWidth addr) (buf.take k)) ∧
      (ret = 0 → b'.chip.busy = 0) ∧
      (b.Reliable → b.chip.busy = 0 → buf.length ≤ norPageSize → ret = 0) := by
  unfold norWriteDo at h
  by_cases hl : buf.length > norPageSize
  · rw [if_pos hl] at h
    obtain ⟨rfl, rfl⟩ := Prod.mk.inj h
    exact ⟨.refl b, fun hA => by omega, fun h => absurd h (by decide), fun _ _ h => by omega⟩
  rw [if_neg hl] at h
  rcases h₁ : norWriteEnable busPort b with ⟨ret₁, b₁⟩
  obtain ⟨hk₁, hm₁, -, hz₁, hr₁⟩ := norWriteEnable_bus h₁
  simp only [h₁] at h
  by_cases h0 : ret₁ = 0
  · obtain ⟨hb₁, hw₁⟩ := hz₁ h0
    obtain ⟨bs, hcmd, ht⟩ := takeAddr_cmdAddr hd.width nor.cmdWrite addr buf
    simp only [h0, ne_eq, not_true_eq_false, if_false, hcmd] at h
    rcases h₂ : norSend busPort nor.wCmdSlen (nor.cmdWrite :: bs) b₁ with ⟨ret₂, b₂⟩
    simp only [h₂] at h
    have hsize := hk₁.size
    obtain ⟨hk₂, ⟨h02, hs⟩ | ⟨h02, hn, cut, hs⟩⟩ := norSend_bus h₂
    · simp only [h02, not_true_eq_false, if_false] at h
      obtain ⟨hp₃, hz₃, hr₃⟩ := norWaitReady_bus h
      refine ⟨(hk₁.trans hk₂).trans hp₃.toKept, fun hA => ⟨buf.length, Nat.le_refl _,
        fun _ => rfl, ?_⟩, hz₃,
        fun hrel _ _ => hr₃ (hk₂.reliable (hk₁.reliable hrel)) (polls_zero _)⟩
      rw [hp₃.mem, hs, b₁.chip.exec_program_whole hd.cmdWrite ht hb₁ hw₁ (by rw [hsize]; exact hA),
        hm₁, hsize, List.take_length]
      rfl
    · simp only [h02, not_false_eq_true, if_true, Prod.mk.injEq] at h
      obtain ⟨rfl, rfl⟩ := h
      refine ⟨hk₁.trans hk₂, fun hA => ?_, fun h => (h02 h).elim,
        fun hrel _ _ => (hn (hk₁.reliable hrel)).elim⟩
      obtain ⟨k, hk, hm⟩ := b₁.chip.exec_program (n := 0) hd.cmdWrite ht hb₁ hw₁
        (by rw [hsize]; exact hA) cut
      exact ⟨k, hk, fun h => (h02 h).elim, by rw [hs, hm, hm₁, hsize]; rfl⟩
  · simp only [ne_eq, h0, not_false_eq_true, if_true, Prod.mk.injEq] at h
    obtain ⟨rfl, rfl⟩ := h
    refine ⟨hk₁, fun _ => ⟨0, Nat.zero_le _, fun h => (h0 h).elim, ?_⟩, fun h => (h0 h).elim,
      fun hrel hb _ => (h0 (hr₁ hrel hb)).elim⟩
    rw [List.take_zero, NorArray.program_nil, hm₁]

/-- What the page loop leaves: a prefix of the data is programmed, and all of it when
it returns 0. -/
structure PageLoopDone (b : SpiBus) (addr : Nat) (buf : List Byte) (ret₀ ret : Int) (b' : SpiBus) :
    Prop where
  kept : b.Kept b'
  programs : addr + buf.length ≤ b.chip.size → ∃ k ≤ buf.length, (ret = 0 → k = buf.length) ∧
    b'.chip.mem = program b.chip.mem addr (buf.take k)
  ready : b.chip.busy = 0 → ret = 0 → b'.chip.busy = 0
  succeeds : b.Reliable → b.chip.busy = 0 → (buf = [] → ret₀ = 0) → ret = 0

namespace PageLoopDone

theorem nil : PageLoopDone b addr [] ret ret b where
  kept := .refl b
  programs _ := ⟨0, Nat.le_refl _, fun _ => rfl, by rw [List.take_zero, NorArray.program_nil]⟩
  ready hb _ := hb
  succeeds _ _ hr := hr rfl

/-- The loop stops with an error after a part of the data. -/
theorem fail (hk : b.Kept b') (hne : ret ≠ 0)
    (hm : addr + buf.length ≤ b.chip.size → ∃ k ≤ buf.length,
      b'.chip.mem = program b.chip.mem addr (buf.take k))
    (hs : b.Reliable → b.chip.busy = 0 → ret = 0) : PageLoopDone b addr buf ret₀ ret b' where
  kept := hk
  programs hle := by
    obtain ⟨k, hk, hmem⟩ := hm hle
    exact ⟨k, hk, fun h => (hne h).elim, hmem⟩
  ready _ h := (hne h).elim
  succeeds hrel hb _ := (hne (hs hrel hb)).elim

/-- The loop goes on after the part of the data that is in the first page. -/
theorem page (hk : b.Kept b₁) (hb₁ : b₁.chip.busy = 0) (hsize : b.chip.size < 0x100000000)
    (hn : n ≤ buf.length) (hm : addr + buf.length ≤ b.chip.size →
      b₁.chip.mem = program b.chip.mem addr (buf.take n))
    (h : PageLoopDone b₁ (u32 (addr + n)) (buf.drop n) 0 ret b') :
    PageLoopDone b addr buf ret₀ ret b' where
  kept := hk.trans h.kept
  programs hle := by
    have hnext : u32 (addr + n) = addr + n :=
      u32_of_lt (Nat.lt_of_le_of_lt (Nat.le_trans (Nat.add_le_add_left hn _) hle) hsize)
    have hdrop : (buf.drop n).length = buf.length - n := List.length_drop
    have hsum : n + (buf.length - n) = buf.length := Nat.add_sub_cancel' hn
    have hm₂ := h.programs
    rw [hnext, hdrop, hk.size, Nat.add_assoc, hsum] at hm₂
    obtain ⟨k, hk₂, hkr, hmem⟩ := hm₂ hle
    refine ⟨n + k, hsum ▸ Nat.add_le_add_left hk₂ _, fun hr => (hkr hr ▸ hsum), ?_⟩
    have hlen : (buf.take n).length = n := by rw [List.length_take, Nat.min_eq_left hn]
    have happ := NorArray.program_append b.chip.mem (a := addr) (d := buf.take n)
      (e := (buf.drop n).take k)
    rw [hlen] at happ
    rw [hmem, hm hle, happ, List.take_add]
  ready _ hr := h.ready hb₁ hr
  succeeds hrel _ _ := h.succeeds (hk.reliable hrel) hb₁ fun _ => rfl

end PageLoopDone

theorem norWriteDo_page {nor : Nor SpiBus} (hd : nor.toNorFlash.Drives b.chip)
    (ha : addr < b.chip.size) (hfit : addr % norPageSize + buf.length ≤ norPageSize)
    (h : norWriteDo busPort nor addr buf b = (ret, b')) :
    ∃ k ≤ buf.length, (ret = 0 → k = buf.length) ∧
      b'.chip.mem = program b.chip.mem addr (buf.take k) := by
  obtain ⟨-, hm, -, -⟩ := norWriteDo_bus hd h
  rw [b.chip.decode_of_lt ha hd.fits] at hm
  exact hm hfit

/-- What the unlock and the program of a page leave of the first `n` bytes. -/
structure PageDone (b : SpiBus) (addr : Nat) (buf : List Byte) (n : Nat) (ret : Int) (b' : SpiBus) :
    Prop where
  kept : b.Kept b'
  programs : addr + buf.length ≤ b.chip.size → ∃ k ≤ n, (ret = 0 → k = n) ∧
    b'.chip.mem = program b.chip.mem addr (buf.take k)
  ready : ret = 0 → b'.chip.busy = 0
  succeeds : b.Reliable → b.chip.busy = 0 → ret = 0

theorem norWriteDo_unlocked {nor : Nor SpiBus} (hq : b.Quiet ret₀ b₀)
    (hd : nor.toNorFlash.Drives b.chip) (hne : buf ≠ [])
    (hn : min (norPageSize - addr % norPageSize) buf.length = n)
    (h : norWriteDo busPort nor addr (buf.take n) b₀ = (ret, b')) :
    PageDone b addr buf n ret b' := by
  have hd₀ := hq.drives hd
  have hpos := List.length_pos_iff.2 hne
  have hmod : addr % norPageSize < norPageSize := Nat.mod_lt _ (by decide)
  have hlen : (buf.take n).length = n := by rw [List.length_take, Nat.min_eq_left (by omega)]
  have hfit : addr % norPageSize + (buf.take n).length ≤ norPageSize := by omega
  obtain ⟨hk, -, hz, hr⟩ := norWriteDo_bus hd₀ h
  refine ⟨hq.toKept.trans hk, fun hle => ?_, hz, fun hrel hb => ?_⟩
  · have hlt : addr < b₀.chip.size := by
      rw [hq.size]
      omega
    obtain ⟨k, hk, hkr, hm⟩ := norWriteDo_page hd₀ hlt hfit h
    rw [hlen] at hk hkr
    rw [hq.mem, List.take_take, Nat.min_eq_left hk] at hm
    exact ⟨k, hk, hkr, hm⟩
  · exact hr (hq.reliable hrel) (hq.ready hb) (Nat.le_trans (Nat.le_add_left _ _) hfit)

theorem norWriteLoop_bus {nor : Nor SpiBus} (hu : nor.Unlocks cfg)
    (hd : nor.toNorFlash.Drives b.chip) (ha : addr < 0x100000000) (hf : buf.length ≤ fuel)
    (h : norWriteLoop cfg busPort nor fuel addr buf ret₀ b = (ret, b')) :
    PageLoopDone b addr buf ret₀ ret b' := by
  induction fuel generalizing addr buf ret₀ b with
  | zero =>
    have hn : buf = [] := List.length_eq_zero_iff.1 (Nat.le_zero.1 hf)
    subst hn
    obtain ⟨rfl, rfl⟩ := Prod.mk.inj h
    exact .nil
  | succ fuel ih =>
    rw [norWriteLoop] at h
    by_cases hl : buf.length = 0
    · have hn : buf = [] := List.length_eq_zero_iff.1 hl
      subst hn
      rw [if_pos hl] at h
      obtain ⟨rfl, rfl⟩ := Prod.mk.inj h
      exact .nil
    rw [if_neg hl] at h
    simp only [inPage_eq ha] at h
    have hne : buf ≠ [] := mt List.length_eq_zero_iff.2 hl
    have hmod : addr % norPageSize < norPageSize := Nat.mod_lt _ (by decide)
    generalize hw : min (norPageSize - addr % norPageSize) buf.length = wlen at h
    have hwl : wlen ≤ buf.length := by omega
    have hleft : (buf.drop wlen).length ≤ fuel := by
      rw [List.length_drop]
      omega
    rcases h₀ : (if cfg.writeLock then norWrUnlock nor addr buf.length b else (0, b))
      with ⟨ret₀', b₀⟩
    have hq₀ := norWrUnlock_quiet hu h₀
    rw [h₀] at h
    dsimp only at h
    by_cases h00 : ret₀' = 0
    swap
    · rw [if_pos h00] at h
      obtain ⟨rfl, rfl⟩ := Prod.mk.inj h
      refine .fail hq₀.toKept h00 (fun _ => ⟨0, Nat.zero_le _, ?_⟩) hq₀.succeeds
      rw [List.take_zero, NorArray.program_nil, hq₀.mem]
    rw [if_neg (not_not.2 h00)] at h
    rcases h₁ : norWriteDo busPort nor addr (buf.take wlen) b₀ with ⟨ret₁, b₁⟩
    have hpage := norWriteDo_unlocked hq₀ hd hne hw h₁
    have hpart : addr + buf.length ≤ b.chip.size → ∃ k ≤ buf.length,
        b₁.chip.mem = program b.chip.mem addr (buf.take k) := by
      intro hle
      obtain ⟨k, hk, -, hm⟩ := hpage.programs hle
      exact ⟨k, Nat.le_trans hk hwl, hm⟩
    simp only [h₁] at h
    by_cases h0 : ret₁ = 0
    swap
    · rw [if_pos h0] at h
      obtain ⟨rfl, rfl⟩ := Prod.mk.inj h
      exact .fail hpage.kept h0 hpart hpage.succeeds
    rw [if_neg (not_not.2 h0)] at h
    rcases h₂ : (if cfg.writeLock then norWrLockAll busPort b₁ else (0, b₁)) with ⟨ret₂, b₂⟩
    have hq₂ := norRelock_quiet h₂
    have hk' := hpage.kept.trans hq₂.toKept
    rw [h₂] at h
    dsimp only at h
    by_cases h02 : ret₂ = 0
    swap
    · rw [if_pos h02] at h
      obtain ⟨rfl, rfl⟩ := Prod.mk.inj h
      refine .fail hk' h02 (hq₂.mem ▸ hpart) fun hrel _ => ?_
      exact hq₂.succeeds (hpage.kept.reliable hrel) (hpage.ready h0)
    rw [if_neg (not_not.2 h02), h02] at h
    refine .page hk' (hq₂.ready (hpage.ready h0)) hd.size_lt hwl (fun hle => ?_)
      (ih (hk'.drives hd) (u32_lt _) hleft h)
    obtain ⟨k, -, hkr, hm⟩ := hpage.programs hle
    rw [hq₂.mem, hm, hkr h0]

theorem norWrite_bus {nor : Nor SpiBus} (hu : nor.Unlocks cfg)
    (hd : nor.toNorFlash.Drives b.chip) (ha : addr < 0x100000000)
    (h : norWrite cfg busPort nor addr buf b = (ret, b')) :
    b.Kept b' ∧
      (addr + buf.length ≤ b.chip.size → ∃ k ≤ buf.length, (ret = 0 → k = buf.length) ∧
        b'.chip.mem = program b.chip.mem addr (buf.take k)) ∧
      (ret = 0 → b'.chip.busy = 0) ∧
      (b.Reliable → buf ≠ [] → ret = 0) := by
  obtain ⟨info, hi⟩ := Option.isSome_iff_exists.1 hd.info
  unfold norWrite at h
  rcases h₁ : norWaitReady busPort 0 500 b with ⟨ret₁, b₁⟩
  obtain ⟨hp₁, hz₁, hr₁⟩ := norWaitReady_bus h₁
  simp only [hi, h₁] at h
  by_cases h0 : ret₁ = 0
  · simp only [h0, ne_eq, not_true_eq_false, if_false] at h
    obtain ⟨hk₂, hm₂, hz₂, hr₂⟩ := norWriteLoop_bus hu (hp₁.drives hd) ha (Nat.le_refl _) h
    rw [hp₁.size, hp₁.mem] at hm₂
    exact ⟨hp₁.toKept.trans hk₂, hm₂, fun hr => hz₂ (hz₁ h0) hr,
      fun hrel hne => hr₂ (hp₁.reliable hrel) (hz₁ h0) fun he => (hne he).elim⟩
  · simp only [ne_eq, h0, not_false_eq_true, if_true, Prod.mk.injEq] at h
    obtain ⟨rfl, rfl⟩ := h
    exact ⟨hp₁.toKept, fun _ => ⟨0, Nat.zero_le _, fun h => absurd h (by decide), by
      rw [List.take_zero, NorArray.program_nil, hp₁.mem]⟩, fun h => absurd h (by decide),
      fun hrel _ => (h0 (hr₁ hrel (polls_zero _))).elim⟩

end D1Flash
