import D1Flash.Spinor.CommandSpec

namespace D1Flash
set_option autoImplicit true

/-- A step that leaves the cells alone and a ready chip ready. -/
structure SpiBus.Still (b b' : SpiBus) : Prop extends b.Kept b' where
  mem : b'.chip.mem = b.chip.mem
  ready : b.chip.busy = 0 → b'.chip.busy = 0

/-- Such a step that does not fail by itself. -/
structure SpiBus.Quiet (b : SpiBus) (ret : Int) (b' : SpiBus) : Prop extends b.Still b' where
  succeeds : b.Reliable → b.chip.busy = 0 → ret = 0

/-- What the core relies on of a factory: its hook opens a range without touching the cells. -/
def Nor.Unlocks (cfg : Config) (nor : Nor SpiBus) : Prop :=
  cfg.writeLock = true → ∀ unlock, nor.factory.bind (·.unlock) = some unlock →
    ∀ addr len b ret b', unlock nor.toNorFlash addr len b = (ret, b') → b.Quiet ret b'

theorem Nor.unlocks_of_noLock {nor : Nor SpiBus} (hc : cfg.writeLock = false) :
    nor.Unlocks cfg := by
  intro h
  rw [hc] at h
  cases h

theorem SpiBus.Still.refl (b : SpiBus) : b.Still b := ⟨.refl b, rfl, id⟩

theorem SpiBus.Quiet.refl (b : SpiBus) : b.Quiet 0 b := ⟨.refl b, fun _ _ => rfl⟩

theorem SpiBus.Quiet.trans (h : SpiBus.Quiet a 0 b) (h' : b.Quiet ret c) : a.Quiet ret c where
  toKept := h.toKept.trans h'.toKept
  mem := h'.mem.trans h.mem
  ready hb := h'.ready (h.ready hb)
  succeeds hr hb := h'.succeeds (h.reliable hr) (h.ready hb)

theorem lockLoop_quiet {hook : Nat → Nat → SpiBus → Int × SpiBus}
    (hh : ∀ addr len b ret b', hook addr len b = (ret, b') → b.Quiet ret b')
    (h : lockLoop totalSize hook fuel addr len b = (ret, b')) : b.Quiet ret b' := by
  induction fuel generalizing addr len b with
  | zero =>
    obtain ⟨rfl, rfl⟩ := Prod.mk.inj h
    exact .refl b
  | succ fuel ih =>
    rw [lockLoop] at h
    by_cases hz : len = 0
    · rw [if_pos hz] at h
      obtain ⟨rfl, rfl⟩ := Prod.mk.inj h
      exact .refl b
    rw [if_neg hz] at h
    dsimp only at h
    rcases h₁ : hook (alignDown addr (lockAlignSize totalSize addr))
      (lockAlignSize totalSize addr) b with ⟨ret₁, b₁⟩
    have hq := hh _ _ _ _ _ h₁
    rw [h₁] at h
    by_cases h0 : ret₁ = 0
    · subst h0
      rw [if_neg (not_not.2 rfl)] at h
      exact hq.trans (ih h)
    · rw [if_pos h0] at h
      obtain ⟨rfl, rfl⟩ := Prod.mk.inj h
      exact hq

/-- The unlock in front of a write or an erase, with or without the build option. -/
theorem norWrUnlock_quiet {nor : Nor SpiBus} (hu : nor.Unlocks cfg)
    (h : (if cfg.writeLock then norWrUnlock nor addr len b else (0, b)) = (ret, b')) :
    b.Quiet ret b' := by
  cases hc : cfg.writeLock with
  | false =>
    rw [hc, if_neg Bool.false_ne_true] at h
    obtain ⟨rfl, rfl⟩ := Prod.mk.inj h
    exact .refl b
  | true =>
    rw [hc, if_pos rfl, norWrUnlock] at h
    cases hf : nor.factory.bind (·.unlock) with
    | none =>
      rw [hf] at h
      obtain ⟨rfl, rfl⟩ := Prod.mk.inj h
      exact .refl b
    | some unlock =>
      rw [hf] at h
      exact lockLoop_quiet (hu hc unlock hf) h

theorem norProtect_quiet (hcmd : chipOp cmd = .other)
    (h : (match norWriteEnable busPort b with
      | (ret, s) => if ret ≠ 0 then (ret, s) else norSendCmd busPort cmd s) = (ret, b')) :
    b.Quiet ret b' := by
  rcases h₁ : norWriteEnable busPort b with ⟨ret₁, b₁⟩
  obtain ⟨hk₁, hm₁, hb₁, -, hr₁⟩ := norWriteEnable_bus h₁
  rw [h₁] at h
  dsimp only at h
  by_cases h0 : ret₁ = 0
  · rw [if_neg (not_not.2 h0)] at h
    obtain ⟨hk₂, ⟨c, hc, hm₂, -, hle, -⟩, -, hr₂⟩ := norSendCmd_bus h
    rw [exec_other _ hcmd, or_self] at hc
    subst hc
    refine ⟨⟨hk₁.trans hk₂, hm₂.trans hm₁, ?_⟩, fun hr _ => hr₂ (hk₁.reliable hr)⟩
    intro hb
    exact Nat.le_zero.1 (hb₁ hb ▸ hle)
  · rw [if_pos h0] at h
    obtain ⟨rfl, rfl⟩ := Prod.mk.inj h
    exact ⟨⟨hk₁, hm₁, hb₁⟩, hr₁⟩

theorem norWrLockAll_quiet (h : norWrLockAll busPort b = (ret, b')) : b.Quiet ret b' :=
  norProtect_quiet (by decide) h

theorem norWrUnlockAll_quiet (h : norWrUnlockAll busPort b = (ret, b')) : b.Quiet ret b' :=
  norProtect_quiet (by decide) h

theorem norRelock_quiet {cfg : Config}
    (h : (if cfg.writeLock then norWrLockAll busPort b else (0, b)) = (ret, b')) :
    b.Quiet ret b' := by
  cases hc : cfg.writeLock with
  | false =>
    rw [hc, if_neg Bool.false_ne_true] at h
    obtain ⟨rfl, rfl⟩ := Prod.mk.inj h
    exact .refl b
  | true =>
    rw [hc, if_pos rfl] at h
    exact norWrLockAll_quiet h

theorem norRelock_still (cfg : Config) (b : SpiBus) {lockAll : SpiBus → Int × SpiBus}
    (hl : ∀ ret b', lockAll b = (ret, b') → b.Quiet ret b') :
    b.Still (if cfg.writeLock then (lockAll b).2 else b) := by
  split
  · exact (hl _ _ rfl).toStill
  · exact .refl b

end D1Flash
