import D1Flash.Spinor.Chip

namespace D1Flash
open NorArray (erase program slice)
set_option autoImplicit true

namespace NorChip

/-- The coming operations, and the one in progress, end within the poll budget. -/
def Prompt (c : NorChip) : Prop := (∀ i, c.delays i ≤ pollBudget) ∧ c.busy ≤ pollBudget

theorem start_prompt (h : Prompt c) (m : Nat → Byte) : Prompt (c.start m) :=
  ⟨fun i => h.1 (i + 1), h.1 0⟩

theorem execIdle_size (c : NorChip) : (c.execIdle op bytes n).2.size = c.size := by
  unfold execIdle
  cases op <;> dsimp only <;> (try split) <;> rfl

theorem execIdle_prompt (h : Prompt c) : Prompt (c.execIdle op bytes n).2 := by
  unfold execIdle
  cases op <;> dsimp only <;> (try split) <;> first | exact h | exact start_prompt h _

theorem exec_status (c : NorChip) (h : chipOp cmd = .status) :
    c.exec (cmd :: bytes) n = (List.replicate n c.status, { c with busy := c.busy - 1 }) := by
  simp only [exec, h]

theorem exec_idle (c : NorChip) (h : chipOp cmd ≠ .status) (hc : c.busy = 0) :
    c.exec (cmd :: bytes) n = c.execIdle (chipOp cmd) bytes n := by
  unfold exec
  dsimp only
  split
  · contradiction
  · rw [if_pos hc]

theorem exec_busy (c : NorChip) (h : chipOp cmd ≠ .status) (hc : c.busy ≠ 0) :
    (c.exec (cmd :: bytes) n).2 = c := by
  unfold exec
  dsimp only
  split
  · contradiction
  · rw [if_neg hc]

theorem exec_size (c : NorChip) (tx : List Byte) : (c.exec tx n).2.size = c.size := by
  cases tx with
  | nil => rfl
  | cons cmd bytes =>
    by_cases h : chipOp cmd = .status
    · rw [c.exec_status h]
    · by_cases hc : c.busy = 0
      · rw [c.exec_idle h hc, execIdle_size]
      · rw [c.exec_busy h hc]

theorem exec_prompt (hp : Prompt c) (tx : List Byte) : Prompt (c.exec tx n).2 := by
  cases tx with
  | nil => exact hp
  | cons cmd bytes =>
    by_cases h : chipOp cmd = .status
    · rw [c.exec_status h]
      exact ⟨hp.1, Nat.le_trans (Nat.sub_le _ _) hp.2⟩
    · by_cases hc : c.busy = 0
      · rw [c.exec_idle h hc]
        exact execIdle_prompt hp
      · rw [c.exec_busy h hc]
        exact hp

theorem status_busy (c : NorChip) : c.status &&& norBusyMask = 0 ↔ c.busy = 0 := by
  unfold status
  by_cases h : c.busy = 0 <;> cases c.wel <;> simp only [h, if_true, if_false] <;> decide

theorem status_wel (c : NorChip) : c.status &&& norSrBitWel = 0 ↔ c.wel = false := by
  unfold status
  by_cases h : c.busy = 0 <;> cases c.wel <;> simp only [h, if_true, if_false] <;> decide

end NorChip

/-- What every step of the driver leaves as it is. -/
structure SpiBus.Kept (b b' : SpiBus) : Prop where
  size : b'.chip.size = b.chip.size
  reliable : b.Reliable → b'.Reliable

theorem SpiBus.Kept.refl (b : SpiBus) : b.Kept b := ⟨rfl, id⟩

theorem SpiBus.Kept.trans (h : SpiBus.Kept a b) (h' : b.Kept c) : a.Kept c :=
  ⟨h'.size.trans h.size, h'.reliable ∘ h.reliable⟩

/-- One transfer: it succeeds and the chip executes it, or it fails and the chip executes what
arrived. -/
theorem norTransfer_bus (h : norTransfer busPort k tx rb n b = ((ret, rx), b')) :
    b.Kept b' ∧
      (ret = 0 ∧ b.chip.exec tx n = (rx, b'.chip) ∨
        ret ≠ 0 ∧ ¬ b.Reliable ∧ ∃ cut, b'.chip = (b.chip.exec (tx.take cut) n).2) := by
  simp only [norTransfer, busPort, SpiBus.xfer, Option.getD_some] at h
  cases hf : b.faults 0 with
  | none =>
    simp only [hf, Prod.mk.injEq] at h
    obtain ⟨⟨rfl, rfl⟩, rfl⟩ := h
    refine ⟨⟨b.chip.exec_size tx, fun hr => ?_⟩, .inl ⟨rfl, rfl⟩⟩
    have hp := NorChip.exec_prompt (n := n) ⟨hr.prompt, hr.busy⟩ tx
    exact ⟨fun i => hr.noFault (i + 1), hp.1, hp.2⟩
  | some f =>
    have hn : ¬ b.Reliable := by
      intro hr
      rw [hr.noFault 0] at hf
      cases hf
    simp only [hf, Prod.mk.injEq] at h
    obtain ⟨⟨rfl, rfl⟩, rfl⟩ := h
    exact ⟨⟨b.chip.exec_size _, fun hr => (hn hr).elim⟩, .inr ⟨f.ret_ne, hn, f.cut, rfl⟩⟩

theorem norSend_bus (h : norSend busPort k tx b = (ret, b')) :
    b.Kept b' ∧
      (ret = 0 ∧ b'.chip = (b.chip.exec tx 0).2 ∨
        ret ≠ 0 ∧ ¬ b.Reliable ∧ ∃ cut, b'.chip = (b.chip.exec (tx.take cut) 0).2) := by
  unfold norSend at h
  rcases ht : norTransfer busPort k tx false 0 b with ⟨⟨ret', rx⟩, b₁⟩
  simp only [ht, Prod.mk.injEq] at h
  obtain ⟨rfl, rfl⟩ := h
  obtain ⟨hk, hs | hs⟩ := norTransfer_bus ht
  · exact ⟨hk, .inl ⟨hs.1, by rw [hs.2]⟩⟩
  · exact ⟨hk, .inr hs⟩

/-- A status read changes nothing but the time the chip is still busy. -/
structure SpiBus.Polled (b b' : SpiBus) : Prop extends b.Kept b' where
  mem : b'.chip.mem = b.chip.mem
  wel : b'.chip.wel = b.chip.wel
  busy_le : b'.chip.busy ≤ b.chip.busy

theorem SpiBus.Polled.refl (b : SpiBus) : b.Polled b := ⟨.refl b, rfl, rfl, Nat.le_refl _⟩

theorem SpiBus.Polled.trans (h : SpiBus.Polled a b) (h' : b.Polled c) : a.Polled c :=
  ⟨h.toKept.trans h'.toKept, h'.mem.trans h.mem, h'.wel.trans h.wel,
    Nat.le_trans h'.busy_le h.busy_le⟩

theorem take_single (x : α) (cut : Nat) : [x].take cut = [] ∨ [x].take cut = [x] := by
  cases cut with
  | zero => exact .inl rfl
  | succ n => exact .inr (by simp only [List.take_succ_cons, List.take_nil])

theorem norReadStatus_bus (h : norReadStatus busPort b = ((ret, sr), b')) :
    b.Polled b' ∧ (ret = 0 → sr = b.chip.status ∧ b'.chip.busy = b.chip.busy - 1) ∧
      (b.Reliable → ret = 0) := by
  unfold norReadStatus at h
  rcases ht : norTransfer busPort 1 [norCmdReadSr] true 2 b with ⟨⟨ret', rx⟩, b₁⟩
  have hop : chipOp norCmdReadSr = .status := by decide
  obtain ⟨hk, ⟨h0, hs⟩ | ⟨h0, hn, cut, hs⟩⟩ := norTransfer_bus ht
  · rw [b.chip.exec_status hop, Prod.mk.injEq] at hs
    simp only [ht, h0, ne_eq, not_true_eq_false, if_false, Prod.mk.injEq] at h
    obtain ⟨⟨rfl, rfl⟩, rfl⟩ := h
    refine ⟨⟨hk, ?_, ?_, ?_⟩, fun _ => ⟨?_, ?_⟩, fun _ => rfl⟩
    · rw [← hs.2]
    · rw [← hs.2]
    · rw [← hs.2]
      exact Nat.sub_le _ _
    · rw [← hs.1]; rfl
    · rw [← hs.2]
  · simp only [ht, ne_eq, h0, not_false_eq_true, if_true, Prod.mk.injEq] at h
    obtain ⟨⟨rfl, rfl⟩, rfl⟩ := h
    refine ⟨?_, fun h => (h0 h).elim, fun hr => (hn hr).elim⟩
    rcases take_single norCmdReadSr cut with he | he
    · rw [he] at hs
      exact ⟨hk, by rw [hs]; rfl, by rw [hs]; rfl, by rw [hs]; exact Nat.le_refl _⟩
    · rw [he, b.chip.exec_status hop] at hs
      exact ⟨hk, by rw [hs], by rw [hs], by rw [hs]; exact Nat.sub_le _ _⟩

theorem norIsBusy_bus (h : norIsBusy busPort b = (ret, b')) :
    b.Polled b' ∧ (ret = 0 → b'.chip.busy = 0) ∧
      (b.Reliable → b'.chip.busy = b.chip.busy - 1 ∧ (b.chip.busy = 0 → ret = 0)) := by
  unfold norIsBusy at h
  rcases ht : norReadStatus busPort b with ⟨⟨ret', sr⟩, b₁⟩
  obtain ⟨hp, h0, hr⟩ := norReadStatus_bus ht
  simp only [ht] at h
  by_cases hret : ret' = 0
  · obtain ⟨hsr, hb⟩ := h0 hret
    simp only [hret, ne_eq, not_true_eq_false, if_false] at h
    by_cases hz : sr &&& norBusyMask = 0
    · rw [if_neg (not_not.2 hz), Prod.mk.injEq] at h
      obtain ⟨rfl, rfl⟩ := h
      rw [hsr, NorChip.status_busy] at hz
      exact ⟨hp, fun _ => by omega, fun _ => ⟨hb, fun _ => rfl⟩⟩
    · rw [if_pos hz, Prod.mk.injEq] at h
      obtain ⟨rfl, rfl⟩ := h
      rw [hsr, NorChip.status_busy] at hz
      refine ⟨hp, fun h => ?_, fun _ => ⟨hb, fun h => (hz h).elim⟩⟩
      cases h
  · rw [if_pos hret, Prod.mk.injEq] at h
    obtain ⟨rfl, rfl⟩ := h
    exact ⟨hp, fun h => (hret h).elim, fun h => (hret (hr h)).elim⟩

@[simp] theorem busPort_mdelay (n : Nat) (b : SpiBus) : busPort.mdelay n b = b := rfl

theorem msLoop_bus (h : msLoop busPort n b = (ok, b')) :
    b.Polled b' ∧ (ok = true → b'.chip.busy = 0) ∧
      (b.Reliable → ok = false → b'.chip.busy + n ≤ b.chip.busy) := by
  induction n generalizing b with
  | zero =>
    obtain ⟨rfl, rfl⟩ := Prod.mk.inj h
    exact ⟨.refl _, fun h => (Bool.false_ne_true h).elim, fun _ _ => Nat.le_refl _⟩
  | succ n ih =>
    rcases ht : norIsBusy busPort b with ⟨busy, b₁⟩
    obtain ⟨hp, h0, hr⟩ := norIsBusy_bus ht
    simp only [msLoop, ht, busPort_mdelay, ite_self] at h
    by_cases hb : busy = 0
    · rw [if_pos hb, Prod.mk.injEq] at h
      obtain ⟨rfl, rfl⟩ := h
      exact ⟨hp, fun _ => h0 hb, fun _ h => (Bool.false_ne_true h.symm).elim⟩
    · rw [if_neg hb] at h
      obtain ⟨hp', h0', hr'⟩ := ih h
      refine ⟨hp.trans hp', h0', fun hrel hok => ?_⟩
      have := hr' (hp.reliable hrel) hok
      obtain ⟨h₁, h₂⟩ := hr hrel
      have : b.chip.busy ≠ 0 := fun hz => hb (h₂ hz)
      omega

theorem timesLoop_bus (h : timesLoop busPort n b = (ok, b')) :
    b.Polled b' ∧ (ok = true → b'.chip.busy = 0) ∧
      (b.Reliable → ok = false → b'.chip.busy + n ≤ b.chip.busy) := by
  apply msLoop_bus
  rw [← h]
  clear h
  induction n generalizing b with
  | zero => rfl
  | succ n ih => simp only [msLoop, timesLoop, ih, busPort_mdelay, ite_self]

/-- A wait that is asked for no milliseconds polls through the whole counter. -/
theorem polls_zero (times : Nat) : pollBudget ≤ preDecIters 0 + preDecIters times := by
  simp only [pollBudget, preDecIters, if_true]
  exact Nat.le_add_right _ _

theorem polls_maxWaitLoop (ms : Nat) : pollBudget ≤ preDecIters ms + preDecIters maxWaitLoop := by
  have h : preDecIters maxWaitLoop = 0xFFFFFFFF := by decide
  rw [h]
  simp only [pollBudget, preDecIters]
  split <;> omega

/-- A wait that returns 0 has seen the chip ready; on a reliable bus every wait of the driver
does. -/
theorem norWaitReady_bus (h : norWaitReady busPort ms times b = (ret, b')) :
    b.Polled b' ∧ (ret = 0 → b'.chip.busy = 0) ∧
      (b.Reliable → pollBudget ≤ preDecIters ms + preDecIters times → ret = 0) := by
  unfold norWaitReady at h
  rcases h₁ : msLoop busPort (preDecIters ms) b with ⟨_ | _, b₁⟩
  · obtain ⟨hp₁, -, hr₁⟩ := msLoop_bus h₁
    simp only [h₁] at h
    rcases h₂ : timesLoop busPort (preDecIters times) b₁ with ⟨_ | _, b₂⟩
    · obtain ⟨hp₂, -, hr₂⟩ := timesLoop_bus h₂
      rcases h₃ : norIsBusy busPort b₂ with ⟨busy, b₃⟩
      obtain ⟨hp₃, h0₃, hr₃⟩ := norIsBusy_bus h₃
      have hp := (hp₁.trans hp₂).trans hp₃
      simp only [h₂, h₃] at h
      by_cases hb : busy = 0
      · rw [if_pos hb] at h
        obtain ⟨rfl, rfl⟩ := Prod.mk.inj h
        exact ⟨hp, fun _ => h0₃ hb, fun _ _ => rfl⟩
      · rw [if_neg hb] at h
        obtain ⟨rfl, rfl⟩ := Prod.mk.inj h
        refine ⟨hp, fun h => absurd h (by decide), fun hrel hn => ?_⟩
        have hrel₁ := hp₁.reliable hrel
        have h₁ := hr₁ hrel rfl
        have h₂ := hr₂ hrel₁ rfl
        have h₃ := (hr₃ (hp₂.reliable hrel₁)).2
        have hbusy := hrel.busy
        exact (hb (h₃ (by omega))).elim
    · obtain ⟨hp₂, h0₂, -⟩ := timesLoop_bus h₂
      simp only [h₂] at h
      obtain ⟨rfl, rfl⟩ := Prod.mk.inj h
      exact ⟨hp₁.trans hp₂, fun _ => h0₂ rfl, fun _ _ => rfl⟩
  · obtain ⟨hp₁, h0₁, -⟩ := msLoop_bus h₁
    simp only [h₁] at h
    obtain ⟨rfl, rfl⟩ := Prod.mk.inj h
    exact ⟨hp₁, fun _ => h0₁ rfl, fun _ _ => rfl⟩

theorem norSendCmd_bus (h : norSendCmd busPort cmd b = (ret, b')) :
    b.Kept b' ∧
      (∃ c, (c = b.chip ∨ c = (b.chip.exec [cmd] 0).2) ∧ b'.chip.mem = c.mem ∧
        b'.chip.wel = c.wel ∧ b'.chip.busy ≤ c.busy ∧ (ret = 0 → c = (b.chip.exec [cmd] 0).2)) ∧
      (ret = 0 → b'.chip.busy = 0) ∧ (b.Reliable → ret = 0) := by
  unfold norSendCmd at h
  rcases ht : norSend busPort 1 [cmd] b with ⟨ret', b₁⟩
  obtain ⟨hk, ⟨h0, hs⟩ | ⟨h0, hn, cut, hs⟩⟩ := norSend_bus ht
  · simp only [ht, h0, ne_eq, not_true_eq_false, if_false] at h
    obtain ⟨hp, hz, hr⟩ := norWaitReady_bus h
    refine ⟨hk.trans hp.toKept, ⟨_, .inr rfl, ?_, ?_, ?_, fun _ => rfl⟩, hz,
      fun hrel => hr (hk.reliable hrel) (polls_zero 500)⟩
    · rw [hp.mem, hs]
    · rw [hp.wel, hs]
    · exact hs ▸ hp.busy_le
  · simp only [ht, ne_eq, h0, not_false_eq_true, if_true, Prod.mk.injEq] at h
    obtain ⟨rfl, rfl⟩ := h
    refine ⟨hk, ⟨b₁.chip, ?_, rfl, rfl, Nat.le_refl _, fun h => (h0 h).elim⟩, fun h => (h0 h).elim,
      fun hrel => (hn hrel).elim⟩
    rcases take_single cmd cut with he | he
    · exact .inl (by rw [hs, he]; rfl)
    · exact .inr (by rw [hs, he])

theorem exec_wren (c : NorChip) :
    (c.exec [norCmdWren] 0).2.mem = c.mem ∧ (c.exec [norCmdWren] 0).2.busy = c.busy ∧
      (c.busy = 0 → (c.exec [norCmdWren] 0).2.wel = true) := by
  have hop : chipOp norCmdWren ≠ .status := by decide
  by_cases hc : c.busy = 0
  · rw [c.exec_idle hop hc]
    exact ⟨rfl, rfl, fun _ => rfl⟩
  · rw [c.exec_busy hop hc]
    exact ⟨rfl, rfl, fun h => (hc h).elim⟩

theorem exec_other (c : NorChip) (h : chipOp cmd = .other) : (c.exec [cmd] 0).2 = c := by
  have hop : chipOp cmd ≠ .status := by
    rw [h]
    decide
  by_cases hc : c.busy = 0
  · rw [c.exec_idle hop hc, h]
    rfl
  · exact c.exec_busy hop hc

/-- A successful write enable leaves a chip that is ready and accepts a write. -/
theorem norWriteEnable_bus (h : norWriteEnable busPort b = (ret, b')) :
    b.Kept b' ∧ b'.chip.mem = b.chip.mem ∧ (b.chip.busy = 0 → b'.chip.busy = 0) ∧
      (ret = 0 → b'.chip.busy = 0 ∧ b'.chip.wel = true) ∧
      (b.Reliable → b.chip.busy = 0 → ret = 0) := by
  unfold norWriteEnable at h
  rcases h₁ : norSendCmd busPort norCmdWren b with ⟨ret₁, b₁⟩
  obtain ⟨hk, ⟨c, hc, hm, hw, hle, hc'⟩, hz, hr⟩ := norSendCmd_bus h₁
  obtain ⟨hm', hb', hw'⟩ := exec_wren b.chip
  have hmem : b₁.chip.mem = b.chip.mem := by
    rcases hc with rfl | rfl
    · exact hm
    · exact hm.trans hm'
  have hbusy : b.chip.busy = 0 → b₁.chip.busy = 0 := by
    intro hb
    apply Nat.le_zero.1
    rcases hc with rfl | rfl
    · exact hb ▸ hle
    · exact (hb'.trans hb) ▸ hle
  simp only [h₁] at h
  by_cases h0 : ret₁ = 0
  · rw [if_neg (not_not.2 h0)] at h
    rcases h₂ : norReadStatus busPort b₁ with ⟨⟨ret₂, sr⟩, b₂⟩
    obtain ⟨hp, hs, hr₂⟩ := norReadStatus_bus h₂
    have hready : b.chip.busy = 0 → b₂.chip.busy = 0 :=
      fun hb => Nat.le_zero.1 (hbusy hb ▸ hp.busy_le)
    simp only [h₂] at h
    by_cases h0₂ : ret₂ = 0
    · obtain ⟨hsr, hb⟩ := hs h0₂
      have hbz := hz h0
      simp only [h0₂, hsr, NorChip.status_wel, ne_eq, not_true_eq_false, if_false] at h
      cases hwel : b₁.chip.wel with
      | false =>
        rw [if_pos hwel] at h
        obtain ⟨rfl, rfl⟩ := Prod.mk.inj h
        refine ⟨hk.trans hp.toKept, hp.mem.trans hmem, hready, fun h => absurd h (by decide),
          fun _ hb => ?_⟩
        rw [hw, hc' h0, hw' hb] at hwel
        exact (Bool.false_ne_true hwel.symm).elim
      | true =>
        rw [if_neg (by rw [hwel]; decide)] at h
        obtain ⟨rfl, rfl⟩ := Prod.mk.inj h
        exact ⟨hk.trans hp.toKept, hp.mem.trans hmem, hready,
          fun _ => ⟨by omega, hp.wel.trans hwel⟩, fun _ _ => rfl⟩
    · rw [if_pos h0₂] at h
      obtain ⟨rfl, rfl⟩ := Prod.mk.inj h
      exact ⟨hk.trans hp.toKept, hp.mem.trans hmem, hready, fun h => (h0₂ h).elim,
        fun hrel _ => (h0₂ (hr₂ (hk.reliable hrel))).elim⟩
  · rw [if_pos h0] at h
    obtain ⟨rfl, rfl⟩ := Prod.mk.inj h
    exact ⟨hk, hmem, hbusy, fun h => (h0 h).elim, fun hrel _ => (h0 (hr hrel)).elim⟩

end D1Flash
