import D1Flash.Spinor.Core

namespace D1Flash
set_option autoImplicit true

/-- What the transfers of some opcodes and the delays leave between a state and the next. The
opcodes include those of a poll and of a write enable. -/
structure SpiPort.Keeps (p : SpiPort δ) (Q : Byte → Prop) (R : δ → δ → Prop) : Prop where
  refl : ∀ s, R s s
  trans : ∀ {s t u}, R s t → R t u → R s u
  xfer : ∀ t s, Q ((t.txBuf.getD []).headD 0) → R s (p.halSpiXfer t s).2
  delay : ∀ ms s, R s (p.mdelay ms s)
  readSr : Q norCmdReadSr
  wren : Q norCmdWren

namespace SpiPort.Keeps

variable {p : SpiPort δ} {Q : Byte → Prop} {R : δ → δ → Prop}

/-- A call in a goal, replaced by what it gives. -/
@[elab_as_elim] theorem reached {motive : α × δ → Prop} (x : α × δ) (hx : R s x.2)
    (h : ∀ a t, R s t → motive (a, t)) : motive x :=
  h x.1 x.2 hx

/-- A call whose error ends its caller. -/
theorem step (hp : p.Keeps Q R) {c : Prop} [Decidable c] {a : α} {r : α × δ} (hx : R s t)
    (hr : R t r.2) : R s (if c then (a, t) else r).2 := by
  split
  · exact hx
  · exact hp.trans hx hr

/-- A test that decides between two results. -/
theorem check (hp : p.Keeps Q R) {c : Prop} [Decidable c] {a b : α} (s : δ) :
    R s (if c then (a, s) else (b, s)).2 :=
  hp.step (hp.refl s) (hp.refl s)

theorem transfer (hp : p.Keeps Q R) (hq : Q (tbuf.headD 0)) (s : δ) :
    R s (norTransfer p n tbuf rbuf rlen s).2 :=
  hp.xfer _ _ (by exact hq)

theorem send (hp : p.Keeps Q R) (hq : Q (tbuf.headD 0)) (s : δ) : R s (norSend p n tbuf s).2 := by
  unfold norSend
  exact hp.transfer hq s

theorem readStatus (hp : p.Keeps Q R) (s : δ) : R s (norReadStatus p s).2 := by
  have hs : R s (norTransfer p 1 [norCmdReadSr] true 2 s).2 := hp.transfer (by exact hp.readSr) s
  unfold norReadStatus
  exact hp.step hs (hp.refl _)

theorem isBusy (hp : p.Keeps Q R) (s : δ) : R s (norIsBusy p s).2 := by
  unfold norIsBusy
  exact hp.step (hp.readStatus s) (hp.check _)

theorem sleep (hp : p.Keeps Q R) (n : Nat) (s : δ) : R s (msLoop p n s).2 := by
  induction n generalizing s with
  | zero => exact hp.refl s
  | succ n ih =>
    rw [msLoop]
    have hk := hp.isBusy s
    rcases h : norIsBusy p s with ⟨busy, t⟩
    rw [h] at hk
    dsimp only
    split
    · exact hk
    · apply hp.trans hk
      split
      · exact hp.trans (hp.delay 1 t) (ih _)
      · exact ih t

theorem poll (hp : p.Keeps Q R) (n : Nat) (s : δ) : R s (timesLoop p n s).2 := by
  induction n generalizing s with
  | zero => exact hp.refl s
  | succ n ih =>
    rw [timesLoop]
    have hk := hp.isBusy s
    rcases h : norIsBusy p s with ⟨busy, t⟩
    rw [h] at hk
    dsimp only
    split
    · exact hk
    · exact hp.trans hk (ih t)

theorem waitReady (hp : p.Keeps Q R) (ms times : Nat) (s : δ) :
    R s (norWaitReady p ms times s).2 := by
  rw [norWaitReady]
  have hk₁ := hp.sleep (preDecIters ms) s
  rcases h₁ : msLoop p (preDecIters ms) s with ⟨_ | _, s₁⟩
  · rw [h₁] at hk₁
    have hk₂ := hp.trans hk₁ (hp.poll (preDecIters times) s₁)
    dsimp only
    rcases h₂ : timesLoop p (preDecIters times) s₁ with ⟨_ | _, s₂⟩
    · rw [h₂] at hk₂
      have hk₃ := hp.trans hk₂ (hp.isBusy s₂)
      dsimp only
      rcases h₃ : norIsBusy p s₂ with ⟨busy, s₃⟩
      rw [h₃] at hk₃
      dsimp only
      split
      · exact hk₃
      · exact hk₃
    · rw [h₂] at hk₂
      exact hk₂
  · rw [h₁] at hk₁
    exact hk₁

theorem sendCmd (hp : p.Keeps Q R) (hq : Q cmd) (s : δ) : R s (norSendCmd p cmd s).2 := by
  have hs : R s (norSend p 1 [cmd] s).2 := hp.send (by exact hq) s
  unfold norSendCmd
  exact hp.step hs (hp.waitReady 0 500 _)

theorem writeEnable (hp : p.Keeps Q R) (s : δ) : R s (norWriteEnable p s).2 := by
  unfold norWriteEnable
  apply hp.step (hp.sendCmd hp.wren s)
  exact hp.step (hp.readStatus _) (hp.check _)

theorem writeSr (hp : p.Keeps Q R) (hq : Q cmd) (sr : List Byte) (s : δ) :
    R s (D1Flash.writeSr p cmd sr s).2 := by
  unfold D1Flash.writeSr
  apply hp.step (hp.writeEnable s)
  apply hp.step (hp.refl _)
  have hs : ∀ t, R t (norSend p (sr.length + 1) (cmd :: sr) t).2 := hp.send (by exact hq)
  exact hp.step (hs _) (hp.waitReady 10 maxWaitLoop _)

theorem protect (hp : p.Keeps Q R) (hq : Q cmd) (s : δ) :
    R s (match norWriteEnable p s with
      | (ret, s) => if ret ≠ 0 then (ret, s) else norSendCmd p cmd s).2 :=
  hp.step (hp.writeEnable s) (hp.sendCmd hq _)

end SpiPort.Keeps

end D1Flash
