import D1Flash.Lib.Runs
import D1Flash.Spinor.FlashOps

namespace D1Flash
open Runs (run Along)
set_option autoImplicit true

/-- The protected blocks of the chip, as far as the driver's steps move them: an unlock-all that
the chip takes opens every block, the commands of the core leave them, and what the factory's hooks
and a lock-all do is left open. -/
structure Protection (p : Platform δ) (blocked : δ → Nat → Bool) : Prop where
  xfer : ∀ tr s cmd rest, tr.txBuf = some (cmd :: rest) → chipOp cmd ≠ .other →
    blocked (p.halSpiXfer tr s).2 = blocked s
  unlockAll : ∀ tr s, tr.txBuf = some [norCmdBlkUnlockAll] → (p.halSpiXfer tr s).1.1 = 0 →
    ∀ blk, blocked (p.halSpiXfer tr s).2 blk = false
  mdelay : ∀ n s, blocked (p.mdelay n s) = blocked s
  halSemCreate : ∀ s, blocked (p.halSemCreate s).2 = blocked s
  malloc : ∀ n s, blocked (p.malloc n s).2 = blocked s

variable {p : Platform δ} {blocked : δ → Nat → Bool}

namespace Protection

theorem norTransfer (hp : Protection p blocked) (hcmd : chipOp cmd ≠ .other) :
    blocked (norTransfer p.toSpiPort k (cmd :: rest) rb n s).2 = blocked s :=
  hp.xfer _ _ _ _ rfl hcmd

theorem norSend (hp : Protection p blocked) (hcmd : chipOp cmd ≠ .other) :
    blocked (norSend p.toSpiPort k (cmd :: rest) s).2 = blocked s :=
  hp.norTransfer hcmd

theorem norReadStatus (hp : Protection p blocked) (s : δ) :
    blocked (norReadStatus p.toSpiPort s).2 = blocked s := by
  rw [D1Flash.norReadStatus]
  dsimp only
  split <;> exact hp.norTransfer (by decide)

theorem norIsBusy (hp : Protection p blocked) (s : δ) :
    blocked (norIsBusy p.toSpiPort s).2 = blocked s := by
  have h := hp.norReadStatus s
  rw [D1Flash.norIsBusy]
  dsimp only
  split
  · exact h
  · split <;> exact h

theorem msLoop (hp : Protection p blocked) (n : Nat) (s : δ) :
    blocked (msLoop p.toSpiPort n s).2 = blocked s := by
  induction n generalizing s with
  | zero => rfl
  | succ n ih =>
    have h := hp.norIsBusy s
    rw [D1Flash.msLoop]
    dsimp only
    split
    · exact h
    · rw [ih]
      split
      · rw [hp.mdelay, h]
      · exact h

theorem timesLoop (hp : Protection p blocked) (n : Nat) (s : δ) :
    blocked (timesLoop p.toSpiPort n s).2 = blocked s := by
  induction n generalizing s with
  | zero => rfl
  | succ n ih =>
    have h := hp.norIsBusy s
    rw [D1Flash.timesLoop]
    dsimp only
    split
    · exact h
    · rw [ih, h]

theorem norWaitReady (hp : Protection p blocked) (ms times : Nat) (s : δ) :
    blocked (norWaitReady p.toSpiPort ms times s).2 = blocked s := by
  rw [D1Flash.norWaitReady]
  rcases h₁ : D1Flash.msLoop p.toSpiPort (preDecIters ms) s with ⟨_ | _, s₁⟩
  · have hs₁ : blocked s₁ = blocked s := by rw [← hp.msLoop (preDecIters ms) s, h₁]
    dsimp only
    rcases h₂ : D1Flash.timesLoop p.toSpiPort (preDecIters times) s₁ with ⟨_ | _, s₂⟩
    · have hs₂ : blocked s₂ = blocked s₁ := by rw [← hp.timesLoop (preDecIters times) s₁, h₂]
      have h := hp.norIsBusy s₂
      dsimp only
      split <;> rw [h, hs₂, hs₁]
    · rw [← hs₁, ← hp.timesLoop (preDecIters times) s₁, h₂]
  · rw [← hp.msLoop (preDecIters ms) s, h₁]

theorem norSendCmd (hp : Protection p blocked) (hcmd : chipOp cmd ≠ .other) (s : δ) :
    blocked (norSendCmd p.toSpiPort cmd s).2 = blocked s := by
  have h : blocked (D1Flash.norSend p.toSpiPort 1 [cmd] s).2 = blocked s := hp.norSend hcmd
  rw [D1Flash.norSendCmd]
  dsimp only
  split
  · exact h
  · rw [hp.norWaitReady, h]

theorem norWriteEnable (hp : Protection p blocked) (s : δ) :
    blocked (norWriteEnable p.toSpiPort s).2 = blocked s := by
  have h : blocked (D1Flash.norSendCmd p.toSpiPort norCmdWren s).2 = blocked s :=
    hp.norSendCmd (by decide) s
  rw [D1Flash.norWriteEnable]
  dsimp only
  split
  · exact h
  · have h' := hp.norReadStatus (D1Flash.norSendCmd p.toSpiPort norCmdWren s).2
    rw [h] at h'
    split
    · exact h'
    · split <;> exact h'

theorem norWriteDo (hp : Protection p blocked) {nor : Nor δ}
    (hcmd : chipOp nor.cmdWrite ≠ .other) (addr : Nat) (buf : List Byte) (s : δ) :
    blocked (norWriteDo p.toSpiPort nor addr buf s).2 = blocked s := by
  have h := hp.norWriteEnable s
  rw [D1Flash.norWriteDo]
  split
  · rfl
  · dsimp only
    split
    · exact h
    · have h' : ∀ s', blocked (D1Flash.norSend p.toSpiPort nor.wCmdSlen
          (cmdAddr nor.toNorFlash nor.cmdWrite addr ++ buf) s').2 = blocked s' := by
        intro s'
        rw [cmdAddr]
        split <;> exact hp.norSend hcmd
      split
      · rw [h', h]
      · rw [hp.norWaitReady, h', h]

theorem norWrUnlockAll (hp : Protection p blocked)
    (h : norWrUnlockAll p.toSpiPort s = (0, s')) (blk : Nat) : blocked s' blk = false := by
  rw [D1Flash.norWrUnlockAll] at h
  rcases h₁ : D1Flash.norWriteEnable p.toSpiPort s with ⟨ret₁, s₁⟩
  rw [h₁] at h
  dsimp only at h
  by_cases h1 : ret₁ = 0
  swap
  · rw [if_pos h1] at h
    exact (h1 (Prod.mk.inj h).1).elim
  rw [if_neg (not_not.2 h1), D1Flash.norSendCmd] at h
  rcases h₂ : D1Flash.norSend p.toSpiPort 1 [norCmdBlkUnlockAll] s₁ with ⟨ret₂, s₂⟩
  rw [h₂] at h
  dsimp only at h
  by_cases h2 : ret₂ = 0
  swap
  · rw [if_pos h2] at h
    exact (h2 (Prod.mk.inj h).1).elim
  rw [if_neg (not_not.2 h2)] at h
  have hopen : ∀ blk, blocked s₂ blk = false := by
    rw [D1Flash.norSend, D1Flash.norTransfer] at h₂
    obtain ⟨hr, rfl⟩ := Prod.mk.inj h₂
    exact hp.unlockAll _ _ rfl (hr.trans h2)
  have hwait := hp.norWaitReady 0 500 s₂
  rw [h] at hwait
  exact (congrFun hwait blk).trans (hopen blk)

end Protection

variable {cfg : Config} {nor : Nor δ}

/-- A chip that keeps its protected blocks and takes or fails each transfer as told. -/
structure LockChip where
  blocked : Nat → Bool
  fails : List Bool

/-- The transfer that comes next. -/
def LockChip.take (c : LockChip) (tr : HalSpiMasterTransfer) : (Int × List Byte) × LockChip :=
  let rest := c.fails.tail
  if c.fails.headD false then ((-1, []), { c with fails := rest })
  else if tr.txBuf = some [norCmdRdid] then ((0, w25q64jv.id), { c with fails := rest })
  else if tr.txBuf = some [norCmdBlkLockAll] then
    ((0, []), { c with blocked := fun _ => true, fails := rest })
  else if tr.txBuf = some [norCmdBlkUnlockAll] then
    ((0, []), { c with blocked := fun _ => false, fails := rest })
  else ((0, List.replicate tr.rxLen norSrBitWel), { c with fails := rest })

end D1Flash
