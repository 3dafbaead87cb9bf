import D1Flash.Spinor.PortFrame
import D1Flash.Spinor.Factories

namespace D1Flash
set_option autoImplicit true

/-- The opcodes of the driver, but for the reset and those of the address mode. -/
def norCmds : List Byte :=
  [norCmdReadSr, norCmdWren, norCmdWriteSr, norCmdRdid, norCmdFastRead, norCmdFastRead4B,
    norCmdDualRead, norCmdDualRead4B, norCmdDualIoRead, norCmdDualIoRead4B, norCmdQuadRead,
    norCmdQuadRead4B, norCmdQuadIoRead, norCmdQuadIoRead4B, norCmdProg, norCmdProg4B,
    norCmdQuadProg, norCmdQuadProg4B, norCmdQuadIoProg, norCmdQuadIoProg4B, norCmdEraseBlk4K,
    norCmdEraseBlk4K4B, norCmdEraseBlk32K, norCmdEraseBlk32K4B, norCmdEraseBlk64K,
    norCmdEraseBlk64K4B, norCmdEraseChip, norCmdBlkLockAll, norCmdBlkUnlockAll, norCmdReadSr1,
    norCmdWriteSr2, norCmdBlkLockStatus, norCmdBlkLock, norCmdBlkUnlock, norWinbondCmdReadSr3,
    norWinbondCmdWriteSr3, norMxicCmdRdscur, norMxicCmdWpsel, norMxicCmdEsspb, norMxicCmdRddpb,
    norMxicCmdWrdpb]

/-- What the hooks of a factory leave between a state and the next. -/
structure NorFactory.Keeps (f : NorFactory δ) (R : δ → δ → Prop) : Prop where
  init : ∀ hook, f.init = some hook → ∀ nor s, R s (hook nor s).2
  initLock : ∀ hook, f.initLock = some hook → ∀ nor s, R s (hook nor s).2
  lock : ∀ hook, f.lock = some hook → ∀ nor addr len s, R s (hook nor addr len s).2
  unlock : ∀ hook, f.unlock = some hook → ∀ nor addr len s, R s (hook nor addr len s).2
  islock : ∀ hook, f.islock = some hook → ∀ nor addr len s, R s (hook nor addr len s).2
  setQuadMode : ∀ hook, f.setQuadMode = some hook → ∀ nor s, R s (hook nor s).2

namespace SpiPort.Keeps

variable {p : SpiPort δ} {Q : Byte → Prop} {R : δ → δ → Prop}

variable (hp : p.Keeps Q R) (hq : ∀ cmd ∈ norCmds, Q cmd)

include hp hq

theorem readSr1 (hc : cmd ∈ norCmds) (s : δ) : R s (D1Flash.readSr1 p cmd s).2 := by
  have hs : R s (norTransfer p 1 [cmd] true 2 s).2 := hp.transfer (by exact hq cmd hc) s
  unfold D1Flash.readSr1
  exact hp.step hs (hp.refl _)

theorem readByte (hc : tbuf.headD 0 ∈ norCmds) (s : δ) : R s (D1Flash.readByte p tbuf s).2 := by
  unfold D1Flash.readByte
  exact hp.step (hp.transfer (hq _ hc) s) (hp.refl _)

theorem sr01QuadMode (s : δ) : R s (D1Flash.sr01QuadMode p s).2 := by
  unfold D1Flash.sr01QuadMode
  refine reached (D1Flash.readSr1 p norCmdReadSr1 s) (hp.readSr1 hq (by decide) s)
    fun ⟨_, sr1⟩ s₁ h₁ => hp.step h₁ ?_
  apply hp.step (hp.refl s₁)
  refine reached (norReadStatus p s₁) (hp.readStatus s₁) fun ⟨_, sr0⟩ s₂ h₂ => hp.step h₂ ?_
  refine reached (norWriteStatus p [sr0, _] s₂) (hp.writeSr (hq _ (by decide)) _ s₂) fun _ s₃ h₃ =>
    hp.step h₃ ?_
  exact reached (D1Flash.readSr1 p norCmdReadSr1 s₃) (hp.readSr1 hq (by decide) s₃) fun _ s₄ h₄ =>
    hp.step h₄ (hp.check s₄)

theorem sr01SetWps (bit : Byte) (wps : Bool) (s : δ) :
    R s (D1Flash.sr01SetWps p bit wps s).2 := by
  unfold D1Flash.sr01SetWps
  refine reached (D1Flash.readSr1 p norCmdReadSr1 s) (hp.readSr1 hq (by decide) s)
    fun ⟨_, sr1⟩ s₁ h₁ => hp.step h₁ ?_
  apply hp.step (hp.refl s₁)
  refine reached (norReadStatus p s₁) (hp.readStatus s₁) fun ⟨_, sr0⟩ s₂ h₂ => hp.step h₂ ?_
  refine reached (norWriteStatus p [sr0, _] s₂) (hp.writeSr (hq _ (by decide)) _ s₂) fun _ s₃ h₃ =>
    hp.step h₃ ?_
  exact reached (D1Flash.readSr1 p norCmdReadSr1 s₃) (hp.readSr1 hq (by decide) s₃) fun _ s₄ h₄ =>
    hp.step h₄ (hp.check s₄)

theorem sr2QuadMode (s : δ) : R s (D1Flash.sr2QuadMode p s).2 := by
  have hsend : ∀ sr s, R s (norSend p 2 [norCmdWriteSr2, sr] s).2 := fun _ =>
    hp.send (hq norCmdWriteSr2 (by decide))
  unfold D1Flash.sr2QuadMode
  refine reached (D1Flash.readSr1 p norCmdReadSr1 s) (hp.readSr1 hq (by decide) s)
    fun ⟨_, sr2⟩ s₁ h₁ => hp.step h₁ ?_
  apply hp.step (hp.refl s₁)
  refine reached (norWriteEnable p s₁) (hp.writeEnable s₁) fun _ s₂ h₂ => hp.step h₂ ?_
  refine reached (norSend p 2 [norCmdWriteSr2, sr2 ||| norQeBit] s₂) (hsend _ s₂) fun _ s₃ h₃ =>
    hp.step h₃ ?_
  refine reached (norWaitReady p 0 500 s₃) (hp.waitReady 0 500 s₃) fun _ s₄ h₄ => hp.step h₄ ?_
  exact reached (D1Flash.readSr1 p norCmdReadSr1 s₄) (hp.readSr1 hq (by decide) s₄) fun _ s₅ h₅ =>
    hp.step h₅ (hp.check s₅)

theorem blkIslock (hc : tbuf.headD 0 ∈ norCmds) (locked : Byte → Bool) (s : δ) :
    R s (D1Flash.blkIslock p tbuf locked s).2 := by
  unfold D1Flash.blkIslock
  exact hp.step (hp.readByte hq hc s) (hp.refl _)

theorem blkSetLock (hc : tbuf.headD 0 ∈ norCmds) (s : δ) :
    R s (D1Flash.blkSetLock p tbuf s).2 := by
  unfold D1Flash.blkSetLock
  exact hp.step (hp.writeEnable s) (hp.send (hq _ hc) _)

theorem blkUnlock (hc : tbuf.headD 0 ∈ norCmds) {islock : δ → Bool × δ}
    (hi : ∀ s, R s (islock s).2) (s : δ) : R s (D1Flash.blkUnlock p tbuf islock s).2 := by
  unfold D1Flash.blkUnlock
  exact hp.step (hp.blkSetLock hq hc s) (hi _)

theorem blkLock (hc : tbuf.headD 0 ∈ norCmds) {islock : δ → Bool × δ}
    (hi : ∀ s, R s (islock s).2) (s : δ) : R s (D1Flash.blkLock p tbuf islock s).2 := by
  unfold D1Flash.blkLock
  exact hp.step (hp.blkSetLock hq hc s) (hi _)

theorem winbondSetSr3 (bit : Byte) (val : Bool) (s : δ) :
    R s (D1Flash.winbondSetSr3 p bit val s).2 := by
  have hread : R s (norTransfer p 1 [norWinbondCmdReadSr3] true 2 s).2 :=
    hp.transfer (by exact hq norWinbondCmdReadSr3 (by decide)) s
  have hsend : ∀ sr s, R s (norSend p 2 [norWinbondCmdWriteSr3, sr] s).2 := fun _ =>
    hp.send (by exact hq norWinbondCmdWriteSr3 (by decide))
  unfold D1Flash.winbondSetSr3
  refine reached (norTransfer p 1 [norWinbondCmdReadSr3] true 2 s) hread
    fun ⟨_, reg⟩ s₁ h₁ => hp.step h₁ ?_
  apply hp.step (hp.refl s₁)
  refine reached (norWriteEnable p s₁) (hp.writeEnable s₁) fun _ s₂ h₂ => hp.step h₂ ?_
  exact hp.step (hsend _ s₂) (hp.waitReady _ _ _)

theorem norMxicQuadMode (cfg : Config) (nor : NorFlash) (s : δ) :
    R s (D1Flash.norMxicQuadMode cfg p nor s).2 := by
  unfold D1Flash.norMxicQuadMode
  refine reached (norReadStatus p s) (hp.readStatus s) fun ⟨_, sr⟩ s₁ h₁ => hp.step h₁ ?_
  apply hp.step (hp.refl s₁)
  extract_lets new new'
  refine reached (norWriteStatus p [new'] s₁) (hp.writeSr (hq _ (by decide)) [new'] s₁)
    fun _ s₂ h₂ => hp.step h₂ ?_
  exact hp.step (hp.readStatus s₂) (hp.check _)

theorem norMxicSetWps (s : δ) : R s (D1Flash.norMxicSetWps p s).2 := by
  have hread : ∀ s, R s (D1Flash.readByte p [norMxicCmdRdscur] s).2 :=
    hp.readByte hq (by decide : norMxicCmdRdscur ∈ norCmds)
  unfold D1Flash.norMxicSetWps
  refine reached (D1Flash.readByte p [norMxicCmdRdscur] s) (hread s)
    fun ⟨_, sr⟩ s₁ h₁ => hp.step h₁ ?_
  apply hp.step (hp.refl s₁)
  refine reached (norWriteEnable p s₁) (hp.writeEnable s₁) fun _ s₂ h₂ => hp.step h₂ ?_
  refine reached (norSendCmd p norMxicCmdWpsel s₂) (hp.sendCmd (hq _ (by decide)) s₂)
    fun _ s₃ h₃ => hp.step h₃ ?_
  refine reached (norWaitReady p 10 (100 * 1000) s₃) (hp.waitReady _ _ s₃)
    fun _ s₄ h₄ => hp.step h₄ ?_
  exact hp.step (hread s₄) (hp.refl _)

theorem norMxicResetSpb (s : δ) : R s (D1Flash.norMxicResetSpb p s).2 := by
  unfold D1Flash.norMxicResetSpb
  refine reached (norWriteEnable p s) (hp.writeEnable s) fun _ s₁ h₁ => hp.step h₁ ?_
  exact hp.step (hp.sendCmd (hq _ (by decide)) s₁) (hp.waitReady _ _ _)

theorem norMxicInitLock (s : δ) : R s (D1Flash.norMxicInitLock p s).2 := by
  unfold D1Flash.norMxicInitLock
  exact reached (D1Flash.norMxicSetWps p s) (hp.norMxicSetWps hq s)
    fun _ s₁ h₁ => hp.step h₁ (hp.norMxicResetSpb hq s₁)

theorem norXmcQuadMode (s : δ) : R s (D1Flash.norXmcQuadMode p s).2 := by
  unfold D1Flash.norXmcQuadMode
  refine reached (norXmcReadStatus2 p s) (hp.readSr1 hq (by decide) s)
    fun ⟨_, sr⟩ s₁ h₁ => hp.step h₁ ?_
  refine reached (norXmcWriteStatus2 p [sr ||| norQeBit] s₁)
    (hp.writeSr (hq _ (by decide)) _ s₁) fun _ s₂ h₂ => hp.step h₂ ?_
  exact hp.step (hp.readSr1 hq (by decide) s₂) (hp.check _)

theorem addr3Islock (locked : Byte → Bool) (addr : Nat) (s : δ) :
    R s (D1Flash.blkIslock p (addr3 norCmdBlkLockStatus addr) locked s).2 :=
  hp.blkIslock hq (by exact (by decide : norCmdBlkLockStatus ∈ norCmds)) locked s

theorem addr3Lock (locked : Byte → Bool) (addr : Nat) (s : δ) :
    R s (D1Flash.blkLock p (addr3 norCmdBlkLock addr)
      (D1Flash.blkIslock p (addr3 norCmdBlkLockStatus addr) locked) s).2 :=
  hp.blkLock hq (by exact (by decide : norCmdBlkLock ∈ norCmds)) (hp.addr3Islock hq locked addr) s

theorem addr3Unlock (locked : Byte → Bool) (addr : Nat) (s : δ) :
    R s (D1Flash.blkUnlock p (addr3 norCmdBlkUnlock addr)
      (D1Flash.blkIslock p (addr3 norCmdBlkLockStatus addr) locked) s).2 :=
  hp.blkUnlock hq (by exact (by decide : norCmdBlkUnlock ∈ norCmds))
    (hp.addr3Islock hq locked addr) s

theorem norMxicBlkIslock (addr : Nat) (s : δ) : R s (D1Flash.norMxicBlkIslock p addr s).2 :=
  hp.blkIslock hq (by exact (by decide : norMxicCmdRddpb ∈ norCmds)) _ s

theorem norMxicBlkUnlock (addr : Nat) (s : δ) : R s (D1Flash.norMxicBlkUnlock p addr s).2 :=
  hp.blkUnlock hq (by exact (by decide : norMxicCmdWrdpb ∈ norCmds))
    (hp.norMxicBlkIslock hq addr) s

theorem norMxicBlkLock (addr : Nat) (s : δ) : R s (D1Flash.norMxicBlkLock p addr s).2 := by
  have hset : R s (D1Flash.blkSetLock p (addr4 norMxicCmdWrdpb addr ++ [norMxicDpbLock]) s).2 :=
    hp.blkSetLock hq (by exact (by decide : norMxicCmdWrdpb ∈ norCmds)) s
  unfold D1Flash.norMxicBlkLock
  refine reached (D1Flash.blkSetLock p (addr4 norMxicCmdWrdpb addr ++ [norMxicDpbLock]) s) hset
    fun _ s₁ h₁ => hp.step h₁ ?_
  exact hp.norMxicBlkIslock hq addr s₁

omit hp hq in
theorem unlockedFactory {quad : Option (NorFlash → δ → Int × δ)}
    (h : ∀ hook, quad = some hook → ∀ nor s, R s (hook nor s).2) :
    (D1Flash.unlockedFactory factory entries behind quad).Keeps R where
  init _ h := nomatch h
  initLock _ h := nomatch h
  lock _ h := nomatch h
  unlock _ h := nomatch h
  islock _ h := nomatch h
  setQuadMode := h

theorem norFactory (cfg : Config) (behind : FactoryName → Nat → NorInfo) (name : FactoryName) :
    (D1Flash.norFactory cfg p behind name).Keeps R := by
  cases name with
  | gd | puya | zetta =>
    apply unlockedFactory
    rintro hook ⟨⟩ nor s
    exact hp.sr2QuadMode hq s
  | esmt =>
    apply unlockedFactory
    rintro hook ⟨⟩
  | winbond =>
    constructor
    · rintro hook ⟨⟩ nor s
      exact hp.winbondSetSr3 hq _ _ s
    · rintro hook ⟨⟩ nor s
      exact hp.winbondSetSr3 hq _ _ s
    · rintro hook ⟨⟩ nor addr len s
      exact hp.addr3Lock hq _ addr s
    · rintro hook ⟨⟩ nor addr len s
      exact hp.addr3Unlock hq _ addr s
    · rintro hook ⟨⟩ nor addr len s
      exact hp.addr3Islock hq _ addr s
    · rintro hook ⟨⟩
  | xtx | fm =>
    constructor
    · rintro hook ⟨⟩
    · rintro hook ⟨⟩ nor s
      exact hp.sr01SetWps hq _ _ s
    · rintro hook ⟨⟩ nor addr len s
      exact hp.addr3Lock hq _ addr s
    · rintro hook ⟨⟩ nor addr len s
      exact hp.addr3Unlock hq _ addr s
    · rintro hook ⟨⟩ nor addr len s
      exact hp.addr3Islock hq _ addr s
    · rintro hook ⟨⟩ nor s
      exact hp.sr01QuadMode hq s
  | mxic =>
    constructor
    · rintro hook ⟨⟩
    · rintro hook ⟨⟩ nor s
      exact hp.norMxicInitLock hq s
    · rintro hook ⟨⟩ nor addr len s
      exact hp.norMxicBlkLock hq addr s
    · rintro hook ⟨⟩ nor addr len s
      exact hp.norMxicBlkUnlock hq addr s
    · rintro hook ⟨⟩ nor addr len s
      exact hp.norMxicBlkIslock hq addr s
    · rintro hook ⟨⟩ nor s
      exact hp.norMxicQuadMode hq cfg nor s
  | xmc =>
    constructor
    · rintro hook ⟨⟩ nor s
      exact hp.refl s
    · rintro hook ⟨⟩ nor s
      exact hp.refl s
    · rintro hook ⟨⟩ nor addr len s
      exact hp.refl s
    · rintro hook ⟨⟩ nor addr len s
      exact hp.refl s
    · rintro hook ⟨⟩ nor addr len s
      exact hp.refl s
    · rintro hook ⟨⟩ nor s
      exact hp.norXmcQuadMode hq s

omit hq in
theorem lockLoop {hook : Nat → Nat → δ → Int × δ} (hh : ∀ addr len s, R s (hook addr len s).2)
    (s : δ) : R s (D1Flash.lockLoop T hook fuel addr len s).2 := by
  induction fuel generalizing addr len s with
  | zero => exact hp.refl s
  | succ fuel ih =>
    rw [D1Flash.lockLoop]
    apply hp.step (hp.refl s)
    extract_lets size len'
    exact reached (hook (alignDown addr size) size s) (hh _ _ s)
      fun _ s₁ h₁ => hp.step h₁ (ih s₁)

variable {nor : Nor δ} (hf : ∀ f, nor.factory = some f → f.Keeps R)

include hf

omit hq in
theorem norWrLockInit (s : δ) : R s (D1Flash.norWrLockInit nor s).2 := by
  unfold D1Flash.norWrLockInit
  split
  · next hook h =>
    obtain ⟨f, hnor, hook⟩ := Option.bind_eq_some_iff.1 h
    exact (hf f hnor).initLock _ hook nor.toNorFlash s
  · exact hp.refl s

omit hq in
theorem norFactoryInit (s : δ) :
    R s (match nor.factory.bind (·.init) with
      | some init => init nor.toNorFlash s
      | none => (0, s)).2 := by
  split
  · next hook h =>
    obtain ⟨f, hnor, hook⟩ := Option.bind_eq_some_iff.1 h
    exact (hf f hnor).init _ hook nor.toNorFlash s
  · exact hp.refl s

omit hq in
theorem norSetQuadMode (s : δ) : R s (D1Flash.norSetQuadMode nor s).2 := by
  unfold D1Flash.norSetQuadMode
  split
  · next hook h =>
    obtain ⟨f, hnor, hook⟩ := Option.bind_eq_some_iff.1 h
    exact (hf f hnor).setQuadMode _ hook nor.toNorFlash s
  · exact hp.refl s

omit hq in
theorem norWrUnlock (addr len : Nat) (s : δ) : R s (D1Flash.norWrUnlock nor addr len s).2 := by
  unfold D1Flash.norWrUnlock
  split
  · next hook h =>
    obtain ⟨f, hnor, hook⟩ := Option.bind_eq_some_iff.1 h
    exact hp.lockLoop ((hf f hnor).unlock _ hook nor.toNorFlash) s
  · exact hp.refl s

omit hf in
theorem norWrLockAll (s : δ) : R s (D1Flash.norWrLockAll p s).2 :=
  hp.protect (hq _ (by decide)) s

omit hf in
theorem norWrUnlockAll (s : δ) : R s (D1Flash.norWrUnlockAll p s).2 :=
  hp.protect (hq _ (by decide)) s

omit hq hf in
/-- A call that only one configuration makes. -/
theorem guarded {c : Prop} [Decidable c] {x : α × δ} {a : α} (hx : R s x.2) :
    R s (if c then x else (a, s)).2 := by
  split
  · exact hx
  · exact hp.refl s

omit hp hq hf in
theorem cmdAddr (nor : NorFlash) (hc : Q cmd) (addr : Nat) (buf : List Byte) :
    Q ((D1Flash.cmdAddr nor cmd addr ++ buf).headD 0) := by
  unfold D1Flash.cmdAddr
  split
  · exact hc
  · exact hc

omit hf in
/-- What a call leaves, with the lock of the whole chip behind it. -/
theorem closed {x : Int × δ} (cfg : Config) (hx : R s x.2) :
    R s (match x with
      | (ret, s) => (ret, if cfg.writeLock then (D1Flash.norWrLockAll p s).2 else s)).2 := by
  obtain ⟨ret, t⟩ := x
  apply hp.trans hx
  dsimp only
  split
  · exact hp.norWrLockAll hq t
  · exact hp.refl t

omit hf in
theorem norEraseDo (hc : cmd ∈ norCmds) (addr : Nat) (s : δ) :
    R s (D1Flash.norEraseDo p nor cmd addr s).2 := by
  have hhead := cmdAddr nor.toNorFlash (hq cmd hc) addr []
  rw [List.append_nil] at hhead
  unfold D1Flash.norEraseDo
  exact hp.step (hp.writeEnable s) (hp.send hhead _)

theorem norEraseBlk (cfg : Config) (hc : cmd ∈ norCmds) (size ms addr : Nat) (s : δ) :
    R s (D1Flash.norEraseBlk cfg p nor cmd size ms addr s).2 := by
  unfold D1Flash.norEraseBlk
  refine reached (if cfg.writeLock = true then D1Flash.norWrUnlock nor addr size s else (0, s))
    (hp.guarded (hp.norWrUnlock hf addr size s)) fun _ s₁ h₁ => hp.step h₁ ?_
  refine reached (D1Flash.norEraseDo p nor cmd addr s₁) (hp.norEraseDo hq hc addr s₁)
    fun ret s₂ h₂ => hp.trans h₂ ?_
  exact hp.closed hq cfg (hp.step (hp.refl s₂) (hp.waitReady _ _ s₂))

omit hp hq hf in
theorem cmd4Bytes_mem (nor : NorFlash) (hc : cmd ∈ norCmds) (hc4 : cmd4B ∈ norCmds) :
    cmd4Bytes nor cmd cmd4B ∈ norCmds := by
  unfold cmd4Bytes
  split
  · exact hc4
  · exact hc

theorem norEraseBy (cfg : Config) (blk : EraseSize) (addr : Nat) (s : δ) :
    R s (D1Flash.norEraseBy cfg p nor blk addr s).2 := by
  cases blk with
  | blk64K =>
    exact hp.norEraseBlk hq hf cfg (cmd4Bytes_mem _ (by decide) (by decide)) _ _ addr s
  | blk32K =>
    exact hp.norEraseBlk hq hf cfg (cmd4Bytes_mem _ (by decide) (by decide)) _ _ addr s
  | blk4K =>
    exact hp.norEraseBlk hq hf cfg (cmd4Bytes_mem _ (by decide) (by decide)) _ _ addr s

theorem norEraseLoop (cfg : Config) (info : NorInfo) (fuel addr size : Nat) (s : δ) :
    R s (D1Flash.norEraseLoop cfg p nor info fuel addr size s).2 := by
  induction fuel generalizing addr size s with
  | zero => exact hp.refl s
  | succ fuel ih =>
    rw [D1Flash.norEraseLoop]
    apply hp.step (hp.refl s)
    split
    · exact hp.refl s
    · next blk _ =>
      exact reached (D1Flash.norEraseBy cfg p nor blk addr s) (hp.norEraseBy hq hf cfg blk addr s)
        fun _ s₁ h₁ => hp.step h₁ (ih _ _ s₁)

omit hf in
theorem norEraseAll (cfg : Config) (s : δ) : R s (D1Flash.norEraseAll cfg p nor s).2 := by
  unfold D1Flash.norEraseAll
  split
  · exact hp.refl s
  extract_lets s₀
  have h₀ : R s s₀ := by
    dsimp only [s₀]
    split
    · exact hp.norWrUnlockAll hq s
    · exact hp.refl s
  apply hp.trans h₀
  refine reached (norWriteEnable p s₀) (hp.writeEnable s₀) fun ret s₁ h₁ => hp.trans h₁ ?_
  have hchip : R s₁ (if ret ≠ 0 then (ret, s₁) else norSendCmd p norCmdEraseChip s₁).2 :=
    hp.step (hp.refl s₁) (hp.sendCmd (hq _ (by decide)) s₁)
  change R s₁ (match if ret ≠ 0 then (ret, s₁) else norSendCmd p norCmdEraseChip s₁ with
    | (ret, s) =>
      (match if ret ≠ 0 then (ret, s) else norWaitReady p (26 * 1000) maxWaitLoop s with
      | (ret, s) => (ret, if cfg.writeLock then (D1Flash.norWrLockAll p s).2 else s) : Int × δ)).2
  refine reached (if ret ≠ 0 then (ret, s₁) else norSendCmd p norCmdEraseChip s₁) hchip
    fun ret s₂ h₂ => hp.trans h₂ ?_
  exact hp.closed hq cfg (hp.step (hp.refl s₂) (hp.waitReady _ _ s₂))

theorem norErase (cfg : Config) (addr size : Nat) (s : δ) :
    R s (D1Flash.norErase cfg p nor addr size s).2 := by
  unfold D1Flash.norErase
  split
  · exact hp.refl s
  apply hp.step (hp.refl s)
  apply hp.step (hp.refl s)
  split
  · exact hp.norEraseAll hq cfg s
  · exact hp.norEraseLoop hq hf cfg _ size addr size s

omit hf in
theorem norReadDo (hc : nor.cmdRead ∈ norCmds) (addr len : Nat) (s : δ) :
    R s (D1Flash.norReadDo p nor addr len s).2 := by
  have hhead := cmdAddr nor.toNorFlash (hq _ hc) addr []
  rw [List.append_nil] at hhead
  exact hp.step (hp.refl s) (hp.transfer hhead s)

omit hf in
theorem norReadLoop (hc : nor.cmdRead ∈ norCmds) (fuel addr len : Nat) (ret : Int)
    (buf : List Byte) (s : δ) : R s (D1Flash.norReadLoop p nor fuel addr len ret buf s).2 := by
  induction fuel generalizing addr len ret buf s with
  | zero => exact hp.refl s
  | succ fuel ih =>
    rw [D1Flash.norReadLoop]
    apply hp.step (hp.refl s)
    exact reached (D1Flash.norReadDo p nor addr (inPage addr len) s)
      (hp.norReadDo hq hc addr _ s) fun ⟨_, _⟩ s₁ h₁ => hp.step h₁ (ih _ _ _ _ s₁)

omit hf in
theorem norRead (hc : nor.cmdRead ∈ norCmds) (addr len : Nat) (s : δ) :
    R s (D1Flash.norRead p nor addr len s).2 := by
  unfold D1Flash.norRead
  split
  · exact hp.refl s
  · exact reached (norWaitReady p 0 500 s) (hp.waitReady 0 500 s)
      fun _ s₁ h₁ => hp.step h₁ (hp.norReadLoop hq hc len addr len _ _ s₁)

omit hf in
theorem norWriteDo (hc : nor.cmdWrite ∈ norCmds) (addr : Nat) (buf : List Byte) (s : δ) :
    R s (D1Flash.norWriteDo p nor addr buf s).2 := by
  have hsend : ∀ s, R s (norSend p nor.wCmdSlen
      (D1Flash.cmdAddr nor.toNorFlash nor.cmdWrite addr ++ buf) s).2 :=
    hp.send (cmdAddr nor.toNorFlash (hq _ hc) addr buf)
  unfold D1Flash.norWriteDo
  apply hp.step (hp.refl s)
  refine reached (norWriteEnable p s) (hp.writeEnable s) fun _ s₁ h₁ => hp.step h₁ ?_
  exact hp.step (hsend s₁) (hp.waitReady _ _ _)

theorem norWriteLoop (cfg : Config) (hc : nor.cmdWrite ∈ norCmds) (fuel addr : Nat)
    (buf : List Byte) (ret : Int) (s : δ) :
    R s (D1Flash.norWriteLoop cfg p nor fuel addr buf ret s).2 := by
  induction fuel generalizing addr buf ret s with
  | zero => exact hp.refl s
  | succ fuel ih =>
    rw [D1Flash.norWriteLoop]
    apply hp.step (hp.refl s)
    extract_lets wlen
    refine reached (if cfg.writeLock = true then D1Flash.norWrUnlock nor addr buf.length s
      else (0, s)) (hp.guarded (hp.norWrUnlock hf addr buf.length s))
      fun _ s₁ h₁ => hp.step h₁ ?_
    refine reached (D1Flash.norWriteDo p nor addr (buf.take wlen) s₁)
      (hp.norWriteDo hq hc addr _ s₁) fun _ s₂ h₂ => hp.step h₂ ?_
    exact reached (if cfg.writeLock = true then D1Flash.norWrLockAll p s₂ else (0, s₂))
      (hp.guarded (hp.norWrLockAll hq s₂)) fun _ s₃ h₃ => hp.step h₃ (ih _ _ _ s₃)

theorem norWrite (cfg : Config) (hc : nor.cmdWrite ∈ norCmds) (addr : Nat) (buf : List Byte)
    (s : δ) : R s (D1Flash.norWrite cfg p nor addr buf s).2 := by
  unfold D1Flash.norWrite
  split
  · exact hp.refl s
  · exact reached (norWaitReady p 0 500 s) (hp.waitReady 0 500 s)
      fun _ s₁ h₁ => hp.step h₁ (hp.norWriteLoop hq hf cfg hc buf.length addr buf _ s₁)

omit hq hf in
theorem scanCommands {st : Spinor δ} (hf : ∀ f, st.nor.factory = some f → f.Keeps R)
    (info : NorInfo) : R st.dev (D1Flash.scanCommands info st).2.dev := by
  rw [D1Flash.scanCommands]
  extract_lets
  rcases scanProgram st.nor.toNorFlash info with ⟨cmdWrite, wCmdSlen⟩
  rcases scanRead st.nor.toNorFlash info with ⟨cmdRead, rCmdSlen⟩
  dsimp only
  split
  · obtain ⟨nor, hnor⟩ : ∃ nor : Nor δ,
      nor = { st.nor with cmdWrite, wCmdSlen, cmdRead, rCmdSlen } := ⟨_, rfl⟩
    have hf' : ∀ f, nor.factory = some f → f.Keeps R := hnor ▸ hf
    have hs := hp.norSetQuadMode hf' st.dev
    rw [← hnor]
    rcases hq : D1Flash.norSetQuadMode nor st.dev with ⟨ret, s⟩
    rw [hq] at hs
    dsimp only
    split
    · exact hs
    · exact hs
  · exact hp.refl st.dev

end SpiPort.Keeps

end D1Flash
