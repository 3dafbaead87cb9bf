import D1Flash.Lib.Runs
import D1Flash.Spinor.CoreFrame
import D1Flash.Spinor.InitCycle
import D1Flash.Spinor.SectorContract

namespace D1Flash
open Runs (run Along)
set_option autoImplicit true

abbrev norCmdEx4B : Byte := 0xE9

/-- A board, with the address mode of its chip. -/
structure Moded (δ : Type) where
  dev : δ
  fourByte : Bool

/-- The address mode behind a transfer that went through. -/
def modeAfter (tbuf : List Byte) (fourByte : Bool) : Bool :=
  if tbuf = [norCmdResetEn, norCmdReset] then false
  else if tbuf.headD 0 = norCmdEn4B then true
  else if tbuf.headD 0 = norCmdEx4B then false
  else fourByte

def modedPort (p : SpiPort δ) : SpiPort (Moded δ) where
  halSpiXfer t s :=
    match p.halSpiXfer t s.dev with
    | ((ret, rx), dev) =>
      ((ret, rx),
        ⟨dev, if ret = 0 then modeAfter (t.txBuf.getD []) s.fourByte else s.fourByte⟩)
  mdelay ms s := { s with dev := p.mdelay ms s.dev }

/-- A call that the chip takes no part in. -/
def Moded.call (f : δ → α × δ) (s : Moded δ) : α × Moded δ :=
  match f s.dev with
  | (a, dev) => (a, { s with dev })

/-- A board with the driver's own factories and a chip that has an address mode. -/
def modedPlatform (cfg : Config) (p : Platform δ) (behind : FactoryName → Nat → NorInfo) :
    Platform (Moded δ) where
  toSpiPort := modedPort p.toSpiPort
  halSemCreate := Moded.call p.halSemCreate
  awHalSpiInit := Moded.call p.awHalSpiInit
  halSpiDeinit := Moded.call p.halSpiDeinit
  malloc n := Moded.call (p.malloc n)
  factory := norFactory cfg (modedPort p.toSpiPort) behind

@[simp] theorem modedPlatform_port :
    (modedPlatform cfg p behind).toSpiPort = modedPort p.toSpiPort :=
  rfl

inductive SessionOp where
  | init
  | deinit
  | read (addr len : Nat)
  | write (addr : Nat) (buf : List Byte)
  | erase (addr size : Nat)

def sessionStep (cfg : Config) (p : Platform δ) (st : Spinor δ) : SessionOp → Int × Spinor δ
  | .init =>
    match norInit cfg p st with
    | ((ret, _), st) => (ret, st)
  | .deinit => norDeinit cfg p st
  | .read addr len =>
    match norRead p.toSpiPort st.nor addr len st.dev with
    | ((ret, _), s) => (ret, st.onDev s)
  | .write addr buf =>
    match norWrite cfg p.toSpiPort st.nor addr buf st.dev with
    | (ret, s) => (ret, st.onDev s)
  | .erase addr size =>
    match norErase cfg p.toSpiPort st.nor addr size st.dev with
    | (ret, s) => (ret, st.onDev s)

/-- The calls between an init and a deinit. -/
def SessionOp.Accesses : SessionOp → Prop
  | .init | .deinit => False
  | _ => True

/-- The opcodes that leave the address mode alone. -/
def KeepsMode (cmd : Byte) : Prop := cmd ∉ [norCmdResetEn, norCmdEn4B, norCmdEx4B]

instance : DecidablePred KeepsMode := fun _ => inferInstanceAs (Decidable (_ ∉ _))

def SameMode (s t : Moded δ) : Prop := t.fourByte = s.fourByte

theorem norCmds_keepMode : ∀ cmd ∈ norCmds, KeepsMode cmd := by decide +kernel

theorem modeAfter_keeps (h : KeepsMode (tbuf.headD 0)) : modeAfter tbuf m = m := by
  simp only [KeepsMode, List.mem_cons, List.not_mem_nil, or_false, not_or] at h
  obtain ⟨hr, hen, hex⟩ := h
  have hne : tbuf ≠ [norCmdResetEn, norCmdReset] := by
    rintro rfl
    exact hr rfl
  rw [modeAfter, if_neg hne, if_neg hen, if_neg hex]

theorem modedPort_keeps (p : SpiPort δ) : (modedPort p).Keeps KeepsMode SameMode where
  refl _ := rfl
  trans h₁ h₂ := h₂.trans h₁
  xfer t s hq := by
    show (if (p.halSpiXfer t s.dev).1.1 = 0 then modeAfter (t.txBuf.getD []) s.fourByte
      else s.fourByte) = s.fourByte
    rw [modeAfter_keeps hq, ite_self]
  delay _ _ := rfl
  readSr := by decide
  wren := by decide

variable {cfg : Config} {p : Platform δ} {behind : FactoryName → Nat → NorInfo}

theorem norFactory_set4BytesAddr (p : SpiPort δ) (name : FactoryName) :
    (norFactory cfg p behind name).set4BytesAddr = none := by
  cases name with
  | gd => rfl
  | mxic => rfl
  | winbond => rfl
  | xtx => rfl
  | esmt => rfl
  | fm => rfl
  | xmc => rfl
  | puya => rfl
  | zetta => rfl

/-- The mode of a driver that a scan has set up. -/
structure InMode (cfg : Config) (p : Platform δ) (behind : FactoryName → Nat → NorInfo)
    (st : Spinor (Moded δ)) : Prop where
  mode : st.dev.fourByte = decide (st.nor.totalSize > sz16M)
  width : st.nor.addrWidth = if st.nor.totalSize > sz16M then 4 else 3
  factory : ∃ name, st.nor.factory = some (norFactory cfg (modedPort p.toSpiPort) behind name)
  cmdRead : st.nor.cmdRead ∈ norCmds
  cmdWrite : st.nor.cmdWrite ∈ norCmds

theorem InMode.keeps (h : InMode cfg p behind st) :
    ∀ f, st.nor.factory = some f → f.Keeps SameMode := by
  intro f hf
  obtain ⟨name, hname⟩ := h.factory
  cases hf.symm.trans hname
  exact (modedPort_keeps p.toSpiPort).norFactory norCmds_keepMode cfg behind name

theorem InMode.kept (h : InMode cfg p behind st) (hnor : st'.nor = st.nor)
    (hs : SameMode st.dev st'.dev) : InMode cfg p behind st' where
  mode := by
    rw [hnor]
    exact hs.trans h.mode
  width := hnor ▸ h.width
  factory := hnor ▸ h.factory
  cmdRead := hnor ▸ h.cmdRead
  cmdWrite := hnor ▸ h.cmdWrite

/-- A driver with info is in the mode of its chip. -/
def ModeHeld (cfg : Config) (p : Platform δ) (behind : FactoryName → Nat → NorInfo)
    (st : Spinor (Moded δ)) : Prop :=
  st.nor.info.isSome → InMode cfg p behind st

theorem ModeHeld.of_none (h : st.nor.info = none) : ModeHeld cfg p behind st := by
  intro hs
  rw [h] at hs
  cases hs

theorem access_held (h : ModeHeld cfg p behind st) {op : SessionOp} (hop : op.Accesses) :
    (sessionStep cfg (modedPlatform cfg p behind) st op).2.nor = st.nor ∧
      ModeHeld cfg p behind (sessionStep cfg (modedPlatform cfg p behind) st op).2 := by
  have hk := modedPort_keeps p.toSpiPort
  cases op with
  | init => cases hop
  | deinit => cases hop
  | read addr len =>
    have hs := fun hi => hk.norRead norCmds_keepMode (h hi).cmdRead addr len st.dev
    rw [sessionStep, modedPlatform_port]
    rcases hr : norRead (modedPort p.toSpiPort) st.nor addr len st.dev with ⟨⟨ret, rx⟩, s⟩
    rw [hr] at hs
    exact ⟨rfl, fun hi => (h hi).kept rfl (hs hi)⟩
  | write addr buf =>
    have hs := fun hi => hk.norWrite norCmds_keepMode (h hi).keeps cfg (h hi).cmdWrite addr buf
      st.dev
    rw [sessionStep, modedPlatform_port]
    rcases hr : norWrite cfg (modedPort p.toSpiPort) st.nor addr buf st.dev with ⟨ret, s⟩
    rw [hr] at hs
    exact ⟨rfl, fun hi => (h hi).kept rfl (hs hi)⟩
  | erase addr size =>
    have hs := fun hi => hk.norErase norCmds_keepMode (h hi).keeps cfg addr size st.dev
    rw [sessionStep, modedPlatform_port]
    rcases hr : norErase cfg (modedPort p.toSpiPort) st.nor addr size st.dev with ⟨ret, s⟩
    rw [hr] at hs
    exact ⟨rfl, fun hi => (h hi).kept rfl (hs hi)⟩

theorem matchNorFrom_factory {factory : FactoryName → NorFactory δ} {id : List Byte}
    (h : matchNorFrom factory l id fuel name = some found) : ∃ name, found.1 = factory name := by
  induction fuel generalizing name with
  | zero => cases h
  | succ fuel ih =>
    cases name with
    | none => cases h
    | some name =>
      rw [matchNorFrom] at h
      split at h
      · exact ih h
      · obtain ⟨info, -, rfl⟩ := Option.map_eq_some_iff.1 h
        exact ⟨name, rfl⟩

theorem scanProgram_mem (nor : NorFlash) (info : NorInfo) :
    (scanProgram nor info).1 ∈ norCmds := by
  unfold scanProgram
  extract_lets slen
  split
  · split <;> (apply SpiPort.Keeps.cmd4Bytes_mem nor <;> decide)
  · apply SpiPort.Keeps.cmd4Bytes_mem nor <;> decide

theorem scanRead_mem (nor : NorFlash) (info : NorInfo) : (scanRead nor info).1 ∈ norCmds := by
  unfold scanRead
  extract_lets slen
  split
  · split <;> (apply SpiPort.Keeps.cmd4Bytes_mem nor <;> decide)
  · split
    · split <;> (apply SpiPort.Keeps.cmd4Bytes_mem nor <;> decide)
    · apply SpiPort.Keeps.cmd4Bytes_mem nor <;> decide

theorem scanCommands_inMode
    (hf : ∃ name, st.nor.factory = some (norFactory cfg (modedPort p.toSpiPort) behind name))
    (hm : st.dev.fourByte = decide (st.nor.totalSize > sz16M))
    (h : scanCommands info st = (0, st')) (hscan : st'.nor.toNorFlash.Scanned cfg entry) :
    InMode cfg p behind st' := by
  have hk := modedPort_keeps p.toSpiPort
  have hkeeps : ∀ f, st.nor.factory = some f → f.Keeps SameMode := by
    intro f hs
    obtain ⟨name, hname⟩ := hf
    cases hs.symm.trans hname
    exact hk.norFactory norCmds_keepMode cfg behind name
  have hdev := hk.scanCommands hkeeps info
  have hnor := scanCommands_ok h
  rw [h] at hdev
  constructor
  · rw [hdev, hm, hnor]
  · rw [hscan.addrWidth, hscan.totalSize]
  · rw [hnor]
    exact hf
  · rw [hscan.cmdRead]
    exact scanRead_mem _ _
  · rw [hscan.cmdWrite]
    exact scanProgram_mem _ _

section

variable (hok : ∀ t s, (p.halSpiXfer t s).1.1 = 0)

include hok

theorem modedPort_sends (tbuf : List Byte) (n : Nat) (s : Moded δ) :
    (norSend (modedPort p.toSpiPort) n tbuf s).1 = 0 ∧
      (norSend (modedPort p.toSpiPort) n tbuf s).2.fourByte = modeAfter tbuf s.fourByte := by
  refine ⟨hok _ _, ?_⟩
  exact if_pos (hok _ _)

theorem en4B_mode (s : Moded δ) :
    (norSendCmd (modedPort p.toSpiPort) norCmdEn4B s).2.fourByte = true := by
  have hk := modedPort_keeps p.toSpiPort
  obtain ⟨h0, hmode⟩ := modedPort_sends hok [norCmdEn4B] 1 s
  rw [norSendCmd]
  rcases hs : norSend (modedPort p.toSpiPort) 1 [norCmdEn4B] s with ⟨ret, s₁⟩
  rw [hs] at h0 hmode
  dsimp only at h0 ⊢
  rw [if_neg (not_not.2 h0)]
  exact (hk.waitReady 0 500 s₁).trans hmode

theorem norSet4byte_mode {nor : Nor (Moded δ)}
    (hf : ∃ name, nor.factory = some (norFactory cfg (modedPort p.toSpiPort) behind name))
    (enable : Bool) (s : Moded δ) :
    (norSet4byte (modedPlatform cfg p behind) nor enable s).2.fourByte = true := by
  obtain ⟨name, hname⟩ := hf
  rw [norSet4byte, hname, Option.bind_some, norFactory_set4BytesAddr]
  exact en4B_mode hok s

theorem reset_mode (s : Moded δ) :
    (norReset (modedPlatform cfg p behind) s).2.fourByte = false :=
  (modedPort_sends hok [norCmdResetEn, norCmdReset] 2 s).2

/-- The switch of a scan: a reset chip of more than 16M is put in its 4-byte mode. -/
theorem scan4byte_mode {nor : Nor (Moded δ)}
    (hf : ∃ name, nor.factory = some (norFactory cfg (modedPort p.toSpiPort) behind name))
    (hm : s.fourByte = false) (c : Prop) [Decidable c] :
    (if c then (norSet4byte (modedPlatform cfg p behind) nor true s).2 else s).fourByte =
      decide c := by
  split
  · next hc => rw [norSet4byte_mode hok hf, decide_eq_true hc]
  · next hc => rw [hm, decide_eq_false hc]

/-- A scan of a chip that has been reset ends in the mode of its size. -/
theorem norScan_inMode (hm : st.dev.fourByte = false)
    (h : norScan cfg (modedPlatform cfg p behind) st = (0, st')) : InMode cfg p behind st' := by
  have hk := modedPort_keeps p.toSpiPort
  obtain ⟨info, hscan⟩ := norScan_scanned h
  rw [norScan] at h
  have hid : SameMode st.dev (norReadId (modedPlatform cfg p behind) st.dev).2 := by
    unfold norReadId
    refine SpiPort.Keeps.reached (norWaitReady (modedPort p.toSpiPort) 0 500 st.dev)
      (hk.waitReady _ _ _)
      fun _ s₁ h₁ => hk.step h₁ ?_
    exact hk.transfer (by decide) s₁
  rcases h₁ : norReadId (modedPlatform cfg p behind) st.dev with ⟨⟨ret₁, id⟩, s⟩
  rw [h₁] at h hid
  dsimp only at h
  by_cases h0 : ret₁ = 0
  swap
  · rw [if_pos h0] at h
    exact (h0 (Prod.mk.inj h).1).elim
  rw [if_neg (not_not.2 h0)] at h
  cases hf : matchNorFrom (modedPlatform cfg p behind).factory (st.onDev s).fhead id
    (factoryNames.length + 1) (st.onDev s).fhead.head with
  | none =>
    rw [hf] at h
    exact absurd (Prod.mk.inj h).1 (by decide)
  | some found =>
    rw [hf] at h
    obtain ⟨name, hname⟩ := matchNorFrom_factory hf
    dsimp only at h
    cases hb : scanBlkSize cfg found.2.withGeneral with
    | none =>
      rw [hb] at h
      exact absurd (Prod.mk.inj h).1 (by decide)
    | some blkSize =>
      rw [hb] at h
      have hfac : ∃ name, some found.1 =
          some (norFactory cfg (modedPort p.toSpiPort) behind name) := ⟨name, congrArg some hname⟩
      exact scanCommands_inMode hfac (scan4byte_mode hok hfac (hid.trans hm) _) h hscan

end

theorem ModeHeld.kept (h : ModeHeld cfg p behind st) (hnor : st'.nor = st.nor)
    (hs : InMode cfg p behind st → SameMode st.dev st'.dev) : ModeHeld cfg p behind st' :=
  fun hi => (h (hnor ▸ hi)).kept hnor (hs (h (hnor ▸ hi)))

theorem runSteps_cons {P : Spinor δ → Prop} {step : Spinor δ → Int × Spinor δ}
    (hfail : (step st).1 ≠ 0 → P (step st).2)
    (hgo : (step st).1 = 0 → P (runSteps steps (step st).2).2) :
    P (runSteps ((name, step) :: steps) st).2 := by
  rw [runSteps]
  rcases h : step st with ⟨ret, st₁⟩
  rw [h] at hfail hgo
  dsimp only at hfail hgo ⊢
  split
  · next h0 => exact hfail h0
  · next h0 => exact hgo (not_not.1 h0)

theorem runSteps_keeps {P : Spinor δ → Prop}
    (h : ∀ step ∈ steps, ∀ st, P st → P (step.2 st).2) (hst : P st) :
    P (runSteps steps st).2 := by
  induction steps generalizing st with
  | nil => exact hst
  | cons step steps ih =>
    have hstep := h step List.mem_cons_self st hst
    apply runSteps_cons (fun _ => hstep)
    intro _
    exact ih (fun step hm => h step (List.mem_cons_of_mem _ hm)) hstep

theorem norCacheInit_mode (st : Spinor (Moded δ)) :
    (norCacheInit (modedPlatform cfg p behind) st).2.nor = st.nor ∧
      SameMode st.dev (norCacheInit (modedPlatform cfg p behind) st).2.dev :=
  ⟨norCacheInit_nor _ st, norCacheInit_dev _ (fun _ hs => hs) (fun _ _ hs => hs) st rfl⟩

theorem devStep_held {f : Nor (Moded δ) → Moded δ → Int × Moded δ}
    (hf : ∀ nor s, (∀ f, nor.factory = some f → f.Keeps SameMode) → SameMode s (f nor s).2)
    (h : ModeHeld cfg p behind st) : ModeHeld cfg p behind (devStep f st).2 :=
  h.kept rfl fun hm => hf st.nor st.dev hm.keeps

/-- The steps of an init that follow its scan keep the mode. -/
theorem held_behind_scan :
    ∀ step ∈ (initSteps cfg (modedPlatform cfg p behind)).drop 5, ∀ st,
      ModeHeld cfg p behind st → ModeHeld cfg p behind (step.2 st).2 := by
  have hk := modedPort_keeps p.toSpiPort
  have hrest : (initSteps cfg (modedPlatform cfg p behind)).drop 5 =
    [(.factoryInit, norFactoryInit)] ++
      (if cfg.writeLock then
        [(.wrLockInit, devStep norWrLockInit),
          (.wrLockAll, devStep fun _ => norWrLockAll (modedPort p.toSpiPort))]
      else []) ++
      [(.wrUnlockAll, devStep fun _ => norWrUnlockAll (modedPort p.toSpiPort))] ++
      (if cfg.cache then [(.cacheInit, norCacheInit (modedPlatform cfg p behind))] else []) := rfl
  intro step hstep st h
  rw [hrest] at hstep
  simp only [List.mem_append, List.mem_ite_nil_right, List.mem_cons, List.not_mem_nil,
    or_false] at hstep
  rcases hstep with ((rfl | ⟨-, rfl | rfl⟩) | rfl) | ⟨-, rfl⟩
  · apply devStep_held ?_ h
    intro nor s hf
    exact hk.norFactoryInit hf s
  · apply devStep_held ?_ h
    intro nor s hf
    exact hk.norWrLockInit hf s
  · apply devStep_held ?_ h
    intro nor s _
    exact hk.norWrLockAll norCmds_keepMode s
  · apply devStep_held ?_ h
    intro nor s _
    exact hk.norWrUnlockAll norCmds_keepMode s
  · obtain ⟨hnor, hs⟩ : (norCacheInit (modedPlatform cfg p behind) st).2.nor = st.nor ∧
        SameMode st.dev (norCacheInit (modedPlatform cfg p behind) st).2.dev :=
      norCacheInit_mode st
    exact h.kept hnor fun _ => hs

section

variable (hok : ∀ t s, (p.halSpiXfer t s).1.1 = 0)

include hok

theorem norInit_held (h : ModeHeld cfg p behind st) :
    ModeHeld cfg p behind (norInit cfg (modedPlatform cfg p behind) st).2 := by
  rw [norInit]
  by_cases hi : st.nor.info.isSome = true
  · rw [if_pos hi]
    exact h
  rw [if_neg hi]
  rw [Option.not_isSome_iff_eq_none] at hi
  have hreset : ∀ s, (norReset (modedPlatform cfg p behind) s).2.fourByte = false :=
    reset_mode hok
  -- up to the scan there is no info; the scan finds the chip reset
  refine runSteps_cons (fun _ => .of_none hi) fun _ => ?_
  refine runSteps_cons (fun _ => .of_none hi) fun _ => ?_
  refine runSteps_cons (fun _ => .of_none hi) fun _ => ?_
  refine runSteps_cons (fun _ => .of_none hi) fun _ => ?_
  refine runSteps_cons (fun hne => .of_none (norScan_fails rfl hne)) fun h0 => ?_
  apply runSteps_keeps held_behind_scan
  intro _
  exact norScan_inMode hok (hreset _) (Prod.ext h0 rfl)

/-- A deinit gives the chip back in the mode that it has found it in. -/
theorem norDeinit_mode (h : InMode cfg p behind st)
    (hd : norDeinit cfg (modedPlatform cfg p behind) st = (0, st')) :
    st'.dev.fourByte = decide (st.nor.totalSize > sz16M) := by
  have hk := modedPort_keeps p.toSpiPort
  rw [norDeinit] at hd
  split at hd
  · exact absurd (Prod.mk.inj hd).1 (by decide)
  extract_lets st₁ s₁ s₂ at hd
  obtain ⟨-, rfl⟩ := Prod.mk.inj hd
  have hst₁ : st₁.nor = st.nor ∧ st₁.dev = st.dev := by
    dsimp only [st₁]
    split
    · exact ⟨rfl, rfl⟩
    · exact ⟨rfl, rfl⟩
  have hs₁ : SameMode st.dev s₁ := by
    dsimp only [s₁]
    split
    · rw [hst₁.2]
      exact hk.norWrUnlockAll norCmds_keepMode st.dev
    · rw [hst₁.2]
      rfl
  show s₂.fourByte = _
  dsimp only [s₂]
  rw [hst₁.1, h.width]
  by_cases hc : st.nor.totalSize > sz16M
  · rw [if_pos hc, if_pos rfl, norSet4byte_mode hok h.factory, decide_eq_true hc]
  · rw [if_neg hc, if_neg (by decide), hs₁, h.mode]

end

theorem norDeinit_held (h : ModeHeld cfg p behind st) :
    ModeHeld cfg p behind (norDeinit cfg (modedPlatform cfg p behind) st).2 := by
  rw [norDeinit]
  split
  · exact h
  · exact .of_none rfl

/-- After any calls the driver has no info or is in the mode of its chip. -/
theorem session_held (hok : ∀ t s, (p.halSpiXfer t s).1.1 = 0) (h : ModeHeld cfg p behind st)
    (ops : List SessionOp) :
    ModeHeld cfg p behind (run (sessionStep cfg (modedPlatform cfg p behind)) st ops).2 := by
  apply Runs.invariant (G := fun _ _ => True) ?_ h (Runs.along_of_forall fun _ _ _ => trivial)
  intro st op h _
  cases op with
  | init => exact norInit_held hok h
  | deinit => exact norDeinit_held h
  | read addr len =>
    have ha : (SessionOp.read addr len).Accesses := trivial
    exact (access_held h ha).2
  | write addr buf =>
    have ha : (SessionOp.write addr buf).Accesses := trivial
    exact (access_held h ha).2
  | erase addr size =>
    have ha : (SessionOp.erase addr size).Accesses := trivial
    exact (access_held h ha).2

theorem accesses_nor (h : ModeHeld cfg p behind st) {ops : List SessionOp}
    (hops : ∀ op ∈ ops, op.Accesses) :
    (run (sessionStep cfg (modedPlatform cfg p behind)) st ops).2.nor = st.nor := by
  induction ops generalizing st with
  | nil => rfl
  | cons op ops ih =>
    obtain ⟨hnor, hheld⟩ := access_held h (hops op List.mem_cons_self)
    rw [run]
    exact (ih hheld fun op hm => hops op (List.mem_cons_of_mem _ hm)).trans hnor

/-- On a bus that works, a session holds the chip in the mode of its size throughout, and gives it
back in its 3-byte mode exactly when that is the mode it held it in: when the chip has no more than
16M. -/
theorem addressMode_handedBack (hok : ∀ t s, (p.halSpiXfer t s).1.1 = 0) (dev : Moded δ)
    (before : List SessionOp) {ops : List SessionOp} (hops : ∀ op ∈ ops, op.Accesses)
    (h₀ : (run (sessionStep cfg (modedPlatform cfg p behind)) (.initial dev) before).2 = st₀)
    (h₁ : sessionStep cfg (modedPlatform cfg p behind) st₀ .init = (0, st₁))
    (h₂ : (run (sessionStep cfg (modedPlatform cfg p behind)) st₁ ops).2 = st₂)
    (h₃ : sessionStep cfg (modedPlatform cfg p behind) st₂ .deinit = (0, st₃)) :
    (∀ k, (run (sessionStep cfg (modedPlatform cfg p behind)) st₁ (ops.take k)).2.dev.fourByte =
        decide (st₁.nor.totalSize > sz16M)) ∧ st₃.dev.fourByte = false ↔
      st₁.nor.totalSize ≤ sz16M := by
  have hheld₀ : ModeHeld cfg p behind st₀ := h₀ ▸ session_held hok (.of_none rfl) before
  have hheld₁ : ModeHeld cfg p behind st₁ := by
    have h := norInit_held hok hheld₀
    rcases hi : norInit cfg (modedPlatform cfg p behind) st₀ with ⟨⟨ret, done⟩, st⟩
    rw [sessionStep, hi] at h₁
    rw [hi] at h
    obtain ⟨-, rfl⟩ := Prod.mk.inj h₁
    exact h
  -- the deinit has found an info, and the calls before it have left the record alone
  have hnor : st₂.nor = st₁.nor := h₂ ▸ accesses_nor hheld₁ hops
  have hinfo : st₁.nor.info.isSome := by
    rw [← hnor, ← Option.ne_none_iff_isSome]
    intro hnone
    rw [sessionStep, norDeinit, hnone] at h₃
    exact absurd (Prod.mk.inj h₃).1 (by decide)
  have hbetween : ∀ k,
      (run (sessionStep cfg (modedPlatform cfg p behind)) st₁ (ops.take k)).2.dev.fourByte =
        decide (st₁.nor.totalSize > sz16M) := by
    intro k
    have htake : ∀ op ∈ ops.take k, op.Accesses := fun op hm => hops op (List.mem_of_mem_take hm)
    have hk := accesses_nor hheld₁ htake
    have hmode := (session_held hok hheld₁ (ops.take k)) (hk ▸ hinfo)
    rw [hmode.mode, hk]
  have hin : InMode cfg p behind st₂ :=
    h₂ ▸ session_held hok hheld₁ ops (by rw [h₂, hnor]; exact hinfo)
  have hlast := norDeinit_mode hok hin h₃
  rw [hnor] at hlast
  constructor
  · rintro ⟨-, hback⟩
    rw [hback] at hlast
    exact Nat.le_of_not_lt (of_decide_eq_false hlast.symm)
  · intro hle
    refine ⟨hbetween, hlast.trans (decide_eq_false ?_)⟩
    exact Nat.not_lt_of_le hle

/-- A board on which everything works, with a chip of this id that is never busy. -/
def answeringBoard (id : List Byte) : Platform Unit where
  halSpiXfer t s :=
    ((0, if (t.txBuf.getD []).headD 0 = norCmdRdid then id else List.replicate t.rxLen 0xC2), s)
  mdelay _ s := s
  halSemCreate s := (true, s)
  awHalSpiInit s := (0, s)
  halSpiDeinit s := (0, s)
  malloc _ s := (true, s)
  factory := norFactory ⟨false, false, true⟩ {
    halSpiXfer := fun t s => ((0, List.replicate t.rxLen 0xC2), s)
    mdelay := fun _ s => s } fun _ _ => default

/-- The session on such a board, from its first init on. -/
def answeringStep (id : List Byte) :
    Spinor (Moded Unit) → SessionOp → Int × Spinor (Moded Unit) :=
  sessionStep ⟨false, false, true⟩
    (modedPlatform ⟨false, false, true⟩ (answeringBoard id) fun _ _ => default)

/-- A deinit leaves a chip of 64M in its 4-byte mode. -/
theorem addressMode_kept :
    let step := answeringStep mx25l51234g.id
    ¬ ∀ dev ops, (∀ op ∈ ops, SessionOp.Accesses op) →
      (step (.initial dev) .init).1 = 0 →
      (step (run step (step (.initial dev) .init).2 ops).2 .deinit).1 = 0 →
      (step (run step (step (.initial dev) .init).2 ops).2 .deinit).2.dev.fourByte = false := by
  intro step h
  have hback := h ⟨(), false⟩ [] (fun _ hm => nomatch hm) (by decide +kernel) (by decide +kernel)
  revert hback
  decide +kernel

theorem addressMode_handedBack_mx25l6433f :
    let step := answeringStep mx25l6433f.id
    let st₁ := (step (.initial ⟨(), true⟩) .init).2
    let st₂ := (run step st₁ [.read 0 4, .erase 0 0x1000]).2
    (∀ k, (run step st₁ ([SessionOp.read 0 4, .erase 0 0x1000].take k)).2.dev.fourByte =
        decide (st₁.nor.totalSize > sz16M)) ∧ (step st₂ .deinit).2.dev.fourByte = false ↔
      st₁.nor.totalSize ≤ sz16M := by
  intro step st₁ st₂
  have hops : ∀ op ∈ [SessionOp.read 0 4, .erase 0 0x1000], op.Accesses := by
    intro op hm
    rcases List.mem_cons.1 hm with rfl | hm
    · trivial
    · rw [List.mem_singleton.1 hm]
      trivial
  have h₁ : (step (.initial ⟨(), true⟩) .init).1 = 0 := by decide +kernel
  have h₃ : (step st₂ .deinit).1 = 0 := by decide +kernel
  exact addressMode_handedBack (fun _ _ => rfl) ⟨(), true⟩ [] hops rfl (Prod.ext h₁ rfl) rfl
    (Prod.ext h₃ rfl)

end D1Flash
