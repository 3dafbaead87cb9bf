import D1Flash.Lib.Tiling
import D1Flash.Spinor.FlashOps

namespace D1Flash
set_option autoImplicit true

/-- A device with a record of what was sent to it. -/
structure Logged (δ : Type) where
  dev : δ
  log : List (List Byte)

/-- The port that writes down every transfer. -/
def SpiPort.logged (p : SpiPort δ) : SpiPort (Logged δ) where
  halSpiXfer t s :=
    match p.halSpiXfer t s.dev with
    | (r, dev) => (r, ⟨dev, s.log ++ [t.txBuf.getD []]⟩)
  mdelay ms s := { s with dev := p.mdelay ms s.dev }

def eraseOpcodes : List Byte :=
  [norCmdEraseBlk4K, norCmdEraseBlk32K, norCmdEraseBlk64K, norCmdEraseBlk4K4B,
    norCmdEraseBlk32K4B, norCmdEraseBlk64K4B, norCmdEraseChip]

def Logged.erases (s : Logged δ) : List (List Byte) :=
  s.log.filter fun tbuf => tbuf.headD 0 ∈ eraseOpcodes

def EraseSize.cmd (nor : NorFlash) : EraseSize → Byte
  | .blk64K => cmd4Bytes nor norCmdEraseBlk64K norCmdEraseBlk64K4B
  | .blk32K => cmd4Bytes nor norCmdEraseBlk32K norCmdEraseBlk32K4B
  | .blk4K => cmd4Bytes nor norCmdEraseBlk4K norCmdEraseBlk4K4B

def EraseSize.ms : EraseSize → Nat
  | .blk64K => 150
  | .blk32K => 120
  | .blk4K => 30

/-- An erase command of the driver: of one block, or of the chip. -/
inductive EraseCmd where
  | blk (size : EraseSize) (addr : Nat)
  | chip

namespace EraseCmd

def start : EraseCmd → Nat
  | .blk _ addr => addr
  | .chip => 0

def bytes (nor : NorFlash) : EraseCmd → Nat
  | .blk size _ => size.bytes
  | .chip => nor.totalSize

/-- The bytes of the command on the bus. -/
def tbuf (nor : NorFlash) : EraseCmd → List Byte
  | .blk size addr => cmdAddr nor (size.cmd nor) addr
  | .chip => [norCmdEraseChip]

def ms : EraseCmd → Nat
  | .blk size _ => size.ms
  | .chip => 26 * 1000

/-- A block is aligned to its size, and the flags allow the size. -/
def Allowed (info : NorInfo) : EraseCmd → Prop
  | .blk size addr => info.erasesBy size = true ∧ addr % size.bytes = 0
  | .chip => True

variable (p : SpiPort δ) (nor : NorFlash)

def send : EraseCmd → δ → Int × δ
  | .blk size addr => norSend p (cmdAddr nor (size.cmd nor) addr).length
      (cmdAddr nor (size.cmd nor) addr)
  | .chip => norSendCmd p norCmdEraseChip

/-- Write-enable, erase transfer and ready wait, each when the one before succeeded. -/
def exec (c : EraseCmd) (s : δ) : Int × δ :=
  match norWriteEnable p s with
  | (ret, s) =>
    match if ret ≠ 0 then (ret, s) else c.send p nor s with
    | (ret, s) => if ret ≠ 0 then (ret, s) else norWaitReady p c.ms maxWaitLoop s

/-- The write-enable, the erase transfer and the ready wait succeed. -/
def Succeeds (c : EraseCmd) (s : δ) : Prop :=
  (norWriteEnable p s).1 = 0 ∧ (c.send p nor (norWriteEnable p s).2).1 = 0 ∧
    (norWaitReady p c.ms maxWaitLoop (c.send p nor (norWriteEnable p s).2).2).1 = 0

/-- Every command of the list succeeds, each from where the one before ended. -/
def AllSucceed : List EraseCmd → δ → Prop
  | [], _ => True
  | c :: cs, s => c.Succeeds p nor s ∧ AllSucceed cs (c.exec p nor s).2

variable {p nor}

theorem exec_ok (c : EraseCmd) (s : δ) : (c.exec p nor s).1 = 0 ↔ c.Succeeds p nor s := by
  rw [exec, Succeeds]
  rcases norWriteEnable p s with ⟨ret, s₁⟩
  dsimp only
  by_cases h0 : ret = 0
  · rw [if_neg (not_not.2 h0)]
    rcases c.send p nor s₁ with ⟨ret₂, s₂⟩
    dsimp only
    by_cases h02 : ret₂ = 0
    · rw [if_neg (not_not.2 h02)]
      exact ⟨fun h => ⟨h0, h02, h⟩, fun h => h.2.2⟩
    · rw [if_pos h02]
      exact ⟨fun h => (h02 h).elim, fun h => (h02 h.2.1).elim⟩
  · rw [if_pos h0]
    dsimp only
    rw [if_pos h0]
    exact ⟨fun h => (h0 h).elim, fun h => (h0 h.1).elim⟩

end EraseCmd

section
variable {cfg : Config} {p : SpiPort δ} {nor : Nor δ}

theorem norEraseBy_exec (hc : cfg.writeLock = false) (blk : EraseSize) (addr : Nat) (s : δ) :
    norEraseBy cfg p nor blk addr s = (EraseCmd.blk blk addr).exec p nor.toNorFlash s := by
  have hblk : ∀ cmd size ms, norEraseBlk cfg p nor cmd size ms addr s =
      match norEraseDo p nor cmd addr s with
      | (ret, s) => if ret ≠ 0 then (ret, s) else norWaitReady p ms maxWaitLoop s := by
    intro cmd size ms
    rw [norEraseBlk, hc]
    rfl
  have hdo : norEraseDo p nor (blk.cmd nor.toNorFlash) addr s =
      match norWriteEnable p s with
      | (ret, s) =>
        if ret ≠ 0 then (ret, s) else (EraseCmd.blk blk addr).send p nor.toNorFlash s := rfl
  rw [EraseCmd.exec]
  cases blk with
  | blk64K => exact (hblk _ _ _).trans (by rw [← EraseSize.cmd.eq_1, hdo]; rfl)
  | blk32K => exact (hblk _ _ _).trans (by rw [← EraseSize.cmd.eq_2, hdo]; rfl)
  | blk4K => exact (hblk _ _ _).trans (by rw [← EraseSize.cmd.eq_3, hdo]; rfl)

theorem norEraseAll_exec (hc : cfg.writeLock = false) (hi : nor.info = some info) (s : δ) :
    norEraseAll cfg p nor s = EraseCmd.chip.exec p nor.toNorFlash s := by
  rw [norEraseAll, hi, hc]
  rfl

end

section
variable {p : SpiPort δ}

theorem norSend_erases (n : Nat) (tbuf : List Byte) (s : Logged δ) :
    (norSend p.logged n tbuf s).2.erases =
      s.erases ++ [tbuf].filter fun tbuf => tbuf.headD 0 ∈ eraseOpcodes :=
  List.filter_append _ _

theorem norReadStatus_erases (s : Logged δ) :
    (norReadStatus p.logged s).2.erases = s.erases := by
  have h : (norTransfer p.logged 1 [norCmdReadSr] true 2 s).2.erases = s.erases :=
    (List.filter_append _ _).trans (List.append_nil _)
  rw [norReadStatus]
  rcases hx : norTransfer p.logged 1 [norCmdReadSr] true 2 s with ⟨⟨ret, reg⟩, s'⟩
  rw [hx] at h
  dsimp only
  split
  · exact h
  · exact h

theorem norIsBusy_erases (s : Logged δ) : (norIsBusy p.logged s).2.erases = s.erases := by
  have h := norReadStatus_erases (p := p) s
  rw [norIsBusy]
  rcases hx : norReadStatus p.logged s with ⟨⟨ret, reg⟩, s'⟩
  rw [hx] at h
  dsimp only
  split
  · exact h
  · split
    · exact h
    · exact h

theorem msLoop_erases (n : Nat) (s : Logged δ) : (msLoop p.logged n s).2.erases = s.erases := by
  induction n generalizing s with
  | zero => rfl
  | succ n ih =>
    have h := norIsBusy_erases (p := p) s
    rw [msLoop]
    rcases hx : norIsBusy p.logged s with ⟨busy, s'⟩
    rw [hx] at h
    dsimp only
    split
    · exact h
    · rw [ih]
      split
      · exact h
      · exact h

theorem timesLoop_erases (n : Nat) (s : Logged δ) :
    (timesLoop p.logged n s).2.erases = s.erases := by
  induction n generalizing s with
  | zero => rfl
  | succ n ih =>
    have h := norIsBusy_erases (p := p) s
    rw [timesLoop]
    rcases hx : norIsBusy p.logged s with ⟨busy, s'⟩
    rw [hx] at h
    dsimp only
    split
    · exact h
    · exact (ih s').trans h

theorem norWaitReady_erases (ms times : Nat) (s : Logged δ) :
    (norWaitReady p.logged ms times s).2.erases = s.erases := by
  have h₁ := msLoop_erases (p := p) (preDecIters ms) s
  rw [norWaitReady]
  rcases hx : msLoop p.logged (preDecIters ms) s with ⟨_ | _, s₁⟩
  · have h₂ := timesLoop_erases (p := p) (preDecIters times) s₁
    rw [hx] at h₁
    dsimp only
    rcases hy : timesLoop p.logged (preDecIters times) s₁ with ⟨_ | _, s₂⟩
    · have h₃ := norIsBusy_erases (p := p) s₂
      rw [hy] at h₂
      dsimp only
      rcases hz : norIsBusy p.logged s₂ with ⟨busy, s₃⟩
      rw [hz] at h₃
      dsimp only
      split
      · exact (h₃.trans h₂).trans h₁
      · exact (h₃.trans h₂).trans h₁
    · rw [hy] at h₂
      exact h₂.trans h₁
  · rw [hx] at h₁
    exact h₁

theorem norSendCmd_erases (cmd : Byte) (s : Logged δ) :
    (norSendCmd p.logged cmd s).2.erases =
      s.erases ++ [[cmd]].filter fun tbuf => tbuf.headD 0 ∈ eraseOpcodes := by
  have h₁ := norSend_erases (p := p) 1 [cmd] s
  rw [norSendCmd]
  rcases hx : norSend p.logged 1 [cmd] s with ⟨ret, s₁⟩
  rw [hx] at h₁
  dsimp only
  split
  · exact h₁
  · exact (norWaitReady_erases 0 500 s₁).trans h₁

theorem norWriteEnable_erases (s : Logged δ) :
    (norWriteEnable p.logged s).2.erases = s.erases := by
  have h₁ : (norSendCmd p.logged norCmdWren s).2.erases = s.erases :=
    (norSendCmd_erases _ _).trans (List.append_nil _)
  rw [norWriteEnable]
  rcases hx : norSendCmd p.logged norCmdWren s with ⟨ret, s₁⟩
  rw [hx] at h₁
  dsimp only
  split
  · exact h₁
  · have h₂ := norReadStatus_erases (p := p) s₁
    rcases hy : norReadStatus p.logged s₁ with ⟨⟨ret₂, sr⟩, s₂⟩
    rw [hy] at h₂
    dsimp only
    split
    · exact h₂.trans h₁
    · split
      · exact h₂.trans h₁
      · exact h₂.trans h₁

theorem EraseCmd.tbuf_isErase (nor : NorFlash) (c : EraseCmd) :
    (c.tbuf nor).headD 0 ∈ eraseOpcodes := by
  have hhead : ∀ cmd addr, (cmdAddr nor cmd addr).headD 0 = cmd := by
    intro cmd addr
    rw [cmdAddr]
    split
    · rfl
    · rfl
  cases c with
  | blk size addr =>
    rw [tbuf, hhead]
    cases size <;> simp only [EraseSize.cmd, cmd4Bytes] <;> split <;> decide
  | chip => exact show norCmdEraseChip ∈ eraseOpcodes by decide

/-- A command is on record once its write-enable succeeded. -/
theorem EraseCmd.exec_erases (nor : NorFlash) (c : EraseCmd) (s : Logged δ) :
    (c.exec p.logged nor s).2.erases =
      s.erases ++ if (norWriteEnable p.logged s).1 = 0 then [c.tbuf nor] else [] := by
  have hsend : ∀ s : Logged δ, (c.send p.logged nor s).2.erases = s.erases ++ [c.tbuf nor] := by
    intro s
    have hc := c.tbuf_isErase nor
    have hf : [c.tbuf nor].filter (fun tbuf => tbuf.headD 0 ∈ eraseOpcodes) = [c.tbuf nor] :=
      List.filter_cons_of_pos (decide_eq_true hc)
    cases c with
    | blk size addr => exact (norSend_erases _ _ _).trans (by rw [← hf]; rfl)
    | chip => exact (norSendCmd_erases _ _).trans (by rw [← hf]; rfl)
  have h₁ := norWriteEnable_erases (p := p) s
  rw [exec]
  rcases hx : norWriteEnable p.logged s with ⟨ret, s₁⟩
  rw [hx] at h₁
  dsimp only at h₁ ⊢
  by_cases h0 : ret = 0
  · rw [if_pos h0, if_neg (not_not.2 h0)]
    have h₂ := hsend s₁
    rcases hy : c.send p.logged nor s₁ with ⟨ret₂, s₂⟩
    rw [hy] at h₂
    dsimp only at h₂ ⊢
    rw [h₁] at h₂
    split
    · exact h₂
    · exact (norWaitReady_erases _ _ _).trans h₂
  · rw [if_neg h0, if_pos h0, List.append_nil]
    dsimp only
    rw [if_pos h0]
    exact h₁

/-- What a run of erase commands is to be: blocks of the range in order, all but the last
succeeding, and a return of 0 exactly when they cover the range and the last succeeds too. -/
structure EraseRun (p : SpiPort δ) (nor : NorFlash) (info : NorInfo) (addr size : Nat)
    (s : Logged δ) (ret : Int) (s' : Logged δ) (cmds : List EraseCmd) : Prop where
  record : s'.erases = s.erases ++ cmds.map fun c => c.tbuf nor
  tiles : Tiling.From EraseCmd.start (EraseCmd.bytes nor) addr cmds
  allowed : ∀ c ∈ cmds, c.Allowed info
  total_le : Tiling.total (EraseCmd.bytes nor) cmds ≤ size
  ok : ret = 0 ↔ Tiling.total (EraseCmd.bytes nor) cmds = size ∧
    EraseCmd.AllSucceed p.logged nor cmds s
  prefix_ok : EraseCmd.AllSucceed p.logged nor cmds.dropLast s

theorem EraseRun.none {nor : NorFlash} (h : ret = 0 ↔ size = 0) :
    EraseRun p nor info addr size s ret s [] where
  record := (List.append_nil _).symm
  tiles := trivial
  allowed _ hc := (nomatch hc)
  total_le := Nat.zero_le _
  ok := h.trans ⟨fun h => ⟨h.symm, trivial⟩, fun h => h.1.symm⟩
  prefix_ok := trivial

/-- A command that fails ends the run, whether it came on record or not. -/
theorem EraseRun.fails {nor : NorFlash} {c : EraseCmd} (hs : c.start = addr)
    (ha : c.Allowed info) (hle : c.bytes nor ≤ size) (hpos : 0 < size)
    (hx : c.exec p.logged nor s = (ret, s')) (h0 : ret ≠ 0) :
    ∃ cmds, EraseRun p nor info addr size s ret s' cmds ∧ ∀ c' ∈ cmds, c' = c := by
  have hrec := c.exec_erases (p := p) nor s
  have hok : (c.exec p.logged nor s).1 = 0 ↔ c.Succeeds p.logged nor s := c.exec_ok s
  rw [hx] at hrec hok
  by_cases hw : (norWriteEnable p.logged s).1 = 0
  · rw [if_pos hw] at hrec
    refine ⟨[c], ⟨hrec, ⟨hs, trivial⟩, ?_, hle, ?_, trivial⟩, fun _ => List.mem_singleton.1⟩
    · intro c' hc'
      rw [List.mem_singleton.1 hc']
      exact ha
    · exact ⟨fun h => (h0 h).elim, fun h => (h0 (hok.2 h.2.1)).elim⟩
  · rw [if_neg hw] at hrec
    refine ⟨[], ⟨hrec, trivial, fun _ hc' => (nomatch hc'), Nat.zero_le _, ?_, trivial⟩,
      fun _ hc' => (nomatch hc')⟩
    exact ⟨fun h => (h0 h).elim, fun h => (Nat.ne_of_lt hpos h.1).elim⟩

theorem EraseRun.cons {nor : NorFlash} {c : EraseCmd} (hs : c.start = addr)
    (ha : c.Allowed info) (hle : c.bytes nor ≤ size)
    (hx : c.exec p.logged nor s = (0, s₁))
    (h : EraseRun p nor info (addr + c.bytes nor) (size - c.bytes nor) s₁ ret s' cmds) :
    EraseRun p nor info addr size s ret s' (c :: cmds) := by
  have hok : c.Succeeds p.logged nor s := (c.exec_ok s).1 (by rw [hx])
  have hrec := c.exec_erases (p := p) nor s
  rw [hx, if_pos hok.1] at hrec
  have hsplit := Nat.add_sub_cancel' hle
  constructor
  · rw [h.record, hrec, List.append_assoc, List.map_cons, List.singleton_append]
  · exact ⟨hs, h.tiles⟩
  · intro c' hc'
    cases hc' with
    | head => exact ha
    | tail _ hc' => exact h.allowed c' hc'
  · rw [Tiling.total_cons, ← hsplit]
    exact Nat.add_le_add_left h.total_le _
  · rw [h.ok, Tiling.total_cons, EraseCmd.AllSucceed, hx]
    constructor
    · intro ⟨ht, hall⟩
      exact ⟨by rw [ht, hsplit], hok, hall⟩
    · rintro ⟨ht, -, hall⟩
      exact ⟨by rw [← ht, Nat.add_sub_cancel_left], hall⟩
  · cases cmds with
    | nil => trivial
    | cons c' cmds =>
      rw [List.dropLast_cons_cons, EraseCmd.AllSucceed, hx]
      exact ⟨hok, h.prefix_ok⟩

variable {cfg : Config} {nor : Nor (Logged δ)}

/-- The loop of `nor_erase` issues a run of blocks. -/
theorem norEraseLoop_exact (hc : cfg.writeLock = false) (hf : size ≤ fuel)
    (hlt : addr + size < 0x100000000)
    (h : norEraseLoop cfg p.logged nor info fuel addr size s = (ret, s')) :
    ∃ cmds, EraseRun p nor.toNorFlash info addr size s ret s' cmds ∧ .chip ∉ cmds ∧
      (cmds ≠ [] → addr % sz4K = 0) := by
  induction fuel generalizing addr size s with
  | zero =>
    have hz : size = 0 := Nat.le_zero.1 hf
    subst hz
    cases h
    exact ⟨[], .none ⟨fun _ => rfl, fun _ => rfl⟩, List.not_mem_nil, fun h => (h rfl).elim⟩
  | succ fuel ih =>
    rw [norEraseLoop] at h
    by_cases hz : size = 0
    · rw [if_pos hz] at h
      cases h
      exact ⟨[], .none ⟨fun _ => hz, fun _ => rfl⟩, List.not_mem_nil, fun h => (h rfl).elim⟩
    rw [if_neg hz] at h
    cases hcmd : eraseCmdFor info addr size with
    | none =>
      rw [hcmd] at h
      cases h
      exact ⟨[], .none ⟨fun h => absurd h (by decide), fun h => (hz h).elim⟩,
        List.not_mem_nil, fun h => (h rfl).elim⟩
    | some blk =>
      obtain ⟨hle, hal⟩ := eraseCmdFor_some hcmd
      have ha : (EraseCmd.blk blk addr).Allowed info := ⟨eraseCmdFor_erasesBy hcmd, hal⟩
      have h4K : addr % sz4K = 0 := by
        cases blk <;> simp only [EraseSize.bytes, sz64K, sz32K, sz4K] at hal ⊢ <;> omega
      have hpos := blk.bytes_pos
      rcases hx : norEraseBy cfg p.logged nor blk addr s with ⟨ret₁, s₁⟩
      rw [hcmd] at h
      dsimp only at h
      rw [hx] at h
      rw [norEraseBy_exec hc] at hx
      by_cases h0 : ret₁ = 0
      · subst h0
        rw [if_neg (not_not.2 rfl), u32_of_lt (by omega)] at h
        obtain ⟨cmds, hrun, hchip, -⟩ := ih (by omega) (by omega) h
        refine ⟨.blk blk addr :: cmds, hrun.cons rfl ha hle hx, ?_, fun _ => h4K⟩
        intro hmem
        cases hmem with
        | tail _ hmem => exact hchip hmem
      · rw [if_pos h0] at h
        cases h
        obtain ⟨cmds, hrun, honly⟩ := EraseRun.fails rfl ha hle (Nat.pos_of_ne_zero hz) hx h0
        refine ⟨cmds, hrun, ?_, fun _ => h4K⟩
        intro hmem
        cases honly _ hmem

/-- The blocks that the guards of the loop take from a range, if they match up to its end. -/
def blockPlan (info : NorInfo) : Nat → Nat → Nat → Option (List EraseCmd)
  | 0, _, size => if size = 0 then some [] else none
  | fuel + 1, addr, size =>
    if size = 0 then some []
    else
      match eraseCmdFor info addr size with
      | none => none
      | some blk =>
        (blockPlan info fuel (addr + blk.bytes) (size - blk.bytes)).map (.blk blk addr :: ·)

def erasePlan (nor : NorFlash) (info : NorInfo) (addr size : Nat) : Option (List EraseCmd) :=
  if addr = 0 ∧ size = nor.totalSize then some [.chip] else blockPlan info size addr size

/-- Where blocks of 4K may be erased, the guards match every aligned range. -/
theorem blockPlan_isSome (hinfo : info.erasesBy .blk4K = true) (ha : addr % sz4K = 0)
    (hs : size % sz4K = 0) (hf : size ≤ fuel) : (blockPlan info fuel addr size).isSome = true := by
  induction fuel generalizing addr size with
  | zero =>
    rw [blockPlan, if_pos (Nat.le_zero.1 hf)]
    rfl
  | succ fuel ih =>
    rw [blockPlan]
    by_cases hz : size = 0
    · rw [if_pos hz]
      rfl
    · rw [if_neg hz]
      cases hcmd : eraseCmdFor info addr size with
      | none =>
        have h4K : size ≥ sz4K := Nat.le_of_dvd (Nat.pos_of_ne_zero hz) (Nat.dvd_of_mod_eq_zero hs)
        rw [eraseCmdFor] at hcmd
        split at hcmd
        · cases hcmd
        · split at hcmd
          · cases hcmd
          · rw [if_pos ⟨h4K, ha, hinfo⟩] at hcmd
            cases hcmd
      | some blk =>
        obtain ⟨hle, -⟩ := eraseCmdFor_some hcmd
        have hblk : blk.bytes % sz4K = 0 := by cases blk <;> rfl
        have hpos := blk.bytes_pos
        dsimp only
        rw [Option.isSome_map]
        apply ih
        · rw [Nat.add_mod, ha, hblk]
          rfl
        · exact (Nat.mod_eq_zero_of_dvd (Nat.dvd_sub (Nat.dvd_of_mod_eq_zero hs)
            (Nat.dvd_of_mod_eq_zero hblk)))
        · omega

theorem norEraseLoop_planned (hc : cfg.writeLock = false) (hlt : addr + size < 0x100000000)
    (hplan : blockPlan info fuel addr size = some plan)
    (hall : EraseCmd.AllSucceed p.logged nor.toNorFlash plan s) :
    (norEraseLoop cfg p.logged nor info fuel addr size s).1 = 0 := by
  induction fuel generalizing addr size s plan with
  | zero =>
    rw [blockPlan] at hplan
    split at hplan
    · next hz => exact if_neg (not_not.2 hz)
    · cases hplan
  | succ fuel ih =>
    rw [blockPlan] at hplan
    rw [norEraseLoop]
    by_cases hz : size = 0
    · rw [if_pos hz]
    · rw [if_neg hz] at hplan ⊢
      cases hcmd : eraseCmdFor info addr size with
      | none =>
        rw [hcmd] at hplan
        cases hplan
      | some blk =>
        rw [hcmd] at hplan
        obtain ⟨rest, hrest, rfl⟩ := Option.map_eq_some_iff.1 hplan
        obtain ⟨hok, hall⟩ := hall
        obtain ⟨hle, -⟩ := eraseCmdFor_some hcmd
        have hret := (EraseCmd.exec_ok (.blk blk addr) s).2 hok
        dsimp only
        rw [norEraseBy_exec hc]
        rcases hx : (EraseCmd.blk blk addr).exec p.logged nor.toNorFlash s with ⟨ret, s₁⟩
        rw [hx] at hret hall
        dsimp only at hret hall ⊢
        rw [if_neg (not_not.2 hret), u32_of_lt (by omega)]
        exact ih (by omega) hrest hall

/-- `nor_erase` returns 0 on a plan whose commands succeed. -/
theorem norErase_planned (hc : cfg.writeLock = false) (hi : nor.info = some info)
    (htotal : nor.totalSize < 0x100000000) (hle : addr + size ≤ nor.totalSize)
    (hs : size % sz4K = 0) (hplan : erasePlan nor.toNorFlash info addr size = some plan)
    (hall : EraseCmd.AllSucceed p.logged nor.toNorFlash plan s) :
    (norErase cfg p.logged nor addr size s).1 = 0 := by
  rw [erasePlan] at hplan
  rw [norErase, hi]
  dsimp only
  rw [if_neg (not_not.2 hs), u32_of_lt (by omega), if_neg (Nat.not_lt.2 hle)]
  by_cases hchip : addr = 0 ∧ size = nor.totalSize
  · rw [if_pos hchip] at hplan ⊢
    cases hplan
    rw [norEraseAll_exec hc hi]
    exact (EraseCmd.exec_ok .chip s).2 hall.1
  · rw [if_neg hchip] at hplan ⊢
    exact norEraseLoop_planned hc (by omega) hplan hall

/-- `nor_erase` is exact: its erase commands tile a front part of the range, and it returns 0
exactly when they tile the whole range and each of them succeeds. A request that the guards match
up to its end, as they do with blocks of 4K, returns 0 where the commands for it succeed. -/
theorem norErase_exact (hc : cfg.writeLock = false) (hi : nor.info = some info)
    (hpos : 0 < nor.totalSize) (htotal : nor.totalSize < 0x100000000)
    (hle : addr + size ≤ nor.totalSize)
    (h : norErase cfg p.logged nor addr size s = (ret, s')) :
    (∃ cmds, EraseRun p nor.toNorFlash info addr size s ret s' cmds ∧
      cmds.Pairwise (fun c d => c.start + c.bytes nor.toNorFlash ≤ d.start) ∧
      (∀ c ∈ cmds, addr ≤ c.start ∧ c.start + c.bytes nor.toNorFlash ≤ addr + size) ∧
      (.chip ∈ cmds → cmds = [.chip] ∧ addr = 0 ∧ size = nor.totalSize) ∧
      (size ≠ 0 → addr % sz4K ≠ 0 ∨ size % sz4K ≠ 0 → cmds = [])) ∧
    (size % sz4K = 0 → ∀ plan, erasePlan nor.toNorFlash info addr size = some plan →
      EraseCmd.AllSucceed p.logged nor.toNorFlash plan s → ret = 0) ∧
    (info.erasesBy .blk4K = true → addr % sz4K = 0 → size % sz4K = 0 →
      (erasePlan nor.toNorFlash info addr size).isSome = true) := by
  refine ⟨?_, fun hs plan hplan hall => ?_, fun hinfo ha hs => ?_⟩
  rotate_left
  · have hret := norErase_planned hc hi htotal hle hs hplan hall
    rwa [h] at hret
  · rw [erasePlan]
    split
    · rfl
    · exact blockPlan_isSome hinfo ha hs (Nat.le_refl size)
  suffices hrun : ∃ cmds, EraseRun p nor.toNorFlash info addr size s ret s' cmds ∧
      (.chip ∈ cmds → cmds = [.chip] ∧ addr = 0 ∧ size = nor.totalSize) ∧
      (cmds ≠ [] → addr % sz4K = 0 ∧ size % sz4K = 0) by
    obtain ⟨cmds, hrun, hchip, h4K⟩ := hrun
    refine ⟨cmds, hrun, hrun.tiles.pairwise, ?_, hchip, ?_⟩
    · intro c hmem
      obtain ⟨hlo, hhi⟩ := hrun.tiles.mem hmem
      exact ⟨hlo, Nat.le_trans hhi (Nat.add_le_add_left hrun.total_le _)⟩
    · intro _ hmod
      by_contra hne
      obtain ⟨ha, hs⟩ := h4K hne
      exact hmod.elim (fun h => h ha) fun h => h hs
  rw [norErase, hi] at h
  dsimp only at h
  by_cases h4K : size % sz4K ≠ 0
  · rw [if_pos h4K] at h
    cases h
    have hz : size ≠ 0 := by
      intro hz
      rw [hz] at h4K
      exact h4K rfl
    exact ⟨[], .none ⟨fun h => absurd h (by decide), fun h => (hz h).elim⟩,
      fun h => (nomatch h), fun h => (h rfl).elim⟩
  rw [if_neg h4K, u32_of_lt (by omega), if_neg (Nat.not_lt.2 hle)] at h
  by_cases hall : addr = 0 ∧ size = nor.totalSize
  · rw [if_pos hall, norEraseAll_exec hc hi] at h
    obtain ⟨rfl, rfl⟩ := hall
    by_cases h0 : ret = 0
    · subst h0
      have hlast : EraseRun p nor.toNorFlash info (0 + nor.totalSize)
          (nor.totalSize - nor.totalSize) s' 0 s' [] :=
        .none ⟨fun _ => Nat.sub_self _, fun _ => rfl⟩
      exact ⟨[.chip], hlast.cons rfl trivial (Nat.le_refl _) h, fun _ => ⟨rfl, rfl, rfl⟩,
        fun _ => ⟨rfl, not_not.1 h4K⟩⟩
    · obtain ⟨cmds, hrun, honly⟩ :=
        EraseRun.fails (c := .chip) rfl trivial (Nat.le_refl nor.totalSize) hpos h h0
      refine ⟨cmds, hrun, ?_, fun _ => ⟨rfl, not_not.1 h4K⟩⟩
      intro hmem
      have hlen := hrun.total_le
      cases cmds with
      | nil => cases hmem
      | cons c cmds =>
        obtain rfl := honly c List.mem_cons_self
        cases cmds with
        | nil => exact ⟨rfl, rfl, rfl⟩
        | cons d cmds =>
          obtain rfl := honly d (List.mem_cons_of_mem _ List.mem_cons_self)
          simp only [Tiling.total_cons, EraseCmd.bytes] at hlen
          omega
  · rw [if_neg hall] at h
    obtain ⟨cmds, hrun, hchip, ha⟩ := norEraseLoop_exact hc (Nat.le_refl _) (by omega) h
    exact ⟨cmds, hrun, fun h => (hchip h).elim, fun hne => ⟨ha hne, not_not.1 h4K⟩⟩

end

/-- A port on which every transfer succeeds and every status read shows WEL. -/
def readyPort : SpiPort Unit where
  halSpiXfer _ s := ((0, [0, norSrBitWel]), s)
  mdelay _ s := s

def bareW25q64jv : Nor (Logged Unit) := { NorFlash.serial w25q64jv sz4K with factory := none }

/-- A range of a 4K, a 32K and a 64K block is erased. -/
theorem norErase_exact_w25q64jv :
    let r := norErase ⟨false, false, true⟩ readyPort.logged bareW25q64jv 0x7000 0x19000 ⟨(), []⟩
    r.1 = 0 ∧ ∃ cmds, cmds ≠ [] ∧
      EraseRun readyPort bareW25q64jv.toNorFlash w25q64jv 0x7000 0x19000 ⟨(), []⟩ r.1 r.2 cmds ∧
      cmds.Pairwise (fun c d => c.start + c.bytes bareW25q64jv.toNorFlash ≤ d.start) ∧
      ∀ c ∈ cmds, 0x7000 ≤ c.start ∧
        c.start + c.bytes bareW25q64jv.toNorFlash ≤ 0x7000 + 0x19000 := by
  intro r
  have hout : norErase ⟨false, false, true⟩ readyPort.logged bareW25q64jv 0x7000 0x19000 ⟨(), []⟩ =
    (r.1, r.2) := rfl
  obtain ⟨⟨cmds, hrun, hpair, hin, -, -⟩, -, -⟩ :=
    norErase_exact rfl rfl (by decide) (by decide) (by decide) hout
  have hret : r.1 = 0 := by decide +kernel
  refine ⟨hret, cmds, ?_, hrun, hpair, hin⟩
  rintro rfl
  exact absurd (hrun.ok.1 hret).1 (by decide)

end D1Flash
