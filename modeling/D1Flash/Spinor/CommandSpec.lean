import D1Flash.Spinor.ChipSpec

namespace D1Flash
open NorArray (erase program slice)
set_option autoImplicit true

theorem takeAddr_cmdAddr (hw : nor.addrWidth = 3 ∨ nor.addrWidth = 4) (cmd : Byte) (addr : Nat)
    (data : List Byte) :
    ∃ bs, cmdAddr nor cmd addr ++ data = cmd :: bs ∧
      takeAddr nor.addrWidth bs = some (addr % 256 ^ nor.addrWidth, data) := by
  unfold cmdAddr
  rcases hw with hw | hw
  · rw [if_neg (by rw [hw]; decide), hw]
    refine ⟨.ofNat (addr >>> 16) :: .ofNat (addr >>> 8) :: .ofNat addr :: data, rfl, ?_⟩
    simp only [takeAddr, Option.map_some, UInt8.toNat_ofNat', Nat.shiftRight_eq_div_pow,
      Option.some.injEq, Prod.mk.injEq, and_true]
    omega
  · rw [if_pos hw, hw]
    refine ⟨.ofNat (addr >>> 24) :: .ofNat (addr >>> 16) :: .ofNat (addr >>> 8) :: .ofNat addr ::
      data, rfl, ?_⟩
    simp only [takeAddr, Option.map_some, UInt8.toNat_ofNat', Nat.shiftRight_eq_div_pow,
      Option.some.injEq, Prod.mk.injEq, and_true]
    omega

/-- A command cut short carries no address or carries the same one. -/
theorem takeAddr_take (h : takeAddr n bs = some (a, data)) (cut : Nat) :
    takeAddr n (bs.take cut) = none ∨
      ∃ k ≤ data.length, takeAddr n (bs.take cut) = some (a, data.take k) := by
  induction n generalizing bs a cut with
  | zero =>
    obtain ⟨rfl, rfl⟩ := Prod.mk.inj (Option.some.inj h)
    refine .inr ⟨min cut bs.length, Nat.min_le_right _ _, ?_⟩
    rw [takeAddr, List.take_eq_take_min]
  | succ n ih =>
    cases bs with
    | nil => cases h
    | cons b bs =>
      cases cut with
      | zero => exact .inl rfl
      | succ cut =>
        simp only [takeAddr, Option.map_eq_some_iff, Prod.mk.injEq] at h
        obtain ⟨⟨a', rest⟩, h', rfl, rfl⟩ := h
        rcases ih h' cut with hn | ⟨k, hk, hs⟩
        · exact .inl (by simp only [List.take_succ_cons, takeAddr, hn, Option.map_none])
        · exact .inr ⟨k, hk, by simp only [List.take_succ_cons, takeAddr, hs, Option.map_some]⟩

theorem pageProgram_eq (h : a % norPageSize + d.length ≤ norPageSize) :
    pageProgram m a d = program m a d := by
  induction d generalizing m a with
  | nil => exact (NorArray.program_nil m).symm
  | cons b d ih =>
    have hone : (fun i => if i = a then m i &&& b else m i) = program m a [b] := by
      funext i
      by_cases hi : i = a
      · subst hi
        rw [if_pos rfl, NorArray.program_inside m (Nat.le_refl _), Nat.sub_self]
        rfl
      · rw [if_neg hi, NorArray.program_outside m (by simp only [List.length_singleton]; omega)]
    have happ : program (program m a [b]) (a + 1) d = program m a (b :: d) :=
      NorArray.program_append m
    rw [pageProgram, hone, ← happ]
    simp only [List.length_cons, norPageSize] at h
    cases d with
    | nil => rw [pageProgram, NorArray.program_nil]
    | cons b' d =>
      simp only [List.length_cons] at h
      have hn : nextInPage a = a + 1 := by
        simp only [nextInPage, norPageSize]
        omega
      rw [hn]
      refine ih ?_
      simp only [List.length_cons, norPageSize]
      omega

namespace NorChip

/-- The cell an address in a command of that width means. -/
def decode (c : NorChip) (width addr : Nat) : Nat := addr % 256 ^ width % c.size

theorem decode_of_lt (c : NorChip) (h : addr < c.size) (hs : c.size ≤ 256 ^ width) :
    c.decode width addr = addr := by
  rw [decode, Nat.mod_eq_of_lt (Nat.lt_of_lt_of_le h hs), Nat.mod_eq_of_lt h]

theorem execIdle_program (c : NorChip) (ht : takeAddr w bs = some (a, data))
    (hw : c.wel = true) :
    (c.execIdle (.program w) bs n).2 = c.start (pageProgram c.mem (a % c.size) data) := by
  simp only [execIdle, ht, hw]

theorem execIdle_program_none (c : NorChip) (ht : takeAddr w bs = none) :
    (c.execIdle (.program w) bs n).2 = c := by
  simp only [execIdle, ht]

theorem execIdle_erase (c : NorChip) (ht : takeAddr w bs = some (a, [])) (hw : c.wel = true) :
    (c.execIdle (.erase blk w) bs n).2 = c.start (erase c.mem (a % c.size / blk * blk) blk) := by
  simp only [execIdle, ht, hw]

theorem execIdle_erase_none (c : NorChip) (ht : takeAddr w bs = none) :
    (c.execIdle (.erase blk w) bs n).2 = c := by
  simp only [execIdle, ht]

theorem execIdle_read (c : NorChip) (ht : takeAddr w bs = some (a, data)) :
    c.execIdle (.read w) bs n = ((List.range n).map fun j => c.mem ((a + j) % c.size), c) := by
  simp only [execIdle, ht]

/-- A program command, whole or cut short, programs a prefix of its data. -/
theorem exec_program (c : NorChip) (hop : chipOp cmd = .program w)
    (ht : takeAddr w bs = some (a, data)) (hb : c.busy = 0) (hw : c.wel = true)
    (hp : a % c.size % norPageSize + data.length ≤ norPageSize) (cut : Nat) :
    ∃ k ≤ data.length,
      (c.exec ((cmd :: bs).take cut) n).2.mem = program c.mem (a % c.size) (data.take k) := by
  have hne : chipOp cmd ≠ .status := by rw [hop]; nofun
  cases cut with
  | zero => exact ⟨0, Nat.zero_le _, (NorArray.program_nil c.mem).symm⟩
  | succ cut =>
    rw [List.take_succ_cons, c.exec_idle hne hb, hop]
    rcases takeAddr_take ht cut with hn | ⟨k, hk, hs⟩
    · exact ⟨0, Nat.zero_le _, by
        rw [c.execIdle_program_none hn, List.take_zero, NorArray.program_nil]⟩
    · refine ⟨k, hk, ?_⟩
      rw [c.execIdle_program hs hw, start, pageProgram_eq]
      rw [List.length_take]
      omega

theorem exec_program_whole (c : NorChip) (hop : chipOp cmd = .program w)
    (ht : takeAddr w bs = some (a, data)) (hb : c.busy = 0) (hw : c.wel = true)
    (hp : a % c.size % norPageSize + data.length ≤ norPageSize) :
    (c.exec (cmd :: bs) n).2.mem = program c.mem (a % c.size) data := by
  have hne : chipOp cmd ≠ .status := by rw [hop]; nofun
  rw [c.exec_idle hne hb, hop, c.execIdle_program ht hw, start, pageProgram_eq hp]

/-- An erase command, whole or cut short, erases its block or does nothing. -/
theorem exec_erase (c : NorChip) (hop : chipOp cmd = .erase blk w)
    (ht : takeAddr w bs = some (a, [])) (hb : c.busy = 0) (hw : c.wel = true) (cut : Nat) :
    (c.exec ((cmd :: bs).take cut) n).2.mem = c.mem ∨
      (c.exec ((cmd :: bs).take cut) n).2.mem = erase c.mem (a % c.size / blk * blk) blk := by
  have hne : chipOp cmd ≠ .status := by rw [hop]; nofun
  cases cut with
  | zero => exact .inl rfl
  | succ cut =>
    rw [List.take_succ_cons, c.exec_idle hne hb, hop]
    rcases takeAddr_take ht cut with hn | ⟨k, -, hs⟩
    · exact .inl (by rw [c.execIdle_erase_none hn])
    · rw [List.take_nil] at hs
      exact .inr (by rw [c.execIdle_erase hs hw, start])

theorem exec_erase_whole (c : NorChip) (hop : chipOp cmd = .erase blk w)
    (ht : takeAddr w bs = some (a, [])) (hb : c.busy = 0) (hw : c.wel = true) :
    (c.exec (cmd :: bs) n).2.mem = erase c.mem (a % c.size / blk * blk) blk := by
  have hne : chipOp cmd ≠ .status := by rw [hop]; nofun
  rw [c.exec_idle hne hb, hop, c.execIdle_erase ht hw, start]

theorem exec_read (c : NorChip) (hop : chipOp cmd = .read w) (tx : List Byte) (cut : Nat)
    (n : Nat) : (c.exec ((cmd :: tx).take cut) n).2 = c := by
  have hne : chipOp cmd ≠ .status := by rw [hop]; nofun
  cases cut with
  | zero => rfl
  | succ cut =>
    rw [List.take_succ_cons]
    by_cases hb : c.busy = 0
    · rw [c.exec_idle hne hb, hop]
      unfold execIdle
      dsimp only
      split <;> rfl
    · rw [c.exec_busy hne hb]

theorem exec_eraseChip (c : NorChip) (hb : c.busy = 0) (hw : c.wel = true) :
    (c.exec [norCmdEraseChip] n).2.mem = erase c.mem 0 c.size := by
  rw [c.exec_idle (by decide) hb, show chipOp norCmdEraseChip = .eraseChip by decide]
  simp only [execIdle, hw, if_true, start]

end NorChip

theorem SpiBus.Kept.drives {nor : NorFlash} (h : SpiBus.Kept b b') (hd : nor.Drives b.chip) :
    nor.Drives b'.chip :=
  { hd with
    fits := h.size ▸ hd.fits
    size_lt := h.size ▸ hd.size_lt
    totalSize := hd.totalSize.trans h.size.symm }

end D1Flash
