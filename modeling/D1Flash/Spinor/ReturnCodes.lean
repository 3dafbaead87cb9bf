import D1Flash.Lib.Plans
import D1Flash.Lib.Tiling
import D1Flash.Spinor.Chip
import D1Flash.Spinor.Core

namespace D1Flash
open Plans (run Succeeds sending)
set_option autoImplicit true

/-- What of a request lies in one page, and how much of the request begins with it. -/
structure Piece where
  addr : Nat
  len : Nat
  left : Nat

/-- The pages of a request, in order. -/
def pieces : Nat → Nat → Nat → List Piece
  | 0, _, _ => []
  | fuel + 1, addr, len =>
    if len = 0 then []
    else
      let n := min (norPageSize - addr % norPageSize) len
      ⟨addr, n, len⟩ :: pieces fuel (addr + n) (len - n)

variable (cfg : Config) (p : SpiPort δ) (nor : Nor δ)

def readPiece (x : Piece) : δ → (Int × List Byte) × δ :=
  norTransfer p nor.rCmdSlen (cmdAddr nor.toNorFlash nor.cmdRead x.addr) true x.len

/-- What a read asks of the chip: that it is ready, then its pieces. -/
def readPlan (addr len : Nat) : List (δ → (Int × List Byte) × δ) :=
  sending [] (norWaitReady p 0 500) :: (pieces len addr len).map (readPiece p nor)

def Piece.data (x : Piece) (buf : List Byte) : List Byte :=
  (buf.drop (buf.length - x.left)).take x.len

def writePiece (buf : List Byte) (x : Piece) : List (δ → (Int × List Byte) × δ) :=
  (if cfg.writeLock then [sending [] (norWrUnlock nor x.addr x.left)] else []) ++
  [sending [] (norWriteEnable p),
    sending (x.data buf)
      (norSend p nor.wCmdSlen (cmdAddr nor.toNorFlash nor.cmdWrite x.addr ++ x.data buf)),
    sending [] (norWaitReady p 0 (100 * 1000))] ++
  (if cfg.writeLock then [sending [] (norWrLockAll p)] else [])

def writePlan (addr : Nat) (buf : List Byte) : List (δ → (Int × List Byte) × δ) :=
  sending [] (norWaitReady p 0 500) ::
    (pieces buf.length addr buf.length).flatMap (writePiece cfg p nor buf)

theorem pieces_tile (hf : len ≤ fuel) :
    Tiling.From Piece.addr Piece.len addr (pieces fuel addr len) ∧
      Tiling.total Piece.len (pieces fuel addr len) = len := by
  induction fuel generalizing addr len with
  | zero =>
    obtain rfl := Nat.le_zero.1 hf
    exact ⟨trivial, rfl⟩
  | succ fuel ih =>
    rw [pieces]
    by_cases hz : len = 0
    · rw [if_pos hz]
      exact ⟨trivial, hz.symm⟩
    · rw [if_neg hz]
      have hmod : addr % norPageSize < norPageSize := Nat.mod_lt _ (by decide)
      extract_lets n
      have hn : 0 < n ∧ n ≤ len := by omega
      have hleft : len - n ≤ fuel := by omega
      obtain ⟨hfrom, htotal⟩ := @ih (len - n) (addr + n) hleft
      refine ⟨⟨rfl, hfrom⟩, ?_⟩
      rw [Tiling.total_cons, htotal]
      exact Nat.add_sub_cancel' hn.2

variable {p nor}

theorem norWaitReady_ret (ms times : Nat) (s : δ) :
    (norWaitReady p ms times s).1 = 0 ∨ (norWaitReady p ms times s).1 = -eBusy := by
  rw [norWaitReady]
  split
  · exact .inl rfl
  · split
    · exact .inl rfl
    · dsimp only
      split
      · exact .inl rfl
      · exact .inr rfl

theorem norReadLoop_run (ha : addr + len < 0x100000000) (hf : len ≤ fuel)
    (hr : len = 0 → ret₀ = 0) (buf : List Byte) (s : δ) :
    norReadLoop p nor fuel addr len ret₀ buf s =
      (((run ((pieces fuel addr len).map (readPiece p nor)) s).1.1,
        buf ++ (run ((pieces fuel addr len).map (readPiece p nor)) s).1.2),
        (run ((pieces fuel addr len).map (readPiece p nor)) s).2) := by
  induction fuel generalizing addr len ret₀ buf s with
  | zero =>
    obtain rfl := Nat.le_zero.1 hf
    rw [norReadLoop, hr rfl, pieces, List.map_nil, run, List.append_nil]
  | succ fuel ih =>
    rw [norReadLoop, pieces]
    by_cases hz : len = 0
    · rw [if_pos hz, if_pos hz, hr hz, List.map_nil, run, List.append_nil]
    · rw [if_neg hz, if_neg hz, inPage_eq (by omega)]
      have hmod : addr % norPageSize < norPageSize := Nat.mod_lt _ (by decide)
      dsimp only
      generalize hn : min (norPageSize - addr % norPageSize) len = n
      have hfit : ¬ n > norPageSize := by omega
      have hdo : norReadDo p nor addr n s = readPiece p nor ⟨addr, n, len⟩ s := if_neg hfit
      rw [hdo, List.map_cons]
      rcases h : readPiece p nor ⟨addr, n, len⟩ s with ⟨⟨ret, rx⟩, s₁⟩
      dsimp only
      by_cases h0 : ret = 0
      · subst h0
        rw [if_neg (not_not.2 rfl), u32_of_lt (by omega), Plans.run_cons_ok h,
          ih (by omega) (by omega) (fun _ => rfl), List.append_assoc]
      · rw [if_pos h0, Plans.run_cons_fail h h0, List.append_nil]

theorem norRead_run (hi : nor.info.isSome) (ha : addr + len < 0x100000000) (hpos : len ≠ 0)
    (s : δ) : norRead p nor addr len s = run (readPlan p nor addr len) s := by
  obtain ⟨info, hinfo⟩ := Option.isSome_iff_exists.1 hi
  rw [norRead, hinfo, readPlan]
  have hret := norWaitReady_ret (p := p) 0 500 s
  rcases h : norWaitReady p 0 500 s with ⟨ret, s₁⟩
  have hstep : sending [] (norWaitReady p 0 500) s = ((ret, ([] : List Byte)), s₁) := by
    rw [sending, h]
  rw [h] at hret
  dsimp only at hret ⊢
  by_cases h0 : ret = 0
  · subst h0
    rw [if_neg (not_not.2 rfl), Plans.run_cons_ok hstep,
      norReadLoop_run ha (Nat.le_refl _) fun hz => (hpos hz).elim]
  · rw [if_pos h0, Plans.run_cons_fail hstep h0, hret.resolve_left h0]

/-- What the loop of a write does for one page. -/
def writeTurn (cfg : Config) (p : SpiPort δ) (nor : Nor δ) (x : Piece) (data : List Byte) (s : δ) :
    Int × δ :=
  match if cfg.writeLock then norWrUnlock nor x.addr x.left s else (0, s) with
  | (ret, s) =>
    if ret ≠ 0 then (ret, s)
    else
      match norWriteDo p nor x.addr data s with
      | (ret, s) =>
        if ret ≠ 0 then (ret, s) else if cfg.writeLock then norWrLockAll p s else (0, s)

theorem norWriteLoop_turn (hz : buf.length ≠ 0) (hn : inPage addr buf.length = n) (ret₀ : Int)
    (s : δ) :
    norWriteLoop cfg p nor (fuel + 1) addr buf ret₀ s =
      match writeTurn cfg p nor ⟨addr, n, buf.length⟩ (buf.take n) s with
      | (ret, s) =>
        if ret ≠ 0 then (ret, s)
        else norWriteLoop cfg p nor fuel (u32 (addr + n)) (buf.drop n) ret s := by
  rw [norWriteLoop, if_neg hz, hn, writeTurn]
  dsimp only
  rcases if cfg.writeLock = true then norWrUnlock nor addr buf.length s else (0, s) with ⟨ret₁, s₁⟩
  by_cases h1 : ret₁ = 0
  · simp only [h1, ne_eq, not_true_eq_false, if_false]
    rcases norWriteDo p nor addr (buf.take n) s₁ with ⟨ret₂, s₂⟩
    by_cases h2 : ret₂ = 0
    · simp only [h2, not_true_eq_false, if_false]
    · simp only [h2, not_false_eq_true, if_true]
  · simp only [h1, ne_eq, not_false_eq_true, if_true]

variable (p nor) in
theorem norWriteDo_run (hfit : ¬ data.length > norPageSize) (addr : Nat)
    (rest : List (δ → (Int × List Byte) × δ)) (hrest : ∀ s, (run rest s).1.2 = []) (s : δ) :
    let steps := [sending [] (norWriteEnable p),
      sending data (norSend p nor.wCmdSlen (cmdAddr nor.toNorFlash nor.cmdWrite addr ++ data)),
      sending [] (norWaitReady p 0 (100 * 1000))] ++ rest
    ((run steps s).1.1, (run steps s).2) =
        (match norWriteDo p nor addr data s with
        | (ret, s) => if ret ≠ 0 then (ret, s) else ((run rest s).1.1, (run rest s).2)) ∧
      ((run steps s).1.1 = 0 → (run steps s).1.2 = data) := by
  rw [norWriteDo, if_neg hfit]
  dsimp only [List.cons_append, List.nil_append]
  rcases h₁ : norWriteEnable p s with ⟨ret₁, s₁⟩
  rw [Plans.run_sending [] h₁]
  by_cases h01 : ret₁ = 0
  swap
  · simp only [h01, ne_eq, not_false_eq_true, if_true, false_implies, and_self]
  subst h01
  rcases h₂ : norSend p nor.wCmdSlen (cmdAddr nor.toNorFlash nor.cmdWrite addr ++ data) s₁
    with ⟨ret₂, s₂⟩
  rw [Plans.run_sending data h₂]
  by_cases h02 : ret₂ = 0
  swap
  · simp only [h02, ne_eq, not_true_eq_false, not_false_eq_true, if_true, if_false, false_implies,
      and_self]
  subst h02
  rcases h₃ : norWaitReady p 0 (100 * 1000) s₂ with ⟨ret₃, s₃⟩
  rw [Plans.run_sending [] h₃]
  by_cases h03 : ret₃ = 0
  · simp only [h03, hrest, ne_eq, not_true_eq_false, if_false, List.nil_append, List.append_nil,
      implies_true, and_self]
  · simp only [h03, ne_eq, not_true_eq_false, not_false_eq_true, if_true, if_false, false_implies,
      and_self]

variable (p nor) in
theorem writePiece_run {x : Piece} {whole : List Byte}
    (hfit : ¬ (x.data whole).length > norPageSize) (s : δ) :
    let steps := writePiece cfg p nor whole x
    ((run steps s).1.1, (run steps s).2) = writeTurn cfg p nor x (x.data whole) s ∧
      ((run steps s).1.1 = 0 → (run steps s).1.2 = x.data whole) := by
  unfold writePiece writeTurn
  cases hc : cfg.writeLock with
  | false =>
    simp only [Bool.false_eq_true, if_false, List.nil_append, ne_eq, not_true_eq_false]
    exact norWriteDo_run p nor hfit x.addr [] (fun _ => rfl) s
  | true =>
    simp only [if_true, List.cons_append, List.nil_append]
    rcases h : norWrUnlock nor x.addr x.left s with ⟨ret, s₁⟩
    rw [Plans.run_sending [] h]
    by_cases h0 : ret = 0
    · subst h0
      obtain ⟨hrun, hdata⟩ := norWriteDo_run p nor hfit x.addr [sending [] (norWrLockAll p)]
        (fun s => by rw [Plans.run_single]) s₁
      simp only [Plans.run_single] at hrun
      rw [if_neg (not_not.2 rfl)]
      exact ⟨hrun, hdata⟩
    · simp only [h0, ne_eq, not_false_eq_true, if_true, false_implies, and_self]

theorem norWriteLoop_run {whole : List Byte} (ha : addr + buf.length < 0x100000000)
    (hf : buf.length ≤ fuel) (hb : buf = whole.drop (whole.length - buf.length))
    (hle : buf.length ≤ whole.length) (hr : buf.length = 0 → ret₀ = 0) (s : δ) :
    let steps := (pieces fuel addr buf.length).flatMap (writePiece cfg p nor whole)
    norWriteLoop cfg p nor fuel addr buf ret₀ s = ((run steps s).1.1, (run steps s).2) ∧
      ((run steps s).1.1 = 0 → (run steps s).1.2 = buf) := by
  induction fuel generalizing addr buf ret₀ s with
  | zero =>
    have hn : buf = [] := List.length_eq_zero_iff.1 (Nat.le_zero.1 hf)
    subst hn
    rw [norWriteLoop, hr rfl]
    exact ⟨rfl, fun _ => rfl⟩
  | succ fuel ih =>
    by_cases hz : buf.length = 0
    · have hn : buf = [] := List.length_eq_zero_iff.1 hz
      rw [norWriteLoop, pieces, if_pos hz, if_pos hz, hr hz, hn]
      exact ⟨rfl, fun _ => rfl⟩
    · have hmod : addr % norPageSize < norPageSize := Nat.mod_lt _ (by decide)
      generalize hn : min (norPageSize - addr % norPageSize) buf.length = n
      have hin : inPage addr buf.length = n := (inPage_eq (by omega)).trans hn
      have hdata : Piece.data ⟨addr, n, buf.length⟩ whole = buf.take n := by
        rw [Piece.data, ← hb]
      have hfit : ¬ (Piece.data ⟨addr, n, buf.length⟩ whole).length > norPageSize := by
        rw [hdata, List.length_take]
        omega
      have hleft : (buf.drop n).length = buf.length - n := List.length_drop
      have hsuffix : buf.drop n = whole.drop (whole.length - (buf.drop n).length) := by
        rw [hleft]
        conv_lhs => rw [hb, List.drop_drop]
        congr 1
        omega
      rw [norWriteLoop_turn cfg hz hin, pieces, if_neg hz]
      dsimp only
      rw [hn, List.flatMap_cons]
      obtain ⟨hturn, hsent⟩ := writePiece_run cfg p nor hfit s
      rw [hdata] at hturn hsent
      rw [← hturn]
      dsimp only
      by_cases h0 : (run (writePiece cfg p nor whole ⟨addr, n, buf.length⟩) s).1.1 = 0
      · rw [if_neg (not_not.2 h0), Plans.run_append_ok h0, u32_of_lt (by omega), h0]
        have ha' : addr + n + (buf.drop n).length < 0x100000000 := by omega
        have hr' : (buf.drop n).length = 0 → (0 : Int) = 0 := fun _ => rfl
        obtain ⟨hloop, hrest⟩ := ih ha' (by omega) hsuffix (by omega) hr'
          (run (writePiece cfg p nor whole ⟨addr, n, buf.length⟩) s).2
        rw [hleft] at hloop hrest
        refine ⟨hloop, fun hr => ?_⟩
        rw [hsent h0, hrest hr, List.take_append_drop]
      · rw [if_pos h0, Plans.run_append_fail h0]
        exact ⟨rfl, fun h => (h0 h).elim⟩

theorem norWrite_run (hi : nor.info.isSome) (ha : addr + buf.length < 0x100000000)
    (hne : buf ≠ []) (s : δ) :
    norWrite cfg p nor addr buf s =
        ((run (writePlan cfg p nor addr buf) s).1.1, (run (writePlan cfg p nor addr buf) s).2) ∧
      ((run (writePlan cfg p nor addr buf) s).1.1 = 0 →
        (run (writePlan cfg p nor addr buf) s).1.2 = buf) := by
  obtain ⟨info, hinfo⟩ := Option.isSome_iff_exists.1 hi
  rw [norWrite, hinfo, writePlan]
  have hret := norWaitReady_ret (p := p) 0 500 s
  rcases h : norWaitReady p 0 500 s with ⟨ret, s₁⟩
  rw [h] at hret
  rw [Plans.run_sending [] h]
  dsimp only at hret ⊢
  by_cases h0 : ret = 0
  · subst h0
    have hpos : buf.length = 0 → (-eBusy : Int) = 0 := fun hz =>
      (hne (List.length_eq_zero_iff.1 hz)).elim
    obtain ⟨hloop, hsent⟩ := norWriteLoop_run cfg ha (Nat.le_refl _)
      (by rw [Nat.sub_self, List.drop_zero]) (Nat.le_refl _) hpos s₁
    rw [if_neg (not_not.2 rfl), if_neg (not_not.2 rfl)]
    exact ⟨hloop, hsent⟩
  · rw [if_pos h0, if_pos h0, hret.resolve_left h0]
    exact ⟨rfl, fun h => absurd (show (-eBusy : Int) = 0 from h) (by decide)⟩

/-- A request of no byte fails, though it asks for nothing but a chip that is ready. -/
theorem empty_fails (hi : nor.info.isSome) (addr : Nat) (s : δ) :
    (norRead p nor addr 0 s).1.1 ≠ 0 ∧ (norWrite cfg p nor addr [] s).1 ≠ 0 := by
  obtain ⟨info, hinfo⟩ := Option.isSome_iff_exists.1 hi
  rw [norRead, norWrite, hinfo]
  have hbusy : (-eBusy : Int) ≠ 0 := by decide
  dsimp only
  constructor
  · split
    · exact hbusy
    · exact hbusy
  · split
    · exact hbusy
    · exact hbusy

/-- A transfer that succeeds gives the bytes it was asked for. -/
def SpiPort.Fills (p : SpiPort δ) : Prop :=
  ∀ t s, (p.halSpiXfer t s).1.1 = 0 → (p.halSpiXfer t s).1.2.length = t.rxLen

theorem readPiece_length (hp : p.Fills) {x : Piece} (h : readPiece p nor x s = ((0, rx), s')) :
    rx.length = x.len := by
  unfold readPiece norTransfer at h
  have hlen := hp _ _ (by rw [h])
  rw [h] at hlen
  exact hlen

theorem readPieces_length (hp : p.Fills) (xs : List Piece) (s : δ)
    (h0 : (run (xs.map (readPiece p nor)) s).1.1 = 0) :
    (run (xs.map (readPiece p nor)) s).1.2.length = Tiling.total Piece.len xs := by
  induction xs generalizing s with
  | nil => rfl
  | cons x xs ih =>
    rw [List.map_cons] at h0 ⊢
    rcases h : readPiece p nor x s with ⟨⟨ret, rx⟩, s'⟩
    by_cases hr : ret = 0
    · subst hr
      rw [Plans.run_cons_ok h] at h0 ⊢
      rw [List.length_append, readPiece_length hp h, ih s' h0, Tiling.total_cons]
    · rw [Plans.run_cons_fail h hr] at h0
      exact (hr h0).elim

theorem readPlan_length (hp : p.Fills) (addr len : Nat) (s : δ)
    (h0 : (run (readPlan p nor addr len) s).1.1 = 0) :
    (run (readPlan p nor addr len) s).1.2.length = len := by
  rw [readPlan] at h0 ⊢
  rcases h : norWaitReady p 0 500 s with ⟨ret, s₁⟩
  rw [Plans.run_sending [] h] at h0 ⊢
  by_cases hr : ret = 0
  · rw [if_neg (not_not.2 hr)] at h0 ⊢
    rw [List.nil_append, readPieces_length hp _ s₁ h0]
    exact (pieces_tile (Nat.le_refl len)).2
  · rw [if_pos hr] at h0
    exact (hr h0).elim

/-- The result of a read and of a write is 0 exactly when each of its transfers and waits succeeds,
and its bytes are then transferred, but for requests of no byte: these fail on a chip that is
ready. -/
theorem norReadWrite_returns (hi : nor.info.isSome) (hsize : nor.totalSize < 0x100000000)
    {data : List Byte} (hle : addr + data.length ≤ nor.totalSize) (s : δ) :
    (((norRead p nor addr data.length s).1.1 = 0 ↔
          Succeeds (readPlan p nor addr data.length) s) ∧
        ((norRead p nor addr data.length s).1.1 = 0 → p.Fills →
          (norRead p nor addr data.length s).1.2.length = data.length) ∧
        ((norWrite cfg p nor addr data s).1 = 0 ↔ Succeeds (writePlan cfg p nor addr data) s) ∧
        ((norWrite cfg p nor addr data s).1 = 0 →
          (norWrite cfg p nor addr data s).2 = (run (writePlan cfg p nor addr data) s).2 ∧
            (run (writePlan cfg p nor addr data) s).1.2 = data)) ↔
      data ≠ [] ∨ (norWaitReady p 0 500 s).1 ≠ 0 := by
  have ha : addr + data.length < 0x100000000 := Nat.lt_of_le_of_lt hle hsize
  by_cases hne : data = []
  · subst hne
    obtain ⟨hread, hwrite⟩ := empty_fails cfg (p := p) hi addr s
    have hplan : Succeeds (readPlan p nor addr 0) s ↔ (norWaitReady p 0 500 s).1 = 0 := by
      rw [readPlan, Succeeds, sending]
      exact ⟨fun h => h.1, fun h => ⟨h, trivial⟩⟩
    have hplan' : Succeeds (writePlan cfg p nor addr []) s ↔ (norWaitReady p 0 500 s).1 = 0 :=
      hplan
    rw [List.length_nil, hplan, hplan']
    constructor
    · rintro ⟨hiff, -⟩
      exact .inr fun h0 => hread (hiff.2 h0)
    · intro h
      have hwait := h.resolve_left fun hne => hne rfl
      exact ⟨⟨fun h => (hread h).elim, fun h => (hwait h).elim⟩, fun h => (hread h).elim,
        ⟨fun h => (hwrite h).elim, fun h => (hwait h).elim⟩, fun h => (hwrite h).elim⟩
  · obtain ⟨hwrite, hsent⟩ := norWrite_run cfg (p := p) hi ha hne s
    have hpos : data.length ≠ 0 := fun hz => hne (List.length_eq_zero_iff.1 hz)
    rw [norRead_run hi ha hpos s, hwrite]
    refine ⟨fun _ => .inl hne, fun _ => ⟨Plans.run_eq_zero_iff s, ?_, Plans.run_eq_zero_iff s, ?_⟩⟩
    · intro h0 hp
      exact readPlan_length hp addr data.length s h0
    · intro h0
      exact ⟨rfl, hsent h0⟩

/-- A driver of a w25q64jv on a board where every transfer goes through. -/
def steadyPort : SpiPort Unit where
  halSpiXfer t s := ((0, List.replicate t.rxLen norSrBitWel), s)
  mdelay _ s := s

def steadyNor : Nor Unit := { NorFlash.serial w25q64jv norBlkSize with factory := none }

/-- A read of no byte from a chip that is ready fails. -/
theorem norRead_empty :
    ¬ ∀ addr len, addr + len ≤ steadyNor.totalSize →
      ((norRead steadyPort steadyNor addr len ()).1.1 = 0 ↔
        Succeeds (readPlan steadyPort steadyNor addr len) ()) := by
  intro h
  have hplan : (run (readPlan steadyPort steadyNor 0 0) ()).1.1 = 0 := by decide +kernel
  have hread := (h 0 0 (by decide)).2 ((Plans.run_eq_zero_iff ()).1 hplan)
  revert hread
  decide +kernel

theorem norReadWrite_returns_steady :
    (((norRead steadyPort steadyNor 0x1FE 4 ()).1.1 = 0 ↔
          Succeeds (readPlan steadyPort steadyNor 0x1FE 4) ()) ∧
        ((norRead steadyPort steadyNor 0x1FE 4 ()).1.1 = 0 → steadyPort.Fills →
          (norRead steadyPort steadyNor 0x1FE 4 ()).1.2.length = 4) ∧
        ((norWrite ⟨false, false, true⟩ steadyPort steadyNor 0x1FE [1, 2, 3, 4] ()).1 = 0 ↔
          Succeeds (writePlan ⟨false, false, true⟩ steadyPort steadyNor 0x1FE [1, 2, 3, 4]) ()) ∧
        ((norWrite ⟨false, false, true⟩ steadyPort steadyNor 0x1FE [1, 2, 3, 4] ()).1 = 0 →
          (norWrite ⟨false, false, true⟩ steadyPort steadyNor 0x1FE [1, 2, 3, 4] ()).2 =
              (run (writePlan ⟨false, false, true⟩ steadyPort steadyNor 0x1FE [1, 2, 3, 4]) ()).2 ∧
            (run (writePlan ⟨false, false, true⟩ steadyPort steadyNor 0x1FE [1, 2, 3, 4]) ()).1.2 =
              [1, 2, 3, 4])) ↔
      ([1, 2, 3, 4] : List Byte) ≠ [] ∨ (norWaitReady steadyPort 0 500 ()).1 ≠ 0 := by
  have hsize : steadyNor.totalSize < 0x100000000 := by decide
  have hle : 0x1FE + ([1, 2, 3, 4] : List Byte).length ≤ steadyNor.totalSize := by decide
  exact norReadWrite_returns ⟨false, false, true⟩ rfl hsize hle ()

end D1Flash
