import D1Flash.Sys.IrqRegistry

namespace D1Flash
open LinkedHeap Runs
set_option autoImplicit true

/-- The disables of a line that no enable has matched, after a call. -/
def unmatched (irq d : Nat) : IrqOp → Nat
  | .disable n => if n = irq then d + 1 else d
  | .enable n => if n = irq then d - 1 else d
  | _ => d

/-- Each enable of the line matches a disable before it. -/
def Balanced (irq : Nat) : Nat → List IrqOp → Prop
  | _, [] => True
  | d, op :: ops => (op = .enable irq → 0 < d) ∧ Balanced irq (unmatched irq d op) ops

/-- A line with actions is delivered exactly when every disable is matched. -/
def NestedAt (irq : Nat) (s : IrqSys) (d : Nat) : Prop :=
  (s.desc irq).action ≠ none → (s.plic.delivers irq = true ↔ d = 0)

/-- The line nests in every state of the run. -/
def Nests (irq : Nat) : IrqSys → Nat → List IrqOp → Prop
  | s, d, [] => NestedAt irq s d
  | s, d, op :: ops =>
    NestedAt irq s d ∧
      ∀ out s', irqStep s op = some (out, s') → Nests irq s' (unmatched irq d op) ops

/-- An enable of a requested line matches its last disable, and a request of the line comes when
no disable is unmatched. -/
def NestOk (irq : Nat) (s : IrqSys) (d : Nat) : IrqOp → Prop
  | .enable n => n = irq → (s.desc irq).action ≠ none → d = 1
  | .request n handler irqflags _ devId pick =>
    n = irq → s.accepts n handler irqflags devId pick = true → d = 0
  | _ => True

/-- Every step of the run is as `NestOk` has it. -/
def Disciplined (irq : Nat) : IrqSys → Nat → List IrqOp → Prop
  | _, _, [] => True
  | s, d, op :: ops =>
    NestOk irq s d op ∧
      ∀ out s', irqStep s op = some (out, s') → Disciplined irq s' (unmatched irq d op) ops

theorem IrqSys.Held.action_none {s : IrqSys} (h : s.Held t) (irq : Nat) :
    (s.desc irq).action = none ↔ t.requests irq = [] := by
  obtain ⟨nodes, hl, hv⟩ := h.lists
  exact (Chain.eq_none_iff (hl.chain irq)).trans (Holds.nil_iff (hv irq))

/-- Nesting, told by the history of the line. -/
theorem IrqSys.Held.nestedAt_iff {s : IrqSys} (h : s.Held t) :
    NestedAt irq s d ↔ (t.requests irq ≠ [] → (s.plic.delivers irq = true ↔ d = 0)) := by
  rw [NestedAt, Ne, h.action_none]

variable {t : IrqHistory} {old : Nat → Bool}

theorem request_nested {s : IrqSys} (hn : t.requests irq ≠ [] → (old irq = true ↔ d = 0))
    (hok : retval = 0 ↔ s.accepts n handler irqflags devId pick = true)
    (devname : Option (List Byte)) (calls : List IrqCall) :
    let op := IrqOp.request n handler irqflags devname devId pick
    ((t.next op (.ret retval calls)).requests irq ≠ [] →
        (t.delivers old op (.ret retval calls) irq = true ↔ d = 0)) ↔ NestOk irq s d op := by
  dsimp only
  show _ ↔ (n = irq → s.accepts n handler irqflags devId pick = true → d = 0)
  cases handler with
  | none =>
    have hno : ¬ s.accepts n none irqflags devId pick = true := by simp [IrqSys.accepts]
    exact ⟨fun _ _ hacc => (hno hacc).elim, fun _ => hn⟩
  | some handler =>
    rw [IrqHistory.next, IrqHistory.delivers]
    by_cases h0 : retval = 0
    · rw [if_pos h0, if_pos h0]
      dsimp only
      by_cases hi : n = irq
      · subst hi
        rw [Function.update_self, Function.update_self]
        have hne : t.requests n ++ [⟨handler, devId⟩] ≠ [] :=
          List.append_ne_nil_of_right_ne_nil _ (List.cons_ne_nil _ _)
        exact ⟨fun hd _ _ => (hd hne).1 rfl, fun hd _ => ⟨fun _ => hd rfl (hok.1 h0), fun _ => rfl⟩⟩
      · rw [Function.update_of_ne (Ne.symm hi), Function.update_of_ne (Ne.symm hi)]
        exact ⟨fun _ he => (hi he).elim, fun _ => hn⟩
    · rw [if_neg h0, if_neg h0]
      exact ⟨fun _ _ hacc => (h0 (hok.2 hacc)).elim, fun _ => hn⟩

theorem free_nested (hn : t.requests irq ≠ [] → (old irq = true ↔ d = 0)) (n devId : Nat)
    (name : Option (List Byte))
    (hne : (t.next (.free n devId) (.name name)).requests irq ≠ []) :
    t.delivers old (.free n devId) (.name name) irq = true ↔ d = 0 := by
  have hne' : t.requests irq ≠ [] := by
    intro hnil
    apply hne
    show Function.update t.requests n _ irq = []
    by_cases hi : irq = n
    · subst hi
      rw [Function.update_self, hnil]
      rfl
    · rw [Function.update_of_ne hi, hnil]
  rw [← hn hne']
  cases name with
  | none => exact Iff.rfl
  | some name =>
    rw [IrqHistory.delivers]
    split
    case isTrue hnil =>
      have hi : irq ≠ n := fun hi => hne (hi ▸ hnil)
      rw [Function.update_of_ne hi]
    case isFalse => exact Iff.rfl

theorem disable_nested (hn : old irq = true ↔ d = 0) (hlt : irq < nrIrqs) (n : Nat) :
    t.delivers old (.disable n) .unit irq = true ↔ unmatched irq d (.disable n) = 0 := by
  rw [unmatched, IrqHistory.delivers]
  by_cases hi : n = irq
  · subst hi
    rw [if_pos rfl, if_pos hlt, Function.update_self]
    exact ⟨fun hf => (Bool.false_ne_true hf).elim, fun hf => (Nat.succ_ne_zero _ hf).elim⟩
  · rw [if_neg hi, ← hn]
    split
    · rw [Function.update_of_ne (Ne.symm hi)]
    · exact Iff.rfl

theorem enable_nested (hn : old irq = true ↔ d = 0) (hlt : irq < nrIrqs) (hb : n = irq → 0 < d) :
    (t.delivers old (.enable n) .unit irq = true ↔ unmatched irq d (.enable n) = 0) ↔
      (n = irq → d = 1) := by
  rw [unmatched, IrqHistory.delivers]
  by_cases hi : n = irq
  · subst hi
    have hpos := hb rfl
    rw [if_pos rfl, if_pos hlt, Function.update_self]
    constructor
    · intro hd _
      have hz := hd.1 rfl
      omega
    · intro hd
      rw [hd rfl]
      exact ⟨fun _ => rfl, fun _ => rfl⟩
  · rw [if_neg hi, ← hn]
    refine ⟨fun _ he => (hi he).elim, fun _ => ?_⟩
    split
    · rw [Function.update_of_ne (Ne.symm hi)]
    · exact Iff.rfl

/-- One step keeps the line nested exactly when it is disciplined. -/
theorem irqStep_nested {s : IrqSys} (h : s.Held t) (hn : NestedAt irq s d)
    (hb : op = .enable irq → 0 < d) :
    ∃ out s', irqStep s op = some (out, s') ∧ s'.Held (t.next op out) ∧
      (NestedAt irq s' (unmatched irq d op) ↔ NestOk irq s d op) := by
  have hact : (s.desc irq).action ≠ none ↔ t.requests irq ≠ [] := (h.action_none irq).not
  have hlt : t.requests irq ≠ [] → irq < nrIrqs := fun hne =>
    Nat.lt_of_not_le fun hle => hne (h.bound irq hle)
  rw [h.nestedAt_iff] at hn
  obtain ⟨out, s', hs, hh, -, hdel⟩ := IrqSys.irqStep_held h op
  refine ⟨out, s', hs, hh, ?_⟩
  rw [hh.nestedAt_iff, hdel]
  cases op with
  | request n handler irqflags devname devId pick =>
    obtain ⟨retval, calls, s₁, hs₁, -, -, hok, -⟩ :=
      IrqSys.requestThreadedIrq_held h n handler irqflags devname devId pick
    rw [irqStep, hs₁] at hs
    cases hs
    exact request_nested hn hok devname calls
  | free n devId =>
    obtain ⟨devname, s₁, hs₁, -⟩ := IrqSys.freeIrq_held h n devId
    rw [irqStep, hs₁] at hs
    cases hs
    exact ⟨fun _ => trivial, fun _ => free_nested hn n devId devname⟩
  | interrupt n =>
    exact ⟨fun _ => trivial, fun _ => hn⟩
  | disable n =>
    exact ⟨fun _ => trivial, fun _ hne => disable_nested (t := t) (hn hne) (hlt hne) n⟩
  | enable n =>
    have hpos : n = irq → 0 < d := fun hi => hb (hi ▸ rfl)
    constructor
    · intro hd hi hne
      have hne := hact.1 hne
      exact (enable_nested (t := t) (hn hne) (hlt hne) hpos).1 (hd hne) hi
    · intro hd hne
      exact (enable_nested (t := t) (hn hne) (hlt hne) hpos).2 fun hi => hd hi (hact.2 hne)

/-- Balanced calls nest on a line in every state exactly when each enable of the requested line
matches its last disable and no request of the line comes inside a disable. -/
theorem irq_nesting {s₀ : IrqSys} (hs : s₀.Empty) (hb : Balanced irq 0 ops) :
    (∃ outs s, exec irqStep s₀ ops = some (outs, s)) ∧
      (Nests irq s₀ 0 ops ↔ Disciplined irq s₀ 0 ops) := by
  suffices hrun : ∀ (ops : List IrqOp) s t d, IrqSys.Held s t → NestedAt irq s d →
      Balanced irq d ops → (Nests irq s d ops ↔ Disciplined irq s d ops) by
    have hstep : ∀ s t op, IrqSys.Held s t → True →
        ∃ out s', irqStep s op = some (out, s') ∧ s'.Held (t.next op out) := by
      intro s t op h _
      obtain ⟨out, s', hs', hh, -⟩ := IrqSys.irqStep_held h op
      exact ⟨out, s', hs', hh⟩
    obtain ⟨outs, s, hexec, -⟩ := exec_tracks hstep hs.held fun op (_ : op ∈ ops) => trivial
    exact ⟨⟨outs, s, hexec⟩, hrun ops s₀ _ 0 hs.held (fun h => (h (hs.action irq)).elim) hb⟩
  intro ops
  induction ops with
  | nil => exact fun s t d _ hn _ => ⟨fun _ => trivial, fun _ => hn⟩
  | cons op ops ih =>
    intro s t d h hn hb
    obtain ⟨out, s', hs', hh, hiff⟩ := irqStep_nested h hn hb.1
    have hstep : ∀ out₁ s₁, irqStep s op = some (out₁, s₁) → s₁ = s' := by
      intro out₁ s₁ h₁
      rw [hs'] at h₁
      cases h₁
      rfl
    have hnested : ∀ ops, Nests irq s' (unmatched irq d op) ops →
        NestedAt irq s' (unmatched irq d op) := by
      intro ops hns
      cases ops with
      | nil => exact hns
      | cons => exact hns.1
    constructor
    · rintro ⟨-, hns⟩
      have hns' := hns out s' hs'
      refine ⟨hiff.1 (hnested ops hns'), ?_⟩
      intro out₁ s₁ h₁
      rw [hstep out₁ s₁ h₁]
      exact (ih s' _ _ hh (hnested ops hns') hb.2).1 hns'
    · rintro ⟨hok, hd⟩
      refine ⟨hn, ?_⟩
      intro out₁ s₁ h₁
      rw [hstep out₁ s₁ h₁]
      exact (ih s' _ _ hh (hiff.2 hok) hb.2).2 (hd out s' hs')

theorem Nests.last (h : Nests irq s d ops) (hs : exec irqStep s ops = some (outs, s')) :
    NestedAt irq s' (ops.foldl (unmatched irq) d) := by
  induction ops generalizing s d outs with
  | nil =>
    cases hs
    exact h
  | cons op ops ih =>
    rw [exec] at hs
    cases h₁ : irqStep s op with
    | none =>
      rw [h₁] at hs
      cases hs
    | some o =>
      rw [h₁] at hs
      dsimp only at hs
      cases h₂ : exec irqStep o.2 ops with
      | none =>
        rw [h₂] at hs
        cases hs
      | some r' =>
        rw [h₂] at hs
        cases hs
        exact ih (h.2 o.1 o.2 h₁) h₂

/-- A line is requested, then disabled twice and enabled once. -/
def overlapping : List IrqOp :=
  [.request 5 (some 0x100) 0 none 1 (some 8), .disable 5, .disable 5, .enable 5]

/-- The line is delivered again while one disable is unmatched. -/
theorem irq_nesting_overlap :
    ¬ ∀ irq ops, Balanced irq 0 ops → Nests irq coldIrqSys.plicInit 0 ops := by
  intro h
  have hends : (exec irqStep coldIrqSys.plicInit overlapping).map (fun r =>
      (r.2.desc 5).action.isSome && r.2.plic.delivers 5) = some true := by decide +kernel
  cases hexec : exec irqStep coldIrqSys.plicInit overlapping with
  | none =>
    rw [hexec] at hends
    cases hends
  | some r =>
    rw [hexec] at hends
    obtain ⟨hact, hdel⟩ := Bool.and_eq_true_iff.1 (Option.some.inj hends)
    have hlast := (h 5 overlapping (by simp [overlapping, Balanced, unmatched])).last hexec
    have hone := (hlast (Option.isSome_iff_ne_none.1 hact)).1 hdel
    exact absurd hone (by decide)

theorem irq_nesting_section :
    let ops : List IrqOp := [.request 5 (some 0x100) 0 none 1 (some 8), .disable 5, .enable 5]
    (∃ outs s, exec irqStep coldIrqSys.plicInit ops = some (outs, s)) ∧
      (Nests 5 coldIrqSys.plicInit 0 ops ↔ Disciplined 5 coldIrqSys.plicInit 0 ops) :=
  irq_nesting (IrqSys.plicInit_empty fun _ => rfl) (by simp [Balanced, unmatched])

end D1Flash
