import D1Flash.Lib.Runs
import D1Flash.Sys.InterruptSpec

namespace D1Flash
open LinkedHeap Runs
set_option autoImplicit true

/-- A call of the registry, or an interrupt. -/
def IrqOp.IsRegistry : IrqOp → Prop
  | .disable _ => False
  | .enable _ => False
  | _ => True

namespace IrqSys

structure Empty (s : IrqSys) : Prop where
  up : s.Up
  action : ∀ irq, (s.desc irq).action = none

theorem Empty.held {s : IrqSys} (h : s.Empty) : s.Held .empty where
  up := h.up
  lists := ⟨fun _ => [], ⟨h.action, fun _ _ _ _ ha => (nomatch ha)⟩, fun _ => .nil⟩
  bound _ _ := rfl

theorem plicInit_empty {s : IrqSys} (h : ∀ irq, (s.desc irq).action = none) : s.plicInit.Empty := by
  have hpresent : ∀ (ns : List Nat) (p : Plic), p.present = true →
      (ns.foldl (fun p n => p.setMie (n + 1) false) p).present = true := by
    intro ns
    induction ns with
    | nil => exact fun _ hp => hp
    | cons n ns ih => exact fun p hp => ih _ hp
  refine ⟨⟨?_, ?_, hpresent _ _ rfl⟩, ?_⟩
  · intro n hn
    rw [plicInit]
    dsimp only
    rw [if_pos hn]
  · intro n hn
    rw [plicInit]
    dsimp only
    rw [if_pos hn]
  · intro n
    rw [plicInit]
    dsimp only
    split
    · exact h n
    · exact h n

end IrqSys

/-- A line that was ever requested is delivered exactly while it has a request. -/
def IrqHistory.Delivered (t : IrqHistory) (delivers : Nat → Bool) : Prop :=
  ∀ irq, t.requested irq = true → (delivers irq = true ↔ t.requests irq ≠ [])

theorem IrqHistory.Delivered.next {t : IrqHistory} (h : t.Delivered old) (hop : op.IsRegistry)
    (hfail : out.Failed → t.next op out = t) :
    (t.next op out).Delivered (t.delivers old op out) := by
  cases op with
  | request irq handler irqflags devname devId pick =>
    cases handler with
    | none => exact h
    | some handler =>
      cases out with
      | ret retval calls =>
        rw [IrqHistory.next, delivers]
        by_cases h0 : retval = 0
        · rw [if_pos h0, if_pos h0]
          intro j
          dsimp only
          by_cases hj : j = irq
          · subst hj
            rw [Function.update_self, Function.update_self, Function.update_self]
            exact fun _ => ⟨fun _ => List.append_ne_nil_of_right_ne_nil _ (List.cons_ne_nil _ _),
              fun _ => rfl⟩
          · rw [Function.update_of_ne hj, Function.update_of_ne hj, Function.update_of_ne hj]
            exact h j
        · rw [if_neg h0, if_neg h0]
          exact h
      | name => exact h
      | unit => exact h
  | free irq devId =>
    cases out with
    | name devname =>
      cases devname with
      | none =>
        rw [hfail rfl]
        exact h
      | some devname =>
        intro j hreq
        rw [delivers]
        by_cases hj : j = irq
        · subst hj
          have hreq' : t.requested j = true := hreq
          by_cases hnil : (t.next (.free j devId) (.name (some devname))).requests j = []
          · rw [if_pos hnil, Function.update_self]
            exact ⟨fun hf => (Bool.false_ne_true hf).elim, fun hne => (hne hnil).elim⟩
          · rw [if_neg hnil]
            refine ⟨fun _ => hnil, fun _ => (h j hreq').2 ?_⟩
            intro hempty
            apply hnil
            show Function.update t.requests j _ j = []
            rw [Function.update_self, hempty]
            rfl
        · have hj' : (t.next (.free irq devId) (.name (some devname))).requests j =
              t.requests j := Function.update_of_ne hj ..
          rw [hj', ← h j hreq]
          split
          · rw [Function.update_of_ne hj]
          · rfl
    | ret => exact h
    | unit => exact h
  | interrupt irq => exact h
  | disable irq => exact hop.elim
  | enable irq => exact hop.elim

/-- The history that calls and what they gave back leave behind. -/
def irqHistory (ops : List IrqOp) (outs : List IrqOut) : IrqHistory :=
  (ops.zip outs).foldl (fun t p => t.next p.1 p.2) .empty

/-- After any calls the list of each line is its requests that returned 0 and were not freed, in
order; an interrupt calls each of them once with its own `dev_id`; a call that fails changes
nothing; a line that was ever requested is delivered exactly while its list is not empty; and a
request returns 0 exactly where its arguments are good and there is memory. -/
theorem irq_registry {s₀ : IrqSys} (hs : s₀.Empty) (hops : ∀ op ∈ ops, op.IsRegistry) :
    ∃ outs s, exec irqStep s₀ ops = some (outs, s) ∧ outs.length = ops.length ∧
      let t := irqHistory ops outs
      (∀ irq, ∃ as, Chain s.heap IrqAction.next (s.desc irq).action as ∧
        Holds s.heap IrqAction.request as (t.requests irq)) ∧
      (∀ irq, t.requested irq = true → (s.plic.delivers irq = true ↔ t.requests irq ≠ [])) ∧
      (∀ irq < nrIrqs, ∃ s', irqStep s (.interrupt irq) =
        some (.ret 0 ((t.requests irq).map (·.call irq)), s')) ∧
      (∀ op, op.IsRegistry → ∃ out s', irqStep s op = some (out, s') ∧ (out.Failed → s' = s)) ∧
      ∀ irq handler irqflags devname devId pick, ∃ retval calls s',
        irqStep s (.request irq handler irqflags devname devId pick) =
        some (.ret retval calls, s') ∧
        (retval = 0 ↔ s.accepts irq handler irqflags devId pick = true) := by
  have hstep : ∀ s t op, (IrqSys.Held s t ∧ t.Delivered s.plic.delivers) → IrqOp.IsRegistry op →
      ∃ out s', irqStep s op = some (out, s') ∧
        (s'.Held (t.next op out) ∧ (t.next op out).Delivered s'.plic.delivers) := by
    rintro s t op ⟨h, hd⟩ hop
    obtain ⟨out, s', hs', hh, hfail, hdel⟩ := IrqSys.irqStep_held h op
    refine ⟨out, s', hs', hh, ?_⟩
    rw [hdel]
    exact hd.next hop fun h0 => (hfail h0).2
  obtain ⟨outs, s, hrun, hlen, hr, hd⟩ :=
    exec_tracks hstep ⟨hs.held, fun _ hreq => (nomatch hreq)⟩ hops
  refine ⟨outs, s, hrun, hlen, ?_, hd, ?_, ?_, ?_⟩
  · intro irq
    obtain ⟨nodes, hl, hv⟩ := hr.lists
    exact ⟨nodes irq, hl.chain irq, hv irq⟩
  · intro irq hirq
    obtain ⟨s', hs', -⟩ := IrqSys.genericHandleIrq_held hr hirq
    exact ⟨s', by rw [irqStep, hs']; rfl⟩
  · intro op hop
    obtain ⟨out, s', hstep, -, hfail, -⟩ := IrqSys.irqStep_held hr op
    exact ⟨out, s', hstep, fun h0 => (hfail h0).1⟩
  · intro irq handler irqflags devname devId pick
    obtain ⟨retval, calls, s', hreq, -, -, hzero, -⟩ :=
      IrqSys.requestThreadedIrq_held hr irq handler irqflags devname devId pick
    exact ⟨retval, calls, s', by rw [irqStep, hreq]; rfl, hzero⟩

/-- The interrupt layer before it is brought up. -/
def coldIrqSys : IrqSys where
  heap := ∅
  desc _ := ⟨0, none, none, 0⟩
  plic := ⟨false, fun _ => 0, fun _ => 0, 0⟩

/-- The first of two requests is freed: the interrupt calls the second. -/
theorem irq_registry_shared_line :
    let ops : List IrqOp := [.request 31 (some 0x100) 0x80 none 1 (some 8),
      .request 31 (some 0x200) 0x80 none 2 (some 9), .free 31 1]
    ∃ outs s s', exec irqStep coldIrqSys.plicInit ops = some (outs, s) ∧
      (irqHistory ops outs).requests 31 = [⟨0x200, 2⟩] ∧ s.plic.delivers 31 = true ∧
      irqStep s (.interrupt 31) = some (.ret 0 [⟨0x200, 31, 2⟩], s') ∧
      ∃ retval calls s', retval ≠ 0 ∧
        irqStep s (.request 31 (some 0x300) 0x80 none 3 none) = some (.ret retval calls, s') := by
  intro ops
  have hops : ∀ op ∈ ops, op.IsRegistry := by
    intro op hop
    simp only [ops, List.mem_cons, List.not_mem_nil, or_false] at hop
    rcases hop with rfl | rfl | rfl <;> trivial
  obtain ⟨outs, s, hrun, -, -, hdel, hint, -, hreq⟩ :=
    irq_registry (IrqSys.plicInit_empty (s := coldIrqSys) fun _ => rfl) hops
  have hhist : (exec irqStep coldIrqSys.plicInit ops).map (fun p =>
      ((irqHistory ops p.1).requests 31, (irqHistory ops p.1).requested 31)) =
        some ([⟨0x200, 2⟩], true) := by decide +kernel
  rw [hrun, Option.map_some, Option.some.injEq] at hhist
  obtain ⟨hlist, hreq31⟩ := Prod.mk.inj hhist
  obtain ⟨s', hs'⟩ := hint 31 (by decide)
  obtain ⟨retval, calls, s'', hr, hzero⟩ := hreq 31 (some 0x300) 0x80 none 3 none
  refine ⟨outs, s, s', hrun, hlist, ?_, ?_, retval, calls, s'', fun h => ?_, hr⟩
  · apply (hdel 31 hreq31).2
    rw [hlist]
    exact List.cons_ne_nil _ _
  · rw [hs', hlist]
    rfl
  · have haccepts := hzero.1 h
    rw [IrqSys.accepts, Bool.and_eq_true] at haccepts
    cases haccepts.2

end D1Flash
