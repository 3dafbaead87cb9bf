import D1Flash.Gpio.HalGpio
import D1Flash.Lib.Runs

namespace D1Flash
open BitField Runs
set_option autoImplicit true

theorem gpioIrqStatusRegFromBank_inj {b b' : Nat}
    (h : gpioIrqStatusRegFromBank b (irqBankBase b) =
      gpioIrqStatusRegFromBank b' (irqBankBase b')) : b = b' := by
  have hmul := Nat.eq_of_mul_eq_mul_right (by decide) (Nat.add_left_cancel h)
  exact Nat.add_left_cancel hmul

theorem bank_bit_inj {i j : Nat} (h : i / irqPerBank = j / irqPerBank) :
    i % irqPerBank = j % irqPerBank ↔ i = j := by
  constructor
  · intro hmod
    rw [← Nat.div_add_mod i irqPerBank, ← Nat.div_add_mod j irqPerBank, h, hmod]
  · exact congrArg (· % irqPerBank)

namespace GpioSys

/-- An edge on the pin of an entry: the hardware sets the pending bit. -/
def edge (i : Nat) (s : GpioSys) : GpioSys :=
  let bank := i / irqPerBank
  let reg := gpioIrqStatusRegFromBank bank (irqBankBase bank)
  { s with regs := Function.update s.regs reg (s.regs reg ||| 1#32 <<< (i % irqPerBank)) }

theorem pending_write {s s' : GpioSys}
    (h : s'.regs = Function.update s.regs (gpioIrqStatusRegFromBank b (irqBankBase b)) v)
    (i : Nat) :
    s'.pending i = if i / irqPerBank = b then v.getLsbD (i % irqPerBank) else s.pending i := by
  rw [pending, pending, h]
  by_cases hbank : i / irqPerBank = b
  · subst hbank
    rw [if_pos rfl, Function.update_self]
  · rw [if_neg hbank, Function.update_of_ne fun heq => hbank (gpioIrqStatusRegFromBank_inj heq)]

theorem pending_edge (s : GpioSys) (j i : Nat) :
    (s.edge j).pending i = (s.pending i || decide (i = j)) := by
  have h : (s.edge j).regs = Function.update s.regs _ _ := rfl
  rw [pending_write h i]
  by_cases hbank : i / irqPerBank = j / irqPerBank
  · have hlt : i % irqPerBank < 32 := Nat.mod_lt _ (by decide)
    rw [if_pos hbank, BitVec.getLsbD_or, one_shiftLeft_getLsbD _ hlt, pending, hbank,
      decide_eq_decide.2 (bank_bit_inj hbank)]
  · have hne : i ≠ j := fun heq => hbank (congrArg (· / irqPerBank) heq)
    rw [if_neg hbank, decide_eq_false hne, Bool.or_false]

theorem pending_ack (s : GpioSys) (hj : j < irqDescSize) (i : Nat) :
    (s.gpioIrqAck j).pending i = (s.pending i && decide (i ≠ j)) := by
  have hw : (s.irqDesc j).virq - gpioIrqStart = j := by
    rw [(s.wired j hj).2, Nat.add_sub_cancel_left]
  have hstatus : IsStatus (gpioIrqStatusRegFromBank (j / irqPerBank)
      (irqBankBase (j / irqPerBank))) :=
    ⟨j / irqPerBank, Nat.div_lt_of_lt_mul (by rwa [Nat.mul_comm]), rfl⟩
  have h : (s.gpioIrqAck j).regs = Function.update s.regs
      (gpioIrqStatusRegFromBank (j / irqPerBank) (irqBankBase (j / irqPerBank)))
      (s.regs (gpioIrqStatusRegFromBank (j / irqPerBank) (irqBankBase (j / irqPerBank))) &&&
        ~~~(1#32 <<< (j % irqPerBank))) := by
    rw [gpioIrqAck, hw, halWritel, if_pos hstatus]
  rw [pending_write h i]
  by_cases hbank : i / irqPerBank = j / irqPerBank
  · have hlt : i % irqPerBank < 32 := Nat.mod_lt _ (by decide)
    rw [if_pos hbank, BitVec.getLsbD_and, BitVec.getLsbD_not, one_shiftLeft_getLsbD _ hlt,
      decide_eq_true hlt, Bool.true_and, pending, hbank, decide_eq_decide.2 (bank_bit_inj hbank),
      ← decide_not]
  · have hne : i ≠ j := fun heq => hbank (congrArg (· / irqPerBank) heq)
    rw [if_neg hbank, decide_eq_true hne, Bool.and_true]

theorem gpioIrqLookup_pending {s : GpioSys} (h : s.gpioIrqLookup hwirq = some j) :
    s.pending j = true := by
  rw [gpioIrqLookup] at h
  cases hbank : (List.range irqBanks).find? fun bank => decide (hwirq = bankIrqNum bank) with
  | none =>
    rw [hbank] at h
    cases h
  | some bank =>
    rw [hbank] at h
    dsimp only at h
    cases hoff : (List.range irqPerBank).find? fun irqoffset =>
        (s.halReadl (gpioIrqStatusRegFromBank bank (irqBankBase bank))).getLsbD irqoffset with
    | none =>
      rw [hoff] at h
      cases h
    | some irqoffset =>
      rw [hoff] at h
      dsimp only at h
      have hlt := List.mem_range.1 (List.mem_of_find?_eq_some hoff)
      have hbit := List.find?_some hoff
      have hpin := List.find?_some h
      rw [decide_eq_true_iff, (s.wired j j.isLt).1] at hpin
      have hji : j.val = bank * irqPerBank + irqoffset := by
        simp only [irqBankBase, irqPerBank] at hpin ⊢
        omega
      have hdiv : j.val / irqPerBank = bank := by
        rw [hji, Nat.mul_comm, Nat.mul_add_div (by decide), Nat.div_eq_of_lt hlt, Nat.add_zero]
      have hmod : j.val % irqPerBank = irqoffset := by
        rw [hji, Nat.mul_comm, Nat.mul_add_mod, Nat.mod_eq_of_lt hlt]
      rw [pending, hdiv, hmod]
      exact hbit

end GpioSys

/-- Where `gpio_irq_handle` is: not running, about to call the handler of an entry, or in the call
with the acknowledge to come. -/
inductive GpioPhase
  | idle
  | found (i : Fin irqDescSize)
  | running (i : Fin irqDescSize)
  deriving DecidableEq

structure GpioIrqRun where
  gpio : GpioSys
  phase : GpioPhase

/-- An edge, or the next step of `gpio_irq_handle`. -/
inductive GpioEv
  | edge (i : Fin irqDescSize)
  | read (hwirq : Nat)
  | call
  | ack
  deriving DecidableEq

/-- One event, with the entry whose handler it calls. What the phase does not allow does
nothing. -/
def gpioEvStep (s : GpioIrqRun) : GpioEv → Option (Fin irqDescSize) × GpioIrqRun
  | .edge i => (none, ⟨s.gpio.edge i, s.phase⟩)
  | .read hwirq =>
    match s.phase with
    | .idle =>
      match s.gpio.gpioIrqLookup hwirq with
      | some i => (none, ⟨s.gpio, .found i⟩)
      | none => (none, s)
    | _ => (none, s)
  | .call =>
    match s.phase with
    | .found i => (some i, ⟨s.gpio, .running i⟩)
    | _ => (none, s)
  | .ack =>
    match s.phase with
    | .running i => (none, ⟨s.gpio.gpioIrqAck i, .idle⟩)
    | _ => (none, s)

/-- Every edge of the pin is followed by a call of its handler. -/
def Heard (i : Fin irqDescSize) : List (GpioEv × Option (Fin irqDescSize)) → Prop
  | [] => True
  | e :: tr => (e.1 = .edge i → ∃ e' ∈ tr, e'.2 = some i) ∧ Heard i tr

/-- The last edge of the pin does not come while the handler of the pin is running. -/
def LastEdgeOutside (i : Fin irqDescSize) : GpioIrqRun → List GpioEv → Prop
  | _, [] => True
  | s, ev :: evs =>
    (ev = .edge i → .edge i ∉ evs → s.phase ≠ .running i) ∧
      LastEdgeOutside i (gpioEvStep s ev).2 evs

instance LastEdgeOutside.decidable (i : Fin irqDescSize) :
    ∀ s evs, Decidable (LastEdgeOutside i s evs)
  | _, [] => isTrue trivial
  | s, ev :: evs =>
    haveI := LastEdgeOutside.decidable i (gpioEvStep s ev).2 evs
    inferInstanceAs (Decidable (_ ∧ _))

/-- The bank was served: no step of `gpio_irq_handle` is left, and the pin is not pending. -/
def GpioIrqRun.Served (i : Fin irqDescSize) (s : GpioIrqRun) : Prop :=
  s.phase = .idle ∧ s.gpio.pending i = false

/-- A call of the handler is to come: it is found, or it will be, when the bit outlives the step
that runs. -/
def GpioIrqRun.Due (i : Fin irqDescSize) (s : GpioIrqRun) : Prop :=
  s.phase = .found i ∨ (s.gpio.pending i = true ∧ s.phase ≠ .running i)

theorem GpioIrqRun.due_idle {s : GpioIrqRun} (h : s.phase = .idle) :
    s.Due i ↔ s.gpio.pending i = true := by
  rw [Due, h]
  simp only [reduceCtorEq, false_or, ne_eq, not_false_eq_true, and_true]

theorem GpioIrqRun.due_found {s : GpioIrqRun} (h : s.phase = .found j) :
    s.Due i ↔ j = i ∨ s.gpio.pending i = true := by
  rw [Due, h]
  simp only [GpioPhase.found.injEq, reduceCtorEq, ne_eq, not_false_eq_true, and_true]

theorem GpioIrqRun.due_running {s : GpioIrqRun} (h : s.phase = .running j) :
    s.Due i ↔ s.gpio.pending i = true ∧ j ≠ i := by
  rw [Due, h]
  simp only [GpioPhase.running.injEq, reduceCtorEq, false_or, ne_eq]

/-- One event but an edge of the pin: its call, or a handler as much due as before. -/
theorem gpioEvStep_due (s : GpioIrqRun) (hn : ev ≠ .edge i) :
    ((gpioEvStep s ev).1 = some i ∧ s.Due i) ∨
      ((gpioEvStep s ev).1 ≠ some i ∧ ((gpioEvStep s ev).2.Due i ↔ s.Due i)) := by
  cases ev with
  | edge j =>
    right
    have hij : i ≠ j := fun h => hn (h ▸ rfl)
    refine ⟨nofun, ?_⟩
    show GpioIrqRun.Due i ⟨s.gpio.edge j, s.phase⟩ ↔ s.Due i
    rw [GpioIrqRun.Due, GpioSys.pending_edge, decide_eq_false (fun h => hij (Fin.ext h)),
      Bool.or_false]
    exact Iff.rfl
  | read hwirq =>
    right
    rw [gpioEvStep]
    split
    case h_1 hidle =>
      cases hl : s.gpio.gpioIrqLookup hwirq with
      | none => exact ⟨nofun, Iff.rfl⟩
      | some j =>
        refine ⟨nofun, ?_⟩
        -- the pin that was found is a pending one
        have hp := GpioSys.gpioIrqLookup_pending hl
        rw [GpioIrqRun.due_found rfl, GpioIrqRun.due_idle hidle]
        constructor
        · rintro (rfl | h)
          · exact hp
          · exact h
        · exact .inr
    case h_2 => exact ⟨nofun, Iff.rfl⟩
  | call =>
    rw [gpioEvStep]
    split
    case h_1 j hfound =>
      by_cases hij : j = i
      · subst hij
        exact .inl ⟨rfl, .inl hfound⟩
      · right
        refine ⟨fun h => hij (Option.some.inj h), ?_⟩
        rw [GpioIrqRun.due_running rfl, GpioIrqRun.due_found hfound]
        exact ⟨fun h => .inr h.1, fun h => ⟨h.resolve_left hij, hij⟩⟩
    case h_2 => exact .inr ⟨nofun, Iff.rfl⟩
  | ack =>
    right
    rw [gpioEvStep]
    split
    case h_1 j hrun =>
      refine ⟨nofun, ?_⟩
      rw [GpioIrqRun.due_idle rfl, GpioIrqRun.due_running hrun, GpioSys.pending_ack _ j.isLt,
        Bool.and_eq_true, decide_eq_true_iff]
      exact and_congr_right fun _ => ⟨fun h heq => h (congrArg Fin.val heq.symm),
        fun h heq => h (Fin.ext heq.symm)⟩
    case h_2 => exact ⟨nofun, Iff.rfl⟩

/-- With no edge of the pin to come, a served run calls its handler exactly when that is due. -/
theorem gpioEv_called (hn : .edge i ∉ evs) (hserved : (run gpioEvStep s evs).2.Served i) :
    (∃ e ∈ evs.zip (run gpioEvStep s evs).1, e.2 = some i) ↔ s.Due i := by
  induction evs generalizing s with
  | nil =>
    obtain ⟨hidle, hclear⟩ := hserved
    constructor
    · rintro ⟨e, he, -⟩
      cases he
    · rintro (h | h)
      · rw [show s.phase = .idle from hidle] at h
        cases h
      · rw [show s.gpio.pending i = false from hclear] at h
        cases h.1
  | cons ev evs ih =>
    have ih := ih (fun h => hn (List.mem_cons_of_mem _ h)) hserved
    have hev : ev ≠ .edge i := fun h => hn (h ▸ List.mem_cons_self)
    rw [run, List.zip_cons_cons]
    simp only [List.exists_mem_cons_iff, ih]
    rcases gpioEvStep_due s hev with ⟨hcall, hdue⟩ | ⟨hcall, hdue⟩
    · exact ⟨fun _ => hdue, fun _ => .inl hcall⟩
    · rw [hdue]
      exact ⟨fun h => h.resolve_left hcall, .inr⟩

theorem Heard.called {evs : List GpioEv} (h : Heard i (evs.zip (run gpioEvStep s evs).1))
    (he : .edge i ∈ evs) :
    ∃ e ∈ evs.zip (run gpioEvStep s evs).1, e.2 = some i := by
  induction evs generalizing s with
  | nil => cases he
  | cons ev evs ih =>
    rw [run, List.zip_cons_cons] at h ⊢
    cases he with
    | head =>
      obtain ⟨e, hmem, hcall⟩ := h.1 rfl
      exact ⟨e, List.mem_cons_of_mem _ hmem, hcall⟩
    | tail _ he =>
      obtain ⟨e, hmem, hcall⟩ := ih h.2 he
      exact ⟨e, List.mem_cons_of_mem _ hmem, hcall⟩

/-- In every run in which the bank is served after the last edge, every edge of the pin is followed
by a call of its handler exactly when the last one does not come during such a call. -/
theorem gpio_edges_heard (i : Fin irqDescSize) (s : GpioIrqRun)
    (hserved : (run gpioEvStep s evs).2.Served i) :
    Heard i (evs.zip (run gpioEvStep s evs).1) ↔ LastEdgeOutside i s evs := by
  induction evs generalizing s with
  | nil => exact Iff.rfl
  | cons ev evs ih =>
    have ih := ih (gpioEvStep s ev).2 hserved
    rw [run, List.zip_cons_cons, Heard, LastEdgeOutside, ih]
    apply and_congr_left
    intro htail
    constructor
    · rintro hcall rfl hlast hrun
      rcases (gpioEv_called hlast hserved).1 (hcall rfl) with h | h
      · rw [show s.phase = .found i from h] at hrun
        cases hrun
      · exact h.2 hrun
    · rintro hout rfl
      by_cases hlast : .edge i ∈ evs
      · exact (ih.2 htail).called hlast
      · apply (gpioEv_called hlast hserved).2
        refine .inr ⟨?_, hout rfl hlast⟩
        show (s.gpio.edge i).pending i = true
        rw [GpioSys.pending_edge, decide_eq_true rfl, Bool.or_true]

/-- PB0 with a requested handler and its line enabled. -/
def armedPb0 : Option GpioSys :=
  ((GpioSys.awHalGpioInit fun _ => 0).halGpioIrqRequest 141 (some 0x1000) 1 0x2000).bind fun r =>
    (r.2.halGpioIrqEnable 141).map Prod.snd

/-- A second edge of PB0 while the handler runs for the first. -/
def secondEdge : List GpioEv := [.edge 0, .read 85, .call, .edge 0, .ack]

/-- The acknowledge after the handler clears the second edge, and no call follows it. -/
theorem gpio_edge_lost :
    ¬ ∀ (i : Fin irqDescSize) (s : GpioIrqRun) (evs : List GpioEv), s.phase = .idle →
      (s.gpio.irqDesc i).handleIrq ≠ .bad → s.gpio.unmasked i = true →
      (run gpioEvStep s evs).2.Served i → Heard i (evs.zip (run gpioEvStep s evs).1) := by
  intro h
  have hrun : armedPb0.map (fun s =>
      let r := run gpioEvStep ⟨s, .idle⟩ secondEdge
      ((s.irqDesc 0).handleIrq, s.unmasked 0, r.1, r.2.phase, r.2.gpio.pending 0)) =
      some (.fn 0x1000, true, [none, none, some 0, none, none], .idle, false) := by decide +kernel
  cases hs : armedPb0 with
  | none =>
    rw [hs] at hrun
    cases hrun
  | some s =>
    rw [hs, Option.map_some, Option.some.injEq] at hrun
    simp only [Prod.mk.injEq] at hrun
    obtain ⟨hhandler, hmask, houts, hphase, hpending⟩ := hrun
    have hheard := h 0 ⟨s, .idle⟩ secondEdge rfl (by
      rw [show (s.irqDesc (0 : Fin irqDescSize)).handleIrq = .fn 0x1000 from hhandler]
      exact nofun) hmask ⟨hphase, hpending⟩
    rw [houts] at hheard
    obtain ⟨e, he, hcall⟩ := hheard.2.2.2.1 rfl
    cases List.mem_singleton.1 he
    cases hcall

/-- An edge that comes before the call, when the status is read already, is heard; one that comes
during the call is not. -/
theorem gpio_edges_heard_between :
    ∃ s, armedPb0 = some s ∧
      (let evs : List GpioEv := [.edge 0, .read 85, .edge 0, .call, .ack]
      Heard 0 (evs.zip (run gpioEvStep ⟨s, .idle⟩ evs).1)) ∧
      ¬ Heard 0 (secondEdge.zip (run gpioEvStep ⟨s, .idle⟩ secondEdge).1) := by
  have hrun : armedPb0.map (fun s =>
      let between : List GpioEv := [.edge 0, .read 85, .edge 0, .call, .ack]
      let r := run gpioEvStep ⟨s, .idle⟩ between
      let r' := run gpioEvStep ⟨s, .idle⟩ secondEdge
      (r.2.phase, r.2.gpio.pending 0, decide (LastEdgeOutside 0 ⟨s, .idle⟩ between),
        r'.2.phase, r'.2.gpio.pending 0, decide (LastEdgeOutside 0 ⟨s, .idle⟩ secondEdge))) =
      some (.idle, false, true, .idle, false, false) := by decide +kernel
  cases hs : armedPb0 with
  | none =>
    rw [hs] at hrun
    cases hrun
  | some s =>
    rw [hs, Option.map_some, Option.some.injEq] at hrun
    simp only [Prod.mk.injEq, decide_eq_true_iff, decide_eq_false_iff_not] at hrun
    obtain ⟨hphase, hpending, hout, hphase', hpending', hin⟩ := hrun
    exact ⟨s, rfl, (gpio_edges_heard 0 ⟨s, .idle⟩ ⟨hphase, hpending⟩).2 hout,
      (gpio_edges_heard 0 ⟨s, .idle⟩ ⟨hphase', hpending'⟩).not.2 hin⟩

end D1Flash
