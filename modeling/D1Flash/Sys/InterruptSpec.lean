import D1Flash.Sys.Interrupt

namespace D1Flash
open LinkedHeap
set_option autoImplicit true

theorem Plic.setMie_getLsbD (p : Plic) (irq : Nat) (enable : Bool) (j : Nat) :
    ((p.setMie irq enable).mie (j / 32)).getLsbD (j % 32) =
      if j = irq then enable else (p.mie (j / 32)).getLsbD (j % 32) := by
  by_cases hw : j / 32 = irq / 32
  · have hbit : irq % 32 = j % 32 ↔ j = irq := by omega
    rw [setMie, hw]
    dsimp only
    rw [Function.update_self, ← BitVec.twoPow_eq]
    by_cases hj : j = irq
    · cases enable <;> simp [hj, Nat.mod_lt]
    · have hlt : j % 32 < 32 := Nat.mod_lt _ (by decide)
      have hne : (BitVec.twoPow 32 (irq % 32)).getLsbD (j % 32) = false := by
        rw [BitVec.getLsbD_twoPow, decide_eq_false fun h => hj (hbit.1 h), Bool.and_false]
      rw [if_neg hj]
      cases enable with
      | false =>
        show (_ &&& ~~~_ : BitVec 32).getLsbD _ = _
        rw [BitVec.getLsbD_and, BitVec.getLsbD_not, hne, decide_eq_true hlt, Bool.not_false,
          Bool.and_true, Bool.and_true]
      | true =>
        show (_ ||| _ : BitVec 32).getLsbD _ = _
        rw [BitVec.getLsbD_or, hne, Bool.or_false]
  · have hj : j ≠ irq := fun h => hw (by rw [h])
    rw [setMie, if_neg hj]
    dsimp only
    rw [Function.update_of_ne hw]

theorem Plic.toggle_delivers {p : Plic} (hp : p.present = true) (irq : Nat) (enable : Bool) :
    (p.toggle irq enable).delivers = Function.update p.delivers irq enable := by
  funext j
  rw [Function.update_apply, toggle]
  dsimp only
  rw [if_pos hp, delivers, setMie_getLsbD, delivers]
  by_cases hj : j = irq
  · subst hj
    rw [if_pos rfl, if_pos rfl]
    show (Function.update p.priority j enable.toNat j != 0 && enable) = enable
    rw [Function.update_self]
    cases enable <;> rfl
  · rw [if_neg hj, if_neg hj]
    show (Function.update p.priority irq enable.toNat j != 0 && _) = _
    rw [Function.update_of_ne hj]

@[simp] theorem Plic.toggle_present (p : Plic) (irq : Nat) (enable : Bool) :
    (p.toggle irq enable).present = p.present := by
  rw [toggle]
  dsimp only
  split <;> rfl

namespace IrqSys

def head (s : IrqSys) (irq : Nat) : Ptr := (s.desc irq).action

/-- Every line knows its number and has its chip, and the PLIC is up. -/
structure Up (s : IrqSys) : Prop where
  irqNo : ∀ n < nrIrqs, (s.desc n).irq = n
  chip : ∀ n < nrIrqs, (s.desc n).chip = some plicChip
  present : s.plic.present = true

theorem Up.setDesc {s : IrqSys} {d : IrqDesc} (hs : s.Up) (hi : d.irq = (s.desc n).irq)
    (hc : d.chip = (s.desc n).chip) : (s.setDesc n d).Up := by
  have hirq : ∀ j, ((s.setDesc n d).desc j).irq = (s.desc j).irq := by
    intro j
    by_cases hj : j = n
    · rw [hj, ← hi]
      exact congrArg IrqDesc.irq (Function.update_self ..)
    · exact congrArg IrqDesc.irq (Function.update_of_ne hj ..)
  have hchip : ∀ j, ((s.setDesc n d).desc j).chip = (s.desc j).chip := by
    intro j
    by_cases hj : j = n
    · rw [hj, ← hc]
      exact congrArg IrqDesc.chip (Function.update_self ..)
    · exact congrArg IrqDesc.chip (Function.update_of_ne hj ..)
  exact ⟨fun j hj => (hirq j).trans (hs.irqNo j hj), fun j hj => (hchip j).trans (hs.chip j hj),
    hs.present⟩

@[simp] theorem setDesc_head (s : IrqSys) (irq : Nat) (d : IrqDesc) :
    (s.setDesc irq d).head = Function.update s.head irq d.action := by
  funext j
  by_cases hj : j = irq
  · subst hj
    rw [head, setDesc, Function.update_self]
    exact congrArg IrqDesc.action (Function.update_self ..)
  · rw [head, setDesc, Function.update_of_ne hj]
    exact congrArg IrqDesc.action (Function.update_of_ne hj ..)

/-- What an enable or a disable of a line changes: whether the line is delivered. -/
structure Toggled (s : IrqSys) (irq : Nat) (enable : Bool) (s' : IrqSys) : Prop where
  up : s'.Up
  heap : s'.heap = s.heap
  head : s'.head = s.head
  delivers : s'.plic.delivers = Function.update s.plic.delivers irq enable

theorem Up.toggled {s : IrqSys} (hs : s.Up) (hirq : irq < nrIrqs) (n : Nat) (enable : Bool) :
    s.Toggled irq enable { s.setDesc irq { s.desc irq with number := n } with
      plic := s.plic.toggle (s.desc irq).irq enable } where
  up :=
    have h : (s.setDesc irq { s.desc irq with number := n }).Up := hs.setDesc rfl rfl
    ⟨h.irqNo, h.chip, (Plic.toggle_present ..).trans hs.present⟩
  heap := rfl
  head := (setDesc_head ..).trans (Function.update_eq_self ..)
  delivers := by
    rw [hs.irqNo irq hirq]
    exact Plic.toggle_delivers hs.present irq enable

theorem enableIrq_toggled {s : IrqSys} (hs : s.Up) (hirq : irq < nrIrqs) :
    s.Toggled irq true (s.enableIrq irq) := by
  rw [enableIrq, if_pos hirq]
  exact hs.toggled hirq _ true

theorem disableIrq_toggled {s : IrqSys} (hs : s.Up) (hirq : irq < nrIrqs) :
    s.Toggled irq false (s.disableIrq irq) := by
  rw [disableIrq, if_pos hirq]
  exact hs.toggled hirq _ false

theorem lastAction_eq {h : Heap IrqAction}
    (hc : Chain h IrqAction.next (some old) (as ++ [last])) (hf : as.length < fuel) :
    lastAction h fuel old = some last := by
  induction as generalizing old fuel with
  | nil =>
    obtain ⟨hl, x, hx, hn⟩ := hc
    cases hl
    cases fuel with
    | zero => exact absurd hf (Nat.not_lt_zero _)
    | succ fuel =>
      rw [lastAction, hx]
      dsimp only
      rw [show x.next = none from hn]
  | cons a as ih =>
    obtain ⟨ha, x, hx, hn⟩ := hc
    cases ha
    cases fuel with
    | zero => exact absurd hf (Nat.not_lt_zero _)
    | succ fuel =>
      rw [lastAction, hx]
      dsimp only
      cases hnext : x.next with
      | none =>
        rw [hnext] at hn
        cases as <;> cases hn.1
      | some old' =>
        rw [hnext] at hn
        exact ih hn (Nat.lt_of_succ_lt_succ hf)

end IrqSys

structure IrqRequest where
  handler : Nat
  devId : Nat
  deriving DecidableEq

def IrqAction.request (x : IrqAction) : IrqRequest := ⟨x.handler, x.devId⟩

def IrqRequest.call (irq : Nat) (r : IrqRequest) : IrqCall := ⟨r.handler, irq, r.devId⟩

/-- The requests of each line, and the lines that were ever requested. -/
structure IrqHistory where
  requests : Nat → List IrqRequest
  requested : Nat → Bool

def IrqHistory.empty : IrqHistory := ⟨fun _ => [], fun _ => false⟩

/-- A request that returned 0 goes to the end of its line; a free takes the first of its
`dev_id`. -/
def IrqHistory.next (t : IrqHistory) : IrqOp → IrqOut → IrqHistory
  | .request irq (some handler) _ _ devId _, .ret retval _ =>
    if retval = 0 then
      ⟨Function.update t.requests irq (t.requests irq ++ [⟨handler, devId⟩]),
        Function.update t.requested irq true⟩
    else t
  | .free irq devId, .name _ =>
    { t with requests :=
        Function.update t.requests irq ((t.requests irq).eraseP fun r => r.devId = devId) }
  | _, _ => t

def IrqOut.Failed : IrqOut → Prop
  | .ret retval _ => retval ≠ 0
  | .name devname => devname = none
  | .unit => False

/-- The lines hold the requests of the history. -/
structure IrqSys.Held (s : IrqSys) (t : IrqHistory) : Prop where
  up : s.Up
  lists : ∃ nodes, Lists s.heap IrqAction.next s.head nodes ∧
    ∀ irq, Holds s.heap IrqAction.request (nodes irq) (t.requests irq)
  bound : ∀ irq, nrIrqs ≤ irq → t.requests irq = []

/-- Whether a line is delivered after a call, by what the call gave back. -/
def IrqHistory.delivers (t : IrqHistory) (old : Nat → Bool) : IrqOp → IrqOut → Nat → Bool
  | .request irq (some _) _ _ _ _, .ret retval _ =>
    if retval = 0 then Function.update old irq true else old
  | .free irq devId, .name (some name) =>
    if (t.next (.free irq devId) (.name (some name))).requests irq = [] then
      Function.update old irq false
    else old
  | .disable irq, _ => if irq < nrIrqs then Function.update old irq false else old
  | .enable irq, _ => if irq < nrIrqs then Function.update old irq true else old
  | _, _ => old

/-- What `request_threaded_irq` turns a request away for, but for the chip. -/
def IrqSys.accepts (s : IrqSys) (irq : Nat) (handler : Option Nat) (irqflags : UInt64)
    (devId : Nat) (pick : Ptr) : Bool :=
  irq != irqNotConnected && !badFlags irqflags devId && irq < nrIrqs && handler.isSome &&
    (malloc s.heap pick).isSome

namespace IrqSys

/-- The walk of `__free_irq` stops at the first action of the `dev_id`. -/
theorem findAction_eq {h : Heap IrqAction} (devId : Nat) (place : Ptr)
    (hc : Chain h IrqAction.next p as)
    (hv : Holds h IrqAction.request as rs) (hf : as.length ≤ fuel) :
    (findAction h devId fuel place p = some none ∧ ∀ r ∈ rs, r.devId ≠ devId) ∨
      ∃ bs a cs us r vs, as = bs ++ a :: cs ∧ rs = us ++ r :: vs ∧
        findAction h devId fuel place p = some (some (bs.getLast?.or place, a)) ∧
        Holds h IrqAction.request bs us ∧ Holds h IrqAction.request cs vs ∧
        (∀ u ∈ us, u.devId ≠ devId) ∧ r.devId = devId := by
  induction as generalizing p rs fuel place with
  | nil =>
    cases hv
    rw [show p = none from hc]
    left
    exact ⟨by cases fuel <;> rfl, fun r hr => nomatch hr⟩
  | cons a as ih =>
    obtain ⟨rfl, x, hx, hc⟩ := hc
    cases hv with
    | cons ha hv =>
      rename_i r rs
      obtain ⟨y, hy, hr⟩ := ha
      rw [hx] at hy
      cases hy
      cases fuel with
      | zero => exact absurd hf (Nat.not_succ_le_zero _)
      | succ fuel =>
        rw [findAction, hx]
        dsimp only
        by_cases hd : x.devId = devId
        · rw [if_pos hd]
          right
          exact ⟨[], a, as, [], r, rs, rfl, rfl, rfl, .nil, hv, fun _ hu => (nomatch hu),
            hr ▸ hd⟩
        · rw [if_neg hd]
          rcases ih (some a) hc hv (Nat.le_of_succ_le_succ hf) with
            ⟨hfind, hno⟩ | ⟨bs, b, cs, us, u, vs, rfl, rfl, hfind, hbs, hcs, hus, hu⟩
          · left
            refine ⟨hfind, ?_⟩
            intro r' hr'
            cases hr' with
            | head => exact hr ▸ hd
            | tail _ hr' => exact hno r' hr'
          · right
            refine ⟨a :: bs, b, cs, r :: us, u, vs, rfl, rfl, ?_, .cons ⟨x, hx, hr⟩ hbs, hcs, ?_,
              hu⟩
            · rw [hfind, List.getLast?_cons]
              cases bs.getLast? <;> rfl
            · intro u' hu'
              cases hu' with
              | head => exact hr ▸ hd
              | tail _ hu' => exact hus u' hu'

/-- An interrupt calls every action of the line in order, and counts it. -/
theorem handleActions_eq {h : Heap IrqAction} (irq : Nat) (hc : Chain h IrqAction.next p as)
    (hv : Holds h IrqAction.request as rs) (hf : as.length ≤ fuel) :
    ∃ h', handleActions irq fuel p h = some (rs.map (·.call irq), h') ∧
      ∀ a x, h.lookup a = some x →
        ∃ x', h'.lookup a = some x' ∧ x'.next = x.next ∧ x'.request = x.request := by
  induction as generalizing p rs fuel h with
  | nil =>
    cases hv
    rw [show p = none from hc]
    exact ⟨h, by cases fuel <;> rfl, fun a x hx => ⟨x, hx, rfl, rfl⟩⟩
  | cons a as ih =>
    have hnd := Chain.nodup hc
    obtain ⟨rfl, x, hx, hc⟩ := hc
    cases hv with
    | cons ha hv =>
      rename_i r rs
      obtain ⟨y, hy, hr⟩ := ha
      rw [hx] at hy
      cases hy
      cases fuel with
      | zero => exact absurd hf (Nat.not_succ_le_zero _)
      | succ fuel =>
        have hkeep : ∀ b ∈ as, (h.insert a { x with irqNums := x.irqNums + 1 }).lookup b =
            h.lookup b :=
          fun b hb => AList.lookup_insert_ne fun he => (List.nodup_cons.1 hnd).1 (he ▸ hb)
        obtain ⟨h', hrun, hh'⟩ := ih (hc.congr hkeep)
          (Holds.congr hv fun b hb y hy => ⟨y, (hkeep b hb).trans hy, rfl⟩)
          (Nat.le_of_succ_le_succ hf)
        refine ⟨h', ?_, ?_⟩
        · rw [handleActions, hx]
          dsimp only
          rw [hrun, ← hr]
          rfl
        · intro b y hy
          by_cases hb : b = a
          · subst hb
            rw [hx] at hy
            cases hy
            obtain ⟨x', hx', hn, hreq⟩ := hh' b _ (AList.lookup_insert h)
            exact ⟨x', hx', hn, hreq⟩
          · exact hh' b y ((AList.lookup_insert_ne hb).trans hy)

theorem setLink_lists {s : IrqSys} {nodes : Nat → List Addr} (hs : s.Up)
    (hl : Lists s.heap IrqAction.next s.head nodes) (hn : nodes irq = bs ++ cs)
    (hr : Chain s.heap IrqAction.next r as) (hd : ∀ a ∈ as, a ∉ bs)
    (ho : ∀ j, j ≠ irq → ∀ a ∈ as, a ∉ nodes j) :
    ∃ s', s.setLink irq bs.getLast? r = some s' ∧ s'.Up ∧ s'.plic = s.plic ∧
      Lists s'.heap IrqAction.next s'.head (Function.update nodes irq (bs ++ as)) ∧
      ∀ a x, s.heap.lookup a = some x →
        ∃ x', s'.heap.lookup a = some x' ∧ x'.request = x.request := by
  rcases List.eq_nil_or_concat' bs with rfl | ⟨bs, b, rfl⟩
  · refine ⟨_, rfl, hs.setDesc rfl rfl, rfl, ?_, fun a x hx => ⟨x, hx, rfl⟩⟩
    rw [setDesc_head]
    exact hl.update irq hr (fun _ _ _ _ => rfl) ho
  · rw [List.append_assoc, List.singleton_append] at hn
    have hc := hl.chain irq
    rw [hn] at hc
    have hb : b ∈ nodes irq := by
      rw [hn]
      exact List.mem_append_right _ List.mem_cons_self
    obtain ⟨q, -, -, x, hx, -⟩ := seg_append.1 hc
    have hnb : b ∉ as := fun h => hd b h (List.mem_append_right _ List.mem_cons_self)
    have hbnew := Chain.relink (x := { x with next := r }) hc hr hnb
    refine ⟨{ s with heap := s.heap.insert b { x with next := r } }, ?_,
      ⟨hs.irqNo, hs.chip, hs.present⟩, rfl, ?_, ?_⟩
    · rw [List.getLast?_concat, setLink, hx]
    · have hup := hl.update irq hbnew
        (fun j hj a ha => AList.lookup_insert_ne fun he =>
          hl.disjoint j irq hj a ha (he ▸ hb)) ?_
      · rw [Function.update_eq_self] at hup
        rw [List.append_assoc, List.singleton_append]
        exact hup
      · intro j hj a ha
        rcases List.mem_append.1 ha with ha | ha
        · exact hl.disjoint irq j hj.symm a (hn ▸ List.mem_append_left _ ha)
        · cases ha with
          | head => exact hl.disjoint irq j hj.symm b hb
          | tail _ ha => exact ho j hj a ha
    · intro a y hy
      by_cases ha : a = b
      · subst ha
        rw [hx] at hy
        cases hy
        exact ⟨_, AList.lookup_insert _, rfl⟩
      · exact ⟨y, (AList.lookup_insert_ne ha).trans hy, rfl⟩

theorem lastPlace_eq {s : IrqSys} (hc : Chain s.heap IrqAction.next (s.desc irq).action as) :
    s.lastPlace irq = some as.getLast? := by
  rw [lastPlace]
  rcases List.eq_nil_or_concat' as with rfl | ⟨bs, b, rfl⟩
  · rw [show (s.desc irq).action = none from hc]
    rfl
  · have hlen := Chain.length_le hc
    rw [List.length_append, List.length_singleton] at hlen
    cases hp : (s.desc irq).action with
    | none =>
      rw [hp] at hc
      obtain ⟨q, hq, hb, -⟩ := seg_append.1 hc
      cases bs with
      | nil => cases hq.trans hb
      | cons => cases hq.1
    | some old =>
      rw [hp] at hc
      dsimp only
      rw [lastAction_eq hc hlen, List.getLast?_concat]
      rfl

/-- `__setup_irq` of a new node: it goes to the end of its line, and the line is enabled. -/
theorem setupIrq_lists {s : IrqSys} {nodes : Nat → List Addr} (hs : s.Up) (hirq : irq < nrIrqs)
    (hl : Lists s.heap IrqAction.next s.head nodes) (hnew : new ∉ s.heap)
    (hnext : action.next = none) :
    ∃ s', setupIrq irq new action { s with heap := s.heap.insert new action } = some (0, s') ∧
      s'.Up ∧ Lists s'.heap IrqAction.next s'.head
        (Function.update nodes irq (nodes irq ++ [new])) ∧
      (∀ a x, s.heap.lookup a = some x →
        ∃ x', s'.heap.lookup a = some x' ∧ x'.request = x.request) ∧
      (∃ x', s'.heap.lookup new = some x' ∧ x'.request = action.request) ∧
      s'.plic.delivers = Function.update s.plic.delivers irq true := by
  have hchip : ({ s with heap := s.heap.insert new action }.desc irq).chip = some plicChip :=
    hs.chip irq hirq
  rw [setupIrq, hchip]
  dsimp only
  generalize hs₂ : adopt irq new action plicChip { s with heap := s.heap.insert new action } = s₂
  have hup : s₂.Up := by
    rw [← hs₂]
    exact Up.setDesc ⟨hs.irqNo, hs.chip, hs.present⟩ rfl rfl
  have hplic : s₂.plic = s.plic := by rw [← hs₂]; rfl
  have hhead : s₂.head = s.head := by
    rw [← hs₂, adopt, setDesc_head]
    exact Function.update_eq_self ..
  have hold : ∀ a x, s.heap.lookup a = some x → s₂.heap.lookup a = some x := by
    intro a x hx
    have ha : a ≠ new := by
      rintro rfl
      exact hnew (AList.lookup_isSome.1 (by rw [hx]; rfl))
    rw [← hs₂]
    exact (AList.lookup_insert_ne ha).trans ((AList.lookup_insert_ne ha).trans hx)
  obtain ⟨action', hlnew, hn', hr'⟩ : ∃ action', s₂.heap.lookup new = some action' ∧
      action'.next = none ∧ action'.request = action.request := by
    rw [← hs₂]
    exact ⟨_, AList.lookup_insert _, hnext, rfl⟩
  have hl₂ : Lists s₂.heap IrqAction.next s₂.head nodes := by
    rw [hhead]
    exact hl.keep fun i a _ x hx => ⟨x, hold a x hx, rfl⟩
  rw [lastPlace_eq (hl₂.chain irq)]
  have hnodes : ∀ j, new ∉ nodes j := fun j ha => hnew ((hl.chain j).mem ha)
  obtain ⟨s₃, hlink, hup₃, hplic₃, hl₃, hkeep⟩ := setLink_lists hup hl₂
    (List.append_nil (nodes irq)).symm (show Chain s₂.heap IrqAction.next (some new) [new] from
      ⟨rfl, action', hlnew, hn'⟩)
    (fun a ha => by rw [List.mem_singleton.1 ha]; exact hnodes irq)
    (fun j _ a ha => by rw [List.mem_singleton.1 ha]; exact hnodes j)
  dsimp only
  rw [hlink]
  have ht := enableIrq_toggled hup₃ hirq
  refine ⟨_, rfl, ht.up, ?_, ?_, ?_, ?_⟩
  · rw [ht.heap, ht.head]
    exact hl₃
  · rw [ht.heap]
    intro a x hx
    exact hkeep a x (hold a x hx)
  · rw [ht.heap]
    obtain ⟨x', hx', hreq⟩ := hkeep new action' hlnew
    exact ⟨x', hx', hreq.trans hr'⟩
  · rw [ht.delivers, hplic₃, hplic]

theorem Held.bound_update {s : IrqSys} (h : s.Held t) (hirq : irq < nrIrqs)
    (requests : List IrqRequest) :
    ∀ j, nrIrqs ≤ j → Function.update t.requests irq requests j = [] := by
  intro j hj
  have he : j ≠ irq := fun he => absurd hirq (Nat.not_lt.2 (he ▸ hj))
  rw [Function.update_of_ne he]
  exact h.bound j hj

theorem requestThreadedIrq_held {s : IrqSys} (h : s.Held t) (irq : Nat) (handler : Option Nat)
    (irqflags : UInt64) (devname : Option (List Byte)) (devId : Nat) (pick : Ptr) :
    ∃ retval calls s',
      s.requestThreadedIrq irq handler irqflags devname devId pick = some ((retval, calls), s') ∧
      s'.Held (t.next (.request irq handler irqflags devname devId pick) (.ret retval calls)) ∧
      (retval ≠ 0 → s' = s) ∧ (retval = 0 ↔ s.accepts irq handler irqflags devId pick = true) ∧
      (retval = 0 → s'.plic.delivers = Function.update s.plic.delivers irq true) := by
  have hfail : s.accepts irq handler irqflags devId pick = false → ∃ retval calls s',
      some ((((-1 : Int), ([] : List IrqCall))), s) = some ((retval, calls), s') ∧
      s'.Held (t.next (.request irq handler irqflags devname devId pick) (.ret retval calls)) ∧
      (retval ≠ 0 → s' = s) ∧ (retval = 0 ↔ s.accepts irq handler irqflags devId pick = true) ∧
      (retval = 0 → s'.plic.delivers = Function.update s.plic.delivers irq true) := by
    intro hno
    refine ⟨-1, [], s, rfl, ?_, fun _ => rfl, ?_, fun h0 => absurd h0 (by decide)⟩
    · cases handler with
      | none => exact h
      | some handler => exact h
    · rw [hno]
      exact ⟨fun h0 => absurd h0 (by decide), fun h0 => (nomatch h0)⟩
  rw [requestThreadedIrq.eq_def]
  by_cases hnc : irq = irqNotConnected
  · rw [if_pos hnc]
    exact hfail (by simp [accepts, hnc])
  by_cases hbad : badFlags irqflags devId
  · rw [if_neg hnc, if_pos hbad]
    exact hfail (by simp [accepts, hbad])
  by_cases hirq : irq < nrIrqs
  swap
  · rw [if_neg hnc, if_neg hbad, if_pos hirq]
    exact hfail (by simp [accepts, hirq])
  rw [if_neg hnc, if_neg hbad, if_neg (not_not.2 hirq)]
  cases handler with
  | none => exact hfail (by simp [accepts])
  | some handler =>
    dsimp only
    cases hm : malloc s.heap pick with
    | none => exact hfail (by simp [accepts, hm])
    | some new =>
      obtain ⟨nodes, hl, hv⟩ := h.lists
      obtain ⟨s', hsetup, hup, hl', hkeep, ⟨x, hx, hreq⟩, hdel⟩ :=
        setupIrq_lists h.up hirq hl (malloc_fresh hm) (show IrqAction.next ⟨handler, devId, none,
          0, irqflags.toUInt32, 0,
          (devname.getD "none".toUTF8.toList).take (irqactionNameMax - 1)⟩ = none from rfl)
      dsimp only
      rw [hsetup]
      have hj : ∀ j, Holds s'.heap IrqAction.request (nodes j) (t.requests j) := fun j =>
        Holds.congr (hv j) fun a _ x hx => hkeep a x hx
      refine ⟨0, _, s', rfl, ⟨hup, ⟨_, hl', ?_⟩, h.bound_update hirq _⟩, fun h0 => (h0 rfl).elim,
        ?_, fun _ => hdel⟩
      · apply holds_update (List.rel_append (hj irq) (.cons ⟨x, hx, hreq⟩ .nil))
        exact fun j _ => hj j
      · have hok : s.accepts irq (some handler) irqflags devId pick = true := by
          simp [accepts, hnc, hbad, hirq, hm]
        exact ⟨fun _ => hok, fun _ => rfl⟩

theorem shutdown_eq {s : IrqSys} (hs : s.Up) (hirq : irq < nrIrqs) :
    ∃ s', (if (s.desc irq).action = none then s.disableIrq (s.desc irq).irq else s) = s' ∧
      s'.Up ∧ s'.heap = s.heap ∧ s'.head = s.head ∧ s'.plic.delivers =
        if s.head irq = none then Function.update s.plic.delivers irq false
        else s.plic.delivers := by
  refine ⟨_, rfl, ?_⟩
  by_cases hp : (s.desc irq).action = none
  · have ht := disableIrq_toggled hs hirq
    have hhead : s.head irq = none := hp
    rw [if_pos hp, hs.irqNo irq hirq, if_pos hhead]
    exact ⟨ht.up, ht.heap, ht.head, ht.delivers⟩
  · have hhead : s.head irq ≠ none := hp
    rw [if_neg hp, if_neg hhead]
    exact ⟨hs, rfl, rfl, rfl⟩

/-- Unlinking the first action of a `dev_id` and freeing it takes it out of its line. -/
theorem unlink_lists {s s₁ : IrqSys} {nodes : Nat → List Addr}
    (hl : Lists s.heap IrqAction.next s.head nodes) (hn : nodes irq = bs ++ a :: cs)
    (hl₁ : Lists s₁.heap IrqAction.next s₁.head (Function.update nodes irq (bs ++ cs))) :
    a ∉ bs ++ cs ∧ Lists (s₁.heap.erase a) IrqAction.next s₁.head
      (Function.update nodes irq (bs ++ cs)) := by
  have hc := hl.chain irq
  rw [hn] at hc
  have hnd := Chain.nodup hc
  have ha : a ∈ nodes irq := hn ▸ List.mem_append_right _ List.mem_cons_self
  have habs : a ∉ bs ++ cs := by
    intro hmem
    rcases List.mem_append.1 hmem with hb | hb
    · exact (List.nodup_append.1 hnd).2.2 a hb a List.mem_cons_self rfl
    · exact (List.nodup_cons.1 (List.nodup_append.1 hnd).2.1).1 hb
  have hne : ∀ j, ∀ b ∈ Function.update nodes irq (bs ++ cs) j, b ≠ a := by
    intro j b hb he
    by_cases hj : j = irq
    · rw [hj, Function.update_self] at hb
      exact habs (he ▸ hb)
    · rw [Function.update_of_ne hj] at hb
      exact hl.disjoint j irq hj b hb (he ▸ ha)
  exact ⟨habs, hl₁.keep fun j b hb y hy =>
    ⟨y, (AList.lookup_erase_ne (hne j b hb)).trans hy, rfl⟩⟩

theorem next_free_none (t : IrqHistory) (hno : ∀ r ∈ t.requests irq, r.devId ≠ devId) :
    t.next (.free irq devId) (.name none) = t := by
  have herase : (t.requests irq).eraseP (fun r => decide (r.devId = devId)) = t.requests irq :=
    List.eraseP_of_forall_not fun r hr => decide_eq_true_iff.not.2 (hno r hr)
  show IrqHistory.mk (Function.update t.requests irq _) t.requested = t
  rw [herase, Function.update_eq_self]

theorem freeIrq_held {s : IrqSys} (h : s.Held t) (irq devId : Nat) :
    ∃ name s', s.freeIrq irq devId = some (name, s') ∧
      s'.Held (t.next (.free irq devId) (.name name)) ∧
      (name = none → s' = s ∧ t.next (.free irq devId) (.name name) = t) ∧
      s'.plic.delivers = t.delivers s.plic.delivers (.free irq devId) (.name name) := by
  obtain ⟨nodes, hl, hv⟩ := h.lists
  by_cases hirq : irq < nrIrqs
  swap
  · rw [freeIrq, if_pos hirq]
    have hempty := h.bound irq (Nat.le_of_not_lt hirq)
    have hno : ∀ r ∈ t.requests irq, r.devId ≠ devId := by
      rw [hempty]
      exact fun r hr => nomatch hr
    have hsame := next_free_none t hno
    exact ⟨none, s, rfl, hsame.symm ▸ h, fun _ => ⟨rfl, hsame⟩, rfl⟩
  rw [freeIrq, if_neg (not_not.2 hirq)]
  rcases findAction_eq devId none (hl.chain irq) (hv irq) (hl.chain irq).length_le with
    ⟨hfind, hno⟩ | ⟨bs, a, cs, us, r, vs, hn, hrs, hfind, hbs, hcs, hus, hr⟩
  · rw [show findAction s.heap devId s.heap.keys.length none (s.desc irq).action = _ from hfind]
    have hsame := next_free_none t hno
    exact ⟨none, s, rfl, hsame.symm ▸ h, fun _ => ⟨rfl, hsame⟩, rfl⟩
  rw [show findAction s.heap devId s.heap.keys.length none (s.desc irq).action = _ from hfind,
    Option.or_none]
  dsimp only
  have hc := hl.chain irq
  rw [hn] at hc
  have hnd := Chain.nodup hc
  obtain ⟨q, -, rfl, x, hx, hrest⟩ := seg_append.1 hc
  rw [hx]
  dsimp only
  have hsub : ∀ b ∈ cs, b ∈ nodes irq := fun b hb =>
    hn ▸ List.mem_append_right _ (List.mem_cons_of_mem _ hb)
  obtain ⟨s₁, hlink, hup₁, hplic₁, hl₁, hkeep⟩ := setLink_lists h.up hl hn hrest
    (fun b hb hb' => (List.nodup_append.1 hnd).2.2 b hb' b (List.mem_cons_of_mem _ hb) rfl)
    (fun j hj b hb => hl.disjoint irq j hj.symm b (hsub b hb))
  obtain ⟨habs, hl₂⟩ := unlink_lists hl hn hl₁
  obtain ⟨s₂, hs₂, hup₂, hheap₂, hhead₂, hdel₂⟩ := shutdown_eq hup₁ hirq
  rw [hlink]
  dsimp only
  rw [hs₂]
  have ha : a ∈ nodes irq := hn ▸ List.mem_append_right _ List.mem_cons_self
  have hview : ∀ as rs, Holds s.heap IrqAction.request as rs → a ∉ as →
      Holds (s₁.heap.erase a) IrqAction.request as rs := fun as rs hh hnot =>
    Holds.erase (hh.congr fun b _ y hy => hkeep b y hy) hnot
  have herase : (t.requests irq).eraseP (fun r => decide (r.devId = devId)) = us ++ vs := by
    rw [hrs, List.eraseP_append_right _ fun u hu => decide_eq_true_iff.not.2 (hus u hu),
      List.eraseP_cons, decide_eq_true hr]
    rfl
  have hheld : Holds s.heap IrqAction.request (bs ++ cs) (us ++ vs) := List.rel_append hbs hcs
  refine ⟨some x.name, _, rfl, ⟨⟨hup₂.irqNo, hup₂.chip, hup₂.present⟩,
    ⟨Function.update nodes irq (bs ++ cs), ?_, ?_⟩, h.bound_update hirq _⟩,
    fun h => (nomatch h), ?_⟩
  · show Lists (s₂.heap.erase a) IrqAction.next s₂.head _
    rw [hheap₂, hhead₂]
    exact hl₂
  · show ∀ j, Holds (s₂.heap.erase a) _ _ (Function.update t.requests irq _ j)
    rw [hheap₂, herase]
    apply holds_update (hview _ _ hheld habs)
    exact fun j hj => hview _ _ (hv j) fun hmem => hl.disjoint j irq hj a hmem ha
  · have hhd : s₁.head irq = none ↔ us ++ vs = [] := by
      have hch := hl₁.chain irq
      rw [Function.update_self] at hch
      exact (Chain.eq_none_iff hch).trans (Holds.nil_iff hheld)
    show s₂.plic.delivers = if Function.update t.requests irq _ irq = [] then _ else _
    rw [hdel₂, hplic₁, Function.update_self, herase]
    by_cases hnil : us ++ vs = []
    · rw [if_pos hnil, if_pos (hhd.2 hnil)]
    · rw [if_neg hnil, if_neg fun hp => hnil (hhd.1 hp)]

theorem genericHandleIrq_held {s : IrqSys} (h : s.Held t) (hirq : irq < nrIrqs) :
    ∃ s', s.genericHandleIrq irq = some ((0, (t.requests irq).map (·.call irq)), s') ∧
      s'.Held t ∧ s'.plic.delivers = s.plic.delivers := by
  obtain ⟨nodes, hl, hv⟩ := h.lists
  obtain ⟨h', hrun, hkeep⟩ :=
    handleActions_eq irq (hl.chain irq) (hv irq) (hl.chain irq).length_le
  have hact : handleActions irq s.heap.keys.length (s.desc irq).action s.heap = _ := hrun
  rw [genericHandleIrq, if_neg (not_not.2 hirq), h.up.irqNo irq hirq, hact]
  dsimp only
  rw [h.up.chip irq hirq]
  refine ⟨_, rfl, ⟨⟨h.up.irqNo, h.up.chip, h.up.present⟩, ⟨nodes, ?_, ?_⟩, h.bound⟩, rfl⟩
  · apply hl.keep
    intro _ a _ x hx
    obtain ⟨x', hx', hn, -⟩ := hkeep a x hx
    exact ⟨x', hx', hn⟩
  · intro j
    apply Holds.congr (hv j)
    intro a _ x hx
    obtain ⟨x', hx', -, hreq⟩ := hkeep a x hx
    exact ⟨x', hx', hreq⟩

theorem Toggled.held {s : IrqSys} (ht : s.Toggled irq enable s') (h : s.Held t) : s'.Held t := by
  refine ⟨ht.up, ?_, h.bound⟩
  rw [ht.heap, ht.head]
  exact h.lists

/-- One call: it does not go wrong, and what it returns says what it did. -/
theorem irqStep_held {s : IrqSys} (h : s.Held t) (op : IrqOp) :
    ∃ out s', irqStep s op = some (out, s') ∧ s'.Held (t.next op out) ∧
      (out.Failed → s' = s ∧ t.next op out = t) ∧
      s'.plic.delivers = t.delivers s.plic.delivers op out := by
  cases op with
  | request irq handler irqflags devname devId pick =>
    obtain ⟨retval, calls, s', hs', hh, hfail, hok, hdel⟩ :=
      requestThreadedIrq_held h irq handler irqflags devname devId pick
    refine ⟨.ret retval calls, s', by rw [irqStep, hs']; rfl, hh, ?_, ?_⟩
    · intro h0
      refine ⟨hfail h0, ?_⟩
      cases handler with
      | none => rfl
      | some handler => exact if_neg h0
    · cases handler with
      | none =>
        have h0 : retval ≠ 0 := fun h0 => by simp [accepts] at hok; exact hok h0
        rw [hfail h0]
        rfl
      | some handler =>
        rw [IrqHistory.delivers]
        by_cases h0 : retval = 0
        · rw [if_pos h0, hdel h0]
        · rw [if_neg h0, hfail h0]
  | free irq devId =>
    obtain ⟨name, s', hs', hh, hfail, hdel⟩ := freeIrq_held h irq devId
    exact ⟨.name name, s', by rw [irqStep, hs']; rfl, hh, hfail, hdel⟩
  | interrupt irq =>
    by_cases hirq : irq < nrIrqs
    · obtain ⟨s', hs', hh, hdel⟩ := genericHandleIrq_held h hirq
      exact ⟨.ret 0 _, s', by rw [irqStep, hs']; rfl, hh, fun h0 => (h0 rfl).elim, hdel⟩
    · exact ⟨.ret (-1) [], s, by rw [irqStep, genericHandleIrq, if_pos hirq]; rfl, h,
        fun _ => ⟨rfl, rfl⟩, rfl⟩
  | disable irq =>
    refine ⟨.unit, _, rfl, ?_, fun h0 => h0.elim, ?_⟩
    · by_cases hirq : irq < nrIrqs
      · exact (disableIrq_toggled h.up hirq).held h
      · rw [disableIrq, if_neg hirq]
        exact h
    · rw [IrqHistory.delivers]
      by_cases hirq : irq < nrIrqs
      · rw [if_pos hirq, (disableIrq_toggled h.up hirq).delivers]
      · rw [disableIrq, if_neg hirq, if_neg hirq]
  | enable irq =>
    refine ⟨.unit, _, rfl, ?_, fun h0 => h0.elim, ?_⟩
    · by_cases hirq : irq < nrIrqs
      · exact (enableIrq_toggled h.up hirq).held h
      · rw [enableIrq, if_neg hirq]
        exact h
    · rw [IrqHistory.delivers]
      by_cases hirq : irq < nrIrqs
      · rw [if_pos hirq, (enableIrq_toggled h.up hirq).delivers]
      · rw [enableIrq, if_neg hirq, if_neg hirq]

end IrqSys

end D1Flash
