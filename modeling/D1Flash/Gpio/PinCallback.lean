import D1Flash.Gpio.GpioPin

namespace D1Flash
set_option autoImplicit true

namespace GpioSys

theorem hasVirq_iff (s : GpioSys) :
    s.hasVirq irq = true ↔ ∃ i < irqDescSize, irq = gpioIrqStart + i := by
  rw [hasVirq, List.any_eq_true]
  constructor
  · rintro ⟨i, hi, hv⟩
    have hi := List.mem_range.1 hi
    rw [decide_eq_true_iff, (s.wired i hi).2] at hv
    exact ⟨i, hi, hv.symm⟩
  · rintro ⟨i, hi, hv⟩
    refine ⟨i, List.mem_range.2 hi, ?_⟩
    rw [decide_eq_true_iff, (s.wired i hi).2, hv]

/-- The pins of the table are those of banks B to G. -/
theorem halGpioToIrq_eq (s : GpioSys) (h : s.halGpioToIrq pin = some r) :
    (∃ i < irqDescSize, pin = irqPerBank + i ∧ r = some (gpioIrqStart + i)) ∨
      ((∀ i < irqDescSize, pin ≠ irqPerBank + i) ∧ r = none) := by
  rw [halGpioToIrq] at h
  split at h
  case isFalse => cases h
  case isTrue =>
    have h := Option.some.inj h
    cases hf : (List.range irqDescSize).find? fun i => decide (pin = (s.irqDesc i).pin) with
    | none =>
      rw [hf] at h
      right
      refine ⟨fun i hi heq => ?_, h.symm⟩
      have hnone := List.find?_eq_none.1 hf i (List.mem_range.2 hi)
      rw [decide_eq_true_iff, (s.wired i hi).1] at hnone
      exact hnone heq
    | some i =>
      rw [hf] at h
      left
      have hi := List.mem_range.1 (List.mem_of_find?_eq_some hf)
      have hpin := List.find?_some hf
      rw [decide_eq_true_iff, (s.wired i hi).1] at hpin
      refine ⟨i, hi, hpin, ?_⟩
      rw [← h, Option.map_some, (s.wired i hi).2]

theorem halGpioIrqRequest_desc {s : GpioSys}
    (h : s.halGpioIrqRequest irq (some hdle) flags data = some (ret, s')) :
    ∃ i < irqDescSize, irq = gpioIrqStart + i ∧ 0 ≤ ret ∧
      s'.irqDesc = if (s.irqDesc i).handleIrq = .bad
        then Function.update s.irqDesc i { s.irqDesc i with handleIrq := .fn hdle, flags, data }
        else s.irqDesc := by
  rw [halGpioIrqRequest] at h
  split at h
  case isFalse => cases h
  case isTrue hv =>
    obtain ⟨i, hi, rfl⟩ := s.hasVirq_iff.1 hv
    refine ⟨i, hi, rfl, ?_⟩
    have hrange : gpioIrqStart ≤ gpioIrqStart + i ∧ gpioIrqStart + i < irqDescSize + gpioIrqStart :=
      ⟨Nat.le_add_right _ _, by rw [Nat.add_comm]; exact Nat.add_lt_add_right hi _⟩
    rw [if_pos hrange, Nat.add_sub_cancel_left] at h
    dsimp only at h
    have hmux : ∀ s : GpioSys, (s.halGpioPinmuxSetFunction (s.irqDesc i).pin gpioMuxselEint) =
        (0, (s.halGpioPinmuxSetFunction (s.irqDesc i).pin gpioMuxselEint).2) ∧
        (s.halGpioPinmuxSetFunction (s.irqDesc i).pin gpioMuxselEint).2.irqDesc = s.irqDesc := by
      intro s
      have hlt : (s.irqDesc i).pin < bankBoundary := by
        rw [(s.wired i hi).1]
        exact Nat.lt_of_lt_of_le (Nat.add_lt_add_left hi _) (by decide)
      rw [halGpioPinmuxSetFunction, if_pos hlt]
      exact ⟨rfl, rfl⟩
    rw [(hmux _).1] at h
    dsimp only at h
    rw [if_neg (by decide)] at h
    cases h
    refine ⟨Int.natCast_nonneg _, ?_⟩
    rw [(hmux _).2]
    show (if (s.irqDesc i).handleIrq = GpioHandler.bad then s.setHandler i (.fn hdle) flags data
      else s).irqDesc = _
    split
    · rfl
    · rfl

theorem halGpioIrqFree_desc {s : GpioSys} (h : s.halGpioIrqFree irq = some (ret, s')) :
    ∃ i < irqDescSize, irq = gpioIrqStart + i ∧
      s'.irqDesc = Function.update s.irqDesc i
        { s.irqDesc i with handleIrq := .bad, flags := 0, data := 0 } := by
  rw [halGpioIrqFree] at h
  split at h
  case isFalse => cases h
  case isTrue hv =>
    obtain ⟨i, hi, rfl⟩ := s.hasVirq_iff.1 hv
    have hrange : gpioIrqStart ≤ gpioIrqStart + i ∧ gpioIrqStart + i < irqDescSize + gpioIrqStart :=
      ⟨Nat.le_add_right _ _, by rw [Nat.add_comm]; exact Nat.add_lt_add_right hi _⟩
    rw [if_pos hrange, Nat.add_sub_cancel_left] at h
    cases h
    exact ⟨i, hi, rfl, rfl⟩

theorem halGpioIrqEnable_desc {s : GpioSys} (h : s.halGpioIrqEnable irq = some (ret, s')) :
    s'.irqDesc = s.irqDesc := by
  rw [halGpioIrqEnable] at h
  split at h
  case isFalse => cases h
  case isTrue =>
    split at h
    · cases h
      rfl
    · cases h
      rfl

theorem halGpioIrqDisable_desc {s : GpioSys} (h : s.halGpioIrqDisable irq = some (ret, s')) :
    s'.irqDesc = s.irqDesc := by
  rw [halGpioIrqDisable] at h
  split at h
  case isFalse => cases h
  case isTrue =>
    split at h
    · cases h
      rfl
    · cases h
      rfl

end GpioSys

/-- What the calls asked for, by pin: the last callback attached, and whether an irq mode was set,
since the pin was last initialised or released. -/
structure PinLog where
  attached : Nat → Option PinCall
  modeSet : Nat → Bool

def PinLog.empty : PinLog := ⟨fun _ => none, fun _ => false⟩

def PinLog.clear (t : PinLog) (p : Nat) : PinLog :=
  ⟨Function.update t.attached p none, Function.update t.modeSet p false⟩

def PinLog.attach (t : PinLog) (p : Nat) (call : PinCall) : PinLog :=
  { t with attached := Function.update t.attached p (some call) }

def PinLog.setMode (t : PinLog) (p : Nat) : PinLog :=
  { t with modeSet := Function.update t.modeSet p true }

theorem PinLog.attach_self (t : PinLog) (p : Nat) (call : PinCall) :
    (t.attach p call).attached p = some call :=
  Function.update_self _ _ _

theorem PinLog.attach_of_ne (t : PinLog) (call : PinCall) (h : q ≠ p) :
    (t.attach p call).attached q = t.attached q :=
  Function.update_of_ne h _ _

theorem PinLog.setMode_self (t : PinLog) (p : Nat) : (t.setMode p).modeSet p = true :=
  Function.update_self _ _ _

theorem PinLog.setMode_of_ne (t : PinLog) (h : q ≠ p) :
    (t.setMode p).modeSet q = t.modeSet q :=
  Function.update_of_ne h _ _

theorem PinLog.clear_self (t : PinLog) (p : Nat) :
    (t.clear p).attached p = none ∧ (t.clear p).modeSet p = false :=
  ⟨Function.update_self _ _ _, Function.update_self _ _ _⟩

theorem PinLog.clear_of_ne (t : PinLog) (h : q ≠ p) :
    (t.clear p).attached q = t.attached q ∧ (t.clear p).modeSet q = t.modeSet q :=
  ⟨Function.update_of_ne h _ _, Function.update_of_ne h _ _⟩

/-- The log after a call, by the pin of the handle and the return value. -/
def PinLog.next (t : PinLog) (s : PinSys) (op : PinOp) (out : Int) : PinLog :=
  match op with
  | .init _ pinName => if out = csiOk then t.clear pinName else t
  | .uninit pin => if pin = 0 then t else t.clear (s.handles pin).pinIdx
  | .attach pin callback arg =>
    if out = csiOk then t.attach (s.handles pin).pinIdx ⟨callback, pin, arg⟩ else t
  | .irqMode pin _ => if out = csiOk then t.setMode (s.handles pin).pinIdx else t
  | .irqEnable _ _ => t

namespace PinSys

/-- No access went outside of the table, and were any interrupt to fire now, no NULL pin would be
dereferenced and a pin attached and in use would have its own callback called. -/
def Answers (s : PinSys) (t : PinLog) : Prop :=
  s.outside = false ∧ ∀ i < irqDescSize, s.fire i ≠ none ∧
    ∀ call, t.attached (irqPerBank + i) = some call → t.modeSet (irqPerBank + i) = true →
      s.fire i = some (if call.callback = 0 then none else some call)

/-- What every run keeps of the tables and the log. -/
structure Kept (s : PinSys) (t : PinLog) : Prop where
  idx : ∀ h, (s.handles h).pinIdx < gpioMax
  num : ∀ p, (s.mgr p).irqNum = 0 ∨ (s.mgr p).irqNum = -1 ∨
    ∃ i < irqDescSize, p = irqPerBank + i ∧ (s.mgr p).irqNum = (gpioIrqStart + i : Nat)
  mode : ∀ p, t.modeSet p = true → ∃ i < irqDescSize, p = irqPerBank + i ∧
    (s.mgr p).irqNum = (gpioIrqStart + i : Nat) ∧ (s.gpio.irqDesc i).handleIrq ≠ .bad
  attached : ∀ p call, t.attached p = some call → (s.mgr p).pin = call.pin ∧ call.pin ≠ 0

/-- The interrupt of an entry, in terms of the tables. -/
structure Entry (s : PinSys) (t : PinLog) (i : Nat) : Prop where
  notNull : (s.gpio.irqDesc i).handleIrq ≠ .bad →
    (s.mgr (irqPerBank + i)).irqNum = (gpioIrqStart + i : Nat) → (s.mgr (irqPerBank + i)).pin ≠ 0
  bound : ∀ call, t.attached (irqPerBank + i) = some call → t.modeSet (irqPerBank + i) = true →
    (s.handles call.pin).callback = call.callback ∧
      (call.callback ≠ 0 → (s.gpio.irqDesc i).data = call.arg)

theorem irq_pos (i : Nat) : (0 : Int) < (gpioIrqStart + i : Nat) :=
  Int.natCast_pos.2 (Nat.add_pos_left (by decide) i)

theorem called_iff (call : PinCall) (callback data : Nat) :
    ((if callback = 0 then none else some ⟨callback, call.pin, data⟩) =
      if call.callback = 0 then none else some call) ↔
    callback = call.callback ∧ (call.callback ≠ 0 → data = call.arg) := by
  obtain ⟨callback', pin, arg⟩ := call
  by_cases h : callback = 0
  · by_cases h' : callback' = 0
    · simp only [h, h', if_true, ne_eq, not_true, false_implies, and_self]
    · simp only [h, h', if_true, if_false, reduceCtorEq, false_iff, not_and]
      exact fun heq => (h' heq.symm).elim
  · by_cases h' : callback' = 0
    · simp only [h, h', if_true, if_false, reduceCtorEq, false_and]
    · simp only [h, h', if_false, Option.some.injEq, PinCall.mk.injEq, true_and, ne_eq,
        not_false_eq_true, true_implies]

theorem Kept.find {s : PinSys} (h : s.Kept t) (hi : i < irqDescSize) :
    ((List.range gpioMax).find? fun p => (s.mgr p).irqNum = (gpioIrqStart + i : Nat)) =
      if (s.mgr (irqPerBank + i)).irqNum = (gpioIrqStart + i : Nat) then some (irqPerBank + i)
      else none := by
  have hown : ∀ p, (s.mgr p).irqNum = (gpioIrqStart + i : Nat) → p = irqPerBank + i := by
    intro p hp
    rcases h.num p with h0 | h1 | ⟨j, hj, rfl, hn⟩
    · have hpos := irq_pos i
      rw [← hp, h0] at hpos
      exact absurd hpos (by decide)
    · have hpos := irq_pos i
      rw [← hp, h1] at hpos
      exact absurd hpos (by decide)
    · rw [hn] at hp
      rw [Nat.add_left_cancel (Int.natCast_inj.1 hp)]
  cases hf : (List.range gpioMax).find? fun p =>
      decide ((s.mgr p).irqNum = (gpioIrqStart + i : Nat)) with
  | none =>
    have hlt : irqPerBank + i < gpioMax :=
      Nat.lt_of_lt_of_le (Nat.add_lt_add_left hi _) (by decide)
    have hnone := List.find?_eq_none.1 hf _ (List.mem_range.2 hlt)
    rw [decide_eq_true_iff] at hnone
    rw [if_neg hnone]
  | some p =>
    have hp := List.find?_some hf
    rw [decide_eq_true_iff] at hp
    have heq := hown p hp
    subst heq
    rw [if_pos hp]

theorem Kept.fire_eq {s : PinSys} (h : s.Kept t) (hi : i < irqDescSize) :
    s.fire i =
      if (s.gpio.irqDesc i).handleIrq = .bad ∨
          (s.mgr (irqPerBank + i)).irqNum ≠ (gpioIrqStart + i : Nat) then some none
      else if (s.mgr (irqPerBank + i)).pin = 0 then none
      else
        let pin := (s.mgr (irqPerBank + i)).pin
        some (if (s.handles pin).callback = 0 then none
          else some ⟨(s.handles pin).callback, pin, (s.gpio.irqDesc i).data⟩) := by
  rw [fire]
  cases hh : (s.gpio.irqDesc i).handleIrq with
  | bad => rw [if_pos (.inl rfl)]
  | fn addr =>
    dsimp only
    rw [irqHandlers, (s.gpio.wired i hi).2, h.find hi]
    by_cases hn : (s.mgr (irqPerBank + i)).irqNum = (gpioIrqStart + i : Nat)
    · rw [if_pos hn, if_neg (fun hor => hor.elim nofun fun hne => hne hn)]
      dsimp only
      split
      · rfl
      · by_cases hc : (s.handles (s.mgr (irqPerBank + i)).pin).callback = 0
        · rw [if_pos hc, if_neg (not_not.2 hc)]
        · rw [if_neg hc, if_pos hc]
    · rw [if_neg hn, if_pos (.inr hn)]

/-- An interrupt answers as it should exactly when the tables agree for its entry. -/
theorem Kept.entry_iff {s : PinSys} (h : s.Kept t) (hi : i < irqDescSize) :
    (s.fire i ≠ none ∧ ∀ call, t.attached (irqPerBank + i) = some call →
      t.modeSet (irqPerBank + i) = true →
      s.fire i = some (if call.callback = 0 then none else some call)) ↔ s.Entry t i := by
  rw [h.fire_eq hi]
  constructor
  · rintro ⟨hnull, hcall⟩
    constructor
    · intro hbad hnum hpin
      apply hnull
      rw [if_neg (fun hor => hor.elim hbad fun hne => hne hnum), if_pos hpin]
    · intro call hatt hmode
      obtain ⟨j, -, heq, hnum, hbad⟩ := h.mode _ hmode
      cases Nat.add_left_cancel heq
      obtain ⟨hpin, hne⟩ := h.attached _ _ hatt
      have hfire := hcall call hatt hmode
      rw [if_neg (fun hor => hor.elim hbad fun hne => hne hnum), hpin, if_neg hne] at hfire
      exact (called_iff call _ _).1 (Option.some.inj hfire)
  · intro he
    constructor
    · split
      · nofun
      · next hor =>
        split
        · next hpin =>
          have hboth := not_or.1 hor
          exact (he.notNull hboth.1 (not_not.1 hboth.2) hpin).elim
        · nofun
    · intro call hatt hmode
      obtain ⟨j, -, heq, hnum, hbad⟩ := h.mode _ hmode
      cases Nat.add_left_cancel heq
      obtain ⟨hpin, hne⟩ := h.attached _ _ hatt
      rw [if_neg (fun hor => hor.elim hbad fun hne => hne hnum), hpin, if_neg hne]
      exact congrArg some ((called_iff call _ _).2 (he.bound call hatt hmode))

theorem Kept.answers_iff {s : PinSys} (h : s.Kept t) :
    s.Answers t ↔ s.outside = false ∧ ∀ i < irqDescSize, s.Entry t i := by
  apply and_congr_right
  intro _
  constructor
  · exact fun ha i hi => (h.entry_iff hi).1 (ha i hi)
  · exact fun ha i hi => (h.entry_iff hi).2 (ha i hi)

theorem entry_congr {s s' : PinSys} {t t' : PinLog} (hd : s'.gpio.irqDesc i = s.gpio.irqDesc i)
    (hm : s'.mgr (irqPerBank + i) = s.mgr (irqPerBank + i))
    (ha : t'.attached (irqPerBank + i) = t.attached (irqPerBank + i))
    (hmode : t'.modeSet (irqPerBank + i) = t.modeSet (irqPerBank + i))
    (hcb : ∀ call, t.attached (irqPerBank + i) = some call → t.modeSet (irqPerBank + i) = true →
      (s'.handles call.pin).callback = (s.handles call.pin).callback) :
    s'.Entry t' i ↔ s.Entry t i := by
  constructor
  · intro he
    constructor
    · rw [← hd, ← hm]
      exact he.notNull
    · intro call hatt hset
      rw [← hcb call hatt hset, ← hd]
      exact he.bound call (ha.trans hatt) (hmode.trans hset)
  · intro he
    constructor
    · rw [hd, hm]
      exact he.notNull
    · intro call hatt hset
      rw [ha] at hatt
      rw [hmode] at hset
      rw [hcb call hatt hset, hd]
      exact he.bound call hatt hset

end PinSys

/-- The pin has a line already, or one can be looked up for it. -/
def PinSys.HasLine (s : PinSys) (p : Nat) : Prop :=
  (s.mgr p).irqNum ≠ -1 ∨ ∃ i < irqDescSize, p = irqPerBank + i

/-- What a call must meet: the name of an initialised pin is under the end of the table; a handle is
not released or attached again while another pin in use has it with a different callback; a pin in
use is attached again only with the data its line was requested with; and an irq mode is set on a
pin that is attached, with the argument of that attachment as the data of the line. -/
def PinOp.Ok (s : PinSys) (t : PinLog) : PinOp → Prop
  | .init pin pinName => pin ≠ 0 → pinName ≠ gpioMax
  | .uninit pin => pin ≠ 0 → ∀ q call, q ≠ (s.handles pin).pinIdx → t.attached q = some call →
      call.pin = pin → t.modeSet q = true → call.callback = 0
  | .attach pin callback arg =>
    let p := (s.handles pin).pinIdx
    pin ≠ 0 → s.HasLine p →
      (∀ i, p = irqPerBank + i → t.modeSet p = true → callback ≠ 0 →
        (s.gpio.irqDesc i).data = arg) ∧
      ∀ q call, q ≠ p → t.attached q = some call → call.pin = pin → t.modeSet q = true →
        call.callback = callback
  | .irqMode pin mode =>
    let p := (s.handles pin).pinIdx
    pin ≠ 0 → PinSys.irqModeType mode ≠ none → ∀ i < irqDescSize, p = irqPerBank + i →
      (s.mgr p).pin ≠ 0 ∧ ∀ call, t.attached p = some call →
        (s.handles call.pin).callback = call.callback ∧ (call.callback ≠ 0 →
          (if (s.gpio.irqDesc i).handleIrq = .bad then (s.handles pin).arg
            else (s.gpio.irqDesc i).data) = call.arg)
  | .irqEnable _ _ => True

/-- What one call does to a kept state that answers. -/
def PinStepOk (s : PinSys) (t : PinLog) (op : PinOp) (s' : PinSys) (t' : PinLog) : Prop :=
  (s'.outside = false → s'.Kept t') ∧
    ((s'.outside = false ∧ ∀ i < irqDescSize, s'.Entry t' i) ↔ op.Ok s t)

namespace PinSys

theorem Kept.idle {s : PinSys} (h : s.Kept t) (hout : s.outside = false)
    (he : ∀ i < irqDescSize, s.Entry t i) (hok : op.Ok s t) : PinStepOk s t op s t :=
  ⟨fun _ => h, fun _ => hok, fun _ => ⟨hout, he⟩⟩

theorem reach_eq {s : PinSys} (h : p < gpioMax) : s.reach p = s := by
  rw [reach, decide_eq_false (Nat.not_le.2 h), Bool.or_false]

theorem Kept.clear {s s' : PinSys} (h : s.Kept t) (hidx : ∀ q, (s'.handles q).pinIdx < gpioMax)
    (hm : ∀ q, q ≠ p → s'.mgr q = s.mgr q) (hp : (s'.mgr p).irqNum = -1 ∨ s'.mgr p = s.mgr p)
    (hd : ∀ i, irqPerBank + i ≠ p → s'.gpio.irqDesc i = s.gpio.irqDesc i) :
    s'.Kept (t.clear p) := by
  constructor
  · exact hidx
  · intro q
    by_cases hq : q = p
    · subst hq
      rcases hp with hp | hp
      · exact .inr (.inl hp)
      · rw [hp]
        exact h.num q
    · rw [hm q hq]
      exact h.num q
  · intro q hset
    by_cases hq : q = p
    · subst hq
      rw [(t.clear_self q).2] at hset
      cases hset
    · rw [(t.clear_of_ne hq).2] at hset
      obtain ⟨i, hi, rfl, hnum, hbad⟩ := h.mode q hset
      refine ⟨i, hi, rfl, ?_, ?_⟩
      · rw [hm _ hq]
        exact hnum
      · rw [hd i hq]
        exact hbad
  · intro q call hatt
    by_cases hq : q = p
    · subst hq
      rw [(t.clear_self q).1] at hatt
      cases hatt
    · rw [(t.clear_of_ne hq).1] at hatt
      rw [hm _ hq]
      exact h.attached q call hatt

theorem csiGpioPinInit_ok {s : PinSys} (h : s.Kept t) (hout : s.outside = false)
    (he : ∀ i < irqDescSize, s.Entry t i) (hs : s.csiGpioPinInit pin pinName = (out, s')) :
    PinStepOk s t (.init pin pinName) s' (t.next s (.init pin pinName) out) := by
  rw [csiGpioPinInit] at hs
  by_cases hpin : pin = 0
  · rw [if_pos hpin] at hs
    cases hs
    apply h.idle hout he
    exact fun hne => (hne hpin).elim
  rw [if_neg hpin] at hs
  by_cases hmax : pinName > gpioMax
  · rw [if_pos hmax] at hs
    cases hs
    apply h.idle hout he
    exact fun _ => Nat.ne_of_gt hmax
  rw [if_neg hmax] at hs
  obtain ⟨rfl, hg, hm, hh, ho⟩ : out = csiOk ∧ s'.gpio = s.gpio ∧
      s'.mgr = Function.update s.mgr pinName { s.mgr pinName with irqNum := -1 } ∧
      s'.handles = Function.update s.handles pin { s.handles pin with pinIdx := pinName } ∧
      s'.outside = decide (gpioMax ≤ pinName) := by
    cases hs
    exact ⟨rfl, rfl, rfl, rfl, by rw [setMgr, reach, setHandle, hout, Bool.false_or]⟩
  clear hs
  have hnum : (s'.mgr pinName).irqNum = -1 := by rw [hm, Function.update_self]
  have hm : ∀ q, q ≠ pinName → s'.mgr q = s.mgr q := by
    intro q hq
    rw [hm, Function.update_of_ne hq]
  have hh : ∀ q, (s'.handles q).callback = (s.handles q).callback ∧
      (pinName < gpioMax → (s'.handles q).pinIdx < gpioMax) := by
    intro q
    rw [hh]
    by_cases hq : q = pin
    · subst hq
      rw [Function.update_self]
      exact ⟨rfl, id⟩
    · rw [Function.update_of_ne hq]
      exact ⟨rfl, fun _ => h.idx q⟩
  rw [PinLog.next, if_pos rfl]
  have hentry : ∀ i < irqDescSize, s'.Entry (t.clear pinName) i := by
    intro i hi
    by_cases hp : irqPerBank + i = pinName
    · subst hp
      constructor
      · intro _ hline
        exact absurd (hnum.symm.trans hline) (Int.ne_of_lt (Int.lt_trans (by decide) (irq_pos i)))
      · intro call hatt
        rw [(t.clear_self _).1] at hatt
        cases hatt
    · rw [entry_congr (by rw [hg]) (hm _ hp) (t.clear_of_ne hp).1 (t.clear_of_ne hp).2
        fun call _ _ => (hh call.pin).1]
      exact he i hi
  constructor
  · intro hlt
    have hlt : pinName < gpioMax := Nat.not_le.1 (of_decide_eq_false (ho.symm.trans hlt))
    exact h.clear (fun q => (hh q).2 hlt) hm (.inl hnum) fun i _ => by rw [hg]
  · rw [ho]
    constructor
    · rintro ⟨hlt, -⟩ _ heq
      exact of_decide_eq_false hlt (Nat.le_of_eq heq.symm)
    · intro hne
      refine ⟨decide_eq_false fun hle => ?_, hentry⟩
      exact hne hpin (Nat.le_antisymm (Nat.not_lt.1 hmax) hle)

theorem Kept.line {s : PinSys} (h : s.Kept t) (hi : i < irqDescSize)
    (hirq : s.irqOf p = gpioIrqStart + i) :
    p = irqPerBank + i ∧ (s.mgr p).irqNum = (gpioIrqStart + i : Nat) := by
  rw [irqOf] at hirq
  rcases h.num p with h0 | h1 | ⟨j, hj, rfl, hn⟩
  · rw [h0] at hirq
    exact absurd hirq (Nat.ne_of_lt (Nat.add_pos_left (by decide) i))
  · rw [h1] at hirq
    have hlt : gpioIrqStart + i < toU32 (-1) :=
      Nat.lt_of_lt_of_le (Nat.add_lt_add_left hi _) (by decide)
    exact absurd hirq (Nat.ne_of_gt hlt)
  · have hlt : gpioIrqStart + j < 0x80000000 :=
      Nat.lt_of_lt_of_le (Nat.add_lt_add_left hj _) (by decide)
    rw [hn, toU32_of_lt hlt] at hirq
    cases Nat.add_left_cancel hirq
    exact ⟨rfl, hn⟩

theorem csiGpioPinUninit_eq {s : PinSys} (h : s.Kept t) (hout : s.outside = false) (hpin : pin ≠ 0)
    (hs : s.csiGpioPinUninit pin = some s') :
    s'.outside = false ∧ s'.mgr = s.mgr ∧
      s'.handles = Function.update s.handles pin { s.handles pin with callback := 0, arg := 0 } ∧
      (∀ i, irqPerBank + i ≠ (s.handles pin).pinIdx → s'.gpio.irqDesc i = s.gpio.irqDesc i) ∧
      ∀ i, irqPerBank + i = (s.handles pin).pinIdx →
        (s.mgr (irqPerBank + i)).irqNum = -1 ∨ (s'.gpio.irqDesc i).handleIrq = .bad := by
  rw [csiGpioPinUninit, if_neg hpin] at hs
  have hidx : (Function.update s.handles pin { s.handles pin with callback := 0, arg := 0 }
      pin).pinIdx = (s.handles pin).pinIdx := by rw [Function.update_self]
  dsimp only [setHandle] at hs
  rw [hidx, reach, decide_eq_false (Nat.not_le.2 (h.idx pin)), Bool.or_false] at hs
  dsimp only at hs
  by_cases hnum : (s.mgr (s.handles pin).pinIdx).irqNum = -1
  · rw [if_pos hnum] at hs
    cases hs
    refine ⟨hout, rfl, rfl, fun _ _ => rfl, fun i hi => ?_⟩
    rw [hi]
    exact .inl hnum
  · rw [if_neg hnum] at hs
    dsimp only [irqOf] at hs
    cases hdis : s.gpio.halGpioIrqDisable (toU32 (s.mgr (s.handles pin).pinIdx).irqNum) with
    | none =>
      rw [hdis] at hs
      cases hs
    | some r =>
      rw [hdis] at hs
      dsimp only at hs
      cases hfree : r.2.halGpioIrqFree (toU32 (s.mgr (s.handles pin).pinIdx).irqNum) with
      | none =>
        rw [hfree] at hs
        cases hs
      | some r' =>
        rw [hfree] at hs
        cases hs
        obtain ⟨i, hi, hirq, hdesc⟩ := GpioSys.halGpioIrqFree_desc hfree
        obtain ⟨hp, -⟩ := h.line hi hirq
        rw [GpioSys.halGpioIrqDisable_desc hdis] at hdesc
        refine ⟨hout, rfl, rfl, fun j hj => ?_, fun j hj => .inr ?_⟩
        · have hne : j ≠ i := fun heq => hj (by rw [heq, hp])
          rw [hdesc, Function.update_of_ne hne]
        · rw [hp] at hj
          cases Nat.add_left_cancel hj
          rw [hdesc, Function.update_self]

theorem csiGpioPinUninit_ok {s : PinSys} (h : s.Kept t) (hout : s.outside = false)
    (he : ∀ i < irqDescSize, s.Entry t i) (hs : s.csiGpioPinUninit pin = some s') :
    PinStepOk s t (.uninit pin) s' (t.next s (.uninit pin) csiOk) := by
  by_cases hpin : pin = 0
  · rw [csiGpioPinUninit, if_pos hpin] at hs
    cases hs
    rw [PinLog.next, if_pos hpin]
    apply h.idle hout he
    exact fun hne => (hne hpin).elim
  rw [PinLog.next, if_neg hpin]
  obtain ⟨ho, hm, hh, hd, hline⟩ := csiGpioPinUninit_eq h hout hpin hs
  have hcb : ∀ q, q ≠ pin → (s'.handles q).callback = (s.handles q).callback := by
    intro q hq
    rw [hh, Function.update_of_ne hq]
  constructor
  · intro _
    apply h.clear _ (fun q _ => by rw [hm]) (.inr (by rw [hm])) hd
    intro q
    rw [hh]
    by_cases hq : q = pin
    · subst hq
      rw [Function.update_self]
      exact h.idx q
    · rw [Function.update_of_ne hq]
      exact h.idx q
  constructor
  · rintro ⟨-, hentry⟩ _ q call hq hatt heq hset
    obtain ⟨i, hi, rfl, -⟩ := h.mode q hset
    have hbound := ((hentry i hi).bound call ((t.clear_of_ne hq).1.trans hatt)
      ((t.clear_of_ne hq).2.trans hset)).1
    rw [heq, hh, Function.update_self] at hbound
    exact hbound.symm
  · intro hok
    refine ⟨ho, fun i hi => ?_⟩
    by_cases hp : irqPerBank + i = (s.handles pin).pinIdx
    · constructor
      · intro hbad hnum
        rcases hline i hp with hl | hl
        · rw [hm, hl] at hnum
          exact absurd hnum (Int.ne_of_lt (Int.lt_trans (by decide) (irq_pos i)))
        · exact (hbad hl).elim
      · intro call hatt
        rw [hp, (t.clear_self _).1] at hatt
        cases hatt
    · rw [entry_congr (hd i hp) (by rw [hm]) (t.clear_of_ne hp).1 (t.clear_of_ne hp).2]
      · exact he i hi
      · intro call hatt hset
        by_cases hq : call.pin = pin
        · have h0 := hok hpin _ call hp hatt hq hset
          rw [((he i hi).bound call hatt hset).1, hq, hh, Function.update_self, h0]
        · exact hcb _ hq

theorem setMgr_self (s : PinSys) (i : Nat) (mgr : IrqCallbackMgr) : (s.setMgr i mgr).mgr i = mgr :=
  Function.update_self _ _ _

/-- A pin whose line is known, looked up if need be. -/
structure Binds (s : PinSys) (p : Nat) (s' : PinSys) : Prop where
  gpio : s'.gpio = s.gpio
  handles : s'.handles = s.handles
  outside : s'.outside = s.outside
  others : ∀ q, q ≠ p → s'.mgr q = s.mgr q
  pin : (s'.mgr p).pin = (s.mgr p).pin
  num : ((s.mgr p).irqNum ≠ -1 ∧ (s'.mgr p).irqNum = (s.mgr p).irqNum) ∨
    ((s.mgr p).irqNum = -1 ∧ ∃ i < irqDescSize, p = irqPerBank + i ∧
      (s'.mgr p).irqNum = (gpioIrqStart + i : Nat))

theorem bindIrq_eq {s : PinSys} (hs : s.bindIrq p = some (ret, s')) :
    (ret = csiOk ∧ s.HasLine p ∧ s.Binds p s') ∨ (ret = csiError ∧ ¬ s.HasLine p ∧ s' = s) := by
  rw [bindIrq] at hs
  by_cases hnum : (s.mgr p).irqNum = -1
  · rw [if_pos hnum] at hs
    cases hirq : s.gpio.halGpioToIrq p with
    | none =>
      rw [hirq] at hs
      cases hs
    | some r =>
      rw [hirq] at hs
      rcases s.gpio.halGpioToIrq_eq hirq with ⟨i, hi, hp, rfl⟩ | ⟨hp, rfl⟩
      · cases hs
        refine .inl ⟨rfl, .inr ⟨i, hi, hp⟩, rfl, rfl, rfl, ?_, ?_, .inr ⟨hnum, i, hi, hp, ?_⟩⟩
        · exact fun q hq => Function.update_of_ne hq _ _
        · rw [setMgr_self]
        · rw [setMgr_self]
      · cases hs
        refine .inr ⟨rfl, ?_, rfl⟩
        rintro (hne | ⟨i, hi, heq⟩)
        · exact hne hnum
        · exact hp i hi heq
  · rw [if_neg hnum] at hs
    cases hs
    exact .inl ⟨rfl, .inl hnum, rfl, rfl, rfl, fun _ _ => rfl, rfl, .inl ⟨hnum, rfl⟩⟩

theorem Binds.kept {s s' : PinSys} (hb : s.Binds p s') (h : s.Kept t) : s'.Kept t := by
  constructor
  · rw [hb.handles]
    exact h.idx
  · intro q
    by_cases hq : q = p
    · subst hq
      rcases hb.num with ⟨-, hn⟩ | ⟨-, i, hi, hp, hn⟩
      · rw [hn]
        exact h.num q
      · exact .inr (.inr ⟨i, hi, hp, hn⟩)
    · rw [hb.others q hq]
      exact h.num q
  · intro q hset
    obtain ⟨i, hi, hq, hn, hbad⟩ := h.mode q hset
    refine ⟨i, hi, hq, ?_, by rwa [hb.gpio]⟩
    by_cases hqp : q = p
    · subst hqp
      rcases hb.num with ⟨-, hn'⟩ | ⟨hn', -⟩
      · exact hn'.trans hn
      · rw [hn'] at hn
        exact absurd hn (Int.ne_of_lt (Int.lt_trans (by decide) (irq_pos i)))
    · rw [hb.others q hqp]
      exact hn
  · intro q call hatt
    obtain ⟨hpin, hne⟩ := h.attached q call hatt
    by_cases hqp : q = p
    · subst hqp
      exact ⟨hb.pin.trans hpin, hne⟩
    · rw [hb.others q hqp]
      exact ⟨hpin, hne⟩

/-- What an attach that succeeds leaves, where its line was bound in `s₁`. -/
structure Attaches (s s₁ : PinSys) (pin callback arg : Nat) (s' : PinSys) : Prop where
  gpio : s'.gpio = s.gpio
  handles : s'.handles = Function.update s.handles pin { s.handles pin with callback, arg }
  own : (s'.mgr (s.handles pin).pinIdx).pin = pin
  num : ∀ q, (s'.mgr q).irqNum = (s₁.mgr q).irqNum
  others : ∀ q, q ≠ (s.handles pin).pinIdx → s'.mgr q = s.mgr q

theorem Binds.attaches {s s₁ : PinSys} {pin : Nat} (hb : s.Binds (s.handles pin).pinIdx s₁)
    (callback arg : Nat) :
    s.Attaches s₁ pin callback arg
      ((s₁.setHandle pin { s₁.handles pin with callback, arg }).setMgr (s.handles pin).pinIdx
        { s₁.mgr (s.handles pin).pinIdx with pin }) := by
  constructor
  · exact hb.gpio
  · rw [setMgr, setHandle, hb.handles]
  · rw [setMgr_self]
  · intro q
    by_cases hq : q = (s.handles pin).pinIdx
    · subst hq
      rw [setMgr_self]
    · exact congrArg IrqCallbackMgr.irqNum (Function.update_of_ne hq _ _)
  · intro q hq
    rw [← hb.others q hq]
    exact Function.update_of_ne hq _ _

theorem Attaches.callback_self {s s₁ s' : PinSys} (ha : s.Attaches s₁ pin callback arg s') :
    (s'.handles pin).callback = callback := by
  rw [ha.handles, Function.update_self]

theorem Attaches.callback_of_ne {s s₁ s' : PinSys} (ha : s.Attaches s₁ pin callback arg s')
    (hq : q ≠ pin) : (s'.handles q).callback = (s.handles q).callback := by
  rw [ha.handles, Function.update_of_ne hq]

theorem Attaches.kept {s s₁ s' : PinSys} (ha : s.Attaches s₁ pin callback arg s')
    (hb : s.Binds (s.handles pin).pinIdx s₁) (h : s.Kept t) (hpin : pin ≠ 0) :
    s'.Kept (t.attach (s.handles pin).pinIdx ⟨callback, pin, arg⟩) := by
  have hk := hb.kept h
  constructor
  · intro q
    rw [ha.handles]
    by_cases hq : q = pin
    · subst hq
      rw [Function.update_self]
      exact h.idx q
    · rw [Function.update_of_ne hq]
      exact h.idx q
  · intro q
    rw [ha.num q]
    exact hk.num q
  · intro q hset
    rw [ha.num q, ha.gpio, ← hb.gpio]
    exact hk.mode q hset
  · intro q call hatt
    by_cases hq : q = (s.handles pin).pinIdx
    · subst hq
      rw [t.attach_self] at hatt
      cases hatt
      exact ⟨ha.own, hpin⟩
    · rw [t.attach_of_ne _ hq] at hatt
      rw [ha.others q hq]
      exact h.attached q call hatt

/-- The entries answer after an attach only where it was asked for with the data of its line, and no
other line of the pin has another callback. -/
theorem Attaches.ok {s s₁ s' : PinSys} (ha : s.Attaches s₁ pin callback arg s') (h : s.Kept t)
    (hentry : ∀ i < irqDescSize,
      s'.Entry (t.attach (s.handles pin).pinIdx ⟨callback, pin, arg⟩) i) :
    PinOp.Ok s t (.attach pin callback arg) := by
  intro _ _
  constructor
  · intro i hp hset hne
    obtain ⟨j, hj, hpj, -⟩ := h.mode _ hset
    cases Nat.add_left_cancel (hp.symm.trans hpj)
    have hbound := (hentry i hj).bound ⟨callback, pin, arg⟩ (by rw [← hp, t.attach_self])
      (by rw [← hp]; exact hset)
    rw [← ha.gpio]
    exact hbound.2 hne
  · intro q call hq hatt heq hset
    obtain ⟨i, hi, rfl, -⟩ := h.mode q hset
    have hbound := ((hentry i hi).bound call ((t.attach_of_ne _ hq).trans hatt) hset).1
    rw [heq, ha.callback_self] at hbound
    exact hbound.symm

theorem Attaches.entry {s s₁ s' : PinSys} (ha : s.Attaches s₁ pin callback arg s')
    (he : s.Entry t i) (hpin : pin ≠ 0) (hline : s.HasLine (s.handles pin).pinIdx)
    (hok : PinOp.Ok s t (.attach pin callback arg)) :
    s'.Entry (t.attach (s.handles pin).pinIdx ⟨callback, pin, arg⟩) i := by
  obtain ⟨hown, hothers⟩ := hok hpin hline
  by_cases hp : irqPerBank + i = (s.handles pin).pinIdx
  · constructor
    · intro _ _
      rw [hp, ha.own]
      exact hpin
    · intro call hatt hset
      rw [hp, t.attach_self] at hatt
      cases hatt
      refine ⟨ha.callback_self, fun hne => ?_⟩
      rw [ha.gpio]
      exact hown i hp.symm (by rw [← hp]; exact hset) hne
  · rw [entry_congr (by rw [ha.gpio]) (ha.others _ hp) (t.attach_of_ne _ hp) rfl]
    · exact he
    · intro call hatt hset
      by_cases hq : call.pin = pin
      · rw [(he.bound call hatt hset).1, hq, ha.callback_self]
        exact (hothers _ call hp hatt hq hset).symm
      · exact ha.callback_of_ne hq

theorem csiGpioPinAttachCallback_ok {s : PinSys} (h : s.Kept t) (hout : s.outside = false)
    (he : ∀ i < irqDescSize, s.Entry t i)
    (hs : s.csiGpioPinAttachCallback pin callback arg = some (out, s')) :
    PinStepOk s t (.attach pin callback arg) s' (t.next s (.attach pin callback arg) out) := by
  rw [csiGpioPinAttachCallback] at hs
  by_cases hpin : pin = 0
  · rw [if_pos hpin] at hs
    cases hs
    apply h.idle hout he
    exact fun hne => (hne hpin).elim
  rw [if_neg hpin] at hs
  dsimp only at hs
  rw [reach_eq (h.idx pin)] at hs
  cases hbind : s.bindIrq (s.handles pin).pinIdx with
  | none =>
    rw [hbind] at hs
    cases hs
  | some r =>
    obtain ⟨ret, s₁⟩ := r
    rw [hbind] at hs
    dsimp only at hs
    rcases bindIrq_eq hbind with ⟨rfl, hline, hb⟩ | ⟨rfl, hline, rfl⟩
    · rw [if_neg (not_not.2 rfl)] at hs
      cases hs
      have ha := hb.attaches callback arg
      have ho := hb.outside.trans hout
      rw [PinLog.next, if_pos rfl]
      constructor
      · exact fun _ => ha.kept hb h hpin
      constructor
      · exact fun hentry => ha.ok h hentry.2
      · exact fun hok => ⟨ho, fun i hi => ha.entry (he i hi) hpin hline hok⟩
    · rw [if_pos (by decide)] at hs
      cases hs
      apply h.idle hout he
      exact fun _ hl => (hline hl).elim

/-- A requested line: its entry has a handler, and the data of its first request. -/
structure Requested (s : PinSys) (pin i : Nat) (g : GpioSys) : Prop where
  handler : (g.irqDesc i).handleIrq ≠ .bad
  data : (g.irqDesc i).data =
    if (s.gpio.irqDesc i).handleIrq = .bad then (s.handles pin).arg else (s.gpio.irqDesc i).data
  others : ∀ j, j ≠ i → g.irqDesc j = s.gpio.irqDesc j

theorem requested_of_desc {s : PinSys} {g : GpioSys} (h : g.irqDesc =
    if (s.gpio.irqDesc i).handleIrq = .bad
      then Function.update s.gpio.irqDesc i
        { s.gpio.irqDesc i with
          handleIrq := .fn irqHandlersAddr, flags, data := (s.handles pin).arg }
      else s.gpio.irqDesc) : s.Requested pin i g := by
  by_cases hbad : (s.gpio.irqDesc i).handleIrq = .bad
  · rw [if_pos hbad] at h
    refine ⟨?_, ?_, fun j hj => ?_⟩
    · rw [h, Function.update_self]
      nofun
    · rw [h, Function.update_self, if_pos hbad]
    · rw [h, Function.update_of_ne hj]
  · rw [if_neg hbad] at h
    refine ⟨?_, ?_, fun j hj => ?_⟩
    · rw [h]
      exact hbad
    · rw [h, if_neg hbad]
    · rw [h]

theorem Requested.ok {s s₁ : PinSys} {g : GpioSys} (h : s.Kept t) (hout : s.outside = false)
    (he : ∀ i < irqDescSize, s.Entry t i) (hpin : pin ≠ 0) (htype : irqModeType mode ≠ none)
    (hb : s.Binds (s.handles pin).pinIdx s₁) (hi : i < irqDescSize)
    (hp : (s.handles pin).pinIdx = irqPerBank + i)
    (hnum : (s₁.mgr (s.handles pin).pinIdx).irqNum = (gpioIrqStart + i : Nat))
    (hr : s.Requested pin i g) :
    PinStepOk s t (.irqMode pin mode) { s₁ with gpio := g } (t.setMode (s.handles pin).pinIdx) := by
  have hk := hb.kept h
  constructor
  · intro _
    constructor
    · exact hk.idx
    · exact hk.num
    · intro q hset
      by_cases hq : q = (s.handles pin).pinIdx
      · subst hq
        exact ⟨i, hi, hp, hnum, hr.handler⟩
      · rw [t.setMode_of_ne hq] at hset
        obtain ⟨j, hj, rfl, hn, hbad⟩ := hk.mode q hset
        have hne : j ≠ i := fun heq => hq (by rw [heq, hp])
        refine ⟨j, hj, rfl, hn, ?_⟩
        rw [hb.gpio] at hbad
        rwa [hr.others j hne]
    · exact hk.attached
  constructor
  · rintro ⟨-, hentry⟩ _ _ j hj hpj
    cases Nat.add_left_cancel (hp.symm.trans hpj)
    constructor
    · have hnull := (hentry i hi).notNull hr.handler (by rw [← hp]; exact hnum)
      rw [← hp] at hnull
      exact fun h0 => hnull (hb.pin.trans h0)
    · intro call hatt
      have hbound := (hentry i hi).bound call (by rw [← hp]; exact hatt)
        (by rw [← hp]; exact t.setMode_self _)
      rw [show (s₁.handles call.pin).callback = (s.handles call.pin).callback by rw [hb.handles],
        show (g.irqDesc i).data = _ from hr.data] at hbound
      exact hbound
  · intro hok
    obtain ⟨hnull, hown⟩ := hok hpin htype i hi hp
    refine ⟨hb.outside.trans hout, fun j hj => ?_⟩
    by_cases hji : j = i
    · subst hji
      constructor
      · intro _ _
        rw [← hp]
        exact fun h0 => hnull (hb.pin.symm.trans h0)
      · intro call hatt _
        rw [← hp] at hatt
        rw [show (s₁.handles call.pin).callback = (s.handles call.pin).callback by rw [hb.handles],
          show (g.irqDesc j).data = _ from hr.data]
        exact hown call hatt
    · have hq : irqPerBank + j ≠ (s.handles pin).pinIdx := by
        rw [hp]
        exact fun heq => hji (Nat.add_left_cancel heq)
      have hsame : PinSys.Entry { s₁ with gpio := g } (t.setMode (s.handles pin).pinIdx) j ↔
          s.Entry t j := by
        apply entry_congr
        · exact hr.others j hji
        · exact hb.others _ hq
        · rfl
        · exact t.setMode_of_ne hq
        · intro call _ _
          show (s₁.handles call.pin).callback = _
          rw [hb.handles]
      exact hsame.2 (he j hj)

theorem csiGpioPinIrqMode_ok {s : PinSys} (h : s.Kept t) (hout : s.outside = false)
    (he : ∀ i < irqDescSize, s.Entry t i) (hs : s.csiGpioPinIrqMode pin mode = some (out, s')) :
    PinStepOk s t (.irqMode pin mode) s' (t.next s (.irqMode pin mode) out) := by
  rw [csiGpioPinIrqMode] at hs
  by_cases hpin : pin = 0
  · rw [if_pos hpin] at hs
    cases hs
    apply h.idle hout he
    exact fun hne => (hne hpin).elim
  rw [if_neg hpin] at hs
  cases htype : irqModeType mode with
  | none =>
    rw [htype] at hs
    cases hs
    apply h.idle hout he
    exact fun _ hne => (hne htype).elim
  | some type =>
    rw [htype] at hs
    dsimp only at hs
    rw [reach_eq (h.idx pin)] at hs
    cases hbind : s.bindIrq (s.handles pin).pinIdx with
    | none =>
      rw [hbind] at hs
      cases hs
    | some r =>
      obtain ⟨ret, s₁⟩ := r
      rw [hbind] at hs
      dsimp only at hs
      rcases bindIrq_eq hbind with ⟨rfl, hline, hb⟩ | ⟨rfl, hline, rfl⟩
      · rw [if_neg (not_not.2 rfl)] at hs
        have hk := hb.kept h
        cases hreq : s₁.gpio.halGpioIrqRequest (s₁.irqOf (s.handles pin).pinIdx)
            (some irqHandlersAddr) type (s₁.handles pin).arg with
        | none =>
          rw [hreq] at hs
          cases hs
        | some r =>
          rw [hreq] at hs
          obtain ⟨i, hi, hirq, hret, hdesc⟩ := GpioSys.halGpioIrqRequest_desc hreq
          obtain ⟨hp, hnum⟩ := hk.line hi hirq
          dsimp only at hs
          rw [if_neg (Int.not_lt.2 hret)] at hs
          cases hs
          rw [PinLog.next, if_pos rfl]
          rw [hb.gpio, hb.handles] at hdesc
          exact Requested.ok h hout he hpin (by rw [htype]; nofun) hb hi hp hnum
            (requested_of_desc hdesc)
      · rw [if_pos (by decide)] at hs
        cases hs
        apply h.idle hout he
        rintro - - i hi hp
        exact (hline (.inr ⟨i, hi, hp⟩)).elim

theorem csiGpioPinIrqEnable_ok {s : PinSys} (h : s.Kept t) (hout : s.outside = false)
    (he : ∀ i < irqDescSize, s.Entry t i) (hs : s.csiGpioPinIrqEnable pin enable = some (out, s')) :
    PinStepOk s t (.irqEnable pin enable) s' t := by
  rw [csiGpioPinIrqEnable] at hs
  by_cases hpin : pin = 0
  · rw [if_pos hpin] at hs
    cases hs
    exact h.idle hout he trivial
  rw [if_neg hpin] at hs
  dsimp only at hs
  rw [reach_eq (h.idx pin)] at hs
  have hsame : ∀ g, g.irqDesc = s.gpio.irqDesc →
      PinStepOk s t (.irqEnable pin enable) { s with gpio := g } t := by
    intro g hg
    constructor
    · intro _
      refine ⟨h.idx, h.num, fun q hset => ?_, h.attached⟩
      obtain ⟨i, hi, hq, hn, hbad⟩ := h.mode q hset
      exact ⟨i, hi, hq, hn, by rwa [show ({ s with gpio := g } : PinSys).gpio = g from rfl, hg]⟩
    · refine ⟨fun _ => trivial, fun _ => ⟨hout, fun i hi => ?_⟩⟩
      have hentry : PinSys.Entry { s with gpio := g } t i ↔ s.Entry t i :=
        entry_congr (congrFun hg i) rfl rfl rfl fun _ _ _ => rfl
      exact hentry.2 (he i hi)
  cases enable with
  | false =>
    rw [if_neg (by decide)] at hs
    cases hdis : s.gpio.halGpioIrqDisable (s.irqOf (s.handles pin).pinIdx) with
    | none =>
      rw [hdis] at hs
      cases hs
    | some r =>
      rw [hdis] at hs
      dsimp only at hs
      split at hs
      · cases hs
        exact hsame r.2 (GpioSys.halGpioIrqDisable_desc hdis)
      · cases hs
        exact hsame r.2 (GpioSys.halGpioIrqDisable_desc hdis)
  | true =>
    rw [if_pos rfl] at hs
    cases hen : s.gpio.halGpioIrqEnable (s.irqOf (s.handles pin).pinIdx) with
    | none =>
      rw [hen] at hs
      cases hs
    | some r =>
      rw [hen] at hs
      dsimp only at hs
      split at hs
      · cases hs
        exact hsame r.2 (GpioSys.halGpioIrqEnable_desc hen)
      · cases hs
        exact hsame r.2 (GpioSys.halGpioIrqEnable_desc hen)

theorem pinStep_ok {s : PinSys} (h : s.Kept t) (hout : s.outside = false)
    (he : ∀ i < irqDescSize, s.Entry t i) (hs : pinStep s op = some (out, s')) :
    PinStepOk s t op s' (t.next s op out) := by
  cases op with
  | init pin pinName => exact csiGpioPinInit_ok h hout he (Option.some.inj hs)
  | uninit pin =>
    rw [pinStep] at hs
    cases hu : s.csiGpioPinUninit pin with
    | none =>
      rw [hu] at hs
      cases hs
    | some s₁ =>
      rw [hu] at hs
      cases hs
      exact csiGpioPinUninit_ok h hout he hu
  | attach pin callback arg => exact csiGpioPinAttachCallback_ok h hout he hs
  | irqMode pin mode => exact csiGpioPinIrqMode_ok h hout he hs
  | irqEnable pin enable => exact csiGpioPinIrqEnable_ok h hout he hs

/-- The tables as they are before the first call: none of the lines requested, the callback manager
zero, and any contents of the handles that name a pin. -/
structure Fresh (s : PinSys) : Prop where
  handler : ∀ i < irqDescSize, (s.gpio.irqDesc i).handleIrq = .bad
  mgr : ∀ p, s.mgr p = ⟨0, 0⟩
  idx : ∀ h, (s.handles h).pinIdx < gpioMax
  inside : s.outside = false

theorem Fresh.kept {s : PinSys} (h : s.Fresh) : s.Kept PinLog.empty where
  idx := h.idx
  num p := .inl (by rw [h.mgr])
  mode _ hset := nomatch hset
  attached _ _ hatt := nomatch hatt

theorem Fresh.entry {s : PinSys} (h : s.Fresh) (hi : i < irqDescSize) : s.Entry PinLog.empty i where
  notNull hbad := (hbad (h.handler i hi)).elim
  bound _ hatt := nomatch hatt

end PinSys

/-- The interrupts answer in every state of the run. -/
def Always (s : PinSys) (t : PinLog) : List PinOp → Prop
  | [] => s.Answers t
  | op :: ops =>
    s.Answers t ∧ ∀ out s', pinStep s op = some (out, s') → Always s' (t.next s op out) ops

/-- Every call of the run, up to one that faults in the HAL, is as `PinOp.Ok` has it. -/
def Meets (s : PinSys) (t : PinLog) : List PinOp → Prop
  | [] => True
  | op :: ops =>
    ∀ out s', pinStep s op = some (out, s') → op.Ok s t ∧ Meets s' (t.next s op out) ops

/-- The interrupts answer in every state of a run exactly when every call of it is `PinOp.Ok`. -/
theorem gpio_pin_callbacks {s₀ : PinSys} (hs : s₀.Fresh) :
    Always s₀ PinLog.empty ops ↔ Meets s₀ PinLog.empty ops := by
  suffices hrun : ∀ (ops : List PinOp) s t, PinSys.Kept s t → s.outside = false →
      (∀ i < irqDescSize, s.Entry t i) → (Always s t ops ↔ Meets s t ops) from
    hrun ops s₀ _ hs.kept hs.inside fun i hi => hs.entry hi
  intro ops
  induction ops with
  | nil =>
    intro s t h hout he
    exact ⟨fun _ => trivial, fun _ => h.answers_iff.2 ⟨hout, he⟩⟩
  | cons op ops ih =>
    intro s t h hout he
    have hself : ∀ {s t}, Always s t ops → s.Answers t := by
      intro s t ha
      cases ops with
      | nil => exact ha
      | cons => exact ha.1
    constructor
    · rintro ⟨-, hal⟩ out s' hs'
      obtain ⟨hk, hiff⟩ := PinSys.pinStep_ok h hout he hs'
      have ha := hal out s' hs'
      have hans := hself ha
      have hk := hk hans.1
      have hboth := hk.answers_iff.1 hans
      exact ⟨hiff.1 hboth, (ih s' _ hk hboth.1 hboth.2).1 ha⟩
    · intro hm
      refine ⟨h.answers_iff.2 ⟨hout, he⟩, fun out s' hs' => ?_⟩
      obtain ⟨hk, hiff⟩ := PinSys.pinStep_ok h hout he hs'
      obtain ⟨hok, hms⟩ := hm out s' hs'
      obtain ⟨hout', he'⟩ := hiff.2 hok
      exact (ih s' _ (hk hout') hout' he').2 hms

def bootPins : PinSys := ⟨GpioSys.awHalGpioInit fun _ => 0, fun _ => ⟨0, 0, 0⟩, fun _ =>
    ⟨0, 0⟩, false⟩

theorem bootPins_fresh : bootPins.Fresh where
  handler _ _ := rfl
  mgr _ := rfl
  idx _ := (by decide : 0 < gpioMax)
  inside := rfl

/-- The name after the last one is accepted; a line requested before a callback is attached has a
NULL pin; a line of an attachment keeps the argument of the one before. -/
theorem gpio_pin_callbacks_break :
    ¬ Always bootPins PinLog.empty [.init 8 479] ∧
    ¬ Always bootPins PinLog.empty [.init 8 32, .irqMode 8 0, .irqEnable 8 true] ∧
    ¬ Always bootPins PinLog.empty
      [.init 8 32, .attach 8 0x100 1, .irqMode 8 0, .irqEnable 8 true, .attach 8 0x200 2] := by
  refine ⟨fun h => ?_, fun h => ?_, fun h => ?_⟩
  · have hend := h.2 _ _ rfl
    exact absurd hend.1 (by decide)
  · have hend := ((h.2 _ _ rfl).2 csiOk _ rfl).2 csiOk _ rfl
    exact (hend.2 0 (by decide)).1 rfl
  · have hend := ((((h.2 _ _ rfl).2 csiOk _ rfl).2 csiOk _ rfl).2 csiOk _ rfl).2 csiOk _ rfl
    have hfire := (hend.2 0 (by decide)).2 ⟨0x200, 8, 2⟩ rfl rfl
    have hcall : some (some (⟨0x200, 8, 1⟩ : PinCall)) = some (some ⟨0x200, 8, 2⟩) := hfire
    exact absurd hcall (by decide)

theorem gpio_pin_callbacks_pb0 :
    let ops : List PinOp := [.init 8 32, .attach 8 0x100 1, .irqMode 8 0, .irqEnable 8 true]
    Always bootPins PinLog.empty ops ↔ Meets bootPins PinLog.empty ops :=
  gpio_pin_callbacks bootPins_fresh

end D1Flash
