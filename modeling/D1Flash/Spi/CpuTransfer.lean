import D1Flash.Spi.CpuLoops

namespace D1Flash
open LinkedHeap
open NorArray (put slice)
open Polls (Paced Hit Misses)
set_option autoImplicit true

namespace SpiEnv

/-- The interrupts that come before the first `n` readings of `result`, and between these. -/
def polled (env : SpiEnv) (n : Nat) : List SpiIntr := (List.range n).flatMap env.poll

/-- The statuses handled from the start of the transfer to reading `k` of `result`. -/
def seen (env : SpiEnv) (k : Nat) : List (BitVec 32) :=
  statuses env.setup ++ statuses (env.polled (k + 1))

/-- The reading that ends the loop of `spi_cpu_complete`: the first after an interrupt, or the one
with no time left. -/
def lastRead (env : SpiEnv) : Nat :=
  ((List.range 0xffff).find? fun k => decide (env.seen k ≠ [])).getD 0xffff

/-- The first interrupt comes just before the reading with no time left. -/
def TooLate (env : SpiEnv) : Prop := env.seen 0xfffe = [] ∧ env.seen 0xffff ≠ []

/-- The statuses behind the value of `result` that decides. -/
def decisive (env : SpiEnv) : List (BitVec 32) := env.seen env.lastRead ++ statuses env.woken

/-- The last interrupt before the decision is one the handler takes for an error. -/
def EndsInError (env : SpiEnv) : Prop := (env.decisive.getLast?.any fun x => Fails x) = true

instance (env : SpiEnv) : Decidable env.TooLate := inferInstanceAs (Decidable (_ ∧ _))
instance (env : SpiEnv) : Decidable env.EndsInError := inferInstanceAs (Decidable (_ = true))

/-- The interrupts while the end of the transfer is waited for. -/
def completing (env : SpiEnv) : List SpiIntr :=
  env.polled (env.lastRead + 1) ++ if env.TooLate then [] else env.woken

theorem polled_succ (env : SpiEnv) (n : Nat) : env.polled (n + 1) = env.polled n ++ env.poll n := by
  rw [polled, List.range_succ, List.flatMap_append, List.flatMap_singleton]
  rfl

theorem seen_of_le {env : SpiEnv} (h : env.seen k = []) (hj : j ≤ k) : env.seen j = [] := by
  have hsum : env.polled (k + 1) =
      env.polled (j + 1) ++ (List.range' (j + 1) (k - j)).flatMap env.poll := by
    have hk : k + 1 = j + 1 + (k - j) := by omega
    rw [polled, hk, List.range_eq_range', List.range'_append_1.symm,
      List.flatMap_append, Nat.zero_add, ← List.range_eq_range']
    rfl
  rw [seen, hsum, statuses_append] at h
  obtain ⟨hs, hp⟩ := List.append_eq_nil_iff.1 h
  rw [seen, hs, (List.append_eq_nil_iff.1 hp).1]
  rfl

theorem lastRead_eq {env : SpiEnv} (hj : j < 0xffff) (h : env.seen j ≠ [])
    (hbefore : ∀ i < j, env.seen i = []) : env.lastRead = j := by
  have hfind : ((List.range 0xffff).find? fun k => decide (env.seen k ≠ [])) = some j := by
    rw [List.find?_range_eq_some]
    refine ⟨decide_eq_true h, List.mem_range.2 hj, fun i hi => ?_⟩
    rw [decide_eq_false (not_not.2 (hbefore i hi))]
    rfl
  rw [lastRead, hfind]
  rfl

theorem lastRead_none {env : SpiEnv} (h : env.seen 0xfffe = []) : env.lastRead = 0xffff := by
  have hfind : ((List.range 0xffff).find? fun k => decide (env.seen k ≠ [])) = none := by
    rw [List.find?_range_eq_none]
    intro i hi
    rw [decide_eq_false (not_not.2 (seen_of_le h (Nat.le_of_lt_succ hi)))]
    rfl
  rw [lastRead, hfind]
  rfl

end SpiEnv

theorem resultAfter_ne_ready (xs : List (BitVec 32)) :
    resultAfter xs spiXferReady ≠ 0 ↔ xs ≠ [] := by
  rw [resultAfter]
  cases h : xs.getLast? with
  | none => exact iff_of_false (not_not.2 rfl) (not_not.2 (List.getLast?_eq_none_iff.1 h))
  | some status =>
    refine iff_of_true ?_ ?_
    · dsimp only
      split <;> decide
    · rintro rfl
      cases h

theorem resultAfter_failed (xs : List (BitVec 32)) :
    resultAfter xs spiXferReady = spiXferFailed ↔ (xs.getLast?.any fun x => Fails x) = true := by
  rw [resultAfter]
  cases xs.getLast? with
  | none => exact iff_of_false (by decide) Bool.false_ne_true
  | some status =>
    dsimp only
    by_cases hf : Fails status
    · rw [if_pos hf]
      exact iff_of_true rfl (decide_eq_true hf)
    · rw [if_neg hf]
      exact iff_of_false (by decide) fun h => hf (of_decide_eq_true h)

namespace SpiSys

variable {ς : Type} [HalSem ς] (env : SpiEnv)

theorem after_readResult (n k : Nat) (s : SpiSys ς) :
    Polls.after (readResult env) n k s = s.deliver ((List.range' k n).flatMap env.poll) := by
  induction n generalizing k s with
  | zero => rfl
  | succ n ih =>
    rw [Polls.after, ih, List.range'_succ, List.flatMap_cons, deliver_append]
    rfl

theorem deliver_result (s : SpiSys ς) (is : List SpiIntr) :
    (s.deliver is).sspi.result = resultAfter (statuses is) s.sspi.result := by
  obtain ⟨regs, h⟩ := s.deliver_eq is
  rw [h]
  rfl

section Completion
variable {env : SpiEnv} {s : SpiSys ς}
  (hs : s.sspi.result = resultAfter (statuses env.setup) spiXferReady)

include hs in
theorem result_polled (n : Nat) (is : List SpiIntr) :
    ((s.deliver (env.polled n)).deliver is).sspi.result =
      resultAfter (statuses env.setup ++ statuses (env.polled n) ++ statuses is) spiXferReady := by
  rw [deliver_result, deliver_result, hs, resultAfter_append, resultAfter_append]

theorem after_readResult_zero (n : Nat) :
    Polls.after (readResult env) n 0 s = s.deliver (env.polled n) := by
  rw [after_readResult, ← List.range_eq_range']
  rfl

include hs in
theorem readResult_iff (i : Nat) :
    (readResult env (0 + i) (Polls.after (readResult env) i 0 s)).1 = true ↔ env.seen i ≠ [] := by
  rw [after_readResult_zero, Nat.zero_add]
  show decide (((s.deliver (env.polled i)).deliver (env.poll i)).sspi.result ≠ 0) = true ↔ _
  rw [decide_eq_true_iff, result_polled hs, resultAfter_ne_ready, SpiEnv.seen, SpiEnv.polled_succ,
    statuses_append, List.append_assoc]

include hs in
theorem misses_readResult (n : Nat) :
    Misses (readResult env) n 0 s ↔ ∀ i < n, env.seen i = [] := by
  rw [Polls.misses_iff]
  refine forall_congr' fun i => imp_congr_right fun _ => ?_
  rw [← Bool.not_eq_true, readResult_iff hs, not_not]

include hs in
theorem spiCpuComplete_eq :
    spiCpuComplete env s =
      (if env.TooLate then spiMasterErrorTimeout
        else if env.EndsInError then spiMasterError else spiMasterOk,
        s.deliver env.completing) := by
  have hdecide : ¬ env.TooLate → ∀ t : SpiSys ς, t = s.deliver (env.polled (env.lastRead + 1)) →
      (if (t.deliver env.woken).sspi.result = spiXferFailed then
          (spiMasterError, t.deliver env.woken) else (spiMasterOk, t.deliver env.woken)) =
        (if env.TooLate then spiMasterErrorTimeout
          else if env.EndsInError then spiMasterError else spiMasterOk,
          s.deliver env.completing) := by
    intro hlate t ht
    have hfinal : ((s.deliver (env.polled (env.lastRead + 1))).deliver env.woken).sspi.result =
        spiXferFailed ↔ env.EndsInError := by
      rw [result_polled hs, resultAfter_failed]
      rfl
    rw [if_neg hlate, SpiEnv.completing, if_neg hlate, deliver_append, ht]
    by_cases he : env.EndsInError
    · rw [if_pos (hfinal.2 he), if_pos he]
    · rw [if_neg (mt hfinal.1 he), if_neg he]
  rw [spiCpuComplete]
  cases Polls.wait_cases u32Top (readResult env) 0xffff 0 s with
  | inl h =>
    obtain ⟨j, hj, hhit, hw⟩ := h
    obtain ⟨hmiss, hready⟩ := Polls.hit_iff.1 hhit
    have hseen := (readResult_iff hs j).1 hready
    have hbefore := (misses_readResult hs j).1 hmiss
    rw [hw, after_readResult_zero]
    dsimp only
    rcases Nat.lt_or_eq_of_le hj with hlt | heq
    · have hlast := SpiEnv.lastRead_eq hlt hseen hbefore
      have hlate : ¬ env.TooLate := fun h => hseen (SpiEnv.seen_of_le h.1 (by omega))
      rw [if_neg (by omega), ← hlast]
      exact hdecide hlate _ rfl
    · -- the last reading finds the result, but no time is left
      subst heq
      have hnone := hbefore 0xfffe (by decide)
      have hlate : env.TooLate := ⟨hnone, hseen⟩
      rw [if_pos (Nat.sub_self _), if_pos hlate, SpiEnv.completing, if_pos hlate, List.append_nil,
        SpiEnv.lastRead_none hnone]
  | inr h =>
    obtain ⟨hmiss, hw⟩ := h
    have hnone := (misses_readResult hs _).1 hmiss
    have hlast := SpiEnv.lastRead_none (hnone 0xfffe (by decide))
    have hlate : ¬ env.TooLate := fun h => h.2 (hnone 0xffff (by decide))
    rw [hw, after_readResult_zero]
    dsimp only
    rw [if_neg (by decide)]
    exact hdecide hlate _ (by rw [hlast])

end Completion

end SpiSys

namespace SpiTransfer

/-- The length that decides between the CPU and the DMA engine. -/
def bulkLen (t : SpiTransfer) : BitVec 32 := if t.rxBuf = none then t.txLen else t.rxLen

def txData (t : SpiTransfer) (mem : Addr → Byte) : List Byte :=
  match t.txBuf with
  | none => []
  | some buf => slice mem buf t.txLen.toNat

def txCount (t : SpiTransfer) : Nat := if t.txBuf = none then 0 else t.txLen.toNat
def rxCount (t : SpiTransfer) : Nat := if t.rxBuf = none then 0 else t.rxLen.toNat

theorem mode_rx {t : SpiTransfer} (htx : t.txBuf = none) (hrx : t.rxBuf = some buf) :
    t.mode = .sgleHalfDuplexRx ∨ t.mode = .dualHalfDuplexRx ∨ t.mode = .quadHalfDuplexRx := by
  rw [mode, htx, hrx]
  dsimp only
  split
  · exact .inr (.inr rfl)
  · split
    · exact .inr (.inl rfl)
    · exact .inl rfl

theorem mode_tx {t : SpiTransfer} (htx : t.txBuf = some buf) (hrx : t.rxBuf = none) :
    t.mode = .sgleHalfDuplexTx ∨ t.mode = .dualHalfDuplexTx ∨ t.mode = .quadHalfDuplexTx := by
  rw [mode, htx, hrx]
  dsimp only
  split
  · exact .inr (.inr rfl)
  · split
    · exact .inr (.inl rfl)
    · exact .inl rfl

end SpiTransfer

namespace SpiSys

/-- What a transfer that succeeds is to have done: all bytes are written in order while the budget
of the polls lasts, all bytes are popped from a FIFO that holds some and are in the buffer, and an
interrupt told of the completion and of no error. -/
structure CpuSound (t : SpiTransfer) (s s' : SpiSys ς) (ev : List SpiEvent) : Prop where
  written : txBytes ev = t.txData s.mem
  inTime : fullLevels ev < 0xff
  popped : (rxBytes ev).length = t.rxCount
  filled : PopsFilled false ev
  stored : ∀ buf, t.rxBuf = some buf → slice s'.mem buf t.rxCount = rxBytes ev
  complete : ∃ status, .irq status ∈ ev ∧ IsTc status ∧ ¬ IsErr status

variable {ς : Type} (env : SpiEnv)

theorem spiCpuWrite_spec (s : SpiSys ς) :
    ∃ w, (spiCpuWrite env s).2 = s.logAll w ∧ (∀ e ∈ w, e.kind = .tx) ∧
      (txBytes w = s.sspi.transfer.txData s.mem ∧ fullLevels w < 0xff ↔
        Paced (txReady env) s.sspi.transfer.txCount 0xff 0) := by
  rw [spiCpuWrite, SpiTransfer.txData, SpiTransfer.txCount]
  cases s.sspi.transfer.txBuf with
  | none =>
    exact ⟨[], s.logAll_nil.symm, fun e he => (List.not_mem_nil he).elim,
      iff_of_true ⟨rfl, by decide⟩ (Polls.paced_zero _ _ _)⟩
  | some buf => exact cpuWriteLoop_spec env _ buf 0xff 0 s (by decide)

theorem spiCpuRead_spec (s : SpiSys ς) :
    ∃ r mem, (spiCpuRead env s).2 = { s.logAll r with mem } ∧ (∀ e ∈ r, e.kind = .rx) ∧
      (∀ buf, s.sspi.transfer.rxBuf = some buf → mem = put s.mem buf (rxBytes r)) ∧
      (s.sspi.transfer.rxBuf = none → mem = s.mem) ∧
      (rxBytes r).length ≤ s.sspi.transfer.rxCount ∧
      ((rxBytes r).length = s.sspi.transfer.rxCount ∧ PopsFilled false r ↔
        Paced (rxReady env) s.sspi.transfer.rxCount 0xff 0) := by
  rw [spiCpuRead, SpiTransfer.rxCount]
  cases s.sspi.transfer.rxBuf with
  | none =>
    refine ⟨[], s.mem, s.logAll_nil.symm, fun e he => (List.not_mem_nil he).elim, ?_, fun _ => rfl,
      Nat.le_refl 0, iff_of_true ⟨rfl, trivial⟩ (Polls.paced_zero _ _ _)⟩
    intro buf h
    cases h
  | some buf =>
    obtain ⟨r, hr, hk, hle, hiff⟩ := cpuReadLoop_spec env buf s.sspi.transfer.rxLen.toNat 0 0xff 0 s
      (by decide)
    refine ⟨r, _, hr, hk, ?_, ?_, hle, hiff⟩
    · intro b hb
      cases hb
      rfl
    · intro h
      cases h

theorem spiCpuWrite_none {s : SpiSys ς} (h : s.sspi.transfer.txBuf = none) :
    (spiCpuWrite env s).2 = s := by
  rw [spiCpuWrite, h]

theorem spiCpuRead_none {s : SpiSys ς} (h : s.sspi.transfer.rxBuf = none) :
    (spiCpuRead env s).2 = s := by
  rw [spiCpuRead, h]

variable [HalSem ς]

/-- The data of a transfer by the CPU goes through both loops, of which one may have no buffer. -/
theorem spiTransfer_cpu {s : SpiSys ς} (hmode : s.sspi.modeType = s.sspi.transfer.mode)
    (hbuf : ¬ BadTransfer s.sspi.transfer) (hcpu : ¬ s.Bulk s.sspi.transfer.bulkLen) :
    ∃ f, s.spiTransfer env =
      some (spiMasterOk, (spiCpuRead env (spiCpuWrite env (s.onRegs f)).2).2) := by
  rw [SpiTransfer.bulkLen] at hcpu
  cases htx : s.sspi.transfer.txBuf with
  | none =>
    cases hrx : s.sspi.transfer.rxBuf with
    | none => exact (hbuf (.inl ⟨htx, hrx⟩)).elim
    | some rxBuf =>
      rw [hrx, if_neg (Option.some_ne_none _)] at hcpu
      refine ⟨fun regs => spiStartXfer (spiClrIrqPending spiIntStaMask regs), ?_⟩
      have hw : ∀ f, (spiCpuWrite env (s.onRegs f)).2 = s.onRegs f :=
        fun _ => spiCpuWrite_none env htx
      rw [hw, spiTransfer, hmode]
      rcases SpiTransfer.mode_rx htx hrx with h | h | h <;> rw [h] <;> dsimp only <;>
        rw [if_neg hcpu] <;> rfl
  | some txBuf =>
    refine ⟨spiStartXfer, ?_⟩
    cases hrx : s.sspi.transfer.rxBuf with
    | none =>
      rw [hrx, if_pos rfl] at hcpu
      obtain ⟨w, hw, -⟩ := spiCpuWrite_spec env (s.onRegs spiStartXfer)
      have hr : ((s.onRegs spiStartXfer).logAll w).sspi.transfer.rxBuf = none := hrx
      rw [hw, spiCpuRead_none env hr, ← hw, spiTransfer, hmode]
      rcases SpiTransfer.mode_tx htx hrx with h | h | h <;> rw [h] <;> dsimp only <;>
        rw [if_neg hcpu]
    | some rxBuf =>
      rw [hrx, if_neg (Option.some_ne_none _)] at hcpu
      rw [spiTransfer, hmode, SpiTransfer.mode, htx, hrx]
      exact if_neg hcpu

theorem spiComplete_cpu {s : SpiSys ς} (hmode : s.sspi.modeType = s.sspi.transfer.mode)
    (hbuf : ¬ BadTransfer s.sspi.transfer) (hcpu : ¬ s.Bulk s.sspi.transfer.bulkLen) :
    s.spiComplete env = some (if (spiCpuComplete env s).1 ≠ 0 then spiMasterError else spiMasterOk,
      (spiCpuComplete env s).2) := by
  rw [SpiTransfer.bulkLen] at hcpu
  rw [spiComplete, hmode]
  cases htx : s.sspi.transfer.txBuf with
  | none =>
    cases hrx : s.sspi.transfer.rxBuf with
    | none => exact (hbuf (.inl ⟨htx, hrx⟩)).elim
    | some rxBuf =>
      rw [hrx, if_neg (Option.some_ne_none _)] at hcpu
      rcases SpiTransfer.mode_rx htx hrx with h | h | h <;> rw [h] <;> exact
        congrArg (Option.map _) (if_neg hcpu)
  | some txBuf =>
    cases hrx : s.sspi.transfer.rxBuf with
    | none =>
      rw [hrx, if_pos rfl] at hcpu
      rcases SpiTransfer.mode_tx htx hrx with h | h | h <;> rw [h] <;> exact
        congrArg (Option.map _) (if_neg hcpu)
    | some rxBuf =>
      rw [hrx, if_neg (Option.some_ne_none _)] at hcpu
      rw [SpiTransfer.mode, htx, hrx]
      exact congrArg (Option.map _) (if_neg hcpu)

/-- A transfer by the CPU: what its loops and the handlers do, and how it ends. -/
theorem halSpiXfer_cpu {s : SpiSys ς} (hok : ¬ s.Refuses t) (hcpu : ¬ s.Bulk t.bulkLen) :
    ∃ w r regs mem, s.halSpiXfer env (some t) =
      some (if env.TooLate ∨ env.EndsInError then spiMasterError else spiMasterOk,
        { s with
          sspi := { s.sspi with
            toSpiSignal := (s.called env t s.regs).signal env.completing, transfer := t }
          regs
          mem
          trace := s.trace ++ (s.events (env.entry ++ env.setup) ++ (w ++ r) ++
            s.events env.completing) }) ∧
      (∀ e ∈ w, e.kind = .tx) ∧ (∀ e ∈ r, e.kind = .rx) ∧
      (txBytes w = t.txData s.mem ∧ fullLevels w < 0xff ↔ Paced (txReady env) t.txCount 0xff 0) ∧
      (rxBytes r).length ≤ t.rxCount ∧
      ((rxBytes r).length = t.rxCount ∧ PopsFilled false r ↔
        Paced (rxReady env) t.rxCount 0xff 0) ∧
      (∀ buf, t.rxBuf = some buf → mem = put s.mem buf (rxBytes r)) ∧
      (t.rxBuf = none → mem = s.mem) := by
  obtain ⟨regs, hx⟩ := spiXfer_accepted env hok
  obtain ⟨f, hf⟩ := spiTransfer_cpu (s := s.primed env t regs) env rfl (fun h => hok (.inl h)) hcpu
  obtain ⟨w, hw, hwk, hwi⟩ := spiCpuWrite_spec env ((s.primed env t regs).onRegs f)
  obtain ⟨r, mem, hr, hrk, hrb, hrn, hrl, hri⟩ :=
    spiCpuRead_spec env (((s.primed env t regs).onRegs f).logAll w)
  obtain ⟨u, hu⟩ : ∃ u : SpiSys ς,
      u = { (((s.primed env t regs).onRegs f).logAll w).logAll r with mem } := ⟨_, rfl⟩
  have hum : u.sspi.modeType = u.sspi.transfer.mode := by rw [hu]; rfl
  have hub : ¬ BadTransfer u.sspi.transfer := by rw [hu]; exact fun h => hok (.inl h)
  have huc : ¬ u.Bulk u.sspi.transfer.bulkLen := by rw [hu]; exact hcpu
  have hus : u.sspi.result = resultAfter (statuses env.setup) spiXferReady := by rw [hu]; rfl
  obtain ⟨regs', hd⟩ := u.deliver_eq env.completing
  have hret : (if (if env.TooLate then spiMasterErrorTimeout
        else if env.EndsInError then spiMasterError else spiMasterOk) ≠ 0 then spiMasterError
      else spiMasterOk) =
      if env.TooLate ∨ env.EndsInError then spiMasterError else spiMasterOk := by
    by_cases hl : env.TooLate
    · rw [if_pos hl, if_pos (show spiMasterErrorTimeout ≠ 0 by decide), if_pos (.inl hl)]
    · by_cases he : env.EndsInError
      · rw [if_neg hl, if_pos he, if_pos (show spiMasterError ≠ 0 by decide), if_pos (.inr he)]
      · rw [if_neg hl, if_neg he, if_neg (not_not.2 rfl), if_neg (not_or.2 ⟨hl, he⟩)]
  have hnull : s.sspi.modeType = .null := not_not.1 (not_or.1 hok).2
  refine ⟨w, r, regs', mem, ?_, hwk, hrk, hwi, hrl, hri, hrb, hrn⟩
  rw [halSpiXfer, hx, hf]
  dsimp only
  rw [if_neg (by decide), hw, hr, ← hu, spiComplete_cpu env hum hub huc,
    spiCpuComplete_eq hus, hd, hret, ← hnull]
  dsimp only [Option.map_some]
  generalize env.completing = is
  rw [← List.append_assoc, ← List.append_assoc, ← List.append_assoc, hu]
  rfl

omit [HalSem ς] in
theorem irq_mem_events (s : SpiSys ς) (is : List SpiIntr) (x : BitVec 32) :
    .irq x ∈ s.events is ↔ x ∈ statuses is := by
  rw [events, List.mem_flatMap, statuses, List.mem_filterMap]
  constructor
  · rintro ⟨i, hi, hx⟩
    refine ⟨i, hi, ?_⟩
    cases i with
    | irq status =>
      cases List.mem_singleton.1 hx
      rfl
    | dmaEnd c =>
      rw [event] at hx
      split at hx
      · cases List.mem_singleton.1 hx
      · cases hx
  · rintro ⟨i, hi, hx⟩
    refine ⟨i, hi, ?_⟩
    cases i with
    | irq status =>
      cases hx
      exact List.mem_singleton_self _
    | dmaEnd c => cases hx

omit [HalSem ς] in
theorem kind_events (s : SpiSys ς) (is : List SpiIntr) : ∀ e ∈ s.events is, e.kind = .handler := by
  intro e he
  obtain ⟨i, -, hi⟩ := List.mem_flatMap.1 he
  cases i with
  | irq status =>
    rw [List.mem_singleton.1 hi]
    rfl
  | dmaEnd c =>
    rw [event] at hi
    split at hi
    · rw [List.mem_singleton.1 hi]
      rfl
    · cases hi

theorem fifo_events {a w r b : List SpiEvent} (ha : ∀ e ∈ a, e.kind = .handler)
    (hw : ∀ e ∈ w, e.kind = .tx) (hr : ∀ e ∈ r, e.kind = .rx) (hb : ∀ e ∈ b, e.kind = .handler) :
    txBytes (a ++ (w ++ r) ++ b) = txBytes w ∧ fullLevels (a ++ (w ++ r) ++ b) = fullLevels w ∧
      rxBytes (a ++ (w ++ r) ++ b) = rxBytes r ∧
      (PopsFilled false (a ++ (w ++ r) ++ b) ↔ PopsFilled false r) := by
  have hne : ∀ {l : List SpiEvent} {k} k', (∀ e ∈ l, e.kind = k) → k ≠ k' → ∀ e ∈ l, e.kind ≠ k' :=
    fun _ h hk e he => h e he ▸ hk
  have hat := hne .tx ha (by decide)
  have har := hne .rx ha (by decide)
  have hbt := hne .tx hb (by decide)
  have hbr := hne .rx hb (by decide)
  have hwr := hne .rx hw (by decide)
  have hrt := hne .tx hr (by decide)
  refine ⟨?_, ?_, ?_, ?_⟩
  · rw [txBytes_append, txBytes_append, txBytes_append, txBytes_other hat, txBytes_other hrt,
      txBytes_other hbt, List.nil_append, List.append_nil, List.append_nil]
  · rw [fullLevels_append, fullLevels_append, fullLevels_append, fullLevels_other hat,
      fullLevels_other hrt, fullLevels_other hbt]
    omega
  · rw [rxBytes_append, rxBytes_append, rxBytes_append, rxBytes_other har, rxBytes_other hwr,
      rxBytes_other hbr, List.nil_append, List.nil_append, List.append_nil]
  · rw [popsFilled_append_right hbr, popsFilled_append_left har, popsFilled_append_left hwr]

theorem mem_irq_fifo {a w r b : List SpiEvent} (hw : ∀ e ∈ w, e.kind = .tx)
    (hr : ∀ e ∈ r, e.kind = .rx) (x : BitVec 32) :
    .irq x ∈ a ++ (w ++ r) ++ b ↔ .irq x ∈ a ∨ .irq x ∈ b := by
  have hwx : .irq x ∉ w := fun h => SpiEventKind.noConfusion (hw _ h)
  have hrx : .irq x ∉ r := fun h => SpiEventKind.noConfusion (hr _ h)
  rw [List.mem_append, List.mem_append, List.mem_append]
  tauto

/-- A transfer by the CPU answers OK exactly when no error is the last interrupt before the decision
and the first does not come just as the time is up: also when no interrupt came and when a FIFO did
not keep up. Such an answer is sound when both FIFOs keep up with the budget of their polls and an
interrupt told of the completion alone. -/
theorem halSpiXfer_cpu_ok {s : SpiSys ς} (hok : ¬ s.Refuses t) (hcpu : ¬ s.Bulk t.bulkLen) :
    ∃ r s' ev, s.halSpiXfer env (some t) = some (r, s') ∧ s'.trace = s.trace ++ ev ∧
      (r = spiMasterOk ↔ ¬ env.TooLate ∧ ¬ env.EndsInError) ∧
      (r = spiMasterOk → (CpuSound t s s' ev ↔
        Paced (txReady env) t.txCount 0xff 0 ∧ Paced (rxReady env) t.rxCount 0xff 0 ∧
          ∃ x ∈ statuses env.entry ++ env.decisive, IsTc x ∧ ¬ IsErr x)) := by
  obtain ⟨w, r, regs, mem, hx, hwk, hrk, hw, -, hr, hput, -⟩ := halSpiXfer_cpu env hok hcpu
  generalize his : env.completing = is at hx
  refine ⟨_, _, _, hx, rfl, ?_, ?_⟩
  · rw [← not_or]
    by_cases h : env.TooLate ∨ env.EndsInError
    · rw [if_pos h]
      exact iff_of_false (by decide) (not_not.2 h)
    · rw [if_neg h]
      exact iff_of_true rfl h
  · intro hret
    have hnot : ¬ (env.TooLate ∨ env.EndsInError) := by
      intro h
      rw [if_pos h] at hret
      exact absurd hret (by decide)
    obtain ⟨htx, hfull, hrx, hpop⟩ := fifo_events (s.kind_events (env.entry ++ env.setup)) hwk hrk
      (s.kind_events is)
    have hirq : ∀ x, .irq x ∈ s.events (env.entry ++ env.setup) ++ (w ++ r) ++ s.events is ↔
        x ∈ statuses env.entry ++ env.decisive := by
      intro x
      rw [mem_irq_fifo hwk hrk, irq_mem_events, irq_mem_events, ← his, SpiEnv.completing,
        if_neg (not_or.1 hnot).1, statuses_append, statuses_append, SpiEnv.decisive, SpiEnv.seen,
        ← List.mem_append, List.append_assoc, List.append_assoc]
    constructor
    · intro h
      obtain ⟨x, hx, hgood⟩ := h.complete
      have hwritten := htx.symm.trans h.written
      have hin := lt_of_eq_of_lt hfull.symm h.inTime
      have hlen := (congrArg List.length hrx).symm.trans h.popped
      exact ⟨hw.1 ⟨hwritten, hin⟩, hr.1 ⟨hlen, hpop.1 h.filled⟩, x, (hirq x).1 hx, hgood⟩
    · rintro ⟨hpw, hpr, x, hx, hgood⟩
      obtain ⟨hwritten, hin⟩ := hw.2 hpw
      obtain ⟨hlen, hfilled⟩ := hr.2 hpr
      refine ⟨htx.trans hwritten, lt_of_eq_of_lt hfull hin, (congrArg List.length hrx).trans hlen,
        hpop.2 hfilled, ?_, x, (hirq x).2 hx, hgood⟩
      intro buf hbuf
      have hs : slice mem buf (rxBytes r).length = rxBytes r := by
        have hall := NorArray.slice_put (a := buf) (n := 0) (d := rxBytes r) s.mem
        rwa [Nat.add_zero, Nat.zero_add, NorArray.slice_zero, List.nil_append,
          ← hput buf hbuf] at hall
      rw [hlen] at hs
      exact hs.trans hrx.symm

/-- A transfer by the CPU, refused or not, has nothing to do with the DMA driver and writes no byte
outside the buffer for what it receives. -/
theorem halSpiXfer_cpu_frame {s : SpiSys ς} (hcpu : ¬ s.Bulk t.bulkLen) :
    ∃ r s', s.halSpiXfer env (some t) = some (r, s') ∧ s'.sspi.modeType = .null ∧
      s'.dma = s.dma ∧ s'.sspi.dmaTx = s.sspi.dmaTx ∧ s'.sspi.dmaRx = s.sspi.dmaRx ∧
      ∀ a, (∀ buf, t.rxBuf = some buf → a < buf ∨ buf + t.rxCount ≤ a) → s'.mem a = s.mem a := by
  by_cases hok : s.Refuses t
  · obtain ⟨is, result, transfer, regs, trace, hx⟩ := spiXfer_refused env hok
    rw [halSpiXfer, hx]
    exact ⟨_, _, rfl, rfl, rfl, rfl, rfl, fun a _ => rfl⟩
  · obtain ⟨w, r, regs, mem, hx, -, -, -, hle, -, hput, hnone⟩ := halSpiXfer_cpu env hok hcpu
    have hnull : s.sspi.modeType = .null := not_not.1 (not_or.1 hok).2
    generalize env.completing = is at hx
    refine ⟨_, _, hx, hnull, rfl, rfl, rfl, fun a ha => ?_⟩
    show mem a = s.mem a
    cases hb : t.rxBuf with
    | none => rw [hnone hb]
    | some buf =>
      rw [hput buf hb]
      apply NorArray.put_outside
      exact (ha buf hb).imp_right fun h => Nat.le_trans (Nat.add_le_add_left hle buf) h

end SpiSys

/-! An idle controller, and a call during which the transfer completes at once. -/

def SpiTransfer.zero : SpiTransfer :=
  { txBuf := none, txLen := 0, txSingleLen := 0, rxBuf := none, rxLen := 0, txNbits := 1,
    rxNbits := 1, dummyByte := 0 }

def SpiSys.idle : SpiSys CountSem where
  cpuXferOnly := false
  sspi := {
    result := spiXferReady, sem := false, xSemaphoreTx := ⟨0⟩, xSemaphoreRx := ⟨0⟩
    base := 0x04025000, modeType := .null, dmaRx := ⟨.zero, none⟩, dmaTx := ⟨.zero, none⟩
    alignDmaBuf := 0x10000, port := 0, transfer := .zero }
  regs := fun _ => 0
  self := 0x20000
  rxCallback := 0x30000
  mem := fun _ => 0
  dma := .init fun _ => 0
  trace := []

def SpiEnv.prompt : SpiEnv where
  txSta := fun _ => 0
  rxSta := fun _ => 1
  rxData := fun _ => 0xff
  pick := some 0x40000
  shown := fun _ => 0xff
  dram := fun _ => 0xff
  entry := []
  setup := []
  started := [.irq spiIntStaTc]
  poll := fun _ => [.irq spiIntStaTc]
  waiting := []
  woken := []
  late := []

theorem SpiSys.halSpiXfer_cpu_ok_read :
    let t : SpiTransfer := { SpiTransfer.zero with rxBuf := some 0x100, rxLen := 2 }
    ∃ r s' ev, SpiSys.idle.halSpiXfer .prompt (some t) = some (r, s') ∧ s'.trace = [] ++ ev ∧
      (r = spiMasterOk ↔ ¬ SpiEnv.prompt.TooLate ∧ ¬ SpiEnv.prompt.EndsInError) ∧
      (r = spiMasterOk → (CpuSound t .idle s' ev ↔
        Paced (txReady .prompt) t.txCount 0xff 0 ∧ Paced (rxReady .prompt) t.rxCount 0xff 0 ∧
          ∃ x ∈ statuses SpiEnv.prompt.entry ++ SpiEnv.prompt.decisive, IsTc x ∧ ¬ IsErr x)) :=
  SpiSys.halSpiXfer_cpu_ok .prompt (by decide) (by decide)

end D1Flash
