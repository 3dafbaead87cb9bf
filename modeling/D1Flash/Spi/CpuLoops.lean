import D1Flash.Spi.Handlers

namespace D1Flash
open LinkedHeap
open NorArray (put slice)
open Polls (Paced Hit Misses hits)
set_option autoImplicit true

/-- Whose an event is: a FIFO's or the handlers'. -/
inductive SpiEventKind
  | tx
  | rx
  | handler
  deriving DecidableEq

def SpiEvent.kind : SpiEvent → SpiEventKind
  | .txData _ | .txLevel _ => .tx
  | .rxData _ | .rxLevel _ => .rx
  | .irq _ | .dmaEnd _ => .handler

def txBytes (ev : List SpiEvent) : List Byte :=
  ev.filterMap fun
    | .txData x => some x
    | _ => none

def rxBytes (ev : List SpiEvent) : List Byte :=
  ev.filterMap fun
    | .rxData x => some x
    | _ => none

/-- How many readings found the TX FIFO full. -/
def fullLevels (ev : List SpiEvent) : Nat :=
  ev.countP fun
    | .txLevel level => decide (maxFifu ≤ level)
    | _ => false

/-- Each byte comes from the RX FIFO after a reading, since the byte before it, that found the FIFO
not empty. -/
def PopsFilled : Bool → List SpiEvent → Prop
  | _, [] => True
  | _, .rxLevel level :: ev => PopsFilled (decide (level ≠ 0)) ev
  | filled, .rxData _ :: ev => filled = true ∧ PopsFilled false ev
  | filled, .txData _ :: ev => PopsFilled filled ev
  | filled, .txLevel _ :: ev => PopsFilled filled ev
  | filled, .irq _ :: ev => PopsFilled filled ev
  | filled, .dmaEnd _ :: ev => PopsFilled filled ev

section Kinds
variable {ev : List SpiEvent}

theorem txBytes_append (ev ev' : List SpiEvent) : txBytes (ev ++ ev') = txBytes ev ++ txBytes ev' :=
  List.filterMap_append

theorem rxBytes_append (ev ev' : List SpiEvent) : rxBytes (ev ++ ev') = rxBytes ev ++ rxBytes ev' :=
  List.filterMap_append

theorem fullLevels_append (ev ev' : List SpiEvent) :
    fullLevels (ev ++ ev') = fullLevels ev + fullLevels ev' :=
  List.countP_append

theorem txBytes_other (h : ∀ e ∈ ev, e.kind ≠ .tx) : txBytes ev = [] := by
  apply List.filterMap_eq_nil_iff.2
  intro e he
  cases e with
  | txData x => exact (h _ he rfl).elim
  | txLevel | rxData | rxLevel | irq | dmaEnd => rfl

theorem rxBytes_other (h : ∀ e ∈ ev, e.kind ≠ .rx) : rxBytes ev = [] := by
  apply List.filterMap_eq_nil_iff.2
  intro e he
  cases e with
  | rxData x => exact (h _ he rfl).elim
  | rxLevel | txData | txLevel | irq | dmaEnd => rfl

theorem fullLevels_other (h : ∀ e ∈ ev, e.kind ≠ .tx) : fullLevels ev = 0 := by
  apply List.countP_eq_zero.2
  intro e he
  cases e with
  | txLevel level => exact (h _ he rfl).elim
  | txData | rxData | rxLevel | irq | dmaEnd => exact Bool.false_ne_true

theorem popsFilled_append_left (h : ∀ e ∈ ev, e.kind ≠ .rx) (filled : Bool) (ev' : List SpiEvent) :
    PopsFilled filled (ev ++ ev') ↔ PopsFilled filled ev' := by
  induction ev with
  | nil => rfl
  | cons e ev ih =>
    have htail := ih fun e he => h e (List.mem_cons_of_mem _ he)
    cases e with
    | rxData x => exact (h _ List.mem_cons_self rfl).elim
    | rxLevel level => exact (h _ List.mem_cons_self rfl).elim
    | txData | txLevel | irq | dmaEnd => exact htail

theorem popsFilled_other (h : ∀ e ∈ ev, e.kind ≠ .rx) (filled : Bool) : PopsFilled filled ev := by
  have hleft := popsFilled_append_left h filled []
  rw [List.append_nil] at hleft
  exact hleft.2 trivial

theorem popsFilled_append_right {ev' : List SpiEvent} (h : ∀ e ∈ ev', e.kind ≠ .rx)
    (filled : Bool) : PopsFilled filled (ev ++ ev') ↔ PopsFilled filled ev := by
  induction ev generalizing filled with
  | nil => exact iff_of_true (popsFilled_other h filled) trivial
  | cons e ev ih =>
    cases e with
    | rxData x => exact and_congr_right fun _ => ih false
    | rxLevel level => exact ih _
    | txData | txLevel | irq | dmaEnd => exact ih filled

end Kinds

namespace SpiSys

def logAll (s : SpiSys ς) (ev : List SpiEvent) : SpiSys ς := { s with trace := s.trace ++ ev }

theorem logAll_nil (s : SpiSys ς) : s.logAll [] = s := by
  rw [logAll, List.append_nil]

theorem logAll_append (s : SpiSys ς) (ev ev' : List SpiEvent) :
    (s.logAll ev).logAll ev' = s.logAll (ev ++ ev') := by
  rw [logAll, logAll, logAll, List.append_assoc]

theorem after_log (ready : Nat → Bool) (e : Nat → SpiEvent) (n k : Nat) (s : SpiSys ς) :
    Polls.after (fun k s => (ready k, s.log (e k))) n k s = s.logAll ((List.range' k n).map e) := by
  induction n generalizing k s with
  | zero => exact s.logAll_nil.symm
  | succ n ih =>
    rw [Polls.after, ih, List.range'_succ]
    exact s.logAll_append [e k] _

variable (env : SpiEnv)

/-- Reading `k` finds room in the TX FIFO. -/
def txReady (k : Nat) : Bool := decide (spiQueryTxfifo (env.txSta k) < maxFifu)

def rxReady (k : Nat) : Bool := decide (spiQueryRxfifo (env.rxSta k) ≠ 0)

def txLevels (k n : Nat) : List SpiEvent :=
  (List.range' k n).map fun i => .txLevel (spiQueryTxfifo (env.txSta i))

def rxLevels (k n : Nat) : List SpiEvent :=
  (List.range' k n).map fun i => .rxLevel (spiQueryRxfifo (env.rxSta i))

theorem kind_txLevels (k n : Nat) : ∀ e ∈ txLevels env k n, e.kind = .tx := by
  intro e he
  obtain ⟨i, -, rfl⟩ := List.mem_map.1 he
  rfl

theorem kind_rxLevels (k n : Nat) : ∀ e ∈ rxLevels env k n, e.kind = .rx := by
  intro e he
  obtain ⟨i, -, rfl⟩ := List.mem_map.1 he
  rfl

theorem txBytes_txLevels (k n : Nat) : txBytes (txLevels env k n) = [] := by
  apply List.filterMap_eq_nil_iff.2
  intro e he
  obtain ⟨i, -, rfl⟩ := List.mem_map.1 he
  rfl

theorem rxBytes_rxLevels (k n : Nat) : rxBytes (rxLevels env k n) = [] := by
  apply List.filterMap_eq_nil_iff.2
  intro e he
  obtain ⟨i, -, rfl⟩ := List.mem_map.1 he
  rfl

theorem fullLevels_txLevels (k n : Nat) :
    fullLevels (txLevels env k n) + hits (txReady env) k n = n := by
  induction n generalizing k with
  | zero => rfl
  | succ n ih =>
    have hcons : txLevels env k (n + 1) =
        [.txLevel (spiQueryTxfifo (env.txSta k))] ++ txLevels env (k + 1) n := by
      rw [txLevels, List.range'_succ]
      rfl
    have hone : fullLevels [.txLevel (spiQueryTxfifo (env.txSta k))] +
      hits (txReady env) k 1 = 1 := by
      by_cases hlt : spiQueryTxfifo (env.txSta k) < maxFifu
      · simp [fullLevels, hits, txReady, hlt, Nat.not_le.2 hlt]
      · simp [fullLevels, hits, txReady, hlt, Nat.not_lt.1 hlt]
    rw [hcons, fullLevels_append, Nat.add_comm n 1, Polls.hits_add]
    have := ih (k + 1)
    omega

theorem popsFilled_rxLevels (k n : Nat) (filled : Bool) (ev : List SpiEvent) :
    PopsFilled filled (rxLevels env k (n + 1) ++ ev) ↔ PopsFilled (rxReady env (k + n)) ev := by
  induction n generalizing k filled with
  | zero => rfl
  | succ n ih =>
    have hcons : rxLevels env k (n + 1 + 1) =
        .rxLevel (spiQueryRxfifo (env.rxSta k)) :: rxLevels env (k + 1) (n + 1) := by
      rw [rxLevels, List.range'_succ]
      rfl
    rw [hcons, List.cons_append, PopsFilled, ih, Nat.add_assoc, Nat.add_comm 1 n]

theorem after_readTxLevel (n k : Nat) (s : SpiSys ς) :
    Polls.after (readTxLevel env) n k s = s.logAll (txLevels env k n) :=
  after_log (txReady env) (fun i => .txLevel (spiQueryTxfifo (env.txSta i))) n k s

theorem after_readRxLevel (n k : Nat) (s : SpiSys ς) :
    Polls.after (readRxLevel env) n k s = s.logAll (rxLevels env k n) :=
  after_log (rxReady env) (fun i => .rxLevel (spiQueryRxfifo (env.rxSta i))) n k s

/-- A byte that is written, and the readings after it. -/
def writeEvents (x : Byte) (k n : Nat) : List SpiEvent := .txData x :: txLevels env k n

/-- Readings, and the byte that is popped after them. -/
def readEvents (x : Byte) (k n : Nat) : List SpiEvent := rxLevels env k n ++ [.rxData x]

variable {env}

theorem kind_writeEvents (hw : ∀ e ∈ w, e.kind = .tx) :
    ∀ e ∈ writeEvents env x k n ++ w, e.kind = .tx := by
  intro e he
  rcases List.mem_append.1 he with he | he
  · rcases List.mem_cons.1 he with rfl | he
    · rfl
    · exact kind_txLevels env k n e he
  · exact hw e he

theorem kind_readEvents (hr : ∀ e ∈ r, e.kind = .rx) :
    ∀ e ∈ readEvents env x k n ++ r, e.kind = .rx := by
  intro e he
  rcases List.mem_append.1 he with he | he
  · rcases List.mem_append.1 he with he | he
    · exact kind_rxLevels env k n e he
    · rw [List.mem_singleton.1 he]
      rfl
  · exact hr e he

theorem txBytes_writeEvents (w : List SpiEvent) :
    txBytes (writeEvents env x k n ++ w) = x :: txBytes w := by
  show x :: txBytes (txLevels env k n ++ w) = x :: txBytes w
  rw [txBytes_append, txBytes_txLevels]
  rfl

theorem rxBytes_readEvents (r : List SpiEvent) :
    rxBytes (readEvents env x k n ++ r) = x :: rxBytes r := by
  rw [rxBytes_append, readEvents, rxBytes_append, rxBytes_rxLevels]
  rfl

theorem fullLevels_writeEvents (w : List SpiEvent) :
    fullLevels (writeEvents env x k n ++ w) + hits (txReady env) k n = n + fullLevels w := by
  have hcount := fullLevels_txLevels env k n
  have happend : fullLevels (writeEvents env x k n ++ w) =
      fullLevels (txLevels env k n) + fullLevels w := fullLevels_append (txLevels env k n) w
  omega

theorem popsFilled_readEvents (r : List SpiEvent) :
    PopsFilled false (readEvents env x k (n + 1) ++ r) ↔
      rxReady env (k + n) = true ∧ PopsFilled false r := by
  rw [readEvents, List.append_assoc, popsFilled_rxLevels]
  rfl

variable (env)

theorem write_waited (t k : Nat) (x : Byte) (s : SpiSys ς) :
    ∃ left n, Polls.wait (readTxLevel env) u32Top t k (s.log (.txData x)) =
        ((left, k + n), s.logAll (writeEvents env x k n)) ∧
      Polls.Waited (txReady env) u32Top t k left n := by
  have hr : ∀ k (s : SpiSys ς), (readTxLevel env k s).1 = txReady env k := fun _ _ => rfl
  obtain ⟨left, n, hwait, hw⟩ := Polls.wait_waited hr u32Top t k (s.log (.txData x))
  refine ⟨left, n, ?_, hw⟩
  rw [hwait, after_readTxLevel]
  exact congrArg _ (s.logAll_append [.txData x] _)

theorem read_waited (t k : Nat) (s : SpiSys ς) :
    ∃ left n, Polls.wait (readRxLevel env) u32Top t k s =
        ((left, k + n), s.logAll (rxLevels env k n)) ∧
      Polls.Waited (rxReady env) u32Top t k left n := by
  have hr : ∀ k (s : SpiSys ς), (readRxLevel env k s).1 = rxReady env k := fun _ _ => rfl
  obtain ⟨left, n, hwait, hw⟩ := Polls.wait_waited hr u32Top t k s
  exact ⟨left, n, by rw [hwait, after_readRxLevel], hw⟩

/-- The writes: the budget lasts for all of them exactly when enough readings find room. -/
theorem cpuWriteLoop_spec (len buf t k : Nat) (s : SpiSys ς) (ht : 0 < t) :
    ∃ w, (cpuWriteLoop env len buf t k s).2 = s.logAll w ∧ (∀ e ∈ w, e.kind = .tx) ∧
      (txBytes w = slice s.mem buf len ∧ fullLevels w < t ↔ Paced (txReady env) len t k) := by
  induction len generalizing buf t k s with
  | zero =>
    exact ⟨[], s.logAll_nil.symm, fun e he => (List.not_mem_nil he).elim,
      iff_of_true ⟨rfl, ht⟩ (Polls.paced_zero _ _ _)⟩
  | succ len ih =>
    obtain ⟨left, n, hwait, hw⟩ := write_waited env t k (s.mem buf) s
    have hfull : ∀ w, fullLevels (writeEvents env (s.mem buf) k n ++ w) + hits (txReady env) k n =
        n + fullLevels w := fun w => fullLevels_writeEvents w
    rw [cpuWriteLoop, hwait]
    dsimp only
    cases hw with
    | @hit j hj hready hhits hpaced =>
      obtain ⟨w, hs, hk, hiff⟩ := ih (buf + 1) (t - j) (k + (j + 1))
        (s.logAll (writeEvents env (s.mem buf) k (j + 1))) (Nat.sub_pos_of_lt hj)
      rw [if_neg (Nat.sub_ne_zero_of_lt hj), hs, logAll_append]
      refine ⟨_, rfl, kind_writeEvents hk, ?_⟩
      have hcount := hfull w
      rw [hpaced, ← hiff, txBytes_writeEvents, NorArray.slice_succ, List.cons.injEq, and_assoc]
      refine (and_iff_right rfl).trans (and_congr_right fun _ => ?_)
      omega
    | last hhits hpaced =>
      -- the last of the budget went into this byte
      rw [if_pos rfl]
      refine ⟨writeEvents env (s.mem buf) k (t + 1) ++ [], ?_,
        kind_writeEvents fun e he => (List.not_mem_nil he).elim,
        iff_of_false (fun h => ?_) (hpaced len)⟩
      · rw [List.append_nil]
      · have hcount := hfull []
        omega
    | wrap hready hhits hpaced =>
      obtain ⟨w, hs, hk, -⟩ := ih (buf + 1) u32Top (k + (t + 1))
        (s.logAll (writeEvents env (s.mem buf) k (t + 1))) (by decide)
      rw [if_neg (by decide), hs, logAll_append]
      refine ⟨_, rfl, kind_writeEvents hk, iff_of_false (fun h => ?_) (hpaced len)⟩
      have hcount := hfull w
      omega

theorem popped_cons (buf : Addr) (n k m : Nat) (x : Byte) (s : SpiSys ς) (r : List SpiEvent) :
    let s' : SpiSys ς := { (s.logAll (rxLevels env k m)).log (.rxData x) with
      mem := Function.update s.mem (buf + n) x }
    { s'.logAll r with mem := put s'.mem (buf + (n + 1)) (rxBytes r) } =
      { s.logAll (readEvents env x k m ++ r) with
        mem := put s.mem (buf + n) (rxBytes (readEvents env x k m ++ r)) } := by
  intro s'
  have hlog : (s.logAll (readEvents env x k m)).logAll r = s.logAll (readEvents env x k m ++ r) :=
    s.logAll_append _ _
  rw [rxBytes_readEvents, ← NorArray.put_cons, ← hlog, readEvents, ← logAll_append]
  rfl

/-- The reads: what is popped is stored in order, and all of it comes from a FIFO that is not empty
exactly when the budget lasts. -/
theorem cpuReadLoop_spec (buf : Addr) (len n t k : Nat) (s : SpiSys ς) (ht : 0 < t) :
    ∃ r, (cpuReadLoop env buf len n t k s).2 =
        { s.logAll r with mem := put s.mem (buf + n) (rxBytes r) } ∧
      (∀ e ∈ r, e.kind = .rx) ∧ (rxBytes r).length ≤ len ∧
      ((rxBytes r).length = len ∧ PopsFilled false r ↔ Paced (rxReady env) len t k) := by
  induction len generalizing n t k s with
  | zero =>
    refine ⟨[], ?_, fun e he => (List.not_mem_nil he).elim, Nat.le_refl 0,
      iff_of_true ⟨rfl, trivial⟩ (Polls.paced_zero _ _ _)⟩
    show s = { s.logAll [] with mem := put s.mem (buf + n) [] }
    rw [logAll_nil, NorArray.put_nil]
  | succ len ih =>
    obtain ⟨left, m, hwait, hw⟩ := read_waited env t k s
    rw [cpuReadLoop, hwait]
    dsimp only
    cases hw with
    | @hit j hj hready hhits hpaced =>
      obtain ⟨r, hs, hk, hle, hiff⟩ := ih (n + 1) (t - j) (k + (j + 1))
        { (s.logAll (rxLevels env k (j + 1))).log (.rxData (env.rxData n)) with
          mem := Function.update s.mem (buf + n) (env.rxData n) } (Nat.sub_pos_of_lt hj)
      rw [if_neg (Nat.sub_ne_zero_of_lt hj)]
      refine ⟨_, hs.trans (popped_cons env buf n k (j + 1) _ s r), kind_readEvents hk, ?_, ?_⟩
      · rw [rxBytes_readEvents]
        exact Nat.succ_le_succ hle
      · rw [hpaced, ← hiff, rxBytes_readEvents, popsFilled_readEvents, hready, List.length_cons,
          Nat.succ_inj, and_iff_right rfl]
    | last hhits hpaced =>
      rw [if_pos rfl]
      refine ⟨rxLevels env k (t + 1), ?_, kind_rxLevels env k (t + 1), ?_,
        iff_of_false (fun h => ?_) (hpaced len)⟩
      · rw [rxBytes_rxLevels, NorArray.put_nil]
        rfl
      · rw [rxBytes_rxLevels]
        exact Nat.zero_le _
      · rw [rxBytes_rxLevels] at h
        exact absurd h.1 (Nat.succ_ne_zero len).symm
    | wrap hready hhits hpaced =>
      obtain ⟨r, hs, hk, hle, -⟩ := ih (n + 1) u32Top (k + (t + 1))
        { (s.logAll (rxLevels env k (t + 1))).log (.rxData (env.rxData n)) with
          mem := Function.update s.mem (buf + n) (env.rxData n) } (by decide)
      rw [if_neg (by decide)]
      refine ⟨_, hs.trans (popped_cons env buf n k (t + 1) _ s r), kind_readEvents hk, ?_,
        iff_of_false (fun h => ?_) (hpaced len)⟩
      · rw [rxBytes_readEvents]
        exact Nat.succ_le_succ hle
      · rw [popsFilled_readEvents, hready] at h
        exact Bool.false_ne_true h.2.1

end SpiSys

end D1Flash
