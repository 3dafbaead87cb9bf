import D1Flash.Lib.Runs
import D1Flash.Uart.DwUart

namespace D1Flash
open Runs
set_option autoImplicit true

/-- Where a call of `csi_uart_send_async` or `csi_uart_receive_async` is: not running, or after its
write of the data pointer, of the size, or of the enable register. -/
inductive UartCall
  | none
  | data (size : UInt32)
  | sized
  | enabled
  deriving DecidableEq

/-- The handle with the calls in progress, and of the newest transfer of each half, if there was
one, whether its completion was delivered. -/
structure UartRun where
  sys : UartSys
  call : UartDir → UartCall
  done : UartDir → Option Bool

/-- A call starts or does its next step, or the interrupt handler runs. -/
inductive UartEv
  | start (dir : UartDir) (data : Nat) (size : UInt32)
  | next (dir : UartDir)
  | irq (poll : UartPoll)

def UartDir.complete : UartDir → UartEvent
  | .tx => .sendComplete
  | .rx => .receiveComplete

def UartRun.start (s : UartRun) (dir : UartDir) (data : Nat) (size : UInt32) : UartRun :=
  if s.call dir = .none ∧ data ≠ 0 ∧ s.sys.uart.callback ≠ 0 then
    { s with sys := s.sys.setData data dir, call := Function.update s.call dir (.data size) }
  else s

def UartRun.next (s : UartRun) (dir : UartDir) : UartRun :=
  match s.call dir with
  | .none => s
  | .data size =>
    -- from here on the handler serves the new transfer
    ⟨s.sys.setSize size dir, Function.update s.call dir .sized,
      Function.update s.done dir (some false)⟩
  | .sized => { s with sys := s.sys.enableIrq dir, call := Function.update s.call dir .enabled }
  | .enabled => { s with sys := s.sys.setFlag 0 dir, call := Function.update s.call dir .none }

def UartRun.irq (s : UartRun) (poll : UartPoll) : List UartEvent × UartRun :=
  if s.sys.raises poll then
    let r := s.sys.dwUartIrqHandler poll
    (r.1, { s with
      sys := r.2
      done := fun d => if d.complete ∈ r.1 then (s.done d).map fun _ => true else s.done d })
  else ([], s)

def uartEvStep (s : UartRun) : UartEv → List UartEvent × UartRun
  | .start dir data size => ([], s.start dir data size)
  | .next dir => ([], s.next dir)
  | .irq poll => s.irq poll

/-- With no interrupt in between, the steps of a call are the call. -/
theorem async_steps (s : UartRun) (dir : UartDir) (hdata : data ≠ 0)
    (hcb : s.sys.uart.callback ≠ 0) (hidle : s.call dir = .none) :
    (run uartEvStep s [.start dir data size, .next dir, .next dir, .next dir]).2.sys =
      (csiUartAsync dir data size s.sys).2 := by
  rw [csiUartAsync, if_neg hdata, if_neg hcb]
  simp only [run, uartEvStep, UartRun.start, hidle, hdata, hcb, ne_eq, not_false_eq_true, and_self,
    if_true, UartRun.next, Function.update_self]
  rfl

namespace UartSys

theorem mem_notify (s : UartSys) : ev ∈ s.notify event ↔ s.uart.callback ≠ 0 ∧ ev = event := by
  rw [notify]
  split
  case isTrue h => exact List.mem_singleton.trans ⟨fun heq => ⟨h, heq⟩, And.right⟩
  case isFalse h => exact ⟨fun hmem => (nomatch hmem), fun hboth => (h hboth.1).elim⟩

theorem recvLoop_uart (rbr : Nat → Byte) (n k : Nat) (s : UartSys) :
    (recvLoop rbr n k s).uart.callback = s.uart.callback ∧
      (recvLoop rbr n k s).flag = s.flag ∧
      (recvLoop rbr n k s).uart.rxSize = s.uart.rxSize - UInt32.ofNat n := by
  rw [recvLoop_eq]
  exact ⟨rfl, rfl, rfl⟩

theorem sendLoop_uart (n : Nat) (s : UartSys) :
    (sendLoop n s).uart.callback = s.uart.callback ∧ (sendLoop n s).flag = s.flag ∧
      (sendLoop n s).uart.txSize = s.uart.txSize - UInt32.ofNat n := by
  rw [sendLoop_eq]
  exact ⟨rfl, rfl, rfl⟩

/-- A run of the handler ends the transfer of a half: no more is left to send than the FIFO takes,
or to receive than it holds. -/
def Finishes (s : UartSys) (poll : UartPoll) : UartDir → Prop
  | .tx => poll.iir % 16 = dwUartIirThrEmpty ∧ s.uart.txSize ≤ uartMaxFifo
  | .rx =>
    (poll.iir % 16 = dwUartIirRecvDataAvail ∨ poll.iir % 16 = dwUartIirCharacterTimeout) ∧
      s.uart.rxData ≠ 0 ∧ s.uart.rxSize ≠ 0 ∧ s.uart.rxSize ≤ poll.rfl

/-- The handler sets a flag and calls back exactly when it ends the transfer of its half. -/
structure Serves (s : UartSys) (poll : UartPoll) (dir : UartDir) (r : List UartEvent × UartSys) :
    Prop where
  callback : r.2.uart.callback = s.uart.callback
  delivers : dir.complete ∈ r.1 ↔ s.Finishes poll dir
  sets : s.Finishes poll dir → r.2.flag dir = 1
  keeps : ¬ s.Finishes poll dir → r.2.flag dir = s.flag dir

theorem Serves.idle {s : UartSys} {r : List UartEvent × UartSys}
    (hcb : r.2.uart.callback = s.uart.callback)
    (hn : ¬ s.Finishes poll dir) (hmem : dir.complete ∉ r.1) (hflag : r.2.flag dir = s.flag dir) :
    s.Serves poll dir r where
  callback := hcb
  delivers := ⟨fun h => (hmem h).elim, fun h => (hn h).elim⟩
  sets h := (hn h).elim
  keeps _ := hflag

theorem uartIntrSendData_serves {s : UartSys} (hcb : s.uart.callback ≠ 0)
    (hiir : poll.iir % 16 = dwUartIirThrEmpty) (dir : UartDir) :
    s.Serves poll dir s.uartIntrSendData := by
  obtain ⟨hcb', hflag, hsize⟩ := sendLoop_uart
    (if s.uart.txSize > uartMaxFifo then uartMaxFifo else s.uart.txSize).toNat s
  rw [UInt32.ofNat_toNat] at hsize
  have hfin :
      s.uart.txSize - (if s.uart.txSize > uartMaxFifo then uartMaxFifo else s.uart.txSize) = 0 ↔
        s.uart.txSize ≤ uartMaxFifo := by
    split
    case isTrue h => grind
    case isFalse h => grind
  have hrx : ¬ s.Finishes poll .rx := by
    rintro ⟨hr, -⟩
    rw [hiir] at hr
    revert hr
    decide
  rw [uartIntrSendData]
  dsimp only
  rw [hsize]
  by_cases h : s.uart.txSize ≤ uartMaxFifo
  · rw [if_pos (hfin.2 h)]
    cases dir with
    | tx =>
      have htx : s.Finishes poll .tx := ⟨hiir, h⟩
      refine ⟨hcb', ⟨fun _ => htx, fun _ => ?_⟩, fun _ => rfl, fun hn => (hn htx).elim⟩
      exact (mem_notify _).2 ⟨fun h0 => hcb (hcb'.symm.trans h0), rfl⟩
    | rx =>
      apply Serves.idle hcb' hrx
      · exact fun hmem => (nomatch ((mem_notify _).1 hmem).2)
      · exact congrFun hflag .rx
  · rw [if_neg fun h0 => h (hfin.1 h0)]
    cases dir with
    | tx =>
      exact Serves.idle hcb' (fun ht => h ht.2) (fun hmem => (nomatch hmem)) (congrFun hflag .tx)
    | rx => exact Serves.idle hcb' hrx (fun hmem => (nomatch hmem)) (congrFun hflag .rx)

theorem dwUartIntrRecvData_serves {s : UartSys} (hcb : s.uart.callback ≠ 0)
    (hiir : poll.iir % 16 = dwUartIirRecvDataAvail ∨ poll.iir % 16 = dwUartIirCharacterTimeout)
    (dir : UartDir) : s.Serves poll dir (s.dwUartIntrRecvData poll) := by
  have htx : ¬ s.Finishes poll .tx := by
    rintro ⟨ht, -⟩
    rw [ht] at hiir
    revert hiir
    decide
  rw [dwUartIntrRecvData]
  dsimp only
  by_cases hbuf : s.uart.rxData = 0 ∨ s.uart.rxSize = 0
  · rw [if_pos hbuf, if_pos hcb]
    have hmem : ∀ dir : UartDir, dir.complete ∉ [UartEvent.receiveFifoReadable] := by
      intro dir hmem
      have heq := List.mem_singleton.1 hmem
      cases dir with
      | tx => cases heq
      | rx => cases heq
    cases dir with
    | tx => exact Serves.idle rfl htx (hmem .tx) rfl
    | rx =>
      have hrx : ¬ s.Finishes poll .rx := by
        rintro ⟨-, hdata, hsize, -⟩
        exact hbuf.elim hdata hsize
      exact Serves.idle rfl hrx (hmem .rx) rfl
  · rw [if_neg hbuf]
    obtain ⟨hdata, hne⟩ := not_or.1 hbuf
    obtain ⟨hcb', hflag, hsize⟩ := recvLoop_uart poll.rbr
      (doWhileTurns (if poll.rfl > s.uart.rxSize then s.uart.rxSize else poll.rfl)) 0 s
    have hturns : ∀ n : UInt32, UInt32.ofNat (doWhileTurns n) = n := by
      intro n
      rw [doWhileTurns]
      split
      case isTrue h =>
        rw [h]
        rfl
      case isFalse => exact UInt32.ofNat_toNat
    have hfin : s.uart.rxSize - (if poll.rfl > s.uart.rxSize then s.uart.rxSize else poll.rfl) = 0 ↔
        s.uart.rxSize ≤ poll.rfl := by
      split
      case isTrue h => grind
      case isFalse h => grind
    rw [hturns] at hsize
    rw [hsize]
    by_cases h : s.uart.rxSize ≤ poll.rfl
    · rw [if_pos (hfin.2 h)]
      cases dir with
      | tx =>
        apply Serves.idle hcb' htx
        · exact fun hmem => (nomatch ((mem_notify _).1 hmem).2)
        · exact congrFun hflag .tx
      | rx =>
        have hrx : s.Finishes poll .rx := ⟨hiir, hdata, hne, h⟩
        refine ⟨hcb', ⟨fun _ => hrx, fun _ => ?_⟩, fun _ => rfl, fun hn => (hn hrx).elim⟩
        exact (mem_notify _).2 ⟨fun h0 => hcb (hcb'.symm.trans h0), rfl⟩
    · rw [if_neg fun h0 => h (hfin.1 h0)]
      cases dir with
      | tx => exact Serves.idle hcb' htx (fun hmem => (nomatch hmem)) (congrFun hflag .tx)
      | rx =>
        exact Serves.idle hcb' (fun hr => h hr.2.2.2) (fun hmem => (nomatch hmem))
          (congrFun hflag .rx)

theorem dwUartIrqHandler_serves {s : UartSys} (hcb : s.uart.callback ≠ 0)
    (hle : poll.iir % 16 ≠ dwUartIirRecvLineStatus) (dir : UartDir) :
    s.Serves poll dir (s.dwUartIrqHandler poll) := by
  rw [dwUartIrqHandler, if_neg hle]
  by_cases ht : poll.iir % 16 = dwUartIirThrEmpty
  · rw [if_pos ht]
    exact uartIntrSendData_serves hcb ht dir
  · rw [if_neg ht]
    by_cases hr : poll.iir % 16 = dwUartIirRecvDataAvail ∨ poll.iir % 16 = dwUartIirCharacterTimeout
    · rw [if_pos hr]
      exact dwUartIntrRecvData_serves hcb hr dir
    · rw [if_neg hr]
      have hn : ¬ s.Finishes poll dir := by
        cases dir with
        | tx => exact fun hf => ht hf.1
        | rx => exact fun hf => hr hf.1
      exact Serves.idle rfl hn (fun hmem => (nomatch hmem)) rfl

@[simp] theorem setData_flag (s : UartSys) (data : Nat) (dir d : UartDir) :
    (s.setData data dir).flag d = s.flag d := by
  cases dir <;> rfl

@[simp] theorem setData_callback (s : UartSys) (data : Nat) (dir : UartDir) :
    (s.setData data dir).uart.callback = s.uart.callback := by
  cases dir <;> rfl

@[simp] theorem setSize_flag (s : UartSys) (size : UInt32) (dir d : UartDir) :
    (s.setSize size dir).flag d = s.flag d := by
  cases dir <;> rfl

@[simp] theorem setSize_callback (s : UartSys) (size : UInt32) (dir : UartDir) :
    (s.setSize size dir).uart.callback = s.uart.callback := by
  cases dir <;> rfl

@[simp] theorem enableIrq_flag (s : UartSys) (dir d : UartDir) :
    (s.enableIrq dir).flag d = s.flag d := by
  cases dir <;> rfl

@[simp] theorem enableIrq_callback (s : UartSys) (dir : UartDir) :
    (s.enableIrq dir).uart.callback = s.uart.callback := by
  cases dir <;> rfl

@[simp] theorem setFlag_self (s : UartSys) (v : Nat) (dir : UartDir) :
    (s.setFlag v dir).flag dir = v := by
  cases dir <;> rfl

theorem setFlag_of_ne (s : UartSys) (v : Nat) (h : d ≠ dir) :
    (s.setFlag v dir).flag d = s.flag d := by
  cases dir with
  | tx =>
    cases d with
    | tx => exact (h rfl).elim
    | rx => rfl
  | rx =>
    cases d with
    | tx => rfl
    | rx => exact (h rfl).elim

@[simp] theorem setFlag_callback (s : UartSys) (v : Nat) (dir : UartDir) :
    (s.setFlag v dir).uart.callback = s.uart.callback := by
  cases dir <;> rfl

end UartSys

/-- The size of a transfer is set, and its flag is not written yet. -/
def UartRun.Window (s : UartRun) (dir : UartDir) : Prop :=
  s.call dir = .sized ∨ s.call dir = .enabled

/-- Between calls, the flag of the newest transfer says whether its completion was delivered. -/
def UartRun.Right (s : UartRun) : Prop :=
  ∀ dir c, s.call dir = .none → s.done dir = some c → s.sys.flag dir = if c then 1 else 0

/-- No interrupt ends a transfer before the call that starts it has written its flag. -/
def UartEv.Ok (s : UartRun) : UartEv → Prop
  | .irq poll => s.sys.raises poll → ∀ dir, s.Window dir → ¬ s.sys.Finishes poll dir
  | _ => True

def UartEv.NoLineError : UartEv → Prop
  | .irq poll => poll.iir % 16 ≠ dwUartIirRecvLineStatus
  | _ => True

/-- What runs without such interrupts keep, for one half. -/
structure UartHalf (call : UartCall) (done : Option Bool) (flag callback : Nat) : Prop where
  right : call = .none → ∀ c, done = some c → flag = if c then 1 else 0
  pending : call = .sized ∨ call = .enabled → done = some false
  attached : call ≠ .none ∨ done ≠ none → callback ≠ 0

def UartRun.Good (s : UartRun) : Prop :=
  ∀ dir, UartHalf (s.call dir) (s.done dir) (s.sys.flag dir) s.sys.uart.callback

namespace UartRun

theorem Good.right {s : UartRun} (h : s.Good) : s.Right :=
  fun dir c hcall => (h dir).right hcall c

theorem Good.start {s : UartRun} (h : s.Good) (dir : UartDir) (data : Nat) (size : UInt32) :
    (s.start dir data size).Good := by
  rw [UartRun.start]
  split
  case isFalse => exact h
  case isTrue hstart =>
    intro d
    dsimp only
    rw [UartSys.setData_flag, UartSys.setData_callback]
    by_cases hd : d = dir
    · subst hd
      rw [Function.update_self]
      exact ⟨nofun, nofun, fun _ => hstart.2.2⟩
    · rw [Function.update_of_ne hd]
      exact h d

theorem Good.next {s : UartRun} (h : s.Good) (dir : UartDir) : (s.next dir).Good := by
  rw [UartRun.next]
  have hdir := h dir
  cases hcall : s.call dir with
  | none => exact h
  | data size =>
    intro d
    dsimp only
    rw [UartSys.setSize_flag, UartSys.setSize_callback]
    by_cases hd : d = dir
    · subst hd
      rw [Function.update_self, Function.update_self]
      exact ⟨nofun, fun _ => rfl, fun _ => hdir.attached (.inl (by rw [hcall]; nofun))⟩
    · rw [Function.update_of_ne hd, Function.update_of_ne hd]
      exact h d
  | sized =>
    intro d
    dsimp only
    rw [UartSys.enableIrq_flag, UartSys.enableIrq_callback]
    by_cases hd : d = dir
    · subst hd
      rw [Function.update_self]
      exact ⟨nofun, fun _ => hdir.pending (.inl hcall),
        fun _ => hdir.attached (.inl (by rw [hcall]; nofun))⟩
    · rw [Function.update_of_ne hd]
      exact h d
  | enabled =>
    intro d
    dsimp only
    rw [UartSys.setFlag_callback]
    by_cases hd : d = dir
    · subst hd
      rw [Function.update_self, UartSys.setFlag_self]
      have hdone := hdir.pending (.inr hcall)
      refine ⟨fun _ c hc => ?_, fun hw => ?_, hdir.attached ∘ fun _ => .inl (by rw [hcall]; nofun)⟩
      · rw [hdone] at hc
        cases hc
        rfl
      · rcases hw with hw | hw
        · cases hw
        · cases hw
    · rw [Function.update_of_ne hd, UartSys.setFlag_of_ne _ _ hd]
      exact h d

theorem Good.irq {s : UartRun} (h : s.Good) (hle : poll.iir % 16 ≠ dwUartIirRecvLineStatus)
    (hok : UartEv.Ok s (.irq poll)) : (s.irq poll).2.Good := by
  rw [UartRun.irq]
  split
  case isFalse => exact h
  case isTrue hraises =>
    intro d
    have hd := h d
    dsimp only
    by_cases hidle : s.call d = .none ∧ s.done d = none
    · rw [hidle.1, hidle.2, Option.map_none, ite_self]
      exact ⟨fun _ c hc => (nomatch hc), fun hw => (by rcases hw with hw | hw <;> cases hw),
        fun hor => (by rcases hor with hor | hor <;> exact (hor rfl).elim)⟩
    · have hcb : s.sys.uart.callback ≠ 0 := by
        apply hd.attached
        by_cases hcall : s.call d = .none
        · exact .inr fun hdone => hidle ⟨hcall, hdone⟩
        · exact .inl hcall
      have hs := UartSys.dwUartIrqHandler_serves hcb hle d
      rw [hs.callback]
      by_cases hfin : s.sys.Finishes poll d
      · rw [if_pos (hs.delivers.2 hfin), hs.sets hfin]
        refine ⟨fun _ c hc => ?_, fun hw => (hok hraises d hw hfin).elim, fun _ => hcb⟩
        obtain ⟨c', -, rfl⟩ := Option.map_eq_some_iff.1 hc
        rfl
      · rw [if_neg fun hmem => hfin (hs.delivers.1 hmem), hs.keeps hfin]
        exact hd

theorem Good.step {s : UartRun} (h : s.Good) (hle : ev.NoLineError) (hok : ev.Ok s) :
    (uartEvStep s ev).2.Good := by
  cases ev with
  | start dir data size => exact h.start dir data size
  | next dir => exact h.next dir
  | irq poll => exact h.irq hle hok

/-- A completion was delivered before the call that started the transfer wrote its flag. -/
def Late (s : UartRun) (dir : UartDir) : Prop := s.Window dir ∧ s.done dir = some true

/-- A window stays open while the call of its direction does not go on. -/
theorem Window.of_call {s s' : UartRun} (h : s.Window dir) (hc : s'.call dir = s.call dir) :
    s'.Window dir := by
  rw [Window, hc]
  exact h

/-- The completion came too soon: it stays so until the call returns with its flag wrong. -/
theorem Late.step {s : UartRun} (h : s.Late dir) (ev : UartEv) :
    (uartEvStep s ev).2.Late dir ∨ ¬ (uartEvStep s ev).2.Right := by
  obtain ⟨hw, hdone⟩ := h
  cases ev with
  | start d data size =>
    left
    rw [uartEvStep, UartRun.start]
    split
    case isFalse => exact ⟨hw, hdone⟩
    case isTrue hstart =>
      have hne : dir ≠ d := by
        rintro rfl
        rw [Window, hstart.1] at hw
        rcases hw with hw | hw
        · cases hw
        · cases hw
      exact ⟨hw.of_call (Function.update_of_ne hne _ _), hdone⟩
  | next d =>
    rw [uartEvStep, UartRun.next]
    by_cases hd : dir = d
    · subst hd
      rcases hw with hw | hw
      · left
        rw [hw]
        exact ⟨.inr (Function.update_self _ _ _), hdone⟩
      · right
        rw [hw]
        intro hright
        have hflag := hright dir true (Function.update_self _ _ _) hdone
        rw [UartSys.setFlag_self] at hflag
        cases hflag
    · left
      split
      case h_1 => exact ⟨hw, hdone⟩
      case h_2 =>
        exact ⟨hw.of_call (Function.update_of_ne hd _ _),
          (Function.update_of_ne hd _ _).trans hdone⟩
      case h_3 =>
        exact ⟨hw.of_call (Function.update_of_ne hd _ _), hdone⟩
      case h_4 =>
        exact ⟨hw.of_call (Function.update_of_ne hd _ _), hdone⟩
  | irq poll =>
    left
    rw [uartEvStep, UartRun.irq]
    split
    case isFalse => exact ⟨hw, hdone⟩
    case isTrue =>
      refine ⟨hw, ?_⟩
      dsimp only
      rw [hdone, Option.map_some, ite_self]

theorem Late.wrong {s : UartRun} (h : s.Late dir)
    (hend : (run uartEvStep s evs).2.call dir = .none) :
    ¬ Along uartEvStep (fun s ev => (uartEvStep s ev).2.Right) s evs := by
  induction evs generalizing s with
  | nil =>
    rcases h.1 with hw | hw
    · exact absurd (hw.symm.trans hend) nofun
    · exact absurd (hw.symm.trans hend) nofun
  | cons ev evs ih =>
    rintro ⟨hright, htail⟩
    rcases h.step ev with hlate | hwrong
    · exact ih hlate hend htail
    · exact hwrong hright

theorem Good.late {s : UartRun} (h : s.Good) (hle : poll.iir % 16 ≠ dwUartIirRecvLineStatus)
    (hraises : s.sys.raises poll) (hw : s.Window dir) (hfin : s.sys.Finishes poll dir) :
    (uartEvStep s (.irq poll)).2.Late dir := by
  have hcb : s.sys.uart.callback ≠ 0 := by
    apply (h dir).attached
    rcases hw with hw | hw
    · exact .inl (by rw [hw]; nofun)
    · exact .inl (by rw [hw]; nofun)
  have hs := UartSys.dwUartIrqHandler_serves hcb hle dir
  rw [uartEvStep, UartRun.irq, if_pos hraises]
  refine ⟨hw, ?_⟩
  dsimp only
  rw [if_pos (hs.delivers.2 hfin), (h dir).pending hw]
  rfl

end UartRun

def UartRun.Fresh (s : UartRun) : Prop := ∀ dir, s.call dir = .none ∧ s.done dir = none

theorem UartRun.Fresh.good {s : UartRun} (h : s.Fresh) : s.Good := by
  intro dir
  rw [(h dir).1, (h dir).2]
  exact ⟨fun _ c hc => (nomatch hc), fun hw => (by rcases hw with hw | hw <;> cases hw),
    fun hor => (by rcases hor with hor | hor <;> exact (hor rfl).elim)⟩

/-- Where no interrupt ends a transfer before its call has written the flag, the flags are right
between calls in every state; and a run with such an interrupt, once its calls have returned, had a
state in which they were wrong. -/
theorem uart_async_flags {s₀ : UartRun} (hs : s₀.Fresh) (hle : ∀ ev ∈ evs, UartEv.NoLineError ev) :
    (Along uartEvStep UartEv.Ok s₀ evs →
      Along uartEvStep (fun s ev => (uartEvStep s ev).2.Right) s₀ evs) ∧
    ((∀ dir, (run uartEvStep s₀ evs).2.call dir = .none) →
      Along uartEvStep (fun s ev => (uartEvStep s ev).2.Right) s₀ evs →
      Along uartEvStep UartEv.Ok s₀ evs) := by
  have hgood := hs.good
  clear hs
  induction evs generalizing s₀ with
  | nil => exact ⟨fun _ => trivial, fun _ _ => trivial⟩
  | cons ev evs ih =>
    have hev := hle ev List.mem_cons_self
    have htail : ∀ ev ∈ evs, UartEv.NoLineError ev := fun ev h => hle ev (List.mem_cons_of_mem _ h)
    constructor
    · rintro ⟨hok, hoks⟩
      have hstep := hgood.step hev hok
      exact ⟨hstep.right, (ih htail hstep).1 hoks⟩
    · rintro hend ⟨hright, hrights⟩
      have hok : ev.Ok s₀ := by
        cases ev with
        | start => trivial
        | next => trivial
        | irq poll =>
          intro hraises dir hw hfin
          exact (hgood.late hev hraises hw hfin).wrong (hend dir) hrights
      exact ⟨hok, (ih htail (hgood.step hev hok)).2 hend hrights⟩

def attachedUart : UartRun :=
  ⟨⟨⟨0x100, 0, 0, 0, 0, 1, 1⟩, 0, fun _ => 0, [], []⟩, fun _ => .none, fun _ => none⟩

theorem attachedUart_fresh : attachedUart.Fresh := fun _ => ⟨rfl, rfl⟩

def thrEmpty : UartPoll := ⟨dwUartIirThrEmpty, 0, 0, fun _ => 0⟩

/-- One byte is sent, and the interrupt comes before the call has written the flag. -/
def shortSend : List UartEv := [.start .tx 0x2000 1, .next .tx, .next .tx, .irq thrEmpty, .next .tx]

/-- The send is complete and `state.writeable` stays 0. -/
theorem uart_async_flags_race :
    ¬ ∀ (s₀ : UartRun) (evs : List UartEv), s₀.Fresh → (∀ ev ∈ evs, UartEv.NoLineError ev) →
      Along uartEvStep (fun s ev => (uartEvStep s ev).2.Right) s₀ evs := by
  intro h
  have hrun := h attachedUart shortSend attachedUart_fresh (by
    simp [shortSend, UartEv.NoLineError, thrEmpty, dwUartIirThrEmpty, dwUartIirRecvLineStatus])
  exact absurd (hrun.2.2.2.2.1 .tx true rfl rfl) (by decide)

instance (s : UartSys) (poll : UartPoll) : (dir : UartDir) → Decidable (s.Finishes poll dir)
  | .tx => inferInstanceAs (Decidable (_ ∧ _))
  | .rx => inferInstanceAs (Decidable (_ ∧ _))

instance (s : UartRun) (dir : UartDir) : Decidable (s.Window dir) :=
  inferInstanceAs (Decidable (_ ∨ _))

instance (s : UartRun) : (ev : UartEv) → Decidable (UartEv.Ok s ev)
  | .irq poll =>
    decidable_of_iff (s.sys.raises poll →
        (s.Window .tx → ¬ s.sys.Finishes poll .tx) ∧ (s.Window .rx → ¬ s.sys.Finishes poll .rx))
      (imp_congr_right fun _ => ⟨fun h dir => by cases dir with
        | tx => exact h.1
        | rx => exact h.2, fun h => ⟨h .tx, h .rx⟩⟩)
  | .start _ _ _ => isTrue trivial
  | .next _ => isTrue trivial

/-- A long send with an interrupt in the window is right, and so is a short one that is left alone;
a short one with an interrupt there is not. -/
theorem uart_async_flags_long_send :
    let long : List UartEv := [.start .tx 0x2000 40, .next .tx, .next .tx, .irq thrEmpty, .next .tx,
      .irq thrEmpty, .irq thrEmpty]
    let call : List UartEv := [.start .tx 0x2000 1, .next .tx, .next .tx, .next .tx]
    Along uartEvStep (fun s ev => (uartEvStep s ev).2.Right) attachedUart long ∧
      (run uartEvStep attachedUart call).2.sys =
        (csiUartSendAsync 0x2000 1 attachedUart.sys).2 ∧
      Along uartEvStep (fun s ev => (uartEvStep s ev).2.Right) attachedUart
        (call ++ [.irq thrEmpty]) ∧
      ¬ Along uartEvStep (fun s ev => (uartEvStep s ev).2.Right) attachedUart shortSend := by
  refine ⟨(uart_async_flags attachedUart_fresh ?_).1 (by decide +kernel),
    async_steps attachedUart .tx (by decide) (by decide) rfl,
    (uart_async_flags attachedUart_fresh ?_).1 (by decide +kernel), fun h => ?_⟩
  · simp [UartEv.NoLineError, thrEmpty, dwUartIirThrEmpty, dwUartIirRecvLineStatus]
  · simp [UartEv.NoLineError, thrEmpty, dwUartIirThrEmpty, dwUartIirRecvLineStatus]
  · have hok := (uart_async_flags attachedUart_fresh
      (by simp [shortSend, UartEv.NoLineError, thrEmpty, dwUartIirThrEmpty,
        dwUartIirRecvLineStatus])).2 (fun dir => by cases dir <;> rfl) h
    revert hok
    decide +kernel

end D1Flash
