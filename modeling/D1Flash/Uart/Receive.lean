import D1Flash.Uart.AsyncFlags

namespace D1Flash
open NorArray (put slice)
open Runs
set_option autoImplicit true

/-- An interrupt that `dw_uart_intr_recv_data` serves. -/
def UartPoll.Receives (poll : UartPoll) : Prop :=
  poll.iir % 16 = dwUartIirRecvDataAvail ∨ poll.iir % 16 = dwUartIirCharacterTimeout

instance (poll : UartPoll) : Decidable poll.Receives := inferInstanceAs (Decidable (_ ∨ _))

namespace UartSys

def bufferReads (s : UartSys) (poll : UartPoll) : Nat :=
  let rxfifoNum := poll.rfl
  let rxdataNum := if rxfifoNum > s.uart.rxSize then s.uart.rxSize else rxfifoNum
  if poll.Receives ∧ ¬ (s.uart.rxData = 0 ∨ s.uart.rxSize = 0) then doWhileTurns rxdataNum else 0

theorem dwUartIrqHandler_receives (s : UartSys) {poll : UartPoll} (h : poll.Receives) :
    s.dwUartIrqHandler poll = s.dwUartIntrRecvData poll := by
  rw [dwUartIrqHandler]
  cases h with
  | inl h =>
    rw [h]
    rfl
  | inr h =>
    rw [h]
    rfl

theorem notify_count (s : UartSys) (event e : UartEvent) :
    (s.notify event).count e = if s.uart.callback ≠ 0 ∧ event = e then 1 else 0 := by
  rw [notify]
  by_cases hcb : s.uart.callback ≠ 0
  · rw [if_pos hcb, List.count_singleton]
    by_cases he : event = e
    · rw [if_pos (beq_iff_eq.2 he), if_pos ⟨hcb, he⟩]
    · rw [if_neg (mt beq_iff_eq.1 he), if_neg fun h => he h.2]
  · rw [if_neg hcb, if_neg fun h => hcb h.1]
    rfl

/-- The receive half is as it was, and nobody hears of a full buffer. -/
structure RecvIdle (s : UartSys) (r : List UartEvent × UartSys) : Prop where
  mem : r.2.mem = s.mem
  rbr : r.2.rbr = s.rbr
  rxData : r.2.uart.rxData = s.uart.rxData
  rxSize : r.2.uart.rxSize = s.uart.rxSize
  quiet : r.1.count .receiveComplete = 0

theorem uartIntrLineError_receive (s : UartSys) (poll : UartPoll) :
    s.RecvIdle (s.uartIntrLineError poll) := by
  have hnone : ∀ (s : UartSys) (b : Bool) (event : UartEvent), event ≠ .receiveComplete →
      (if b then s.notify event else []).count .receiveComplete = 0 := by
    intro s b event hne
    cases b with
    | true => exact (s.notify_count event _).trans (if_neg fun h => hne h.2)
    | false => rfl
  refine ⟨rfl, rfl, rfl, rfl, ?_⟩
  simp only [uartIntrLineError, List.count_append]
  rw [hnone _ _ .errorOverflow nofun, hnone _ _ .errorParity nofun, hnone _ _ .errorFraming nofun,
    hnone _ _ .breakIntr nofun]

theorem uartIntrSendData_receive (s : UartSys) : s.RecvIdle s.uartIntrSendData := by
  rw [uartIntrSendData, sendLoop_eq]
  generalize (if s.uart.txSize > uartMaxFifo then uartMaxFifo else s.uart.txSize).toNat = n
  dsimp only
  split
  · refine ⟨rfl, rfl, rfl, rfl, ?_⟩
    rw [notify_count, if_neg fun h => UartEvent.noConfusion h.2]
  · exact ⟨rfl, rfl, rfl, rfl, rfl⟩

theorem bufferReads_eq {s : UartSys} {poll : UartPoll} (hr : poll.Receives)
    (hbuf : ¬ (s.uart.rxData = 0 ∨ s.uart.rxSize = 0)) (hlevel : poll.rfl ≠ 0) :
    s.bufferReads poll = min poll.rfl.toNat s.uart.rxSize.toNat := by
  rw [bufferReads, if_pos ⟨hr, hbuf⟩, doWhileTurns]
  by_cases hlt : poll.rfl > s.uart.rxSize
  · rw [if_pos hlt, if_neg (not_or.1 hbuf).2]
    exact (Nat.min_eq_right (Nat.le_of_lt hlt)).symm
  · rw [if_neg hlt, if_neg hlevel]
    exact (Nat.min_eq_left (Nat.le_of_not_lt hlt)).symm

theorem dwUartIrqHandler_fills (s : UartSys) {poll : UartPoll} (hr : poll.Receives)
    (hbuf : ¬ (s.uart.rxData = 0 ∨ s.uart.rxSize = 0)) :
    let n := s.bufferReads poll
    let h := s.dwUartIrqHandler poll
    h.2.mem = put s.mem s.uart.rxData (slice poll.rbr 0 n) ∧
      h.2.rbr = s.rbr ++ slice poll.rbr 0 n ∧ h.2.uart.rxData = s.uart.rxData + n ∧
      h.2.uart.rxSize = s.uart.rxSize - UInt32.ofNat n ∧
      h.1 = if h.2.uart.rxSize = 0 then s.notify .receiveComplete else [] := by
  have hn : s.bufferReads poll =
      doWhileTurns (if poll.rfl > s.uart.rxSize then s.uart.rxSize else poll.rfl) :=
    if_pos ⟨hr, hbuf⟩
  rw [s.dwUartIrqHandler_receives hr, dwUartIntrRecvData, if_neg hbuf, recvLoop_eq, ← hn]
  dsimp only
  by_cases h0 : s.uart.rxSize - UInt32.ofNat (s.bufferReads poll) = 0
  · rw [if_pos h0, if_pos h0]
    exact ⟨rfl, rfl, rfl, rfl, rfl⟩
  · rw [if_neg h0, if_neg h0]
    exact ⟨rfl, rfl, rfl, rfl, rfl⟩

theorem dwUartIrqHandler_drops (s : UartSys) {poll : UartPoll} (hr : poll.Receives)
    (hbuf : s.uart.rxData = 0 ∨ s.uart.rxSize = 0) : s.dwUartIrqHandler poll =
      if s.uart.callback ≠ 0 then ([.receiveFifoReadable], s)
      else ([], { s with rbr := s.rbr ++ slice poll.rbr 0 (doWhileTurns poll.rfl) }) := by
  rw [s.dwUartIrqHandler_receives hr, dwUartIntrRecvData, if_pos hbuf, dropLoop_eq]

theorem dwUartIrqHandler_other (s : UartSys) {poll : UartPoll} (hr : ¬ poll.Receives) :
    s.RecvIdle (s.dwUartIrqHandler poll) := by
  rw [dwUartIrqHandler]
  split
  · exact s.uartIntrLineError_receive poll
  · split
    · exact s.uartIntrSendData_receive
    · split
      · next hc => exact (hr hc).elim
      · exact ⟨rfl, rfl, rfl, rfl, rfl⟩

/-- A receive interrupt finds a byte in the FIFO, or leaves the FIFO to the callback. -/
def FifoHas (s : UartSys) (poll : UartPoll) : Prop :=
  poll.Receives →
    poll.rfl ≠ 0 ∨ (s.uart.callback ≠ 0 ∧ (s.uart.rxData = 0 ∨ s.uart.rxSize = 0))

instance (s : UartSys) (poll : UartPoll) : Decidable (s.FifoHas poll) :=
  inferInstanceAs (Decidable (_ → _))

/-- What one interrupt is to do: no more bytes are stored than there is room for, none is taken from
an empty FIFO, and the callback hears of the buffer when it becomes full. -/
structure ServesBuffer (s : UartSys) (poll : UartPoll) : Prop where
  fits : (s.dwUartIrqHandler poll).2.uart.rxData ≤ s.uart.rxData + s.uart.rxSize.toNat
  takes : (s.dwUartIrqHandler poll).2.rbr.length ≤ s.rbr.length + poll.rfl.toNat
  delivers : (s.dwUartIrqHandler poll).1.count .receiveComplete =
    if s.uart.callback ≠ 0 ∧ s.uart.rxSize ≠ 0 ∧ (s.dwUartIrqHandler poll).2.uart.rxSize = 0
    then 1 else 0

/-- The bytes of a receive into a buffer at `data` that are stored. -/
def stored (s : UartSys) (data : Nat) : Nat := s.uart.rxData - data

/-- What holds of a receive into `size` bytes from `data` that started in `s₀`. -/
structure InBuffer (s s₀ : UartSys) (data : Nat) (size : UInt32) : Prop where
  left : s.stored data + s.uart.rxSize.toNat = size.toNat
  inOrder : s₀.rbr ++ slice s.mem data (s.stored data) <+: s.rbr
  outside : ∀ a, a < data ∨ data + size.toNat ≤ a → s.mem a = s₀.mem a

/-- While the buffer has room, all that was taken is in it. -/
structure Filling (s s₀ : UartSys) (data : Nat) (size : UInt32) : Prop
    extends InBuffer s s₀ data size where
  next : s.uart.rxData = data + s.stored data
  all : s.uart.rxData ≠ 0 → s.uart.rxSize ≠ 0 →
    s₀.rbr ++ slice s.mem data (s.stored data) = s.rbr

variable {s₀ s t : UartSys} {poll : UartPoll}

theorem Filling.of_same (h : s.Filling s₀ data size) (hm : t.mem = s.mem)
    (hd : t.uart.rxData = s.uart.rxData) (hs : t.uart.rxSize = s.uart.rxSize)
    (hrbr : s.rbr <+: t.rbr)
    (hroom : s.uart.rxData ≠ 0 → s.uart.rxSize ≠ 0 → t.rbr = s.rbr) : t.Filling s₀ data size := by
  have hstored : t.stored data = s.stored data := congrArg (· - data) hd
  refine ⟨⟨?_, ?_, ?_⟩, ?_, ?_⟩
  · rw [hstored, hs]
    exact h.left
  · rw [hstored, hm]
    exact h.inOrder.trans hrbr
  · rw [hm]
    exact h.outside
  · rw [hstored, hd]
    exact h.next
  · intro hne hsize
    rw [hd] at hne
    rw [hs] at hsize
    rw [hstored, hm, hroom hne hsize]
    exact h.all hne hsize

theorem Filling.fill (h : s.Filling s₀ data size) (hr : poll.Receives)
    (hbuf : ¬ (s.uart.rxData = 0 ∨ s.uart.rxSize = 0)) (hlevel : poll.rfl ≠ 0) :
    s.ServesBuffer poll ∧ (s.dwUartIrqHandler poll).2.Filling s₀ data size := by
  obtain ⟨hdata, hsize⟩ := not_or.1 hbuf
  obtain ⟨hm, hrbr, hd, hs, hev⟩ := s.dwUartIrqHandler_fills hr hbuf
  have hn := s.bufferReads_eq hr hbuf hlevel
  generalize s.bufferReads poll = n at hm hrbr hd hs hn
  have hleft : (s.uart.rxSize - UInt32.ofNat n).toNat = s.uart.rxSize.toNat - n := by
    have hlt := s.uart.rxSize.toNat_lt
    have hof : (UInt32.ofNat n).toNat = n := UInt32.toNat_ofNat_of_lt (show _ < 4294967296 by omega)
    rw [UInt32.toNat_sub_of_le _ _ (UInt32.le_iff_toNat_le.2 (by omega)), hof]
  have hsum := h.left
  have hnext := h.next
  have hstored : (s.dwUartIrqHandler poll).2.stored data = s.stored data + n := by
    rw [UartSys.stored, hd, hnext]
    omega
  -- the bytes of this interrupt come after those that are stored
  have hput : slice (s.dwUartIrqHandler poll).2.mem data (s.stored data + n) =
      slice s.mem data (s.stored data) ++ slice poll.rbr 0 n := by
    have hlen := NorArray.slice_length (a := 0) (n := n) poll.rbr
    have hall := NorArray.slice_put (a := data) (n := s.stored data) (d := slice poll.rbr 0 n) s.mem
    rw [hlen] at hall
    rw [hm, hnext]
    exact hall
  have hall : s₀.rbr ++ slice (s.dwUartIrqHandler poll).2.mem data
      ((s.dwUartIrqHandler poll).2.stored data) = (s.dwUartIrqHandler poll).2.rbr := by
    rw [hstored, hput, hrbr, ← h.all hdata hsize, List.append_assoc]
  refine ⟨⟨?_, ?_, ?_⟩, ⟨?_, ?_, ?_⟩, ?_, fun _ _ => hall⟩
  · rw [hd]
    omega
  · rw [hrbr, List.length_append, NorArray.slice_length]
    omega
  · rw [hev]
    by_cases h0 : (s.dwUartIrqHandler poll).2.uart.rxSize = 0
    · rw [if_pos h0, UartSys.notify_count]
      simp only [and_true, hsize, h0, ne_eq, not_false_eq_true]
    · rw [if_neg h0, if_neg fun hc => h0 hc.2.2]
      rfl
  · rw [hstored, hs, hleft]
    omega
  · exact hall ▸ List.prefix_rfl
  · intro a ha
    rw [hm, NorArray.put_outside, h.outside a ha]
    rw [NorArray.slice_length, hnext]
    omega
  · rw [hstored, hd, hnext, Nat.add_assoc]

theorem Filling.other (h : s.Filling s₀ data size) (hr : ¬ poll.Receives) :
    s.ServesBuffer poll ∧ (s.dwUartIrqHandler poll).2.Filling s₀ data size := by
  obtain ⟨hm, hrbr, hd, hs, hquiet⟩ := s.dwUartIrqHandler_other hr
  refine ⟨⟨?_, ?_, ?_⟩, h.of_same hm hd hs ?_ fun _ _ => hrbr⟩
  · rw [hd]
    exact Nat.le_add_right _ _
  · rw [hrbr]
    exact Nat.le_add_right _ _
  · rw [hquiet, if_neg fun hc => hc.2.1 (hs.symm.trans hc.2.2)]
  · exact hrbr ▸ List.prefix_rfl

theorem Filling.unbuffered (h : s.Filling s₀ data size) (hf : s.FifoHas poll)
    (hr : poll.Receives) (hbuf : s.uart.rxData = 0 ∨ s.uart.rxSize = 0) :
    s.ServesBuffer poll ∧ (s.dwUartIrqHandler poll).2.Filling s₀ data size := by
  have hnone : ¬ (s.uart.rxData ≠ 0 ∧ s.uart.rxSize ≠ 0) := fun hc => hbuf.elim hc.1 hc.2
  have hh := s.dwUartIrqHandler_drops hr hbuf
  by_cases hcb : s.uart.callback ≠ 0
  · rw [if_pos hcb] at hh
    rw [hh]
    refine ⟨⟨?_, ?_, ?_⟩, h⟩
    · rw [hh]
      exact Nat.le_add_right _ _
    · rw [hh]
      exact Nat.le_add_right _ _
    · rw [hh]
      exact (if_neg fun hc => hc.2.1 hc.2.2).symm
  · rw [if_neg hcb] at hh
    have hlevel : poll.rfl ≠ 0 := (hf hr).resolve_right fun hc => hcb hc.1
    rw [hh]
    refine ⟨⟨?_, ?_, ?_⟩, h.of_same rfl rfl rfl (List.prefix_append _ _)
      fun hd hs => (hnone ⟨hd, hs⟩).elim⟩
    · rw [hh]
      exact Nat.le_add_right _ _
    · apply Nat.le_of_eq
      rw [hh, List.length_append, NorArray.slice_length, doWhileTurns, if_neg hlevel]
    · rw [hh]
      exact (if_neg fun hc => hcb hc.1).symm

/-- With a byte to take, an interrupt serves the buffer. -/
theorem Filling.step (h : s.Filling s₀ data size) (hf : s.FifoHas poll) :
    s.ServesBuffer poll ∧ (s.dwUartIrqHandler poll).2.Filling s₀ data size := by
  by_cases hr : poll.Receives
  · by_cases hbuf : s.uart.rxData = 0 ∨ s.uart.rxSize = 0
    · exact h.unbuffered hf hr hbuf
    · exact h.fill hr hbuf ((hf hr).resolve_right fun hc => hbuf hc.2)
  · exact h.other hr

/-- With an empty FIFO the loops run for the whole range of the counter. -/
theorem dwUartIrqHandler_level_zero (hf : ¬ s.FifoHas poll) :
    (s.dwUartIrqHandler poll).2.rbr.length = s.rbr.length + 0x100000000 ∧ poll.rfl = 0 := by
  rw [FifoHas, Classical.not_imp, not_or, not_not] at hf
  obtain ⟨hr, h0, hcb⟩ := hf
  refine ⟨?_, h0⟩
  by_cases hbuf : s.uart.rxData = 0 ∨ s.uart.rxSize = 0
  · rw [s.dwUartIrqHandler_drops hr hbuf, if_neg fun hne => hcb ⟨hne, hbuf⟩, h0,
      List.length_append, NorArray.slice_length]
    rfl
  · have hreads : s.bufferReads poll = 0x100000000 := by
      rw [bufferReads, if_pos ⟨hr, hbuf⟩, h0, if_neg UInt32.not_lt_zero]
      rfl
    rw [(s.dwUartIrqHandler_fills hr hbuf).2.1, hreads, List.length_append, NorArray.slice_length]

theorem ServesBuffer.fifoHas (h : s.ServesBuffer poll) : s.FifoHas poll := by
  by_contra hf
  obtain ⟨hlen, h0⟩ := dwUartIrqHandler_level_zero hf
  have htakes := h.takes
  rw [hlen, h0] at htakes
  exact absurd (Nat.le_of_add_le_add_left htakes) (by decide)

theorem start_filling (s : UartSys) (data : Nat) (size : UInt32) :
    (dwUartReceiveIntr data size s).2.Filling s data size := by
  have hstored : (dwUartReceiveIntr data size s).2.stored data = 0 := Nat.sub_self data
  have hall : s.rbr ++ slice s.mem data 0 = s.rbr := by
    rw [NorArray.slice_zero, List.append_nil]
  refine ⟨⟨?_, ?_, fun _ _ => rfl⟩, ?_, ?_⟩
  · rw [hstored, Nat.zero_add]
    rfl
  · rw [hstored]
    exact ⟨[], (List.append_nil _).trans hall⟩
  · rw [hstored]
    rfl
  · intro _ _
    rw [hstored]
    exact hall

end UartSys

/-- A receive keeps to its buffer exactly in the runs where no interrupt reads an empty FIFO. -/
theorem dwUartReceiveIntr_inBuffer_iff (s : UartSys) (data : Nat) (size : UInt32)
    (polls : List UartPoll) :
    let start := (dwUartReceiveIntr data size s).2
    Along (fun s poll => UartSys.dwUartIrqHandler poll s)
        (fun t poll => t.ServesBuffer poll ∧ (t.dwUartIrqHandler poll).2.InBuffer s data size)
        start polls ↔
      Along (fun s poll => UartSys.dwUartIrqHandler poll s) UartSys.FifoHas start polls := by
  intro start
  have hiff : ∀ (t : UartSys) (poll : UartPoll), t.Filling s data size →
      (t.ServesBuffer poll ∧ (t.dwUartIrqHandler poll).2.InBuffer s data size ↔
        t.FifoHas poll) := by
    intro t poll h
    exact ⟨fun hc => hc.1.fifoHas, fun hf => ⟨(h.step hf).1, (h.step hf).2.toInBuffer⟩⟩
  exact along_iff hiff (fun t poll h hc => (h.step ((hiff t poll h).1 hc)).2)
    (UartSys.start_filling s data size)

theorem dwUartReceiveIntr_level_zero :
    let poll : UartPoll := ⟨dwUartIirCharacterTimeout, 0, 0, fun _ => 0⟩
    let s : UartSys := ⟨⟨1, 0, 0, 0, 0, 1, 1⟩, 0, fun _ => 0, [], []⟩
    ¬ Along (fun s poll => UartSys.dwUartIrqHandler poll s)
      (fun t poll => t.ServesBuffer poll ∧ (t.dwUartIrqHandler poll).2.InBuffer s 0x40 4)
      (dwUartReceiveIntr 0x40 4 s).2 [poll] := by
  intro poll s h
  have hf := h.1.1.fifoHas
  revert hf
  decide

end D1Flash
