import D1Flash.Uart.AsyncFlags

namespace D1Flash
open NorArray (slice slice_append slice_length)
open Runs
set_option autoImplicit true

/-- The transmit interrupts that a transfer takes. -/
def txRounds (size : Nat) : Nat := max 1 ((size + 15) / 16)

/-- What `k` transmit interrupts have sent of a transfer. -/
def txSent (size k : Nat) : Nat := min (16 * k) size

theorem txSent_zero : txSent size 0 = 0 := Nat.zero_min size

theorem txSent_le : txSent size k ≤ size := Nat.min_le_right _ _

theorem txSent_rounds : txSent size (txRounds size) = size := by
  simp only [txSent, txRounds]
  omega

theorem txSent_succ : txSent size (k + 1) = txSent size k + min 16 (size - txSent size k) := by
  simp only [txSent]
  omega

/-- An interrupt that a transfer still needs is the last one when it leaves nothing. -/
theorem txSent_succ_eq (h : k < txRounds size) :
    txSent size (k + 1) = size ↔ k + 1 = txRounds size := by
  simp only [txSent, txRounds] at *
  omega

namespace UartSys

/-- A transfer of `size` bytes from `data`, started on `s₀`, after `k` of its interrupts. -/
structure Sent (s₀ : UartSys) (data : Nat) (size : UInt32) (k : Nat) (s : UartSys) : Prop where
  thr : s.thr = s₀.thr ++ slice s₀.mem data (txSent size.toNat k)
  left : s.uart.txSize.toNat = size.toNat - txSent size.toNat k
  next : s.uart.txData = data + txSent size.toNat k
  mem : s.mem = s₀.mem
  callback : s.uart.callback = s₀.uart.callback
  enabled : s.ier.getLsbD 1 = decide (k < txRounds size.toNat)

theorem dwUartSendIntr_sent (s₀ : UartSys) (data : Nat) (size : UInt32) :
    Sent s₀ data size 0 (dwUartSendIntr data size s₀).2 where
  thr := by
    rw [txSent_zero]
    exact (List.append_nil _).symm
  left := by
    rw [txSent_zero]
    rfl
  next := by
    rw [txSent_zero]
    rfl
  mem := rfl
  callback := rfl
  enabled := by
    have hpos : 0 < txRounds size.toNat := Nat.lt_of_lt_of_le Nat.one_pos (Nat.le_max_left _ _)
    rw [decide_eq_true hpos]
    show (s₀.ier ||| dwUartIerEtbei).getLsbD 1 = true
    rw [BitVec.getLsbD_or]
    exact Bool.or_true _

theorem transNum_toNat (s : UartSys) :
    (if s.uart.txSize > uartMaxFifo then uartMaxFifo else s.uart.txSize).toNat =
      min 16 s.uart.txSize.toNat := by
  split
  case isTrue h =>
    have h' : 16 < s.uart.txSize.toNat := h
    show 16 = _
    omega
  case isFalse h =>
    have h' : s.uart.txSize.toNat ≤ 16 := Nat.le_of_not_lt h
    omega

theorem Sent.step (h : Sent s₀ data size k s) (hk : k < txRounds size.toNat) :
    Sent s₀ data size (k + 1) s.uartIntrSendData.2 ∧
      s.uartIntrSendData.1 =
        if k + 1 = txRounds size.toNat then s₀.notify .sendComplete else [] := by
  have hn := s.transNum_toNat
  rw [h.left] at hn
  have hsucc := @txSent_succ size.toNat k
  rw [← hn] at hsucc
  have hle : txSent size.toNat (k + 1) ≤ size.toNat := txSent_le
  rw [uartIntrSendData]
  dsimp only
  rw [sendLoop_eq]
  generalize (if s.uart.txSize > uartMaxFifo then uartMaxFifo else s.uart.txSize).toNat = n at *
  have hleft : (s.uart.txSize - UInt32.ofNat n).toNat = size.toNat - txSent size.toNat (k + 1) := by
    have hlt := size.toNat_lt
    have hof : (UInt32.ofNat n).toNat = n :=
      UInt32.toNat_ofNat_of_lt (show n < 4294967296 by omega)
    rw [UInt32.toNat_sub_of_le _ _ (UInt32.le_iff_toNat_le.2 (by rw [hof, h.left]; omega)), hof,
      h.left]
    omega
  have hthr : s.thr ++ slice s.mem s.uart.txData n =
      s₀.thr ++ slice s₀.mem data (txSent size.toNat (k + 1)) := by
    rw [h.thr, h.mem, h.next, List.append_assoc, slice_append, hsucc]
  have hnext : s.uart.txData + n = data + txSent size.toNat (k + 1) := by
    rw [h.next, hsucc, Nat.add_assoc]
  have hdone : s.uart.txSize - UInt32.ofNat n = 0 ↔ k + 1 = txRounds size.toNat := by
    rw [← txSent_succ_eq hk, ← UInt32.toNat_inj, hleft, UInt32.toNat_zero]
    omega
  dsimp only
  by_cases hlast : k + 1 = txRounds size.toNat
  · rw [if_pos (hdone.2 hlast), if_pos hlast]
    refine ⟨⟨hthr, hleft, hnext, h.mem, h.callback, ?_⟩, ?_⟩
    · rw [hlast, decide_eq_false (Nat.lt_irrefl _)]
      show (s.ier &&& ~~~dwUartIerEtbei).getLsbD 1 = false
      rw [BitVec.getLsbD_and]
      exact Bool.and_false _
    · simp only [notify, h.callback]
  · rw [if_neg fun h0 => hlast (hdone.1 h0), if_neg hlast]
    refine ⟨⟨hthr, hleft, hnext, h.mem, h.callback, ?_⟩, rfl⟩
    have hk' : k + 1 < txRounds size.toNat := by omega
    rw [decide_eq_true hk']
    exact h.enabled.trans (decide_eq_true hk)

/-- Within an interrupt, too, only the bytes of the buffer go out, and in order. -/
theorem Sent.within (h : Sent s₀ data size k s)
    (hn : n ≤ (if s.uart.txSize > uartMaxFifo then uartMaxFifo else s.uart.txSize).toNat) :
    n ≤ 16 ∧ n ≤ s.uart.txSize.toNat ∧
      (sendLoop n s).thr <+: s₀.thr ++ slice s₀.mem data size.toNat := by
  rw [transNum_toNat] at hn
  have hleft := h.left
  have hle : txSent size.toNat k ≤ size.toNat := txSent_le
  have hsum : size.toNat = txSent size.toNat k + n + (size.toNat - (txSent size.toNat k + n)) := by
    omega
  refine ⟨by omega, by omega, slice s₀.mem (data + (txSent size.toNat k + n))
    (size.toNat - (txSent size.toNat k + n)), ?_⟩
  rw [sendLoop_eq, h.thr, h.mem, h.next]
  dsimp only
  rw [List.append_assoc s₀.thr, slice_append, List.append_assoc, slice_append, ← hsum]

theorem dwUartIrqHandler_thrEmpty (s : UartSys) (h : poll.iir % 16 = dwUartIirThrEmpty) :
    s.dwUartIrqHandler poll = s.uartIntrSendData := by
  rw [dwUartIrqHandler, h]
  rfl

/-- What the handler may write in one interrupt. -/
def SendsInOrder (s₀ : UartSys) (data : Nat) (size : UInt32) (s : UartSys) (_ : UartPoll) :
    Prop :=
  ∀ n ≤ (if s.uart.txSize > uartMaxFifo then uartMaxFifo else s.uart.txSize).toNat,
    n ≤ 16 ∧ n ≤ s.uart.txSize.toNat ∧
      (sendLoop n s).thr <+: s₀.thr ++ slice s₀.mem data size.toNat

theorem Sent.run (h : Sent s₀ data size k s) (hk : k ≤ txRounds size.toNat)
    (hp : ∀ poll ∈ polls, poll.iir % 16 = dwUartIirThrEmpty)
    (hr : Along (fun s poll => dwUartIrqHandler poll s) raises s polls) :
    let r := Runs.run (fun s poll => dwUartIrqHandler poll s) s polls
    k + polls.length ≤ txRounds size.toNat ∧ Sent s₀ data size (k + polls.length) r.2 ∧
      Along (fun s poll => dwUartIrqHandler poll s) (SendsInOrder s₀ data size) s polls ∧
      r.1.flatten =
        if k < txRounds size.toNat ∧ k + polls.length = txRounds size.toNat then
          s₀.notify .sendComplete
        else [] := by
  induction polls generalizing k s with
  | nil =>
    have hno : ¬ (k < txRounds size.toNat ∧ k + 0 = txRounds size.toNat) := by omega
    exact ⟨hk, h, trivial, (if_neg hno).symm⟩
  | cons poll polls ih =>
    obtain ⟨hraises, hr'⟩ := hr
    have hthr := hp poll List.mem_cons_self
    have hlt : k < txRounds size.toNat :=
      of_decide_eq_true (h.enabled.symm.trans (hraises.1 hthr))
    obtain ⟨hstep, hev⟩ := h.step hlt
    rw [← s.dwUartIrqHandler_thrEmpty hthr] at hstep hev
    obtain ⟨hlen, hsent, hord, hevs⟩ :=
      ih hstep hlt (fun p hp' => hp p (List.mem_cons_of_mem poll hp')) hr'
    have hcnt : k + (polls.length + 1) = k + 1 + polls.length := by omega
    rw [List.length_cons, hcnt]
    refine ⟨hlen, hsent, ⟨fun n hn => h.within hn, hord⟩, ?_⟩
    simp only [Runs.run, List.flatten_cons, hev, hevs]
    by_cases hlast : k + 1 = txRounds size.toNat
    · rw [if_pos hlast, if_neg (by omega), if_pos (by omega), List.append_nil]
    · rw [if_neg hlast, List.nil_append]
      by_cases hend : k + 1 + polls.length = txRounds size.toNat
      · rw [if_pos ⟨by omega, hend⟩, if_pos ⟨hlt, hend⟩]
      · rw [if_neg fun hc => hend hc.2, if_neg fun hc => hend hc.2]

/-- A transfer sends its buffer once, sixteen bytes an interrupt and in order, and then stops the
interrupt and calls back. -/
theorem dwUartSendIntr_sends (s : UartSys) (data : Nat) (size : UInt32) (polls : List UartPoll)
    (hp : ∀ poll ∈ polls, poll.iir % 16 = dwUartIirThrEmpty)
    (hr : Along (fun s poll => dwUartIrqHandler poll s) raises (dwUartSendIntr data size s).2
      polls) :
    let start := (dwUartSendIntr data size s).2
    let r := Runs.run (fun s poll => dwUartIrqHandler poll s) start polls
    let sent := min (16 * polls.length) size.toNat
    let rounds := max 1 ((size.toNat + 15) / 16)
    r.2.thr = s.thr ++ slice s.mem data sent ∧ r.2.uart.txSize.toNat = size.toNat - sent ∧
      Along (fun s poll => dwUartIrqHandler poll s) (SendsInOrder s data size) start polls ∧
      polls.length ≤ rounds ∧ r.2.ier.getLsbD 1 = decide (polls.length < rounds) ∧
      (polls.length < rounds → r.1.flatten = []) ∧
      (polls.length = rounds →
        r.2.thr = s.thr ++ slice s.mem data size.toNat ∧
          r.1.flatten = if s.uart.callback ≠ 0 then [.sendComplete] else []) := by
  intro start r sent rounds
  obtain ⟨hlen, hsent, hord, hevs⟩ :=
    (dwUartSendIntr_sent s data size).run (Nat.zero_le _) hp hr
  rw [Nat.zero_add] at hlen hsent hevs
  refine ⟨hsent.thr, hsent.left, hord, hlen, hsent.enabled, ?_, ?_⟩
  · intro hlt
    rw [if_neg fun hc => Nat.ne_of_lt hlt hc.2] at hevs
    exact hevs
  · intro heq
    have hpos : 0 < txRounds size.toNat := Nat.lt_of_lt_of_le Nat.one_pos (Nat.le_max_left _ _)
    rw [if_pos ⟨hpos, heq⟩] at hevs
    refine ⟨?_, hevs⟩
    have hthr := hsent.thr
    rw [heq] at hthr
    exact hthr.trans (by rw [show rounds = txRounds size.toNat from rfl, txSent_rounds])

def uartIdle : UartSys where
  uart := ⟨1, 0, 0, 0, 0, 1, 1⟩
  ier := 0
  mem := fun a => UInt8.ofNat a
  thr := []
  rbr := []

theorem dwUartSendIntr_sends_twenty :
    let poll : UartPoll := ⟨2, 0, 0, fun _ => 0⟩
    let r := Runs.run (fun s poll => dwUartIrqHandler poll s) (dwUartSendIntr 0x40 20 uartIdle).2
      [poll, poll]
    r.2.thr = slice uartIdle.mem 0x40 20 ∧ r.1.flatten = [.sendComplete] := by
  intro poll r
  have h := dwUartSendIntr_sends uartIdle 0x40 20 [poll, poll] (by decide) (by decide)
  exact h.2.2.2.2.2.2 (by decide)

end UartSys

end D1Flash
