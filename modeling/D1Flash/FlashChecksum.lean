import D1Flash.FlashRoundTrip
import D1Flash.Lib.Loops
import Mathlib.Algebra.GroupWithZero.Nat
import Mathlib.Logic.Function.Iterate

namespace D1Flash
open Loops (whileLoop Halts)
open NorArray (put slice)
set_option autoImplicit true

abbrev errorChecksum : Int := -207
abbrev checksumBufLen : Nat := 1024

/-- The locals of `flashChecksum`, with `g_checksumBuffer` and the driver. -/
structure Checksum (δ : Type) where
  len : Int
  flashAddr : Nat
  sum : Nat
  buffer : Nat → Byte
  st : Spinor δ

variable (cfg : Config) (p : SpiPort δ)

/-- `__flash_read` into the checksum buffer; what a read that fails has not filled stays. -/
def flashReadInto (addr len : Nat) (buffer : Nat → Byte) (st : Spinor δ) :
    Int × (Nat → Byte) × Spinor δ :=
  match csiSpiflashRead cfg p addr len st with
  | ((ret, data), st) => (if ret < 0 then -1 else 0, put buffer 0 data, st)

/-- `sum += g_checksumBuffer[i]` over bytes of the buffer, in 32 bits. -/
def addBytes (sum : Nat) (bytes : List Byte) : Nat :=
  bytes.foldl (fun sum b => u32 (sum + b.toNat)) sum

/-- A read of `n` bytes, added to the sum. -/
def Checksum.chunk (c : Checksum δ) (n : Nat) : Checksum δ :=
  match flashReadInto cfg p c.flashAddr n c.buffer c.st with
  | (_, buffer, st) => { c with sum := addBytes c.sum (slice buffer 0 n), buffer, st }

/-- The body of the `while (len)` loop. -/
def checksumTurn (c : Checksum δ) : Checksum δ :=
  if c.len ≥ checksumBufLen then
    { c.chunk cfg p checksumBufLen with
      len := c.len - checksumBufLen
      flashAddr := u32 (c.flashAddr + checksumBufLen) }
  else if c.len > 0 ∧ c.len < checksumBufLen then { c.chunk cfg p c.len.toNat with len := 0 }
  else c

def Checksum.more (c : Checksum δ) : Bool := c.len ≠ 0

def Checksum.start (dst : Nat) (length : Int) (buffer : Nat → Byte) (st : Spinor δ) : Checksum δ :=
  ⟨length, dst, 0, buffer, st⟩

/-- `flashChecksum` in at most `fuel` rounds, with what it leaves in the buffer and the driver. -/
def flashChecksum (fuel dst : Nat) (length checksum : Int) (buffer : Nat → Byte)
    (st : Spinor δ) : Option (Int × (Nat → Byte) × Spinor δ) :=
  (whileLoop Checksum.more (checksumTurn cfg p) fuel (.start dst length buffer st)).map fun c =>
    (if c.sum = toU32 checksum then 0 else errorChecksum, c.buffer, c.st)

theorem checksumBufLen_cast : ((checksumBufLen : Nat) : Int) = 1024 := rfl

theorem Checksum.more_iff (c : Checksum δ) : c.more = true ↔ c.len ≠ 0 := decide_eq_true_iff

theorem Checksum.more_eq_false (c : Checksum δ) : c.more = false ↔ c.len = 0 := by
  rw [← Bool.not_eq_true, c.more_iff, not_not]

@[simp] theorem Checksum.chunk_flashAddr (c : Checksum δ) (n : Nat) :
    (c.chunk cfg p n).flashAddr = c.flashAddr := rfl

theorem checksumTurn_pos (c : Checksum δ) (h : 0 < c.len) :
    checksumTurn cfg p c = { c.chunk cfg p (min checksumBufLen c.len.toNat) with
      len := c.len - (min checksumBufLen c.len.toNat : Nat)
      flashAddr := if c.len ≥ checksumBufLen then u32 (c.flashAddr + checksumBufLen)
        else c.flashAddr } := by
  rw [checksumTurn]
  split
  · next hge =>
    have hmin : min checksumBufLen c.len.toNat = checksumBufLen := by omega
    rw [hmin]
  · next hlt =>
    have hmin : min checksumBufLen c.len.toNat = c.len.toNat := by omega
    have hzero : c.len - (c.len.toNat : Nat) = 0 := by omega
    rw [if_pos ⟨h, Int.not_le.1 hlt⟩, hmin, hzero]
    rfl

theorem checksumTurn_len (c : Checksum δ) :
    (checksumTurn cfg p c).len =
      if c.len ≥ checksumBufLen then c.len - checksumBufLen else min c.len 0 := by
  rw [checksumTurn]
  split
  · rfl
  · split
    · show (0 : Int) = _
      omega
    · omega

/-- The loop ends for a length that is not negative, whatever the reads come to. -/
theorem checksum_halts (c : Checksum δ) (h : 0 ≤ c.len) :
    Halts Checksum.more (checksumTurn cfg p) c := by
  apply Loops.halts_of_measure (fun c => c.len.toNat) (I := fun c => 0 ≤ c.len) ?_ h
  intro c (hc : 0 ≤ c.len) hm
  rw [c.more_iff] at hm
  show 0 ≤ (checksumTurn cfg p c).len ∧ (checksumTurn cfg p c).len.toNat < c.len.toNat
  rw [checksumTurn_len]
  split
  · next hge =>
    rw [checksumBufLen_cast] at hge ⊢
    omega
  · rw [Int.min_eq_right hc]
    omega

/-- A negative length matches neither branch, and the loop makes no progress. -/
theorem checksum_stuck (c : Checksum δ) (h : c.len < 0) :
    ¬ Halts Checksum.more (checksumTurn cfg p) c := by
  apply Loops.not_halts_of_invariant (I := fun c => c.len < 0) ?_ h
  intro c (hc : c.len < 0)
  rw [c.more_iff, checksumTurn_len, if_neg (by omega)]
  omega

/-- The checksum of a host's request ends exactly when its length is an `int`. -/
theorem flashChecksum_terminates (gLength : UInt32) (gDstAddress : Nat) (buffer : Nat → Byte)
    (st : Spinor δ) :
    Halts Checksum.more (checksumTurn cfg p)
        (.start gDstAddress (toI32 gLength.toNat) buffer st) ↔ gLength.toNat < 0x80000000 := by
  constructor
  · intro h
    by_contra hlen
    apply checksum_stuck cfg p _ _ h
    have hlt := gLength.toNat_lt
    show toI32 gLength.toNat < 0
    rw [toI32, if_neg hlen]
    omega
  · intro hlen
    exact checksum_halts cfg p _ (Int.not_lt.1 (toI32_nonneg hlen))

/-- A request of 2^31 bytes is never answered. -/
theorem flashChecksum_hangs :
    ¬ ∀ gLength : UInt32, Halts Checksum.more (checksumTurn ⟨false, false, true⟩ busPort)
      (.start 0 (toI32 gLength.toNat) (fun _ => 0) directW25q64jv) := by
  intro h
  exact checksum_stuck _ busPort _ (by decide) (h 0x80000000)

def Checksum.Reads (c : Checksum δ) : Prop :=
  (flashReadInto cfg p c.flashAddr (min checksumBufLen c.len.toNat) c.buffer c.st).1 = 0

def Checksum.ChunksRead (c : Checksum δ) : Prop :=
  ∀ k, (Nat.iterate (checksumTurn cfg p) k c).more = true →
    (Nat.iterate (checksumTurn cfg p) k c).Reads cfg p

/-- The results that a call of `flashChecksum` ends with. -/
def ChecksumReturns (dst : Nat) (length checksum : Int) (buffer : Nat → Byte) (st : Spinor δ)
    (ret : Int) : Prop :=
  ∃ fuel r, flashChecksum cfg p fuel dst length checksum buffer st = some (ret, r)

theorem addBytes_eq (h : sum < 0x100000000) (bytes : List Byte) :
    addBytes sum bytes = u32 (sum + (bytes.map UInt8.toNat).sum) := by
  unfold addBytes
  induction bytes generalizing sum with
  | nil => exact (u32_of_lt h).symm
  | cons b bytes ih =>
    rw [List.foldl_cons, ih (u32_lt _), List.map_cons, List.sum_cons]
    unfold u32
    omega

theorem addBytes_append (sum : Nat) (xs ys : List Byte) :
    addBytes sum (xs ++ ys) = addBytes (addBytes sum xs) ys :=
  List.foldl_append

theorem slice_put (buffer : Nat → Byte) (d : List Byte) :
    slice (put buffer 0 d) 0 d.length = d := by
  apply List.ext_getElem (NorArray.slice_length _)
  intro j hj hj'
  rw [NorArray.slice_getElem, Nat.zero_add, NorArray.put_inside _ (Nat.zero_le _) hj']
  rfl

/-- A read into the buffer on a chip in use: the chip keeps its contents, and a read that succeeds
fills the buffer with them. -/
theorem flashReadInto_direct (cfg : Config) {st : Spinor SpiBus} (hs : st.Direct)
    (hn : n < 0x80000000) (hle : addr + n ≤ st.dev.chip.size) :
    ∃ ret buffer' b, flashReadInto cfg busPort addr n buffer st = (ret, buffer', st.onDev b) ∧
      st.dev.Kept b ∧ b.chip.mem = st.dev.chip.mem ∧
      (ret = 0 → slice buffer' 0 n = slice st.dev.chip.mem addr n) := by
  have haddr : addr < 0x100000000 :=
    Nat.lt_of_le_of_lt (Nat.le_trans (Nat.le_add_right _ _) hle) hs.drives.size_lt
  rcases h₁ : norRead busPort st.nor addr n st.dev with ⟨⟨ret, d⟩, b⟩
  obtain ⟨hp, hd, -, -⟩ := norRead_bus hs.drives haddr h₁
  by_cases h0 : ret = 0
  · refine ⟨0, put buffer 0 d, b, ?_, hp.toKept, hp.mem, fun _ => ?_⟩
    · simp only [flashReadInto, csiSpiflashRead, halSpinorReadData, hs.noCache, h₁, h0, ne_eq,
        not_true_eq_false, if_false, if_neg (toI32_nonneg hn)]
    · have hlen : d.length = n := by rw [hd h0 hle, NorArray.slice_length]
      rw [← hd h0 hle, ← hlen, slice_put]
  · refine ⟨-1, put buffer 0 d, b, ?_, hp.toKept, hp.mem, fun h => absurd h (by decide)⟩
    simp only [flashReadInto, csiSpiflashRead, halSpinorReadData, hs.noCache, h₁, h0, ne_eq,
      not_false_eq_true, if_true]
    rfl

/-- Where the loop stands `n` bytes into its range. -/
structure Checksum.At (st : Spinor SpiBus) (dst length n : Nat) (c : Checksum SpiBus) : Prop where
  le : n ≤ length
  len : c.len = (length - n : Nat)
  flashAddr : n < length → c.flashAddr = dst + n
  st : ∃ b, c.st = st.onDev b ∧ st.dev.Kept b ∧ b.chip.mem = st.dev.chip.mem

theorem checksumTurn_at (cfg : Config) {st : Spinor SpiBus} (hs : st.Direct)
    (hlen : length < 0x80000000) (hle : dst + length ≤ st.dev.chip.size) {c : Checksum SpiBus}
    (h : c.At st dst length n) (hn : n < length) :
    (checksumTurn cfg busPort c).At st dst length (n + min checksumBufLen (length - n)) ∧
      (c.Reads cfg busPort → (checksumTurn cfg busPort c).sum =
        addBytes c.sum (slice st.dev.chip.mem (dst + n) (min checksumBufLen (length - n)))) := by
  obtain ⟨b, hst, hk, hm⟩ := h.st
  have haddr := h.flashAddr hn
  have hclen := h.len
  have hsize := hs.drives.size_lt
  have hsz : b.chip.size = st.dev.chip.size := hk.size
  obtain ⟨ret, buffer', b', hread, hk', hm', hd⟩ :
      ∃ ret buffer' b', flashReadInto cfg busPort (dst + n) (min checksumBufLen (length - n))
          c.buffer (st.onDev b) = (ret, buffer', (st.onDev b).onDev b') ∧ b.Kept b' ∧
        b'.chip.mem = b.chip.mem ∧ (ret = 0 → slice buffer' 0 (min checksumBufLen (length - n)) =
          slice b.chip.mem (dst + n) (min checksumBufLen (length - n))) := by
    apply flashReadInto_direct cfg (hs.on hk)
    · omega
    · rw [Spinor.onDev_dev, hsz]
      omega
  have hlast : ∃ b, (st.onDev b').onDev b' = st.onDev b ∧ st.dev.Kept b ∧
      b.chip.mem = st.dev.chip.mem := ⟨b', rfl, hk.trans hk', hm'.trans hm⟩
  have htake : min checksumBufLen c.len.toNat = min checksumBufLen (length - n) := by
    rw [hclen, Int.toNat_natCast]
  have hpos : 0 < c.len := by
    rw [hclen]
    omega
  rw [Checksum.Reads, htake, haddr, hst, hread, checksumTurn_pos cfg busPort c hpos, htake,
    Checksum.chunk, haddr, hst, hread]
  refine ⟨⟨by omega, ?_, ?_, hlast⟩, ?_⟩
  · show c.len - (min checksumBufLen (length - n) : Nat) = _
    omega
  · intro hmore
    have hbig : c.len ≥ (checksumBufLen : Nat) := by omega
    show (if c.len ≥ (checksumBufLen : Nat) then u32 (dst + n + checksumBufLen) else dst + n) = _
    rw [if_pos hbig, u32_of_lt (by omega)]
    omega
  · intro h0
    show addBytes c.sum (slice buffer' 0 (min checksumBufLen (length - n))) = _
    rw [hd h0, hm]

theorem Checksum.ChunksRead.tail {c : Checksum δ} (h : c.ChunksRead cfg p) :
    (checksumTurn cfg p c).ChunksRead cfg p :=
  fun k => h (k + 1)

theorem checksum_sum (cfg : Config) {st : Spinor SpiBus} (hs : st.Direct)
    (hlen : length < 0x80000000) (hle : dst + length ≤ st.dev.chip.size)
    (hread : (Checksum.start dst (length : Nat) buffer st).ChunksRead cfg busPort)
    (hrun : whileLoop Checksum.more (checksumTurn cfg busPort) fuel
      (.start dst (length : Nat) buffer st) = some t) :
    t.sum = addBytes 0 (slice st.dev.chip.mem dst length) := by
  have hstart : (Checksum.start dst (length : Nat) buffer st).At st dst length 0 :=
    ⟨Nat.zero_le _, rfl, fun _ => rfl, st.dev, rfl, .refl _, rfl⟩
  have hbody : ∀ c : Checksum SpiBus,
      (∃ n, c.At st dst length n ∧ c.ChunksRead cfg busPort ∧
        c.sum = addBytes 0 (slice st.dev.chip.mem dst n)) → c.more = true →
      ∃ n, (checksumTurn cfg busPort c).At st dst length n ∧
        (checksumTurn cfg busPort c).ChunksRead cfg busPort ∧
        (checksumTurn cfg busPort c).sum = addBytes 0 (slice st.dev.chip.mem dst n) := by
    rintro c ⟨n, hat, hchunks, hsum⟩ hm
    have hn : n < length := by
      have hclen := hat.len
      rw [c.more_iff] at hm
      omega
    obtain ⟨hat', hsum'⟩ := checksumTurn_at cfg hs hlen hle hat hn
    refine ⟨_, hat', hchunks.tail, ?_⟩
    rw [hsum' (hchunks 0 hm), hsum, ← addBytes_append, NorArray.slice_append]
  obtain ⟨⟨n, hat, -, hsum⟩, hmore⟩ :=
    Loops.whileLoop_invariant hbody ⟨0, hstart, hread, rfl⟩ hrun
  have hn : n = length := by
    have htlen := hat.len
    have hle := hat.le
    rw [t.more_eq_false] at hmore
    omega
  rw [hsum, hn]

theorem checksum_sum_lt (hrun : whileLoop Checksum.more (checksumTurn cfg p) fuel c = some t)
    (h : c.sum < 0x100000000) : t.sum < 0x100000000 := by
  have hbody : ∀ c : Checksum δ, c.sum < 0x100000000 → c.more = true →
      (checksumTurn cfg p c).sum < 0x100000000 := by
    intro c hc _
    have hchunk : ∀ n, (c.chunk cfg p n).sum < 0x100000000 := by
      intro n
      rw [Checksum.chunk]
      rcases flashReadInto cfg p c.flashAddr n c.buffer c.st with ⟨ret, buffer, st⟩
      dsimp only
      rw [addBytes_eq hc]
      exact u32_lt _
    rw [checksumTurn]
    split
    · dsimp only
      exact hchunk checksumBufLen
    · split
      · dsimp only
        exact hchunk c.len.toNat
      · exact hc
  exact (Loops.whileLoop_invariant hbody h hrun).1

/-- The checksum of a range is sound and complete for every expected value exactly when every
chunk of it is read: a read that fails is not noticed. -/
theorem flashChecksum_exact (cfg : Config) {st : Spinor SpiBus} (hs : st.Direct)
    (hlen : length < 0x80000000) (hle : dst + length ≤ st.dev.chip.size)
    (buffer : Nat → Byte) :
    (∀ checksum : Int, ChecksumReturns cfg busPort dst (length : Nat) checksum buffer st 0 ↔
        (Checksum.start dst (length : Nat) buffer st).ChunksRead cfg busPort ∧
          u32 ((slice st.dev.chip.mem dst length).map UInt8.toNat).sum = toU32 checksum) ↔
      (Checksum.start dst (length : Nat) buffer st).ChunksRead cfg busPort := by
  obtain ⟨fuel, t, hrun⟩ := checksum_halts cfg busPort
    (.start dst (length : Nat) buffer st) (Int.natCast_nonneg length)
  have hreturns : ∀ checksum : Int,
      ChecksumReturns cfg busPort dst (length : Nat) checksum buffer st 0 ↔
        t.sum = toU32 checksum := by
    intro checksum
    constructor
    · rintro ⟨fuel', r, h⟩
      obtain ⟨t', hrun', he⟩ := Option.map_eq_some_iff.1 h
      rw [← Loops.whileLoop_unique hrun hrun'] at he
      by_contra hne
      rw [if_neg hne] at he
      exact absurd (Prod.mk.inj he).1 (by decide)
    · intro he
      refine ⟨fuel, (t.buffer, t.st), ?_⟩
      rw [flashChecksum, hrun, Option.map_some, if_pos he]
  simp only [hreturns]
  constructor
  · intro h
    -- an expected value that the code accepts
    have hlt := checksum_sum_lt cfg busPort hrun (show 0 < 0x100000000 by decide)
    have hsum : t.sum = toU32 (t.sum : Nat) := by
      unfold toU32
      omega
    exact ((h (t.sum : Nat)).1 hsum).1
  · intro hread checksum
    rw [checksum_sum cfg hs hlen hle hread hrun, addBytes_eq (by decide), Nat.zero_add]
    exact ⟨fun h => ⟨hread, h⟩, fun h => h.2⟩

/-- A driver without a cache on a bus whose second transfer fails. -/
def unreadW25q64jv : Spinor SpiBus :=
  directW25q64jv.onDev {
    chip := {
      id := w25q64jv.id, size := w25q64jv.totalSize, mem := fun _ => 1, wel := false, busy := 0
      delays := fun _ => 0 }
    faults := fun i => if i = 1 then some (.after 0) else none }

/-- A checksum of bytes that could not be read passes. -/
theorem flashChecksum_unread :
    ¬ ∀ checksum : Int,
      ChecksumReturns ⟨false, false, true⟩ busPort 0 4 checksum (fun _ => 0) unreadW25q64jv 0 ↔
        (Checksum.start 0 4 (fun _ => 0) unreadW25q64jv).ChunksRead ⟨false, false, true⟩ busPort ∧
          u32 ((slice unreadW25q64jv.dev.chip.mem 0 4).map UInt8.toNat).sum = toU32 checksum := by
  intro h
  have hret : ChecksumReturns ⟨false, false, true⟩ busPort 0 4 0 (fun _ => 0) unreadW25q64jv 0 := by
    have hzero : (flashChecksum ⟨false, false, true⟩ busPort 1 0 4 0 (fun _ => 0)
        unreadW25q64jv).map Prod.fst = some 0 := by decide +kernel
    obtain ⟨⟨ret, r⟩, hr, rfl⟩ := Option.map_eq_some_iff.1 hzero
    exact ⟨1, r, hr⟩
  have hsum := ((h 0).1 hret).2
  revert hsum
  decide +kernel

theorem flashChecksum_exact_w25q64jv :
    (∀ checksum : Int,
      ChecksumReturns ⟨false, false, true⟩ busPort 0x100 3 checksum (fun _ => 0xA5)
          directW25q64jv 0 ↔
        (Checksum.start 0x100 3 (fun _ => 0xA5) directW25q64jv).ChunksRead
            ⟨false, false, true⟩ busPort ∧
          u32 ((slice directW25q64jv.dev.chip.mem 0x100 3).map UInt8.toNat).sum =
            toU32 checksum) ↔
      (Checksum.start 0x100 3 (fun _ => 0xA5) directW25q64jv).ChunksRead
        ⟨false, false, true⟩ busPort :=
  flashChecksum_exact ⟨false, false, true⟩ directW25q64jv_direct (by decide) (by decide) _

end D1Flash
