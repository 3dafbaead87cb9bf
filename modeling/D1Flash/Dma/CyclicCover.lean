import D1Flash.Dma.CyclicRing
import D1Flash.Dma.Owners
import Mathlib.Data.List.Rotate

namespace D1Flash
open LinkedHeap Runs
set_option autoImplicit true

variable {s t : DmaSys}

/-- The cells of `len` bytes from an address on, which wraps at 32 bits. -/
def cells (addr : BitVec 32) (len : Nat) : List (BitVec 32) :=
  (List.range len).map fun i => addr + .ofNat 32 i

theorem cells_add (addr : BitVec 32) (m n : Nat) :
    cells addr (m + n) = cells addr m ++ cells (addr + .ofNat 32 m) n := by
  rw [cells, List.range_add, List.map_append, List.map_map]
  congr 1
  apply List.map_congr_left
  intro i _
  rw [Function.comp_apply, BitVec.ofNat_add, BitVec.add_assoc]

theorem cells_inj {addr : BitVec 32} (h : cells addr m = cells addr n) : m = n := by
  have hlen := congrArg List.length h
  simpa [cells] using hlen

theorem cells_nodup (addr : BitVec 32) (hn : n ≤ 2 ^ 32) : (cells addr n).Nodup := by
  apply List.Nodup.map_on _ List.nodup_range
  intro i hi j hj h
  have hi := List.mem_range.1 hi
  have hj := List.mem_range.1 hj
  have hij := congrArg BitVec.toNat ((BitVec.add_right_inj addr).1 h)
  rw [BitVec.toNat_ofNat, BitVec.toNat_ofNat, Nat.mod_eq_of_lt (by omega),
    Nat.mod_eq_of_lt (by omega)] at hij
  exact hij

/-- The side of an item that is in memory. -/
def DmaLli.mem (l : DmaLli) (dir : DmaTransferDirection) : BitVec 32 :=
  if dir = .memToDev then l.src else l.dst

def lliCells (dir : DmaTransferDirection) (x : Addr × DmaLli) : List (BitVec 32) :=
  cells (x.2.mem dir) x.2.len.toNat

/-- A closed list of items that are not empty, whose cells one after the other are those of the
buffer. -/
structure RingCovers (dir : DmaTransferDirection) (bufAddr bufLen : BitVec 32)
    (xs : List (Addr × DmaLli)) : Prop where
  nonempty : xs ≠ []
  closed : xs.map (fun x => x.2.pLln) = (xs.rotate 1).map fun x => vaToPa (some x.1)
  len : ∀ x ∈ xs, x.2.len ≠ 0
  cover : xs.flatMap (lliCells dir) = cells bufAddr bufLen.toNat
  disjoint : (xs.flatMap (lliCells dir)).Nodup

theorem ringDescs_length (item : Nat → DmaLli) (as : List Addr) :
    (ringDescs item as).length = as.length := List.length_mapIdx

theorem ringDescs_getElem? (item : Nat → DmaLli) (as : List Addr) (i : Nat) :
    (ringDescs item as)[i]? = as[i]?.map fun a => (a, ringLli item as i) :=
  List.getElem?_mapIdx

theorem ringDescs_closed (item : Nat → DmaLli) (as : List Addr) :
    (ringDescs item as).map (fun x => x.2.pLln) =
      ((ringDescs item as).rotate 1).map fun x => vaToPa (some x.1) := by
  apply List.ext_getElem?
  intro i
  rw [List.getElem?_map, List.getElem?_map, ringDescs_getElem?]
  by_cases hi : i < as.length
  · have hi' : i < (ringDescs item as).length := by rwa [ringDescs_length]
    rw [List.getElem?_rotate hi', ringDescs_getElem?, ringDescs_length,
      List.getElem?_eq_getElem hi]
    by_cases hlast : i + 1 < as.length
    · rw [Nat.mod_eq_of_lt hlast, List.getElem?_eq_getElem hlast]
      simp only [Option.map_some, ringLli, List.getElem?_eq_getElem hlast, Option.some_or]
    · have hend : i + 1 = as.length := by omega
      have hfirst : 0 < as.length := by omega
      rw [hend, Nat.mod_self, List.getElem?_eq_getElem hfirst]
      simp only [Option.map_some, ringLli, List.getElem?_eq_none (Nat.not_lt.1 hlast),
        List.getElem?_eq_getElem hfirst, Option.none_or]
  · have hrot : ((ringDescs item as).rotate 1).length ≤ i := by
      rw [List.length_rotate, ringDescs_length]
      exact Nat.not_lt.1 hi
    rw [List.getElem?_eq_none (Nat.not_lt.1 hi), List.getElem?_eq_none hrot]
    rfl

theorem mapIdx_flatMap {as : List α} {g : Nat → α → β} {f : β → List γ} {k : Nat → List γ}
    (h : ∀ i a, f (g i a) = k i) : (as.mapIdx g).flatMap f = (List.range as.length).flatMap k := by
  induction as generalizing g k with
  | nil => rfl
  | cons a as ih =>
    rw [List.mapIdx_cons, List.flatMap_cons, List.length_cons, List.range_succ_eq_map,
      List.flatMap_cons, List.flatMap_map, h, ih fun i b => h (i + 1) b]

theorem periods_cells (bufAddr periodLen : BitVec 32) (n : Nat) :
    (List.range n).flatMap (fun i => cells (bufAddr + periodLen * .ofNat 32 i) periodLen.toNat) =
      cells bufAddr (n * periodLen.toNat) := by
  induction n with
  | zero =>
    rw [Nat.zero_mul]
    rfl
  | succ n ih =>
    have hoff : periodLen * .ofNat 32 n = .ofNat 32 (n * periodLen.toNat) := by
      apply BitVec.eq_of_toNat_eq
      rw [BitVec.toNat_mul, BitVec.toNat_ofNat, BitVec.toNat_ofNat, Nat.mul_mod_mod, Nat.mul_comm]
    rw [List.range_succ, List.flatMap_append, ih, List.flatMap_singleton, Nat.succ_mul, cells_add,
      hoff]

theorem cyclicItem_period {dir : DmaTransferDirection} (hdir : dir = .memToDev ∨ dir = .devToMem)
    (config : DmaSlaveConfig) (bufAddr periodLen : BitVec 32) (i : Nat) :
    (cyclicItem config bufAddr periodLen dir i).len = periodLen ∧
      (cyclicItem config bufAddr periodLen dir i).mem dir = bufAddr + periodLen * .ofNat 32 i := by
  rcases hdir with rfl | rfl
  · exact ⟨rfl, rfl⟩
  · exact ⟨rfl, rfl⟩

theorem ringCovers_iff {as : List Addr} (hne : as ≠ []) (hperiod : periodLen ≠ 0)
    (hdir : dir = .memToDev ∨ dir = .devToMem) (config : DmaSlaveConfig)
    (bufAddr bufLen : BitVec 32) :
    RingCovers dir bufAddr bufLen (ringDescs (cyclicItem config bufAddr periodLen dir) as) ↔
      as.length * periodLen.toNat = bufLen.toNat := by
  have hcells : (ringDescs (cyclicItem config bufAddr periodLen dir) as).flatMap (lliCells dir) =
      cells bufAddr (as.length * periodLen.toNat) := by
    rw [← periods_cells]
    apply mapIdx_flatMap
    intro i a
    obtain ⟨hl, hm⟩ := cyclicItem_period hdir config bufAddr periodLen i
    exact congrArg₂ (fun addr (len : BitVec 32) => cells addr len.toNat) hm hl
  constructor
  · intro h
    exact cells_inj (hcells.symm.trans h.cover)
  · intro h
    refine ⟨?_, ringDescs_closed _ as, ?_, hcells.trans (by rw [h]), ?_⟩
    · rw [← List.length_pos_iff, ringDescs_length]
      exact List.length_pos_of_ne_nil hne
    · intro x hx
      obtain ⟨i, hi, rfl⟩ := List.mem_mapIdx.1 hx
      have hl := (cyclicItem_period hdir config bufAddr periodLen i).1
      exact ne_of_eq_of_ne hl hperiod
    · rw [hcells, h]
      exact cells_nodup bufAddr (Nat.le_of_lt bufLen.isLt)

def cyclicPeriods (bufLen periodLen : BitVec 32) : Nat := (bufLen / periodLen).toNat

/-- Every allocation of the call succeeds: there is an address for each period, free once the list
of the channel is given back. -/
def AllocOk (chan : Option ChanId) (periods : Nat) (picks : List Addr) (s : DmaSys) : Prop :=
  ∀ c t, chan = some c → s.freeDescs c = some t →
    periods ≤ picks.length ∧ Fresh t.heap (picks.take periods)

/-- An error with everything as it was, or a ring that covers the buffer. -/
def PrepCovers (dir : DmaTransferDirection) (bufAddr bufLen : BitVec 32) (chan : Option ChanId)
    (s : DmaSys) (r : Option (DmaRet × DmaSys)) : Prop :=
  ∃ ret t, r = some (ret, t) ∧
    (ret.ret ≠ halDmaStatusOk ∧ t = s ∨
      ret.ret = halDmaStatusOk ∧
        ∃ c xs, chan = some c ∧ t.descs c = some xs ∧ RingCovers dir bufAddr bufLen xs)

theorem cyclicPeriods_mul (hperiod : periodLen ≠ 0) :
    cyclicPeriods bufLen periodLen ≠ 0 ∧
        cyclicPeriods bufLen periodLen * periodLen.toNat = bufLen.toNat ↔
      periodLen ≤ bufLen ∧ periodLen.toNat ∣ bufLen.toNat := by
  have hpos : 0 < periodLen.toNat := by
    apply Nat.pos_of_ne_zero
    intro h
    exact hperiod (BitVec.eq_of_toNat_eq h)
  rw [cyclicPeriods, BitVec.toNat_udiv, BitVec.le_def, ne_eq,
    Nat.div_eq_zero_iff_lt hpos, Nat.not_lt, ← Nat.dvd_iff_div_mul_eq]

/-- With no period there is no item to close the ring on. -/
theorem prepCyclic_no_period (ho : s.Owns nodes) (hperiod : periodLen ≠ 0) (hbuf : bufAddr ≠ 0)
    (h0 : cyclicPeriods bufLen periodLen = 0) (c : ChanId) (dir : DmaTransferDirection)
    (picks : List Addr) : halDmaPrepCyclic (some c) bufAddr bufLen periodLen dir picks
    s = none := by
  obtain ⟨t, ht, -⟩ := ho.freeDescs c
  rw [cyclicPeriods] at h0
  rw [halDmaPrepCyclic, if_neg hperiod]
  dsimp only
  rw [if_neg hbuf, ht]
  dsimp only
  rw [h0]
  rfl

/-- The ring that is built covers the buffer when no byte of it is after the last period. -/
theorem prepCyclic_ring_covers_iff (ho : s.Owns nodes) (hperiod : periodLen ≠ 0)
    (hbuf : bufAddr ≠ 0)
    (hdir : dir = .memToDev ∨ dir = .devToMem) (h0 : cyclicPeriods bufLen periodLen ≠ 0)
    (halloc : AllocOk (some c) (cyclicPeriods bufLen periodLen) picks s) :
    PrepCovers dir bufAddr bufLen (some c) s
        (halDmaPrepCyclic (some c) bufAddr bufLen periodLen dir picks s) ↔
      cyclicPeriods bufLen periodLen * periodLen.toNat = bufLen.toNat := by
  obtain ⟨t, ht, -⟩ := ho.freeDescs c
  obtain ⟨hle, hfresh⟩ := halloc c t rfl ht
  have hlen : (picks.take (cyclicPeriods bufLen periodLen)).length =
      cyclicPeriods bufLen periodLen := List.length_take_of_le hle
  have hne : picks.take (cyclicPeriods bufLen periodLen) ≠ [] := by
    intro hnil
    rw [hnil] at hlen
    exact h0 hlen.symm
  have hf : ∀ u, s.freeDescs c = some u →
      Fresh u.heap (picks.take (cyclicPeriods bufLen periodLen)) := by
    intro u hu
    cases ht.symm.trans hu
    exact hfresh
  obtain ⟨v, hv, -, -, hdescs⟩ := prepCyclic_ring ho hperiod hbuf hlen hne hf dir
    (picks.drop (cyclicPeriods bufLen periodLen))
  rw [List.take_append_drop] at hv
  have hcov := ringCovers_iff hne hperiod hdir (s.chans c).cfg bufAddr bufLen
  rw [hlen] at hcov
  rw [hv, ← hcov]
  constructor
  · rintro ⟨ret, u, hret, ⟨hne', -⟩ | ⟨-, d, xs, hd, hxs, hring⟩⟩
    · cases hret
      exact absurd rfl hne'
    · cases hret
      cases hd
      cases hdescs.symm.trans hxs
      exact hring
  · intro hring
    exact ⟨_, v, rfl, .inr ⟨rfl, c, _, rfl, hdescs, hring⟩⟩

/-- In every state that a history of calls and interrupts reaches. -/
theorem prepCyclic_covers_iff (h : exec dmaEvent (.init regs) evs = some (os, s))
    (hdir : dir = .memToDev ∨ dir = .devToMem) (chan : Option ChanId)
    (bufAddr bufLen periodLen : BitVec 32) (picks : List Addr)
    (halloc : AllocOk chan (cyclicPeriods bufLen periodLen) picks s) :
    PrepCovers dir bufAddr bufLen chan s
        (halDmaPrepCyclic chan bufAddr bufLen periodLen dir picks s) ↔
      periodLen ≠ 0 ∧ chan ≠ none ∧
        (bufAddr = 0 ∨ periodLen ≤ bufLen ∧ periodLen.toNat ∣ bufLen.toNat) := by
  obtain ⟨nodes, ho⟩ := (history_inv h).owns
  have hnone : ∀ {r : Option (DmaRet × DmaSys)},
    r = none → ¬ PrepCovers dir bufAddr bufLen chan s r := by
    rintro r rfl ⟨ret, t, hr, -⟩
    cases hr
  by_cases hperiod : periodLen = 0
  · exact iff_of_false (hnone (if_pos hperiod)) fun h => h.1 hperiod
  cases chan with
  | none =>
    apply iff_of_false (hnone _) fun h => h.2.1 rfl
    rw [halDmaPrepCyclic, if_neg hperiod]
  | some c =>
    by_cases hbuf : bufAddr = 0
    · have hret : halDmaPrepCyclic (some c) bufAddr bufLen periodLen dir picks s =
          some (.status halDmaStatusInvalidParameter, s) := by
        rw [halDmaPrepCyclic, if_neg hperiod]
        dsimp only
        rw [if_pos hbuf]
      have hcov : PrepCovers dir bufAddr bufLen (some c) s
          (some (.status halDmaStatusInvalidParameter, s)) :=
        ⟨_, s, rfl, .inl ⟨by decide, rfl⟩⟩
      rw [hret]
      exact iff_of_true hcov ⟨hperiod, Option.some_ne_none c, .inl hbuf⟩
    · rw [← cyclicPeriods_mul hperiod]
      by_cases h0 : cyclicPeriods bufLen periodLen = 0
      · have hub := prepCyclic_no_period ho hperiod hbuf h0 c dir picks
        exact iff_of_false (hnone hub) fun h => (h.2.2.resolve_left hbuf).1 h0
      · rw [prepCyclic_ring_covers_iff ho hperiod hbuf hdir h0 halloc]
        constructor
        · intro hmul
          exact ⟨hperiod, Option.some_ne_none c, .inr ⟨h0, hmul⟩⟩
        · rintro ⟨-, -, hz⟩
          exact (hz.resolve_left hbuf).2

theorem allocOk_init (regs : Nat → BitVec 32) (hnd : picks.Nodup) (hle : periods ≤ picks.length) :
    AllocOk (some 0) periods picks (.init regs) := by
  intro c t hc ht
  cases hc
  cases ht
  exact ⟨hle, hnd.sublist (List.take_sublist periods picks), fun a _ => AList.notMem_empty a⟩

/-- Eight bytes in two periods. -/
theorem prepCyclic_covers_two_periods :
    PrepCovers .memToDev 0x1000 8 (some 0) (.init fun _ => 0)
      (halDmaPrepCyclic (some 0) 0x1000 8 4 .memToDev [64, 128] (.init fun _ => 0)) := by
  have halloc : AllocOk (some 0) (cyclicPeriods 8 4) [64, 128] (.init fun _ => 0) :=
    allocOk_init _ (by decide) (by decide)
  have hinit : exec dmaEvent (.init fun _ => 0) [] = some ([], .init fun _ => 0) := rfl
  exact (prepCyclic_covers_iff hinit (.inl rfl) (some 0) 0x1000 8 4 [64, 128] halloc).2
    ⟨by decide, Option.some_ne_none 0, .inr (by decide)⟩

/-- Ten bytes in periods of four: two are in no period. A period of no bytes divides by zero. -/
theorem prepCyclic_misses_tail :
    ¬ PrepCovers .memToDev 0x1000 10 (some 0) (.init fun _ => 0)
        (halDmaPrepCyclic (some 0) 0x1000 10 4 .memToDev [64, 128] (.init fun _ => 0)) ∧
      halDmaPrepCyclic (some 0) 0x1000 10 0 .memToDev [64, 128] (.init fun _ => 0) = none := by
  refine ⟨?_, rfl⟩
  have hlens : (halDmaPrepCyclic (some 0) 0x1000 10 4 .memToDev [64, 128] (.init fun _ => 0)).map
      (fun r => (r.1.ret, (r.2.descs 0).map fun xs => (xs.flatMap (lliCells .memToDev)).length)) =
        some (halDmaStatusOk, some 8) := by
    decide
  rintro ⟨ret, t, hr, ⟨hne, -⟩ | ⟨-, c, xs, hc, hxs, hring⟩⟩
  · rw [hr] at hlens
    exact hne (congrArg Prod.fst (Option.some.inj hlens))
  · cases hc
    rw [hr, Option.map_some, hxs] at hlens
    have hlen := Option.some.inj (congrArg Prod.snd (Option.some.inj hlens))
    dsimp only at hlen
    rw [hring.cover] at hlen
    exact absurd hlen (by decide)

end D1Flash
