import D1Flash.Mm.Take

namespace D1Flash
open Tiling (From total from_append)
open Loops (whileLoop)
set_option autoImplicit true

/-! What `mm_mallinfo` counts. -/

def unused (cs : List Chunk) : List Chunk := cs.filter fun c => !c.alloc

/-- The bytes of the chunks in use, with their headers. -/
def usedBytes (cs : List Chunk) : Nat := total Chunk.size (cs.filter Chunk.alloc)

def freeBytes (cs : List Chunk) : Nat := total Chunk.size (unused cs)

def largest (cs : List Chunk) : Nat := (unused cs).foldl (fun m c => max m c.size) 0

namespace MmHeap

/-- What `mm_mallinfo` is to tell of the chunks between the guards. -/
def infoOf (h : MmHeap) (cs : List Chunk) : Mallinfo where
  arena := h.mmHeapsize.toNat
  ordblks := (unused cs).length
  mxordblk := largest cs
  uordblks := usedBytes cs + 2 * sizeofMmAllocnode
  fordblks := freeBytes cs

variable {h h' : MmHeap} {cs : List Chunk} {ns : List MmNode} {out : List Nat}

/-- The turn of `mm_mallinfo` at a chunk, by what the bit says. -/
def visit (alloc : Chunk → Bool) (v : MallinfoVars) (c : Chunk) : MallinfoVars :=
  if alloc c then { v with uordblks := v.uordblks + c.size, node := c.addr + c.size }
  else { v with
    ordblks := v.ordblks + 1, fordblks := v.fordblks + c.size, mxordblk := max v.mxordblk c.size,
    node := c.addr + c.size }

theorem visits (cs : List Chunk) (v : MallinfoVars) : ∃ node, cs.foldl (visit Chunk.alloc) v = {
    node := node
    mxordblk := (unused cs).foldl (fun m c => max m c.size) v.mxordblk
    ordblks := v.ordblks + (unused cs).length
    uordblks := v.uordblks + usedBytes cs
    fordblks := v.fordblks + freeBytes cs } := by
  induction cs generalizing v with
  | nil => exact ⟨v.node, rfl⟩
  | cons c cs ih =>
    obtain ⟨node, hrec⟩ := ih (visit Chunk.alloc v c)
    refine ⟨node, ?_⟩
    rw [List.foldl_cons, hrec, visit]
    cases hc : c.alloc with
    | true =>
      have hun : unused (c :: cs) = unused cs := List.filter_cons_of_neg (by simp [hc])
      have hus : usedBytes (c :: cs) = c.size + usedBytes cs := by
        rw [usedBytes, List.filter_cons_of_pos hc]
        rfl
      rw [if_pos rfl, hus, freeBytes, freeBytes, hun, Nat.add_assoc]
    | false =>
      have hun : unused (c :: cs) = c :: unused cs := List.filter_cons_of_pos (by simp [hc])
      have hus : usedBytes (c :: cs) = usedBytes cs := by
        rw [usedBytes, List.filter_cons_of_neg (by simp [hc])]
        rfl
      rw [if_neg Bool.false_ne_true, hus, freeBytes, freeBytes, hun, List.foldl_cons,
        List.length_cons, Tiling.total_cons, Nat.add_assoc, Nat.add_assoc, Nat.add_comm 1]

theorem Core.walk (hc : h.Core cs ns out) (hf : 0x1000 ≤ fuel) {alloc : Chunk → Bool}
    (ha : ∀ c ∈ ⟨h.mmHeapstart, sizeofMmAllocnode, true⟩ :: cs, h.isAlloc c.addr = alloc c) :
    whileLoop (fun v => v.node < h.mmHeapend) h.mallinfoTurn fuel ⟨h.mmHeapstart, 0, 0, 0, 0⟩ =
      some ((⟨h.mmHeapstart, sizeofMmAllocnode, true⟩ :: cs).foldl (visit alloc)
        ⟨h.mmHeapstart, 0, 0, 0, 0⟩) := by
  have hwhole : h.whole cs = (⟨h.mmHeapstart, sizeofMmAllocnode, true⟩ :: cs) ++
    [⟨h.mmHeapend, sizeofMmAllocnode, true⟩] := rfl
  have htiles := hc.shape.tiles
  have hhead := hc.headed
  rw [hwhole] at htiles hhead
  have hlen := hc.shape.length_le
  refine (from_append.1 htiles).1.walk MallinfoVars.node (fun v => ?_) ?_ ?_ rfl ?_
  · rw [decide_eq_true_iff, hc.shape.end_eq, Tiling.total_cons, Nat.add_assoc]
  · exact fun c hmem => Nat.lt_of_lt_of_le (by decide : 0 < sizeofMmAllocnode)
      (hc.shape.size_pos (hwhole ▸ List.mem_append_left _ hmem))
  · intro c hmem v hv
    have hsize := (headed_append.1 hhead).1.mem hmem
    rw [mallinfoTurn, visit, hv, hsize, ha c hmem]
    cases alloc c with
    | false => exact ⟨rfl, rfl⟩
    | true => exact ⟨rfl, rfl⟩
  · rw [List.length_cons]
    omega

theorem used_add_free (cs : List Chunk) : usedBytes cs + freeBytes cs = total Chunk.size cs := by
  induction cs with
  | nil => rfl
  | cons c cs ih =>
    rw [Tiling.total_cons, ← ih, usedBytes, freeBytes, unused]
    cases hc : c.alloc with
    | true =>
      rw [List.filter_cons_of_pos hc, List.filter_cons_of_neg (by simp [hc]), Tiling.total_cons,
        Nat.add_assoc]
      rfl
    | false =>
      rw [List.filter_cons_of_neg (by simp [hc]), List.filter_cons_of_pos (by simp [hc]),
        Tiling.total_cons, Nat.add_left_comm]
      rfl

theorem le_foldl_max {us : List Chunk} {m : Nat} :
    n ≤ us.foldl (fun m c => max m c.size) m ↔ n ≤ m ∨ ∃ c ∈ us, n ≤ c.size := by
  induction us generalizing m with
  | nil => exact ⟨.inl, fun h => h.resolve_right fun ⟨c, hc, _⟩ => List.not_mem_nil hc⟩
  | cons c us ih =>
    have hmax : n ≤ max m c.size ↔ n ≤ m ∨ n ≤ c.size := by omega
    simp only [List.foldl_cons, ih, hmax, List.mem_cons, or_and_right, exists_or, exists_eq_left,
      or_assoc]

theorem le_largest (hn : 0 < n) : n ≤ largest cs ↔ ∃ c ∈ cs, c.alloc = false ∧ n ≤ c.size := by
  rw [largest, le_foldl_max, or_iff_right (Nat.not_le.2 hn)]
  refine exists_congr fun c => ?_
  rw [unused, List.mem_filter, Bool.not_eq_true', and_assoc]

theorem largest_le (hcs : ∀ c ∈ cs, c.size ≤ n) : largest cs ≤ n := by
  by_contra hlt
  obtain ⟨c, hc, -, hle⟩ := (le_largest (Nat.succ_pos n)).1 (Nat.not_le.1 hlt)
  exact Nat.not_succ_le_self n (Nat.le_trans hle (hcs c hc))

theorem toInt32_eq (h : x < 2 ^ 31) : toInt32 x = x := by
  rw [toInt32, BitVec.toInt_eq_toNat_of_lt, BitVec.toNat_ofNat, Nat.mod_eq_of_lt (by omega)]
  rw [BitVec.toNat_ofNat, Nat.mod_eq_of_lt (by omega)]
  omega

theorem Fits.before (hf : Fits (l ++ c :: r)) : lastSize sizeofMmAllocnode l < mmAllocBit := by
  rw [lastSize]
  cases hl : l.getLast? with
  | none => decide
  | some d =>
    have hd : d ∈ (l ++ c :: r).dropLast := by
      rw [List.dropLast_append_of_ne_nil (List.cons_ne_nil c r)]
      exact List.mem_append_left _ (List.mem_of_getLast? hl)
    exact hf d hd

theorem Core.isAlloc (hc : h.Core cs ns out) (hfits : Fits cs) (hmem : c ∈ cs) :
    h.isAlloc c.addr = c.alloc := by
  obtain ⟨l, r, rfl⟩ := List.append_of_mem hmem
  obtain ⟨⟨-, hprec⟩, -⟩ := hc.headed_mid (m := [c])
  rw [MmHeap.isAlloc, hprec]
  exact tag_alloc (.inl hfits.before)

theorem Core.mallinfo (hc : h.Core cs ns out) (hfits : Fits cs) (hf : 0x1000 ≤ fuel) :
    h.mmMallinfo fuel = some (h.infoOf cs) := by
  have ha : ∀ c ∈ ⟨h.mmHeapstart, sizeofMmAllocnode, true⟩ :: cs, h.isAlloc c.addr = c.alloc := by
    intro c hmem
    rcases List.mem_cons.1 hmem with rfl | hmem
    · obtain ⟨⟨-, hprec⟩, -⟩ := hc.headed
      rw [MmHeap.isAlloc, hprec]
      exact tag_alloc (.inr rfl)
    · exact hc.isAlloc hfits hmem
  obtain ⟨node, hvisits⟩ := visits (⟨h.mmHeapstart, sizeofMmAllocnode, true⟩ :: cs)
    ⟨h.mmHeapstart, 0, 0, 0, 0⟩
  have hsum := used_add_free cs
  have hend : h.mmHeapend = h.mmHeapstart + 4 + total Chunk.size cs := hc.shape.end_eq
  have hnum := hc.shape.numbers
  have hsmall := hc.shape.small
  have hlen := hc.shape.length_le
  have hun : (unused cs).length ≤ cs.length := List.length_filter_le _ cs
  have hlarge : largest cs ≤ 0x10000 := largest_le fun c hmem => by
    have hsize := hc.shape.size_lt hmem
    omega
  have hguard : unused (⟨h.mmHeapstart, sizeofMmAllocnode, true⟩ :: cs) = unused cs := rfl
  have hused : usedBytes (⟨h.mmHeapstart, sizeofMmAllocnode, true⟩ :: cs) = 4 + usedBytes cs := rfl
  have hfree : freeBytes (⟨h.mmHeapstart, sizeofMmAllocnode, true⟩ :: cs) = freeBytes cs := rfl
  rw [mmMallinfo, hc.walk hf ha, hvisits, hguard, hused, hfree, Option.map_some, infoOf,
    Option.some.injEq, Mallinfo.mk.injEq]
  have hu : toInt32 (0 + (4 + usedBytes cs) + sizeofMmAllocnode) =
      usedBytes cs + 2 * sizeofMmAllocnode := by
    rw [show 0 + (4 + usedBytes cs) + sizeofMmAllocnode = usedBytes cs + 2 * 4 by
      show 0 + (4 + usedBytes cs) + 4 = _
      omega, toInt32_eq (by omega)]
    rfl
  have ho : toInt32 (0 + (unused cs).length) = (unused cs).length := by
    rw [Nat.zero_add]
    exact toInt32_eq (by omega)
  have hford : toInt32 (0 + freeBytes cs) = freeBytes cs := by
    rw [Nat.zero_add]
    exact toInt32_eq (by omega)
  exact ⟨toInt32_eq (by omega), ho, toInt32_eq (x := largest cs) (by omega), hu, hford⟩

theorem Core.mallinfo_some (hc : h.Core cs ns out) (hf : 0x1000 ≤ fuel) :
    ∃ info, h.mmMallinfo fuel = some info := by
  rw [mmMallinfo, hc.walk hf fun c _ => rfl]
  exact ⟨_, rfl⟩

end MmHeap
end D1Flash
