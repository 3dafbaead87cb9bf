import D1Flash.Mm.Coalesce
import D1Flash.Lib.BlockHeap
import D1Flash.Lib.Runs

namespace D1Flash
open BlockHeap (Apart Mallocs Frees)
open Tiling (From total from_append)
open Runs (run Along)
set_option autoImplicit true

/-! Users of the heap, who call `mm_malloc` and `mm_free` and write to the blocks they hold. -/

namespace MmHeap

variable {h h' : MmHeap} {cs : List Chunk} {ns : List MmNode} {out : List Nat}

/-- The heap does not depend on the bytes of its users. -/
theorem Core.of_bytes (hc : h.Core cs ns out) {m : Nat → UInt8}
    (hm : ∀ a, h.Owned cs a → m a = h.mem a) : Core { h with mem := m } cs ns out := by
  have hrd : ∀ f a, h.Own cs f a → rd { h with mem := m } f a = h.rd f a := fun f a ho =>
    LittleEndian.load_congr fun i hi hi' => hm i (ho.owned hc.shape hi hi')
  refine ⟨⟨hc.shape.tiles, hc.shape.sizes, hc.shape.heapsize, hc.shape.small, hc.shape.aligned,
    hc.shape.apart, hc.shape.space, hc.shape.pos⟩, ?_, ?_, ?_, hc.sorted, hc.nodup, hc.mem⟩
  · exact hc.headed.congr fun c hmem =>
      ⟨hrd .size c.addr (.header hmem (.inl rfl)), hrd .preceding c.addr (.header hmem (.inr rfl))⟩
  · exact fun i hi => (hrd .size (h.nodeAt i) (.list hi .size)).trans (hc.zero i hi)
  · have hlink : ∀ f, ∀ a ∈ ns.map MmNode.addr, rd { h with mem := m } f a = h.rd f a := by
      intro f a ha
      obtain ⟨n, hn, rfl⟩ := List.mem_map.1 ha
      exact hrd f n.addr (hc.own hn f)
    exact hc.linked.congr (hlink .flink) fun a ha => hlink .blink a (List.mem_of_mem_tail ha)

theorem Shape.not_owned (hs : h.Shape cs) (hc : c ∈ cs) (ha : c.alloc = true)
    (hlo : c.addr + 4 ≤ a) (hhi : a < c.addr + c.size) : ¬ h.Owned cs a := by
  have hnum := hs.numbers
  have haddr := hs.addr_le hc
  rintro (⟨hl, hr⟩ | ⟨d, hd, hdl, hdr⟩)
  · have hr' : a < h.mmNodelist + 24 * 19 := hr
    omega
  · have hds : 4 ≤ d.size := hs.size_pos hd
    rcases hs.chunks_apart (mem_whole.2 (.inr (.inl hc))) hd with rfl | hle | hle
    · rw [if_pos ha] at hdr
      have hdr' : a < c.addr + 4 := hdr
      omega
    · omega
    · split at hdr
      · have hdr' : a < d.addr + 4 := hdr
        omega
      · omega

/-- The sizes that `mm_mallinfo` meets from a chunk on. -/
def sizes (h : MmHeap) : Nat → Nat → List Nat
  | 0, _ => []
  | fuel + 1, node =>
    if node < h.mmHeapend then h.rd .size node :: h.sizes fuel (node + h.rd .size node) else []

/-- Headers can tell the use of the chunks after them: the heap is small, or only its last chunk is
as large as `MM_ALLOC_BIT`. -/
def Legible (h : MmHeap) : Prop :=
  h.mmHeapsize.toNat ≤ mmAllocBit ∨ ∀ n ∈ (h.sizes 0x1000 h.mmHeapstart).dropLast, n < mmAllocBit

theorem sizes_from (hbs : From Chunk.addr Chunk.size a bs)
    (he : a + total Chunk.size bs = h.mmHeapend)
    (hrd : ∀ b ∈ bs, h.rd .size b.addr = b.size ∧ 0 < b.size) (hf : bs.length ≤ fuel) :
    h.sizes fuel a = bs.map Chunk.size := by
  induction bs generalizing a fuel with
  | nil =>
    cases fuel with
    | zero => rfl
    | succ fuel =>
      rw [sizes, if_neg (show ¬ a < h.mmHeapend from Nat.not_lt.2 (Nat.le_of_eq he.symm))]
      rfl
  | cons b bs ih =>
    cases fuel with
    | zero => cases hf
    | succ fuel =>
      obtain ⟨rfl, hbs⟩ := hbs
      obtain ⟨hsize, hpos⟩ := hrd b List.mem_cons_self
      rw [Tiling.total_cons] at he
      rw [sizes, if_pos (by omega), hsize, List.map_cons, ih hbs (by omega)
        (fun c hc => hrd c (List.mem_cons_of_mem b hc)) (Nat.le_of_succ_le_succ hf)]

theorem Core.sizes (hc : h.Core cs ns out) :
    h.sizes 0x1000 h.mmHeapstart = sizeofMmAllocnode :: cs.map Chunk.size := by
  have hwhole : h.whole cs = (⟨h.mmHeapstart, sizeofMmAllocnode, true⟩ :: cs) ++
    [⟨h.mmHeapend, sizeofMmAllocnode, true⟩] := rfl
  have htiles := hc.shape.tiles
  have hhead := hc.headed
  rw [hwhole] at htiles hhead
  have hlen := hc.shape.length_le
  refine sizes_from (from_append.1 htiles).1 ?_ (fun b hb => ?_) (by rw [List.length_cons]; omega)
  · rw [hc.shape.end_eq, Tiling.total_cons, Nat.add_assoc]
  · exact ⟨(headed_append.1 hhead).1.mem hb, Nat.lt_of_lt_of_le (by decide : 0 < sizeofMmAllocnode)
      (hc.shape.size_pos (hwhole ▸ List.mem_append_left _ hb))⟩

theorem Core.fits (hc : h.Core cs ns out) (hl : h.Legible) : Fits cs := by
  intro c hmem
  rcases hl with hsmall | hwalk
  · have haddr := hc.shape.addr_le (List.dropLast_subset cs hmem)
    have hsize : h.mmHeapstart + h.mmHeapsize.toNat = h.mmHeapend + 4 := hc.shape.heapsize
    show c.size < 0x8000
    have hsmall' : h.mmHeapsize.toNat ≤ 0x8000 := hsmall
    omega
  · refine hwalk c.size ?_
    have hne : cs.map Chunk.size ≠ [] := by
      rintro hnil
      rw [List.map_eq_nil_iff.1 hnil] at hmem
      cases hmem
    rw [hc.sizes, List.dropLast_cons_of_ne_nil hne, ← List.map_dropLast]
    exact List.mem_cons_of_mem _ (List.mem_map_of_mem hmem)

end MmHeap

/-- The heap, and the blocks that users hold: the pointer and the bytes that were asked for. -/
structure MmUse where
  heap : MmHeap
  blocks : List (Nat × Nat)

inductive MmOp
  | malloc (size : UInt64)
  | free (mem : Nat)
  | write (a : Nat) (v : UInt8)

namespace MmUse

/-- A call with what it returns (`none` is a call that does not return), or a write of a user. -/
def step (fuel : Nat) (s : MmUse) : MmOp → Option Nat × MmUse
  | .malloc size =>
    match s.heap.mmMalloc fuel size with
    | none => (none, s)
    | some (ret, heap) =>
      (some ret, ⟨heap, if ret = 0 then s.blocks else (ret, size.toNat) :: s.blocks⟩)
  | .free mem =>
    match s.heap.mmFree fuel mem with
    | none => (none, s)
    | some heap => (some 0, ⟨heap, s.blocks.filter fun b => b.1 ≠ mem⟩)
  | .write a v => (some 0, { s with heap := { s.heap with mem := NorArray.put s.heap.mem a [v] } })

/-- What users may do: ask for 13 bytes or more, give back what they hold, and write to it. -/
def Meets (s : MmUse) : MmOp → Prop
  | .malloc size => Request size ∧ s.heap.Legible
  | .free mem => (mem = 0 ∨ ∃ b ∈ s.blocks, b.1 = mem) ∧ s.heap.Legible
  | .write a _ => ∃ b ∈ s.blocks, b.1 ≤ a ∧ a < b.1 + b.2

/-- The blocks are the chunks in use. -/
structure Holds (cs : List Chunk) (bs : List (Nat × Nat)) : Prop where
  nodup : (bs.map Prod.fst).Nodup
  block : ∀ b ∈ bs, ∃ c ∈ cs, c.alloc = true ∧ b.1 = c.addr + sizeofMmAllocnode ∧ 0 < b.2 ∧
    b.2 + sizeofMmAllocnode ≤ c.size
  chunk : ∀ c ∈ cs, c.alloc = true → ∃ b ∈ bs, b.1 = c.addr + sizeofMmAllocnode

/-- What holds between the calls. -/
structure Inv (s : MmUse) (cs : List Chunk) : Prop where
  core : ∃ ns, s.heap.Core cs ns []
  coalesced : Coalesced cs
  holds : Holds cs s.blocks

def View (s : MmUse) (H : BlockHeap.Heap) : Prop := H.mem = s.heap.mem ∧ H.blocks = s.blocks

variable {s : MmUse} {cs : List Chunk}

theorem Inv.chunk_of (hi : s.Inv cs) (hb : b ∈ s.blocks) : ∃ c ∈ cs, c.alloc = true ∧
    b.1 = c.addr + 4 ∧ 0 < b.2 ∧ b.1 + b.2 ≤ c.addr + c.size := by
  obtain ⟨c, hc, ha, hptr, hpos, hle⟩ := hi.holds.block b hb
  have hle' : b.2 + 4 ≤ c.size := hle
  have hptr' : b.1 = c.addr + 4 := hptr
  exact ⟨c, hc, ha, hptr', hpos, by omega⟩

theorem Inv.view (hi : s.Inv cs) : ∃ H, s.View H := by
  obtain ⟨ns, hc⟩ := hi.core
  have hspace := hc.shape.space.1
  refine ⟨⟨s.heap.mem, s.blocks, fun b hb => ?_, fun b hb => ?_, ?_⟩, rfl, rfl⟩
  · obtain ⟨c, -, -, hptr, hpos, -⟩ := hi.chunk_of hb
    exact ⟨by omega, hpos⟩
  · obtain ⟨c, hmem, -, -, -, hle⟩ := hi.chunk_of hb
    have haddr := hc.shape.addr_le hmem
    omega
  · refine (List.pairwise_map.1 hi.holds.nodup).imp_of_mem fun {b d} hb hd hne => ?_
    obtain ⟨c, hmem, -, hptr, -, hle⟩ := hi.chunk_of hb
    obtain ⟨e, hmem', -, hptr', -, hle'⟩ := hi.chunk_of hd
    rcases hc.shape.chunks_apart (MmHeap.mem_whole.2 (.inr (.inl hmem)))
      (MmHeap.mem_whole.2 (.inr (.inl hmem'))) with rfl | hap | hap
    · exact (hne (hptr.trans hptr'.symm)).elim
    · exact .inl (by omega)
    · exact .inr (by omega)

end MmUse
end D1Flash
