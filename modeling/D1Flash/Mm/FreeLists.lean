import D1Flash.Mm.Chunks
import Mathlib.Data.Nat.Log
import Mathlib.Data.List.Nodup

namespace D1Flash
open Links (Linked linked_append)
set_option autoImplicit true

/-! The free chunks on the lists of a heap. -/

/-- A node on the lists: one of the heap has size 0 and stands before the chunks of its list. -/
structure MmNode where
  addr : Nat
  ndx : Nat
  size : Nat
  deriving DecidableEq

/-- The order of the nodes: by list, and by size in a list. -/
def MmNode.Le (x y : MmNode) : Prop := x.ndx < y.ndx ∨ x.ndx = y.ndx ∧ x.size ≤ y.size

def Chunk.node (c : Chunk) : MmNode := ⟨c.addr, mmSize2ndx c.size, c.size⟩

/-- The byte is not the user's. -/
def Chunk.Owns (c : Chunk) (a : Nat) : Prop :=
  c.addr ≤ a ∧ a < c.addr + if c.alloc then sizeofMmAllocnode else c.size

namespace MmHeap

def head (h : MmHeap) (i : Nat) : MmNode := ⟨h.nodeAt i, i, 0⟩

/-- The lists hold the nodes of the heap, and the free chunks but for those at
the addresses `out`. -/
def Listed (h : MmHeap) (cs : List Chunk) (out : List Nat) (n : MmNode) : Prop :=
  (∃ i < mmNnodes, n = h.head i) ∨ ∃ c ∈ cs, c.alloc = false ∧ c.addr ∉ out ∧ n = c.node

/-- The heap holds the chunks, with the nodes `ns` on its lists. -/
structure Core (h : MmHeap) (cs : List Chunk) (ns : List MmNode) (out : List Nat) : Prop where
  shape : h.Shape cs
  headed : h.Headed 0 (h.whole cs)
  zero : ∀ i < mmNnodes, h.rd .size (h.nodeAt i) = 0
  linked : Linked (h.rd .flink) (h.rd .blink) 0 (ns.map MmNode.addr)
  sorted : ns.Pairwise MmNode.Le
  nodup : (ns.map MmNode.addr).Nodup
  mem : ∀ n, n ∈ ns ↔ h.Listed cs out n

/-- The bytes of the allocator: the list nodes, the headers and the free chunks. -/
def Owned (h : MmHeap) (cs : List Chunk) (a : Nat) : Prop :=
  (h.mmNodelist ≤ a ∧ a < h.nodeAt mmNnodes) ∨ ∃ c ∈ h.whole cs, c.Owns a

/-- Only bytes of the allocator were written. -/
structure Steps (h h' : MmHeap) (cs : List Chunk) : Prop where
  config : h' = { h with mem := h'.mem }
  bytes : ∀ a, ¬ h.Owned cs a → h'.mem a = h.mem a

variable {h h' : MmHeap} {cs : List Chunk} {ns : List MmNode} {out : List Nat}

theorem Steps.refl (h : MmHeap) (cs : List Chunk) : Steps h h cs := ⟨rfl, fun _ _ => rfl⟩

theorem Steps.owned (hst : Steps h h' cs) (a : Nat) : h'.Owned ds a ↔ h.Owned ds a := by
  rw [hst.config]
  exact Iff.rfl

theorem Steps.trans (hst : Steps h h' cs) (hst' : Steps h' h'' cs) : Steps h h'' cs := by
  refine ⟨?_, fun a ha => ?_⟩
  · have hc := hst'.config
    rw [hst.config] at hc
    exact hc
  · exact (hst'.bytes a (mt (hst.owned a).1 ha)).trans (hst.bytes a ha)

/-- A member of a header, of a node on the lists or of a free chunk belongs to the allocator. -/
inductive Own (h : MmHeap) (cs : List Chunk) : MmField → Nat → Prop
  | header (hc : c ∈ h.whole cs) (hf : f = .size ∨ f = .preceding) : Own h cs f c.addr
  | chunk (hc : c ∈ cs) (hfree : c.alloc = false) (f : MmField) : Own h cs f c.addr
  | list (hi : i < mmNnodes) (f : MmField) : Own h cs f (h.nodeAt i)

theorem Own.slot (ho : h.Own cs f a) : h.Slot cs f a := by
  cases ho with
  | header hc hf => exact slot_head hc hf
  | chunk hc hfree => exact slot_chunk hc f
  | list hi => exact slot_list hi f

theorem Own.owned (hs : h.Shape cs) (ho : h.Own cs f a) (hlo : a + f.off ≤ b)
    (hhi : b < a + f.off + f.width) : h.Owned cs b := by
  have hfield : f.off + f.width ≤ 24 := by cases f <;> decide
  cases ho with
  | @header c f hc hf =>
    have hfour : f.off + f.width ≤ 4 := by rcases hf with rfl | rfl <;> decide
    refine .inr ⟨c, hc, by omega, ?_⟩
    have hsize : 4 ≤ c.size := hs.size_pos hc
    split
    · show b < c.addr + 4
      omega
    · omega
  | @chunk c hc hfree =>
    have hsize := (hs.addr_le hc).2.2
    refine .inr ⟨c, mem_whole.2 (.inr (.inl hc)), by omega, ?_⟩
    rw [if_neg (by rw [hfree]; exact Bool.false_ne_true)]
    omega
  | @list i hi =>
    have hi' : i < 19 := hi
    refine .inl ?_
    show h.mmNodelist ≤ b ∧ b < h.mmNodelist + 24 * 19
    have hlo' : h.mmNodelist + 24 * i + f.off ≤ b := hlo
    have hhi' : b < h.mmNodelist + 24 * i + f.off + f.width := hhi
    omega

theorem Own.steps (hs : h.Shape cs) (ho : h.Own cs f a) (v : Nat) : Steps h (h.wr f a v) cs := by
  refine ⟨rfl, fun b hb => LittleEndian.store_outside _ _ ?_⟩
  by_contra hin
  obtain ⟨hlo, hhi⟩ := not_or.1 hin
  exact hb (ho.owned hs (Nat.not_lt.1 hlo) (Nat.not_le.1 hhi))

theorem Steps.bounds (hst : Steps h h' cs) : h'.mmHeapstart = h.mmHeapstart ∧
    h'.mmHeapend = h.mmHeapend ∧ h'.mmHeapsize = h.mmHeapsize := by
  rw [hst.config]
  exact ⟨rfl, rfl, rfl⟩

theorem Steps.whole (hst : Steps h h' cs) : h'.whole ds = h.whole ds := by
  rw [hst.config]
  rfl

theorem Steps.head (hst : Steps h h' cs) (i : Nat) : h'.head i = h.head i := by
  rw [hst.config]
  rfl

theorem Steps.shape (hst : Steps h h' cs) (hs : h.Shape ds) : h'.Shape ds := by
  rw [hst.config]
  exact ⟨hs.tiles, hs.sizes, hs.heapsize, hs.small, hs.aligned, hs.apart, hs.space, hs.pos⟩

theorem Steps.slot (hst : Steps h h' cs) (hs : h.Slot ds f a) : h'.Slot ds f a := by
  rw [hst.config]
  exact hs

theorem Steps.own (hst : Steps h h' cs) (ho : h.Own ds f a) : h'.Own ds f a := by
  rw [hst.config]
  cases ho with
  | header hc hf => exact .header hc hf
  | chunk hc hfree => exact .chunk hc hfree f
  | list hi => exact .list hi f

theorem Steps.listed (hst : Steps h h' cs) : h'.Listed ds out n ↔ h.Listed ds out n := by
  rw [hst.config]
  exact Iff.rfl

theorem Shape.rd_wr₂ (hs : h.Shape cs) (ha : h.Slot cs f a) (ha' : h.Slot cs f' a')
    (hb : h.Slot cs g b) (v v' : Nat) :
    ((h.wr f a v).wr f' a' v').rd g b = if g = f' ∧ b = a' then v' % 256 ^ f'.width
      else if g = f ∧ b = a then v % 256 ^ f.width else h.rd g b := by
  have hs' : Shape (h.wr f a v) cs :=
    ⟨hs.tiles, hs.sizes, hs.heapsize, hs.small, hs.aligned, hs.apart, hs.space, hs.pos⟩
  rw [hs'.rd_wr (h := h.wr f a v) ha' hb, hs.rd_wr ha hb]

theorem Core.own (hc : h.Core cs ns out) (hn : n ∈ ns) (f : MmField) : h.Own cs f n.addr := by
  rcases (hc.mem n).1 hn with ⟨i, hi, rfl⟩ | ⟨c, hmem, hfree, -, rfl⟩
  · exact .list hi f
  · exact .chunk hmem hfree f

theorem Core.head_mem (hc : h.Core cs ns out) (hi : i < mmNnodes) : h.head i ∈ ns :=
  (hc.mem _).2 (.inl ⟨i, hi, rfl⟩)

theorem Core.addr_lt (hc : h.Core cs ns out) (hn : n ∈ ns) : n.addr < 256 ^ 8 ∧ n.addr ≠ 0 := by
  have hnum := hc.shape.numbers
  have hpos := hc.shape.pos
  obtain ⟨hend, hlist⟩ := hc.shape.space
  have hlist' : h.mmNodelist + 456 ≤ 2 ^ 64 := hlist
  have h256 : (256 : Nat) ^ 8 = 2 ^ 64 := by decide
  rw [h256]
  rcases (hc.mem n).1 hn with ⟨i, hi, rfl⟩ | ⟨c, hmem, -, -, rfl⟩
  · have hi' : i < 19 := hi
    show h.mmNodelist + 24 * i < _ ∧ h.mmNodelist + 24 * i ≠ 0
    omega
  · have haddr := hc.shape.addr_le hmem
    show c.addr < _ ∧ c.addr ≠ 0
    omega

theorem Shape.addr_ne_head (hs : h.Shape cs) (hc : c ∈ cs) (hi : i < mmNnodes) :
    c.addr ≠ h.nodeAt i := by
  have hnum := hs.numbers
  have haddr := hs.addr_le hc
  have hi' : i < 19 := hi
  show c.addr ≠ h.mmNodelist + 24 * i
  omega

theorem Shape.addr_inj (hs : h.Shape cs) (hc : c ∈ h.whole cs) (hd : d ∈ h.whole cs)
    (he : c.addr = d.addr) : c = d := by
  have hcs : 4 ≤ c.size := hs.size_pos hc
  have hds : 4 ≤ d.size := hs.size_pos hd
  rcases hs.chunks_apart hc hd with h | h | h
  · exact h
  · omega
  · omega

theorem Core.addr_inj (hc : h.Core cs ns out) (hn : n ∈ ns) (hm : m ∈ ns) (he : n.addr = m.addr) :
    n = m := List.inj_on_of_nodup_map hc.nodup hn hm he

theorem Core.relink (hc : h.Core cs ns out) (hst : Steps h h' cs)
    (hrd : ∀ g b, h.Slot cs g b → g = .size ∨ g = .preceding → h'.rd g b = h.rd g b)
    (hl : Linked (h'.rd .flink) (h'.rd .blink) 0 (ns'.map MmNode.addr))
    (hsort : ns'.Pairwise MmNode.Le) (hnd : (ns'.map MmNode.addr).Nodup)
    (hmem : ∀ n, n ∈ ns' ↔ h.Listed cs out' n) : h'.Core cs ns' out' where
  shape := hst.shape hc.shape
  headed := by
    rw [hst.whole]
    refine hc.headed.congr fun c hc => ⟨?_, ?_⟩
    · exact hrd _ _ (slot_head hc (.inl rfl)) (.inl rfl)
    · exact hrd _ _ (slot_head hc (.inr rfl)) (.inr rfl)
  zero i hi := by
    have hnode : h'.nodeAt i = h.nodeAt i := congrArg MmNode.addr (hst.head i)
    rw [hnode, hrd _ _ (slot_list hi _) (.inl rfl)]
    exact hc.zero i hi
  linked := hl
  sorted := hsort
  nodup := hnd
  mem n := (hmem n).trans hst.listed.symm

end MmHeap

theorem shiftNdx_eq (ndx size : Nat) : shiftNdx ndx size = ndx + Nat.log 2 size := by
  fun_induction shiftNdx ndx size with
  | case1 ndx size hlt ih =>
    rw [ih, Nat.shiftRight_one, Nat.log_of_one_lt_of_le Nat.one_lt_two hlt, Nat.add_assoc,
      Nat.add_comm 1]
  | case2 ndx size hle =>
    rw [Nat.log_of_lt (Nat.lt_succ_of_le (Nat.not_lt.1 hle))]
    rfl

/-- The list of a size is the place of its highest bit, from 16 on and up to 2^22. -/
theorem mmSize2ndx_eq (size : Nat) :
    mmSize2ndx size = if mmMaxChunk ≤ size then mmNnodes - 1 else Nat.log 2 (size / 16) := by
  rw [mmSize2ndx]
  refine if_congr Iff.rfl rfl ?_
  rw [shiftNdx_eq, Nat.zero_add, Nat.shiftRight_eq_div_pow]
  rfl

theorem mmSize2ndx_lt (size : Nat) : mmSize2ndx size < mmNnodes := by
  rw [mmSize2ndx_eq]
  split
  · decide
  · rename_i hlt
    have hlt' : size < 2 ^ 22 := Nat.not_le.1 hlt
    refine Nat.lt_of_le_of_lt (Nat.log_mono_right (m := 2 ^ 18) (by omega)) ?_
    rw [Nat.log_pow Nat.one_lt_two]
    decide

theorem mmSize2ndx_mono (h : m ≤ n) : mmSize2ndx m ≤ mmSize2ndx n := by
  have hlt := mmSize2ndx_lt m
  rw [mmSize2ndx_eq n]
  split
  · exact Nat.le_pred_of_lt hlt
  · rename_i hn
    rw [mmSize2ndx_eq m, if_neg fun hm => hn (Nat.le_trans hm h)]
    exact Nat.log_mono_right (Nat.div_le_div_right h)

end D1Flash
