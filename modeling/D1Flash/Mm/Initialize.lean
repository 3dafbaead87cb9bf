import D1Flash.Mm.Free

namespace D1Flash
open Links (Linked linked_range)
open NorArray (put)
set_option autoImplicit true

/-! How the heap begins. -/

namespace MmHeap

variable {h h' : MmHeap} {cs : List Chunk} {ns : List MmNode} {out : List Nat}

/-- The links that `linkNodes` writes, by the numbers of the nodes. -/
def linkKeys : List (MmField × Nat × Nat) :=
  (List.range' 1 18).flatMap fun i => [(.flink, i - 1, i), (.blink, i, i - 1)]

def clearNodes (h : MmHeap) : MmHeap :=
  { h with mem := put h.mem h.mmNodelist (List.replicate (mmNodeBytes * mmNnodes) 0) }

def linkWrites (h : MmHeap) : List (MmField × Nat × Nat) :=
  linkKeys.map fun k => (k.1, h.nodeAt k.2.1, h.nodeAt k.2.2)

theorem linkLoop_eq {g h : MmHeap} (is : List Nat) (hg : ∀ i, g.nodeAt i = h.nodeAt i) :
    is.foldl (fun heap i => (heap.wr .flink (heap.nodeAt (i - 1)) (heap.nodeAt i)).wr .blink
        (heap.nodeAt i) (heap.nodeAt (i - 1))) g =
      wrs ((is.flatMap fun i => [(.flink, i - 1, i), (.blink, i, i - 1)]).map fun k =>
        (k.1, h.nodeAt k.2.1, h.nodeAt k.2.2)) g := by
  induction is generalizing g with
  | nil => rfl
  | cons i is ih =>
    rw [List.foldl_cons, hg, hg]
    exact ih hg

theorem linkNodes_eq (h : MmHeap) : h.linkNodes = h.clearNodes.wrs h.linkWrites := by
  rw [linkNodes, linkWrites, linkKeys]
  exact linkLoop_eq (g := h.clearNodes) _ fun _ => rfl

theorem wrs_config (ws : List (MmField × Nat × Nat)) (h : MmHeap) (z : UInt64) (a b : Nat) :
    wrs ws { h with mmHeapsize := z, mmHeapstart := a, mmHeapend := b } =
      { h.wrs ws with mmHeapsize := z, mmHeapstart := a, mmHeapend := b } := by
  induction ws generalizing h with
  | nil => rfl
  | cons w ws ih => exact ih (h.wr w.1 w.2.1 w.2.2)

theorem wrs_end (ws : List (MmField × Nat × Nat)) (g : MmHeap) (z : UInt64) (a b : Nat) :
    { wrs ws { g with mmHeapsize := z, mmHeapstart := a } with mmHeapend := b } =
      wrs ws { g with mmHeapsize := z, mmHeapstart := a, mmHeapend := b } := by
  rw [wrs_config ws g z a b, wrs_config ws g z a g.mmHeapend]

theorem linkNodes_config (h : MmHeap) (z : UInt64) (a b : Nat) :
    linkNodes { h with mmHeapsize := z, mmHeapstart := a, mmHeapend := b } =
      { h.linkNodes with mmHeapsize := z, mmHeapstart := a, mmHeapend := b } := by
  rw [linkNodes_eq, linkNodes_eq]
  exact wrs_config _ h.clearNodes z a b

theorem clearNodes_rd (h : MmHeap) (hi : i < mmNnodes) (f : MmField) :
    h.clearNodes.rd f (h.nodeAt i) = 0 := by
  refine LittleEndian.load_zero fun a ha ha' => ?_
  have hi' : i < 19 := hi
  have hfield : f.off + f.width ≤ 24 := by cases f <;> decide
  have hlo : h.mmNodelist + 24 * i + f.off ≤ a := ha
  have hhi : a < h.mmNodelist + 24 * i + f.off + f.width := ha'
  have hlen : a - h.mmNodelist < (List.replicate (mmNodeBytes * mmNnodes) (0 : UInt8)).length := by
    rw [List.length_replicate]
    show _ < 24 * 19
    omega
  exact (NorArray.put_inside h.mem (by omega) hlen).trans (List.getElem_replicate hlen)

theorem clearNodes_steps (h : MmHeap) (cs : List Chunk) : Steps h h.clearNodes cs := by
  refine ⟨rfl, fun a ha => NorArray.put_outside h.mem ?_⟩
  rw [List.length_replicate]
  by_contra hin
  refine ha (.inl ?_)
  show h.mmNodelist ≤ a ∧ a < h.mmNodelist + 24 * 19
  have hin' : ¬ (a < h.mmNodelist ∨ h.mmNodelist + 24 * 19 ≤ a) := hin
  omega

theorem linkNodes_spec (hs : h.Shape cs) : Steps h h.linkNodes cs ∧
    (∀ i < mmNnodes, h.linkNodes.rd .size (h.nodeAt i) = 0) ∧
      Linked (h.linkNodes.rd .flink) (h.linkNodes.rd .blink) 0
        (((List.range 19).map h.head).map MmNode.addr) := by
  have hst₁ := clearNodes_steps h cs
  have hs₁ := hst₁.shape hs
  have hkeys : ∀ k ∈ linkKeys,
      k.2.1 < mmNnodes ∧ k.2.2 < mmNnodes ∧ k.1 ≠ .size ∧ k.1.width = 8 := by decide
  have hown : ∀ w ∈ h.linkWrites, h.clearNodes.Own cs w.1 w.2.1 := by
    intro w hw
    obtain ⟨k, hk, rfl⟩ := List.mem_map.1 hw
    exact .list (hkeys k hk).1 k.1
  have hst₂ := wrs_steps hs₁ hown
  have hinj : ∀ i j, h.nodeAt i = h.nodeAt j ↔ i = j := by
    intro i j
    show h.mmNodelist + 24 * i = h.mmNodelist + 24 * j ↔ _
    omega
  have hpair : h.linkWrites.Pairwise fun w w' => ¬ (w.1 = w'.1 ∧ w.2.1 = w'.2.1) := by
    have hdec : linkKeys.Pairwise fun k k' => ¬ (k.1 = k'.1 ∧ k.2.1 = k'.2.1) := by decide
    refine List.pairwise_map.2 (hdec.imp fun {k k'} hk he => hk ⟨he.1, (hinj _ _).1 he.2⟩)
  have hrd : ∀ k ∈ linkKeys, h.linkNodes.rd k.1 (h.nodeAt k.2.1) = h.nodeAt k.2.2 := by
    intro k hk
    obtain ⟨-, hj, -, hwidth⟩ := hkeys k hk
    have hj' : k.2.2 < 19 := hj
    have hspace : h.mmNodelist + 24 * 19 ≤ 2 ^ 64 := hs.space.2
    rw [linkNodes_eq, hs₁.rd_wrs hown hpair (List.mem_map_of_mem hk), hwidth]
    refine Nat.mod_eq_of_lt ?_
    show h.mmNodelist + 24 * k.2.2 < 2 ^ 64
    omega
  have hkeep : ∀ f, ∀ i < mmNnodes, (∀ k ∈ linkKeys, ¬ (f = k.1 ∧ i = k.2.1)) →
      h.linkNodes.rd f (h.nodeAt i) = 0 := by
    intro f i hi hne
    rw [linkNodes_eq, hs₁.rd_wrs_of_ne hown (hst₁.slot (slot_list hi f)), clearNodes_rd h hi]
    intro w hw he
    obtain ⟨k, hk, rfl⟩ := List.mem_map.1 hw
    exact hne k hk ⟨he.1, (hinj _ _).1 he.2⟩
  have hst : Steps h h.linkNodes cs := by
    rw [linkNodes_eq]
    exact hst₁.trans hst₂
  generalize h.linkNodes = h₂ at hrd hkeep hst ⊢
  refine ⟨hst, ?_, ?_⟩
  · exact fun i hi => hkeep .size i hi fun k hk he => (hkeys k hk).2.2.1 he.1.symm
  · have hnext : ∀ i < 18, (.flink, i, i + 1) ∈ linkKeys := by decide
    have hprev : ∀ i < 18, (.blink, i + 1, i) ∈ linkKeys := by decide
    have hlast : ∀ k ∈ linkKeys, ¬ (.flink = k.1 ∧ 18 = k.2.1) := by decide
    have hnodes : ((List.range 19).map h.head).map MmNode.addr =
      (List.range' 0 19).map h.nodeAt := by
      rw [List.map_map, List.range_eq_range']
      exact List.map_congr_left fun i _ => rfl
    rw [hnodes]
    apply linked_range
    · exact fun i _ hi => hrd (.flink, i, i + 1) (hnext i (by omega))
    · exact fun i _ hi => hrd (.blink, i + 1, i) (hprev i (by omega))
    · intro i hi
      cases (show i = 18 by omega)
      exact hkeep .flink 18 (by decide) hlast

/-- Where `mm_initialize` may put a heap, for list nodes that lie elsewhere. -/
structure Region (h : MmHeap) (heapstart heapsize : UInt64) : Prop where
  wrap : heapstart.toNat + heapsize.toNat < 2 ^ 64
  room : (heapstart.toNat + 15) / 16 * 16 + 32 ≤ (heapstart.toNat + heapsize.toNat) / 16 * 16
  small : (heapstart.toNat + heapsize.toNat) / 16 * 16 ≤ (heapstart.toNat + 15) / 16 * 16 + 0x10000
  apart : h.nodeAt mmNnodes ≤ heapstart.toNat ∨ heapstart.toNat + heapsize.toNat ≤ h.mmNodelist
  pos : 0 < h.mmNodelist ∧ 0 < heapstart.toNat
  space : h.nodeAt mmNnodes ≤ 2 ^ 64

/-- The bounds of a heap and the one chunk that is between its guards at first. -/
def bounds (h : MmHeap) (heapstart heapsize : UInt64) : MmHeap :=
  { h with
    mmHeapsize := mmAlignDown (heapstart + heapsize) - mmAlignUp heapstart
    mmHeapstart := (mmAlignUp heapstart).toNat
    mmHeapend := (mmAlignDown (heapstart + heapsize)).toNat - sizeofMmAllocnode }

def firstChunk (h : MmHeap) : Chunk :=
  ⟨h.mmHeapstart + sizeofMmAllocnode, h.mmHeapsize.toNat - 2 * sizeofMmAllocnode, false⟩

theorem Region.numbers (hr : h.Region a n) : (mmAlignUp a).toNat = (a.toNat + 15) / 16 * 16 ∧
    (mmAlignDown (a + n)).toNat = (a.toNat + n.toNat) / 16 * 16 ∧
      (mmAlignDown (a + n) - mmAlignUp a).toNat =
        (a.toNat + n.toNat) / 16 * 16 - (a.toNat + 15) / 16 * 16 := by
  obtain ⟨hwrap, hroom, -⟩ := hr
  have hup := mmAlignUp_toNat (a := a) (by omega)
  have hdown : (mmAlignDown (a + n)).toNat = (a.toNat + n.toNat) / 16 * 16 := by
    rw [mmAlignDown_toNat, UInt64.toNat_add, Nat.mod_eq_of_lt hwrap]
  refine ⟨hup, hdown, ?_⟩
  rw [UInt64.toNat_sub_of_le, hup, hdown]
  rw [UInt64.le_iff_toNat_le, hup, hdown]
  omega

theorem Region.shape (hr : h.Region a n) : (h.bounds a n).Shape [(h.bounds a n).firstChunk] := by
  obtain ⟨hup, hdown, hsize⟩ := hr.numbers
  obtain ⟨hwrap, hroom, hsmall, hapart, hpos, hspace⟩ := hr
  have hstart : (h.bounds a n).mmHeapstart = (a.toNat + 15) / 16 * 16 := hup
  have hend : (h.bounds a n).mmHeapend = (a.toNat + n.toNat) / 16 * 16 - 4 :=
    congrArg (· - 4) hdown
  have hsz : (h.bounds a n).mmHeapsize.toNat = _ := hsize
  have hnode : (h.bounds a n).nodeAt mmNnodes = h.nodeAt mmNnodes := rfl
  have hlist : (h.bounds a n).mmNodelist = h.mmNodelist := rfl
  refine ⟨⟨rfl, rfl, ?_, trivial⟩, List.forall_mem_singleton.2 ?_, ?_, ?_, ?_, ?_, ?_, ?_⟩
  · show (h.bounds a n).mmHeapend =
      (h.bounds a n).mmHeapstart + 4 + ((h.bounds a n).mmHeapsize.toNat - 8)
    omega
  · show 24 ≤ (h.bounds a n).mmHeapsize.toNat - 8 ∧ ((h.bounds a n).mmHeapsize.toNat - 8) % 8 = 0
    omega
  · show (h.bounds a n).mmHeapstart + _ = (h.bounds a n).mmHeapend + 4
    omega
  · omega
  · show (h.bounds a n).mmHeapstart % 16 = 0
    omega
  · show _ ∨ (h.bounds a n).mmHeapend + 4 ≤ _
    omega
  · omega
  · omega

/-- The headers that `mm_addregion` writes. -/
def regionWrites (h : MmHeap) : List (MmField × Nat × Nat) :=
  [(.size, h.mmHeapstart, sizeofMmAllocnode), (.preceding, h.mmHeapstart, mmAllocBit),
    (.size, h.firstChunk.addr, h.firstChunk.size),
    (.preceding, h.firstChunk.addr, sizeofMmAllocnode), (.size, h.mmHeapend, sizeofMmAllocnode),
    (.preceding, h.mmHeapend, h.firstChunk.size ||| mmAllocBit)]

theorem regionWrites_mem (hw : w ∈ h.regionWrites) : (w.1 = .size ∨ w.1 = .preceding) ∧
    ∃ c ∈ h.whole [h.firstChunk], w.2.1 = c.addr := by
  have hstart : (⟨h.mmHeapstart, sizeofMmAllocnode, true⟩ : Chunk) ∈ h.whole [h.firstChunk] :=
    mem_whole.2 (.inl rfl)
  have hfirst : h.firstChunk ∈ h.whole [h.firstChunk] :=
    mem_whole.2 (.inr (.inl (List.mem_singleton.2 rfl)))
  have hend : (⟨h.mmHeapend, sizeofMmAllocnode, true⟩ : Chunk) ∈ h.whole [h.firstChunk] :=
    mem_whole.2 (.inr (.inr rfl))
  simp only [regionWrites, List.mem_cons, List.not_mem_nil, or_false] at hw
  rcases hw with rfl | rfl | rfl | rfl | rfl | rfl
  · exact ⟨.inl rfl, _, hstart, rfl⟩
  · exact ⟨.inr rfl, _, hstart, rfl⟩
  · exact ⟨.inl rfl, _, hfirst, rfl⟩
  · exact ⟨.inr rfl, _, hfirst, rfl⟩
  · exact ⟨.inl rfl, _, hend, rfl⟩
  · exact ⟨.inr rfl, _, hend, rfl⟩

theorem regionWrites_own (hw : w ∈ h.regionWrites) : h.Own [h.firstChunk] w.1 w.2.1 := by
  obtain ⟨hf, c, hc, ha⟩ := regionWrites_mem hw
  rw [ha]
  exact .header hc hf

theorem regionWrites_pair (hs : h.Shape [h.firstChunk]) :
    h.regionWrites.Pairwise fun w w' => ¬ (w.1 = w'.1 ∧ w.2.1 = w'.2.1) := by
  have haddr := hs.addr_le (List.mem_singleton.2 rfl)
  simp [regionWrites]
  omega

/-- The heap before its chunk is put on a list. -/
theorem Shape.region (hs : h.Shape [h.firstChunk]) :
    (h.linkNodes.wrs h.regionWrites).Core [h.firstChunk] ((List.range 19).map h.head)
        [h.firstChunk.addr] ∧
      Steps h (h.linkNodes.wrs h.regionWrites) [h.firstChunk] := by
  obtain ⟨hst₁, hzero, hlinked⟩ := linkNodes_spec hs
  generalize h.linkNodes = h₁ at hst₁ hzero hlinked ⊢
  have hs₁ := hst₁.shape hs
  have hown : ∀ w ∈ h.regionWrites, h₁.Own [h.firstChunk] w.1 w.2.1 := fun w hw =>
    hst₁.own (regionWrites_own hw)
  have hlt := hs.size_lt (List.mem_singleton.2 rfl)
  have hst₂ := wrs_steps hs₁ hown
  have hrd : ∀ w ∈ h.regionWrites, w.2.2 < 2 ^ 16 →
    (h₁.wrs h.regionWrites).rd w.1 w.2.1 = w.2.2 := by
    intro w hw hv
    have hwidth : w.1.width = 2 := by
      simp only [regionWrites, List.mem_cons, List.not_mem_nil, or_false] at hw
      rcases hw with rfl | rfl | rfl | rfl | rfl | rfl <;> rfl
    rw [hs₁.rd_wrs hown (regionWrites_pair hs) hw, hwidth]
    exact Nat.mod_eq_of_lt hv
  have hkeep : ∀ f, ∀ i < mmNnodes, (h₁.wrs h.regionWrites).rd f (h.nodeAt i) =
    h₁.rd f (h.nodeAt i) := by
    intro f i hi
    refine hs₁.rd_wrs_of_ne hown (hst₁.slot (slot_list hi f)) fun w hw he => ?_
    obtain ⟨-, c, hc, ha⟩ := regionWrites_mem hw
    exact hs.nodeAt_ne hi hc (he.2.trans ha)
  have hst := hst₁.trans hst₂
  have hlist : ∀ i, (h₁.wrs h.regionWrites).nodeAt i = h.nodeAt i := fun i =>
    congrArg MmNode.addr (hst.head i)
  generalize h₁.wrs h.regionWrites = h₂ at hrd hkeep hst hlist ⊢
  have hinj : Function.Injective (MmNode.addr ∘ h.head) := by
    intro i j hij
    have hij' : h.mmNodelist + 24 * i = h.mmNodelist + 24 * j := hij
    omega
  refine ⟨⟨hst.shape hs, ?_, ?_, ?_, ?_, ?_, fun n => ?_⟩, hst⟩
  · rw [hst.whole]
    refine ⟨⟨?_, ?_⟩, ⟨?_, ?_⟩, ⟨?_, ?_⟩, trivial⟩
    · exact hrd (.size, h.mmHeapstart, sizeofMmAllocnode) (by simp [regionWrites])
        (by dsimp only; decide)
    · refine (hrd (.preceding, h.mmHeapstart, mmAllocBit) (by simp [regionWrites])
        (by dsimp only; decide)).trans (Nat.zero_or _).symm
    · exact hrd (.size, h.firstChunk.addr, h.firstChunk.size) (by simp [regionWrites])
        (by dsimp only; omega)
    · refine (hrd (.preceding, h.firstChunk.addr, sizeofMmAllocnode) (by simp [regionWrites])
        (by dsimp only; decide)).trans (Nat.or_zero _).symm
    · exact hrd (.size, h.mmHeapend, sizeofMmAllocnode) (by simp [regionWrites])
        (by dsimp only; decide)
    · exact hrd (.preceding, h.mmHeapend, h.firstChunk.size ||| mmAllocBit) (by simp [regionWrites])
        (tag_lt (by omega) true)
  · intro i hi
    rw [hlist, hkeep _ i hi]
    exact hzero i hi
  · refine hlinked.congr (fun a ha => ?_) fun a ha => ?_
    · obtain ⟨n, hn, rfl⟩ := List.mem_map.1 ha
      obtain ⟨i, hi, rfl⟩ := List.mem_map.1 hn
      exact hkeep .flink i (List.mem_range.1 hi)
    · obtain ⟨n, hn, rfl⟩ := List.mem_map.1 (List.mem_of_mem_tail ha)
      obtain ⟨i, hi, rfl⟩ := List.mem_map.1 hn
      exact hkeep .blink i (List.mem_range.1 hi)
  · exact List.pairwise_map.2 (List.pairwise_lt_range.imp fun hlt => .inl hlt)
  · rw [List.map_map]
    exact List.nodup_range.map hinj
  · rw [hst.listed, Listed, List.mem_map]
    constructor
    · rintro ⟨i, hi, rfl⟩
      exact .inl ⟨i, List.mem_range.1 hi, rfl⟩
    · rintro (⟨i, hi, rfl⟩ | ⟨c, hc, -, hout, -⟩)
      · exact ⟨i, List.mem_range.2 hi, rfl⟩
      · cases List.mem_singleton.1 hc
        exact (hout (List.mem_singleton.2 rfl)).elim

/-- The lines of `mm_addregion` that write are the writes of a list, where the size of the node
reads back. -/
theorem region_writes (g : MmHeap) (z : UInt64) (first node last n : Nat)
    (hread : (wrs [(.size, first, sizeofMmAllocnode), (.preceding, first, mmAllocBit),
        (.size, node, n), (.preceding, node, sizeofMmAllocnode), (.size, last, sizeofMmAllocnode)]
      { g with mmHeapsize := z, mmHeapstart := first, mmHeapend := last }).rd .size node = n) :
    let heap : MmHeap := { g with mmHeapsize := z, mmHeapstart := first }
    let heap := (heap.wr .size first sizeofMmAllocnode).wr .preceding first mmAllocBit
    let heap := heap.wr .size node n
    let heap := { heap.wr .preceding node sizeofMmAllocnode with mmHeapend := last }
    let heap := heap.wr .size last sizeofMmAllocnode
    heap.wr .preceding last (heap.rd .size node ||| mmAllocBit) =
      wrs [(.size, first, sizeofMmAllocnode), (.preceding, first, mmAllocBit), (.size, node, n),
        (.preceding, node, sizeofMmAllocnode), (.size, last, sizeofMmAllocnode),
        (.preceding, last, n ||| mmAllocBit)]
      { g with mmHeapsize := z, mmHeapstart := first, mmHeapend := last } := by
  intro h₁ h₂ h₃ h₄ h₅
  have h5 : h₅ = wrs [(.size, first, sizeofMmAllocnode), (.preceding, first, mmAllocBit),
        (.size, node, n), (.preceding, node, sizeofMmAllocnode), (.size, last, sizeofMmAllocnode)]
      { g with mmHeapsize := z, mmHeapstart := first, mmHeapend := last } :=
    congrArg (fun h => h.wr .size last sizeofMmAllocnode) (wrs_end
      [(.size, first, sizeofMmAllocnode), (.preceding, first, mmAllocBit), (.size, node, n),
        (.preceding, node, sizeofMmAllocnode)] g z first last)
  rw [h5, hread]
  rfl

theorem mmInitialize_eq (hr : h.Region a n) : h.mmInitialize fuel a n =
    ((h.bounds a n).linkNodes.wrs (h.bounds a n).regionWrites).mmAddfreechunk fuel
      (h.bounds a n).firstChunk.addr := by
  obtain ⟨hup, hdown, hsize⟩ := hr.numbers
  have hroom := hr.room
  have hwrap := hr.wrap
  have hnode : (mmAlignUp a + .ofNat sizeofMmAllocnode).toNat = (h.bounds a n).firstChunk.addr := by
    rw [UInt64.toNat_add]
    exact Nat.mod_eq_of_lt (by show (mmAlignUp a).toNat + 4 < 2 ^ 64; omega)
  have hlast : (mmAlignDown (a + n) - .ofNat sizeofMmAllocnode).toNat =
    (h.bounds a n).mmHeapend := by
    rw [UInt64.toNat_sub_of_le]
    · rfl
    · rw [UInt64.le_iff_toNat_le]
      show 4 ≤ (mmAlignDown (a + n)).toNat
      omega
  have hrest : (mmAlignDown (a + n) - mmAlignUp a - .ofNat (2 * sizeofMmAllocnode)).toNat =
      (h.bounds a n).firstChunk.size := by
    rw [UInt64.toNat_sub_of_le]
    · rfl
    · rw [UInt64.le_iff_toNat_le]
      show 8 ≤ (mmAlignDown (a + n) - mmAlignUp a).toNat
      omega
  have hlinks := linkNodes_config h 0 h.mmHeapstart h.mmHeapend
  have hlinks' : (h.bounds a n).linkNodes = _ := linkNodes_config h _ _ _
  have hread : ((h.bounds a n).linkNodes.wrs ((h.bounds a n).regionWrites.take 5)).rd .size
      (h.bounds a n).firstChunk.addr = (h.bounds a n).firstChunk.size := by
    have hs := hr.shape
    have hlt := hs.size_lt (List.mem_singleton.2 rfl)
    obtain ⟨hst, -⟩ := linkNodes_spec hs
    refine ((hst.shape hs).rd_wrs (v := (h.bounds a n).firstChunk.size) (fun w hw =>
      hst.own (regionWrites_own
      (List.mem_of_mem_take hw))) ((regionWrites_pair hs).sublist (List.take_sublist 5 _)) ?_).trans
      (Nat.mod_eq_of_lt (by show _ < 2 ^ 16; omega))
    simp [regionWrites]
  rw [hlinks'] at hread
  rw [mmInitialize, hlinks, hlinks', mmAddregion]
  generalize h.linkNodes = g at hread ⊢
  dsimp only
  rw [hnode, hlast, hrest, UInt64.zero_add]
  exact congrArg (mmAddfreechunk fuel _) (region_writes g _ _ _ _ _ hread)

/-- `mm_initialize` makes a heap of one free chunk. -/
theorem mmInitialize_core (hr : h.Region a n) (hf : 0x1000 ≤ fuel) :
    ∃ h' ns, h.mmInitialize fuel a n = some h' ∧ h'.Core [(h.bounds a n).firstChunk] ns [] ∧
      Steps (h.bounds a n) h' [(h.bounds a n).firstChunk] := by
  obtain ⟨hc, hst⟩ := hr.shape.region
  rw [mmInitialize_eq hr]
  generalize (h.bounds a n).linkNodes.wrs (h.bounds a n).regionWrites = h₁ at hc hst ⊢
  obtain ⟨h', ns, hadd, hc', hst'⟩ := hc.insert (List.mem_singleton.2 rfl) rfl List.not_mem_nil
    (Nat.le_trans hc.length_le hf)
  exact ⟨h', ns, hadd, hc', hst.trans hst'⟩

end MmHeap
end D1Flash
