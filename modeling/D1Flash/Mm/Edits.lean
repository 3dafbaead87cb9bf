import D1Flash.Mm.Headers

namespace D1Flash
open Tiling (From total from_append)
set_option autoImplicit true

/-! Each change of the chunks, by the lines that make it. -/

namespace MmHeap

variable {h h' : MmHeap} {cs : List Chunk} {ns : List MmNode} {out : List Nat}

theorem Shape.of_mid (hs : h.Shape (l ++ (m ++ r)))
    (hf : ∀ a, From Chunk.addr Chunk.size a m → From Chunk.addr Chunk.size a m')
    (ht : total Chunk.size m' = total Chunk.size m)
    (hsz : ∀ d ∈ m', mmNodeBytes ≤ d.size ∧ d.size % 8 = 0) : h.Shape (l ++ (m' ++ r)) := by
  refine ⟨?_, ?_, hs.heapsize, hs.small, hs.aligned, hs.apart, hs.space, hs.pos⟩
  · obtain ⟨r', hwhole, hwhole'⟩ := h.whole_after l m r
    have hold := hs.tiles
    rw [hwhole, List.append_assoc] at hold
    rw [hwhole', List.append_assoc]
    exact hold.replace (hf _) ht
  · intro d hd
    rcases List.mem_append.1 hd with hd | hd
    · exact hs.sizes d (List.mem_append_left _ hd)
    · rcases List.mem_append.1 hd with hd | hd
      · exact hsz d hd
      · exact hs.sizes d (List.mem_append_right _ (List.mem_append_right _ hd))

theorem Shape.size_lt (hs : h.Shape cs) (hc : c ∈ cs) : c.size + 8 ≤ 0x10000 := by
  have hnum := hs.numbers
  have haddr := hs.addr_le hc
  omega

theorem Shape.lastSize_lt (hs : h.Shape (l ++ r)) : lastSize sizeofMmAllocnode l < 2 ^ 16 := by
  rw [lastSize]
  cases hl : l.getLast? with
  | none => decide
  | some c =>
    have hsize := hs.size_lt (List.mem_append_left r (List.mem_of_getLast? hl))
    show c.size < 2 ^ 16
    omega

theorem after_mem (h : MmHeap) (l m r : List Chunk) : h.after r ∈ h.whole (l ++ (m ++ r)) := by
  obtain ⟨r', hwhole, -⟩ := h.whole_after l m r
  rw [hwhole]
  simp

theorem Core.headed_mid (hc : h.Core (l ++ (m ++ r)) ns out) :
    h.Headed (lastSize sizeofMmAllocnode l) (m ++ [h.after r]) := by
  obtain ⟨r', hwhole, -⟩ := h.whole_after l m r
  have hold := hc.headed
  rw [hwhole, headed_append, headed_append, lastSize_cons] at hold
  exact hold.2.1

theorem Shape.mid_nodup (hs : h.Shape (l ++ (m ++ r))) :
    ((m ++ [h.after r]).map Chunk.addr).Nodup := by
  obtain ⟨r', hwhole, -⟩ := h.whole_after l m r
  have hnd := hs.nodup
  rw [hwhole, List.map_append, List.map_append] at hnd
  exact (List.nodup_append.1 (List.nodup_append.1 hnd).2.1).1

theorem Core.retag (hc : h.Core (l ++ c :: r) ns out)
    (hout : ∀ a, a ∈ out ↔ a = c.addr ∧ c.alloc = false) (alloc : Bool) :
    (h.wr .preceding c.addr (tag (lastSize sizeofMmAllocnode l) alloc)).Core
        (l ++ { c with alloc := alloc } :: r) ns (if alloc then [] else [c.addr]) ∧
      Steps h (h.wr .preceding c.addr (tag (lastSize sizeofMmAllocnode l) alloc))
        (l ++ { c with alloc := alloc } :: r) := by
  have hcm : c ∈ l ++ c :: r := List.mem_append_right _ List.mem_cons_self
  have hc' : h.Core (l ++ ([c] ++ r)) ns out := hc
  have hlast := tag_lt hc.shape.lastSize_lt alloc
  generalize hd : ({ c with alloc := alloc } : Chunk) = d
  have haddr : d.addr = c.addr := by rw [← hd]
  have hdsize : d.size = c.size := by rw [← hd]
  have hs : h.Shape (l ++ ([d] ++ r)) := hc'.shape.of_mid
    (fun a hf => ⟨haddr.trans hf.1, by rw [hdsize]; exact hf.2⟩)
    (by rw [Tiling.total_cons, Tiling.total_cons, hdsize])
    (List.forall_mem_singleton.2 (by rw [hdsize]; exact hc.shape.sizes c hcm))
  change (h.wrs [(.preceding, c.addr, tag (lastSize sizeofMmAllocnode l) alloc)]).Core
    (l ++ ([d] ++ r)) ns _ ∧ Steps h (h.wrs [(.preceding, c.addr, _)]) (l ++ ([d] ++ r))
  refine hc'.rehead hs ?_ ?_ ?_ ?_ ?_ ?_
  · exact List.forall_mem_singleton.2 ⟨.inr rfl, d, by simp, haddr.symm⟩
  · rintro hown ⟨⟨hsize, -⟩, ⟨hasize, haprec⟩, -⟩
    have hdw : d ∈ h.whole (l ++ ([d] ++ r)) := mem_whole.2 (.inr (.inl (by simp)))
    have haw := h.after_mem l [d] r
    have hne : (h.after r).addr ≠ c.addr := by
      have hnd := hs.mid_nodup
      rw [← haddr]
      exact fun he => (List.nodup_cons.1 hnd).1 (List.mem_cons.2 (.inl he.symm))
    refine ⟨⟨?_, ?_⟩, ⟨?_, ?_⟩, trivial⟩
    · rw [hs.rd_wrs_of_ne hown (slot_head hdw (.inl rfl)) (by simp), haddr, hdsize]
      exact hsize
    · rw [haddr, hs.rd_wrs hown (List.pairwise_singleton _ _) (List.mem_singleton.2 rfl), ← hd]
      exact Nat.mod_eq_of_lt hlast
    · rw [hs.rd_wrs_of_ne hown (slot_head haw (.inl rfl)) (by simp)]
      exact hasize
    · rw [hs.rd_wrs_of_ne hown (slot_head haw (.inr rfl)) (by simpa using hne), hdsize]
      exact haprec
  · rw [List.forall_mem_singleton, hout]
    cases hca : c.alloc with
    | false => exact .inr ⟨rfl, rfl⟩
    | true => exact .inl rfl
  · exact fun a ha => ⟨c, List.mem_singleton.2 rfl, ((hout a).1 ha).1.symm⟩
  · rw [List.forall_mem_singleton, haddr, ← hd]
    cases alloc with
    | false => exact .inr (List.mem_singleton.2 rfl)
    | true => exact .inl rfl
  · cases alloc with
    | false =>
      exact fun a ha => ⟨d, List.mem_singleton.2 rfl, haddr.trans (List.mem_singleton.1 ha).symm⟩
    | true => exact fun a ha => (List.not_mem_nil ha).elim

theorem Shape.merge (hs : h.Shape (l ++ ([c, d] ++ r))) :
    h.Shape (l ++ ([⟨c.addr, c.size + d.size, false⟩] ++ r)) := by
  have hcs := hs.sizes c (by simp)
  have hds := hs.sizes d (by simp)
  refine hs.of_mid (fun a hf => ⟨hf.1, trivial⟩) ?_ (List.forall_mem_singleton.2 ?_)
  · rw [Tiling.total_cons, Tiling.total_cons, Tiling.total_cons, Nat.add_assoc]
  · dsimp only
    omega

theorem mergeNode_eq (hc : h.Core (l ++ ([c, d] ++ r)) ns out)
    (hfit : d.size < mmAllocBit ∨ (h.after r).alloc = true) :
    h.mergeNode c.addr d.addr (h.after r).addr = h.wrs [(.size, c.addr, c.size + d.size),
      (.preceding, (h.after r).addr, tag (c.size + d.size) (h.after r).alloc)] := by
  obtain ⟨⟨hcs, -⟩, ⟨hds, -⟩, ⟨-, hbp⟩, -⟩ := hc.headed_mid
  have hcm : c ∈ l ++ ([c, d] ++ r) := by simp
  have hb := slot_head (h.after_mem l [c, d] r) (.inr rfl)
  have hsum : (c.size + d.size) % 256 ^ MmField.size.width = c.size + d.size := by
    have hlt := hc.shape.merge.size_lt (List.mem_append_right l List.mem_cons_self)
    exact Nat.mod_eq_of_lt (by show _ < 0x10000; dsimp only at hlt; omega)
  have hself : (h.wr .size c.addr (c.size + d.size)).rd .size c.addr = c.size + d.size := by
    rw [hc.shape.rd_wr (slot_chunk hcm _) (slot_chunk hcm _), if_pos ⟨rfl, rfl⟩, hsum]
  have hbeyond : (h.wr .size c.addr (c.size + d.size)).rd .preceding (h.after r).addr =
      tag d.size (h.after r).alloc := by
    rw [hc.shape.rd_wr (slot_chunk hcm _) hb, if_neg (fun he => by cases he.1), hbp]
  rw [mergeNode, hcs, hds, hself, hbeyond, tag_retag hfit]
  rfl

theorem Core.merge (hc : h.Core (l ++ ([c, d] ++ r)) ns out)
    (hout : ∀ a, a ∈ out ↔ a = c.addr ∨ a = d.addr) (hfree : c.alloc = false)
    (hfit : d.size < mmAllocBit ∨ (h.after r).alloc = true) :
    (h.mergeNode c.addr d.addr (h.after r).addr).Core
        (l ++ ([⟨c.addr, c.size + d.size, false⟩] ++ r)) ns [c.addr] ∧
      Steps h (h.mergeNode c.addr d.addr (h.after r).addr)
        (l ++ ([⟨c.addr, c.size + d.size, false⟩] ++ r)) := by
  have hs := hc.shape.merge
  have hcm : c ∈ l ++ ([c, d] ++ r) := by simp
  have hlt := hs.size_lt (List.mem_append_right l List.mem_cons_self)
  dsimp only at hlt
  have haw := h.after_mem l [⟨c.addr, c.size + d.size, false⟩] r
  have hne : (h.after r).addr ≠ c.addr := fun he =>
    (List.nodup_cons.1 hs.mid_nodup).1 (List.mem_cons.2 (.inl he.symm))
  rw [mergeNode_eq hc hfit]
  refine hc.rehead hs ?_ ?_ ?_ ?_ ?_ ?_
  · intro w hw
    rcases List.mem_cons.1 hw with rfl | hw
    · exact ⟨.inl rfl, ⟨c.addr, _, _⟩, List.mem_cons_self, rfl⟩
    · cases List.mem_singleton.1 hw
      exact ⟨.inr rfl, _, List.mem_cons_of_mem _ List.mem_cons_self, rfl⟩
  · rintro hown ⟨⟨-, hcp⟩, -, ⟨hbs, -⟩, -⟩
    have hmw : (⟨c.addr, c.size + d.size, false⟩ : Chunk) ∈
        h.whole (l ++ ([⟨c.addr, c.size + d.size, false⟩] ++ r)) :=
        mem_whole.2 (.inr (.inl (by simp)))
    have hd : List.Pairwise (fun w w' : MmField × Nat × Nat => ¬ (w.1 = w'.1 ∧ w.2.1 = w'.2.1))
        [(.size, c.addr, c.size + d.size),
          (.preceding, (h.after r).addr, tag (c.size + d.size) (h.after r).alloc)] := by simp
    refine ⟨⟨?_, ?_⟩, ⟨?_, ?_⟩, trivial⟩
    · rw [hs.rd_wrs hown hd List.mem_cons_self]
      exact Nat.mod_eq_of_lt (by show _ < 0x10000; omega)
    · rw [hs.rd_wrs_of_ne hown (slot_head hmw (.inr rfl)) (by simpa using hne.symm)]
      exact hfree ▸ hcp
    · rw [hs.rd_wrs_of_ne hown (slot_head haw (.inl rfl)) (by simpa using hne)]
      exact hbs
    · rw [hs.rd_wrs hown hd (List.mem_cons_of_mem _ List.mem_cons_self)]
      exact Nat.mod_eq_of_lt (tag_lt (by omega) _)
  · intro x hx
    rw [hout]
    rcases List.mem_cons.1 hx with rfl | hx
    · exact .inr (.inl rfl)
    · cases List.mem_singleton.1 hx
      exact .inr (.inr rfl)
  · intro a ha
    rcases (hout a).1 ha with rfl | rfl
    · exact ⟨c, List.mem_cons_self, rfl⟩
    · exact ⟨d, List.mem_cons_of_mem _ List.mem_cons_self, rfl⟩
  · exact List.forall_mem_singleton.2 (.inr List.mem_cons_self)
  · exact fun a ha => ⟨_, List.mem_cons_self, (List.mem_singleton.1 ha).symm⟩

theorem Shape.mid_from (hs : h.Shape (l ++ (m ++ r))) :
    ∃ a, From Chunk.addr Chunk.size a (m ++ [h.after r]) := by
  obtain ⟨r', hwhole, -⟩ := h.whole_after l m r
  have htiles := hs.tiles
  rw [hwhole] at htiles
  exact ⟨_, (from_append.1 (from_append.1 htiles).2).1⟩

theorem Shape.after_addr (hs : h.Shape (l ++ ([c] ++ r))) : (h.after r).addr = c.addr + c.size := by
  obtain ⟨a, hca, hra, -⟩ := hs.mid_from
  rw [hra, hca]

/-- The two chunks that a chunk is cut into. -/
def cut (c : Chunk) (size : Nat) : List Chunk :=
  [⟨c.addr, size, false⟩, ⟨c.addr + size, c.size - size, false⟩]

theorem Shape.split (hs : h.Shape (l ++ ([c] ++ r))) (hmin : mmNodeBytes ≤ size)
    (hmod : size % 8 = 0) (hrest : size + mmNodeBytes ≤ c.size) :
    h.Shape (l ++ (cut c size ++ r)) := by
  have hcs := hs.sizes c (by simp)
  refine hs.of_mid (fun a hf => ⟨hf.1, ?_, trivial⟩) ?_ ?_
  · show c.addr + size = a + size
    rw [hf.1]
  · show size + (c.size - size + 0) = c.size + 0
    omega
  · intro d hd
    rcases List.mem_cons.1 hd with rfl | hd
    · exact ⟨hmin, hmod⟩
    · cases List.mem_singleton.1 hd
      show mmNodeBytes ≤ c.size - size ∧ (c.size - size) % 8 = 0
      omega

/-- The members that `splitNode` writes. -/
def splitWrites (c b : Chunk) (size : Nat) : List (MmField × Nat × Nat) :=
  [(.size, c.addr + size, c.size - size), (.preceding, c.addr + size, size), (.size, c.addr, size),
    (.preceding, b.addr, tag (c.size - size) b.alloc)]

theorem splitWrites_mid (h : MmHeap) (c : Chunk) (r : List Chunk) (size : Nat) :
    ∀ w ∈ splitWrites c (h.after r) size, (w.1 = .size ∨ w.1 = .preceding) ∧
      ∃ d ∈ cut c size ++ [h.after r], w.2.1 = d.addr := by
  intro w hw
  simp only [splitWrites, List.mem_cons, List.not_mem_nil, or_false] at hw
  rcases hw with rfl | rfl | rfl | rfl
  · exact ⟨.inl rfl, ⟨c.addr + size, _, _⟩, List.mem_cons_of_mem _ List.mem_cons_self, rfl⟩
  · exact ⟨.inr rfl, ⟨c.addr + size, _, _⟩, List.mem_cons_of_mem _ List.mem_cons_self, rfl⟩
  · exact ⟨.inl rfl, ⟨c.addr, _, _⟩, List.mem_cons_self, rfl⟩
  · exact ⟨.inr rfl, h.after r, by simp, rfl⟩

theorem splitNode_eq (hc : h.Core (l ++ ([c] ++ r)) ns out) (hs : h.Shape (l ++ (cut c size ++ r)))
    (hpos : size < c.size) (hfit : c.size < mmAllocBit ∨ (h.after r).alloc = true) :
    h.splitNode c.addr size = h.wrs (splitWrites c (h.after r) size) := by
  obtain ⟨⟨hcs, -⟩, ⟨-, hbp⟩, -⟩ := hc.headed_mid
  have hown : ∀ w ∈ (splitWrites c (h.after r) size).take 3,
    h.Own (l ++ (cut c size ++ r)) w.1 w.2.1 :=
    fun w hw => own_mid (splitWrites_mid h c r size) w (List.mem_of_mem_take hw)
  have haddr := hc.shape.after_addr
  have hb := slot_head (h.after_mem l (cut c size) r) (.inr rfl)
  have hkeep := hs.rd_wrs_of_ne hown hb (by
    intro w hw
    simp only [splitWrites, List.take_succ_cons, List.take_zero, List.mem_cons, List.not_mem_nil,
      or_false] at hw
    rcases hw with rfl | rfl | rfl
    · exact fun he => by cases he.1
    · exact fun he => by have := he.2; dsimp only at this; omega
    · exact fun he => by cases he.1)
  rw [hbp, haddr] at hkeep
  have hread : ((((h.wr .size (c.addr + size) (c.size - size)).wr .preceding (c.addr + size)
      size).wr .size c.addr size)).rd .preceding (c.addr + c.size) = tag c.size (h.after r).alloc :=
    hkeep
  rw [splitNode, hcs, hread, tag_retag hfit, splitWrites, haddr]
  rfl

theorem Core.split (hc : h.Core (l ++ ([c] ++ r)) ns [c.addr]) (hfree : c.alloc = false)
    (hmin : mmNodeBytes ≤ size) (hmod : size % 8 = 0) (hrest : size + mmNodeBytes ≤ c.size)
    (hfit : c.size < mmAllocBit ∨ (h.after r).alloc = true) :
    (h.splitNode c.addr size).Core (l ++ (cut c size ++ r)) ns [c.addr + size, c.addr] ∧
      Steps h (h.splitNode c.addr size) (l ++ (cut c size ++ r)) := by
  have hs := hc.shape.split hmin hmod hrest
  have hmin' : 24 ≤ size := hmin
  have hrest' : size + 24 ≤ c.size := hrest
  have hlt := hc.shape.size_lt (List.mem_append_right l List.mem_cons_self)
  have haddr := hc.shape.after_addr
  rw [splitNode_eq hc hs (by omega) hfit]
  have hd : (splitWrites c (h.after r) size).Pairwise
      fun w w' => ¬ (w.1 = w'.1 ∧ w.2.1 = w'.2.1) := by
    simp [splitWrites, haddr]
    omega
  refine hc.rehead hs (splitWrites_mid h c r size) ?_ ?_ ?_ ?_ ?_
  · rintro hown ⟨⟨-, hcp⟩, ⟨hbs, -⟩, -⟩
    have hmem : ∀ d ∈ cut c size, d ∈ h.whole (l ++ (cut c size ++ r)) := fun d hd =>
      mem_whole.2 (.inr (.inl (List.mem_append_right _ (List.mem_append_left _ hd))))
    have hfst := hmem ⟨c.addr, size, false⟩ List.mem_cons_self
    have hsnd := hmem ⟨c.addr + size, c.size - size, false⟩ (by simp [cut])
    have hb := h.after_mem l (cut c size) r
    have hmod : ∀ v, v < 2 ^ 16 → v % 256 ^ 2 = v := fun v hv => Nat.mod_eq_of_lt hv
    refine ⟨⟨?_, ?_⟩, ⟨?_, ?_⟩, ⟨?_, ?_⟩, trivial⟩
    · rw [hs.rd_wrs hown hd (b := c.addr) (v := size) (by simp [splitWrites])]
      exact hmod _ (by omega)
    · rw [hs.rd_wrs_of_ne hown (slot_head hfst (.inr rfl))]
      · exact hfree ▸ hcp
      · simp [splitWrites, haddr]
        omega
    · rw [hs.rd_wrs hown hd (b := c.addr + size) (v := c.size - size) (by simp [splitWrites])]
      exact hmod _ (by omega)
    · rw [hs.rd_wrs hown hd (b := c.addr + size) (v := size) (by simp [splitWrites])]
      exact (hmod _ (by omega)).trans (Nat.or_zero size).symm
    · rw [hs.rd_wrs_of_ne hown (slot_head hb (.inl rfl))]
      · exact hbs
      · simp [splitWrites, haddr]
        omega
    · rw [hs.rd_wrs hown hd (v := tag (c.size - size) (h.after r).alloc) (by simp [splitWrites])]
      exact hmod _ (tag_lt (by omega) _)
  · exact List.forall_mem_singleton.2 (.inr (List.mem_singleton.2 rfl))
  · exact fun a ha => ⟨c, List.mem_cons_self, (List.mem_singleton.1 ha).symm⟩
  · simp [cut]
  · simp [cut]

end MmHeap
end D1Flash
