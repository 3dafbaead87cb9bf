import D1Flash.Mm.FreeLists

namespace D1Flash
open Links (Linked linked_append)
set_option autoImplicit true

/-! A free chunk leaves its list, or is put in one. -/

namespace MmHeap

variable {h h' : MmHeap} {cs : List Chunk} {ns : List MmNode} {out : List Nat}

theorem Core.before (hc : h.Core cs ns out) (hmem : c ∈ cs) (hns : c.node ∈ ns) :
    ∃ l x r, ns = l ++ x :: c.node :: r := by
  obtain ⟨l, r, rfl⟩ := List.append_of_mem hns
  rcases List.eq_nil_or_concat l with rfl | ⟨l, x, rfl⟩
  · -- the head of its list would come after it
    rcases List.mem_cons.1 (hc.head_mem (mmSize2ndx_lt c.size)) with he | he
    · have haddr : h.nodeAt _ = c.addr := congrArg MmNode.addr he
      exact (hc.shape.addr_ne_head hmem (mmSize2ndx_lt c.size) haddr.symm).elim
    · have hsize := (hc.shape.addr_le hmem).2.2
      rcases (List.pairwise_cons.1 hc.sorted).1 _ he with hlt | ⟨-, hle⟩
      · exact (Nat.lt_irrefl _ hlt).elim
      · have hle' : c.size ≤ 0 := hle
        omega
  · exact ⟨l, x, r, by rw [List.concat_eq_append, List.append_assoc]; rfl⟩

theorem linked_middle {next prev : Nat → Nat} (hl : Linked next prev 0 (l ++ x :: y :: r)) :
    next y = r.headD 0 ∧ prev y = x := by
  obtain ⟨-, -, -, hxy, hy, -, -⟩ := linked_append.1 hl
  exact ⟨hy, hxy y rfl⟩

/-- `removeNode` writes the links of the neighbours. -/
theorem removeNode_eq (hs : h.Shape cs) (hx : h.Slot cs .flink x) (hy : ∀ f, h.Slot cs f y)
    (hxy : x ≠ y) (hprev : h.rd .blink y = x) (hnext : h.rd .flink y = z) :
    h.removeNode y = if z ≠ 0 then (h.wr .flink x z).wr .blink z x else h.wr .flink x z := by
  have hf : (h.wr .flink x z).rd .flink y = z := by
    rw [hs.rd_wr hx (hy _), if_neg fun h => hxy h.2.symm, hnext]
  have hb : (h.wr .flink x z).rd .blink y = x := by
    rw [hs.rd_wr hx (hy _), if_neg (fun h => by cases h.1), hprev]
  rw [removeNode, hprev, hnext, hf, hb]

theorem links_rd (hs : h.Shape cs) (hx : h.Slot cs .flink x) (hz : z ≠ 0 → h.Slot cs .blink z)
    (hxv : v < 256 ^ 8) (hzv : z < 256 ^ 8) (hg : h.Slot cs g b) :
    (if z ≠ 0 then (h.wr .flink x z).wr .blink z v else h.wr .flink x z).rd g b =
      if z ≠ 0 ∧ g = .blink ∧ b = z then v else if g = .flink ∧ b = x then z else h.rd g b := by
  by_cases h0 : z = 0
  · rw [if_neg (not_not.2 h0), if_neg fun h => h.1 h0, hs.rd_wr hx hg]
    exact if_congr Iff.rfl (Nat.mod_eq_of_lt hzv) rfl
  · rw [if_pos h0, hs.rd_wr₂ hx (hz h0) hg]
    refine if_congr ?_ (Nat.mod_eq_of_lt hxv) (if_congr Iff.rfl (Nat.mod_eq_of_lt hzv) rfl)
    exact (and_iff_right h0).symm

theorem links_steps (hs : h.Shape cs) (hx : h.Own cs .flink x) (hz : z ≠ 0 → h.Own cs .blink z) :
    Steps h (if z ≠ 0 then (h.wr .flink x z).wr .blink z v else h.wr .flink x z) cs := by
  have hone := hx.steps hs z
  split
  · rename_i h0
    exact hone.trans ((hone.own (hz h0)).steps (hone.shape hs) v)
  · exact hone

/-- The first node of a part of the lists, as a link. -/
theorem Core.link (hc : h.Core cs ns out) {r : List MmNode} (hr : ∀ n ∈ r, n ∈ ns) :
    ∃ z, z = (r.map MmNode.addr).headD 0 ∧ z < 256 ^ 8 ∧ (z ≠ 0 → h.Own cs .blink z) ∧
      ∀ a, a ∈ (r.map MmNode.addr).head? ↔ z ≠ 0 ∧ a = z := by
  cases r with
  | nil =>
    refine ⟨0, rfl, by decide, fun h0 => (h0 rfl).elim, fun a => ?_⟩
    rw [List.map_nil, List.head?_nil]
    exact ⟨fun ha => (Option.not_mem_none a ha).elim, fun h0 => (h0.1 rfl).elim⟩
  | cons n r =>
    have hn := hr n List.mem_cons_self
    obtain ⟨hlt, hne⟩ := hc.addr_lt hn
    refine ⟨n.addr, rfl, hlt, fun _ => hc.own hn _, fun a => ?_⟩
    rw [List.map_cons, List.head?_cons, Option.mem_some_iff, eq_comm]
    exact (and_iff_right hne).symm

theorem listed_cons (hs : h.Shape cs) (hmem : c ∈ cs) :
    h.Listed cs (c.addr :: out) n ↔ h.Listed cs out n ∧ n ≠ c.node := by
  have hw : ∀ d ∈ cs, d ∈ h.whole cs := fun d hd => mem_whole.2 (.inr (.inl hd))
  constructor
  · rintro (⟨i, hi, rfl⟩ | ⟨d, hd, hdf, hdo, rfl⟩)
    · exact ⟨.inl ⟨i, hi, rfl⟩, fun he =>
        hs.addr_ne_head hmem hi (congrArg MmNode.addr he).symm⟩
    · obtain ⟨hne, hdo⟩ := not_or.1 (mt List.mem_cons.2 hdo)
      exact ⟨.inr ⟨d, hd, hdf, hdo, rfl⟩, fun he => hne (congrArg MmNode.addr he)⟩
  · rintro ⟨⟨i, hi, rfl⟩ | ⟨d, hd, hdf, hdo, rfl⟩, hne⟩
    · exact .inl ⟨i, hi, rfl⟩
    · refine .inr ⟨d, hd, hdf, mt List.mem_cons.1 (not_or.2 ⟨fun he => hne ?_, hdo⟩), rfl⟩
      rw [hs.addr_inj (hw d hd) (hw c hmem) he]

/-- A free chunk is taken from its list. -/
theorem Core.unlink (hc : h.Core cs ns out) (hmem : c ∈ cs) (hfree : c.alloc = false)
    (hout : c.addr ∉ out) :
    ∃ ns', (h.removeNode c.addr).Core cs ns' (c.addr :: out) ∧
    Steps h (h.removeNode c.addr) cs := by
  obtain ⟨l, x, r, rfl⟩ := hc.before hmem ((hc.mem _).2 (.inr ⟨c, hmem, hfree, hout, rfl⟩))
  have hl := hc.linked
  have hsub : (l ++ x :: r).Sublist (l ++ x :: c.node :: r) :=
    .append (.refl l) (.cons_cons x (.cons c.node (.refl r)))
  have hnd := hc.nodup.sublist (hsub.map _)
  have hnot : c.node ∉ l ++ x :: r := by
    have hnd' := hc.nodup.of_map
    rw [List.append_cons] at hnd' ⊢
    exact (List.nodup_middle.1 hnd').notMem
  have hslot : ∀ a ∈ (l ++ x :: r).map MmNode.addr, ∀ f, h.Slot cs f a := by
    intro a ha f
    obtain ⟨n, hn, rfl⟩ := List.mem_map.1 ha
    exact (hc.own (hsub.subset hn) f).slot
  rw [List.map_append, List.map_cons] at hl hnd hslot
  rw [List.map_cons] at hl
  obtain ⟨hnext, hprev⟩ := linked_middle hl
  have hxn : x ∈ l ++ x :: r := List.mem_append_right _ List.mem_cons_self
  have hxs := hc.own (hsub.subset hxn) .flink
  have hxy : x.addr ≠ c.addr := by
    intro he
    have hcn : c.node ∈ l ++ x :: c.node :: r := by simp
    exact hnot (hc.addr_inj (hsub.subset hxn) hcn he ▸ hxn)
  have hrn : ∀ n ∈ r, n ∈ l ++ x :: c.node :: r := fun n hn =>
    hsub.subset (List.mem_append_right _ (List.mem_cons_of_mem _ hn))
  obtain ⟨z, hzr, hz, hzo, hzh⟩ := hc.link hrn
  have hst := links_steps (v := x.addr) hc.shape hxs hzo
  have hrd : ∀ g b, h.Slot cs g b → _ := fun g b hg =>
    links_rd hc.shape hxs.slot (fun h0 => (hzo h0).slot) (hc.addr_lt (hsub.subset hxn)).1 hz hg
  rw [← hzr] at hnext
  rw [removeNode_eq hc.shape hxs.slot (slot_chunk hmem) hxy hprev hnext]
  refine ⟨l ++ x :: r, hc.relink hst ?_ ?_ ?_ ?_ ?_, hst⟩
  · intro g b hg hhead
    rw [hrd g b hg, if_neg, if_neg]
    · rintro ⟨rfl, -⟩
      rcases hhead with he | he <;> cases he
    · rintro ⟨-, rfl, -⟩
      rcases hhead with he | he <;> cases he
  · rw [List.map_append, List.map_cons]
    refine hl.unlink hnd ?_ ?_ ?_ ?_
    · rw [hrd _ _ hxs.slot, if_neg (fun h => by cases h.2.1), if_pos ⟨rfl, rfl⟩]
      exact hzr
    · intro a ha
      have hin := hslot a (List.mem_append_right _
        (List.mem_cons_of_mem _ (List.mem_of_mem_head? ha))) .blink
      obtain ⟨h0, hza⟩ := (hzh a).1 ha
      rw [hrd _ _ hin, if_pos ⟨h0, rfl, hza⟩]
    · intro a ha hax
      have hin := hslot a (by grind) .flink
      rw [hrd _ _ hin, if_neg (fun h => by cases h.2.1), if_neg fun h => hax h.2]
    · intro a ha har
      have hin : h.Slot cs .blink a := by
        rw [List.append_assoc] at ha
        refine hslot a ?_ .blink
        rcases List.mem_append.1 ha with ha | ha
        · exact List.mem_append_left _ ha
        · refine List.mem_append_right _ ?_
          rcases List.mem_cons.1 ha with rfl | ha
          · exact List.mem_cons_self
          · exact List.mem_cons_of_mem _ (List.mem_of_mem_tail ha)
      rw [hrd _ _ hin, if_neg fun h => har ((hzh a).2 ⟨h.1, h.2.2⟩), if_neg (fun h => by cases h.1)]
  · exact hc.sorted.sublist hsub
  · rw [List.map_append, List.map_cons]
    exact hnd
  · intro n
    rw [listed_cons hc.shape hmem, ← hc.mem]
    constructor
    · exact fun hn => ⟨hsub.subset hn, fun he => hnot (he ▸ hn)⟩
    · rintro ⟨hn, hne⟩
      grind

end MmHeap
end D1Flash
