import D1Flash.Dma.Descriptors

namespace D1Flash
open LinkedHeap
set_option autoImplicit true

variable {s t : DmaSys}

/-- The address of the next item, in the item before it. -/
def lliPa : Ptr → BitVec 32
  | none => linkEnd
  | some a => vaToPa (some a)

/-- An item that is followed by the one at `next`. -/
def DmaLli.linkTo (l : DmaLli) (next : Ptr) : DmaLli := { l with pLln := lliPa next, vlln := next }

/-- The allocator gives each of these addresses in turn. -/
structure Fresh (h : Heap DmaLli) (as : List Addr) : Prop where
  nodup : as.Nodup
  free : ∀ a ∈ as, a ∉ h

theorem Fresh.malloc {h : Heap DmaLli} (hf : Fresh h (a :: as)) : malloc h (some a) = some a := by
  have hfree := hf.free a List.mem_cons_self
  rw [LinkedHeap.malloc, Option.filter_some, if_pos (decide_eq_true hfree)]

theorem Fresh.tail {h h' : Heap DmaLli} (hf : Fresh h (a :: as))
    (hh : ∀ b, b ∈ h' → b = a ∨ b ∈ h) : Fresh h' as := by
  obtain ⟨hn, hnd⟩ := List.nodup_cons.1 hf.nodup
  refine ⟨hnd, fun b hb hmem => ?_⟩
  rcases hh b hmem with rfl | hold
  · exact hn hb
  · exact hf.free b (List.mem_cons_of_mem a hb) hold

/-- The loop from an item `p` on that it already has: it links `p` and its new items one to the
next, and leaves all else. -/
theorem cyclicLoop_tail {as : List Addr} {l : DmaLli} (c : ChanId) (item : Nat → DmaLli) (i : Nat)
    (rest : List Addr)
    (hf : Fresh s.heap as) (hp : s.heap.lookup p = some (l.linkTo none)) :
    ∃ t, cyclicLoop c item as.length i (some p) (as ++ rest) s =
        some (true, (p :: as).getLast?, t) ∧
      t.chans = s.chans ∧ t.regs = s.regs ∧
      t.heap.lookup p = some (l.linkTo as[0]?) ∧
      (∀ j a, as[j]? = some a → t.heap.lookup a = some ((item (i + j)).linkTo as[j + 1]?)) ∧
      ∀ b, b ≠ p → b ∉ as → t.heap.lookup b = s.heap.lookup b := by
  induction as generalizing s i p l with
  | nil =>
    exact ⟨s, rfl, rfl, rfl, hp, fun j a ha => (nomatch ha), fun b _ _ => rfl⟩
  | cons a as ih =>
    have hpa : p ≠ a := by
      rintro rfl
      exact hf.free p List.mem_cons_self (mem_iff_lookup.2 ⟨_, hp⟩)
    let heap := (s.heap.insert p (l.linkTo (some a))).insert a ((item i).linkTo none)
    let s' : DmaSys := { s with heap }
    have hlink : s.lliList (some p) a (item i) c = some s' := by
      rw [DmaSys.lliList, hp]
      rfl
    have hf' : Fresh s'.heap as := by
      apply hf.tail
      intro b hb
      rw [AList.mem_insert, AList.mem_insert] at hb
      rcases hb with hb | rfl | hb
      · exact .inl hb
      · exact .inr (mem_iff_lookup.2 ⟨_, hp⟩)
      · exact .inr hb
    have hp' : s'.heap.lookup p = some (l.linkTo (some a)) :=
      (AList.lookup_insert_ne hpa).trans (AList.lookup_insert _)
    obtain ⟨t, ht, hch, hregs, ha, hitems, hrest⟩ := ih (i + 1) hf' (AList.lookup_insert _)
    obtain ⟨hn, -⟩ := List.nodup_cons.1 hf.nodup
    have hpas : p ∉ as := fun hmem =>
      hf.free p (List.mem_cons_of_mem a hmem) (mem_iff_lookup.2 ⟨_, hp⟩)
    refine ⟨t, ?_, hch, hregs, ?_, ?_, ?_⟩
    · rw [List.length_cons, cyclicLoop, List.cons_append, List.head?_cons, hf.malloc]
      dsimp only
      rw [hlink]
      exact ht
    · rw [hrest p hpa hpas, hp']
      rfl
    · intro j b hb
      cases j with
      | zero =>
        cases hb
        exact ha
      | succ j =>
        rw [hitems j b hb, Nat.add_assoc, Nat.add_comm 1 j]
        rfl
    · intro b hbp hb
      have hba : b ≠ a := fun he => hb (he ▸ List.mem_cons_self)
      rw [hrest b hba fun hmem => hb (List.mem_cons_of_mem a hmem)]
      exact (AList.lookup_insert_ne hba).trans (AList.lookup_insert_ne hbp)

/-- The whole loop: the channel's list is its new items, each linked to the next. -/
theorem cyclicLoop_head {as : List Addr} (c : ChanId) (item : Nat → DmaLli) (rest : List Addr)
    (hf : Fresh s.heap (a :: as)) :
    ∃ t, cyclicLoop c item (a :: as).length 0 none (a :: as ++ rest) s =
        some (true, (a :: as).getLast?, t) ∧
      t.chans = Function.update s.chans c { s.chans c with desc := some a } ∧ t.regs = s.regs ∧
      ∀ (j : Nat) b, (a :: as)[j]? = some b →
        t.heap.lookup b = some ((item j).linkTo (a :: as)[j + 1]?) := by
  let heap := s.heap.insert a ((item 0).linkTo none)
  let s' : DmaSys := { s with heap }.setChan c { s.chans c with desc := some a }
  have hf' : Fresh s'.heap as := by
    apply hf.tail
    intro b hb
    exact AList.mem_insert _ |>.1 hb
  obtain ⟨t, ht, hch, hregs, ha, hitems, -⟩ :=
    cyclicLoop_tail (s := s') c item 1 rest hf' (AList.lookup_insert s.heap)
  refine ⟨t, ?_, hch, hregs, ?_⟩
  · rw [List.length_cons, cyclicLoop, List.cons_append, List.head?_cons, hf.malloc]
    exact ht
  · intro j b hb
    cases j with
    | zero =>
      cases hb
      exact ha
    | succ j =>
      rw [hitems j b hb, Nat.add_comm 1 j]
      rfl

/-- The item `i` of a ring at the addresses `as`. -/
def ringLli (item : Nat → DmaLli) (as : List Addr) (i : Nat) : DmaLli :=
  { item i with pLln := vaToPa (as[i + 1]?.or as[0]?), vlln := as[i + 1]? }

def ringDescs (item : Nat → DmaLli) (as : List Addr) : List (Addr × DmaLli) :=
  as.mapIdx fun i a => (a, ringLli item as i)

theorem closeRing_ring {as : List Addr} (hnd : as.Nodup) (hne : as ≠ [])
    (hdesc : (s.chans c).desc = as[0]?)
    (hitems : ∀ (j : Nat) b, as[j]? = some b →
      s.heap.lookup b = some ((item j).linkTo as[j + 1]?)) :
    ∃ t, closeRing c as.getLast? s = some t ∧ t.chans = s.chans ∧ t.regs = s.regs ∧
      ∀ (j : Nat) b, as[j]? = some b → t.heap.lookup b = some (ringLli item as j) := by
  have hlen : 0 < as.length := List.length_pos_of_ne_nil hne
  have hlast : as.getLast? = as[as.length - 1]? := List.getLast?_eq_getElem?
  have hend : as[as.length - 1]? = some (as[as.length - 1]) := List.getElem?_eq_getElem (by omega)
  have hnone : as[as.length - 1 + 1]? = none := List.getElem?_eq_none (by omega)
  have hl := hitems _ _ hend
  rw [hlast, hend, closeRing, hl]
  refine ⟨_, rfl, rfl, rfl, fun j b hb => ?_⟩
  by_cases hj : j = as.length - 1
  · subst hj
    rw [hend] at hb
    cases hb
    rw [AList.lookup_insert, ringLli, hnone, hdesc]
    rfl
  · have hjlt : j < as.length := (List.getElem?_eq_some_iff.1 hb).1
    have hb' : b ≠ as[as.length - 1] := by
      rintro rfl
      exact hj ((List.getElem?_inj hjlt hnd).1 (hb.trans hend.symm))
    have hnext : as[j + 1]? = some as[j + 1] := List.getElem?_eq_getElem (by omega)
    rw [AList.lookup_insert_ne hb', hitems j b hb, ringLli, hnext]
    rfl

/-- What the call makes of a channel when every allocation succeeds. -/
theorem prepCyclic_ring {as : List Addr} (ho : s.Owns nodes) (hperiod : periodLen ≠ 0)
    (hbuf : bufAddr ≠ 0) (hlen : as.length = (bufLen / periodLen).toNat) (hne : as ≠ [])
    (hf : ∀ t, s.freeDescs c = some t → Fresh t.heap as) (dir : DmaTransferDirection)
    (rest : List Addr) :
    ∃ t, halDmaPrepCyclic (some c) bufAddr bufLen periodLen dir (as ++ rest) s =
        some (.status halDmaStatusOk, t) ∧
      t.chans = Function.update s.chans c { s.chans c with desc := as[0]?, cyclic := true } ∧
      t.regs = s.regs ∧
      t.descs c = some (ringDescs (cyclicItem (s.chans c).cfg bufAddr periodLen dir) as) := by
  obtain ⟨u, hu, -, hchu, hregsu, -⟩ := ho.freeDescs c
  have hfu := hf u hu
  have hcfg : (u.chans c).cfg = (s.chans c).cfg := by rw [hchu, Function.update_self]
  cases as with
  | nil => exact absurd rfl hne
  | cons a as =>
    obtain ⟨v, hv, hchv, hregsv, hitems⟩ :=
      cyclicLoop_head c (cyclicItem (u.chans c).cfg bufAddr periodLen dir) rest hfu
    have hdesc : (v.chans c).desc = (a :: as)[0]? := by
      rw [hchv, Function.update_self]
      rfl
    obtain ⟨w, hw, hchw, hregsw, hring⟩ := closeRing_ring hfu.nodup hne hdesc hitems
    have hchans : (w.setChan c { w.chans c with cyclic := true }).chans =
        Function.update s.chans c { s.chans c with desc := (a :: as)[0]?, cyclic := true } := by
      rw [DmaSys.setChan, hchw, hchv, hchu, Function.update_idem, Function.update_idem,
        Function.update_self, Function.update_self]
      rfl
    refine ⟨w.setChan c { w.chans c with cyclic := true }, ?_, hchans,
      hregsw.trans (hregsv.trans hregsu), ?_⟩
    · rw [halDmaPrepCyclic, if_neg hperiod]
      dsimp only
      rw [if_neg hbuf, hu]
      dsimp only
      rw [← hlen, hv]
      dsimp only
      rw [hw]
    · have hlink : ∀ (j : Nat) b, (a :: as)[j]? = some b →
          w.heap.lookup b =
              some (ringLli (cyclicItem (s.chans c).cfg bufAddr periodLen dir) (a :: as) j) ∧
            (ringLli (cyclicItem (s.chans c).cfg bufAddr periodLen dir) (a :: as) j).vlln =
              (a :: as)[j + 1]? := by
        intro j b hb
        rw [← hcfg]
        exact ⟨hring j b hb, rfl⟩
      rw [DmaSys.descs, hchans, Function.update_self]
      exact walk_indexed hlink (chain_indexed hlink).length_le

theorem lliList_mem (h : s.lliList prev a item c = some t) :
    a ∈ t.heap ∧ ∀ b ∈ s.heap, b ∈ t.heap := by
  cases prev with
  | none =>
    cases h
    exact ⟨AList.mem_insert _ |>.2 (.inl rfl), fun b hb => AList.mem_insert _ |>.2 (.inr hb)⟩
  | some p =>
    rw [DmaSys.lliList] at h
    cases hp : s.heap.lookup p with
    | none =>
      rw [hp] at h
      cases h
    | some l =>
      rw [hp] at h
      cases h
      refine ⟨AList.mem_insert _ |>.2 (.inl rfl), fun b hb => AList.mem_insert _ |>.2 (.inr ?_)⟩
      exact AList.mem_insert _ |>.2 (.inr hb)

theorem cyclicLoop_fresh (h : cyclicLoop c item turns i prev picks s = some (true, prev', t)) :
    turns ≤ picks.length ∧ Fresh s.heap (picks.take turns) := by
  induction turns generalizing i prev picks s with
  | zero => exact ⟨Nat.zero_le _, .nil, fun a ha => (nomatch ha)⟩
  | succ turns ih =>
    rw [cyclicLoop] at h
    cases hm : malloc s.heap picks.head? with
    | none =>
      rw [hm] at h
      cases h
    | some a =>
      rw [hm] at h
      dsimp only at h
      cases hl : s.lliList prev a (item i) c with
      | none =>
        rw [hl] at h
        cases h
      | some s' =>
        rw [hl] at h
        obtain ⟨hlen, hf⟩ := ih h
        obtain ⟨ha, hold⟩ := lliList_mem hl
        cases picks with
        | nil => cases hm
        | cons b picks =>
          have hab : b = a := Option.some.inj (Option.filter_eq_some_iff.1 hm).1
          subst hab
          refine ⟨Nat.succ_le_succ hlen, List.nodup_cons.2 ⟨fun hb => hf.free b hb ha, hf.nodup⟩,
            ?_⟩
          intro d hd
          cases List.mem_cons.1 hd with
          | inl he =>
            rw [he]
            exact malloc_fresh hm
          | inr hd => exact fun hmem => hf.free d hd (hold d hmem)

/-- The state a call leaves that returns OK. -/
structure RingAt (c : ChanId) (item : Nat → DmaLli) (as : List Addr) (s t : DmaSys) : Prop where
  nonempty : as ≠ []
  nodup : as.Nodup
  chans : t.chans = Function.update s.chans c { s.chans c with desc := as[0]?, cyclic := true }
  regs : t.regs = s.regs
  descs : t.descs c = some (ringDescs item as)

theorem prepCyclic_ok (ho : s.Owns nodes)
    (h : halDmaPrepCyclic (some c) bufAddr bufLen periodLen dir picks s = some (r, t))
    (hok : r.ret = halDmaStatusOk) :
    RingAt c (cyclicItem (s.chans c).cfg bufAddr periodLen dir)
        (picks.take (bufLen / periodLen).toNat) s t ∧
      (picks.take (bufLen / periodLen).toNat).length = (bufLen / periodLen).toNat ∧
      periodLen ≠ 0 := by
  have hcall := h
  rw [halDmaPrepCyclic] at h
  split at h
  · cases h
  · next hperiod =>
    dsimp only at h
    split at h
    · cases h
      cases hok
    · next hbuf =>
      split at h
      · cases h
      · next u hu =>
        split at h
        · cases h
        · cases h
          cases hok
        · next prev v hv =>
          obtain ⟨hle, hf⟩ := cyclicLoop_fresh hv
          have hlen := List.length_take_of_le hle
          have hne : picks.take (bufLen / periodLen).toNat ≠ [] := by
            intro hnil
            rw [hnil] at hlen
            rw [← hlen] at hv
            cases hv
            cases h
          have hf' : ∀ u', s.freeDescs c = some u' →
              Fresh u'.heap (picks.take (bufLen / periodLen).toNat) := by
            intro u' hu'
            cases hu.symm.trans hu'
            exact hf
          obtain ⟨w, hw, hch, hregs, hdescs⟩ := prepCyclic_ring ho hperiod hbuf hlen hne hf' dir
            (picks.drop (bufLen / periodLen).toNat)
          rw [List.take_append_drop] at hw
          cases hw.symm.trans hcall
          exact ⟨⟨hne, hf.nodup, hch, hregs, hdescs⟩, hlen, hperiod⟩

end D1Flash
