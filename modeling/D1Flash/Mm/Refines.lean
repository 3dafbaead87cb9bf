import D1Flash.Mm.Users

namespace D1Flash
open BlockHeap (Apart Mallocs Frees)
open Runs (run Along)
open Tiling (From from_append)
set_option autoImplicit true

/-! Calls of the allocator are steps of a heap of blocks. -/

namespace MmHeap

variable {h h' : MmHeap} {cs : List Chunk} {ns : List MmNode} {out : List Nat}

theorem addr_mod (hbs : From Chunk.addr Chunk.size a bs) (hmod : ∀ b ∈ bs, b.size % 8 = 0)
    (hc : c ∈ bs) : c.addr % 8 = a % 8 := by
  induction bs generalizing a with
  | nil => cases hc
  | cons b bs ih =>
    obtain ⟨hb, hbs⟩ := hbs
    rcases List.mem_cons.1 hc with rfl | hc
    · rw [hb]
    · have hsize := hmod b List.mem_cons_self
      rw [ih hbs (fun d hd => hmod d (List.mem_cons_of_mem b hd)) hc]
      omega

theorem Shape.addr_mod (hs : h.Shape cs) (hc : c ∈ cs) : c.addr % 8 = 4 := by
  have halign : h.mmHeapstart % 16 = 0 := hs.aligned
  have hmod := MmHeap.addr_mod (from_append.1 hs.tiles.2).1 (fun d hd => (hs.sizes d hd).2) hc
  rw [hmod]
  show (h.mmHeapstart + 4) % 8 = 4
  omega

theorem Shape.addr_ne (hs : h.Shape (l ++ c :: r)) (hd : d ∈ l ++ r) : d.addr ≠ c.addr := by
  have hnd := hs.nodup
  rw [whole, List.map_cons, List.map_append] at hnd
  have hmid := (List.nodup_append.1 (List.nodup_cons.1 hnd).2).1
  rw [List.map_append, List.map_cons, List.nodup_middle, List.nodup_cons, ← List.map_append] at hmid
  exact fun he => hmid.1 (he ▸ List.mem_map_of_mem hd)

theorem Shape.retag (hs : h.Shape (l ++ ([c] ++ r))) (alloc : Bool) :
    h.Shape (l ++ ([{ c with alloc := alloc }] ++ r)) := by
  refine hs.of_mid (fun a hf => ⟨hf.1, trivial⟩) rfl ?_
  exact List.forall_mem_singleton.2 (hs.sizes c (by simp))

end MmHeap

namespace MmUse

variable {s : MmUse} {cs cs' l r : List Chunk} {h' : MmHeap} {ns' : List MmNode}

/-- The call or the write is one of a heap of blocks. A request is refused exactly where its chunk
is larger than the largest free one that `mm_mallinfo` tells of. -/
def Refines (fuel : Nat) (s : MmUse) (op : MmOp) : Prop :=
  ∃ H H', s.View H ∧ (s.step fuel op).2.View H' ∧
    match op with
    | .malloc size => ∃ p info, (s.step fuel op).1 = some p ∧ Mallocs size.toNat H (p, H') ∧
        p % 8 = 0 ∧ (p ≠ 0 → s.heap.mmHeapstart ≤ p ∧ p + size.toNat ≤ s.heap.mmHeapend) ∧
        s.heap.mmMallinfo fuel = some info ∧ (p ≠ 0 ↔ chunkBytes size ≤ info.mxordblk)
    | .free mem => (s.step fuel op).1 = some 0 ∧ Frees mem H H'
    | .write a v => H' = H.write a [v]

theorem mem_beside {l r : List Chunk} : d ∈ l ++ c :: r ↔ d = c ∨ d ∈ l ++ r := by
  rw [List.mem_append, List.mem_append, List.mem_cons]
  exact or_left_comm

/-- What users have of their blocks is not the allocator's. -/
theorem Inv.keeps (hi : s.Inv cs) (hs : s.heap.Shape ds) (hsub : ∀ c ∈ cs, c.alloc = true →
    b.1 = c.addr + 4 → c ∈ ds) {m : Nat → UInt8} (hm :
    ∀ a, ¬ s.heap.Owned ds a → m a = s.heap.mem a)
    (hb : b ∈ s.blocks) : ∀ i < b.2, m (b.1 + i) = s.heap.mem (b.1 + i) := by
  intro i hlt
  obtain ⟨c, hmem, ha, hptr, -, hle⟩ := hi.chunk_of hb
  exact hm _ (hs.not_owned (hsub c hmem ha hptr) ha (by omega) (by omega))

/-- The block of a request is new, since its chunk was free. -/
theorem Inv.taken (hi : s.Inv cs) (hc' : h'.Core cs' ns' []) (ht : Takes (chunkBytes n) cs p cs')
    (hp : p ≠ 0) (hn : Request n) : Inv ⟨h', (p, n.toNat) :: s.blocks⟩ cs' := by
  obtain ⟨ns, hc⟩ := hi.core
  obtain ⟨d, hda, hpd, hdsize, ⟨e, he, hef, hed⟩, hused⟩ := ht.used hp
  have hdm : d ∈ cs' := (hused d hda).2 (.inl rfl)
  have hpd' : p = d.addr + 4 := hpd
  have hsize : n.toNat + 4 ≤ chunkBytes n := by
    rw [chunkBytes]
    omega
  have hpos : 0 < n.toNat := Nat.lt_of_lt_of_le (by decide) hn.1
  have hnew : p ∉ s.blocks.map Prod.fst := by
    intro hmem
    obtain ⟨b, hb, hbp⟩ := List.mem_map.1 hmem
    obtain ⟨c, hcm, hca, hptr, -⟩ := hi.chunk_of hb
    have hce := hc.shape.addr_inj (MmHeap.mem_whole.2 (.inr (.inl hcm)))
      (MmHeap.mem_whole.2 (.inr (.inl he))) (by omega)
    rw [hce, hef] at hca
    cases hca
  refine ⟨⟨ns', hc'⟩, ht.coalesced hi.coalesced, ⟨List.nodup_cons.2 ⟨hnew, hi.holds.nodup⟩,
    List.forall_mem_cons.2 ⟨⟨d, hdm, hda, hpd, hpos, Nat.le_trans hsize hdsize⟩, ?_⟩, ?_⟩⟩
  · intro b hb
    obtain ⟨c, hcm, hca, hrest⟩ := hi.holds.block b hb
    exact ⟨c, (hused c hca).2 (.inr hcm), hca, hrest⟩
  · intro c hcm hca
    rcases (hused c hca).1 hcm with rfl | hcm
    · exact ⟨_, List.mem_cons_self, hpd⟩
    · obtain ⟨b, hb, hptr⟩ := hi.holds.chunk c hcm hca
      exact ⟨b, List.mem_cons_of_mem _ hb, hptr⟩

/-- A block is aligned, and inside the heap. -/
theorem Inv.placed (hi : s.Inv cs) (hb : b ∈ s.blocks) : b.1 % 8 = 0 ∧
    s.heap.mmHeapstart ≤ b.1 ∧ b.1 + b.2 ≤ s.heap.mmHeapend := by
  obtain ⟨ns, hc⟩ := hi.core
  obtain ⟨c, hmem, -, hptr, -, hle⟩ := hi.chunk_of hb
  have haddr := hc.shape.addr_le hmem
  have hmod := hc.shape.addr_mod hmem
  exact ⟨by omega, by omega, by omega⟩

theorem Inv.malloc (hi : s.Inv cs) (hn : Request n) (hl : s.heap.Legible) (hf : 0x1000 ≤ fuel) :
    (∃ cs', (s.step fuel (.malloc n)).2.Inv cs') ∧ s.Refines fuel (.malloc n) := by
  obtain ⟨ns, hc⟩ := hi.core
  obtain ⟨p, h', cs', ns', hcall, ht, hc', hst, -⟩ := hc.malloc (hc.fits hl) hn hf
  have hstep : s.step fuel (.malloc n) =
      (some p, ⟨h', if p = 0 then s.blocks else (p, n.toNat) :: s.blocks⟩) := by
    rw [step, hcall]
  have hold : ∀ b ∈ s.blocks, ∀ i < b.2, h'.mem (b.1 + i) = s.heap.mem (b.1 + i) := fun b hb =>
    hi.keeps hc.shape (fun c hmem _ _ => hmem) hst.bytes hb
  have hinfo := hc.mallinfo (hc.fits hl) hf
  have hfound : p ≠ 0 ↔ (chunkBytes n : Int) ≤ (s.heap.infoOf cs).mxordblk := by
    refine (ht.found_iff ?_).trans Int.ofNat_le.symm
    have hsize := hn.1
    rw [chunkBytes]
    omega
  obtain ⟨H, hH⟩ := hi.view
  by_cases hp : p = 0
  · subst hp
    cases ht with
    | none =>
      have hinv : Inv ⟨h', s.blocks⟩ cs := ⟨⟨ns', hc'⟩, hi.coalesced, hi.holds⟩
      rw [if_pos rfl] at hstep
      obtain ⟨H', hH'⟩ := hinv.view
      refine ⟨⟨cs, hstep ▸ hinv⟩, H, H', hH, hstep ▸ hH', 0, s.heap.infoOf cs,
        congrArg Prod.fst hstep, ?_, rfl, fun h0 => (h0 rfl).elim, hinfo, hfound⟩
      refine ⟨fun _ => hH'.2.trans hH.2.symm, fun h0 => (h0 rfl).elim, fun b hb i hlt => ?_⟩
      rw [hH'.1, hH.1]
      exact hold b (hH.2 ▸ hb) i hlt
  · have hinv := hi.taken hc' ht hp hn
    obtain ⟨hmod, hlo, hhi⟩ := hinv.placed List.mem_cons_self
    obtain ⟨hstart, hend, -⟩ := hst.bounds
    rw [if_neg hp] at hstep
    obtain ⟨H', hH'⟩ := hinv.view
    refine ⟨⟨cs', hstep ▸ hinv⟩, H, H', hH, hstep ▸ hH', p, s.heap.infoOf cs,
      congrArg Prod.fst hstep, ?_, hmod, fun _ => ⟨hstart ▸ hlo, hend ▸ hhi⟩, hinfo, hfound⟩
    refine ⟨fun h0 => (hp h0).elim, fun _ => ⟨n.toNat, Nat.le_refl _, ?_⟩, fun b hb i hlt => ?_⟩
    · rw [hH'.2, hH.2]
    · rw [hH'.1, hH.1]
      exact hold b (hH.2 ▸ hb) i hlt

/-- The blocks that stay when one is given back are those of the chunks that stay in use. -/
theorem Inv.released {b : Nat × Nat} (hi : s.Inv (l ++ c :: r)) (hptr : b.1 = c.addr + 4)
    (hc' : h'.Core (release l c r) ns' []) :
    Inv ⟨h', s.blocks.filter fun d => d.1 ≠ b.1⟩ (release l c r) := by
  obtain ⟨ns, hc⟩ := hi.core
  refine ⟨⟨ns', hc'⟩, release_coalesced hi.coalesced, ⟨?_, ?_, ?_⟩⟩
  · exact hi.holds.nodup.sublist (List.filter_sublist.map _)
  · intro d hd
    obtain ⟨hd, hdb⟩ := List.mem_filter.1 hd
    obtain ⟨e, hem, hea, hep, hrest⟩ := hi.holds.block d hd
    refine ⟨e, (release_used c hea).2 ((mem_beside.1 hem).resolve_left ?_), hea, hep, hrest⟩
    rintro rfl
    exact of_decide_eq_true hdb (hep.trans hptr.symm)
  · intro e hem hea
    have hem' := (release_used c hea).1 hem
    obtain ⟨d, hd, hdp⟩ := hi.holds.chunk e (mem_beside.2 (.inr hem')) hea
    refine ⟨d, List.mem_filter.2 ⟨hd, decide_eq_true fun hdb => ?_⟩, hdp⟩
    exact hc.shape.addr_ne hem' (Nat.add_right_cancel (hdp.symm.trans (hdb.trans hptr)))

theorem Inv.free (hi : s.Inv cs) (hp : p = 0 ∨ ∃ b ∈ s.blocks, b.1 = p) (hl : s.heap.Legible)
    (hf : 0x1000 ≤ fuel) :
    (∃ cs', (s.step fuel (.free p)).2.Inv cs') ∧ s.Refines fuel (.free p) := by
  obtain ⟨ns, hc⟩ := hi.core
  by_cases h0 : p = 0
  · subst h0
    have hstep : s.step fuel (.free 0) = (some 0, ⟨s.heap, s.blocks⟩) := by
      have hall : s.blocks.filter (fun b => b.1 ≠ 0) = s.blocks := by
        refine List.filter_eq_self.2 fun b hb => decide_eq_true ?_
        obtain ⟨c, -, -, hptr, -⟩ := hi.chunk_of hb
        omega
      rw [step, MmHeap.mmFree, if_pos rfl]
      dsimp only
      rw [hall]
    obtain ⟨H, hH⟩ := hi.view
    refine ⟨⟨cs, hstep ▸ hi⟩, H, H, hH, hstep ▸ hH, congrArg Prod.fst hstep, fun b => ?_,
      fun _ _ _ _ => rfl⟩
    exact (and_iff_left_of_imp fun hb => Nat.ne_of_gt (H.pos b hb).1).symm
  · obtain ⟨b, hb, rfl⟩ := hp.resolve_left h0
    obtain ⟨c, hmem, hca, hptr, -⟩ := hi.holds.block b hb
    obtain ⟨l, r, rfl⟩ := List.append_of_mem hmem
    obtain ⟨h', ns', hcall, hc', hst⟩ := hc.free (c := c) (r := r) (hc.fits hl) hi.coalesced hca hf
    rw [← hptr] at hcall
    have hstep : s.step fuel (.free b.1) = (some 0, ⟨h', s.blocks.filter fun d => d.1 ≠ b.1⟩) := by
      rw [step, hcall]
    have hinv := hi.released hptr hc'
    obtain ⟨H, hH⟩ := hi.view
    obtain ⟨H', hH'⟩ := hinv.view
    refine ⟨⟨release l c r, hstep ▸ hinv⟩, H, H', hH, hstep ▸ hH', congrArg Prod.fst hstep,
      fun d => ?_, fun d hd i hlt => ?_⟩
    · rw [hH'.2, hH.2, List.mem_filter, decide_eq_true_iff]
    · rw [hH'.2, List.mem_filter, decide_eq_true_iff] at hd
      rw [hH'.1, hH.1]
      have hs : s.heap.Shape (l ++ ([c] ++ r)) := hc.shape
      refine hi.keeps (hs.retag false) (fun e hem hea hep => ?_) hst.bytes hd.1 i hlt
      have her := (mem_beside.1 hem).resolve_left fun he => hd.2 (by rw [hep, he, hptr])
      rcases List.mem_append.1 her with her | her
      · exact List.mem_append_left _ her
      · exact List.mem_append_right _ (List.mem_append_right _ her)

theorem Inv.write (hi : s.Inv cs) (ha : ∃ b ∈ s.blocks, b.1 ≤ a ∧ a < b.1 + b.2) (v : UInt8) :
    (∃ cs', (s.step fuel (.write a v)).2.Inv cs') ∧ s.Refines fuel (.write a v) := by
  obtain ⟨ns, hc⟩ := hi.core
  obtain ⟨b, hb, hlo, hhi⟩ := ha
  obtain ⟨c, hmem, hca, hptr, -, hle⟩ := hi.chunk_of hb
  have hout := hc.shape.not_owned hmem hca (a := a) (by omega) (by omega)
  have hc' := hc.of_bytes (m := NorArray.put s.heap.mem a [v]) fun x hx =>
    NorArray.put_outside s.heap.mem (by
      have hxa : x ≠ a := fun he => hout (he ▸ hx)
      rw [List.length_singleton]
      omega)
  obtain ⟨H, hH⟩ := hi.view
  refine ⟨⟨cs, ⟨ns, hc'⟩, hi.coalesced, hi.holds⟩, H, H.write a [v], hH, ⟨?_, hH.2⟩, rfl⟩
  show NorArray.put H.mem a [v] = _
  rw [hH.1]
  rfl

/-- A step that users may take keeps the invariant, and is one of a heap of blocks. -/
theorem Inv.step (hi : s.Inv cs) (hf : 0x1000 ≤ fuel) (hm : s.Meets op) :
    (∃ cs', (s.step fuel op).2.Inv cs') ∧ s.Refines fuel op := by
  cases op with
  | malloc size => exact hi.malloc hm.1 hm.2 hf
  | free p => exact hi.free hm.1 hm.2 hf
  | write a v => exact hi.write hm v

/-- The heap that `mm_initialize` makes, before any block is held. -/
theorem inv_initialize {h : MmHeap} (hr : h.Region a n) (hf : 0x1000 ≤ fuel) :
    ∃ h₀, h.mmInitialize fuel a n = some h₀ ∧ Inv ⟨h₀, []⟩ [(h.bounds a n).firstChunk] := by
  obtain ⟨h₀, ns, hinit, hc, -⟩ := MmHeap.mmInitialize_core hr hf
  refine ⟨h₀, hinit, ⟨ns, hc⟩, .singleton _, ⟨.nil, nofun, fun c hcm hca => ?_⟩⟩
  cases List.mem_singleton.1 hcm
  cases hca

/-- From `mm_initialize` on, the allocator and its users are a heap of blocks: every call returns, a
new block is apart from those in use, and these keep their contents. -/
theorem mm_refines {h : MmHeap} (hr : h.Region a n) (hf : 0x1000 ≤ fuel) (ops : List MmOp) :
    ∃ h₀, h.mmInitialize fuel a n = some h₀ ∧
      (Along (step fuel) Meets ⟨h₀, []⟩ ops → Along (step fuel) (Refines fuel) ⟨h₀, []⟩ ops) := by
  obtain ⟨h₀, hinit, hi⟩ := inv_initialize hr hf
  refine ⟨h₀, hinit, fun hg => ?_⟩
  refine Runs.along_of_invariant (I := fun s => ∃ cs, s.Inv cs) ?_ ⟨_, hi⟩ hg
  rintro s op ⟨cs, hi⟩ hm
  exact hi.step hf hm

instance (h : MmHeap) : Decidable h.Legible := inferInstanceAs (Decidable (_ ∨ _))

instance (s : MmUse) : (op : MmOp) → Decidable (s.Meets op)
  | .malloc size => inferInstanceAs (Decidable (Request size ∧ s.heap.Legible))
  | .free mem => inferInstanceAs
      (Decidable ((mem = 0 ∨ ∃ b ∈ s.blocks, b.1 = mem) ∧ s.heap.Legible))
  | .write a _ => inferInstanceAs (Decidable (∃ b ∈ s.blocks, b.1 ≤ a ∧ a < b.1 + b.2))

/-- Memory that is all zero, with the list nodes at 0x100. -/
def blankHeap : MmHeap := ⟨fun _ => 0, 0x100, 0, 0, 0, 0⟩

theorem blank_region : blankHeap.Region 0x1000 0x200 := by
  constructor <;> decide

/-- In a heap of 512 bytes two blocks are taken, one is written and given back, a request that is
too large is refused, and the chunk is used again. -/
def blankOps : List MmOp :=
  [.malloc 100, .malloc 50, .write 0x1010 7, .free 0x1008, .malloc 400, .malloc 20]

/-- Two blocks of 12 bytes, of which the first is given back: its links lie in the second one. -/
def smallOps : List MmOp := [.malloc 12, .malloc 12, .write 0x1018 7, .free 0x1008]

theorem Refines.keeps (h : s.Refines fuel (.free p)) (hb : b ∈ s.blocks) (hne : b.1 ≠ p)
    (hi : i < b.2) : (s.step fuel (.free p)).2.heap.mem (b.1 + i) = s.heap.mem (b.1 + i) := by
  obtain ⟨H, H', hH, hH', -, hfrees⟩ := h
  have hb' : b ∈ H'.blocks := (hfrees.blocks b).2 ⟨hH.2 ▸ hb, hne⟩
  rw [← hH.1, ← hH'.1]
  exact hfrees.keeps b hb' i hi

set_option maxRecDepth 100000 in
theorem mm_refines_blank :
    ∃ h₀, blankHeap.mmInitialize 0x1000 0x1000 0x200 = some h₀ ∧
      Along (step 0x1000) (Refines 0x1000) ⟨h₀, []⟩ blankOps ∧
      (run (step 0x1000) ⟨h₀, []⟩ blankOps).1 =
        [some 0x1008, some 0x1078, some 0, some 0, some 0, some 0x1008] ∧
      ¬ Along (step 0x1000) (Refines 0x1000) ⟨h₀, []⟩ smallOps := by
  obtain ⟨h₀, hinit, hrefines⟩ := mm_refines blank_region (Nat.le_refl _) blankOps
  have hh : h₀ = (blankHeap.mmInitialize 0x1000 0x1000 0x200).getD blankHeap := by
    rw [hinit]
    rfl
  refine ⟨h₀, hinit, hrefines ?_, ?_, fun hsmall => ?_⟩
  · rw [hh]
    decide +kernel
  · rw [hh]
    decide +kernel
  · obtain ⟨-, -, -, hfree, -⟩ := hsmall
    rw [hh] at hfree
    have hkept := hfree.keeps (b := (0x1018, 12)) (i := 0) (by decide +kernel) (by decide)
      (by decide)
    revert hkept
    decide +kernel

end MmUse
end D1Flash
