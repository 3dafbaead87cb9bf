import D1Flash.Dma.HalDma
import D1Flash.Lib.Runs

namespace D1Flash
open LinkedHeap Runs
set_option autoImplicit true

/-! Who owns which descriptor. -/

variable {s t : DmaSys} {nodes : ChanId → List Addr}

/-- From the `desc` of each channel `vlln` leads along its own descriptors to NULL. -/
def DmaSys.Owns (s : DmaSys) (nodes : ChanId → List Addr) : Prop :=
  Lists s.heap DmaLli.vlln (fun c => (s.chans c).desc) nodes

theorem DmaSys.Owns.congr (ho : Owns s nodes) (hh : t.heap = s.heap)
    (hd : ∀ c, (t.chans c).desc = (s.chans c).desc) : t.Owns nodes := by
  unfold DmaSys.Owns
  rw [hh, funext hd]
  exact ho

theorem DmaSys.Owns.update (ho : Owns s nodes) (c : ChanId) (hc : Chain t.heap DmaLli.vlln p as)
    (hchans : t.chans = Function.update s.chans c chan) (hp : chan.desc = p)
    (he : ∀ j, j ≠ c → ∀ a ∈ nodes j, t.heap.lookup a = s.heap.lookup a)
    (hd : ∀ j, j ≠ c → ∀ a ∈ as, a ∉ nodes j) : t.Owns (Function.update nodes c as) := by
  have hu := Lists.update ho c hc he hd
  have hhead : (fun j => (t.chans j).desc) =
      Function.update (fun j => (s.chans j).desc) c p := by
    funext j
    rw [hchans]
    by_cases hj : j = c
    · rw [hj, Function.update_self, Function.update_self, hp]
    · rw [Function.update_of_ne hj, Function.update_of_ne hj]
  unfold DmaSys.Owns
  rw [hhead]
  exact hu

/-- Of the channels at most `desc` differs. -/
def DescOnly (s t : DmaSys) : Prop :=
  ∀ j, { t.chans j with desc := none } = { s.chans j with desc := none }

theorem DescOnly.refl (s : DmaSys) : DescOnly s s := fun _ => rfl

theorem DescOnly.trans (h : DescOnly s t) (h' : DescOnly t u) : DescOnly s u :=
  fun j => (h' j).trans (h j)

theorem DescOnly.of_update (h : t.chans = Function.update s.chans c { s.chans c with desc := p }) :
    DescOnly s t := by
  intro j
  rw [h]
  by_cases hj : j = c
  · rw [hj, Function.update_self]
  · rw [Function.update_of_ne hj]

theorem mem_iff_lookup {h : Heap DmaLli} : a ∈ h ↔ ∃ l, h.lookup a = some l := by
  rw [← AList.lookup_isSome, Option.isSome_iff_exists]

theorem DmaSys.Owns.freeDescs (ho : Owns s nodes) (c : ChanId) :
    ∃ t, s.freeDescs c = some t ∧ t.Owns (Function.update nodes c []) ∧
      t.chans = Function.update s.chans c { s.chans c with desc := none } ∧ t.regs = s.regs ∧
      ∀ a, t.heap.lookup a = if a ∈ nodes c then none else s.heap.lookup a := by
  have hc := Lists.chain ho c
  obtain ⟨heap, hr, hl⟩ := release_chain hc hc.length_le
  refine ⟨{ s with heap }.setChan c { s.chans c with desc := none }, ?_, ?_, rfl, rfl, hl⟩
  · rw [DmaSys.freeDescs, hr]
  · refine DmaSys.Owns.update ho c (p := none) rfl rfl rfl ?_ ?_
    · intro j hj a ha
      have hn := Lists.disjoint ho j c hj a ha
      exact (hl a).trans (if_neg hn)
    · intro j _ a ha
      cases ha

theorem DmaSys.Owns.lliList_head (ho : Owns s nodes) (ha : a ∉ s.heap) (item : DmaLli)
    (c : ChanId) :
    ∃ t, s.lliList none a item c = some t ∧ t.Owns (Function.update nodes c [a]) ∧
      t.chans = Function.update s.chans c { s.chans c with desc := some a } ∧ t.regs = s.regs ∧
      t.heap = s.heap.insert a { item with pLln := linkEnd, vlln := none } := by
  refine ⟨_, rfl, ?_, rfl, rfl, rfl⟩
  refine DmaSys.Owns.update ho c (p := some a) ?_ rfl rfl ?_ ?_
  · exact ⟨rfl, _, AList.lookup_insert _, rfl⟩
  · intro j _ b hb
    apply AList.lookup_insert_ne
    intro he
    exact ha (he ▸ Seg.mem (Lists.chain ho j) hb)
  · intro j _ b hb hbj
    rw [List.mem_singleton.1 hb] at hbj
    exact ha (Seg.mem (Lists.chain ho j) hbj)

theorem DmaSys.Owns.lliList_tail (ho : Owns s nodes) (ha : a ∉ s.heap) (item : DmaLli)
    (hc : nodes c = bs ++ [p]) :
    ∃ t l, s.lliList (some p) a item c = some t ∧
    t.Owns (Function.update nodes c (nodes c ++ [a])) ∧
      t.chans = s.chans ∧ t.regs = s.regs ∧ s.heap.lookup p = some l ∧
      t.heap = (s.heap.insert p { l with pLln := vaToPa (some a), vlln := some a }).insert a
        { item with pLln := linkEnd, vlln := none } := by
  have hchain := Lists.chain ho c
  rw [hc] at hchain
  have hpmem : p ∈ s.heap := Seg.mem hchain (List.mem_append_right bs List.mem_cons_self)
  obtain ⟨l, hl⟩ := mem_iff_lookup.1 hpmem
  have hpa : p ≠ a := fun he => ha (he ▸ hpmem)
  have hlink : s.lliList (some p) a item c = some { s with
      heap := (s.heap.insert p { l with pLln := vaToPa (some a), vlln := some a }).insert a
        { item with pLln := linkEnd, vlln := none } } := by
    rw [DmaSys.lliList, hl]
  refine ⟨_, l, hlink, ?_, rfl, rfl, hl, rfl⟩
  have hself : s.chans = Function.update s.chans c (s.chans c) :=
    (Function.update_eq_self c s.chans).symm
  refine DmaSys.Owns.update ho c (p := (s.chans c).desc) ?_ hself rfl ?_ ?_
  · -- the new item first, then the link to it
    have hnew : Chain (s.heap.insert a { item with pLln := linkEnd, vlln := none }) DmaLli.vlln
        (s.chans c).desc (bs ++ [p]) := hchain.congr fun b hb =>
      AList.lookup_insert_ne fun he => ha (he ▸ Seg.mem hchain hb)
    have hlast : Chain (s.heap.insert a { item with pLln := linkEnd, vlln := none }) DmaLli.vlln
        (some a) [a] := ⟨rfl, _, AList.lookup_insert _, rfl⟩
    have hrel := Chain.relink (x := { l with pLln := vaToPa (some a), vlln := some a })
      hnew hlast (fun hm => hpa (List.mem_singleton.1 hm))
    rw [hc, List.append_assoc, List.singleton_append]
    refine hrel.congr fun b _ => ?_
    by_cases hba : b = a
    · rw [hba, AList.lookup_insert, AList.lookup_insert_ne hpa.symm, AList.lookup_insert]
    · rw [AList.lookup_insert_ne hba]
      by_cases hbp : b = p
      · rw [hbp, AList.lookup_insert, AList.lookup_insert]
      · rw [AList.lookup_insert_ne hbp, AList.lookup_insert_ne hbp, AList.lookup_insert_ne hba]
  · intro j hj b hb
    have hba : b ≠ a := fun he => ha (he ▸ Seg.mem (Lists.chain ho j) hb)
    have hbp : b ≠ p := by
      rintro rfl
      exact Lists.disjoint ho j c hj b hb (hc ▸ List.mem_append_right bs List.mem_cons_self)
    exact (AList.lookup_insert_ne hba).trans (AList.lookup_insert_ne hbp)
  · intro j hj b hb hbj
    cases List.mem_append.1 hb with
    | inl hb => exact Lists.disjoint ho j c hj b hbj hb
    | inr hb =>
      rw [List.mem_singleton.1 hb] at hbj
      exact ha (Seg.mem (Lists.chain ho j) hbj)

theorem DmaSys.Owns.lliList_append (ho : Owns s nodes) (ha : a ∉ s.heap) (item : DmaLli)
    (hprev : prev = (nodes c).getLast?) :
    ∃ t, s.lliList prev a item c = some t ∧ t.Owns (Function.update nodes c (nodes c ++ [a])) ∧
      DescOnly s t ∧ ∀ b, b ∈ t.heap ↔ b = a ∨ b ∈ s.heap := by
  cases prev with
  | none =>
    rw [List.getLast?_eq_none_iff.1 hprev.symm]
    obtain ⟨t, ht, ho', hch, -, hh⟩ := ho.lliList_head ha item c
    exact ⟨t, ht, ho', .of_update hch, fun b => by rw [hh, AList.mem_insert]⟩
  | some p =>
    obtain ⟨bs, hc⟩ := List.getLast?_eq_some_iff.1 hprev.symm
    obtain ⟨t, l, ht, ho', hch, -, hl, hh⟩ := ho.lliList_tail ha item hc
    refine ⟨t, ht, ho', fun j => by rw [hch], fun b => ?_⟩
    have hp : p ∈ s.heap := mem_iff_lookup.2 ⟨l, hl⟩
    rw [hh, AList.mem_insert, AList.mem_insert]
    constructor
    · rintro (hb | rfl | hb)
      · exact .inl hb
      · exact .inr hp
      · exact .inr hb
    · rintro (hb | hb)
      · exact .inl hb
      · exact .inr (.inr hb)

theorem DmaSys.Owns.closeRing (ho : Owns s nodes) (hp : p ∈ nodes c) :
    ∃ t, closeRing c (some p) s = some t ∧ t.Owns nodes ∧ t.chans = s.chans ∧
      ∀ a, a ∈ t.heap ↔ a ∈ s.heap := by
  have hmem := Seg.mem (Lists.chain ho c) hp
  obtain ⟨l, hl⟩ := mem_iff_lookup.1 hmem
  rw [D1Flash.closeRing, hl]
  refine ⟨_, rfl, ?_, rfl, ?_⟩
  · refine Lists.keep ho fun j a _ x hx => ?_
    by_cases ha : a = p
    · cases ha
      rw [hl] at hx
      cases hx
      exact ⟨_, AList.lookup_insert _, rfl⟩
    · exact ⟨x, (AList.lookup_insert_ne ha).trans hx, rfl⟩
  · intro a
    rw [AList.mem_insert]
    exact or_iff_right_of_imp fun he => he ▸ hmem

/-- The loop over the periods adds its items to the list of the channel, also where an allocation
fails; a loop that takes a turn and ends has a last item. -/
theorem DmaSys.Owns.cyclicLoop (ho : Owns s nodes) (c : ChanId) (item : Nat → DmaLli)
    (turns i : Nat) (picks : List Addr) (hprev : prev = (nodes c).getLast?) :
    ∃ ok prev' t as, cyclicLoop c item turns i prev picks s = some (ok, prev', t) ∧
      t.Owns (Function.update nodes c (nodes c ++ as)) ∧ DescOnly s t ∧
      (∀ a, a ∈ t.heap ↔ a ∈ as ∨ a ∈ s.heap) ∧ prev' = (nodes c ++ as).getLast? ∧
      (0 < turns → ok = true → as ≠ []) := by
  induction turns generalizing i prev picks s nodes with
  | zero =>
    refine ⟨true, prev, s, [], rfl, ?_, .refl s, ?_, ?_, fun h => absurd h (Nat.lt_irrefl 0)⟩
    · rw [List.append_nil, Function.update_eq_self]
      exact ho
    · simp
    · rw [List.append_nil]
      exact hprev
  | succ turns ih =>
    rw [D1Flash.cyclicLoop]
    cases hm : malloc s.heap picks.head? with
    | none =>
      refine ⟨false, prev, s, [], rfl, ?_, .refl s, ?_, ?_, fun _ h => (nomatch h)⟩
      · rw [List.append_nil, Function.update_eq_self]
        exact ho
      · simp
      · rw [List.append_nil]
        exact hprev
    | some a =>
      obtain ⟨t, ht, hot, hdt, hb⟩ := ho.lliList_append (malloc_fresh hm) (item i) hprev
      have hlast : some a = (Function.update nodes c (nodes c ++ [a]) c).getLast? := by
        rw [Function.update_self, List.getLast?_append_of_ne_nil _ (by simp)]
        rfl
      obtain ⟨ok, prev', u, as, hu, hou, hdu, hmu, hp, hne⟩ := ih hot (i + 1) picks.tail hlast
      dsimp only
      rw [ht]
      rw [Function.update_self, Function.update_idem, List.append_assoc] at hou
      rw [Function.update_self, List.append_assoc] at hp
      refine ⟨ok, prev', u, [a] ++ as, hu, hou, hdt.trans hdu, fun b => ?_, hp, fun _ _ => by simp⟩
      rw [hmu, hb, List.mem_append, List.mem_singleton, or_left_comm, or_assoc]

/-- Every descriptor is one of a channel's. -/
structure DmaSys.Accounts (s : DmaSys) (nodes : ChanId → List Addr) : Prop where
  owns : s.Owns nodes
  all : ∀ a ∈ s.heap, ∃ c, a ∈ nodes c

theorem DmaSys.Accounts.freeDescs (ha : Accounts s nodes) (c : ChanId) :
    ∃ t, s.freeDescs c = some t ∧ t.Accounts (Function.update nodes c []) := by
  obtain ⟨t, ht, ho, -, -, hl⟩ := ha.owns.freeDescs c
  refine ⟨t, ht, ho, fun a hmem => ?_⟩
  obtain ⟨l, hl'⟩ := mem_iff_lookup.1 hmem
  rw [hl] at hl'
  split at hl'
  · cases hl'
  · next hn =>
    obtain ⟨j, hj⟩ := ha.all a (mem_iff_lookup.2 ⟨l, hl'⟩)
    have hjc : j ≠ c := fun he => hn (he ▸ hj)
    exact ⟨j, by rw [Function.update_of_ne hjc]; exact hj⟩

theorem DmaSys.Accounts.append (ha : Accounts s nodes) (hb : ∀ b ∈ t.heap, b ∈ as ∨ b ∈ s.heap)
    (ho : t.Owns (Function.update nodes c (nodes c ++ as))) :
    t.Accounts (Function.update nodes c (nodes c ++ as)) := by
  refine ⟨ho, fun b hmem => ?_⟩
  cases hb b hmem with
  | inl he =>
    refine ⟨c, ?_⟩
    rw [Function.update_self]
    exact List.mem_append_right _ he
  | inr hmem =>
    obtain ⟨j, hj⟩ := ha.all b hmem
    by_cases hjc : j = c
    · refine ⟨c, ?_⟩
      rw [Function.update_self]
      exact List.mem_append_left _ (hjc ▸ hj)
    · exact ⟨j, by rw [Function.update_of_ne hjc]; exact hj⟩

/-! The calls. -/

/-- Every descriptor in memory is one of exactly one channel's, each list ends, and nothing was
undefined on the way. -/
def Accounted (s : Option DmaSys) : Prop := ∃ t nodes, s = some t ∧ t.Accounts nodes

/-- The call replaces no list of descriptors, and a ring has a period. -/
def CallOk (s : DmaSys) : DmaCall → Prop
  | .prepMemcpy chan dest src _ pick | .prepDevice chan dest src _ _ pick =>
    ∀ c, chan = some c → dest ≠ 0 → src ≠ 0 → malloc s.heap pick ≠ none → (s.chans c).desc = none
  | .prepCyclic chan bufAddr bufLen periodLen _ _ =>
    periodLen ≠ 0 ∧ chan ≠ none ∧ (bufAddr ≠ 0 → periodLen ≤ bufLen)
  | _ => True

theorem DmaSys.Accounts.accounted (ha : Accounts s nodes) : Accounted (some s) :=
  ⟨s, nodes, rfl, ha⟩

/-- The memory and every `desc` are kept. -/
structure Keeps (s t : DmaSys) : Prop where
  heap : t.heap = s.heap
  desc : ∀ c, (t.chans c).desc = (s.chans c).desc

theorem Keeps.refl (s : DmaSys) : Keeps s s := ⟨rfl, fun _ => rfl⟩

theorem Keeps.setChan (s : DmaSys) (c : ChanId) (h : chan.desc = (s.chans c).desc) :
    Keeps s (s.setChan c chan) := by
  refine ⟨rfl, fun j => ?_⟩
  by_cases hj : j = c
  · rw [hj, DmaSys.setChan_self, h]
  · rw [DmaSys.setChan_of_ne s chan hj]

theorem Keeps.halWritel (hk : Keeps s t) (v : BitVec 32) (off : Nat) :
    Keeps s (t.halWritel v off) :=
  ⟨hk.heap, hk.desc⟩

theorem Keeps.trans (hk : Keeps s t) (hk' : Keeps t u) : Keeps s u :=
  ⟨hk'.heap.trans hk.heap, fun c => (hk'.desc c).trans (hk.desc c)⟩

theorem DmaSys.Accounts.keep (ha : Accounts s nodes) (hk : Keeps s t) : t.Accounts nodes :=
  ⟨ha.owns.congr hk.heap hk.desc, hk.heap ▸ ha.all⟩

theorem DmaSys.Accounts.prepOne_iff (ha : Accounts s nodes) (chan : Option ChanId)
    (dest src : BitVec 32) (item : DmaSlaveConfig → DmaLli) (pick : Ptr) :
    Accounted ((prepOne chan dest src item pick s).map Prod.snd) ↔
      ∀ c, chan = some c → dest ≠ 0 → src ≠ 0 → malloc s.heap pick ≠ none →
        (s.chans c).desc = none := by
  unfold prepOne
  cases chan with
  | none => exact ⟨fun _ c hc => (nomatch hc), fun _ => ha.accounted⟩
  | some c =>
    dsimp only
    by_cases h0 : dest = 0 ∨ src = 0
    · rw [if_pos h0]
      exact ⟨fun _ _ _ hd hs => (h0.elim hd hs).elim, fun _ => ha.accounted⟩
    · rw [if_neg h0]
      cases hm : malloc s.heap pick with
      | none => exact ⟨fun _ _ _ _ _ hn => (hn rfl).elim, fun _ => ha.accounted⟩
      | some a =>
        have hfresh := malloc_fresh hm
        obtain ⟨t, ht, ho, -, -, hh⟩ := ha.owns.lliList_head hfresh (item (s.chans c).cfg) c
        dsimp only
        rw [ht]
        constructor
        · rintro ⟨u, nodes', hu, hau⟩ _ hc - - -
          cases hu
          cases hc
          -- a descriptor that was the channel's is in no list now
          have hchain := Lists.chain ha.owns c
          apply hchain.eq_none_iff.2
          apply List.eq_nil_iff_forall_not_mem.2
          intro b hb
          have hbmem : b ∈ t.heap := by
            rw [hh, AList.mem_insert]
            exact .inr (Seg.mem hchain hb)
          obtain ⟨j, hj⟩ := hau.all b hbmem
          rw [Chain.unique (Lists.chain hau.owns j) (Lists.chain ho j)] at hj
          by_cases hjc : j = c
          · rw [hjc, Function.update_self, List.mem_singleton] at hj
            exact hfresh (hj ▸ Seg.mem hchain hb)
          · rw [Function.update_of_ne hjc] at hj
            exact Lists.disjoint ha.owns j c hjc b hj hb
        · intro hok
          have hnone := hok c rfl (fun h => h0 (.inl h)) (fun h => h0 (.inr h))
            (fun h => (nomatch h))
          have hnil := (Chain.eq_none_iff (Lists.chain ha.owns c)).1 hnone
          have hb : ∀ b ∈ t.heap, b ∈ [a] ∨ b ∈ s.heap := fun b hb => by
            rw [hh, AList.mem_insert] at hb
            exact hb.imp_left List.mem_singleton.2
          have happ : t.Owns (Function.update nodes c (nodes c ++ [a])) := by
            rw [hnil]
            exact ho
          exact (ha.append hb happ).accounted

theorem request_keeps (s : DmaSys) : Keeps s (halDmaChanRequest s).2 := by
  unfold halDmaChanRequest
  split
  · exact Keeps.setChan s _ rfl
  · exact Keeps.refl s

theorem callbackInstall_keeps (chan : Option ChanId) (callback callbackParam : Ptr) (s : DmaSys) :
    Keeps s (halDmaCallbackInstall chan callback callbackParam s).2 := by
  unfold halDmaCallbackInstall
  cases chan with
  | none => exact Keeps.refl s
  | some c =>
    dsimp only
    split
    · exact Keeps.refl s
    · split
      · exact Keeps.refl s
      · exact Keeps.setChan s c rfl

theorem slaveConfig_keeps (chan : Option ChanId) (config : Option DmaSlaveConfig) (s : DmaSys) :
    Keeps s (halDmaSlaveConfig chan config s).2 := by
  unfold halDmaSlaveConfig
  split
  · exact Keeps.setChan s _ rfl
  · exact Keeps.refl s

theorem stop_keeps (chan : Option ChanId) (s : DmaSys) : Keeps s (halDmaStop chan s).2 := by
  cases chan with
  | none => exact Keeps.refl s
  | some c =>
    have hk := (((Keeps.refl s).halWritel chanPause (dmaPause (s.chans c).chanCount)).halWritel
      chanStop (dmaEnable (s.chans c).chanCount)).halWritel chanResume
      (dmaPause (s.chans c).chanCount)
    exact hk.trans (Keeps.setChan _ c rfl)

theorem DmaSys.Owns.descs (ho : Owns s nodes) (c : ChanId) :
    ∃ xs, s.descs c = some xs ∧ xs.map Prod.fst = nodes c := by
  have hc := Lists.chain ho c
  exact walk_chain hc hc.length_le

theorem txStatus_keeps (ho : s.Owns nodes) (chan : Option ChanId) (leftSize : Bool)
    (pos cnt : BitVec 32) : ∃ r, halDmaTxStatus chan leftSize pos cnt s = some (r, s) := by
  unfold halDmaTxStatus
  split
  · next c =>
    obtain ⟨xs, hxs, -⟩ := ho.descs c
    rw [hxs]
    dsimp only
    split
    · split
      · exact ⟨_, rfl⟩
      · split <;> exact ⟨_, rfl⟩
    · split <;> exact ⟨_, rfl⟩
  · exact ⟨_, rfl⟩

theorem armChan_keeps (c : ChanId) (s : DmaSys) : Keeps s (armChan c s) := by
  have hset {irqType : BitVec 32} : Keeps s (s.setChan c { s.chans c with irqType }) :=
    Keeps.setChan s c rfl
  exact (hset.halWritel _ _).halWritel _ _

theorem start_keeps (ho : s.Owns nodes) (chan : Option ChanId) :
    ∃ r t, halDmaStart chan s = some (r, t) ∧ Keeps s t := by
  unfold halDmaStart
  cases chan with
  | none => exact ⟨_, s, rfl, Keeps.refl s⟩
  | some c =>
    have hk := armChan_keeps c s
    obtain ⟨xs, hxs, -⟩ := (ho.congr hk.heap hk.desc).descs c
    dsimp only
    rw [hxs]
    exact ⟨_, _, rfl, (hk.halWritel _ _).halWritel _ _⟩

theorem DmaSys.Accounts.setChan (ha : Accounts s nodes) (h : chan.desc = (s.chans c).desc) :
    Accounted (some (s.setChan c chan)) :=
  (ha.keep (Keeps.setChan s c h)).accounted

theorem freeIll_accounted (ha : s.Accounts nodes) (c : ChanId) :
    ∃ t, sunxiDmaFreeIll c s = some t ∧ t.Accounts (Function.update nodes c []) := by
  obtain ⟨t, ht, hat⟩ := ha.freeDescs c
  rw [sunxiDmaFreeIll, ht]
  exact ⟨_, rfl, hat.keep (Keeps.setChan t c rfl)⟩

theorem chanFree_accounted (ha : s.Accounts nodes) (chan : Option ChanId) :
    Accounted ((halDmaChanFree chan s).map Prod.snd) := by
  unfold halDmaChanFree
  cases chan with
  | none => exact ha.accounted
  | some c =>
    dsimp only
    split
    · exact ha.accounted
    · generalize s.halReadl _ &&& _ = v
      obtain ⟨t, ht, hat⟩ := freeIll_accounted (ha.keep ((Keeps.refl s).halWritel v _)) c
      rw [ht]
      apply hat.setChan
      rfl

/-- A ring is accounted for where it has a last item to close on. -/
theorem DmaSys.Accounts.prepCyclic_iff (ha : Accounts s nodes) (chan : Option ChanId)
    (bufAddr bufLen periodLen : BitVec 32) (dir : DmaTransferDirection) (picks : List Addr) :
    Accounted ((halDmaPrepCyclic chan bufAddr bufLen periodLen dir picks s).map Prod.snd) ↔
      periodLen ≠ 0 ∧ chan ≠ none ∧ (bufAddr ≠ 0 → periodLen ≤ bufLen) := by
  unfold halDmaPrepCyclic
  by_cases hp : periodLen = 0
  · rw [if_pos hp]
    exact ⟨fun ⟨_, _, h, _⟩ => (nomatch h), fun h => (h.1 hp).elim⟩
  rw [if_neg hp]
  cases chan with
  | none => exact ⟨fun ⟨_, _, h, _⟩ => (nomatch h), fun h => (h.2.1 rfl).elim⟩
  | some c =>
    dsimp only
    by_cases hb : bufAddr = 0
    · rw [if_pos hb]
      exact iff_of_true ha.accounted ⟨hp, fun h => (nomatch h), fun h => (h hb).elim⟩
    rw [if_neg hb]
    obtain ⟨t, ht, hat⟩ := ha.freeDescs c
    rw [ht]
    dsimp only
    have hperiods : 0 < (bufLen / periodLen).toNat ↔ periodLen ≤ bufLen := by
      have hpos : 0 < periodLen.toNat := Nat.pos_of_ne_zero fun h => hp (BitVec.eq_of_toNat_eq h)
      rw [BitVec.toNat_udiv, Nat.div_pos_iff, BitVec.le_def]
      exact and_iff_right hpos
    by_cases hle : periodLen ≤ bufLen
    · apply iff_of_true _ ⟨hp, fun h => (nomatch h), fun _ => hle⟩
      have hnil : none = (Function.update nodes c [] c).getLast? := by
        rw [Function.update_self]
        rfl
      obtain ⟨ok, prev, u, as, hu, hou, -, hmu, hprev, hne⟩ := hat.owns.cyclicLoop c
        (cyclicItem (t.chans c).cfg bufAddr periodLen dir) (bufLen / periodLen).toNat 0 picks hnil
      have hau := hat.append (fun b hb => (hmu b).1 hb) hou
      rw [Function.update_self, List.nil_append] at hprev
      rw [hu]
      cases ok with
      | false => exact hau.accounted
      | true =>
        cases prev with
        | none => exact (hne (hperiods.2 hle) rfl (List.getLast?_eq_none_iff.1 hprev.symm)).elim
        | some p =>
          have hp : p ∈ Function.update (Function.update nodes c []) c
              (Function.update nodes c [] c ++ as) c := by
            rw [Function.update_self]
            exact List.mem_append_right _ (List.mem_of_getLast? hprev.symm)
          obtain ⟨v, hv, hov, -, hmem⟩ := hau.owns.closeRing hp
          dsimp only
          rw [hv]
          have hav : v.Accounts _ := ⟨hov, fun a ha => hau.all a ((hmem a).1 ha)⟩
          apply hav.setChan
          rfl
    · have hzero : (bufLen / periodLen).toNat = 0 :=
        Nat.eq_zero_of_not_pos fun h => hle (hperiods.1 h)
      rw [hzero]
      -- no turn of the loop: the ring is closed on NULL
      exact ⟨fun ⟨_, _, h, _⟩ => (nomatch h), fun h => (hle (h.2.2 hb)).elim⟩

theorem dmaCall_iff (ha : s.Accounts nodes) (call : DmaCall) :
    Accounted ((dmaCall s call).map Prod.snd) ↔ CallOk s call := by
  cases call with
  | prepMemcpy chan dest src len pick =>
    exact ha.prepOne_iff chan dest src (fun config => memcpyItem config dest src len) pick
  | prepDevice chan dest src len dir pick =>
    exact ha.prepOne_iff chan dest src (fun config => deviceItem config dest src len dir) pick
  | prepCyclic chan bufAddr bufLen periodLen dir picks =>
    exact ha.prepCyclic_iff chan bufAddr bufLen periodLen dir picks
  | request => exact iff_of_true (ha.keep (request_keeps s)).accounted trivial
  | callbackInstall chan callback callbackParam =>
    exact iff_of_true (ha.keep (callbackInstall_keeps chan callback callbackParam s)).accounted
      trivial
  | slaveConfig chan config =>
    exact iff_of_true (ha.keep (slaveConfig_keeps chan config s)).accounted trivial
  | stop chan => exact iff_of_true (ha.keep (stop_keeps chan s)).accounted trivial
  | txStatus chan leftSize pos cnt =>
    apply iff_of_true _ trivial
    obtain ⟨r, hr⟩ := txStatus_keeps ha.owns chan leftSize pos cnt
    rw [dmaCall, hr]
    exact ha.accounted
  | start chan =>
    apply iff_of_true _ trivial
    obtain ⟨r, t, hr, hk⟩ := start_keeps ha.owns chan
    rw [dmaCall, hr]
    exact (ha.keep hk).accounted
  | chanFree chan =>
    exact iff_of_true (chanFree_accounted ha chan) trivial
  | descFree chan nest =>
    apply iff_of_true _ trivial
    unfold dmaCall halDmaChanDescFree
    dsimp only
    split
    · cases chan with
      | none => exact ha.accounted
      | some c =>
        obtain ⟨t, ht, hat⟩ := freeIll_accounted ha c
        dsimp only
        rw [ht]
        exact hat.accounted
    · exact ha.accounted

/-! Runs of calls. -/

def DmaCallOk (r : Option DmaSys) (call : DmaCall) : Prop := ∃ t, r = some t ∧ CallOk t call

theorem dmaStep_iff (ha : Accounted r) (call : DmaCall) :
    Accounted (dmaStep r call).2 ↔ DmaCallOk r call := by
  obtain ⟨t, nodes, rfl, hat⟩ := ha
  rw [dmaStep, Option.bind_some, dmaCall_iff hat call]
  exact ⟨fun h => ⟨t, rfl, h⟩, fun ⟨_, he, h⟩ => Option.some.inj he ▸ h⟩

theorem accounted_init (regs : Nat → BitVec 32) : Accounted (some (.init regs)) := by
  refine ⟨_, fun _ => [], rfl, ⟨fun _ => rfl, ?_⟩, ?_⟩
  · intro i j _ a ha
    cases ha
  · intro a ha
    exact (AList.notMem_empty a ha).elim

/-- After every call of a run each descriptor is freed or one channel's, exactly where no call
prepares a list over another one or a ring of no period. -/
theorem dma_descriptors_accounted (regs : Nat → BitVec 32) (calls : List DmaCall) :
    Along dmaStep (fun r call => Accounted (dmaStep r call).2) (some (.init regs)) calls ↔
      Along dmaStep DmaCallOk (some (.init regs)) calls :=
  along_iff (I := Accounted) (fun _ call ha => dmaStep_iff ha call) (fun _ _ _ hp => hp)
    (accounted_init regs)

/-- Two copies prepared one after the other on the channel. -/
def leakingCalls : List DmaCall :=
  [.request, .prepMemcpy (some 0) 0x1000 0x2000 16 (some 64),
    .prepMemcpy (some 0) 0x1000 0x2000 16 (some 128)]

theorem dma_descriptors_leak :
    ¬ Along dmaStep (fun r call => Accounted (dmaStep r call).2) (some (.init fun _ => 0))
      leakingCalls := by
  intro h
  obtain ⟨-, h₁, h₂, -⟩ := h
  obtain ⟨t, ht, hok⟩ := (dmaStep_iff h₁ _).1 h₂
  have hdesc := congrArg (Option.map fun t => ((t.chans 0).desc, malloc t.heap (some 128))) ht
  have hval : (Option.map (fun t => ((t.chans 0).desc, malloc t.heap (some 128)))
      (dmaStep (dmaStep (some (.init fun _ => 0)) .request).2
        (.prepMemcpy (some 0) 0x1000 0x2000 16 (some 64))).2) = some (some 64, some 128) := by
    decide
  rw [hval] at hdesc
  obtain ⟨hd, hm⟩ := Prod.mk.inj (Option.some.inj hdesc)
  have hnone := hok 0 rfl (by decide) (by decide) (hm ▸ fun h => (nomatch h))
  rw [← hd] at hnone
  cases hnone

end D1Flash
