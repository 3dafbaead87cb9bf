import Mathlib.Data.Finset.Basic
import Mathlib.Data.Fintype.EquivFin
import Mathlib.Data.List.AList
import Mathlib.Tactic.Common

namespace LinkedHeap
set_option autoImplicit true

abbrev Addr := Nat

/-- A pointer; NULL is `none`. -/
abbrev Ptr := Option Addr

/-- The allocated nodes at their addresses. -/
abbrev Heap (α : Type) := AList fun _ : Addr => α

/-- What an allocator gives that proposes an address: memory in use is never given. -/
def malloc (h : Heap α) (pick : Ptr) : Ptr :=
  pick.filter fun a => a ∉ h

theorem malloc_fresh {h : Heap α} (hm : malloc h pick = some a) : a ∉ h := by
  have hf := (Option.filter_eq_some_iff.1 hm).2
  exact of_decide_eq_true hf

variable (h : Heap α) (next : α → Ptr)

/-- Along `next` the pointer `p` leads through the nodes of the list to `q`. -/
def Seg : Ptr → List Addr → Ptr → Prop
  | p, [], q => p = q
  | p, a :: as, q => p = some a ∧ ∃ x, h.lookup a = some x ∧ Seg (next x) as q

/-- A list that NULL ends. -/
abbrev Chain (p : Ptr) (as : List Addr) : Prop := Seg h next p as none

variable {h next}

theorem seg_append : Seg h next p (as ++ bs) q ↔ ∃ r, Seg h next p as r ∧ Seg h next r bs q := by
  induction as generalizing p with
  | nil => exact ⟨fun hs => ⟨p, rfl, hs⟩, fun ⟨_, hr, hs⟩ => hr ▸ hs⟩
  | cons a as ih =>
    constructor
    · rintro ⟨rfl, x, hx, hs⟩
      obtain ⟨r, hr, hs⟩ := ih.1 hs
      exact ⟨r, ⟨rfl, x, hx, hr⟩, hs⟩
    · rintro ⟨r, ⟨rfl, x, hx, hr⟩, hs⟩
      exact ⟨rfl, x, hx, ih.2 ⟨r, hr, hs⟩⟩

theorem Seg.mem (hs : Seg h next p as q) (ha : a ∈ as) : a ∈ h := by
  induction as generalizing p with
  | nil => cases ha
  | cons b as ih =>
    obtain ⟨-, x, hx, hs⟩ := hs
    cases ha with
    | head => exact AList.lookup_isSome.1 (by rw [hx]; rfl)
    | tail _ ha => exact ih hs ha

theorem Seg.keep (hs : Seg h next p as q)
    (he : ∀ a ∈ as, ∀ x, h.lookup a = some x → ∃ x', h'.lookup a = some x' ∧ next x' = next x) :
    Seg h' next p as q := by
  induction as generalizing p with
  | nil => exact hs
  | cons a as ih =>
    obtain ⟨hp, x, hx, hs⟩ := hs
    obtain ⟨x', hx', hn⟩ := he a List.mem_cons_self x hx
    exact ⟨hp, x', hx', hn ▸ ih hs fun b hb => he b (List.mem_cons_of_mem a hb)⟩

theorem Seg.congr (hs : Seg h next p as q) (he : ∀ a ∈ as, h'.lookup a = h.lookup a) :
    Seg h' next p as q :=
  hs.keep fun a ha x hx => ⟨x, (he a ha).trans hx, rfl⟩

theorem Chain.unique (hs : Chain h next p as) (ht : Chain h next p bs) : as = bs := by
  induction as generalizing p bs with
  | nil =>
    cases bs with
    | nil => rfl
    | cons b bs =>
      have hp := ht.1
      rw [show p = none from hs] at hp
      cases hp
  | cons a as ih =>
    obtain ⟨rfl, x, hx, hs⟩ := hs
    cases bs with
    | nil => cases ht
    | cons b bs =>
      obtain ⟨hb, y, hy, ht⟩ := ht
      cases hb
      rw [hx] at hy
      cases hy
      rw [ih hs ht]

theorem Chain.nodup (hs : Chain h next p as) : as.Nodup := by
  induction as generalizing p with
  | nil => exact .nil
  | cons a as ih =>
    obtain ⟨-, x, hx, hs⟩ := hs
    refine List.nodup_cons.2 ⟨?_, ih hs⟩
    intro ha
    -- a second visit to `a` would give its rest two lengths
    obtain ⟨bs, cs, rfl⟩ := List.append_of_mem ha
    obtain ⟨r, -, ⟨-, y, hy, ht⟩⟩ := seg_append.1 hs
    rw [hx] at hy
    cases hy
    have hlen := congrArg List.length (Chain.unique hs ht)
    simp only [List.length_append, List.length_cons] at hlen
    omega

theorem Chain.eq_none_iff (hs : Chain h next p as) : p = none ↔ as = [] := by
  cases as with
  | nil => exact ⟨fun _ => rfl, fun _ => hs⟩
  | cons a as =>
    rw [hs.1]
    exact ⟨fun h => (nomatch h), fun h => (nomatch h)⟩

theorem Chain.length_le (hs : Chain h next p as) : as.length ≤ h.keys.length :=
  (List.subperm_of_subset (Chain.nodup hs) fun _ ha => AList.mem_keys.1 (Seg.mem hs ha)).length_le

/-- A node of a list that gets another successor leads to the list of that one. -/
theorem Chain.relink (hc : Chain h next p (bs ++ b :: cs)) (hr : Chain h next (next x) as)
    (hb : b ∉ as) : Chain (h.insert b x) next p (bs ++ b :: as) := by
  have hnd := Chain.nodup hc
  have hbs : b ∉ bs := fun hmem =>
    (List.nodup_append.1 hnd).2.2 b hmem b List.mem_cons_self rfl
  obtain ⟨r, hp, ⟨rfl, -⟩⟩ := seg_append.1 hc
  refine seg_append.2 ⟨some b, hp.congr ?_, rfl, x, AList.lookup_insert h, hr.congr ?_⟩
  · intro a ha
    exact AList.lookup_insert_ne fun he => hbs (he ▸ ha)
  · intro a ha
    exact AList.lookup_insert_ne fun he => hb (he ▸ ha)

variable (next)

/-- A walk along `next` to NULL and the nodes it meets; `none` is a walk that meets a dangling
pointer or does not end. -/
def walk (h : Heap α) : Nat → Ptr → Option (List (Addr × α))
  | _, none => some []
  | 0, some _ => none
  | fuel + 1, some a =>
    match h.lookup a with
    | none => none
    | some x => (walk h fuel (next x)).map ((a, x) :: ·)

/-- The nodes along `next` are given back one by one, each after its link is read; `none` is a
node that is not allocated. -/
def release : Nat → Heap α → Ptr → Option (Heap α)
  | _, h, none => some h
  | 0, _, some _ => none
  | fuel + 1, h, some a =>
    match h.lookup a with
    | none => none
    | some x => release fuel (h.erase a) (next x)

variable {next}

theorem walk_chain (hc : Chain h next p as) (hf : as.length ≤ fuel) :
    ∃ xs, walk next h fuel p = some xs ∧ xs.map Prod.fst = as := by
  induction as generalizing fuel p with
  | nil =>
    rw [show p = none from hc]
    exact ⟨[], by cases fuel <;> rfl, rfl⟩
  | cons a as ih =>
    obtain ⟨rfl, x, hx, hc⟩ := hc
    cases fuel with
    | zero => cases hf
    | succ fuel =>
      obtain ⟨xs, hw, hm⟩ := ih hc (Nat.le_of_succ_le_succ hf)
      rw [walk, hx]
      dsimp only
      rw [hw]
      exact ⟨(a, x) :: xs, rfl, congrArg (a :: ·) hm⟩

theorem walk_mem (hw : walk next h fuel p = some xs) :
    p = xs.head?.map Prod.fst ∧ ∀ y ∈ xs, h.lookup y.1 = some y.2 := by
  induction fuel generalizing p xs with
  | zero =>
    cases p with
    | none =>
      cases hw
      exact ⟨rfl, fun y hy => (nomatch hy)⟩
    | some a => cases hw
  | succ fuel ih =>
    cases p with
    | none =>
      cases hw
      exact ⟨rfl, fun y hy => (nomatch hy)⟩
    | some a =>
      rw [walk] at hw
      cases hx : h.lookup a with
      | none => rw [hx] at hw; cases hw
      | some x =>
        rw [hx] at hw
        obtain ⟨ys, hys, rfl⟩ := Option.map_eq_some_iff.1 hw
        refine ⟨rfl, fun y hy => ?_⟩
        cases List.mem_cons.1 hy with
        | inl he => rw [he]; exact hx
        | inr hy => exact (ih hys).2 y hy

theorem chain_indexed {as : List Addr} {f : Nat → α}
    (hl : ∀ i a, as[i]? = some a → h.lookup a = some (f i) ∧ next (f i) = as[i + 1]?) :
    Chain h next as[0]? as := by
  induction as generalizing f with
  | nil => rfl
  | cons a as ih =>
    obtain ⟨hx, hn⟩ := hl 0 a rfl
    have hrest : Chain h next as[0]? as := ih fun i b hb => hl (i + 1) b hb
    refine ⟨rfl, f 0, hx, ?_⟩
    rw [hn]
    exact hrest

theorem walk_indexed {as : List Addr} {f : Nat → α}
    (hl : ∀ i a, as[i]? = some a → h.lookup a = some (f i) ∧ next (f i) = as[i + 1]?)
    (hf : as.length ≤ fuel) :
    walk next h fuel as[0]? = some (as.mapIdx fun i a => (a, f i)) := by
  induction as generalizing f fuel with
  | nil => cases fuel <;> rfl
  | cons a as ih =>
    cases fuel with
    | zero => cases hf
    | succ fuel =>
      obtain ⟨hx, hn⟩ := hl 0 a rfl
      have hih := ih (fun i b hb => hl (i + 1) b hb) (Nat.le_of_succ_le_succ hf)
      change walk next h (fuel + 1) (some a) = _
      rw [walk, hx]
      dsimp only
      rw [hn, List.mapIdx_cons]
      change (walk next h fuel as[0]?).map _ = _
      rw [hih]
      rfl

theorem exists_fresh (h h' : Heap α) : ∃ a, a ∉ h ∧ a ∉ h' := by
  obtain ⟨a, ha⟩ := Infinite.exists_notMem_finset (h.keys ++ h'.keys).toFinset
  rw [List.mem_toFinset, List.mem_append, not_or] at ha
  exact ⟨a, fun hm => ha.1 (AList.mem_keys.1 hm), fun hm => ha.2 (AList.mem_keys.1 hm)⟩

theorem walk_congr (hc : Chain h next p as) (he : ∀ a ∈ as, h'.lookup a = h.lookup a)
    (hf : as.length ≤ fuel) (hf' : as.length ≤ fuel') :
    walk next h' fuel' p = walk next h fuel p := by
  induction as generalizing fuel fuel' p with
  | nil =>
    rw [show p = none from hc]
    cases fuel <;> cases fuel' <;> rfl
  | cons a as ih =>
    obtain ⟨rfl, x, hx, hc⟩ := hc
    cases fuel with
    | zero => cases hf
    | succ fuel =>
      cases fuel' with
      | zero => cases hf'
      | succ fuel' =>
        have hih := ih hc (fun b hb => he b (List.mem_cons_of_mem a hb))
          (Nat.le_of_succ_le_succ hf) (Nat.le_of_succ_le_succ hf')
        rw [walk, walk, he a List.mem_cons_self, hx]
        dsimp only
        rw [hih]

theorem release_chain (hc : Chain h next p as) (hf : as.length ≤ fuel) :
    ∃ h', release next fuel h p = some h' ∧
      ∀ a, h'.lookup a = if a ∈ as then none else h.lookup a := by
  induction as generalizing fuel h p with
  | nil =>
    rw [show p = none from hc]
    refine ⟨h, ?_, fun a => (if_neg List.not_mem_nil).symm⟩
    cases fuel <;> rfl
  | cons a as ih =>
    have hnd := List.nodup_cons.1 (Chain.nodup hc)
    obtain ⟨rfl, x, hx, hc⟩ := hc
    cases fuel with
    | zero => cases hf
    | succ fuel =>
      have hrest : Chain (h.erase a) next (next x) as := hc.congr fun b hb =>
        AList.lookup_erase_ne fun he => hnd.1 (he ▸ hb)
      obtain ⟨h', hr, hl⟩ := ih hrest (Nat.le_of_succ_le_succ hf)
      refine ⟨h', by rw [release, hx]; exact hr, fun b => ?_⟩
      rw [hl b]
      by_cases hb : b ∈ as
      · rw [if_pos hb, if_pos (List.mem_cons_of_mem a hb)]
      · rw [if_neg hb]
        by_cases he : b = a
        · rw [he, if_pos List.mem_cons_self, AList.lookup_erase]
        · rw [if_neg (fun hm => (List.mem_cons.1 hm).elim he hb), AList.lookup_erase_ne he]

/-- The nodes of a list and what a view of them shows. -/
def Holds (h : Heap α) (view : α → β) (as : List Addr) (vs : List β) : Prop :=
  List.Forall₂ (fun a v => ∃ x, h.lookup a = some x ∧ view x = v) as vs

theorem Holds.congr {view : α → β} (hv : Holds h view as vs)
    (he : ∀ a ∈ as, ∀ x, h.lookup a = some x → ∃ x', h'.lookup a = some x' ∧ view x' = view x) :
    Holds h' view as vs := by
  induction hv with
  | nil => exact .nil
  | cons ha _ ih =>
    obtain ⟨x, hx, rfl⟩ := ha
    exact .cons (he _ List.mem_cons_self x hx) (ih fun b hb => he b (List.mem_cons_of_mem _ hb))

theorem Holds.erase {view : α → β} (hv : Holds h view as vs) (ha : a ∉ as) :
    Holds (h.erase a) view as vs := by
  apply hv.congr
  intro b hb x hx
  have hba : b ≠ a := fun he => ha (he ▸ hb)
  exact ⟨x, (AList.lookup_erase_ne hba).trans hx, rfl⟩

theorem holds_update [DecidableEq ι] {view : α → β} {nodes : ι → List Addr} {vals : ι → List β}
    (hi : Holds h view as vs) (hv : ∀ j ≠ i, Holds h view (nodes j) (vals j)) (j : ι) :
    Holds h view (Function.update nodes i as j) (Function.update vals i vs j) := by
  by_cases hj : j = i
  · subst hj
    rw [Function.update_self, Function.update_self]
    exact hi
  · rw [Function.update_of_ne hj, Function.update_of_ne hj]
    exact hv j hj

theorem Holds.nil_iff {view : α → β} (hv : Holds h view as vs) : as = [] ↔ vs = [] := by
  cases hv with
  | nil => exact ⟨fun _ => rfl, fun _ => rfl⟩
  | cons => exact ⟨fun h => (nomatch h), fun h => (nomatch h)⟩

variable (h next)

/-- Each head has its list, and no two heads share a node. -/
structure Lists (head : ι → Ptr) (nodes : ι → List Addr) : Prop where
  chain : ∀ i, Chain h next (head i) (nodes i)
  disjoint : ∀ i j, i ≠ j → ∀ a ∈ nodes i, a ∉ nodes j

variable {h next}

theorem Lists.keep {head : ι → Ptr} {nodes : ι → List Addr} (hl : Lists h next head nodes)
    (he : ∀ i, ∀ a ∈ nodes i, ∀ x, h.lookup a = some x →
      ∃ x', h'.lookup a = some x' ∧ next x' = next x) : Lists h' next head nodes :=
  ⟨fun i => (hl.chain i).keep (he i), hl.disjoint⟩

/-- Only the list of one head changes. -/
theorem Lists.update [DecidableEq ι] {head : ι → Ptr} {nodes : ι → List Addr}
    (hl : Lists h next head nodes) (i : ι) (hc : Chain h' next p as)
    (he : ∀ j, j ≠ i → ∀ a ∈ nodes j, h'.lookup a = h.lookup a)
    (hd : ∀ j, j ≠ i → ∀ a ∈ as, a ∉ nodes j) :
    Lists h' next (Function.update head i p) (Function.update nodes i as) := by
  constructor
  · intro j
    by_cases hj : j = i
    · subst hj
      rw [Function.update_self, Function.update_self]
      exact hc
    · rw [Function.update_of_ne hj, Function.update_of_ne hj]
      exact (hl.chain j).congr (he j hj)
  · intro j k hjk a ha
    by_cases hj : j = i
    · subst hj
      rw [Function.update_self] at ha
      rw [Function.update_of_ne hjk.symm]
      exact hd k hjk.symm a ha
    · rw [Function.update_of_ne hj] at ha
      by_cases hk : k = i
      · subst hk
        rw [Function.update_self]
        intro ha'
        exact hd j hj a ha' ha
      · rw [Function.update_of_ne hk]
        exact hl.disjoint j k hjk a ha

end LinkedHeap
