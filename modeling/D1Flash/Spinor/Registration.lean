import D1Flash.Lib.Loops
import D1Flash.Spinor.MatchNor

namespace D1Flash
open Loops
set_option autoImplicit true

/-- `p->next`, where no `p` is `g_fhead`. -/
def FactoryList.nextOf (l : FactoryList ι) : Option ι → Option ι
  | none => l.head
  | some i => l.next i

def FactoryList.more (l : FactoryList ι) (p : Option ι) : Bool := (l.nextOf p).isSome

/-- `while (p->next) p = p->next` from `g_fhead` on; `none` is a walk that has not ended. -/
def FactoryList.walk (l : FactoryList ι) (fuel : Nat) : Option (Option ι) :=
  whileLoop l.more l.nextOf fuel none

theorem whileLoop_linked {l : FactoryList ι} (h : l.Linked (l.nextOf p) names) :
    whileLoop l.more l.nextOf names.length p =
      some (names.getLast?.or p) := by
  induction names generalizing p with
  | nil =>
    have hmore : l.more p = false := congrArg Option.isSome h
    exact whileLoop_done hmore 0
  | cons f fs ih =>
    obtain ⟨hp, hfs⟩ := h
    have hmore : l.more p = true := congrArg Option.isSome hp
    have hrest : l.Linked (l.nextOf (some f)) fs := hfs
    rw [List.length_cons, whileLoop_more hmore, hp, ih hrest, List.getLast?_cons]
    cases fs.getLast? with
    | none => rfl
    | some a => rfl

theorem FactoryList.Linked.walk {l : FactoryList ι} (h : l.Linked l.head names) :
    l.walk names.length = some names.getLast? := by
  have hw := whileLoop_linked (p := none) h
  rwa [Option.or_none] at hw

theorem last_linked {l : FactoryList ι} (h : l.Linked (l.next f) fs) (hn : fs.length ≤ fuel) :
    l.last fuel f = fs.getLast?.getD f := by
  induction fs generalizing f fuel with
  | nil =>
    have hnext : l.next f = none := h
    cases fuel with
    | zero => rfl
    | succ fuel =>
      rw [FactoryList.last, hnext]
      rfl
  | cons g fs ih =>
    obtain ⟨hg, hfs⟩ := h
    cases fuel with
    | zero => cases hn
    | succ fuel =>
      rw [FactoryList.last, hg, List.getLast?_cons]
      exact ih hfs (Nat.le_of_succ_le_succ hn)

/-- What stands in the list: all factories where a round starts again, else those of the round. -/
def standing (fs : List ι) (k j : Nat) : List ι := if k ≠ 0 ∧ j = 0 then fs else fs.take j

theorem standing_length_le (fs : List ι) (k j : Nat) : (standing fs k j).length ≤ fs.length := by
  rw [standing]
  split
  · exact Nat.le_refl _
  · exact List.length_take_le' j fs

theorem standing_round (fs : List ι) (k : Nat) :
    standing fs (k + 1) 0 = standing fs k fs.length := by
  have hstart : k + 1 ≠ 0 ∧ (0 : Nat) = 0 := ⟨Nat.succ_ne_zero k, rfl⟩
  rw [standing, standing, if_pos hstart]
  split
  · rfl
  · exact List.take_length.symm

variable [DecidableEq ι] {l : FactoryList ι}

/-- The list after `k` rounds over the factories and the first `j` calls of the next one. -/
def norRegisterRounds (l : FactoryList ι) (fs : List ι) (k j : Nat) : FactoryList ι :=
  ((List.replicate k fs).flatten ++ fs.take j).foldl (norRegisterFactory fs.length) l

theorem norRegisterRounds_round (l : FactoryList ι) (fs : List ι) (k : Nat) :
    norRegisterRounds l fs (k + 1) 0 = norRegisterRounds l fs k fs.length := by
  rw [norRegisterRounds, norRegisterRounds, List.replicate_succ', List.flatten_append,
    List.flatten_singleton, List.take_zero, List.append_nil, List.take_length]

theorem norRegisterRounds_call (l : FactoryList ι) (k : Nat) (hf : fs[j]? = some f) :
    norRegisterRounds l fs k (j + 1) =
      norRegisterFactory fs.length (norRegisterRounds l fs k j) f := by
  rw [norRegisterRounds, norRegisterRounds, List.take_add_one, hf, Option.toList_some,
    ← List.append_assoc, List.foldl_append]
  rfl

/-- A round over the factories of the driver is one `nor_factory_register`. -/
theorem norRegisterRounds_factories (l : FactoryList FactoryName) (k : Nat) :
    norRegisterRounds l factoryNames (k + 1) 0 =
      norFactoryRegister (norRegisterRounds l factoryNames k 0) := by
  rw [norRegisterRounds_round, norFactoryRegister, norRegisterRounds, norRegisterRounds,
    List.take_length, List.foldl_append, List.take_zero, List.append_nil]

theorem norRegisterFactory_linked (h : l.Linked l.head names) (hn : names.length ≤ fuel + 1)
    (f : ι) : norRegisterFactory fuel l f = l.link names.getLast? f := by
  rw [norRegisterFactory]
  cases names with
  | nil =>
    have hhead : l.head = none := h
    rw [hhead]
    rfl
  | cons g fs =>
    obtain ⟨hg, hfs⟩ := h
    rw [hg, Option.map_some, last_linked hfs (Nat.le_of_succ_le_succ hn), List.getLast?_cons]

theorem FactoryList.Linked.snoc (h : l.Linked p (names ++ [a])) (hnd : (names ++ [a]).Nodup)
    (hf : f ∉ names ++ [a]) : (l.link (some a) f).Linked p (names ++ [a, f]) := by
  have hfa : a ≠ f := fun he => hf (he ▸ List.mem_append_right _ List.mem_cons_self)
  induction names generalizing p with
  | nil =>
    obtain ⟨hp, -⟩ := h
    exact ⟨hp, (if_neg hfa).trans (if_pos rfl), if_pos rfl⟩
  | cons b names ih =>
    obtain ⟨hp, hnext⟩ := h
    obtain ⟨hb, hnd⟩ := List.nodup_cons.1 hnd
    have hba : some a ≠ some b := fun he =>
      hb (Option.some.inj he ▸ List.mem_append_right _ List.mem_cons_self)
    have hbf : b ≠ f := fun he => hf (he ▸ List.mem_cons_self)
    have hsame : (l.link (some a) f).next b = l.next b := (if_neg hbf).trans (if_neg hba)
    refine ⟨hp, ?_⟩
    rw [hsame]
    exact ih hnext hnd fun hm => hf (List.mem_cons_of_mem b hm)

theorem FactoryList.Linked.append (h : l.Linked l.head names) (hnd : names.Nodup)
    (hf : f ∉ names) :
    (l.link names.getLast? f).Linked (l.link names.getLast? f).head (names ++ [f]) := by
  cases List.eq_nil_or_concat names with
  | inl hnil =>
    subst hnil
    exact ⟨rfl, if_pos rfl⟩
  | inr hconcat =>
    obtain ⟨names, a, rfl⟩ := hconcat
    rw [List.concat_eq_append] at h hnd hf ⊢
    rw [List.getLast?_concat, List.append_assoc]
    exact h.snoc hnd hf

/-- The first factory of the list cuts off what is behind it. -/
theorem FactoryList.Linked.cut (h : l.Linked l.head (f :: fs)) :
    (l.link (f :: fs).getLast? f).Linked (l.link (f :: fs).getLast? f).head [f] := by
  obtain ⟨hhead, -⟩ := h
  rw [List.getLast?_cons]
  exact ⟨hhead, if_pos rfl⟩

theorem norRegisterRounds_step (hnd : fs.Nodup) (hf : fs[j]? = some f)
    (h : (norRegisterRounds l fs k j).Linked (norRegisterRounds l fs k j).head (standing fs k j)) :
    (norRegisterRounds l fs k (j + 1)).Linked (norRegisterRounds l fs k (j + 1)).head
      (standing fs k (j + 1)) := by
  have hlen := standing_length_le fs k j
  have hnext : standing fs k (j + 1) = fs.take (j + 1) := if_neg fun h => Nat.succ_ne_zero j h.2
  have htake : fs.take (j + 1) = fs.take j ++ [f] := by
    rw [List.take_add_one, hf, Option.toList_some]
  rw [norRegisterRounds_call l k hf, norRegisterFactory_linked h (Nat.le_succ_of_le hlen), hnext,
    htake]
  by_cases hstart : k ≠ 0 ∧ j = 0
  · -- the list of the round before
    obtain ⟨hk, rfl⟩ := hstart
    cases fs with
    | nil => cases hf
    | cons g fs =>
      cases hf
      have hall : standing (f :: fs) k 0 = f :: fs := if_pos ⟨hk, rfl⟩
      rw [hall] at h ⊢
      exact h.cut
  · have hpart : standing fs k j = fs.take j := if_neg hstart
    rw [hpart] at h ⊢
    have hnd' := hnd.sublist (List.take_sublist (j + 1) fs)
    rw [htake] at hnd'
    have hnot : f ∉ fs.take j := fun hm =>
      (List.nodup_append.1 hnd').2.2 f hm f List.mem_cons_self rfl
    exact h.append (hnd.sublist (List.take_sublist j fs)) hnot

theorem norRegisterRounds_linked (hnd : fs.Nodup) (hl : l.head = none) (k : Nat)
    (hj : j ≤ fs.length) :
    (norRegisterRounds l fs k j).Linked (norRegisterRounds l fs k j).head (standing fs k j) := by
  induction k generalizing j with
  | zero =>
    induction j with
    | zero => exact hl
    | succ j ih =>
      exact norRegisterRounds_step hnd (List.getElem?_eq_getElem hj) (ih (Nat.le_of_lt hj))
  | succ k ihk =>
    induction j with
    | zero =>
      rw [norRegisterRounds_round, standing_round]
      exact ihk (Nat.le_refl fs.length)
    | succ j ih =>
      exact norRegisterRounds_step hnd (List.getElem?_eq_getElem hj) (ih (Nat.le_of_lt hj))

/-- Every walk ends, at the place where the call links its factory, and every round leaves the
factories in their order, whatever the `next` pointers were before the first. -/
theorem norRegisterFactory_rounds (hnd : fs.Nodup) (hl : l.head = none) (r : Nat) :
    (∀ k < r, ∀ j f, fs[j]? = some f → ∃ fuel p,
      (norRegisterRounds l fs k j).walk fuel = some p ∧
        norRegisterRounds l fs k (j + 1) = (norRegisterRounds l fs k j).link p f) ∧
    ∀ k < r, (norRegisterRounds l fs (k + 1) 0).Linked
    (norRegisterRounds l fs (k + 1) 0).head fs := by
  constructor
  · intro k _ j f hf
    obtain ⟨hj, -⟩ := List.getElem?_eq_some_iff.1 hf
    have h := norRegisterRounds_linked hnd hl k (Nat.le_of_lt hj)
    have hlen := Nat.le_succ_of_le (standing_length_le fs k j)
    refine ⟨_, _, h.walk, ?_⟩
    rw [norRegisterRounds_call l k hf, norRegisterFactory_linked h hlen]
  · intro k _
    have h := norRegisterRounds_linked hnd hl (k + 1) (Nat.zero_le fs.length)
    have hall : standing fs (k + 1) 0 = fs := if_pos ⟨Nat.succ_ne_zero k, rfl⟩
    rwa [hall] at h

/-- The factories of the driver, registered by three inits. -/
theorem norRegisterFactory_three_inits :
    (∀ k < 3, ∀ j f, factoryNames[j]? = some f → ∃ fuel p,
      (norRegisterRounds .empty factoryNames k j).walk fuel = some p ∧
        norRegisterRounds .empty factoryNames k (j + 1) =
          (norRegisterRounds .empty factoryNames k j).link p f) ∧
    ∀ k < 3, (norRegisterRounds .empty factoryNames (k + 1) 0).Linked
      (norRegisterRounds .empty factoryNames (k + 1) 0).head factoryNames :=
  norRegisterFactory_rounds (by decide) rfl 3

end D1Flash
