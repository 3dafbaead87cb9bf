import D1Flash.Lib.Runs
import D1Flash.Spinor.FlashOps

namespace D1Flash
open Runs (run Along)
set_option autoImplicit true

inductive LifeOp where
  | init
  | deinit

/-- The driver with the steps that have completed since the last successful deinit, and whether an
init has since failed behind its scan. -/
structure LifeState (δ : Type) where
  st : Spinor δ
  completed : List InitStep
  failedLate : Bool

def lifeStep (cfg : Config) (p : Platform δ) (r : LifeState δ) : LifeOp → Int × LifeState δ
  | .init =>
    match norInit cfg p r.st with
    | ((ret, done), st) =>
      (ret, {
        st := st
        completed := r.completed ++ done
        failedLate := r.failedLate || decide (ret ≠ 0 ∧ .scan ∈ done) })
  | .deinit =>
    match norDeinit cfg p r.st with
    | (ret, st) =>
      (ret, if ret = 0 then { st := st, completed := [], failedLate := false }
        else { r with st := st })

def initNames (cfg : Config) (p : Platform δ) : List InitStep := (initSteps cfg p).map (·.1)

/-- An init that answers 0 leaves every step completed. -/
def LifeOp.Complete (cfg : Config) (p : Platform δ) (r : LifeState δ) (op : LifeOp) : Prop :=
  op = .init → (lifeStep cfg p r op).1 = 0 →
    ∀ name ∈ initNames cfg p, name ∈ (lifeStep cfg p r op).2.completed

/-- No init follows one that failed behind its scan, unless a deinit has cleared up. -/
def LifeOp.Cleared (r : LifeState δ) (op : LifeOp) : Prop := op = .init → r.failedLate = false

/-- Of what `nor_cache_init` allocates only the block bitmap finds no memory. -/
def LosesBitmapBlk (p : Platform δ) (st : Spinor δ) : Prop :=
  let (sem, s₁) := p.halSemCreate st.dev
  let (buf, s₂) := p.malloc cacheSize s₁
  let (bitmapPage, s₃) := p.malloc (bitmapBytes (cacheSize / st.nor.pageSize)) s₂
  let (bitmapBlk, _) := p.malloc (bitmapBytes (cacheSize / st.nor.blkSize)) s₃
  st.cache = none ∧ sem = true ∧ buf = true ∧ bitmapPage = true ∧
    0 < cacheSize / st.nor.blkSize ∧ bitmapBlk = false

/-- No init that gets to the cache finds memory for all but the block bitmap. -/
def LifeOp.HasBitmaps (cfg : Config) (p : Platform δ) (r : LifeState δ) (op : LifeOp) : Prop :=
  op = .init → r.st.nor.info = none → cfg.cache = true →
    ∀ done st, runSteps (coreSteps cfg p) r.st = ((0, done), st) → ¬ LosesBitmapBlk p st

variable {cfg : Config} {p : Platform δ}
  {steps : List (InitStep × (Spinor δ → Int × Spinor δ))}

theorem runSteps_names (h : runSteps steps st = ((0, done), st'))
    (hcache : .cacheInit ∉ steps.map (·.1)) : done = steps.map (·.1) := by
  induction steps generalizing st done with
  | nil =>
    obtain ⟨hr, -⟩ := Prod.mk.inj h
    exact (Prod.mk.inj hr).2.symm
  | cons head steps ih =>
    obtain ⟨name, step⟩ := head
    obtain ⟨st₁, done', -, hrest, rfl⟩ := runSteps_cons_ok h
    rw [List.map_cons, List.mem_cons, not_or] at hcache
    have hworks : name.works st₁ = true := by
      cases name with
      | cacheInit => exact (hcache.1 rfl).elim
      | _ => rfl
    rw [if_pos hworks, ih hrest hcache.2, List.map_cons]

theorem coreSteps_noCache : .cacheInit ∉ (coreSteps cfg p).map (·.1) := by
  rw [coreSteps]
  cases cfg.writeLock <;>
    simp only [Bool.false_eq_true, if_false, if_true, List.map_append, List.map_cons, List.map_nil,
      List.mem_append, List.mem_cons, List.not_mem_nil, reduceCtorEq, or_self, not_false_eq_true]

/-- A cache init that answers 0 has both bitmaps, unless it lost the second. -/
theorem norCacheInit_bitmapBlk (h : norCacheInit p st = (0, st')) (hb : ¬ LosesBitmapBlk p st) :
    st'.bitmapBlk = true := by
  rw [norCacheInit] at h
  cases hcache : st.cache with
  | some c =>
    rw [hcache, Option.isSome_some, if_pos rfl] at h
    exact absurd (Prod.mk.inj h).1 (by decide)
  | none =>
    rw [hcache, Option.isSome_none, if_neg Bool.false_ne_true] at h
    rw [LosesBitmapBlk, hcache] at hb
    rcases h₁ : p.halSemCreate st.dev with ⟨_ | _, s₁⟩
    · rw [h₁] at h
      exact absurd (Prod.mk.inj h).1 (by decide)
    rcases h₂ : p.malloc cacheSize s₁ with ⟨_ | _, s₂⟩
    · simp only [h₁, initCache, h₂] at h
      exact absurd (Prod.mk.inj h).1 (by decide)
    rcases h₃ : p.malloc (bitmapBytes (cacheSize / st.nor.pageSize)) s₂ with ⟨_ | _, s₃⟩
    · simp only [h₁, initCache, h₂, initBitmap, Spinor.onDev_nor, Spinor.onDev_dev, h₃,
        Bool.not_false, if_true] at h
      exact absurd (Prod.mk.inj h).1 (by decide)
    rcases h₄ : p.malloc (bitmapBytes (cacheSize / st.nor.blkSize)) s₃ with ⟨ok, s₄⟩
    simp only [h₁, h₂, h₃, h₄, true_and, not_and, Bool.not_eq_false] at hb
    simp only [h₁, initCache, h₂, initBitmap, Spinor.onDev_nor, Spinor.onDev_dev, h₃, h₄,
      Bool.not_true, Bool.false_eq_true, if_false] at h
    by_cases hblk : cacheSize / st.nor.blkSize = 0
    · simp only [if_pos hblk] at h
      exact absurd (Prod.mk.inj h).1 (by decide)
    · rw [if_neg hblk] at h
      rw [← (Prod.mk.inj h).2]
      exact hb (Nat.pos_of_ne_zero hblk)

theorem initSteps_names (h : runSteps (initSteps cfg p) st = ((0, done), st'))
    (hb : cfg.cache = true →
      ∀ done st₁, runSteps (coreSteps cfg p) st = ((0, done), st₁) → ¬ LosesBitmapBlk p st₁) :
    done = initNames cfg p := by
  obtain ⟨done₁, st₁, done₂, hcore, hcache, rfl⟩ := runSteps_append h
  rw [initNames, initSteps, List.map_append, runSteps_names hcore coreSteps_noCache]
  congr 1
  cases hc : cfg.cache with
  | false =>
    rw [hc, if_neg Bool.false_ne_true] at hcache
    rw [if_neg Bool.false_ne_true]
    exact (Prod.mk.inj (Prod.mk.inj hcache).1).2.symm
  | true =>
    rw [hc, if_pos rfl] at hcache
    obtain ⟨st₂, done', hinit, hnil, rfl⟩ := runSteps_cons_ok hcache
    obtain ⟨hr, -⟩ := Prod.mk.inj hnil
    obtain ⟨-, rfl⟩ := Prod.mk.inj hr
    have hworks : InitStep.works st₂ .cacheInit = true :=
      norCacheInit_bitmapBlk hinit (hb hc _ _ hcore)
    rw [if_pos hworks, if_pos rfl]
    rfl

/-- From a driver without info the steps fail with it, unless the scan completes. -/
def ClearOnFailure (steps : List (InitStep × (Spinor δ → Int × Spinor δ))) : Prop :=
  ∀ st ret done st', st.nor.info = none → runSteps steps st = ((ret, done), st') →
    ret ≠ 0 → .scan ∉ done → st'.nor.info = none

theorem ClearOnFailure.cons {step : Spinor δ → Int × Spinor δ} (h : ClearOnFailure steps)
    (hstep : ∀ st, (step st).2.nor = st.nor) : ClearOnFailure ((name, step) :: steps) := by
  intro st ret done st' hi hrun hret hscan
  rw [runSteps] at hrun
  rcases h₁ : step st with ⟨ret₁, st₁⟩
  have hnor := hstep st
  rw [h₁] at hrun hnor
  dsimp only at hrun hnor
  by_cases h0 : ret₁ = 0
  · rw [if_neg (not_not.2 h0)] at hrun
    rcases h₂ : runSteps steps st₁ with ⟨⟨ret₂, done₂⟩, st₂⟩
    rw [h₂] at hrun
    obtain ⟨hr, rfl⟩ := Prod.mk.inj hrun
    obtain ⟨rfl, rfl⟩ := Prod.mk.inj hr
    apply h st₁ _ _ _ (hnor ▸ hi) h₂ hret
    intro hm
    apply hscan
    split
    · exact List.mem_cons_of_mem _ hm
    · exact hm
  · rw [if_pos h0] at hrun
    obtain ⟨-, rfl⟩ := Prod.mk.inj hrun
    exact hnor ▸ hi

theorem ClearOnFailure.scan {step : Spinor δ → Int × Spinor δ}
    (hstep : ∀ st ret st', step st = (ret, st') → ret ≠ 0 → st'.nor.info = none) :
    ClearOnFailure ((.scan, step) :: steps) := by
  intro st ret done st' hi hrun hret hscan
  rw [runSteps] at hrun
  rcases h₁ : step st with ⟨ret₁, st₁⟩
  rw [h₁] at hrun
  dsimp only at hrun
  by_cases h0 : ret₁ = 0
  · rw [if_neg (not_not.2 h0)] at hrun
    rcases h₂ : runSteps steps st₁ with ⟨⟨ret₂, done₂⟩, st₂⟩
    rw [h₂] at hrun
    obtain ⟨hr, rfl⟩ := Prod.mk.inj hrun
    obtain ⟨-, rfl⟩ := Prod.mk.inj hr
    exact (hscan List.mem_cons_self).elim
  · rw [if_pos h0] at hrun
    obtain ⟨-, rfl⟩ := Prod.mk.inj hrun
    exact hstep st _ _ h₁ h0

theorem scanCommands_fails (h : scanCommands info st = (ret, st')) (hret : ret ≠ 0) :
    st'.nor.info = none := by
  rw [scanCommands] at h
  dsimp only at h
  split at h
  · split at h
    · rw [← (Prod.mk.inj h).2]
    · exact (hret (Prod.mk.inj h).1.symm).elim
  · exact (hret (Prod.mk.inj h).1.symm).elim

/-- Every error exit of `nor_scan` clears the info. -/
theorem norScan_fails (h : norScan cfg p st = (ret, st')) (hret : ret ≠ 0) :
    st'.nor.info = none := by
  rw [norScan] at h
  rcases h₁ : norReadId p st.dev with ⟨⟨ret₁, id⟩, s⟩
  rw [h₁] at h
  dsimp only at h
  by_cases h0 : ret₁ = 0
  · rw [if_neg (not_not.2 h0)] at h
    cases hf : matchNorFrom p.factory (st.onDev s).fhead id (factoryNames.length + 1)
      (st.onDev s).fhead.head with
    | none =>
      rw [hf] at h
      rw [← (Prod.mk.inj h).2]
    | some found =>
      rw [hf] at h
      dsimp only at h
      cases hb : scanBlkSize cfg found.2.withGeneral with
      | none =>
        rw [hb] at h
        rw [← (Prod.mk.inj h).2]
      | some blkSize =>
        rw [hb] at h
        exact scanCommands_fails h hret
  · rw [if_pos h0] at h
    rw [← (Prod.mk.inj h).2]

theorem initSteps_clear : ClearOnFailure (initSteps cfg p) := by
  rw [initSteps]
  exact .cons (.cons (.cons (.cons (.scan fun _ _ _ => norScan_fails) fun _ => rfl) fun _ => rfl)
    fun _ => rfl) fun _ => rfl

/-- While no init has failed behind its scan, the info stands for a complete initialisation. -/
def LifeState.Good (cfg : Config) (p : Platform δ) (r : LifeState δ) : Prop :=
  r.failedLate = false → r.st.nor.info.isSome → ∀ name ∈ initNames cfg p, name ∈ r.completed

theorem lifeStep_init (hr : LifeState.Good cfg p r) (hclear : r.failedLate = false)
    (hb : LifeOp.HasBitmaps cfg p r .init) :
    (lifeStep cfg p r .init).2.Good cfg p ∧ LifeOp.Complete cfg p r .init := by
  rcases h : norInit cfg p r.st with ⟨⟨ret, done⟩, st'⟩
  have hstep : lifeStep cfg p r .init = (ret, {
      st := st'
      completed := r.completed ++ done
      failedLate := r.failedLate || decide (ret ≠ 0 ∧ .scan ∈ done) }) := by
    rw [lifeStep, h]
  -- an init that answers 0 has made all steps or found them made
  have hall : ret = 0 → ∀ name ∈ initNames cfg p, name ∈ r.completed ++ done := by
    rintro rfl name hname
    rw [norInit] at h
    by_cases hi : r.st.nor.info.isSome = true
    · exact List.mem_append_left _ (hr hclear hi name hname)
    · rw [if_neg hi] at h
      rw [initSteps_names h (hb rfl (Option.not_isSome_iff_eq_none.1 hi))]
      exact List.mem_append_right _ hname
  rw [LifeOp.Complete, hstep]
  refine ⟨?_, fun _ => hall⟩
  intro hlate hi
  simp only [hclear, Bool.false_or, decide_eq_false_iff_not] at hlate
  by_cases h0 : ret = 0
  · exact hall h0
  · have hnone : r.st.nor.info = none := by
      rw [norInit] at h
      by_cases hi : r.st.nor.info.isSome = true
      · rw [if_pos hi] at h
        exact (h0 (Prod.mk.inj (Prod.mk.inj h).1).1.symm).elim
      · exact Option.not_isSome_iff_eq_none.1 hi
    simp only [norInit, hnone, Option.isSome_none, Bool.false_eq_true, if_false] at h
    have hclear' := initSteps_clear _ _ _ _ hnone h h0 fun hm => hlate ⟨h0, hm⟩
    change st'.nor.info.isSome = true at hi
    rw [hclear'] at hi
    cases hi

theorem lifeStep_deinit (hr : LifeState.Good cfg p r) :
    (lifeStep cfg p r .deinit).2.Good cfg p := by
  rw [lifeStep, norDeinit]
  cases hi : r.st.nor.info with
  | none => exact hr
  | some info =>
    intro _ hsome
    cases hsome

/-- In every run without an init on top of one that failed late and without one that loses the
block bitmap, an init that answers 0 leaves every step completed. -/
theorem norInit_complete {st : Spinor δ} (hst : st.nor.info = none)
    (hc : Along (lifeStep cfg p) (fun r op => op.Cleared r ∧ op.HasBitmaps cfg p r)
      ⟨st, [], false⟩ calls) :
    Along (lifeStep cfg p) (LifeOp.Complete cfg p) ⟨st, [], false⟩ calls := by
  have hstart : LifeState.Good cfg p ⟨st, [], false⟩ := by
    intro _ hi
    rw [hst] at hi
    cases hi
  refine Runs.along_of_invariant ?_ hstart hc
  intro r op hr hop
  cases op with
  | init => exact lifeStep_init hr (hop.1 rfl) hop.2
  | deinit => exact ⟨lifeStep_deinit hr, nofun⟩

/-- A driver that has not been initialised, on an erased w25q64jv. -/
def offW25q64jv (faults : Nat → Option TransferFault) : LifeState SpiBus :=
  ⟨.initial { SpiBus.atRest w25q64jv.id 0x800000 (fun _ => 0xFF) with faults := faults }, [], false⟩

/-- The factory's init fails, and the next init answers 0; and an init answers 0 when the block
bitmap finds no memory. -/
theorem norInit_after_failure :
    (¬ ∀ (p : Platform SpiBus) (calls : List LifeOp),
      Along (lifeStep ⟨false, false, true⟩ p) (LifeOp.Complete ⟨false, false, true⟩ p)
        (offW25q64jv fun _ => none) calls) ∧
    ¬ ∀ p : Platform SpiBus,
      Along (lifeStep ⟨false, true, true⟩ p) (LifeOp.Complete ⟨false, true, true⟩ p)
        (offW25q64jv fun _ => none) [.init] := by
  constructor
  · intro h
    have hrun := h (quietBoard fun _ => { plainFactory with init := some fun _ b => (-1, b) })
      [.init, .init]
    have hmem := hrun.2.1 rfl (by decide +kernel) .factoryInit (by decide +kernel)
    exact absurd hmem (by decide +kernel)
  · intro h
    have hrun := h { quietBoard fun _ => plainFactory with malloc := fun n b => (n != 8, b) }
    have hmem := hrun.1 rfl (by decide +kernel) .cacheInit (by decide +kernel)
    exact absurd hmem (by decide +kernel)

/-- The unlock-all of the first init fails behind its scan, and a deinit clears up. -/
theorem norInit_complete_w25q64jv :
    let start := offW25q64jv fun n => if n = 3 then some (.after 0) else none
    (run (lifeStep ⟨false, true, true⟩ (quietBoard fun _ => plainFactory)) start
      [.init, .deinit, .init, .init]).1 = [-1, 0, 0, 0] ∧
    Along (lifeStep ⟨false, true, true⟩ (quietBoard fun _ => plainFactory))
      (LifeOp.Complete ⟨false, true, true⟩ (quietBoard fun _ => plainFactory)) start
      [.init, .deinit, .init, .init] := by
  have hbitmaps : ∀ r op,
      LifeOp.HasBitmaps ⟨false, true, true⟩ (quietBoard fun _ => plainFactory) r op := by
    intro r op _ _ _ done st _ hlost
    exact Bool.noConfusion hlost.2.2.2.2.2
  refine ⟨by decide +kernel, ?_⟩
  apply norInit_complete rfl
  exact ⟨⟨fun _ => rfl, hbitmaps _ _⟩, ⟨LifeOp.noConfusion, hbitmaps _ _⟩,
    ⟨fun _ => by decide +kernel, hbitmaps _ _⟩, ⟨fun _ => by decide +kernel, hbitmaps _ _⟩, trivial⟩

end D1Flash
