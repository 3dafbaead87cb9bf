import D1Flash.Spinor.Factories

namespace D1Flash
set_option autoImplicit true

/-- An entry of an id table that a search inspects. -/
structure IdLook where
  factory : FactoryName
  index : Nat
  deriving DecidableEq

/-- The search of `match_nor` in one table, for `n` entries from `i` on, with its looks. -/
def findIdLooks (f : NorFactory δ) (name : FactoryName) (id : List Byte) :
    Nat → Nat → Option NorInfo × List IdLook
  | 0, _ => (none, [])
  | n + 1, i =>
    if (f.idt i).id = id then (some (f.idt i), [⟨name, i⟩])
    else
      let r := findIdLooks f name id n (i + 1)
      (r.1, ⟨name, i⟩ :: r.2)

/-- The factory walk of `match_nor` with its return value, its looks and what it leaves in `nor`;
`none` is a walk that has not ended. -/
def matchNorWalk (factory : FactoryName → NorFactory δ) (l : FactoryList FactoryName) (nor : Nor δ)
    (id : List Byte) : Nat → Option FactoryName → Option ((Int × List IdLook) × Nor δ)
  | _, none => some ((-1, []), nor)
  | 0, some _ => none
  | fuel + 1, some f =>
    if (factory f).factory ≠ id.headD 0 then matchNorWalk factory l nor id fuel (l.next f)
    else
      match findIdLooks (factory f) f id (factory f).idtCnt 0 with
      | (some info, looks) =>
        some ((0, looks), { nor with factory := some (factory f), info := some info })
      | (none, looks) => some ((-1, looks), nor)

def matchNor (factory : FactoryName → NorFactory δ) (l : FactoryList FactoryName) (nor : Nor δ)
    (id : List Byte) : Option ((Int × List IdLook) × Nor δ) :=
  matchNorWalk factory l nor id factoryNames.length l.head

theorem findIdLooks_fst (f : NorFactory δ) (name : FactoryName) (id : List Byte) (n i : Nat) :
    (findIdLooks f name id n i).1 = findId f id n i := by
  induction n generalizing i with
  | zero => rfl
  | succ n ih =>
    rw [findIdLooks, findId]
    split
    · rfl
    · exact ih (i + 1)

/-- The walk finds what `nor_scan` takes from `match_nor`. -/
theorem matchNorWalk_found (factory : FactoryName → NorFactory δ) (l : FactoryList FactoryName)
    (nor : Nor δ) (id : List Byte)
    (h : matchNorWalk factory l nor id fuel p = some ((ret, looks), nor')) :
    match matchNorFrom factory l id (fuel + 1) p with
    | some (f, info) => ret = 0 ∧ nor' = { nor with factory := some f, info := some info }
    | none => ret = -1 ∧ nor' = nor := by
  induction fuel generalizing p with
  | zero =>
    cases p with
    | none =>
      cases h
      exact ⟨rfl, rfl⟩
    | some f => cases h
  | succ fuel ih =>
    cases p with
    | none =>
      cases h
      exact ⟨rfl, rfl⟩
    | some f =>
      rw [matchNorWalk] at h
      rw [matchNorFrom]
      by_cases hf : (factory f).factory ≠ id.headD 0
      · rw [if_pos hf] at h ⊢
        exact ih h
      · rw [if_neg hf] at h ⊢
        rw [← findIdLooks_fst (factory f) f id]
        rcases hl : findIdLooks (factory f) f id (factory f).idtCnt 0 with ⟨found, looks'⟩
        rw [hl] at h
        cases found with
        | none =>
          cases h
          exact ⟨rfl, rfl⟩
        | some info =>
          cases h
          exact ⟨rfl, rfl⟩

/-- The `next` pointers from `p` on lead through these factories and end. -/
def FactoryList.Linked (l : FactoryList ι) : Option ι → List ι → Prop
  | p, [] => p = none
  | p, f :: fs => p = some f ∧ l.Linked (l.next f) fs

theorem norFactoryRegister_linked :
    (norFactoryRegister .empty).Linked (norFactoryRegister .empty).head factoryNames := by
  refine ⟨rfl, rfl, rfl, rfl, rfl, rfl, rfl, rfl, rfl, rfl⟩

variable (factory : FactoryName → NorFactory δ) (nor : Nor δ) (id : List Byte)

/-- What `match_nor` does once it stands at a factory of the maker. -/
def matchNorIn (f : FactoryName) : (Int × List IdLook) × Nor δ :=
  match findIdLooks (factory f) f id (factory f).idtCnt 0 with
  | (some info, looks) => ((0, looks), { nor with factory := some (factory f), info := some info })
  | (none, looks) => ((-1, looks), nor)

theorem matchNorWalk_linked (h : l.Linked p names) (hn : names.length ≤ fuel) :
    matchNorWalk factory l nor id fuel p =
      match names.find? fun f => (factory f).factory == id.headD 0 with
      | some f => some (matchNorIn factory nor id f)
      | none => some ((-1, []), nor) := by
  induction names generalizing p fuel with
  | nil =>
    cases h
    cases fuel with
    | zero => rfl
    | succ fuel => rfl
  | cons f fs ih =>
    obtain ⟨rfl, hnext⟩ := h
    cases fuel with
    | zero => cases hn
    | succ fuel =>
      rw [matchNorWalk, List.find?_cons]
      by_cases hf : (factory f).factory = id.headD 0
      · rw [if_neg (not_not.2 hf), hf, beq_self_eq_true]
        dsimp only
        rw [matchNorIn]
        split <;> simp only [*]
      · rw [if_pos hf, beq_eq_false_iff_ne.2 hf]
        exact ih hnext (Nat.le_of_succ_le_succ hn)

/-- A search looks at the entries in order, and ends at the first with the id. -/
theorem findIdLooks_eq (f : NorFactory δ) (name : FactoryName) (n i : Nat) :
    findIdLooks f name id n i =
      match (List.range' i n).find? fun j => (f.idt j).id == id with
      | some k => (some (f.idt k), (List.range' i (k + 1 - i)).map (IdLook.mk name))
      | none => (none, (List.range' i n).map (IdLook.mk name)) := by
  induction n generalizing i with
  | zero => rfl
  | succ n ih =>
    rw [findIdLooks, List.range'_succ, List.find?_cons]
    by_cases hi : (f.idt i).id = id
    · rw [if_pos hi, beq_iff_eq.2 hi]
      dsimp only
      rw [Nat.add_sub_cancel_left]
      rfl
    · rw [if_neg hi, beq_eq_false_iff_ne.2 hi, ih]
      cases hk : (List.range' (i + 1) n).find? fun j => (f.idt j).id == id with
      | none => rfl
      | some k =>
        have hle : i + 1 ≤ k := by
          have hmem := List.mem_of_find?_eq_some hk
          rw [List.mem_range'_1] at hmem
          exact hmem.1
        have hsub : k + 1 - i = k + 1 - (i + 1) + 1 := by omega
        dsimp only
        rw [hsub, List.range'_succ]
        rfl

/-- The entry is in the table of its factory, and has the id. -/
def HasEntry (f : FactoryName) (i : Nat) : Prop :=
  (factory f).factory = id.headD 0 ∧ i < (factory f).idtLen ∧ ((factory f).idt i).id = id

/-- The search ends, stays in the table of the maker, finds the first entry with the id, and leaves
`nor` alone where there is none. -/
def MatchKept (r : Option ((Int × List IdLook) × Nor δ)) : Prop :=
  ∃ ret looks nor', r = some ((ret, looks), nor') ∧
    (∀ look ∈ looks, (factory look.factory).factory = id.headD 0 ∧
      look.index < (factory look.factory).idtLen) ∧
    (ret = 0 ↔ ∃ f i, HasEntry factory id f i) ∧
    (ret = 0 → ∃ f i, HasEntry factory id f i ∧ (∀ j < i, ((factory f).idt j).id ≠ id) ∧
      nor' = { nor with factory := some (factory f), info := some ((factory f).idt i) }) ∧
    (ret ≠ 0 → nor' = nor)

/-- The maker has no factory, or its table has the id. -/
def IdSettled : Prop :=
  (∀ f, (factory f).factory ≠ id.headD 0) ∨ ∃ f i, HasEntry factory id f i

theorem matchKept_of_no_factory (hno : ∀ f, (factory f).factory ≠ id.headD 0) :
    MatchKept factory nor id (some ((-1, []), nor)) := by
  have hnone : ¬ ∃ f i, HasEntry factory id f i := by
    rintro ⟨f, i, hf, -⟩
    exact hno f hf
  have hret : (-1 : Int) ≠ 0 := by decide
  exact ⟨-1, [], nor, rfl, fun _ h => absurd h List.not_mem_nil, iff_of_false hret hnone,
    fun h => absurd h hret, fun _ => rfl⟩

theorem matchNorIn_past (hn : n < (factory f).idtCnt)
    (hother : ∀ i < n, ((factory f).idt i).id ≠ id) :
    ∃ i ≥ n, IdLook.mk f i ∈ (matchNorIn factory nor id f).1.2 := by
  rw [matchNorIn, findIdLooks_eq]
  cases hk : (List.range' 0 (factory f).idtCnt).find? fun j => ((factory f).idt j).id == id with
  | none =>
    refine ⟨n, Nat.le_refl n, List.mem_map_of_mem ?_⟩
    rw [List.mem_range'_1]
    exact ⟨Nat.zero_le n, by omega⟩
  | some k =>
    obtain ⟨hid, -, -⟩ := List.find?_range'_eq_some.1 hk
    refine ⟨k, ?_, List.mem_map_of_mem ?_⟩
    · apply Nat.le_of_not_lt
      intro hlt
      exact hother k hlt (beq_iff_eq.1 hid)
    · rw [List.mem_range'_1]
      exact ⟨Nat.zero_le k, by omega⟩

theorem matchNorIn_found (hcnt : (factory f).idtLen ≤ (factory f).idtCnt)
    (h : HasEntry factory id f i) :
    ∃ k, HasEntry factory id f k ∧ (∀ j < k, ((factory f).idt j).id ≠ id) ∧
      matchNorIn factory nor id f =
        ((0, (List.range' 0 (k + 1)).map (IdLook.mk f)),
          { nor with factory := some (factory f), info := some ((factory f).idt k) }) := by
  obtain ⟨hf, hi, hid⟩ := h
  rw [matchNorIn, findIdLooks_eq]
  cases hk : (List.range' 0 (factory f).idtCnt).find? fun j => ((factory f).idt j).id == id with
  | none =>
    have hne := List.find?_range'_eq_none.1 hk i (Nat.zero_le i) (by omega)
    rw [beq_iff_eq.2 hid] at hne
    cases hne
  | some k =>
    obtain ⟨hidk, -, hbefore⟩ := List.find?_range'_eq_some.1 hk
    have hfirst : ∀ j < k, ((factory f).idt j).id ≠ id := by
      intro j hj
      simpa using hbefore j (Nat.zero_le j) hj
    have hle : k ≤ i := by
      apply Nat.le_of_not_lt
      intro hlt
      exact hfirst i hlt hid
    exact ⟨k, ⟨hf, Nat.lt_of_le_of_lt hle hi, beq_iff_eq.1 hidk⟩, hfirst, rfl⟩

variable {factory id}

theorem matchKept_iff (hlink : l.Linked l.head factoryNames) (hall : ∀ f, f ∈ factoryNames)
    (hone : ∀ f g, (factory f).factory = (factory g).factory → f = g)
    (hcnt : ∀ f, (factory f).idtLen < (factory f).idtCnt) (nor : Nor δ) :
    MatchKept factory nor id (matchNor factory l nor id) ↔ IdSettled factory id := by
  rw [matchNor, matchNorWalk_linked factory nor id hlink (Nat.le_refl _)]
  cases hfind : factoryNames.find? fun f => (factory f).factory == id.headD 0 with
  | none =>
    have hno : ∀ f, (factory f).factory ≠ id.headD 0 := by
      intro f
      simpa using List.find?_eq_none.1 hfind f (hall f)
    exact iff_of_true (matchKept_of_no_factory factory nor id hno) (.inl hno)
  | some f =>
    have hf : (factory f).factory = id.headD 0 := by
      simpa using List.find?_some hfind
    dsimp only
    constructor
    · rintro ⟨ret, looks, nor', hr, hlooks, -⟩
      apply Classical.byContradiction
      intro hsettled
      have hother : ∀ i < (factory f).idtLen, ((factory f).idt i).id ≠ id :=
        fun i hi hid => hsettled (.inr ⟨f, i, hf, hi, hid⟩)
      obtain ⟨i, hi, hlook⟩ := matchNorIn_past factory nor id (hcnt f) hother
      rw [Option.some.inj hr] at hlook
      exact absurd (hlooks _ hlook).2 (Nat.not_lt.2 hi)
    · rintro (hno | ⟨g, i, h⟩)
      · exact absurd hf (hno f)
      · cases hone g f (h.1.trans hf.symm)
        obtain ⟨k, hk, hfirst, heq⟩ := matchNorIn_found factory nor id (Nat.le_of_lt (hcnt f)) h
        refine ⟨_, _, _, congrArg some heq, ?_, iff_of_true rfl ⟨f, i, h⟩,
          fun _ => ⟨f, k, hk, hfirst, rfl⟩, fun h => absurd rfl h⟩
        intro look hlook
        obtain ⟨j, hj, rfl⟩ := List.mem_map.1 hlook
        rw [List.mem_range'_1, Nat.zero_add] at hj
        exact ⟨hf, Nat.lt_of_lt_of_le hj.2 hk.2.1⟩

variable (cfg : Config) (p : SpiPort δ) (behind : FactoryName → Nat → NorInfo)

theorem mem_factoryNames (f : FactoryName) : f ∈ factoryNames := by
  cases f <;> decide

/-- The maker's byte of a factory. -/
def FactoryName.maker : FactoryName → Byte
  | .gd => 0xC8
  | .mxic => 0xC2
  | .winbond => 0xEF
  | .xtx => 0x0B
  | .esmt => 0x1C
  | .fm => 0xA1
  | .xmc => 0x20
  | .puya => 0x85
  | .zetta => 0xBA

theorem norFactory_maker (f : FactoryName) : (norFactory cfg p behind f).factory = f.maker := by
  cases f <;> rfl

theorem norFactory_maker_inj (f g : FactoryName)
    (h : (norFactory cfg p behind f).factory = (norFactory cfg p behind g).factory) : f = g := by
  have hinj : ∀ f ∈ factoryNames, ∀ g ∈ factoryNames, f.maker = g.maker → f = g := by decide
  rw [norFactory_maker, norFactory_maker] at h
  exact hinj f (mem_factoryNames f) g (mem_factoryNames g) h

theorem norFactory_idtCnt (f : FactoryName) :
    (norFactory cfg p behind f).idtCnt = (norFactory cfg p behind f).idtLen * norInfoBytes := by
  cases f <;> rfl

theorem norFactory_idtLen_pos (f : FactoryName) : 0 < (norFactory cfg p behind f).idtLen := by
  cases f <;> exact Nat.succ_pos _

theorem norFactory_overrun (f : FactoryName) :
    (norFactory cfg p behind f).idtLen < (norFactory cfg p behind f).idtCnt := by
  have hpos := norFactory_idtLen_pos cfg p behind f
  rw [norFactory_idtCnt]
  exact (Nat.lt_mul_iff_one_lt_right hpos).2 (by decide)

/-- Over the factories as the driver registers them, whatever lies behind their tables. -/
theorem matchNor_kept_iff (nor : Nor δ) (id₀ id₁ id₂ : Byte) :
    MatchKept (norFactory cfg p behind) nor [id₀, id₁, id₂]
        (matchNor (norFactory cfg p behind) (norFactoryRegister .empty) nor [id₀, id₁, id₂]) ↔
      IdSettled (norFactory cfg p behind) [id₀, id₁, id₂] :=
  matchKept_iff norFactoryRegister_linked mem_factoryNames (norFactory_maker_inj cfg p behind)
    (norFactory_overrun cfg p behind) nor

/-- A Winbond chip of 32M, which neither entry of its table is: the search goes past them. -/
theorem matchNor_overruns :
    let factory := norFactory ⟨true, true, true⟩ busPort fun _ _ => w25q64jv
    let nor := (Spinor.initial (SpiBus.atRest [0xEF, 0x40, 0x19] 0x2000000 fun _ => 0)).nor
    ¬ MatchKept factory nor [0xEF, 0x40, 0x19]
      (matchNor factory (norFactoryRegister .empty) nor [0xEF, 0x40, 0x19]) := by
  intro factory nor
  rintro ⟨ret, looks, nor', hr, hlooks, -⟩
  have hother : ∀ i < 2, ((factory .winbond).idt i).id ≠ [0xEF, 0x40, 0x19] := by decide
  have hfind : factoryNames.find?
      (fun f => (factory f).factory == ([0xEF, 0x40, 0x19] : List Byte).headD 0) =
      some .winbond := by
    decide
  obtain ⟨i, hi, hlook⟩ := matchNorIn_past factory nor [0xEF, 0x40, 0x19] (f := .winbond)
    (by decide) hother
  rw [matchNor, matchNorWalk_linked factory nor _ norFactoryRegister_linked (Nat.le_refl _),
    hfind] at hr
  rw [Option.some.inj hr] at hlook
  exact absurd (hlooks _ hlook).2 (Nat.not_lt.2 hi)

end D1Flash
