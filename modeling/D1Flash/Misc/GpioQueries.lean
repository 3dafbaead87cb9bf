import D1Flash.Misc.Script

namespace D1Flash
open NorArray (put slice)
set_option autoImplicit true

section
variable (buf : Int → UInt8)

/-- The GPIO sub keys of a main key among `n` from `j` on. -/
def gpioSubsFrom (key : ScriptMainKey) (n j : Nat) : List ScriptSubKey :=
  ((List.range' j n).map (subKey buf key)).filter ScriptSubKey.isGpio

def gpioSubs (key : ScriptMainKey) : List ScriptSubKey := gpioSubsFrom buf key key.lenth.toNat 0

/-- The main keys with a name among `n` from `i` on. -/
def namedFrom (name : CStr) (n i : Nat) : List ScriptMainKey :=
  ((List.range' i n).map (mainKey buf)).filter fun key => key.named name

def namedKeys (count : Int) (name : CStr) : List ScriptMainKey :=
  namedFrom buf (mainChar name) count.toNat 0

/-- The GPIO sub keys that a name has in an image, of all its main keys. -/
def gpioKeys (count : Int) (name : CStr) : List ScriptSubKey :=
  (namedKeys buf count name).flatMap (gpioSubs buf)

def firstGpioKeys (count : Int) (name : CStr) : List ScriptSubKey :=
  match namedKeys buf count name with
  | [] => []
  | key :: _ => gpioSubs buf key

/-- A byte of an entry: the name, zeros up to the data, and the data; an entry for no sub key is
zero. -/
def entryByte : Option ScriptSubKey → Nat → UInt8
  | none, _ => 0
  | some sub, k =>
    if k < strlen sub.subName scriptNameSize 0 then sub.subName k
    else if k < scriptNameSize then 0
    else buf (shiftOffset sub.offset + (k - scriptNameSize : Nat))

end

def asCount (n : Nat) : Int := toI32 (n % 0x100000000)

theorem nextCount_asCount (n : Nat) : nextCount (asCount n) = asCount (n + 1) := by
  simp only [nextCount, asCount, toU32, toI32]
  split
  · split
    · split <;> omega
    · split <;> omega
  · split
    · split <;> omega
    · split <;> omega

variable {buf : Int → UInt8}

theorem gpioSubsFrom_succ (key : ScriptMainKey) (n j : Nat) :
    gpioSubsFrom buf key (n + 1) j =
      if (subKey buf key j).isGpio then subKey buf key j :: gpioSubsFrom buf key n (j + 1)
      else gpioSubsFrom buf key n (j + 1) := by
  rw [gpioSubsFrom, List.range'_succ, List.map_cons, List.filter_cons]
  rfl

theorem namedFrom_succ (name : CStr) (n i : Nat) :
    namedFrom buf name (n + 1) i =
      if (mainKey buf i).named name then mainKey buf i :: namedFrom buf name n (i + 1)
      else namedFrom buf name n (i + 1) := by
  rw [namedFrom, List.range'_succ, List.map_cons, List.filter_cons]
  rfl

theorem countSubKeys_eq (key : ScriptMainKey) (n j c : Nat) :
    countSubKeys buf key n j (asCount c) = asCount (c + (gpioSubsFrom buf key n j).length) := by
  induction n generalizing j c with
  | zero => rfl
  | succ n ih =>
    rw [countSubKeys, gpioSubsFrom_succ]
    split
    · rw [nextCount_asCount, ih, List.length_cons]
      congr 1
      omega
    · exact ih (j + 1) c

theorem countMainKeys_eq (name : CStr) (n i c : Nat) :
    countMainKeys buf name n i (asCount c) =
      asCount (c + ((namedFrom buf name n i).flatMap (gpioSubs buf)).length) := by
  induction n generalizing i c with
  | zero => rfl
  | succ n ih =>
    rw [countMainKeys, namedFrom_succ]
    split
    · rw [countSubKeys_eq, ih, List.flatMap_cons, List.length_append]
      congr 1
      exact Nat.add_assoc _ _ _
    · exact ih (i + 1) c

theorem getGpioCount_eq (size count : Int) (name : CStr) :
    scriptParserMainkeyGetGpioCount (some ⟨some buf, size, count⟩) (some name) =
      asCount (gpioKeys buf count name).length := by
  have h := @countMainKeys_eq buf (mainChar name) count.toNat 0 0
  rw [Nat.zero_add] at h
  exact h

/-- The walk fills the entries of the next sub keys, one of them whatever the bound is. -/
theorem fillSubKeys_eq (cfg gpioCount : Nat) (key : ScriptMainKey) (n j : Nat) (u : GpioArray) :
    fillSubKeys buf cfg gpioCount key n j u =
      ((gpioSubsFrom buf key n j).take (max 1 (gpioCount - u.userIndex))).foldl
        (fun u sub => u.fill buf cfg sub) u := by
  induction n generalizing j u with
  | zero =>
    rw [fillSubKeys, gpioSubsFrom, List.range'_zero, List.map_nil, List.filter_nil, List.take_nil]
    rfl
  | succ n ih =>
    rw [fillSubKeys, gpioSubsFrom_succ]
    dsimp only
    split
    · have hidx : (u.fill buf cfg (subKey buf key j)).userIndex = u.userIndex + 1 := rfl
      by_cases hfull : u.userIndex + 1 ≥ gpioCount
      · have hone : max 1 (gpioCount - u.userIndex) = 0 + 1 := by omega
        rw [if_pos (by rw [hidx]; exact hfull), hone, List.take_succ_cons, List.take_zero]
        rfl
      · have hmore : max 1 (gpioCount - u.userIndex) =
            max 1 (gpioCount - (u.userIndex + 1)) + 1 := by omega
        rw [if_neg (by rw [hidx]; exact hfull), ih, hmore, List.take_succ_cons,
          List.foldl_cons, hidx]
    · exact ih (j + 1) u

/-- An array of `gpioCount` entries with the first of them filled from some sub keys. -/
structure Filled (buf : Int → UInt8) (cfg gpioCount : Nat) (subs : List ScriptSubKey)
    (u : GpioArray) : Prop where
  index : u.userIndex = subs.length
  entries : ∀ i < gpioCount, ∀ k < userGpioSetSize,
    u.mem (cfg + i * userGpioSetSize + k) = entryByte buf subs[i]? k
  inside : ∀ w ∈ u.writes, cfg ≤ w.1 ∧ w.1 + w.2 ≤ cfg + gpioCount * userGpioSetSize

theorem strlen_spec {s : CStr} (h : ∃ i < n, s (k + i) = 0) :
    strlen s n k < k + n ∧ s (strlen s n k) = 0 := by
  induction n generalizing k with
  | zero =>
    obtain ⟨i, hi, -⟩ := h
    cases hi
  | succ n ih =>
    rw [strlen]
    by_cases h0 : s k = 0
    · rw [if_pos h0]
      exact ⟨by omega, h0⟩
    · rw [if_neg h0]
      have hrest : ∃ i < n, s (k + 1 + i) = 0 := by
        obtain ⟨i, hi, hz⟩ := h
        cases i with
        | zero => exact (h0 hz).elim
        | succ i => exact ⟨i, by omega, by rwa [Nat.add_assoc, Nat.add_comm 1 i]⟩
      obtain ⟨hlt, hz⟩ := ih hrest
      exact ⟨by omega, hz⟩

theorem strlen_name {s : CStr} (h : ∃ k < scriptNameSize, s k = 0) :
    strlen s scriptNameSize 0 < scriptNameSize ∧ s (strlen s scriptNameSize 0) = 0 := by
  have hz : ∃ i < scriptNameSize, s (0 + i) = 0 := by
    obtain ⟨i, hi, hz⟩ := h
    exact ⟨i, hi, by rwa [Nat.zero_add]⟩
  exact strlen_spec hz

theorem memset_filled (cfg gpioCount : Nat) (mem : Nat → UInt8) (idx : Nat) :
    Filled buf cfg gpioCount []
      { (GpioArray.write ⟨mem, [], idx⟩ cfg
        (List.replicate (userGpioSetSize * gpioCount) 0)) with userIndex := 0 } where
  index := rfl
  entries := by
    intro i hi k hk
    have hin : cfg + i * userGpioSetSize + k - cfg <
        (List.replicate (userGpioSetSize * gpioCount) (0 : UInt8)).length := by
      rw [List.length_replicate]
      simp only [userGpioSetSize] at *
      omega
    exact (NorArray.put_inside mem (by omega) hin).trans (List.getElem_replicate hin)
  inside := by
    intro w hw
    cases List.mem_singleton.1 hw
    rw [List.length_replicate, Nat.mul_comm]
    exact ⟨Nat.le_refl _, Nat.le_refl _⟩

theorem fill_byte {u : GpioArray} (hname : ∃ k < scriptNameSize, sub.subName k = 0)
    (hk : k < userGpioSetSize) (hzero : u.mem (cfg + u.userIndex * userGpioSetSize + k) = 0) :
    (u.fill buf cfg sub).mem (cfg + u.userIndex * userGpioSetSize + k) =
      entryByte buf (some sub) k := by
  obtain ⟨hlen, hend⟩ := strlen_name hname
  rw [GpioArray.fill, entryByte]
  simp only [GpioArray.write]
  generalize hl : strlen sub.subName scriptNameSize 0 = len at *
  generalize cfg + u.userIndex * userGpioSetSize = e at *
  simp only [scriptNameSize, userGpioSetSize] at *
  have hcut : (slice sub.subName 0 (len + 1)).length = len + 1 := NorArray.slice_length _
  by_cases h32 : k < 32
  · rw [NorArray.put_outside _ (by omega)]
    by_cases hin : k < len + 1
    · have hk' : e + k - e < (slice sub.subName 0 (len + 1)).length := by omega
      have hsub : 0 + (e + k - e) = k := by omega
      rw [NorArray.put_inside _ (Nat.le_add_right e k) hk', NorArray.slice_getElem, hsub]
      by_cases hlt : k < len
      · rw [if_pos hlt]
      · have he : k = len := by omega
        rw [if_neg hlt, if_pos h32, he, hend]
    · rw [NorArray.put_outside _ (by omega), hzero, if_neg (by omega), if_pos h32]
  · have hk' : e + k - (e + 32) <
        (slice (fun k : Nat => buf (shiftOffset sub.offset + k)) 0 (56 - 32)).length := by
      rw [NorArray.slice_length]
      omega
    have hsub : 0 + (e + k - (e + 32)) = k - 32 := by omega
    rw [NorArray.put_inside _ (by omega) hk', NorArray.slice_getElem, hsub, if_neg (by omega),
      if_neg h32]

theorem fill_writes {u : GpioArray} (hname : ∃ k < scriptNameSize, sub.subName k = 0)
    (hw : w ∈ (u.fill buf cfg sub).writes) :
    w ∈ u.writes ∨ (cfg + u.userIndex * userGpioSetSize ≤ w.1 ∧
      w.1 + w.2 ≤ cfg + u.userIndex * userGpioSetSize + userGpioSetSize) := by
  obtain ⟨hlen, -⟩ := strlen_name hname
  rw [GpioArray.fill] at hw
  simp only [GpioArray.write, List.append_assoc, List.mem_append, List.mem_singleton,
    NorArray.slice_length] at hw
  simp only [scriptNameSize, userGpioSetSize] at *
  rcases hw with hw | rfl | rfl
  · exact .inl hw
  · right
    dsimp only
    omega
  · right
    dsimp only
    omega

theorem fill_outside {u : GpioArray} (hname : ∃ k < scriptNameSize, sub.subName k = 0)
    (ha : a < cfg + u.userIndex * userGpioSetSize ∨
      cfg + u.userIndex * userGpioSetSize + userGpioSetSize ≤ a) :
    (u.fill buf cfg sub).mem a = u.mem a := by
  obtain ⟨hlen, -⟩ := strlen_name hname
  rw [GpioArray.fill]
  simp only [GpioArray.write]
  simp only [scriptNameSize, userGpioSetSize] at *
  rw [NorArray.put_outside, NorArray.put_outside]
  · rw [NorArray.slice_length]
    omega
  · rw [NorArray.slice_length]
    omega

theorem Filled.fill {u : GpioArray} (h : Filled buf cfg gpioCount subs u)
    (hlt : subs.length < gpioCount) (hname : ∃ k < scriptNameSize, sub.subName k = 0) :
    Filled buf cfg gpioCount (subs ++ [sub]) (u.fill buf cfg sub) where
  index := by
    rw [List.length_append, ← h.index]
    rfl
  entries := by
    intro i hi k hk
    have hidx := h.index
    have hold := h.entries i hi k hk
    by_cases he : i = subs.length
    · subst he
      rw [List.getElem?_eq_none (Nat.le_refl _)] at hold
      rw [List.getElem?_concat_length]
      rw [← hidx] at hold ⊢
      exact fill_byte hname hk hold
    · rw [fill_outside hname, hold]
      · congr 1
        rcases Nat.lt_or_gt_of_ne he with hlo | hhi
        · rw [List.getElem?_append_left hlo]
        · rw [List.getElem?_eq_none (Nat.le_of_lt hhi), List.getElem?_eq_none]
          rw [List.length_append]
          exact hhi
      · rw [hidx]
        simp only [userGpioSetSize] at *
        omega
  inside := by
    intro w hw
    rcases fill_writes hname hw with hw | hw
    · exact h.inside w hw
    · rw [h.index] at hw
      simp only [userGpioSetSize] at *
      omega

theorem Filled.fills {u : GpioArray} (h : Filled buf cfg gpioCount done u)
    (hlen : done.length + subs.length ≤ gpioCount)
    (hname : ∀ sub ∈ subs, ∃ k < scriptNameSize, sub.subName k = 0) :
    Filled buf cfg gpioCount (done ++ subs) (subs.foldl (fun u sub => u.fill buf cfg sub) u) := by
  induction subs generalizing done u with
  | nil =>
    rw [List.append_nil]
    exact h
  | cons sub subs ih =>
    rw [List.length_cons] at hlen
    have hfill := h.fill (by omega) (hname sub List.mem_cons_self)
    rw [List.foldl_cons, List.append_cons]
    apply ih hfill
    · rw [List.length_append, List.length_singleton]
      omega
    · exact fun s hs => hname s (List.mem_cons_of_mem _ hs)

theorem fills_userIndex (subs : List ScriptSubKey) (u : GpioArray) :
    (subs.foldl (fun u sub => u.fill buf cfg sub) u).userIndex = u.userIndex + subs.length := by
  induction subs generalizing u with
  | nil => rfl
  | cons sub subs ih =>
    rw [List.foldl_cons, ih, List.length_cons]
    show u.userIndex + 1 + subs.length = _
    omega

theorem fillMainKeys_eq (cfg gpioCount : Nat) (name : CStr) (n i : Nat) (u : GpioArray) :
    fillMainKeys buf cfg gpioCount name n i u =
      match namedFrom buf name n i with
      | [] => (scriptParserKeyNotFind, u)
      | key :: _ => (scriptParserOk,
        fillSubKeys buf cfg gpioCount key key.lenth.toNat 0 { u with userIndex := 0 }) := by
  induction n generalizing i with
  | zero => rfl
  | succ n ih =>
    rw [fillMainKeys, namedFrom_succ]
    split
    · rfl
    · exact ih (i + 1)

/-- All offsets are inside the image, and names end within their 32 bytes. -/
structure ScriptParser.WellFormed (parser : ScriptParser) (buf : Int → UInt8) : Prop where
  buffer : parser.scriptModBuf = some buf
  size : parser.scriptModBufSize < 0x80000000
  mainTable : scriptHeadSize + parser.scriptMainKeyCount * scriptKeySize ≤ parser.scriptModBufSize
  mainName : ∀ i < parser.scriptMainKeyCount.toNat,
    ∃ k < scriptNameSize, (mainKey buf i).mainName k = 0
  subTable : ∀ i < parser.scriptMainKeyCount.toNat, 0 ≤ (mainKey buf i).offset ∧
    (mainKey buf i).offset * 4 + (mainKey buf i).lenth * scriptKeySize ≤ parser.scriptModBufSize
  subName : ∀ i < parser.scriptMainKeyCount.toNat, ∀ j < (mainKey buf i).lenth.toNat,
    ∃ k < scriptNameSize, (subKey buf (mainKey buf i) j).subName k = 0
  data : ∀ i < parser.scriptMainKeyCount.toNat, ∀ j < (mainKey buf i).lenth.toNat,
    (subKey buf (mainKey buf i) j).isGpio = true →
      0 ≤ (subKey buf (mainKey buf i) j).offset ∧
        (subKey buf (mainKey buf i) j).offset * 4 + (userGpioSetSize - scriptNameSize : Nat) ≤
          parser.scriptModBufSize

theorem ScriptParser.WellFormed.named {parser : ScriptParser} (h : parser.WellFormed buf)
    (hkey : key ∈ namedKeys buf parser.scriptMainKeyCount name) (hsub : sub ∈ gpioSubs buf key) :
    ∃ k < scriptNameSize, sub.subName k = 0 := by
  obtain ⟨i, hi, rfl⟩ := List.mem_map.1 (List.mem_filter.1 hkey).1
  obtain ⟨j, hj, rfl⟩ := List.mem_map.1 (List.mem_filter.1 hsub).1
  have hi' := List.mem_range'_1.1 hi
  have hj' := List.mem_range'_1.1 hj
  exact h.subName i (by omega) j (by omega)

/-- What a query for `gpioCount` entries is to do where the image has the GPIO sub keys `gpios` of a
name, and the query for their number gives `n`. -/
structure GpioCfgRight (buf : Int → UInt8) (gpios : List ScriptSubKey) (n : Int)
    (cfg gpioCount : Nat) (r : Int × GpioArray) : Prop where
  inside : ∀ w ∈ r.2.writes, cfg ≤ w.1 ∧ w.1 + w.2 ≤ cfg + gpioCount * userGpioSetSize
  filled : r.1 = scriptParserOk → r.2.userIndex = (min (gpioCount : Int) n).toNat
  entries : r.1 = scriptParserOk → ∀ i < gpioCount, ∀ k < userGpioSetSize,
    r.2.mem (cfg + i * userGpioSetSize + k) =
      entryByte buf (gpios.take (min (gpioCount : Int) n).toNat)[i]? k

theorem getGpioCfg_eq {parser : ScriptParser} (h : parser.WellFormed buf) (name : CStr)
    (cfg gpioCount : Nat) (u : GpioArray) :
    scriptParserMainkeyGetGpioCfg (some parser) (some name) cfg gpioCount u =
      fillMainKeys buf cfg gpioCount (mainChar name) parser.scriptMainKeyCount.toNat 0
        (u.write cfg (List.replicate (userGpioSetSize * gpioCount) 0)) := by
  rw [scriptParserMainkeyGetGpioCfg]
  dsimp only
  rw [h.buffer]

theorem getGpioCfg_missing {parser : ScriptParser} (h : parser.WellFormed buf)
    (hkeys : namedKeys buf parser.scriptMainKeyCount name = []) (cfg gpioCount : Nat)
    (mem : Nat → UInt8) (idx : Nat) :
    scriptParserMainkeyGetGpioCfg (some parser) (some name) cfg gpioCount ⟨mem, [], idx⟩ =
      (scriptParserKeyNotFind, GpioArray.write ⟨mem, [], idx⟩ cfg
        (List.replicate (userGpioSetSize * gpioCount) 0)) := by
  have hnamed : namedFrom buf (mainChar name) parser.scriptMainKeyCount.toNat 0 = [] := hkeys
  rw [getGpioCfg_eq h, fillMainKeys_eq, hnamed]

theorem getGpioCfg_found {parser : ScriptParser} (h : parser.WellFormed buf)
    (hkeys : namedKeys buf parser.scriptMainKeyCount name = key :: keys) (cfg gpioCount : Nat)
    (mem : Nat → UInt8) (idx : Nat) :
    ∃ u, scriptParserMainkeyGetGpioCfg (some parser) (some name) cfg gpioCount ⟨mem, [], idx⟩ =
        (scriptParserOk, u) ∧
      u.userIndex = min (max 1 gpioCount) (gpioSubs buf key).length ∧
      (1 ≤ gpioCount ∨ gpioSubs buf key = [] →
        Filled buf cfg gpioCount ((gpioSubs buf key).take gpioCount) u) := by
  have hnamed : namedFrom buf (mainChar name) parser.scriptMainKeyCount.toNat 0 =
    key :: keys := hkeys
  rw [getGpioCfg_eq h, fillMainKeys_eq, hnamed]
  refine ⟨_, rfl, ?_, fun hsome => ?_⟩
  · rw [fillSubKeys_eq, fills_userIndex, List.length_take]
    show 0 + min (max 1 (gpioCount - 0)) (gpioSubs buf key).length = _
    rw [Nat.zero_add, Nat.sub_zero]
  · have htake : (gpioSubs buf key).take (max 1 (gpioCount - 0)) =
        (gpioSubs buf key).take gpioCount := by
      rcases hsome with hpos | hnil
      · rw [Nat.sub_zero, Nat.max_eq_right hpos]
      · rw [hnil, List.take_nil, List.take_nil]
    rw [fillSubKeys_eq]
    show Filled buf cfg gpioCount _ (((gpioSubs buf key).take (max 1 (gpioCount - 0))).foldl _ _)
    rw [htake]
    refine (memset_filled cfg gpioCount mem idx).fills ?_ ?_
    · rw [List.length_take, List.length_nil]
      omega
    · intro sub hsub
      have hmem : key ∈ namedKeys buf parser.scriptMainKeyCount name := by
        rw [hkeys]
        exact List.mem_cons_self
      exact h.named hmem (List.mem_of_mem_take hsub)

theorem Filled.right {n : Int} (hf : Filled buf cfg gpioCount (subs.take gpioCount) u)
    (hmin : (min (gpioCount : Int) n).toNat = min gpioCount subs.length)
    (rest : List ScriptSubKey) :
    GpioCfgRight buf (subs ++ rest) n cfg gpioCount (scriptParserOk, u) where
  inside := hf.inside
  filled _ := by
    rw [hmin]
    exact hf.index.trans List.length_take
  entries _ := by
    have htake : (subs ++ rest).take (min (gpioCount : Int) n).toNat = subs.take gpioCount := by
      rw [hmin, List.take_append_of_le_length (Nat.min_le_right _ _), ← List.take_take,
        List.take_length]
    rw [htake]
    exact hf.entries

/-- The two queries agree exactly when no main key has the name, or the first one that has it holds
as many GPIO sub keys as are asked for and counted, and none where none is asked for. -/
theorem gpioQueries_agree_iff {parser : ScriptParser} (h : parser.WellFormed buf) (name : CStr)
    (cfg gpioCount : Nat) (mem : Nat → UInt8) (idx : Nat) :
    let count := parser.scriptMainKeyCount
    GpioCfgRight buf (gpioKeys buf count name)
      (scriptParserMainkeyGetGpioCount (some parser) (some name)) cfg gpioCount
      (scriptParserMainkeyGetGpioCfg (some parser) (some name) cfg gpioCount ⟨mem, [], idx⟩) ↔
    namedKeys buf count name = [] ∨
      ((1 ≤ gpioCount ∨ firstGpioKeys buf count name = []) ∧
        (min (gpioCount : Int) (asCount (gpioKeys buf count name).length)).toNat =
          min gpioCount (firstGpioKeys buf count name).length) := by
  intro count
  have hcount : scriptParserMainkeyGetGpioCount (some parser) (some name) =
      asCount (gpioKeys buf count name).length := by
    have hn := @getGpioCount_eq buf parser.scriptModBufSize count name
    rw [← h.buffer] at hn
    exact hn
  rw [hcount]
  generalize hn : asCount (gpioKeys buf count name).length = n
  cases hkeys : namedKeys buf count name with
  | nil =>
    have hcall := getGpioCfg_missing h hkeys cfg gpioCount mem idx
    rw [hcall]
    refine ⟨fun _ => .inl rfl, fun _ => ⟨?_, nofun, nofun⟩⟩
    have hset : Filled buf cfg gpioCount [] _ := memset_filled cfg gpioCount mem idx
    exact hset.inside
  | cons key keys =>
    have hfirst : firstGpioKeys buf count name = gpioSubs buf key := by
      rw [firstGpioKeys, hkeys]
    have hall : gpioKeys buf count name = gpioSubs buf key ++ keys.flatMap (gpioSubs buf) := by
      rw [gpioKeys, hkeys, List.flatMap_cons]
    obtain ⟨u, hcall, hidx, hfill⟩ := getGpioCfg_found h hkeys cfg gpioCount mem idx
    rw [hcall, hfirst, hall]
    constructor
    · intro hr
      have hlen := hr.filled rfl
      dsimp only at hlen
      right
      have hnone : gpioCount = 0 → gpioSubs buf key = [] := by
        rintro rfl
        apply List.length_eq_zero_iff.1
        omega
      refine ⟨?_, by omega⟩
      rcases Nat.eq_zero_or_pos gpioCount with h0 | hpos
      · exact .inr (hnone h0)
      · exact .inl hpos
    · rintro (hnil | ⟨hsome, hmin⟩)
      · cases hnil
      · exact (hfill hsome).right hmin _

/-- An image with one main key `a`, which has one GPIO sub key `p`. -/
def onePinImage : List UInt8 :=
  [1, 0, 0, 0] ++ List.replicate 12 0 ++
    97 :: List.replicate 31 0 ++ [1, 0, 0, 0, 14, 0, 0, 0] ++
    112 :: List.replicate 31 0 ++ [24, 0, 0, 0, 0, 0, 4, 0] ++
    [2, 0, 0, 0, 5, 0, 0, 0, 1, 0, 0, 0, 1, 0, 0, 0, 2, 0, 0, 0, 0, 0, 0, 0]

def onePinBuf (a : Int) : UInt8 := onePinImage.getD a.toNat 0

def onePinParser : ScriptParser := ⟨some onePinBuf, 120, 1⟩

def onePinName (k : Nat) : UInt8 := if k = 0 then 97 else 0

theorem onePinParser_wellFormed : onePinParser.WellFormed onePinBuf where
  buffer := rfl
  size := by decide
  mainTable := by decide
  mainName := by decide
  subTable := by decide
  subName := by decide
  data := by decide

theorem gpioQueries_agree_onePin :
    GpioCfgRight onePinBuf (gpioKeys onePinBuf 1 onePinName)
      (scriptParserMainkeyGetGpioCount (some onePinParser) (some onePinName)) 0x1000 2
      (scriptParserMainkeyGetGpioCfg (some onePinParser) (some onePinName) 0x1000 2
        ⟨fun _ => 0xFF, [], 0⟩) :=
  (gpioQueries_agree_iff onePinParser_wellFormed onePinName 0x1000 2 (fun _ => 0xFF) 0).2
    (.inr ⟨.inl (by decide), by decide⟩)

/-- An image with two main keys `a`, which have one GPIO sub key `p` each. -/
def twoKeysImage : List UInt8 :=
  [2, 0, 0, 0] ++ List.replicate 12 0 ++
    97 :: List.replicate 31 0 ++ [1, 0, 0, 0, 24, 0, 0, 0] ++
    97 :: List.replicate 31 0 ++ [1, 0, 0, 0, 34, 0, 0, 0] ++
    112 :: List.replicate 31 0 ++ [44, 0, 0, 0, 0, 0, 4, 0] ++
    112 :: List.replicate 31 0 ++ [50, 0, 0, 0, 0, 0, 4, 0] ++
    [2, 0, 0, 0, 5, 0, 0, 0, 1, 0, 0, 0, 1, 0, 0, 0, 2, 0, 0, 0, 0, 0, 0, 0] ++
    [2, 0, 0, 0, 6, 0, 0, 0, 1, 0, 0, 0, 1, 0, 0, 0, 2, 0, 0, 0, 0, 0, 0, 0]

def twoKeysBuf (a : Int) : UInt8 := twoKeysImage.getD a.toNat 0

def twoKeysParser : ScriptParser := ⟨some twoKeysBuf, 224, 2⟩

theorem twoKeysParser_wellFormed : twoKeysParser.WellFormed twoKeysBuf where
  buffer := rfl
  size := by decide
  mainTable := by decide
  mainName := by decide
  subTable := by decide
  subName := by decide
  data := by decide

/-- An array of no entries gets one, and of two keys with one name only the first one's sub keys are
filled in. -/
theorem gpioQueries_disagree :
    ¬ GpioCfgRight onePinBuf (gpioKeys onePinBuf 1 onePinName)
      (scriptParserMainkeyGetGpioCount (some onePinParser) (some onePinName)) 0x1000 0
      (scriptParserMainkeyGetGpioCfg (some onePinParser) (some onePinName) 0x1000 0
        ⟨fun _ => 0xFF, [], 0⟩) ∧
    twoKeysParser.WellFormed twoKeysBuf ∧
    scriptParserMainkeyGetGpioCount (some twoKeysParser) (some onePinName) = 2 ∧
    ¬ GpioCfgRight twoKeysBuf (gpioKeys twoKeysBuf 2 onePinName)
      (scriptParserMainkeyGetGpioCount (some twoKeysParser) (some onePinName)) 0x1000 2
      (scriptParserMainkeyGetGpioCfg (some twoKeysParser) (some onePinName) 0x1000 2
        ⟨fun _ => 0xFF, [], 0⟩) := by
  refine ⟨fun h => ?_, twoKeysParser_wellFormed, by decide, fun h => ?_⟩
  · have hfilled := h.filled
    revert hfilled
    decide
  · have hfilled := h.filled
    revert hfilled
    decide

end D1Flash
