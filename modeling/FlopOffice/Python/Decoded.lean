/-
# FlopOffice.Python.Decoded — what can be done with a value that a JSON decoder returned.

A decoded value has string keys and no bytes, and its integers have few enough digits to be shown. What
is left to go wrong when it is written again is listed here: containers nested too deeply, NaN and the
infinities, and, once its text is encoded, lone surrogates. `repr` minds only the first.
-/
import FlopOffice.Lib.Delimiter
import FlopOffice.Python.Builtins

namespace FlopOffice.Python

open FlopOffice.Lib

/-! ## Members -/

theorem nestingList_le {items : List PyVal} {d : Nat} :
    nestingList items ≤ d ↔ ∀ v ∈ items, nesting v ≤ d := by
  induction items with
  | nil => simp [nestingList]
  | cons v vs ih => simp [nestingList, ih]

theorem nestingItems_le {items : List (Scalar × PyVal)} {d : Nat} :
    nestingItems items ≤ d ↔ ∀ kv ∈ items, nesting kv.2 ≤ d := by
  induction items with
  | nil => simp [nestingItems]
  | cons kv rest ih => simp [nestingItems, ih]

theorem isJsonList_iff {items : List PyVal} :
    isJsonList items = true ↔ ∀ v ∈ items, v.isJson = true := by
  induction items with
  | nil => simp [isJsonList]
  | cons v vs ih => simp [isJsonList, ih]

theorem isJsonItems_iff {items : List (Scalar × PyVal)} :
    isJsonItems items = true ↔ ∀ kv ∈ items, kv.1.isStr = true ∧ kv.2.isJson = true := by
  induction items with
  | nil => simp [isJsonItems]
  | cons kv rest ih => simp [isJsonItems, ih]

mutual

/-- No NaN and no infinity stands in the value, keys apart. -/
def PyVal.allFinite : PyVal → Bool
  | .leaf (.float .nan) | .leaf (.float (.inf _)) => false
  | .leaf _ | .other => true
  | .list items => finiteList items
  | .dict items => finiteItems items

def finiteList : List PyVal → Bool
  | [] => true
  | v :: vs => v.allFinite && finiteList vs

def finiteItems : List (Scalar × PyVal) → Bool
  | [] => true
  | (_, v) :: rest => v.allFinite && finiteItems rest

end

theorem finiteList_iff {items : List PyVal} :
    finiteList items = true ↔ ∀ v ∈ items, v.allFinite = true := by
  induction items with
  | nil => simp [finiteList]
  | cons v vs ih => simp [finiteList, ih]

theorem finiteItems_iff {items : List (Scalar × PyVal)} :
    finiteItems items = true ↔ ∀ kv ∈ items, kv.2.allFinite = true := by
  induction items with
  | nil => simp [finiteItems]
  | cons kv rest ih => simp [finiteItems, ih]

theorem isOk_iff {ε α : Type} {x : Except ε α} : x.isOk = true ↔ ∃ a, x = .ok a := by
  cases x with
  | ok a => exact iff_of_true rfl ⟨a, rfl⟩
  | error e => exact iff_of_false nofun nofun

section Write

variable [PyRuntime]

/-! ## `json.dumps` -/

theorem dumpsScalar_isOk_iff {s : Scalar} (h : (PyVal.leaf s).isJson = true) :
    (∃ t, dumpsScalar s = .ok t) ↔ (PyVal.leaf s).allFinite = true := by
  cases s with
  | none | bool | str => exact iff_of_true ⟨_, rfl⟩ rfl
  | int i => exact iff_of_true (isOk_iff.mp h) rfl
  | bytes b => cases h
  | float f =>
    cases f with
    | finite => exact iff_of_true ⟨_, rfl⟩ rfl
    | nan | inf => exact iff_of_false nofun nofun

/-- An object with string keys is written exactly if all its values are. -/
theorem dumpsVal_strings_isOk_iff {d : Nat} {items : List (Scalar × PyVal)}
    (hkeys : ∀ kv ∈ items, kv.1.isStr = true) :
    (∃ t, dumpsVal (d + 1) (.dict items) = .ok t) ↔ ∀ kv ∈ items, ∃ t, dumpsVal d kv.2 = .ok t := by
  constructor
  · rintro ⟨t, h⟩ kv hkv
    obtain ⟨-, vt, -, hvt, -⟩ := member_infix_of_mem h hkv
    exact ⟨vt, hvt⟩
  · intro h
    have hsort : ∃ sorted, sortItems (dumpsItems d items) = .ok sorted := by
      unfold sortItems
      rw [if_pos (Or.inr (Or.inl ?_))]
      · exact ⟨_, rfl⟩
      · rw [dumpsItems_eq_map, List.all_eq_true]
        simpa using fun k v hkv => hkeys (k, v) hkv
    obtain ⟨sorted, hsorted⟩ := hsort
    have hmember : ∀ kv ∈ sorted, ∃ m, member kv = .ok m := by
      intro kv hkv
      rw [(sortItems_perm hsorted).mem_iff, dumpsItems_eq_map] at hkv
      obtain ⟨⟨k, v⟩, hmem, rfl⟩ := List.mem_map.mp hkv
      obtain ⟨t, ht⟩ := h (k, v) hmem
      have hkey := hkeys (k, v) hmem
      cases k with
      | str s => exact ⟨_, member_eq_ok.mpr ⟨s, rfl, t, ht, rfl⟩⟩
      | none | bool | int | float | bytes => cases hkey
    choose! m hm using hmember
    refine ⟨_, dumpsVal_dict_eq_ok.mpr ⟨sorted, hsorted, sorted.map m, ?_, rfl⟩⟩
    rw [List.forall₂_map_right_iff, List.forall₂_same]
    exact hm

theorem dumpsList_isOk_iff {d : Nat} {items : List PyVal} :
    (∃ ts, dumpsList d items = .ok ts) ↔ ∀ v ∈ items, ∃ t, dumpsVal d v = .ok t := by
  simp only [dumpsList_eq_ok_iff]
  constructor
  · rintro ⟨ts, h⟩ v hv
    obtain ⟨t, -, ht⟩ := exists_right_of_forall₂ h hv
    exact ⟨t, ht⟩
  · intro h
    choose! t ht using h
    refine ⟨items.map t, ?_⟩
    rw [List.forall₂_map_right_iff, List.forall₂_same]
    exact ht

/-- **When a decoded value is written**: its containers are not nested too deeply, and it has no NaN
and no infinity. -/
theorem dumpsVal_isOk_iff {d : Nat} {v : PyVal} (hv : v.isJson = true) :
    (∃ t, dumpsVal d v = .ok t) ↔ nesting v ≤ d ∧ v.allFinite = true := by
  induction d generalizing v with
  | zero =>
    cases v with
    | leaf s => exact (dumpsScalar_isOk_iff hv).trans (and_iff_right (Nat.zero_le 0)).symm
    | list items => exact iff_of_false nofun fun h => absurd h.1 (Nat.not_succ_le_zero _)
    | dict items => exact iff_of_false nofun fun h => absurd h.1 (Nat.not_succ_le_zero _)
    | other => cases hv
  | succ d ih =>
    cases v with
    | leaf s => exact (dumpsScalar_isOk_iff hv).trans (and_iff_right (Nat.zero_le _)).symm
    | list items =>
      have hjson := isJsonList_iff.mp hv
      have hparts : (∃ t, dumpsVal (d + 1) (.list items) = .ok t) ↔ ∃ ts, dumpsList d items = .ok ts := by
        simp only [dumpsVal_list_eq_ok]
        constructor
        · rintro ⟨_, ts, hts, -⟩
          exact ⟨ts, hts⟩
        · rintro ⟨ts, hts⟩
          exact ⟨_, ts, hts, rfl⟩
      rw [hparts, dumpsList_isOk_iff, nesting, Nat.add_le_add_iff_right, nestingList_le,
        PyVal.allFinite, finiteList_iff, ← forall₂_and]
      exact forall₂_congr fun v hmem => ih (hjson v hmem)
    | dict items =>
      have hjson := isJsonItems_iff.mp hv
      rw [dumpsVal_strings_isOk_iff fun kv hkv => (hjson kv hkv).1, nesting,
        Nat.add_le_add_iff_right, nestingItems_le, PyVal.allFinite, finiteItems_iff, ← forall₂_and]
      exact forall₂_congr fun kv hmem => ih (hjson kv hmem).2
    | other => cases hv

/-! ## `repr` -/

variable [PyBuiltins]

omit [PyBuiltins] in
theorem reprScalar_isOk {s : Scalar} (h : (PyVal.leaf s).isJson = true) :
    ∃ t, reprScalar s = .ok t := by
  cases s with
  | none | bool | str | float => exact ⟨_, rfl⟩
  | int i => exact isOk_iff.mp h
  | bytes b => cases h

theorem reprList_isOk_iff {d : Nat} {items : List PyVal} :
    (∃ ts, reprList d items = .ok ts) ↔ ∀ v ∈ items, ∃ t, reprVal d v = .ok t := by
  induction items with
  | nil => exact iff_of_true ⟨[], rfl⟩ fun _ hv => absurd hv List.not_mem_nil
  | cons v vs ih =>
    rw [List.forall_mem_cons, ← ih]
    simp only [reprList, bind_eq_ok, pure, Except.pure, Except.ok.injEq]
    constructor
    · rintro ⟨_, t, ht, ts, hts, -⟩
      exact ⟨⟨t, ht⟩, ts, hts⟩
    · rintro ⟨⟨t, ht⟩, ts, hts⟩
      exact ⟨_, t, ht, ts, hts, rfl⟩

theorem reprItems_isOk_iff {d : Nat} {items : List (Scalar × PyVal)}
    (hkeys : ∀ kv ∈ items, kv.1.isStr = true) :
    (∃ ts, reprItems d items = .ok ts) ↔ ∀ kv ∈ items, ∃ t, reprVal d kv.2 = .ok t := by
  induction items with
  | nil => exact iff_of_true ⟨[], rfl⟩ fun _ hv => absurd hv List.not_mem_nil
  | cons kv rest ih =>
    rw [List.forall_mem_cons] at hkeys ⊢
    rw [← ih hkeys.2]
    obtain ⟨k, v⟩ := kv
    obtain ⟨kt, hkt⟩ : ∃ kt, reprScalar k = .ok kt := by
      cases k with
      | str s => exact ⟨_, rfl⟩
      | none | bool | int | float | bytes => cases hkeys.1
    simp only [reprItems, bind_eq_ok, pure, Except.pure, Except.ok.injEq]
    constructor
    · rintro ⟨_, _, _, t, ht, ts, hts, -⟩
      exact ⟨⟨t, ht⟩, ts, hts⟩
    · rintro ⟨⟨t, ht⟩, ts, hts⟩
      exact ⟨_, kt, hkt, t, ht, ts, hts, rfl⟩

/-- **When a decoded value is shown**: its containers are not nested too deeply. -/
theorem reprVal_isOk_iff {d : Nat} {v : PyVal} (hv : v.isJson = true) :
    (∃ t, reprVal d v = .ok t) ↔ nesting v ≤ d := by
  induction d generalizing v with
  | zero =>
    cases v with
    | leaf s => exact iff_of_true (reprScalar_isOk hv) (Nat.zero_le 0)
    | list items => exact iff_of_false (by rintro ⟨_, ⟨⟩⟩) (Nat.not_succ_le_zero _)
    | dict items => exact iff_of_false (by rintro ⟨_, ⟨⟩⟩) (Nat.not_succ_le_zero _)
    | other => cases hv
  | succ d ih =>
    cases v with
    | leaf s => exact iff_of_true (reprScalar_isOk hv) (Nat.zero_le _)
    | list items =>
      have hjson := isJsonList_iff.mp hv
      have hparts : (∃ t, reprVal (d + 1) (.list items) = .ok t) ↔ ∃ ts, reprList d items = .ok ts := by
        simp only [reprVal, bind_eq_ok, pure, Except.pure, Except.ok.injEq]
        constructor
        · rintro ⟨_, ts, hts, -⟩
          exact ⟨ts, hts⟩
        · rintro ⟨ts, hts⟩
          exact ⟨_, ts, hts, rfl⟩
      rw [hparts, reprList_isOk_iff, nesting, Nat.add_le_add_iff_right, nestingList_le]
      exact forall₂_congr fun v hmem => ih (hjson v hmem)
    | dict items =>
      have hjson := isJsonItems_iff.mp hv
      have hparts : (∃ t, reprVal (d + 1) (.dict items) = .ok t) ↔ ∃ ts, reprItems d items = .ok ts := by
        simp only [reprVal, bind_eq_ok, pure, Except.pure, Except.ok.injEq]
        constructor
        · rintro ⟨_, ts, hts, -⟩
          exact ⟨ts, hts⟩
        · rintro ⟨ts, hts⟩
          exact ⟨_, ts, hts, rfl⟩
      rw [hparts, reprItems_isOk_iff fun kv hkv => (hjson kv hkv).1, nesting,
        Nat.add_le_add_iff_right, nestingItems_le]
      exact forall₂_congr fun kv hmem => ih (hjson kv hmem).2
    | other => cases hv

/-- What `repr` raises. -/
theorem reprVal_error {d : Nat} {v : PyVal} {e : Exc} (h : reprVal d v = .error e) :
    e.cls = .recursionError ∨ e.cls = .valueError := by
  have hscalar : ∀ {s : Scalar} {e : Exc}, reprScalar s = .error e → e.cls = .valueError := by
    intro s e h
    cases s with
    | int i => exact strInt_error h
    | none | bool | float | str | bytes => cases h
  induction d generalizing v with
  | zero =>
    cases v with
    | leaf s => exact Or.inr (hscalar h)
    | list | dict =>
      cases h
      exact Or.inl rfl
    | other => cases h
  | succ d ih =>
    cases v with
    | leaf s => exact Or.inr (hscalar h)
    | list items =>
      have hparts : reprList d items = .error e := by
        rcases bind_eq_error.mp h with h | ⟨_, -, h⟩
        · exact h
        · cases h
      clear h
      induction items with
      | nil => cases hparts
      | cons v vs ihs =>
        rcases bind_eq_error.mp hparts with h | ⟨_, -, h⟩
        · exact ih h
        · rcases bind_eq_error.mp h with h | ⟨_, -, h⟩
          · exact ihs h
          · cases h
    | dict items =>
      have hparts : reprItems d items = .error e := by
        rcases bind_eq_error.mp h with h | ⟨_, -, h⟩
        · exact h
        · cases h
      clear h
      induction items with
      | nil => cases hparts
      | cons kv rest ihs =>
        rcases bind_eq_error.mp hparts with h | ⟨_, -, h⟩
        · exact Or.inr (hscalar h)
        · rcases bind_eq_error.mp h with h | ⟨_, -, h⟩
          · exact ih h
          · rcases bind_eq_error.mp h with h | ⟨_, -, h⟩
            · exact ihs h
            · cases h
    | other => cases h

/-- `str` of a decoded value: its containers are not nested too deeply. -/
theorem str_isOk_iff {v : PyVal} (hv : v.isJson = true) :
    (∃ t, v.str = .ok t) ↔ nesting v ≤ PyRuntime.recursionLimit := by
  have hrepr := reprVal_isOk_iff (d := PyRuntime.recursionLimit) hv
  cases v with
  | leaf s =>
    cases s with
    | str s => exact iff_of_true ⟨s, rfl⟩ (Nat.zero_le _)
    | none | bool | int | float | bytes => exact hrepr
  | list | dict | other => exact hrepr

theorem str_error {v : PyVal} {e : Exc} (h : v.str = .error e) :
    e.cls = .recursionError ∨ e.cls = .valueError := by
  cases v with
  | leaf s =>
    cases s with
    | str s => cases h
    | none | bool | int | float | bytes => exact reprVal_error h
  | list | dict | other => exact reprVal_error h

omit [PyRuntime] [PyBuiltins] in
/-- The members of a decoded object are decoded values, and so is a default. -/
theorem isJson_get {d default : PyVal} {key : PyStr} (hd : d.isJson = true)
    (hdefault : default.isJson = true) : (d.get key default).isJson = true := by
  cases d with
  | dict items =>
    show (((items.find? fun kv => kv.1 == .str key).map Prod.snd).getD default).isJson = true
    cases hfind : items.find? fun kv => kv.1 == .str key with
    | none => exact hdefault
    | some kv => exact (isJsonItems_iff.mp hd kv (List.mem_of_find?_eq_some hfind)).2
  | leaf | list | other => exact hdefault

/-! ## `str.encode` of a `repr` -/

omit [PyBuiltins] in
/-- `repr` of a leaf of a decoded value writes no lone surrogate. -/
theorem isSurrogate_of_mem_reprScalar {s : Scalar} (h : (PyVal.leaf s).isJson = true) {t : PyStr}
    (ht : reprScalar s = .ok t) {c : CodePoint} (hc : c ∈ t) : c.isSurrogate = false := by
  have hword : ∀ x ∈ py "None" ++ py "True" ++ py "False" ++ py "nan" ++ py "-inf" ++
      py "0123456789+-.e", x.isSurrogate = false := by decide
  cases s with
  | none =>
    cases ht
    exact hword c (by simp [hc])
  | bool b =>
    cases ht
    refine hword c ?_
    cases b <;> simp_all
  | int i => exact isSurrogate_of_isVisible (isVisible_of_mem_strInt ht hc)
  | float f =>
    cases ht
    refine hword c ?_
    cases f with
    | nan => simp_all [reprFloat]
    | inf neg =>
      have hinf : ∀ x ∈ py "inf", x ∈ py "-inf" := by decide
      cases neg
      · have hmem := hinf c hc
        simp_all
      · simp_all [reprFloat]
    | finite neg mant exp =>
      have hdigit := PyRuntime.floatRepr_chars _ c hc
      simp_all
  | str s =>
    cases ht
    exact pyRepr_scalar s c hc
  | bytes b => cases h

theorem exists_of_mem_reprList {d : Nat} {items : List PyVal} {ts : List PyStr}
    (h : reprList d items = .ok ts) {x : PyStr} (hx : x ∈ ts) :
    ∃ v ∈ items, reprVal d v = .ok x := by
  induction items generalizing ts with
  | nil =>
    cases h
    cases hx
  | cons v vs ih =>
    simp only [reprList, bind_eq_ok, pure, Except.pure, Except.ok.injEq] at h
    obtain ⟨t, ht, ts, hts, rfl⟩ := h
    rcases List.mem_cons.mp hx with rfl | hx
    · exact ⟨v, List.mem_cons_self, ht⟩
    · obtain ⟨w, hw, hwx⟩ := ih hts hx
      exact ⟨w, List.mem_cons_of_mem _ hw, hwx⟩

theorem exists_of_mem_reprItems {d : Nat} {items : List (Scalar × PyVal)} {ts : List PyStr}
    (h : reprItems d items = .ok ts) {x : PyStr} (hx : x ∈ ts) :
    ∃ k v kt vt, (k, v) ∈ items ∧ reprScalar k = .ok kt ∧ reprVal d v = .ok vt ∧
      x = kt ++ py ": " ++ vt := by
  induction items generalizing ts with
  | nil =>
    cases h
    cases hx
  | cons kv rest ih =>
    obtain ⟨k, v⟩ := kv
    simp only [reprItems, bind_eq_ok, pure, Except.pure, Except.ok.injEq] at h
    obtain ⟨kt, hkt, vt, hvt, ts, hts, rfl⟩ := h
    rcases List.mem_cons.mp hx with rfl | hx
    · exact ⟨k, v, kt, vt, List.mem_cons_self, hkt, hvt, rfl⟩
    · obtain ⟨k', v', kt', vt', hmem, hrest⟩ := ih hts hx
      exact ⟨k', v', kt', vt', List.mem_cons_of_mem _ hmem, hrest⟩

/-- `repr` of a decoded value can be encoded: lone surrogates are written as escapes. -/
theorem isSurrogate_of_mem_reprVal {d : Nat} {v : PyVal} (hv : v.isJson = true) {t : PyStr}
    (ht : reprVal d v = .ok t) : ∀ c ∈ t, c.isSurrogate = false := by
  have hmark : ∀ x ∈ py ", " ++ py ": " ++ [cp '[', cp ']', cp '{', cp '}'],
      x.isSurrogate = false := by decide
  -- what the parts and the separators do not have, the whole does not have
  have hjoin : ∀ (l r : CodePoint) (ts : List PyStr), l ∈ [cp '[', cp ']', cp '{', cp '}'] →
      r ∈ [cp '[', cp ']', cp '{', cp '}'] → (∀ x ∈ ts, ∀ c ∈ x, c.isSurrogate = false) →
      ∀ c ∈ l :: (List.intercalate (py ", ") ts ++ [r]), c.isSurrogate = false := by
    intro l r ts hl hr hts c hc
    simp only [List.mem_cons, List.mem_append, List.not_mem_nil, or_false] at hc
    rcases hc with rfl | hc | rfl
    · exact hmark c (List.mem_append_right _ hl)
    · rcases mem_intercalate hc with hc | ⟨x, hx, hc⟩
      · exact hmark c (List.mem_append_left _ (List.mem_append_left _ hc))
      · exact hts x hx c hc
    · exact hmark c (List.mem_append_right _ hr)
  induction d generalizing v t with
  | zero =>
    cases v with
    | leaf s => exact fun c hc => isSurrogate_of_mem_reprScalar hv (by simpa [reprVal] using ht) hc
    | list | dict => cases ht
    | other => cases hv
  | succ d ih =>
    cases v with
    | leaf s => exact fun c hc => isSurrogate_of_mem_reprScalar hv (by simpa [reprVal] using ht) hc
    | list items =>
      simp only [reprVal, bind_eq_ok, pure, Except.pure, Except.ok.injEq] at ht
      obtain ⟨ts, hts, rfl⟩ := ht
      refine hjoin _ _ ts (by simp) (by simp) fun x hx => ?_
      obtain ⟨v, hmem, hvx⟩ := exists_of_mem_reprList hts hx
      exact ih (isJsonList_iff.mp hv v hmem) hvx
    | dict items =>
      simp only [reprVal, bind_eq_ok, pure, Except.pure, Except.ok.injEq] at ht
      obtain ⟨ts, hts, rfl⟩ := ht
      refine hjoin _ _ ts (by simp) (by simp) fun x hx c hc => ?_
      obtain ⟨k, v, kt, vt, hmem, hkt, hvt, rfl⟩ := exists_of_mem_reprItems hts hx
      obtain ⟨hkey, hjson⟩ := isJsonItems_iff.mp hv (k, v) hmem
      rcases List.mem_append.mp hc with hc | hc
      · rcases List.mem_append.mp hc with hc | hc
        · refine isSurrogate_of_mem_reprScalar (s := k) ?_ hkt hc
          cases k with
          | str s => rfl
          | none | bool | int | float | bytes => cases hkey
        · exact hmark c (List.mem_append_left _ (List.mem_append_right _ hc))
      · exact ih hjson hvt c hc
    | other => cases hv

end Write

end FlopOffice.Python
