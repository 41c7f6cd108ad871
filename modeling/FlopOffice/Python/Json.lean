/-
# FlopOffice.Python.Json — Python values, and `json.dumps` as the sources call it.

Every call in the sources is `json.dumps(x, sort_keys=True, separators=(",", ":"),
ensure_ascii=False, allow_nan=False)`, so `dumps` has these options built in: keys sorted by code
point, no white space, only `"`, `\` and the characters below U+0020 escaped, and `ValueError` for
NaN and the infinities. What it refuses besides is part of the model: an integer past the digit
limit (`ValueError`), a value it cannot encode or keys it cannot compare (`TypeError`), containers
nested past the recursion limit (`RecursionError`).

Three facts are used throughout: quoted strings are readable in front of anything (`readable_quote`),
every string anywhere in a value stands quoted in the text (`quote_infix_of_mem_strings`), and the
text has no character below U+0020 (`ge_of_mem_dumps`), hence no line feed.
-/
import Mathlib.Data.List.Sort
import FlopOffice.Lib.PrefixCode
import FlopOffice.Python.Text

namespace FlopOffice.Python

open FlopOffice.Lib

/-! ## Values -/

/-- A Python value that is not a container. -/
inductive Scalar
  | none
  | bool (b : Bool)
  | int (i : Int)
  | float (f : PyFloat)
  | str (s : PyStr)
  | bytes (b : Bytes)
  deriving DecidableEq

/-- A Python value. A `dict` is its items in insertion order; `other` is any value `json` has no
encoding for. -/
inductive PyVal
  | leaf (s : Scalar)
  | list (items : List PyVal)
  | dict (items : List (Scalar × PyVal))
  | other

/-- A `dict` with string keys. -/
def PyVal.record (items : List (PyStr × PyVal)) : PyVal :=
  .dict (items.map fun kv => (.str kv.1, kv.2))

/-- `d.get(key)` of a `dict` with a string key; the value is `none` for `None`. -/
def PyVal.get? : PyVal → PyStr → Option PyVal
  | .dict items, key => (items.find? fun kv => kv.1 == .str key).map Prod.snd
  | _, _ => Option.none

/-! ## Strings -/

/-- How `json` writes one character inside a string. -/
def escapeChar (c : CodePoint) : PyStr :=
  if c = cp '"' then py "\\\""
  else if c = cp '\\' then py "\\\\"
  else if 0x20 ≤ c.val then [c]
  else if c.val = 0x08 then py "\\b"
  else if c.val = 0x09 then py "\\t"
  else if c.val = 0x0a then py "\\n"
  else if c.val = 0x0c then py "\\f"
  else if c.val = 0x0d then py "\\r"
  else py "\\u" ++ hexPad 4 c.val

/-- The body of a JSON string. -/
def escape (s : PyStr) : PyStr := s.flatMap escapeChar

/-- A JSON string. -/
def quote (s : PyStr) : PyStr := cp '"' :: (escape s ++ [cp '"'])

/-- The characters `json` escapes. -/
def escaped : List CodePoint :=
  [cp '"', cp '\\'] ++ (List.range 0x20).map fun n => ⟨n % 0x20, by omega⟩

theorem escapeChar_of_ge {c : CodePoint} (h : 0x20 ≤ c.val) (hq : c ≠ cp '"') (hb : c ≠ cp '\\') :
    escapeChar c = [c] := by
  rw [escapeChar, if_neg hq, if_neg hb, if_pos h]

/-- A character is escaped, or written as it is. -/
theorem mem_escaped_or (c : CodePoint) :
    c ∈ escaped ∨ (escapeChar c = [c] ∧ 0x20 ≤ c.val ∧ c ≠ cp '"' ∧ c ≠ cp '\\') := by
  by_cases hq : c = cp '"'
  · exact Or.inl (by rw [hq]; decide)
  by_cases hb : c = cp '\\'
  · exact Or.inl (by rw [hb]; decide)
  by_cases h : 0x20 ≤ c.val
  · exact Or.inr ⟨escapeChar_of_ge h hq hb, h, hq, hb⟩
  · refine Or.inl (List.mem_append_right _ (List.mem_map.mpr ⟨c.val, ?_, ?_⟩))
    · exact List.mem_range.mpr (by omega)
    · exact CodePoint.ext (Nat.mod_eq_of_lt (by omega))

/-- Every escape starts with a backslash, and no escape is the beginning of another. -/
theorem escaped_prefix_free : ∀ c ∈ escaped, (escapeChar c).head? = some (cp '\\') ∧
    ∀ d ∈ escaped, escapeChar c <+: escapeChar d → c = d := by
  decide

theorem head?_escapeChar_ne (c : CodePoint) (u : PyStr) :
    (escapeChar c ++ u).head? ≠ some (cp '"') := by
  rcases mem_escaped_or c with h | ⟨h, -, hq, -⟩
  · rw [List.head?_append, (escaped_prefix_free c h).1, Option.some_or]
    decide
  · rw [h]
    simpa using hq

theorem letterCode_escapeChar : LetterCode escapeChar := by
  -- equal texts make one code word a beginning of the other
  have key : ∀ c d u v, escapeChar c ++ u = escapeChar d ++ v → c = d := by
    intro c d u v h
    rcases mem_escaped_or c with hc | ⟨hc, -, -, hcb⟩ <;>
      rcases mem_escaped_or d with hd | ⟨hd, -, -, hdb⟩
    · rcases List.prefix_or_prefix_of_prefix
        (List.prefix_append (escapeChar c) u) (h ▸ List.prefix_append (escapeChar d) v) with hp | hp
      · exact (escaped_prefix_free c hc).2 d hd hp
      · exact ((escaped_prefix_free d hd).2 c hc hp).symm
    · have hh := congrArg List.head? h
      rw [hd, List.head?_append, List.head?_append, (escaped_prefix_free c hc).1] at hh
      exact absurd (by simpa using hh.symm) hdb
    · have hh := congrArg List.head? h
      rw [hc, List.head?_append, List.head?_append, (escaped_prefix_free d hd).1] at hh
      exact absurd (by simpa using hh) hcb
    · rw [hc, hd] at h
      exact (List.cons.inj h).1
  intro c d u v h
  obtain rfl := key c d u v h
  exact ⟨rfl, List.append_cancel_left h⟩

/-- A JSON string can be read back in front of any text. -/
theorem readable_quote : Readable (fun s x => x = quote s) fun _ => True := by
  intro s t x y u v hx hy hu hv he
  subst hx hy
  have hq : ∀ (c : CodePoint) (u v : PyStr), escapeChar c ++ u ≠ cp '"' :: v := by
    intro c u v h
    exact head?_escapeChar_ne c u (by rw [h]; rfl)
  obtain ⟨rfl, -, rfl⟩ := readable_closed letterCode_escapeChar hq rfl rfl hu hv
    (List.cons.inj he).2
  exact ⟨rfl, rfl, rfl⟩

theorem ge_of_mem_escapeChar {c d : CodePoint} (h : d ∈ escapeChar c) : 0x20 ≤ d.val := by
  have key : ∀ x ∈ escaped, ∀ y ∈ escapeChar x, 0x20 ≤ y.val := by decide
  rcases mem_escaped_or c with hc | ⟨hc, hge, -, -⟩
  · exact key c hc d h
  · rw [hc] at h
    rwa [List.mem_singleton.mp h]

theorem ge_of_mem_quote {s : PyStr} {d : CodePoint} (h : d ∈ quote s) : 0x20 ≤ d.val := by
  rcases List.mem_cons.mp h with rfl | h
  · decide
  rcases List.mem_append.mp h with h | h
  · obtain ⟨c, -, hd⟩ := List.mem_flatMap.mp h
    exact ge_of_mem_escapeChar hd
  · rw [List.mem_singleton.mp h]
    decide

/-- Escaping adds only ASCII. -/
theorem mem_or_ascii_of_mem_escapeChar {c d : CodePoint} (h : d ∈ escapeChar c) :
    d = c ∨ d.val < 0x80 := by
  have key : ∀ x ∈ escaped, ∀ y ∈ escapeChar x, y.val < 0x80 := by decide
  rcases mem_escaped_or c with hc | ⟨hc, -⟩
  · exact Or.inr (key c hc d h)
  · rw [hc] at h
    exact Or.inl (List.mem_singleton.mp h)

/-! ## Integers -/

theorem strInt_eq_ok {i : Int} {t : PyStr} (h : strInt i = .ok t) :
    t = (if i < 0 then [cp '-'] else []) ++ decimalDigits i.natAbs := by
  unfold strInt at h
  split at h <;> cases h
  rfl

theorem head?_decimalDigits (n : Nat) (u : PyStr) :
    ∃ c, (decimalDigits n ++ u).head? = some c ∧ c.isDigit = true := by
  obtain ⟨c, l, hcl⟩ := List.exists_cons_of_ne_nil (decimalDigits_ne_nil n)
  refine ⟨c, by rw [hcl]; rfl, isDigit_of_mem_decimalDigits (n := n) ?_⟩
  rw [hcl]
  exact List.mem_cons_self

theorem decimalDigits_append_ne_minus (n : Nat) (u v : PyStr) :
    decimalDigits n ++ u ≠ cp '-' :: v := by
  intro h
  obtain ⟨c, hc, hd⟩ := head?_decimalDigits n u
  rw [h] at hc
  cases hc
  exact absurd hd (by decide)

/-- The first character of an integer's text. -/
theorem head?_strInt {i : Int} {t : PyStr} (h : strInt i = .ok t) (u : PyStr) :
    ∃ c, (t ++ u).head? = some c ∧ (c = cp '-' ∨ c.isDigit = true) := by
  rw [strInt_eq_ok h]
  split
  · exact ⟨cp '-', rfl, Or.inl rfl⟩
  · obtain ⟨c, hc, hd⟩ := head?_decimalDigits i.natAbs u
    exact ⟨c, hc, Or.inr hd⟩

/-- A decimal integer can be read back in front of anything but a digit. -/
theorem readable_strInt : Readable (fun i x => strInt i = .ok x) fun u =>
    ∀ c, u.head? = some c → c.isDigit = false := by
  intro i j x y u v hx hy hu hv he
  have hx' := strInt_eq_ok hx
  have hy' := strInt_eq_ok hy
  have digits : ∀ m n : Nat, decimalDigits m ++ u = decimalDigits n ++ v → m = n ∧ u = v := by
    intro m n h
    obtain ⟨hmn, -, huv⟩ := readable_run decimalDigits_injective
      (fun _ _ hc => isDigit_of_mem_decimalDigits hc) rfl rfl hu hv h
    exact ⟨hmn, huv⟩
  rw [hx', hy'] at he
  have hij : i = j ∧ u = v := by
    by_cases hi : i < 0 <;> by_cases hj : j < 0
    · rw [if_pos hi, if_pos hj] at he
      obtain ⟨hn, huv⟩ := digits _ _ (List.cons.inj he).2
      exact ⟨by omega, huv⟩
    · rw [if_pos hi, if_neg hj] at he
      exact absurd he.symm (decimalDigits_append_ne_minus _ _ _)
    · rw [if_neg hi, if_pos hj] at he
      exact absurd he (decimalDigits_append_ne_minus _ _ _)
    · rw [if_neg hi, if_neg hj] at he
      obtain ⟨hn, huv⟩ := digits _ _ he
      exact ⟨by omega, huv⟩
  obtain ⟨rfl, rfl⟩ := hij
  exact ⟨rfl, hx'.trans hy'.symm, rfl⟩

/-! ## Sorted keys -/

/-- `s <= t` of strings: by code point. -/
def strLe : PyStr → PyStr → Bool
  | [], _ => true
  | _ :: _, [] => false
  | a :: s, b :: t => decide (a.val < b.val) || (a == b && strLe s t)

/-- A number as a key to compare: infinities lie outside the rationals. NaN compares with nothing,
and is refused once the key is written. -/
def numKey : Scalar → Option (Int × Rat)
  | .bool b => some (0, if b then 1 else 0)
  | .int i => some (0, i)
  | .float (.finite neg mant exp) =>
    let m : Int := if neg then -mant else mant
    some (0, if exp < 0 then mkRat m (2 ^ exp.natAbs) else m * 2 ^ exp.natAbs)
  | .float (.inf neg) => some (if neg then -1 else 1, 0)
  | .float .nan => some (1, 0)
  | _ => none

/-- `a <= b` of two keys of the same kind. -/
def keyLe : Scalar → Scalar → Bool
  | .str s, .str t => strLe s t
  | a, b =>
    match numKey a, numKey b with
    | some x, some y => decide (x.1 < y.1) || (x.1 == y.1 && decide (x.2 ≤ y.2))
    | _, _ => false

/-- `isinstance(k, str)`. -/
def Scalar.isStr : Scalar → Bool
  | .str _ => true
  | _ => false

/-- `sorted(d.items())` of a `dict`: its keys are distinct, so only they are compared, and two keys
that are neither both strings nor both numbers raise `TypeError`. -/
def sortItems {β : Type} (items : List (Scalar × β)) : Except Exc (List (Scalar × β)) :=
  let ks := items.map Prod.fst
  if ks.length ≤ 1 ∨ ks.all Scalar.isStr ∨ ks.all fun k => (numKey k).isSome then
    .ok (items.insertionSort fun a b => keyLe a.1 b.1 = true)
  else .error ⟨.typeError, []⟩

theorem sortItems_perm {β : Type} {items r : List (Scalar × β)} (h : sortItems items = .ok r) :
    r.Perm items := by
  simp only [sortItems] at h
  split at h
  · cases h
    exact List.perm_insertionSort _ _
  · cases h

theorem sortItems_strings {β γ : Type} (f : γ → PyStr) (g : γ → β) (items : List γ) :
    sortItems (items.map fun x => (Scalar.str (f x), g x)) =
      .ok ((items.insertionSort fun a b => strLe (f a) (f b) = true).map fun x =>
        (Scalar.str (f x), g x)) := by
  have hstr : ((items.map fun x => (Scalar.str (f x), g x)).map Prod.fst).all Scalar.isStr := by
    simp [Scalar.isStr]
  unfold sortItems
  rw [if_pos (Or.inr (Or.inl hstr)),
    List.map_insertionSort (fun a b => strLe (f a) (f b) = true)
      (fun a b : Scalar × β => keyLe a.1 b.1 = true)]
  intro a _ b _
  rfl

/-! ## `json.dumps` -/

/-- `float.__repr__`, except where `allow_nan=False` raises. -/
def dumpsFloat [PyRuntime] : PyFloat → Except Exc PyStr
  | .finite neg mant exp => .ok (PyRuntime.floatRepr (.finite neg mant exp))
  | _ => .error ⟨.valueError, []⟩

/-- The text of a value that is not a container. -/
def dumpsScalar [PyRuntime] : Scalar → Except Exc PyStr
  | .none => .ok (py "null")
  | .bool b => .ok (if b then py "true" else py "false")
  | .int i => strInt i
  | .float f => dumpsFloat f
  | .str s => .ok (quote s)
  | .bytes _ => .error ⟨.typeError, []⟩

/-- The text of a key, before quoting. -/
def keyText [PyRuntime] : Scalar → Except Exc PyStr
  | .str s => .ok s
  | k => dumpsScalar k

/-- One member of an object. -/
def member [PyRuntime] (kv : Scalar × Except Exc PyStr) : Except Exc PyStr := do
  let k ← keyText kv.1
  let v ← kv.2
  pure (quote k ++ cp ':' :: v)

mutual

/-- The text of a value, with `depth` levels of containers left before the recursion limit. -/
def dumpsVal [PyRuntime] : Nat → PyVal → Except Exc PyStr
  | _, .leaf s => dumpsScalar s
  | 0, .list _ => .error ⟨.recursionError, []⟩
  | depth + 1, .list items => do
    let parts ← dumpsList depth items
    pure (cp '[' :: (joinWith (cp ',') parts ++ [cp ']']))
  | 0, .dict _ => .error ⟨.recursionError, []⟩
  | depth + 1, .dict items => do
    let sorted ← sortItems (dumpsItems depth items)
    let members ← sorted.mapM member
    pure (cp '{' :: (joinWith (cp ',') members ++ [cp '}']))
  | _, .other => .error ⟨.typeError, []⟩

/-- The texts of the items of a list. -/
def dumpsList [PyRuntime] : Nat → List PyVal → Except Exc (List PyStr)
  | _, [] => .ok []
  | depth, v :: vs => do
    let t ← dumpsVal depth v
    let ts ← dumpsList depth vs
    pure (t :: ts)

/-- The texts of the values of a `dict`, each beside its key. -/
def dumpsItems [PyRuntime] : Nat → List (Scalar × PyVal) → List (Scalar × Except Exc PyStr)
  | _, [] => []
  | depth, (k, v) :: rest => (k, dumpsVal depth v) :: dumpsItems depth rest

end

/-- `json.dumps(value, sort_keys=True, separators=(",", ":"), ensure_ascii=False,
allow_nan=False)`. -/
def dumps [PyRuntime] (value : PyVal) : Except Exc PyStr := dumpsVal PyRuntime.recursionLimit value

theorem dumpsItems_eq_map [PyRuntime] (depth : Nat) (items : List (Scalar × PyVal)) :
    dumpsItems depth items = items.map fun kv => (kv.1, dumpsVal depth kv.2) := by
  induction items with
  | nil => rfl
  | cons kv rest ih => simp only [dumpsItems, ih, List.map_cons]

/-- Writing an object succeeds exactly when its keys can be sorted and all its members written. -/
theorem dumpsVal_dict_eq_ok [PyRuntime] {depth : Nat} {items : List (Scalar × PyVal)} {t : PyStr} :
    dumpsVal (depth + 1) (.dict items) = .ok t ↔
      ∃ sorted, sortItems (dumpsItems depth items) = .ok sorted ∧
        ∃ members, List.Forall₂ (fun kv m => member kv = .ok m) sorted members ∧
          cp '{' :: (joinWith (cp ',') members ++ [cp '}']) = t := by
  simp only [dumpsVal, bind_eq_ok, mapM_eq_ok_iff, pure, Except.pure, Except.ok.injEq]

theorem dumpsVal_list_eq_ok [PyRuntime] {depth : Nat} {items : List PyVal} {t : PyStr} :
    dumpsVal (depth + 1) (.list items) = .ok t ↔
      ∃ parts, dumpsList depth items = .ok parts ∧
        cp '[' :: (joinWith (cp ',') parts ++ [cp ']']) = t := by
  simp only [dumpsVal, bind_eq_ok, pure, Except.pure, Except.ok.injEq]

theorem member_eq_ok [PyRuntime] {k : Scalar} {v : Except Exc PyStr} {m : PyStr} :
    member (k, v) = .ok m ↔
      ∃ kt, keyText k = .ok kt ∧ ∃ vt, v = .ok vt ∧ quote kt ++ cp ':' :: vt = m := by
  simp only [member, bind_eq_ok, pure, Except.pure, Except.ok.injEq]

theorem dumpsList_eq_ok_iff [PyRuntime] {depth : Nat} {items : List PyVal} {parts : List PyStr} :
    dumpsList depth items = .ok parts ↔
      List.Forall₂ (fun v t => dumpsVal depth v = .ok t) items parts := by
  induction items generalizing parts with
  | nil => simp [dumpsList, eq_comm]
  | cons v vs ih =>
    simp only [dumpsList, bind_eq_ok, pure, Except.pure, Except.ok.injEq, ih,
      List.forall₂_cons_left_iff]
    constructor
    · rintro ⟨t, ht, ts, hts, rfl⟩
      exact ⟨t, ts, ht, hts, rfl⟩
    · rintro ⟨t, ts, ht, hts, rfl⟩
      exact ⟨t, ht, ts, hts, rfl⟩

/-- Every member of an object that could be written stands in its text. -/
theorem member_infix_of_mem [PyRuntime] {depth : Nat} {items : List (Scalar × PyVal)} {t : PyStr}
    (h : dumpsVal (depth + 1) (.dict items) = .ok t) {k : Scalar} {v : PyVal}
    (hkv : (k, v) ∈ items) :
    ∃ kt vt, keyText k = .ok kt ∧ dumpsVal depth v = .ok vt ∧ quote kt ++ cp ':' :: vt <:+: t := by
  obtain ⟨sorted, hs, members, hm, rfl⟩ := dumpsVal_dict_eq_ok.mp h
  have hmem : (k, dumpsVal depth v) ∈ sorted := by
    rw [(sortItems_perm hs).mem_iff, dumpsItems_eq_map]
    exact List.mem_map.mpr ⟨(k, v), hkv, rfl⟩
  obtain ⟨m, hmm, hmk⟩ := exists_right_of_forall₂ hm hmem
  obtain ⟨kt, hkt, vt, hvt, rfl⟩ := member_eq_ok.mp hmk
  refine ⟨kt, vt, hkt, hvt, (infix_joinWith (cp ',') hmm).trans ?_⟩
  exact ⟨[cp '{'], [cp '}'], by simp⟩

/-! ## The strings of a value, and its depth -/

mutual

/-- How deep containers nest in a value. -/
def nesting : PyVal → Nat
  | .leaf _ | .other => 0
  | .list items => nestingList items + 1
  | .dict items => nestingItems items + 1

def nestingList : List PyVal → Nat
  | [] => 0
  | v :: vs => max (nesting v) (nestingList vs)

def nestingItems : List (Scalar × PyVal) → Nat
  | [] => 0
  | (_, v) :: rest => max (nesting v) (nestingItems rest)

end

mutual

/-- Every string at any depth of a value, keys included. -/
def strings : PyVal → List PyStr
  | .leaf (.str s) => [s]
  | .leaf _ => []
  | .list items => stringsList items
  | .dict items => stringsItems items
  | .other => []

def stringsList : List PyVal → List PyStr
  | [] => []
  | v :: vs => strings v ++ stringsList vs

def stringsItems : List (Scalar × PyVal) → List PyStr
  | [] => []
  | (k, v) :: rest => (match k with | .str s => [s] | _ => []) ++ strings v ++ stringsItems rest

end

theorem mem_stringsList {s : PyStr} {items : List PyVal} :
    s ∈ stringsList items ↔ ∃ v ∈ items, s ∈ strings v := by
  induction items with
  | nil => simp [stringsList]
  | cons v vs ih => simp [stringsList, ih]

theorem mem_stringsItems {s : PyStr} {items : List (Scalar × PyVal)} :
    s ∈ stringsItems items ↔ ∃ k v, (k, v) ∈ items ∧ (k = .str s ∨ s ∈ strings v) := by
  induction items with
  | nil => simp [stringsItems]
  | cons kv rest ih =>
    obtain ⟨k, v⟩ := kv
    have hk : s ∈ (match k with | .str s => [s] | _ => []) ↔ k = .str s := by
      cases k <;> simp [eq_comm]
    simp only [stringsItems, List.mem_append, hk, ih, List.mem_cons, Prod.mk.injEq]
    constructor
    · rintro ((h | h) | ⟨k', v', hm, h⟩)
      · exact ⟨k, v, Or.inl ⟨rfl, rfl⟩, Or.inl h⟩
      · exact ⟨k, v, Or.inl ⟨rfl, rfl⟩, Or.inr h⟩
      · exact ⟨k', v', Or.inr hm, h⟩
    · rintro ⟨k', v', ⟨rfl, rfl⟩ | hm, h⟩
      · exact Or.inl h
      · exact Or.inr ⟨k', v', hm, h⟩

/-- **Every string of a value stands quoted in its text**, whatever the depth. -/
theorem quote_infix_of_mem_strings [PyRuntime] {depth : Nat} {v : PyVal} {t s : PyStr}
    (h : dumpsVal depth v = .ok t) (hs : s ∈ strings v) : quote s <:+: t := by
  induction depth generalizing v t with
  | zero =>
    cases v with
    | leaf x =>
      cases x <;> simp only [strings, List.not_mem_nil, List.mem_singleton] at hs
      subst hs
      cases h
      exact List.infix_rfl
    | list | dict | other => simp [dumpsVal] at h
  | succ depth ih =>
    cases v with
    | leaf x =>
      cases x <;> simp only [strings, List.not_mem_nil, List.mem_singleton] at hs
      subst hs
      cases h
      exact List.infix_rfl
    | list items =>
      obtain ⟨parts, hp, rfl⟩ := dumpsVal_list_eq_ok.mp h
      obtain ⟨v, hv, hsv⟩ := mem_stringsList.mp hs
      obtain ⟨vt, hvt, hd⟩ := exists_right_of_forall₂ (dumpsList_eq_ok_iff.mp hp) hv
      refine ((ih hd hsv).trans (infix_joinWith (cp ',') hvt)).trans ?_
      exact ⟨[cp '['], [cp ']'], by simp⟩
    | dict items =>
      obtain ⟨k, v, hkv, hsk⟩ := mem_stringsItems.mp hs
      obtain ⟨kt, vt, hkt, hvt, hinf⟩ := member_infix_of_mem h hkv
      rcases hsk with rfl | hsv
      · cases hkt
        exact (List.prefix_append _ _).isInfix.trans hinf
      · have hsuf : vt <:+: quote kt ++ cp ':' :: vt := ⟨quote kt ++ [cp ':'], [], by simp⟩
        exact ((ih hvt hsv).trans hsuf).trans hinf
    | other => simp [dumpsVal] at h

/-! ## The characters of a text -/

/-- A printable ASCII character. -/
def CodePoint.isVisible (c : CodePoint) : Bool := 0x20 ≤ c.val && c.val < 0x80

theorem isSurrogate_of_isVisible {c : CodePoint} (h : c.isVisible = true) : c.isSurrogate = false := by
  simp only [CodePoint.isVisible, Bool.and_eq_true, decide_eq_true_eq] at h
  simp only [CodePoint.isSurrogate, Bool.and_eq_false_iff, decide_eq_false_iff_not]
  omega

theorem mem_quote {s : PyStr} {c : CodePoint} (h : c ∈ quote s) :
    c.isVisible = true ∨ (c ∈ s ∧ 0x20 ≤ c.val) := by
  have hge := ge_of_mem_quote h
  rcases List.mem_cons.mp h with rfl | h
  · exact Or.inl (by decide)
  rcases List.mem_append.mp h with h | h
  · obtain ⟨d, hd, hc⟩ := List.mem_flatMap.mp h
    rcases mem_or_ascii_of_mem_escapeChar hc with rfl | hlt
    · exact Or.inr ⟨hd, hge⟩
    · exact Or.inl (by simp [CodePoint.isVisible, hge, hlt])
  · rw [List.mem_singleton.mp h]
    exact Or.inl (by decide)

theorem isVisible_of_mem_strInt {i : Int} {t : PyStr} (h : strInt i = .ok t) {c : CodePoint}
    (hc : c ∈ t) : c.isVisible = true := by
  unfold strInt at h
  split at h
  · cases h
    rcases List.mem_append.mp hc with hc | hc
    · split at hc
      · rw [List.mem_singleton.mp hc]
        decide
      · cases hc
    · have hd := isDigit_of_mem_decimalDigits hc
      simp only [CodePoint.isDigit, Bool.and_eq_true, decide_eq_true_eq] at hd
      simp only [CodePoint.isVisible, Bool.and_eq_true, decide_eq_true_eq]
      omega
  · cases h

theorem mem_dumpsScalar [PyRuntime] {x : Scalar} {t : PyStr} (h : dumpsScalar x = .ok t)
    {c : CodePoint} (hc : c ∈ t) :
    c.isVisible = true ∨ ∃ s, x = .str s ∧ c ∈ s ∧ 0x20 ≤ c.val := by
  have hfloat : ∀ y ∈ py "0123456789+-.e", y.isVisible = true := by decide
  have hword : ∀ y ∈ py "null" ++ py "true" ++ py "false", y.isVisible = true := by decide
  cases x with
  | none =>
    cases h
    exact Or.inl (hword c (by simp [hc]))
  | bool b =>
    cases h
    exact Or.inl (hword c (by cases b <;> simp_all))
  | int i => exact Or.inl (isVisible_of_mem_strInt h hc)
  | float f =>
    cases f <;> cases h
    exact Or.inl (hfloat c (PyRuntime.floatRepr_chars _ c hc))
  | str s =>
    cases h
    exact (mem_quote hc).imp_right fun hm => ⟨s, rfl, hm⟩
  | bytes b => cases h

theorem mem_keyText [PyRuntime] {k : Scalar} {t : PyStr} (h : keyText k = .ok t) {c : CodePoint}
    (hc : c ∈ t) : c.isVisible = true ∨ ∃ s, k = .str s ∧ c ∈ s := by
  cases k with
  | str s =>
    cases h
    exact Or.inr ⟨t, rfl, hc⟩
  | none | bool | int | float | bytes =>
    exact (mem_dumpsScalar (by exact h) hc).imp_right fun ⟨s, hs, hcs, _⟩ => ⟨s, hs, hcs⟩

/-- **The alphabet of a text**: printable ASCII, and what its strings contain from U+0020 on. -/
theorem mem_dumpsVal [PyRuntime] {depth : Nat} {v : PyVal} {t : PyStr} (h : dumpsVal depth v = .ok t)
    {c : CodePoint} (hc : c ∈ t) :
    c.isVisible = true ∨ ∃ s ∈ strings v, c ∈ s ∧ 0x20 ≤ c.val := by
  have leaf : ∀ {x : Scalar} {t : PyStr}, dumpsScalar x = .ok t → c ∈ t →
      c.isVisible = true ∨ ∃ s ∈ strings (.leaf x), c ∈ s ∧ 0x20 ≤ c.val := by
    intro x t h hc
    rcases mem_dumpsScalar h hc with hv | ⟨s, rfl, hs⟩
    · exact Or.inl hv
    · exact Or.inr ⟨s, by simp [strings], hs⟩
  have mark : ∀ y ∈ py "[],:" ++ [cp '{', cp '}'], y.isVisible = true := by decide
  induction depth generalizing v t with
  | zero =>
    cases v with
    | leaf x => exact leaf (by simpa [dumpsVal] using h) hc
    | list | dict | other => simp [dumpsVal] at h
  | succ depth ih =>
    cases v with
    | leaf x => exact leaf (by simpa [dumpsVal] using h) hc
    | list items =>
      obtain ⟨parts, hp, rfl⟩ := dumpsVal_list_eq_ok.mp h
      simp only [List.mem_cons, List.mem_append, List.not_mem_nil, or_false] at hc
      rcases hc with rfl | hc | rfl
      · exact Or.inl (mark _ (by decide))
      · rcases mem_joinWith hc with rfl | ⟨x, hx, hc⟩
        · exact Or.inl (mark _ (by decide))
        · obtain ⟨w, hw, hd⟩ := exists_left_of_forall₂ (dumpsList_eq_ok_iff.mp hp) hx
          refine (ih hd hc).imp_right fun ⟨s, hs, hcs⟩ => ⟨s, ?_, hcs⟩
          exact mem_stringsList.mpr ⟨w, hw, hs⟩
      · exact Or.inl (mark _ (by decide))
    | dict items =>
      obtain ⟨sorted, hsort, members, hm, rfl⟩ := dumpsVal_dict_eq_ok.mp h
      simp only [List.mem_cons, List.mem_append, List.not_mem_nil, or_false] at hc
      rcases hc with rfl | hc | rfl
      · exact Or.inl (mark _ (by decide))
      · rcases mem_joinWith hc with rfl | ⟨x, hx, hc⟩
        · exact Or.inl (mark _ (by decide))
        · obtain ⟨⟨k, r⟩, hkr, hmem⟩ := exists_left_of_forall₂ hm hx
          rw [(sortItems_perm hsort).mem_iff, dumpsItems_eq_map] at hkr
          obtain ⟨⟨k', w⟩, hkw, heq⟩ := List.mem_map.mp hkr
          cases heq
          obtain ⟨kt, hkt, vt, hvt, rfl⟩ := member_eq_ok.mp hmem
          rcases List.mem_append.mp hc with hc | hc
          · rcases mem_quote hc with hv | ⟨hck, hge⟩
            · exact Or.inl hv
            · refine (mem_keyText hkt hck).imp_right fun ⟨s, hs, hcs⟩ => ⟨s, ?_, hcs, hge⟩
              exact mem_stringsItems.mpr ⟨k', w, hkw, Or.inl hs⟩
          · rcases List.mem_cons.mp hc with rfl | hc
            · exact Or.inl (mark _ (by decide))
            · refine (ih hvt hc).imp_right fun ⟨s, hs, hcs⟩ => ⟨s, ?_, hcs⟩
              exact mem_stringsItems.mpr ⟨_, w, hkw, Or.inr hs⟩
      · exact Or.inl (mark _ (by decide))
    | other => simp [dumpsVal] at h

theorem ge_of_mem_dumps [PyRuntime] {v : PyVal} {t : PyStr} (h : dumps v = .ok t) {c : CodePoint}
    (hc : c ∈ t) : 0x20 ≤ c.val := by
  rcases mem_dumpsVal h hc with hv | ⟨s, -, -, hge⟩
  · simp only [CodePoint.isVisible, Bool.and_eq_true, decide_eq_true_eq] at hv
    exact hv.1
  · exact hge

/-! ## `str.encode` of a text -/

theorem mem_escape {s : PyStr} {c : CodePoint} (h : c ∈ s) (hc : c ∉ escaped) : c ∈ escape s := by
  have hchar : escapeChar c = [c] := ((mem_escaped_or c).resolve_left hc).1
  exact List.mem_flatMap.mpr ⟨c, h, hchar ▸ List.mem_singleton_self c⟩

/-- **A text can be encoded exactly if no string of its value has a lone surrogate.** -/
theorem utf8_dumps_iff [PyRuntime] {v : PyVal} {t : PyStr} (h : dumps v = .ok t) :
    (∃ b, utf8 t = .ok b) ↔ ∀ s ∈ strings v, ∀ c ∈ s, c.isSurrogate = false := by
  rw [utf8_isOk_iff]
  constructor
  · intro ht s hs c hc
    by_contra hsurrogate
    have hescaped : ∀ d ∈ escaped, d.isSurrogate = false := by decide
    have hmem : c ∈ escape s := mem_escape hc fun hesc => hsurrogate (hescaped c hesc)
    have hquote : c ∈ quote s := List.mem_cons_of_mem _ (List.mem_append_left _ hmem)
    exact hsurrogate (ht c ((quote_infix_of_mem_strings h hs).subset hquote))
  · intro hs c hc
    rcases mem_dumpsVal h hc with hvis | ⟨s, hmem, hcs, -⟩
    · exact isSurrogate_of_isVisible hvis
    · exact hs s hmem c hcs

end FlopOffice.Python
