/-
# FlopOffice.Python.Text — the `str` methods and Unicode tables the sources call.

The six general categories the canonical sweep replaces, `str.isspace`, `str.strip`,
`str.splitlines` and `repr` of a string, each as Python documents it. The tables are range lists
over code points; `Cn`, letters, marks and the other categories the code never asks about are
`Category.other`.
-/
import FlopOffice.Python.Basic

namespace FlopOffice.Python

/-! ## Unicode tables -/

/-- Membership of a code point in a list of closed ranges. -/
def inRanges (rs : List (Nat × Nat)) (c : CodePoint) : Bool :=
  rs.any fun r => decide (r.1 ≤ c.val) && decide (c.val ≤ r.2)

/-- `unicodedata.category`, as far as the sweep tells categories apart. -/
inductive Category
  | Cc | Cf | Cs | Co | Zl | Zp | other
  deriving DecidableEq, Repr

/-- The format characters (`Cf`). -/
def cfRanges : List (Nat × Nat) :=
  [(0xad, 0xad), (0x600, 0x605), (0x61c, 0x61c), (0x6dd, 0x6dd), (0x70f, 0x70f), (0x890, 0x891),
   (0x8e2, 0x8e2), (0x180e, 0x180e), (0x200b, 0x200f), (0x202a, 0x202e), (0x2060, 0x2064),
   (0x2066, 0x206f), (0xfeff, 0xfeff), (0xfff9, 0xfffb), (0x110bd, 0x110bd), (0x110cd, 0x110cd),
   (0x13430, 0x1343f), (0x1bca0, 0x1bca3), (0x1d173, 0x1d17a), (0xe0001, 0xe0001),
   (0xe0020, 0xe007f)]

/-- `unicodedata.category(c)`. -/
def category (c : CodePoint) : Category :=
  if inRanges [(0x00, 0x1f), (0x7f, 0x9f)] c then .Cc
  else if inRanges cfRanges c then .Cf
  else if c.isSurrogate then .Cs
  else if inRanges [(0xe000, 0xf8ff), (0xf0000, 0xffffd), (0x100000, 0x10fffd)] c then .Co
  else if c.val = 0x2028 then .Zl
  else if c.val = 0x2029 then .Zp
  else .other

/-- `str.isspace` of one character; `re`'s `\s` is the same set. -/
def isSpace (c : CodePoint) : Bool :=
  inRanges [(0x09, 0x0d), (0x1c, 0x20), (0x85, 0x85), (0xa0, 0xa0), (0x1680, 0x1680),
    (0x2000, 0x200a), (0x2028, 0x2029), (0x202f, 0x202f), (0x205f, 0x205f), (0x3000, 0x3000)] c

/-! ## `str.strip` -/

/-- `s.strip()`. -/
def strip (s : PyStr) : PyStr := (s.dropWhile isSpace).rdropWhile isSpace

theorem strip_sublist (s : PyStr) : (strip s).Sublist s :=
  ((List.rdropWhile_prefix isSpace _).sublist).trans (List.dropWhile_sublist isSpace)

theorem mem_of_mem_strip {s : PyStr} {c : CodePoint} (h : c ∈ strip s) : c ∈ s :=
  (strip_sublist s).subset h

/-- A stripped string neither starts nor ends with white space. -/
theorem strip_ends (s : PyStr) :
    (∀ c, (strip s).head? = some c → isSpace c = false) ∧
      ∀ c, (strip s).getLast? = some c → isSpace c = false := by
  constructor
  · intro c hc
    have hpre : strip s <+: s.dropWhile isSpace := List.rdropWhile_prefix isSpace _
    have hhead : (s.dropWhile isSpace).head? = some c := by
      obtain ⟨t, ht⟩ := hpre
      rw [← ht, List.head?_append, hc, Option.some_or]
    have hnot := List.head?_dropWhile_not isSpace s
    rw [hhead] at hnot
    simpa using hnot
  · intro c hc
    have hne : strip s ≠ [] := by
      intro h0
      simp [h0] at hc
    have hlast := List.rdropWhile_last_not isSpace (s.dropWhile isSpace) hne
    have hceq : (strip s).getLast hne = c := by
      rw [List.getLast?_eq_getLast_of_ne_nil hne] at hc
      exact Option.some_inj.mp hc
    have : (strip s).getLast hne = (List.rdropWhile isSpace (s.dropWhile isSpace)).getLast hne := rfl
    rw [← this, hceq] at hlast
    simpa using hlast

/-- Stripping changes nothing exactly when neither end is white space. -/
theorem strip_eq_self_iff {s : PyStr} :
    strip s = s ↔ (∀ c, s.head? = some c → isSpace c = false) ∧
      ∀ c, s.getLast? = some c → isSpace c = false := by
  constructor
  · intro h
    have he := strip_ends s
    rwa [h] at he
  · rintro ⟨hhead, hlast⟩
    have hd : s.dropWhile isSpace = s := by
      cases s with
      | nil => rfl
      | cons c s => rw [List.dropWhile_cons_of_neg (by simp [hhead c rfl])]
    rw [strip, hd, List.rdropWhile_eq_self_iff]
    intro hne
    rw [hlast _ (List.getLast?_eq_getLast_of_ne_nil hne)]
    exact Bool.false_ne_true

theorem strip_strip (s : PyStr) : strip (strip s) = strip s :=
  strip_eq_self_iff.mpr (strip_ends s)

/-! ## `str.splitlines` -/

/-- The characters at which `str.splitlines` ends a line. -/
def isLineBreak (c : CodePoint) : Bool :=
  inRanges [(0x0a, 0x0d), (0x1c, 0x1e), (0x85, 0x85), (0x2028, 0x2029)] c

/-- The loop of `splitlines`: `cur` is the line being read, reversed, and `afterCR` says that the
last break was a carriage return, which takes a following line feed with it. -/
def splitlinesAux (afterCR : Bool) (cur : PyStr) : PyStr → List PyStr
  | [] => if cur.isEmpty then [] else [cur.reverse]
  | c :: rest =>
    if afterCR && c.val == 0x0a then splitlinesAux false cur rest
    else if isLineBreak c then cur.reverse :: splitlinesAux (c.val == 0x0d) [] rest
    else splitlinesAux false (c :: cur) rest

/-- `s.splitlines()`. -/
def splitlines (s : PyStr) : List PyStr := splitlinesAux false [] s

theorem splitlinesAux_getD_zero (cur s : PyStr) :
    (splitlinesAux false cur s).getD 0 [] =
      cur.reverse ++ s.takeWhile fun c => !isLineBreak c := by
  induction s generalizing cur with
  | nil => cases cur <;> simp [splitlinesAux]
  | cons c s ih =>
    simp only [splitlinesAux, Bool.false_and, Bool.false_eq_true, if_false]
    by_cases hc : isLineBreak c = true
    · simp [hc]
    · rw [if_neg hc, ih, List.takeWhile_cons_of_pos (by simpa using hc)]
      simp

/-- The first line is the text before the first line break. -/
theorem splitlines_getD_zero (s : PyStr) :
    (splitlines s).getD 0 [] = s.takeWhile fun c => !isLineBreak c := by
  simpa [splitlines] using splitlinesAux_getD_zero [] s

/-! ## `int(str)` -/

/-- The digits of an integer literal, with single underscores allowed between them; `need` says that
the next character has to be a digit. -/
def digitsValue [PyRuntime] (acc : Nat) (need : Bool) : PyStr → Option Nat
  | [] => if need then none else some acc
  | c :: rest =>
    if c = cp '_' then if need then none else digitsValue acc true rest
    else match PyRuntime.decimal c with
      | some d => digitsValue (acc * 10 + d) false rest
      | none => none

/-- The white space `int` allows around a number. It is not `str.isspace`: the separators U+001C to
U+001F are ASCII, and the conversion leaves ASCII to the white space of C. -/
def isIntSpace (c : CodePoint) : Bool := isSpace c && !inRanges [(0x1c, 0x1f)] c

/-- `s` without the white space `int` allows around it. -/
def stripInt (s : PyStr) : PyStr := (s.dropWhile isIntSpace).rdropWhile isIntSpace

theorem stripInt_eq_self {s : PyStr} (h : ∀ c ∈ s, isSpace c = false) : stripInt s = s := by
  have hno : ∀ c ∈ s, isIntSpace c = false := fun c hc => by rw [isIntSpace, h c hc, Bool.false_and]
  have hd : s.dropWhile isIntSpace = s := by
    cases s with
    | nil => rfl
    | cons c s => rw [List.dropWhile_cons_of_neg (by simp [hno c])]
  rw [stripInt, hd, List.rdropWhile_eq_self_iff]
  intro hne
  rw [hno _ (List.getLast_mem hne)]
  exact Bool.false_ne_true

/-- `int(s)` of a string: white space around it and one sign are allowed. -/
def parseInt [PyRuntime] (s : PyStr) : Except Exc Int :=
  let t := stripInt s
  let neg := t.head? == some (cp '-')
  let body := if neg || t.head? == some (cp '+') then t.drop 1 else t
  match digitsValue 0 true body with
  | some n =>
    if (body.filter fun c => c != cp '_').length ≤ maxStrDigits then .ok (if neg then -n else n)
    else .error ⟨.valueError, []⟩
  | none => .error ⟨.valueError, []⟩

theorem parseInt_error [PyRuntime] {s : PyStr} {e : Exc} (h : parseInt s = .error e) :
    e.cls = .valueError := by
  have hcases : ∀ (o : Option Nat) (fits : Prop) [Decidable fits] (f : Nat → Int),
      (match o with
        | some n => if fits then .ok (f n) else .error ⟨.valueError, []⟩
        | none => .error ⟨.valueError, []⟩ : Except Exc Int) = .error e → e.cls = .valueError := by
    intro o fits _ f h
    split at h
    · split at h <;> cases h
      rfl
    · cases h
      rfl
  exact hcases _ _ _ h

/-! ## Hexadecimal -/

/-- One lowercase hexadecimal digit. -/
def hexDigit (n : Nat) : CodePoint := cp (Nat.digitChar (n % 16))

/-- `n` as `width` lowercase hexadecimal digits. -/
def hexPad : Nat → Nat → PyStr
  | 0, _ => []
  | width + 1, n => hexPad width (n / 16) ++ [hexDigit n]

@[simp] theorem hexPad_length (width n : Nat) : (hexPad width n).length = width := by
  induction width generalizing n with
  | zero => rfl
  | succ width ih => simp [hexPad, ih]

/-- The lowercase hexadecimal alphabet. -/
def hexAlphabet : PyStr := py "0123456789abcdef"

theorem hexDigit_mem (n : Nat) : hexDigit n ∈ hexAlphabet := by
  have key : ∀ k, k < 16 → cp (Nat.digitChar k) ∈ hexAlphabet := by decide
  exact key _ (Nat.mod_lt _ (by decide))

theorem mem_hexAlphabet_of_mem_hexPad {width n : Nat} {c : CodePoint} (h : c ∈ hexPad width n) :
    c ∈ hexAlphabet := by
  induction width generalizing n with
  | zero => cases h
  | succ width ih =>
    rcases List.mem_append.mp h with h | h
    · exact ih h
    · rw [List.mem_singleton.mp h]
      exact hexDigit_mem n

/-! ## Fixed-width texts -/

/-- `n` as `width` decimal digits. -/
def decPad : Nat → Nat → PyStr
  | 0, _ => []
  | width + 1, n => decPad width (n / 10) ++ [hexDigit (n % 10)]

theorem mem_hexAlphabet_of_mem_decPad {width n : Nat} {c : CodePoint} (h : c ∈ decPad width n) :
    c ∈ hexAlphabet := by
  induction width generalizing n with
  | zero => cases h
  | succ width ih =>
    rcases List.mem_append.mp h with h | h
    · exact ih h
    · rw [List.mem_singleton.mp h]
      exact hexDigit_mem _

/-- A UTC time to the second. -/
structure UtcTime where
  year : Nat
  month : Nat
  day : Nat
  hour : Nat
  minute : Nat
  second : Nat
  deriving DecidableEq

/-- `datetime.isoformat()` of a UTC time without microseconds. -/
def UtcTime.isoformat (t : UtcTime) : PyStr :=
  decPad 4 t.year ++ cp '-' :: (decPad 2 t.month ++ cp '-' :: (decPad 2 t.day ++ cp 'T' ::
    (decPad 2 t.hour ++ cp ':' :: (decPad 2 t.minute ++ cp ':' :: (decPad 2 t.second ++
      py "+00:00")))))

/-- `str(uuid.uuid4())`, from its random bits. -/
def uuid4 (bits : Nat) : PyStr :=
  hexPad 8 (bits / 2 ^ 90) ++ cp '-' :: (hexPad 4 (bits / 2 ^ 74) ++ cp '-' ::
    (cp '4' :: hexPad 3 (bits / 2 ^ 62) ++ cp '-' ::
      (hexDigit (8 + bits / 2 ^ 60 % 4) :: hexPad 3 (bits / 2 ^ 48) ++ cp '-' :: hexPad 12 bits)))

theorem mem_isoformat {t : UtcTime} {c : CodePoint} (h : c ∈ t.isoformat) :
    c ∈ hexAlphabet ∨ c ∈ py "-T:+" := by
  have hzone : ∀ x ∈ py "+00:00", x ∈ hexAlphabet ∨ x ∈ py "-T:+" := by decide
  have hmark : ∀ x ∈ py "-T:+", x ∈ hexAlphabet ∨ x ∈ py "-T:+" := fun _ hx => Or.inr hx
  simp only [UtcTime.isoformat, List.mem_append, List.mem_cons] at h
  rcases h with h | rfl | h | rfl | h | rfl | h | rfl | h | rfl | h | h
  · exact Or.inl (mem_hexAlphabet_of_mem_decPad h)
  · exact hmark _ (by decide)
  · exact Or.inl (mem_hexAlphabet_of_mem_decPad h)
  · exact hmark _ (by decide)
  · exact Or.inl (mem_hexAlphabet_of_mem_decPad h)
  · exact hmark _ (by decide)
  · exact Or.inl (mem_hexAlphabet_of_mem_decPad h)
  · exact hmark _ (by decide)
  · exact Or.inl (mem_hexAlphabet_of_mem_decPad h)
  · exact hmark _ (by decide)
  · exact Or.inl (mem_hexAlphabet_of_mem_decPad h)
  · exact hzone c h

theorem mem_uuid4 {bits : Nat} {c : CodePoint} (h : c ∈ uuid4 bits) : c ∈ hexAlphabet ∨ c = cp '-' := by
  simp only [uuid4, List.mem_append, List.mem_cons] at h
  rcases h with h | rfl | h | rfl | (rfl | h) | rfl | (rfl | h) | rfl | h
  · exact Or.inl (mem_hexAlphabet_of_mem_hexPad h)
  · exact Or.inr rfl
  · exact Or.inl (mem_hexAlphabet_of_mem_hexPad h)
  · exact Or.inr rfl
  · exact Or.inl (by decide)
  · exact Or.inl (mem_hexAlphabet_of_mem_hexPad h)
  · exact Or.inr rfl
  · exact Or.inl (hexDigit_mem _)
  · exact Or.inl (mem_hexAlphabet_of_mem_hexPad h)
  · exact Or.inr rfl
  · exact Or.inl (mem_hexAlphabet_of_mem_hexPad h)

/-! ## `repr` -/

/-- How `repr` writes one character inside quotes of kind `quote`. -/
def reprChar [PyRuntime] (quote c : CodePoint) : PyStr :=
  if c = quote ∨ c = cp '\\' then [cp '\\', c]
  else if c = cp '\t' then py "\\t"
  else if c = cp '\n' then py "\\n"
  else if c = cp '\r' then py "\\r"
  else if PyRuntime.isprintable c then [c]
  else if c.val ≤ 0xff then py "\\x" ++ hexPad 2 c.val
  else if c.val ≤ 0xffff then py "\\u" ++ hexPad 4 c.val
  else py "\\U" ++ hexPad 8 c.val

/-- `repr(s)` of a string: single quotes, unless the text has one and no double quote. -/
def pyRepr [PyRuntime] (s : PyStr) : PyStr :=
  let quote := if cp '\'' ∈ s ∧ cp '"' ∉ s then cp '"' else cp '\''
  quote :: s.flatMap (reprChar quote) ++ [quote]

/-- `repr` of a list of strings. -/
def reprStrings [PyRuntime] (items : List PyStr) : PyStr :=
  cp '[' :: (List.intercalate (py ", ") (items.map pyRepr) ++ [cp ']'])

/-- Everything `reprChar` writes is an escape, the quote, or the character itself if printable. -/
theorem mem_reprChar [PyRuntime] {quote d c : CodePoint} (h : c ∈ reprChar quote d) :
    c ∈ py "\\tnrxuU" ++ hexAlphabet ∨ c = quote ∨ (c = d ∧ PyRuntime.isprintable d = true) := by
  have hhex : ∀ width n, c ∈ hexPad width n → c ∈ py "\\tnrxuU" ++ hexAlphabet := fun _ _ hm =>
    List.mem_append_right _ (mem_hexAlphabet_of_mem_hexPad hm)
  have hesc : ∀ x ∈ py "\\t" ++ py "\\n" ++ py "\\r" ++ py "\\x" ++ py "\\u" ++ py "\\U",
      x ∈ py "\\tnrxuU" ++ hexAlphabet := by decide
  have hbs : cp '\\' ∈ py "\\tnrxuU" ++ hexAlphabet := by decide
  unfold reprChar at h
  split at h
  · rename_i hd
    rcases List.mem_cons.mp h with rfl | h
    · exact Or.inl hbs
    · rw [List.mem_singleton.mp h]
      rcases hd with rfl | rfl
      · exact Or.inr (Or.inl rfl)
      · exact Or.inl hbs
  · split at h
    · exact Or.inl (hesc c (by simp [h]))
    split at h
    · exact Or.inl (hesc c (by simp [h]))
    split at h
    · exact Or.inl (hesc c (by simp [h]))
    split at h
    · rename_i hp
      exact Or.inr (Or.inr ⟨List.mem_singleton.mp h, hp⟩)
    split at h
    · rcases List.mem_append.mp h with h | h
      · exact Or.inl (hesc c (by simp [h]))
      · exact Or.inl (hhex _ _ h)
    split at h
    · rcases List.mem_append.mp h with h | h
      · exact Or.inl (hesc c (by simp [h]))
      · exact Or.inl (hhex _ _ h)
    · rcases List.mem_append.mp h with h | h
      · exact Or.inl (hesc c (by simp [h]))
      · exact Or.inl (hhex _ _ h)

/-- `repr` of a string can always be encoded: lone surrogates are written as escapes. -/
theorem pyRepr_scalar [PyRuntime] (s : PyStr) : ∀ c ∈ pyRepr s, c.isSurrogate = false := by
  have hesc : ∀ x ∈ py "\\tnrxuU" ++ hexAlphabet, x.isSurrogate = false := by decide
  have hquote : ∀ b : Bool, (if b then cp '"' else cp '\'').isSurrogate = false := by decide
  have hq := hquote (decide (cp '\'' ∈ s ∧ cp '"' ∉ s))
  simp only [decide_eq_true_eq] at hq
  intro c hc
  simp only [pyRepr, List.cons_append, List.mem_cons, List.mem_append, List.mem_flatMap,
    List.not_mem_nil, or_false] at hc
  rcases hc with rfl | ⟨d, -, hd⟩ | rfl
  · exact hq
  · rcases mem_reprChar hd with h | rfl | ⟨rfl, hp⟩
    · exact hesc c h
    · exact hq
    · by_contra hne
      rw [PyRuntime.isprintable_surrogate c (by simpa using hne)] at hp
      cases hp
  · exact hq

end FlopOffice.Python
