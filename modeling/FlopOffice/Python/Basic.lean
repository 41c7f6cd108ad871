/-
# FlopOffice.Python.Basic — the Python values the model is written over.

A Python `str` is a sequence of code points, lone surrogates included, so it is NOT a Lean `String`
(whose characters exclude U+D800–U+DFFF): `PyStr` is a list of `CodePoint`s. UTF-8 encoding is
therefore partial, exactly where `str.encode("utf-8")` raises `UnicodeEncodeError`, and where it
succeeds it IS the core encoder `String.utf8EncodeChar`, so injectivity is inherited from the core
decoder rather than proved over byte layouts again.

Integers carry the one distinction the sources branch on: `bool` is a subclass of `int`, so a value
that passes `isinstance(value, int)` may still be `True`. `PyInt` keeps the two apart.

What varies between the interpreters the project supports (`requires-python >= 3.12` spans several
Unicode versions) or is not worth re-deriving (the shortest decimal of a double) is gathered in the
class `PyRuntime`, whose fields carry the documented facts the model relies on.
-/
import Mathlib.Algebra.Group.Int.Defs
import Mathlib.Algebra.Group.Nat.Defs
import Mathlib.Data.List.Basic
import Mathlib.Data.List.DropRight
import Mathlib.Data.List.Forall2
import Mathlib.Data.List.Infix
import Mathlib.Tactic.Common

namespace FlopOffice.Python

/-! ## Code points and strings -/

/-- A Unicode code point, surrogates included. -/
@[ext] structure CodePoint where
  val : Nat
  isLt : val < 0x110000
  deriving DecidableEq

/-- A Python `str`. -/
abbrev PyStr := List CodePoint

instance : LawfulBEq PyStr := inferInstanceAs (LawfulBEq (List CodePoint))

/-- A Python `bytes`. -/
abbrev Bytes := List UInt8

/-- Every byte is the number of a code point. -/
theorem byte_lt (b : UInt8) : b.toNat < 0x110000 := by
  have := b.toNat_lt
  omega

/-- The bytes of an ASCII text. -/
def ascii (s : String) : Bytes := s.toList.map fun c => UInt8.ofNat c.toNat

/-- The code point of a Lean character. -/
def cp (c : Char) : CodePoint :=
  ⟨c.val.toNat, by have h := c.valid; unfold UInt32.isValidChar Nat.isValidChar at h; omega⟩

/-- A string literal of the source. -/
def py (s : String) : PyStr := s.toList.map cp

theorem cp_val (c : Char) : (cp c).val = c.toNat := rfl

theorem cp_injective : Function.Injective cp := by
  intro a b h
  have hv : (cp a).val = (cp b).val := congrArg CodePoint.val h
  exact Char.ext (UInt32.toNat_inj.mp hv)

@[simp] theorem cp_inj {a b : Char} : cp a = cp b ↔ a = b := cp_injective.eq_iff

theorem py_injective : Function.Injective py := fun _ _ h =>
  String.toList_injective (List.map_injective_iff.mpr cp_injective h)

/-- Literals are compared as strings. -/
theorem py_inj {s t : String} : py s = py t ↔ s = t := py_injective.eq_iff

theorem py_append (s t : String) : py (s ++ t) = py s ++ py t := by simp [py]

theorem py_ofList (l : List Char) : py (String.ofList l) = l.map cp := by
  simp [py]

/-- One more literal: a long text is rewritten into its characters before it is evaluated. -/
theorem py_append_ofList {s : PyStr} {t : List Char} (h : s = t.map cp) (l : List Char) :
    s ++ py (String.ofList l) = (t ++ l).map cp := by
  rw [h, py_ofList, List.map_append]

/-! ## Exceptions -/

/-- The exception classes the modelled code raises or catches. -/
inductive ExcClass
  | valueError | unicodeEncodeError | typeError | overflowError | recursionError
  | canonicalisationError | capabilityError | signatureError | didKeyError | nonceError
  | didMismatchError
  | ledgerError | secretMaterialRefused | databaseError
  | technocoreError | publicWriteRefused | rateLimitExceeded | announcementPreparationError
  | httpError | invalidURL
  | attributeError | runtimeError | osError
  | configError | keystoreError | keyNotWiredError | keystorePermissionError
  deriving DecidableEq, Repr

/-- A raised exception: its class and the text the source gives it. Exceptions that Python itself
raises carry no text, since no modelled code reads it. -/
structure Exc where
  cls : ExcClass
  msg : PyStr := []
  deriving DecidableEq

namespace ExcClass

/-- `isinstance(exc, ValueError)`. -/
def isValueError : ExcClass → Bool
  | valueError | unicodeEncodeError | canonicalisationError | didKeyError => true
  | _ => false

/-- `isinstance(exc, TechnocoreError)`. -/
def isTechnocoreError : ExcClass → Bool
  | technocoreError | publicWriteRefused => true
  | _ => false

/-- `isinstance(exc, KeystoreError)`. -/
def isKeystoreError : ExcClass → Bool
  | keystoreError | keyNotWiredError | keystorePermissionError | didMismatchError => true
  | _ => false

end ExcClass

/-! ## Fallible computations -/

section Fallible

variable {ε α β : Type}

@[simp] theorem bind_eq_ok {x : Except ε α} {f : α → Except ε β} {b : β} :
    (x >>= f) = .ok b ↔ ∃ a, x = .ok a ∧ f a = .ok b := by
  cases x <;> simp [bind, Except.bind]

@[simp] theorem bind_eq_error {x : Except ε α} {f : α → Except ε β} {e : ε} :
    (x >>= f) = .error e ↔ x = .error e ∨ ∃ a, x = .ok a ∧ f a = .error e := by
  cases x <;> simp [bind, Except.bind]

@[simp] theorem map_eq_ok {f : α → β} {x : Except ε α} {b : β} :
    x.map f = .ok b ↔ ∃ a, x = .ok a ∧ f a = b := by
  cases x <;> simp [Except.map]

/-- `if c: raise e`. -/
def raiseIf (c : Prop) [Decidable c] (e : ε) : Except ε Unit := if c then .error e else .ok ()

@[simp] theorem raiseIf_eq_ok {c : Prop} [Decidable c] {e : ε} {u : Unit} :
    raiseIf c e = .ok u ↔ ¬ c := by
  unfold raiseIf
  split
  · rename_i hc
    exact iff_of_false nofun (not_not.mpr hc)
  · rename_i hc
    exact iff_of_true rfl hc

theorem mapM_eq_ok_iff {f : α → Except ε β} {l : List α} {r : List β} :
    l.mapM f = .ok r ↔ List.Forall₂ (fun a b => f a = .ok b) l r := by
  induction l generalizing r with
  | nil => simp [pure, Except.pure, eq_comm]
  | cons a l ih =>
    simp only [List.mapM_cons, bind_eq_ok, pure, Except.pure, Except.ok.injEq, ih,
      List.forall₂_cons_left_iff]
    constructor
    · rintro ⟨b, hb, bs, hbs, rfl⟩
      exact ⟨b, bs, hb, hbs, rfl⟩
    · rintro ⟨b, bs, hb, hbs, rfl⟩
      exact ⟨b, hb, bs, hbs, rfl⟩

theorem mapM_eq_error {f : α → Except ε β} {l : List α} {e : ε} (h : l.mapM f = .error e) :
    ∃ a ∈ l, f a = .error e := by
  induction l with
  | nil => cases h
  | cons a l ih =>
    rw [List.mapM_cons] at h
    rcases bind_eq_error.mp h with h | ⟨_, -, h⟩
    · exact ⟨a, List.mem_cons_self, h⟩
    · rcases bind_eq_error.mp h with h | ⟨_, -, h⟩
      · obtain ⟨b, hb, he⟩ := ih h
        exact ⟨b, List.mem_cons_of_mem _ hb, he⟩
      · cases h

theorem exists_right_of_forall₂ {R : α → β → Prop} {l : List α} {r : List β}
    (h : List.Forall₂ R l r) {a : α} (ha : a ∈ l) : ∃ b ∈ r, R a b := by
  obtain ⟨i, hi, rfl⟩ := List.getElem_of_mem ha
  have hir : i < r.length := h.length_eq ▸ hi
  exact ⟨r[i], List.getElem_mem hir, by simpa using h.get hi hir⟩

theorem exists_left_of_forall₂ {R : α → β → Prop} {l : List α} {r : List β}
    (h : List.Forall₂ R l r) {b : β} (hb : b ∈ r) : ∃ a ∈ l, R a b :=
  exists_right_of_forall₂ (R := fun b a => R a b) h.flip hb

end Fallible

/-! ## Integers and floats -/

/-- A value that passes `isinstance(value, int)`: an `int`, or a `bool`. -/
inductive PyInt
  | int (i : Int)
  | bool (b : Bool)
  deriving DecidableEq, Repr

/-- The integer a `PyInt` stands for in arithmetic and comparisons. -/
def PyInt.toInt : PyInt → Int
  | .int i => i
  | .bool b => if b then 1 else 0

/-- A Python `float`; a finite one is `± mant · 2 ^ exp`. -/
inductive PyFloat
  | nan
  | inf (neg : Bool)
  | finite (neg : Bool) (mant : Nat) (exp : Int)
  deriving DecidableEq, Repr

/-! ## The interpreter -/

/-- `c` is a surrogate (general category `Cs`). -/
def CodePoint.isSurrogate (c : CodePoint) : Bool := 0xd800 ≤ c.val && c.val ≤ 0xdfff

/-- `c` is an ASCII letter or digit. -/
def CodePoint.isAsciiAlnum (c : CodePoint) : Bool :=
  (0x30 ≤ c.val && c.val ≤ 0x39) || (0x41 ≤ c.val && c.val ≤ 0x5a) ||
    (0x61 ≤ c.val && c.val ≤ 0x7a)

/-- What the model takes from the running interpreter: the parts of the Unicode tables beyond the
six swept categories and white space, the shortest decimal of a double, and the recursion limit. -/
class PyRuntime where
  isalnum : CodePoint → Bool
  isprintable : CodePoint → Bool
  /-- `unicodedata.decimal`: the value of a decimal digit. -/
  decimal : CodePoint → Option Nat
  /-- `float.__repr__` of a finite float. -/
  floatRepr : PyFloat → PyStr
  /-- How deep containers may nest before the C recursion check raises. -/
  recursionLimit : Nat
  /-- How deep containers may nest before `dataclasses.asdict`, which recurses in Python, raises. -/
  copyLimit : Nat
  isalnum_ascii : ∀ c : CodePoint, c.val < 0x80 → isalnum c = c.isAsciiAlnum
  isprintable_ascii : ∀ c : CodePoint, c.val < 0x80 →
    isprintable c = (decide (0x20 ≤ c.val) && decide (c.val < 0x7f))
  isprintable_surrogate : ∀ c : CodePoint, c.isSurrogate = true → isprintable c = false
  decimal_ascii : ∀ c : CodePoint, c.val < 0x80 →
    decimal c = if 0x30 ≤ c.val ∧ c.val ≤ 0x39 then some (c.val - 0x30) else none
  floatRepr_chars : ∀ f, ∀ c ∈ floatRepr f, c ∈ py "0123456789+-.e"
  recursionLimit_ge : 16 ≤ recursionLimit
  copyLimit_ge : 16 ≤ copyLimit

/-- An interpreter whose tables know only ASCII. It agrees with every real one on ASCII text. -/
@[reducible] def asciiRuntime : PyRuntime where
  isalnum c := c.isAsciiAlnum
  isprintable c := decide (0x20 ≤ c.val) && decide (c.val < 0x7f)
  decimal c := if 0x30 ≤ c.val ∧ c.val ≤ 0x39 then some (c.val - 0x30) else none
  floatRepr _ := py "0.0"
  recursionLimit := 1000
  copyLimit := 300
  isalnum_ascii _ _ := rfl
  isprintable_ascii _ _ := rfl
  isprintable_surrogate c h := by
    simp only [CodePoint.isSurrogate, Bool.and_eq_true, decide_eq_true_eq] at h
    simp only [Bool.and_eq_false_iff, decide_eq_false_iff_not]
    omega
  decimal_ascii _ _ := rfl
  floatRepr_chars _ := by decide
  recursionLimit_ge := by decide
  copyLimit_ge := by decide

/-! ## `str(int)` -/

/-- The decimal digits of a natural number, most significant first. -/
def decimalDigits (n : Nat) : PyStr := (Nat.toDigits 10 n).map cp

/-- `sys.get_int_max_str_digits()` at its default. -/
def maxStrDigits : Nat := 4300

/-- `str(i)`, which raises `ValueError` past the interpreter's digit limit. -/
def strInt (i : Int) : Except Exc PyStr :=
  if (decimalDigits i.natAbs).length ≤ maxStrDigits then
    .ok ((if i < 0 then [cp '-'] else []) ++ decimalDigits i.natAbs)
  else .error ⟨.valueError, []⟩

/-- `str(value)`. -/
def PyInt.str : PyInt → Except Exc PyStr
  | .int i => strInt i
  | .bool b => .ok (if b then py "True" else py "False")

/-- `c` is an ASCII digit. -/
def CodePoint.isDigit (c : CodePoint) : Bool := 0x30 ≤ c.val && c.val ≤ 0x39

theorem isDigit_of_mem_decimalDigits {n : Nat} {c : CodePoint} (h : c ∈ decimalDigits n) :
    c.isDigit = true := by
  obtain ⟨d, hd, rfl⟩ := List.mem_map.mp h
  have hdig := Nat.isDigit_of_mem_toDigits (by decide) (by decide) hd
  simp only [Char.isDigit, Bool.and_eq_true, decide_eq_true_eq, ge_iff_le,
    UInt32.le_iff_toNat_le] at hdig
  rw [CodePoint.isDigit, Bool.and_eq_true, decide_eq_true_eq, decide_eq_true_eq]
  exact hdig

theorem decimalDigits_ne_nil (n : Nat) : decimalDigits n ≠ [] := by
  simp [decimalDigits]

theorem decimalDigits_injective : Function.Injective decimalDigits := by
  intro m n h
  have hd : Nat.toDigits 10 m = Nat.toDigits 10 n := List.map_injective_iff.mpr cp_injective h
  rw [← Nat.ofDigitChars_ten_toDigits (n := m), hd, Nat.ofDigitChars_ten_toDigits]

theorem decimalDigits_length_le_iff {n k : Nat} (hk : 0 < k) :
    (decimalDigits n).length ≤ k ↔ n < 10 ^ k := by
  rw [decimalDigits, List.length_map, Nat.length_toDigits_le_iff (by decide) hk]

/-! ## UTF-8 -/

/-- The Lean character of a code point that is a Unicode scalar value. -/
def toChar? (c : CodePoint) : Option Char :=
  if h : c.val.isValidChar then some (Char.ofNatAux c.val h) else none

theorem cp_of_toChar? {c : CodePoint} {d : Char} (h : toChar? c = some d) : cp d = c := by
  by_cases hv : c.val.isValidChar
  · rw [toChar?, dif_pos hv] at h
    cases h
    apply CodePoint.ext
    rfl
  · rw [toChar?, dif_neg hv] at h
    cases h

@[simp] theorem toChar?_cp (d : Char) : toChar? (cp d) = some d := by
  have hv : (cp d).val.isValidChar := d.valid
  have hs : toChar? (cp d) = some (Char.ofNatAux (cp d).val hv) := dif_pos hv
  rw [hs, Option.some_inj]
  exact cp_injective (cp_of_toChar? hs)

theorem toChar?_eq_none_iff {c : CodePoint} : toChar? c = none ↔ c.isSurrogate = true := by
  have hc := c.isLt
  have hsurrogate : c.isSurrogate = true ↔ ¬ c.val.isValidChar := by
    simp only [CodePoint.isSurrogate, Bool.and_eq_true, decide_eq_true_eq, Nat.isValidChar]
    omega
  rw [hsurrogate, toChar?]
  by_cases hv : c.val.isValidChar
  · rw [dif_pos hv]
    exact iff_of_false (Option.some_ne_none _) (not_not.mpr hv)
  · rw [dif_neg hv]
    exact iff_of_true rfl hv

/-- `s.encode("utf-8")` with the strict error handler: lone surrogates raise. -/
def utf8 (s : PyStr) : Except Exc Bytes :=
  match s.mapM toChar? with
  | some chars => .ok (chars.flatMap String.utf8EncodeChar)
  | none => .error ⟨.unicodeEncodeError, []⟩

theorem mapM_toChar?_eq_some {s : PyStr} {l : List Char} :
    s.mapM toChar? = some l ↔ s = l.map cp := by
  induction s generalizing l with
  | nil => cases l <;> simp
  | cons c s ih =>
    rw [List.mapM_cons]
    cases hc : toChar? c with
    | none =>
      cases l with
      | nil => simp
      | cons d l =>
        simp only [Option.bind_eq_bind, Option.bind_none, reduceCtorEq, List.map_cons,
          List.cons.injEq, false_iff, not_and]
        rintro rfl
        simp at hc
    | some d =>
      have hcd := cp_of_toChar? hc
      subst hcd
      cases l with
      | nil => cases hm : s.mapM toChar? <;> simp
      | cons e l =>
        cases hm : s.mapM toChar? with
        | none =>
          have hne : s ≠ l.map cp := fun h => by simp [ih.mpr h] at hm
          simp [hne]
        | some l' =>
          have hs := ih.mp hm
          subst hs
          simp [List.map_inj_right (fun _ _ h => cp_injective h)]

/-- UTF-8 succeeds exactly on the strings of scalar values, and is the core encoder there. -/
theorem utf8_eq_ok_iff {s : PyStr} {b : Bytes} :
    utf8 s = .ok b ↔ ∃ l : List Char, s = l.map cp ∧ b = l.flatMap String.utf8EncodeChar := by
  unfold utf8
  constructor
  · intro h
    split at h
    · rename_i l hl
      exact ⟨l, mapM_toChar?_eq_some.mp hl, by cases h; rfl⟩
    · cases h
  · rintro ⟨l, rfl, rfl⟩
    rw [mapM_toChar?_eq_some.mpr rfl]

theorem flatMap_utf8EncodeChar_injective {l m : List Char}
    (h : l.flatMap String.utf8EncodeChar = m.flatMap String.utf8EncodeChar) : l = m := by
  have henc : l.utf8Encode = m.utf8Encode := by
    simp only [List.utf8Encode, h]
  have hdec : some l.toArray = some m.toArray := by
    rw [← List.utf8Decode?_utf8Encode, henc, List.utf8Decode?_utf8Encode]
  simpa using hdec

/-- **UTF-8 is injective** on the strings it encodes. -/
theorem utf8_injective {s t : PyStr} {b : Bytes} (hs : utf8 s = .ok b) (ht : utf8 t = .ok b) :
    s = t := by
  obtain ⟨l, rfl, hb⟩ := utf8_eq_ok_iff.mp hs
  obtain ⟨m, rfl, hb'⟩ := utf8_eq_ok_iff.mp ht
  rw [flatMap_utf8EncodeChar_injective (hb.symm.trans hb')]

theorem utf8_isOk_iff {s : PyStr} :
    (∃ b, utf8 s = .ok b) ↔ ∀ c ∈ s, c.isSurrogate = false := by
  constructor
  · rintro ⟨b, hb⟩ c hc
    obtain ⟨l, rfl, -⟩ := utf8_eq_ok_iff.mp hb
    obtain ⟨d, -, rfl⟩ := List.mem_map.mp hc
    by_contra hne
    have := toChar?_eq_none_iff.mpr (Bool.not_eq_false _ ▸ hne)
    simp at this
  · intro h
    have hl : ∃ l : List Char, s = l.map cp := by
      induction s with
      | nil => exact ⟨[], rfl⟩
      | cons c s ih =>
        obtain ⟨l, hl⟩ := ih fun d hd => h d (List.mem_cons_of_mem _ hd)
        cases hc : toChar? c with
        | none =>
          have := toChar?_eq_none_iff.mp hc
          rw [h c List.mem_cons_self] at this
          cases this
        | some d => exact ⟨d :: l, by rw [hl, List.map_cons, cp_of_toChar? hc]⟩
    obtain ⟨l, rfl⟩ := hl
    exact ⟨_, utf8_eq_ok_iff.mpr ⟨l, rfl, rfl⟩⟩

theorem utf8_error {s : PyStr} {e : Exc} (h : utf8 s = .error e) : e.cls = .unicodeEncodeError := by
  unfold utf8 at h
  split at h <;> cases h
  rfl

/-- `bytes.decode("utf-8")` with the strict error handler; `none` where it raises. -/
def utf8Decode (b : Bytes) : Option PyStr :=
  (ByteArray.mk b.toArray).utf8Decode?.map fun chars => chars.toList.map cp

theorem utf8Decode_utf8 {s : PyStr} {b : Bytes} (h : utf8 s = .ok b) : utf8Decode b = some s := by
  obtain ⟨l, rfl, rfl⟩ := utf8_eq_ok_iff.mp h
  have henc : ByteArray.mk (l.flatMap String.utf8EncodeChar).toArray = l.utf8Encode := by
    apply ByteArray.ext
    simp [List.utf8Encode]
  rw [utf8Decode, henc, List.utf8Decode?_utf8Encode]
  rfl

theorem utf8_of_utf8Decode {b : Bytes} {s : PyStr} (h : utf8Decode b = some s) :
    ∃ b, utf8 s = .ok b := by
  obtain ⟨chars, -, rfl⟩ := Option.map_eq_some_iff.mp h
  exact ⟨_, utf8_eq_ok_iff.mpr ⟨chars.toList, rfl, rfl⟩⟩

theorem strInt_isOk_iff {i : Int} : (∃ t, strInt i = .ok t) ↔ i.natAbs < 10 ^ maxStrDigits := by
  rw [← decimalDigits_length_le_iff (by decide)]
  unfold strInt
  split
  · rename_i h
    exact iff_of_true ⟨_, rfl⟩ h
  · rename_i h
    exact iff_of_false nofun h

theorem strInt_error {i : Int} {e : Exc} (h : strInt i = .error e) : e.cls = .valueError := by
  unfold strInt at h
  split at h <;> cases h
  rfl

end FlopOffice.Python
