/-
# FlopOffice.Python.Builtins — `bool`, `str`, `repr` and `int` of a Python value.

What the sources do with a value whose type they have not checked: test its truth, show it, convert
it. A string shows itself and is quoted by `repr`; containers show the `repr` of what they hold, and
raise `RecursionError` past the recursion limit.

The Unicode property behind `str.isdigit` is wider than the one `int` reads (a superscript two is a
digit, and no decimal), so it comes with the interpreter: `PyBuiltins`.
-/
import FlopOffice.Python.Json

namespace FlopOffice.Python

/-- The lowercase of an ASCII letter, and every other character as it is. -/
def CodePoint.asciiLower (c : CodePoint) : CodePoint :=
  if h : 0x41 ≤ c.val ∧ c.val ≤ 0x5a then ⟨c.val + 32, by omega⟩ else c

/-- The uppercase of an ASCII letter, and every other character as it is. -/
def CodePoint.asciiUpper (c : CodePoint) : CodePoint :=
  if h : 0x61 ≤ c.val ∧ c.val ≤ 0x7a then ⟨c.val - 32, by omega⟩ else c

/-- What the model takes from the interpreter beside `PyRuntime`. -/
class PyBuiltins where
  /-- `str.isdigit` of one character. -/
  isdigit : CodePoint → Bool
  /-- `repr` of a value that is none of the built-in ones. -/
  reprOther : PyStr
  /-- `str.lower`. -/
  lower : PyStr → PyStr
  /-- `str.upper`. -/
  upper : PyStr → PyStr
  isdigit_ascii : ∀ c : CodePoint, c.val < 0x80 → isdigit c = c.isDigit
  lower_ascii : ∀ s : PyStr, (∀ c ∈ s, c.val < 0x80) → lower s = s.map CodePoint.asciiLower
  upper_ascii : ∀ s : PyStr, (∀ c ∈ s, c.val < 0x80) → upper s = s.map CodePoint.asciiUpper

/-- The built-ins over ASCII. -/
@[reducible] def asciiBuiltins : PyBuiltins where
  isdigit c := c.isDigit
  reprOther := py "<object>"
  lower s := s.map CodePoint.asciiLower
  upper s := s.map CodePoint.asciiUpper
  isdigit_ascii _ _ := rfl
  lower_ascii _ _ := rfl
  upper_ascii _ _ := rfl

/-! ## Truth -/

/-- `bool(value)` of a value that is not a container. -/
def Scalar.truthy : Scalar → Bool
  | .none => false
  | .bool b => b
  | .int i => i ≠ 0
  | .float (.finite _ mant _) => mant ≠ 0
  | .float _ => true
  | .str s => s ≠ []
  | .bytes b => b ≠ []

/-- `bool(value)`. -/
def PyVal.truthy : PyVal → Bool
  | .leaf s => s.truthy
  | .list items => !items.isEmpty
  | .dict items => !items.isEmpty
  | .other => true

/-- `a or b`. -/
def pyOr (a b : PyVal) : PyVal := if a.truthy then a else b

/-- `value is None`. -/
def PyVal.isNone : PyVal → Bool
  | .leaf .none => true
  | _ => false

/-- `d.get(key, default)`; the default is `None` where the call gives none. -/
def PyVal.get (d : PyVal) (key : PyStr) (default : PyVal := .leaf .none) : PyVal :=
  (d.get? key).getD default

/-! ## `repr` and `str` -/

/-- `float.__repr__`. -/
def reprFloat [PyRuntime] : PyFloat → PyStr
  | .nan => py "nan"
  | .inf neg => if neg then py "-inf" else py "inf"
  | .finite neg mant exp => PyRuntime.floatRepr (.finite neg mant exp)

/-- How `repr` writes one byte. -/
def reprByte (quote : CodePoint) (b : UInt8) : PyStr :=
  let c : CodePoint := ⟨b.toNat, byte_lt b⟩
  if c = quote ∨ c = cp '\\' then [cp '\\', c]
  else if c = cp '\t' then py "\\t"
  else if c = cp '\n' then py "\\n"
  else if c = cp '\r' then py "\\r"
  else if 0x20 ≤ c.val ∧ c.val < 0x7f then [c]
  else py "\\x" ++ hexPad 2 c.val

/-- `repr(b)` of bytes. -/
def reprBytes (b : Bytes) : PyStr :=
  let quote := if 0x27 ∈ b ∧ 0x22 ∉ b then cp '"' else cp '\''
  cp 'b' :: quote :: b.flatMap (reprByte quote) ++ [quote]

/-- `repr` of a value that is not a container. -/
def reprScalar [PyRuntime] : Scalar → Except Exc PyStr
  | .none => .ok (py "None")
  | .bool b => .ok (if b then py "True" else py "False")
  | .int i => strInt i
  | .float f => .ok (reprFloat f)
  | .str s => .ok (pyRepr s)
  | .bytes b => .ok (reprBytes b)

mutual

/-- `repr(value)`, with `depth` levels of containers left before the recursion limit. -/
def reprVal [PyRuntime] [PyBuiltins] : Nat → PyVal → Except Exc PyStr
  | _, .leaf s => reprScalar s
  | 0, .list _ => .error ⟨.recursionError, []⟩
  | depth + 1, .list items => do
    let parts ← reprList depth items
    pure (cp '[' :: (List.intercalate (py ", ") parts ++ [cp ']']))
  | 0, .dict _ => .error ⟨.recursionError, []⟩
  | depth + 1, .dict items => do
    let parts ← reprItems depth items
    pure (cp '{' :: (List.intercalate (py ", ") parts ++ [cp '}']))
  | _, .other => .ok PyBuiltins.reprOther

def reprList [PyRuntime] [PyBuiltins] : Nat → List PyVal → Except Exc (List PyStr)
  | _, [] => .ok []
  | depth, v :: vs => do
    let t ← reprVal depth v
    let ts ← reprList depth vs
    pure (t :: ts)

def reprItems [PyRuntime] [PyBuiltins] : Nat → List (Scalar × PyVal) → Except Exc (List PyStr)
  | _, [] => .ok []
  | depth, (k, v) :: rest => do
    let kt ← reprScalar k
    let vt ← reprVal depth v
    let ts ← reprItems depth rest
    pure ((kt ++ py ": " ++ vt) :: ts)

end

/-- `repr(value)`. -/
def PyVal.repr [PyRuntime] [PyBuiltins] (v : PyVal) : Except Exc PyStr :=
  reprVal PyRuntime.recursionLimit v

/-- `str(value)`: a string itself, anything else its `repr`. -/
def PyVal.str [PyRuntime] [PyBuiltins] : PyVal → Except Exc PyStr
  | .leaf (.str s) => .ok s
  | v => v.repr

@[simp] theorem str_ofStr [PyRuntime] [PyBuiltins] (s : PyStr) :
    PyVal.str (.leaf (.str s)) = .ok s := rfl

/-! ## `int` -/

/-- `int(f)` of a float: towards zero. -/
def intOfFloat : PyFloat → Except Exc Int
  | .nan => .error ⟨.valueError, []⟩
  | .inf _ => .error ⟨.overflowError, []⟩
  | .finite neg mant exp =>
    let n : Nat := if exp < 0 then mant / 2 ^ exp.natAbs else mant * 2 ^ exp.natAbs
    .ok (if neg then -n else n)

/-- `int(b)` of bytes: the text has to be ASCII. -/
def intOfBytes [PyRuntime] (b : Bytes) : Except Exc Int :=
  if b.all fun x => x.toNat < 0x80 then
    parseInt (b.map fun x => ⟨x.toNat, byte_lt x⟩)
  else .error ⟨.valueError, []⟩

/-- `int(value)`. -/
def PyVal.int [PyRuntime] : PyVal → Except Exc Int
  | .leaf (.bool b) => .ok (if b then 1 else 0)
  | .leaf (.int i) => .ok i
  | .leaf (.float f) => intOfFloat f
  | .leaf (.str s) => parseInt s
  | .leaf (.bytes b) => intOfBytes b
  | _ => .error ⟨.typeError, []⟩

/-- `isinstance(value, (int, str))`. -/
def PyVal.isIntOrStr : PyVal → Bool
  | .leaf (.bool _) | .leaf (.int _) | .leaf (.str _) => true
  | _ => false

/-! ## JSON values -/

mutual

/-- The values a JSON decoder returns: no bytes, string keys, and integers that its limit on digits let
pass. -/
def PyVal.isJson : PyVal → Bool
  | .leaf (.int i) => (strInt i).isOk
  | .leaf (.bytes _) => false
  | .leaf _ => true
  | .list items => isJsonList items
  | .dict items => isJsonItems items
  | .other => false

def isJsonList : List PyVal → Bool
  | [] => true
  | v :: vs => v.isJson && isJsonList vs

def isJsonItems : List (Scalar × PyVal) → Bool
  | [] => true
  | (k, v) :: rest => k.isStr && v.isJson && isJsonItems rest

end

/-! ## `str` methods -/

/-- `s.removePrefix(pre)`. -/
def removePrefix (pre s : PyStr) : PyStr := if pre.isPrefixOf s then s.drop pre.length else s

/-- `s[-n:]`. -/
def takeLast (n : Nat) (s : PyStr) : PyStr := s.drop (s.length - n)

/-- `s.isdigit()`. -/
def isdigit [PyBuiltins] (s : PyStr) : Bool := !s.isEmpty && s.all PyBuiltins.isdigit

end FlopOffice.Python
