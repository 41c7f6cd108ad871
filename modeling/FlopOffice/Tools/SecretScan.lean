/-
# FlopOffice.Tools.SecretScan — the secret scanner's rules, as the ledger runs them.

The ten patterns are written in the regex library's constructors, one definition a pattern, in the
order of `RULES`. Python's dialect shows in three places: `\s` and `\b` are Unicode-aware, `^` and `$`
are MULTILINE only where the source says so, and under `(?i)` the letters `i`, `k` and `s` have matches
outside ASCII.

`scan_text` reports a match unless the LINE it starts on carries `ALLOW_MARKER`; line numbers count
line feeds, but the line itself is looked up in `str.splitlines()`, which also breaks lines elsewhere.
Both are kept apart here as they are in the source.
-/
import FlopOffice.Lib.Regex
import FlopOffice.Python.Text

namespace FlopOffice.Tools

open FlopOffice.Lib FlopOffice.Lib.Regex FlopOffice.Python

/-! ## Character classes -/

/-- The characters from `a` to `b`. -/
def range (a b : Char) (c : CodePoint) : Bool := decide (a.toNat ≤ c.val) && decide (c.val ≤ b.toNat)

def upper : CodePoint → Bool := range 'A' 'Z'
def lower : CodePoint → Bool := range 'a' 'z'
def digit : CodePoint → Bool := range '0' '9'

/-- `[A-Za-z0-9]` -/
def alnum (c : CodePoint) : Bool := upper c || lower c || digit c

/-- `[A-Za-z0-9_\-]` -/
def urlSafe (c : CodePoint) : Bool := alnum c || c == cp '_' || c == cp '-'

/-- `[A-Z0-9]` -/
def upperDigit (c : CodePoint) : Bool := upper c || digit c

/-- `[ \t]` -/
def blank (c : CodePoint) : Bool := c == cp ' ' || c == cp '\t'

/-- `["']` -/
def quoteMark (c : CodePoint) : Bool := c == cp '"' || c == cp '\''

/-- A word character, as `\b` sees it. -/
def wordChar [PyRuntime] (c : CodePoint) : Bool := PyRuntime.isalnum c || c == cp '_'

/-- A letter of the pattern under `(?i)`; it and its case variants match. -/
def anyCase (l c : CodePoint) : Bool :=
  c == l || (lower l && c.val + 0x20 == l.val) ||
    (l == cp 'i' && (c.val == 0x130 || c.val == 0x131)) ||
    (l == cp 'k' && c.val == 0x212a) || (l == cp 's' && c.val == 0x17f)

/-! ## Building blocks -/

/-- A literal of the source. -/
def text (s : String) : Regex CodePoint := lit (py s)

/-- A literal under `(?i)`. -/
def textAnyCase (s : String) : Regex CodePoint := classes ((py s).map anyCase)

/-- `p{n,}` -/
def atLeast (n : Nat) (p : CodePoint → Bool) : Regex CodePoint := many p n none true

/-- `p{n}` -/
def exactly (n : Nat) (p : CodePoint → Bool) : Regex CodePoint := many p n (some n) true

/-- `\s*` -/
def spaces : Regex CodePoint := many isSpace 0 none true

/-- The alternatives `a|b|...`. -/
def oneOf : List (Regex CodePoint) → Regex CodePoint
  | [] => look fun _ _ => false
  | [r] => r
  | r :: rs => alt r (oneOf rs)

/-- The parts one after another. -/
def cat : List (Regex CodePoint) → Regex CodePoint
  | [] => eps
  | [r] => r
  | r :: rs => seq r (cat rs)

/-- `^` under MULTILINE. -/
def lineStart : Regex CodePoint := look fun before _ => before.head?.all fun c => c == cp '\n'

/-- `$` under MULTILINE. -/
def lineEnd : Regex CodePoint := look fun _ after => after.head?.all fun c => c == cp '\n'

/-- `(?<![p])` -/
def notAfter (p : CodePoint → Bool) : Regex CodePoint := look fun before _ => !before.head?.any p

/-- `(?![p])` -/
def notBefore (p : CodePoint → Bool) : Regex CodePoint := look fun _ after => !after.head?.any p

/-- `\b` -/
def wordBoundary [PyRuntime] : Regex CodePoint :=
  look fun before after => before.head?.any wordChar != after.head?.any wordChar

/-! ## The rules -/

structure Rule where
  ruleId : PyStr
  pattern : Regex CodePoint
  note : PyStr

def pemPrivateKeyBlock : Regex CodePoint :=
  cat [text "-----BEGIN ", opt (seq (atLeast 1 fun c => upperDigit c || c == cp ' ') (text " ")),
    text "PRIVATE KEY-----"]

def opensshPrivateKey : Regex CodePoint := text "b3BlbnNzaC1rZXktdjE"

/-- `\"kty\"\s*:\s*\"(OKP|EC|RSA)\"` -/
def jwkKeyType : Regex CodePoint :=
  cat [text "\"kty\"", spaces, text ":", spaces, text "\"", oneOf [text "OKP", text "EC", text "RSA"],
    text "\""]

/-- `\"d\"\s*:\s*\"[A-Za-z0-9_\-]{20,}\"` -/
def jwkPrivateParam : Regex CodePoint :=
  cat [text "\"d\"", spaces, text ":", spaces, text "\"", atLeast 20 urlSafe, text "\""]

/-- `[\s\S]{0,400}?` -/
def gap : Regex CodePoint := many (fun _ => true) 0 (some 400) false

def jwkPrivateParams : Regex CodePoint := cat [jwkKeyType, gap, jwkPrivateParam]

def jwkPrivateParamsReversed : Regex CodePoint := cat [jwkPrivateParam, gap, jwkKeyType]

/-- `^[ \t]*(?:[a-z]{3,8} ){n}[a-z]{3,8}[ \t]*$` -/
def mnemonicLine (n : Nat) : Regex CodePoint :=
  let word := many lower 3 (some 8) true
  cat [lineStart, many blank 0 none true, times n (seq word (text " ")), word,
    many blank 0 none true, lineEnd]

def mnemonicPhrase : Regex CodePoint := alt (mnemonicLine 11) (mnemonicLine 23)

def apikeyOpenai : Regex CodePoint := cat [notAfter alnum, text "sk-", atLeast 20 urlSafe]

def apikeyAnthropic : Regex CodePoint := cat [text "sk-ant-", atLeast 20 urlSafe]

def apikeyGithub : Regex CodePoint :=
  cat [text "gh", one fun c => c ∈ py "pousr", text "_", atLeast 30 alnum]

def apikeyAws : Regex CodePoint :=
  cat [notAfter upperDigit, text "AKIA", exactly 16 upperDigit, notBefore upperDigit]

def passphraseAssignment [PyRuntime] : Regex CodePoint :=
  cat [wordBoundary,
    oneOf [textAnyCase "passphrase", textAnyCase "password", textAnyCase "secret",
      textAnyCase "private_key", textAnyCase "seed_phrase", textAnyCase "mnemonic"],
    wordBoundary, spaces, one fun c => c == cp ':' || c == cp '=', spaces, one quoteMark,
    atLeast 8 fun c => !quoteMark c && c != cp '\n', one quoteMark]

def RULES [PyRuntime] : List Rule :=
  [⟨py "pem.private-key-block", pemPrivateKeyBlock, py "PEM private key block"⟩,
   ⟨py "openssh.private-key", opensshPrivateKey, py "OpenSSH private key body"⟩,
   ⟨py "jwk.private-params", jwkPrivateParams, py "JWK containing a private 'd' parameter"⟩,
   ⟨py "jwk.private-params-reversed", jwkPrivateParamsReversed,
     py "JWK containing a private 'd' parameter"⟩,
   ⟨py "seed.mnemonic-phrase", mnemonicPhrase, py "possible BIP39 mnemonic (12/24 words)"⟩,
   ⟨py "apikey.openai", apikeyOpenai, py "OpenAI-style API key"⟩,
   ⟨py "apikey.anthropic", apikeyAnthropic, py "Anthropic API key"⟩,
   ⟨py "apikey.github", apikeyGithub, py "GitHub token"⟩,
   ⟨py "apikey.aws", apikeyAws, py "AWS access key id"⟩,
   ⟨py "passphrase.assignment", passphraseAssignment,
     py "hardcoded passphrase/secret assignment"⟩]

/-- Lines carrying this marker are intentional, inert examples. -/
def ALLOW_MARKER : PyStr := py "flopoffice:allow-secret-pattern"

/-! ## Scanning -/

structure Finding where
  path : PyStr
  line : Nat
  ruleId : PyStr
  note : PyStr
  deriving DecidableEq

/-- The number of the line a match starts on, from the text before it, reversed. -/
def lineNumber (before : PyStr) : Nat := before.count (cp '\n') + 1

/-- The line `scan_text` looks for the marker on. -/
def lookupLine (text : PyStr) (lineNo : Nat) : PyStr := (splitlines text).getD (lineNo - 1) []

/-- The match starting after `before` (reversed) is on a line with the marker. -/
def allowed (text before : PyStr) : Bool :=
  decide (ALLOW_MARKER <:+: lookupLine text (lineNumber before))

/-- `scan_text(text, path)`. -/
def scanText [PyRuntime] (text path : PyStr) : List Finding :=
  RULES.flatMap fun rule => (finditer rule.pattern text).filterMap fun m =>
    if allowed text m.1.before then none
    else some ⟨path, lineNumber m.1.before, rule.ruleId, rule.note⟩

variable [PyRuntime]

/-- A scan is clean exactly if every match of every rule is allowed. -/
theorem scanText_eq_nil_iff {t path : PyStr} :
    scanText t path = [] ↔
      ∀ rule ∈ RULES, ∀ m ∈ finditer rule.pattern t, allowed t m.1.before = true := by
  simp only [scanText, List.flatMap_eq_nil_iff, List.filterMap_eq_nil_iff]
  refine forall₂_congr fun rule _ => forall₂_congr fun m _ => ?_
  cases allowed t m.1.before <;> simp

/-- No rule matches anywhere in the text. -/
def Clean (t : PyStr) : Prop := ∀ rule ∈ RULES, ¬ Found rule.pattern t

/-- A text without matches has a clean scan. -/
theorem scanText_of_clean {t : PyStr} (h : Clean t) (path : PyStr) : scanText t path = [] := by
  rw [scanText_eq_nil_iff]
  intro rule hrule m hm
  rw [finditer_eq_nil_iff.mpr (h rule hrule)] at hm
  cases hm

end FlopOffice.Tools
