/-
# FlopOffice.Config.Settings — public configuration: paths, flags, and the did of the root agent.

The did is the committed one or a validated override. A keystore path may be set; one that lies in the
repository is refused, one that cannot be resolved (`ValueError`) counts as outside.
-/
import FlopOffice.Identity.Wiring
import FlopOffice.Python.Builtins
import FlopOffice.Python.Pathlib

namespace FlopOffice.Config

open FlopOffice.Identity FlopOffice.Python

/-! ## The public identity -/

/-- The committed public identity. -/
def ROOT_AGENT_DID : PyStr := py "did:key:z6MkmjUUh9SLWe66SPF" ++ py "EUgQ4JA2RcbNLgimMzVA8VnvErnCN"

/-- Environment variable that overrides it. -/
def ENV_OVERRIDE : PyStr := py "FLOPOFFICE_ROOT_AGENT_DID"

theorem root_agent_valid : (decodeDidKey ROOT_AGENT_DID).isOk = true := by decide +kernel

/-- Validated at import. -/
def ROOT_AGENT : DidKey where
  did := ROOT_AGENT_DID
  valid := by
    have hvalid := root_agent_valid
    cases h : decodeDidKey ROOT_AGENT_DID with
    | ok key => exact ⟨key, rfl⟩
    | error e =>
      rw [h] at hvalid
      cases hvalid

/-! ## Settings -/

/-- A mapping of names to values. -/
abbrev Environ := List (PyStr × PyStr)

/-- `environ.get(name)`. -/
def Environ.get (environ : Environ) (name : PyStr) : Option PyStr :=
  (environ.find? fun kv => kv.1 = name).map Prod.snd

inductive DidSource
  | committed
  | environment
  deriving DecidableEq

structure Settings where
  env : PyStr
  ledgerPath : Path
  rootAgentDid : DidKey
  rootAgentDidSource : DidSource
  keystorePath : Option Path
  technocoreBaseUrl : Option PyStr
  allowLocalWrite : Bool

def FORBIDDEN_ENV_SUBSTRINGS : List PyStr :=
  [py "PRIVATE_KEY", py "PASSPHRASE", py "SEED", py "MNEMONIC", py "SECRET"]

/-- `value or default` of a value that may be missing. -/
def orDefault (value : Option PyStr) (default : PyStr) : PyStr :=
  match value with
  | some v => if v = [] then default else v
  | none => default

/-- The identity: the override if there is one, else the committed did. -/
def rootIdentity (envMap : Environ) : Except Exc (DidKey × DidSource) :=
  let override := strip (orDefault (envMap.get ENV_OVERRIDE) [])
  if override = [] then .ok (ROOT_AGENT, .committed)
  else match DidKey.ofStr override with
    | .ok did => .ok (did, .environment)
    | .error e =>
      if e.cls = .didKeyError then
        .error ⟨.configError, ENV_OVERRIDE ++ py " is not a valid Ed25519 did:key: " ++ e.msg⟩
      else .error e

/-- The keystore path, if one is set. -/
def configuredKeystore (fs : FileSystem) (envMap : Environ) : Except Exc (Option Path) :=
  match envMap.get (py "FLOPOFFICE_KEYSTORE") with
  | none | some [] => .ok none
  | some keystore => do
    let path ← fs.expanduser (.ofStr keystore)
    let inside ← fs.isInsideRepo path
    raiseIf (inside = true) ⟨.configError,
      py "FLOPOFFICE_KEYSTORE points inside the repository working tree. " ++
      py "Keystores must live outside it (default ~/.flopoffice/keys/)."⟩
    pure (some path)

section Load

variable [PyBuiltins]

/-- `_reject_secret_env`, over `os.environ`. -/
def rejectSecretEnv (osEnviron : Environ) : Except Exc Unit :=
  let offenders := (osEnviron.map Prod.fst).filter fun name =>
    decide (py "FLOPOFFICE_" <+: name) &&
      FORBIDDEN_ENV_SUBSTRINGS.any fun bad => bad <:+: PyBuiltins.upper name
  raiseIf (offenders ≠ []) ⟨.configError,
    py "refusing to start: secret-shaped environment variables present " ++
    py "(" ++ List.intercalate (py ", ")
      (offenders.insertionSort fun a b => keyLe (.str a) (.str b) = true) ++
    py "). M1 requires no secrets. " ++
    py "Unset them; use an encrypted keystore file when signing is enabled."⟩

/-- `if environ is None: _reject_secret_env()`. -/
def checkEnviron (osEnviron : Environ) : Option Environ → Except Exc Unit
  | none => rejectSecretEnv osEnviron
  | some _ => .ok ()

/-- `load(environ)`; without an argument it reads `os.environ`. -/
def load (fs : FileSystem) (osEnviron : Environ) (environ : Option Environ) : Except Exc Settings := do
  let envMap := environ.getD osEnviron
  checkEnviron osEnviron environ
  let (rootDid, didSource) ← rootIdentity envMap
  let keystorePath ← configuredKeystore fs envMap
  let baseUrl := strip (orDefault (envMap.get (py "TECHNOCORE_BASE_URL")) [])
  pure {
    env := PyBuiltins.lower (orDefault (envMap.get (py "FLOPOFFICE_ENV")) (py "dev"))
    ledgerPath := .ofStr (orDefault (envMap.get (py "FLOPOFFICE_LEDGER")) (py "flopoffice.sqlite"))
    rootAgentDid := rootDid
    rootAgentDidSource := didSource
    keystorePath := keystorePath
    technocoreBaseUrl := if baseUrl = [] then none else some baseUrl
    allowLocalWrite := envMap.get (py "FLOPOFFICE_ALLOW_LOCAL_WRITE") = some (py "1") }

end Load

end FlopOffice.Config
