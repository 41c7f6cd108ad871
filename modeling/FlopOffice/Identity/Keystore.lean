/-
# FlopOffice.Identity.Keystore — loading an encrypted private key.

`load_encrypted_pem` refuses a file that is not its owner's alone, a short passphrase, and a file that does
not look encrypted, and leaves the rest to the cryptography package. What that package makes of a file is a
parameter: it decrypts an encrypted key under its passphrase, and under nothing else.
-/
import FlopOffice.Identity.Wiring
import FlopOffice.Python.Pathlib

namespace FlopOffice.Identity

open FlopOffice.Python

/-! ## Keys and passphrases -/

/-- A private key as it comes out of a file. -/
inductive PrivateKey
  | ed25519 (handle : PrivateKeyHandle)
  | other

/-- The cryptography package. `contents` is the key in a file, with the passphrase it is encrypted under,
if it is; `load_pem_private_key` gets it with that passphrase, and with no passphrase if it is in the
clear. -/
class PemKeys where
  contents : Bytes → Option (Option Bytes × PrivateKey)
  loadPemPrivateKey : Bytes → Bytes → Except Exc PrivateKey
  load_eq_ok : ∀ data password key,
    loadPemPrivateKey data password = .ok key ↔ contents data = some (some password, key)

/-- What a caller passes for a passphrase. -/
inductive Passphrase
  | none
  | str (s : PyStr)
  | bytes (b : Bytes)
  | other

/-- `_passphrase_bytes`. -/
def Passphrase.toBytes : Passphrase → Except Exc Bytes
  | .str s => utf8 s
  | .bytes b => .ok b
  | .none | .other =>
    .error ⟨.keystoreError, py "passphrase must be supplied at runtime as str or bytes"⟩

def MIN_PASSPHRASE_LEN : Nat := 12

/-! ## Loading -/

/-- `b"ENCRYPTED" in data or b"-----BEGIN OPENSSH" in data`. -/
def LooksEncrypted (data : Bytes) : Prop :=
  ascii "ENCRYPTED" <:+: data ∨ ascii "-----BEGIN OPENSSH" <:+: data

instance (data : Bytes) : Decidable (LooksEncrypted data) := inferInstanceAs (Decidable (_ ∨ _))

section Load

variable [PemKeys]

/-- The key in the file, decrypted; whatever fails besides the look is one failure. -/
def decryptKeystore (fs : FileSystem) (p : Path) (passphrase : Bytes) : Except Exc PrivateKey :=
  let attempt : Except Exc PrivateKey := do
    let data ← fs.readBytes p
    raiseIf (¬ LooksEncrypted data) ⟨.keystoreError, py "keystore " ++ p.toStr ++
      py " does not look encrypted. This loader has no " ++
      py "plaintext fallback -- re-export the key with a passphrase."⟩
    PemKeys.loadPemPrivateKey data passphrase
  match attempt with
  | .ok key => .ok key
  | .error e =>
    if e.cls.isKeystoreError then .error e
    else .error ⟨.keystoreError,
      py "could not decrypt keystore at " ++ p.toStr ++ py " (wrong passphrase or bad format)"⟩

/-- The check of the directory. -/
def refuseOpenDirectory (fs : FileSystem) (parent : Path) : Except Exc Unit := do
  let there ← fs.exists_ parent
  if there then do
    let mode ← fs.stat parent
    raiseIf (mode &&& 0o077 ≠ 0) ⟨.keystorePermissionError,
      py "keystore directory " ++ parent.toStr ++ py " is group/world accessible; " ++
      py "chmod 700 it before use"⟩
  else pure ()

/-- Load an encrypted PKCS#8 Ed25519 private key from `path`. -/
def loadEncryptedPem (fs : FileSystem) (path : Path) (passphrase : Passphrase) :
    Except Exc PrivateKeyHandle := do
  let p ← fs.expanduser path
  let inside ← fs.isInsideRepo p
  raiseIf (inside = true) ⟨.keystoreError,
    py "keystore path is inside the repository working tree; keep signing " ++
    py "keys outside the repo"⟩
  let link ← fs.isSymlink p
  raiseIf (link = true) ⟨.keystoreError, py "keystore path is a symlink; refusing to follow it"⟩
  let there ← fs.exists_ p
  raiseIf (there = false) ⟨.keystoreError, py "keystore not found: " ++ p.toStr⟩
  let regular ← fs.isFile p
  raiseIf (regular = false) ⟨.keystoreError,
    py "keystore path is not a regular file: " ++ p.toStr⟩
  let passphraseBytes ← passphrase.toBytes
  raiseIf (passphraseBytes.length < MIN_PASSPHRASE_LEN) ⟨.keystoreError,
    py "passphrase must be at least " ++ decimalDigits MIN_PASSPHRASE_LEN ++ py " characters"⟩
  let mode ← fs.stat p
  raiseIf (mode &&& 0o077 ≠ 0) ⟨.keystorePermissionError,
    py "keystore " ++ p.toStr ++ py " is group/world accessible; chmod 600 it before use"⟩
  refuseOpenDirectory fs p.parent
  let key ← decryptKeystore fs p passphraseBytes
  match key with
  | .ed25519 handle => pure handle
  | .other => throw ⟨.keystoreError, py "keystore does not contain an Ed25519 private key"⟩

/-! ## What is loaded -/

/-- A regular file outside the repository that only its owner can reach, in a directory of which that is
true as well. -/
structure Private (fs : FileSystem) (p : Path) : Prop where
  outside : ∃ q, fs.resolve p = .ok q ∧ ¬ q.isRelativeTo fs.repoRoot
  file : ∃ mode, fs.lstat p = .ok mode ∧ S_ISREG mode ∧ mode &&& 0o077 = 0
  directory : ∃ mode, fs.stat p.parent = .ok mode ∧ mode &&& 0o077 = 0

/-- The file holds the Ed25519 key `handle`, encrypted under `passphrase`. -/
def HoldsKey (fs : FileSystem) (p : Path) (passphrase : Bytes) (handle : PrivateKeyHandle) : Prop :=
  ∃ data, fs.readBytes p = .ok data ∧ LooksEncrypted data ∧
    PemKeys.contents data = some (some passphrase, .ed25519 handle)

theorem decryptKeystore_eq_ok {fs : FileSystem} {p : Path} {passphrase : Bytes} {key : PrivateKey} :
    decryptKeystore fs p passphrase = .ok key ↔ ∃ data, fs.readBytes p = .ok data ∧
      LooksEncrypted data ∧ PemKeys.contents data = some (some passphrase, key) := by
  unfold decryptKeystore
  simp only [← PemKeys.load_eq_ok]
  constructor
  · intro h
    split at h
    · rename_i key' hattempt
      cases h
      obtain ⟨data, hdata, h⟩ := bind_eq_ok.mp hattempt
      obtain ⟨_, hlooks, h⟩ := bind_eq_ok.mp h
      exact ⟨data, hdata, not_not.mp (raiseIf_eq_ok.mp hlooks), h⟩
    · split at h
      · cases h
      · cases h
  · rintro ⟨data, hdata, hlooks, hload⟩
    have hattempt : (do
        let data ← fs.readBytes p
        raiseIf (¬ LooksEncrypted data) ⟨.keystoreError, py "keystore " ++ p.toStr ++
          py " does not look encrypted. This loader has no " ++
          py "plaintext fallback -- re-export the key with a passphrase."⟩
        PemKeys.loadPemPrivateKey data passphrase : Except Exc PrivateKey) = .ok key :=
      bind_eq_ok.mpr ⟨data, hdata, bind_eq_ok.mpr ⟨(), raiseIf_eq_ok.mpr (not_not.mpr hlooks), hload⟩⟩
    rw [hattempt]

omit [PemKeys] in
theorem refuseOpenDirectory_eq_ok {fs : FileSystem} {parent : Path} {mode : Nat}
    (h : fs.stat parent = .ok mode) :
    refuseOpenDirectory fs parent = .ok () ↔ mode &&& 0o077 = 0 := by
  unfold refuseOpenDirectory
  rw [FileSystem.exists_of_stat h, h]
  show raiseIf _ _ = _ ↔ _
  rw [raiseIf_eq_ok, not_not]

/-- **What is loaded**: the key that a private file holds under the passphrase. -/
theorem loadEncryptedPem_eq_ok {fs : FileSystem} {path : Path} {passphrase : Passphrase}
    {handle : PrivateKeyHandle} :
    loadEncryptedPem fs path passphrase = .ok handle ↔
      ∃ p pass, fs.expanduser path = .ok p ∧ Private fs p ∧ passphrase.toBytes = .ok pass ∧
        MIN_PASSPHRASE_LEN ≤ pass.length ∧ HoldsKey fs p pass handle := by
  unfold loadEncryptedPem
  simp only [bind_eq_ok, raiseIf_eq_ok, Bool.not_eq_true, Bool.not_eq_false, not_lt, not_not]
  constructor
  · rintro ⟨p, hp, _, hinside, _, rfl, _, hlink, _, rfl, _, hthere, _, rfl, _, hfile, _, rfl, pass, hpass,
      _, hlen, mode, hstat, _, hmode, _, hdirectory, key, hkey, h⟩
    obtain ⟨mode', hstat', hreg⟩ := FileSystem.isFile_eq_true.mp hfile
    rw [hstat] at hstat'
    cases hstat'
    obtain ⟨modeLink, hlstat, hnolink⟩ := (FileSystem.isSymlink_eq_false hstat).mp hlink
    have hsame := fs.stat_of_lstat p modeLink hlstat hnolink
    rw [hstat] at hsame
    cases hsame
    obtain ⟨modeParent, hparent⟩ := fs.stat_parent p mode hstat
    have hopen := (refuseOpenDirectory_eq_ok hparent).mp hdirectory
    refine ⟨p, pass, hp, ⟨(FileSystem.isInsideRepo_eq_false hstat).mp hinside, ⟨mode, hlstat, hreg, hmode⟩,
      modeParent, hparent, hopen⟩, hpass, hlen, ?_⟩
    cases key with
    | ed25519 handle' =>
      cases h
      exact decryptKeystore_eq_ok.mp hkey
    | other => cases h
  · rintro ⟨p, pass, hp, ⟨houtside, ⟨mode, hlstat, hreg, hmode⟩, modeParent, hparent, hopen⟩, hpass, hlen,
      hholds⟩
    have hnolink : ¬ S_ISLNK mode := fun hlink => by
      unfold S_ISLNK at hlink
      unfold S_ISREG at hreg
      omega
    have hstat := fs.stat_of_lstat p mode hlstat hnolink
    exact ⟨p, hp, _, (FileSystem.isInsideRepo_eq_false hstat).mpr houtside, (), rfl, _,
      (FileSystem.isSymlink_eq_false hstat).mpr ⟨mode, hlstat, hnolink⟩, (), rfl, _,
      FileSystem.exists_of_stat hstat, (), rfl, _, FileSystem.isFile_eq_true.mpr ⟨mode, hstat, hreg⟩, (),
      rfl, pass, hpass, (), hlen, mode, hstat, (), hmode, (), (refuseOpenDirectory_eq_ok hparent).mpr hopen,
      _, decryptKeystore_eq_ok.mpr hholds, rfl⟩

end Load

end FlopOffice.Identity
