/-
# FlopOffice.Python.Pathlib — paths, and what the operating system answers about them.

A path is its root and its parts, as `pathlib` keeps it. `FileSystem` is the state of the files at one time:
`lstat` says what a path is, `stat` what it leads to. What the two have to do with each other, and with the
directory of a file, are fields of it.
-/
import Mathlib.Data.List.Basic
import FlopOffice.Python.Basic

namespace FlopOffice.Python

/-! ## Paths -/

/-- A `PosixPath`: its root (none, one slash, or two), and its parts. -/
structure Path where
  root : PyStr
  parts : List PyStr
  deriving DecidableEq

namespace Path

/-- `Path(s)`. -/
def ofStr (s : PyStr) : Path where
  root :=
    match (s.takeWhile fun c => c = cp '/').length with
    | 0 => []
    | 2 => py "//"
    | _ => py "/"
  parts := (s.splitOn (cp '/')).filter fun part => part ≠ [] ∧ part ≠ py "."

/-- `str(path)`. -/
def toStr (p : Path) : PyStr :=
  if p.root = [] ∧ p.parts = [] then py "." else p.root ++ List.intercalate (py "/") p.parts

def parent (p : Path) : Path := { p with parts := p.parts.dropLast }

/-- `path.relative_to(other)` does not raise. -/
def isRelativeTo (p other : Path) : Prop := p.root = other.root ∧ other.parts <+: p.parts

instance (p other : Path) : Decidable (p.isRelativeTo other) :=
  inferInstanceAs (Decidable (_ ∧ _))

end Path

/-! ## Files -/

/-- `S_ISLNK`. -/
def S_ISLNK (mode : Nat) : Prop := mode &&& 0o170000 = 0o120000

/-- `S_ISREG`. -/
def S_ISREG (mode : Nat) : Prop := mode &&& 0o170000 = 0o100000

instance (mode : Nat) : Decidable (S_ISLNK mode) := inferInstanceAs (Decidable (_ = _))

instance (mode : Nat) : Decidable (S_ISREG mode) := inferInstanceAs (Decidable (_ = _))

/-- The state of the files: the `st_mode` of a path and of what it leads to, home directories, resolved
paths, contents. `ignored` are the errors that `exists` and its like take for an answer, which depends on
the version of Python; `repoRoot` is where the repository lies. -/
structure FileSystem where
  lstat : Path → Except Exc Nat
  stat : Path → Except Exc Nat
  homedir : PyStr → PyStr
  resolve : Path → Except Exc Path
  readBytes : Path → Except Exc Bytes
  ignored : Exc → Bool
  repoRoot : Path
  stat_of_lstat : ∀ p mode, lstat p = .ok mode → ¬ S_ISLNK mode → stat p = .ok mode
  lstat_of_stat : ∀ p mode, stat p = .ok mode → ∃ mode', lstat p = .ok mode'
  stat_parent : ∀ p mode, stat p = .ok mode → ∃ mode', stat p.parent = .ok mode'
  resolve_of_stat : ∀ p mode, stat p = .ok mode → ∃ q, resolve p = .ok q

namespace FileSystem

variable (fs : FileSystem)

/-- `path.expanduser()`. -/
def expanduser (p : Path) : Except Exc Path :=
  match p.root, p.parts with
  | [], first :: rest =>
    if first.head? = some (cp '~') then
      let home := fs.homedir first
      if home.head? = some (cp '~') then
        .error ⟨.runtimeError, py "Could not determine home directory."⟩
      else .ok ⟨(Path.ofStr home).root, (Path.ofStr home).parts ++ rest⟩
    else .ok p
  | _, _ => .ok p

/-- A test on a mode, which fails where an error is ignored. -/
def test (mode : Except Exc Nat) (f : Nat → Bool) : Except Exc Bool :=
  match mode with
  | .ok mode => .ok (f mode)
  | .error e => if fs.ignored e then .ok false else .error e

/-- `path.is_symlink()`. -/
def isSymlink (p : Path) : Except Exc Bool := fs.test (fs.lstat p) fun mode => S_ISLNK mode

/-- `path.exists()`. -/
def exists_ (p : Path) : Except Exc Bool := fs.test (fs.stat p) fun _ => true

/-- `path.is_file()`. -/
def isFile (p : Path) : Except Exc Bool := fs.test (fs.stat p) fun mode => S_ISREG mode

/-- Whether `path.resolve(strict=False).relative_to(REPO_ROOT)` raises no `ValueError`. -/
def isInsideRepo (p : Path) : Except Exc Bool :=
  match fs.resolve p with
  | .ok q => .ok (q.isRelativeTo fs.repoRoot)
  | .error e => if e.cls.isValueError then .ok false else .error e

/-! ## What the tests say -/

variable {fs}

theorem isFile_eq_true {p : Path} :
    fs.isFile p = .ok true ↔ ∃ mode, fs.stat p = .ok mode ∧ S_ISREG mode := by
  unfold isFile test
  cases fs.stat p with
  | ok mode => simp
  | error e =>
    dsimp only
    refine iff_of_false (fun h => ?_) nofun
    split at h
    · cases h
    · cases h

/-- A path that leads somewhere and is no link is what it leads to. -/
theorem isSymlink_eq_false {p : Path} {mode : Nat} (h : fs.stat p = .ok mode) :
    fs.isSymlink p = .ok false ↔ ∃ mode', fs.lstat p = .ok mode' ∧ ¬ S_ISLNK mode' := by
  obtain ⟨mode', hl⟩ := fs.lstat_of_stat p mode h
  unfold isSymlink test
  rw [hl]
  simp

theorem exists_of_stat {p : Path} {mode : Nat} (h : fs.stat p = .ok mode) :
    fs.exists_ p = .ok true := by
  unfold exists_ test
  rw [h]

/-- A file that is there has a place. -/
theorem isInsideRepo_eq_false {p : Path} {mode : Nat} (h : fs.stat p = .ok mode) :
    fs.isInsideRepo p = .ok false ↔ ∃ q, fs.resolve p = .ok q ∧ ¬ q.isRelativeTo fs.repoRoot := by
  obtain ⟨q, hq⟩ := fs.resolve_of_stat p mode h
  unfold isInsideRepo
  rw [hq]
  simp

end FileSystem

end FlopOffice.Python
