/-
# FlopOffice.Tools.FileScan — the two hooks: what may be committed.

A file is judged by its name and, unless its suffix is that of a binary file or it cannot be read as UTF-8,
by its text. `secret_scan` looks at both, `block_key_files` at the names alone. The name patterns are
searched without MULTILINE, so `$` also stands before a newline that ends the name, and the lookbehinds of
the keystore pattern are asked wherever `$` stands (`scanName_eq_nil_iff`). On the whole tree the directories
that are skipped are looked for in the whole path: under a root that lies in a `build`, nothing is scanned
(`tree_passes_iff`).
-/
import FlopOffice.Lib.Delimiter
import FlopOffice.Python.Builtins
import FlopOffice.Python.Pathlib
import FlopOffice.Tools.SecretScan

namespace FlopOffice.Tools

open FlopOffice.Lib FlopOffice.Lib.Regex FlopOffice.Python

/-! ## The name patterns -/

/-- `$`: at the end, or before a newline at the end. -/
def textEnd : Regex CodePoint := look fun _ after => decide (after = [] ∨ after = [cp '\n'])

/-- `(^|/)` -/
def partStart : Regex CodePoint :=
  alt (look fun before _ => before.isEmpty) (one fun c => c == cp '/')

/-- `[^/]` -/
def notSlash (c : CodePoint) : Bool := c != cp '/'

/-- `(?<!s)` under `(?i)`. -/
def notBehind (s : String) : Regex CodePoint :=
  look fun before _ => !startsWith ((py s).map anyCase).reverse before

def KEY_SUFFIXES : List String := ["pem", "key", "jwk", "p8", "pk8", "p12", "pfx", "keystore"]

def KEY_BASENAMES : List String := ["keystore", "identity.pem", "id_ed25519", "id_rsa"]

def SOURCE_SUFFIXES : List String :=
  [".py", ".pyi", ".md", ".txt", ".rst", ".toml", ".yaml", ".yml", ".json", ".cfg", ".ini"]

/-- `.*\.(pem|key|jwk|p8|pk8|p12|pfx|keystore)$` -/
def privateKeyName : Regex CodePoint :=
  cat [many (fun c => c != cp '\n') 0 none true, text ".", oneOf (KEY_SUFFIXES.map textAnyCase), textEnd]

/-- `(^|/)(keystore|identity\.pem|id_ed25519|id_rsa)[^/]*$`, and not after the suffix of a source file. -/
def keystoreName : Regex CodePoint :=
  cat (partStart :: oneOf (KEY_BASENAMES.map textAnyCase) :: many notSlash 0 none true :: textEnd ::
    SOURCE_SUFFIXES.map notBehind)

/-- `(^|/)\.env(\.[^/]+)?$` -/
def dotenvName : Regex CodePoint :=
  cat [partStart, text ".env", opt (seq (text ".") (many notSlash 1 none true)), textEnd]

/-- Filenames that must never be tracked at all. -/
def FORBIDDEN_NAME_PATTERNS : List (PyStr × Regex CodePoint) :=
  [(py "file.private-key", privateKeyName), (py "file.keystore", keystoreName),
    (py "file.dotenv", dotenvName)]

/-- `(^|/)\.env\.example$` -/
def FORBIDDEN_NAME_ALLOW : Regex CodePoint := cat [partStart, text ".env.example", textEnd]

/-- `pattern.search(text)` finds something. -/
def search (r : Regex CodePoint) (t : PyStr) : Bool := !(finditer r t).isEmpty

/-- `scan_name`. -/
def scanName (relPath : PyStr) : List Finding :=
  if search FORBIDDEN_NAME_ALLOW relPath then []
  else FORBIDDEN_NAME_PATTERNS.filterMap fun rule =>
    if search rule.2 relPath then
      some ⟨relPath, 0, rule.1, py "secret-bearing filename must not be tracked"⟩
    else none

/-! ## Files -/

def BINARY_SUFFIXES : List PyStr :=
  [py ".png", py ".jpg", py ".jpeg", py ".gif", py ".pdf", py ".zip", py ".gz", py ".tar", py ".whl",
    py ".so", py ".dylib", py ".dll", py ".sqlite", py ".sqlite3", py ".db", py ".ico", py ".woff",
    py ".woff2", py ".ttf", py ".otf"]

def SKIP_DIRS : List PyStr :=
  [py ".git", py ".venv", py "venv", py "__pycache__", py ".pytest_cache", py "node_modules",
    py ".ruff_cache", py "build", py "dist", py ".mypy_cache"]

/-- `path.suffix`: the name from its last dot on, if that is neither its first nor its last character. -/
def suffix (path : Path) : PyStr :=
  let name := path.parts.getLastD []
  let ext := (name.reverse.takeWhile fun c => c != cp '.').reverse
  if ext ≠ [] ∧ ext.length + 1 < name.length then cp '.' :: ext else []

/-- Universal newlines: a return, with the feed after it if there is one, is read as a feed. -/
def universalNewlines : Bool → PyStr → PyStr
  | _, [] => []
  | afterReturn, c :: rest =>
    if c = cp '\r' then cp '\n' :: universalNewlines true rest
    else if afterReturn = true ∧ c = cp '\n' then universalNewlines false rest
    else c :: universalNewlines false rest

/-- `path.relative_to(root).as_posix() if path.is_absolute() else path.as_posix()`. -/
def relName (root path : Path) : Except Exc PyStr :=
  if path.root ≠ [] then
    if path.isRelativeTo root then .ok (Path.toStr ⟨[], path.parts.drop root.parts.length⟩)
    else .error ⟨.valueError, []⟩
  else .ok path.toStr

/-- `path.read_text(encoding="utf-8", errors="strict")`, if `UnicodeDecodeError` and `OSError` are caught. -/
def readText (fs : FileSystem) (path : Path) : Except Exc (Option PyStr) :=
  match fs.readBytes path with
  | .ok data => .ok ((utf8Decode data).map (universalNewlines false))
  | .error e => if e.cls = .osError then .ok none else .error e

section Scans

variable [PyRuntime] [PyBuiltins]

/-- `scan_file`. -/
def scanFile (fs : FileSystem) (root path : Path) : Except Exc (List Finding) := do
  let rel ← relName root path
  let findings := scanName rel
  if PyBuiltins.lower (suffix path) ∈ BINARY_SUFFIXES then pure findings
  else
    match ← readText fs path with
    | none => pure findings
    | some text => pure (findings ++ scanText text rel)

/-- The loop of `main`, at one target. -/
def scanTarget (fs : FileSystem) (root path : Path) : Except Exc (List Finding) := do
  if !(← fs.exists_ path) then pure []
  else if !(← fs.isFile path) then pure []
  else scanFile fs root path

/-- `main` of `secret_scan`, after the targets are listed: its exit code and what it found. -/
def scanMain (fs : FileSystem) (root : Path) (targets : List Path) :
    Except Exc (Int × List Finding) := do
  let scanned ← targets.mapM (scanTarget fs root)
  let findings := scanned.flatten
  pure (if findings = [] then 0 else 1, findings)

/-- The loop of `iter_tree`, at one path. The parts of a path are all of them, those of the root too. -/
def keepFile (fs : FileSystem) (p : Path) : Except Exc (List Path) := do
  if !(← fs.isFile p) then pure []
  else if p.parts.any fun part => SKIP_DIRS.contains part then pure []
  else pure [p]

/-- `iter_tree`, of what `rglob` lists. -/
def iterTree (fs : FileSystem) (listing : List Path) : Except Exc (List Path) := do
  let kept ← listing.mapM (keepFile fs)
  pure kept.flatten

/-- `main` of `secret_scan` on the whole tree. -/
def scanAll (fs : FileSystem) (root : Path) (listing : List Path) : Except Exc (Int × List Finding) := do
  let targets ← iterTree fs listing
  scanMain fs root targets

end Scans

/-- `main` of `block_key_files`: its exit code. -/
def blockMain (argv : List PyStr) : Int :=
  if (argv.flatMap fun raw => scanName (Path.ofStr raw).toStr) = [] then 0 else 1

/-! ## What the patterns say -/

/-- A way of writing the letters. -/
def AnyCase (s : String) (w : PyStr) : Prop := List.Forall₂ (fun l c => anyCase l c = true) (py s) w

/-- Where `$` stands. -/
def AtEnd (tail : PyStr) : Prop := tail = [] ∨ tail = [cp '\n']

/-- Where a part of a path starts. -/
def StartsPart (dir : PyStr) : Prop := dir = [] ∨ ∃ d, dir = d ++ [cp '/']

/-- The name ends with one of the key suffixes. -/
def KeyNamed (name : PyStr) : Prop :=
  ∃ stem ext tail, name = stem ++ (py "." ++ ext) ++ tail ∧ (∃ s ∈ KEY_SUFFIXES, AnyCase s ext) ∧
    AtEnd tail

/-- The last part starts like a keystore, and what the pattern consumes does not end like a source file. -/
def KeystoreNamed (name : PyStr) : Prop :=
  ∃ dir base rest tail, name = dir ++ (base ++ rest) ++ tail ∧ StartsPart dir ∧
    (∃ s ∈ KEY_BASENAMES, AnyCase s base) ∧ cp '/' ∉ rest ∧ AtEnd tail ∧
    ∀ s ∈ SOURCE_SUFFIXES, ∀ w, AnyCase s w → ¬ w <:+ dir ++ (base ++ rest)

/-- The last part is `.env`, or `.env.` and more. -/
def DotenvNamed (name : PyStr) : Prop :=
  ∃ dir rest tail, name = dir ++ (py ".env" ++ rest) ++ tail ∧ StartsPart dir ∧
    (rest = [] ∨ ∃ more, rest = py "." ++ more ∧ more ≠ [] ∧ cp '/' ∉ more) ∧ AtEnd tail

/-- The one deliberate exception. -/
def ExampleNamed (name : PyStr) : Prop :=
  ∃ dir tail, name = dir ++ py ".env.example" ++ tail ∧ StartsPart dir ∧ AtEnd tail

/-- A name that may be tracked. -/
def Acceptable (name : PyStr) : Prop :=
  ExampleNamed name ∨ ¬ KeyNamed name ∧ ¬ KeystoreNamed name ∧ ¬ DotenvNamed name

theorem search_iff {r : Regex CodePoint} {t : PyStr} : search r t = true ↔ Found r t := by
  unfold search
  rw [Bool.not_eq_true', ← Bool.not_eq_true, List.isEmpty_iff, finditer_eq_nil_iff, not_not]

theorem matches_cat_cons {r : Regex CodePoint} {rs : List (Regex CodePoint)} {b m a : PyStr} :
    Matches (cat (r :: rs)) b m a ↔ ∃ m₁ m₂, m = m₁ ++ m₂ ∧ Matches r b m₁ (m₂ ++ a) ∧
      Matches (cat rs) (m₁.reverse ++ b) m₂ a := by
  cases rs with
  | nil =>
    constructor
    · intro h
      exact ⟨m, [], (List.append_nil m).symm, h, rfl⟩
    · rintro ⟨m₁, m₂, rfl, h, rfl⟩
      rw [List.append_nil]
      exact h
  | cons s rs => exact Iff.rfl

theorem matches_oneOf {rs : List (Regex CodePoint)} {b m a : PyStr} :
    Matches (oneOf rs) b m a ↔ ∃ r ∈ rs, Matches r b m a := by
  induction rs with
  | nil => exact iff_of_false (fun h => Bool.false_ne_true h.2) (by simp)
  | cons r rs ih =>
    cases rs with
    | nil => simp [oneOf]
    | cons s rs =>
      show Matches r b m a ∨ Matches (oneOf (s :: rs)) b m a ↔ _
      rw [ih]
      simp

theorem matches_textAnyCase {s : String} {b m a : PyStr} :
    Matches (textAnyCase s) b m a ↔ AnyCase s m := by
  unfold textAnyCase AnyCase
  rw [matches_classes, List.forall₂_map_left_iff]

theorem matches_anyOf {l : List String} {b m a : PyStr} :
    Matches (oneOf (l.map textAnyCase)) b m a ↔ ∃ s ∈ l, AnyCase s m := by
  rw [matches_oneOf]
  simp only [List.mem_map, exists_exists_and_eq_and, matches_textAnyCase]

theorem matches_textEnd {b m a : PyStr} : Matches textEnd b m a ↔ m = [] ∧ AtEnd a := by
  simp only [textEnd, Matches, decide_eq_true_eq, AtEnd]

theorem all_notSlash_iff {w : PyStr} : (∀ c ∈ w, notSlash c = true) ↔ cp '/' ∉ w := by
  simp only [notSlash, bne_iff_ne, ne_eq]
  exact ⟨fun h hmem => h _ hmem rfl, fun h c hc heq => h (heq ▸ hc)⟩

/-- A pattern that starts with a part of a path. -/
theorem found_partStart_iff {rs : List (Regex CodePoint)} {name : PyStr} :
    Found (cat (partStart :: rs)) name ↔ ∃ dir m tail, name = dir ++ m ++ tail ∧ StartsPart dir ∧
      Matches (cat rs) dir.reverse m tail := by
  constructor
  · rintro ⟨pre, m, tail, rfl, hm⟩
    obtain ⟨m₁, m₂, rfl, hstart, hrest⟩ := matches_cat_cons.mp hm
    rw [← List.reverse_append] at hrest
    refine ⟨pre ++ m₁, m₂, tail, by simp, ?_, hrest⟩
    rcases hstart with ⟨rfl, hbefore⟩ | hslash
    · rw [List.isEmpty_iff, List.reverse_eq_nil_iff] at hbefore
      exact Or.inl (by rw [hbefore, List.append_nil])
    · obtain ⟨c, rfl, hc⟩ := matches_one.mp hslash
      rw [eq_of_beq hc]
      exact Or.inr ⟨pre, rfl⟩
  · rintro ⟨dir, m, tail, rfl, rfl | ⟨d, rfl⟩, hm⟩
    · exact ⟨[], m, tail, rfl, matches_cat_cons.mpr ⟨[], m, rfl, Or.inl ⟨rfl, rfl⟩, hm⟩⟩
    · refine ⟨d, [cp '/'] ++ m, tail, by simp,
        matches_cat_cons.mpr ⟨[cp '/'], m, rfl, Or.inr ?_, ?_⟩⟩
      · exact matches_one.mpr ⟨_, rfl, beq_self_eq_true _⟩
      · rw [← List.reverse_append]
        exact hm

theorem found_privateKeyName_iff {name : PyStr} : Found privateKeyName name ↔ KeyNamed name := by
  constructor
  · -- the pattern is read part by part; `.*` may be empty, so a stem needs nothing
    rintro ⟨pre, m, tail, rfl, hm⟩
    obtain ⟨stem, _, rfl, -, hm⟩ := matches_cat_cons.mp hm
    obtain ⟨dot, _, rfl, hdot, hm⟩ := matches_cat_cons.mp hm
    obtain ⟨ext, _, rfl, hext, hend⟩ := matches_cat_cons.mp hm
    obtain ⟨rfl, htail⟩ := matches_textEnd.mp hend
    obtain rfl : dot = py "." := matches_lit.mp hdot
    exact ⟨pre ++ stem, ext, tail, by simp, matches_anyOf.mp hext, htail⟩
  · rintro ⟨stem, ext, tail, rfl, hext, htail⟩
    refine ⟨stem, py "." ++ ext, tail, rfl,
      matches_cat_cons.mpr ⟨[], _, rfl, ⟨nofun, le_refl 0, nofun⟩, ?_⟩⟩
    refine matches_cat_cons.mpr ⟨py ".", ext, rfl, matches_lit.mpr rfl, ?_⟩
    exact matches_cat_cons.mpr ⟨ext, [], (List.append_nil ext).symm, matches_anyOf.mpr hext,
      matches_textEnd.mpr ⟨rfl, htail⟩⟩

theorem matches_notBehind {l : List String} {b m a : PyStr} :
    Matches (cat (l.map notBehind)) b m a ↔
      m = [] ∧ ∀ s ∈ l, ∀ w, AnyCase s w → ¬ w <:+ b.reverse := by
  have hlook : ∀ s : String, (!startsWith ((py s).map anyCase).reverse b) = true ↔
      ∀ w, AnyCase s w → ¬ w <:+ b.reverse := by
    intro s
    rw [Bool.not_eq_true', ← Bool.not_eq_true, startsWith_iff]
    simp only [not_exists, not_and]
    constructor
    · intro h w hw hsuffix
      refine h w.reverse (List.reverse_suffix.mp (by rwa [List.reverse_reverse])) ?_
      rw [List.forall₂_reverse_iff, List.forall₂_map_left_iff]
      exact hw
    · intro h w hprefix hall
      refine h w.reverse ?_ (List.reverse_suffix.mpr hprefix)
      rw [← List.reverse_reverse w, List.forall₂_reverse_iff, List.forall₂_map_left_iff] at hall
      exact hall
  induction l generalizing m with
  | nil => simp [cat, Matches]
  | cons s l ih =>
    rw [List.map_cons, matches_cat_cons]
    simp only [List.forall_mem_cons]
    constructor
    · rintro ⟨m₁, m₂, rfl, ⟨rfl, hs⟩, hrest⟩
      obtain ⟨rfl, hall⟩ := ih.mp hrest
      exact ⟨rfl, (hlook s).mp hs, hall⟩
    · rintro ⟨rfl, hs, hall⟩
      exact ⟨[], [], rfl, ⟨rfl, (hlook s).mpr hs⟩, ih.mpr ⟨rfl, hall⟩⟩

theorem found_keystoreName_iff {name : PyStr} : Found keystoreName name ↔ KeystoreNamed name := by
  unfold keystoreName
  rw [found_partStart_iff]
  constructor
  · rintro ⟨dir, m, tail, rfl, hdir, hm⟩
    obtain ⟨base, _, rfl, hbase, hm⟩ := matches_cat_cons.mp hm
    obtain ⟨rest, _, rfl, hrest, hm⟩ := matches_cat_cons.mp hm
    obtain ⟨_, _, rfl, hend, hm⟩ := matches_cat_cons.mp hm
    obtain ⟨rfl, hall⟩ := matches_notBehind.mp hm
    obtain ⟨rfl, htail⟩ := matches_textEnd.mp hend
    refine ⟨dir, base, rest, tail, by simp, hdir, matches_anyOf.mp hbase, all_notSlash_iff.mp hrest.1,
      htail, ?_⟩
    simpa using hall
  · rintro ⟨dir, base, rest, tail, rfl, hdir, hbase, hrest, htail, hall⟩
    refine ⟨dir, base ++ rest, tail, rfl, hdir, matches_cat_cons.mpr ⟨base, rest, rfl,
      matches_anyOf.mpr hbase, matches_cat_cons.mpr ⟨rest, [], (List.append_nil rest).symm,
        ⟨all_notSlash_iff.mpr hrest, Nat.zero_le _, nofun⟩, matches_cat_cons.mpr ⟨[], [], rfl,
          matches_textEnd.mpr ⟨rfl, htail⟩, matches_notBehind.mpr ⟨rfl, ?_⟩⟩⟩⟩⟩
    simpa using hall

theorem found_dotenvName_iff {name : PyStr} : Found dotenvName name ↔ DotenvNamed name := by
  unfold dotenvName
  rw [found_partStart_iff]
  constructor
  · rintro ⟨dir, m, tail, rfl, hdir, hm⟩
    obtain ⟨env, _, rfl, henv, hm⟩ := matches_cat_cons.mp hm
    obtain ⟨rest, _, rfl, hrest, hm⟩ := matches_cat_cons.mp hm
    obtain ⟨rfl, htail⟩ := matches_textEnd.mp hm
    obtain rfl : env = py ".env" := matches_lit.mp henv
    refine ⟨dir, rest, tail, by simp, hdir, ?_, htail⟩
    rcases hrest with ⟨dot, more, rfl, hdot, hmore⟩ | hnone
    · obtain rfl : dot = py "." := matches_lit.mp hdot
      exact Or.inr ⟨more, rfl, List.ne_nil_of_length_pos hmore.2.1, all_notSlash_iff.mp hmore.1⟩
    · exact Or.inl hnone
  · rintro ⟨dir, rest, tail, rfl, hdir, hrest, htail⟩
    refine ⟨dir, py ".env" ++ rest, tail, rfl, hdir, matches_cat_cons.mpr ⟨py ".env", rest, rfl,
      matches_lit.mpr rfl, matches_cat_cons.mpr ⟨rest, [], (List.append_nil rest).symm, ?_,
        matches_textEnd.mpr ⟨rfl, htail⟩⟩⟩⟩
    rcases hrest with rfl | ⟨more, rfl, hne, hmore⟩
    · exact Or.inr rfl
    · exact Or.inl ⟨py ".", more, rfl, matches_lit.mpr rfl, all_notSlash_iff.mpr hmore,
        List.length_pos_of_ne_nil hne, nofun⟩

theorem found_allow_iff {name : PyStr} : Found FORBIDDEN_NAME_ALLOW name ↔ ExampleNamed name := by
  unfold FORBIDDEN_NAME_ALLOW
  rw [found_partStart_iff]
  constructor
  · rintro ⟨dir, m, tail, rfl, hdir, hm⟩
    obtain ⟨example_, _, rfl, hexample, hm⟩ := matches_cat_cons.mp hm
    obtain ⟨rfl, htail⟩ := matches_textEnd.mp hm
    obtain rfl : example_ = py ".env.example" := matches_lit.mp hexample
    exact ⟨dir, tail, by simp, hdir, htail⟩
  · rintro ⟨dir, tail, rfl, hdir, htail⟩
    exact ⟨dir, py ".env.example", tail, rfl, hdir, matches_cat_cons.mpr ⟨_, [], (List.append_nil _).symm,
      matches_lit.mpr rfl, matches_textEnd.mpr ⟨rfl, htail⟩⟩⟩

/-- **The names that pass.** -/
theorem scanName_eq_nil_iff {name : PyStr} : scanName name = [] ↔ Acceptable name := by
  unfold scanName Acceptable
  split
  · rename_i h
    rw [search_iff, found_allow_iff] at h
    exact iff_of_true rfl (Or.inl h)
  · rename_i h
    rw [search_iff, found_allow_iff] at h
    rw [or_iff_right h, List.filterMap_eq_nil_iff, ← found_privateKeyName_iff, ← found_keystoreName_iff,
      ← found_dotenvName_iff]
    simp [FORBIDDEN_NAME_PATTERNS, search_iff]

theorem mem_of_append_eq_concat {x y w : PyStr} {c : CodePoint} (hw : w ≠ []) (h : x ++ w = y ++ [c]) :
    c ∈ w := by
  have hlast : (x ++ w).getLast? = w.getLast? := List.getLast?_append_of_ne_nil x hw
  rw [h, List.getLast?_concat] at hlast
  exact List.mem_of_getLast? hlast.symm

example : (scanName (py "keys/Root.PEM")).length = 1 := by decide

/-- **A key file is no example**: the exception is for one last part, and that is none of a key file. -/
theorem KeyNamed.not_example {name : PyStr} (h : KeyNamed name) : ¬ ExampleNamed name := by
  rintro ⟨dir, tail', heq, -, htail'⟩
  obtain ⟨stem, ext, tail, rfl, ⟨s, hs, hext⟩, htail⟩ := h
  have hletters : ∀ s ∈ KEY_SUFFIXES, (py s).length ≠ 0 ∧ (py s).length ≠ 7 ∧
      ∀ l ∈ py s, anyCase l (cp '\n') = false ∧ anyCase l (cp '.') = false := by decide
  obtain ⟨hpos, hseven, hl⟩ := hletters s hs
  have hchars : ∀ c ∈ ext, c ≠ cp '\n' ∧ c ≠ cp '.' := by
    intro c hc
    obtain ⟨l, hmem, hlc⟩ := exists_left_of_forall₂ hext hc
    obtain ⟨hfeed, hdot⟩ := hl l hmem
    constructor
    · rintro rfl
      exact Bool.false_ne_true (hfeed.symm.trans hlc)
    · rintro rfl
      exact Bool.false_ne_true (hdot.symm.trans hlc)
  have hne : ext ≠ [] := by
    rintro rfl
    exact hpos (List.forall₂_nil_right_iff.mp hext ▸ rfl)
  have hexample : py ".env.example" = py ".env" ++ (py "." ++ py "example") := by decide
  -- a newline at the end belongs to neither name, so both are cut at their last dot
  have hcut : stem ++ (py "." ++ ext) = (dir ++ py ".env") ++ (py "." ++ py "example") := by
    rw [List.append_assoc dir, ← hexample]
    rcases htail with rfl | rfl
    · rcases htail' with rfl | rfl
      · simpa using heq
      · rw [List.append_nil, ← List.append_assoc] at heq
        exact absurd rfl (hchars _ (mem_of_append_eq_concat hne heq)).1
    · rcases htail' with rfl | rfl
      · rw [List.append_nil] at heq
        exact absurd (mem_of_append_eq_concat (by decide) heq.symm) (by decide)
      · exact List.append_cancel_right heq
  have hdot : ∀ {w : PyStr}, cp '.' ∉ w → ¬ py "." <:+: (py ".").tail ++ w := fun hw hinf =>
    hw (hinf.subset List.mem_cons_self)
  obtain ⟨-, rfl⟩ := cut_unique_last (hdot fun hmem => (hchars _ hmem).2 rfl) (hdot (by decide)) hcut
  exact hseven hext.length_eq

/-! ## What the hooks let pass -/

theorem blockMain_eq_zero_iff {argv : List PyStr} :
    blockMain argv = 0 ↔ ∀ raw ∈ argv, Acceptable (Path.ofStr raw).toStr := by
  unfold blockMain
  split
  · rename_i h
    rw [List.flatMap_eq_nil_iff] at h
    exact iff_of_true rfl fun raw hraw => scanName_eq_nil_iff.mp (h raw hraw)
  · rename_i h
    rw [List.flatMap_eq_nil_iff] at h
    exact iff_of_false (by decide) fun hall => h fun raw hraw => scanName_eq_nil_iff.mpr (hall raw hraw)

section Passing

variable [PyRuntime] [PyBuiltins] {fs : FileSystem} {root path : Path} {targets : List Path}

/-- A file that passes: its name is acceptable, and its text is not looked at or has only allowed matches. -/
def Passes (fs : FileSystem) (root path : Path) : Prop :=
  ∃ rel, relName root path = .ok rel ∧ Acceptable rel ∧
    (PyBuiltins.lower (suffix path) ∈ BINARY_SUFFIXES ∨ readText fs path = .ok none ∨
      ∃ text, readText fs path = .ok (some text) ∧
        ∀ rule ∈ RULES, ∀ m ∈ finditer rule.pattern text, allowed text m.1.before = true)

/-- A target that is no file, or a file that passes. -/
def Committable (fs : FileSystem) (root path : Path) : Prop :=
  fs.isFile path = .ok false ∨ fs.isFile path = .ok true ∧ Passes fs root path

theorem scanFile_eq_nil_iff : scanFile fs root path = .ok [] ↔ Passes fs root path := by
  unfold scanFile Passes
  rw [bind_eq_ok]
  refine exists_congr fun rel => and_congr_right fun _ => ?_
  dsimp only
  rw [← scanName_eq_nil_iff]
  split
  · rename_i hbinary
    show Except.ok (scanName rel) = .ok [] ↔ _
    simp [hbinary]
  · rename_i hbinary
    rw [or_iff_right hbinary, bind_eq_ok]
    constructor
    · rintro ⟨text, hread, hfound⟩
      cases text with
      | none => exact ⟨Except.ok.inj hfound, Or.inl hread⟩
      | some text =>
        obtain ⟨hname, htext⟩ := List.append_eq_nil_iff.mp (Except.ok.inj hfound)
        exact ⟨hname, Or.inr ⟨text, hread, scanText_eq_nil_iff.mp htext⟩⟩
    · rintro ⟨hname, hread | ⟨text, hread, htext⟩⟩
      · exact ⟨none, hread, congrArg Except.ok hname⟩
      · refine ⟨some text, hread, congrArg Except.ok ?_⟩
        rw [hname, List.nil_append]
        exact scanText_eq_nil_iff.mpr htext

theorem scanTarget_eq_nil_iff : scanTarget fs root path = .ok [] ↔ Committable fs root path := by
  unfold Committable
  rw [← scanFile_eq_nil_iff]
  unfold scanTarget FileSystem.exists_ FileSystem.isFile FileSystem.test
  cases fs.stat path with
  | ok mode =>
    by_cases hmode : S_ISREG mode
    · simp [bind, Except.bind, hmode]
    · simp [bind, Except.bind, hmode, pure, Except.pure]
  | error e =>
    by_cases hignored : fs.ignored e = true
    · simp [bind, Except.bind, hignored, pure, Except.pure]
    · simp [bind, Except.bind, hignored]

theorem scanMain_eq_zero_iff :
    (∃ findings, scanMain fs root targets = .ok (0, findings)) ↔
      ∀ path ∈ targets, Committable fs root path := by
  simp only [← scanTarget_eq_nil_iff]
  unfold scanMain
  constructor
  · rintro ⟨findings, h⟩ path hpath
    obtain ⟨scanned, hscanned, hend⟩ := bind_eq_ok.mp h
    have hcode : (if scanned.flatten = [] then (0 : Int) else 1) = 0 :=
      congrArg Prod.fst (Except.ok.inj hend)
    have hnil : scanned.flatten = [] := by
      by_contra hne
      rw [if_neg hne] at hcode
      exact absurd hcode (by decide)
    obtain ⟨found, hmem, hfound⟩ := exists_right_of_forall₂ (mapM_eq_ok_iff.mp hscanned) hpath
    rw [hfound, List.flatten_eq_nil_iff.mp hnil found hmem]
  · intro hall
    have hscanned : targets.mapM (scanTarget fs root) = .ok (targets.map fun _ => []) := by
      rw [mapM_eq_ok_iff, List.forall₂_map_right_iff]
      exact List.forall₂_same.mpr hall
    have hnil : (targets.map fun _ => ([] : List Finding)).flatten = [] := by simp
    refine ⟨[], bind_eq_ok.mpr ⟨_, hscanned, ?_⟩⟩
    dsimp only
    rw [hnil]
    rfl

/-- **What may be committed.** The scanner passes exactly the targets that are no files, and the files with
an acceptable name whose text is not looked at or has only matches on marked lines; the other hook passes
exactly the acceptable names; and the name of a key file is never acceptable. -/
theorem hooks_pass_iff (fs : FileSystem) (root : Path) (targets : List Path) (argv : List PyStr) :
    ((∃ findings, scanMain fs root targets = .ok (0, findings)) ↔
      ∀ path ∈ targets, Committable fs root path) ∧
    (blockMain argv = 0 ↔ ∀ raw ∈ argv, Acceptable (Path.ofStr raw).toStr) ∧
    ∀ name, KeyNamed name → ¬ Acceptable name := by
  refine ⟨scanMain_eq_zero_iff, blockMain_eq_zero_iff, ?_⟩
  rintro name hkey (hexample | ⟨hno, -⟩)
  · exact hkey.not_example hexample
  · exact hno hkey

/-! ## The whole tree -/

/-- A part of the path is the name of a directory that is skipped. -/
def Skipped (path : Path) : Prop := ∃ part ∈ path.parts, part ∈ SKIP_DIRS

omit [PyRuntime] [PyBuiltins] in
theorem keepFile_eq_ok_iff {kept : List Path} :
    keepFile fs path = .ok kept ↔ fs.isFile path = .ok false ∧ kept = [] ∨
      fs.isFile path = .ok true ∧ (Skipped path ∧ kept = [] ∨ ¬ Skipped path ∧ kept = [path]) := by
  have hskip : (path.parts.any fun part => SKIP_DIRS.contains part) = true ↔ Skipped path := by
    simp only [List.any_eq_true, List.contains_iff_mem, Skipped]
  unfold keepFile
  cases fs.isFile path with
  | error e => exact iff_of_false nofun (by simp)
  | ok b =>
    cases b with
    | false =>
      show Except.ok [] = .ok kept ↔ _
      simp [eq_comm]
    | true =>
      show (if _ then Except.ok [] else Except.ok [path]) = .ok kept ↔ _
      by_cases h : Skipped path
      · rw [if_pos (hskip.mpr h)]
        simp [h, eq_comm]
      · rw [if_neg fun hany => h (hskip.mp hany)]
        simp [h, eq_comm]

omit [PyRuntime] [PyBuiltins] in
theorem mem_iterTree {listing : List Path} (h : iterTree fs listing = .ok targets) :
    path ∈ targets ↔ path ∈ listing ∧ fs.isFile path = .ok true ∧ ¬ Skipped path := by
  obtain ⟨kept, hkept, hend⟩ := bind_eq_ok.mp h
  obtain rfl : kept.flatten = targets := Except.ok.inj hend
  have hall := mapM_eq_ok_iff.mp hkept
  rw [List.mem_flatten]
  constructor
  · rintro ⟨ks, hks, hmem⟩
    obtain ⟨p, hp, hkeep⟩ := exists_left_of_forall₂ hall hks
    rcases keepFile_eq_ok_iff.mp hkeep with ⟨-, rfl⟩ | ⟨hfile, ⟨-, rfl⟩ | ⟨hno, rfl⟩⟩
    · cases hmem
    · cases hmem
    · obtain rfl := List.mem_singleton.mp hmem
      exact ⟨hp, hfile, hno⟩
  · rintro ⟨hp, hfile, hno⟩
    obtain ⟨ks, hks, hkeep⟩ := exists_right_of_forall₂ hall hp
    rw [keepFile_eq_ok_iff.mpr (Or.inr ⟨hfile, Or.inr ⟨hno, rfl⟩⟩)] at hkeep
    rw [← Except.ok.inj hkeep] at hks
    exact ⟨_, hks, List.mem_singleton_self path⟩

omit [PyRuntime] [PyBuiltins] in
theorem iterTree_isOk_iff {listing : List Path} :
    (∃ targets, iterTree fs listing = .ok targets) ↔ ∀ p ∈ listing, ∃ b, fs.isFile p = .ok b := by
  constructor
  · rintro ⟨targets, h⟩ p hp
    obtain ⟨kept, hkept, -⟩ := bind_eq_ok.mp h
    obtain ⟨ks, -, hkeep⟩ := exists_right_of_forall₂ (mapM_eq_ok_iff.mp hkept) hp
    rcases keepFile_eq_ok_iff.mp hkeep with ⟨hfile, -⟩ | ⟨hfile, -⟩
    · exact ⟨_, hfile⟩
    · exact ⟨_, hfile⟩
  · intro hall
    have hkeep : ∀ p ∈ listing, ∃ ks, keepFile fs p = .ok ks := by
      intro p hp
      obtain ⟨b, hb⟩ := hall p hp
      cases b with
      | false => exact ⟨_, keepFile_eq_ok_iff.mpr (Or.inl ⟨hb, rfl⟩)⟩
      | true =>
        by_cases hskip : Skipped p
        · exact ⟨_, keepFile_eq_ok_iff.mpr (Or.inr ⟨hb, Or.inl ⟨hskip, rfl⟩⟩)⟩
        · exact ⟨_, keepFile_eq_ok_iff.mpr (Or.inr ⟨hb, Or.inr ⟨hskip, rfl⟩⟩)⟩
    choose! ks hks using hkeep
    have hkept : listing.mapM (keepFile fs) = .ok (listing.map ks) := by
      rw [mapM_eq_ok_iff, List.forall₂_map_right_iff]
      exact List.forall₂_same.mpr hks
    exact ⟨_, bind_eq_ok.mpr ⟨_, hkept, rfl⟩⟩

theorem scanAll_eq_zero_iff {listing : List Path} :
    (∃ findings, scanAll fs root listing = .ok (0, findings)) ↔ ∀ p ∈ listing,
      fs.isFile p = .ok false ∨ fs.isFile p = .ok true ∧ (Skipped p ∨ Passes fs root p) := by
  unfold scanAll
  constructor
  · rintro ⟨findings, h⟩ p hp
    obtain ⟨targets, htree, hmain⟩ := bind_eq_ok.mp h
    obtain ⟨b, hb⟩ := iterTree_isOk_iff.mp ⟨targets, htree⟩ p hp
    cases b with
    | false => exact Or.inl hb
    | true =>
      refine Or.inr ⟨hb, or_iff_not_imp_left.mpr fun hno => ?_⟩
      have hmem : p ∈ targets := (mem_iterTree htree).mpr ⟨hp, hb, hno⟩
      rcases scanMain_eq_zero_iff.mp ⟨findings, hmain⟩ p hmem with hfile | ⟨-, hpass⟩
      · rw [hb] at hfile
        cases hfile
      · exact hpass
  · -- every path can be asked, so the tree is listed
    intro hall
    have hfiles : ∀ p ∈ listing, ∃ b, fs.isFile p = .ok b := fun p hp =>
      (hall p hp).elim (fun h => ⟨_, h⟩) fun h => ⟨_, h.1⟩
    obtain ⟨targets, htree⟩ := iterTree_isOk_iff.mpr hfiles
    have hpass : ∀ p ∈ targets, Committable fs root p := by
      intro p hp
      obtain ⟨hmem, hfile, hno⟩ := (mem_iterTree htree).mp hp
      rcases hall p hmem with hother | ⟨-, hskip | hpass⟩
      · exact Or.inl hother
      · exact absurd hskip hno
      · exact Or.inr ⟨hfile, hpass⟩
    obtain ⟨findings, hmain⟩ := scanMain_eq_zero_iff.mpr hpass
    exact ⟨findings, bind_eq_ok.mpr ⟨targets, htree, hmain⟩⟩

/-- **The whole tree** passes exactly if every file of it passes or has a part that is skipped; so under a
root that has such a part, whatever lies there passes. -/
theorem tree_passes_iff (fs : FileSystem) (root : Path) (listing : List Path) :
    ((∃ findings, scanAll fs root listing = .ok (0, findings)) ↔ ∀ p ∈ listing,
      fs.isFile p = .ok false ∨ fs.isFile p = .ok true ∧ (Skipped p ∨ Passes fs root p)) ∧
    (Skipped root → (∀ p ∈ listing, root.parts <+: p.parts) →
      ((∃ findings, scanAll fs root listing = .ok (0, findings)) ↔
        ∀ p ∈ listing, ∃ b, fs.isFile p = .ok b)) := by
  refine ⟨scanAll_eq_zero_iff, ?_⟩
  rintro ⟨part, hpart, hskip⟩ hunder
  refine scanAll_eq_zero_iff.trans ?_
  refine forall₂_congr fun p hp => ⟨?_, ?_⟩
  · rintro (h | ⟨h, -⟩)
    · exact ⟨_, h⟩
    · exact ⟨_, h⟩
  · rintro ⟨b, hb⟩
    cases b with
    | false => exact Or.inl hb
    | true => exact Or.inr ⟨hb, Or.inl ⟨part, (hunder p hp).subset hpart, hskip⟩⟩

end Passing

end FlopOffice.Tools
