/-
# FlopOffice.Storage.Statements — `_split_statements`: a schema script, statement by statement.

The loop drops blank lines and full-line comments, collects the others in a buffer, and closes the buffer
at a line that ends with `;`, unless it is inside `BEGIN` … `END;`. One iteration is `splitLine`, on the
three variables of the loop (`Splitter`). What is asked of a line is asked of it without the white space
around it, and where letters matter in upper case.

Two facts about an iteration carry the results. It loses no line: what is in the statements and in the
buffer is what was read (`splitLine_lines`). And on the lines of a statement the buffer grows until the
last of them (`foldl_quiet`), so that the statement comes out whole (`Splitter.statement`).
-/
import Mathlib.Data.List.Infix
import FlopOffice.Lib.PrefixCode
import FlopOffice.Python.Builtins

namespace FlopOffice.Storage

open FlopOffice.Lib FlopOffice.Python

/-! ## The loop -/

/-- `"\n".join(lines)`. -/
def joinLines (lines : List PyStr) : PyStr := joinWith (cp '\n') lines

/-- `not stripped or stripped.startswith("--")`. -/
def isSkipped (line : PyStr) : Bool := decide (strip line = [] ∨ py "--" <+: strip line)

/-- `stripped.endswith(";")`. -/
def endsStatement (line : PyStr) : Bool := decide (py ";" <:+ strip line)

/-- The variables of the loop. -/
structure Splitter where
  statements : List PyStr
  buffer : List PyStr
  depth : Int

/-- `statements.append("\n".join(buffer)); buffer = []`. -/
def Splitter.close (s : Splitter) : Splitter :=
  { s with statements := s.statements ++ [joinLines s.buffer], buffer := [] }

section Split

variable [PyBuiltins]

/-- `upper.endswith("BEGIN")`. -/
def opensBody (line : PyStr) : Bool := decide (py "BEGIN" <:+ PyBuiltins.upper (strip line))

/-- `upper.startswith("END;")`. -/
def closesBody (line : PyStr) : Bool := decide (py "END;" <+: PyBuiltins.upper (strip line))

/-- One iteration. -/
def splitLine (s : Splitter) (line : PyStr) : Splitter :=
  if isSkipped line then s
  else
    let s := { s with buffer := s.buffer ++ [line] }
    if opensBody line then { s with depth := s.depth + 1 }
    else if closesBody line then
      let s := { s with depth := s.depth - 1 }
      if s.depth = 0 then s.close else s
    else if s.depth = 0 ∧ endsStatement line = true then s.close
    else s

/-- `_split_statements`. -/
def splitStatements (script : PyStr) : List PyStr :=
  let s := (splitlines script).foldl splitLine ⟨[], [], 0⟩
  if s.buffer ≠ [] then s.close.statements else s.statements

end Split

/-! ## Lines -/

/-- The text has no line break. -/
def IsLine (line : PyStr) : Prop := ∀ c ∈ line, isLineBreak c = false

theorem splitlinesAux_line {line : PyStr} (h : IsLine line) (cur rest : PyStr) :
    splitlinesAux false cur (line ++ rest) = splitlinesAux false (line.reverse ++ cur) rest := by
  induction line generalizing cur with
  | nil => rfl
  | cons c line ih =>
    obtain ⟨hc, hline⟩ := List.forall_mem_cons.mp h
    simp only [List.cons_append, splitlinesAux, Bool.false_and, Bool.false_eq_true, if_false]
    rw [if_neg (Bool.eq_false_iff.mp hc), ih hline, List.reverse_cons, List.append_assoc]
    rfl

theorem splitlines_feed {line : PyStr} (h : IsLine line) (rest : PyStr) :
    splitlines (line ++ cp '\n' :: rest) = line :: splitlines rest := by
  have hbreak : isLineBreak (cp '\n') = true := by decide
  rw [splitlines, splitlinesAux_line h, List.append_nil, splitlinesAux, Bool.false_and,
    if_neg Bool.false_ne_true, if_pos hbreak, List.reverse_reverse]
  rfl

theorem splitlines_line {line : PyStr} (h : IsLine line) (hne : line ≠ []) :
    splitlines line = [line] := by
  have haux := splitlinesAux_line h [] []
  rw [List.append_nil, List.append_nil, splitlinesAux] at haux
  rw [splitlines, haux, if_neg, List.reverse_reverse]
  rwa [List.isEmpty_iff, List.reverse_eq_nil_iff]

/-- **Joined lines are split again**, except for an empty last one. -/
theorem splitlines_joinLines {lines : List PyStr} (h : ∀ l ∈ lines, IsLine l) :
    splitlines (joinLines lines) = lines ∨ lines = splitlines (joinLines lines) ++ [[]] := by
  induction lines with
  | nil => exact Or.inl rfl
  | cons x lines ih =>
    obtain ⟨hx, hlines⟩ := List.forall_mem_cons.mp h
    cases lines with
    | nil =>
      by_cases hnil : x = []
      · subst hnil
        exact Or.inr rfl
      · exact Or.inl (splitlines_line hx hnil)
    | cons y lines =>
      have hfirst : splitlines (joinLines (x :: y :: lines)) = x :: splitlines (joinLines (y :: lines)) :=
        splitlines_feed hx _
      rw [hfirst]
      rcases ih hlines with heq | heq
      · exact Or.inl (congrArg _ heq)
      · exact Or.inr (congrArg (x :: ·) heq)

theorem isLine_of_mem_splitlinesAux {afterCR : Bool} {cur s line : PyStr} (hcur : IsLine cur)
    (h : line ∈ splitlinesAux afterCR cur s) : IsLine line := by
  have hreverse : IsLine cur.reverse := fun c hc => hcur c (List.mem_reverse.mp hc)
  induction s generalizing afterCR cur with
  | nil =>
    rw [splitlinesAux] at h
    split at h
    · cases h
    · rwa [List.mem_singleton.mp h]
  | cons c s ih =>
    rw [splitlinesAux] at h
    split at h
    · exact ih hcur h hreverse
    split at h
    · rcases List.mem_cons.mp h with rfl | h
      · exact hreverse
      · exact ih (List.forall_mem_nil _) h (List.forall_mem_nil _)
    · rename_i hc
      have hnext : IsLine (c :: cur) := List.forall_mem_cons.mpr ⟨Bool.eq_false_iff.mpr hc, hcur⟩
      exact ih hnext h fun d hd => hnext d (List.mem_reverse.mp hd)

theorem isLine_of_mem_splitlines {s line : PyStr} (h : line ∈ splitlines s) : IsLine line :=
  isLine_of_mem_splitlinesAux (List.forall_mem_nil _) h

/-- The lines that are not dropped. -/
def keptLines (lines : List PyStr) : List PyStr := lines.filter fun line => !isSkipped line

/-- An empty last line is blank. -/
theorem keptLines_joinLines {lines : List PyStr} (h : ∀ l ∈ lines, IsLine l) :
    keptLines (splitlines (joinLines lines)) = keptLines lines := by
  rcases splitlines_joinLines h with heq | heq
  · rw [heq]
  · conv_rhs => rw [heq]
    rw [keptLines, keptLines, List.filter_append]
    exact (List.append_nil _).symm

theorem ne_nil_of_kept {line : PyStr} (h : isSkipped line = false) : line ≠ [] := by
  rintro rfl
  cases h

/-! ## No line is lost -/

section Split

variable [PyBuiltins] {s : Splitter} {line : PyStr} {lines : List PyStr}

/-- What has been read: the lines of the statements, and the buffer. -/
def Splitter.read (s : Splitter) : List PyStr := s.statements.flatMap splitlines ++ s.buffer

/-- The buffer holds lines, and none that is blank. -/
def Splitter.Sound (s : Splitter) : Prop := ∀ l ∈ s.buffer, IsLine l ∧ isSkipped l = false

omit [PyBuiltins] in
theorem Splitter.Sound.close (h : s.Sound) : s.close.Sound ∧ s.close.read = s.read := by
  refine ⟨List.forall_mem_nil _, ?_⟩
  have hbuffer : splitlines (joinLines s.buffer) = s.buffer := by
    rcases splitlines_joinLines fun l hl => (h l hl).1 with heq | heq
    · exact heq
    · have hnil : ([] : PyStr) ∈ s.buffer := by
        rw [heq]
        exact List.mem_append_right _ List.mem_cons_self
      exact absurd rfl (ne_nil_of_kept (h [] hnil).2)
  rw [Splitter.read, Splitter.read, Splitter.close, List.flatMap_append, List.flatMap_singleton,
    hbuffer, List.append_nil]

/-- **An iteration loses no line and repeats none.** -/
theorem splitLine_lines (hs : s.Sound) (hline : IsLine line) :
    (splitLine s line).Sound ∧ (splitLine s line).read = s.read ++ keptLines [line] := by
  unfold splitLine
  split
  · rename_i hskipped
    have hnone : keptLines [line] = [] := by
      rw [keptLines, List.filter_cons_of_neg (by rw [hskipped]; exact Bool.false_ne_true),
        List.filter_nil]
    rw [hnone, List.append_nil]
    exact ⟨hs, rfl⟩
  · rename_i hkept
    rw [Bool.not_eq_true] at hkept
    have hone : keptLines [line] = [line] := by
      rw [keptLines, List.filter_cons_of_pos (by rw [hkept]; rfl), List.filter_nil]
    -- whatever becomes of the depth, the line is read
    have hread : ∀ depth, Splitter.Sound ⟨s.statements, s.buffer ++ [line], depth⟩ ∧
        Splitter.read ⟨s.statements, s.buffer ++ [line], depth⟩ = s.read ++ [line] := by
      intro depth
      refine ⟨fun l hl => ?_, (List.append_assoc _ _ _).symm⟩
      rcases List.mem_append.mp hl with hl | hl
      · exact hs l hl
      · rw [List.mem_singleton.mp hl]
        exact ⟨hline, hkept⟩
    have hclosed : ∀ depth, Splitter.Sound (Splitter.close ⟨s.statements, s.buffer ++ [line], depth⟩) ∧
        (Splitter.close ⟨s.statements, s.buffer ++ [line], depth⟩).read = s.read ++ [line] := by
      intro depth
      obtain ⟨hsound, hlines⟩ := (hread depth).1.close
      exact ⟨hsound, hlines.trans (hread depth).2⟩
    rw [hone]
    dsimp only
    split
    · exact hread _
    split
    · split
      · exact hclosed _
      · exact hread _
    split
    · exact hclosed _
    · exact hread _

theorem foldl_splitLine_lines (hs : s.Sound) (hlines : ∀ l ∈ lines, IsLine l) :
    (lines.foldl splitLine s).Sound ∧
      (lines.foldl splitLine s).read = s.read ++ keptLines lines := by
  induction lines generalizing s with
  | nil => exact ⟨hs, (List.append_nil _).symm⟩
  | cons line lines ih =>
    obtain ⟨hline, hrest⟩ := List.forall_mem_cons.mp hlines
    obtain ⟨hsound, hread⟩ := splitLine_lines hs hline
    obtain ⟨hsound', hread'⟩ := ih hsound hrest
    refine ⟨hsound', ?_⟩
    rw [List.foldl_cons, hread', hread, List.append_assoc, keptLines, keptLines, keptLines,
      ← List.filter_append, List.singleton_append]

/-- The statements of a script have its lines. -/
theorem flatMap_splitStatements (script : PyStr) :
    (splitStatements script).flatMap splitlines = keptLines (splitlines script) := by
  have hstart : Splitter.Sound ⟨[], [], 0⟩ := List.forall_mem_nil _
  obtain ⟨hsound, hread⟩ := foldl_splitLine_lines hstart fun l hl => isLine_of_mem_splitlines hl
  unfold splitStatements
  dsimp only
  generalize (splitlines script).foldl splitLine ⟨[], [], 0⟩ = s at hsound hread ⊢
  have hnone : Splitter.read ⟨[], [], 0⟩ = [] := rfl
  rw [hnone, List.nil_append] at hread
  split
  · rw [← hread, ← hsound.close.2, Splitter.read]
    exact (List.append_nil _).symm
  · rename_i hbuffer
    rw [← hread, Splitter.read, not_not.mp hbuffer, List.append_nil]

end Split

/-! ## Statements come out whole -/

section Exact

variable [PyBuiltins] {s : Splitter} {line : PyStr} {lines : List PyStr}

/-- A statement that ends with the first `;` at the end of a line. -/
def Simple (lines : List PyStr) : Prop :=
  ∃ init last, lines = init ++ [last] ∧ endsStatement last = true ∧
    (∀ l ∈ init, endsStatement l = false) ∧ ∀ l ∈ lines, opensBody l = false ∧ closesBody l = false

/-- A statement with a body: one line opens it, and the last line closes it. -/
def Trigger (lines : List PyStr) : Prop :=
  ∃ header first body last, lines = header ++ first :: (body ++ [last]) ∧
    (opensBody first = true ∧ ∀ l ∈ header ++ body ++ [last], opensBody l = false) ∧
    (closesBody last = true ∧ ∀ l ∈ header ++ first :: body, closesBody l = false) ∧
    ∀ l ∈ header, endsStatement l = false

/-- A statement of a schema, by its lines. -/
structure Statement where
  lines : List PyStr
  line : ∀ l ∈ lines, IsLine l
  kept : ∀ l ∈ lines, isSkipped l = false
  shape : Simple lines ∨ Trigger lines

def Statement.text (statement : Statement) : PyStr := joinLines statement.lines

/-- The lines are those of the statements, with blank lines and full-line comments anywhere. -/
structure Interspersed (lines : List PyStr) (statements : List Statement) : Prop where
  line : ∀ l ∈ lines, IsLine l
  kept : keptLines lines = statements.flatMap Statement.lines

theorem foldl_keptLines : (keptLines lines).foldl splitLine s = lines.foldl splitLine s := by
  induction lines generalizing s with
  | nil => rfl
  | cons line lines ih =>
    rw [List.foldl_cons, keptLines]
    cases hline : isSkipped line with
    | true =>
      have hsame : splitLine s line = s := if_pos hline
      rw [List.filter_cons_of_neg (by rw [hline]; exact Bool.false_ne_true), hsame]
      exact ih
    | false =>
      rw [List.filter_cons_of_pos (by rw [hline]; rfl), List.foldl_cons]
      exact ih

/-- A line that neither opens nor closes anything joins the buffer. -/
theorem splitLine_quiet (hkept : isSkipped line = false) (hopen : opensBody line = false)
    (hclose : closesBody line = false) (hend : s.depth = 0 → endsStatement line = false) :
    splitLine s line = { s with buffer := s.buffer ++ [line] } := by
  unfold splitLine
  rw [if_neg (Bool.eq_false_iff.mp hkept), if_neg (Bool.eq_false_iff.mp hopen),
    if_neg (Bool.eq_false_iff.mp hclose), if_neg]
  rintro ⟨hdepth, htrue⟩
  exact Bool.eq_false_iff.mp (hend hdepth) htrue

theorem foldl_quiet (hkept : ∀ l ∈ lines, isSkipped l = false)
    (hopen : ∀ l ∈ lines, opensBody l = false) (hclose : ∀ l ∈ lines, closesBody l = false)
    (hend : s.depth = 0 → ∀ l ∈ lines, endsStatement l = false) :
    lines.foldl splitLine s = { s with buffer := s.buffer ++ lines } := by
  induction lines generalizing s with
  | nil => rw [List.foldl_nil, List.append_nil]
  | cons line lines ih =>
    rw [List.forall_mem_cons] at hkept hopen hclose
    have hline := splitLine_quiet hkept.1 hopen.1 hclose.1 fun h => hend h line List.mem_cons_self
    have hrest : ∀ s' : Splitter, s'.depth = s.depth →
        lines.foldl splitLine s' = { s' with buffer := s'.buffer ++ lines } := fun s' hdepth =>
      ih hkept.2 hopen.2 hclose.2 fun h l hl => hend (hdepth ▸ h) l (List.mem_cons_of_mem _ hl)
    rw [List.foldl_cons, hline, hrest ⟨s.statements, s.buffer ++ [line], s.depth⟩ rfl,
      List.append_assoc, List.singleton_append]

/-- **A statement comes out whole.** -/
theorem foldl_statement (statement : Statement) (done : List PyStr) :
    statement.lines.foldl splitLine ⟨done, [], 0⟩ = ⟨done ++ [statement.text], [], 0⟩ := by
  obtain ⟨lines, -, hkept, hshape⟩ := statement
  rw [Statement.text]
  dsimp only
  rcases hshape with ⟨init, last, rfl, hlast, hinit, hplain⟩ |
      ⟨header, first, body, last, rfl, ⟨hfirst, hopen⟩, ⟨hlast, hclose⟩, hheader⟩
  · rw [List.forall_mem_append, List.forall_mem_singleton] at hkept hplain
    rw [List.foldl_append, foldl_quiet hkept.1 (fun l hl => (hplain.1 l hl).1)
      (fun l hl => (hplain.1 l hl).2) fun _ => hinit, List.foldl_cons, List.foldl_nil]
    unfold splitLine
    rw [if_neg (Bool.eq_false_iff.mp hkept.2), if_neg (Bool.eq_false_iff.mp hplain.2.1),
      if_neg (Bool.eq_false_iff.mp hplain.2.2), if_pos ⟨rfl, hlast⟩]
    rfl
  · simp only [List.forall_mem_append, List.forall_mem_cons] at hkept hopen hclose
    obtain ⟨kheader, kfirst, kbody, klast, -⟩ := hkept
    obtain ⟨⟨oheader, obody⟩, olast, -⟩ := hopen
    obtain ⟨cheader, cfirst, cbody⟩ := hclose
    -- the line with BEGIN leads into the body, where a semicolon ends nothing
    have hbegin : splitLine ⟨done, header, 0⟩ first = ⟨done, header ++ [first], 1⟩ := by
      unfold splitLine
      rw [if_neg (Bool.eq_false_iff.mp kfirst), if_pos hfirst]
      rfl
    have hbody : body.foldl splitLine ⟨done, header ++ [first], 1⟩ =
        ⟨done, header ++ [first] ++ body, 1⟩ :=
      foldl_quiet kbody obody cbody fun h => absurd h (show (1 : Int) ≠ 0 by decide)
    rw [List.foldl_append, foldl_quiet kheader oheader cheader fun _ => hheader, List.foldl_cons,
      List.nil_append, hbegin, List.foldl_append, hbody, List.foldl_cons, List.foldl_nil]
    unfold splitLine
    rw [if_neg (Bool.eq_false_iff.mp klast), if_neg (Bool.eq_false_iff.mp olast), if_pos hlast]
    dsimp only
    rw [if_pos (Int.sub_self 1), Splitter.close]
    simp only [List.append_assoc, List.nil_append, Int.sub_self, List.cons_append]

theorem foldl_statements (statements : List Statement) (done : List PyStr) :
    (statements.flatMap Statement.lines).foldl splitLine ⟨done, [], 0⟩ =
      ⟨done ++ statements.map Statement.text, [], 0⟩ := by
  induction statements generalizing done with
  | nil => rw [List.flatMap_nil, List.map_nil, List.append_nil, List.foldl_nil]
  | cons statement statements ih =>
    rw [List.flatMap_cons, List.foldl_append, foldl_statement, ih, List.map_cons, List.append_assoc,
      List.singleton_append]

/-- **The splitter is exact.** However statements are joined, with blank lines and full-line comments
anywhere, they come out as they are; and the statements of any script at all have exactly its lines,
without the blank lines and the comments. -/
theorem splitStatements_exact :
    (∀ statements lines, Interspersed lines statements →
      splitStatements (joinLines lines) = statements.map Statement.text) ∧
    ∀ script, (splitStatements script).flatMap splitlines = keptLines (splitlines script) := by
  refine ⟨fun statements lines h => ?_, flatMap_splitStatements⟩
  have hloop : (splitlines (joinLines lines)).foldl splitLine ⟨[], [], 0⟩ =
      ⟨[] ++ statements.map Statement.text, [], 0⟩ := by
    rw [← foldl_keptLines, keptLines_joinLines h.line, h.kept]
    exact foldl_statements statements []
  unfold splitStatements
  rw [hloop]
  rfl

end Exact

/-! ### A trigger of the schema -/

section Sample

attribute [local instance] asciiBuiltins

/-- `activities_no_delete`, with the message left out. -/
def noDelete : Statement where
  lines := [py "CREATE TRIGGER no_delete", py "BEFORE DELETE ON activities", py "BEGIN",
    py "  SELECT RAISE(ABORT, 'no');", py "END;"]
  line := by unfold IsLine; decide
  kept := by decide
  shape := Or.inr ⟨[py "CREATE TRIGGER no_delete", py "BEFORE DELETE ON activities"], py "BEGIN",
    [py "  SELECT RAISE(ABORT, 'no');"], py "END;", rfl, by decide, by decide, by decide⟩

/-- A table before it. -/
def noncesTable : Statement where
  lines := [py "CREATE TABLE nonces (", py "  scope TEXT", py ");"]
  line := by unfold IsLine; decide
  kept := by decide
  shape := Or.inl ⟨[py "CREATE TABLE nonces (", py "  scope TEXT"], py ");", rfl, by decide, by decide,
    by decide⟩

/-- The trigger keeps its body: the semicolon inside ends nothing. -/
theorem splitStatements_exact_trigger :
    splitStatements (joinLines ([py "-- counters", []] ++ noncesTable.lines ++ [py " "] ++
      noDelete.lines ++ [py "-- BEGIN"])) = [noncesTable.text, noDelete.text] :=
  splitStatements_exact.1 [noncesTable, noDelete] _ ⟨by unfold IsLine; decide, by decide⟩

end Sample

end FlopOffice.Storage
