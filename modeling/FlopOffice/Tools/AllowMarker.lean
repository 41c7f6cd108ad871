/-
# FlopOffice.Tools.AllowMarker — which markers silence a match.

`scan_text` counts line feeds before a match and looks the line up in `str.splitlines()`, which ends lines
at other characters, too. So a marker silences a match exactly if as many line breaks of any kind stand
before the marker as line feeds before the match (`infix_lookupLine_iff`); it is on the line of the match
exactly if as many line feeds stand before it (`infix_newlineLine_iff`). The two agree on a marker that no
other break stands before. What that means for a match is `scanText_marker_iff`; line numbers are right in
any case.
-/
import FlopOffice.Lib.Delimiter
import FlopOffice.Tools.SecretScan
import Mathlib.Data.List.GetD

namespace FlopOffice.Tools

open FlopOffice.Lib FlopOffice.Lib.Regex FlopOffice.Python

/-! ## Two notions of line -/

def notFeed (c : CodePoint) : Bool := c != cp '\n'

/-- The newline-delimited line that holds position `i`. -/
def newlineLine (text : PyStr) (i : Nat) : PyStr :=
  (text.take i).rtakeWhile notFeed ++ (text.drop i).takeWhile notFeed

/-- The newline-delimited lines before it, each with its line feed. -/
def earlierLines (text : PyStr) (i : Nat) : PyStr := (text.take i).rdropWhile notFeed

/-- What stands after the line. -/
def laterLines (text : PyStr) (i : Nat) : PyStr := (text.drop i).dropWhile notFeed

/-- The number of line breaks that are no line feed; a carriage return with a line feed after it is one
break with it. -/
def otherBreaks : PyStr → Nat
  | [] => 0
  | c :: rest =>
    otherBreaks rest + (isLineBreak c && notFeed c &&
      !(c == cp '\r' && rest.head? == some (cp '\n'))).toNat

/-- The number of line breaks of any kind. -/
def lineBreaks (x : PyStr) : Nat := x.count (cp '\n') + otherBreaks x

/-- The text has the marker, behind a part of which `p` holds. -/
def MarkerBehind (text : PyStr) (p : PyStr → Prop) : Prop := ∃ u v, text = u ++ (ALLOW_MARKER ++ v) ∧ p u

/-! ## The newline-delimited line -/

theorem lines_append (text : PyStr) (i : Nat) :
    earlierLines text i ++ (newlineLine text i ++ laterLines text i) = text := by
  rw [earlierLines, newlineLine, laterLines, List.append_assoc, List.takeWhile_append_dropWhile,
    ← List.append_assoc, List.rdropWhile_append_rtakeWhile, List.take_append_drop]

theorem feed_not_mem_newlineLine (text : PyStr) (i : Nat) : cp '\n' ∉ newlineLine text i := by
  have hfeed : notFeed (cp '\n') = false := by decide
  intro h
  rcases List.mem_append.mp h with h | h
  · have := List.mem_rtakeWhile_imp h
    rw [hfeed] at this
    cases this
  · have := List.mem_takeWhile_imp h
    rw [hfeed] at this
    cases this

/-- The lines before are none, or end with a line feed. -/
theorem earlierLines_cases (text : PyStr) (i : Nat) :
    earlierLines text i = [] ∨ ∃ y, earlierLines text i = y ++ [cp '\n'] := by
  by_cases hne : earlierLines text i = []
  · exact Or.inl hne
  · refine Or.inr ⟨(earlierLines text i).dropLast, ?_⟩
    have hlast := List.rdropWhile_last_not notFeed (text.take i) hne
    rw [Bool.not_eq_true, notFeed, bne_eq_false_iff_eq] at hlast
    have hback := List.dropLast_append_getLast hne
    exact hback.symm.trans (congrArg (fun c => (earlierLines text i).dropLast ++ [c]) hlast)

/-- Behind the line is nothing, or a line feed. -/
theorem laterLines_cases (text : PyStr) (i : Nat) :
    laterLines text i = [] ∨ ∃ y, laterLines text i = cp '\n' :: y := by
  have hnot := List.head?_dropWhile_not notFeed (text.drop i)
  rw [laterLines]
  generalize (text.drop i).dropWhile notFeed = rest at hnot
  cases rest with
  | nil => exact Or.inl rfl
  | cons c rest =>
    have hc : c = cp '\n' := by simpa [notFeed] using hnot
    exact Or.inr ⟨rest, by rw [hc]⟩

/-- Line feeds before a position are line feeds of the lines before. -/
theorem count_earlierLines (text : PyStr) (i : Nat) :
    (earlierLines text i).count (cp '\n') = (text.take i).count (cp '\n') := by
  have hsplit : earlierLines text i ++ (text.take i).rtakeWhile notFeed = text.take i :=
    List.rdropWhile_append_rtakeWhile
  have hnone : ((text.take i).rtakeWhile notFeed).count (cp '\n') = 0 :=
    List.count_eq_zero.mpr fun h =>
      feed_not_mem_newlineLine text i (List.mem_append_left _ h)
  calc (earlierLines text i).count (cp '\n')
      = (earlierLines text i ++ (text.take i).rtakeWhile notFeed).count (cp '\n') := by
        rw [List.count_append, hnone, Nat.add_zero]
    _ = (text.take i).count (cp '\n') := by rw [hsplit]

/-- What stands behind no more line feeds than the position is on the line, or before it. -/
theorem split_laterLines {w u v text : PyStr} {i : Nat} (hw : cp '\n' ∉ w) (h : text = u ++ (w ++ v))
    (hcount : u.count (cp '\n') ≤ (text.take i).count (cp '\n')) :
    ∃ d, earlierLines text i ++ newlineLine text i = u ++ (w ++ d) := by
  have htext := lines_append text i
  rw [← List.append_assoc] at htext
  rcases laterLines_cases text i with hnil | ⟨y, hy⟩
  · rw [hnil, List.append_nil] at htext
    exact ⟨v, htext.trans h⟩
  · rw [hy] at htext
    rcases split_append_cons hw (htext.trans h) with hbefore | ⟨d, rfl, -⟩
    · exact hbefore
    · rw [List.append_assoc, List.count_append, List.count_append, List.count_cons_self,
        count_earlierLines] at hcount
      omega

/-- What stands behind no fewer is on the line, or behind it. -/
theorem split_earlierLines {w u v text : PyStr} {i : Nat} (hw : cp '\n' ∉ w) (h : text = u ++ (w ++ v))
    (hcount : (text.take i).count (cp '\n') ≤ u.count (cp '\n')) : ∃ d, u = earlierLines text i ++ d := by
  have htext := lines_append text i
  rw [← count_earlierLines text i] at hcount
  rcases earlierLines_cases text i with hnil | ⟨y, hy⟩
  · rw [hnil]
    exact ⟨u, rfl⟩
  · rw [hy] at htext hcount ⊢
    rw [List.append_assoc, List.singleton_append] at htext
    rcases split_append_cons hw (htext.trans h) with ⟨d, hd⟩ | ⟨d, rfl, -⟩
    · rw [hd, List.count_append, List.count_append, List.count_singleton_self] at hcount
      omega
    · exact ⟨d, by simp⟩

/-- **The line has what stands behind as many line feeds as the position.** -/
theorem infix_newlineLine_iff {w : PyStr} (hw : cp '\n' ∉ w) (text : PyStr) (i : Nat) :
    w <:+: newlineLine text i ↔
      ∃ u v, text = u ++ (w ++ v) ∧ u.count (cp '\n') = (text.take i).count (cp '\n') := by
  have htext := lines_append text i
  have hfree := feed_not_mem_newlineLine text i
  constructor
  · rintro ⟨p, q, hline⟩
    refine ⟨earlierLines text i ++ p, q ++ laterLines text i, ?_, ?_⟩
    · rw [← hline] at htext
      simpa only [List.append_assoc] using htext.symm
    · have hp : p.count (cp '\n') = 0 := List.count_eq_zero.mpr fun hp =>
        hfree (hline ▸ List.mem_append_left _ (List.mem_append_left _ hp))
      rw [List.count_append, count_earlierLines, hp, Nat.add_zero]
  · rintro ⟨u, v, h, hcount⟩
    obtain ⟨after, hafter⟩ := split_laterLines hw h hcount.le
    obtain ⟨before, rfl⟩ := split_earlierLines hw h hcount.ge
    rw [List.append_assoc, List.append_right_inj] at hafter
    exact ⟨before, after, by rw [hafter, List.append_assoc]⟩

/-! ## The line of `splitlines` -/

theorem val_feed_iff {c : CodePoint} : (c.val == 0x0a) = (c == cp '\n') := by
  rw [Bool.eq_iff_iff, beq_iff_eq, beq_iff_eq]
  exact ⟨fun h => CodePoint.ext h, fun h => h ▸ rfl⟩

theorem val_return_iff {c : CodePoint} : (c.val == 0x0d) = (c == cp '\r') := by
  rw [Bool.eq_iff_iff, beq_iff_eq, beq_iff_eq]
  exact ⟨fun h => CodePoint.ext h, fun h => h ▸ rfl⟩

/-- A character adds a break, if it is one, and no carriage return before a line feed. -/
theorem lineBreaks_cons (c : CodePoint) (x : PyStr) :
    lineBreaks (c :: x) =
      lineBreaks x + (isLineBreak c && !(c == cp '\r' && x.head? == some (cp '\n'))).toNat := by
  have hbreak : isLineBreak (cp '\n') = true := by decide
  have hreturn : (cp '\n' == cp '\r') = false := by decide
  have hnot : notFeed (cp '\n') = false := by decide
  unfold lineBreaks
  rw [otherBreaks]
  by_cases hfeed : c = cp '\n'
  · subst hfeed
    rw [List.count_cons_self, hbreak, hreturn, hnot]
    simp only [Bool.and_false, Bool.false_and, Bool.not_false, Bool.and_true, Bool.toNat_false, Bool.toNat_true]
    omega
  · have hyes : notFeed c = true := bne_iff_ne.mpr hfeed
    rw [List.count_cons_of_ne hfeed, hyes, Bool.and_true]
    omega

theorem lineBreaks_cons_of_not {c : CodePoint} (hc : isLineBreak c = false) (x : PyStr) :
    lineBreaks (c :: x) = lineBreaks x := by
  rw [lineBreaks_cons, hc, Bool.false_and, Bool.toNat_false, Nat.add_zero]

theorem lineBreaks_cons_of_break {c : CodePoint} (hc : isLineBreak c = true) {x : PyStr}
    (h : c = cp '\r' → x.head? ≠ some (cp '\n')) : lineBreaks (c :: x) = lineBreaks x + 1 := by
  have hno : (c == cp '\r' && x.head? == some (cp '\n')) = false := by
    by_cases hr : c = cp '\r'
    · rw [beq_eq_false_iff_ne.mpr (h hr), Bool.and_false]
    · rw [beq_eq_false_iff_ne.mpr hr, Bool.false_and]
  rw [lineBreaks_cons, hc, hno]
  rfl

/-- A carriage return and the line feed behind it are one break. -/
theorem lineBreaks_return_feed (x : PyStr) : lineBreaks (cp '\r' :: cp '\n' :: x) = lineBreaks x + 1 := by
  have hfeed : lineBreaks (cp '\n' :: x) = lineBreaks x + 1 :=
    lineBreaks_cons_of_break (by decide) fun h => absurd h (by decide)
  rw [lineBreaks_cons, hfeed]
  rfl

theorem lineBreaks_append_of_not {y : PyStr} (hy : ∀ c ∈ y, isLineBreak c = false) (x : PyStr) :
    lineBreaks (y ++ x) = lineBreaks x := by
  induction y with
  | nil => rfl
  | cons c y ih =>
    obtain ⟨hc, hy⟩ := List.forall_mem_cons.mp hy
    rw [List.cons_append, lineBreaks_cons_of_not hc, ih hy]

theorem lineBreaks_of_not {y : PyStr} (hy : ∀ c ∈ y, isLineBreak c = false) : lineBreaks y = 0 := by
  have happend := lineBreaks_append_of_not hy []
  rw [List.append_nil] at happend
  exact happend

/-- Behind a break there is at least one. -/
theorem lineBreaks_cons_pos {c : CodePoint} (hc : isLineBreak c = true) (x : PyStr) :
    0 < lineBreaks (c :: x) := by
  by_cases h : c = cp '\r' → x.head? ≠ some (cp '\n')
  · rw [lineBreaks_cons_of_break hc h]
    exact Nat.succ_pos _
  · rw [Classical.not_imp, not_not] at h
    obtain ⟨rfl, hhead⟩ := h
    obtain ⟨rest, rfl⟩ := List.head?_eq_some_iff.mp hhead
    rw [lineBreaks_return_feed]
    exact Nat.succ_pos _

section Mark

variable {w : PyStr} (hne : w ≠ []) (hw : ∀ c ∈ w, isLineBreak c = false)

/-- `w` stands in the text behind `k` line breaks. -/
def BehindBreaks (w text : PyStr) (k : Nat) : Prop := ∃ u v, text = u ++ (w ++ v) ∧ lineBreaks u = k

include hw in
theorem not_mem_of_isLineBreak {c : CodePoint} (hc : isLineBreak c = true) : c ∉ w := fun hmem => by
  rw [hw c hmem] at hc
  cases hc

include hw in
/-- A first line, the break that ends it, and the rest. -/
theorem behindBreaks_line {line rest : PyStr} {c : CodePoint} (hline : ∀ d ∈ line, isLineBreak d = false)
    (hc : isLineBreak c = true) {k : Nat} :
    BehindBreaks w (line ++ c :: rest) k ↔ (k = 0 ∧ w <:+: line) ∨
      (k ≠ 0 ∧ ∃ u v, rest = u ++ (w ++ v) ∧ lineBreaks (c :: u) = k) := by
  constructor
  · rintro ⟨u, v, h, rfl⟩
    rcases split_append_cons (not_mem_of_isLineBreak hw hc) h with ⟨d, rfl⟩ | ⟨d, rfl, hrest⟩
    · exact Or.inl ⟨lineBreaks_of_not fun d hd => hline d (List.mem_append_left _ hd), u, d, by simp⟩
    · rw [lineBreaks_append_of_not hline]
      exact Or.inr ⟨(lineBreaks_cons_pos hc d).ne', d, v, hrest, rfl⟩
  · rintro (⟨rfl, u, d, rfl⟩ | ⟨-, u, v, rfl, rfl⟩)
    · refine ⟨u, d ++ c :: rest, by simp, lineBreaks_of_not fun d hd => hline d ?_⟩
      exact List.mem_append_left _ (List.mem_append_left _ hd)
    · exact ⟨line ++ c :: u, v, by simp, lineBreaks_append_of_not hline _⟩

include hne hw in
/-- **The lines of `splitlines`**, while a line is read and behind a carriage return: what an entry has is
what stands behind as many breaks as entries stand before it. -/
theorem infix_splitlinesAux (x : PyStr) :
    (∀ cur k, (∀ c ∈ cur, isLineBreak c = false) →
      (w <:+: (splitlinesAux false cur x).getD k [] ↔ BehindBreaks w (cur.reverse ++ x) k)) ∧
    ∀ k, w <:+: (splitlinesAux true [] x).getD k [] ↔
      ∃ u v, x = u ++ (w ++ v) ∧ lineBreaks (cp '\r' :: u) = k + 1 := by
  induction x with
  | nil =>
    refine ⟨fun cur k hcur => ?_, fun k => ?_⟩
    · have hentry : (splitlinesAux false cur []).getD k [] = if k = 0 then cur.reverse else [] := by
        cases cur with
        | nil => simp [splitlinesAux]
        | cons c cur => cases k <;> simp [splitlinesAux]
      rw [hentry, List.append_nil]
      constructor
      · intro h
        split at h
        · rename_i hk
          obtain ⟨u, v, hcut⟩ := h
          rw [List.append_assoc] at hcut
          refine ⟨u, v, hcut.symm, (lineBreaks_of_not fun d hd => hcur d ?_).trans hk.symm⟩
          exact List.mem_reverse.mp (hcut ▸ List.mem_append_left _ hd)
        · exact absurd (List.infix_nil.mp h) hne
      · rintro ⟨u, v, hcut, rfl⟩
        have hu : lineBreaks u = 0 := lineBreaks_of_not fun d hd =>
          hcur d (List.mem_reverse.mp (hcut ▸ List.mem_append_left _ hd))
        rw [if_pos hu]
        exact ⟨u, v, by rw [hcut, List.append_assoc]⟩
    · refine iff_of_false (fun h => hne (List.infix_nil.mp h)) ?_
      rintro ⟨u, v, hcut, -⟩
      exact hne (List.append_eq_nil_iff.mp (List.append_eq_nil_iff.mp hcut.symm).2).1
  | cons c x ih =>
    obtain ⟨ihline, ihreturn⟩ := ih
    have hfirst : ∀ cur k, (∀ c ∈ cur, isLineBreak c = false) →
        (w <:+: (splitlinesAux false cur (c :: x)).getD k [] ↔
          BehindBreaks w (cur.reverse ++ c :: x) k) := by
      intro cur k hcur
      simp only [splitlinesAux, Bool.false_and, Bool.false_eq_true, if_false]
      cases hc : isLineBreak c with
      | false =>
        rw [if_neg Bool.false_ne_true, ihline (c :: cur) k (List.forall_mem_cons.mpr ⟨hc, hcur⟩)]
        simp
      | true =>
        have hline : ∀ d ∈ cur.reverse, isLineBreak d = false := fun d hd => hcur d (List.mem_reverse.mp hd)
        rw [if_pos rfl, behindBreaks_line hw hline hc]
        cases k with
        | zero => simp
        | succ k =>
          rw [List.getD_cons_succ, val_return_iff]
          by_cases hreturn : c = cp '\r'
          · subst hreturn
            rw [beq_self_eq_true, ihreturn k]
            simp
          · rw [beq_eq_false_iff_ne.mpr hreturn, ihline [] k (List.forall_mem_nil _)]
            have hnext : ∀ u, lineBreaks (c :: u) = lineBreaks u + 1 := fun u =>
              lineBreaks_cons_of_break hc fun h => absurd h hreturn
            simp [BehindBreaks, hnext]
    refine ⟨hfirst, fun k => ?_⟩
    by_cases hfeed : c = cp '\n'
    · -- the line feed belongs to the carriage return
      subst hfeed
      have hskip : splitlinesAux true [] (cp '\n' :: x) = splitlinesAux false [] x := rfl
      rw [hskip, ihline [] k (List.forall_mem_nil _)]
      constructor
      · rintro ⟨u, v, rfl, rfl⟩
        exact ⟨cp '\n' :: u, v, rfl, lineBreaks_return_feed u⟩
      · rintro ⟨u, v, hcut, hk⟩
        rcases split_append_cons (not_mem_of_isLineBreak hw (by decide : isLineBreak (cp '\n') = true))
          (show [] ++ cp '\n' :: x = u ++ (w ++ v) from hcut) with ⟨d, hd⟩ | ⟨d, rfl, hd⟩
        · exact absurd (List.append_eq_nil_iff.mp (List.append_eq_nil_iff.mp hd.symm).2).1 hne
        · rw [List.nil_append, lineBreaks_return_feed] at hk
          exact ⟨d, v, hd, Nat.succ.inj hk⟩
    · have hstart : splitlinesAux true [] (c :: x) = splitlinesAux false [] (c :: x) := by
        simp [splitlinesAux, val_feed_iff, hfeed]
      rw [hstart, hfirst [] k (List.forall_mem_nil _)]
      refine exists_congr fun u => exists_congr fun v => and_congr_right fun hcut => ?_
      rw [lineBreaks_cons_of_break (by decide), Nat.add_right_cancel_iff]
      rintro - hhead
      obtain ⟨rest, rfl⟩ := List.head?_eq_some_iff.mp hhead
      exact hfeed (List.cons.inj hcut).1

end Mark

theorem markerBehind_congr {text : PyStr} {p q : PyStr → Prop} (h : ∀ u, p u ↔ q u) :
    MarkerBehind text p ↔ MarkerBehind text q :=
  exists_congr fun u => exists_congr fun _ => and_congr_right fun _ => h u

theorem markerBehind_or {text : PyStr} {p q : PyStr → Prop} :
    (MarkerBehind text fun u => p u ∨ q u) ↔ MarkerBehind text p ∨ MarkerBehind text q := by
  simp only [MarkerBehind, and_or_left, exists_or]

theorem isLineBreak_of_mem_marker : ∀ c ∈ ALLOW_MARKER, isLineBreak c = false := by decide

theorem marker_ne_nil : ALLOW_MARKER ≠ [] := by decide

theorem feed_not_mem_marker : cp '\n' ∉ ALLOW_MARKER :=
  not_mem_of_isLineBreak isLineBreak_of_mem_marker (by decide)

/-- **The line that is looked up has the marker** exactly if a marker stands behind as many line breaks as
line feeds stand before the position. -/
theorem infix_lookupLine_iff (text : PyStr) (k : Nat) :
    ALLOW_MARKER <:+: lookupLine text (k + 1) ↔ MarkerBehind text fun u => lineBreaks u = k :=
  (infix_splitlinesAux marker_ne_nil isLineBreak_of_mem_marker text).1 [] k (List.forall_mem_nil _)

/-- A break counts whatever follows it, unless it is a carriage return and a line feed follows. -/
theorem otherBreaks_le_append {c : CodePoint} (hc : c ≠ cp '\n') (u v : PyStr) :
    otherBreaks u ≤ otherBreaks (u ++ c :: v) := by
  induction u with
  | nil => exact Nat.zero_le _
  | cons d u ih =>
    have hhead : (u ++ c :: v).head? = some (cp '\n') ↔ u.head? = some (cp '\n') := by
      cases u with
      | nil => simpa using hc
      | cons e u => exact Iff.rfl
    rw [List.cons_append, otherBreaks, otherBreaks, Bool.eq_iff_iff.mpr (by simpa using hhead :
      ((u ++ c :: v).head? == some (cp '\n')) = true ↔ (u.head? == some (cp '\n')) = true)]
    exact Nat.add_le_add_right ih _

/-! ## What becomes of a match -/

/-- What `scan_text` does with one match of a rule. -/
def report (text path : PyStr) (rule : Rule) (m : Cursor CodePoint × Cursor CodePoint) :
    Option Finding :=
  if allowed text m.1.before then none
  else some ⟨path, lineNumber m.1.before, rule.ruleId, rule.note⟩

theorem scanText_eq_report [PyRuntime] (text path : PyStr) :
    scanText text path =
      RULES.flatMap fun rule => (finditer rule.pattern text).filterMap (report text path rule) := rfl

/-- When a marker silences the match at position `i` as it should: a marker on its line has no other break
before it; or a marker on its line has, and a marker of an earlier line stands behind as many breaks as the
match behind line feeds; or neither line has such a marker. -/
def MarkersAgree (text : PyStr) (i : Nat) : Prop :=
  (MarkerBehind text fun u => u.count (cp '\n') = (text.take i).count (cp '\n') ∧ otherBreaks u = 0) ∨
  ((MarkerBehind text fun u => u.count (cp '\n') = (text.take i).count (cp '\n') ∧ 0 < otherBreaks u) ↔
    MarkerBehind text fun u => u.count (cp '\n') < (text.take i).count (cp '\n') ∧
      u.count (cp '\n') + otherBreaks u = (text.take i).count (cp '\n'))

/-- The marker stands behind `k` breaks and behind `k` line feeds alike exactly if the markers agree. -/
theorem markersAgree_iff (text : PyStr) (i : Nat) :
    ((MarkerBehind text fun u => lineBreaks u = (text.take i).count (cp '\n')) ↔
      MarkerBehind text fun u => u.count (cp '\n') = (text.take i).count (cp '\n')) ↔
    MarkersAgree text i := by
  unfold MarkersAgree
  generalize (text.take i).count (cp '\n') = k
  have hbreaks : (MarkerBehind text fun u => lineBreaks u = k) ↔
      (MarkerBehind text fun u => u.count (cp '\n') = k ∧ otherBreaks u = 0) ∨
      MarkerBehind text fun u => u.count (cp '\n') < k ∧ u.count (cp '\n') + otherBreaks u = k := by
    rw [← markerBehind_or]
    exact markerBehind_congr fun u => by unfold lineBreaks; omega
  have hfeeds : (MarkerBehind text fun u => u.count (cp '\n') = k) ↔
      (MarkerBehind text fun u => u.count (cp '\n') = k ∧ otherBreaks u = 0) ∨
      MarkerBehind text fun u => u.count (cp '\n') = k ∧ 0 < otherBreaks u := by
    rw [← markerBehind_or]
    exact markerBehind_congr fun u => by omega
  rw [hbreaks, hfeeds]
  tauto

/-- Where no other break stands up to the end of the line of the match, all is well. -/
theorem markersAgree_of_no_other {text : PyStr} {i : Nat}
    (h : otherBreaks (earlierLines text i ++ newlineLine text i ++ [cp '\n']) = 0) :
    MarkersAgree text i := by
  -- a marker up to the line has no other break before it
  have hnone : ∀ u v, text = u ++ (ALLOW_MARKER ++ v) →
      u.count (cp '\n') ≤ (text.take i).count (cp '\n') → otherBreaks u = 0 := by
    intro u v hcut hcount
    obtain ⟨d, hd⟩ := split_laterLines feed_not_mem_marker hcut hcount
    obtain ⟨c, rest, hmarker⟩ := List.exists_cons_of_ne_nil marker_ne_nil
    have hc : c ≠ cp '\n' := fun hc => feed_not_mem_marker (by rw [hmarker, hc]; exact List.mem_cons_self)
    have hle := otherBreaks_le_append hc u (rest ++ (d ++ [cp '\n']))
    rw [hd, hmarker] at h
    rw [show u ++ c :: (rest ++ (d ++ [cp '\n'])) = u ++ (c :: rest ++ d) ++ [cp '\n'] by simp, h] at hle
    exact Nat.le_zero.mp hle
  refine Or.inr (iff_of_false ?_ ?_)
  · rintro ⟨u, v, hcut, hcount, hother⟩
    exact absurd (hnone u v hcut hcount.le) hother.ne'
  · rintro ⟨u, v, hcut, hcount, hsum⟩
    have hzero := hnone u v hcut hcount.le
    omega

/-- **A marker silences its own line**: a match of a rule is omitted exactly if a marker stands behind as
many line breaks of any kind as line feeds stand before the match. So the finding is omitted exactly if the
newline-delimited line it starts on has the marker, if and only if the markers agree; they do where no
other break stands up to the end of that line. A reported finding has the number of its newline-delimited
line. -/
theorem scanText_marker_iff [PyRuntime] (text path : PyStr) :
    scanText text path =
      (RULES.flatMap fun rule => (finditer rule.pattern text).filterMap (report text path rule)) ∧
    ∀ rule ∈ RULES, ∀ m ∈ finditer rule.pattern text,
      ((report text path rule m = none ↔ ALLOW_MARKER <:+: newlineLine text m.1.before.length) ↔
        MarkersAgree text m.1.before.length) ∧
      (report text path rule m = none ↔
        MarkerBehind text fun u => lineBreaks u = (text.take m.1.before.length).count (cp '\n')) ∧
      (otherBreaks (earlierLines text m.1.before.length ++ newlineLine text m.1.before.length ++ [cp '\n']) = 0 →
        (report text path rule m = none ↔ ALLOW_MARKER <:+: newlineLine text m.1.before.length)) ∧
      ∀ f, report text path rule m = some f →
        f.line = (text.take m.1.before.length).count (cp '\n') + 1 := by
  refine ⟨scanText_eq_report text path, fun rule _ m hm => ?_⟩
  obtain ⟨-, htext⟩ := finditerAux_sound hm
  replace htext : m.1.before.reverse ++ m.1.after = text := htext
  generalize hi : m.1.before.length = i
  have htake : text.take i = m.1.before.reverse := by
    rw [← htext, ← hi, ← List.length_reverse, List.take_left']
    rfl
  have hnumber : lineNumber m.1.before = (text.take i).count (cp '\n') + 1 := by
    rw [htake, List.count_reverse]
    rfl
  have hnone : report text path rule m = none ↔
      MarkerBehind text fun u => lineBreaks u = (text.take i).count (cp '\n') := by
    rw [← infix_lookupLine_iff, report, allowed, hnumber]
    split
    · rename_i h
      exact iff_of_true rfl (of_decide_eq_true h)
    · rename_i h
      exact iff_of_false nofun fun hin => h (decide_eq_true hin)
  have hagree : (report text path rule m = none ↔ ALLOW_MARKER <:+: newlineLine text i) ↔
      MarkersAgree text i := by
    rw [hnone, infix_newlineLine_iff feed_not_mem_marker]
    exact markersAgree_iff text i
  refine ⟨hagree, hnone, fun h => hagree.mpr (markersAgree_of_no_other h), fun f hf => ?_⟩
  unfold report at hf
  split at hf
  · cases hf
  · cases hf
    exact hnumber

/-! ## A marker on another line -/

section Samples

attribute [local instance] asciiRuntime

/-- A vertical tab, the marker, a line feed, and a key. -/
def silencedText : PyStr := py "\x0bflopoffice:allow-secret-pattern\nAKIA0123456789ABCDEF"

/-- **A marker that silences the next line.** The key stands on the second line, the marker on the first;
`splitlines` counts the vertical tab too, and the line it has under that number is the marker's. -/
theorem marker_silences_next_line :
    ∃ rule ∈ RULES, ∃ m ∈ finditer rule.pattern silencedText,
      report silencedText (py "a.py") rule m = none ∧
      ¬ ALLOW_MARKER <:+: newlineLine silencedText m.1.before.length := by
  refine ⟨⟨py "apikey.aws", apikeyAws, py "AWS access key id"⟩, ?_,
    (Cursor.advance ⟨[], silencedText⟩ 33, Cursor.advance ⟨[], silencedText⟩ 53), ?_, ?_, ?_⟩
  · iterate 8 refine List.mem_cons_of_mem _ ?_
    exact List.mem_cons_self
  · decide
  · decide
  · decide

end Samples

end FlopOffice.Tools
