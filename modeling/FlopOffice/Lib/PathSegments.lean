/-
# FlopOffice.Lib.PathSegments — the segments of a hierarchical path, and dot-segment removal.

A path is a word over letters of which one separates segments. `removeDotSegments` is RFC 3986, 5.2.4,
on the segments after the leading separator: a segment of one dot is dropped, a segment of two dots
takes the segment before it along, and either leaves an empty segment where it was the last one. What
it returns has no dot segments, so the paths it leaves alone are those without
(`removeDotSegments_eq_self_iff`).
-/
import Mathlib.Data.List.Basic
import Mathlib.Tactic.Common

namespace FlopOffice.Lib

variable {γ : Type} [DecidableEq γ]

/-! ## Dot segments -/

/-- One dot, or two. -/
def IsDotSegment (dot : γ) (seg : List γ) : Prop := seg = [dot] ∨ seg = [dot, dot]

instance (dot : γ) (seg : List γ) : Decidable (IsDotSegment dot seg) :=
  inferInstanceAs (Decidable (_ ∨ _))

/-- The input buffer, segment by segment; `out` is the output buffer, its last segment first. -/
def dropDotSegments (dot : γ) (out : List (List γ)) : List (List γ) → List (List γ)
  | [] => out.reverse
  | [seg] =>
    if seg = [dot] then ([] :: out).reverse
    else if seg = [dot, dot] then ([] :: out.tail).reverse
    else (seg :: out).reverse
  | seg :: next :: rest =>
    if seg = [dot] then dropDotSegments dot out (next :: rest)
    else if seg = [dot, dot] then dropDotSegments dot out.tail (next :: rest)
    else dropDotSegments dot (seg :: out) (next :: rest)

/-- RFC 3986, 5.2.4, of a path that starts with a separator. -/
def removeDotSegments (sep dot : γ) (path : List γ) : List γ :=
  [sep].intercalate ([] :: dropDotSegments dot [] (path.splitOn sep).tail)

/-! ## What is left -/

omit [DecidableEq γ] in
theorem not_isDotSegment_nil (dot : γ) : ¬ IsDotSegment dot [] := by
  rintro (h | h)
  · cases h
  · cases h

/-- Nothing that is left is a dot segment. -/
theorem not_isDotSegment_of_mem_drop {dot : γ} {segs out : List (List γ)}
    (hout : ∀ seg ∈ out, ¬ IsDotSegment dot seg) :
    ∀ seg ∈ dropDotSegments dot out segs, ¬ IsDotSegment dot seg := by
  have hempty := not_isDotSegment_nil dot
  have htail : ∀ seg ∈ out.tail, ¬ IsDotSegment dot seg := fun s hs => hout s (List.mem_of_mem_tail hs)
  induction segs generalizing out with
  | nil => simpa [dropDotSegments] using hout
  | cons seg segs ih =>
    have hkept : ¬ seg = [dot] → ¬ seg = [dot, dot] → ∀ s ∈ seg :: out, ¬ IsDotSegment dot s := by
      intro h₁ h₂ s hs
      rcases List.mem_cons.mp hs with rfl | hs
      · exact not_or.mpr ⟨h₁, h₂⟩
      · exact hout s hs
    cases segs with
    | nil =>
      unfold dropDotSegments
      intro s hs
      split at hs
      · rcases List.mem_cons.mp (List.mem_reverse.mp hs) with rfl | hs
        · exact hempty
        · exact hout s hs
      split at hs
      · rcases List.mem_cons.mp (List.mem_reverse.mp hs) with rfl | hs
        · exact hempty
        · exact htail s hs
      · rename_i h₁ h₂
        exact hkept h₁ h₂ s (List.mem_reverse.mp hs)
    | cons next rest =>
      unfold dropDotSegments
      split
      · exact ih hout htail
      split
      · exact ih htail fun s hs => htail s (List.mem_of_mem_tail hs)
      · rename_i h₁ h₂
        exact ih (hkept h₁ h₂) hout

/-- Segments that are no dots all stay. -/
theorem dropDotSegments_of_not_dot {dot : γ} {segs out : List (List γ)}
    (hsegs : ∀ seg ∈ segs, ¬ IsDotSegment dot seg) :
    dropDotSegments dot out segs = out.reverse ++ segs := by
  induction segs generalizing out with
  | nil => simp [dropDotSegments]
  | cons seg segs ih =>
    obtain ⟨h₁, h₂⟩ := not_or.mp (hsegs seg List.mem_cons_self)
    have hrest : ∀ s ∈ segs, ¬ IsDotSegment dot s := fun s hs => hsegs s (List.mem_cons_of_mem _ hs)
    cases segs with
    | nil =>
      unfold dropDotSegments
      rw [if_neg h₁, if_neg h₂, List.reverse_cons]
    | cons next rest =>
      unfold dropDotSegments
      rw [if_neg h₁, if_neg h₂, ih hrest, List.reverse_cons, List.append_assoc]
      rfl

/-- What is left is made of the segments there were, and of the empty one. -/
theorem mem_of_mem_drop {dot : γ} {segs out : List (List γ)} {s : List γ}
    (h : s ∈ dropDotSegments dot out segs) : s = [] ∨ s ∈ out ∨ s ∈ segs := by
  induction segs generalizing out with
  | nil => exact Or.inr (Or.inl (by simpa [dropDotSegments] using h))
  | cons seg segs ih =>
    cases segs with
    | nil =>
      unfold dropDotSegments at h
      split at h
      · exact (List.mem_cons.mp (List.mem_reverse.mp h)).imp_right Or.inl
      split at h
      · exact (List.mem_cons.mp (List.mem_reverse.mp h)).imp_right
          fun hs => Or.inl (List.mem_of_mem_tail hs)
      · rcases List.mem_cons.mp (List.mem_reverse.mp h) with rfl | hs
        · exact Or.inr (Or.inr List.mem_cons_self)
        · exact Or.inr (Or.inl hs)
    | cons next rest =>
      unfold dropDotSegments at h
      split at h
      · exact (ih h).imp_right (Or.imp_right (List.mem_cons_of_mem _))
      split at h
      · exact (ih h).imp_right (Or.imp List.mem_of_mem_tail (List.mem_cons_of_mem _))
      · rcases ih h with hs | hs | hs
        · exact Or.inl hs
        · rcases List.mem_cons.mp hs with rfl | hs
          · exact Or.inr (Or.inr List.mem_cons_self)
          · exact Or.inr (Or.inl hs)
        · exact Or.inr (Or.inr (List.mem_cons_of_mem _ hs))

/-- **Which paths removal leaves alone**: those without dot segments. -/
theorem removeDotSegments_eq_self_iff {sep dot : γ} {segs : List (List γ)}
    (hsep : ∀ seg ∈ segs, sep ∉ seg) :
    removeDotSegments sep dot ([sep].intercalate ([] :: segs)) = [sep].intercalate ([] :: segs) ↔
      ∀ seg ∈ segs, ¬ IsDotSegment dot seg := by
  have hfree : ∀ seg ∈ [] :: segs, sep ∉ seg := by
    intro seg hs
    rcases List.mem_cons.mp hs with rfl | hs
    · exact List.not_mem_nil
    · exact hsep seg hs
  have hsplit := List.splitOn_intercalate sep hfree (List.cons_ne_nil _ _)
  unfold removeDotSegments
  rw [hsplit, List.tail_cons]
  constructor
  · intro h
    -- both sides split into their segments
    have hkept : ∀ seg ∈ [] :: dropDotSegments dot [] segs, sep ∉ seg := by
      intro seg hs
      rcases List.mem_cons.mp hs with rfl | hs
      · exact List.not_mem_nil
      · rcases mem_of_mem_drop hs with rfl | hs | hs
        · exact List.not_mem_nil
        · exact absurd hs List.not_mem_nil
        · exact hsep seg hs
    have hsame := congrArg (List.splitOn sep) h
    rw [List.splitOn_intercalate sep hkept (List.cons_ne_nil _ _), hsplit] at hsame
    rw [← List.tail_eq_of_cons_eq hsame]
    exact not_isDotSegment_of_mem_drop nofun
  · intro h
    rw [dropDotSegments_of_not_dot h]
    rfl

end FlopOffice.Lib
