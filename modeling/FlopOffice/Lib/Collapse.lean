/-
# FlopOffice.Lib.Collapse — runs of a separator made one.

Splitting a word at a separator, dropping the empty parts and joining the rest (`collapse`) leaves a
word without a separator at either end and without two in a row (`Collapsed`). Such words are left
alone (`collapse_of_collapsed`), and shortening one at its ends keeps it so (`Collapsed.of_infix`).
-/
import Mathlib.Data.List.Chain
import Mathlib.Data.List.Infix
import Mathlib.Tactic.Common

namespace FlopOffice.Lib

variable {α : Type} [DecidableEq α] {sep : α} {s : List α}

/-! ## Collapsed words -/

/-- Split at the separator, drop the empty parts, and join. -/
def collapse (sep : α) (s : List α) : List α :=
  List.intercalate [sep] ((s.splitOn sep).filter fun part => !part.isEmpty)

/-- No separator at either end, and no two in a row. -/
structure Collapsed (sep : α) (s : List α) : Prop where
  head : ∀ c ∈ s.head?, c ≠ sep
  last : ∀ c ∈ s.getLast?, c ≠ sep
  apart : s.IsChain fun a b => a = sep → b ≠ sep

omit [DecidableEq α] in
/-- A part of a collapsed word whose own ends are no separators is collapsed. -/
theorem Collapsed.of_infix {t : List α} (h : Collapsed sep s) (ht : t <:+: s)
    (hhead : ∀ c ∈ t.head?, c ≠ sep) (hlast : ∀ c ∈ t.getLast?, c ≠ sep) : Collapsed sep t :=
  ⟨hhead, hlast, h.apart.infix ht⟩

omit [DecidableEq α] in
/-- A word without the separator is collapsed. -/
theorem collapsed_of_not_mem (h : sep ∉ s) : Collapsed sep s where
  head c hc hsep := h (hsep ▸ List.mem_of_mem_head? hc)
  last c hc hsep := h (hsep ▸ List.mem_of_mem_getLast? hc)
  apart := by
    induction s with
    | nil => exact .nil
    | cons a s ih =>
      refine List.isChain_cons.mpr ⟨fun b _ ha => ?_, ih fun hm => h (List.mem_cons_of_mem _ hm)⟩
      exact absurd (ha ▸ List.mem_cons_self) h

omit [DecidableEq α] in
/-- Parts that are not empty, joined by single separators. -/
theorem collapsed_intercalate {parts : List (List α)}
    (h : ∀ part ∈ parts, part ≠ [] ∧ sep ∉ part) :
    Collapsed sep (List.intercalate [sep] parts) ∧
      (parts ≠ [] → List.intercalate [sep] parts ≠ []) := by
  induction parts with
  | nil => exact ⟨collapsed_of_not_mem (s := []) List.not_mem_nil, fun hne => absurd rfl hne⟩
  | cons part parts ih =>
    obtain ⟨hne, hsep⟩ := h part List.mem_cons_self
    have hpart : Collapsed sep part := collapsed_of_not_mem hsep
    obtain ⟨hrest, hrestne⟩ := ih fun p hp => h p (List.mem_cons_of_mem _ hp)
    cases parts with
    | nil =>
      rw [List.intercalate_singleton]
      exact ⟨hpart, fun _ => hne⟩
    | cons next parts =>
      replace hrestne := hrestne (List.cons_ne_nil _ _)
      rw [List.intercalate_cons_cons, List.append_assoc]
      refine ⟨⟨fun c hc => ?_, fun c hc => ?_, ?_⟩, fun _ => List.append_ne_nil_of_left_ne_nil hne _⟩
      · rw [List.head?_append_of_ne_nil _ hne] at hc
        exact hpart.head c hc
      · rw [← List.append_assoc, List.getLast?_append_of_ne_nil _ hrestne] at hc
        exact hrest.last c hc
      · -- the separator stands between a letter and the first letter of the next part
        refine List.isChain_append.mpr ⟨hpart.apart, ?_, fun c hc d _ heq => ?_⟩
        · exact List.isChain_cons.mpr ⟨fun d hd _ => hrest.head d hd, hrest.apart⟩
        · exact absurd heq (hpart.last c hc)

/-! ## Splitting -/

theorem not_mem_of_mem_splitOn {part : List α} (h : part ∈ s.splitOn sep) : sep ∉ part := by
  induction s generalizing part with
  | nil =>
    rw [List.splitOn_nil, List.mem_singleton] at h
    rw [h]
    exact List.not_mem_nil
  | cons c s ih =>
    rw [List.splitOn_cons_eq_if_modifyHead] at h
    split at h
    · rcases List.mem_cons.mp h with rfl | h
      · exact List.not_mem_nil
      · exact ih h
    · rename_i hc
      cases hs : s.splitOn sep with
      | nil => exact absurd hs (List.splitOn_ne_nil _ _)
      | cons first rest =>
        rw [hs, List.modifyHead_cons] at h
        rcases List.mem_cons.mp h with rfl | h
        · intro hm
          rcases List.mem_cons.mp hm with rfl | hm
          · exact hc (beq_self_eq_true _)
          · exact ih (hs ▸ List.mem_cons_self) hm
        · exact ih (hs ▸ List.mem_cons_of_mem _ h)

/-- The first part of a word that does not start with the separator is not empty. -/
theorem exists_splitOn_of_head (hne : s ≠ []) (hhead : ∀ c ∈ s.head?, c ≠ sep) :
    ∃ part rest, s.splitOn sep = part :: rest ∧ part ≠ [] := by
  cases s with
  | nil => exact absurd rfl hne
  | cons c s =>
    have hc : (c == sep) = false := beq_eq_false_iff_ne.mpr (hhead c rfl)
    rw [List.splitOn_cons_eq_if_modifyHead, if_neg (by rw [hc]; exact Bool.false_ne_true)]
    cases hs : s.splitOn sep with
    | nil => exact absurd hs (List.splitOn_ne_nil _ _)
    | cons first rest => exact ⟨c :: first, rest, rfl, List.cons_ne_nil _ _⟩

/-- Without separators in a row or at the end, only the first part can be empty. -/
theorem ne_nil_of_mem_tail_splitOn (hlast : ∀ c ∈ s.getLast?, c ≠ sep)
    (hapart : s.IsChain fun a b => a = sep → b ≠ sep) :
    ∀ part ∈ (s.splitOn sep).tail, part ≠ [] := by
  induction s with
  | nil =>
    intro part h
    rw [List.splitOn_nil] at h
    exact absurd h List.not_mem_nil
  | cons c s ih =>
    obtain ⟨hnext, hapart⟩ := List.isChain_cons.mp hapart
    have hrest : s ≠ [] → ∀ d ∈ s.getLast?, d ≠ sep := fun hs d hd =>
      hlast d (by rw [List.getLast?_cons_of_ne_nil hs]; exact hd)
    rw [List.splitOn_cons_eq_if_modifyHead]
    split
    · rename_i hc
      have hc : c = sep := beq_iff_eq.mp hc
      have hs : s ≠ [] := fun hs => hlast c (by rw [hs]; rfl) hc
      obtain ⟨part, rest, heq, hpart⟩ := exists_splitOn_of_head hs fun d hd => hnext d hd hc
      have htail := ih (hrest hs) hapart
      rw [List.tail_cons, heq]
      rw [heq] at htail
      exact List.forall_mem_cons.mpr ⟨hpart, htail⟩
    · by_cases hs : s = []
      · subst hs
        exact fun part h => absurd h List.not_mem_nil
      · have htail := ih (hrest hs) hapart
        cases heq : s.splitOn sep with
        | nil => exact absurd heq (List.splitOn_ne_nil _ _)
        | cons first rest =>
          rw [heq] at htail
          exact htail

/-! ## The operation -/

theorem collapsed_collapse (sep : α) (s : List α) : Collapsed sep (collapse sep s) := by
  refine (collapsed_intercalate fun part hpart => ?_).1
  obtain ⟨hmem, hne⟩ := List.mem_filter.mp hpart
  refine ⟨fun h => ?_, not_mem_of_mem_splitOn hmem⟩
  rw [h] at hne
  cases hne

/-- Collapsed words are left alone. -/
theorem collapse_of_collapsed (h : Collapsed sep s) : collapse sep s = s := by
  by_cases hs : s = []
  · rw [hs, collapse, List.splitOn_nil]
    rfl
  · obtain ⟨part, rest, heq, hpart⟩ := exists_splitOn_of_head hs h.head
    have htail := ne_nil_of_mem_tail_splitOn h.last h.apart
    rw [heq] at htail
    have hall : ∀ p ∈ s.splitOn sep, (!p.isEmpty) = true := by
      intro p hp
      rw [Bool.not_eq_true', List.isEmpty_eq_false_iff]
      rw [heq] at hp
      rcases List.mem_cons.mp hp with rfl | hp
      · exact hpart
      · exact htail p hp
    rw [collapse, List.filter_eq_self.mpr hall, List.intercalate_splitOn]

omit [DecidableEq α] in
theorem mem_intercalate_iff {parts : List (List α)} {c : α} (hc : c ≠ sep) :
    c ∈ List.intercalate [sep] parts ↔ ∃ part ∈ parts, c ∈ part := by
  induction parts with
  | nil => exact iff_of_false List.not_mem_nil fun ⟨_, h, _⟩ => List.not_mem_nil h
  | cons part parts ih =>
    rw [List.exists_mem_cons_iff, ← ih]
    cases parts with
    | nil =>
      rw [List.intercalate_singleton]
      exact (or_iff_left List.not_mem_nil).symm
    | cons next parts =>
      rw [List.intercalate_cons_cons, List.mem_append, List.mem_append, List.mem_singleton,
        or_iff_left hc]

/-- Collapsing brings in no letter but the separator. -/
theorem mem_of_mem_collapse {c : α} (h : c ∈ collapse sep s) : c ∈ s ∨ c = sep := by
  by_cases hc : c = sep
  · exact Or.inr hc
  · obtain ⟨part, hpart, hmem⟩ := (mem_intercalate_iff hc).mp h
    refine Or.inl ?_
    have hjoin : List.intercalate [sep] (s.splitOn sep) = s := List.intercalate_splitOn sep
    rw [← hjoin]
    exact (mem_intercalate_iff hc).mpr ⟨part, List.mem_of_mem_filter hpart, hmem⟩

end FlopOffice.Lib
