/-
# FlopOffice.Lib.Delimiter — where a mark can stand in a text.

A mark `w` in a text that is put together from parts: a letter that `w` does not contain keeps the
parts on its two sides apart (`split_append_cons`), a part without the last letter of `w` cannot
end it (`infix_of_append`), and a text in which the next mark is the first one is cut there in one
way only (`cut_unique`).
-/
import Mathlib.Data.List.Infix
import Mathlib.Tactic.Common

namespace FlopOffice.Lib

variable {γ : Type}

/-! ## Marks and separators -/

/-- **Where a mark stands** in a text with a letter it does not contain: before the letter, or behind it. -/
theorem split_append_cons {w x y p q : List γ} {c : γ} (hc : c ∉ w) (h : x ++ c :: y = p ++ (w ++ q)) :
    (∃ d, x = p ++ (w ++ d)) ∨ ∃ d, p = x ++ c :: d ∧ y = d ++ (w ++ q) := by
  rcases List.append_eq_append_iff.mp h.symm with ⟨d, hx, hd⟩ | ⟨d, hp, hd⟩
  · rcases List.append_eq_append_iff.mp hd with ⟨d', hd', -⟩ | ⟨d', hw, hq⟩
    · -- the mark ends before the letter
      exact Or.inl ⟨d', by rw [hx, hd']⟩
    · -- the mark reaches the letter, which would then be one of its own
      cases d' with
      | nil => exact Or.inl ⟨[], by rw [hx, hw, List.append_nil, List.append_nil]⟩
      | cons a d' =>
        obtain ⟨rfl, -⟩ := List.cons.inj hq
        exact absurd (hw ▸ List.mem_append_right _ List.mem_cons_self) hc
  · cases d with
    | nil =>
      cases w with
      | nil => exact Or.inl ⟨[], by rw [hp]; simp⟩
      | cons a w =>
        obtain ⟨rfl, -⟩ := List.cons.inj hd
        exact absurd List.mem_cons_self hc
    | cons a d =>
      obtain ⟨rfl, hy⟩ := List.cons.inj hd
      exact Or.inr ⟨d, hp, hy⟩

/-- A letter outside the mark separates: the mark stands on one side of it. -/
theorem infix_append_cons_iff {w x y : List γ} {c : γ} (hc : c ∉ w) :
    w <:+: x ++ c :: y ↔ w <:+: x ∨ w <:+: y := by
  constructor
  · rintro ⟨p, q, h⟩
    rw [List.append_assoc] at h
    rcases split_append_cons hc h.symm with ⟨d, hx⟩ | ⟨d, -, hy⟩
    · exact Or.inl ⟨p, d, by rw [hx, List.append_assoc]⟩
    · exact Or.inr ⟨d, q, by rw [hy, List.append_assoc]⟩
  · rintro (h | h)
    · exact h.trans (List.prefix_append _ _).isInfix
    · exact h.trans ((List.suffix_cons _ _).isInfix.trans (List.suffix_append _ _).isInfix)

/-- A mark that ends in a letter the second part does not have stands in the first. -/
theorem infix_of_append {w x y : List γ} {c : γ} (hc : c ∉ y) (h : w ++ [c] <:+: x ++ y) :
    w ++ [c] <:+: x := by
  obtain ⟨p, q, h⟩ := h
  replace h : (p ++ w) ++ c :: q = x ++ y := by rw [← h]; simp
  rcases List.append_eq_append_iff.mp h with ⟨d, hx, hd⟩ | ⟨d, -, hd⟩
  · cases d with
    | nil =>
      rw [List.nil_append] at hd
      exact absurd (show c ∈ y from hd ▸ List.mem_cons_self) hc
    | cons a d =>
      obtain ⟨rfl, -⟩ := List.cons.inj hd
      exact ⟨p, d, by rw [hx]; simp⟩
  · exact absurd (show c ∈ y from hd ▸ List.mem_append_right _ List.mem_cons_self) hc

/-- A mark whose first letter does not come again in it meets another one in front of itself only. -/
theorem eq_append_of_mark {w' d u v : List γ} {c : γ} (hc : c ∉ w') (hd : d ≠ [])
    (h : (c :: w') ++ u = d ++ ((c :: w') ++ v)) : ∃ e, d = (c :: w') ++ e ∧ u = e ++ ((c :: w') ++ v) := by
  obtain ⟨a, d', rfl⟩ := List.exists_cons_of_ne_nil hd
  obtain ⟨rfl, hrest⟩ := List.cons.inj h
  rcases List.append_eq_append_iff.mp hrest with ⟨e, hd', hu⟩ | ⟨e, hw, hv⟩
  · exact ⟨e, by rw [hd', List.cons_append], hu⟩
  · -- the second mark would start inside the first
    cases e with
    | nil =>
      rw [List.append_nil] at hw
      exact ⟨[], by rw [hw, List.append_nil], by rw [List.nil_append]; exact hv.symm⟩
    | cons b e =>
      obtain ⟨rfl, -⟩ := List.cons.inj hv
      exact absurd (hw ▸ List.mem_append_right _ List.mem_cons_self) hc

/-- **Two places of a mark** whose first letter does not come again in it: they are one, or the mark stands
whole on one side of the other. -/
theorem cut_cases {w' x y u v : List γ} {c : γ} (hc : c ∉ w')
    (h : x ++ ((c :: w') ++ u) = y ++ ((c :: w') ++ v)) :
    (x = y ∧ u = v) ∨ (∃ d, y = x ++ ((c :: w') ++ d) ∧ u = d ++ ((c :: w') ++ v)) ∨
      ∃ d, x = y ++ ((c :: w') ++ d) ∧ v = d ++ ((c :: w') ++ u) := by
  rcases List.append_eq_append_iff.mp h with ⟨d, rfl, hd⟩ | ⟨d, rfl, hd⟩
  · by_cases hnil : d = []
    · subst hnil
      exact Or.inl ⟨(List.append_nil x).symm, List.append_cancel_left hd⟩
    · obtain ⟨e, rfl, hu⟩ := eq_append_of_mark hc hnil hd
      exact Or.inr (Or.inl ⟨e, rfl, hu⟩)
  · by_cases hnil : d = []
    · subst hnil
      exact Or.inl ⟨List.append_nil y, (List.append_cancel_left hd).symm⟩
    · obtain ⟨e, rfl, hv⟩ := eq_append_of_mark hc hnil hd
      exact Or.inr (Or.inr ⟨e, rfl, hv⟩)

/-! ## The first mark -/

/-- **A text is cut at its first mark in one way.** `¬ w <:+: x ++ w.dropLast` says that the mark
after `x` is the first one. -/
theorem cut_unique {w x y u v : List γ} (hx : ¬ w <:+: x ++ w.dropLast)
    (hy : ¬ w <:+: y ++ w.dropLast) (h : x ++ (w ++ u) = y ++ (w ++ v)) : x = y ∧ u = v := by
  have hw : w ≠ [] := fun h0 => hx (h0 ▸ List.nil_infix)
  -- an earlier mark would be a mark in front of the other cut
  have key : ∀ {x y u v : List γ} {d : List γ}, ¬ w <:+: y ++ w.dropLast → y = x ++ d →
      w ++ u = d ++ (w ++ v) → d = [] := by
    intro x y u v d hy hd hwu
    by_contra hne
    apply hy
    have hpos : 0 < d.length := List.length_pos_of_ne_nil hne
    have hlen : w.length ≤ (d ++ w.dropLast).length := by
      rw [List.length_append, List.length_dropLast]
      omega
    have hsplit : w ++ v = w.dropLast ++ (w.getLast hw :: v) := by
      rw [← List.singleton_append, ← List.append_assoc, List.dropLast_append_getLast]
    have hpre : w <+: d ++ w.dropLast := by
      have hwhole : w <+: w ++ u := List.prefix_append _ _
      apply List.prefix_of_prefix_length_le hwhole _ hlen
      rw [hwu, hsplit, ← List.append_assoc]
      exact List.prefix_append _ _
    rw [hd, List.append_assoc]
    exact hpre.isInfix.trans (List.suffix_append _ _).isInfix
  rcases List.append_eq_append_iff.mp h with ⟨d, hd, hwu⟩ | ⟨d, hd, hwu⟩
  · obtain rfl := key hy hd hwu
    exact ⟨by rw [hd, List.append_nil], List.append_cancel_left hwu⟩
  · obtain rfl := key hx hd hwu
    exact ⟨by rw [hd, List.append_nil], (List.append_cancel_left hwu).symm⟩

/-- **A text is cut at its last mark in one way**: no mark starts behind the first letter of this one. -/
theorem cut_unique_last {w x y u v : List γ} (hu : ¬ w <:+: w.tail ++ u) (hv : ¬ w <:+: w.tail ++ v)
    (h : x ++ (w ++ u) = y ++ (w ++ v)) : x = y ∧ u = v := by
  -- read from the right, the last mark is the first
  have hlast : ∀ {t : List γ}, ¬ w <:+: w.tail ++ t →
      ¬ w.reverse <:+: t.reverse ++ w.reverse.dropLast := by
    intro t ht hinf
    apply ht
    rw [List.dropLast_reverse, ← List.reverse_append] at hinf
    exact List.reverse_infix.mp hinf
  have hreverse := congrArg List.reverse h
  simp only [List.reverse_append, List.append_assoc] at hreverse
  obtain ⟨huv, hxy⟩ := cut_unique (hlast hu) (hlast hv) hreverse
  exact ⟨List.reverse_injective hxy, List.reverse_injective huv⟩

/-- A mark stands in a text at the very end only exactly if it does not stand in the rest of it. -/
theorem only_at_end_iff {w s : List γ} (hs : s ≠ []) :
    (∀ pre post, s = pre ++ (w ++ post) → post = []) ↔ ¬ w <:+: s.dropLast := by
  constructor
  · rintro h ⟨p, q, hpq⟩
    have hcut : p ++ (w ++ (q ++ [s.getLast hs])) = s := by
      rw [← List.append_assoc, ← List.append_assoc, hpq]
      exact List.dropLast_append_getLast hs
    exact absurd (h _ _ hcut.symm) (by simp)
  · intro h pre post hcut
    by_contra hne
    apply h
    rw [hcut, ← List.append_assoc, List.dropLast_append_of_ne_nil hne]
    exact ⟨pre, post.dropLast, rfl⟩

theorem mem_intercalate {sep : List γ} {c : γ} {xs : List (List γ)} (h : c ∈ List.intercalate sep xs) :
    c ∈ sep ∨ ∃ x ∈ xs, c ∈ x := by
  induction xs with
  | nil => simp at h
  | cons x xs ih =>
    cases xs with
    | nil => exact Or.inr ⟨x, List.mem_cons_self, by simpa using h⟩
    | cons y ys =>
      rw [List.intercalate_cons_cons, List.mem_append, List.mem_append] at h
      rcases h with (h | h) | h
      · exact Or.inr ⟨x, List.mem_cons_self, h⟩
      · exact Or.inl h
      · exact (ih h).imp_right fun ⟨z, hz, hc⟩ => ⟨z, List.mem_cons_of_mem _ hz, hc⟩

/-- A mark stands in joined texts, whose separator starts and ends with letters outside it, exactly if
it stands in one of them. -/
theorem infix_intercalate_iff {w : List γ} {c : γ} (hc : c ∉ w) (hw : w ≠ []) (xs : List (List γ)) :
    w <:+: List.intercalate [c, c] xs ↔ ∃ x ∈ xs, w <:+: x := by
  induction xs with
  | nil => simp [hw]
  | cons x xs ih =>
    cases xs with
    | nil => simp
    | cons y ys =>
      rw [List.intercalate_cons_cons, List.append_assoc, List.cons_append, List.singleton_append,
        infix_append_cons_iff hc, ← List.nil_append (c :: _), infix_append_cons_iff hc, ih,
        List.infix_nil, or_iff_right hw]
      simp only [List.mem_cons, exists_eq_or_imp]

end FlopOffice.Lib
