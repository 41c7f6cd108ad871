/-
# FlopOffice.Lib.Regex — backtracking regular expressions over an arbitrary alphabet.

A small engine of the kind behind Perl-style matchers: greedy and lazy repetition of character
classes, concatenation, ordered alternation, and zero-width assertions that look at the whole text
before and after the current position (anchors, word boundaries, one-character look-around). A match
attempt at a position returns EVERY end it could backtrack to, in the engine's order of preference
(`ends`); the reported match is the first one.

Beside the executable engine stands the declarative reading `Matches r b m a`: "`r` consumes exactly
`m` between the text `b` (reversed) and the text `a`". `mem_ends_iff` says that the two agree, so
order of preference matters only for WHERE a match ends, never for WHETHER there is one, and
`finditer_eq_nil_iff` carries that to the left-to-right scan for non-overlapping matches.

Repetition is over one class, not over a sub-expression, so no iteration can be empty and the
engine terminates by structure.
-/
import FlopOffice.Lib.Delimiter
import Mathlib.Data.List.Basic
import Mathlib.Data.List.Forall2
import Mathlib.Tactic.Common

namespace FlopOffice.Lib

variable {α : Type}

/-! ## The engine -/

/-- A position in a text: what lies before it, reversed, and what lies after it. -/
structure Cursor (α : Type) where
  before : List α
  after : List α
  deriving DecidableEq

/-- Move `k` characters to the right. -/
def Cursor.advance (c : Cursor α) (k : Nat) : Cursor α :=
  ⟨(c.after.take k).reverse ++ c.before, c.after.drop k⟩

/-- Regular expressions: `look f` asserts `f before after` and consumes nothing; `many p lo hi greedy`
repeats the class `p` between `lo` and `hi` times (`none`: without bound). -/
inductive Regex (α : Type) where
  | eps
  | look (f : List α → List α → Bool)
  | many (p : α → Bool) (lo : Nat) (hi : Option Nat) (greedy : Bool)
  | seq (r s : Regex α)
  | alt (r s : Regex α)

namespace Regex

/-- Every position a match attempt at `c` can end at, most preferred first. -/
def ends : Regex α → Cursor α → List (Cursor α)
  | eps, c => [c]
  | look f, c => if f c.before c.after then [c] else []
  | many p lo hi greedy, c =>
    let run := (c.after.takeWhile p).length
    let top := match hi with
      | some h => min h run
      | none => run
    let counts := List.range' lo (top + 1 - lo)
    (if greedy then counts.reverse else counts).map c.advance
  | seq r s, c => (ends r c).flatMap (ends s)
  | alt r s, c => ends r c ++ ends s c

/-- One character of a class. -/
def one (p : α → Bool) : Regex α := many p 1 (some 1) true

/-- One character of each class in turn. -/
def classes : List (α → Bool) → Regex α
  | [] => eps
  | p :: ps => seq (one p) (classes ps)

/-- A literal text. -/
def lit [BEq α] (w : List α) : Regex α := classes (w.map fun x y => x == y)

/-- Exactly `n` copies of an expression. -/
def times : Nat → Regex α → Regex α
  | 0, _ => eps
  | n + 1, r => seq r (times n r)

/-- An optional expression, taken if possible. -/
def opt (r : Regex α) : Regex α := alt r eps

/-! ## The declarative reading -/

/-- `Matches r b m a`: with `b` (reversed) before and `a` after, `r` can consume exactly `m`. -/
def Matches : Regex α → List α → List α → List α → Prop
  | eps, _, m, _ => m = []
  | look f, b, m, a => m = [] ∧ f b a = true
  | many p lo hi _, _, m, _ => (∀ x ∈ m, p x = true) ∧ lo ≤ m.length ∧ ∀ h, hi = some h → m.length ≤ h
  | seq r s, b, m, a =>
    ∃ m₁ m₂, m = m₁ ++ m₂ ∧ Matches r b m₁ (m₂ ++ a) ∧ Matches s (m₁.reverse ++ b) m₂ a
  | alt r s, b, m, a => Matches r b m a ∨ Matches s b m a

theorem length_takeWhile_ge {p : α → Bool} {l : List α} {k : Nat} (hk : k ≤ l.length)
    (h : ∀ x ∈ l.take k, p x = true) : k ≤ (l.takeWhile p).length := by
  have hpre : l.take k <+: l.takeWhile p := by
    conv_rhs => rw [← List.take_append_drop k l, List.takeWhile_append_of_pos h]
    exact List.prefix_append _ _
  simpa [Nat.min_eq_left hk] using hpre.length_le

/-- The counts a class repetition tries are exactly the admissible ones. -/
theorem mem_ends_many {p : α → Bool} {lo : Nat} {hi : Option Nat} {greedy : Bool} {c e : Cursor α} :
    e ∈ ends (many p lo hi greedy) c ↔
      ∃ k, e = c.advance k ∧ k ≤ c.after.length ∧ (∀ x ∈ c.after.take k, p x = true) ∧
        lo ≤ k ∧ ∀ h, hi = some h → k ≤ h := by
  have hrun : ∀ k, k ≤ (c.after.takeWhile p).length ↔
      k ≤ c.after.length ∧ ∀ x ∈ c.after.take k, p x = true := by
    intro k
    constructor
    · intro hk
      refine ⟨Nat.le_trans hk (List.takeWhile_prefix p).length_le, fun x hx => ?_⟩
      have hpre : c.after.take k <+: c.after.takeWhile p := by
        have h₁ : c.after.take k <+: c.after := List.take_prefix k _
        have h₂ : c.after.takeWhile p <+: c.after := List.takeWhile_prefix p
        exact List.prefix_of_prefix_length_le h₁ h₂ (Nat.le_trans (List.length_take_le k _) hk)
      exact List.all_eq_true.mp List.all_takeWhile x (hpre.subset hx)
    · rintro ⟨hk, h⟩
      exact length_takeWhile_ge hk h
  have hmem : e ∈ ends (many p lo hi greedy) c ↔ ∃ k, e = c.advance k ∧ lo ≤ k ∧
      k ≤ (match hi with
        | some h => min h (c.after.takeWhile p).length
        | none => (c.after.takeWhile p).length) := by
    simp only [ends]
    generalize (match hi with
      | some h => min h (c.after.takeWhile p).length
      | none => (c.after.takeWhile p).length) = top
    cases greedy <;> simp only [Bool.false_eq_true, if_true, if_false, List.mem_map,
        List.mem_reverse, List.mem_range'_1] <;>
      constructor <;> rintro ⟨k, hk⟩
    · exact ⟨k, hk.2.symm, hk.1.1, by omega⟩
    · exact ⟨k, ⟨hk.2.1, by omega⟩, hk.1.symm⟩
    · exact ⟨k, hk.2.symm, hk.1.1, by omega⟩
    · exact ⟨k, ⟨hk.2.1, by omega⟩, hk.1.symm⟩
  rw [hmem]
  refine exists_congr fun k => and_congr_right fun _ => ?_
  cases hi with
  | none => simp [hrun k, and_comm, and_left_comm]
  | some h => simp only [Nat.le_min, hrun k, Option.some.injEq, forall_eq']; tauto

/-- **The engine finds exactly the declared matches.** -/
theorem mem_ends_iff {r : Regex α} {c e : Cursor α} :
    e ∈ ends r c ↔
      ∃ m, c.after = m ++ e.after ∧ e.before = m.reverse ++ c.before ∧ Matches r c.before m e.after := by
  induction r generalizing c e with
  | eps =>
    simp only [ends, Matches, List.mem_singleton]
    constructor
    · rintro rfl
      exact ⟨[], rfl, rfl, rfl⟩
    · rintro ⟨m, ha, hb, rfl⟩
      cases c; cases e; simp_all
  | look f =>
    simp only [ends, Matches]
    constructor
    · intro h
      split at h
      · rw [List.mem_singleton.mp h]
        exact ⟨[], rfl, rfl, rfl, by assumption⟩
      · cases h
    · rintro ⟨m, ha, hb, rfl, hf⟩
      have hce : e = c := by cases c; cases e; simp_all
      subst hce
      simp [hf]
  | many p lo hi greedy =>
    rw [mem_ends_many]
    simp only [Matches]
    constructor
    · rintro ⟨k, rfl, hk, hall, hlo, hhi⟩
      refine ⟨c.after.take k, (List.take_append_drop k _).symm, rfl, hall, ?_, ?_⟩
      · rwa [List.length_take, Nat.min_eq_left hk]
      · rwa [List.length_take, Nat.min_eq_left hk]
    · rintro ⟨m, ha, hb, hall, hlo, hhi⟩
      refine ⟨m.length, ?_, by simp [ha], by simpa [ha] using hall, hlo, hhi⟩
      cases c; cases e; simp_all [Cursor.advance]
  | seq r s ihr ihs =>
    simp only [ends, List.mem_flatMap, Matches]
    constructor
    · rintro ⟨d, hd, he⟩
      obtain ⟨m₁, ha₁, hb₁, hm₁⟩ := ihr.mp hd
      obtain ⟨m₂, ha₂, hb₂, hm₂⟩ := ihs.mp he
      refine ⟨m₁ ++ m₂, by rw [ha₁, ha₂, List.append_assoc], ?_, m₁, m₂, rfl, ?_, ?_⟩
      · rw [hb₂, hb₁, List.reverse_append, List.append_assoc]
      · rwa [ha₂] at hm₁
      · rwa [hb₁] at hm₂
    · rintro ⟨m, ha, hb, m₁, m₂, rfl, hm₁, hm₂⟩
      refine ⟨⟨m₁.reverse ++ c.before, m₂ ++ e.after⟩, ihr.mpr ⟨m₁, ?_, rfl, hm₁⟩,
        ihs.mpr ⟨m₂, rfl, ?_, hm₂⟩⟩
      · rw [ha, List.append_assoc]
      · rw [hb, List.reverse_append, List.append_assoc]
  | alt r s ihr ihs =>
    simp only [ends, List.mem_append, ihr, ihs, Matches]
    constructor
    · rintro (⟨m, ha, hb, hm⟩ | ⟨m, ha, hb, hm⟩)
      · exact ⟨m, ha, hb, Or.inl hm⟩
      · exact ⟨m, ha, hb, Or.inr hm⟩
    · rintro ⟨m, ha, hb, hm | hm⟩
      · exact Or.inl ⟨m, ha, hb, hm⟩
      · exact Or.inr ⟨m, ha, hb, hm⟩

/-! ### Matching the derived forms -/

theorem matches_one {p : α → Bool} {b m a : List α} :
    Matches (one p) b m a ↔ ∃ x, m = [x] ∧ p x = true := by
  simp only [one, Matches, Option.some.injEq, forall_eq']
  constructor
  · rintro ⟨hall, hlo, hhi⟩
    obtain ⟨x, rfl⟩ := List.length_eq_one_iff.mp (Nat.le_antisymm hhi hlo)
    exact ⟨x, rfl, hall x List.mem_cons_self⟩
  · rintro ⟨x, rfl, hx⟩
    simp [hx]

theorem matches_classes {ps : List (α → Bool)} {b m a : List α} :
    Matches (classes ps) b m a ↔ List.Forall₂ (fun p x => p x = true) ps m := by
  induction ps generalizing b m with
  | nil => simp [classes, Matches, List.forall₂_nil_left_iff]
  | cons p ps ih =>
    simp only [classes, Matches, matches_one, List.forall₂_cons_left_iff]
    constructor
    · rintro ⟨m₁, m₂, rfl, ⟨x, rfl, hx⟩, hm⟩
      exact ⟨x, m₂, hx, ih.mp hm, rfl⟩
    · rintro ⟨x, m₂, hx, hm, rfl⟩
      exact ⟨[x], m₂, rfl, ⟨x, rfl, hx⟩, ih.mpr hm⟩

theorem matches_lit [BEq α] [LawfulBEq α] {w b m a : List α} :
    Matches (lit w) b m a ↔ m = w := by
  rw [lit, matches_classes, List.forall₂_map_left_iff]
  simp only [beq_iff_eq]
  rw [List.forall₂_eq_eq_eq]
  exact eq_comm

/-! ## Context and necessary characters -/

/-- An expression without assertions. -/
def LookFree : Regex α → Prop
  | eps => True
  | look _ => False
  | many .. => True
  | seq r s => LookFree r ∧ LookFree s
  | alt r s => LookFree r ∧ LookFree s

/-- Whether an expression is without assertions. -/
def decideLookFree : (r : Regex α) → Decidable (LookFree r)
  | eps => isTrue trivial
  | look _ => isFalse id
  | many .. => isTrue trivial
  | seq r s => @instDecidableAnd _ _ (decideLookFree r) (decideLookFree s)
  | alt r s => @instDecidableAnd _ _ (decideLookFree r) (decideLookFree s)

instance (r : Regex α) : Decidable (LookFree r) := decideLookFree r

/-- Without assertions a match does not depend on the text around it. -/
theorem Matches.change_context {r : Regex α} (hr : LookFree r) {b m a : List α} (h : Matches r b m a)
    (b' a' : List α) : Matches r b' m a' := by
  induction r generalizing b m a b' a' with
  | eps => exact h
  | look f => exact hr.elim
  | many p lo hi greedy => exact h
  | seq r s ihr ihs =>
    obtain ⟨m₁, m₂, rfl, h₁, h₂⟩ := h
    exact ⟨m₁, m₂, rfl, ihr hr.1 h₁ _ _, ihs hr.2 h₂ _ _⟩
  | alt r s ihr ihs => exact h.imp (fun h => ihr hr.1 h _ _) fun h => ihs hr.2 h _ _

theorem lookFree_classes (ps : List (α → Bool)) : LookFree (classes ps) := by
  induction ps with
  | nil => trivial
  | cons p ps ih => exact ⟨trivial, ih⟩

/-- Every assertion looks at no more than the next character on each side. -/
def HeadLooks : Regex α → Prop
  | look f => ∀ b a b' a', b.head? = b'.head? → a.head? = a'.head? → f b a = f b' a'
  | seq r s => HeadLooks r ∧ HeadLooks s
  | alt r s => HeadLooks r ∧ HeadLooks s
  | _ => True

theorem LookFree.headLooks {r : Regex α} (h : LookFree r) : HeadLooks r := by
  induction r with
  | look f => exact h.elim
  | eps | many => trivial
  | seq r s ihr ihs => exact ⟨ihr h.1, ihs h.2⟩
  | alt r s ihr ihs => exact ⟨ihr h.1, ihs h.2⟩

/-- How many characters a match consumes at least. -/
def minLength : Regex α → Nat
  | many _ lo _ _ => lo
  | seq r s => minLength r + minLength s
  | alt r s => min (minLength r) (minLength s)
  | _ => 0

theorem Matches.minLength_le {r : Regex α} {b m a : List α} (h : Matches r b m a) :
    minLength r ≤ m.length := by
  induction r generalizing b m a with
  | eps => exact Nat.zero_le _
  | look f => exact Nat.zero_le _
  | many p lo hi greedy => exact h.2.1
  | seq r s ihr ihs =>
    obtain ⟨m₁, m₂, rfl, h₁, h₂⟩ := h
    have hr := ihr h₁
    have hs := ihs h₂
    rw [minLength, List.length_append]
    omega
  | alt r s ihr ihs =>
    rw [minLength]
    rcases h with h | h
    · have hr := ihr h
      omega
    · have hs := ihs h
      omega

/-- No assertion stands at the end of a match. -/
def settled : Regex α → Bool
  | look _ => false
  | seq r s => settled s && (settled r || decide (0 < minLength s))
  | alt r s => settled r && settled s
  | _ => true

/-- **A match survives more text around it** once it does not touch the ends of the text: on the left
something stands before it, and on the right something stands after it or no assertion asks. -/
theorem Matches.extend {r : Regex α} (hr : HeadLooks r) {b m a : List α} (h : Matches r b m a)
    (hb : b ≠ []) (ha : a ≠ [] ∨ settled r = true) (l l' : List α) :
    Matches r (b ++ l) m (a ++ l') := by
  induction r generalizing b m a with
  | eps => exact h
  | look f =>
    have hne : a ≠ [] := ha.resolve_right (by simp [settled])
    refine ⟨h.1, (hr _ _ _ _ ?_ ?_).trans h.2⟩
    · exact List.head?_append_of_ne_nil _ hb
    · exact List.head?_append_of_ne_nil _ hne
  | many p lo hi greedy => exact h
  | seq r s ihr ihs =>
    obtain ⟨m₁, m₂, rfl, h₁, h₂⟩ := h
    have hs : a ≠ [] ∨ settled s = true := ha.imp_right fun hset => by
      rw [settled, Bool.and_eq_true] at hset
      exact hset.1
    have hmid : m₂ ++ a ≠ [] ∨ settled r = true := by
      rcases ha with ha | hset
      · exact Or.inl (List.append_ne_nil_of_right_ne_nil _ ha)
      · rw [settled, Bool.and_eq_true, Bool.or_eq_true, decide_eq_true_eq] at hset
        refine hset.2.symm.imp_left fun hpos => ?_
        have hlen := h₂.minLength_le
        exact List.append_ne_nil_of_left_ne_nil (List.ne_nil_of_length_pos (by omega)) _
    have hleft : m₁.reverse ++ b ≠ [] := List.append_ne_nil_of_right_ne_nil _ hb
    refine ⟨m₁, m₂, rfl, ?_, ?_⟩
    · rw [← List.append_assoc]
      exact ihr hr.1 h₁ hb hmid
    · rw [← List.append_assoc]
      exact ihs hr.2 h₂ hleft hs
  | alt r s ihr ihs =>
    have hset : ∀ {x}, (settled (alt r s) = true → x = true) → a ≠ [] ∨ x = true :=
      fun hx => ha.imp_right hx
    refine h.imp (fun h => ihr hr.1 h hb (hset fun h => ?_)) fun h => ihs hr.2 h hb (hset fun h => ?_)
    · rw [settled, Bool.and_eq_true] at h
      exact h.1
    · rw [settled, Bool.and_eq_true] at h
      exact h.2

/-- The classes an expression is written with. -/
def charClasses : Regex α → List (α → Bool)
  | many p _ _ _ => [p]
  | seq r s => charClasses r ++ charClasses s
  | alt r s => charClasses r ++ charClasses s
  | _ => []

/-- Every character of a match is in one of the classes. -/
theorem Matches.mem_charClasses {r : Regex α} {b m a : List α} (h : Matches r b m a) {x : α}
    (hx : x ∈ m) : ∃ p ∈ charClasses r, p x = true := by
  induction r generalizing b m a with
  | eps =>
    rw [show m = [] from h] at hx
    cases hx
  | look f =>
    rw [h.1] at hx
    cases hx
  | many p lo hi greedy => exact ⟨p, List.mem_singleton_self p, h.1 x hx⟩
  | seq r s ihr ihs =>
    obtain ⟨m₁, m₂, rfl, h₁, h₂⟩ := h
    rcases List.mem_append.mp hx with hx | hx
    · obtain ⟨p, hp, hpx⟩ := ihr h₁ hx
      exact ⟨p, List.mem_append_left _ hp, hpx⟩
    · obtain ⟨p, hp, hpx⟩ := ihs h₂ hx
      exact ⟨p, List.mem_append_right _ hp, hpx⟩
  | alt r s ihr ihs =>
    rcases h with h | h
    · obtain ⟨p, hp, hpx⟩ := ihr h hx
      exact ⟨p, List.mem_append_left _ hp, hpx⟩
    · obtain ⟨p, hp, hpx⟩ := ihs h hx
      exact ⟨p, List.mem_append_right _ hp, hpx⟩

/-- Classes of which every match contains a character. -/
def needs : Regex α → List (α → Bool)
  | eps => []
  | look _ => []
  | many p lo _ _ => if lo = 0 then [] else [p]
  | seq r s => needs r ++ needs s
  | alt _ _ => []

theorem exists_mem_of_needs {r : Regex α} {b m a : List α} (h : Matches r b m a) {p : α → Bool}
    (hp : p ∈ needs r) : ∃ x ∈ m, p x = true := by
  induction r generalizing b m a with
  | eps => cases hp
  | look f => cases hp
  | many q lo hi greedy =>
    simp only [needs] at hp
    split at hp
    · cases hp
    · rename_i hlo
      obtain ⟨hall, hlen, -⟩ := h
      rw [List.mem_singleton.mp hp]
      have hpos : 0 < m.length := by omega
      exact ⟨m[0], List.getElem_mem hpos, hall _ (List.getElem_mem hpos)⟩
  | seq r s ihr ihs =>
    obtain ⟨m₁, m₂, rfl, h₁, h₂⟩ := h
    rcases List.mem_append.mp hp with hp | hp
    · obtain ⟨x, hx, hpx⟩ := ihr h₁ hp
      exact ⟨x, List.mem_append_left _ hx, hpx⟩
    · obtain ⟨x, hx, hpx⟩ := ihs h₂ hp
      exact ⟨x, List.mem_append_right _ hx, hpx⟩
  | alt r s ihr ihs => cases hp

/-! ## Scanning a text -/

/-- `r` matches somewhere inside `text`. -/
def Found (r : Regex α) (text : List α) : Prop :=
  ∃ pre m post, text = pre ++ m ++ post ∧ Matches r pre.reverse m post

/-- Without assertions a match is found in every text that contains the one it was found in. -/
theorem Found.of_infix {r : Regex α} (hr : LookFree r) {t t' : List α} (h : Found r t)
    (ht : t <:+: t') : Found r t' := by
  obtain ⟨pre, m, post, rfl, hm⟩ := h
  obtain ⟨l, l', rfl⟩ := ht
  exact ⟨l ++ pre, m, post ++ l', by simp only [List.append_assoc], hm.change_context hr _ _⟩

/-- The scan for non-overlapping matches, from left to right; every step moves to the right, so the
length of the text bounds the steps. -/
def finditerAux (r : Regex α) : Nat → Cursor α → List (Cursor α × Cursor α)
  | 0, _ => []
  | n + 1, c =>
    match (ends r c).head? with
    | some e =>
      (c, e) :: if e.after.length < c.after.length then finditerAux r n e
        else finditerAux r n (c.advance 1)
    | none => if c.after.isEmpty then [] else finditerAux r n (c.advance 1)

/-- All non-overlapping matches of `r` in `text`, each as its start and its end. -/
def finditer (r : Regex α) (text : List α) : List (Cursor α × Cursor α) :=
  finditerAux r (text.length + 1) ⟨[], text⟩

theorem found_iff_ends {r : Regex α} {text : List α} :
    Found r text ↔ ∃ pre post, text = pre ++ post ∧ ends r ⟨pre.reverse, post⟩ ≠ [] := by
  constructor
  · rintro ⟨pre, m, post, rfl, hm⟩
    refine ⟨pre, m ++ post, by rw [List.append_assoc], fun hnil => ?_⟩
    have hmem : (⟨m.reverse ++ pre.reverse, post⟩ : Cursor α) ∈ ends r ⟨pre.reverse, m ++ post⟩ :=
      mem_ends_iff.mpr ⟨m, rfl, rfl, hm⟩
    rw [hnil] at hmem
    cases hmem
  · rintro ⟨pre, post, rfl, hne⟩
    obtain ⟨e, he⟩ := List.exists_mem_of_ne_nil _ hne
    obtain ⟨m, ha, -, hm⟩ := mem_ends_iff.mp he
    simp only at ha
    exact ⟨pre, m, e.after, by rw [List.append_assoc, ha], hm⟩

/-- A scan reports only matches: each pair lies in the text and its end is one of `ends`. -/
theorem finditerAux_sound {r : Regex α} {n : Nat} {c s e : Cursor α}
    (h : (s, e) ∈ finditerAux r n c) :
    e ∈ ends r s ∧ s.before.reverse ++ s.after = c.before.reverse ++ c.after := by
  induction n generalizing c with
  | zero => cases h
  | succ n ih =>
    have hadv : (c.advance 1).before.reverse ++ (c.advance 1).after =
        c.before.reverse ++ c.after := by
      simp only [Cursor.advance, List.reverse_append, List.reverse_reverse, List.append_assoc,
        List.take_append_drop]
    unfold finditerAux at h
    split at h
    · rename_i d hd
      have hmem : d ∈ ends r c := List.mem_of_head? hd
      rcases List.mem_cons.mp h with h | h
      · cases h
        exact ⟨hmem, rfl⟩
      · obtain ⟨m, ha, hb, -⟩ := mem_ends_iff.mp hmem
        split at h
        · obtain ⟨he, htext⟩ := ih h
          refine ⟨he, htext.trans ?_⟩
          rw [hb, ha, List.reverse_append, List.reverse_reverse, List.append_assoc]
        · exact (ih h).imp_right fun ht => ht.trans hadv
    · split at h
      · cases h
      · exact (ih h).imp_right fun ht => ht.trans hadv

theorem finditerAux_eq_nil_iff {r : Regex α} {n : Nat} {c : Cursor α} (hn : c.after.length < n) :
    finditerAux r n c = [] ↔ ∀ k, k ≤ c.after.length → ends r (c.advance k) = [] := by
  induction n generalizing c with
  | zero => omega
  | succ n ih =>
    have h0 : c.advance 0 = c := by simp [Cursor.advance]
    unfold finditerAux
    cases hd : (ends r c).head? with
    | some e =>
      simp only [reduceCtorEq, false_iff, not_forall]
      refine ⟨0, Nat.zero_le _, fun hnil => ?_⟩
      rw [h0] at hnil
      rw [hnil] at hd
      cases hd
    | none =>
      have hc : ends r c = [] := List.head?_eq_none_iff.mp hd
      obtain ⟨b, a⟩ := c
      cases a with
      | nil =>
        simp only [List.isEmpty_nil, if_true, List.length_nil, Nat.le_zero, forall_eq, true_iff]
        rw [h0, hc]
      | cons x xs =>
        simp only [List.isEmpty_cons, Bool.false_eq_true, if_false]
        have hstep : ∀ k, (Cursor.advance ⟨b, x :: xs⟩ 1).advance k =
            Cursor.advance ⟨b, x :: xs⟩ (k + 1) := by
          intro k
          simp [Cursor.advance]
        rw [ih (by simpa [Cursor.advance] using hn)]
        constructor
        · intro h k hk
          cases k with
          | zero => rw [h0, hc]
          | succ k =>
            rw [← hstep]
            exact h k (by simpa [Cursor.advance] using hk)
        · intro h k hk
          rw [hstep]
          exact h (k + 1) (by simpa [Cursor.advance] using hk)

/-- **A scan is empty exactly when nothing matches anywhere.** -/
theorem finditer_eq_nil_iff {r : Regex α} {text : List α} :
    finditer r text = [] ↔ ¬ Found r text := by
  rw [finditer, finditerAux_eq_nil_iff (by simp), found_iff_ends]
  simp only [Cursor.advance, List.append_nil, ne_eq, not_exists, not_and, not_not]
  constructor
  · rintro h pre post rfl
    simpa using h pre.length (by simp)
  · intro h k _
    exact h (text.take k) (text.drop k) (List.take_append_drop k text).symm

/-- A text over an alphabet that misses a needed class contains no match. -/
theorem not_found_of_needs {r : Regex α} {text : List α} {p : α → Bool} (hp : p ∈ needs r)
    (h : ∀ x ∈ text, p x = false) : ¬ Found r text := by
  rintro ⟨pre, m, post, rfl, hm⟩
  obtain ⟨x, hx, hpx⟩ := exists_mem_of_needs hm hp
  rw [h x (by simp [hx])] at hpx
  cases hpx

/-! ## Marks -/

theorem found_classes_iff {ps : List (α → Bool)} {text : List α} :
    Found (classes ps) text ↔ ∃ w, w <:+: text ∧ List.Forall₂ (fun p x => p x = true) ps w := by
  constructor
  · rintro ⟨pre, m, post, rfl, hm⟩
    exact ⟨m, ⟨pre, post, rfl⟩, matches_classes.mp hm⟩
  · rintro ⟨w, ⟨pre, post, rfl⟩, hw⟩
    exact ⟨pre, w, post, rfl, matches_classes.mpr hw⟩

/-- The text starts with one letter of each class. -/
def startsWith : List (α → Bool) → List α → Bool
  | [], _ => true
  | _ :: _, [] => false
  | p :: ps, x :: text => p x && startsWith ps text

/-- One of the marks, each a list of classes, stands somewhere in the text. -/
def occurs (marks : List (List (α → Bool))) : List α → Bool
  | [] => marks.any List.isEmpty
  | x :: text => marks.any (fun ps => startsWith ps (x :: text)) || occurs marks text

theorem startsWith_iff {ps : List (α → Bool)} {text : List α} :
    startsWith ps text = true ↔ ∃ w, w <+: text ∧ List.Forall₂ (fun p x => p x = true) ps w := by
  induction ps generalizing text with
  | nil => exact iff_of_true rfl ⟨[], List.nil_prefix, .nil⟩
  | cons p ps ih =>
    cases text with
    | nil =>
      refine iff_of_false nofun ?_
      rintro ⟨w, hw, hall⟩
      rw [List.prefix_nil.mp hw] at hall
      cases hall
    | cons x text =>
      rw [startsWith, Bool.and_eq_true, ih]
      constructor
      · rintro ⟨hx, w, hw, hall⟩
        exact ⟨x :: w, List.cons_prefix_cons.mpr ⟨rfl, hw⟩, .cons hx hall⟩
      · rintro ⟨v, hv, hall⟩
        obtain ⟨y, w, hy, hw, rfl⟩ := List.forall₂_cons_left_iff.mp hall
        obtain ⟨rfl, hpre⟩ := List.cons_prefix_cons.mp hv
        exact ⟨hy, w, hpre, hw⟩

/-- Looking for marks is a plain search. -/
theorem occurs_iff {marks : List (List (α → Bool))} {text : List α} :
    occurs marks text = true ↔ ∃ ps ∈ marks, Found (classes ps) text := by
  simp only [found_classes_iff]
  induction text with
  | nil =>
    simp only [occurs, List.infix_nil, exists_eq_left, List.forall₂_nil_right_iff, List.any_eq_true,
      List.isEmpty_iff]
  | cons x text ih =>
    simp only [occurs, Bool.or_eq_true, List.any_eq_true, startsWith_iff, ih, ← exists_or, ← and_or_left,
      List.infix_cons_iff, or_and_right]

theorem charClasses_classes (ps : List (α → Bool)) : charClasses (classes ps) = ps := by
  induction ps with
  | nil => rfl
  | cons p ps ih => exact congrArg (p :: ·) ih

/-- A letter of none of the classes separates: what is found stands on one side of it. -/
theorem found_classes_append_cons {ps : List (α → Bool)} {x y : List α} {c : α}
    (hc : ∀ p ∈ ps, p c = false) :
    Found (classes ps) (x ++ c :: y) ↔ Found (classes ps) x ∨ Found (classes ps) y := by
  simp only [found_classes_iff, ← exists_or, ← or_and_right]
  refine exists_congr fun w => and_congr_left fun hw => infix_append_cons_iff fun hmem => ?_
  have hm : Matches (classes ps) [] w [] := matches_classes.mpr hw
  obtain ⟨p, hp, hpc⟩ := hm.mem_charClasses hmem
  rw [charClasses_classes] at hp
  rw [hc p hp] at hpc
  cases hpc

/-- Every match of `r` contains one of the marks, each a list of classes. -/
def Shows (marks : List (List (α → Bool))) (r : Regex α) : Prop :=
  ∀ b m a, Matches r b m a → ∃ ps ∈ marks, Found (classes ps) m

variable {marks : List (List (α → Bool))} {r s : Regex α}

theorem shows_classes {ps : List (α → Bool)} (h : ps ∈ marks) : Shows marks (classes ps) := by
  intro b m a hm
  exact ⟨ps, h, found_classes_iff.mpr ⟨m, List.infix_rfl, matches_classes.mp hm⟩⟩

theorem Shows.seq_left (h : Shows marks r) (s : Regex α) : Shows marks (seq r s) := by
  rintro b _ a ⟨m₁, m₂, rfl, h₁, -⟩
  obtain ⟨ps, hps, hfound⟩ := h _ _ _ h₁
  exact ⟨ps, hps, hfound.of_infix (lookFree_classes ps) (List.prefix_append m₁ m₂).isInfix⟩

theorem Shows.seq_right (h : Shows marks s) (r : Regex α) : Shows marks (seq r s) := by
  rintro b _ a ⟨m₁, m₂, rfl, -, h₂⟩
  obtain ⟨ps, hps, hfound⟩ := h _ _ _ h₂
  exact ⟨ps, hps, hfound.of_infix (lookFree_classes ps) (List.suffix_append m₁ m₂).isInfix⟩

theorem Shows.alt (hr : Shows marks r) (hs : Shows marks s) : Shows marks (alt r s) := by
  rintro b m a (h | h)
  · exact hr b m a h
  · exact hs b m a h

/-- A text without the marks contains no match. -/
theorem not_found_of_shows {text : List α} (h : Shows marks r)
    (ht : ∀ ps ∈ marks, ¬ Found (classes ps) text) : ¬ Found r text := by
  rintro ⟨pre, m, post, rfl, hm⟩
  obtain ⟨ps, hps, hfound⟩ := h _ _ _ hm
  exact ht ps hps (hfound.of_infix (lookFree_classes ps) ⟨pre, post, rfl⟩)

end Regex

end FlopOffice.Lib
