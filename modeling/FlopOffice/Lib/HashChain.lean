/-
# FlopOffice.Lib.HashChain — records that commit to their predecessors.

A chain is a list of records of any type `ρ`. A record shows its position, the link to its
predecessor, the entry its successor must link to, and a CONTENT; the entry is a hash of the content,
and the content determines position and link. Nothing else is assumed: what a content is, and how it
is serialised, is the business of the format that instantiates this.

`Linked` is what a verifier walks the list for. Two facts carry everything built on it:

* **commitment** (`Linked.contents_eq`): if the hash does not collide on the contents of two linked
  chains, the last entry determines the length and every content;
* **local detection** (`not_linked_of_digest`): a record whose entry is not its hash breaks the chain,
  wherever it stands.
-/
import Mathlib.Data.List.Basic
import Mathlib.Data.Set.Function
import Mathlib.Tactic.Common

namespace FlopOffice.Lib

/-- How a record type is read as a link of a hash chain. -/
structure ChainView (ρ δ κ : Type) where
  index : ρ → Int
  prev : ρ → δ
  entry : ρ → δ
  content : ρ → κ
  hash : κ → δ
  index_of_content : ∀ r s, content r = content s → index r = index s
  prev_of_content : ∀ r s, content r = content s → prev r = prev s

namespace ChainView

variable {ρ δ κ : Type} (V : ChainView ρ δ κ)

/-- `rs` continues a chain whose last entry is `g` from position `pos` on. -/
def Linked (g : δ) (pos : Nat) : List ρ → Prop
  | [] => True
  | r :: rs =>
    V.index r = pos ∧ V.prev r = g ∧ V.hash (V.content r) = V.entry r ∧ Linked (V.entry r) (pos + 1) rs

/-- The entry the next record has to link to. -/
def tip (g : δ) (rs : List ρ) : δ := (rs.getLast?.map V.entry).getD g

@[simp] theorem tip_nil (g : δ) : V.tip g [] = g := rfl

@[simp] theorem tip_concat (g : δ) (rs : List ρ) (r : ρ) : V.tip g (rs ++ [r]) = V.entry r := by
  simp [tip]

theorem tip_cons (g : δ) (r : ρ) (rs : List ρ) : V.tip g (r :: rs) = V.tip (V.entry r) rs := by
  cases rs with
  | nil => rfl
  | cons s rs =>
    simp only [tip, List.getLast?_cons_cons, List.getLast?_eq_getLast_of_ne_nil (List.cons_ne_nil s rs),
      Option.map_some, Option.getD_some]

theorem linked_append {g : δ} {pos : Nat} {rs ss : List ρ} :
    V.Linked g pos (rs ++ ss) ↔ V.Linked g pos rs ∧ V.Linked (V.tip g rs) (pos + rs.length) ss := by
  induction rs generalizing g pos with
  | nil => simp [Linked]
  | cons r rs ih =>
    have hpos : pos + 1 + rs.length = pos + (rs.length + 1) := by omega
    simp only [List.cons_append, Linked, ih, tip_cons, List.length_cons, and_assoc, hpos]

/-- Appending one record keeps a chain linked exactly when it takes the next position, links to the
tip and carries its own hash. -/
theorem linked_concat {g : δ} {pos : Nat} {rs : List ρ} {r : ρ} :
    V.Linked g pos (rs ++ [r]) ↔ V.Linked g pos rs ∧ V.index r = (pos + rs.length : Nat) ∧
      V.prev r = V.tip g rs ∧ V.hash (V.content r) = V.entry r := by
  simp [linked_append, Linked]

theorem Linked.digest {g : δ} {pos : Nat} {rs : List ρ} (h : V.Linked g pos rs) {r : ρ} (hr : r ∈ rs) :
    V.hash (V.content r) = V.entry r := by
  obtain ⟨l, l', rfl⟩ := List.append_of_mem hr
  exact ((V.linked_append.mp h).2).2.2.1

theorem Linked.index_getElem {g : δ} {pos : Nat} {rs : List ρ} (h : V.Linked g pos rs) (i : Nat)
    (hi : i < rs.length) : V.index (rs[i]) = (pos + i : Nat) := by
  induction rs generalizing g pos i with
  | nil => cases hi
  | cons r rs ih =>
    cases i with
    | zero => exact h.1
    | succ i =>
      have hrec := ih h.2.2.2 i (by simpa using hi)
      rw [List.getElem_cons_succ, hrec]
      congr 1
      omega

theorem Linked.prev_zero {g : δ} {pos : Nat} {rs : List ρ} (h : V.Linked g pos rs)
    (hi : 0 < rs.length) : V.prev (rs[0]) = g := by
  cases rs with
  | nil => cases hi
  | cons r rs => exact h.2.1

theorem Linked.prev_succ {g : δ} {pos : Nat} {rs : List ρ} (h : V.Linked g pos rs) (i : Nat)
    (hi : i + 1 < rs.length) : V.prev (rs[i + 1]) = V.entry (rs[i]) := by
  induction rs generalizing g pos i with
  | nil => cases hi
  | cons r rs ih =>
    cases i with
    | zero => exact Linked.prev_zero V h.2.2.2 (by simpa using hi)
    | succ i => exact ih h.2.2.2 i (by simpa using hi)

/-- A chain is linked where every record has the position of its place, links to the tip before it and
carries its own hash. -/
theorem linked_iff_forall {g : δ} {pos : Nat} {rs : List ρ} :
    V.Linked g pos rs ↔ ∀ (i : Nat) (r : ρ), rs[i]? = some r → V.index r = (pos + i : Nat) ∧
      V.prev r = V.tip g (rs.take i) ∧ V.hash (V.content r) = V.entry r := by
  induction rs generalizing g pos with
  | nil => exact iff_of_true trivial nofun
  | cons s rs ih =>
    rw [Linked, ih]
    constructor
    · rintro ⟨hi, hp, hh, hrest⟩ i r hr
      cases i with
      | zero =>
        cases hr
        exact ⟨hi, hp, hh⟩
      | succ i =>
        obtain ⟨hi', hp', hh'⟩ := hrest i r hr
        rw [List.take_succ_cons, tip_cons]
        exact ⟨by rw [hi']; omega, hp', hh'⟩
    · intro h
      obtain ⟨hi, hp, hh⟩ := h 0 s rfl
      refine ⟨hi, hp, hh, fun i r hr => ?_⟩
      obtain ⟨hi', hp', hh'⟩ := h (i + 1) r hr
      rw [List.take_succ_cons, tip_cons] at hp'
      exact ⟨by rw [hi']; omega, hp', hh'⟩

/-- A list that is not linked has a longest linked prefix, and a record after it. -/
theorem exists_first_break {g : δ} {pos : Nat} {rs : List ρ} (h : ¬ V.Linked g pos rs) :
    ∃ pre r post, rs = pre ++ r :: post ∧ V.Linked g pos pre ∧ ¬ V.Linked g pos (pre ++ [r]) := by
  induction rs generalizing g pos with
  | nil => exact absurd trivial h
  | cons s rs ih =>
    by_cases hs : V.Linked g pos [s]
    · obtain ⟨hi, hp, hh, -⟩ := hs
      obtain ⟨pre, r, post, rfl, hpre, hr⟩ := ih fun hrest => h ⟨hi, hp, hh, hrest⟩
      exact ⟨s :: pre, r, post, rfl, ⟨hi, hp, hh, hpre⟩, fun hall => hr hall.2.2.2⟩
    · exact ⟨[], s, rs, rfl, trivial, hs⟩

/-! ## Commitment -/

/-- **The tip commits to the chain.** Two non-empty chains from the same genesis with the same tip
have the same length and the same contents, if the hash is injective on the contents they hold. -/
theorem Linked.contents_eq {g : δ} {rs ss : List ρ} (hr : V.Linked g 0 rs) (hs : V.Linked g 0 ss)
    (hrs : rs ≠ []) (hss : ss ≠ []) (htip : V.tip g rs = V.tip g ss)
    (hinj : Set.InjOn V.hash {k | ∃ r, (r ∈ rs ∨ r ∈ ss) ∧ V.content r = k}) :
    rs.map V.content = ss.map V.content := by
  -- equal tips give equal last contents, hence equal last positions, hence equal lengths
  have last : ∀ (rs ss : List ρ) (r s : ρ), V.Linked g 0 (rs ++ [r]) → V.Linked g 0 (ss ++ [s]) →
      V.tip g (rs ++ [r]) = V.tip g (ss ++ [s]) →
      Set.InjOn V.hash {k | ∃ x, (x ∈ rs ++ [r] ∨ x ∈ ss ++ [s]) ∧ V.content x = k} →
      V.content r = V.content s := by
    intro rs ss r s hr hs htip hinj
    obtain ⟨-, -, -, hdr⟩ := V.linked_concat.mp hr
    obtain ⟨-, -, -, hds⟩ := V.linked_concat.mp hs
    rw [tip_concat, tip_concat, ← hdr, ← hds] at htip
    exact hinj ⟨r, Or.inl (by simp), rfl⟩ ⟨s, Or.inr (by simp), rfl⟩ htip
  have main : ∀ (n : Nat) (rs ss : List ρ), rs.length = n → ss.length = n → V.Linked g 0 rs →
      V.Linked g 0 ss → V.tip g rs = V.tip g ss →
      Set.InjOn V.hash {k | ∃ x, (x ∈ rs ∨ x ∈ ss) ∧ V.content x = k} →
      rs.map V.content = ss.map V.content := by
    intro n
    induction n with
    | zero =>
      intro rs ss hrn hsn _ _ _ _
      rw [List.length_eq_zero_iff.mp hrn, List.length_eq_zero_iff.mp hsn]
    | succ n ih =>
      intro rs ss hrn hsn hr hs htip hinj
      obtain ⟨rs, r, rfl⟩ := (List.eq_nil_or_concat' rs).resolve_left (by rintro rfl; cases hrn)
      obtain ⟨ss, s, rfl⟩ := (List.eq_nil_or_concat' ss).resolve_left (by rintro rfl; cases hsn)
      have hc := last rs ss r s hr hs htip hinj
      obtain ⟨hr', -, hpr, -⟩ := V.linked_concat.mp hr
      obtain ⟨hs', -, hps, -⟩ := V.linked_concat.mp hs
      have htip' : V.tip g rs = V.tip g ss := by
        rw [← hpr, ← hps, V.prev_of_content r s hc]
      have hih := ih rs ss (by simpa using hrn) (by simpa using hsn) hr' hs' htip' (hinj.mono ?_)
      · rw [List.map_append, List.map_append, hih, List.map_singleton, List.map_singleton, hc]
      · rintro k ⟨x, hx, rfl⟩
        exact ⟨x, hx.imp (List.mem_append_left _) (List.mem_append_left _), rfl⟩
  have hlen : rs.length = ss.length := by
    obtain ⟨rs, r, rfl⟩ := (List.eq_nil_or_concat' rs).resolve_left hrs
    obtain ⟨ss, s, rfl⟩ := (List.eq_nil_or_concat' ss).resolve_left hss
    have hc := V.index_of_content r s (last rs ss r s hr hs htip hinj)
    rw [(V.linked_concat.mp hr).2.1, (V.linked_concat.mp hs).2.1] at hc
    have hn : 0 + rs.length = 0 + ss.length := by exact_mod_cast hc
    simp only [List.length_append, List.length_singleton]
    omega
  exact main ss.length rs ss hlen rfl hr hs htip hinj

/-- Linked chains with equal contents have equal entries. -/
theorem Linked.entries_eq {g g' : δ} {pos pos' : Nat} {rs ss : List ρ} (hr : V.Linked g pos rs)
    (hs : V.Linked g' pos' ss) (h : rs.map V.content = ss.map V.content) :
    rs.map V.entry = ss.map V.entry := by
  have key : ∀ {g : δ} {pos : Nat} (l : List ρ), V.Linked g pos l →
      l.map V.entry = (l.map V.content).map V.hash := by
    intro g pos l hl
    rw [List.map_map]
    exact List.map_congr_left fun r hr => (Linked.digest V hl hr).symm
  rw [key rs hr, key ss hs, h]

/-! ## Local detection -/

/-- A record whose entry is not its hash breaks the chain. -/
theorem not_linked_of_digest {g : δ} {pos : Nat} {rs : List ρ} {r : ρ} (hr : r ∈ rs)
    (h : V.hash (V.content r) ≠ V.entry r) : ¬ V.Linked g pos rs :=
  fun hl => h (Linked.digest V hl hr)

end ChainView

end FlopOffice.Lib
