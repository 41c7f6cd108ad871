/-
# FlopOffice.Lib.PrefixCode — texts that can be read back from the front.

An encoding is a relation `R a x`, "`x` is a text of the value `a`": partial encoders, and encoders
that are only injective on some values, are relations like any other. `Readable R F` says that a text
of `R` can be told apart from whatever follows it, as long as what follows satisfies `F`: the follower
condition is what lets an unterminated number stand before a comma and a quoted string before
anything at all.

Three ways of building readable texts, and one way of composing them, cover the formats that are
quoted strings, numbers and keyed records: letter by letter up to a closing mark (`readable_closed`),
a run of one character class (`readable_run`), a tagged choice (`Readable.or`), and a record of fields
under one separator (`Readable.join`).
-/
import Mathlib.Data.List.Basic
import Mathlib.Data.List.TakeWhile
import Mathlib.Tactic.Common

namespace FlopOffice.Lib

variable {α κ γ : Type}

/-- A text of `R` is determined, with its value, by any continuation that satisfies `F`. -/
def Readable (R : α → List γ → Prop) (F : List γ → Prop) : Prop :=
  ∀ ⦃a b x y u v⦄, R a x → R b y → F u → F v → x ++ u = y ++ v → a = b ∧ x = y ∧ u = v

theorem Readable.mono {R R' : α → List γ → Prop} {F F' : List γ → Prop} (h : Readable R F)
    (hR : ∀ a x, R' a x → R a x) (hF : ∀ u, F' u → F u) : Readable R' F' :=
  fun _ _ _ _ _ _ ha hb hu hv he => h (hR _ _ ha) (hR _ _ hb) (hF _ hu) (hF _ hv) he

/-- Two readable encodings of one type whose texts cannot be confused are readable together. -/
theorem Readable.or {R S : α → List γ → Prop} {F : List γ → Prop} (hR : Readable R F)
    (hS : Readable S F)
    (hne : ∀ a b x y u v, R a x → S b y → F u → F v → x ++ u ≠ y ++ v) :
    Readable (fun a x => R a x ∨ S a x) F := by
  rintro a b x y u v (ha | ha) (hb | hb) hu hv he
  · exact hR ha hb hu hv he
  · exact absurd he (hne _ _ _ _ _ _ ha hb hu hv)
  · exact absurd he.symm (hne _ _ _ _ _ _ hb ha hv hu)
  · exact hS ha hb hu hv he

/-- `f` is a prefix code on letters: two code words can only agree from the front if they are equal. -/
def LetterCode (f : α → List γ) : Prop :=
  ∀ ⦃a b u v⦄, f a ++ u = f b ++ v → a = b ∧ u = v

/-- A word written letter by letter in a prefix code, then a mark that starts no code word. -/
theorem readable_closed {f : α → List γ} {q : γ} (hf : LetterCode f)
    (hq : ∀ a u v, f a ++ u ≠ q :: v) :
    Readable (fun (s : List α) x => x = s.flatMap f ++ [q]) fun _ => True := by
  intro s t x y u v hx hy _ _ he
  subst hx hy
  suffices key : s = t ∧ u = v by
    obtain ⟨rfl, rfl⟩ := key
    exact ⟨rfl, rfl, rfl⟩
  induction s generalizing t with
  | nil =>
    cases t with
    | nil => simpa using he
    | cons b t =>
      simp only [List.flatMap_nil, List.nil_append, List.flatMap_cons, List.append_assoc,
        List.singleton_append] at he
      exact absurd he.symm (hq _ _ _)
  | cons a s ih =>
    cases t with
    | nil =>
      simp only [List.flatMap_nil, List.nil_append, List.flatMap_cons, List.append_assoc,
        List.singleton_append] at he
      exact absurd he (hq _ _ _)
    | cons b t =>
      simp only [List.flatMap_cons, List.append_assoc] at he
      obtain ⟨rfl, he⟩ := hf he
      obtain ⟨rfl, rfl⟩ := ih (t := t) (by simpa using he)
      exact ⟨rfl, rfl⟩

/-- Two runs of a class, each followed by something outside it, are equal if the whole texts are. -/
theorem run_inj {p : γ → Bool} {x y u v : List γ} (hx : ∀ c ∈ x, p c = true)
    (hy : ∀ c ∈ y, p c = true) (hu : ∀ c, u.head? = some c → p c = false)
    (hv : ∀ c, v.head? = some c → p c = false) (he : x ++ u = y ++ v) : x = y ∧ u = v := by
  have take : ∀ {x u : List γ}, (∀ c ∈ x, p c = true) → (∀ c, u.head? = some c → p c = false) →
      (x ++ u).takeWhile p = x := by
    intro x u hx hu
    rw [List.takeWhile_append_of_pos hx]
    cases u with
    | nil => simp
    | cons c u => simp [hu c rfl]
  have hxy : x = y := by rw [← take hx hu, he, take hy hv]
  subst hxy
  exact ⟨rfl, List.append_cancel_left he⟩

/-- An injective encoding into runs of one class is readable before anything outside the class. -/
theorem readable_run {f : α → List γ} {p : γ → Bool} (hf : Function.Injective f)
    (hp : ∀ a, ∀ c ∈ f a, p c = true) :
    Readable (fun a x => x = f a) fun u => ∀ c, u.head? = some c → p c = false := by
  rintro a b x y u v rfl rfl hu hv he
  obtain ⟨hab, huv⟩ := run_inj (hp a) (hp b) hu hv he
  exact ⟨hf hab, hab, huv⟩

/-! ## Records of fields -/

/-- The texts of `xs` with `sep` between them. -/
def joinWith (sep : γ) : List (List γ) → List γ
  | [] => []
  | [x] => x
  | x :: y :: xs => x ++ sep :: joinWith sep (y :: xs)

theorem mem_joinWith {sep c : γ} {xs : List (List γ)} (h : c ∈ joinWith sep xs) :
    c = sep ∨ ∃ x ∈ xs, c ∈ x := by
  induction xs with
  | nil => cases h
  | cons x xs ih =>
    cases xs with
    | nil => exact Or.inr ⟨x, List.mem_cons_self, h⟩
    | cons y xs =>
      rcases List.mem_append.mp h with h | h
      · exact Or.inr ⟨x, List.mem_cons_self, h⟩
      · rcases List.mem_cons.mp h with h | h
        · exact Or.inl h
        · exact (ih h).imp_right fun ⟨z, hz, hc⟩ => ⟨z, List.mem_cons_of_mem _ hz, hc⟩

/-- Every part of a joined text stands in it. -/
theorem infix_joinWith (sep : γ) {x : List γ} {xs : List (List γ)} (h : x ∈ xs) :
    x <:+: joinWith sep xs := by
  induction xs with
  | nil => cases h
  | cons y ys ih =>
    cases ys with
    | nil =>
      rw [List.mem_singleton.mp h]
      exact List.infix_rfl
    | cons z zs =>
      rcases List.mem_cons.mp h with rfl | h
      · exact (List.prefix_append _ _).isInfix
      · have hpre : joinWith sep (z :: zs) <:+: joinWith sep (y :: z :: zs) :=
          ⟨y ++ [sep], [], by simp [joinWith]⟩
        exact (ih h).trans hpre

/-- **A record is readable.** Fields in a fixed order, each a fixed label followed by a readable
value, with `sep` between them and `close` at the end, determine every value and what follows. -/
theorem Readable.join {R : α → List γ → Prop} {F : List γ → Prop} (hR : Readable R F) {sep close : γ}
    (hsep : ∀ u, F (sep :: u)) (hclose : ∀ u, F (close :: u)) {label : κ → List γ} {ks : List κ}
    {f g : κ → α} {x y : κ → List γ} {u v : List γ} (hf : ∀ k ∈ ks, R (f k) (x k))
    (hg : ∀ k ∈ ks, R (g k) (y k))
    (he : joinWith sep (ks.map fun k => label k ++ x k) ++ close :: u =
      joinWith sep (ks.map fun k => label k ++ y k) ++ close :: v) :
    (∀ k ∈ ks, f k = g k) ∧ u = v := by
  induction ks with
  | nil =>
    simp only [List.map_nil, joinWith, List.nil_append, List.cons.injEq, true_and] at he
    exact ⟨fun k hk => absurd hk List.not_mem_nil, he⟩
  | cons k ks ih =>
    have hfk := hf k List.mem_cons_self
    have hgk := hg k List.mem_cons_self
    cases ks with
    | nil =>
      simp only [List.map_cons, List.map_nil, joinWith, List.append_assoc,
        List.append_cancel_left_eq] at he
      obtain ⟨hk, -, hu⟩ := hR hfk hgk (hclose u) (hclose v) he
      refine ⟨fun k' hk' => ?_, by simpa using hu⟩
      rw [List.mem_singleton.mp hk', hk]
    | cons k₂ ks =>
      simp only [List.map_cons, joinWith, List.append_assoc, List.cons_append,
        List.append_cancel_left_eq] at he
      obtain ⟨hk, -, hrest⟩ := hR hfk hgk (hsep _) (hsep _) he
      obtain ⟨htail, huv⟩ := ih (fun k' hk' => hf k' (List.mem_cons_of_mem _ hk'))
        (fun k' hk' => hg k' (List.mem_cons_of_mem _ hk')) (by simpa using hrest)
      refine ⟨fun k' hk' => ?_, huv⟩
      rcases List.mem_cons.mp hk' with rfl | hk'
      · exact hk
      · exact htail k' hk'

end FlopOffice.Lib
