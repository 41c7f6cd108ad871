/-
# FlopOffice.Proof.CleanText — texts that no rule of the scanner can match.

Every rule but the mnemonic's has a part that stands in each of its matches, letter by letter: a mark.
A text without marks is clean as soon as it cannot be a line of words. Marks consist of letters, so
digits, quotation marks and the punctuation of JSON keep the parts of a text apart: what the rows of
the write paths carry can be checked piece by piece.
-/
import FlopOffice.Proof.SecretRefusal

namespace FlopOffice.Proof

open FlopOffice.Lib FlopOffice.Lib.Regex FlopOffice.Python FlopOffice.Storage FlopOffice.Tools

/-! ## Marks -/

/-- The classes of a literal. -/
def wordClasses (s : String) : List (CodePoint → Bool) := (py s).map fun x y => x == y

/-- `gh[pousr]_` -/
def githubMark : List (CodePoint → Bool) :=
  wordClasses "gh" ++ (fun c => decide (c ∈ py "pousr")) :: wordClasses "_"

/-- What the matches contain. -/
def marks : List (List (CodePoint → Bool)) :=
  [wordClasses "-----BEGIN", wordClasses "BlbnNzaC", wordClasses "kty", wordClasses "sk-",
   wordClasses "AKIA", githubMark] ++
  ["passphrase", "password", "secret", "private_key", "seed_phrase", "mnemonic"].map fun s =>
    (py s).map anyCase

/-- No mark stands in the text. -/
def Unmarked (t : PyStr) : Prop := occurs marks t = false

instance (t : PyStr) : Decidable (Unmarked t) := inferInstanceAs (Decidable (occurs marks t = false))

theorem unmarked_iff {t : PyStr} : Unmarked t ↔ ∀ ps ∈ marks, ¬ Found (classes ps) t := by
  rw [Unmarked, ← Bool.not_eq_true, occurs_iff]
  simp only [not_exists, not_and]

/-- A character that stands in no mark. -/
def Neutral (c : CodePoint) : Prop := ∀ ps ∈ marks, ∀ p ∈ ps, p c = false

instance (c : CodePoint) : Decidable (Neutral c) :=
  inferInstanceAs (Decidable (∀ ps ∈ marks, ∀ p ∈ ps, p c = false))

theorem unmarked_nil : Unmarked [] := by decide

/-- A neutral character separates. -/
theorem unmarked_append_cons {x y : PyStr} {c : CodePoint} (hc : Neutral c) :
    Unmarked (x ++ c :: y) ↔ Unmarked x ∧ Unmarked y := by
  simp only [unmarked_iff, ← forall_and]
  refine forall₂_congr fun ps hps => ?_
  rw [found_classes_append_cons (hc ps hps), not_or]

theorem unmarked_cons {y : PyStr} {c : CodePoint} (hc : Neutral c) : Unmarked (c :: y) ↔ Unmarked y := by
  have h := unmarked_append_cons (x := []) (y := y) hc
  rw [List.nil_append] at h
  exact h.trans (and_iff_right unmarked_nil)

theorem unmarked_concat {x : PyStr} {c : CodePoint} (hc : Neutral c) :
    Unmarked (x ++ [c]) ↔ Unmarked x :=
  (unmarked_append_cons hc).trans (and_iff_left unmarked_nil)

/-- Neutral characters in front change nothing. -/
theorem unmarked_append_left {x y : PyStr} (hx : ∀ c ∈ x, Neutral c) : Unmarked (x ++ y) ↔ Unmarked y := by
  induction x with
  | nil => rfl
  | cons c x ih =>
    rw [List.cons_append, unmarked_cons (hx c List.mem_cons_self)]
    exact ih fun d hd => hx d (List.mem_cons_of_mem _ hd)

theorem unmarked_of_neutral {t : PyStr} (h : ∀ c ∈ t, Neutral c) : Unmarked t := by
  rw [← List.append_nil t, unmarked_append_left h]
  exact unmarked_nil

/-- So do neutral characters behind. -/
theorem unmarked_append_right {x y : PyStr} (hy : ∀ c ∈ y, Neutral c) : Unmarked (x ++ y) ↔ Unmarked x := by
  cases y with
  | nil => rw [List.append_nil]
  | cons c y =>
    rw [unmarked_append_cons (hy c List.mem_cons_self)]
    exact and_iff_left (unmarked_of_neutral fun d hd => hy d (List.mem_cons_of_mem _ hd))

/-- A text over an alphabet of which every mark needs a letter outside. -/
theorem unmarked_of_alphabet {alphabet t : PyStr}
    (h : ∀ ps ∈ marks, ∃ p ∈ ps, ∀ c ∈ alphabet, p c = false) (ht : ∀ c ∈ t, c ∈ alphabet) :
    Unmarked t := by
  rw [unmarked_iff]
  intro ps hps hfound
  obtain ⟨p, hp, hno⟩ := h ps hps
  obtain ⟨w, hw, hmatch⟩ := found_classes_iff.mp hfound
  obtain ⟨x, hx, hpx⟩ := exists_right_of_forall₂ hmatch hp
  rw [hno x (ht x (hw.subset hx))] at hpx
  cases hpx

theorem unmarked_hexOf (digest : Bytes) : Unmarked (hexOf digest) :=
  unmarked_of_alphabet (by decide) fun _ hc => mem_hexAlphabet_of_mem_hexOf hc

theorem neutral_of_isDigit {c : CodePoint} (h : c.isDigit = true) : Neutral c := by
  have hall : ∀ n : Fin 10, Neutral ⟨48 + n, by omega⟩ := by decide
  simp only [CodePoint.isDigit, Bool.and_eq_true, decide_eq_true_eq] at h
  have hc : c = ⟨48 + (c.val - 48), by omega⟩ := CodePoint.ext (by simp only; omega)
  rw [hc]
  exact hall ⟨c.val - 48, by omega⟩

/-! ## Clean texts -/

theorem shows_lit {ps : List (CodePoint → Bool)} (hps : ps ∈ marks) {s : String}
    (h : occurs [ps] (py s) = true) : Shows marks (text s) := by
  intro b m a hm
  have hm' : m = py s := matches_lit.mp hm
  obtain ⟨ps', hmem, hfound⟩ := occurs_iff.mp h
  rw [List.mem_singleton.mp hmem] at hfound
  rw [hm']
  exact ⟨ps, hps, hfound⟩

/-- Every match of a rule other than the mnemonic's contains a mark. -/
theorem shows_marks [PyRuntime] {rule : Rule} (hrule : rule ∈ RULES)
    (hne : rule.pattern ≠ mnemonicPhrase) : Shows marks rule.pattern := by
  have hkty : Shows marks jwkKeyType :=
    (shows_lit (show wordClasses "kty" ∈ marks by simp [marks]) (by decide)).seq_left _
  simp only [RULES, List.mem_cons, List.not_mem_nil, or_false] at hrule
  rcases hrule with rfl | rfl | rfl | rfl | rfl | rfl | rfl | rfl | rfl | rfl
  · exact (shows_lit (show wordClasses "-----BEGIN" ∈ marks by simp [marks]) (by decide)).seq_left _
  · exact shows_lit (show wordClasses "BlbnNzaC" ∈ marks by simp [marks]) (by decide)
  · exact hkty.seq_left _
  · exact (hkty.seq_right _).seq_right _
  · exact absurd rfl hne
  · exact ((shows_classes (by simp [marks, wordClasses])).seq_left _).seq_right _
  · exact (shows_lit (show wordClasses "sk-" ∈ marks by simp [marks]) (by decide)).seq_left _
  · rintro b _ a ⟨m₁, _, rfl, h₁, m₂, _, rfl, h₂, m₃, m₄, rfl, h₃, -⟩
    refine ⟨githubMark, by simp [marks], found_classes_iff.mpr ⟨m₁ ++ (m₂ ++ m₃), ⟨[], m₄, ?_⟩, ?_⟩⟩
    · simp only [List.nil_append, List.append_assoc]
    · obtain ⟨c, rfl, hc⟩ := matches_one.mp h₂
      exact List.rel_append (matches_classes.mp h₁) (.cons hc (matches_classes.mp h₃))
  · exact ((shows_classes (by simp [marks, wordClasses])).seq_left _).seq_right _
  · have hword : ∀ s ∈ ["passphrase", "password", "secret", "private_key", "seed_phrase", "mnemonic"],
        Shows marks (textAnyCase s) := fun s hs =>
      shows_classes (List.mem_append_right _ (List.mem_map.mpr ⟨s, hs, rfl⟩))
    refine Shows.seq_right (Shows.seq_left ?_ _) _
    refine .alt (hword _ (by simp)) (.alt (hword _ (by simp)) (.alt (hword _ (by simp))
      (.alt (hword _ (by simp)) (.alt (hword _ (by simp)) (hword _ (by simp))))))

/-- A text without marks is clean, unless it has a line of words. -/
theorem clean_of_unmarked [PyRuntime] {t : PyStr} (h : Unmarked t) (hline : ¬ Found mnemonicPhrase t) :
    Clean t := by
  intro rule hrule
  by_cases hm : rule.pattern = mnemonicPhrase
  · rw [hm]
    exact hline
  · exact not_found_of_shows (shows_marks hrule hm) (unmarked_iff.mp h)

/-! ## Records -/

theorem escape_of_plain {s : PyStr} (h : ∀ c ∈ s, c ∉ escaped) : escape s = s := by
  induction s with
  | nil => rfl
  | cons c s ih =>
    have hc : escapeChar c = [c] :=
      ((mem_escaped_or c).resolve_left (h c List.mem_cons_self)).1
    rw [escape, List.flatMap_cons, hc, ← escape, ih fun d hd => h d (List.mem_cons_of_mem _ hd)]
    rfl

theorem unmarked_quote {s : PyStr} : Unmarked (quote s) ↔ Unmarked (escape s) := by
  have hmark : Neutral (cp '"') := by decide
  rw [quote, unmarked_cons hmark, unmarked_concat hmark]

theorem unmarked_joinWith {sep : CodePoint} (hsep : Neutral sep) {parts : List PyStr}
    (h : ∀ x ∈ parts, Unmarked x) : Unmarked (joinWith sep parts) := by
  induction parts with
  | nil => exact unmarked_nil
  | cons x parts ih =>
    have hx := h x List.mem_cons_self
    have hrest := ih fun y hy => h y (List.mem_cons_of_mem _ hy)
    cases parts with
    | nil => exact hx
    | cons y parts => exact (unmarked_append_cons hsep).mpr ⟨hx, hrest⟩

variable [PyRuntime]

/-- An item of a flat record whose text shows no mark. -/
def PlainItem (kv : PyStr × PyVal) : Prop :=
  Unmarked (escape kv.1) ∧ ∃ x t, kv.2 = .leaf x ∧ dumpsScalar x = .ok t ∧ Unmarked t

/-- Text items are plain as soon as their texts are. -/
theorem plainItem_text {key value : PyStr} (hkey : Unmarked (escape key))
    (hvalue : Unmarked (escape value)) : PlainItem (key, .leaf (.str value)) :=
  ⟨hkey, .str value, _, rfl, rfl, unmarked_quote.mpr hvalue⟩

/-- **A flat record of plain items is written, and its text is clean.** -/
theorem clean_record {items : List (PyStr × PyVal)} (h : ∀ kv ∈ items, PlainItem kv) :
    ∃ t, dumps (.record items) = .ok t ∧ t ≠ [] ∧ Clean t := by
  obtain ⟨n, hn⟩ := Nat.exists_eq_succ_of_ne_zero
    (Nat.ne_of_gt (Nat.lt_of_lt_of_le (by decide) PyRuntime.recursionLimit_ge))
  have hitems : dumpsItems n (items.map fun kv => (Scalar.str kv.1, kv.2)) =
      items.map fun kv => (Scalar.str kv.1, dumpsVal n kv.2) := by
    rw [dumpsItems_eq_map, List.map_map]
    rfl
  let sorted := items.insertionSort fun a b => strLe a.1 b.1 = true
  have hsort := sortItems_strings (fun kv : PyStr × PyVal => kv.1) (fun kv => dumpsVal n kv.2) items
  -- each member is written, without marks
  have hmember : ∀ kv ∈ sorted, ∃ m, member (.str kv.1, dumpsVal n kv.2) = .ok m ∧ Unmarked m := by
    intro kv hkv
    obtain ⟨hkey, x, t, hx, ht, hclean⟩ := h kv ((List.perm_insertionSort _ _).mem_iff.mp hkv)
    have hval : dumpsVal n kv.2 = .ok t := by
      rw [hx]
      cases n <;> exact ht
    refine ⟨_, member_eq_ok.mpr ⟨kv.1, rfl, t, hval, rfl⟩, ?_⟩
    exact (unmarked_append_cons (by decide)).mpr ⟨unmarked_quote.mpr hkey, hclean⟩
  choose! m hm hunmarked using hmember
  have hdumps : dumpsVal (n + 1) (.record items) =
      .ok (cp '{' :: (joinWith (cp ',') (sorted.map m) ++ [cp '}'])) := by
    refine dumpsVal_dict_eq_ok.mpr ⟨_, hitems ▸ hsort, sorted.map m, ?_, rfl⟩
    rw [List.forall₂_map_left_iff, List.forall₂_map_right_iff, List.forall₂_same]
    exact hm
  have hlimit : dumps (.record items) = dumpsVal (n + 1) (.record items) := by
    rw [dumps, hn]
  rw [← hlimit] at hdumps
  refine ⟨_, hdumps, List.cons_ne_nil _ _, clean_of_unmarked ?_ ?_⟩
  · rw [unmarked_cons (by decide), unmarked_concat (by decide)]
    refine unmarked_joinWith (by decide) fun x hx => ?_
    obtain ⟨kv, hkv, rfl⟩ := List.mem_map.mp hx
    exact hunmarked kv hkv
  · refine not_found_mnemonic_line (fun hmem => ?_) fun c hc => ?_
    · exact absurd (ge_of_mem_dumps hdumps hmem) (by decide)
    · obtain rfl : cp '{' = c := by simpa using hc
      decide

end FlopOffice.Proof
