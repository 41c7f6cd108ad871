/-
# FlopOffice.Proof.SecretRefusal — which secrets the ledger refuses.

Columns are scanned as they are; a string inside `meta` is scanned only as part of the JSON text of all
of `meta`, and a match is forgiven if its line carries the allow marker. `Hidden` says where a secret
can therefore hide, and `accepted_clean_iff` that it can hide nowhere else.

A nested string stands in the JSON text as its literal `quote s`, and what a rule finds in the literal
it finds in every text around it (`found_of_quote`): the rules look at one character to each side, and
none of their matches reaches over the quotation marks. So what counts is whether the rule still
matches inside the literal. Four rules always do (`found_quote_of_plain`), three never
(`not_found_mnemonic_quote`, `not_found_jwk_quote`).

The last part asks the opposite: whether public artefacts, a did:key, a signature, a digest, can look
like a secret. The first and the last cannot; a signature can (`artefacts_refused_iff`).
-/
import FlopOffice.Identity.Verifier
import FlopOffice.Proof.LedgerRuns

namespace FlopOffice.Proof

open FlopOffice.Identity FlopOffice.Lib FlopOffice.Lib.Regex FlopOffice.Python FlopOffice.Storage
  FlopOffice.Tools

/-! ## The rules inside a JSON literal -/

section Literal

variable {r : Regex CodePoint} {b m a s t : PyStr}

/-- A match avoids a character that none of the classes admits. -/
theorem not_mem_of_classes {c : CodePoint} (hc : ∀ p ∈ charClasses r, p c = false)
    (h : Matches r b m a) : c ∉ m := by
  intro hm
  obtain ⟨p, hp, hpc⟩ := h.mem_charClasses hm
  rw [hc p hp] at hpc
  cases hpc

theorem head?_quote (s : PyStr) : (quote s).head? = some (cp '"') := rfl

theorem getLast?_quote (s : PyStr) : (quote s).getLast? = some (cp '"') := by
  rw [quote, ← List.cons_append, List.getLast?_concat]

/-- A match that reaches over neither quotation mark is found in every text around the literal. -/
theorem found_of_interior (hr : HeadLooks r)
    (hfirst : ∀ b m a, Matches r b m a → m ≠ [] ∧ m.head? ≠ some (cp '"'))
    (hlast : settled r = true ∨ ∀ b m a, Matches r b m a → cp '"' ∉ m)
    (h : Found r (quote s)) (ht : quote s <:+: t) : Found r t := by
  obtain ⟨pre, m, post, heq, hm⟩ := h
  obtain ⟨hne, hhead⟩ := hfirst _ _ _ hm
  have hpre : pre.reverse ≠ [] := by
    rw [ne_eq, List.reverse_eq_nil_iff]
    rintro rfl
    have hq := head?_quote s
    rw [heq, List.nil_append, List.head?_append_of_ne_nil _ hne] at hq
    exact hhead hq
  have hpost : post ≠ [] ∨ settled r = true := by
    refine hlast.symm.imp_left fun hno => ?_
    rintro rfl
    have hq := getLast?_quote s
    rw [heq, List.append_nil, List.getLast?_append_of_ne_nil _ hne] at hq
    exact hno _ _ _ hm (List.mem_of_getLast? hq)
  obtain ⟨l, l', rfl⟩ := ht
  refine ⟨l ++ pre, m, post ++ l', by simp only [heq, List.append_assoc], ?_⟩
  rw [List.reverse_append]
  exact hm.extend hr hpre hpost l.reverse l'

/-- The mnemonic rule does not match in a single line that starts with something else. -/
theorem not_found_mnemonic_line {t : PyStr} (hline : cp '\n' ∉ t)
    (hstart : ∀ c ∈ t.head?, ∀ p ∈ charClasses mnemonicPhrase, p c = false) :
    ¬ Found mnemonicPhrase t := by
  rintro ⟨pre, m, post, heq, hm⟩
  have hlen : minLength mnemonicPhrase ≤ m.length := hm.minLength_le
  have hbefore : pre.reverse.head?.all (fun c => c == cp '\n') = true := by
    rcases hm with ⟨_, _, -, ⟨-, h⟩, -⟩ | ⟨_, _, -, ⟨-, h⟩, -⟩
    · exact h
    · exact h
  cases hp : pre.reverse with
  | nil =>
    rw [List.reverse_eq_nil_iff.mp hp, List.nil_append] at heq
    have hne : m ≠ [] := List.ne_nil_of_length_pos (Nat.lt_of_lt_of_le (by decide) hlen)
    obtain ⟨c, m', rfl⟩ := List.exists_cons_of_ne_nil hne
    have hhead : c ∈ t.head? := by
      rw [heq]
      exact rfl
    exact not_mem_of_classes (hstart c hhead) hm List.mem_cons_self
  | cons c rest =>
    -- the match would follow a line feed
    rw [hp] at hbefore
    have hc : c = cp '\n' := by simpa using hbefore
    have hcp : c ∈ pre := List.mem_reverse.mp (hp ▸ List.mem_cons_self)
    refine hline ?_
    rw [← hc, heq]
    exact List.mem_append_left _ (List.mem_append_left _ hcp)

/-- The mnemonic rule never matches inside a literal: its line starts at a quotation mark. -/
theorem not_found_mnemonic_quote (s : PyStr) : ¬ Found mnemonicPhrase (quote s) := by
  refine not_found_mnemonic_line (fun hmem => ?_) fun c hc => ?_
  · exact absurd (ge_of_mem_quote hmem) (by decide)
  · obtain rfl : cp '"' = c := by simpa [head?_quote] using hc
    decide

/-- Inside a literal a quotation mark stands behind a backslash. -/
theorem backslash_of_quote_mark {x y : PyStr} (h : escape s ++ [cp '"'] = x ++ cp '"' :: y)
    (hy : y ≠ []) : x.getLast? = some (cp '\\') := by
  have hmark : ∀ c ∈ escaped, c ≠ cp '"' → cp '"' ∉ escapeChar c := by decide
  induction s generalizing x with
  | nil =>
    have hlen := congrArg List.length h
    have hpos := List.length_pos_of_ne_nil hy
    simp only [escape, List.flatMap_nil, List.nil_append, List.length_cons, List.length_nil,
      List.length_append] at hlen
    omega
  | cons c s ih =>
    rw [escape, List.flatMap_cons, ← escape, List.append_assoc, List.append_eq_append_iff] at h
    rcases h with ⟨z, rfl, hz⟩ | ⟨z, hc, hz⟩
    · have hlast := ih hz
      have hne : z ≠ [] := by
        rintro rfl
        cases hlast
      rw [List.getLast?_append_of_ne_nil _ hne, hlast]
    · cases z with
      | nil =>
        rw [List.nil_append] at hz
        cases ih (x := []) hz.symm
      | cons d z =>
        obtain ⟨rfl, -⟩ := List.cons.inj hz
        have hmem : cp '"' ∈ escapeChar c := by rw [hc]; simp
        rcases mem_escaped_or c with he | ⟨hsame, -, hq, -⟩
        · by_cases hcq : c = cp '"'
          · subst hcq
            have hpair : x ++ cp '"' :: z = [cp '\\'] ++ cp '"' :: [] := hc.symm
            obtain ⟨rfl, -⟩ : x = [cp '\\'] ∧ z = [] := by
              cases x with
              | nil => exact absurd (List.cons.inj hpair).1 (by decide)
              | cons a x =>
                obtain ⟨rfl, hx⟩ := List.cons.inj hpair
                cases x with
                | nil => exact ⟨rfl, (List.cons.inj hx).2⟩
                | cons a' x =>
                  exact absurd (List.cons.inj hx).2
                    (List.append_ne_nil_of_right_ne_nil _ (List.cons_ne_nil _ _))
            rfl
          · exact absurd hmem (hmark c he hcq)
        · rw [hsame, List.mem_singleton] at hmem
          exact absurd hmem.symm hq

/-- A JSON key of a JWK never stands inside a literal: its second quotation mark would be escaped. -/
theorem not_found_jwk_quote (s : PyStr) :
    ¬ Found jwkPrivateParams (quote s) ∧ ¬ Found jwkPrivateParamsReversed (quote s) := by
  have key : ∀ (pre name rest : PyStr), (∀ c ∈ name, c ≠ cp '\\') → name ≠ [] → rest ≠ [] →
      quote s ≠ pre ++ (cp '"' :: name ++ cp '"' :: rest) := by
    intro pre name rest hname hne hrest h
    have hcut : ∃ x, escape s ++ [cp '"'] = (x ++ name) ++ cp '"' :: rest := by
      cases pre with
      | nil => exact ⟨[], (List.cons.inj h).2⟩
      | cons c pre => exact ⟨pre ++ [cp '"'], by simpa using (List.cons.inj h).2⟩
    obtain ⟨x, hx⟩ := hcut
    have hlast := backslash_of_quote_mark hx hrest
    rw [List.getLast?_append_of_ne_nil _ hne] at hlast
    exact hname _ (List.mem_of_getLast? hlast) rfl
  have hkty : py "\"kty\"" = cp '"' :: py "kty" ++ cp '"' :: [] := by decide
  have hd : py "\"d\"" = cp '"' :: py "d" ++ cp '"' :: [] := by decide
  constructor
  · rintro ⟨pre, _, post, heq, m₁, m₂, rfl, ⟨k, m₃, rfl, hk, ⟨m₄, m₅, rfl, -, m₆, m₇, rfl, hcolon, -⟩⟩, -⟩
    rw [show k = _ from matches_lit.mp hk, show m₆ = _ from matches_lit.mp hcolon, hkty] at heq
    refine key pre (py "kty") (m₄ ++ (py ":" ++ m₇) ++ m₂ ++ post) (by decide) (by decide) ?_
      (heq.trans (by simp only [List.append_assoc, List.cons_append, List.nil_append]))
    simp [py]
  · rintro ⟨pre, _, post, heq, m₁, m₂, rfl, ⟨k, m₃, rfl, hk, ⟨m₄, m₅, rfl, -, m₆, m₇, rfl, hcolon, -⟩⟩, -⟩
    rw [show k = _ from matches_lit.mp hk, show m₆ = _ from matches_lit.mp hcolon, hd] at heq
    refine key pre (py "d") (m₄ ++ (py ":" ++ m₇) ++ m₂ ++ post) (by decide) (by decide) ?_
      (heq.trans (by simp only [List.append_assoc, List.cons_append, List.nil_append]))
    simp [py]

/-- A match without escaped characters stands in the literal as it stands in the string. -/
theorem found_quote_of_plain (hr : LookFree r) (hcl : ∀ p ∈ charClasses r, ∀ c ∈ escaped, p c = false)
    (h : Found r s) : Found r (quote s) := by
  obtain ⟨pre, m, post, rfl, hm⟩ := h
  have hsame : escape m = m := by
    have hplain : ∀ c ∈ m, escapeChar c = [c] := by
      intro c hc
      rcases mem_escaped_or c with he | ⟨he, -⟩
      · exact absurd hc (not_mem_of_classes (fun p hp => hcl p hp c he) hm)
      · exact he
    rw [escape, List.flatMap_congr hplain, List.flatMap_singleton']
  refine ⟨cp '"' :: escape pre, m, escape post ++ [cp '"'], ?_, hm.change_context hr _ _⟩
  simp only [quote, escape, List.flatMap_append, List.append_assoc, List.cons_append]
  rw [← escape, ← escape, ← escape, hsame]

/-- The rules whose matches always survive the encoding: PEM blocks, OpenSSH keys, and the keys of
Anthropic and GitHub. -/
theorem found_quote_of_found {pattern : Regex CodePoint}
    (hp : pattern = pemPrivateKeyBlock ∨ pattern = opensshPrivateKey ∨
      pattern = apikeyAnthropic ∨ pattern = apikeyGithub) (h : Found pattern s) :
    Found pattern (quote s) := by
  rcases hp with rfl | rfl | rfl | rfl
  · exact found_quote_of_plain (by decide) (by decide) h
  · exact found_quote_of_plain (by decide) (by decide) h
  · exact found_quote_of_plain (by decide) (by decide) h
  · exact found_quote_of_plain (by decide) (by decide) h

variable [PyRuntime]

/-- What a rule finds in a literal it finds in every text around the literal. -/
theorem found_of_quote {rule : Rule} (hrule : rule ∈ RULES) (h : Found rule.pattern (quote s))
    (ht : quote s <:+: t) : Found rule.pattern t := by
  have hnotAfter : ∀ p, HeadLooks (notAfter p) := by
    intro p b a b' a' hb _
    simp only [hb]
  have hnotBefore : ∀ p, HeadLooks (notBefore p) := by
    intro p b a b' a' _ ha
    simp only [ha]
  have hboundary : HeadLooks wordBoundary := by
    intro b a b' a' hb ha
    simp only [hb, ha]
  -- a match without quotation marks does not start with one
  have hfirst : ∀ r, (∀ p ∈ charClasses r, p (cp '"') = false) → 0 < minLength r →
      ∀ b m a, Matches r b m a → m ≠ [] ∧ m.head? ≠ some (cp '"') := by
    intro r hcl hlen b m a hm
    have hle := hm.minLength_le
    refine ⟨List.ne_nil_of_length_pos (by omega), fun hh => ?_⟩
    exact not_mem_of_classes hcl hm (List.mem_of_head? hh)
  simp only [RULES, List.mem_cons, List.not_mem_nil, or_false] at hrule
  rcases hrule with rfl | rfl | rfl | rfl | rfl | rfl | rfl | rfl | rfl | rfl
  · exact h.of_infix (by decide) ht
  · exact h.of_infix (by decide) ht
  · exact h.of_infix (by decide) ht
  · exact h.of_infix (by decide) ht
  · exact absurd h (not_found_mnemonic_quote s)
  · -- OpenAI: one assertion, in front
    refine found_of_interior ⟨hnotAfter _, LookFree.headLooks (by decide)⟩
      (hfirst _ (by decide) (by decide)) (Or.inl (by decide)) h ht
  · exact h.of_infix (by decide) ht
  · exact h.of_infix (by decide) ht
  · -- AWS: an assertion on either side, and no quotation mark in a match
    have hcl : ∀ p ∈ charClasses apikeyAws, p (cp '"') = false := by decide
    refine found_of_interior ⟨hnotAfter _, LookFree.headLooks (by decide), trivial,
      hnotBefore _⟩ (hfirst _ hcl (by decide))
      (Or.inr fun _ _ _ hm => not_mem_of_classes hcl hm) h ht
  · -- a passphrase: the assertions stand around the word, the closing mark may be the literal's own
    refine found_of_interior ⟨hboundary, LookFree.headLooks (by decide), hboundary,
      LookFree.headLooks (by decide)⟩ ?_ (Or.inl rfl) h ht
    rintro b _ a ⟨_, _, rfl, ⟨rfl, -⟩, w, rest, rfl, hw, -⟩
    obtain ⟨hne, hhead⟩ := hfirst _ (by decide) (by decide) _ _ _ hw
    rw [List.nil_append, List.head?_append_of_ne_nil _ hne]
    exact ⟨List.append_ne_nil_of_left_ne_nil hne _, hhead⟩

end Literal

/-! ## What the ledger accepts -/

section Refusal

variable [PyRuntime] {a : Activity} {metaText : Option PyStr}

theorem prepare_eq_ok : prepare a = .ok metaText ↔
    validate a = .ok () ∧ metaJson a = .ok metaText ∧ refuseSecrets a metaText = .ok () := by
  simp only [prepare, bind_eq_ok, pure, Except.pure, Except.ok.injEq]
  constructor
  · rintro ⟨_, hv, m, hm, _, hr, rfl⟩
    exact ⟨hv, hm, hr⟩
  · rintro ⟨hv, hm, hr⟩
    exact ⟨(), hv, metaText, hm, (), hr, rfl⟩

theorem refuseSecrets_eq_ok : refuseSecrets a metaText = .ok () ↔
    (a.metadata.map nesting).getD 0 ≤ PyRuntime.copyLimit ∧
      ∀ t ∈ stringColumns a ++ (metaText.toList.filter fun t => !t.isEmpty),
        scanText t (py "<ledger-write>") = [] := by
  unfold refuseSecrets
  split
  · rename_i hdeep
    exact iff_of_false nofun fun h => absurd h.1 (Nat.not_le.mpr hdeep)
  · rename_i hdeep
    rw [← List.flatMap_eq_nil_iff]
    dsimp only
    split
    · rename_i hnil
      exact iff_of_true rfl ⟨Nat.not_lt.mp hdeep, hnil⟩
    · rename_i hnil
      exact iff_of_false nofun fun h => hnil h.2

/-- Every string value of an activity: its columns, and every string at any depth of `meta`. -/
def Activity.strings (a : Activity) : List PyStr :=
  stringColumns a ++ (a.metadata.map Python.strings).getD []

omit [PyRuntime] in
/-- The first line of a text carries the allow marker. -/
def Marked (t : PyStr) : Prop := ALLOW_MARKER <:+: t.takeWhile fun c => !isLineBreak c

/-- Where a secret hides from the scan: in a column, behind a marker on the line of every match; in
`meta`, in a string whose JSON literal the rule no longer matches, or behind a marker in the first line
of the whole JSON text. -/
def Hidden (a : Activity) : Prop :=
  (∃ s ∈ stringColumns a, ∃ rule ∈ RULES, Found rule.pattern s ∧
    ∀ m ∈ finditer rule.pattern s, allowed s m.1.before = true) ∨
  ∃ v, a.metadata = some v ∧ ∃ s ∈ Python.strings v, ∃ rule ∈ RULES, Found rule.pattern s ∧
    (¬ Found rule.pattern (quote s) ∨ ∃ t, dumps v = .ok t ∧ Marked t)

omit [PyRuntime] in
/-- On a text without line feeds every match is looked up in the first line. -/
theorem marked_of_allowed {t : PyStr} {r : Regex CodePoint} (ht : cp '\n' ∉ t)
    {m : Cursor CodePoint × Cursor CodePoint} (hm : m ∈ finditer r t)
    (h : allowed t m.1.before = true) : Marked t := by
  obtain ⟨s, e⟩ := m
  have htext := (finditerAux_sound hm).2
  have hline : lineNumber s.before = 1 := by
    rw [lineNumber, List.count_eq_zero_of_not_mem]
    intro hmem
    refine ht ?_
    rw [← show s.before.reverse ++ s.after = t from htext]
    exact List.mem_append_left _ (List.mem_reverse.mpr hmem)
  rw [allowed, hline, decide_eq_true_eq, lookupLine, splitlines_getD_zero] at h
  exact h

/-- **Where secrets hide.** The string values of an accepted activity are free of secrets exactly if
none hides from the scan. -/
theorem accepted_clean_iff (h : prepare a = .ok metaText) :
    (∀ s ∈ a.strings, Clean s) ↔ ¬ Hidden a := by
  obtain ⟨-, hmeta, hrefuse⟩ := prepare_eq_ok.mp h
  obtain ⟨-, hscan⟩ := refuseSecrets_eq_ok.mp hrefuse
  constructor
  · rintro hclean (⟨s, hs, rule, hrule, hfound, -⟩ | ⟨v, hv, s, hs, rule, hrule, hfound, -⟩)
    · exact hclean s (List.mem_append_left _ hs) rule hrule hfound
    · refine hclean s (List.mem_append_right _ ?_) rule hrule hfound
      rw [hv]
      exact hs
  · intro hhidden s hs rule hrule hfound
    rcases List.mem_append.mp hs with hs | hs
    · -- a column was scanned as it is
      refine hhidden (Or.inl ⟨s, hs, rule, hrule, hfound, ?_⟩)
      exact scanText_eq_nil_iff.mp (hscan s (List.mem_append_left _ hs)) rule hrule
    · cases hv : a.metadata with
      | none =>
        rw [hv] at hs
        cases hs
      | some v =>
        rw [hv] at hs
        obtain ⟨t, ht, rfl⟩ : ∃ t, dumps v = .ok t ∧ some t = metaText := by
          rw [metaJson, hv] at hmeta
          exact map_eq_ok.mp hmeta
        refine hhidden (Or.inr ⟨v, hv, s, hs, rule, hrule, hfound, ?_⟩)
        by_cases hquote : Found rule.pattern (quote s)
        · -- the literal stands in the JSON text, and the text was scanned
          have hinfix : quote s <:+: t := quote_infix_of_mem_strings ht hs
          have hne : t ≠ [] := by
            rintro rfl
            exact absurd (List.infix_nil.mp hinfix) (List.cons_ne_nil _ _)
          have hclean := scanText_eq_nil_iff.mp (hscan t (List.mem_append_right _ (by
            simp [hne]))) rule hrule
          have hhit : finditer rule.pattern t ≠ [] := fun h0 =>
            finditer_eq_nil_iff.mp h0 (found_of_quote hrule hquote hinfix)
          obtain ⟨m, hm⟩ := List.exists_mem_of_ne_nil _ hhit
          have hfeed : cp '\n' ∉ t := fun hc => absurd (ge_of_mem_dumps ht hc) (by decide)
          exact Or.inr ⟨t, ht, marked_of_allowed hfeed hm (hclean m hm)⟩
        · exact Or.inl hquote

end Refusal

/-! ### A mnemonic phrase, in a column and in `meta` -/

section Phrase

attribute [local instance] asciiRuntime

/-- Twelve words. -/
def phrase : PyStr :=
  py "able acid also area army atom " ++ py "aunt auto away baby bag bar"

/-- A note with the phrase nested in `meta`. -/
def nestedNote : Activity :=
  { noteActivity with metadata := some (.record [(py "words", .leaf (.str phrase))]) }

/-- The `meta_json` of the note. -/
def nestedText : PyStr := cp '{' :: quote (py "words") ++ cp ':' :: quote phrase ++ [cp '}']

theorem prepare_nestedNote : prepare nestedNote = .ok (some nestedText) := by
  decide +kernel

/-- Nothing stops the insert. -/
theorem nestedNote_appended (bits : Nat) (now : UtcTime) : ∃ record db',
    (appendBlock nestedNote (some nestedText) (uuid4 bits) now.isoformat).run ⟨[], []⟩ =
      .ok (record, db') := by
  have hhex : ∀ c ∈ hexAlphabet ++ py "-T:+", c.isSurrogate = false := by decide
  have hid : ∃ b, utf8 (uuid4 bits) = .ok b := utf8_isOk_iff.mpr fun c hc => hhex c (by
    rcases mem_uuid4 hc with h | rfl
    · exact List.mem_append_left _ h
    · decide)
  have hnow : ∃ b, utf8 now.isoformat = .ok b := utf8_isOk_iff.mpr fun c hc => hhex c (by
    rcases mem_isoformat hc with h | h
    · exact List.mem_append_left _ h
    · exact List.mem_append_right _ h)
  refine (appendBlock_succeeds_iff (prepare_eq_ok.mp prepare_nestedNote).1
    ChainInvariant.empty.sound).mpr ⟨fun c => ?_, nofun, nofun, fun _ _ _ _ => nofun⟩
  cases c with
  | activityId => exact ⟨_, bindValue_str.mpr ⟨hid, rfl⟩⟩
  | recordedAt => exact ⟨_, bindValue_str.mpr ⟨hnow, rfl⟩⟩
  | _ => exact ⟨_, rfl⟩

theorem not_clean_phrase : ¬ Clean phrase := by
  intro h
  have hrule : (⟨py "seed.mnemonic-phrase", mnemonicPhrase,
      py "possible BIP39 mnemonic (12/24 words)"⟩ : Rule) ∈ RULES := by simp [RULES]
  have hhit : finditer mnemonicPhrase phrase ≠ [] := by decide
  exact hhit (finditer_eq_nil_iff.mpr (h _ hrule))

theorem phrase_mem_nestedNote : phrase ∈ nestedNote.strings := by
  decide

theorem accepted_clean_iff_nested : Hidden nestedNote ∧ ¬ Hidden noteActivity := by
  constructor
  · by_contra hhidden
    exact not_clean_phrase ((accepted_clean_iff prepare_nestedNote).mpr hhidden _
      phrase_mem_nestedNote)
  · have hprepare : prepare noteActivity = .ok none := by decide
    refine (accepted_clean_iff hprepare).mp fun s hs rule hrule => ?_
    have hall : ∀ s ∈ noteActivity.strings, ∀ rule ∈ RULES, finditer rule.pattern s = [] := by
      decide +kernel
    exact finditer_eq_nil_iff.mp (hall s hs rule hrule)

/-- **A nested secret is stored.** The phrase is accepted inside `meta` and refused in a column. -/
theorem nested_secret_accepted :
    prepare nestedNote = .ok (some nestedText) ∧
      (∀ bits (now : UtcTime), ∃ record db', (appendBlock nestedNote (some nestedText) (uuid4 bits)
        now.isoformat).run ⟨[], []⟩ = .ok (record, db')) ∧
      phrase ∈ nestedNote.strings ∧ ¬ Clean phrase ∧
      (prepare { noteActivity with model := some phrase }).isOk = false :=
  ⟨prepare_nestedNote, nestedNote_appended, phrase_mem_nestedNote, not_clean_phrase,
    by decide +kernel⟩

end Phrase

/-! ## Public artefacts -/

section Artefacts

variable {r : Regex CodePoint} {t text path : PyStr}

/-- A text over an alphabet that misses a needed class. -/
theorem not_found_of_alphabet {alphabet : PyStr}
    (h : (needs r).any (fun p => alphabet.all fun c => !p c) = true) (ht : ∀ c ∈ t, c ∈ alphabet) :
    ¬ Found r t := by
  obtain ⟨p, hp, hall⟩ := List.any_eq_true.mp h
  refine not_found_of_needs hp fun c hc => ?_
  simpa using List.all_eq_true.mp hall c (ht c hc)

theorem not_found_mnemonic {alphabet : PyStr} (h : cp ' ' ∉ alphabet) (ht : ∀ c ∈ t, c ∈ alphabet) :
    ¬ Found mnemonicPhrase t := by
  have hneeds : ∀ n ∈ [11, 23], ∃ p ∈ needs (mnemonicLine n), ∀ c, p c = true → c = cp ' ' := by
    have hlit : ∀ c : CodePoint, (cp ' ' == c) = true → c = cp ' ' := fun c hc => (beq_iff_eq.mp hc).symm
    intro n hn
    simp only [List.mem_cons, List.not_mem_nil, or_false] at hn
    rcases hn with rfl | rfl
    · exact ⟨_, by simp [mnemonicLine, needs, cat, times, text, lit, py, classes, one], hlit⟩
    · exact ⟨_, by simp [mnemonicLine, needs, cat, times, text, lit, py, classes, one], hlit⟩
  have hline : ∀ n ∈ [11, 23], ¬ Found (mnemonicLine n) t := by
    intro n hn
    obtain ⟨p, hp, hspace⟩ := hneeds n hn
    refine not_found_of_needs hp fun c hc => ?_
    by_contra hpc
    rw [Bool.not_eq_false] at hpc
    exact h (hspace c hpc ▸ ht c hc)
  rintro ⟨pre, m, post, heq, hm | hm⟩
  · exact hline 11 (by simp) ⟨pre, m, post, heq, hm⟩
  · exact hline 23 (by simp) ⟨pre, m, post, heq, hm⟩

/-- The clashes: what makes the text of a signature look like an OpenSSH key or like an API key. -/
def Clash (sig : PyStr) : Prop :=
  py "b3BlbnNzaC1rZXktdjE" <:+: sig ∨
  (∃ pre post, sig = pre ++ py "sk-" ++ post ∧ 20 ≤ post.length ∧
    ∀ c ∈ pre.getLast?, alnum c = false) ∨
  (∃ pre post, sig = pre ++ py "sk-ant-" ++ post ∧ 20 ≤ post.length) ∨
  (∃ pre c run post, sig = pre ++ (py "gh" ++ c :: cp '_' :: run) ++ post ∧ c ∈ py "pousr" ∧
    30 ≤ run.length ∧ ∀ x ∈ run, alnum x = true) ∨
  ∃ pre run post, sig = pre ++ (py "AKIA" ++ run) ++ post ∧ run.length = 16 ∧
    (∀ x ∈ run, upperDigit x = true) ∧ (∀ c ∈ pre.getLast?, upperDigit c = false) ∧
    ∀ c ∈ post.head?, upperDigit c = false

theorem found_lit {w : PyStr} : Found (lit w) t ↔ w <:+: t := by
  constructor
  · rintro ⟨pre, m, post, rfl, hm⟩
    rw [matches_lit.mp hm]
    exact ⟨pre, post, rfl⟩
  · rintro ⟨pre, post, rfl⟩
    exact ⟨pre, w, post, rfl, matches_lit.mpr rfl⟩

/-- A literal and everything after it, where the class of the tail admits the whole text. -/
theorem found_lit_atLeast {w : PyStr} {n : Nat} {p : CodePoint → Bool} (hp : ∀ c ∈ t, p c = true) :
    Found (seq (lit w) (atLeast n p)) t ↔ ∃ pre post, t = pre ++ w ++ post ∧ n ≤ post.length := by
  constructor
  · rintro ⟨pre, _, post, rfl, m₁, m₂, rfl, h₁, -, hlen, -⟩
    rw [matches_lit.mp h₁]
    refine ⟨pre, m₂ ++ post, by simp only [List.append_assoc], ?_⟩
    rw [List.length_append]
    omega
  · rintro ⟨pre, post, rfl, hlen⟩
    refine ⟨pre, w ++ post, [], by simp only [List.append_assoc, List.append_nil], w, post, rfl,
      matches_lit.mpr rfl, fun c hc => hp c (List.mem_append_right _ hc), hlen, nofun⟩

theorem notAfter_iff {p : CodePoint → Bool} {b a m : PyStr} :
    Matches (notAfter p) b m a ↔ m = [] ∧ ∀ c ∈ b.head?, p c = false := by
  cases b <;> simp [notAfter, Matches]

theorem notBefore_iff {p : CodePoint → Bool} {b a m : PyStr} :
    Matches (notBefore p) b m a ↔ m = [] ∧ ∀ c ∈ a.head?, p c = false := by
  cases a <;> simp [notBefore, Matches]

theorem found_apikeyOpenai (ht : ∀ c ∈ t, urlSafe c = true) :
    Found apikeyOpenai t ↔ ∃ pre post, t = pre ++ py "sk-" ++ post ∧ 20 ≤ post.length ∧
      ∀ c ∈ pre.getLast?, alnum c = false := by
  constructor
  · rintro ⟨pre, _, post, rfl, m₀, _, rfl, h₀, m₁, m₂, rfl, h₁, -, hlen, -⟩
    obtain ⟨rfl, hbefore⟩ := notAfter_iff.mp h₀
    rw [show m₁ = _ from matches_lit.mp h₁]
    refine ⟨pre, m₂ ++ post, by simp only [List.nil_append, List.append_assoc], ?_, ?_⟩
    · rw [List.length_append]
      omega
    · rwa [List.head?_reverse] at hbefore
  · rintro ⟨pre, post, rfl, hlen, hbefore⟩
    rw [← List.head?_reverse] at hbefore
    refine ⟨pre, py "sk-" ++ post, [], by simp only [List.append_assoc, List.append_nil], [], _, rfl,
      notAfter_iff.mpr ⟨rfl, hbefore⟩, py "sk-", post, rfl, matches_lit.mpr rfl, ?_, hlen, nofun⟩
    exact fun c hc => ht c (List.mem_append_right _ hc)

theorem found_apikeyGithub :
    Found apikeyGithub t ↔ ∃ pre c run post, t = pre ++ (py "gh" ++ c :: cp '_' :: run) ++ post ∧
      c ∈ py "pousr" ∧ 30 ≤ run.length ∧ ∀ x ∈ run, alnum x = true := by
  constructor
  · rintro ⟨pre, _, post, rfl, m₁, _, rfl, h₁, m₂, _, rfl, h₂, m₃, run, rfl, h₃, hrun, hlen, -⟩
    obtain ⟨c, rfl, hc⟩ := matches_one.mp h₂
    rw [show m₁ = _ from matches_lit.mp h₁, show m₃ = _ from matches_lit.mp h₃]
    exact ⟨pre, c, run, post, rfl, of_decide_eq_true hc, hlen, hrun⟩
  · rintro ⟨pre, c, run, post, rfl, hc, hlen, hrun⟩
    exact ⟨pre, _, post, rfl, py "gh", _, rfl, matches_lit.mpr rfl, [c], _, rfl,
      matches_one.mpr ⟨c, rfl, decide_eq_true hc⟩, py "_", run, rfl, matches_lit.mpr rfl, hrun, hlen,
      nofun⟩

theorem found_apikeyAws :
    Found apikeyAws t ↔ ∃ pre run post, t = pre ++ (py "AKIA" ++ run) ++ post ∧ run.length = 16 ∧
      (∀ x ∈ run, upperDigit x = true) ∧ (∀ c ∈ pre.getLast?, upperDigit c = false) ∧
      ∀ c ∈ post.head?, upperDigit c = false := by
  constructor
  · rintro ⟨pre, _, post, rfl, m₀, _, rfl, h₀, m₁, _, rfl, h₁, run, m₃, rfl, ⟨hrun, hge, hle⟩, h₃⟩
    obtain ⟨rfl, hbefore⟩ := notAfter_iff.mp h₀
    obtain ⟨rfl, hafter⟩ := notBefore_iff.mp h₃
    rw [show m₁ = _ from matches_lit.mp h₁]
    rw [List.head?_reverse] at hbefore
    refine ⟨pre, run, post, by simp only [List.nil_append, List.append_nil], ?_, hrun, hbefore, hafter⟩
    have hle := hle 16 rfl
    omega
  · rintro ⟨pre, run, post, rfl, hlen, hrun, hbefore, hafter⟩
    rw [← List.head?_reverse] at hbefore
    refine ⟨pre, _, post, rfl, [], _, rfl, notAfter_iff.mpr ⟨rfl, hbefore⟩, py "AKIA", run, rfl,
      matches_lit.mpr rfl, run, [], by rw [List.append_nil], ⟨hrun, hlen.ge, ?_⟩,
      notBefore_iff.mpr ⟨rfl, hafter⟩⟩
    rintro h ⟨⟩
    exact hlen.le

variable [PyRuntime]

theorem not_found_passphrase (h : ∀ c ∈ t, quoteMark c = false) : ¬ Found passphraseAssignment t := by
  have hneeds : quoteMark ∈ needs (passphraseAssignment : Regex CodePoint) := by
    simp [passphraseAssignment, needs, cat, one]
  exact not_found_of_needs hneeds h

/-- A text over an alphabet that each rule but the mnemonic's misses is clean, without blanks. -/
theorem clean_of_alphabet {alphabet : PyStr} (hblank : cp ' ' ∉ alphabet)
    (hmark : ∀ c ∈ alphabet, quoteMark c = false)
    (h : [pemPrivateKeyBlock, opensshPrivateKey, jwkPrivateParams, jwkPrivateParamsReversed,
      apikeyOpenai, apikeyAnthropic, apikeyGithub, apikeyAws].all
        (fun r => (needs r).any fun p => alphabet.all fun c => !p c) = true)
    (ht : ∀ c ∈ t, c ∈ alphabet) : Clean t := by
  have hrest := fun r hr => not_found_of_alphabet (List.all_eq_true.mp h r hr) ht
  intro rule hrule
  simp only [RULES, List.mem_cons, List.not_mem_nil, or_false] at hrule
  rcases hrule with rfl | rfl | rfl | rfl | rfl | rfl | rfl | rfl | rfl | rfl
  · exact hrest _ (by simp)
  · exact hrest _ (by simp)
  · exact hrest _ (by simp)
  · exact hrest _ (by simp)
  · exact not_found_mnemonic hblank ht
  · exact hrest _ (by simp)
  · exact hrest _ (by simp)
  · exact hrest _ (by simp)
  · exact hrest _ (by simp)
  · exact not_found_passphrase fun c hc => hmark c (ht c hc)

theorem clean_encodeDidKey {key : Bytes} (h : encodeDidKey key = .ok t) : Clean t :=
  clean_of_alphabet (by decide) (by decide) (by decide) fun _ hc => mem_encodeDidKey h hc

theorem clean_hexOf (digest : Bytes) : Clean (hexOf digest) :=
  clean_of_alphabet (by decide) (by decide) (by decide) fun _ hc =>
    mem_hexAlphabet_of_mem_hexOf hc

theorem clean_nil : Clean [] := by
  have halphabet : ∀ c ∈ ([] : PyStr), c ∈ ([] : PyStr) := nofun
  exact clean_of_alphabet (by decide) (by decide) (by decide) halphabet

/-- The text of a signature is clean exactly if it does not clash. -/
theorem clean_signature_iff {raw : Bytes} : Clean (base64Unpadded raw) ↔ ¬ Clash (base64Unpadded raw) := by
  have hmem : ∀ c ∈ base64Unpadded raw, c ∈ base64Alphabet := fun _ hc => mem_base64Alphabet hc
  have hsafe : ∀ c ∈ base64Unpadded raw, urlSafe c = true := by
    have hall : ∀ c ∈ base64Alphabet, urlSafe c = true := by decide
    exact fun c hc => hall c (hmem c hc)
  have hmark : ∀ c ∈ base64Unpadded raw, quoteMark c = false := by
    have hall : ∀ c ∈ base64Alphabet, quoteMark c = false := by decide
    exact fun c hc => hall c (hmem c hc)
  constructor
  · intro hclean hclash
    have hno : ∀ r ∈ RULES.map Rule.pattern, ¬ Found r (base64Unpadded raw) :=
      List.forall_mem_map.mpr hclean
    rcases hclash with h | h | h | h | h
    · exact hno opensshPrivateKey (by simp [RULES]) (found_lit.mpr h)
    · exact hno apikeyOpenai (by simp [RULES]) ((found_apikeyOpenai hsafe).mpr h)
    · exact hno apikeyAnthropic (by simp [RULES]) ((found_lit_atLeast hsafe).mpr h)
    · exact hno apikeyGithub (by simp [RULES]) (found_apikeyGithub.mpr h)
    · exact hno apikeyAws (by simp [RULES]) (found_apikeyAws.mpr h)
  · intro hclash rule hrule
    simp only [RULES, List.mem_cons, List.not_mem_nil, or_false] at hrule
    rcases hrule with rfl | rfl | rfl | rfl | rfl | rfl | rfl | rfl | rfl | rfl
    · exact not_found_of_alphabet (by decide) hmem
    · exact fun h => hclash (Or.inl (found_lit.mp h))
    · exact not_found_of_alphabet (by decide) hmem
    · exact not_found_of_alphabet (by decide) hmem
    · exact not_found_mnemonic (by decide) hmem
    · exact fun h => hclash (Or.inr (Or.inl ((found_apikeyOpenai hsafe).mp h)))
    · exact fun h => hclash (Or.inr (Or.inr (Or.inl ((found_lit_atLeast hsafe).mp h))))
    · exact fun h => hclash (Or.inr (Or.inr (Or.inr (Or.inl (found_apikeyGithub.mp h)))))
    · exact fun h => hclash (Or.inr (Or.inr (Or.inr (Or.inr (found_apikeyAws.mp h)))))
    · exact not_found_passphrase hmark

/-- The public artefacts of an activity: its did, its signature and its hashes. -/
def Activity.artefacts (a : Activity) : List PyStr :=
  [some a.agentDid, a.signature, a.signedPayloadHash, a.resultHash].filterMap id

/-- The activity with its public artefacts left out. -/
def Activity.withoutArtefacts (a : Activity) : Activity :=
  { a with agentDid := [], signature := none, signedPayloadHash := none, resultHash := none }

theorem scan_stringColumns_iff {a : Activity} :
    (∀ t ∈ stringColumns a, scanText t path = []) ↔
      (∀ t ∈ a.artefacts, scanText t path = []) ∧
        ∀ t ∈ stringColumns a.withoutArtefacts, scanText t path = [] := by
  have hnil : scanText [] path = [] := scanText_of_clean clean_nil path
  simp only [stringColumns, Activity.artefacts, Activity.withoutArtefacts, List.mem_filterMap,
    List.mem_cons, id_eq, exists_eq_right, Option.some.injEq, reduceCtorEq, List.not_mem_nil, or_false,
    false_or]
  constructor
  · intro h
    refine ⟨fun t ht => h t (by tauto), fun t ht => ?_⟩
    rcases ht with rfl | ht
    · exact hnil
    · exact h t (by tauto)
  · rintro ⟨hart, hrest⟩ t ht
    by_cases hmem : t = a.agentDid ∨ some t = a.signature ∨ some t = a.signedPayloadHash ∨
        some t = a.resultHash
    · exact hart t hmem
    · exact hrest t (by tauto)

/-- **When a signature is refused.** A did:key and hex digests pass the scan; of the public artefacts
only a clashing signature makes the ledger refuse a row. -/
theorem artefacts_refused_iff {key raw : Bytes} {sig : PyStr} {a : Activity} {metaText : Option PyStr}
    (hkey : encodeDidKey key = .ok a.agentDid) (hraw : encodeSignature raw = .ok sig)
    (hsig : a.signature = some sig)
    (hhash : ∀ h, a.signedPayloadHash = some h ∨ a.resultHash = some h →
      ∃ digest : Bytes, digest.length = 32 ∧ h = hexOf digest) :
    ((∀ t ∈ a.artefacts, scanText t (py "<ledger-write>") = []) ↔ ¬ Clash sig) ∧
      (refuseSecrets a metaText = .ok () ↔
        ¬ Clash sig ∧ refuseSecrets a.withoutArtefacts metaText = .ok ()) := by
  obtain ⟨-, rfl⟩ := encodeSignature_eq_ok.mp hraw
  have hdid : Clean a.agentDid := clean_encodeDidKey hkey
  have hscan : (∀ t ∈ a.artefacts, scanText t (py "<ledger-write>") = []) ↔
      ¬ Clash (base64Unpadded raw) := by
    rw [← clean_signature_iff]
    constructor
    · intro h
      -- the marker has a colon, and a signature has none
      have hall : ∀ c ∈ base64Alphabet, c ≠ cp '\n' ∧ c ≠ cp ':' := by decide
      have hfeed : cp '\n' ∉ base64Unpadded raw := fun hc => (hall _ (mem_base64Alphabet hc)).1 rfl
      have hsigscan := scanText_eq_nil_iff.mp (h (base64Unpadded raw) (by
        simp [Activity.artefacts, hsig]))
      intro rule hrule hfound
      obtain ⟨m, hm⟩ := List.exists_mem_of_ne_nil _ fun h0 => finditer_eq_nil_iff.mp h0 hfound
      have hmarked : Marked (base64Unpadded raw) :=
        marked_of_allowed hfeed hm (hsigscan rule hrule m hm)
      have hcolon : cp ':' ∈ ALLOW_MARKER := by decide
      have hmem := (List.takeWhile_prefix _).subset (hmarked.subset hcolon)
      exact (hall _ (mem_base64Alphabet hmem)).2 rfl
    · intro hclean t ht
      refine scanText_of_clean ?_ _
      simp only [Activity.artefacts, hsig, List.mem_cons, List.mem_filterMap, List.not_mem_nil,
        or_false, id_eq, exists_eq_right, Option.some.injEq] at ht
      rcases ht with rfl | rfl | ht
      · exact hdid
      · exact hclean
      · obtain ⟨digest, -, rfl⟩ := hhash t (ht.imp Eq.symm Eq.symm)
        exact clean_hexOf digest
  refine ⟨hscan, ?_⟩
  rw [refuseSecrets_eq_ok, refuseSecrets_eq_ok, List.forall_mem_append, List.forall_mem_append,
    scan_stringColumns_iff, hscan]
  simp only [Activity.withoutArtefacts]
  tauto

end Artefacts

/-! ### A signature that starts like an OpenAI key -/

section Signature

attribute [local instance] asciiRuntime

/-- A public key. -/
def sampleKey : Bytes := (List.range 32).map fun i => UInt8.ofNat (i + 1)

/-- A note with a signature and a result hash. -/
def signedNote (raw : Bytes) : Activity where
  agentDid := DID_PREFIX ++ MULTIBASE_BASE58BTC ++ b58encode (ED25519_MULTICODEC ++ sampleKey)
  activityType := py "note"
  occurredAt := noteActivity.occurredAt
  signature := some (base64Unpadded raw)
  resultHash := some (hexOf sampleKey)

theorem artefacts_refused_iff_zero :
    refuseSecrets (signedNote (List.replicate 64 0)) none = .ok () ∧
      ¬ Clash (base64Unpadded (List.replicate 64 0)) := by
  have hhash : ∀ h, (signedNote (List.replicate 64 0)).signedPayloadHash = some h ∨
      (signedNote (List.replicate 64 0)).resultHash = some h →
        ∃ digest : Bytes, digest.length = 32 ∧ h = hexOf digest := by
    rintro h (h₀ | h₀)
    · cases h₀
    · exact ⟨sampleKey, rfl, (Option.some.inj h₀).symm⟩
  have haccepted : refuseSecrets (signedNote (List.replicate 64 0)) none = .ok () := by
    decide +kernel
  have hkey : encodeDidKey sampleKey = .ok (signedNote (List.replicate 64 0)).agentDid := rfl
  exact ⟨haccepted, ((artefacts_refused_iff hkey (encodeSignature_eq_ok.mpr ⟨rfl, rfl⟩) rfl
    hhash).2.mp haccepted).1⟩

/-- The first three bytes are `sk-A` in base64url. -/
def clashingRaw : Bytes := [0xb2, 0x4f, 0x80] ++ List.replicate 61 0

/-- **A signature is refused.** Its text starts with `sk-`, and the ledger refuses the row it would
otherwise accept. -/
theorem signature_refused :
    encodeSignature clashingRaw = .ok (base64Unpadded clashingRaw) ∧
      encodeDidKey sampleKey = .ok (signedNote clashingRaw).agentDid ∧
      (refuseSecrets (signedNote clashingRaw) none).isOk = false ∧
      refuseSecrets { signedNote clashingRaw with signature := none } none = .ok () := by
  refine ⟨by decide, by decide, by decide +kernel, by decide +kernel⟩

end Signature

end FlopOffice.Proof
