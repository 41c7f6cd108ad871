/-
# FlopOffice.Technocore.Rendering — what `str`, `repr` and `format` of a message show.

The text of a message is wrapped: its rendering has a length and a digest. The `seq` is not, and is
written as it is, whatever the server put there; `nick`, `ts`, `nonce` and the signature are not written
at all, and of the did eight characters are.

The rendering is a fixed text around these parts, and its last ` author=` is the one behind the `seq`. So
it can be read as a rendering that withholds everything else exactly if what `str` makes of the `seq` is a
plain one (`rendering_withholds_iff`).
-/
import FlopOffice.Python.Decoded
import FlopOffice.Python.Hashlib
import FlopOffice.Technocore.ReadRoom

namespace FlopOffice.Technocore

open FlopOffice.Identity FlopOffice.Lib FlopOffice.Python

/-! ## Renderings -/

/-- Where the text came from; no caller says otherwise. -/
def UntrustedText.source (_ : UntrustedText) : PyStr := py "technocore"

namespace UntrustedText

/-- `sha256()`: the text has to be encodable. -/
def sha256 (text : UntrustedText) : Except Exc PyStr := (utf8 text.raw).map hexdigest

def digestShort (text : UntrustedText) : Except Exc PyStr := text.sha256.map (List.take 12)

/-- `repr` around the digest. -/
def withDigest [PyRuntime] (text : UntrustedText) (digest : PyStr) : PyStr :=
  py "UntrustedText(source=" ++ (pyRepr text.source ++ (py ", len=" ++
    (decimalDigits text.raw.length ++ (py ", sha256=" ++ (digest ++
      py "..., content=<withheld>)")))))

def repr [PyRuntime] (text : UntrustedText) : Except Exc PyStr := text.digestShort.map text.withDigest

end UntrustedText

section Renderings

variable [PyRuntime] [PyBuiltins]

namespace UntrustedMessage

/-- `__repr__`. -/
def repr (m : UntrustedMessage) : Except Exc PyStr := do
  let seq ← m.seq.str
  let text ← m.text.repr
  pure (py "UntrustedMessage(room=" ++ (pyRepr m.room ++ (py ", seq=" ++ (seq ++ (py ", author=" ++
    (m.authorLabel ++ (py ", verified=" ++ (boolText m.verified ++ (py ", text=" ++ (text ++
      py ")"))))))))))

/-- `__str__`. -/
def str (m : UntrustedMessage) : Except Exc PyStr := m.repr

/-- `format(m, spec)`: the one of `object`, which knows the empty specification only. -/
def format (m : UntrustedMessage) (spec : PyStr) : Except Exc PyStr :=
  if spec = [] then m.str
  else .error ⟨.typeError, py "unsupported format string passed to UntrustedMessage.__format__"⟩

/-- `s` is shown of the message, one way or the other. -/
def Renders (m : UntrustedMessage) (s : PyStr) : Prop :=
  m.repr = .ok s ∨ m.str = .ok s ∨ ∃ spec, m.format spec = .ok s

/-- The three renderings are one. -/
theorem renders_iff {m : UntrustedMessage} {s : PyStr} : m.Renders s ↔ m.repr = .ok s := by
  constructor
  · rintro (h | h | ⟨spec, h⟩)
    · exact h
    · exact h
    · unfold format at h
      split at h
      · exact h
      · cases h
  · exact Or.inl

end UntrustedMessage

/-! ## What may be shown -/

/-- The text of an integer, a boolean or `None`. -/
def PlainWord (t : PyStr) : Prop :=
  t = py "None" ∨ (∃ b, t = boolText b) ∨
    ∃ i : Int, t = (if i < 0 then [cp '-'] else []) ++ decimalDigits i.natAbs

/-- A label: one of two fixed texts, or the two ends of a did, of four characters each. -/
def LabelOf (did : PyStr → Prop) (label : PyStr) : Prop :=
  label = py "<~unverified>" ∨ label = py "<anonymous>" ∨
    ∃ d a b note, did d ∧ a.length ≤ 4 ∧ b.length ≤ 4 ∧ a <+: removePrefix (py "did:key:") d ∧
      b <:+ removePrefix (py "did:key:") d ∧
      (note = [] ∨ note = py " server-asserted, unverified") ∧
      label = cp '<' :: (a ++ py "..." ++ b ++ note ++ [cp '>'])

/-- The did that a record asserts. -/
def Asserts (item : PyVal) (did : PyStr) : Prop :=
  ∃ items, item = .dict items ∧ (pyOr (item.get (py "from")) (item.get (py "did"))).str = .ok did

/-- The value of `seq`, as JSON has it, shows as a plain text. Of the numbers with a point or an exponent
none does. -/
def ShowsPlain : PyVal → Prop
  | .leaf .none | .leaf (.bool _) | .leaf (.int _) => True
  | .leaf (.float f) => PlainWord (reprFloat f)
  | .leaf (.str t) => PlainWord t
  | _ => False

/-- The `seq` that a record is wrapped with. -/
def seqOf (item : PyVal) : PyVal :=
  match item with
  | .dict _ => item.get (py "seq")
  | _ => .leaf .none

/-- A rendering from behind the `seq` on. -/
def renderingTail (label : PyStr) (verified : Bool) (length : Nat) (digest : PyStr) : PyStr :=
  label ++ (py ", verified=" ++ (boolText verified ++ (py ", text=UntrustedText(source='technocore', len="
    ++ (decimalDigits length ++ (py ", sha256=" ++ (digest ++ py "..., content=<withheld>))"))))))

/-- A rendering that shows nothing else of the record: fixed text around the room, a plain `seq`, a label
of the asserted did, a boolean, a length, and twelve hexadecimal digits. -/
def Withholds (room : PyStr) (item : PyVal) (s : PyStr) : Prop :=
  ∃ seq label verified length digest, PlainWord seq ∧ LabelOf (Asserts item) label ∧
    digest.length = 12 ∧ (∀ c ∈ digest, c ∈ hexAlphabet) ∧
    s = py "UntrustedMessage(room=" ++ (pyRepr room ++ (py ", seq=" ++ (seq ++ (py ", author=" ++
      renderingTail label verified length digest))))

/-! ## The parts of a rendering -/

omit [PyBuiltins] in
/-- The rendering of a text: its length, and twelve hexadecimal digits. -/
theorem UntrustedText.repr_eq_ok {text : UntrustedText} {t : PyStr} (h : text.repr = .ok t) :
    ∃ digest, t = text.withDigest digest ∧ digest.length = 12 ∧ ∀ c ∈ digest, c ∈ hexAlphabet := by
  obtain ⟨digest, hdigest, rfl⟩ := map_eq_ok.mp h
  obtain ⟨full, hfull, rfl⟩ := map_eq_ok.mp hdigest
  obtain ⟨data, -, rfl⟩ := map_eq_ok.mp hfull
  refine ⟨_, rfl, ?_, fun c hc => mem_hexAlphabet_of_mem_hexdigest (List.mem_of_mem_take hc)⟩
  rw [List.length_take, hexdigest_length]
  rfl

omit [PyBuiltins] in
theorem pyRepr_technocore : pyRepr (py "technocore") = py "'technocore'" := by
  have hascii : ∀ c ∈ py "technocore", c.val < 0x80 ∧ 0x20 ≤ c.val ∧ c.val < 0x7f ∧
      ¬ (c = cp '\'' ∨ c = cp '\\') ∧ c ≠ cp '\t' ∧ c ≠ cp '\n' ∧ c ≠ cp '\r' := by decide
  have hchar : ∀ c ∈ py "technocore", reprChar (cp '\'') c = [c] := by
    intro c hc
    obtain ⟨hlow, hge, hlt, hquote, htab, hfeed, hreturn⟩ := hascii c hc
    have hprintable : PyRuntime.isprintable c = true := by
      rw [PyRuntime.isprintable_ascii c hlow, decide_eq_true hge, decide_eq_true hlt]
      rfl
    unfold reprChar
    rw [if_neg hquote, if_neg htab, if_neg hfeed, if_neg hreturn, if_pos hprintable]
  have hquote : ¬ (cp '\'' ∈ py "technocore" ∧ cp '"' ∉ py "technocore") := by decide
  unfold pyRepr
  rw [if_neg hquote]
  dsimp only
  rw [List.flatMap_congr hchar, List.flatMap_singleton']
  decide

/-- **What a rendering is.** -/
theorem repr_eq_ok {m : UntrustedMessage} {s : PyStr} (h : m.repr = .ok s) :
    ∃ seq digest, m.seq.str = .ok seq ∧ digest.length = 12 ∧ (∀ c ∈ digest, c ∈ hexAlphabet) ∧
      s = py "UntrustedMessage(room=" ++ (pyRepr m.room ++ (py ", seq=" ++ (seq ++ (py ", author=" ++
        renderingTail m.authorLabel m.verified m.text.raw.length digest)))) := by
  obtain ⟨seq, hseq, hrest⟩ := bind_eq_ok.mp h
  obtain ⟨text, htext, hs⟩ := bind_eq_ok.mp hrest
  obtain ⟨digest, rfl, hlength, hhex⟩ := UntrustedText.repr_eq_ok htext
  cases hs
  refine ⟨seq, digest, hseq, hlength, hhex, ?_⟩
  have hsource : py ", text=" ++ (py "UntrustedText(source=" ++ (py "'technocore'" ++ py ", len=")) =
      py ", text=UntrustedText(source='technocore', len=" := by
    simp only [← py_append, py_inj]
    decide
  have hend : py "..., content=<withheld>)" ++ py ")" = py "..., content=<withheld>))" := by
    simp [← py_append]
  unfold UntrustedText.withDigest UntrustedText.source renderingTail
  rw [pyRepr_technocore, ← hsource, ← hend]
  simp only [List.append_assoc]

/-! ## The last mark -/

omit [PyRuntime] [PyBuiltins] in
/-- No mark stands in a label, short of its brackets. -/
theorem author_not_infix_label {did : PyStr → Prop} {label : PyStr} (h : LabelOf did label) :
    ∃ inner, label = cp '<' :: (inner ++ [cp '>']) ∧ ¬ py ", author=" <:+: inner := by
  have hdot : cp '.' ∉ py ", author=" := by decide
  have hs : cp 's' ∉ py ", author=" := by decide
  have hlen : (py ", author=").length = 9 := rfl
  rcases h with rfl | rfl | ⟨d, a, b, note, -, ha, hb, -, -, hnote, rfl⟩
  · exact ⟨py "~unverified", by decide, by decide⟩
  · exact ⟨py "anonymous", by decide, by decide⟩
  refine ⟨a ++ py "..." ++ b ++ note, rfl, ?_⟩
  have hparts : a ++ py "..." ++ b ++ note = a ++ cp '.' :: ([] ++ cp '.' :: ([] ++ cp '.' ::
      (b ++ note))) := by
    simp only [List.append_assoc]
    rfl
  rw [hparts, infix_append_cons_iff hdot, infix_append_cons_iff hdot, infix_append_cons_iff hdot]
  rintro (hinf | hinf | hinf | hinf)
  · exact not_infix_of_length (by omega) hinf
  · exact absurd hinf (by decide)
  · exact absurd hinf (by decide)
  · rcases hnote with rfl | rfl
    · rw [List.append_nil] at hinf
      exact not_infix_of_length (by omega) hinf
    · -- behind the blank the note has a letter that is not in the mark
      have hsplit : b ++ py " server-asserted, unverified" =
          (b ++ [cp ' ']) ++ cp 's' :: py "erver-asserted, unverified" := by
        rw [List.append_assoc]
        rfl
      rw [hsplit, infix_append_cons_iff hs] at hinf
      rcases hinf with hinf | hinf
      · exact not_infix_of_length (by rw [hlen, List.length_append, List.length_singleton]; omega) hinf
      · exact absurd hinf (by decide)

omit [PyRuntime] [PyBuiltins] in
/-- Behind the mark there is no other one. -/
theorem author_last {did : PyStr → Prop} {label digest : PyStr} (h : LabelOf did label) (v : Bool)
    (n : Nat) (hdigest : ∀ c ∈ digest, c ∈ hexAlphabet) :
    ¬ py ", author=" <:+: (py ", author=").tail ++ renderingTail label v n digest := by
  obtain ⟨inner, rfl, hinner⟩ := author_not_infix_label h
  have hopen : cp '<' ∉ py ", author=" := by decide
  have hclose : cp '>' ∉ py ", author=" := by decide
  have hn : cp 'n' ∉ py ", author=" := by decide
  have hs : cp 's' ∉ py ", author=" := by decide
  have hsix : cp '6' ∉ py ", author=" := by decide
  have hdot : cp '.' ∉ py ", author=" := by decide
  have hbool : ¬ py ", author=" <:+:
      py ", verified=" ++ boolText v ++ py ", text=UntrustedText(source='technocore', le" := by
    cases v <;> decide +kernel
  -- of the letters of the mark, the `t` is in neither number
  have hletter : cp 't' ∈ py ", author=" := by decide
  have hlength : ¬ py ", author=" <:+: cp '=' :: (decimalDigits n ++ py ", ") := by
    intro hinf
    have hmem := hinf.subset hletter
    rw [List.mem_cons, List.mem_append] at hmem
    rcases hmem with hmem | hmem | hmem
    · exact absurd hmem (by decide)
    · exact absurd (isDigit_of_mem_decimalDigits hmem) (by decide)
    · exact absurd hmem (by decide)
  have hhex : ¬ py ", author=" <:+: cp '=' :: digest := by
    intro hinf
    have hmem := hinf.subset hletter
    rcases List.mem_cons.mp hmem with hmem | hmem
    · exact absurd hmem (by decide)
    · exact absurd (hdigest _ hmem) (by decide)
  -- the parts of the tail, each closed off by a letter that is not in the mark
  have hlen : py ", text=UntrustedText(source='technocore', len=" =
      py ", text=UntrustedText(source='technocore', le" ++ cp 'n' :: [cp '='] := by
    rw [show cp 'n' :: [cp '='] = py "n=" from rfl, ← py_append, py_inj]
    decide
  have hsha : py ", sha256=" = py ", " ++ cp 's' :: (py "ha25" ++ cp '6' :: [cp '=']) := by
    decide
  have hend : py "..., content=<withheld>))" = cp '.' :: py ".., content=<withheld>))" := by
    decide
  have htail : (py ", author=").tail = py " author=" := by decide
  have hparts : (py ", author=").tail ++ renderingTail (cp '<' :: (inner ++ [cp '>'])) v n digest =
      py " author=" ++ cp '<' :: (inner ++ cp '>' ::
        ((py ", verified=" ++ boolText v ++ py ", text=UntrustedText(source='technocore', le") ++ cp 'n' ::
          ((cp '=' :: (decimalDigits n ++ py ", ")) ++ cp 's' :: (py "ha25" ++ cp '6' ::
            ((cp '=' :: digest) ++ cp '.' :: py ".., content=<withheld>))"))))) := by
    unfold renderingTail
    rw [hlen, hsha, hend, htail]
    simp only [List.append_assoc, List.cons_append, List.nil_append]
  rw [hparts, infix_append_cons_iff hopen, infix_append_cons_iff hclose, infix_append_cons_iff hn,
    infix_append_cons_iff hs, infix_append_cons_iff hsix, infix_append_cons_iff hdot]
  rintro (hinf | hinf | hinf | hinf | hinf | hinf | hinf)
  · exact absurd hinf (by decide)
  · exact hinner hinf
  · exact hbool hinf
  · exact hlength hinf
  · exact absurd hinf (by decide)
  · exact hhex hinf
  · exact absurd hinf (by decide)

/-! ## Plain texts -/

omit [PyRuntime] [PyBuiltins] in
/-- A character that no plain text has. -/
theorem not_plainWord {t : PyStr} {c : CodePoint} (hc : c ∈ t) (hdigit : c.isDigit = false)
    (hother : c ∉ py "NoneTrueFalse-") : ¬ PlainWord t := by
  rintro (rfl | ⟨b, rfl⟩ | ⟨i, rfl⟩)
  · exact absurd (List.mem_append_left (py "TrueFalse-") hc) hother
  · have hbool : ∀ x ∈ boolText b, x ∈ py "NoneTrueFalse-" := by cases b <;> decide
    exact hother (hbool c hc)
  · rcases List.mem_append.mp hc with hc | hc
    · split at hc
      · rw [List.mem_singleton.mp hc] at hother
        exact absurd hother (by decide)
      · cases hc
    · rw [isDigit_of_mem_decimalDigits hc] at hdigit
      cases hdigit

/-- A container shows its bracket. -/
theorem bracket_of_str {v : PyVal} {t : PyStr} (h : v.str = .ok t) :
    (∀ items, v = .list items → cp '[' ∈ t) ∧ ∀ items, v = .dict items → cp '{' ∈ t := by
  constructor
  · rintro items rfl
    replace h : reprVal PyRuntime.recursionLimit (.list items) = .ok t := h
    generalize PyRuntime.recursionLimit = depth at h
    cases depth with
    | zero => cases h
    | succ depth =>
      obtain ⟨parts, -, hs⟩ := bind_eq_ok.mp h
      cases hs
      exact List.mem_cons_self
  · rintro items rfl
    replace h : reprVal PyRuntime.recursionLimit (.dict items) = .ok t := h
    generalize PyRuntime.recursionLimit = depth at h
    cases depth with
    | zero => cases h
    | succ depth =>
      obtain ⟨parts, -, hs⟩ := bind_eq_ok.mp h
      cases hs
      exact List.mem_cons_self

/-- What a decoded value shows is plain exactly if it is of a kind that shows so. -/
theorem plainWord_str_iff {v : PyVal} (hv : v.isJson = true) {t : PyStr} (h : v.str = .ok t) :
    PlainWord t ↔ ShowsPlain v := by
  cases v with
  | leaf x =>
    cases x with
    | none =>
      cases h
      exact iff_of_true (Or.inl rfl) trivial
    | bool b =>
      cases h
      exact iff_of_true (Or.inr (Or.inl ⟨b, rfl⟩)) trivial
    | int i =>
      obtain rfl := strInt_eq_ok h
      exact iff_of_true (Or.inr (Or.inr ⟨i, rfl⟩)) trivial
    | float f =>
      cases h
      exact Iff.rfl
    | str s =>
      cases h
      exact Iff.rfl
    | bytes b => cases hv
  | list items =>
    have hbracket := (bracket_of_str h).1 items rfl
    exact iff_of_false (not_plainWord hbracket (by decide) (by decide)) id
  | dict items =>
    have hbrace := (bracket_of_str h).2 items rfl
    exact iff_of_false (not_plainWord hbrace (by decide) (by decide)) id
  | other => cases hv

/-! ## Messages of records -/

omit [PyRuntime] [PyBuiltins] in
/-- The label of a message is one of its did. -/
theorem labelOf_authorLabel (m : UntrustedMessage) :
    LabelOf (fun d => m.did = some d) m.authorLabel := by
  unfold UntrustedMessage.authorLabel
  split
  · rename_i did hdid
    refine Or.inr (Or.inr ⟨did, _, _, _, (Option.filter_eq_some_iff.mp hdid).1, List.length_take_le 4 _, ?_,
      List.take_prefix 4 _, List.drop_suffix _ _, ?_, rfl⟩)
    · rw [List.length_drop]
      omega
    · cases m.verified
      · exact Or.inr rfl
      · exact Or.inl rfl
  · split
    · exact Or.inl rfl
    · exact Or.inr (Or.inl rfl)

omit [PyRuntime] [PyBuiltins] in
theorem LabelOf.imp {did did' : PyStr → Prop} {label : PyStr} (h : LabelOf did label)
    (hdid : ∀ d, did d → did' d) : LabelOf did' label := by
  rcases h with h | h | ⟨d, a, b, note, hd, hrest⟩
  · exact Or.inl h
  · exact Or.inr (Or.inl h)
  · exact Or.inr (Or.inr ⟨d, a, b, note, hdid d hd, hrest⟩)

variable [Ed25519]

/-- What a rendering reads of a wrapped record. -/
theorem toMessage_shown {room : PyStr} {item : PyVal} {m : UntrustedMessage}
    (h : toMessage room item = .ok m) :
    m.room = room ∧ m.seq = seqOf item ∧ ∀ d, m.did = some d → Asserts item d := by
  cases item with
  | dict items =>
    simp only [toMessage, bind_eq_ok] at h
    obtain ⟨text, -, verified, -, did, hdid, nick, -, sig, -, nonce, -, h⟩ := h
    cases h
    refine ⟨rfl, rfl, fun d hd => ⟨items, rfl, ?_⟩⟩
    dsimp only at hd
    rw [hd] at hdid
    unfold strIfTrue at hdid
    split at hdid
    · obtain ⟨d', hd', hsome⟩ := map_eq_ok.mp hdid
      cases hsome
      exact hd'
    · cases hdid
  | leaf | list | other =>
    simp only [toMessage, bind_eq_ok] at h
    obtain ⟨text, -, h⟩ := h
    cases h
    exact ⟨rfl, rfl, fun d hd => absurd hd.symm (Option.some_ne_none d)⟩

/-- A rendering can be read as one that withholds the record exactly if its own `seq` is plain: it is the
text in front of the last mark. -/
theorem withholds_iff {room s seq : PyStr} {item : PyVal} {m : UntrustedMessage}
    (hm : toMessage room item = .ok m) (hs : m.Renders s) (hseq : (seqOf item).str = .ok seq) :
    Withholds room item s ↔ PlainWord seq := by
  obtain ⟨hroom, hseqOf, hdid⟩ := toMessage_shown hm
  obtain ⟨seq₁, digest, hstr, hlength, hhex, rfl⟩ := repr_eq_ok (UntrustedMessage.renders_iff.mp hs)
  have hlabel : LabelOf (Asserts item) m.authorLabel := (labelOf_authorLabel m).imp hdid
  obtain rfl : seq = seq₁ := by
    rw [hseqOf, hseq] at hstr
    exact Except.ok.inj hstr
  constructor
  · rintro ⟨seq', label, verified, length, digest', hplain, hlabel', -, hhex', hsame⟩
    rw [hroom, List.append_cancel_left_eq, List.append_cancel_left_eq,
      List.append_cancel_left_eq] at hsame
    have hlast := author_last hlabel m.verified m.text.raw.length hhex
    have hlast' := author_last hlabel' verified length hhex'
    obtain ⟨rfl, -⟩ := cut_unique_last hlast hlast' hsame
    exact hplain
  · intro hplain
    exact ⟨seq, _, _, _, digest, hplain, hlabel, hlength, hhex, by rw [hroom]⟩

/-- **Renderings withhold the record exactly if its `seq` shows as a plain text**: if it is missing or
`null`, a boolean, an integer, or a text that reads like one of these. -/
theorem rendering_withholds_iff {room s : PyStr} {item : PyVal} {m : UntrustedMessage}
    (hitem : item.isJson = true) (hm : toMessage room item = .ok m) (hs : m.Renders s) :
    Withholds room item s ↔ ShowsPlain (seqOf item) := by
  obtain ⟨-, hseq, -⟩ := toMessage_shown hm
  obtain ⟨seq, digest, hstr, -⟩ := repr_eq_ok (UntrustedMessage.renders_iff.mp hs)
  rw [hseq] at hstr
  have hjson : (seqOf item).isJson = true := by
    unfold seqOf
    split
    · exact isJson_get hitem rfl
    · rfl
  exact (withholds_iff hm hs hstr).trans (plainWord_str_iff hjson hstr)

end Renderings

section Lobby

attribute [local instance] asciiRuntime asciiBuiltins acceptAll

/-- An unsigned record with a text and the given `seq`. -/
def noteRecord (seq : Scalar) : PyVal :=
  .record [(py "seq", .leaf seq), (py "text", .leaf (.str (py "hi")))]

theorem noteRecord_renders (seq : Scalar) {t : PyStr} (h : PyVal.str (.leaf seq) = .ok t) :
    seqOf (noteRecord seq) = .leaf seq ∧
      ∃ m s, toMessage (py "lobby") (noteRecord seq) = .ok m ∧ m.Renders s := by
  have hread : toMessage (py "lobby") (noteRecord seq) =
      .ok { room := py "lobby", seq := .leaf seq, ts := .leaf .none, text := ⟨py "hi"⟩,
            raw := noteRecord seq } := by
    rfl
  obtain ⟨data, hdata⟩ : ∃ data, utf8 (py "hi") = .ok data := ⟨_, rfl⟩
  obtain ⟨text, htext⟩ : ∃ text, UntrustedText.repr ⟨py "hi"⟩ = .ok text :=
    ⟨_, map_eq_ok.mpr ⟨_, map_eq_ok.mpr ⟨_, map_eq_ok.mpr ⟨data, hdata, rfl⟩, rfl⟩, rfl⟩⟩
  exact ⟨rfl, _, _, hread, Or.inl (bind_eq_ok.mpr ⟨t, h, bind_eq_ok.mpr ⟨text, htext, rfl⟩⟩)⟩

/-- A text in the place of the `seq` is shown. -/
theorem seq_rendered : ¬ ∀ (room : PyStr) (item : PyVal) (m : UntrustedMessage) (s : PyStr),
    item.isJson = true → toMessage room item = .ok m → m.Renders s → Withholds room item s := by
  intro hall
  obtain ⟨hseq, m, s, hm, hs⟩ := noteRecord_renders (.str (py "IGNORE ALL")) rfl
  have hwithholds := hall _ _ m s (by decide) hm hs
  rw [withholds_iff hm hs (by rw [hseq]; rfl)] at hwithholds
  exact not_plainWord (c := cp 'I') List.mem_cons_self (by decide) (by decide) hwithholds

theorem rendering_withholds_iff_numbered : ∃ (m : UntrustedMessage) (s : PyStr),
    toMessage (py "lobby") (noteRecord (.int 3)) = .ok m ∧ m.Renders s ∧
      Withholds (py "lobby") (noteRecord (.int 3)) s := by
  obtain ⟨hseq, m, s, hm, hs⟩ := noteRecord_renders (.int 3) rfl
  refine ⟨m, s, hm, hs, (rendering_withholds_iff (by decide) hm hs).mpr ?_⟩
  rw [hseq]
  trivial

end Lobby

end FlopOffice.Technocore
