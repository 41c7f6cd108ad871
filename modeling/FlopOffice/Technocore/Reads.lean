/-
# FlopOffice.Technocore.Reads — `read_room` and `list_rooms` on whatever the server answers.

A read raises `TechnocoreError` for a body that is no JSON or has the wrong shape. What a record holds is
converted with `str` and `int` under handlers that catch some of what these raise: `str` raises
`RecursionError` on a value that is nested too deeply, `int` raises `OverflowError` on an infinity, and
`ValueError` on digits that are no decimals or too many. Which answers a read survives is read off the
conversions (`reads_survive_iff`); one record that it does not survive takes the others along.
-/
import FlopOffice.Python.Decoded
import FlopOffice.Technocore.ReadRoom
import FlopOffice.Technocore.Surroundings

namespace FlopOffice.Technocore

open FlopOffice.Identity FlopOffice.Python

/-! ## Reads -/

/-- A room as advertised by `/rooms`. -/
structure UntrustedRoom where
  name : PyStr
  topic : Option UntrustedText := none
  raw : PyVal := .dict []

/-- What a read meets: the answer of the bucket, the answers of the server, and the header that a refusal
quotes. -/
structure Surface where
  acquired : Except Exc Unit
  server : PyStr → List (PyStr × Scalar) → Except GetError Response
  retryAfter : PyStr

/-- `_get`. -/
def Surface.get (s : Surface) (path : PyStr) (params : List (PyStr × Scalar)) : Except Exc Response := do
  s.acquired
  match s.server path params with
  | .error (.http e) => throw ⟨.technocoreError, py "GET " ++ path ++ py " failed: " ++ py e.name⟩
  | .error (.other e _) => throw e
  | .ok response =>
    if response.statusCode = 429 then
      throw ⟨.technocoreError, py "server rate limit hit (429); Retry-After=" ++ s.retryAfter⟩
    else if response.statusCode ≥ 400 then
      throw ⟨.technocoreError, py "GET " ++ path ++ py " returned HTTP " ++
        decimalDigits response.statusCode⟩
    else pure response

/-- `_as_json`. -/
def asJson (response : Response) : Except Exc PyVal :=
  match response.json with
  | .ok v => .ok v
  | .error e =>
    if e.cls.isValueError then .error ⟨.technocoreError, py "response was not valid JSON"⟩ else .error e

/-- `payload.get(key, payload) if isinstance(payload, dict) else payload`. -/
def unwrap (key : PyStr) (payload : PyVal) : PyVal :=
  match payload with
  | .dict _ => payload.get key payload
  | _ => payload

section Reads

variable [PyRuntime] [PyBuiltins]

/-- Read a room. -/
def readRoom [Ed25519] (s : Surface) (room : PyStr) (since limit : Option Int) :
    Except Exc (List UntrustedMessage) := do
  let room ← validateRoom room
  let params := (py "format", Scalar.str (py "json")) ::
    ((since.toList.map fun i => (py "since", Scalar.int i)) ++
      limit.toList.map fun i => (py "limit", Scalar.int i))
  let segment ← encodePathSegment room
  let response ← s.get (py "/r/" ++ segment) params
  let payload ← asJson response
  match unwrap (py "messages") payload with
  | .list items => items.mapM (toMessage room)
  | _ => throw ⟨.technocoreError, py "unexpected room payload shape"⟩

/-- One entry of `/rooms`; what is neither a string nor an object is skipped. -/
def toRoom (item : PyVal) : Except Exc (Option UntrustedRoom) :=
  match item with
  | .leaf (.str name) => .ok (some { name := name })
  | .dict _ => do
    let name ← (pyOr (pyOr (item.get (py "room")) (item.get (py "name"))) (.leaf (.str []))).str
    let topic ← strIfTrue (item.get (py "topic"))
    pure (some ⟨name, topic.map UntrustedText.mk, item⟩)
  | _ => .ok none

/-- Enumerate rooms. -/
def listRooms (s : Surface) : Except Exc (List UntrustedRoom) := do
  let response ← s.get (py "/rooms") [(py "format", .str (py "json"))]
  let payload ← asJson response
  match unwrap (py "rooms") payload with
  | .list items => (items.mapM toRoom).map List.reduceOption
  | _ => throw ⟨.technocoreError, py "unexpected /rooms payload shape"⟩

/-! ## Conversions -/

/-- The value can be shown: its containers are not nested past the recursion limit. -/
def Showable (v : PyVal) : Prop := nesting v ≤ PyRuntime.recursionLimit

omit [PyBuiltins] in
/-- What is false is not nested. -/
theorem showable_of_falsy {v : PyVal} (h : v.truthy = false) : Showable v := by
  have hlimit := PyRuntime.recursionLimit_ge
  unfold Showable
  cases v with
  | leaf | other => exact Nat.zero_le _
  | list items =>
    have hnil : items = [] := by simpa [PyVal.truthy] using h
    subst hnil
    show 0 + 1 ≤ _
    omega
  | dict items =>
    have hnil : items = [] := by simpa [PyVal.truthy] using h
    subst hnil
    show 0 + 1 ≤ _
    omega

theorem strIfTrue_isOk_iff {v : PyVal} (hv : v.isJson = true) :
    (∃ t, strIfTrue v = .ok t) ↔ Showable v := by
  unfold strIfTrue
  split
  · rw [Showable, ← str_isOk_iff hv]
    exact ⟨fun ⟨_, h⟩ => (map_eq_ok.mp h).imp fun _ => And.left,
      fun ⟨t, h⟩ => ⟨some t, map_eq_ok.mpr ⟨t, h, rfl⟩⟩⟩
  · rename_i hfalse
    exact iff_of_true ⟨none, rfl⟩ (showable_of_falsy (by simpa using hfalse))

/-- A nonce that shows as digits is converted once more, outside the handler. -/
def DigitsRead (nonce : PyVal) : Prop :=
  ∀ s, nonce = .leaf (.str s) → isdigit s = true → ∃ k, parseInt s = .ok k

theorem storedNonce_isOk_iff {nonce : PyVal} (h : nonce.isJson = true) :
    (∃ k, storedNonce nonce = .ok k) ↔ DigitsRead nonce := by
  have hother : (∀ s, nonce ≠ .leaf (.str s)) → DigitsRead nonce := fun hne s hs => absurd hs (hne s)
  -- an integer is read whatever it shows as
  have hint : ∀ {t : PyStr} {k : Int}, nonce.isIntOrStr = true → nonce.str = .ok t →
      nonce.int = .ok k → ∃ r, storedNonce nonce = .ok r := by
    intro t k hty ht hk
    unfold storedNonce
    rw [if_pos hty, ht]
    show ∃ r, (if isdigit t then nonce.int.map some else Except.ok none) = .ok r
    rw [hk]
    split
    · exact ⟨some k, rfl⟩
    · exact ⟨none, rfl⟩
  cases nonce with
  | list | dict | other => exact iff_of_true ⟨none, rfl⟩ (hother nofun)
  | leaf x =>
    cases x with
    | none | float | bytes => exact iff_of_true ⟨none, rfl⟩ (hother nofun)
    | bool b => exact iff_of_true (hint rfl rfl rfl) (hother nofun)
    | int i =>
      obtain ⟨t, ht⟩ := isOk_iff.mp (show (strInt i).isOk = true from h)
      exact iff_of_true (hint rfl ht rfl) (hother nofun)
    | str s =>
      show (∃ k, (if isdigit s then (parseInt s).map some else Except.ok none) = .ok k) ↔ _
      constructor
      · rintro ⟨k, hk⟩ s' hs' hdigits
        cases hs'
        rw [if_pos hdigits] at hk
        exact (map_eq_ok.mp hk).imp fun _ => And.left
      · intro hread
        split
        · rename_i hdigits
          obtain ⟨k, hk⟩ := hread s rfl hdigits
          exact ⟨some k, map_eq_ok.mpr ⟨k, hk, rfl⟩⟩
        · exact ⟨none, rfl⟩

omit [PyBuiltins] in
/-- What `int` raises; of these the handler of a record catches all but the first. -/
theorem int_error {v : PyVal} {e : Exc} (h : v.int = .error e) :
    (e.cls = .overflowError ∧ ∃ neg, v = .leaf (.float (.inf neg))) ∨
      e.cls.isValueError = true ∨ e.cls = .typeError := by
  have hparse : ∀ {s : PyStr} {e : Exc}, parseInt s = .error e → e.cls.isValueError = true := by
    intro s e h
    rw [parseInt_error h]
    rfl
  cases v with
  | list | dict | other =>
    cases h
    exact Or.inr (Or.inr rfl)
  | leaf x =>
    cases x with
    | bool | int => cases h
    | none =>
      cases h
      exact Or.inr (Or.inr rfl)
    | str s => exact Or.inr (Or.inl (hparse h))
    | bytes b =>
      replace h : intOfBytes b = .error e := h
      unfold intOfBytes at h
      split at h
      · exact Or.inr (Or.inl (hparse h))
      · cases h
        exact Or.inr (Or.inl rfl)
    | float f =>
      cases f with
      | finite => cases h
      | nan =>
        cases h
        exact Or.inr (Or.inl rfl)
      | inf neg =>
        cases h
        exact Or.inl ⟨rfl, neg, rfl⟩

variable [Ed25519]

omit [PyRuntime] [PyBuiltins] [Ed25519] in
theorem orFalse_isOk {x : Except Exc Bool}
    (h : ∀ e, x = .error e → e.cls.isValueError = true ∨ e.cls = .typeError) :
    ∃ b, orFalse x = .ok b := by
  cases x with
  | ok b => exact ⟨b, rfl⟩
  | error e =>
    refine ⟨false, if_pos ?_⟩
    rcases h e rfl with hcls | hcls
    · rw [hcls]
      rfl
    · rw [hcls]
      rfl

/-- The verification of a record whose author and signature can be shown answers, unless an infinite nonce
is to be converted. -/
theorem verifyRecord_isOk_iff {room text : PyStr} {author signature nonce : PyVal}
    (hauthor : ∃ t, author.str = .ok t) (hsignature : ∃ t, signature.str = .ok t) :
    (∃ b, verifyRecord room author signature nonce text = .ok b) ↔
      (author.truthy = true → signature.truthy = true → ∀ neg, nonce ≠ .leaf (.float (.inf neg))) := by
  obtain ⟨did, hdid⟩ := hauthor
  obtain ⟨sig, hsig⟩ := hsignature
  unfold verifyRecord
  split
  · rename_i hpresent
    rw [Bool.and_eq_true, Bool.and_eq_true] at hpresent
    obtain ⟨⟨ha, hs⟩, -⟩ := hpresent
    rw [hdid, hsig]
    constructor
    · rintro ⟨b, hb⟩ - - neg rfl
      cases hb
    · intro hfinite
      refine orFalse_isOk fun e he => ?_
      replace he : (nonce.int >>= fun k => verifyMessage did sig room (.int k) text) = .error e := he
      rcases bind_eq_error.mp he with hint | ⟨k, -, hverify⟩
      · rcases int_error hint with ⟨-, neg, hinf⟩ | hcls
        · exact absurd hinf (hfinite ha hs neg)
        · exact hcls
      · rw [verifyMessage_error hverify]
        exact Or.inl rfl
  · rename_i hmissing
    refine iff_of_true ⟨false, rfl⟩ fun ha hs neg hinf => hmissing ?_
    rw [ha, hs, hinf]
    rfl

/-! ## Records -/

/-- A record that `_to_message` wraps: what it shows can be shown, its nonce is no infinity where it is
verified, and digits it is written with can be read. -/
def Wrappable (item : PyVal) : Prop :=
  match item with
  | .dict _ =>
    let author := pyOr (item.get (py "from")) (item.get (py "did"))
    let signature := pyOr (item.get (py "sig")) (item.get (py "signature"))
    let nonce := item.get (py "nonce")
    Showable (item.get (py "text") (.leaf (.str []))) ∧ Showable author ∧ Showable (item.get (py "nick")) ∧
      Showable signature ∧
      (author.truthy = true → signature.truthy = true → ∀ neg, nonce ≠ .leaf (.float (.inf neg))) ∧
      DigitsRead nonce
  | v => Showable v

omit [PyRuntime] [PyBuiltins] [Ed25519] in
theorem isJson_pyOr {a b : PyVal} (ha : a.isJson = true) (hb : b.isJson = true) :
    (pyOr a b).isJson = true := by
  unfold pyOr
  split
  · exact ha
  · exact hb

/-- **Which records are wrapped.** -/
theorem toMessage_isOk_iff {room : PyStr} {item : PyVal} (hitem : item.isJson = true) :
    (∃ m, toMessage room item = .ok m) ↔ Wrappable item := by
  have hother : (∃ m, (do
      let text ← item.str
      pure ({ room := room, seq := .leaf .none, ts := .leaf .none, text := ⟨text⟩ } : UntrustedMessage) :
        Except Exc UntrustedMessage) = .ok m) ↔ Showable item := by
    rw [Showable, ← str_isOk_iff hitem]
    simp only [bind_eq_ok]
    constructor
    · rintro ⟨_, t, ht, -⟩
      exact ⟨t, ht⟩
    · rintro ⟨t, ht⟩
      exact ⟨_, t, ht, rfl⟩
  cases item with
  | leaf | list | other => exact hother
  | dict items =>
    have hjson : ∀ key default, PyVal.isJson default = true →
        ((PyVal.dict items).get key default).isJson = true := fun _ _ h => isJson_get hitem h
    simp only [toMessage, Wrappable]
    generalize htext : (PyVal.dict items).get (py "text") (.leaf (.str [])) = vtext
    generalize hauthor : pyOr ((PyVal.dict items).get (py "from")) ((PyVal.dict items).get (py "did")) =
      author
    generalize hsignature : pyOr ((PyVal.dict items).get (py "sig"))
      ((PyVal.dict items).get (py "signature")) = signature
    generalize hnick : (PyVal.dict items).get (py "nick") = nick
    generalize hnonce : (PyVal.dict items).get (py "nonce") = nonce
    have hshown : ∀ {v : PyVal}, v.isJson = true → ((∃ t, v.str = .ok t) ↔ Showable v) := str_isOk_iff
    have jtext : vtext.isJson = true := htext ▸ hjson _ _ rfl
    have jauthor : author.isJson = true := hauthor ▸ isJson_pyOr (hjson _ _ rfl) (hjson _ _ rfl)
    have jsignature : signature.isJson = true :=
      hsignature ▸ isJson_pyOr (hjson _ _ rfl) (hjson _ _ rfl)
    have jnick : nick.isJson = true := hnick ▸ hjson _ _ rfl
    have jnonce : nonce.isJson = true := hnonce ▸ hjson _ _ rfl
    simp only [bind_eq_ok]
    constructor
    · rintro ⟨_, text, ht, verified, hv, did, hd, nick', hn, sig, hs, k, hk, -⟩
      have sauthor := (strIfTrue_isOk_iff jauthor).mp ⟨did, hd⟩
      have ssignature := (strIfTrue_isOk_iff jsignature).mp ⟨sig, hs⟩
      exact ⟨(hshown jtext).mp ⟨text, ht⟩, sauthor, (strIfTrue_isOk_iff jnick).mp ⟨nick', hn⟩, ssignature,
        (verifyRecord_isOk_iff ((hshown jauthor).mpr sauthor) ((hshown jsignature).mpr ssignature)).mp
          ⟨verified, hv⟩,
        (storedNonce_isOk_iff jnonce).mp ⟨k, hk⟩⟩
    · rintro ⟨stext, sauthor, snick, ssignature, hfinite, hdigits⟩
      obtain ⟨text, ht⟩ := (hshown jtext).mpr stext
      obtain ⟨verified, hv⟩ : ∃ b, verifyRecord room author signature nonce text = .ok b :=
        (verifyRecord_isOk_iff ((hshown jauthor).mpr sauthor) ((hshown jsignature).mpr ssignature)).mpr
          hfinite
      obtain ⟨did, hd⟩ := (strIfTrue_isOk_iff jauthor).mpr sauthor
      obtain ⟨nick', hn⟩ := (strIfTrue_isOk_iff jnick).mpr snick
      obtain ⟨sig, hs⟩ := (strIfTrue_isOk_iff jsignature).mpr ssignature
      obtain ⟨k, hk⟩ := (storedNonce_isOk_iff jnonce).mpr hdigits
      exact ⟨_, text, ht, verified, hv, did, hd, nick', hn, sig, hs, k, hk, rfl⟩

/-- An entry of `/rooms` that is wrapped or skipped. -/
def Listable (item : PyVal) : Prop :=
  match item with
  | .dict _ => Showable (pyOr (pyOr (item.get (py "room")) (item.get (py "name"))) (.leaf (.str []))) ∧
      Showable (item.get (py "topic"))
  | _ => True

omit [Ed25519] in
theorem toRoom_isOk_iff {item : PyVal} (hitem : item.isJson = true) :
    (∃ r, toRoom item = .ok r) ↔ Listable item := by
  cases item with
  | list | other => exact iff_of_true ⟨_, rfl⟩ trivial
  | leaf x => cases x <;> exact iff_of_true ⟨_, rfl⟩ trivial
  | dict items =>
    have hjson : ∀ key, ((PyVal.dict items).get key).isJson = true := fun _ => isJson_get hitem rfl
    have hname := str_isOk_iff (isJson_pyOr (isJson_pyOr (hjson (py "room")) (hjson (py "name")))
      (show PyVal.isJson (.leaf (.str [])) = true from rfl))
    have htopic := strIfTrue_isOk_iff (hjson (py "topic"))
    simp only [toRoom, Listable, bind_eq_ok]
    constructor
    · rintro ⟨_, name, hn, topic, ht, -⟩
      exact ⟨hname.mp ⟨name, hn⟩, htopic.mp ⟨topic, ht⟩⟩
    · rintro ⟨hn, ht⟩
      obtain ⟨name, hn⟩ := hname.mpr hn
      obtain ⟨topic, ht⟩ := htopic.mpr ht
      exact ⟨_, name, hn, topic, ht, rfl⟩

/-! ## Whole reads -/

/-- The server answers every request with the JSON value `v`, and the bucket has a token. -/
structure Surface.Answers (s : Surface) (v : PyVal) : Prop where
  token : s.acquired = .ok ()
  response : ∀ path params, ∃ response, s.server path params = .ok response ∧
    response.statusCode < 400 ∧ response.json = .ok v

/-- A read that returns, or raises `TechnocoreError`. -/
def Survives {α : Type} (x : Except Exc α) : Prop :=
  ∀ e, x = .error e → e.cls.isTechnocoreError = true

omit [PyRuntime] [PyBuiltins] [Ed25519] in
theorem Surface.Answers.isJson {s : Surface} {v : PyVal} (h : s.Answers v) : v.isJson = true := by
  obtain ⟨response, -, -, hv⟩ := h.response [] []
  exact response.json_value v hv

omit [PyRuntime] [PyBuiltins] [Ed25519] in
theorem Surface.Answers.get {s : Surface} {v : PyVal} (h : s.Answers v) (path : PyStr)
    (params : List (PyStr × Scalar)) :
    ∃ response, s.get path params = .ok response ∧ asJson response = .ok v := by
  obtain ⟨response, hserver, hstatus, hjson⟩ := h.response path params
  refine ⟨response, ?_, ?_⟩
  · unfold Surface.get
    rw [h.token, hserver]
    show (if response.statusCode = 429 then _ else if response.statusCode ≥ 400 then _ else
      Except.ok response) = _
    rw [if_neg (by omega), if_neg (by omega)]
  · rw [asJson, hjson]

/-- What a read of the room `room` makes of the answer. -/
theorem Surface.Answers.readRoom {s : Surface} {room : PyStr} {v : PyVal} (h : s.Answers v)
    (since limit : Option Int) (hroom : validateRoom room = .ok room) :
    readRoom s room since limit = match unwrap (py "messages") v with
      | .list items => items.mapM (toMessage room)
      | _ => .error ⟨.technocoreError, py "unexpected room payload shape"⟩ := by
  -- a room that is accepted has a path segment
  obtain ⟨-, -, hswept, -⟩ := (validateRoom_eq_ok.mp hroom).1
  obtain ⟨b, hb⟩ := utf8_of_not_swept (singleLineSweep_eq_self_iff.mp hswept).1
  have hsegment : ∃ segment, encodePathSegment room = .ok segment := ⟨_, map_eq_ok.mpr ⟨b, hb, rfl⟩⟩
  obtain ⟨segment, hsegment⟩ := hsegment
  obtain ⟨response, hget, hjson⟩ := h.get (py "/r/" ++ segment)
    ((py "format", Scalar.str (py "json")) ::
      ((since.toList.map fun i => (py "since", Scalar.int i)) ++
        limit.toList.map fun i => (py "limit", Scalar.int i)))
  unfold Technocore.readRoom
  rw [hroom]
  show (encodePathSegment room >>= fun _ => _) = _
  rw [hsegment]
  show (s.get _ _ >>= fun _ => _) = _
  rw [hget]
  show (asJson response >>= fun _ => _) = _
  rw [hjson]
  rfl

omit [Ed25519] in
/-- What a listing makes of the answer. -/
theorem Surface.Answers.listRooms {s : Surface} {v : PyVal} (h : s.Answers v) :
    listRooms s = match unwrap (py "rooms") v with
      | .list items => (items.mapM toRoom).map List.reduceOption
      | _ => .error ⟨.technocoreError, py "unexpected /rooms payload shape"⟩ := by
  obtain ⟨response, hget, hjson⟩ := h.get (py "/rooms") [(py "format", .str (py "json"))]
  unfold Technocore.listRooms
  rw [hget]
  show (asJson response >>= fun _ => _) = _
  rw [hjson]
  rfl

omit [PyRuntime] [PyBuiltins] [Ed25519] in
theorem isJson_unwrap {key : PyStr} {v : PyVal} (h : v.isJson = true) : (unwrap key v).isJson = true := by
  cases v with
  | dict items => exact isJson_get h h
  | leaf | list | other => exact h

omit [Ed25519] in
theorem str_not_technocore {v : PyVal} {e : Exc} (h : v.str = .error e) :
    e.cls.isTechnocoreError = false := by
  rcases str_error h with hcls | hcls
  · rw [hcls]
    rfl
  · rw [hcls]
    rfl

omit [Ed25519] in
theorem strIfTrue_not_technocore {v : PyVal} {e : Exc} (h : strIfTrue v = .error e) :
    e.cls.isTechnocoreError = false := by
  unfold strIfTrue at h
  split at h
  · cases hv : v.str with
    | ok t =>
      rw [hv] at h
      cases h
    | error e' =>
      rw [hv] at h
      cases h
      exact str_not_technocore hv
  · cases h

/-- Nothing a conversion raises is a `TechnocoreError`. -/
theorem toMessage_error {room : PyStr} {item : PyVal} {e : Exc} (h : toMessage room item = .error e) :
    e.cls.isTechnocoreError = false := by
  have hint : ∀ {v : PyVal} {e : Exc}, v.int = .error e → e.cls.isTechnocoreError = false := by
    intro v e h
    rcases int_error h with ⟨hcls, -⟩ | hcls | hcls
    · rw [hcls]
      rfl
    · revert hcls
      cases e.cls <;> decide
    · rw [hcls]
      rfl
  have hverify : ∀ {author signature nonce : PyVal} {text : PyStr} {e : Exc},
      verifyRecord room author signature nonce text = .error e → e.cls.isTechnocoreError = false := by
    intro author signature nonce text e h
    unfold verifyRecord at h
    split at h
    · have hinner : ∀ {x : Except Exc Bool}, orFalse x = .error e → x = .error e := by
        intro x hx
        cases x with
        | ok b => cases hx
        | error e' =>
          replace hx : (if e'.cls.isValueError || e'.cls == .typeError then Except.ok false
            else .error e') = .error e := hx
          split at hx
          · cases hx
          · cases hx
            rfl
      rcases bind_eq_error.mp (hinner h) with h | ⟨_, -, h⟩
      · exact str_not_technocore h
      · rcases bind_eq_error.mp h with h | ⟨_, -, h⟩
        · exact str_not_technocore h
        · rcases bind_eq_error.mp h with h | ⟨_, -, h⟩
          · exact hint h
          · rw [verifyMessage_error h]
            rfl
    · cases h
  have hstored : ∀ {v : PyVal} {e : Exc}, storedNonce v = .error e → e.cls.isTechnocoreError = false := by
    intro v e h
    unfold storedNonce at h
    split at h
    · rcases bind_eq_error.mp h with h | ⟨_, -, h⟩
      · exact str_not_technocore h
      · split at h
        · cases hv : v.int with
          | ok k =>
            rw [hv] at h
            cases h
          | error e' =>
            rw [hv] at h
            cases h
            exact hint hv
        · cases h
    · cases h
  have hother : (do
      let text ← item.str
      pure ({ room := room, seq := .leaf .none, ts := .leaf .none, text := ⟨text⟩ } : UntrustedMessage) :
        Except Exc UntrustedMessage) = .error e → e.cls.isTechnocoreError = false := by
    intro h
    rcases bind_eq_error.mp h with h | ⟨_, -, h⟩
    · exact str_not_technocore h
    · cases h
  cases item with
  | leaf | list | other => exact hother h
  | dict items =>
    simp only [toMessage] at h
    rcases bind_eq_error.mp h with h | ⟨_, -, h⟩
    · exact str_not_technocore h
    rcases bind_eq_error.mp h with h | ⟨_, -, h⟩
    · exact hverify h
    rcases bind_eq_error.mp h with h | ⟨_, -, h⟩
    · exact strIfTrue_not_technocore h
    rcases bind_eq_error.mp h with h | ⟨_, -, h⟩
    · exact strIfTrue_not_technocore h
    rcases bind_eq_error.mp h with h | ⟨_, -, h⟩
    · exact strIfTrue_not_technocore h
    rcases bind_eq_error.mp h with h | ⟨_, -, h⟩
    · exact hstored h
    · cases h

omit [Ed25519] in
theorem toRoom_error {item : PyVal} {e : Exc} (h : toRoom item = .error e) :
    e.cls.isTechnocoreError = false := by
  cases item with
  | list | other => cases h
  | leaf x => cases x <;> cases h
  | dict items =>
    simp only [toRoom] at h
    rcases bind_eq_error.mp h with h | ⟨_, -, h⟩
    · exact str_not_technocore h
    rcases bind_eq_error.mp h with h | ⟨_, -, h⟩
    · exact strIfTrue_not_technocore h
    · cases h

omit [PyRuntime] [PyBuiltins] [Ed25519] in
/-- Reading a list survives exactly if every record is wrapped, when no record raises `TechnocoreError`. -/
theorem survives_mapM_iff {β : Type} {f : PyVal → Except Exc β} {items : List PyVal}
    (hf : ∀ item e, f item = .error e → e.cls.isTechnocoreError = false) :
    Survives (items.mapM f) ↔ ∀ item ∈ items, ∃ b, f item = .ok b := by
  cases h : items.mapM f with
  | ok bs =>
    refine iff_of_true nofun fun item hitem => ?_
    obtain ⟨b, -, hb⟩ := exists_right_of_forall₂ (mapM_eq_ok_iff.mp h) hitem
    exact ⟨b, hb⟩
  | error e =>
    obtain ⟨item, hitem, he⟩ := mapM_eq_error h
    refine iff_of_false (fun hs => ?_) fun hall => ?_
    · have hcls := hs e rfl
      rw [hf item e he] at hcls
      cases hcls
    · obtain ⟨b, hb⟩ := hall item hitem
      rw [hb] at he
      cases he

/-- **Which answers a read survives.** For every JSON value the server answers with, `read_room` returns
or raises `TechnocoreError` exactly if the value has no list of messages or every record of the list is
wrappable, and then it returns one message for each; `list_rooms` does exactly if every entry is
listable. -/
theorem reads_survive_iff {s : Surface} {room : PyStr} {v : PyVal} (since limit : Option Int)
    (hroom : validateRoom room = .ok room) (hserver : s.Answers v) :
    (Survives (readRoom s room since limit) ↔
      ∀ items, unwrap (py "messages") v = .list items → ∀ item ∈ items, Wrappable item) ∧
    (Survives (listRooms s) ↔
      ∀ items, unwrap (py "rooms") v = .list items → ∀ item ∈ items, Listable item) ∧
    ∀ messages, readRoom s room since limit = .ok messages →
      ∃ items, unwrap (py "messages") v = .list items ∧
        List.Forall₂ (fun item message => toMessage room item = .ok message) items messages ∧
        messages.length = items.length := by
  have hread := hserver.readRoom since limit hroom
  have hlist := hserver.listRooms
  have hmessages : (unwrap (py "messages") v).isJson = true := isJson_unwrap hserver.isJson
  have hrooms : (unwrap (py "rooms") v).isJson = true := isJson_unwrap hserver.isJson
  have hshape : ∀ {β : Type} {msg : PyStr},
      Survives (.error ⟨.technocoreError, msg⟩ : Except Exc β) := by
    intro β msg e he
    cases he
    rfl
  refine ⟨?_, ?_, ?_⟩
  · rw [hread]
    generalize unwrap (py "messages") v = payload at hmessages
    cases payload with
    | list items =>
      have hjson := isJsonList_iff.mp hmessages
      dsimp only
      rw [survives_mapM_iff fun _ _ => toMessage_error]
      constructor
      · intro h items' heq item hitem
        cases heq
        exact (toMessage_isOk_iff (hjson item hitem)).mp (h item hitem)
      · intro h item hitem
        exact (toMessage_isOk_iff (hjson item hitem)).mpr (h items rfl item hitem)
    | leaf | dict | other => exact iff_of_true hshape nofun
  · rw [hlist]
    generalize unwrap (py "rooms") v = payload at hrooms
    cases payload with
    | list items =>
      have hjson := isJsonList_iff.mp hrooms
      have hmap : Survives ((items.mapM toRoom).map List.reduceOption) ↔ Survives (items.mapM toRoom) := by
        cases items.mapM toRoom with
        | ok rs => exact iff_of_true nofun nofun
        | error e =>
          constructor
          · rintro h _ ⟨⟩
            exact h e rfl
          · rintro h _ ⟨⟩
            exact h e rfl
      dsimp only
      rw [hmap, survives_mapM_iff fun _ _ => toRoom_error]
      constructor
      · intro h items' heq item hitem
        cases heq
        exact (toRoom_isOk_iff (hjson item hitem)).mp (h item hitem)
      · intro h item hitem
        exact (toRoom_isOk_iff (hjson item hitem)).mpr (h items rfl item hitem)
    | leaf | dict | other => exact iff_of_true hshape nofun
  · intro messages h
    rw [hread] at h
    generalize unwrap (py "messages") v = payload at h
    cases payload with
    | list items =>
      have hall := mapM_eq_ok_iff.mp h
      exact ⟨items, rfl, hall, hall.length_eq.symm⟩
    | leaf | dict | other => cases h

end Reads

section Lobby

attribute [local instance] asciiRuntime asciiBuiltins acceptAll

/-- A server that answers every request with the JSON value `v`. -/
def answering (v : PyVal) (h : v.isJson = true) : Surface where
  acquired := .ok ()
  server _ _ := .ok (.ofJson v h)
  retryAfter := py "unknown"

theorem answering_answers (v : PyVal) (h : v.isJson = true) : (answering v h).Answers v where
  token := rfl
  response _ _ := ⟨_, rfl, by show 200 < 400; omega, rfl⟩

/-- **An infinity takes the room along**: `OverflowError` escapes for one record. -/
theorem infinite_nonce_escapes : ¬ ∀ (s : Surface) room v, validateRoom room = .ok room → s.Answers v →
    Survives (readRoom s room none none) := by
  intro hall
  let record : PyVal := .record [(py "from", .leaf (.str (py "did:key:z"))),
    (py "sig", .leaf (.str (py "s"))), (py "nonce", .leaf (.float (.inf false)))]
  have hjson : (PyVal.list [record]).isJson = true := by decide
  have hroom : validateRoom (py "lobby") = .ok (py "lobby") := by decide
  have hsurvives := hall _ _ _ hroom (answering_answers (.list [record]) hjson)
  rw [(answering_answers (.list [record]) hjson).readRoom none none hroom] at hsurvives
  have hone := (survives_mapM_iff fun _ _ => toMessage_error).mp hsurvives record
    (List.mem_singleton_self _)
  exact ((toMessage_isOk_iff (isJsonList_iff.mp hjson record (List.mem_singleton_self _))).mp
    hone).2.2.2.2.1 rfl rfl false rfl

theorem reads_survive_iff_lobby : ∃ (s : Surface) (v : PyVal), s.Answers v ∧
    Survives (readRoom s (py "lobby") none none) ∧ Survives (listRooms s) := by
  have hjson : (PyVal.list [.leaf (.str (py "hello"))]).isJson = true := by decide
  have hroom : validateRoom (py "lobby") = .ok (py "lobby") := by decide
  have hanswers := answering_answers _ hjson
  obtain ⟨hread, hlist, -⟩ := reads_survive_iff none none hroom hanswers
  refine ⟨_, _, hanswers, hread.mpr fun items heq item hitem => ?_,
    hlist.mpr fun items heq item hitem => ?_⟩
  · cases heq
    rw [List.mem_singleton.mp hitem]
    exact Nat.zero_le _
  · cases heq
    rw [List.mem_singleton.mp hitem]
    trivial

end Lobby

end FlopOffice.Technocore
