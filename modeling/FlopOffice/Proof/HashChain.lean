/-
# FlopOffice.Proof.HashChain — the hash of a ledger row.

`entry_hash` is SHA-256 over a JSON object of the chained fields with sorted keys. The two facts the
verifier and its guarantees need are proved here once: the hash reads the chained fields and nothing
else (`computeEntryHash_congr`), and on rows of NULL, integers and text the serialisation is injective
(`canonicalBytes_injective`), so a collision of the hash is a collision of SHA-256 itself.
-/
import FlopOffice.Python.Hashlib
import FlopOffice.Storage.Db

namespace FlopOffice.Proof

open FlopOffice.Lib FlopOffice.Python FlopOffice.Storage

/-! ## The serialisation -/

def GENESIS_PREV_HASH : PyStr := List.replicate 64 (cp '0')

/-- Fields covered by `entry_hash`, in the order of the source. -/
def CHAINED_FIELDS : List Column :=
  [.activityId, .chainIndex, .agentDid, .activityType, .taskId, .refActivityId, .tcRoom, .tcSeq,
   .tcNonce, .signedPayloadHash, .signature, .resultHash, .providerId, .model, .costAmount,
   .costUnit, .occurredAt, .recordedAt, .metaJson, .prevHash]

theorem mem_CHAINED_FIELDS {c : Column} : c ∈ CHAINED_FIELDS ↔ c ≠ .entryHash := by
  cases c <;> decide

/-- `{name: row[name] for name in CHAINED_FIELDS}`, with `None` for every other name. -/
def chainedFields (row : Row) : Row := fun c => if c ∈ CHAINED_FIELDS then row c else .none

/-- The payload object of `canonical_bytes`. -/
def payload (row : Row) : PyVal :=
  .record (CHAINED_FIELDS.map fun c => (c.name, .leaf (row c)))

/-- The chained fields in the order of their names. -/
def sortedFields : List Column :=
  CHAINED_FIELDS.insertionSort fun a b => strLe a.name b.name = true

theorem mem_sortedFields {c : Column} : c ∈ sortedFields ↔ c ≠ .entryHash := by
  rw [sortedFields, (List.perm_insertionSort _ _).mem_iff, mem_CHAINED_FIELDS]

section Bytes

variable [PyRuntime]

/-- Deterministic serialisation of the chained fields. -/
def canonicalBytes (row : Row) : Except Exc Bytes := do
  let text ← dumps (payload row)
  utf8 text

/-- SHA-256 hex digest over `canonicalBytes`. -/
def computeEntryHash (row : Row) : Except Exc PyStr := do
  let data ← canonicalBytes row
  pure (hexdigest data)

/-- `computeEntryHash`, as a proof evaluates it. -/
def packedEntryHash (row : Row) : Except Exc PyStr := do
  let data ← canonicalBytes row
  pure (packedHexdigest data)

theorem computeEntryHash_eq_packed (row : Row) : computeEntryHash row = packedEntryHash row := by
  rw [computeEntryHash, packedEntryHash]
  simp only [hexdigest_eq_packed]

/-! ## The text of a row -/

/-- The part of a member before its value. -/
def fieldLabel (c : Column) : PyStr := quote c.name ++ [cp ':']

/-- The text of a row that can be serialised: every chained field, in the order of the names. -/
theorem dumps_payload_eq_ok {row : Row} {t : PyStr} :
    dumps (payload row) = .ok t ↔
      ∃ x : Column → PyStr, (∀ c ∈ sortedFields, dumpsScalar (row c) = .ok (x c)) ∧
        cp '{' :: (joinWith (cp ',') (sortedFields.map fun c => fieldLabel c ++ x c) ++
          [cp '}']) = t := by
  obtain ⟨depth, hdepth⟩ := Nat.exists_eq_succ_of_ne_zero
    (Nat.ne_of_gt (Nat.lt_of_lt_of_le (by decide) PyRuntime.recursionLimit_ge))
  have hleaf : ∀ c : Column, dumpsVal depth (.leaf (row c)) = dumpsScalar (row c) := by
    intro c
    cases depth <;> rfl
  have hitems : sortItems (dumpsItems depth ((CHAINED_FIELDS.map fun c =>
      (c.name, PyVal.leaf (row c))).map fun kv => (Scalar.str kv.1, kv.2))) =
        .ok (sortedFields.map fun c => (Scalar.str c.name, dumpsScalar (row c))) := by
    rw [dumpsItems_eq_map, List.map_map, List.map_map]
    simp only [Function.comp_def, hleaf]
    exact sortItems_strings Column.name (fun c => dumpsScalar (row c)) CHAINED_FIELDS
  rw [dumps, hdepth, Nat.succ_eq_add_one, payload, PyVal.record, dumpsVal_dict_eq_ok, hitems]
  simp only [Except.ok.injEq, exists_eq_left', List.forall₂_map_left_iff]
  have hmember : ∀ c m, member (Scalar.str c.name, dumpsScalar (row c)) = .ok m ↔
      ∃ v, dumpsScalar (row c) = .ok v ∧ fieldLabel c ++ v = m := by
    intro c m
    rw [member_eq_ok]
    simp [keyText, fieldLabel]
  simp only [hmember]
  -- a row that can be written has a text for each of its fields
  have hmembers : ∀ {cs : List Column} {ms : List PyStr},
      List.Forall₂ (fun c m => ∃ v, dumpsScalar (row c) = .ok v ∧ fieldLabel c ++ v = m) cs ms →
        cs.map (fun c => fieldLabel c ++ ((dumpsScalar (row c)).toOption).getD []) = ms := by
    intro cs ms hf
    induction hf with
    | nil => rfl
    | cons h _ ih =>
      obtain ⟨v, hv, rfl⟩ := h
      rw [List.map_cons, ih, hv]
      rfl
  constructor
  · rintro ⟨members, hm, rfl⟩
    refine ⟨fun c => ((dumpsScalar (row c)).toOption).getD [], fun c hc => ?_, ?_⟩
    · obtain ⟨m, -, v, hv, -⟩ := exists_right_of_forall₂ hm hc
      simp only [hv, Except.toOption, Option.getD_some]
    · rw [hmembers hm]
  · rintro ⟨x, hx, rfl⟩
    refine ⟨sortedFields.map fun c => fieldLabel c ++ x c, ?_, rfl⟩
    rw [List.forall₂_map_right_iff, List.forall₂_same]
    exact fun c hc => ⟨x c, hx c hc, rfl⟩

/-- The serialisation reads the chained fields only. -/
theorem canonicalBytes_congr {row row' : Row} (h : ∀ c ∈ CHAINED_FIELDS, row c = row' c) :
    canonicalBytes row = canonicalBytes row' := by
  have hp : payload row = payload row' := by
    rw [payload, payload]
    congr 1
    exact List.map_congr_left fun c hc => by rw [h c hc]
  rw [canonicalBytes, canonicalBytes, hp]

/-- The hash reads the chained fields only. -/
theorem computeEntryHash_congr {row row' : Row} (h : ∀ c ∈ CHAINED_FIELDS, row c = row' c) :
    computeEntryHash row = computeEntryHash row' := by
  rw [computeEntryHash, computeEntryHash, canonicalBytes_congr h]

theorem computeEntryHash_chained (row : Row) :
    computeEntryHash (chainedFields row) = computeEntryHash row :=
  computeEntryHash_congr fun _ hc => if_pos hc

/-! ## Injectivity -/

/-- A value a chained column holds when nothing but the declared types was ever written. -/
def Plain : Scalar → Prop
  | .none | .int _ | .str _ => True
  | _ => False

/-- What may follow a value inside an object. -/
def Follows (u : PyStr) : Prop := u.head? = some (cp ',') ∨ u.head? = some (cp '}')

/-- The values a row of the ledger is built from. -/
def Written : Scalar → Prop
  | .none | .bool _ | .int _ | .str _ => True
  | _ => False

omit [PyRuntime] in
theorem Plain.written {x : Scalar} (h : Plain x) : Written x := by
  cases x with
  | none | int | str => trivial
  | bool | float | bytes => exact h.elim

/-- The values that are written as a word. -/
def jsonWords : List (Scalar × PyStr) :=
  [(.none, py "null"), (.bool true, py "true"), (.bool false, py "false")]

/-- Such values can be read back inside an object: the first character tells words, numbers and strings
apart, and the words from one another. -/
theorem readable_written : Readable (fun a x => Written a ∧ dumpsScalar a = .ok x) Follows := by
  have hhead : ∀ w ∈ jsonWords, ∃ c rest, w.2 = c :: rest ∧ c ∈ [cp 'n', cp 't', cp 'f'] := by
    simp only [jsonWords, List.forall_mem_cons]
    exact ⟨⟨_, _, rfl, by decide⟩, ⟨_, _, rfl, by decide⟩, ⟨_, _, rfl, by decide⟩, List.forall_mem_nil _⟩
  have hfirst : ∀ w ∈ jsonWords, ∀ w' ∈ jsonWords, w.2.head? = w'.2.head? → w = w' := by decide
  have hword : Readable (fun a x => (a, x) ∈ jsonWords) Follows := by
    intro a b x y u v ha hb _ _ he
    obtain ⟨c, rest, hc, -⟩ := hhead _ ha
    obtain ⟨d, rest', hd, -⟩ := hhead _ hb
    have heq : (a, x) = (b, y) := by
      refine hfirst _ ha _ hb ?_
      dsimp only at hc hd ⊢
      rw [hc, hd, List.cons_append, List.cons_append] at he
      rw [hc, hd, List.head?_cons, List.head?_cons, (List.cons.inj he).1]
    cases heq
    exact ⟨rfl, rfl, List.append_cancel_left he⟩
  have hint : Readable (fun a x => ∃ i, a = Scalar.int i ∧ strInt i = .ok x) Follows := by
    rintro a b x y u v ⟨i, rfl, hx⟩ ⟨j, rfl, hy⟩ hu hv he
    have hnd : ∀ w, Follows w → ∀ c, w.head? = some c → c.isDigit = false := by
      rintro w (hw | hw) c hc <;> rw [hw] at hc <;> cases hc <;> decide
    obtain ⟨rfl, hxy, huv⟩ := readable_strInt hx hy (hnd u hu) (hnd v hv) he
    exact ⟨rfl, hxy, huv⟩
  have hstr : Readable (fun a x => ∃ s, a = Scalar.str s ∧ x = quote s) Follows := by
    rintro a b x y u v ⟨s, rfl, hx⟩ ⟨t, rfl, hy⟩ _ _ he
    obtain ⟨rfl, hxy, huv⟩ := readable_quote hx hy trivial trivial he
    exact ⟨rfl, hxy, huv⟩
  -- first characters: the letter of a word, a minus sign or a digit, a quotation mark
  have hletter : ∀ c ∈ [cp 'n', cp 't', cp 'f'], c ≠ cp '-' ∧ c.isDigit = false ∧ c ≠ cp '"' := by
    decide
  have hne₁ : ∀ a b x y u v, (a, x) ∈ jsonWords → (∃ i, b = Scalar.int i ∧ strInt i = .ok y) →
      Follows u → Follows v → x ++ u ≠ y ++ v := by
    rintro a b x y u v hx ⟨i, -, hy⟩ _ _ he
    obtain ⟨c, rest, hc, hmem⟩ := hhead _ hx
    obtain ⟨d, hd, hfirst⟩ := head?_strInt hy v
    obtain ⟨hminus, hdigit, -⟩ := hletter c hmem
    rw [← he, show x = c :: rest from hc] at hd
    cases hd
    rcases hfirst with h | h
    · exact hminus h
    · exact absurd h (by rw [hdigit]; exact Bool.false_ne_true)
  have hne₂ : ∀ a b x y u v, ((a, x) ∈ jsonWords ∨ ∃ i, a = Scalar.int i ∧ strInt i = .ok x) →
      (∃ s, b = Scalar.str s ∧ y = quote s) → Follows u → Follows v → x ++ u ≠ y ++ v := by
    rintro a b x y u v (hx | ⟨i, -, hx⟩) ⟨s, -, rfl⟩ _ _ he
    · obtain ⟨c, rest, hc, hmem⟩ := hhead _ hx
      rw [show x = c :: rest from hc] at he
      exact (hletter c hmem).2.2 (List.cons.inj he).1
    · obtain ⟨c, hc, hd⟩ := head?_strInt hx u
      rw [he] at hc
      cases hc
      rcases hd with hd | hd <;> exact absurd hd (by decide)
  refine ((hword.or hint hne₁).or hstr hne₂).mono ?_ fun _ h => h
  rintro a x ⟨hw, hx⟩
  cases a with
  | none =>
    cases hx
    exact Or.inl (Or.inl List.mem_cons_self)
  | bool b =>
    cases hx
    exact Or.inl (Or.inl (by cases b <;> simp [jsonWords]))
  | int i => exact Or.inl (Or.inr ⟨i, rfl, hx⟩)
  | str s =>
    cases hx
    exact Or.inr ⟨s, rfl, rfl⟩
  | float | bytes => exact hw.elim

/-- **The serialisation is injective** on rows of NULL, bools, integers and text. -/
theorem canonicalBytes_injective_of_written {row row' : Row} {data : Bytes}
    (hp : ∀ c ∈ CHAINED_FIELDS, Written (row c)) (hp' : ∀ c ∈ CHAINED_FIELDS, Written (row' c))
    (h : canonicalBytes row = .ok data) (h' : canonicalBytes row' = .ok data) :
    ∀ c ∈ CHAINED_FIELDS, row c = row' c := by
  obtain ⟨t, ht, hu⟩ := bind_eq_ok.mp h
  obtain ⟨t', ht', hu'⟩ := bind_eq_ok.mp h'
  obtain ⟨x, hx, rfl⟩ := dumps_payload_eq_ok.mp ht
  obtain ⟨y, hy, rfl⟩ := dumps_payload_eq_ok.mp ht'
  have hwritten : ∀ c ∈ sortedFields, Written (row c) ∧ Written (row' c) := fun c hc =>
    have hc' := mem_CHAINED_FIELDS.mpr (mem_sortedFields.mp hc)
    ⟨hp c hc', hp' c hc'⟩
  have hall := (readable_written.join (fun _ => Or.inl rfl) (fun _ => Or.inr rfl)
    (fun c hc => ⟨(hwritten c hc).1, hx c hc⟩) (fun c hc => ⟨(hwritten c hc).2, hy c hc⟩)
    (List.cons.inj (utf8_injective hu hu')).2).1
  exact fun c hc => hall c (mem_sortedFields.mpr (mem_CHAINED_FIELDS.mp hc))

/-- The serialisation is injective on rows of NULL, integers and text. -/
theorem canonicalBytes_injective {row row' : Row} {data : Bytes}
    (hp : ∀ c ∈ CHAINED_FIELDS, Plain (row c)) (hp' : ∀ c ∈ CHAINED_FIELDS, Plain (row' c))
    (h : canonicalBytes row = .ok data) (h' : canonicalBytes row' = .ok data) :
    ∀ c ∈ CHAINED_FIELDS, row c = row' c :=
  canonicalBytes_injective_of_written (fun c hc => (hp c hc).written) (fun c hc => (hp' c hc).written) h h'

/-- **The serialisation tells rows apart**: there are twenty chained fields, and two rows of NULL, integers
and text are written alike exactly if they agree on these. -/
theorem canonicalBytes_eq_iff {row row' : Row} {data : Bytes}
    (hp : ∀ c ∈ CHAINED_FIELDS, Plain (row c)) (hp' : ∀ c ∈ CHAINED_FIELDS, Plain (row' c))
    (h : canonicalBytes row = .ok data) :
    CHAINED_FIELDS.length = 20 ∧
      (canonicalBytes row' = .ok data ↔ ∀ c ∈ CHAINED_FIELDS, row c = row' c) := by
  refine ⟨rfl, canonicalBytes_injective hp hp' h, fun heq => ?_⟩
  rw [← canonicalBytes_congr heq, h]

/-! ## Rows of declared types serialise -/

omit [PyRuntime] in
theorem storable_digits {i : Int} (h : storable i = true) :
    (decimalDigits i.natAbs).length ≤ maxStrDigits := by
  rw [storable_iff] at h
  have hlt : i.natAbs < 10 ^ 19 := by omega
  exact Nat.le_trans ((decimalDigits_length_le_iff (by decide)).mpr hlt) (by decide)

omit [PyRuntime] in
theorem strInt_of_storable {i : Int} (h : storable i = true) : ∃ t, strInt i = .ok t := by
  rw [strInt, if_pos (storable_digits h)]
  exact ⟨_, rfl⟩

omit [PyRuntime] in
theorem plain_of_admits {c : Column} {v : SqlValue} (h : c.admits v = true) : Plain v.toScalar := by
  cases v with
  | null | integer | text => trivial
  | real | blob => cases h

omit [PyRuntime] in
theorem mem_strings_payload {row : Row} {s : PyStr} (h : s ∈ strings (payload row)) :
    ∃ c ∈ CHAINED_FIELDS, s = c.name ∨ row c = .str s := by
  obtain ⟨k, v, hkv, hs⟩ := mem_stringsItems.mp h
  obtain ⟨kv, hkv', heq⟩ := List.mem_map.mp hkv
  obtain ⟨c, hc, rfl⟩ := List.mem_map.mp hkv'
  cases heq
  refine ⟨c, hc, hs.imp (fun hk => ?_) fun hv => ?_⟩
  · exact (Scalar.str.inj hk).symm
  · cases hr : row c <;> rw [hr] at hv <;> simp [strings] at hv
    rw [hv]

/-- A row whose strings have no lone surrogates encodes once it can be written. -/
theorem canonicalBytes_of_dumps {row : Row} {t : PyStr} (ht : dumps (payload row) = .ok t)
    (hs : ∀ c ∈ CHAINED_FIELDS, ∀ s, row c = .str s → ∀ x ∈ s, x.isSurrogate = false) :
    ∃ data, canonicalBytes row = .ok data := by
  have hname : ∀ c ∈ CHAINED_FIELDS, ∀ x ∈ c.name, x.isSurrogate = false := by decide
  obtain ⟨data, hdata⟩ : ∃ data, utf8 t = .ok data := by
    refine (utf8_dumps_iff ht).mpr fun s hsm x hxs => ?_
    obtain ⟨c, hc, rfl | hrow⟩ := mem_strings_payload hsm
    · exact hname c hc x hxs
    · exact hs c hc s hrow x hxs
  exact ⟨data, bind_eq_ok.mpr ⟨t, ht, hdata⟩⟩

/-- A row whose values can be bound to the statement can be hashed before. -/
theorem canonicalBytes_of_bindable {row : Row}
    (h : ∀ c ∈ CHAINED_FIELDS, Written (row c) ∧ ∃ v, bindValue (row c) = .ok v) :
    ∃ data, canonicalBytes row = .ok data := by
  have hscalar : ∀ c ∈ sortedFields, ∃ t, dumpsScalar (row c) = .ok t := by
    intro c hc
    obtain ⟨hw, v, hv⟩ := h c (mem_CHAINED_FIELDS.mpr (mem_sortedFields.mp hc))
    cases hx : row c with
    | none | bool | str => exact ⟨_, rfl⟩
    | int i =>
      rw [hx] at hv
      simp only [bindValue] at hv
      split at hv
      · exact strInt_of_storable (by assumption)
      · cases hv
    | float | bytes =>
      rw [hx] at hw
      exact hw.elim
  choose! x hx using hscalar
  refine canonicalBytes_of_dumps (dumps_payload_eq_ok.mpr ⟨x, hx, rfl⟩) ?_
  intro c hc s hs
  obtain ⟨-, v, hv⟩ := h c hc
  rw [hs] at hv
  exact utf8_isOk_iff.mp (bindValue_str.mp hv).1

/-- A row of declared types can be hashed. -/
theorem canonicalBytes_of_typed {r : ActivityRow} (h : r.Typed) :
    ∃ data, canonicalBytes r.read = .ok data := by
  refine canonicalBytes_of_bindable fun c _ => ?_
  have hc := h c
  show Written (r c).toScalar ∧ ∃ v, bindValue (r c).toScalar = .ok v
  cases hv : r c with
  | null => exact ⟨trivial, _, rfl⟩
  | integer i =>
    rw [hv] at hc
    simp only [Column.admits, Bool.and_eq_true] at hc
    exact ⟨trivial, _, if_pos hc.2⟩
  | text s =>
    rw [hv] at hc
    simp only [Column.admits, Bool.and_eq_true, List.all_eq_true, Bool.not_eq_true'] at hc
    exact ⟨trivial, _, bindValue_str.mpr ⟨utf8_isOk_iff.mpr hc.2, rfl⟩⟩
  | real | blob =>
    rw [hv] at hc
    cases hc

theorem computeEntryHash_of_typed {r : ActivityRow} (h : r.Typed) :
    ∃ data, canonicalBytes r.read = .ok data ∧ computeEntryHash r.read = .ok (hexdigest data) := by
  obtain ⟨data, hd⟩ := canonicalBytes_of_typed h
  exact ⟨data, hd, bind_eq_ok.mpr ⟨data, hd, rfl⟩⟩

end Bytes

/-! ## NULL is not its name -/

section Samples

attribute [local instance] asciiRuntime

/-- A row without values. -/
def emptyRow : Row := fun _ => .none

/-- A row whose model is the text `null`. -/
def nullModelRow : Row := fun c => if c = .model then .str (py "null") else .none

theorem canonicalBytes_eq_iff_null :
    ∃ data, canonicalBytes emptyRow = .ok data ∧ canonicalBytes nullModelRow ≠ .ok data := by
  obtain ⟨data, h⟩ : ∃ data, canonicalBytes emptyRow = .ok data :=
    canonicalBytes_of_bindable fun _ _ => ⟨trivial, _, rfl⟩
  have hempty : ∀ c, Plain (emptyRow c) := fun _ => trivial
  have hplain : ∀ c, Plain (nullModelRow c) := by
    intro c
    cases c <;> exact trivial
  refine ⟨data, h, fun h' => ?_⟩
  have heq := (canonicalBytes_eq_iff (fun c _ => hempty c) (fun c _ => hplain c) h).2.mp h' .model
    (mem_CHAINED_FIELDS.mpr (by decide))
  cases heq

end Samples

end FlopOffice.Proof
