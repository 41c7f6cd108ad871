/-
# FlopOffice.Technocore.Outcome — when an attempted write gets its outcome row.

The row repeats the columns of the intent, so the ledger takes it again. What can keep it from being
written is on the way there: an exception that is no `TechnocoreError` (verification of an odd did, the
rate limiter, a text that cannot be put into a path, a body nested too deeply), a response whose `repr`
or whose `seq` is out of range, and a foreign host whose name looks like a secret inside the message of
its own refusal. `OutcomeRecordable` lists them, and is exact.
-/
import FlopOffice.Technocore.Accepted
import FlopOffice.Technocore.Outbound

namespace FlopOffice.Technocore

open FlopOffice.Identity FlopOffice.Lib FlopOffice.Proof FlopOffice.Python FlopOffice.Storage
  FlopOffice.Tools

/-! ## The condition -/

section Condition

variable [PyRuntime]

/-- The `meta` of a failure. -/
def failedItems (e : Exc) : List (PyStr × PyVal) :=
  [textItem "error" (technocoreErrorName e), textItem "detail" (e.msg.take 300)]

/-- The refusal of a host that is neither public nor local. -/
def foreignRefusal (client : TechnocoreClient) : Exc :=
  ⟨.publicWriteRefused, py "writes are only permitted against a loopback host; got " ++
    pyRepr client.host⟩

/-- A foreign host can be named in the row of its refusal. -/
def HostNameable (client : TechnocoreClient) : Prop :=
  client.isPublic = true ∨ client.isLoopback = true ∨
    ∀ t, dumps (.record (failedItems (foreignRefusal client))) = .ok t →
      scanText t (py "<ledger-write>") = []

/-- A value the server may return and that gets a row: an object is not nested too deeply for the
`repr` of its sorted items, and its `seq`, if an integer, fits 64 bits. -/
def ValueRecordable : PyVal → Prop
  | .dict items => nesting (.dict items) + 1 ≤ PyRuntime.recursionLimit ∧
      ∀ n, asInt (PyVal.get (.dict items) (py "seq")) = some n → storable n.toInt = true
  | _ => True

/-- What the HTTP client and the server may do: raise an `httpx.HTTPError`, refuse, or answer with a body
that is no JSON and that its own encoding decodes to a text, or with a value that gets a row. -/
def AnswerRecordable : Except GetError Response → Prop
  | .error (.http _) => True
  | .error (.other ..) => False
  | .ok response => 400 ≤ response.statusCode ∨ match response.json with
    | .error e => e.cls.isValueError = true ∧ ∃ text, response.text = .ok text
    | .ok v => ValueRecordable v

/-- What is left once the guard lets the write pass. -/
structure PassRecordable (write : SignedWrite) (w : World) : Prop where
  granted : ∃ b, w.writes.acquire w.clock = (.granted, b)
  text : ∀ c ∈ write.sweptText, c.isSurrogate = false
  answer : AnswerRecordable w.server

/-- Verification answers, and a write that verifies is refused by name, or passes to the end. -/
structure OutcomeRecordable [Ed25519] (client : TechnocoreClient) (write : SignedWrite) (w : World) :
    Prop where
  answered : ¬ (NonAsciiBody write.did ∧
    ∃ payload, messagePayload write.room write.nonce write.sweptText = .ok payload)
  named : write.verifies = .ok true → HostNameable client
  passed : write.verifies = .ok true → client.localGuard (w.environ WRITE_ENABLE_ENV) = .ok () →
    PassRecordable write w

end Condition

/-! ## What is recorded -/

/-- The rows among the events that are outcomes of an intent. -/
def outcomesOf (intentId : PyStr) (events : List Event) : List Appended :=
  (events.filterMap Event.appended?).filter fun r =>
    decide (r.1.activityType ∈ outcomeTypes ∧ r.1.refActivityId = some intentId)

/-- Exactly one outcome row was appended, and the intent does not dangle. -/
def OutcomeRecorded (intentId : PyStr) (events : List Event) (db : Database) : Prop :=
  (outcomesOf intentId events).length = 1 ∧ .text intentId ∉ danglingIntents db

theorem outcomesOf_sent (intentId : PyStr) (urls : List PyStr) :
    outcomesOf intentId (urls.map .sent) = [] := by
  have hnone : (urls.map Event.sent).filterMap Event.appended? = [] := by
    rw [List.filterMap_map, List.filterMap_eq_nil_iff]
    exact fun _ _ => rfl
  rw [outcomesOf, hnone]
  rfl

theorem outcomesOf_row {intentId : PyStr} {urls : List PyStr} {r : Appended}
    (htype : r.1.activityType ∈ outcomeTypes) (href : r.1.refActivityId = some intentId) :
    outcomesOf intentId (urls.map .sent ++ [r.event]) = [r] := by
  have hsent := outcomesOf_sent intentId urls
  rw [outcomesOf] at hsent ⊢
  rw [List.filterMap_append, List.filter_append, hsent, List.nil_append]
  show List.filter _ [r] = [r]
  rw [List.filter_cons, if_pos (decide_eq_true ⟨htype, href⟩)]
  rfl

/-- An intent that a committed row resolves does not dangle. -/
theorem not_dangling {intentId : PyStr} {db : Database} {r : Appended} (h : r.CommittedIn db)
    (htype : r.1.activityType ∈ outcomeTypes) (href : r.1.refActivityId = some intentId) :
    .text intentId ∉ danglingIntents db := by
  obtain ⟨row, hrow, metaJson, at_, index, prev, hbind⟩ := h
  have hrefCol := hbind .refActivityId (by decide)
  have htypeCol := hbind .activityType (by decide)
  rw [show activityRow r.1 metaJson r.2.activityId at_ index prev .refActivityId = .str intentId by
    simp [activityRow, href, strScalar]] at hrefCol
  intro hmem
  obtain ⟨i, hi, hid⟩ := List.mem_map.mp hmem
  obtain ⟨-, hdangling⟩ := List.mem_filter.mp hi
  simp only [Bool.and_eq_true, Bool.not_eq_true', List.any_eq_false] at hdangling
  refine hdangling.2 row hrow ?_
  unfold ActivityRow.Resolves
  rw [hid, (bindValue_str.mp hrefCol).2, (bindValue_str.mp htypeCol).2]
  simp only [Bool.and_eq_true, bne_iff_ne, ne_eq, reduceCtorEq, not_false_eq_true, beq_self_eq_true,
    and_self, true_and, List.any_eq_true, beq_iff_eq]
  exact ⟨_, htype, rfl⟩

/-! ## Responses -/

section Response

variable [PyRuntime] [PyBuiltins]

theorem reprPair_isOk_iff {d : Nat} {kv : Scalar × PyVal} (hkey : kv.1.isStr = true)
    (hv : kv.2.isJson = true) : (∃ t, reprPair d kv = .ok t) ↔ nesting kv.2 ≤ d := by
  obtain ⟨kt, hkt⟩ : ∃ kt, reprScalar kv.1 = .ok kt := by
    cases hk : kv.1 with
    | str s => exact ⟨_, rfl⟩
    | none | bool | int | float | bytes =>
      rw [hk] at hkey
      cases hkey
  rw [← reprVal_isOk_iff hv]
  simp only [reprPair, bind_eq_ok, pure, Except.pure, Except.ok.injEq]
  constructor
  · rintro ⟨_, _, _, t, ht, -⟩
    exact ⟨t, ht⟩
  · rintro ⟨t, ht⟩
    exact ⟨_, kt, hkt, t, ht, rfl⟩

theorem isSurrogate_of_mem_reprPair {d : Nat} {kv : Scalar × PyVal} (hkey : kv.1.isStr = true)
    (hv : kv.2.isJson = true) {t : PyStr} (ht : reprPair d kv = .ok t) :
    ∀ c ∈ t, c.isSurrogate = false := by
  have hmark : ∀ c ∈ [cp '(', cp ')'] ++ py ", ", c.isSurrogate = false := by decide
  simp only [reprPair, bind_eq_ok, pure, Except.pure, Except.ok.injEq] at ht
  obtain ⟨kt, hkt, vt, hvt, rfl⟩ := ht
  intro c hc
  simp only [List.mem_cons, List.mem_append, List.not_mem_nil, or_false] at hc
  rcases hc with rfl | ((hc | hc) | hc) | rfl
  · exact hmark _ (by decide)
  · refine isSurrogate_of_mem_reprScalar (s := kv.1) ?_ hkt hc
    cases hk : kv.1 with
    | str s => rfl
    | none | bool | int | float | bytes =>
      rw [hk] at hkey
      cases hkey
  · exact hmark c (List.mem_append_right _ hc)
  · exact isSurrogate_of_mem_reprVal hv hvt c hc
  · exact hmark _ (by decide)

/-- **When a decoded response can be hashed**: it is no object, or not nested too deeply. -/
theorem outboundHash_isOk_iff {v : PyVal} (hv : v.isJson = true) :
    (∃ hash, outboundHash v = .ok hash) ↔
      ∀ items, v = .dict items → nesting v + 1 ≤ PyRuntime.recursionLimit := by
  cases v with
  | leaf s => exact iff_of_true ⟨none, rfl⟩ nofun
  | list items => exact iff_of_true ⟨none, rfl⟩ nofun
  | other => exact iff_of_true ⟨none, rfl⟩ nofun
  | dict items =>
    have hjson := isJsonItems_iff.mp hv
    have hlimit := PyRuntime.recursionLimit_ge
    have hsort : ∃ sorted, sortItems items = .ok sorted := by
      unfold sortItems
      rw [if_pos (Or.inr (Or.inl ?_))]
      · exact ⟨_, rfl⟩
      · rw [List.all_eq_true]
        simpa using fun k v hkv => (hjson (k, v) hkv).1
    obtain ⟨sorted, hsorted⟩ := hsort
    have hmem : ∀ kv, kv ∈ sorted ↔ kv ∈ items := fun kv => (sortItems_perm hsorted).mem_iff
    have hparts : (∃ parts, sorted.mapM (reprPair (PyRuntime.recursionLimit - 2)) = .ok parts) ↔
        ∀ kv ∈ items, nesting kv.2 ≤ PyRuntime.recursionLimit - 2 := by
      simp only [mapM_eq_ok_iff]
      constructor
      · rintro ⟨parts, hall⟩ kv hkv
        obtain ⟨t, -, ht⟩ := exists_right_of_forall₂ hall ((hmem kv).mpr hkv)
        exact (reprPair_isOk_iff (hjson kv hkv).1 (hjson kv hkv).2).mp ⟨t, ht⟩
      · intro hall
        have hone : ∀ kv ∈ sorted, ∃ t, reprPair (PyRuntime.recursionLimit - 2) kv = .ok t := by
          intro kv hkv
          have hkv' := (hmem kv).mp hkv
          exact (reprPair_isOk_iff (hjson kv hkv').1 (hjson kv hkv').2).mpr (hall kv hkv')
        choose! t ht using hone
        refine ⟨sorted.map t, ?_⟩
        rw [List.forall₂_map_right_iff, List.forall₂_same]
        exact ht
    have hdepth : (∀ items', PyVal.dict items = .dict items' →
        nesting (.dict items) + 1 ≤ PyRuntime.recursionLimit) ↔
          ∀ kv ∈ items, nesting kv.2 ≤ PyRuntime.recursionLimit - 2 := by
      rw [← nestingItems_le, nesting]
      refine ⟨fun h => ?_, fun h _ _ => ?_⟩
      · have := h items rfl
        omega
      · omega
    rw [hdepth, ← hparts]
    simp only [outboundHash, reprSortedItems, bind_eq_ok, pure, Except.pure, Except.ok.injEq]
    constructor
    · rintro ⟨_, _, ⟨s, hs, parts, hp, -⟩, -⟩
      rw [hsorted] at hs
      cases hs
      exact ⟨parts, hp⟩
    · rintro ⟨parts, hp⟩
      -- `repr` leaves nothing that cannot be encoded
      have hmark : ∀ c ∈ [cp '[', cp ']'] ++ py ", ", c.isSurrogate = false := by decide
      obtain ⟨data, hdata⟩ : ∃ data,
          utf8 (cp '[' :: (List.intercalate (py ", ") parts ++ [cp ']'])) = .ok data := by
        refine utf8_isOk_iff.mpr fun c hc => ?_
        simp only [List.mem_cons, List.mem_append, List.not_mem_nil, or_false] at hc
        rcases hc with rfl | hc | rfl
        · exact hmark _ (by decide)
        · rcases mem_intercalate hc with hc | ⟨x, hx, hc⟩
          · exact hmark c (List.mem_append_right _ hc)
          · obtain ⟨kv, hkv, hkvx⟩ := exists_left_of_forall₂ (mapM_eq_ok_iff.mp hp) hx
            have hkv' := (hmem kv).mp hkv
            exact isSurrogate_of_mem_reprPair (hjson kv hkv').1 (hjson kv hkv').2 hkvx c hc
        · exact hmark _ (by decide)
      exact ⟨_, _, ⟨sorted, hsorted, parts, hp, rfl⟩, data, hdata, rfl⟩

end Response

/-! ## The outcome row is accepted -/

section Accepted

variable [PyRuntime] {write : SignedWrite} {taskId : Option PyStr} {t₀ intentId : PyStr}

/-- The outcome types are accepted. -/
theorem textAccepted_outcome {s : PyStr} (h : s ∈ outcomeTypes) : TextAccepted s := by
  have hall : ∀ s ∈ outcomeTypes, Unmarked s ∧ cp ' ' ∉ s ∧ ∀ c ∈ s, c.isSurrogate = false := by
    decide
  obtain ⟨hmarks, hblank, hsurrogate⟩ := hall s h
  exact textAccepted_of_unmarked hmarks hblank hsurrogate

/-- An outcome row repeats columns of the intent: its type, its time, its reference and its hash apart,
there is nothing new in it. -/
theorem columnsAccepted_outcome (h : ColumnsAccepted (intentActivity write taskId t₀)) {a : Activity}
    {type : String} {t : UtcTime} {bits : Nat} {seq : Option PyInt} {hash : Option PyStr}
    {metadata : Option PyVal} (htype : py type ∈ outcomeTypes)
    (ha : a = { writeActivity write type taskId t.isoformat with
      refActivityId := some (uuid4 bits), tcSeq := seq, resultHash := hash, metadata := metadata })
    (hseq : ∀ n, seq = some n → storable n.toInt = true)
    (hhash : ∀ s, hash = some s → ∃ digest, s = hexOf digest) : ColumnsAccepted a := by
  subst ha
  refine ⟨fun s hs => ?_, hseq, h.nonce⟩
  have hold : ∀ s ∈ stringColumns (intentActivity write taskId t₀), TextAccepted s := h.texts
  simp only [stringColumns, writeActivity, List.mem_filterMap, List.mem_cons, List.not_mem_nil,
    or_false, id_eq, exists_eq_right, Option.some.injEq, reduceCtorEq, false_or] at hs
  rcases hs with rfl | rfl | rfl | hs | rfl | rfl | rfl | hs | rfl
  · exact hold _ (by simp [stringColumns, intentActivity, writeActivity])
  · exact textAccepted_outcome htype
  · exact textAccepted_isoformat t
  · exact hold _ (by simp [stringColumns, intentActivity, writeActivity, ← hs])
  · exact textAccepted_uuid4 bits
  · exact hold _ (by simp [stringColumns, intentActivity, writeActivity])
  · exact hold _ (by simp [stringColumns, intentActivity, writeActivity])
  · obtain ⟨digest, rfl⟩ := hhash s hs.symm
    exact textAccepted_hexOf digest
  · exact hold _ (by simp [stringColumns, intentActivity, writeActivity])

/-- **The ledger has nothing against an outcome row** whose `seq` fits and whose `meta` is accepted. -/
theorem appendable_outcome (h : ColumnsAccepted (intentActivity write taskId t₀))
    (hdid : write.did ≠ []) {a : Activity} {type : String} {t : UtcTime} {bits : Nat}
    {seq : Option PyInt} {hash : Option PyStr} {metadata : Option PyVal} {db : Database}
    (htype : py type ∈ outcomeTypes)
    (ha : a = { writeActivity write type taskId t.isoformat with
      refActivityId := some (uuid4 bits), tcSeq := seq, resultHash := hash, metadata := metadata })
    (hseq : ∀ n, seq = some n → storable n.toInt = true)
    (hhash : ∀ s, hash = some s → ∃ digest, s = hexOf digest) (hmeta : MetaAccepted a)
    (href : ∃ r ∈ db.activities, r .activityId = .text (uuid4 bits)) : Appendable a db := by
  refine appendable_of_accepted ?_ (columnsAccepted_outcome h htype ha hseq hhash) hmeta ?_
  · have hknown : ∀ s ∈ outcomeTypes, s ∈ ACTIVITY_TYPES := by simp [outcomeTypes, ACTIVITY_TYPES]
    have hunit : py "NONE" ∈ VALID_COST_UNITS := List.mem_cons_self
    subst ha
    unfold validate
    exact (if_neg hdid).trans ((if_neg (not_not.mpr (hknown _ htype))).trans
      ((if_neg (not_not.mpr hunit)).trans (if_neg fun hcost => nomatch hcost.1)))
  · subst ha
    rintro _ ⟨⟩
    exact href

/-- The message of an exception, cut, shows no mark and can be stored. -/
def PlainDetail (e : Exc) : Prop :=
  Unmarked (escape (e.msg.take 300)) ∧ ∀ c ∈ e.msg.take 300, c.isSurrogate = false

omit [PyRuntime] in
instance (e : Exc) : Decidable (PlainDetail e) :=
  inferInstanceAs (Decidable (_ ∧ ∀ c ∈ e.msg.take 300, c.isSurrogate = false))

omit [PyRuntime] in
theorem technocoreErrorName_plain (e : Exc) : Unmarked (escape (technocoreErrorName e)) ∧
    ∀ c ∈ technocoreErrorName e, c.isSurrogate = false := by
  have hall : ∀ s ∈ [py "PublicWriteRefused", py "TechnocoreError"],
      Unmarked (escape s) ∧ ∀ c ∈ s, c.isSurrogate = false := by
    decide
  refine hall _ ?_
  unfold technocoreErrorName
  split
  · exact List.mem_cons_self
  · exact List.mem_cons_of_mem _ List.mem_cons_self

omit [PyRuntime] in
theorem surrogate_failedItems {e : Exc} (h : ∀ c ∈ e.msg.take 300, c.isSurrogate = false) :
    ∀ s ∈ strings (.record (failedItems e)), ∀ c ∈ s, c.isSurrogate = false := by
  have hkeys : ∀ s ∈ [py "error", py "detail"], ∀ c ∈ s, c.isSurrogate = false := by decide
  intro s hs
  simp only [PyVal.record, failedItems, textItem, strings, List.map_cons, List.map_nil, stringsItems,
    List.append_nil, List.mem_append, List.mem_singleton] at hs
  rcases hs with (rfl | rfl) | rfl | rfl
  · exact hkeys _ (by simp)
  · exact (technocoreErrorName_plain e).2
  · exact hkeys _ (by simp)
  · exact h

/-- A plain message is accepted. -/
theorem metaAccepted_failed {e : Exc} {t : PyStr} (h : PlainDetail e) :
    MetaAccepted (failedActivity write taskId intentId e t) := by
  refine metaAccepted_record rfl (fun kv hkv => ?_) (surrogate_failedItems h.2)
  rcases List.mem_cons.mp hkv with rfl | hkv
  · exact plainItem_text (by decide) (technocoreErrorName_plain e).1
  · rw [List.mem_singleton.mp hkv]
    exact plainItem_text (by decide) h.1

/-- The JSON text of a failure, whatever its message. -/
theorem dumps_failedItems (e : Exc) :
    ∃ t, dumps (.record (failedItems e)) = .ok t ∧ t ≠ [] := by
  obtain ⟨t, ht⟩ := (dumpsVal_isOk_iff (d := PyRuntime.recursionLimit)
    (v := .record (failedItems e)) rfl).mpr
      ⟨Nat.le_trans (by decide : 1 ≤ 16) PyRuntime.recursionLimit_ge, rfl⟩
  refine ⟨t, ht, ?_⟩
  rintro rfl
  have hinfix := quote_infix_of_mem_strings (s := py "error") ht
    (by simp [PyVal.record, failedItems, textItem, strings, stringsItems])
  exact absurd (List.infix_nil.mp hinfix) (List.cons_ne_nil _ _)

/-- A refusal of a foreign host is accepted if the host can be named. -/
theorem metaAccepted_foreign {client : TechnocoreClient} {t : PyStr}
    (h : ∀ t, dumps (.record (failedItems (foreignRefusal client))) = .ok t →
      scanText t (py "<ledger-write>") = []) :
    MetaAccepted (failedActivity write taskId intentId (foreignRefusal client) t) := by
  obtain ⟨text, htext, hne⟩ := dumps_failedItems (foreignRefusal client)
  have hsurrogate : ∀ c ∈ (foreignRefusal client).msg.take 300, c.isSurrogate = false := by
    have hprefix : ∀ c ∈ py "writes are only permitted against a loopback host; got ",
        c.isSurrogate = false := by decide
    intro c hc
    rcases List.mem_append.mp (List.mem_of_mem_take hc) with hc | hc
    · exact hprefix c hc
    · exact pyRepr_scalar _ c hc
  refine Or.inr ⟨_, text, rfl, ?_, htext, hne, ?_, h text htext⟩
  · exact Nat.le_trans (by decide : 1 ≤ 16) PyRuntime.copyLimit_ge
  · exact (utf8_dumps_iff htext).mpr (surrogate_failedItems hsurrogate)

/-- A row with a `meta` was accepted only if its text passed the scan. -/
theorem scan_of_prepare {a : Activity} {m : Option PyStr} {v : PyVal} {t : PyStr}
    (h : prepare a = .ok m) (ha : a.metadata = some v) (ht : dumps v = .ok t) (hne : t ≠ []) :
    scanText t (py "<ledger-write>") = [] := by
  obtain ⟨-, hjson, hrefuse⟩ := prepare_eq_ok.mp h
  rw [metaJson, ha] at hjson
  obtain ⟨t', ht', rfl⟩ := map_eq_ok.mp hjson
  rw [ht] at ht'
  cases ht'
  refine (refuseSecrets_eq_ok.mp hrefuse).2 t (List.mem_append_right _ ?_)
  simp [hne]

end Accepted

/-! ## The messages -/

section Messages

variable [PyRuntime]

omit [PyRuntime] in
theorem plainDetail_unverified : PlainDetail
    ⟨.technocoreError, py "refusing to send a write that fails local verification"⟩ := by
  decide

/-- Every refusal of the guard is plain, except that a foreign host is quoted in it. -/
theorem plainDetail_guard {client : TechnocoreClient} {flag : Option PyStr} {e : Exc}
    (h : client.localGuard flag = .error e) :
    (client.isPublic = false ∧ client.isLoopback = false ∧ e = foreignRefusal client) ∨
      (client.isPublic = true ∨ client.isLoopback = true) ∧ PlainDetail e := by
  unfold TechnocoreClient.localGuard at h
  split at h
  · rename_i hpub
    cases h
    have hall : ∀ host ∈ PUBLIC_HOSTS, PlainDetail ⟨.publicWriteRefused, py "writes to " ++ host ++
        py " are blocked in M1. Posting the first " ++
        py "public signed message is a separate, explicitly approved step."⟩ := by
      decide +kernel
    exact Or.inr ⟨Or.inl hpub, hall _ (of_decide_eq_true hpub)⟩
  · rename_i hpub
    split at h
    · rename_i hloop
      cases h
      exact Or.inl ⟨by simpa using hpub, by simpa using hloop, rfl⟩
    · rename_i hloop
      have hlocal : client.isLoopback = true := by simpa using hloop
      split at h
      · cases h
        exact Or.inr ⟨Or.inr hlocal, by decide⟩
      · cases h

omit [PyRuntime] in
/-- A message that ends in digits is as plain as what it starts with. -/
theorem plainDetail_digits {cls : ExcClass} {x y : PyStr} (hlen : x.length ≤ 300)
    (hx : ∀ c ∈ x, c ∉ escaped ∧ c.isSurrogate = false) (hmarks : Unmarked x)
    (hy : ∀ c ∈ y, c.isDigit = true) : PlainDetail ⟨cls, x ++ y⟩ := by
  have hescaped : ∀ c ∈ escaped, c.isDigit = false := by decide
  have hdigit : ∀ c : CodePoint, c.isDigit = true → c ∉ escaped ∧ c.isSurrogate = false := by
    intro c hc
    refine ⟨fun hmem => ?_, ?_⟩
    · rw [hescaped c hmem] at hc
      cases hc
    · simp only [CodePoint.isDigit, Bool.and_eq_true, decide_eq_true_eq] at hc
      simp only [CodePoint.isSurrogate, Bool.and_eq_false_iff, decide_eq_false_iff_not]
      omega
  have hcut : (x ++ y).take 300 = x ++ y.take (300 - x.length) := by
    rw [List.take_append, List.take_of_length_le hlen]
  have hall : ∀ c ∈ x ++ y.take (300 - x.length), c ∉ escaped ∧ c.isSurrogate = false := by
    intro c hc
    rcases List.mem_append.mp hc with hc | hc
    · exact hx c hc
    · exact hdigit c (hy c (List.mem_of_mem_take hc))
  unfold PlainDetail
  rw [hcut]
  refine ⟨?_, fun c hc => (hall c hc).2⟩
  rw [escape_of_plain fun c hc => (hall c hc).1, unmarked_append_right fun c hc =>
    neutral_of_isDigit (hy c (List.mem_of_mem_take hc))]
  exact hmarks

omit [PyRuntime] in
/-- A response has a value, or decoding it raised something that is no `TechnocoreError`: the body is
nested too deeply, or it is neither JSON nor a text. -/
theorem responseValue_error {response : Response} {e : Exc}
    (h : TechnocoreClient.responseValue response = .error e) :
    e.cls.isTechnocoreError = false ∧ ∃ e', response.json = .error e' ∧
      ¬ (e'.cls.isValueError = true ∧ ∃ text, response.text = .ok text) := by
  unfold TechnocoreClient.responseValue at h
  cases hjson : response.json with
  | ok v =>
    rw [hjson] at h
    cases h
  | error e' =>
    rw [hjson] at h
    dsimp only at h
    split at h
    · -- the handler asks for the text
      cases htext : response.text with
      | ok text =>
        rw [htext] at h
        cases h
      | error e'' =>
        rw [htext] at h
        cases h
        exact ⟨response.text_error _ htext, e', rfl, fun ⟨_, _, ht⟩ => nomatch ht⟩
    · rename_i hvalue
      cases h
      refine ⟨?_, e, rfl, fun hcaught => hvalue hcaught.1⟩
      rw [(response.json_error e hjson).resolve_left hvalue]
      rfl

omit [PyRuntime] in
/-- What the handler catches of a server is a transport error or a status, and leaves no value to record. -/
theorem serverResult_caught {server : Except GetError Response} {e : Exc}
    (h : TechnocoreClient.serverResult server = .error e) (hcls : e.cls.isTechnocoreError = true) :
    (∃ name, server = .error (.http name) ∧ e.msg = py "signed write failed: " ++ py name.name) ∨
      ∃ response, server = .ok response ∧ 400 ≤ response.statusCode ∧
        e.msg = py "signed write rejected with HTTP " ++ decimalDigits response.statusCode := by
  unfold TechnocoreClient.serverResult at h
  cases server with
  | error raised =>
    cases raised with
    | http name =>
      cases h
      exact Or.inl ⟨name, rfl, rfl⟩
    | other e' foreign =>
      cases h
      rw [foreign.2] at hcls
      cases hcls
  | ok response =>
    dsimp only at h
    split at h
    · rename_i hstatus
      cases h
      exact Or.inr ⟨response, rfl, hstatus, rfl⟩
    · rw [(responseValue_error h).1] at hcls
      cases hcls

omit [PyRuntime] in
/-- What a server can be refused for is plain. -/
theorem plainDetail_server {server : Except GetError Response} {e : Exc}
    (h : TechnocoreClient.serverResult server = .error e) (hcls : e.cls.isTechnocoreError = true) :
    PlainDetail e := by
  obtain ⟨cls, msg⟩ := e
  rcases serverResult_caught h hcls with ⟨name, -, rfl⟩ | ⟨response, -, -, rfl⟩
  · have hall : ∀ name : HttpxError,
        PlainDetail ⟨.technocoreError, py "signed write failed: " ++ py name.name⟩ := by
      intro name
      cases name <;> decide
    exact hall name
  · exact plainDetail_digits (by decide) (by decide) (by decide)
      fun c hc => isDigit_of_mem_decimalDigits hc

/-- What the handler catches of a server leaves no value to record. -/
theorem answerRecordable_of_caught {server : Except GetError Response} {e : Exc}
    (h : TechnocoreClient.serverResult server = .error e) (hcls : e.cls.isTechnocoreError = true) :
    AnswerRecordable server := by
  rcases serverResult_caught h hcls with ⟨name, rfl, -⟩ | ⟨response, rfl, hstatus, -⟩
  · exact trivial
  · exact Or.inl hstatus

/-- What the handler does not catch of a server cannot be recorded. -/
theorem not_answerRecordable_of_escaped {server : Except GetError Response} {e : Exc}
    (h : TechnocoreClient.serverResult server = .error e) (hcls : e.cls.isTechnocoreError = false) :
    ¬ AnswerRecordable server := by
  unfold TechnocoreClient.serverResult at h
  cases server with
  | error raised =>
    cases raised with
    | http name =>
      cases h
      cases hcls
    | other e' foreign => exact not_false
  | ok response =>
    dsimp only at h
    split at h
    · cases h
      cases hcls
    · rename_i hstatus
      obtain ⟨-, e', hjson, hno⟩ := responseValue_error h
      rintro (hstatus' | hanswer)
      · exact hstatus hstatus'
      · rw [hjson] at hanswer
        exact hno hanswer

/-- The start of a text that is not JSON, as a value. -/
theorem valueRecordable_raw (text : PyStr) :
    ValueRecordable (.record [(py "raw", .leaf (.str text))]) := by
  have hlimit := PyRuntime.recursionLimit_ge
  refine ⟨Nat.le_trans (by decide : 2 ≤ 16) hlimit, fun n hn => ?_⟩
  have hget : PyVal.get (.record [(py "raw", .leaf (.str text))]) (py "seq") = .leaf .none := rfl
  rw [PyVal.record] at hget
  rw [hget] at hn
  cases hn

/-- What a response is taken for is JSON, and decides whether it can be recorded. -/
theorem answerRecordable_iff_value {server : Except GetError Response} {v : PyVal}
    (h : TechnocoreClient.serverResult server = .ok v) :
    v.isJson = true ∧ (AnswerRecordable server ↔ ValueRecordable v) := by
  unfold TechnocoreClient.serverResult at h
  cases server with
  | error raised => cases raised <;> cases h
  | ok response =>
    dsimp only at h
    split at h
    · cases h
    · rename_i hstatus
      have hanswer : AnswerRecordable (.ok response) ↔ match response.json with
          | .error e => e.cls.isValueError = true ∧ ∃ text, response.text = .ok text
          | .ok v => ValueRecordable v := or_iff_right hstatus
      rw [hanswer]
      unfold TechnocoreClient.responseValue at h
      cases hjson : response.json with
      | ok v' =>
        rw [hjson] at h
        cases h
        exact ⟨response.json_value _ hjson, Iff.rfl⟩
      | error e =>
        rw [hjson] at h
        dsimp only at h
        split at h
        · rename_i hvalue
          obtain ⟨text, htext, rfl⟩ := map_eq_ok.mp h
          exact ⟨rfl, iff_of_true ⟨hvalue, text, htext⟩ (valueRecordable_raw _)⟩
        · cases h

end Messages

end FlopOffice.Technocore
