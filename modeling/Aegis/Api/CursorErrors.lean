import Aegis.Api.Cursor

/-!
# Cursors that no one encoded

`decode_cursor` and `decode_score_cursor` take whatever a client sends. They also meet the limits of
the interpreter, which the round trip of a cursor stays within: on the digits of an integer, which
raises a `ValueError`, and on how deep a value is nested, which raises a `RecursionError`.
-/

namespace Aegis.Api

open Server Json Base64 DateTime Access

/-! ## The limits of the interpreter -/

/-- What stands neither for a list nor for a dictionary, and is no integer. -/
def IsFlat : Json → Prop
  | .str _ | .float _ => True
  | _ => False

/-- The limits of the interpreter. Integers and nesting alone reach them. -/
structure Interpreter where
  /-- Whether `json.loads` stops at the digits of an integer. -/
  stopsAtDigits : PyBytes → Bool
  /-- Whether `json.loads` stops at the depth of a value. -/
  stopsAtDepth : PyBytes → Bool
  /-- Whether `str` stops at the depth of a value. -/
  strStops : Json → Bool
  /-- Texts and numbers with a fraction, one level deep, reach neither limit. -/
  flat_loads : ∀ fields : JsonObject, (∀ field ∈ fields, IsFlat field.2) →
    stopsAtDigits (asciiBytes (dumps (.object fields))) = false ∧
      stopsAtDepth (asciiBytes (dumps (.object fields))) = false
  flat_str : ∀ value, IsFlat value → strStops value = false

/-- An interpreter without limits. -/
def unlimited : Interpreter where
  stopsAtDigits _ := false
  stopsAtDepth _ := false
  strStops _ := false
  flat_loads _ _ := ⟨rfl, rfl⟩
  flat_str _ _ := rfl

/-- The error of what is nested too deep. -/
def tooDeep : DomainError :=
  .BuiltinError .RecursionError

/-- The bytes a text stands for, if it is base64. -/
def cursorBytes (cursor : PyStr) : Option PyBytes :=
  urlsafeB64decode (cursor ++ padding cursor)

variable (interpreter : Interpreter)

/-- `json.loads(base64.urlsafe_b64decode(cursor + padding))`, where a `ValueError` is caught. -/
def loadCursor (cursor : PyStr) : Except DomainError (Option Json) :=
  if (cursorBytes cursor).any interpreter.stopsAtDepth then .error tooDeep
  else if (cursorBytes cursor).any interpreter.stopsAtDigits then .ok none
  else .ok (cursorPayload cursor)

/-- `str(payload[key])`. -/
def cursorStr (lib : Library) (payload : Option Json) (key : PyStr) : Except DomainError PyStr := do
  let value ← cursorField payload key
  if interpreter.strStops value then .error tooDeep else .ok (value.toStr lib)

/-- `UUID(str(payload["i"]))`. -/
def cursorUuid (lib : Library) (payload : Option Json) : Except DomainError Uuid := do
  let text ← cursorStr interpreter lib payload (py "i")
  (Uuid.parse text).elim (.error invalidCursor) .ok

/-- `decode_cursor`, within the limits of the interpreter. -/
def decodeCursorWithin (lib : Library) (cursor : PyStr) :
    Except DomainError (Instant × Uuid) := do
  let payload ← loadCursor interpreter cursor
  let text ← cursorStr interpreter lib payload (py "t")
  let (clock, offset) ← (fromisoformat text).elim (.error invalidCursor) .ok
  let rowId ← cursorUuid interpreter lib payload
  .ok (clock - offset.getD 0, rowId)

/-- `decode_score_cursor`, within the limits of the interpreter. -/
def decodeScoreCursorWithin (lib : Library) (parseFloat : PyStr → Option PyFloat)
    (cursor : PyStr) : Except DomainError (PyFloat × Uuid) := do
  let payload ← loadCursor interpreter cursor
  let value ← cursorField payload (py "s")
  let score ← cursorScore parseFloat value
  let rowId ← cursorUuid interpreter lib payload
  .ok (score, rowId)

/-! ## Within the limits -/

variable {interpreter} {lib : Library} {parseFloat : PyStr → Option PyFloat} {cursor : PyStr}

/-- A result is a key, or the error of a text that is not a cursor. -/
def Total {α : Type} (result : Except DomainError α) : Prop :=
  (∃ key, result = .ok key) ∨ result = .error invalidCursor

theorem total_ok {α : Type} (key : α) : Total (.ok key) :=
  .inl ⟨key, rfl⟩

theorem total_invalid {α : Type} : Total (.error invalidCursor : Except DomainError α) :=
  .inr rfl

/-- Steps are total one after another when each is total on what the ones before it return. -/
theorem total_bind {α β : Type} {x : Except DomainError α} {f : α → Except DomainError β} :
    Total (x >>= f) ↔ Total x ∧ ∀ key, x = .ok key → Total (f key) := by
  cases x with
  | ok key =>
      rw [and_iff_right (total_ok key)]
      exact ⟨fun h _ hkey ↦ Except.ok.inj hkey ▸ h, fun h ↦ h key rfl⟩
  | error e =>
      refine ⟨fun h ↦ ⟨?_, nofun⟩, fun h ↦ ?_⟩
      · rcases h with ⟨_, h⟩ | h
        · cases h
        · exact .inr (congrArg _ (Except.error.inj h))
      · rcases h.1 with ⟨_, h⟩ | h
        · cases h
        · exact .inr (congrArg _ (Except.error.inj h))

theorem total_elim {α : Type} (x : Option α) :
    Total (x.elim (.error invalidCursor) .ok : Except DomainError α) := by
  cases x with
  | none => exact total_invalid
  | some key => exact total_ok key

theorem elim_eq_ok_iff {α : Type} {x : Option α} {key : α} :
    (x.elim (.error invalidCursor) .ok : Except DomainError α) = .ok key ↔ x = some key := by
  cases x <;> simp

theorem total_cursor_field (payload : Option Json) (key : PyStr) :
    Total (cursorField payload key) := by
  unfold cursorField
  split
  · exact total_elim _
  · exact total_invalid

/-- What is too deep is not caught. -/
theorem not_total_too_deep {α : Type} : ¬ Total (.error tooDeep : Except DomainError α) := by
  rintro (⟨_, h⟩ | h) <;> cases h

/-! ## When decoding is total -/

/-- `str` has the depth for the field of the key, if there is one. -/
def ShallowField (interpreter : Interpreter) (payload : Option Json) (key : PyStr) : Prop :=
  ∀ value, cursorField payload key = .ok value → interpreter.strStops value = false

/-- No step of `decode_cursor` runs out of depth. -/
def TimeWithinLimits (interpreter : Interpreter) (lib : Library) (cursor : PyStr) : Prop :=
  (cursorBytes cursor).any interpreter.stopsAtDepth = false ∧
    ∀ payload, loadCursor interpreter cursor = .ok payload →
      ShallowField interpreter payload (py "t") ∧
        ∀ value clock, cursorField payload (py "t") = .ok value →
          fromisoformat (value.toStr lib) = some clock →
            ShallowField interpreter payload (py "i")

/-- The value is no integer beyond the largest double. -/
def FitsDouble (value : Json) : Prop :=
  ∀ n, value = .int n → ∃ double, PyFloat.ofRat n = .finite double

/-- No step of `decode_score_cursor` runs out of depth, and the score is no integer beyond the
largest double. -/
def ScoreWithinLimits (interpreter : Interpreter) (parseFloat : PyStr → Option PyFloat)
    (cursor : PyStr) : Prop :=
  (cursorBytes cursor).any interpreter.stopsAtDepth = false ∧
    ∀ payload, loadCursor interpreter cursor = .ok payload →
      ∀ value, cursorField payload (py "s") = .ok value → FitsDouble value ∧
        ∀ score, cursorScore parseFloat value = .ok score →
          ShallowField interpreter payload (py "i")

/-- Loading raises nothing that is not caught unless it runs out of depth. -/
theorem total_load_cursor : Total (loadCursor interpreter cursor) ↔
    (cursorBytes cursor).any interpreter.stopsAtDepth = false := by
  unfold loadCursor
  cases (cursorBytes cursor).any interpreter.stopsAtDepth with
  | true => exact iff_of_false not_total_too_deep nofun
  | false =>
      refine iff_of_true ?_ rfl
      cases (cursorBytes cursor).any interpreter.stopsAtDigits with
      | true => exact total_ok _
      | false => exact total_ok _

theorem total_cursor_str {payload : Option Json} {key : PyStr} :
    Total (cursorStr interpreter lib payload key) ↔ ShallowField interpreter payload key := by
  refine total_bind.trans ((and_iff_right (total_cursor_field payload key)).trans
    (forall₂_congr fun value _ ↦ ?_))
  cases interpreter.strStops value with
  | true => exact iff_of_false not_total_too_deep nofun
  | false => exact iff_of_true (total_ok _) rfl

theorem total_cursor_uuid {payload : Option Json} :
    Total (cursorUuid interpreter lib payload) ↔ ShallowField interpreter payload (py "i") :=
  total_bind.trans ((and_iff_left fun _ _ ↦ total_elim _).trans total_cursor_str)

/-- The text of a field that is not too deep. -/
theorem cursor_str_eq_ok_iff {payload : Option Json} {key text : PyStr}
    (h : ShallowField interpreter payload key) :
    cursorStr interpreter lib payload key = .ok text ↔
      ∃ value, cursorField payload key = .ok value ∧ value.toStr lib = text := by
  unfold cursorStr
  cases hfield : cursorField payload key with
  | error e => exact iff_of_false nofun fun ⟨_, hvalue, _⟩ ↦ nomatch hvalue
  | ok value =>
      have hshallow := h value hfield
      simp only [bind, Except.bind, hshallow, Bool.false_eq_true, if_false, Except.ok.injEq,
        exists_eq_left']

/-- `float` raises nothing that is not caught unless the value is an integer that is too large. -/
theorem total_cursor_score {value : Json} :
    Total (cursorScore parseFloat value) ↔ FitsDouble value := by
  unfold FitsDouble
  cases value with
  | int n =>
      simp only [cursorScore, Json.int.injEq, forall_eq']
      cases PyFloat.ofRat n with
      | finite double => exact iff_of_true (total_ok _) ⟨double, rfl⟩
      | infinity negative =>
          refine iff_of_false ?_ ?_
          · rintro (⟨_, h⟩ | h) <;> cases h
          · rintro ⟨_, h⟩
            cases h
      | nan =>
          refine iff_of_false ?_ ?_
          · rintro (⟨_, h⟩ | h) <;> cases h
          · rintro ⟨_, h⟩
            cases h
  | bool value => exact iff_of_true (total_ok _) fun _ h ↦ (by cases h)
  | float value => exact iff_of_true (total_ok _) fun _ h ↦ (by cases h)
  | str value => exact iff_of_true (total_elim _) fun _ h ↦ (by cases h)
  | null => exact iff_of_true total_invalid fun _ h ↦ (by cases h)
  | list items => exact iff_of_true total_invalid fun _ h ↦ (by cases h)
  | object fields => exact iff_of_true total_invalid fun _ h ↦ (by cases h)

/-- `decode_cursor` is total just within its limits. -/
theorem total_decode_cursor : Total (decodeCursorWithin interpreter lib cursor) ↔
    TimeWithinLimits interpreter lib cursor := by
  refine total_bind.trans (and_congr total_load_cursor (forall₂_congr fun payload _ ↦ ?_))
  refine total_bind.trans ((and_congr_left' total_cursor_str).trans
    (and_congr_right fun hshallow ↦ ?_))
  constructor
  · rintro h value ⟨clock, offset⟩ hvalue hclock
    have htext := h _ ((cursor_str_eq_ok_iff hshallow).mpr ⟨value, hvalue, rfl⟩)
    have hrest := (total_bind.mp htext).2 (clock, offset) (elim_eq_ok_iff.mpr hclock)
    exact total_cursor_uuid.mp (total_bind.mp hrest).1
  · intro h text htext
    obtain ⟨value, hvalue, rfl⟩ := (cursor_str_eq_ok_iff hshallow).mp htext
    refine total_bind.mpr ⟨total_elim _, fun (clock, offset) hclock ↦ ?_⟩
    exact total_bind.mpr ⟨total_cursor_uuid.mpr (h value _ hvalue (elim_eq_ok_iff.mp hclock)),
      fun _ _ ↦ total_ok _⟩

/-- `decode_score_cursor` is total just within its limits. -/
theorem total_decode_score_cursor :
    Total (decodeScoreCursorWithin interpreter lib parseFloat cursor) ↔
      ScoreWithinLimits interpreter parseFloat cursor := by
  refine total_bind.trans (and_congr total_load_cursor (forall₂_congr fun payload _ ↦ ?_))
  refine total_bind.trans ((and_iff_right (total_cursor_field payload _)).trans
    (forall₂_congr fun value _ ↦ ?_))
  refine total_bind.trans (and_congr total_cursor_score (forall₂_congr fun score _ ↦ ?_))
  exact total_bind.trans ((and_iff_left fun _ _ ↦ total_ok _).trans total_cursor_uuid)

/-! ## What was encoded -/

/-- What an encoder writes is loaded. -/
theorem load_cursor_text {payload : JsonObject} (h : (Json.object payload).Valid)
    (hjoined : (Json.object payload).joined = .object payload)
    (hflat : ∀ field ∈ payload, IsFlat field.2) :
    loadCursor interpreter (cursorText payload) = .ok (cursorPayload (cursorText payload)) ∧
      ∀ key, ShallowField interpreter (cursorPayload (cursorText payload)) key := by
  have hbytes : cursorBytes (cursorText payload) = some (asciiBytes (dumps (.object payload))) := by
    rw [cursorBytes, cursorText, strip_padding_encode, decode_digits]
  obtain ⟨hdigits, hdepth⟩ := interpreter.flat_loads payload hflat
  refine ⟨?_, fun key value hvalue ↦ ?_⟩
  · rw [loadCursor, hbytes, Option.any_some, hdepth, Option.any_some, hdigits]
    rfl
  · rw [cursor_payload_text h hjoined, cursorField] at hvalue
    have hlookup := elim_eq_ok_iff.mp hvalue
    obtain ⟨before, after, hsplit, -⟩ := List.lookup_eq_some_iff.mp hlookup
    exact interpreter.flat_str value
      (hflat (key, value) (hsplit ▸ List.mem_append_right _ List.mem_cons_self))

/-- Where `str` has the depth, it is the text of the field. -/
theorem cursor_str_of_shallow {payload : Option Json} {key : PyStr}
    (h : ShallowField interpreter payload key) :
    cursorStr interpreter lib payload key = (cursorField payload key).map (·.toStr lib) := by
  unfold cursorStr
  cases hfield : cursorField payload key with
  | error e => rfl
  | ok value =>
      have hshallow := h value hfield
      simp only [bind, Except.bind, hshallow, Bool.false_eq_true, if_false]
      rfl

theorem cursor_uuid_of_shallow {payload : Option Json}
    (h : ShallowField interpreter payload (py "i")) :
    cursorUuid interpreter lib payload = cursorId lib payload := by
  rw [cursorUuid, cursorId, cursor_str_of_shallow h]
  cases cursorField payload (py "i") <;> rfl

/-- A result that is changed before a step is changed in the step. -/
theorem map_bind {α β γ : Type} (x : Except DomainError α) (f : α → β)
    (g : β → Except DomainError γ) : x.map f >>= g = x >>= fun a ↦ g (f a) := by
  cases x <;> rfl

theorem ok_bind {α β : Type} (a : α) (f : α → Except DomainError β) :
    (Except.ok a >>= f) = f a := rfl

/-- Where no limit is reached, decoding is what it is without limits. -/
theorem decode_cursor_within_eq (hload : loadCursor interpreter cursor = .ok (cursorPayload cursor))
    (hshallow : ∀ key, ShallowField interpreter (cursorPayload cursor) key) :
    decodeCursorWithin interpreter lib cursor = decodeCursor lib cursor := by
  rw [decodeCursorWithin, hload, ok_bind, cursor_str_of_shallow (hshallow _), map_bind,
    cursor_uuid_of_shallow (hshallow _), decodeCursor]

theorem decode_score_cursor_within_eq
    (hload : loadCursor interpreter cursor = .ok (cursorPayload cursor))
    (hshallow : ∀ key, ShallowField interpreter (cursorPayload cursor) key) :
    decodeScoreCursorWithin interpreter lib parseFloat cursor =
      decodeScoreCursor lib parseFloat cursor := by
  rw [decodeScoreCursorWithin, hload, ok_bind, cursor_uuid_of_shallow (hshallow _),
    decodeScoreCursor]

/-- A decoded cursor over time is what it was made of. -/
theorem decode_encode_cursor_within {createdAt : Instant} (h : InRange createdAt) (rowId : Uuid) :
    decodeCursorWithin interpreter lib (encodeCursor createdAt rowId) = .ok (createdAt, rowId) := by
  obtain ⟨hvalid, hjoined⟩ := valid_time_payload createdAt rowId
  obtain ⟨hload, hshallow⟩ := @load_cursor_text interpreter _ hvalid hjoined
    (by simp [timePayload, IsFlat])
  exact (decode_cursor_within_eq hload hshallow).trans (decode_encode_cursor lib h rowId)

/-- So is a decoded cursor over scores. -/
theorem decode_encode_score_within {score : PyFloat}
    (h : ∀ value, score = .finite value → IsDouble value) (rowId : Uuid) :
    decodeScoreCursorWithin interpreter lib parseFloat (encodeScoreCursor score rowId) =
      .ok (score, rowId) := by
  obtain ⟨hvalid, hjoined⟩ := valid_score_payload h rowId
  obtain ⟨hload, hshallow⟩ := @load_cursor_text interpreter _ hvalid hjoined
    (by simp [scorePayload, IsFlat])
  exact (decode_score_cursor_within_eq hload hshallow).trans
    (decode_encode_score lib parseFloat h rowId)

/-- What is promised of a cursor: whatever the text, both decoders are total on it, and what the
encoders write is decoded to what it was made of. -/
structure Decodes (interpreter : Interpreter) (lib : Library)
    (parseFloat : PyStr → Option PyFloat) (cursor : PyStr) : Prop where
  time_total : Total (decodeCursorWithin interpreter lib cursor)
  score_total : Total (decodeScoreCursorWithin interpreter lib parseFloat cursor)
  time_round_trip : ∀ createdAt rowId, InRange createdAt → cursor = encodeCursor createdAt rowId →
    decodeCursorWithin interpreter lib cursor = .ok (createdAt, rowId)
  score_round_trip : ∀ score rowId, (∀ value, score = .finite value → IsDouble value) →
    cursor = encodeScoreCursor score rowId →
      decodeScoreCursorWithin interpreter lib parseFloat cursor = .ok (score, rowId)

/-- Cursors are decoded as promised just within the limits of the interpreter and of a double. -/
theorem decodes_iff (interpreter : Interpreter) (lib : Library)
    (parseFloat : PyStr → Option PyFloat) (cursor : PyStr) :
    Decodes interpreter lib parseFloat cursor ↔
      TimeWithinLimits interpreter lib cursor ∧
        ScoreWithinLimits interpreter parseFloat cursor := by
  constructor
  · exact fun h ↦ ⟨total_decode_cursor.mp h.time_total,
      total_decode_score_cursor.mp h.score_total⟩
  · rintro ⟨htime, hscore⟩
    refine ⟨total_decode_cursor.mpr htime, total_decode_score_cursor.mpr hscore, ?_, ?_⟩
    · rintro createdAt rowId hrange rfl
      exact decode_encode_cursor_within hrange rowId
    · rintro score rowId hdouble rfl
      exact decode_encode_score_within hdouble rowId

/-- A score beyond the largest double, as an integer. -/
def hugeScore : Int := 2 ^ 1024

/-- What a client puts into a cursor. -/
def hugePayload : JsonObject :=
  [(py "s", .int hugeScore), (py "i", .str (Uuid.toStr 1))]

/-- A cursor whose score is too large raises an error that is not caught. -/
theorem decode_huge_score :
    decodeScoreCursorWithin unlimited plainLibrary (fun _ ↦ none) (cursorText hugePayload) =
        .error (.BuiltinError .OverflowError) ∧
      ¬ Decodes unlimited plainLibrary (fun _ ↦ none) (cursorText hugePayload) := by
  have hvalid : (Json.object hugePayload).Valid :=
    .object (by decide) (by simp [hugePayload, Json.Valid.str, Json.Valid.int])
  have hjoined : (Json.object hugePayload).joined = .object hugePayload :=
    joined_pair 1 (by decide) (by decide) rfl
  have hload : loadCursor unlimited (cursorText hugePayload) = .ok (some (.object hugePayload)) := by
    rw [← cursor_payload_text hvalid hjoined]
    unfold loadCursor
    cases cursorBytes (cursorText hugePayload) <;> rfl
  have hcast : ((hugeScore : Int) : ℚ) = 2 ^ 1024 := Int.cast_pow 2 1024
  have hpos : (0 : ℚ) < 2 ^ 1024 := by positivity
  have hplaces : nearestDouble (hugeScore : ℚ) = hugeScore :=
    nearest_double_of_places ⟨1, 1024, by decide, by decide, by
      rw [hcast, Int.cast_one, one_mul]
      exact (zpow_natCast (2 : ℚ) 1024).symm⟩
  have hfloat : PyFloat.ofRat hugeScore = .infinity false := by
    rw [PyFloat.ofRat, hplaces, hcast, abs_of_pos hpos, if_neg (lt_irrefl _),
      decide_eq_false hpos.not_gt]
  have herror : decodeScoreCursorWithin unlimited plainLibrary (fun _ ↦ none)
      (cursorText hugePayload) = .error (.BuiltinError .OverflowError) := by
    rw [decodeScoreCursorWithin, hload]
    simp only [bind, Except.bind, hugePayload, cursor_field_first, cursorScore, hfloat]
  refine ⟨herror, fun h ↦ ?_⟩
  rcases h.score_total with ⟨_, hok⟩ | hinvalid
  · cases herror.symm.trans hok
  · cases herror.symm.trans hinvalid

end Aegis.Api
