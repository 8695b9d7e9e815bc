import Aegis.Access.Permissions
import Aegis.Server.Base64
import Aegis.Server.DateTime
import Aegis.Server.Json.Bytes
import Aegis.Server.Strings

/-!
# Cursors

`infrastructure/db/pagination.py`: where a page of a list ends, as text that a client sends back
for the next one. It is JSON in base64, and checked like any other input when it comes back.
-/

namespace Aegis.Api

open Server Json Base64 DateTime Access

/-! ## Text -/

/-- What a cursor holds, as its text. -/
def cursorText (payload : JsonObject) : PyStr :=
  stripPadding (urlsafeB64encode (asciiBytes (dumps (.object payload))))

/-- What a text holds, if it is a cursor. -/
def cursorPayload (cursor : PyStr) : Option Json :=
  (urlsafeB64decode (cursor ++ padding cursor)).bind loadsBytes

/-- The error of a text that is not a cursor. -/
def invalidCursor : DomainError :=
  .ValidationError (py "The pagination cursor is not valid.") (py "cursor") []

/-- `payload[key]`. What is not a dictionary with the key raises an error that is caught. -/
def cursorField (payload : Option Json) (key : PyStr) : Except DomainError Json :=
  match payload with
  | some (.object fields) => (fields.lookup key).elim (.error invalidCursor) .ok
  | _ => .error invalidCursor

/-- `UUID(str(payload["i"]))`. -/
def cursorId (lib : Library) (payload : Option Json) : Except DomainError Uuid := do
  let value ← cursorField payload (py "i")
  (Uuid.parse (value.toStr lib)).elim (.error invalidCursor) .ok

/-! ## By time -/

/-- What a cursor over `(created_at, id)` holds. -/
def timePayload (createdAt : Instant) (rowId : Uuid) : JsonObject :=
  [(py "t", .str (isoformat createdAt)), (py "i", .str rowId.toStr)]

/-- `encode_cursor`. -/
def encodeCursor (createdAt : Instant) (rowId : Uuid) : PyStr :=
  cursorText (timePayload createdAt rowId)

/-- `decode_cursor`. A time without an offset is one in UTC. -/
def decodeCursor (lib : Library) (cursor : PyStr) : Except DomainError (Instant × Uuid) := do
  let payload := cursorPayload cursor
  let value ← cursorField payload (py "t")
  let (clock, offset) ← (fromisoformat (value.toStr lib)).elim (.error invalidCursor) .ok
  let rowId ← cursorId lib payload
  .ok (clock - offset.getD 0, rowId)

/-! ## By score -/

/-- What a cursor over `(risk_score, id)` holds. -/
def scorePayload (score : PyFloat) (rowId : Uuid) : JsonObject :=
  [(py "s", .float score), (py "i", .str rowId.toStr)]

/-- `encode_score_cursor`. -/
def encodeScoreCursor (score : PyFloat) (rowId : Uuid) : PyStr :=
  cursorText (scorePayload score rowId)

/-- `float(value)`, where `parseFloat` is what it makes of a text. An integer that is too large
raises an error that is not caught. -/
def cursorScore (parseFloat : PyStr → Option PyFloat) : Json → Except DomainError PyFloat
  | .bool value => .ok (.finite (if value then 1 else 0))
  | .int value =>
      match PyFloat.ofRat value with
      | .finite double => .ok (.finite double)
      | _ => .error (.BuiltinError .OverflowError)
  | .float value => .ok value
  | .str value => (parseFloat value).elim (.error invalidCursor) .ok
  | .null | .list _ | .object _ => .error invalidCursor

/-- `decode_score_cursor`. -/
def decodeScoreCursor (lib : Library) (parseFloat : PyStr → Option PyFloat) (cursor : PyStr) :
    Except DomainError (PyFloat × Uuid) := do
  let payload := cursorPayload cursor
  let value ← cursorField payload (py "s")
  let score ← cursorScore parseFloat value
  let rowId ← cursorId lib payload
  .ok (score, rowId)

/-! ## What was encoded is decoded -/

/-- A cursor holds what it was made of. -/
theorem cursor_payload_text {payload : JsonObject} (h : (Json.object payload).Valid)
    (hjoined : (Json.object payload).joined = .object payload) :
    cursorPayload (cursorText payload) = some (.object payload) := by
  rw [cursorPayload, cursorText, strip_padding_encode, decode_digits]
  exact (loads_bytes_dumps h).trans (congrArg some hjoined)

theorem cursor_text_ne_nil {payload : JsonObject} : cursorText payload ≠ [] := by
  intro hnil
  have hdumps : asciiBytes (dumps (.object payload)) = [] := by
    rw [cursorText, strip_padding_encode] at hnil
    cases hbytes : asciiBytes (dumps (.object payload)) with
    | nil => rfl
    | cons a rest =>
        rw [hbytes] at hnil
        rcases rest with _ | ⟨b, _ | ⟨c, rest⟩⟩ <;> cases hnil
  rw [dumps_object] at hdumps
  cases hdumps

theorem printable_to_str (id : Uuid) : Printable id.toStr := by
  intro c hc
  rcases Uuid.mem_to_str hc with hc | ⟨digit, hdigit, rfl⟩
  · rw [List.mem_singleton.mp hc]
    decide
  · have := PyStr.val_hex_digit hdigit
    omega

theorem printable_padded (width n : Nat) : Printable (padded width n) := by
  intro c hc
  have hdigit := is_digit_of_mem_padded hc
  simp only [isDigit, Bool.and_eq_true, decide_eq_true_eq] at hdigit
  omega

/-- A time is written in ASCII. -/
theorem printable_isoformat (t : Instant) : Printable (isoformat t) := by
  have hcolon : Printable (py ":") ∧ Printable (py "-") ∧ Printable (py "T") ∧
      Printable (py ".") ∧ Printable (py "+00:00") := by
    decide
  have hfraction : ∀ n, Printable (fractionText n) := by
    intro n
    unfold fractionText
    split_ifs
    · exact fun _ hc ↦ absurd hc List.not_mem_nil
    · exact printable_append.mpr ⟨hcolon.2.2.2.1, printable_padded _ _⟩
  simp only [isoformat, Date.text, clockText, printable_append, printable_padded, hfraction, hcolon,
    and_self]

/-- A cursor holds a text and a UUID, or a number and a UUID. -/
theorem joined_pair {key : PyStr} {value : Json} (id : Uuid) (hkey : Printable key)
    (hne : key ≠ py "i") (hvalue : value.joined = value) :
    (Json.object [(key, value), (py "i", .str id.toStr)]).joined =
      .object [(key, value), (py "i", .str id.toStr)] := by
  have hid : (Json.str id.toStr).joined = .str id.toStr :=
    congrArg Json.str (join_surrogates_of_encodable (printable_to_str id).encodable)
  rw [joined_object]
  simp only [List.map_cons, List.map_nil, join_surrogates_of_encodable hkey.encodable, hvalue, hid,
    join_surrogates_of_encodable (show PyStr.Encodable (py "i") by decide)]
  rw [dict_of_nodup (by simp [hne])]

/-- The first field of a cursor. -/
theorem cursor_field_first (key : PyStr) (value : Json) (id : Uuid) :
    cursorField (some (.object [(key, value), (py "i", .str id.toStr)])) key = .ok value := by
  rw [cursorField, List.lookup_cons, beq_self_eq_true]
  rfl

/-- The id of a cursor is decoded. -/
theorem cursor_id_pair (lib : Library) {key : PyStr} (value : Json) (id : Uuid)
    (hne : (py "i" == key) = false) :
    cursorId lib (some (.object [(key, value), (py "i", .str id.toStr)])) = .ok id := by
  have hfield : cursorField (some (.object [(key, value), (py "i", .str id.toStr)])) (py "i") =
      .ok (.str id.toStr) := by
    rw [cursorField, List.lookup_cons, hne]
    dsimp only
    rw [List.lookup_cons, beq_self_eq_true]
    rfl
  have hparse : Uuid.parse ((Json.str id.toStr).toStr lib) = some id := Uuid.parse_to_str id
  rw [cursorId, hfield]
  simp only [bind, Except.bind, hparse, Option.elim_some]

/-- A cursor over time holds what it was made of. -/
theorem valid_time_payload (createdAt : Instant) (rowId : Uuid) :
    (Json.object (timePayload createdAt rowId)).Valid ∧
      (Json.object (timePayload createdAt rowId)).joined =
        .object (timePayload createdAt rowId) := by
  refine ⟨.object ?_ (by simp [timePayload, Json.Valid.str]),
    joined_pair rowId (by decide) (by decide)
      (congrArg Json.str (join_surrogates_of_encodable (printable_isoformat createdAt).encodable))⟩
  show [py "t", py "i"].Nodup
  decide

/-- A cursor over time is decoded to the time and the row it was made of. -/
theorem decode_encode_cursor (lib : Library) {createdAt : Instant} (h : InRange createdAt)
    (rowId : Uuid) : decodeCursor lib (encodeCursor createdAt rowId) = .ok (createdAt, rowId) := by
  obtain ⟨hvalid, hjoined⟩ := valid_time_payload createdAt rowId
  have htime : fromisoformat ((Json.str (isoformat createdAt)).toStr lib) =
      some (createdAt, some 0) :=
    fromisoformat_isoformat h
  rw [decodeCursor, encodeCursor, cursor_payload_text hvalid hjoined]
  simp only [timePayload, cursor_field_first, cursor_id_pair lib _ rowId
    (show (py "i" == py "t") = false by decide), bind, Except.bind, htime, Option.elim_some,
    Option.getD_some]
  rw [sub_zero]

/-- Every double is written so that it can be read back, and so are the numbers that are none. -/
theorem valid_score {score : PyFloat} (h : ∀ value, score = .finite value → IsDouble value) :
    (Json.float score).Valid := by
  cases score with
  | finite value => exact .float (h value rfl)
  | infinity negative => exact .infinity negative
  | nan => exact .nan

/-- A cursor over scores holds what it was made of. -/
theorem valid_score_payload {score : PyFloat}
    (h : ∀ value, score = .finite value → IsDouble value) (rowId : Uuid) :
    (Json.object (scorePayload score rowId)).Valid ∧
      (Json.object (scorePayload score rowId)).joined = .object (scorePayload score rowId) := by
  refine ⟨.object ?_ (by simp [scorePayload, Json.Valid.str, valid_score h]),
    joined_pair rowId (by decide) (by decide) rfl⟩
  show [py "s", py "i"].Nodup
  decide

/-- A cursor over any score is decoded to it and the row. -/
theorem decode_encode_score (lib : Library) (parseFloat : PyStr → Option PyFloat)
    {score : PyFloat} (h : ∀ value, score = .finite value → IsDouble value) (rowId : Uuid) :
    decodeScoreCursor lib parseFloat (encodeScoreCursor score rowId) = .ok (score, rowId) := by
  obtain ⟨hvalid, hjoined⟩ := valid_score_payload h rowId
  rw [decodeScoreCursor, encodeScoreCursor, cursor_payload_text hvalid hjoined]
  simp only [scorePayload, cursor_field_first, cursor_id_pair lib _ rowId
    (show (py "i" == py "s") = false by decide), bind, Except.bind, cursorScore]

/-- A cursor over scores is decoded to the score and the row it was made of. -/
theorem decode_encode_score_cursor (lib : Library) (parseFloat : PyStr → Option PyFloat)
    {score : ℚ} (h : IsDouble score) (rowId : Uuid) :
    decodeScoreCursor lib parseFloat (encodeScoreCursor (.finite score) rowId) =
      .ok (.finite score, rowId) :=
  decode_encode_score lib parseFloat (fun _ hvalue ↦ PyFloat.finite.inj hvalue ▸ h) rowId

end Aegis.Api
