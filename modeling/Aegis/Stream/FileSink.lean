import Aegis.Gateway.Sink
import Aegis.Server.Json.Bytes
import Aegis.Server.Json.Places
import Aegis.Stream.AtLeastOnce

/-!
# The file between the gateway and the worker

`FileEventSink` appends the events of a batch line by line, and `FileTailSource` reads the lines.
A call of `publish` that fails leaves a part of its payload behind. `acknowledged_read_back` says
what becomes of the events of the calls that do not fail: the first of them is lost when what was
left ends within a line, and nothing else ever is. `published_handed_over` follows the events to the
worker.
-/

namespace Aegis.Stream

open Server Utf8 Gateway Json

/-! ## What the sink writes -/

/-- An event the gateway has read from a line. -/
structure ReadEvent where
  event : RuntimeEvent
  read : ∃ data raw, loadsBytes data = some raw ∧ parseEvent raw = .ok event

/-- `_serialize(origin, event)`, before it is encoded. -/
def line (origin : StreamOrigin) (event : RuntimeEvent) : PyStr :=
  dumps (.object (serialize origin event))

/-- A call of `publish(origin, events)`, which the gateway makes when there is an event. One that
fails has written so many bytes of its payload. -/
structure Publish where
  origin : StreamOrigin
  first : ReadEvent
  rest : List ReadEvent
  failure : Option Nat

namespace Publish

/-- The events. -/
def events (publish : Publish) : List ReadEvent :=
  publish.first :: publish.rest

/-- Their lines, in bytes. -/
def lines (publish : Publish) : List PyBytes :=
  publish.events.map fun e ↦ asciiBytes (line publish.origin e.event)

/-- `b"\n".join(…) + b"\n"`. -/
def payload (publish : Publish) : PyBytes :=
  [10].intercalate publish.lines ++ [10]

/-- What the call appends to the file. -/
def written (publish : Publish) : PyBytes :=
  match publish.failure with
  | none => publish.payload
  | some count => publish.payload.take count

end Publish

/-- The file after some calls. -/
def fileOf (publishes : List Publish) : PyBytes :=
  publishes.flatMap Publish.written

/-! ## The line that is not ended -/

/-- What stands after the last end of a line, `line` being what was read before. -/
def remnantFrom (line : PyBytes) : PyBytes → PyBytes
  | [] => line
  | b :: rest => if b = 10 then remnantFrom [] rest else remnantFrom (line ++ [b]) rest

/-- What stands after the last end of a line. -/
def remnant (content : PyBytes) : PyBytes :=
  remnantFrom [] content

theorem remnant_from_append (line a b : PyBytes) :
    remnantFrom line (a ++ b) = remnantFrom (remnantFrom line a) b := by
  induction a generalizing line with
  | nil => rfl
  | cons c a ih =>
      rw [List.cons_append, remnantFrom, remnantFrom]
      split
      · exact ih []
      · exact ih _

/-- Text without the end of a line goes on with the line. -/
theorem remnant_from_clean {text : PyBytes} (h : 10 ∉ text) (line : PyBytes) :
    remnantFrom line text = line ++ text := by
  induction text generalizing line with
  | nil => exact (List.append_nil _).symm
  | cons c text ih =>
      obtain ⟨hc, htext⟩ := List.ne_and_not_mem_of_not_mem_cons h
      rw [remnantFrom, if_neg hc.symm, ih htext, List.append_assoc, List.singleton_append]

/-- A file without such a line is complete. -/
theorem complete_iff_remnant {content : PyBytes} : Complete content ↔ remnant content = [] := by
  constructor
  · rintro (rfl | ⟨before, rfl⟩)
    · rfl
    · rw [remnant, remnant_from_append, remnantFrom, if_pos rfl]
      rfl
  · intro h
    induction content using List.reverseRecOn with
    | nil => exact .inl rfl
    | append_singleton before b _ =>
        rw [remnant, remnant_from_append, remnantFrom] at h
        by_cases hb : b = 10
        · exact .inr ⟨before, by rw [hb]⟩
        · rw [if_neg hb] at h
          simp [remnantFrom] at h

/-- The lines that follow go on with it. -/
theorem lines_from_append (line a b : PyBytes) :
    linesFrom line (a ++ b) = linesFrom line a ++ linesFrom (remnantFrom line a) b := by
  induction a generalizing line with
  | nil => rfl
  | cons c a ih =>
      rw [List.cons_append, linesFrom, linesFrom, remnantFrom]
      split
      · rw [ih, List.cons_append]
      · exact ih _

theorem records_of_append_remnant (a b : PyBytes) :
    recordsOf (a ++ b) = recordsOf a ++ (linesFrom (remnant a) b).filterMap recordOf := by
  rw [recordsOf, lines_from_append, List.filterMap_append]
  rfl

/-- Text without the end of a line has no line that ends. -/
theorem lines_from_clean {text : PyBytes} (h : 10 ∉ text) (start : PyBytes) :
    linesFrom start text = [] := by
  induction text generalizing start with
  | nil => rfl
  | cons c text ih =>
      obtain ⟨hc, htext⟩ := List.ne_and_not_mem_of_not_mem_cons h
      rw [linesFrom, if_neg hc.symm, ih htext]

/-- With its end there is one. -/
theorem lines_from_ended {text : PyBytes} (h : 10 ∉ text) (start rest : PyBytes) :
    linesFrom start (text ++ 10 :: rest) = (start ++ text) :: linesFrom [] rest := by
  rw [lines_from_append, lines_from_clean h, remnant_from_clean h, List.nil_append, linesFrom,
    if_pos rfl]

/-- Clean lines are read one by one, the first with what stood before it. -/
theorem lines_from_joined {lines : List PyBytes} {first : PyBytes}
    (h : ∀ l ∈ first :: lines, 10 ∉ l) (start : PyBytes) :
    linesFrom start ([10].intercalate (first :: lines) ++ [10]) = (start ++ first) :: lines := by
  induction lines generalizing first start with
  | nil =>
      rw [List.intercalate_singleton, lines_from_ended (h first List.mem_cons_self)]
      rfl
  | cons next lines ih =>
      obtain ⟨hfirst, hrest⟩ := List.forall_mem_cons.mp h
      rw [List.intercalate_cons_cons, List.append_assoc, List.append_assoc, List.singleton_append,
        lines_from_ended hfirst, ih hrest, List.nil_append]

/-! ## A line is read back -/

/-- A key that holds more than `None` is there. -/
theorem mem_of_dict_get {fields payload : JsonObject} {key : PyStr}
    (h : dictGet fields key = .object payload) : (key, .object payload) ∈ fields := by
  unfold dictGet dictGetD at h
  cases hlookup : fields.lookup key with
  | none =>
      rw [hlookup] at h
      cases h
  | some value =>
      rw [hlookup] at h
      obtain ⟨before, after, hsplit, -⟩ := List.lookup_eq_some_iff.mp hlookup
      rw [← show value = .object payload from h, hsplit]
      exact List.mem_append_right _ List.mem_cons_self

/-- The payload that is extracted stands under the key of its type. -/
theorem payload_of_extract_payload {raw payload : JsonObject} {type : EventType}
    (h : extractPayload raw type = .ok payload) :
    dictGet raw type.payloadKey = .object payload := by
  unfold extractPayload at h
  simp only [bind, Except.bind] at h
  repeat' split at h
  all_goals cases h
  all_goals assumption

/-- The payload of an accepted event is among the fields of what was read. -/
theorem payload_of_parse_event {raw : Json} {event : RuntimeEvent}
    (h : parseEvent raw = .ok event) :
    ∃ fields, raw = .object fields ∧ ∃ key, (key, .object event.payload) ∈ fields := by
  unfold parseEvent at h
  simp only [bind, Except.bind] at h
  repeat' split at h
  all_goals cases h
  next fields _ _ _ _ _ _ _ _ _ _ _ _ _ _ _ _ _ _ _ hpayload =>
    refine ⟨_, rfl, _, mem_of_dict_get (payload_of_extract_payload hpayload)⟩

/-- The payload of an event is a value `json.loads` read. -/
theorem ReadEvent.valid (e : ReadEvent) : (Json.object e.event.payload).Valid := by
  obtain ⟨data, raw, hraw, hparse⟩ := e.read
  obtain ⟨text, -, htext⟩ := Option.bind_eq_some_iff.mp hraw
  obtain ⟨fields, rfl, key, hmem⟩ := payload_of_parse_event hparse
  cases valid_of_loads htext with
  | object _ hfields => exact hfields _ hmem

/-- What a worker reads of the line of an event: the envelope, with surrogate pairs joined. -/
def received (origin : StreamOrigin) (e : ReadEvent) : Json :=
  (Json.object (serialize origin e.event)).joined

theorem valid_serialize (origin : StreamOrigin) (e : ReadEvent) :
    (Json.object (serialize origin e.event)).Valid := by
  refine .object (by simp only [serialize, List.map]; decide) ?_
  simp [serialize, Valid.str, Valid.int, Valid.bool, e.valid]

theorem loads_line (origin : StreamOrigin) (e : ReadEvent) :
    loads (line origin e.event) = some (received origin e) :=
  loads_dumps (valid_serialize origin e)

theorem printable_line (origin : StreamOrigin) (e : ReadEvent) : Printable (line origin e.event) :=
  printable_dumps (valid_serialize origin e)

/-- A line begins with the first letter of a key, and ends as an object does. -/
theorem line_eq (origin : StreamOrigin) (event : RuntimeEvent) :
    ∃ more, line origin event =
      pyChar '\x7b' :: pyChar '"' :: pyChar 'o' :: (more ++ [pyChar '\x7d']) := by
  rw [line, dumps_object, serialize, List.map_cons, List.map_cons, List.intercalate_cons_cons]
  exact ⟨_, rfl⟩

theorem newline_not_mem {text : PyStr} (h : Printable text) : 10 ∉ asciiBytes text := by
  intro hmem
  obtain ⟨c, hc, hbyte⟩ := List.mem_map.mp hmem
  have hc := h c hc
  have hval := to_nat_of_printable hc
  rw [hbyte] at hval
  have hten : (10 : UInt8).toNat = 10 := rfl
  omega

/-! ## Where a call can leave the file -/

/-- A part of a line, if there is any: it begins as a line does. -/
structure Begun (text : PyStr) : Prop where
  printable : Printable text
  head : text = [] ∨ text.head? = some (pyChar '\x7b')

theorem begun_nil : Begun [] :=
  ⟨fun _ h ↦ absurd h List.not_mem_nil, .inl rfl⟩

/-- What is begun goes on with a part of a line. -/
theorem Begun.append_take {text : PyStr} (h : Begun text) (origin : StreamOrigin) (e : ReadEvent)
    (count : Nat) : Begun (text ++ (line origin e.event).take count) := by
  refine ⟨printable_append.mpr ⟨h.printable, fun c hc ↦ ?_⟩, ?_⟩
  · exact printable_line origin e c (List.mem_of_mem_take hc)
  · rcases h.head with rfl | hhead
    · obtain ⟨more, hmore⟩ := line_eq origin e.event
      cases count with
      | zero => exact .inl rfl
      | succ count => exact .inr (by rw [hmore]; rfl)
    · refine .inr ?_
      cases text with
      | nil => cases hhead
      | cons c text => exact hhead

/-- A part of a payload leaves a part of a line. -/
theorem begun_of_take (origin : StreamOrigin) (rest : List ReadEvent) (first : ReadEvent)
    {text : PyStr} (h : Begun text) (count : Nat) :
    ∃ text', Begun text' ∧
      remnantFrom (asciiBytes text) (([10].intercalate
        ((first :: rest).map fun e : ReadEvent ↦ asciiBytes (line origin e.event)) ++
          [10]).take count) =
        asciiBytes text' := by
  have hclean : 10 ∉ (asciiBytes (line origin first.event)).take count :=
    fun hmem ↦ newline_not_mem (printable_line origin first) (List.mem_of_mem_take hmem)
  have hpart : asciiBytes text ++ (asciiBytes (line origin first.event)).take count =
      asciiBytes (text ++ (line origin first.event).take count) := by
    simp [asciiBytes, List.map_take]
  induction rest generalizing first text count with
  | nil =>
      rw [List.map_singleton, List.intercalate_singleton, List.take_append, remnant_from_append,
        remnant_from_clean hclean, hpart]
      generalize count - (asciiBytes (line origin first.event)).length = more
      cases more with
      | zero => exact ⟨_, h.append_take origin first count, rfl⟩
      | succ more => exact ⟨[], begun_nil, by simp [remnantFrom, asciiBytes]⟩
  | cons next rest ih =>
      rw [List.map_cons, List.map_cons, List.intercalate_cons_cons, List.append_assoc,
        List.append_assoc, List.take_append, remnant_from_append, remnant_from_clean hclean, hpart]
      generalize count - (asciiBytes (line origin first.event)).length = more
      cases more with
      | zero => exact ⟨_, h.append_take origin first count, rfl⟩
      | succ more =>
          -- the end of the line is there, so the next one is begun
          refine ih next begun_nil more ?_ ?_
          · exact fun hmem ↦
              newline_not_mem (printable_line origin next) (List.mem_of_mem_take hmem)
          · simp [asciiBytes, List.map_take]

namespace Publish

/-- A call writes a part of its payload, or all of it. -/
theorem written_eq_take (publish : Publish) :
    ∃ count, publish.written = publish.payload.take count := by
  unfold written
  split
  · exact ⟨publish.payload.length, List.take_length.symm⟩
  · exact ⟨_, rfl⟩

/-- Whatever becomes of a call, it leaves a part of a line. -/
theorem begun (publish : Publish) {text : PyStr} (h : Begun text) :
    ∃ text', Begun text' ∧ remnantFrom (asciiBytes text) publish.written = asciiBytes text' := by
  obtain ⟨count, hcount⟩ := publish.written_eq_take
  rw [hcount]
  exact begun_of_take publish.origin publish.rest publish.first h count

end Publish

theorem exists_begun (publishes : List Publish) :
    ∃ text, Begun text ∧ remnant (fileOf publishes) = asciiBytes text := by
  have hrun : ∀ text, Begun text → ∃ text', Begun text' ∧
      remnantFrom (asciiBytes text) (fileOf publishes) = asciiBytes text' := by
    induction publishes with
    | nil => exact fun text h ↦ ⟨text, h, rfl⟩
    | cons publish publishes ih =>
        intro text h
        obtain ⟨text', htext', hremnant⟩ := publish.begun h
        obtain ⟨last, hlast, hfile⟩ := ih text' htext'
        refine ⟨last, hlast, ?_⟩
        rw [fileOf, List.flatMap_cons, remnant_from_append, hremnant]
        exact hfile
  exact hrun [] begun_nil

/-! ## What is read -/

/-- Nothing is stripped between two braces. -/
theorem strip_braces (inner : PyBytes) :
    PyBytes.strip (123 :: (inner ++ [125])) = 123 :: (inner ++ [125]) := by
  have hopen : PyBytes.isSpace 123 = false := by decide
  have hclose : PyBytes.isSpace 125 = false := by decide
  simp [PyBytes.strip, hopen, hclose]

/-- What is begun and goes on with a line stands between two braces. -/
theorem Begun.braces {text : PyStr} (h : Begun text) (origin : StreamOrigin) (e : ReadEvent) :
    ∃ inner, asciiBytes (text ++ line origin e.event) = 123 :: (inner ++ [125]) := by
  obtain ⟨more, hmore⟩ := line_eq origin e.event
  have hbraces : UInt8.ofNat (pyChar '\x7b').val = 123 ∧ UInt8.ofNat (pyChar '\x7d').val = 125 :=
    ⟨rfl, rfl⟩
  cases text with
  | nil =>
      exact ⟨asciiBytes (pyChar '"' :: pyChar 'o' :: more), by simp [hmore, asciiBytes, hbraces]⟩
  | cons c text =>
      obtain rfl : c = pyChar '\x7b' := by simpa using h.head
      exact ⟨asciiBytes (text ++ pyChar '\x7b' :: pyChar '"' :: pyChar 'o' :: more),
        by simp [hmore, asciiBytes, hbraces]⟩

/-- The record of a line that follows a part of one. -/
theorem record_of_begun {text : PyStr} (h : Begun text) (origin : StreamOrigin) (e : ReadEvent) :
    recordOf (asciiBytes text ++ asciiBytes (line origin e.event)) =
      some (text ++ line origin e.event) := by
  obtain ⟨inner, hinner⟩ := h.braces origin e
  have hprintable := printable_append.mpr ⟨h.printable, printable_line origin e⟩
  have hjoin : asciiBytes text ++ asciiBytes (line origin e.event) =
      asciiBytes (text ++ line origin e.event) := List.map_append.symm
  have hstrip : PyBytes.strip (asciiBytes (text ++ line origin e.event)) =
      asciiBytes (text ++ line origin e.event) := by rw [hinner, strip_braces]
  rw [hjoin, recordOf, hstrip, if_neg (by simp [hinner]),
    decode_replace_encode (encode_printable hprintable)]

/-- It is read when the part is empty, and only then. -/
theorem loads_begun {text : PyStr} (h : Begun text) (origin : StreamOrigin) (e : ReadEvent) :
    loads (text ++ line origin e.event) =
      if text = [] then some (received origin e) else none := by
  split
  · next hempty => rw [hempty, List.nil_append, loads_line]
  · next hne =>
      have hread := loads_line origin e
      obtain ⟨more, hmore⟩ := line_eq origin e.event
      rw [hmore] at hread ⊢
      exact loads_eq_none_of_restart (h.head.resolve_left hne) (by decide) hread

/-- The lines of a whole payload: the first goes on with what was begun. -/
theorem records_of_payload (publish : Publish) {text : PyStr} (h : Begun text) :
    (linesFrom (asciiBytes text) publish.payload).filterMap recordOf =
      (text ++ line publish.origin publish.first.event) ::
        publish.rest.map fun e ↦ line publish.origin e.event := by
  have hclean : ∀ l ∈ publish.lines, 10 ∉ l := by
    intro l hl
    obtain ⟨e, -, rfl⟩ := List.mem_map.mp hl
    exact newline_not_mem (printable_line publish.origin e)
  have hlines : linesFrom (asciiBytes text) publish.payload =
      (asciiBytes text ++ asciiBytes (line publish.origin publish.first.event)) ::
        publish.rest.map fun e ↦ asciiBytes (line publish.origin e.event) :=
    lines_from_joined hclean _
  have hrecord : ∀ e : ReadEvent, recordOf (asciiBytes (line publish.origin e.event)) =
      some (line publish.origin e.event) :=
    fun e ↦ record_of_begun begun_nil publish.origin e
  rw [hlines, List.filterMap_cons, record_of_begun h]
  simp [List.filterMap_map, hrecord]

/-- After a call that does not fail, its lines end the file. -/
theorem complete_payload (publish : Publish) (before : PyBytes) :
    Complete (before ++ publish.payload) :=
  .inr ⟨before ++ [10].intercalate publish.lines, by rw [Publish.payload, List.append_assoc]⟩

/-- The lines of a call that does not fail are records between those before and those after it. -/
theorem records_of_acknowledged (before after : List Publish) {publish : Publish}
    (hok : publish.failure = none) {text : PyStr} (htext : Begun text)
    (hremnant : remnant (fileOf before) = asciiBytes text) :
    recordsOf (fileOf (before ++ publish :: after)) =
      recordsOf (fileOf before) ++ ((text ++ line publish.origin publish.first.event) ::
        publish.rest.map fun e ↦ line publish.origin e.event) ++ recordsOf (fileOf after) := by
  have hfile : fileOf (before ++ publish :: after) =
      (fileOf before ++ publish.payload) ++ fileOf after := by
    rw [fileOf, List.flatMap_append, List.flatMap_cons, Publish.written, hok, List.append_assoc]
    rfl
  rw [hfile, records_of_append (complete_payload publish _), records_of_append_remnant, hremnant,
    records_of_payload publish htext]

/-- What stands at the end of the file is a part of a line, which is empty when it is complete. -/
theorem exists_remnant (publishes : List Publish) :
    ∃ text, Begun text ∧ remnant (fileOf publishes) = asciiBytes text ∧
      (Complete (fileOf publishes) ↔ text = []) := by
  obtain ⟨text, htext, hremnant⟩ := exists_begun publishes
  refine ⟨text, htext, hremnant, ?_⟩
  rw [complete_iff_remnant, hremnant, asciiBytes, List.map_eq_nil_iff]

/-- The events of a call that does not fail are read, in order and right after what was read
before. Only the first can be lost: it is when an earlier call left a part of a line. What other
calls do, before or after, never changes that. -/
theorem acknowledged_read_back (before after : List Publish) {publish : Publish}
    (hok : publish.failure = none) :
    ∃ record more,
      recordsOf (fileOf (before ++ publish :: after)) =
        recordsOf (fileOf before) ++
          (record :: publish.rest.map fun e ↦ line publish.origin e.event) ++ more ∧
      (∀ e ∈ publish.rest,
        loads (line publish.origin e.event) = some (received publish.origin e)) ∧
      (Complete (fileOf before) →
        loads record = some (received publish.origin publish.first)) ∧
      (¬ Complete (fileOf before) → loads record = none) := by
  obtain ⟨text, htext, hremnant, hcomplete⟩ := exists_remnant before
  refine ⟨_, _, records_of_acknowledged before after hok htext hremnant,
    fun e _ ↦ loads_line publish.origin e, fun h ↦ ?_, fun h ↦ ?_⟩
  · rw [loads_begun htext, if_pos (hcomplete.mp h)]
  · rw [loads_begun htext, if_neg (mt hcomplete.mpr h)]

/-- An event that is not the first, or that begins on a new line, can be read. -/
theorem exists_readable_record (before after : List Publish) {publish : Publish}
    (hok : publish.failure = none) {e : ReadEvent}
    (he : e ∈ publish.rest ∨ (e = publish.first ∧ Complete (fileOf before))) :
    ∃ record ∈ recordsOf (fileOf (before ++ publish :: after)),
      loads record = some (received publish.origin e) := by
  obtain ⟨text, htext, hremnant, hcomplete⟩ := exists_remnant before
  rw [records_of_acknowledged before after hok htext hremnant]
  rcases he with hrest | ⟨rfl, hbefore⟩
  · refine ⟨_, List.mem_append_left _ (List.mem_append_right _ (List.mem_cons_of_mem _ ?_)),
      loads_line publish.origin e⟩
    exact List.mem_map_of_mem hrest
  · refine ⟨_, List.mem_append_left _ (List.mem_append_right _ List.mem_cons_self), ?_⟩
    rw [loads_begun htext, if_pos (hcomplete.mp hbefore)]

/-- A line of a route, the fields `parse_event` reads. -/
def routeFields : JsonObject :=
  [(py "event_id", .str (py "e1")), (py "type", .str (py "EVENT_TYPE_ROUTE")),
    (py "occurred_at_ms", .int 1), (py "route", .object [])]

/-- The event of it. -/
def routeEvent : RuntimeEvent :=
  ⟨py "e1", .ROUTE, 1, 0, [], false, []⟩

theorem read_route :
    ∃ data raw, loadsBytes data = some raw ∧ parseEvent raw = .ok routeEvent := by
  have hvalid : (Json.object routeFields).Valid := by
    refine .object (by decide) ?_
    simp [routeFields, Valid.str, Valid.int, Valid.object]
  have hparse : parseEvent (Json.object routeFields).joined = .ok routeEvent := by rfl
  exact ⟨_, _, loads_bytes_dumps hvalid, hparse⟩

/-- A call with it and another like it, which succeeds or writes so many bytes. -/
def publishRoute (failure : Option Nat) : Publish :=
  ⟨⟨py "o", py "a", py "n"⟩, ⟨routeEvent, read_route⟩, [⟨routeEvent, read_route⟩], failure⟩

/-- A call fails within its first line and the next one does not: its second line is read. -/
theorem acknowledged_read_back_after_failure :
    ∃ record more,
      recordsOf (fileOf ([publishRoute (some 5)] ++ [publishRoute none])) =
        recordsOf (fileOf [publishRoute (some 5)]) ++
          (record :: (publishRoute none).rest.map fun e ↦
            line (publishRoute none).origin e.event) ++ more ∧
      (∀ e ∈ (publishRoute none).rest, loads (line (publishRoute none).origin e.event) =
        some (received (publishRoute none).origin e)) ∧
      (Complete (fileOf [publishRoute (some 5)]) →
        loads record = some (received (publishRoute none).origin (publishRoute none).first)) ∧
      (¬ Complete (fileOf [publishRoute (some 5)]) → loads record = none) :=
  acknowledged_read_back [publishRoute (some 5)] [] rfl

/-- Of what one call adds, no more can be read than its events. -/
theorem record_of_written (publish : Publish) {text : PyStr} (h : Begun text) {record : PyStr}
    (hrecord : record ∈ (linesFrom (asciiBytes text) publish.written).filterMap recordOf)
    {value : Json} (hvalue : loads record = some value) :
    ∃ e ∈ publish.events,
      record = line publish.origin e.event ∧ value = received publish.origin e := by
  have hwhole : record ∈ (linesFrom (asciiBytes text) publish.payload).filterMap recordOf := by
    obtain ⟨count, hcount⟩ := publish.written_eq_take
    rw [← List.take_append_drop count publish.payload, lines_from_append, List.filterMap_append,
      ← hcount]
    exact List.mem_append_left _ hrecord
  have hread : ∀ e, loads (line publish.origin e.event) = some value →
      value = received publish.origin e :=
    fun e h ↦ Option.some.inj (h.symm.trans (loads_line publish.origin e))
  rw [records_of_payload publish h, List.mem_cons] at hwhole
  rcases hwhole with rfl | hrest
  · rw [loads_begun h] at hvalue
    split at hvalue
    · next hempty =>
        subst hempty
        exact ⟨publish.first, List.mem_cons_self, rfl, (Option.some.inj hvalue).symm⟩
    · cases hvalue
  · obtain ⟨e, he, rfl⟩ := List.mem_map.mp hrest
    exact ⟨e, List.mem_cons_of_mem _ he, rfl, hread e hvalue⟩

/-- Of what several calls add to a part of a line, no more can be read than their events. -/
theorem record_of_publishes {publishes : List Publish} {text : PyStr} (h : Begun text)
    {record : PyStr}
    (hrecord : record ∈ (linesFrom (asciiBytes text) (fileOf publishes)).filterMap recordOf)
    {value : Json} (hvalue : loads record = some value) :
    ∃ publish ∈ publishes, ∃ e ∈ publish.events,
      record = line publish.origin e.event ∧ value = received publish.origin e := by
  induction publishes generalizing text with
  | nil => exact absurd hrecord List.not_mem_nil
  | cons publish publishes ih =>
      rw [fileOf, List.flatMap_cons, lines_from_append, List.filterMap_append,
        List.mem_append] at hrecord
      rcases hrecord with hrecord | hrecord
      · exact ⟨publish, List.mem_cons_self, record_of_written publish h hrecord hvalue⟩
      · obtain ⟨text', htext', hremnant⟩ := publish.begun h
        rw [hremnant] at hrecord
        obtain ⟨other, hother, hfound⟩ := ih htext' hrecord
        exact ⟨other, List.mem_cons_of_mem _ hother, hfound⟩

/-- However the calls fail, no record of the file can be read that is not an event of one of them,
with the identity of its call. -/
theorem readable_record_was_published (publishes : List Publish) {record : PyStr}
    (hrecord : record ∈ recordsOf (fileOf publishes)) {value : Json}
    (hvalue : loads record = some value) :
    ∃ publish ∈ publishes, ∃ e ∈ publish.events,
      record = line publish.origin e.event ∧ value = received publish.origin e :=
  record_of_publishes begun_nil hrecord hvalue

/-- After a call that fails within its first line, the last line of the next can be read. -/
theorem readable_record_was_published_after_failure :
    ∃ publish ∈ [publishRoute (some 5), publishRoute none], ∃ e ∈ publish.events,
      line (publishRoute none).origin routeEvent = line publish.origin e.event ∧
        received (publishRoute none).origin ⟨routeEvent, read_route⟩ =
          received publish.origin e := by
  obtain ⟨text, htext, hremnant, -⟩ := exists_remnant [publishRoute (some 5)]
  have hok : (publishRoute none).failure = none := rfl
  have hrecords := records_of_acknowledged [publishRoute (some 5)] [] hok htext hremnant
  refine readable_record_was_published [publishRoute (some 5), publishRoute none] ?_
    (loads_line (publishRoute none).origin ⟨routeEvent, read_route⟩)
  exact hrecords ▸ List.mem_append_left _
    (List.mem_append_right _ (List.mem_cons_of_mem _ List.mem_cons_self))

/-! ## What the worker is handed -/

/-- What the writer appends in a step. -/
def TailLabel.appended : TailLabel → PyBytes
  | .append data => data
  | .poll appends => appends.flatten
  | .commit | .crash | .start => []

namespace Tail

theorem content_appended (lib : Library) (batchSize : Nat) (s : Tail) (label : TailLabel) :
    (s.step lib batchSize label).2.content = s.content ++ label.appended := by
  cases label with
  | append data => rfl
  | poll appends =>
      cases hsource : s.source with
      | none =>
          rw [step_poll_of_dead lib batchSize hsource]
          exact content_grown s appends
      | some source =>
          rw [step_poll_of_alive lib batchSize hsource]
          exact content_grown s appends
  | commit =>
      rw [step]
      split <;> exact (List.append_nil _).symm
  | crash => exact (List.append_nil _).symm
  | start => exact (List.append_nil _).symm

theorem content_of_run (lib : Library) (batchSize : Nat) (s : Tail) (labels : List TailLabel) :
    (Machine.final (step lib batchSize) s labels).content =
      s.content ++ labels.flatMap TailLabel.appended := by
  induction labels generalizing s with
  | nil => exact (List.append_nil _).symm
  | cons label labels ih =>
      rw [Machine.final_cons, ih, content_appended, List.flatMap_cons, List.append_assoc]

/-- The record at an index of which it is delivered is in a batch. -/
theorem Handed.mem {lib : Library} {batchSize : Nat} {batches : List (Nat × List PyStr)} {s : Tail}
    (h : Handed lib batchSize batches s) {index : Nat} (hindex : Delivered batches index)
    {record : PyStr} (hrecord : (recordsOf s.content)[index]? = some record) :
    ∃ d ∈ batches, record ∈ d.2 := by
  obtain ⟨d, hd, hle, hlt⟩ := hindex
  refine ⟨d, hd, List.mem_of_getElem? (i := index - d.1) ?_⟩
  obtain ⟨more, hmore⟩ := h.genuine d hd
  have hdrop : ((recordsOf s.content).drop d.1)[index - d.1]? = some record := by
    rw [List.getElem?_drop, Nat.add_sub_cancel' hle, hrecord]
  rwa [← hmore, List.getElem?_append_left (by omega)] at hdrop

/-- However the writes of the gateway and the steps of the worker interleave, and whichever calls
fail: what the worker is handed and can read was published, with the identity of its call. A call
that has not failed is handed over, once a worker that is not stopped for good has polled and
committed often enough: all of it when it began on a new line, and but for its first event
otherwise. -/
theorem published_handed_over (lib : Library)
    (hparse : ∀ n : Nat, lib.parseInt (PyStr.decimal n) = some (n : Int)) (batchSize : Nat)
    (hsize : 0 < batchSize) (publishes : List Publish) (labels : List TailLabel)
    (hwritten : labels.flatMap TailLabel.appended = fileOf publishes) :
    let s := Machine.final (step lib batchSize) ⟨none, none, none⟩ labels
    let batches := deliveries lib batchSize ⟨none, none, none⟩ labels
    (∀ d ∈ batches, ∀ record ∈ d.2, ∀ value, loads record = some value →
      ∃ publish ∈ publishes, ∃ e ∈ publish.events, value = received publish.origin e) ∧
    ∀ before publish after, publishes = before ++ publish :: after → publish.failure = none →
      ∀ e, e ∈ publish.rest ∨ (e = publish.first ∧ Complete (fileOf before)) →
      ∀ cycles : List (List TailLabel × List PyBytes), (∀ c ∈ cycles, TailLabel.crash ∉ c.1) →
        (recordsOf (fileOf publishes)).length ≤ cycles.length →
        ∃ d ∈ batches ++ s.deliveries lib batchSize (.start :: cycles.flatMap cycle),
          ∃ record ∈ d.2, loads record = some (received publish.origin e) := by
  intro s batches
  have hrun : Handed lib batchSize batches s :=
    handed_run hparse hsize (handed_start lib batchSize none) labels
  have hcontent : s.content = fileOf publishes :=
    (content_of_run lib batchSize _ labels).trans hwritten
  refine ⟨fun d hd record hrecord value hvalue ↦ ?_, ?_⟩
  · have hmem := List.mem_of_mem_drop ((hrun.genuine d hd).subset hrecord)
    rw [hcontent] at hmem
    obtain ⟨publish, hpublish, e, he, -, hread⟩ := record_of_publishes begun_nil hmem hvalue
    exact ⟨publish, hpublish, e, he, hread⟩
  · intro before publish after hsplit hok e he cycles hcycles hlength
    obtain ⟨record, hmem, hread⟩ := exists_readable_record before after hok he
    rw [← hsplit, ← hcontent] at hmem
    obtain ⟨index, hindex⟩ := List.mem_iff_getElem?.mp hmem
    have hbound := (List.getElem?_eq_some_iff.mp hindex).1
    have hstarted := consistent_step hparse hsize hrun.consistent .start
    have hmoved := alive_cycles hparse hsize hcycles ⟨hstarted, rfl, Nat.zero_le _⟩
    have hsame : (s.step lib batchSize .start).2.content = s.content := rfl
    rw [hsame] at hmoved
    have hwhole := handed_run hparse hsize hrun (.start :: cycles.flatMap cycle)
    obtain ⟨data, hdata⟩ := content_run lib batchSize s (.start :: cycles.flatMap cycle)
    rw [Machine.final_cons] at hwhole hdata
    -- What was there at the start stays where it was.
    obtain ⟨more, hmore⟩ := records_of_grown s.content data
    have hlast : (recordsOf (Machine.final (step lib batchSize)
        (s.step lib batchSize .start).2 (cycles.flatMap cycle)).content)[index]? = some record := by
      rw [hdata, ← hmore, List.getElem?_append_left hbound, hindex]
    rw [← hcontent] at hlength
    obtain ⟨d, hd, hrecord⟩ := hwhole.mem (hwhole.delivered index (by omega)) hlast
    exact ⟨d, hd, record, hrecord, hread⟩

/-- The gateway writes two events while a process is stopped; another one is handed the second. -/
theorem published_handed_over_after_crash :
    ∃ d ∈ deliveries plainLibrary 1 ⟨none, none, none⟩
        [.start, .crash, .append (fileOf [publishRoute none])] ++
      deliveries plainLibrary 1 (Machine.final (step plainLibrary 1) ⟨none, none, none⟩
        [.start, .crash, .append (fileOf [publishRoute none])])
        (.start :: (List.replicate (recordsOf (fileOf [publishRoute none])).length
          (([] : List TailLabel), ([] : List PyBytes))).flatMap cycle),
      ∃ record ∈ d.2, loads record =
        some (received (publishRoute none).origin ⟨routeEvent, read_route⟩) := by
  refine (published_handed_over plainLibrary parse_int_decimal 1 (by decide) [publishRoute none]
    [.start, .crash, .append (fileOf [publishRoute none])] ?_).2 [] (publishRoute none) [] rfl rfl
    ⟨routeEvent, read_route⟩ (.inl List.mem_cons_self) _ ?_ ?_
  · exact List.append_nil _
  · intro c hc
    rw [List.eq_of_mem_replicate hc]
    exact List.not_mem_nil
  · exact List.length_replicate.ge

end Tail

end Aegis.Stream
