import Aegis.Agent.Lines
import Aegis.Agent.RuntimeEvent

/-!
# An event is one line

NDJSON ends a record with a line feed, so an event may have no line end in it. `quote` escapes
those of the application's text, and what the agent writes around it has none.
-/

namespace Aegis.Agent

namespace JString

/-- Text on one line is made of parts on one line. -/
theorem one_line_append_iff {s t : JString} :
    (s ++ t : JString).OneLine ↔ s.OneLine ∧ t.OneLine :=
  List.forall_mem_append

/-- Text made of pieces on one line is on one line. -/
theorem one_line_flat_map {α : Type} {items : List α} {f : α → JString}
    (h : ∀ item ∈ items, (f item).OneLine) : JString.OneLine (items.flatMap f) := by
  intro c hc
  obtain ⟨item, hitem, hc⟩ := List.mem_flatMap.mp hc
  exact h item hitem c hc

end JString

open JString

/-- Items on one line are on one line when separated. -/
theorem one_line_separated {items : List JString} (h : ∀ item ∈ items, item.OneLine) :
    (separated items).OneLine := by
  induction items with
  | nil => decide
  | cons item items ih =>
      obtain ⟨hitem, hitems⟩ := List.forall_mem_cons.mp h
      cases items with
      | nil => simpa [separated] using hitem
      | cons next items =>
          have hrest := ih hitems
          rw [separated, List.intercalate_cons_cons, one_line_append_iff, one_line_append_iff]
          exact ⟨⟨hitem, by decide⟩, hrest⟩

/-- A hexadecimal digit is no line end. -/
theorem one_line_hex_digit (n : Nat) : hexDigit n ≠ 0x0A ∧ hexDigit n ≠ 0x0D := by
  have h : ∀ d : Fin 16, (Nat.digitChar d).toNat.toUInt16 ≠ 0x0A ∧
      (Nat.digitChar d).toNat.toUInt16 ≠ 0x0D := by decide
  exact h ⟨n % 16, Nat.mod_lt _ (by decide)⟩

/-- An escaped character is on one line. -/
theorem one_line_escape (c : JChar) : (escape c).OneLine := by
  unfold escape
  split_ifs with _ _ hnewline hreturn
  · decide
  · decide
  · decide
  · decide
  · decide
  · decide
  · decide
  · rw [unicodeEscape, one_line_append_iff]
    refine ⟨by decide, ?_⟩
    simp only [OneLine, List.forall_mem_cons]
    exact ⟨one_line_hex_digit _, one_line_hex_digit _, one_line_hex_digit _, one_line_hex_digit _,
      fun _ h ↦ (nomatch h)⟩
  · refine List.forall_mem_singleton.mpr ⟨fun h ↦ hnewline ?_, fun h ↦ hreturn ?_⟩ <;>
    · rw [h]
      rfl

/-- A JSON string is on one line. -/
theorem one_line_quote (value : Option JString) : (quote value).OneLine := by
  rw [quote, one_line_append_iff, one_line_append_iff]
  exact ⟨⟨by decide, one_line_flat_map fun c _ ↦ one_line_escape c⟩, by decide⟩

/-- The digits of a number are on one line. -/
theorem one_line_digit_string (n : Nat) : (digitString n).OneLine := by
  refine one_line_flat_map fun c hc ↦ ?_
  rw [String.toList_ofList] at hc
  have hdigit := Nat.isDigit_of_mem_toDigits (by decide) (by decide) hc
  have hbounds : 48 ≤ c.toNat ∧ c.toNat ≤ 57 := by
    simpa [Char.isDigit, UInt32.le_iff_toNat_le] using hdigit
  have hunit : c.toNat.toUInt16.toNat = c.toNat := by
    rw [Nat.toUInt16_eq, UInt16.toNat_ofNat']
    exact Nat.mod_eq_of_lt (by omega)
  rw [codeUnits, if_pos (by omega)]
  refine List.forall_mem_singleton.mpr ⟨?_, ?_⟩ <;>
  · rw [Ne, ← UInt16.toNat_inj, hunit]
    simp only [UInt16.reduceToNat]
    omega

/-- A number is on one line. -/
theorem one_line_decimal (n : Int) : (decimal n).OneLine := by
  unfold decimal
  split
  · exact List.forall_mem_cons.mpr ⟨by decide, one_line_digit_string _⟩
  · exact one_line_digit_string _

theorem one_line_bool (b : Bool) : (bool b).OneLine := by
  cases b <;> decide

/-- A member of an object is on one line when its name is. -/
theorem one_line_field_iff {name : String} {value : JString} :
    (field name value).OneLine ↔ (java name).OneLine := by
  simp only [field, one_line_append_iff, one_line_quote, and_true]
  exact ⟨fun h ↦ h.1.2, fun h ↦ ⟨⟨by decide, h⟩, by decide⟩⟩

theorem one_line_string_array (values : List JString) : (stringArray values).OneLine := by
  rw [stringArray, one_line_append_iff, one_line_append_iff]
  refine ⟨⟨by decide, one_line_separated ?_⟩, by decide⟩
  exact List.forall_mem_map.mpr fun value _ ↦ one_line_quote _

theorem one_line_string_map (values : StringMap) : (stringMap values).OneLine := by
  rw [stringMap, one_line_append_iff, one_line_append_iff]
  refine ⟨⟨by decide, one_line_separated ?_⟩, by decide⟩
  refine List.forall_mem_map.mpr fun entry _ ↦ ?_
  rw [stringEntry, one_line_append_iff, one_line_append_iff]
  exact ⟨⟨one_line_quote _, by decide⟩, one_line_quote _⟩

namespace RuntimeEvent

theorem one_line_range_json (range : TaintRange) : (rangeJson range).OneLine := by
  have hsource : range.source.wireName.OneLine := by cases range.source <;> decide
  simp only [rangeJson, one_line_append_iff, one_line_decimal, one_line_quote, hsource, and_true]
  decide

theorem one_line_frame_json (frame : StackFrame) : (frameJson frame).OneLine := by
  simp only [frameJson, one_line_append_iff, one_line_decimal, one_line_quote, one_line_bool,
    and_true]
  decide

/-- The part of the payload that describes the finding is on one line. -/
theorem one_line_finding_json (finding : Finding) : (findingJson finding).OneLine := by
  have hranges := one_line_separated (List.forall_mem_map.mpr fun range (_ : range ∈ finding.ranges) ↦
    one_line_range_json range)
  have hstack := one_line_separated (List.forall_mem_map.mpr fun frame (_ : frame ∈ finding.stack) ↦
    one_line_frame_json frame)
  unfold findingJson
  generalize separated (finding.ranges.map rangeJson) = ranges at hranges ⊢
  generalize separated (finding.stack.map frameJson) = stack at hstack ⊢
  simp only [ one_line_append_iff, one_line_field_iff, one_line_bool,
    one_line_string_array, hranges, hstack, and_true]
  decide +kernel

/-- The part of the payload that describes the request is on one line. -/
theorem one_line_request_json (context : RequestContext) : (requestJson context).OneLine := by
  simp only [requestJson, requestLineJson, one_line_append_iff, one_line_field_iff,
    one_line_string_map, and_true]
  decide +kernel

/-- An event whose payload is on one line is a record. -/
theorem record_to_json {event : RuntimeEvent} (h : event.json.OneLine) : event.toJson.Record := by
  refine ⟨rfl, ?_⟩
  simp only [toJson, one_line_append_iff, one_line_field_iff, one_line_decimal, h, and_true]
  decide +kernel

/-- The event of a finding is a record. -/
theorem record_taint_hit (eventId : JString) (finding : Finding) (context : Option RequestContext)
    (moment : Moment) : (taintHit eventId finding context moment).toJson.Record := by
  refine record_to_json ?_
  have hrequest : JString.OneLine ((context.map requestJson).getD []) := by
    cases context with
    | none => decide
    | some context => exact one_line_request_json context
  simp only [taintHit, one_line_append_iff, one_line_finding_json, hrequest, and_true]
  decide +kernel

/-- The event of a route is a record. -/
theorem record_route (eventId method pathTemplate : JString) (authenticated : Bool)
    (moment : Moment) : (route eventId method pathTemplate authenticated moment).toJson.Record := by
  refine record_to_json ?_
  simp only [route, one_line_append_iff, one_line_field_iff, one_line_bool, and_true]
  decide +kernel

/-- The event of a coverage gap is a record. -/
theorem record_coverage_gap (eventId reason component : JString) (moment : Moment) :
    (coverageGap eventId reason component moment).toJson.Record := by
  refine record_to_json ?_
  simp only [coverageGap, one_line_append_iff, one_line_field_iff]
  decide +kernel

end RuntimeEvent

end Aegis.Agent
