import Mathlib.Data.List.Lex
import Aegis.Lib.Keyset
import Aegis.Server.Json.Bytes

/-!
# Canonical text

`json.dumps(value, sort_keys=True, separators=(",", ":"))`. Two values have one canonical text just
when they differ in nothing but the order of keys.
-/

namespace Aegis.Server.Json

mutual

/-- The value with the keys of its objects in order. -/
def sorted : Json → Json
  | .list items => .list (sortedItems items)
  | .object fields => .object (Keyset.ordered Prod.fst (sortedFields fields))
  | value => value

/-- The items of a list, with the keys of their objects in order. -/
def sortedItems : List Json → List Json
  | [] => []
  | item :: items => sorted item :: sortedItems items

/-- The fields of an object, with the keys of the objects in them in order. -/
def sortedFields : List (PyStr × Json) → List (PyStr × Json)
  | [] => []
  | (key, value) :: fields => (key, sorted value) :: sortedFields fields

end

theorem sorted_list (items : List Json) : sorted (.list items) = .list (items.map sorted) := by
  have hitems : ∀ items : List Json, sortedItems items = items.map sorted := by
    intro items
    induction items with
    | nil => rfl
    | cons item items ih => rw [sortedItems, ih, List.map_cons]
  rw [sorted, hitems]

/-- The fields of an object with its keys, and the keys of the objects in it, in order. -/
def sortedObject (fields : JsonObject) : JsonObject :=
  Keyset.ordered Prod.fst (fields.map fun field ↦ (field.1, sorted field.2))

theorem sorted_object (fields : JsonObject) :
    sorted (.object fields) = .object (sortedObject fields) := by
  have hfields : ∀ fields : JsonObject,
      sortedFields fields = fields.map fun field ↦ (field.1, sorted field.2) := by
    intro fields
    induction fields with
    | nil => rfl
    | cons field fields ih => rw [sortedFields, ih, List.map_cons]
  rw [sorted, hfields, sortedObject]

/-- `json.dumps(value, sort_keys=True, separators=(",", ":"))`. -/
def canonical (value : Json) : PyStr :=
  dumps value.sorted

/-- A value of Python whose strings have a UTF-8 encoding. -/
inductive Encodable : Json → Prop where
  | null : Encodable .null
  | bool (value : Bool) : Encodable (.bool value)
  | int (value : Int) : Encodable (.int value)
  | float {value : ℚ} (h : IsDouble value) : Encodable (.float (.finite value))
  | infinity (negative : Bool) : Encodable (.float (.infinity negative))
  | nan : Encodable (.float .nan)
  | str {value : PyStr} (h : PyStr.Encodable value) : Encodable (.str value)
  | list {items : List Json} (h : ∀ item ∈ items, Encodable item) : Encodable (.list items)
  | object {fields : JsonObject} (hkeys : (fields.map Prod.fst).Nodup)
      (hnames : ∀ field ∈ fields, PyStr.Encodable field.1)
      (h : ∀ field ∈ fields, Encodable field.2) : Encodable (.object fields)

theorem Encodable.valid {value : Json} (h : value.Encodable) : value.Valid := by
  induction h with
  | null => exact .null
  | bool value => exact .bool value
  | int value => exact .int value
  | float h => exact .float h
  | infinity negative => exact .infinity negative
  | nan => exact .nan
  | str _ => exact .str _
  | list _ ih => exact .list ih
  | object hkeys _ _ ih => exact .object hkeys ih

/-- Such a value has no surrogates to join. -/
theorem Encodable.joined {value : Json} (h : value.Encodable) : value.joined = value := by
  induction h with
  | null | bool _ | int _ | float _ | infinity _ | nan => rfl
  | str h => rw [Json.joined, join_surrogates_of_encodable h]
  | @list items _ ih => rw [joined_list, List.map_congr_left ih, List.map_id']
  | @object fields hkeys hnames _ ih =>
      have hfields : fields.map (fun field ↦ (joinSurrogates field.1, field.2.joined)) =
          fields := by
        refine (List.map_congr_left fun field hfield ↦ ?_).trans (List.map_id' fields)
        rw [join_surrogates_of_encodable (hnames field hfield), ih field hfield]
      rw [joined_object, hfields, dict_of_nodup hkeys]

/-- The order of keys is changed in a value of Python. -/
theorem Encodable.sorted {value : Json} (h : value.Encodable) : value.sorted.Encodable := by
  induction h with
  | null => exact .null
  | bool value => exact .bool value
  | int value => exact .int value
  | float h => exact .float h
  | infinity negative => exact .infinity negative
  | nan => exact .nan
  | str h => exact .str h
  | list _ ih =>
      rw [sorted_list]
      exact .list (List.forall_mem_map.mpr ih)
  | @object fields hkeys hnames _ ih =>
      have hperm := Keyset.ordered_perm Prod.fst
        (fields.map fun field ↦ (field.1, Json.sorted field.2))
      rw [sorted_object, sortedObject]
      refine .object ?_ (fun field hfield ↦ ?_) fun field hfield ↦ ?_
      · rw [(hperm.map _).nodup_iff, List.map_map]
        exact hkeys
      · obtain ⟨old, hold, rfl⟩ := List.mem_map.mp (hperm.subset hfield)
        exact hnames old hold
      · obtain ⟨old, hold, rfl⟩ := List.mem_map.mp (hperm.subset hfield)
        exact ih old hold

/-- The canonical text is read as the value with its keys in order. -/
theorem loads_canonical {value : Json} (h : value.Encodable) :
    loads (canonical value) = some value.sorted := by
  rw [canonical, loads_dumps h.sorted.valid, h.sorted.joined]

/-- Two values have one canonical text just when they are one but for the order of keys. -/
theorem canonical_inj {value other : Json} (h : value.Encodable) (hother : other.Encodable) :
    canonical value = canonical other ↔ value.sorted = other.sorted := by
  refine ⟨fun htext ↦ ?_, congrArg dumps⟩
  have hread := loads_canonical h
  rw [htext, loads_canonical hother] at hread
  exact (Option.some.inj hread).symm

/-- The canonical text is ASCII. -/
theorem printable_canonical {value : Json} (h : value.Encodable) : Printable (canonical value) :=
  printable_dumps h.sorted.valid

/-- Objects with one list of keys are one but for the order of keys when their values are. -/
theorem sorted_object_inj {fields others : JsonObject} (h : (fields.map Prod.fst).Nodup)
    (hkeys : fields.map Prod.fst = others.map Prod.fst) :
    sorted (.object fields) = sorted (.object others) ↔
      fields.map (fun field ↦ field.2.sorted) = others.map fun field ↦ field.2.sorted := by
  have hnames : ∀ fields : JsonObject,
      (fields.map fun field ↦ (field.1, field.2.sorted)).map Prod.fst = fields.map Prod.fst := by
    intro fields
    rw [List.map_map]
    rfl
  rw [sorted_object, sorted_object, sortedObject, sortedObject, Json.object.injEq,
    Keyset.ordered_inj Prod.fst (by rwa [hnames]) (by rw [hnames, hnames, hkeys])]
  constructor
  · intro hfields
    have hvalues := congrArg (List.map Prod.snd) hfields
    rw [List.map_map, List.map_map] at hvalues
    exact hvalues
  · intro hvalues
    have hzip : ∀ fields : JsonObject, (fields.map fun field ↦ (field.1, field.2.sorted)) =
        (fields.map Prod.fst).zip (fields.map fun field ↦ field.2.sorted) := by
      intro fields
      rw [List.zip_map']
    rw [hzip, hzip, hkeys, hvalues]

end Aegis.Server.Json
