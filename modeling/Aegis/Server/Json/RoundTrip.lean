import Aegis.Server.Json.Writes

/-!
# Reading undoes writing

`json.loads` gives back the value that `json.dumps` was given, but for surrogates: two halves of a
pair that stand next to each other in a string are read back as the character they stand for.
-/

namespace Aegis.Server

/-! ## Values as `json.loads` returns them -/

/-- A `dict` has a key once, and a `float` is a double. -/
inductive Json.Valid : Json → Prop where
  | null : Valid .null
  | bool (value : Bool) : Valid (.bool value)
  | int (value : Int) : Valid (.int value)
  | float {value : ℚ} (h : IsDouble value) : Valid (.float (.finite value))
  | infinity (negative : Bool) : Valid (.float (.infinity negative))
  | nan : Valid (.float .nan)
  | str (value : PyStr) : Valid (.str value)
  | list {items : List Json} (h : ∀ item ∈ items, Valid item) : Valid (.list items)
  | object {fields : JsonObject} (hkeys : (fields.map Prod.fst).Nodup)
      (h : ∀ field ∈ fields, Valid field.2) : Valid (.object fields)

namespace Json

mutual

/-- The value with the surrogate pairs of its strings joined. -/
def joined : Json → Json
  | .str value => .str (joinSurrogates value)
  | .list items => .list (joinedItems items)
  | .object fields => .object (dictOf (joinedFields fields))
  | value => value

/-- The items of a list, with the pairs of their strings joined. -/
def joinedItems : List Json → List Json
  | [] => []
  | item :: items => joined item :: joinedItems items

/-- The fields of an object, with the pairs of their keys and strings joined. -/
def joinedFields : List (PyStr × Json) → List (PyStr × Json)
  | [] => []
  | (key, value) :: fields => (joinSurrogates key, joined value) :: joinedFields fields

end

theorem joined_list (items : List Json) : joined (.list items) = .list (items.map joined) := by
  have hitems : ∀ items : List Json, joinedItems items = items.map joined := by
    intro items
    induction items with
    | nil => rfl
    | cons item items ih => rw [joinedItems, ih, List.map_cons]
  rw [joined, hitems]

theorem joined_object (fields : JsonObject) :
    joined (.object fields) =
      .object (dictOf (fields.map fun field ↦ (joinSurrogates field.1, joined field.2))) := by
  have hfields : ∀ fields : JsonObject,
      joinedFields fields = fields.map fun field ↦ (joinSurrogates field.1, joined field.2) := by
    intro fields
    induction fields with
    | nil => rfl
    | cons field fields ih => rw [joinedFields, ih, List.map_cons]
  rw [joined, hfields]

/-! ## The round trip -/

/-- What `json.dumps` writes of a value is read as the value with its pairs joined. -/
theorem writes_dumps {value : Json} (h : value.Valid) : Writes (dumps value) value.joined := by
  induction h with
  | null => exact writes_constant (by simp [constants, dumps, joined])
  | bool value => cases value <;> exact writes_constant (by simp [constants, dumps, joined])
  | int value => exact writes_int value
  | float h => exact writes_number (reads_float h)
  | infinity negative =>
      cases negative <;> exact writes_constant (by simp [constants, dumps, floatstr, joined])
  | nan => exact writes_constant (by simp [constants, dumps, floatstr, joined])
  | str value => exact writes_str (spells_string_body value)
  | list _ ih =>
      rw [dumps_list, joined_list]
      exact writes_list ih
  | object _ _ ih =>
      rw [dumps_object, joined_object]
      exact writes_object (fun _ _ ↦ spells_string_body _) ih

/-- `json.loads` reads what `json.dumps` writes. -/
theorem loads_dumps {value : Json} (h : value.Valid) : loads (dumps value) = some value.joined :=
  loads_of_writes (writes_dumps h)

/-! ## Dictionaries -/

/-- A key that is not there is added at the end. -/
theorem dict_set_of_not_mem {fields : JsonObject} {key : PyStr} (h : key ∉ fields.map Prod.fst)
    (value : Json) : dictSet fields key value = fields ++ [(key, value)] :=
  if_neg (by simpa using h)

/-- Pairs with different keys make the dictionary of just these. -/
theorem dict_of_nodup {pairs : List (PyStr × Json)} (h : (pairs.map Prod.fst).Nodup) :
    dictOf pairs = pairs := by
  have hfold : ∀ (fields pairs : List (PyStr × Json)),
      ((fields ++ pairs).map Prod.fst).Nodup →
      pairs.foldl (fun fields pair ↦ dictSet fields pair.1 pair.2) fields = fields ++ pairs := by
    intro fields pairs
    induction pairs generalizing fields with
    | nil => simp
    | cons pair pairs ih =>
        intro hnodup
        have hnew : pair.1 ∉ fields.map Prod.fst := by
          rw [List.map_append] at hnodup
          exact fun hmem ↦ (List.nodup_append.mp hnodup).2.2 _ hmem _ List.mem_cons_self rfl
        rw [List.foldl_cons, dict_set_of_not_mem hnew, ih _ (by simpa using hnodup)]
        simp
  exact hfold [] pairs h

/-- A dictionary stays one when a key is set. -/
theorem valid_dict_set {fields : JsonObject} {key : PyStr} {value : Json}
    (h : (Json.object fields).Valid) (hvalue : value.Valid) :
    (Json.object (dictSet fields key value)).Valid := by
  cases h with
  | object hkeys hvalues =>
      by_cases hmem : key ∈ fields.map Prod.fst
      · have hset : dictSet fields key value =
            fields.map fun field ↦ if field.1 = key then (key, value) else field :=
          if_pos (by simpa using hmem)
        have hsame : (fun field : PyStr × Json ↦
            (if field.1 = key then (key, value) else field).1) = Prod.fst := by
          funext field
          split
          · next h => exact h.symm
          · rfl
        rw [hset]
        refine .object ?_ (List.forall_mem_map.mpr fun field hfield ↦ ?_)
        · rwa [List.map_map, Function.comp_def, hsame]
        · split
          · exact hvalue
          · exact hvalues field hfield
      · rw [dict_set_of_not_mem hmem]
        refine .object ?_ (List.forall_mem_append.mpr ⟨hvalues, ?_⟩)
        · rw [List.map_append, List.map_singleton, List.nodup_append]
          refine ⟨hkeys, by simp, fun a ha b hb hab ↦ hmem ?_⟩
          have hb := List.mem_singleton.mp hb
          rwa [← show a = key from hab.trans hb]
        · exact List.forall_mem_singleton.mpr hvalue

/-- Pairs of keys and values make a dictionary. -/
theorem valid_dict_of {pairs : List (PyStr × Json)} (h : ∀ pair ∈ pairs, pair.2.Valid) :
    (Json.object (dictOf pairs)).Valid := by
  have hfold : ∀ fields : JsonObject, (Json.object fields).Valid →
      (Json.object (pairs.foldl (fun fields pair ↦ dictSet fields pair.1 pair.2) fields)).Valid := by
    induction pairs with
    | nil => exact fun _ hfields ↦ hfields
    | cons pair pairs ih =>
        intro fields hfields
        obtain ⟨hpair, hpairs⟩ := List.forall_mem_cons.mp h
        exact ih hpairs _ (valid_dict_set hfields hpair)
  exact hfold [] (.object List.nodup_nil fun _ h ↦ (by cases h))

/-! ## What `json.loads` returns -/

/-- A number is an integer or a double. -/
theorem valid_number_value (negative : Bool) (whole : PyStr) (fraction : Option PyStr)
    (exponent : Option Int) : (numberValue negative whole fraction exponent).Valid := by
  unfold numberValue
  split
  · exact .int _
  · cases hfloat : PyFloat.ofRat (signed negative (digitsValue (whole ++ fraction.getD []) *
        10 ^ (exponent.getD 0 - (fraction.getD []).length))) with
    | finite double => exact .float (is_double_of_rat hfloat)
    | infinity negative => exact .infinity negative
    | nan => exact .nan

/-- A value with a name is one. -/
theorem valid_of_scan_constant {text rest : PyStr} {value : Json}
    (h : scanConstant text = some (value, rest)) : value.Valid := by
  obtain ⟨p, hp, hread⟩ := List.exists_of_findSome?_eq_some h
  obtain ⟨name, constant⟩ := p
  dsimp only at hread
  split_ifs at hread
  obtain ⟨rfl, -⟩ := Prod.mk.inj (Option.some.inj hread)
  simp only [constants, List.mem_cons, Prod.mk.injEq, List.not_mem_nil, or_false] at hp
  rcases hp with ⟨-, rfl⟩ | ⟨-, rfl⟩ | ⟨-, rfl⟩ | ⟨-, rfl⟩ | ⟨-, rfl⟩ | ⟨-, rfl⟩
  · exact .null
  · exact .bool true
  · exact .bool false
  · exact .nan
  · exact .infinity false
  · exact .infinity true

/-- The value of a field is what is scanned for it. -/
theorem valid_of_scan_field {scan : Reader PyChar Json}
    (hscan : ∀ text value rest, scan text = some (value, rest) → value.Valid)
    (text : PyStr) (field : PyStr × Json) (rest : PyStr)
    (h : scanField scan text = some (field, rest)) : field.2.Valid := by
  unfold scanField at h
  split at h
  · cases h
  · split_ifs at h
    obtain ⟨⟨key, after⟩, -, h⟩ := Option.bind_eq_some_iff.mp h
    dsimp only at h
    split at h
    · cases h
    · split_ifs at h
      obtain ⟨⟨value, after⟩, hvalue, heq⟩ := Option.map_eq_some_iff.mp h
      obtain ⟨rfl, -⟩ := Prod.mk.inj heq
      exact hscan _ _ _ hvalue

/-- What is scanned is a value as Python has it. -/
theorem valid_of_scan_once {depth : Nat} {text rest : PyStr} {value : Json}
    (h : scanOnce depth text = some (value, rest)) : value.Valid := by
  induction depth generalizing text rest value with
  | zero => cases h
  | succ depth ih =>
      cases text with
      | nil => cases h
      | cons c text =>
          rw [scanOnce] at h
          split_ifs at h
          · obtain ⟨⟨s, after⟩, -, heq⟩ := Option.map_eq_some_iff.mp h
            obtain ⟨rfl, -⟩ := Prod.mk.inj heq
            exact .str s
          · obtain ⟨⟨pairs, after⟩, hpairs, heq⟩ := Option.map_eq_some_iff.mp h
            obtain ⟨rfl, -⟩ := Prod.mk.inj heq
            exact valid_dict_of (Reader.forall_of_enclosed
              (valid_of_scan_field fun _ _ _ ↦ ih) hpairs)
          · obtain ⟨⟨items, after⟩, hitems, heq⟩ := Option.map_eq_some_iff.mp h
            obtain ⟨rfl, -⟩ := Prod.mk.inj heq
            exact .list (Reader.forall_of_enclosed (fun _ _ _ ↦ ih) hitems)
          · rcases Option.or_eq_some_iff.mp h with h | ⟨-, h⟩
            · exact valid_of_scan_constant h
            · obtain ⟨⟨whole, after⟩, -, heq⟩ := Option.map_eq_some_iff.mp h
              obtain ⟨rfl, -⟩ := Prod.mk.inj heq
              exact valid_number_value _ _ _ _

/-- What is read is a value as Python has it. -/
theorem valid_of_loads {text : PyStr} {value : Json} (h : loads text = some value) :
    value.Valid := by
  unfold loads at h
  split_ifs at h
  obtain ⟨⟨read, rest⟩, hread, h⟩ := Option.bind_eq_some_iff.mp h
  dsimp only at h
  split_ifs at h
  obtain rfl := Option.some.inj h
  exact valid_of_scan_once hread

end Json

end Aegis.Server
