import Shyake.Client.CJson

/-!
# Parsed JSON

What `cJSON_Parse` makes of any document, and how the library looks into it: a name is
looked up in any value, a text or a number is read off any value.
-/

namespace Shyake.Client

open CJson (tolower)

/-- A number has no more than the `int` that is read of it. -/
inductive Json where
  | null
  | bool (value : Bool)
  | number (valueint : Int)
  | string (valuestring : Bytes)
  | array (items : List Json)
  | object (members : List (Bytes × Json))

namespace Json

/-- `cJSON_GetObjectItem`, of a literal name. The items of an array have no names. -/
def getObjectItem : Json → Bytes → Option Json
  | object members, name =>
    (members.find? fun m => name.map tolower == (cstr m.1).map tolower).map (·.2)
  | _, _ => none

/-- `valuestring`, with `none` for NULL. -/
def valuestring : Json → Option Bytes
  | string s => some (cstr s)
  | _ => none

/-- `valueint`. -/
def valueint : Json → Int
  | bool true => 1
  | number i => i
  | _ => 0

/-- The items, of what `cJSON_IsArray` holds of. -/
def items? : Json → Option (List Json)
  | array items => some items
  | _ => none

/-- `valuestring` of a field, if the field is there and `cJSON_IsString` holds of it. -/
def getString (json : Json) (name : Bytes) : Option Bytes :=
  (json.getObjectItem name).bind valuestring

/-! ## Flat objects -/

/-- As much of a value as the readers of a mail look at. -/
def toValue : Json → CJson.Value
  | string s => .string (cstr s)
  | json => .number json.valueint json.valueint

/-- The members of an object, each cut down so. -/
def flat : Json → CJson.Object
  | object members => members.map fun m => ⟨cstr m.1, m.2.toValue⟩
  | _ => []

theorem valuestring_toValue (json : Json) (name : Bytes) :
    CJson.Item.valuestring ⟨name, json.toValue⟩ = json.valuestring := by
  cases json <;> rfl

theorem valueint_toValue (json : Json) (name : Bytes) :
    CJson.Item.valueint ⟨name, json.toValue⟩ = json.valueint := by
  cases json <;> rfl

/-- Looking up a name in a value is looking it up in its flat object. -/
theorem getObjectItem_flat (json : Json) (name : Bytes) :
    (json.getObjectItem name).map toValue =
      (CJson.getObjectItem json.flat name).map CJson.Item.value := by
  cases json with
  | object members =>
    change ((members.find? _).map (·.2)).map toValue =
      ((members.map _).find? _).map CJson.Item.value
    rw [List.find?_map, Option.map_map, Option.map_map]
    rfl
  | _ => rfl

/-- A field that is there is there in the flat object, and reads the same. -/
theorem lookup_flat (json : Json) (name : Bytes) :
    (json.getObjectItem name = none ∧ CJson.getObjectItem json.flat name = none) ∨
      ∃ item item', json.getObjectItem name = some item ∧
        CJson.getObjectItem json.flat name = some item' ∧
        item'.valuestring = item.valuestring ∧ item'.valueint = item.valueint := by
  have same := json.getObjectItem_flat name
  cases here : json.getObjectItem name with
  | none =>
    rw [here] at same
    exact .inl ⟨rfl, Option.map_eq_none_iff.mp same.symm⟩
  | some item =>
    rw [here] at same
    obtain ⟨found, lookup, value⟩ := Option.map_eq_some_iff.mp same.symm
    refine .inr ⟨item, found, rfl, lookup, ?_, ?_⟩
    · rw [← item.valuestring_toValue found.string, ← value]
    · rw [← item.valueint_toValue found.string, ← value]

theorem valuestring_flat (json : Json) (name : Bytes) :
    (CJson.getObjectItem json.flat name).map CJson.Item.valuestring =
      (json.getObjectItem name).map valuestring := by
  rcases json.lookup_flat name with ⟨here, lookup⟩ | ⟨item, item', here, lookup, text, -⟩
  · rw [here, lookup]
    rfl
  · rw [here, lookup, Option.map_some, Option.map_some, text]

theorem valueint_flat (json : Json) (name : Bytes) :
    (CJson.getObjectItem json.flat name).map CJson.Item.valueint =
      (json.getObjectItem name).map valueint := by
  rcases json.lookup_flat name with ⟨here, lookup⟩ | ⟨item, item', here, lookup, -, number⟩
  · rw [here, lookup]
    rfl
  · rw [here, lookup, Option.map_some, Option.map_some, number]

theorem getString_flat (json : Json) (name : Bytes) :
    CJson.getString json.flat name = json.getString name := by
  unfold CJson.getString getString
  rcases json.lookup_flat name with ⟨here, lookup⟩ | ⟨item, item', here, lookup, text, -⟩
  · rw [here, lookup]
    rfl
  · rw [here, lookup, Option.bind_some, Option.bind_some, text]

end Json

end Shyake.Client
