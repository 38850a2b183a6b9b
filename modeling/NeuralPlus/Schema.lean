import NeuralPlus.Types

/-!
# The portable JSON Schema subset

The two recursions of `client.cpp`: `validateSchemaDefinition` checks a schema
when a client is constructed, `validateValueAgainstSchema` checks the arguments
of a call against it and returns a text that is empty when they conform. The
second reads the schema with typed accesses that only the first makes safe.
-/

namespace NeuralPlus

open Fallible

/-! ## Checking a schema -/

def supportedTypes : List String := ["object", "array", "string", "number", "integer", "boolean", "null"]

def checkSchemaType (schema : JsonValue) (location : String) : Except Exc Unit :=
  match schema.find? "type" with
  | none => .ok ()
  | some (.string t) => throwIf (t ∉ supportedTypes) (.configuration (location ++ ".type is not supported"))
  | some _ => .error (.configuration (location ++ ".type must be a string"))

def checkSchemaRequired (schema : JsonValue) (location : String) : Except Exc Unit :=
  match schema.find? "required" with
  | none => .ok ()
  | some (.array keys) =>
    throwIf (keys.any fun key => match key with | .string s => s = "" | _ => true)
      (.configuration (location ++ ".required entries must be non-empty strings"))
  | some _ => .error (.configuration (location ++ ".required must be an array"))

def checkSchemaEnum (schema : JsonValue) (location : String) : Except Exc Unit :=
  match schema.find? "enum" with
  | none | some (.array _) => .ok ()
  | some _ => .error (.configuration (location ++ ".enum must be an array"))

theorem sizeOf_member {j : JsonValue} {key k : String} {m : List (String × JsonValue)} {v : JsonValue}
    (h : j.find? key = some (.object m)) (hm : (k, v) ∈ m) : sizeOf v < sizeOf j := by
  have h₁ := JsonValue.sizeOf_find? h
  have h₂ := List.sizeOf_lt_of_mem hm
  simp only [Prod.mk.sizeOf_spec, JsonValue.object.sizeOf_spec] at h₁ h₂
  omega

def validateSchemaDefinition (schema : JsonValue) (location : String) : Except Exc Unit := do
  throwIf (schema.isObject = false) (.configuration (location ++ " must be a JSON object"))
  checkSchemaType schema location
  (match _hp : schema.find? "properties" with
  | none => .ok ()
  | some (.object m) =>
    m.attach.forM fun p => validateSchemaDefinition p.1.2 (location ++ ".properties." ++ p.1.1)
  | some _ => .error (.configuration (location ++ ".properties must be an object")))
  checkSchemaRequired schema location
  (match _hi : schema.find? "items" with
  | none => .ok ()
  | some items => validateSchemaDefinition items (location ++ ".items"))
  (match _ha : schema.find? "additionalProperties" with
  | none | some (.boolean _) => .ok ()
  | some (.object m) => validateSchemaDefinition (.object m) (location ++ ".additionalProperties")
  | some _ => .error (.configuration (location ++ ".additionalProperties must be a boolean or object")))
  checkSchemaEnum schema location
termination_by sizeOf schema
decreasing_by
  · exact sizeOf_member _hp p.2
  · exact JsonValue.sizeOf_find? _hi
  · exact JsonValue.sizeOf_find? _ha

/-! ## Checking a value -/

def valueHasType (value : JsonValue) (type : String) : Bool :=
  if type = "object" then value.isObject
  else if type = "array" then value.isArray
  else if type = "string" then value.isString
  else if type = "number" then value.isNumber
  else if type = "integer" then value.isNumberInteger || value.isNumberUnsigned
  else if type = "boolean" then value.isBoolean
  else if type = "null" then value.isNull
  else false

/-- Return the error of `x` if there is one, go on with `rest` otherwise. -/
def orReturn (x rest : Except Exc String) : Except Exc String := do
  let error ← x
  if error ≠ "" then return error else rest

def firstError {α : Type} (f : α → Except Exc String) : List α → Except Exc String
  | [] => .ok ""
  | a :: l => orReturn (f a) (firstError f l)

def checkValueType (value schema : JsonValue) (path : String) : Except Exc String :=
  match schema.find? "type" with
  | none => .ok ""
  | some type => do
    let expected ← type.getString
    return if valueHasType value expected then "" else path ++ " must be " ++ expected

def checkValueEnum (value schema : JsonValue) (path : String) : Except Exc String :=
  match schema.find? "enum" with
  | none => .ok ""
  | some enumeration => do
    let allowed ← enumeration.getArray
    return if allowed.any fun x => x.eq value then "" else path ++ " is not one of the allowed enum values"

def checkValueRequired (value schema : JsonValue) (path : String) : Except Exc String :=
  match schema.find? "required" with
  | none => .ok ""
  | some required => do
    let names ← required.getArray
    firstError (fun requiredName => do
      let name ← requiredName.getString
      return if value.contains name then "" else path ++ "." ++ name ++ " is required") names

def declaredMember (schema : JsonValue) (key : String) : Bool :=
  match schema.find? "properties" with
  | none => false
  | some properties => properties.contains key

abbrev Recur (schema : JsonValue) : Type :=
  (sub : JsonValue) → sizeOf sub < sizeOf schema → JsonValue → String → Except Exc String

def checkValueProperties (value schema : JsonValue) (path : String) (validate : Recur schema) : Except Exc String :=
  match hp : schema.find? "properties" with
  | none => .ok ""
  | some (.object properties) =>
    firstError (fun p : { p // p ∈ properties } =>
      match value.find? p.1.1 with
      | none => .ok ""
      | some argument => validate p.1.2 (sizeOf_member hp p.2) argument (path ++ "." ++ p.1.1)) properties.attach
  | some _ => .error (.jsonType "type must be object")

def checkValueAdditional (members : List (String × JsonValue)) (schema : JsonValue) (path : String)
    (validate : Recur schema) : Except Exc String :=
  match ha : schema.find? "additionalProperties" with
  | none => .ok ""
  | some additional =>
    firstError (fun p =>
      if declaredMember schema p.1 then .ok ""
      else if additional = .boolean false then .ok (path ++ "." ++ p.1 ++ " is not allowed")
      else if additional.isObject then
        validate additional (JsonValue.sizeOf_find? ha) p.2 (path ++ "." ++ p.1)
      else .ok "") members

def checkValueItems (elements : List JsonValue) (schema : JsonValue) (path : String) (validate : Recur schema) :
    Except Exc String :=
  match hi : schema.find? "items" with
  | none => .ok ""
  | some items =>
    firstError (fun p => validate items (JsonValue.sizeOf_find? hi) p.1 (path ++ "[" ++ toString p.2 ++ "]"))
      elements.zipIdx

def validateValueAgainstSchema (value schema : JsonValue) (path : String) : Except Exc String :=
  orReturn (checkValueType value schema path) <|
  orReturn (checkValueEnum value schema path) <|
  match value with
  | .object members =>
    orReturn (checkValueRequired value schema path) <|
    orReturn (checkValueProperties value schema path fun sub _ x p => validateValueAgainstSchema x sub p) <|
    checkValueAdditional members schema path fun sub _ x p => validateValueAgainstSchema x sub p
  | .array elements => checkValueItems elements schema path fun sub _ x p => validateValueAgainstSchema x sub p
  | _ => .ok ""
termination_by sizeOf schema

example : validateValueAgainstSchema (.ofMembers [("x", .string "a")])
    (.ofMembers [("type", .string "object"),
      ("properties", .ofMembers [("x", .ofMembers [("type", .string "integer")])])]) "$" =
    .ok "$.x must be integer" := by decide +kernel

end NeuralPlus
