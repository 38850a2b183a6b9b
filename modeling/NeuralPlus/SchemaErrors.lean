import NeuralPlus.SchemaSound

/-!
# Where a schema error points

The text the evaluator returns starts with a path. The path leads from the
checked value to a member or an element of it, which breaks one keyword of the
part of the schema that applies there, and the rest of the text says which.
-/

namespace NeuralPlus

open Fallible

/-! ## Paths into a value -/

inductive PathStep where
  | member (name : String)
  | element (index : Nat)

def PathStep.text : PathStep → String
  | member name => "." ++ name
  | element index => "[" ++ toString index ++ "]"

def renderPath (path : String) (steps : List PathStep) : String :=
  steps.foldl (fun path step => path ++ step.text) path

theorem append_member (path name : String) : path ++ "." ++ name = path ++ (PathStep.member name).text :=
  String.append_assoc

theorem append_element (path : String) (index : Nat) :
    path ++ "[" ++ toString index ++ "]" = path ++ (PathStep.element index).text := by
  unfold PathStep.text
  simp only [String.append_assoc]

/-- The part of the schema that applies to the value the steps lead to. -/
inductive Governs : JsonValue → JsonValue → List PathStep → JsonValue → JsonValue → Prop
  | here (value schema : JsonValue) : Governs value schema [] value schema
  | property {value schema sub x value' schema' : JsonValue} {properties : List (String × JsonValue)} {key : String}
      {steps : List PathStep} : value.isObject = true → schema.find? "properties" = some (.object properties) →
      (key, sub) ∈ properties → value.find? key = some x → Governs x sub steps value' schema' →
      Governs value schema (.member key :: steps) value' schema'
  | additional {value schema sub x value' schema' : JsonValue} {members : List (String × JsonValue)} {key : String}
      {steps : List PathStep} : value = .object members → schema.find? "additionalProperties" = some sub →
      sub.isObject = true → declaredMember schema key = false → (key, x) ∈ members → Governs x sub steps value' schema' →
      Governs value schema (.member key :: steps) value' schema'
  | item {value schema sub x value' schema' : JsonValue} {elements : List JsonValue} {index : Nat}
      {steps : List PathStep} : value = .array elements → schema.find? "items" = some sub → elements[index]? = some x →
      Governs x sub steps value' schema' → Governs value schema (.element index :: steps) value' schema'

/-- A keyword of the schema that the value breaks by itself, and what the text says about it. -/
inductive Breaks (value schema : JsonValue) : String → Prop
  | type {type : String} : schema.find? "type" = some (.string type) → valueHasType value type = false →
      Breaks value schema (" must be " ++ type)
  | enumeration {allowed : List JsonValue} : schema.find? "enum" = some (.array allowed) →
      (∀ x ∈ allowed, x.eq value = false) → Breaks value schema " is not one of the allowed enum values"
  | required {names : List JsonValue} {name : String} : value.isObject = true →
      schema.find? "required" = some (.array names) → .string name ∈ names → value.contains name = false →
      Breaks value schema ("." ++ name ++ " is required")
  | closed {members : List (String × JsonValue)} {key : String} {x : JsonValue} : value = .object members →
      schema.find? "additionalProperties" = some (.boolean false) → (key, x) ∈ members →
      declaredMember schema key = false → Breaks value schema ("." ++ key ++ " is not allowed")

def FaultAt (value schema : JsonValue) (steps : List PathStep) (text : String) : Prop :=
  ∃ value' schema', Governs value schema steps value' schema' ∧ Breaks value' schema' text

theorem FaultAt.of_breaks {value schema : JsonValue} {text : String} (h : Breaks value schema text) :
    FaultAt value schema [] text :=
  ⟨value, schema, .here value schema, h⟩

/-! ## An error has a fault -/

theorem orReturn_spoken {x rest : Except Exc String} {error : String} (h : orReturn x rest = .ok error) :
    x = .ok error ∨ rest = .ok error := by
  unfold orReturn at h
  obtain ⟨first, hx, h⟩ := bind_eq_ok.mp h
  by_cases hf : first = ""
  · rw [if_neg (not_not.mpr hf)] at h
    exact .inr h
  · rw [if_pos hf] at h
    exact .inl (hx.trans h)

theorem firstError_spoken {α : Type} {f : α → Except Exc String} {error : String} (he : error ≠ "") :
    ∀ {l : List α}, firstError f l = .ok error → ∃ a ∈ l, f a = .ok error
  | [], h => absurd (Except.ok.inj h).symm he
  | a :: l, h => by
    rcases orReturn_spoken h with h | h
    · exact ⟨a, List.mem_cons_self, h⟩
    · obtain ⟨b, hb, hf⟩ := firstError_spoken he h
      exact ⟨b, List.mem_cons_of_mem _ hb, hf⟩

section
variable {value schema : JsonValue} {path error : String}

theorem checkValueType_breaks (h : checkValueType value schema path = .ok error) (he : error ≠ "") :
    ∃ text, Breaks value schema text ∧ error = path ++ text := by
  unfold checkValueType at h
  cases ht : schema.find? "type" with
  | none =>
    rw [ht] at h
    exact absurd (Except.ok.inj h).symm he
  | some type =>
    simp only [ht, bind_eq_ok] at h
    obtain ⟨expected, hexpected, h⟩ := h
    cases type with
    | string s =>
      obtain rfl : s = expected := Except.ok.inj hexpected
      by_cases hv : valueHasType value s = true
      · rw [if_pos hv] at h
        exact absurd (Except.ok.inj h).symm he
      · rw [if_neg hv] at h
        refine ⟨_, .type ht (by simpa using hv), ?_⟩
        rw [← Except.ok.inj h, String.append_assoc]
    | _ => cases hexpected

theorem checkValueEnum_breaks (h : checkValueEnum value schema path = .ok error) (he : error ≠ "") :
    ∃ text, Breaks value schema text ∧ error = path ++ text := by
  unfold checkValueEnum at h
  cases henum : schema.find? "enum" with
  | none =>
    rw [henum] at h
    exact absurd (Except.ok.inj h).symm he
  | some enumeration =>
    simp only [henum, bind_eq_ok] at h
    obtain ⟨allowed, hallowed, h⟩ := h
    cases enumeration with
    | array xs =>
      obtain rfl : xs = allowed := Except.ok.inj hallowed
      by_cases hx : (xs.any fun x => x.eq value) = true
      · rw [if_pos hx] at h
        exact absurd (Except.ok.inj h).symm he
      · rw [if_neg hx] at h
        exact ⟨_, .enumeration henum (by simpa using hx), (Except.ok.inj h).symm⟩
    | _ => cases hallowed

theorem checkValueRequired_breaks (hobject : value.isObject = true)
    (h : checkValueRequired value schema path = .ok error) (he : error ≠ "") :
    ∃ text, Breaks value schema text ∧ error = path ++ text := by
  unfold checkValueRequired at h
  cases hr : schema.find? "required" with
  | none =>
    rw [hr] at h
    exact absurd (Except.ok.inj h).symm he
  | some required =>
    simp only [hr, bind_eq_ok] at h
    obtain ⟨names, hnames, h⟩ := h
    cases required with
    | array xs =>
      obtain rfl : xs = names := Except.ok.inj hnames
      obtain ⟨requiredName, hmem, h⟩ := firstError_spoken he h
      obtain ⟨name, hname, h⟩ := bind_eq_ok.mp h
      cases requiredName with
      | string s =>
        obtain rfl : s = name := Except.ok.inj hname
        by_cases hc : value.contains s = true
        · rw [if_pos hc] at h
          exact absurd (Except.ok.inj h).symm he
        · rw [if_neg hc] at h
          refine ⟨_, .required hobject hr hmem (by simpa using hc), ?_⟩
          rw [← Except.ok.inj h]
          simp only [String.append_assoc]
      | _ => cases hname
    | _ => cases hnames

variable {validate : Recur schema}
  (hvalidate : ∀ sub hlt x p e, validate sub hlt x p = .ok e → e ≠ "" →
    ∃ steps text, FaultAt x sub steps text ∧ e = renderPath p steps ++ text)

include hvalidate

theorem checkValueProperties_faultAt (hobject : value.isObject = true)
    (h : checkValueProperties value schema path validate = .ok error) (he : error ≠ "") :
    ∃ steps text, FaultAt value schema steps text ∧ error = renderPath path steps ++ text := by
  unfold checkValueProperties at h
  split at h
  · exact absurd (Except.ok.inj h).symm he
  · next properties hp =>
    obtain ⟨p, _, h⟩ := firstError_spoken he h
    split at h
    · exact absurd (Except.ok.inj h).symm he
    · next argument hargument =>
      obtain ⟨steps, text, ⟨value', schema', hgoverns, hbreaks⟩, herror⟩ := hvalidate _ _ _ _ _ h he
      refine ⟨.member p.1.1 :: steps, text, ⟨value', schema', ?_, hbreaks⟩, ?_⟩
      · exact .property hobject hp p.2 hargument hgoverns
      · rw [herror, append_member]
        rfl
  · cases h

theorem checkValueAdditional_faultAt {members : List (String × JsonValue)} (hmembers : value = .object members)
    (h : checkValueAdditional members schema path validate = .ok error) (he : error ≠ "") :
    ∃ steps text, FaultAt value schema steps text ∧ error = renderPath path steps ++ text := by
  unfold checkValueAdditional at h
  split at h
  · exact absurd (Except.ok.inj h).symm he
  · next additional ha =>
    obtain ⟨p, hp, h⟩ := firstError_spoken he h
    by_cases hdeclared : declaredMember schema p.1 = true
    · rw [if_pos hdeclared] at h
      exact absurd (Except.ok.inj h).symm he
    rw [if_neg hdeclared] at h
    rw [Bool.not_eq_true] at hdeclared
    by_cases hfalse : additional = .boolean false
    · rw [if_pos hfalse] at h
      refine ⟨[], _, .of_breaks (.closed hmembers (hfalse ▸ ha) hp hdeclared), ?_⟩
      rw [← Except.ok.inj h, renderPath, List.foldl_nil]
      simp only [String.append_assoc]
    rw [if_neg hfalse] at h
    by_cases hobject : additional.isObject = true
    · rw [if_pos hobject] at h
      obtain ⟨steps, text, ⟨value', schema', hgoverns, hbreaks⟩, herror⟩ := hvalidate _ _ _ _ _ h he
      refine ⟨.member p.1 :: steps, text, ⟨value', schema', ?_, hbreaks⟩, ?_⟩
      · exact .additional hmembers ha hobject hdeclared hp hgoverns
      · rw [herror, append_member]
        rfl
    · rw [if_neg hobject] at h
      exact absurd (Except.ok.inj h).symm he

theorem checkValueItems_faultAt {elements : List JsonValue} (helements : value = .array elements)
    (h : checkValueItems elements schema path validate = .ok error) (he : error ≠ "") :
    ∃ steps text, FaultAt value schema steps text ∧ error = renderPath path steps ++ text := by
  unfold checkValueItems at h
  split at h
  · exact absurd (Except.ok.inj h).symm he
  · next items hi =>
    obtain ⟨p, hp, h⟩ := firstError_spoken he h
    obtain ⟨steps, text, ⟨value', schema', hgoverns, hbreaks⟩, herror⟩ := hvalidate _ _ _ _ _ h he
    refine ⟨.element p.2 :: steps, text, ⟨value', schema', ?_, hbreaks⟩, ?_⟩
    · exact .item helements hi (List.mem_zipIdx_iff_getElem?.mp hp) hgoverns
    · rw [herror, append_element]
      rfl

end

theorem validateValue_faultAt : ∀ (schema value : JsonValue) (path error : String),
    validateValueAgainstSchema value schema path = .ok error → error ≠ "" →
      ∃ steps text, FaultAt value schema steps text ∧ error = renderPath path steps ++ text
  | schema, value, path, error, h, he => by
    have hrecur : ∀ (sub : JsonValue) (_ : sizeOf sub < sizeOf schema) (x : JsonValue) (p e : String),
        validateValueAgainstSchema x sub p = .ok e → e ≠ "" →
          ∃ steps text, FaultAt x sub steps text ∧ e = renderPath p steps ++ text :=
      fun sub _ x p e => validateValue_faultAt sub x p e
    have hhere : ∀ text, Breaks value schema text → error = path ++ text →
        ∃ steps text, FaultAt value schema steps text ∧ error = renderPath path steps ++ text :=
      fun text hbreaks herror => ⟨[], text, .of_breaks hbreaks, herror⟩
    rw [validateValueAgainstSchema.eq_def] at h
    rcases orReturn_spoken h with h | h
    · obtain ⟨text, hbreaks, herror⟩ := checkValueType_breaks h he
      exact hhere text hbreaks herror
    rcases orReturn_spoken h with h | h
    · obtain ⟨text, hbreaks, herror⟩ := checkValueEnum_breaks h he
      exact hhere text hbreaks herror
    split at h
    · next members =>
      rcases orReturn_spoken h with h | h
      · obtain ⟨text, hbreaks, herror⟩ := checkValueRequired_breaks rfl h he
        exact hhere text hbreaks herror
      rcases orReturn_spoken h with h | h
      · exact checkValueProperties_faultAt (fun sub hlt x p e => hrecur sub hlt x p e) rfl h he
      · exact checkValueAdditional_faultAt (fun sub hlt x p e => hrecur sub hlt x p e) rfl h he
    · exact checkValueItems_faultAt (fun sub hlt x p e => hrecur sub hlt x p e) rfl h he
    · exact absurd (Except.ok.inj h).symm he
termination_by schema => sizeOf schema

/-! ## A fault has an error -/

theorem Conforms.not_faultAt {value schema : JsonValue} (h : Conforms value schema) {steps : List PathStep}
    {text : String} : ¬ FaultAt value schema steps text := by
  rintro ⟨value', schema', hgoverns, hbreaks⟩
  induction hgoverns with
  | here value schema =>
    obtain ⟨type, enumeration, required, _, closed, _, _⟩ := h
    cases hbreaks with
    | type ht hv =>
      rw [valueHasType_iff.mpr (type _ ht)] at hv
      cases hv
    | enumeration he hall =>
      obtain ⟨x, hx, heq⟩ := enumeration _ he
      rw [hall x hx] at heq
      cases heq
    | required hobject hr hmem hc =>
      cases value with
      | object m =>
        rw [required m _ _ rfl hr hmem] at hc
        cases hc
      | _ => cases hobject
    | closed hmembers ha hmem hd =>
      rw [(closed _ _ _ hmembers ha hmem).declared] at hd
      cases hd
  | @property value schema _ _ _ _ _ _ _ hobject hp hmem hfind _ ih =>
    obtain ⟨_, _, _, properties, _, _, _⟩ := h
    cases value with
    | object m => exact ih (properties m _ _ _ _ rfl hp hmem hfind) hbreaks
    | _ => cases hobject
  | additional hmembers ha hobject hd hmem _ ih =>
    obtain ⟨_, _, _, _, _, additional, _⟩ := h
    refine ih (additional _ _ _ _ hmembers ha hobject hmem ?_) hbreaks
    intro hproperty
    rw [hproperty.declared] at hd
    cases hd
  | item helements hi hget _ ih =>
    obtain ⟨_, _, _, _, _, _, items⟩ := h
    exact ih (items _ _ _ helements hi (List.mem_of_getElem? hget)) hbreaks

/-- **The path of an error leads to a fault**: on a validated schema the evaluator returns the empty text if the value
has no fault, and otherwise the path to one and what is wrong there. -/
theorem validated_schema_locates {schema : JsonValue} {location : String}
    (h : validateSchemaDefinition schema location = .ok ()) (value : JsonValue) (path : String) :
    (validateValueAgainstSchema value schema path = .ok "" ∧ ∀ steps text, ¬ FaultAt value schema steps text) ∨
    ∃ steps text, FaultAt value schema steps text ∧
      validateValueAgainstSchema value schema path = .ok (renderPath path steps ++ text) := by
  obtain ⟨⟨error, herror⟩, hconforms⟩ := validateValue_sound (definable_of_validated _ _ h) value path
  by_cases he : error = ""
  · rw [he] at herror
    exact .inl ⟨herror, fun _ _ => (hconforms.mp herror).not_faultAt⟩
  · obtain ⟨steps, text, hfault, heq⟩ := validateValue_faultAt schema value path error herror he
    exact .inr ⟨steps, text, hfault, heq ▸ herror⟩

def nestedSchema : JsonValue :=
  .ofMembers [("type", .string "object"), ("properties", .ofMembers [("sizes", .ofMembers [("items", .ofMembers
    [("type", .string "integer")])])])]

def nestedValue : JsonValue := .ofMembers [("sizes", .array [.unsigned 1, .string "2"])]

theorem validated_schema_locates_nested :
    validateValueAgainstSchema nestedValue nestedSchema "$" = .ok "$.sizes[1] must be integer" ∧
    ((validateValueAgainstSchema nestedValue nestedSchema "$" = .ok "" ∧
        ∀ steps text, ¬ FaultAt nestedValue nestedSchema steps text) ∨
      ∃ steps text, FaultAt nestedValue nestedSchema steps text ∧
        validateValueAgainstSchema nestedValue nestedSchema "$" = .ok (renderPath "$" steps ++ text)) := by
  have h : validateSchemaDefinition nestedSchema "tool 'resize' input_schema" = .ok () := by decide +kernel
  exact ⟨by decide +kernel, validated_schema_locates h nestedValue "$"⟩

end NeuralPlus
