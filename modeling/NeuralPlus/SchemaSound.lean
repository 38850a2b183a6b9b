import NeuralPlus.Schema

/-!
# The schema evaluator against the meaning of a schema

`Conforms` says what the portable subset of JSON Schema means. On a schema
that passed its definition check the evaluator makes no wrong typed access,
and returns the empty text exactly on the values that conform.
-/

namespace NeuralPlus

open Fallible

/-- What the definition check promises of a schema, at every depth the
evaluator can reach. -/
inductive Definable : JsonValue → Prop
  | mk {schema : JsonValue} (isObject : schema.isObject = true)
      (type : ∀ t, schema.find? "type" = some t → ∃ s ∈ supportedTypes, t = .string s)
      (propertiesKind : ∀ p, schema.find? "properties" = some p → p.isObject = true)
      (properties : ∀ m k v, schema.find? "properties" = some (.object m) → (k, v) ∈ m → Definable v)
      (required : ∀ r, schema.find? "required" = some r →
        ∃ ks, r = .array ks ∧ ∀ x ∈ ks, ∃ s, s ≠ "" ∧ x = .string s)
      (items : ∀ i, schema.find? "items" = some i → Definable i)
      (additionalKind : ∀ a, schema.find? "additionalProperties" = some a →
        a.isBoolean = true ∨ a.isObject = true)
      (additional : ∀ a, schema.find? "additionalProperties" = some a → a.isObject = true → Definable a)
      (enumeration : ∀ e, schema.find? "enum" = some e → e.isArray = true) : Definable schema

/-- The values of each schema type. An integer is a number that the library keeps as one. -/
inductive OfType : String → JsonValue → Prop
  | object (m : List (String × JsonValue)) : OfType "object" (.object m)
  | array (xs : List JsonValue) : OfType "array" (.array xs)
  | string (s : String) : OfType "string" (.string s)
  | boolean (b : Bool) : OfType "boolean" (.boolean b)
  | null : OfType "null" .null
  | integer (i : Int64) : OfType "integer" (.integer i)
  | unsigned (u : UInt64) : OfType "integer" (.unsigned u)
  | integerNumber (i : Int64) : OfType "number" (.integer i)
  | unsignedNumber (u : UInt64) : OfType "number" (.unsigned u)
  | float (d : Double) : OfType "number" (.float d)

def IsProperty (schema : JsonValue) (key : String) : Prop :=
  ∃ m sub, schema.find? "properties" = some (.object m) ∧ (key, sub) ∈ m

/-- The value conforms to the schema. Every keyword counts, whether or not
`type` is there. -/
inductive Conforms : JsonValue → JsonValue → Prop
  | mk {value schema : JsonValue}
      (type : ∀ t, schema.find? "type" = some (.string t) → OfType t value)
      (enumeration : ∀ xs, schema.find? "enum" = some (.array xs) → ∃ x ∈ xs, x.eq value = true)
      (required : ∀ m ks name, value = .object m → schema.find? "required" = some (.array ks) →
        .string name ∈ ks → value.contains name = true)
      (properties : ∀ m ps k sub x, value = .object m → schema.find? "properties" = some (.object ps) →
        (k, sub) ∈ ps → value.find? k = some x → Conforms x sub)
      (closed : ∀ m k x, value = .object m → schema.find? "additionalProperties" = some (.boolean false) →
        (k, x) ∈ m → IsProperty schema k)
      (additional : ∀ m a k x, value = .object m → schema.find? "additionalProperties" = some a →
        a.isObject = true → (k, x) ∈ m → ¬ IsProperty schema k → Conforms x a)
      (items : ∀ xs i x, value = .array xs → schema.find? "items" = some i → x ∈ xs → Conforms x i) :
      Conforms value schema

theorem valueHasType_iff {value : JsonValue} {type : String} : valueHasType value type = true ↔ OfType type value := by
  constructor
  · intro h
    unfold valueHasType at h
    split_ifs at h
    all_goals subst_vars; cases value <;> first | constructor | cases h
  · intro h
    cases h <;> rfl

theorem declaredMember_object {schema : JsonValue} {key : String} {m : List (String × JsonValue)}
    (h : schema.find? "properties" = some (.object m)) : declaredMember schema key = true ↔ IsProperty schema key := by
  unfold declaredMember IsProperty
  rw [h]
  show (OrdMap.find? key m).isSome = true ↔ _
  rw [OrdMap.find?_isSome_iff]
  simp

theorem IsProperty.declared {schema : JsonValue} {key : String} (h : IsProperty schema key) :
    declaredMember schema key = true := by
  obtain ⟨m, _, hm, _⟩ := id h
  exact (declaredMember_object hm).mpr h

theorem declaredMember_iff {schema : JsonValue} {key : String}
    (hk : ∀ p, schema.find? "properties" = some p → p.isObject = true) :
    declaredMember schema key = true ↔ IsProperty schema key := by
  refine ⟨fun h => ?_, IsProperty.declared⟩
  cases hp : schema.find? "properties" with
  | none => simp [declaredMember, hp] at h
  | some p =>
    have hobj := hk p hp
    cases p with
    | object m => exact (declaredMember_object hp).mp h
    | _ => cases hobj

/-! ## The definition check -/

theorem checkSchemaType_ok {schema : JsonValue} {loc : String} (h : checkSchemaType schema loc = .ok ()) :
    ∀ t, schema.find? "type" = some t → ∃ s ∈ supportedTypes, t = .string s := by
  intro t ht
  unfold checkSchemaType at h
  rw [ht] at h
  cases t with
  | string s => exact ⟨s, by simpa using h, rfl⟩
  | _ => cases h

theorem checkSchemaRequired_ok {schema : JsonValue} {loc : String} (h : checkSchemaRequired schema loc = .ok ()) :
    ∀ r, schema.find? "required" = some r → ∃ ks, r = .array ks ∧ ∀ x ∈ ks, ∃ s, s ≠ "" ∧ x = .string s := by
  intro r hr
  unfold checkSchemaRequired at h
  rw [hr] at h
  cases r with
  | array ks =>
    refine ⟨ks, rfl, ?_⟩
    intro x hx
    simp only [throwIf_eq_ok, List.any_eq_true, not_exists, not_and] at h
    have := h x hx
    cases x with
    | string s => exact ⟨s, by simpa using this, rfl⟩
    | _ => exact absurd rfl this
  | _ => cases h

theorem checkSchemaEnum_ok {schema : JsonValue} {loc : String} (h : checkSchemaEnum schema loc = .ok ()) :
    ∀ e, schema.find? "enum" = some e → e.isArray = true := by
  intro e he
  simp only [checkSchemaEnum, he] at h
  cases e with
  | array xs => rfl
  | _ => cases h

theorem definable_of_validated : ∀ (schema : JsonValue) (loc : String),
    validateSchemaDefinition schema loc = .ok () → Definable schema
  | schema, loc, h => by
    rw [validateSchemaDefinition] at h
    simp only [bind_eq_ok, throwIf_eq_ok] at h
    obtain ⟨_, hobj, _, htype, _, hprops, _, hreq, _, hitems, _, hadd, henum⟩ := h
    have hproperties : ∀ p, schema.find? "properties" = some p →
        ∃ m, p = .object m ∧ ∀ k v, (k, v) ∈ m → Definable v := by
      intro p hp
      split at hprops
      · next hn => rw [hn] at hp; cases hp
      · next m hm =>
        rw [hm] at hp
        cases hp
        refine ⟨m, rfl, ?_⟩
        intro k v hk
        exact definable_of_validated v _ (forM_eq_ok.mp hprops ⟨(k, v), hk⟩ (List.mem_attach ..))
      · cases hprops
    have hadditional : ∀ a, schema.find? "additionalProperties" = some a →
        (∃ b, a = .boolean b) ∨ a.isObject = true ∧ Definable a := by
      intro a ha
      split at hadd
      · next hn => rw [hn] at ha; cases ha
      · next hb => rw [hb] at ha; cases ha; exact .inl ⟨_, rfl⟩
      · next hm =>
        rw [hm] at ha
        cases ha
        exact .inr ⟨rfl, definable_of_validated _ _ hadd⟩
      · cases hadd
    refine .mk ?_ (checkSchemaType_ok htype) ?_ ?_ (checkSchemaRequired_ok hreq) ?_ ?_ ?_ (checkSchemaEnum_ok henum)
    · simpa using hobj
    · intro p hp
      obtain ⟨m, rfl, _⟩ := hproperties p hp
      rfl
    · intro m k v hm hk
      obtain ⟨m', hm', hall⟩ := hproperties _ hm
      cases hm'
      exact hall k v hk
    · intro i hi
      split at hitems
      · next hn => rw [hn] at hi; cases hi
      · next i' hi' =>
        rw [hi'] at hi
        cases hi
        exact definable_of_validated _ _ hitems
    · intro a ha
      obtain ⟨b, rfl⟩ | ⟨hobject, _⟩ := hadditional a ha
      · exact .inl rfl
      · exact .inr hobject
    · intro a ha hobject
      obtain ⟨b, rfl⟩ | ⟨_, hd⟩ := hadditional a ha
      · cases hobject
      · exact hd
termination_by schema => sizeOf schema
decreasing_by
  · exact sizeOf_member ‹_› hk
  · exact JsonValue.sizeOf_find? ‹_›
  · exact JsonValue.sizeOf_find? ‹_›

/-! ## Loops that return the first error -/

theorem orReturn_total {x y : Except Exc String} (hx : Returns x) (hy : Returns y) : Returns (orReturn x y) := by
  obtain ⟨e, rfl⟩ := hx
  unfold orReturn
  by_cases he : e = ""
  · simpa [he] using hy
  · exact ⟨e, by simp [he]⟩

theorem orReturn_silent {x y : Except Exc String} : orReturn x y = .ok "" ↔ x = .ok "" ∧ y = .ok "" := by
  cases x with
  | error e => simp [orReturn]
  | ok e => by_cases he : e = "" <;> simp [orReturn, he]

theorem firstError_total {α : Type} {f : α → Except Exc String} {l : List α} (h : ∀ a ∈ l, Returns (f a)) :
    Returns (firstError f l) := by
  induction l with
  | nil => exact returns_ok ""
  | cons a l ih =>
    rw [List.forall_mem_cons] at h
    exact orReturn_total h.1 (ih h.2)

theorem firstError_silent {α : Type} {f : α → Except Exc String} {l : List α} :
    firstError f l = .ok "" ↔ ∀ a ∈ l, f a = .ok "" := by
  induction l with
  | nil => simp [firstError]
  | cons a l ih => rw [firstError, orReturn_silent, List.forall_mem_cons, ih]

/-! ## The keywords one by one -/

theorem append_ne_empty {s t : String} (h : t ≠ "") : s ++ t ≠ "" := by
  intro he
  have := congrArg String.length he
  rw [String.length_append] at this
  exact h (String.length_eq_zero_iff.mp (by simpa using Nat.eq_zero_of_add_eq_zero_left this))

section
variable (value : JsonValue) {schema : JsonValue} (path : String)

theorem checkValueType_sound (hs : ∀ t, schema.find? "type" = some t → ∃ s ∈ supportedTypes, t = .string s) :
    Returns (checkValueType value schema path) ∧
      (checkValueType value schema path = .ok "" ↔
        ∀ t, schema.find? "type" = some (.string t) → OfType t value) := by
  simp only [← valueHasType_iff]
  unfold checkValueType
  cases ht : schema.find? "type" with
  | none => exact ⟨returns_ok "", by simp⟩
  | some t =>
    obtain ⟨s, _, rfl⟩ := hs t ht
    by_cases hv : valueHasType value s = true
    · simp [JsonValue.getString, hv, Returns]
    · refine ⟨⟨_, rfl⟩, ?_⟩
      have hne : path ++ " must be " ++ s ≠ "" := by
        rw [String.append_assoc]; exact append_ne_empty (by simp)
      simp [JsonValue.getString, hv, hne]

theorem checkValueEnum_sound (hs : ∀ e, schema.find? "enum" = some e → e.isArray = true) :
    Returns (checkValueEnum value schema path) ∧
      (checkValueEnum value schema path = .ok "" ↔
        ∀ xs, schema.find? "enum" = some (.array xs) → ∃ x ∈ xs, x.eq value = true) := by
  unfold checkValueEnum
  cases he : schema.find? "enum" with
  | none => exact ⟨returns_ok "", by simp⟩
  | some e =>
    cases e with
    | array xs =>
      by_cases hx : (xs.any fun x => x.eq value) = true
      · simp only [JsonValue.getArray, ok_bind, hx, if_true, pure_eq_ok]
        exact ⟨returns_ok "", by simpa using hx⟩
      · have hne : path ++ " is not one of the allowed enum values" ≠ "" := append_ne_empty (by simp)
        simp only [JsonValue.getArray, ok_bind, hx, pure_eq_ok]
        refine ⟨⟨_, rfl⟩, ?_⟩
        simpa [hne] using hx
    | _ => cases hs _ he

theorem checkValueRequired_sound (hs : ∀ r, schema.find? "required" = some r →
      ∃ ks, r = .array ks ∧ ∀ x ∈ ks, ∃ s, s ≠ "" ∧ x = .string s) :
    Returns (checkValueRequired value schema path) ∧
      (checkValueRequired value schema path = .ok "" ↔
        ∀ ks name, schema.find? "required" = some (.array ks) → .string name ∈ ks → value.contains name = true) := by
  unfold checkValueRequired
  cases hr : schema.find? "required" with
  | none => exact ⟨returns_ok "", by simp⟩
  | some r =>
    obtain ⟨ks, rfl, hks⟩ := hs r hr
    simp only [JsonValue.getArray, ok_bind, firstError_silent, Option.some.injEq, JsonValue.array.injEq]
    refine ⟨firstError_total ?_, ⟨?_, ?_⟩⟩
    · intro x hx
      obtain ⟨s, _, rfl⟩ := hks x hx
      exact ⟨_, rfl⟩
    · intro h ks' name hk hn
      subst hk
      have := h _ hn
      by_contra hc
      have hne : path ++ "." ++ name ++ " is required" ≠ "" := append_ne_empty (by simp)
      simp [JsonValue.getString, hc, hne] at this
    · intro h x hx
      obtain ⟨s, _, rfl⟩ := hks x hx
      simp [JsonValue.getString, h ks s rfl hx]

variable (validate : Recur schema)

theorem checkValueProperties_sound (hk : ∀ p, schema.find? "properties" = some p → p.isObject = true)
    (hv : ∀ m k sub h, schema.find? "properties" = some (.object m) → (k, sub) ∈ m → ∀ x p,
      Returns (validate sub h x p) ∧ (validate sub h x p = .ok "" ↔ Conforms x sub)) :
    Returns (checkValueProperties value schema path validate) ∧
      (checkValueProperties value schema path validate = .ok "" ↔
        ∀ ps k sub x, schema.find? "properties" = some (.object ps) → (k, sub) ∈ ps → value.find? k = some x →
          Conforms x sub) := by
  unfold checkValueProperties
  split
  · rename_i hn; exact ⟨returns_ok "", by simp [hn]⟩
  · rename_i ps hp
    simp only [firstError_silent]
    refine ⟨firstError_total ?_, ⟨?_, ?_⟩⟩
    · intro p _
      split
      · exact returns_ok ""
      · exact (hv ps p.1.1 p.1.2 _ hp p.2 _ _).1
    · intro h ps' k sub x hp' hs hx
      rw [hp] at hp'; cases hp'
      have := h ⟨(k, sub), hs⟩ (List.mem_attach ..)
      simp only [hx] at this
      exact (hv ps k sub _ hp hs _ _).2.mp this
    · intro h p _
      split
      · rfl
      · rename_i x hx
        exact (hv ps p.1.1 p.1.2 _ hp p.2 _ _).2.mpr (h ps p.1.1 p.1.2 x hp p.2 hx)
  · rename_i q hq hp
    have := hk _ hp
    cases q with
    | object m => exact (hq m rfl).elim
    | _ => cases this

theorem checkValueAdditional_sound (members : List (String × JsonValue))
    (hk : ∀ p, schema.find? "properties" = some p → p.isObject = true)
    (hv : ∀ a h, schema.find? "additionalProperties" = some a → a.isObject = true → ∀ x p,
      Returns (validate a h x p) ∧ (validate a h x p = .ok "" ↔ Conforms x a)) :
    Returns (checkValueAdditional members schema path validate) ∧
      (checkValueAdditional members schema path validate = .ok "" ↔
        (∀ k x, schema.find? "additionalProperties" = some (.boolean false) → (k, x) ∈ members →
          IsProperty schema k) ∧
        ∀ a k x, schema.find? "additionalProperties" = some a → a.isObject = true → (k, x) ∈ members →
          ¬ IsProperty schema k → Conforms x a) := by
  simp only [← declaredMember_iff hk, Bool.not_eq_true]
  unfold checkValueAdditional
  split
  · rename_i hn; exact ⟨returns_ok "", by simp [hn]⟩
  · rename_i a ha
    have hne : ∀ k, path ++ "." ++ k ++ " is not allowed" ≠ "" := fun k => append_ne_empty (by simp)
    simp only [firstError_silent]
    refine ⟨firstError_total fun p _ => ?_, ⟨fun h => ⟨fun k x hf hm => ?_, fun a' k x ha' ho hm hd => ?_⟩, fun h p hp => ?_⟩⟩
    · split
      · exact returns_ok ""
      · split
        · exact ⟨_, rfl⟩
        · split
          · rename_i ho; exact (hv a _ ha ho _ _).1
          · exact returns_ok ""
    -- a closed object: an undeclared member has a message, which is not empty
    · rw [ha] at hf; cases hf
      by_contra hd
      have := h (k, x) hm
      simp [hd, hne] at this
    · rw [ha] at ha'; cases ha'
      have := h (k, x) hm
      have hb : a ≠ .boolean false := fun hb => by rw [hb] at ho; cases ho
      simp only [hd, Bool.false_eq_true, if_false, hb, ho, if_true] at this
      exact (hv a _ ha ho _ _).2.mp this
    · obtain ⟨k, x⟩ := p
      obtain ⟨hclosed, hadd⟩ := h
      split
      · rfl
      · rename_i hd
        split
        · rename_i hb
          exact absurd (hclosed k x (hb ▸ ha) hp) hd
        · split
          · rename_i ho
            exact (hv a _ ha ho _ _).2.mpr (hadd a k x ha ho hp (by simpa using hd))
          · rfl

theorem checkValueItems_sound (elements : List JsonValue)
    (hv : ∀ i h, schema.find? "items" = some i → ∀ x p,
      Returns (validate i h x p) ∧ (validate i h x p = .ok "" ↔ Conforms x i)) :
    Returns (checkValueItems elements schema path validate) ∧
      (checkValueItems elements schema path validate = .ok "" ↔
        ∀ i x, schema.find? "items" = some i → x ∈ elements → Conforms x i) := by
  unfold checkValueItems
  split
  · rename_i hn; exact ⟨returns_ok "", by simp [hn]⟩
  · rename_i i hi
    simp only [firstError_silent]
    refine ⟨firstError_total fun p _ => (hv i _ hi _ _).1, ⟨?_, ?_⟩⟩
    · intro h i' x hi' hx
      rw [hi] at hi'; cases hi'
      obtain ⟨n, hn, rfl⟩ := List.mem_iff_getElem.mp hx
      exact (hv i _ hi _ _).2.mp (h (elements[n], n) (List.mem_zipIdx_iff_getElem?.mpr (by simp)))
    · intro h p hp
      refine (hv i _ hi _ _).2.mpr (h i p.1 hi ?_)
      exact List.mem_of_getElem? (List.mem_zipIdx_iff_getElem?.mp hp)

end

/-- **The evaluator decides conformance.** On a checked schema it always
returns, and returns the empty text exactly on the values that conform. -/
theorem validateValue_sound {schema : JsonValue} (h : Definable schema) : ∀ (value : JsonValue) (path : String),
    Returns (validateValueAgainstSchema value schema path) ∧
      (validateValueAgainstSchema value schema path = .ok "" ↔ Conforms value schema) := by
  induction h with
  | @mk schema isObject type propertiesKind properties required items additionalKind additional enumeration
      ihProperties ihItems ihAdditional =>
    intro value path
    obtain ⟨tt, ts⟩ := checkValueType_sound value path type
    obtain ⟨et, es⟩ := checkValueEnum_sound value path enumeration
    -- the keywords that apply differ with the kind of value
    cases value with
    | object m =>
      obtain ⟨rt, rs⟩ := checkValueRequired_sound (.object m) path required
      obtain ⟨pt, ps⟩ := checkValueProperties_sound (.object m) path
        (fun sub _ x p => validateValueAgainstSchema x sub p) propertiesKind
        fun m' k sub _ hm hk x p => ihProperties m' k sub hm hk x p
      obtain ⟨at', as⟩ := checkValueAdditional_sound path (fun sub _ x p => validateValueAgainstSchema x sub p) m
        propertiesKind fun a _ ha ho x p => ihAdditional a ha ho x p
      rw [validateValueAgainstSchema]
      refine ⟨orReturn_total tt (orReturn_total et (orReturn_total rt (orReturn_total pt at'))), ?_⟩
      simp only [orReturn_silent, ts, es, rs, ps, as]
      constructor
      · rintro ⟨h₁, h₂, h₃, h₄, h₅, h₆⟩
        refine .mk h₁ h₂ (fun m' ks name _ => h₃ ks name) (fun m' ps k sub x _ => h₄ ps k sub x) ?_ ?_ ?_
        · intro m' k x hm; cases hm; exact h₅ k x
        · intro m' a k x hm; cases hm; exact h₆ a k x
        · intro xs i x hx; cases hx
      · rintro ⟨h₁, h₂, h₃, h₄, h₅, h₆, _⟩
        exact ⟨h₁, h₂, fun ks name => h₃ m ks name rfl, fun ps k sub x => h₄ m ps k sub x rfl,
          fun k x => h₅ m k x rfl, fun a k x => h₆ m a k x rfl⟩
    | array xs =>
      obtain ⟨it, is⟩ := checkValueItems_sound path
        (fun sub _ x p => validateValueAgainstSchema x sub p) xs fun i _ hi x p => ihItems i hi x p
      rw [validateValueAgainstSchema]
      refine ⟨orReturn_total tt (orReturn_total et it), ?_⟩
      simp only [orReturn_silent, ts, es, is]
      constructor
      · rintro ⟨h₁, h₂, h₃⟩
        refine .mk h₁ h₂ ?_ ?_ ?_ ?_ ?_
        all_goals intros; first | contradiction | skip
        rename_i hx hi hm; cases hx; exact h₃ _ _ hi hm
      · rintro ⟨h₁, h₂, _, _, _, _, h₃⟩
        exact ⟨h₁, h₂, fun i x => h₃ xs i x rfl⟩
    | _ =>
      rw [validateValueAgainstSchema] <;> try (intro _ hc; cases hc)
      refine ⟨orReturn_total tt (orReturn_total et (returns_ok "")), ?_⟩
      simp only [orReturn_silent, ts, es, and_true]
      constructor
      · rintro ⟨h₁, h₂⟩
        refine .mk h₁ h₂ ?_ ?_ ?_ ?_ ?_ <;> intros <;> contradiction
      · rintro ⟨h₁, h₂, _⟩
        exact ⟨h₁, h₂⟩

/-- **A schema that passed its check decides its values**: the evaluator makes
no wrong typed access on it, and returns the empty text exactly on the values that conform. -/
theorem validated_schema_decides {schema : JsonValue} {location : String}
    (h : validateSchemaDefinition schema location = .ok ()) (value : JsonValue) (path : String) :
    Returns (validateValueAgainstSchema value schema path) ∧
      (validateValueAgainstSchema value schema path = .ok "" ↔ Conforms value schema) := by
  have hdefinable : Definable schema := definable_of_validated schema location h
  exact validateValue_sound hdefinable value path

def closedSchema : JsonValue :=
  .ofMembers [("properties", .ofMembers [("x", .ofMembers [("type", .string "integer")])]),
    ("additionalProperties", .boolean false)]

theorem validated_schema_decides_closed :
    Returns (validateValueAgainstSchema (.ofMembers [("y", .null)]) closedSchema "$") ∧
      (validateValueAgainstSchema (.ofMembers [("y", .null)]) closedSchema "$" = .ok "" ↔
        Conforms (.ofMembers [("y", .null)]) closedSchema) := by
  have hchecked : validateSchemaDefinition closedSchema "schema" = .ok () := by decide +kernel
  exact validated_schema_decides hchecked (.ofMembers [("y", .null)]) "$"

end NeuralPlus
