import NeuralPlus.SchemaSound
import NeuralPlus.ToolOrder

/-!
# What the constructor accepts

`tool.cpp` and `client.cpp` check a tool's declaration each on their own. The
client's check is the tool's and, below the root of the schema, the definition
check: a client is made exactly of tools that a `FunctionTool` could be, with
schemas that are definable throughout.
-/

namespace NeuralPlus

open Fallible

/-! ## Definable schemas -/

section
variable {schema : JsonValue}

theorem checkSchemaType_of_definable (h : Definable schema) (location : String) :
    checkSchemaType schema location = .ok () := by
  obtain ⟨_, htype, _⟩ := h
  unfold checkSchemaType
  cases ht : schema.find? "type" with
  | none => rfl
  | some t =>
    obtain ⟨s, hs, rfl⟩ := htype t ht
    exact throwIf_eq_ok.mpr (not_not.mpr hs)

theorem checkSchemaRequired_of_definable (h : Definable schema) (location : String) :
    checkSchemaRequired schema location = .ok () := by
  obtain ⟨_, _, _, _, hrequired, _⟩ := h
  unfold checkSchemaRequired
  cases hr : schema.find? "required" with
  | none => rfl
  | some r =>
    obtain ⟨keys, rfl, hkeys⟩ := hrequired r hr
    simp only [throwIf_eq_ok, List.any_eq_true, not_exists, not_and]
    intro key hkey
    obtain ⟨s, hs, rfl⟩ := hkeys key hkey
    simpa using hs

theorem checkSchemaEnum_of_definable (h : Definable schema) (location : String) :
    checkSchemaEnum schema location = .ok () := by
  obtain ⟨_, _, _, _, _, _, _, _, henum⟩ := h
  unfold checkSchemaEnum
  cases he : schema.find? "enum" with
  | none => rfl
  | some e =>
    have harray := henum e he
    cases e with
    | array xs => rfl
    | _ => cases harray

/-- The definition check accepts a definable schema, wherever it stands. -/
theorem validated_of_definable (h : Definable schema) (location : String) :
    validateSchemaDefinition schema location = .ok () := by
  induction h generalizing location with
  | mk hobject type hpropertiesKind properties required items hadditionalKind additional enumeration
      ihproperties ihitems ihadditional =>
    have h := Definable.mk hobject type hpropertiesKind properties required items hadditionalKind additional enumeration
    rw [validateSchemaDefinition]
    simp only [bind_eq_ok, throwIf_eq_ok]
    refine ⟨(), by simp [hobject], (), checkSchemaType_of_definable h location, (), ?_,
      (), checkSchemaRequired_of_definable h location, (), ?_, (), ?_, checkSchemaEnum_of_definable h location⟩
    · split
      · rfl
      · rename_i m hm
        rw [forM_eq_ok]
        intro p _
        exact ihproperties m p.1.1 p.1.2 hm p.2 _
      · rename_i p hnot hp
        have hkind := hpropertiesKind p hp
        cases p with
        | object m => exact absurd rfl (hnot m)
        | _ => cases hkind
    · split
      · rfl
      · rename_i items hi
        exact ihitems items hi _
    · split
      · rfl
      · rfl
      · rename_i m hm
        exact ihadditional _ hm rfl _
      · rename_i a hboolean hnot ha
        rcases hadditionalKind a ha with hkind | hkind
        · cases a with
          | boolean b => exact absurd rfl (hboolean b)
          | _ => cases hkind
        · cases a with
          | object m => exact absurd rfl (hnot m)
          | _ => cases hkind

theorem validated_iff {location : String} {u : Unit} :
    validateSchemaDefinition schema location = .ok u ↔ Definable schema :=
  ⟨definable_of_validated schema location, fun h => validated_of_definable h location⟩

end

/-! ## Declarations -/

namespace FunctionTool

theorem isPortableToolName_eq (name : String) : isPortableToolName name = validToolName name := by
  have hcharacter : (fun character : Char => ('A' ≤ character && character ≤ 'Z') ||
      ('a' ≤ character && character ≤ 'z') || ('0' ≤ character && character ≤ '9') || character = '_' ||
      character = '-') = validNameCharacter := rfl
  unfold isPortableToolName validToolName
  dsimp only
  rw [hcharacter]
  by_cases hempty : name = ""
  · simp [hempty]
  · by_cases hlong : name.utf8ByteSize > 64
    · simp [hlong, Nat.not_le.mpr hlong]
    · simp [hempty, hlong, Nat.not_lt.mp hlong]

theorem validateRequired_ok {required : JsonValue} : validateRequired required = .ok () ↔
    ∃ names, required = .array names ∧ ∀ name ∈ names, ∃ s, s ≠ "" ∧ name = .string s := by
  unfold validateRequired
  cases required with
  | array names =>
    simp only [forM_eq_ok, throwIf_eq_ok, JsonValue.array.injEq, exists_eq_left']
    apply forall₂_congr
    intro name _
    cases name <;> simp [JsonValue.isString]
  | _ => simp

variable {spec : ToolSpec}

theorem validateToolSpec_ok : validateToolSpec spec = .ok () ↔
    validToolName spec.name = true ∧ spec.description ≠ "" ∧ spec.inputSchema.isObject = true ∧
      spec.providerOptions.isObject = true ∧ spec.inputSchema.find? "type" = some (.string "object") ∧
      (∀ p, spec.inputSchema.find? "properties" = some p → p.isObject = true) ∧
      ∀ r, spec.inputSchema.find? "required" = some r →
        ∃ names, r = .array names ∧ ∀ name ∈ names, ∃ s, s ≠ "" ∧ name = .string s := by
  unfold validateToolSpec
  simp only [bind_eq_ok, throwIf_eq_ok, isPortableToolName_eq, exists_const, Bool.not_eq_false, ne_eq, not_not]
  have hproperties :
      (¬ ((spec.inputSchema.find? "properties").any fun properties => properties.isObject = false) = true) ↔
        ∀ p, spec.inputSchema.find? "properties" = some p → p.isObject = true := by
    cases spec.inputSchema.find? "properties" <;> simp
  rw [hproperties]
  cases spec.inputSchema.find? "required" with
  | none => simp
  | some required => simp [validateRequired_ok]

variable {handle : Nat} {tool : Tool} {function : ToolContext → JsonValue → Except Exc ToolOutput}

theorem make_of_valid (h : validateToolSpec tool.spec = .ok ())
    (function : ToolContext → JsonValue → Except Exc ToolOutput) : make tool.handle tool.spec (some function) = .ok tool := by
  unfold make
  rw [h]
  rfl

theorem make_ok (h : make handle spec (some function) = .ok tool) : validateToolSpec spec = .ok () := by
  obtain ⟨_, hvalid, _⟩ := bind_eq_ok.mp h
  exact hvalid

end FunctionTool

theorem validateToolSpec_iff {spec : ToolSpec} :
    validateToolSpec spec = .ok () ↔ FunctionTool.validateToolSpec spec = .ok () ∧ Definable spec.inputSchema := by
  rw [FunctionTool.validateToolSpec_ok]
  unfold validateToolSpec requireJsonObject
  simp only [bind_eq_ok, throwIf_eq_ok, validated_iff, exists_const, Bool.not_eq_false, ne_eq, not_not]
  constructor
  · rintro ⟨hname, hdescription, hdefinable, hoptions, htype⟩
    refine ⟨⟨hname, hdescription, ?_, hoptions, htype, ?_⟩, hdefinable⟩
    all_goals obtain ⟨hobject, _, hproperties, _, hrequired, _⟩ := hdefinable
    · exact hobject
    · exact ⟨hproperties, hrequired⟩
  · rintro ⟨⟨hname, hdescription, _, hoptions, htype, _⟩, hdefinable⟩
    exact ⟨hname, hdescription, hdefinable, hoptions, htype⟩

/-! ## Refusals -/

def ConfigurationError (e : Exc) : Prop := ∃ message, e = .configuration message

theorem throwIf_configuration (c : Prop) [Decidable c] (message : String) :
    Throws ConfigurationError (throwIf c (.configuration message)) :=
  throws_throwIf ⟨message, rfl⟩

theorem validateSchemaDefinition_throws : ∀ (schema : JsonValue) (location : String),
    Throws ConfigurationError (validateSchemaDefinition schema location)
  | schema, location => by
    rw [validateSchemaDefinition]
    refine throws_bind (throwIf_configuration _ _) fun _ => throws_bind ?_ fun _ => throws_bind ?_ fun _ =>
      throws_bind ?_ fun _ => throws_bind ?_ fun _ => throws_bind ?_ fun _ => ?_
    · unfold checkSchemaType
      split
      · exact throws_ok _
      · exact throwIf_configuration _ _
      · exact throws_error ⟨_, rfl⟩
    · split
      · exact throws_ok _
      · apply throws_forM
        intro p
        exact validateSchemaDefinition_throws p.1.2 _
      · exact throws_error ⟨_, rfl⟩
    · unfold checkSchemaRequired
      split
      · exact throws_ok _
      · exact throwIf_configuration _ _
      · exact throws_error ⟨_, rfl⟩
    · split
      · exact throws_ok _
      · rename_i items _
        exact validateSchemaDefinition_throws items _
    · split
      · exact throws_ok _
      · exact throws_ok _
      · rename_i m _
        exact validateSchemaDefinition_throws (.object m) _
      · exact throws_error ⟨_, rfl⟩
    · unfold checkSchemaEnum
      split
      · exact throws_ok _
      · exact throws_ok _
      · exact throws_error ⟨_, rfl⟩
termination_by schema => sizeOf schema
decreasing_by
  · exact sizeOf_member ‹_› p.2
  · exact JsonValue.sizeOf_find? ‹_›
  · exact JsonValue.sizeOf_find? ‹_›

theorem validateToolSpec_throws (spec : ToolSpec) : Throws ConfigurationError (validateToolSpec spec) := by
  unfold validateToolSpec requireJsonObject
  refine throws_bind (throwIf_configuration _ _) fun _ => throws_bind (throwIf_configuration _ _) fun _ => ?_
  refine throws_bind (validateSchemaDefinition_throws _ _) fun _ => ?_
  exact throws_bind (throwIf_configuration _ _) fun _ => throwIf_configuration _ _

namespace Registry

theorem eq_of_tools {r r' : Registry} (h : r.tools = r'.tools) : r = r' := by
  have hspecs : r.specs = r'.specs := by
    rw [← r.inStep, ← r'.inStep, h]
  cases r
  cases r'
  cases h
  cases hspecs
  rfl

theorem specs_eq_nil {r : Registry} {tools : List Tool} (h : r.tools = tools.map entry) :
    r.specs = [] ↔ tools = [] := by
  rw [← r.inStep, h, List.map_map, List.map_eq_nil_iff]

theorem add_throws (r : Registry) (tool : Option Tool) : Throws ConfigurationError (r.add tool) := by
  unfold add
  split
  · exact throws_error ⟨_, rfl⟩
  · rename_i tool
    split
    · rename_i e he
      exact throws_error (validateToolSpec_throws tool.spec e he)
    · split
      · exact throws_error ⟨_, rfl⟩
      · exact throws_ok _

end Registry

/-! ## The constructor -/

namespace AIClient

structure Acceptable (model : ModelDescriptor) (options : ClientOptions) (tools : List Tool) : Prop where
  named : model.id ≠ ""
  providerOptions : model.providerOptions.isObject = true
  rounds : options.maxModelRounds ≠ 0
  parallel : options.maxParallelToolCalls ≠ 0
  calls : options.maxToolCallsPerGeneration ≠ 0
  tracers : none ∉ options.tracers
  present : options.tools = tools.map some
  made : ∀ tool ∈ tools, ∀ function, FunctionTool.make tool.handle tool.spec (some function) = .ok tool
  definable : ∀ tool ∈ tools, Definable tool.spec.inputSchema
  distinct : (tools.map fun tool => tool.spec.name).Nodup
  capable : tools = [] ∨ model.capabilities.tools = true

variable {model : ModelDescriptor} {options : ClientOptions} {client : AIClient}

theorem make_eq_ok : make model options = .ok client ↔
    model.id ≠ "" ∧ model.providerOptions.isObject = true ∧ options.maxModelRounds ≠ 0 ∧
      options.maxParallelToolCalls ≠ 0 ∧ options.maxToolCallsPerGeneration ≠ 0 ∧ none ∉ options.tracers ∧
      options.tools.foldlM Registry.add .empty = .ok client.registry ∧
      (client.registry.specs = [] ∨ model.capabilities.tools = true) ∧ client.model = model ∧
      client.options = options := by
  have htracers : ¬ options.tracers.any Option.isNone = true ↔ none ∉ options.tracers := by
    simp
  have hcapable (registry : Registry) : ¬ (registry.specs ≠ [] ∧ model.capabilities.tools = false) ↔
      registry.specs = [] ∨ model.capabilities.tools = true := by
    rw [not_and_or, not_not, Bool.not_eq_false]
  unfold make requireJsonObject
  simp only [bind_eq_ok, throwIf_eq_ok, exists_const, Bool.not_eq_false]
  constructor
  · rintro ⟨hid, hproviderOptions, h⟩
    split at h
    · cases h
    split at h
    · cases h
    split at h
    · cases h
    rename_i hr hp hc
    simp only [bind_eq_ok, pure_eq_ok, Except.ok.injEq, throwIf_eq_ok, exists_const, htracers, hcapable] at h
    obtain ⟨hnone, registry, hregistry, hcap, rfl⟩ := h
    exact ⟨hid, hproviderOptions, hr, hp, hc, hnone, hregistry, hcap, rfl, rfl⟩
  · rintro ⟨hid, hproviderOptions, hr, hp, hc, hnone, hregistry, hcap, rfl, rfl⟩
    refine ⟨hid, hproviderOptions, ?_⟩
    rw [dif_neg hr, dif_neg hp, dif_neg hc]
    simp only [bind_eq_ok, pure_eq_ok, Except.ok.injEq, throwIf_eq_ok, exists_const, htracers, hcapable]
    exact ⟨hnone, client.registry, hregistry, hcap, rfl⟩

theorem make_throws (model : ModelDescriptor) (options : ClientOptions) :
    Throws ConfigurationError (make model options) := by
  unfold make requireJsonObject
  refine throws_bind (throwIf_configuration _ _) fun _ => throws_bind (throwIf_configuration _ _) fun _ => ?_
  split
  · exact throws_error ⟨_, rfl⟩
  split
  · exact throws_error ⟨_, rfl⟩
  split
  · exact throws_error ⟨_, rfl⟩
  refine throws_bind (throwIf_configuration _ _) fun _ => ?_
  refine throws_bind (throws_foldlM Registry.add_throws _ _) fun registry => ?_
  exact throws_bind (throwIf_configuration _ _) fun _ => throws_ok _

/-- **The constructor accepts exactly the acceptable arguments**, registers the tools in their order, and throws a
`ConfigurationError` otherwise. -/
theorem make_exact (model : ModelDescriptor) (options : ClientOptions) :
    (∀ client, make model options = .ok client ↔ ∃ tools, Acceptable model options tools ∧ client.model = model ∧
      client.options = options ∧ client.registry.tools = tools.map Registry.entry) ∧
      Throws ConfigurationError (make model options) := by
  refine ⟨?_, make_throws model options⟩
  intro client
  rw [make_eq_ok]
  constructor
  · rintro ⟨hid, hproviderOptions, hr, hp, hc, hnone, hregistry, hcap, hmodel, hoptions⟩
    obtain ⟨tools, hpresent, hvalid, htools⟩ := Registry.addAll_ok hregistry
    replace htools : client.registry.tools = tools.map Registry.entry := htools
    refine ⟨tools, ⟨hid, hproviderOptions, hr, hp, hc, hnone, hpresent, ?_, ?_, ?_, ?_⟩, hmodel, hoptions, htools⟩
    · intro tool htool function
      exact FunctionTool.make_of_valid (validateToolSpec_iff.mp (hvalid tool htool)).1 function
    · intro tool htool
      exact (validateToolSpec_iff.mp (hvalid tool htool)).2
    · have hdistinct := client.registry.distinct
      rwa [← Registry.keys_eq, htools, List.map_map] at hdistinct
    · rwa [Registry.specs_eq_nil htools] at hcap
  · rintro ⟨tools, h, hmodel, hoptions, htools⟩
    have hvalid : ∀ tool ∈ tools, validateToolSpec tool.spec = .ok () := by
      intro tool htool
      have hmade := h.made tool htool fun _ _ => .ok (.text "")
      exact validateToolSpec_iff.mpr ⟨FunctionTool.make_ok hmade, h.definable tool htool⟩
    have hdistinct : ((Registry.empty.tools ++ tools.map Registry.entry).map Prod.fst).Nodup := by
      show ((tools.map Registry.entry).map Prod.fst).Nodup
      rw [List.map_map]
      exact h.distinct
    obtain ⟨registry, hregistry, hentries⟩ := Registry.addAll_of_valid hvalid hdistinct
    have hsame : registry = client.registry := Registry.eq_of_tools (hentries.trans htools.symm)
    rw [hsame, ← h.present] at hregistry
    refine ⟨h.named, h.providerOptions, h.rounds, h.parallel, h.calls, h.tracers, hregistry, ?_, hmodel, hoptions⟩
    rw [Registry.specs_eq_nil htools]
    exact h.capable

end AIClient

end NeuralPlus
