import NeuralPlus.RunSound

/-!
# The order of the tools

The constructor of `AIClient` registers the tools in the order in which the
options list them, and sorts what it advertises. Nothing a client does tells
the order.
-/

namespace NeuralPlus

open Fallible

/-! ## Clients that do the same -/

def ClientOptions.withoutTools (options : ClientOptions) : ClientOptions := { options with tools := [] }

namespace AIClient

structure Interchangeable (client client' : AIClient) : Prop where
  model : client'.model = client.model
  options : client'.options.withoutTools = client.options.withoutTools
  toolSpecs : client'.toolSpecs = client.toolSpecs
  find? : ∀ name, client'.registry.find? name = client.registry.find? name

namespace Interchangeable

variable {client client' : AIClient} (h : Interchangeable client client') {env : RunEnv} {options : GenerateOptions}
include h

theorem capture : client'.options.captureTracePayloads = client.options.captureTracePayloads := by
  have hfield := congrArg ClientOptions.captureTracePayloads h.options
  exact hfield

theorem rounds : client'.options.maxModelRounds = client.options.maxModelRounds := by
  have hfield := congrArg ClientOptions.maxModelRounds h.options
  exact hfield

theorem calls : client'.options.maxToolCallsPerGeneration = client.options.maxToolCallsPerGeneration := by
  have hfield := congrArg ClientOptions.maxToolCallsPerGeneration h.options
  exact hfield

theorem stop : client'.options.stopOnToolError = client.options.stopOnToolError := by
  have hfield := congrArg ClientOptions.stopOnToolError h.options
  exact hfield

theorem event : client'.event env = client.event env := by
  funext type sessionId
  rw [AIClient.event, AIClient.event, h.model]

theorem errorEvent (sessionId : String) (e : Exc) : client'.errorEvent env sessionId e = client.errorEvent env sessionId e := by
  rw [AIClient.errorEvent, AIClient.errorEvent, h.event, h.capture]

theorem acceptResponse (s : LoopState) (response : AIResponse) :
    client'.acceptResponse s response = client.acceptResponse s response := by
  have herror : client'.protocolError = client.protocolError := by
    funext message code requestId
    rw [protocolError, protocolError, h.model]
  have hids : ∀ requestId seen calls, client'.checkCallIds requestId seen calls = client.checkCallIds requestId seen calls := by
    intro requestId seen calls
    induction calls generalizing seen with
    | nil => rfl
    | cons call calls ih => rw [checkCallIds, checkCallIds, herror, ih]
  rw [AIClient.acceptResponse, AIClient.acceptResponse, herror, hids, remainingCalls, remainingCalls, h.calls]

theorem executeTool (site : ToolSite) (call : ToolCall) : client'.executeTool site call = client.executeTool site call := by
  have hend : client'.toolEnd = client.toolEnd := by
    funext site call output diagnostic
    rw [toolEnd, toolEnd, h.capture]
  rw [AIClient.executeTool, AIClient.executeTool, hend, h.find?]

theorem executeTools (sites : Nat → ToolSite) (calls : List ToolCall) (schedule : List ExecAct) :
    client'.executeTools sites calls schedule = client.executeTools sites calls schedule := by
  have hjob : client'.execJob sites calls = client.execJob sites calls := by
    unfold execJob
    congr 1
    · have hfield := congrArg ClientOptions.parallelToolCalls h.options
      exact hfield
    · have hfield := congrArg (fun o => o.maxParallelToolCalls.toNat) h.options
      exact hfield
    · funext i call
      exact h.executeTool (sites i) call
  rw [AIClient.executeTools, AIClient.executeTools, hjob]

theorem loopBody : client'.loopBody env options = client.loopBody env options := by
  have hrequest (session : Session) : client'.makeRequest env options session = client.makeRequest env options session := by
    rw [makeRequest, makeRequest, h.model, h.toolSpecs]
  have hstart : client'.providerStart env = client.providerStart env := by
    funext round request
    rw [providerStart, providerStart, h.event]
  have hend : client'.providerEnd env = client.providerEnd env := by
    funext round request response
    rw [providerEnd, providerEnd, h.event, h.capture]
  have hleft : client'.generationEnd env = client.generationEnd env := by
    funext sessionId level round toolCalls reason
    rw [generationEnd, generationEnd, h.event]
  have hcalls : client'.runCalls env = client.runCalls env := by
    funext s request events response usage session
    unfold runCalls
    dsimp only
    rw [h.executeTools, h.stop, hleft]
  funext s
  unfold AIClient.loopBody
  rw [h.rounds, hrequest, hstart, hend, hleft, hcalls]
  simp only [h.acceptResponse]

/-- Whatever a run meets, it goes as on the other client. -/
theorem generate (session : Session) (input : Message) :
    client'.generate env session input options = client.generate env session input options := by
  have hbegin : client'.begin session input options = client.begin session input options := by
    have hcontent : client'.validateContent = client.validateContent := by
      funext content
      unfold validateContent
      rw [h.model]
    rw [begin, begin, validateInput, validateInput, hcontent]
  have hstart (sessionId : String) : client'.generationStart env sessionId input = client.generationStart env sessionId input := by
    rw [generationStart, generationStart, h.event, h.capture]
  have hloop (session : Session) (log : RunLog) :
      client'.roundLoop env options session log = client.roundLoop env options session log := by
    rw [roundLoop, roundLoop, h.loopBody, h.rounds]
  have hconclude (exit : LoopExit) : client'.conclude env exit = client.conclude env exit := by
    unfold conclude
    simp only [h.errorEvent]
  unfold AIClient.generate
  simp only [hbegin, hstart, hloop, hconclude]

end Interchangeable

end AIClient

/-! ## The registry -/

namespace Registry

def entry (tool : Tool) : String × RegisteredTool := (tool.spec.name, ⟨tool.handle, tool.spec⟩)

theorem add_ok {r r' : Registry} {tool : Option Tool} (h : r.add tool = .ok r') :
    ∃ t, tool = some t ∧ validateToolSpec t.spec = .ok () ∧ r'.tools = r.tools ++ [entry t] := by
  cases tool with
  | none => cases h
  | some t =>
    unfold add at h
    dsimp only at h
    split at h
    · cases h
    · rename_i hv
      split at h
      · cases h
      · obtain rfl := Except.ok.inj h
        exact ⟨t, rfl, hv, rfl⟩

theorem add_of_valid {r : Registry} {tool : Tool} (hv : validateToolSpec tool.spec = .ok ())
    (hnew : tool.spec.name ∉ r.tools.map Prod.fst) : ∃ r', r.add (some tool) = .ok r' ∧ r'.tools = r.tools ++ [entry tool] := by
  have hfind : ¬ (OrdMap.find? tool.spec.name r.tools).isSome = true := by
    rwa [OrdMap.find?_isSome_iff]
  unfold add
  dsimp only
  split
  · rename_i e he
    rw [hv] at he
    cases he
  · rw [dif_neg hfind]
    exact ⟨_, rfl, rfl⟩

theorem addAll_ok {tools : List (Option Tool)} {r r' : Registry} (h : tools.foldlM add r = .ok r') :
    ∃ ts : List Tool, tools = ts.map some ∧ (∀ t ∈ ts, validateToolSpec t.spec = .ok ()) ∧
      r'.tools = r.tools ++ ts.map entry := by
  induction tools generalizing r with
  | nil =>
    obtain rfl := Except.ok.inj h
    exact ⟨[], rfl, by simp, (List.append_nil _).symm⟩
  | cons tool tools ih =>
    rw [List.foldlM_cons] at h
    obtain ⟨next, hadd, hrest⟩ := bind_eq_ok.mp h
    obtain ⟨t, rfl, hv, hnext⟩ := add_ok hadd
    obtain ⟨ts, rfl, hvs, hr'⟩ := ih hrest
    refine ⟨t :: ts, rfl, List.forall_mem_cons.mpr ⟨hv, hvs⟩, ?_⟩
    rw [hr', hnext, List.append_assoc]
    rfl

theorem addAll_of_valid {ts : List Tool} {r : Registry} (hv : ∀ t ∈ ts, validateToolSpec t.spec = .ok ())
    (hnodup : ((r.tools ++ ts.map entry).map Prod.fst).Nodup) :
    ∃ r', (ts.map some).foldlM add r = .ok r' ∧ r'.tools = r.tools ++ ts.map entry := by
  induction ts generalizing r with
  | nil => exact ⟨r, rfl, (List.append_nil _).symm⟩
  | cons t ts ih =>
    have hnew : t.spec.name ∉ r.tools.map Prod.fst := by
      intro hmem
      rw [List.map_append] at hnodup
      exact (List.nodup_append.mp hnodup).2.2 _ hmem t.spec.name (by simp [entry]) rfl
    obtain ⟨next, hadd, hnext⟩ := add_of_valid (hv t List.mem_cons_self) hnew
    have hsplit : r.tools ++ (t :: ts).map entry = next.tools ++ ts.map entry := by
      rw [hnext, List.append_assoc]
      rfl
    rw [hsplit] at hnodup ⊢
    obtain ⟨r', hr', htools⟩ := ih (fun t ht => hv t (List.mem_cons_of_mem _ ht)) hnodup
    refine ⟨r', ?_, htools⟩
    rw [List.map_cons, List.foldlM_cons]
    exact bind_eq_ok.mpr ⟨next, hadd, hr'⟩

theorem exists_map_some {α : Type} {l : List (Option α)} (h : ∀ o ∈ l, o.isSome = true) : ∃ as : List α, l = as.map some := by
  induction l with
  | nil => exact ⟨[], rfl⟩
  | cons o l ih =>
    obtain ⟨a, rfl⟩ := Option.isSome_iff_exists.mp (h o List.mem_cons_self)
    obtain ⟨as, rfl⟩ := ih fun o ho => h o (List.mem_cons_of_mem _ ho)
    exact ⟨a :: as, rfl⟩

theorem addAll_perm {tools tools' : List (Option Tool)} (hperm : tools.Perm tools') {r : Registry}
    (h : tools.foldlM add .empty = .ok r) : ∃ r', tools'.foldlM add .empty = .ok r' ∧ r.tools.Perm r'.tools := by
  obtain ⟨ts, rfl, hv, hr⟩ := addAll_ok h
  obtain ⟨ts', rfl⟩ : ∃ ts' : List Tool, tools' = ts'.map some := by
    apply exists_map_some
    intro o ho
    obtain ⟨t, _, rfl⟩ := List.mem_map.mp (hperm.mem_iff.mpr ho)
    rfl
  have hts : ts.Perm ts' := by
    have hfilter := hperm.filterMap id
    rwa [List.filterMap_map, List.filterMap_map, Function.id_comp, List.filterMap_some, List.filterMap_some] at hfilter
  have hentries : (Registry.empty.tools ++ ts.map entry).Perm (Registry.empty.tools ++ ts'.map entry) :=
    (hts.map entry).append_left _
  have hnodup : ((Registry.empty.tools ++ ts'.map entry).map Prod.fst).Nodup := by
    rw [← (hentries.map Prod.fst).nodup_iff, ← hr, keys_eq]
    exact r.distinct
  obtain ⟨r', hr', htools⟩ := addAll_of_valid (fun t ht => hv t (hts.mem_iff.mpr ht)) hnodup
  refine ⟨r', hr', ?_⟩
  rw [hr, htools]
  exact hentries

variable {r r' : Registry} (hperm : r.tools.Perm r'.tools)
include hperm

theorem find?_perm (name : String) : r'.find? name = r.find? name := by
  have hnodup : (r.tools.map Prod.fst).Nodup := by
    rw [keys_eq]
    exact r.distinct
  exact (OrdMap.find?_perm hperm hnodup name).symm

theorem specs_perm : r.specs.Perm r'.specs := by
  rw [← r.inStep, ← r'.inStep]
  exact hperm.map fun p => p.2.spec

end Registry

namespace AIClient

theorem toolSpecs_eq_of_perm {client client' : AIClient} (hperm : client.registry.tools.Perm client'.registry.tools) :
    client'.toolSpecs = client.toolSpecs := by
  have hspecs : client'.toolSpecs.Perm client.toolSpecs :=
    (List.perm_insertionSort _ _).trans ((Registry.specs_perm hperm).symm.trans (List.perm_insertionSort _ _).symm)
  apply hspecs.eq_of_pairwise ?_ client'.toolSpecs_sorted client.toolSpecs_sorted
  intro a b _ _ hab hba
  exact absurd (lt_trans hab hba) (lt_irrefl _)

/-- **The order of the tools tells nothing.** A client whose options list the tools in another order is accepted as well,
and every generation on it goes the same. -/
theorem tools_order_irrelevant {model : ModelDescriptor} {options : ClientOptions} {client : AIClient}
    (hmake : AIClient.make model options = .ok client) {tools : List (Option Tool)} (hperm : options.tools.Perm tools) :
    ∃ client', AIClient.make model { options with tools } = .ok client' ∧
      ∀ (env : RunEnv) (session : Session) (input : Message) (generateOptions : GenerateOptions),
        client'.generate env session input generateOptions = client.generate env session input generateOptions := by
  unfold AIClient.make at hmake ⊢
  simp only [bind_eq_ok] at hmake
  obtain ⟨_, hid, _, hoptions, hmake⟩ := hmake
  rw [hid, hoptions]
  simp only [ok_bind]
  split at hmake
  · cases hmake
  split at hmake
  · cases hmake
  split at hmake
  · cases hmake
  rename_i hr hp hc
  simp only [bind_eq_ok, pure_eq_ok, Except.ok.injEq, throwIf_eq_ok] at hmake
  obtain ⟨_, htracers, registry, hregistry, _, hcapable, rfl⟩ := hmake
  obtain ⟨registry', hregistry', hentries⟩ := Registry.addAll_perm hperm hregistry
  have hspecs : registry'.specs ≠ [] ↔ registry.specs ≠ [] := by
    rw [← List.length_pos_iff, ← List.length_pos_iff, (Registry.specs_perm hentries).length_eq]
  rw [dif_neg hr, dif_neg hp, dif_neg hc]
  refine ⟨⟨model, { options with tools }, registry', hr, hp, hc⟩, ?_, ?_⟩
  · simp only [bind_eq_ok, pure_eq_ok, throwIf_eq_ok]
    exact ⟨(), htracers, registry', hregistry', (), fun h => hcapable ⟨hspecs.mp h.1, h.2⟩, rfl⟩
  · intro env session input generateOptions
    apply Interchangeable.generate
    exact ⟨rfl, rfl, toolSpecs_eq_of_perm hentries, Registry.find?_perm hentries⟩

def namedTool (handle : Nat) (name : String) : Tool :=
  { handle
    spec := { name, description := "Looks something up", inputSchema := .ofMembers [("type", .string "object")] } }

def toolModel : ModelDescriptor := { id := "model", capabilities := { tools := true } }

theorem tools_order_irrelevant_swapped : ∃ client client',
    AIClient.make toolModel { tools := [some (namedTool 0 "search"), some (namedTool 1 "browse")] } = .ok client ∧
    AIClient.make toolModel { tools := [some (namedTool 1 "browse"), some (namedTool 0 "search")] } = .ok client' ∧
    ∀ env session input generateOptions,
      client'.generate env session input generateOptions = client.generate env session input generateOptions := by
  have hperm : [some (namedTool 0 "search"), some (namedTool 1 "browse")].Perm
      [some (namedTool 1 "browse"), some (namedTool 0 "search")] := .swap ..
  have haccepted : (AIClient.make toolModel
      { tools := [some (namedTool 0 "search"), some (namedTool 1 "browse")] }).toOption.isSome = true := by
    decide +kernel
  cases hmake : AIClient.make toolModel { tools := [some (namedTool 0 "search"), some (namedTool 1 "browse")] } with
  | error e =>
    rw [hmake] at haccepted
    cases haccepted
  | ok client =>
    obtain ⟨client', hmake', hsame⟩ := tools_order_irrelevant hmake hperm
    exact ⟨client, client', rfl, hmake', hsame⟩

end AIClient

end NeuralPlus
