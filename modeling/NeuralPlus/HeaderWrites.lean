import NeuralPlus.Keyed
import NeuralPlus.Providers

/-!
# Writing headers

`set_header` and `apply_extra_headers` write a header list by name, the name
read without its ASCII case. Whatever is written, a list of distinct names
stays one, and each name carries its last write: no request an adapter sends
repeats a header.
-/

namespace NeuralPlus

def HttpHeader.key (header : HttpHeader) : String := asciiLowerText header.name

def HttpHeader.sameName (left right : HttpHeader) : Bool := asciiEqualCaseInsensitive left.name right.name

def DistinctNames (headers : List HttpHeader) : Prop :=
  headers.Pairwise fun left right => asciiEqualCaseInsensitive left.name right.name = false

instance : DecidablePred DistinctNames := fun headers =>
  inferInstanceAs (Decidable (headers.Pairwise fun (left right : HttpHeader) =>
    asciiEqualCaseInsensitive left.name right.name = false))

inductive HeaderCall where
  | set (name value : String) (sensitive : Bool)
  | extra (extraHeaders : List HttpHeader)

def HeaderCall.apply (headers : List HttpHeader) : HeaderCall → List HttpHeader
  | .set name value sensitive => setHeader headers name value sensitive
  | .extra extraHeaders => applyExtraHeaders headers extraHeaders

def HeaderCall.writes : HeaderCall → List HttpHeader
  | .set name value sensitive => [⟨name, value, sensitive⟩]
  | .extra extraHeaders => extraHeaders

def applyCalls (headers : List HttpHeader) (calls : List HeaderCall) : List HttpHeader :=
  calls.foldl HeaderCall.apply headers

/-- `result` is `headers` after `writes`. -/
structure Overwritten (headers writes result : List HttpHeader) : Prop where
  distinct : DistinctNames result
  lastWrite : ∀ before w after, writes = before ++ w :: after → (∀ x ∈ after, x.sameName w = false) →
    result.filter (fun header => header.sameName w) = [w]
  untouched : ∀ (i : Nat) (header : HttpHeader), headers[i]? = some header →
    (∀ w ∈ writes, w.sameName header = false) → result[i]? = some header
  oldNames : (result.take headers.length).map HttpHeader.key = headers.map HttpHeader.key
  newNames : (result.drop headers.length).map HttpHeader.key =
    ((writes.map HttpHeader.key).filter fun k => k ∉ headers.map HttpHeader.key).eraseDups

theorem HttpHeader.sameName_eq (left right : HttpHeader) : left.sameName right = decide (left.key = right.key) := by
  unfold sameName asciiEqualCaseInsensitive key
  rw [beq_eq_decide]

theorem HttpHeader.sameName_eq_false {left right : HttpHeader} : left.sameName right = false ↔ left.key ≠ right.key := by
  rw [sameName_eq, decide_eq_false_iff_not]

theorem distinctNames_iff {headers : List HttpHeader} :
    DistinctNames headers ↔ (headers.map HttpHeader.key).Nodup := by
  unfold DistinctNames List.Nodup
  rw [List.pairwise_map]
  apply List.Pairwise.iff
  intro left right
  exact HttpHeader.sameName_eq_false

/-! ## Calls as writes by key -/

theorem setHeader_eq (headers : List HttpHeader) (header : HttpHeader) :
    setHeader headers header.name header.value header.sensitive = Keyed.put HttpHeader.key headers header := by
  induction headers with
  | nil => rfl
  | cons first rest ih =>
    rw [setHeader, Keyed.put, ih]
    have he : asciiEqualCaseInsensitive first.name header.name = decide (first.key = header.key) :=
      HttpHeader.sameName_eq first header
    by_cases h : first.key = header.key
    · rw [if_pos h, if_pos (he.trans (decide_eq_true h))]
    · rw [if_neg h, if_neg (by rw [he]; simpa using h)]

theorem applyExtraHeaders_eq (headers extra : List HttpHeader) :
    applyExtraHeaders headers extra = Keyed.putAll HttpHeader.key headers extra := by
  unfold applyExtraHeaders Keyed.putAll
  congr 1
  funext headers header
  exact setHeader_eq headers header

theorem HeaderCall.apply_eq (headers : List HttpHeader) (call : HeaderCall) :
    call.apply headers = Keyed.putAll HttpHeader.key headers call.writes := by
  cases call with
  | set name value sensitive => exact setHeader_eq headers ⟨name, value, sensitive⟩
  | extra extraHeaders => exact applyExtraHeaders_eq headers extraHeaders

theorem applyCalls_eq (headers : List HttpHeader) (calls : List HeaderCall) :
    applyCalls headers calls = Keyed.putAll HttpHeader.key headers (calls.flatMap HeaderCall.writes) := by
  induction calls generalizing headers with
  | nil => rfl
  | cons call calls ih =>
    rw [List.flatMap_cons, Keyed.putAll_append, ← HeaderCall.apply_eq]
    exact ih (call.apply headers)

/-! ## What a sequence of calls leaves -/

theorem overwritten_putAll {headers : List HttpHeader} (h : (headers.map HttpHeader.key).Nodup)
    (writes : List HttpHeader) : Overwritten headers writes (Keyed.putAll HttpHeader.key headers writes) := by
  have hkeys : (Keyed.putAll HttpHeader.key headers writes).map HttpHeader.key = _ := Keyed.keys_putAll headers writes
  have hlen : headers.length = (headers.map HttpHeader.key).length := by rw [List.length_map]
  have hnodup := Keyed.nodup_putAll h writes
  constructor
  · exact distinctNames_iff.mpr hnodup
  · intro before w after he hafter
    subst he
    have hlast : Keyed.find? HttpHeader.key w.key
        (Keyed.putAll HttpHeader.key headers (before ++ w :: after)) = some w := by
      rw [Keyed.find?_putAll, Keyed.last?_eq_of_last fun x hx => HttpHeader.sameName_eq_false.mp (hafter x hx)]
      rfl
    simp only [HttpHeader.sameName_eq]
    exact Keyed.filter_eq_of_find? hnodup hlast
  · intro i header hi hw
    exact Keyed.getElem?_putAll hi fun w hm => HttpHeader.sameName_eq_false.mp (hw w hm)
  · rw [List.map_take, hkeys, hlen, List.take_left]
  · rw [List.map_drop, hkeys, hlen, List.drop_left]

theorem applyCalls_overwritten (headers : List HttpHeader) (calls : List HeaderCall) (h : DistinctNames headers) :
    Overwritten headers (calls.flatMap HeaderCall.writes) (applyCalls headers calls) := by
  rw [applyCalls_eq]
  exact overwritten_putAll (distinctNames_iff.mp h) _

def defaultHeaders : List HttpHeader :=
  [⟨"Authorization", "Bearer a", false⟩, ⟨"Content-Type", "application/json", false⟩]

def overrideCalls : List HeaderCall :=
  [.set "X-Team" "b" false,
    .extra [⟨"authorization", "Bearer c", true⟩, ⟨"AUTHORIZATION", "Bearer d", false⟩]]

theorem applyCalls_overwritten_authorization :
    applyCalls defaultHeaders overrideCalls =
      [⟨"AUTHORIZATION", "Bearer d", false⟩, ⟨"Content-Type", "application/json", false⟩, ⟨"X-Team", "b", false⟩] ∧
    Overwritten defaultHeaders (overrideCalls.flatMap HeaderCall.writes) (applyCalls defaultHeaders overrideCalls) :=
  ⟨by decide +kernel, applyCalls_overwritten defaultHeaders overrideCalls (by decide +kernel)⟩

/-! ## The adapters' headers -/

theorem DistinctNames.setHeader {headers : List HttpHeader} (h : DistinctNames headers) (name value : String)
    (sensitive : Bool) : DistinctNames (setHeader headers name value sensitive) := by
  rw [setHeader_eq headers ⟨name, value, sensitive⟩, distinctNames_iff]
  exact Keyed.nodup_put (distinctNames_iff.mp h) _

theorem DistinctNames.setUnless {headers : List HttpHeader} (h : DistinctNames headers) (c : Prop) [Decidable c]
    (name value : String) : DistinctNames (if c then headers else NeuralPlus.setHeader headers name value) := by
  by_cases hc : c
  · rwa [if_pos hc]
  · rw [if_neg hc]
    exact h.setHeader name value false

theorem DistinctNames.applyExtraHeaders {headers : List HttpHeader} (h : DistinctNames headers)
    (extra : List HttpHeader) : DistinctNames (applyExtraHeaders headers extra) := by
  rw [applyExtraHeaders_eq, distinctNames_iff]
  exact Keyed.nodup_putAll (distinctNames_iff.mp h) extra

theorem DistinctNames.of_names {headers : List HttpHeader} (names : List String)
    (hnames : headers.map HttpHeader.name = names) (h : (names.map asciiLowerText).Nodup) : DistinctNames headers := by
  rw [distinctNames_iff]
  subst hnames
  rwa [List.map_map] at h

theorem OpenAIClient.Impl.distinctNames_headers (impl : OpenAIClient.Impl) : DistinctNames impl.headers := by
  unfold headers
  apply DistinctNames.applyExtraHeaders
  have hbase : DistinctNames
      [{ name := "Authorization", value := "Bearer " ++ impl.apiKey },
       { name := "Content-Type", value := "application/json" }] :=
    .of_names ["Authorization", "Content-Type"] rfl (by decide)
  exact (hbase.setUnless ..).setUnless ..

theorem CompatibleClient.Impl.distinctNames_headers (impl : CompatibleClient.Impl) : DistinctNames impl.headers := by
  unfold headers
  apply DistinctNames.applyExtraHeaders
  have hbase : DistinctNames [{ name := "Content-Type", value := "application/json" }] :=
    .of_names ["Content-Type"] rfl (by decide)
  cases impl.apiKey with
  | none => exact hbase
  | some key => exact hbase.setHeader ..

theorem Adapter.distinctNames_headers (json : JsonText) (body : JsonValue) (adapter : Adapter) :
    DistinctNames (adapter.httpRequest json body).headers := by
  cases adapter with
  | openai impl => exact impl.distinctNames_headers
  | anthropic impl =>
    exact .applyExtraHeaders (.of_names ["x-api-key", "anthropic-version", "Content-Type"] rfl (by decide)) _
  | gemini impl => exact .applyExtraHeaders (.of_names ["x-goog-api-key", "Content-Type"] rfl (by decide)) _
  | compatible impl => exact impl.distinctNames_headers

end NeuralPlus
