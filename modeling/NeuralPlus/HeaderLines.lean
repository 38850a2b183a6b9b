import NeuralPlus.TransportSound

/-!
# The header strings of a request

`send` hands libcurl one string for each header of a request. The checks on
names and values keep each of them one line with one name, so no header adds a
line or passes for another one.
-/

namespace NeuralPlus

open Fallible

/-- The string that `curl_slist_append` is called with. -/
def HttpHeader.serialized (header : HttpHeader) : String := header.name ++ ": " ++ header.value

/-- Nothing in the text ends a line, or the text where it is read as a C string. -/
def SingleLine (text : String) : Prop := ∀ c ∈ text.toList, c ≠ '\r' ∧ c ≠ '\n' ∧ c ≠ Char.ofNat 0

def HttpHeader.Checked (header : HttpHeader) : Prop :=
  validHeaderName header.name = true ∧ validHeaderValue header.value = true

/-! ## What the checks exclude -/

theorem validHeaderName_char {name : String} (h : validHeaderName name = true) {c : Char} (hc : c ∈ name.toList) :
    c ≠ ':' ∧ isAsciiWhitespace c = false ∧ c ≠ Char.ofNat 0 := by
  unfold validHeaderName at h
  rw [Bool.and_eq_true, List.all_eq_true] at h
  have hcond := h.2 c hc
  refine ⟨?_, ?_, ?_⟩
  · rintro rfl
    revert hcond
    decide
  · by_contra hspace
    rw [Bool.not_eq_false] at hspace
    unfold isAsciiWhitespace at hspace
    simp only [Bool.or_eq_true, decide_eq_true_eq] at hspace
    rcases hspace with ((((rfl | rfl) | rfl) | rfl) | rfl) | rfl <;> revert hcond <;> decide
  · rintro rfl
    revert hcond
    decide

theorem validHeaderValue_singleLine {value : String} (h : validHeaderValue value = true) : SingleLine value := by
  intro c hc
  unfold validHeaderValue at h
  have hcond := List.all_eq_true.mp h c hc
  refine ⟨?_, ?_, ?_⟩ <;> rintro rfl <;> revert hcond <;> decide

theorem HttpHeader.toList_serialized (header : HttpHeader) :
    header.serialized.toList = header.name.toList ++ ':' :: ' ' :: header.value.toList := by
  simp [HttpHeader.serialized, String.toList_append]

namespace HttpHeader.Checked

variable {header other : HttpHeader}

theorem colon_not_mem (h : header.Checked) : ':' ∉ header.name.toList := fun hmem =>
  (validHeaderName_char h.1 hmem).1 rfl

theorem singleLine (h : header.Checked) : SingleLine header.serialized := by
  intro c hc
  rw [HttpHeader.toList_serialized, List.mem_append, List.mem_cons, List.mem_cons] at hc
  rcases hc with hname | rfl | rfl | hvalue
  · obtain ⟨_, hblank, hnul⟩ := validHeaderName_char h.1 hname
    refine ⟨?_, ?_, hnul⟩ <;> rintro rfl <;> revert hblank <;> decide
  · decide
  · decide
  · exact validHeaderValue_singleLine h.2 c hvalue

/-- Read as a header line, the string is the header again, its value without the blanks around it. -/
theorem spells (h : header.Checked) {value : String} (hvalue : Trimmed header.value.toList value.toList) :
    Spells header.serialized.toList ⟨header.name, value, false⟩ := by
  obtain ⟨⟨left, right, hsplit, hleft, hright⟩, hfirst, hlast⟩ := hvalue
  refine ⟨header.name.toList, ' ' :: header.value.toList, header.toList_serialized, h.colon_not_mem, ?_, ?_, rfl⟩
  · have hname : ∀ c ∈ header.name.toList, c ∉ asciiBlanks := by
      intro c hc
      rw [mem_asciiBlanks, (validHeaderName_char h.1 hc).2.1]
      decide
    exact ⟨⟨[], [], by simp, by simp, by simp⟩, fun c hc => hname c (List.mem_of_mem_head? hc),
      fun c hc => hname c (List.mem_of_mem_getLast? hc)⟩
  · refine ⟨⟨' ' :: left, right, by rw [hsplit]; rfl, ?_, hright⟩, hfirst, hlast⟩
    rw [List.forall_mem_cons]
    exact ⟨by decide, hleft⟩

theorem takeWhile_serialized (h : header.Checked) :
    header.serialized.toList.takeWhile (· ≠ ':') = header.name.toList := by
  have hname : ∀ c ∈ header.name.toList, decide (c ≠ ':') = true := by
    intro c hc
    exact decide_eq_true (validHeaderName_char h.1 hc).1
  rw [HttpHeader.toList_serialized, List.takeWhile_append_of_pos hname]
  simp

theorem serialized_inj (h : header.Checked) (h' : other.Checked) (heq : header.serialized = other.serialized) :
    header.name = other.name ∧ header.value = other.value := by
  have hname : header.name.toList = other.name.toList := by
    rw [← h.takeWhile_serialized, heq, h'.takeWhile_serialized]
  have hlists := congrArg String.toList heq
  rw [HttpHeader.toList_serialized, HttpHeader.toList_serialized, hname, List.append_cancel_left_eq, List.cons.injEq,
    List.cons.injEq] at hlists
  exact ⟨String.toList_inj.mp hname, String.toList_inj.mp hlists.2.2⟩

end HttpHeader.Checked

/-! ## What a sent request handed over -/

theorem setHeaders_ok_iff {curl : Libcurl} {headers : List HttpHeader} : setHeaders curl headers = .ok () ↔
    (∀ header ∈ headers, header.Checked ∧ curl.slistAppend header.serialized = true) ∧
      (headers ≠ [] → curl.setopt "CURLOPT_HTTPHEADER" .pointer = true) := by
  have hheader (header : HttpHeader) : (do
      throwIf (validHeaderName header.name = false ∨ validHeaderValue header.value = false)
        (Exc.configuration "HTTP header contains invalid characters")
      throwIf (curl.slistAppend (header.name ++ ": " ++ header.value) = false)
        (Exc.transport "libcurl could not allocate request headers")) = Except.ok () ↔
      header.Checked ∧ curl.slistAppend header.serialized = true := by
    simp [bind_eq_ok, throwIf_eq_ok, HttpHeader.Checked, HttpHeader.serialized]
  have hoption : (if headers ≠ [] then setOption curl "CURLOPT_HTTPHEADER" .pointer else pure ()) = Except.ok () ↔
      (headers ≠ [] → curl.setopt "CURLOPT_HTTPHEADER" .pointer = true) := by
    by_cases hnil : headers = [] <;> simp [hnil, setOption, throwIf_eq_ok]
  unfold setHeaders
  rw [bind_eq_ok, ← hoption]
  constructor
  · rintro ⟨_, hall, hset⟩
    exact ⟨fun header hmem => (hheader header).mp (forM_eq_ok.mp hall header hmem), hset⟩
  · rintro ⟨hall, hset⟩
    exact ⟨(), forM_eq_ok.mpr fun header hmem => (hheader header).mpr (hall header hmem), hset⟩

theorem setHeaders_of_send {transport : CurlHttpTransport} {curl : Libcurl} {request : TransportRequest}
    {response : HttpResponse} (h : transport.send curl request = .ok response) :
    setHeaders curl request.headers = .ok () := by
  unfold CurlHttpTransport.send at h
  simp only [bind_eq_ok] at h
  obtain ⟨_, _, _, _, _, _, _, _, _, hheaders, _⟩ := h
  exact hheaders

theorem serialized_map_inj {headers others : List HttpHeader} (h : ∀ header ∈ headers, header.Checked)
    (h' : ∀ header ∈ others, header.Checked)
    (heq : headers.map HttpHeader.serialized = others.map HttpHeader.serialized) :
    headers.map (fun header => (header.name, header.value)) = others.map fun header => (header.name, header.value) := by
  induction headers generalizing others with
  | nil => rw [List.map_eq_nil_iff.mp heq.symm]
  | cons header headers ih =>
    cases others with
    | nil => simp at heq
    | cons other others =>
      rw [List.map_cons, List.map_cons, List.cons.injEq] at heq
      rw [List.forall_mem_cons] at h h'
      obtain ⟨hname, hvalue⟩ := h.1.serialized_inj h'.1 heq.1
      rw [List.map_cons, List.map_cons, hname, hvalue, ih h.2 h'.2 heq.2]

/-- **No header adds a line or passes for another one.** What `send` handed to libcurl for the headers is a single line
each, reads as the header it was made of, and two requests with the same strings have the same headers. -/
theorem headers_unambiguous {transport : CurlHttpTransport} {curl : Libcurl} {request : TransportRequest}
    {response : HttpResponse} (hsent : transport.send curl request = .ok response) :
    (∀ header ∈ request.headers, curl.slistAppend header.serialized = true ∧ SingleLine header.serialized ∧
      ∀ value : String, Trimmed header.value.toList value.toList →
        Spells header.serialized.toList ⟨header.name, value, false⟩) ∧
    ∀ (transport' : CurlHttpTransport) (curl' : Libcurl) (request' : TransportRequest) (response' : HttpResponse),
      transport'.send curl' request' = .ok response' →
      request'.headers.map HttpHeader.serialized = request.headers.map HttpHeader.serialized →
      request'.headers.map (fun header => (header.name, header.value)) =
        request.headers.map fun header => (header.name, header.value) := by
  obtain ⟨hheaders, _⟩ := setHeaders_ok_iff.mp (setHeaders_of_send hsent)
  constructor
  · intro header hheader
    obtain ⟨hchecked, happended⟩ := hheaders header hheader
    exact ⟨happended, hchecked.singleLine, fun _ => hchecked.spells⟩
  · intro transport' curl' request' response' hsent' heq
    obtain ⟨hheaders', _⟩ := setHeaders_ok_iff.mp (setHeaders_of_send hsent')
    exact serialized_map_inj (fun header hheader => (hheaders' header hheader).1)
      (fun header hheader => (hheaders header hheader).1) heq

def keyedRequest : TransportRequest :=
  { url := "https://localhost/", headers := [⟨"x-key", " a: b ", false⟩, ⟨"x-none", "", false⟩], body := "", method := .get }

theorem headers_unambiguous_keyed :
    Spells "x-key:  a: b ".toList ⟨"x-key", "a: b", false⟩ ∧
    ∀ (transport : CurlHttpTransport) (curl : Libcurl) (request : TransportRequest) (response : HttpResponse),
      transport.send curl request = .ok response →
      request.headers.map HttpHeader.serialized = ["x-key:  a: b ", "x-none: "] →
      request.headers.map (fun header => (header.name, header.value)) = [("x-key", " a: b "), ("x-none", "")] := by
  have hsent : defaultTransport.send interimTransfer keyedRequest = .ok interimResponse := by decide +kernel
  obtain ⟨hlines, hsame⟩ := headers_unambiguous hsent
  obtain ⟨_, _, hspells⟩ := hlines ⟨"x-key", " a: b ", false⟩ List.mem_cons_self
  exact ⟨hspells "a: b" (trimmed_iff.mpr (by decide +kernel)), hsame⟩

end NeuralPlus
