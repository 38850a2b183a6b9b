import NeuralPlus.Transport
import Mathlib.Data.List.DropRight

/-!
# What a transfer stores

A delivery is stored whole, refused for its size, or refused for want of
memory. So the limits hold after any deliveries, and once libcurl stops at the
first refusal a response that `send` returns is complete.
-/

namespace NeuralPlus

open Fallible

/-! ## Sizes -/

theorem callbackBytes_eq_some {itemSize itemCount bytes : SizeT} :
    callbackBytes itemSize itemCount = some bytes ↔ bytes.toNat = itemSize.toNat * itemCount.toNat := by
  have hbytes := bytes.toNat_lt
  unfold callbackBytes
  by_cases hzero : itemSize = 0
  · rw [if_neg (fun h => h.1 hzero), hzero, Option.some.injEq, ← UInt64.toNat_inj, eq_comm]
    simp
  · have hpos : 0 < itemSize.toNat := by
      apply Nat.pos_of_ne_zero
      intro h
      exact hzero (UInt64.toNat_inj.mp h)
    have hwraps : itemCount > SizeT.max / itemSize ↔ 2 ^ 64 ≤ itemSize.toNat * itemCount.toNat := by
      rw [gt_iff_lt, UInt64.lt_iff_toNat_lt, UInt64.toNat_div, SizeT.max_toNat, Nat.div_lt_iff_lt_mul hpos,
        Nat.mul_comm]
      omega
    by_cases hover : itemCount > SizeT.max / itemSize
    · rw [if_pos ⟨hzero, hover⟩]
      have := hwraps.mp hover
      constructor
      · intro h
        cases h
      · intro h
        omega
    · rw [if_neg (fun h => hover h.2), Option.some.injEq, ← UInt64.toNat_inj, UInt64.toNat_mul,
        Nat.mod_eq_of_lt (by rw [hwraps] at hover; omega), eq_comm]

theorem remaining_toNat (limit used : SizeT) : (remaining limit used).toNat = limit.toNat - used.toNat := by
  unfold remaining
  by_cases hlt : limit < used
  · have := UInt64.lt_iff_toNat_lt.mp hlt
    rw [if_pos hlt, UInt64.toNat_sub_of_le _ _ (UInt64.le_refl _)]
    omega
  · rw [if_neg hlt, UInt64.toNat_sub_of_le _ _ (UInt64.not_lt.mp hlt)]

theorem admitted_eq_some {limit used bytes : SizeT} {delivery : Delivery} :
    admitted limit used delivery = some bytes ↔
      bytes.toNat = delivery.data.length ∧ delivery.data.length ≤ limit.toNat - used.toNat := by
  unfold admitted
  rw [Option.filter_eq_some_iff, callbackBytes_eq_some, ← delivery.size]
  apply and_congr_right
  intro hbytes
  simp only [gt_iff_lt, Bool.not_eq_true', decide_eq_false_iff_not, UInt64.not_lt]
  rw [UInt64.le_iff_toNat_le, remaining_toNat, hbytes]

theorem admitted_cases (limit used : SizeT) (delivery : Delivery) :
    (∃ bytes, admitted limit used delivery = some bytes ∧ bytes.toNat = delivery.data.length ∧
        delivery.data.length ≤ limit.toNat - used.toNat) ∨
      (admitted limit used delivery = none ∧ limit.toNat - used.toNat < delivery.data.length) := by
  by_cases hfits : delivery.data.length ≤ limit.toNat - used.toNat
  · have hlt := limit.toNat_lt
    have hbytes : (UInt64.ofNat delivery.data.length).toNat = delivery.data.length :=
      UInt64.toNat_ofNat_of_lt' (by rw [UInt64.size]; omega)
    exact Or.inl ⟨_, admitted_eq_some.mpr ⟨hbytes, hfits⟩, hbytes, hfits⟩
  · refine Or.inr ⟨?_, by omega⟩
    rw [Option.eq_none_iff_forall_ne_some]
    intro bytes h
    exact hfits (admitted_eq_some.mp h).2

/-! ## One delivery -/

namespace WriteContexts

def room (contexts : WriteContexts) : Callback → Nat
  | .body => contexts.body.limit.toNat - contexts.body.body.length
  | .header => contexts.header.limit.toNat - contexts.header.received.toNat

def store (contexts : WriteContexts) (delivery : Delivery) : WriteContexts :=
  match delivery.callback with
  | .body => { contexts with body := { contexts.body with body := contexts.body.body ++ delivery.data } }
  | .header =>
    { contexts with
      header :=
        { contexts.header with
          received := contexts.header.received + SizeT.ofLength delivery.data
          headers := contexts.header.headers ++ (headerField delivery.data).toList } }

def overflow (contexts : WriteContexts) : Callback → WriteContexts
  | .body => { contexts with body := { contexts.body with limitExceeded := true } }
  | .header => { contexts with header := { contexts.header with limitExceeded := true } }

def fail (contexts : WriteContexts) (delivery : Delivery) : WriteContexts :=
  match delivery.callback with
  | .body => { contexts with body := { contexts.body with writeFailed := true } }
  | .header =>
    { contexts with
      header :=
        { contexts.header with
          received := contexts.header.received + SizeT.ofLength delivery.data
          writeFailed := true } }

end WriteContexts

structure WithinLimits (options : HttpTransportOptions) (contexts : WriteContexts) : Prop where
  bodyLimit : contexts.body.limit = options.maxResponseBodyBytes
  headerLimit : contexts.header.limit = options.maxResponseHeaderBytes
  body : contexts.body.body.length ≤ options.maxResponseBodyBytes.toNat
  received : contexts.header.received.toNat ≤ options.maxResponseHeaderBytes.toNat

theorem WithinLimits.start (options : HttpTransportOptions) : WithinLimits options (.start options) where
  bodyLimit := rfl
  headerLimit := rfl
  body := Nat.zero_le _
  received := Nat.zero_le _

theorem SizeT.ofLength_toNat {α : Type} {xs : List α} {limit : SizeT} (h : xs.length ≤ limit.toNat) :
    (SizeT.ofLength xs).toNat = xs.length := by
  have := limit.toNat_lt
  exact UInt64.toNat_ofNat_of_lt' (by rw [UInt64.size]; omega)

theorem SizeT.add_ofLength_toNat {α : Type} {xs : List α} {used limit : SizeT} (hused : used.toNat ≤ limit.toNat)
    (hfits : xs.length ≤ limit.toNat - used.toNat) :
    (used + SizeT.ofLength xs).toNat = used.toNat + xs.length := by
  have hlength : (SizeT.ofLength xs).toNat = xs.length :=
    SizeT.ofLength_toNat (hfits.trans (Nat.sub_le limit.toNat used.toNat))
  rw [SizeT.toNat_add_of_le (show used.toNat + (SizeT.ofLength xs).toNat ≤ limit.toNat by omega), hlength]

theorem SizeT.eq_ofLength {α : Type} {xs : List α} {bytes : SizeT} (h : bytes.toNat = xs.length) :
    bytes = SizeT.ofLength xs := by
  unfold SizeT.ofLength
  rw [← h, UInt64.ofNat_toNat]

section
variable {options : HttpTransportOptions} {contexts : WriteContexts}

/-- Everything one call of a callback can do. -/
theorem deliver_cases (h : WithinLimits options contexts) (delivery : Delivery) :
    (delivery.data.length ≤ contexts.room delivery.callback ∧ delivery.allocates = true ∧
        deliver contexts delivery = (SizeT.ofLength delivery.data, contexts.store delivery)) ∨
      (delivery.data.length ≤ contexts.room delivery.callback ∧ delivery.allocates = false ∧
        deliver contexts delivery = (0, contexts.fail delivery)) ∨
      (contexts.room delivery.callback < delivery.data.length ∧
        deliver contexts delivery = (0, contexts.overflow delivery.callback)) := by
  have hbody : (SizeT.ofLength contexts.body.body).toNat = contexts.body.body.length := SizeT.ofLength_toNat h.body
  unfold deliver WriteContexts.room WriteContexts.store WriteContexts.fail WriteContexts.overflow
  cases delivery.callback with
  | body =>
    unfold writeBody
    rcases admitted_cases contexts.body.limit (SizeT.ofLength contexts.body.body) delivery with
      ⟨bytes, hadmitted, hbytes, hfits⟩ | ⟨hadmitted, hfull⟩
    · rw [hbody] at hfits
      cases hallocates : delivery.allocates with
      | true => exact Or.inl ⟨hfits, rfl, by simp [hadmitted, ← SizeT.eq_ofLength hbytes, hbytes]⟩
      | false => exact Or.inr (Or.inl ⟨hfits, rfl, by simp [hadmitted]⟩)
    · rw [hbody] at hfull
      exact Or.inr (Or.inr ⟨hfull, by simp [hadmitted]⟩)
  | header =>
    unfold writeHeader
    rcases admitted_cases contexts.header.limit contexts.header.received delivery with
      ⟨bytes, hadmitted, hbytes, hfits⟩ | ⟨hadmitted, hfull⟩
    · cases hallocates : delivery.allocates with
      | true => exact Or.inl ⟨hfits, rfl, by simp [hadmitted, ← SizeT.eq_ofLength hbytes, hbytes]⟩
      | false => exact Or.inr (Or.inl ⟨hfits, rfl, by simp [hadmitted, ← SizeT.eq_ofLength hbytes]⟩)
    · exact Or.inr (Or.inr ⟨hfull, by simp [hadmitted]⟩)

theorem WithinLimits.received_add (h : WithinLimits options contexts) {delivery : Delivery}
    (hfits : delivery.data.length ≤ contexts.room .header) :
    (contexts.header.received + SizeT.ofLength delivery.data).toNat =
      contexts.header.received.toNat + delivery.data.length := by
  have hreceived := h.received
  rw [← h.headerLimit] at hreceived
  exact SizeT.add_ofLength_toNat hreceived hfits

theorem WithinLimits.deliver (h : WithinLimits options contexts) (delivery : Delivery) :
    WithinLimits options (deliver contexts delivery).2 := by
  have hbody : delivery.data.length ≤ contexts.room .body →
      (contexts.body.body ++ delivery.data).length ≤ options.maxResponseBodyBytes.toNat := by
    intro hfits
    have hroom : delivery.data.length ≤ contexts.body.limit.toNat - contexts.body.body.length := hfits
    have := h.body
    rw [h.bodyLimit] at hroom
    rw [List.length_append]
    omega
  have hheader : delivery.data.length ≤ contexts.room .header →
      (contexts.header.received + SizeT.ofLength delivery.data).toNat ≤ options.maxResponseHeaderBytes.toNat := by
    intro hfits
    have hroom : delivery.data.length ≤ contexts.header.limit.toNat - contexts.header.received.toNat := hfits
    have := h.received
    rw [h.headerLimit] at hroom
    rw [h.received_add hfits]
    omega
  -- stored whole, refused for lack of memory, or refused for its size
  rcases deliver_cases h delivery with ⟨hfits, _, heq⟩ | ⟨hfits, _, heq⟩ | ⟨_, heq⟩
  · rw [heq]
    unfold WriteContexts.store
    cases hcallback : delivery.callback with
    | body => exact ⟨h.bodyLimit, h.headerLimit, hbody (hcallback ▸ hfits), h.received⟩
    | header => exact ⟨h.bodyLimit, h.headerLimit, h.body, hheader (hcallback ▸ hfits)⟩
  · rw [heq]
    unfold WriteContexts.fail
    cases hcallback : delivery.callback with
    | body => exact ⟨h.bodyLimit, h.headerLimit, h.body, h.received⟩
    | header => exact ⟨h.bodyLimit, h.headerLimit, h.body, hheader (hcallback ▸ hfits)⟩
  · rw [heq]
    cases delivery.callback with
    | body => exact ⟨h.bodyLimit, h.headerLimit, h.body, h.received⟩
    | header => exact ⟨h.bodyLimit, h.headerLimit, h.body, h.received⟩

end

theorem WithinLimits.deliverAll {options : HttpTransportOptions} : ∀ {contexts : WriteContexts} (deliveries : List Delivery),
    WithinLimits options contexts → WithinLimits options (deliverAll contexts deliveries)
  | _, [], h => h
  | _, delivery :: deliveries, h => WithinLimits.deliverAll deliveries (h.deliver delivery)

/-! ## A whole transfer -/

def Accepted : WriteContexts → List Delivery → Prop
  | _, [] => True
  | contexts, delivery :: deliveries =>
    (deliver contexts delivery).1.toNat = delivery.data.length ∧ Accepted (deliver contexts delivery).2 deliveries

instance Accepted.decidable : ∀ (contexts : WriteContexts) (deliveries : List Delivery),
    Decidable (Accepted contexts deliveries)
  | _, [] => isTrue trivial
  | contexts, delivery :: deliveries =>
    have := Accepted.decidable (deliver contexts delivery).2 deliveries
    inferInstanceAs (Decidable (_ ∧ _))

def bodyData (deliveries : List Delivery) : List Char :=
  (deliveries.filter fun delivery => delivery.callback = .body).flatMap Delivery.data

def headerLines (deliveries : List Delivery) : List (List Char) :=
  (deliveries.filter fun delivery => delivery.callback = .header).map Delivery.data

structure Holds (contexts : WriteContexts) (deliveries : List Delivery) : Prop where
  body : contexts.body.body = bodyData deliveries
  received : contexts.header.received.toNat = (headerLines deliveries).flatten.length
  headers : contexts.header.headers = (headerLines deliveries).filterMap headerField

theorem Holds.start (options : HttpTransportOptions) : Holds (.start options) [] where
  body := rfl
  received := rfl
  headers := rfl

section
variable {options : HttpTransportOptions} {contexts : WriteContexts} {deliveries : List Delivery} {delivery : Delivery}

theorem Holds.store (hlimits : WithinLimits options contexts) (h : Holds contexts deliveries)
    (hfits : delivery.data.length ≤ contexts.room delivery.callback) :
    Holds (contexts.store delivery) (deliveries ++ [delivery]) := by
  unfold WriteContexts.store
  cases hcallback : delivery.callback with
  | body =>
    refine ⟨?_, ?_, ?_⟩
    · simp [bodyData, hcallback, h.body]
    · simp [headerLines, hcallback, h.received]
    · simp [headerLines, hcallback, h.headers]
  | header =>
    refine ⟨?_, ?_, ?_⟩
    · simp [bodyData, hcallback, h.body]
    · rw [hlimits.received_add (hcallback ▸ hfits), h.received]
      simp [headerLines, hcallback]
    · rw [h.headers]
      cases hfield : headerField delivery.data <;> simp [headerLines, hcallback, hfield]

/-- An empty delivery that finds no memory is lost without loss. -/
theorem Holds.fail (h : Holds contexts deliveries) (hempty : delivery.data = []) :
    Holds (contexts.fail delivery) (deliveries ++ [delivery]) := by
  have hadd : contexts.header.received + SizeT.ofLength delivery.data = contexts.header.received := by
    rw [hempty]
    exact UInt64.add_zero _
  unfold WriteContexts.fail
  cases hcallback : delivery.callback with
  | body =>
    refine ⟨?_, ?_, ?_⟩
    · simp [bodyData, hcallback, h.body, hempty]
    · simp [headerLines, hcallback, h.received]
    · simp [headerLines, hcallback, h.headers]
  | header =>
    refine ⟨?_, ?_, ?_⟩
    · simp [bodyData, hcallback, h.body]
    · rw [hadd, h.received]
      simp [headerLines, hcallback, hempty]
    · rw [h.headers]
      simp [headerLines, hcallback, hempty, headerField]

theorem Holds.deliver (hlimits : WithinLimits options contexts) (h : Holds contexts deliveries)
    (haccepted : (deliver contexts delivery).1.toNat = delivery.data.length) :
    Holds (deliver contexts delivery).2 (deliveries ++ [delivery]) := by
  have hempty : ∀ {after : WriteContexts}, NeuralPlus.deliver contexts delivery = (0, after) → delivery.data = [] := by
    intro after heq
    rw [heq] at haccepted
    exact List.eq_nil_of_length_eq_zero haccepted.symm
  rcases deliver_cases hlimits delivery with ⟨hfits, _, heq⟩ | ⟨hfits, _, heq⟩ | ⟨hfull, heq⟩
  · rw [heq]
    exact h.store hlimits hfits
  · rw [heq]
    exact h.fail (hempty heq)
  · rw [hempty heq] at hfull
    exact absurd hfull (Nat.not_lt_zero _)

end

theorem Holds.deliverAll {options : HttpTransportOptions} : ∀ {contexts : WriteContexts} {before : List Delivery}
    (deliveries : List Delivery), WithinLimits options contexts → Holds contexts before → Accepted contexts deliveries →
    Holds (deliverAll contexts deliveries) (before ++ deliveries)
  | contexts, before, [], _, h, _ => by
    rw [List.append_nil]
    exact h
  | contexts, before, delivery :: deliveries, hlimits, h, haccepted => by
    have hnext := Holds.deliverAll deliveries (hlimits.deliver delivery) (h.deliver hlimits haccepted.1) haccepted.2
    rw [List.append_assoc] at hnext
    exact hnext

def given (deliveries : List Delivery) : Callback → Nat
  | .body => (bodyData deliveries).length
  | .header => (headerLines deliveries).flatten.length

def HttpTransportOptions.limit (options : HttpTransportOptions) : Callback → Nat
  | .body => options.maxResponseBodyBytes.toNat
  | .header => options.maxResponseHeaderBytes.toNat

theorem Holds.room {options : HttpTransportOptions} {contexts : WriteContexts} {deliveries : List Delivery}
    (hlimits : WithinLimits options contexts) (h : Holds contexts deliveries) (callback : Callback) :
    contexts.room callback = options.limit callback - given deliveries callback := by
  cases callback with
  | body =>
    unfold WriteContexts.room HttpTransportOptions.limit given
    rw [hlimits.bodyLimit, h.body]
  | header =>
    unfold WriteContexts.room HttpTransportOptions.limit given
    rw [hlimits.headerLimit, h.received]

/-- Whatever came before, a delivery that does not fit is refused whole, and only the flag tells. -/
theorem deliver_overflow {options : HttpTransportOptions} {contexts : WriteContexts} {delivery : Delivery}
    (hlimits : WithinLimits options contexts) (hfull : contexts.room delivery.callback < delivery.data.length) :
    deliver contexts delivery = (0, contexts.overflow delivery.callback) := by
  rcases deliver_cases hlimits delivery with ⟨hfits, _, _⟩ | ⟨hfits, _, _⟩ | ⟨_, heq⟩
  · omega
  · omega
  · exact heq

/-! ## What send returns -/

/-- libcurl aborts the transfer when a callback returns fewer bytes than it was given. -/
def Libcurl.Aborts (curl : Libcurl) (options : HttpTransportOptions) : Prop :=
  curl.result = none → Accepted (.start options) curl.deliveries

section
variable {transport : CurlHttpTransport} {curl : Libcurl} {request : TransportRequest} {response : HttpResponse}

theorem transferResult_ok {contexts : WriteContexts} (h : transferResult curl contexts = .ok response) :
    curl.result = none ∧ response.headers = contexts.header.headers ∧
      response.body = String.ofList contexts.body.body := by
  unfold transferResult at h
  cases hresult : curl.result with
  | some text =>
    simp only [hresult] at h
    by_cases hlimit : (contexts.body.limitExceeded || contexts.header.limitExceeded) = true
    · rw [if_pos hlimit] at h
      cases h
    · rw [if_neg hlimit] at h
      by_cases hfailed : (contexts.body.writeFailed || contexts.header.writeFailed) = true
      · rw [if_pos hfailed] at h
        cases h
      · rw [if_neg hfailed] at h
        cases h
  | none =>
    cases hcode : curl.responseCode with
    | none =>
      simp only [hresult, hcode] at h
      cases h
    | some code =>
      simp only [hresult, hcode] at h
      rw [← Except.ok.inj h]
      exact ⟨rfl, rfl, rfl⟩

theorem send_ok (h : transport.send curl request = .ok response) :
    transferResult curl (deliverAll (.start transport.options) curl.deliveries) = .ok response := by
  unfold CurlHttpTransport.send at h
  simp only [bind_eq_ok] at h
  obtain ⟨_, _, _, _, _, _, _, _, _, _, h⟩ := h
  exact h

/-- A response that `send` returns is the whole of what libcurl delivered. -/
theorem send_complete (haborts : curl.Aborts transport.options) (h : transport.send curl request = .ok response) :
    Accepted (.start transport.options) curl.deliveries ∧ response.body = String.ofList (bodyData curl.deliveries) ∧
      response.headers = (headerLines curl.deliveries).filterMap headerField := by
  obtain ⟨hresult, hheaders, hbody⟩ := transferResult_ok (send_ok h)
  have haccepted := haborts hresult
  have hholds := (Holds.start transport.options).deliverAll curl.deliveries (WithinLimits.start _) haccepted
  rw [List.nil_append] at hholds
  rw [hheaders, hbody, hholds.headers, hholds.body]
  exact ⟨haccepted, rfl, rfl⟩

end

theorem transfer_within_limits (transport : CurlHttpTransport) :
    (∀ itemSize itemCount bytes : SizeT,
      callbackBytes itemSize itemCount = some bytes ↔ bytes.toNat = itemSize.toNat * itemCount.toNat) ∧
    (∀ limit used : SizeT, (remaining limit used).toNat = limit.toNat - used.toNat) ∧
    (∀ deliveries, WithinLimits transport.options (deliverAll (.start transport.options) deliveries)) ∧
    (∀ deliveries, Accepted (.start transport.options) deliveries →
      Holds (deliverAll (.start transport.options) deliveries) deliveries ∧
        ∀ callback, (deliverAll (.start transport.options) deliveries).room callback =
          transport.options.limit callback - given deliveries callback) ∧
    (∀ deliveries delivery, (deliverAll (.start transport.options) deliveries).room delivery.callback <
        delivery.data.length →
      deliver (deliverAll (.start transport.options) deliveries) delivery =
        (0, (deliverAll (.start transport.options) deliveries).overflow delivery.callback)) ∧
    ∀ curl request response, curl.Aborts transport.options → transport.send curl request = .ok response →
      response.body = String.ofList (bodyData curl.deliveries) ∧
        response.headers = (headerLines curl.deliveries).filterMap headerField := by
  have hlimits : ∀ deliveries, WithinLimits transport.options (deliverAll (.start transport.options) deliveries) :=
    fun deliveries => (WithinLimits.start transport.options).deliverAll deliveries
  refine ⟨fun _ _ _ => callbackBytes_eq_some, remaining_toNat, hlimits, ?_, ?_, ?_⟩
  · intro deliveries haccepted
    have hholds := (Holds.start transport.options).deliverAll deliveries (WithinLimits.start _) haccepted
    exact ⟨hholds, hholds.room (hlimits deliveries)⟩
  · intro deliveries delivery hfull
    exact deliver_overflow (hlimits deliveries) hfull
  · intro curl request response haborts h
    exact (send_complete haborts h).2

/-! ## The field of a line -/

def asciiBlanks : List Char := [' ', '\t', '\r', '\n', Char.ofNat 12, Char.ofNat 11]

/-- The text without the blanks at its ends. -/
structure Trimmed (text trimmed : List Char) : Prop where
  around : ∃ left right, text = left ++ trimmed ++ right ∧ (∀ c ∈ left, c ∈ asciiBlanks) ∧ ∀ c ∈ right, c ∈ asciiBlanks
  first : ∀ c ∈ trimmed.head?, c ∉ asciiBlanks
  last : ∀ c ∈ trimmed.getLast?, c ∉ asciiBlanks

theorem mem_asciiBlanks {c : Char} : c ∈ asciiBlanks ↔ isAsciiWhitespace c = true := by
  simp [asciiBlanks, isAsciiWhitespace, or_assoc]

theorem trimAscii_eq (text : List Char) :
    trimAscii text = (text.dropWhile isAsciiWhitespace).rdropWhile isAsciiWhitespace := rfl

theorem trimmed_trimAscii (text : List Char) : Trimmed text (trimAscii text) := by
  rw [trimAscii_eq]
  refine ⟨⟨text.takeWhile isAsciiWhitespace, (text.dropWhile isAsciiWhitespace).rtakeWhile isAsciiWhitespace, ?_, ?_, ?_⟩,
    ?_, ?_⟩
  · rw [List.append_assoc, List.rdropWhile_append_rtakeWhile, List.takeWhile_append_dropWhile]
  · exact fun c hc => mem_asciiBlanks.mpr (List.mem_takeWhile_imp hc)
  · exact fun c hc => mem_asciiBlanks.mpr (List.mem_rtakeWhile_imp hc)
  · intro c hc hblank
    -- the first character left is the first one that the left end keeps
    obtain ⟨rest, hrest⟩ := List.rdropWhile_prefix isAsciiWhitespace (l := text.dropWhile isAsciiWhitespace)
    have hhead : (text.dropWhile isAsciiWhitespace).head? = some c := by
      rw [← hrest, List.head?_append_of_ne_nil _ (fun hnil => by rw [hnil] at hc; cases hc)]
      exact hc
    have hnot := List.head?_dropWhile_not isAsciiWhitespace text
    rw [hhead] at hnot
    dsimp only at hnot
    rw [mem_asciiBlanks.mp hblank] at hnot
    cases hnot
  · intro c hc hblank
    obtain ⟨hne, rfl⟩ := List.mem_getLast?_eq_getLast hc
    exact List.rdropWhile_last_not isAsciiWhitespace _ hne (mem_asciiBlanks.mp hblank)

theorem Trimmed.eq {text trimmed : List Char} (h : Trimmed text trimmed) : trimAscii text = trimmed := by
  obtain ⟨⟨left, right, rfl, hleft, hright⟩, hfirst, hlast⟩ := h
  have hleft' : ∀ c ∈ left, isAsciiWhitespace c = true := fun c hc => mem_asciiBlanks.mp (hleft c hc)
  have hright' : ∀ c ∈ right, isAsciiWhitespace c = true := fun c hc => mem_asciiBlanks.mp (hright c hc)
  rw [trimAscii_eq, List.append_assoc, List.dropWhile_append_of_pos hleft']
  cases trimmed with
  | nil =>
    rw [List.nil_append, List.dropWhile_eq_nil_iff.mpr hright', List.rdropWhile_nil]
  | cons c cs =>
    have hc : isAsciiWhitespace c = false := by
      rw [← Bool.not_eq_true, ← mem_asciiBlanks]
      exact hfirst c rfl
    rw [List.cons_append, List.dropWhile_cons, if_neg (by rw [hc]; decide), ← List.cons_append]
    induction right using List.reverseRecOn with
    | nil =>
      rw [List.append_nil, List.rdropWhile_eq_self_iff]
      intro hne hblank
      exact hlast _ (List.getLast?_eq_getLast_of_ne_nil hne) (mem_asciiBlanks.mpr hblank)
    | append_singleton right d ih =>
      have hd : isAsciiWhitespace d = true := hright' d (by simp)
      rw [← List.append_assoc, List.rdropWhile_concat_pos _ _ _ hd]
      exact ih (fun c hc => hright c (by simp [hc])) (fun c hc => hright' c (by simp [hc]))

theorem trimmed_iff {text trimmed : List Char} : Trimmed text trimmed ↔ trimAscii text = trimmed :=
  ⟨Trimmed.eq, fun h => h ▸ trimmed_trimAscii text⟩

/-- The field a line spells: its name stands before the first colon and its value behind, both without blanks around. -/
def Spells (line : List Char) (field : HttpHeader) : Prop :=
  ∃ name value, line = name ++ ':' :: value ∧ ':' ∉ name ∧
    Trimmed name field.name.toList ∧ Trimmed value field.value.toList ∧ field.sensitive = false

theorem headerField_eq_none {line : List Char} : headerField line = none ↔ ':' ∉ line := by
  unfold headerField
  cases hcolon : line.findIdx? (· = ':') with
  | none =>
    rw [List.findIdx?_eq_none_iff] at hcolon
    simp only [true_iff]
    intro hmem
    simpa using hcolon _ hmem
  | some separator =>
    obtain ⟨hlt, hat, _⟩ := List.findIdx?_eq_some_iff_getElem.mp hcolon
    simp only [reduceCtorEq, false_iff, not_not]
    rw [decide_eq_true_eq] at hat
    rw [← hat]
    exact List.getElem_mem hlt

theorem headerField_split {name value : List Char} (hname : ':' ∉ name) :
    headerField (name ++ ':' :: value) =
      some ⟨String.ofList (trimAscii name), String.ofList (trimAscii value), false⟩ := by
  have hcolon : (name ++ ':' :: value).findIdx? (· = ':') = some name.length := by
    have hnone : name.findIdx? (· = ':') = none := by
      rw [List.findIdx?_eq_none_iff]
      intro c hc
      rw [decide_eq_false_iff_not]
      rintro rfl
      exact hname hc
    rw [List.findIdx?_append, hnone]
    simp [List.findIdx?_cons]
  unfold headerField
  rw [hcolon]
  dsimp only
  rw [List.take_left, List.drop_append, List.drop_eq_nil_of_le (Nat.le_succ _)]
  simp

theorem headerField_eq_some {line : List Char} {field : HttpHeader} :
    headerField line = some field ↔ Spells line field := by
  constructor
  · intro h
    have hcolon : ':' ∈ line := by
      by_contra hno
      rw [headerField_eq_none.mpr hno] at h
      cases h
    obtain ⟨name, value, rfl, hname⟩ := List.eq_append_cons_of_mem hcolon
    rw [headerField_split hname, Option.some.injEq] at h
    refine ⟨name, value, rfl, hname, ?_, ?_, by rw [← h]⟩
    · rw [trimmed_iff, ← h, String.toList_ofList]
    · rw [trimmed_iff, ← h, String.toList_ofList]
  · rintro ⟨name, value, rfl, hname, htname, htvalue, hsensitive⟩
    rw [headerField_split hname, htname.eq, htvalue.eq, String.ofList_toList, String.ofList_toList, ← hsensitive]

/-! ## Several responses in one transfer -/

/-- The lines of one response: its status line, its field lines, and an empty line. -/
structure HeaderBlock where
  statusLine : List Char
  fieldLines : List (List Char)

def HeaderBlock.lines (block : HeaderBlock) : List (List Char) :=
  block.statusLine :: block.fieldLines ++ [['\r', '\n']]

/-- What the field lines spell, line by line and in order; a line without a colon is no field line. -/
def HeaderBlock.Fields (block : HeaderBlock) (fields : List HttpHeader) : Prop :=
  List.Forall₂ Spells (block.fieldLines.filter (':' ∈ ·)) fields

theorem HeaderBlock.fields_iff {block : HeaderBlock} {fields : List HttpHeader} :
    block.Fields fields ↔ block.fieldLines.filterMap headerField = fields := by
  unfold HeaderBlock.Fields
  generalize block.fieldLines = lines
  induction lines generalizing fields with
  | nil => simp [eq_comm]
  | cons line lines ih =>
    by_cases hcolon : ':' ∈ line
    · obtain ⟨field, hfield⟩ : ∃ field, headerField line = some field := by
        rw [← Option.ne_none_iff_exists', Ne, headerField_eq_none, not_not]
        exact hcolon
      rw [List.filter_cons_of_pos (by simpa using hcolon), List.filterMap_cons_some hfield]
      constructor
      · rintro (_ | ⟨hspells, hrest⟩)
        rw [ih.mp hrest, Option.some.inj (hfield.symm.trans (headerField_eq_some.mpr hspells))]
      · rintro rfl
        exact .cons (headerField_eq_some.mp hfield) (ih.mpr rfl)
    · rw [List.filter_cons_of_neg (by simpa using hcolon), List.filterMap_cons_none (headerField_eq_none.mpr hcolon)]
      exact ih

theorem HeaderBlock.filterMap_lines (block : HeaderBlock) : block.lines.filterMap headerField =
    (headerField block.statusLine).toList ++ block.fieldLines.filterMap headerField := by
  have hend : headerField ['\r', '\n'] = none := by decide
  unfold HeaderBlock.lines
  cases hstatus : headerField block.statusLine <;> simp [hstatus, hend]

/-- The lines a transfer delivers before the field lines of its final response. -/
def linesBefore (earlier : List HeaderBlock) (final : HeaderBlock) : List (List Char) :=
  earlier.flatMap HeaderBlock.lines ++ [final.statusLine]

theorem filterMap_blocks (earlier : List HeaderBlock) (final : HeaderBlock) :
    ((earlier ++ [final]).flatMap HeaderBlock.lines).filterMap headerField =
      (linesBefore earlier final).filterMap headerField ++ final.fieldLines.filterMap headerField := by
  unfold linesBefore
  rw [List.flatMap_append, List.filterMap_append, List.filterMap_append, List.append_assoc]
  congr 1
  simp only [List.flatMap_cons, List.flatMap_nil, List.append_nil]
  rw [HeaderBlock.filterMap_lines]
  cases hstatus : headerField final.statusLine <;> simp [hstatus]

/-- Every colon before the final field lines leaves an entry, and nothing else does. -/
theorem headers_final_iff {transport : CurlHttpTransport} {curl : Libcurl} {request : TransportRequest}
    {response : HttpResponse} {earlier : List HeaderBlock} {final : HeaderBlock}
    (haborts : curl.Aborts transport.options)
    (hlines : headerLines curl.deliveries = (earlier ++ [final]).flatMap HeaderBlock.lines)
    (hsend : transport.send curl request = .ok response) :
    (final.Fields response.headers ∧ ∀ fields, final.Fields fields → ∀ name, response.header name =
        (fields.find? fun field => asciiEqualCaseInsensitive field.name name).map HttpHeader.value) ↔
      ∀ line ∈ linesBefore earlier final, ':' ∉ line := by
  have hheaders : response.headers =
      (linesBefore earlier final).filterMap headerField ++ final.fieldLines.filterMap headerField := by
    rw [(send_complete haborts hsend).2.2, hlines, filterMap_blocks]
  have hnone : (linesBefore earlier final).filterMap headerField = [] ↔ ∀ line ∈ linesBefore earlier final, ':' ∉ line := by
    rw [List.filterMap_eq_nil_iff]
    simp only [headerField_eq_none]
  rw [← hnone]
  constructor
  · rintro ⟨h, _⟩
    rw [HeaderBlock.fields_iff, hheaders] at h
    exact List.append_left_eq_self.mp h.symm
  · intro h
    rw [h, List.nil_append] at hheaders
    refine ⟨HeaderBlock.fields_iff.mpr hheaders.symm, fun fields hfields name => ?_⟩
    unfold HttpResponse.header
    rw [hheaders, HeaderBlock.fields_iff.mp hfields]

def defaultTransport : CurlHttpTransport := ⟨{}, by decide, by decide, by decide⟩

def earlyHints : HeaderBlock := ⟨"HTTP/1.1 103 Early Hints\r\n".toList, ["x-request-id: early\r\n".toList]⟩

def okBlock : HeaderBlock := ⟨"HTTP/1.1 200 OK\r\n".toList, ["x-request-id: final\r\n".toList]⟩

def interimTransfer : Libcurl where
  deliveries :=
    [⟨.header, "HTTP/1.1 103 Early Hints\r\n".toList, 1, 26, true, by decide⟩,
      ⟨.header, "x-request-id: early\r\n".toList, 1, 21, true, by decide⟩, ⟨.header, ['\r', '\n'], 1, 2, true, by decide⟩,
      ⟨.header, "HTTP/1.1 200 OK\r\n".toList, 1, 17, true, by decide⟩,
      ⟨.header, "x-request-id: final\r\n".toList, 1, 21, true, by decide⟩, ⟨.header, ['\r', '\n'], 1, 2, true, by decide⟩,
      ⟨.body, "hello".toList, 1, 5, true, by decide⟩]

def interimResponse : HttpResponse where
  status := 200
  headers := [⟨"x-request-id", "early", false⟩, ⟨"x-request-id", "final", false⟩]
  body := "hello"

def getRequest : TransportRequest := { url := "https://localhost/", headers := [], body := "", method := .get }

theorem headers_of_interim :
    headerLines interimTransfer.deliveries = ([earlyHints] ++ [okBlock]).flatMap HeaderBlock.lines ∧
      Accepted (.start defaultTransport.options) interimTransfer.deliveries ∧
      defaultTransport.send interimTransfer getRequest = .ok interimResponse ∧
      interimResponse.header "x-request-id" = some "early" ∧ ¬ okBlock.Fields interimResponse.headers := by
  refine ⟨by decide +kernel, by decide +kernel, by decide +kernel, by decide +kernel, ?_⟩
  intro h
  have hlength := h.length_eq
  revert hlength
  decide +kernel

theorem headers_final_iff_interim :
    ¬ (okBlock.Fields interimResponse.headers ∧ ∀ fields, okBlock.Fields fields → ∀ name, interimResponse.header name =
        (fields.find? fun field => asciiEqualCaseInsensitive field.name name).map HttpHeader.value) := by
  have haborts : interimTransfer.Aborts defaultTransport.options := fun _ => by decide +kernel
  have hlines : headerLines interimTransfer.deliveries = ([earlyHints] ++ [okBlock]).flatMap HeaderBlock.lines := by
    decide +kernel
  have hsend : defaultTransport.send interimTransfer getRequest = .ok interimResponse := by decide +kernel
  have hcolon : ':' ∈ "x-request-id: early\r\n".toList := by decide +kernel
  intro h
  exact (headers_final_iff haborts hlines hsend).mp h _ (by decide +kernel) hcolon

end NeuralPlus
