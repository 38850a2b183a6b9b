import NeuralPlus.Common

/-!
# The libcurl transport

`transport.cpp`: what `CurlHttpTransport::send` checks and sets, the two
callbacks libcurl delivers a response through, and what becomes of the
transfer's result. libcurl itself is a parameter. A `char` is a `Char` here, so
`size()` counts characters.
-/

namespace NeuralPlus

open Fallible

inductive HttpMethod where
  | get | post | put | patch | delete
  deriving DecidableEq, Repr

def methodName : HttpMethod → String
  | .get => "GET"
  | .post => "POST"
  | .put => "PUT"
  | .patch => "PATCH"
  | .delete => "DELETE"

/-- The whole `HttpRequest`; the adapters leave its method and timeout as they are. -/
structure TransportRequest extends HttpRequest where
  method : HttpMethod := .post
  timeout : Int := 60000

structure HttpTransportOptions where
  connectTimeout : Int := 10000
  verifyTls : Bool := true
  proxy : String := ""
  userAgent : String := "NeuralPlus"
  maxResponseBodyBytes : SizeT := 16 * 1024 * 1024
  maxResponseHeaderBytes : SizeT := 256 * 1024

structure CurlHttpTransport where
  options : HttpTransportOptions
  connectTimeout_pos : 0 < options.connectTimeout
  maxResponseBodyBytes_ne : options.maxResponseBodyBytes ≠ 0
  maxResponseHeaderBytes_ne : options.maxResponseHeaderBytes ≠ 0

def CurlHttpTransport.make (globalInit : Bool) (options : HttpTransportOptions) : Except Exc CurlHttpTransport :=
  if htimeout : options.connectTimeout ≤ 0 then
    .error (.configuration "connect timeout must be greater than zero")
  else if hlimits : options.maxResponseBodyBytes = 0 ∨ options.maxResponseHeaderBytes = 0 then
    .error (.configuration "HTTP response size limits must be greater than zero")
  else if globalInit = false then .error (.transport "libcurl global initialization failed")
  else .ok ⟨options, by omega, fun h => hlimits (.inl h), fun h => hlimits (.inr h)⟩

/-! ## Text -/

def trimAscii (value : List Char) : List Char :=
  ((value.dropWhile isAsciiWhitespace).reverse.dropWhile isAsciiWhitespace).reverse

def validHeaderName (name : String) : Bool :=
  name ≠ "" && name.toList.all fun c =>
    ('A' ≤ c && c ≤ 'Z') || ('a' ≤ c && c ≤ 'z') || ('0' ≤ c && c ≤ '9') || "!#$%&'*+-.^_`|~".toList.contains c

def validHeaderValue (value : String) : Bool :=
  value.toList.all fun c => c = '\t' || (0x20 ≤ c.toNat && c.toNat ≠ 0x7F)

def isLoopbackHttpUrl (url : String) : Bool :=
  let chars := url.toList
  let authority := (chars.drop 7).takeWhile fun c => c ≠ '/' && c ≠ '?' && c ≠ '#'
  if asciiEqualCaseInsensitive (String.ofList (chars.take 7)) "http://" = false then false
  else if authority = [] ∨ '@' ∈ authority then false
  else if authority.head? = some '[' ∧ ']' ∉ authority then false
  else
    let host := String.ofList (if authority.head? = some '[' then (authority.drop 1).takeWhile (· ≠ ']')
      else authority.takeWhile (· ≠ ':'))
    asciiEqualCaseInsensitive host "localhost" || host = "127.0.0.1" || host = "::1"

/-! ## Callbacks -/

inductive Callback where
  | body | header
  deriving DecidableEq, Repr

/-- One call of a callback: the buffer, the size and the count of its items, and whether storing it finds memory. -/
structure Delivery where
  callback : Callback
  data : List Char
  itemSize : SizeT
  itemCount : SizeT
  allocates : Bool := true
  size : data.length = itemSize.toNat * itemCount.toNat

structure BodyWriteContext where
  body : List Char := []
  limit : SizeT
  limitExceeded : Bool := false
  writeFailed : Bool := false

structure HeaderWriteContext where
  headers : List HttpHeader := []
  limit : SizeT
  received : SizeT := 0
  limitExceeded : Bool := false
  writeFailed : Bool := false

def SizeT.ofLength {α : Type} (xs : List α) : SizeT := UInt64.ofNat xs.length

def callbackBytes (itemSize itemCount : SizeT) : Option SizeT :=
  if itemSize ≠ 0 ∧ itemCount > SizeT.max / itemSize then none else some (itemSize * itemCount)

/-- What the guards of both callbacks compare with: the limit less `std::min` of the two. -/
def remaining (limit used : SizeT) : SizeT := limit - if limit < used then limit else used

/-- The guard of both callbacks, none where it sets `limit_exceeded`. -/
def admitted (limit used : SizeT) (delivery : Delivery) : Option SizeT :=
  (callbackBytes delivery.itemSize delivery.itemCount).filter fun bytes => !decide (bytes > remaining limit used)

def writeBody (context : BodyWriteContext) (delivery : Delivery) : SizeT × BodyWriteContext :=
  match admitted context.limit (SizeT.ofLength context.body) delivery with
  | none => (0, { context with limitExceeded := true })
  | some bytes =>
    if delivery.allocates = false then (0, { context with writeFailed := true })
    else (bytes, { context with body := context.body ++ delivery.data.take bytes.toNat })

/-- The entry of one line, none where the line has no colon: "HTTP/1.1 200 OK" is skipped. -/
def headerField (line : List Char) : Option HttpHeader :=
  match line.findIdx? (· = ':') with
  | none => none
  | some separator =>
    some ⟨String.ofList (trimAscii (line.take separator)), String.ofList (trimAscii (line.drop (separator + 1))), false⟩

def writeHeader (context : HeaderWriteContext) (delivery : Delivery) : SizeT × HeaderWriteContext :=
  match admitted context.limit context.received delivery with
  | none => (0, { context with limitExceeded := true })
  | some bytes =>
    let context := { context with received := context.received + bytes }
    if delivery.allocates = false then (0, { context with writeFailed := true })
    else (bytes, { context with headers := context.headers ++ (headerField (delivery.data.take bytes.toNat)).toList })

structure WriteContexts where
  body : BodyWriteContext
  header : HeaderWriteContext

def WriteContexts.start (options : HttpTransportOptions) : WriteContexts :=
  ⟨{ limit := options.maxResponseBodyBytes }, { limit := options.maxResponseHeaderBytes }⟩

def deliver (contexts : WriteContexts) (delivery : Delivery) : SizeT × WriteContexts :=
  match delivery.callback with
  | .body =>
    let (returned, body) := writeBody contexts.body delivery
    (returned, { contexts with body })
  | .header =>
    let (returned, header) := writeHeader contexts.header delivery
    (returned, { contexts with header })

def deliverAll (contexts : WriteContexts) (deliveries : List Delivery) : WriteContexts :=
  deliveries.foldl (fun contexts delivery => (deliver contexts delivery).2) contexts

/-! ## One transfer -/

inductive CurlValue where
  | long (n : Int)
  | text (s : String)
  | pointer
  deriving DecidableEq, Repr

/-- libcurl in one `send`: what it accepts, what it delivers, the text of its
result, none for `CURLE_OK`, and the response code. -/
structure Libcurl where
  easyInit : Bool := true
  setopt : String → CurlValue → Bool := fun _ _ => true
  slistAppend : String → Bool := fun _ => true
  deliveries : List Delivery
  result : Option String := none
  responseCode : Option Int := some 200

def setOption (curl : Libcurl) (option : String) (value : CurlValue) : Except Exc Unit :=
  throwIf (curl.setopt option value = false) (.transport "libcurl request configuration failed")

def millisecondsAsLong (value : Int) (optionName : String) : Except Exc CurlValue := do
  throwIf (value ≤ 0) (.configuration (optionName ++ " must be greater than zero"))
  throwIf (value > 0x7FFFFFFFFFFFFFFF) (.configuration (optionName ++ " is too large"))
  return .long value

def setConnection (options : HttpTransportOptions) (curl : Libcurl) (request : TransportRequest) :
    Except Exc Unit := do
  setOption curl "CURLOPT_URL" (.text request.url)
  setOption curl "CURLOPT_NOSIGNAL" (.long 1)
  setOption curl "CURLOPT_FOLLOWLOCATION" (.long 0)
  setOption curl "CURLOPT_PROTOCOLS_STR" (.text "http,https")
  setOption curl "CURLOPT_REDIR_PROTOCOLS_STR" (.text "http,https")
  setOption curl "CURLOPT_CONNECTTIMEOUT_MS" (← millisecondsAsLong options.connectTimeout "connect timeout")
  setOption curl "CURLOPT_TIMEOUT_MS" (← millisecondsAsLong request.timeout "request timeout")
  setOption curl "CURLOPT_SSL_VERIFYPEER" (.long (if options.verifyTls then 1 else 0))
  setOption curl "CURLOPT_SSL_VERIFYHOST" (.long (if options.verifyTls then 2 else 0))
  setOption curl "CURLOPT_WRITEFUNCTION" .pointer
  setOption curl "CURLOPT_WRITEDATA" .pointer
  setOption curl "CURLOPT_HEADERFUNCTION" .pointer
  setOption curl "CURLOPT_HEADERDATA" .pointer
  if options.userAgent ≠ "" then setOption curl "CURLOPT_USERAGENT" (.text options.userAgent)
  if options.proxy ≠ "" then setOption curl "CURLOPT_PROXY" (.text options.proxy)
  if isLoopbackHttpUrl request.url then setOption curl "CURLOPT_NOPROXY" (.text "*")

def setBody (curl : Libcurl) (request : TransportRequest) : Except Exc Unit := do
  match request.method with
  | .get => setOption curl "CURLOPT_HTTPGET" (.long 1)
  | .post => setOption curl "CURLOPT_POST" (.long 1)
  | method => setOption curl "CURLOPT_CUSTOMREQUEST" (.text (methodName method))
  throwIf (request.method = .get ∧ request.body ≠ "") (.configuration "HTTP GET requests must not contain a body")
  if request.method ≠ .get then
    throwIf (request.body.length > 0x7FFFFFFFFFFFFFFF) (.configuration "HTTP request body is too large")
    setOption curl "CURLOPT_POSTFIELDS" (.text request.body)
    setOption curl "CURLOPT_POSTFIELDSIZE_LARGE" (.long request.body.length)

def setHeaders (curl : Libcurl) (headers : List HttpHeader) : Except Exc Unit := do
  headers.forM fun header => do
    throwIf (validHeaderName header.name = false ∨ validHeaderValue header.value = false)
      (.configuration "HTTP header contains invalid characters")
    throwIf (curl.slistAppend (header.name ++ ": " ++ header.value) = false)
      (.transport "libcurl could not allocate request headers")
  if headers ≠ [] then setOption curl "CURLOPT_HTTPHEADER" .pointer

def transferResult (curl : Libcurl) (contexts : WriteContexts) : Except Exc HttpResponse :=
  match curl.result, curl.responseCode with
  | some text, _ =>
    if contexts.body.limitExceeded || contexts.header.limitExceeded then
      .error (.transport "HTTP response exceeded the configured size limit")
    else if contexts.body.writeFailed || contexts.header.writeFailed then
      .error (.transport "HTTP response could not be stored")
    else .error (.transport ("HTTP request failed: " ++ text))
  | none, none => .error (.transport "libcurl could not read the HTTP response status")
  | none, some code =>
    .ok { status := code.bmod (2 ^ 32), headers := contexts.header.headers, body := String.ofList contexts.body.body }

def CurlHttpTransport.send (transport : CurlHttpTransport) (curl : Libcurl) (request : TransportRequest) :
    Except Exc HttpResponse := do
  throwIf (request.url = "") (.configuration "HTTP request URL must not be empty")
  throwIf (curl.easyInit = false) (.transport "libcurl could not allocate a request handle")
  setConnection transport.options curl request
  setBody curl request
  setHeaders curl request.headers
  transferResult curl (deliverAll (.start transport.options) curl.deliveries)

end NeuralPlus
