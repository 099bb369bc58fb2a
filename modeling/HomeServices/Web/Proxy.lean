import HomeServices.Text.UrlPath

/-!
# The web service's proxy to the gateway

Requests under `/api/v1` are forwarded to the gateway, and its responses relayed.

* `HeaderValue`, `StatusCode`, `Uri`, `Body`: what requests and responses consist of.
* `isDroppedRequestHeader`, `isHopByHopResponse`: the header fields that are not passed on.
* `apiProxy`, `proxyUrl`, `outgoing`: the request to the gateway.
* `relay`, `proxyHandler`: the response to the client.
* `relay_eq`, **`values_relay`**: the header fields of a relayed response.
* `Faithful`, **`faithful_iff`**: when a response is the gateway's.
-/

namespace Web

abbrev Bytes := List UInt8

def asBytes (s : String) : Bytes := s.toList.flatMap String.utf8EncodeChar

/-! ## Requests and responses -/

/-- A byte that a header value may have. -/
def isHeaderByte (b : UInt8) : Bool := (32 ≤ b && b != 127) || b == 9

def isVisibleAscii (b : UInt8) : Bool := (32 ≤ b && b < 127) || b == 9

structure HeaderValue where
  bytes : Bytes
  valid : bytes.all isHeaderByte = true
  deriving DecidableEq

def HeaderValue.fromBytes (bytes : Bytes) : Option HeaderValue :=
  if h : bytes.all isHeaderByte = true then some ⟨bytes, h⟩ else none

def HeaderValue.toStr (v : HeaderValue) : Option String :=
  if v.bytes.all isVisibleAscii then some (String.ofList (v.bytes.map fun b => Char.ofNat b.toNat))
  else none

@[simp] theorem HeaderValue.fromBytes_bytes (v : HeaderValue) : fromBytes v.bytes = some v :=
  dif_pos v.valid

/-- Header fields in order, with lower-case names. -/
abbrev HeaderMap := List (String × HeaderValue)

/-- The values of a header field, in order. -/
def values (name : String) (headers : HeaderMap) : List HeaderValue :=
  (headers.filter fun h => h.1 = name).map Prod.snd

structure StatusCode where
  code : ℕ
  valid : 100 ≤ code ∧ code < 1000
  deriving DecidableEq

def StatusCode.fromU16 (n : ℕ) : Option StatusCode :=
  if h : 100 ≤ n ∧ n < 1000 then some ⟨n, h⟩ else none

@[simp] theorem StatusCode.fromU16_code (s : StatusCode) : fromU16 s.code = some s := dif_pos s.valid

def payloadTooLarge : StatusCode := ⟨413, by decide⟩

def badGateway : StatusCode := ⟨502, by decide⟩

/-- A body arrives in chunks, until it ends or fails. -/
structure Body where
  chunks : List Bytes
  failed : Bool := false

def Body.bytes (b : Body) : Except Unit Bytes := if b.failed then .error () else .ok b.chunks.flatten

def Body.toBytes (b : Body) (limit : ℕ) : Except Unit Bytes :=
  if limit < b.chunks.flatten.length then .error () else b.bytes

/-- The path and the query of a request, as they were sent. -/
structure Uri where
  path : String
  query : Option String := none
  rooted : path.toList.head? = some '/'
  path_chars : ∀ c ∈ path.toList, UrlPath.isControl c = false ∧ UrlPath.endsPath c = false
  query_chars : ∀ q ∈ query, ∀ c ∈ q.toList, UrlPath.isControl c = false ∧ c ≠ '#'

structure Request where
  method : String
  url : String
  headers : HeaderMap
  body : Option Bytes

/-- What the exchange with the gateway ends in. -/
structure Upstream where
  status : StatusCode
  headers : HeaderMap
  body : Body

structure Response where
  status : StatusCode
  headers : HeaderMap
  body : Bytes

def StatusCode.intoResponse (status : StatusCode) : Response := ⟨status, [], []⟩

def octetStream : HeaderValue := ⟨asBytes "application/octet-stream", by decide +kernel⟩

/-- `(StatusCode, Bytes)` as a response. -/
def intoResponse (status : StatusCode) (body : Bytes) : Response :=
  ⟨status, [("content-type", octetStream)], body⟩

/-! ## The request to the gateway -/

/-- Maximum request body size for proxied requests (1 MiB). -/
def maxBodySize : ℕ := 1024 * 1024

/-- Hop-by-hop headers, and those the proxy sets itself. -/
def isDroppedRequestHeader (name : String) : Bool :=
  name == "connection" || name == "te" || name == "trailer" || name == "transfer-encoding" ||
    name == "upgrade" || name == "keep-alive" || name == "proxy-authenticate" ||
    name == "proxy-authorization" || name == "content-length" || name == "host" ||
    name == "x-forwarded-for" || name == "x-forwarded-proto" || name == "x-forwarded-host"

def isHopByHopResponse (name : String) : Bool :=
  name == "connection" || name == "te" || name == "trailer" || name == "transfer-encoding" ||
    name == "upgrade" || name == "keep-alive"

structure ProxyState where
  gatewayUrl : String

def trimEndMatches (c : Char) (s : String) : String := String.ofList (s.toList.rdropWhile (· == c))

def apiProxy (gatewayUrl : String) : ProxyState := ⟨trimEndMatches '/' gatewayUrl⟩

def proxyUrl (state : ProxyState) (uri : Uri) : String :=
  let query := (uri.query.map fun q => "?" ++ q).getD ""
  state.gatewayUrl ++ "/api/v1" ++ uri.path ++ query

/-- A request that is being built; what cannot be built is not sent. -/
abbrev RequestBuilder := Except Unit Request

def RequestBuilder.request (method url : String) : RequestBuilder :=
  match UrlPath.parse url.toList with
  | some _ => .ok ⟨method, url, [], none⟩
  | none => .error ()

def RequestBuilder.header (name : String) (value : Bytes) (req : RequestBuilder) : RequestBuilder := do
  let req ← req
  match HeaderValue.fromBytes value with
  | some v => return { req with headers := req.headers ++ [(name, v)] }
  | none => .error ()

def RequestBuilder.body (bytes : Bytes) (req : RequestBuilder) : RequestBuilder := do
  let req ← req
  return { req with body := some bytes }

/-- Forward all safe headers. -/
def forwardHeaders (headers : HeaderMap) (req : RequestBuilder) : RequestBuilder :=
  headers.foldl (fun req h => if isDroppedRequestHeader h.1 then req else req.header h.1 h.2.bytes) req

/-- Add reverse proxy headers, appending to any existing values. -/
def addProxyHeaders (clientIp : String) (headers : HeaderMap) (req : RequestBuilder) : RequestBuilder :=
  let forwardedFor := match headers.lookup "x-forwarded-for" with
    | some existing => existing.toStr.getD "" ++ ", " ++ clientIp
    | none => clientIp
  let req := req.header "x-forwarded-for" (asBytes forwardedFor)
  let req := match headers.lookup "x-forwarded-proto" with
    | some proto => req.header "x-forwarded-proto" proto.bytes
    | none => req.header "x-forwarded-proto" (asBytes "https")
  match headers.lookup "x-forwarded-host" with
  | some host => req.header "x-forwarded-host" host.bytes
  | none =>
    match headers.lookup "host" with
    | some host => req.header "x-forwarded-host" host.bytes
    | none => req

/-- The request to the gateway. -/
def outgoing (state : ProxyState) (clientIp method : String) (uri : Uri) (headers : HeaderMap)
    (body : Bytes) : RequestBuilder :=
  let req := RequestBuilder.request method (proxyUrl state uri)
  let req := addProxyHeaders clientIp headers (forwardHeaders headers req)
  if body.isEmpty then req else req.body body

/-! ## The response to the client -/

/-- Relay what the exchange ended in. -/
def relay (resp : Upstream) : Response :=
  let status := (StatusCode.fromU16 resp.status.code).getD badGateway
  -- a body that cannot be read counts as an empty one
  let body := resp.body.bytes.toOption.getD []
  resp.headers.foldl (fun response h =>
    if isHopByHopResponse h.1 then response
    else match HeaderValue.fromBytes h.2.bytes with
      | some v => { response with headers := response.headers ++ [(h.1, v)] }
      | none => response) (intoResponse status body)

/-- Pass a request on to the gateway; `send` is the client's whole exchange, with the redirects that it
follows. -/
def proxyHandler (send : Request → Except Unit Upstream) (state : ProxyState) (clientIp method : String)
    (uri : Uri) (headers : HeaderMap) (body : Body) : Response :=
  match body.toBytes maxBodySize with
  | .error _ => payloadTooLarge.intoResponse
  | .ok bytes =>
    match (outgoing state clientIp method uri headers bytes).bind send with
    | .ok resp => relay resp
    | .error _ => badGateway.intoResponse

/-- A relayed response has the header fields of the gateway behind one of its own. -/
theorem relay_eq (resp : Upstream) : relay resp =
    ⟨resp.status, ("content-type", octetStream) :: resp.headers.filter fun h => !isHopByHopResponse h.1,
      resp.body.bytes.toOption.getD []⟩ := by
  have hfold : ∀ (headers : HeaderMap) (response : Response), headers.foldl (fun response h =>
      if isHopByHopResponse h.1 then response
      else match HeaderValue.fromBytes h.2.bytes with
        | some v => { response with headers := response.headers ++ [(h.1, v)] }
        | none => response) response = { response with
          headers := response.headers ++ headers.filter fun h => !isHopByHopResponse h.1 } := by
    intro headers
    induction headers with
    | nil => exact fun response => by simp
    | cons h headers ih =>
      intro response
      rw [List.foldl_cons, ih]
      by_cases hhop : isHopByHopResponse h.1 = true
      · simp [hhop]
      · simp [hhop]
  unfold relay
  rw [hfold, StatusCode.fromU16_code]
  rfl

/-- **Every field that is not hop-by-hop is relayed**, the content type behind one of the proxy. -/
theorem values_relay (resp : Upstream) {name : String} (hname : isHopByHopResponse name = false) :
    values name (relay resp).headers =
      (if name = "content-type" then [octetStream] else []) ++ values name resp.headers := by
  have hkept : values name (resp.headers.filter fun h => !isHopByHopResponse h.1) =
      values name resp.headers := by
    unfold values
    rw [List.filter_filter]
    refine congrArg (List.map Prod.snd) (List.filter_congr fun h _ => ?_)
    by_cases hh : h.1 = name
    · simp [hh, hname]
    · simp [hh]
  rw [relay_eq, ← hkept]
  by_cases hct : name = "content-type"
  · subst hct
    simp [values]
  · simp [values, hct, Ne.symm hct]

/-- Hop-by-hop fields are not relayed. -/
theorem values_relay_hop (resp : Upstream) {name : String} (hname : isHopByHopResponse name = true) :
    values name (relay resp).headers = [] := by
  have hct : name ≠ "content-type" := by
    rintro rfl
    exact absurd hname (by decide +kernel)
  rw [relay_eq]
  simp only [values, List.filter_cons, hct.symm, decide_false, Bool.false_eq_true, if_false,
    List.map_eq_nil_iff, List.filter_filter]
  refine List.filter_eq_nil_iff.mpr fun h _ => ?_
  by_cases hh : h.1 = name
  · simp [hh, hname]
  · simp [hh]

/-! ## Faithful responses -/

/-- The response is the gateway's if its body can be read, and reports a bad gateway otherwise. -/
def Faithful (resp : Upstream) (response : Response) : Prop :=
  match resp.body.bytes with
  | .ok body => response.status = resp.status ∧ response.body = body ∧
      ∀ name, isHopByHopResponse name = false → values name response.headers = values name resp.headers
  | .error _ => response.status = badGateway

theorem proxyHandler_answered {send : Request → Except Unit Upstream} {state : ProxyState}
    {clientIp method : String} {uri : Uri} {headers : HeaderMap} {body : Body} {bytes : Bytes} {req : Request}
    {resp : Upstream} (hbytes : body.toBytes maxBodySize = .ok bytes)
    (hreq : outgoing state clientIp method uri headers bytes = .ok req) (hresp : send req = .ok resp) :
    proxyHandler send state clientIp method uri headers body = relay resp := by
  unfold proxyHandler
  rw [hbytes]
  simp only [hreq, Except.bind, hresp]

/-- **A response is faithful only when the gateway's own status says what a lost body should.** -/
theorem faithful_iff {send : Request → Except Unit Upstream} {state : ProxyState} {clientIp method : String}
    {uri : Uri} {headers : HeaderMap} {body : Body} {bytes : Bytes} {req : Request} {resp : Upstream}
    (hbytes : body.toBytes maxBodySize = .ok bytes)
    (hreq : outgoing state clientIp method uri headers bytes = .ok req) (hresp : send req = .ok resp) :
    Faithful resp (proxyHandler send state clientIp method uri headers body) ↔
      resp.body.failed = true ∧ resp.status = badGateway := by
  rw [proxyHandler_answered hbytes hreq hresp]
  unfold Faithful Body.bytes
  by_cases hfailed : resp.body.failed = true
  · simp only [hfailed, if_true, true_and]
    rw [relay_eq]
  · simp only [hfailed, if_false, Bool.false_eq_true, false_and, iff_false]
    rintro ⟨-, -, hvalues⟩
    have hct := hvalues "content-type" (by decide +kernel)
    rw [values_relay resp (by decide +kernel)] at hct
    have hlength := congrArg List.length hct
    simp at hlength

/-! ## Samples -/

namespace Sample

def listen : ProxyState := apiProxy "http://[::1]:8080"

def users : Uri := ⟨"/users", none, rfl, List.all_iff_forall_prop.mp (by decide), by simp⟩

def json : HeaderValue := ⟨asBytes "application/json", by decide +kernel⟩

/-- The gateway is itself behind something that failed. -/
def broken : Upstream := ⟨badGateway, [], ⟨[[1], [2]], true⟩⟩

def answered : Upstream := ⟨⟨200, by decide⟩, [("content-type", json)], ⟨[[1], [2]], false⟩⟩

/-- The answer breaks off. -/
def cutOff : Upstream := ⟨⟨200, by decide⟩, [("content-type", json)], ⟨[[1]], true⟩⟩

/-- What is checked to be built is a request. -/
theorem exists_request {b : RequestBuilder} (h : b.isOk = true) : ∃ req, b = .ok req := by
  cases b with
  | ok req => exact ⟨req, rfl⟩
  | error _ => cases h

theorem outgoing_users : ∃ req, outgoing listen "::1" "GET" users [] [] = .ok req :=
  exists_request (by decide +kernel)

/-- A lost body is reported when the gateway's status was a bad gateway. -/
theorem faithful_broken :
    Faithful broken (proxyHandler (fun _ => .ok broken) listen "::1" "GET" users [] ⟨[], false⟩) := by
  obtain ⟨req, hreq⟩ := outgoing_users
  have hbytes : (⟨[], false⟩ : Body).toBytes maxBodySize = .ok [] := rfl
  exact (faithful_iff hbytes hreq rfl).mpr ⟨rfl, rfl⟩

/-- **A response that was read has a content type more, and one that was cut off a body less.** -/
theorem unfaithful_answers :
    ¬ Faithful answered (proxyHandler (fun _ => .ok answered) listen "::1" "GET" users [] ⟨[], false⟩) ∧
    ¬ Faithful cutOff (proxyHandler (fun _ => .ok cutOff) listen "::1" "GET" users [] ⟨[], false⟩) := by
  obtain ⟨req, hreq⟩ := outgoing_users
  have hbytes : (⟨[], false⟩ : Body).toBytes maxBodySize = .ok [] := rfl
  refine ⟨fun hfaithful => ?_, fun hfaithful => ?_⟩
  · rw [proxyHandler_answered hbytes hreq rfl] at hfaithful
    have hct := hfaithful.2.2 "content-type" (by decide +kernel)
    rw [values_relay answered (by decide +kernel)] at hct
    exact absurd hct (by decide +kernel)
  · rw [proxyHandler_answered hbytes hreq rfl, relay_eq] at hfaithful
    exact absurd (show cutOff.status = badGateway from hfaithful) (by decide)

end Sample

end Web
