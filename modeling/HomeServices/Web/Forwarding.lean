import HomeServices.Text.Hex
import HomeServices.Web.Proxy

/-!
# The header fields of a forwarded request

The proxy drops some header fields of a request, forwards the rest and adds its own. What it should drop is
hop-by-hop; what it adds continues the chain of client addresses.

* `outgoing_headers`: the header fields of the request to the gateway.
* `Chained`, **`chained_iff`**: when the chain of addresses is continued.
* `connectionTokens`, `HopByHop`, `Sends`; `Filtered`, **`filtered_iff`**: when no hop-by-hop field is sent.
-/

namespace Web

/-! ## Values of a header field -/

theorem values_append (name : String) (headers headers' : HeaderMap) :
    values name (headers ++ headers') = values name headers ++ values name headers' := by
  unfold values
  rw [List.filter_append, List.map_append]

theorem values_cons_self (name : String) (v : HeaderValue) (headers : HeaderMap) :
    values name ((name, v) :: headers) = v :: values name headers := by
  unfold values
  rw [List.filter_cons_of_pos (by simp), List.map_cons]

theorem values_cons_ne {name name' : String} (h : name' ≠ name) (v : HeaderValue) (headers : HeaderMap) :
    values name ((name', v) :: headers) = values name headers := by
  unfold values
  rw [List.filter_cons_of_neg (by simpa using h)]

theorem lookup_eq_head? (name : String) (headers : HeaderMap) :
    headers.lookup name = (values name headers).head? := by
  induction headers with
  | nil => rfl
  | cons h headers ih =>
    obtain ⟨name', v⟩ := h
    by_cases hname : name' = name
    · subst hname
      rw [values_cons_self, List.lookup_cons_self, List.head?_cons]
    · rw [values_cons_ne hname, ← ih, List.lookup_cons, beq_false_of_ne (Ne.symm hname)]

/-! ## The request to the gateway -/

theorem HeaderValue.fromBytes_eq_some {value : Bytes} {v : HeaderValue} :
    fromBytes value = some v ↔ v.bytes = value := by
  constructor
  · intro h
    unfold fromBytes at h
    split_ifs at h
    cases h
    rfl
  · rintro rfl
    exact fromBytes_bytes v

theorem HeaderValue.bytes_inj {v v' : HeaderValue} (h : v.bytes = v'.bytes) : v = v' :=
  Option.some.inj (by rw [← fromBytes_bytes v, h, fromBytes_bytes])

theorem header_eq_ok {name : String} {value : Bytes} {b : RequestBuilder} {req : Request} :
    b.header name value = .ok req ↔ ∃ req₀ v, b = .ok req₀ ∧ v.bytes = value ∧
      req = { req₀ with headers := req₀.headers ++ [(name, v)] } := by
  cases b with
  | error e =>
    constructor
    · intro h
      cases h
    · rintro ⟨req₀, v, h, -⟩
      cases h
  | ok req₁ =>
    unfold RequestBuilder.header
    constructor
    · intro h
      cases hv : HeaderValue.fromBytes value with
      | none =>
        rw [hv] at h
        cases h
      | some v =>
        rw [hv] at h
        cases h
        exact ⟨req₁, v, rfl, HeaderValue.fromBytes_eq_some.mp hv, rfl⟩
    · rintro ⟨req₀, v, h, hv, rfl⟩
      cases h
      rw [HeaderValue.fromBytes_eq_some.mpr hv]
      rfl

/-- The header fields that are forwarded. -/
def forwarded (headers : HeaderMap) : HeaderMap := headers.filter fun h => !isDroppedRequestHeader h.1

theorem forwardHeaders_ok (headers : HeaderMap) : ∀ req : Request, forwardHeaders headers (.ok req) =
    .ok { req with headers := req.headers ++ forwarded headers } := by
  unfold forwardHeaders forwarded
  induction headers with
  | nil =>
    intro req
    rw [List.filter_nil, List.append_nil]
    rfl
  | cons h headers ih =>
    intro req
    rw [List.foldl_cons]
    by_cases hdropped : isDroppedRequestHeader h.1 = true
    · rw [if_pos hdropped, ih, List.filter_cons_of_neg (by simpa using hdropped)]
    · have hheader : RequestBuilder.header h.1 h.2.bytes (.ok req) =
          .ok { req with headers := req.headers ++ [h] } := header_eq_ok.mpr ⟨req, h.2, rfl, rfl, rfl⟩
      rw [if_neg hdropped, hheader, ih, List.filter_cons_of_pos (by simpa using hdropped),
        List.append_assoc, List.singleton_append]

theorem forwardHeaders_error (headers : HeaderMap) (e : Unit) :
    forwardHeaders headers (.error e) = .error e := by
  unfold forwardHeaders
  induction headers with
  | nil => rfl
  | cons h headers ih =>
    rw [List.foldl_cons]
    split_ifs <;> exact ih

/-- The text of `X-Forwarded-For`. -/
def forwardedFor (clientIp : String) (headers : HeaderMap) : String :=
  match headers.lookup "x-forwarded-for" with
  | some existing => existing.toStr.getD "" ++ ", " ++ clientIp
  | none => clientIp

def https : HeaderValue := ⟨asBytes "https", by decide +kernel⟩

/-- The value of `X-Forwarded-Proto`. -/
def forwardedProto (headers : HeaderMap) : HeaderValue := (headers.lookup "x-forwarded-proto").getD https

/-- The value of `X-Forwarded-Host`, where there is one. -/
def forwardedHost (headers : HeaderMap) : Option HeaderValue :=
  (headers.lookup "x-forwarded-host").or (headers.lookup "host")

/-- The header fields that the proxy adds. -/
def added (forwardedFor : HeaderValue) (headers : HeaderMap) : HeaderMap :=
  ("x-forwarded-for", forwardedFor) :: ("x-forwarded-proto", forwardedProto headers) ::
    (forwardedHost headers).toList.map fun host => ("x-forwarded-host", host)

section Outgoing

variable {state : ProxyState} {clientIp method : String} {uri : Uri} {headers : HeaderMap} {body : Bytes}
  {req : Request}

theorem addProxyHeaders_eq (b : RequestBuilder) : addProxyHeaders clientIp headers b =
    (forwardedHost headers).toList.foldl (fun req host => req.header "x-forwarded-host" host.bytes)
      ((b.header "x-forwarded-for" (asBytes (forwardedFor clientIp headers))).header "x-forwarded-proto"
        (forwardedProto headers).bytes) := by
  unfold addProxyHeaders forwardedProto forwardedHost forwardedFor
  cases headers.lookup "x-forwarded-proto" <;> cases headers.lookup "x-forwarded-host" <;>
    cases headers.lookup "host" <;> rfl

theorem addProxyHeaders_eq_ok {b : RequestBuilder} (h : addProxyHeaders clientIp headers b = .ok req) :
    ∃ req₀ v, b = .ok req₀ ∧ v.bytes = asBytes (forwardedFor clientIp headers) ∧
      req.headers = req₀.headers ++ added v headers := by
  rw [addProxyHeaders_eq] at h
  unfold added
  cases hhost : forwardedHost headers with
  | none =>
    rw [hhost] at h
    obtain ⟨req₁, proto, h₁, hproto, rfl⟩ := header_eq_ok.mp h
    obtain ⟨req₀, v, hb, hv, rfl⟩ := header_eq_ok.mp h₁
    refine ⟨req₀, v, hb, hv, ?_⟩
    rw [HeaderValue.bytes_inj hproto]
    exact List.append_assoc _ _ _
  | some host =>
    rw [hhost] at h
    obtain ⟨req₂, host', h₂, hhost', rfl⟩ := header_eq_ok.mp h
    obtain ⟨req₁, proto, h₁, hproto, rfl⟩ := header_eq_ok.mp h₂
    obtain ⟨req₀, v, hb, hv, rfl⟩ := header_eq_ok.mp h₁
    refine ⟨req₀, v, hb, hv, ?_⟩
    rw [HeaderValue.bytes_inj hproto, HeaderValue.bytes_inj hhost']
    change ((req₀.headers ++ [_]) ++ [_]) ++ [_] = _
    rw [List.append_assoc, List.append_assoc]
    rfl

/-- **The header fields of the request to the gateway**: those that are forwarded, and those of the proxy. -/
theorem outgoing_headers (hreq : outgoing state clientIp method uri headers body = .ok req) :
    ∃ v : HeaderValue, v.bytes = asBytes (forwardedFor clientIp headers) ∧
      req.headers = forwarded headers ++ added v headers := by
  unfold outgoing at hreq
  have hadded : ∃ req', addProxyHeaders clientIp headers (forwardHeaders headers
      (RequestBuilder.request method (proxyUrl state uri))) = .ok req' ∧ req'.headers = req.headers := by
    dsimp only at hreq
    split_ifs at hreq with hempty
    · exact ⟨req, hreq, rfl⟩
    · cases hadd : addProxyHeaders clientIp headers (forwardHeaders headers
          (RequestBuilder.request method (proxyUrl state uri))) with
      | error e =>
        rw [hadd] at hreq
        cases hreq
      | ok req' =>
        rw [hadd] at hreq
        cases hreq
        exact ⟨req', rfl, rfl⟩
  obtain ⟨req', hadd, hheaders⟩ := hadded
  obtain ⟨req₀, v, hfwd, hv, hreq'⟩ := addProxyHeaders_eq_ok hadd
  refine ⟨v, hv, ?_⟩
  rw [← hheaders, hreq']
  unfold RequestBuilder.request at hfwd
  split at hfwd
  · rw [forwardHeaders_ok] at hfwd
    cases hfwd
    rfl
  · rw [forwardHeaders_error] at hfwd
    cases hfwd

end Outgoing

theorem values_forwarded (name : String) (headers : HeaderMap) :
    values name (forwarded headers) = if isDroppedRequestHeader name then [] else values name headers := by
  unfold values forwarded
  rw [List.filter_filter]
  split_ifs with hdropped
  · rw [List.map_eq_nil_iff]
    refine List.filter_eq_nil_iff.mpr fun h _ => ?_
    by_cases hname : h.1 = name
    · simp [hname, hdropped]
    · simp [hname]
  · refine congrArg (List.map Prod.snd) (List.filter_congr fun h _ => ?_)
    by_cases hname : h.1 = name
    · simp [hname, hdropped]
    · simp [hname]

theorem values_added (name : String) (v : HeaderValue) (headers : HeaderMap) :
    values name (added v headers) =
      if name = "x-forwarded-for" then [v]
      else if name = "x-forwarded-proto" then [forwardedProto headers]
      else if name = "x-forwarded-host" then (forwardedHost headers).toList
      else [] := by
  have hhost : values name ((forwardedHost headers).toList.map fun host => ("x-forwarded-host", host)) =
      if name = "x-forwarded-host" then (forwardedHost headers).toList else [] := by
    cases forwardedHost headers with
    | none => split_ifs <;> rfl
    | some host =>
      split_ifs with hname
      · subst hname
        exact values_cons_self _ host []
      · exact values_cons_ne (Ne.symm hname) host []
  unfold added
  split_ifs with hfor hproto hhost'
  · subst hfor
    rw [values_cons_self, values_cons_ne (by decide), hhost, if_neg (by decide)]
  · subst hproto
    rw [values_cons_ne (by decide), values_cons_self, hhost, if_neg (by decide)]
  · rw [values_cons_ne (Ne.symm hfor), values_cons_ne (Ne.symm hproto), hhost, if_pos hhost']
  · rw [values_cons_ne (Ne.symm hfor), values_cons_ne (Ne.symm hproto), hhost, if_neg hhost']

/-! ## The chain of client addresses -/

/-- The values in order, then the address of the client, separated by commas. -/
def chain (existing : List HeaderValue) (clientIp : String) : Bytes :=
  existing.flatMap (fun v => v.bytes ++ asBytes ", ") ++ asBytes clientIp

/-- The request is sent with the chain of addresses, in one field. -/
def Chained (clientIp : String) (headers sent : HeaderMap) : Prop :=
  (values "x-forwarded-for" sent).map HeaderValue.bytes = [chain (values "x-forwarded-for" headers) clientIp]

theorem asBytes_append (s t : String) : asBytes (s ++ t) = asBytes s ++ asBytes t := by
  unfold asBytes
  rw [String.toList_append, List.flatMap_append]

/-- A value in visible ASCII is a text, and the text is the value. -/
theorem asBytes_toStr {v : HeaderValue} (h : v.bytes.all isVisibleAscii = true) :
    ∃ s, v.toStr = some s ∧ asBytes s = v.bytes := by
  refine ⟨_, if_pos h, ?_⟩
  have hchar : ∀ b ∈ v.bytes, (Char.ofNat b.toNat).toNat = b.toNat ∧ b.toNat < 128 := by
    intro b hb
    have hvisible := List.all_eq_true.mp h b hb
    have hall : ∀ n < 256, isVisibleAscii (UInt8.ofNat n) = true → (Char.ofNat n).toNat = n ∧ n < 128 := by
      decide +kernel
    exact hall b.toNat b.toNat_lt (by rwa [UInt8.ofNat_toNat])
  have hascii : ∀ c ∈ v.bytes.map (fun b => Char.ofNat b.toNat), c.toNat < 128 := by
    intro c hc
    obtain ⟨b, hb, rfl⟩ := List.mem_map.mp hc
    rw [(hchar b hb).1]
    exact (hchar b hb).2
  have hback : ∀ b ∈ v.bytes,
      ((fun c : Char => UInt8.ofNat c.toNat) ∘ fun b => Char.ofNat b.toNat) b = id b := by
    intro b hb
    rw [Function.comp_apply, (hchar b hb).1, UInt8.ofNat_toNat]
    rfl
  change Text.utf8 (String.ofList _).toList = v.bytes
  rw [String.toList_ofList, Text.utf8_eq_map hascii, List.map_map, List.map_congr_left hback, List.map_id]

/-- The text of `X-Forwarded-For` is the chain of the first value. -/
theorem asBytes_forwardedFor (clientIp : String) {headers : HeaderMap}
    (hascii : ∀ v ∈ values "x-forwarded-for" headers, v.bytes.all isVisibleAscii = true) :
    asBytes (forwardedFor clientIp headers) = chain ((values "x-forwarded-for" headers).take 1) clientIp := by
  unfold forwardedFor chain
  rw [lookup_eq_head?]
  cases hvalues : values "x-forwarded-for" headers with
  | nil => rfl
  | cons v rest =>
    obtain ⟨s, hs, hbytes⟩ := asBytes_toStr (hascii v (by rw [hvalues]; exact List.mem_cons_self))
    simp only [List.head?_cons, hs, Option.getD_some, asBytes_append, hbytes, List.take_succ_cons,
      List.take_zero, List.flatMap_cons, List.flatMap_nil, List.append_nil]

/-- The chain of the first value is that of all, if there is no other. -/
theorem chain_take_one (existing : List HeaderValue) (clientIp : String) :
    chain (existing.take 1) clientIp = chain existing clientIp ↔ existing.length ≤ 1 := by
  constructor
  · intro h
    rcases existing with _ | ⟨v, _ | ⟨v', rest⟩⟩
    · exact Nat.zero_le 1
    · exact Nat.le_refl 1
    · -- a second value is at least its separator longer
      have hlen := congrArg List.length h
      simp only [chain, List.take_succ_cons, List.take_zero, List.flatMap_cons, List.flatMap_nil,
        List.length_append, List.length_nil] at hlen
      have hsep : (asBytes ", ").length = 2 := by decide +kernel
      omega
  · intro h
    rw [List.take_of_length_le h]

section Fields

variable {state : ProxyState} {clientIp method : String} {uri : Uri} {headers : HeaderMap} {body : Bytes}
  {req : Request}

/-- One field is sent, with the chain of the first value. -/
theorem bytes_forwardedFor (hreq : outgoing state clientIp method uri headers body = .ok req)
    (hascii : ∀ v ∈ values "x-forwarded-for" headers, v.bytes.all isVisibleAscii = true) :
    (values "x-forwarded-for" req.headers).map HeaderValue.bytes =
      [chain ((values "x-forwarded-for" headers).take 1) clientIp] := by
  obtain ⟨v, hv, hheaders⟩ := outgoing_headers hreq
  have hdropped : isDroppedRequestHeader "x-forwarded-for" = true := by decide +kernel
  rw [hheaders, values_append, values_forwarded, if_pos hdropped, values_added, if_pos rfl, List.nil_append,
    List.map_singleton, hv, asBytes_forwardedFor clientIp hascii]

/-- **The chain of client addresses is continued if and only if the request came with one field at most.** -/
theorem chained_iff (hreq : outgoing state clientIp method uri headers body = .ok req)
    (hascii : ∀ v ∈ values "x-forwarded-for" headers, v.bytes.all isVisibleAscii = true) :
    Chained clientIp headers req.headers ↔ (values "x-forwarded-for" headers).length ≤ 1 := by
  unfold Chained
  rw [bytes_forwardedFor hreq hascii, List.singleton_inj, chain_take_one]

end Fields

/-! ## Hop-by-hop fields -/

/-- The hop-by-hop fields of RFC 2616 §13.5.1. -/
def hopByHop : List String :=
  ["connection", "te", "trailer", "transfer-encoding", "upgrade", "keep-alive", "proxy-authenticate",
    "proxy-authorization"]

/-- The fields that the proxy sets itself. -/
def setByProxy : List String :=
  ["content-length", "host", "x-forwarded-for", "x-forwarded-proto", "x-forwarded-host"]

def isBlank (c : Char) : Bool := c == ' ' || c == '\t'

/-- The header names listed in a `Connection` field, in lower case. -/
def connectionTokens (v : HeaderValue) : List String :=
  (((v.bytes.map fun b => Char.ofNat b.toNat).splitOn ',').map fun token =>
    String.ofList (((token.dropWhile isBlank).rdropWhile isBlank).map Char.toLower)).filter (· ≠ "")

/-- A `Connection` field names the header field. -/
def Nominated (headers : HeaderMap) (name : String) : Prop :=
  ∃ v ∈ values "connection" headers, name ∈ connectionTokens v

def HopByHop (headers : HeaderMap) (name : String) : Prop := name ∈ hopByHop ∨ Nominated headers name

/-- No hop-by-hop field is sent, and every other one that the proxy does not set is sent as it came. -/
def Filtered (headers sent : HeaderMap) : Prop :=
  (∀ name, HopByHop headers name → values name sent = []) ∧
    ∀ name, ¬ HopByHop headers name → name ∉ setByProxy → values name sent = values name headers

/-- The header fields with which a request is sent. -/
def Sends (headers : HeaderMap) (name : String) : Prop :=
  isDroppedRequestHeader name = false ∧ values name headers ≠ [] ∨
    name = "x-forwarded-for" ∨ name = "x-forwarded-proto" ∨
    name = "x-forwarded-host" ∧ (values "x-forwarded-host" headers ≠ [] ∨ values "host" headers ≠ [])

theorem isDroppedRequestHeader_iff {name : String} :
    isDroppedRequestHeader name = true ↔ name ∈ hopByHop ∨ name ∈ setByProxy := by
  unfold isDroppedRequestHeader hopByHop setByProxy
  simp only [Bool.or_eq_true, beq_iff_eq, List.mem_cons, List.not_mem_nil, or_false, or_assoc]

theorem forwardedHost_ne_nil {headers : HeaderMap} : (forwardedHost headers).toList ≠ [] ↔
    values "x-forwarded-host" headers ≠ [] ∨ values "host" headers ≠ [] := by
  unfold forwardedHost
  rw [ne_eq, Option.toList_eq_nil_iff, Option.or_eq_none_iff, lookup_eq_head?, lookup_eq_head?,
    List.head?_eq_none_iff, List.head?_eq_none_iff, not_and_or]

section Filter

variable {state : ProxyState} {clientIp method : String} {uri : Uri} {headers : HeaderMap} {body : Bytes}
  {req : Request}

/-- A field that is not dropped is sent as it came. -/
theorem values_outgoing (hreq : outgoing state clientIp method uri headers body = .ok req) {name : String}
    (hdropped : isDroppedRequestHeader name = false) : values name req.headers = values name headers := by
  obtain ⟨v, -, hheaders⟩ := outgoing_headers hreq
  have hset : name ∉ setByProxy := fun hmem => by
    rw [isDroppedRequestHeader_iff.mpr (Or.inr hmem)] at hdropped
    cases hdropped
  have hadded : values name (added v headers) = [] := by
    rw [values_added, if_neg, if_neg, if_neg]
    all_goals
      rintro rfl
      exact hset (by decide)
  rw [hheaders, values_append, values_forwarded, hdropped, hadded, List.append_nil]
  rfl

theorem sends_iff (hreq : outgoing state clientIp method uri headers body = .ok req) (name : String) :
    values name req.headers ≠ [] ↔ Sends headers name := by
  cases hdropped : isDroppedRequestHeader name with
  | false =>
    have hset : ¬ (name = "x-forwarded-for" ∨ name = "x-forwarded-proto" ∨ name = "x-forwarded-host" ∧
        (values "x-forwarded-host" headers ≠ [] ∨ values "host" headers ≠ [])) := by
      rintro (rfl | rfl | ⟨rfl, -⟩) <;> exact absurd hdropped (by decide +kernel)
    rw [values_outgoing hreq hdropped, Sends, hdropped, eq_self, true_and, or_iff_left hset]
  | true =>
    obtain ⟨v, -, hheaders⟩ := outgoing_headers hreq
    rw [hheaders, values_append, values_forwarded, hdropped, if_pos rfl, List.nil_append, values_added, Sends,
      hdropped]
    split_ifs with hfor hproto hhost
    · exact iff_of_true (List.cons_ne_nil _ _) (Or.inr (Or.inl hfor))
    · exact iff_of_true (List.cons_ne_nil _ _) (Or.inr (Or.inr (Or.inl hproto)))
    · rw [forwardedHost_ne_nil]
      constructor
      · exact fun hsent => Or.inr (Or.inr (Or.inr ⟨hhost, hsent⟩))
      · rintro (⟨h, -⟩ | h | h | ⟨-, hsent⟩)
        · cases h
        · exact absurd h hfor
        · exact absurd h hproto
        · exact hsent
    · simp only [ne_eq, not_true_eq_false, hfor, hproto, hhost, false_and, or_self]

/-- **No hop-by-hop field is sent if and only if no `Connection` field names one that is sent.** -/
theorem filtered_iff (hreq : outgoing state clientIp method uri headers body = .ok req) :
    Filtered headers req.headers ↔ ∀ name, Nominated headers name → ¬ Sends headers name := by
  constructor
  · rintro ⟨hnone, -⟩ name hnominated hsends
    exact (sends_iff hreq name).mpr hsends (hnone name (Or.inr hnominated))
  · intro hnominated
    refine ⟨fun name hhop => ?_, fun name hhop hset => values_outgoing hreq ?_⟩
    · by_contra hsent
      have hsends := (sends_iff hreq name).mp hsent
      rcases hhop with hfixed | hname
      · -- a field of the list is dropped, and not one that the proxy adds
        rcases hsends with ⟨hkept, -⟩ | hadded
        · rw [isDroppedRequestHeader_iff.mpr (Or.inl hfixed)] at hkept
          cases hkept
        · rcases hadded with rfl | rfl | ⟨rfl, -⟩ <;> exact absurd hfixed (by decide)
      · exact hnominated name hname hsends
    · rw [← Bool.not_eq_true, isDroppedRequestHeader_iff, not_or]
      exact ⟨fun hfixed => hhop (Or.inl hfixed), hset⟩

end Filter

/-! ## Samples -/

namespace Sample

def outer : HeaderValue := ⟨asBytes "203.0.113.7", by decide +kernel⟩

def inner : HeaderValue := ⟨asBytes "10.0.0.2", by decide +kernel⟩

def close : HeaderValue := ⟨asBytes "close", by decide +kernel⟩

def internal : HeaderValue := ⟨asBytes "close, X-Internal", by decide +kernel⟩

/-- One address is continued. -/
theorem chained_one : ∃ req, outgoing listen "::1" "GET" users [("x-forwarded-for", outer)] [] = .ok req ∧
    Chained "::1" [("x-forwarded-for", outer)] req.headers := by
  have hok : (outgoing listen "::1" "GET" users [("x-forwarded-for", outer)] []).isOk = true := by
    decide +kernel
  obtain ⟨req, hreq⟩ := exists_request hok
  exact ⟨req, hreq, (chained_iff hreq (by decide +kernel)).mpr (by decide)⟩

/-- **Of two fields the second is lost.** -/
theorem chain_broken : ¬ ∀ state clientIp method uri headers body req,
    outgoing state clientIp method uri headers body = .ok req →
    (∀ v ∈ values "x-forwarded-for" headers, v.bytes.all isVisibleAscii = true) →
    Chained clientIp headers req.headers := by
  intro claimed
  have hok : (outgoing listen "::1" "GET" users [("x-forwarded-for", outer), ("x-forwarded-for", inner)]
    []).isOk = true := by decide +kernel
  have hascii : ∀ v ∈ values "x-forwarded-for" [("x-forwarded-for", outer), ("x-forwarded-for", inner)],
      v.bytes.all isVisibleAscii = true := by decide +kernel
  obtain ⟨req, hreq⟩ := exists_request hok
  have hchained := claimed _ _ _ _ _ _ req hreq hascii
  rw [Chained, bytes_forwardedFor hreq hascii] at hchained
  exact absurd hchained (by decide +kernel)

/-- A `Connection` field that names nothing. -/
theorem filtered_close : ∃ req, outgoing listen "::1" "GET" users [("connection", close)] [] = .ok req ∧
    Filtered [("connection", close)] req.headers := by
  have hok : (outgoing listen "::1" "GET" users [("connection", close)] []).isOk = true := by decide +kernel
  obtain ⟨req, hreq⟩ := exists_request hok
  refine ⟨req, hreq, (filtered_iff hreq).mpr ?_⟩
  rintro name ⟨v, hv, hname⟩
  have hvalues : values "connection" [("connection", close)] = [close] := rfl
  have htokens : connectionTokens close = ["close"] := by decide +kernel
  rw [hvalues] at hv
  cases List.mem_singleton.mp hv
  rw [htokens] at hname
  cases List.mem_singleton.mp hname
  unfold Sends
  decide +kernel

/-- **A field that `Connection` names is sent.** -/
theorem nominated_sent : ¬ ∀ state clientIp method uri headers body req,
    outgoing state clientIp method uri headers body = .ok req → Filtered headers req.headers := by
  intro claimed
  have hok : (outgoing listen "::1" "GET" users [("connection", internal), ("x-internal", outer)]
    []).isOk = true := by decide +kernel
  obtain ⟨req, hreq⟩ := exists_request hok
  have hnominated : Nominated [("connection", internal), ("x-internal", outer)] "x-internal" :=
    ⟨internal, List.mem_cons_self, by decide +kernel⟩
  have hnone := (claimed _ _ _ _ _ _ req hreq).1 "x-internal" (Or.inr hnominated)
  rw [values_outgoing hreq (by decide +kernel)] at hnone
  exact absurd hnone (by decide +kernel)

end Sample

end Web
