import SignalKBackup.Lib.Json
import SignalKBackup.Proxy.Headers

/-!
# Bodies — what the bodies that cross the proxy denote

A message denotes the body that its reader gets: the bytes that its `Content-Length` announces,
without the codings that its `Content-Encoding` names.  `registerProxy` hands on the headers and the
bytes of a message separately: it writes the text of a body that middleware has parsed, and `fetch`
takes known codings off an answer, but the headers stay.

* `upstreamRequest` and `clientResponse` are the two directions;
* `RequestPreserved` and `ResponsePreserved` say that the reader gets the body that was meant;
* `requestPreserved_iff` and `responsePreserved_iff` say when.

`coder c` takes the coding `c` off, `parse` is how the backup server reads JSON.  A redirect is
followed inside `fetch`; a request or an answer that breaks off is none.
-/

namespace SignalKBackup
namespace Proxy

open Lib

/-! ## Messages -/

/-- The codings of a `Content-Encoding` field, in the order in which they were put on. -/
def codings (values : List String) : List String :=
  values.flatMap fun value =>
    (value.toList.splitOn ',').map fun item => toLowerCase (String.ofList (trim item))

/-- A coding that changes nothing. -/
def isIdentity (coding : String) : Bool :=
  coding == "identity" || coding == ""

section Decode

variable (coder : String → List UInt8 → Option (List UInt8))

/-- The body without its codings; the last one comes off first. -/
def decode (codings : List String) (bytes : List UInt8) : Option (List UInt8) :=
  codings.foldr
    (fun coding decoded => if isIdentity coding then decoded else decoded.bind (coder coding))
    (some bytes)

/-- The length that a head announces, if it does; `none` for a field that is no number. -/
def announced : List String → Option (Option ℕ)
  | [] => some none
  | [value] => value.toNat?.map some
  | _ => none

/-- The bytes of the body, of those that follow a head. -/
def framed (lengths : List String) (bytes : List UInt8) : Option (List UInt8) :=
  match announced lengths with
  | none => none
  | some none => some bytes
  | some (some n) => if n ≤ bytes.length then some (bytes.take n) else none

/-- An answer with one of these statuses ends behind its head. -/
def bodyless (status : ℕ) : Bool :=
  status < 200 || status == 204 || status == 304

/-- What the reader of an answer gets; `bytes` follow its head, unless they break off. -/
def denoted (status : ℕ) (headers : HeaderName → List String) (bytes : Option (List UInt8)) :
    Option (List UInt8) :=
  if bodyless status then some []
  else
    bytes.bind fun bytes =>
      (framed (headers (.of "content-length")) bytes).bind
        (decode coder (codings (headers (.of "content-encoding"))))

end Decode

/-! ## Requests -/

/-- What earlier middleware has done with the body of a request. -/
inductive Middleware
  /-- The stream is not read; `body` may hold anything all the same. -/
  | unread (body : Option Json)
  /-- The stream is read to its end, and its JSON value put on `req.body`. -/
  | parsed (value : Json) (isObject : value.isObject = true)

structure Request where
  method : String
  url : String
  headers : IncomingHeaders
  stream : List UInt8
  middleware : Middleware

/-- `req.body`. -/
def Request.body (req : Request) : Option Json :=
  match req.middleware with
  | .unread body => body
  | .parsed value _ => some value

/-- `init.body`. -/
inductive Payload
  | none
  | text (s : String)
  | stream (bytes : List UInt8)

def utf8Bytes (s : String) : List UInt8 :=
  s.toUTF8.data.toList

def Payload.bytes : Payload → List UInt8
  | .none => []
  | .text s => utf8Bytes s
  | .stream bytes => bytes

/-- What `fetch` is given. -/
structure UpstreamRequest where
  url : String
  method : String
  headers : Headers
  body : Payload

/-- `base.replace(/\/$/, '')`. -/
def withoutSlash (base : String) : String :=
  if base.toList.getLast? = some '/' then String.ofList base.toList.dropLast else base

def upstreamRequest (base : String) (req : Request) : UpstreamRequest :=
  let headers := requestHeaders req.headers
  let init : UpstreamRequest :=
    { url := withoutSlash base ++ req.url, method := req.method, headers := headers, body := .none }
  if req.method ≠ "GET" ∧ req.method ≠ "HEAD" then
    match req.body with
    | some value =>
        if value.isObject then
          { init with
            headers := headers.set (.of "content-type") "application/json"
            body := .text value.stringify }
        else { init with body := .stream req.stream }
    | none => { init with body := .stream req.stream }
  else init

/-! ## Answers -/

/-- An answer of the backup server; `payload` are the bytes of its body. -/
structure Response where
  status : ℕ
  headers : Headers
  payload : List UInt8
  length : bodyless status = true ∨
    framed (headers.combined (.of "content-length")) payload = some payload

/-- The statuses for which `fetch` gives no body. -/
def NULL_BODY_STATUS : List ℕ :=
  [101, 103, 204, 205, 304]

/-- `fetch` takes the codings off when it knows all of them. -/
def fetchDecodes (codings : List String) : Bool :=
  codings ≠ [] && codings.all fun c => ["gzip", "x-gzip", "deflate", "br"].contains c

/-- `Content-Encoding` of an answer. -/
def Response.codings (upstream : Response) : List String :=
  Proxy.codings (upstream.headers.combined (.of "content-encoding"))

section Fetch

variable (coder : String → List UInt8 → Option (List UInt8))

/-- The bytes of `upstreamRes.body`, and nothing without one; `none` when the stream fails. -/
def fetchedBytes (upstream : Response) : Option (List UInt8) :=
  if NULL_BODY_STATUS.contains upstream.status then some []
  else if fetchDecodes upstream.codings then decode coder upstream.codings upstream.payload
  else some upstream.payload

structure ClientResponse where
  status : ℕ
  headers : Fields HeaderName String
  bytes : Option (List UInt8)

/-- The response that is piped to the browser. -/
def clientResponse (upstream : Response) : ClientResponse where
  status := upstream.status
  headers := responseHeaders upstream.headers []
  bytes := fetchedBytes coder upstream

/-- What a request is answered with. -/
inductive Answer
  | json (status : ℕ) (body : Json)
  | forwarded (response : ClientResponse)

def errorBody (fields : List (String × String)) : Json :=
  .object (fields.map fun f => (f.1, .string f.2))

/-- The handler of `registerProxy`. -/
def registerProxy (getUpstreamBase : Option String)
    (fetch : UpstreamRequest → Except String Response) (req : Request) : Answer :=
  match getUpstreamBase with
  | none => .json 503 (errorBody [("error", "backup-server not ready")])
  | some base =>
      if base = "" then .json 503 (errorBody [("error", "backup-server not ready")])
      else
        match fetch (upstreamRequest base req) with
        | .error message =>
            .json 502 (errorBody [("error", "backup-server unreachable"), ("detail", message)])
        | .ok upstream => .forwarded (clientResponse coder upstream)

end Fetch

/-- An answer reaches the browser exactly when the server is ready and `fetch` has resolved. -/
theorem registerProxy_forwarded {coder : String → List UInt8 → Option (List UInt8)}
    {getUpstreamBase : Option String} {fetch : UpstreamRequest → Except String Response}
    {req : Request} {response : ClientResponse} :
    registerProxy coder getUpstreamBase fetch req = .forwarded response ↔
      ∃ base upstream, getUpstreamBase = some base ∧ base ≠ "" ∧
        fetch (upstreamRequest base req) = .ok upstream ∧
        response = clientResponse coder upstream := by
  cases getUpstreamBase with
  | none =>
      simp [registerProxy]
  | some base =>
      by_cases hempty : base = ""
      · simp [registerProxy, hempty]
      · cases hfetch : fetch (upstreamRequest base req) <;>
          simp [registerProxy, hempty, hfetch, eq_comm]

/-! ## When requests keep their bodies -/

variable (coder : String → List UInt8 → Option (List UInt8)) (parse : List UInt8 → Option Json)

theorem decode_identity {codings : List String} (h : codings.all isIdentity = true)
    (bytes : List UInt8) : decode coder codings bytes = some bytes := by
  induction codings with
  | nil =>
      rfl
  | cons coding codings ih =>
      rw [List.all_cons, Bool.and_eq_true] at h
      unfold decode at ih ⊢
      rw [List.foldr_cons, if_pos h.1]
      exact ih h.2

/-- `Content-Encoding` of a request. -/
def Request.codings (req : Request) : List String :=
  Proxy.codings (req.headers.values (.of "content-encoding"))

def UpstreamRequest.codings (sent : UpstreamRequest) : List String :=
  Proxy.codings (sent.headers.values (.of "content-encoding"))

/-- The backup server gets the bytes of a stream that was not read, under the same codings, and the
value of a body that was parsed. -/
def RequestPreserved (base : String) (req : Request) : Prop :=
  let sent := upstreamRequest base req
  match req.middleware with
  | .unread _ =>
      sent.body.bytes = req.stream ∧
        decode coder sent.codings sent.body.bytes = decode coder req.codings req.stream
  | .parsed value _ =>
      sent.headers.values (.of "content-type") = ["application/json"] ∧
        (decode coder sent.codings sent.body.bytes).bind parse = some value

/-- What holds of a request that keeps its body. -/
def RequestKept (req : Request) : Prop :=
  match req.middleware with
  | .unread body =>
      -- nothing that would be written in the place of the stream
      ∀ value, body = some value → value.isObject = true → utf8Bytes value.stringify = req.stream
  | .parsed value _ =>
      if req.codings.all isIdentity then value.finite = true
      -- the text would have to be an encoding of itself
      else (decode coder req.codings (utf8Bytes value.stringify)).bind parse = some value

/-- What `fetch` is given: the text of an object on `req.body`, or else the stream. -/
theorem upstreamRequest_cases (base : String) {req : Request}
    (hmethod : req.method ≠ "GET" ∧ req.method ≠ "HEAD") :
    (∃ value, req.body = some value ∧ value.isObject = true ∧
        (upstreamRequest base req).headers =
          (requestHeaders req.headers).set (.of "content-type") "application/json" ∧
        (upstreamRequest base req).body = .text value.stringify) ∨
      (∀ value, req.body = some value → value.isObject = false) ∧
        (upstreamRequest base req).headers = requestHeaders req.headers ∧
        (upstreamRequest base req).body = .stream req.stream := by
  cases hbody : req.body with
  | none =>
      exact Or.inr (by simp [upstreamRequest, hmethod, hbody])
  | some value =>
      cases hobject : value.isObject with
      -- `hasParsedBody`
      | true =>
          exact Or.inl ⟨value, rfl, hobject, by simp [upstreamRequest, hmethod, hbody, hobject]⟩
      | false =>
          refine Or.inr ⟨fun other hother => ?_, by simp [upstreamRequest, hmethod, hbody, hobject]⟩
          rwa [← Option.some.inj hother]

/-- `Content-Encoding` crosses as it is. -/
theorem upstreamRequest_codings (base : String) {req : Request}
    (hmethod : req.method ≠ "GET" ∧ req.method ≠ "HEAD") :
    (upstreamRequest base req).codings = req.codings := by
  have hloop : (requestHeaders req.headers).values (.of "content-encoding") =
      req.headers.values (.of "content-encoding") := by
    rw [requestHeaders_values, if_neg (by decide)]
  unfold UpstreamRequest.codings Request.codings
  rcases upstreamRequest_cases base hmethod with ⟨_, _, _, hheaders, _⟩ | ⟨_, hheaders, _⟩
  -- only the type of the content is set
  · have hset : ((requestHeaders req.headers).set (.of "content-type") "application/json").values
        (.of "content-encoding") = (requestHeaders req.headers).values (.of "content-encoding") :=
      Fields.values_set_ne _ (by decide)
    rw [hheaders, hset, hloop]
  · rw [hheaders, hloop]

theorem requestPreserved_iff {base : String} {req : Request}
    (hmethod : req.method ≠ "GET" ∧ req.method ≠ "HEAD")
    (hparse : ∀ value h, req.middleware = .parsed value h →
      parse (utf8Bytes value.stringify) = some value.serialised) :
    RequestPreserved coder parse base req ↔ RequestKept coder parse req := by
  have hcodings := upstreamRequest_codings base hmethod
  unfold RequestPreserved RequestKept
  cases hmiddleware : req.middleware with
  | unread body =>
      have hbody : req.body = body := by simp only [Request.body, hmiddleware]
      rw [← hbody]
      simp only [hcodings]
      rcases upstreamRequest_cases base hmethod with
        ⟨value, hvalue, hobject, _, htext⟩ | ⟨hplain, _, hstream⟩
      · -- the text of what is on `req.body` goes in the place of the stream
        rw [htext, hvalue]
        constructor
        · rintro ⟨hbytes, _⟩ other hother _
          rwa [← Option.some.inj hother]
        · intro hkept
          have hbytes : (Payload.text value.stringify).bytes = req.stream :=
            hkept value rfl hobject
          exact ⟨hbytes, by rw [hbytes]⟩
      -- the stream itself is sent
      · rw [hstream]
        refine iff_of_true ⟨rfl, rfl⟩ fun value hvalue hobject => ?_
        rw [hplain value hvalue] at hobject
        cases hobject
  | parsed value hobject =>
      have hbody : req.body = some value := by simp only [Request.body, hmiddleware]
      rcases upstreamRequest_cases base hmethod with
        ⟨other, hother, _, hheaders, htext⟩ | ⟨hplain, _, _⟩
      · cases hbody.symm.trans hother
        have htype : (upstreamRequest base req).headers.values (.of "content-type") =
            ["application/json"] := by
          rw [hheaders]
          exact Fields.values_set_self _
        simp only [hcodings, htext, htype, true_and, Payload.bytes]
        split
        case isTrue hidentity =>
            -- the text is read as it is, and its value is the one without infinities
            rw [decode_identity coder hidentity, Option.bind_some, hparse value hobject hmiddleware,
              Option.some.injEq, Json.serialised_eq_iff]
        case isFalse =>
            exact Iff.rfl
      · rw [hplain value hbody] at hobject
        cases hobject

/-! ## When answers keep their bodies -/

/-- The body that an answer of the backup server denotes. -/
def Response.denoted (upstream : Response) : Option (List UInt8) :=
  Proxy.denoted coder upstream.status upstream.headers.combined (some upstream.payload)

/-- What the browser makes of a response. -/
def ClientResponse.denoted (response : ClientResponse) : Option (List UInt8) :=
  Proxy.denoted coder response.status (fun n => Fields.values n response.headers) response.bytes

/-- The browser gets the body that the answer denotes. -/
def ResponsePreserved (upstream : Response) : Prop :=
  ∀ body, upstream.denoted coder = some body →
    (clientResponse coder upstream).denoted coder = some body

/-- `fetch` hands the bytes on as they are, or nobody reads them. -/
def Untouched (upstream : Response) : Prop :=
  bodyless upstream.status = true ∨
    upstream.status ≠ 205 ∧ fetchDecodes upstream.codings = false

/-- The bytes that `fetch` hands on are, up to the announced length, an encoding of the body once
more. -/
def Reencodes (upstream : Response) : Prop :=
  ∀ body, decode coder upstream.codings upstream.payload = some body →
    (framed (upstream.headers.combined (.of "content-length"))
        (if upstream.status = 205 then [] else body)).bind
      (decode coder upstream.codings) = some body

/-- The description of a body crosses as it is. -/
theorem clientResponse_values {upstream : Response} {n : HeaderName}
    (hlist : ¬HOP_BY_HOP_RESPONSE_HEADERS.contains n = true) (hn : n ≠ .of "set-cookie") :
    Fields.values n (clientResponse coder upstream).headers = upstream.headers.combined n := by
  have hvalues := responseHeaders_values upstream.headers [] n
  -- only cookies come in several pairs
  have hlast : (upstream.headers.combined n).getLast?.toList = upstream.headers.combined n :=
    Headers.combined_last.2 fun heq => absurd heq hn
  by_cases hnone : upstream.headers.combined n = []
  · rw [if_pos (Or.inr hnone)] at hvalues
    exact hvalues.trans hnone.symm
  · rw [if_neg (not_or.2 ⟨hlist, hnone⟩), hlast] at hvalues
    exact hvalues

theorem Response.denoted_eq {upstream : Response} (hbody : bodyless upstream.status = false) :
    upstream.denoted coder = decode coder upstream.codings upstream.payload := by
  -- the length of the answer is that of its bytes
  have hframed := upstream.length.resolve_left (by rw [hbody]; decide)
  unfold Response.denoted Proxy.denoted
  rw [hbody, if_neg (by decide), Option.bind_some, hframed]
  rfl

theorem ClientResponse.denoted_eq {upstream : Response}
    (hbody : bodyless upstream.status = false) :
    (clientResponse coder upstream).denoted coder =
      (fetchedBytes coder upstream).bind fun bytes =>
        (framed (upstream.headers.combined (.of "content-length")) bytes).bind
          (decode coder upstream.codings) := by
  -- the browser reads by the headers of the answer
  have hlength : Fields.values (.of "content-length") (clientResponse coder upstream).headers =
      upstream.headers.combined (.of "content-length") :=
    clientResponse_values coder (by decide) (by decide)
  have hencoding : Fields.values (.of "content-encoding") (clientResponse coder upstream).headers =
      upstream.headers.combined (.of "content-encoding") :=
    clientResponse_values coder (by decide) (by decide)
  have hstatus : bodyless (clientResponse coder upstream).status = false := hbody
  unfold ClientResponse.denoted Proxy.denoted
  simp only [hstatus, Bool.false_eq_true, if_false, hlength, hencoding]
  rfl

/-- Of the statuses without a body, those that a reader does expect one for. -/
theorem nullBody_iff {status : ℕ} (hbody : bodyless status = false) :
    NULL_BODY_STATUS.contains status = true ↔ status = 205 := by
  simp only [bodyless, Bool.or_eq_false_iff, decide_eq_false_iff_not, beq_eq_false_iff_ne] at hbody
  simp only [NULL_BODY_STATUS, List.contains_iff_mem, List.mem_cons, List.not_mem_nil,
    or_false]
  omega

theorem responsePreserved_iff (upstream : Response) :
    ResponsePreserved coder upstream ↔ Untouched upstream ∨ Reencodes coder upstream := by
  unfold ResponsePreserved Untouched
  cases hbody : bodyless upstream.status with
  | true =>
      -- both readers stop behind the head
      have hempty : ∀ headers bytes, denoted coder upstream.status headers bytes = some [] := by
        intro headers bytes
        unfold denoted
        rw [if_pos hbody]
      refine iff_of_true (fun body h => ?_) (Or.inl (Or.inl rfl))
      exact (hempty _ _).trans ((hempty _ _).symm.trans h)
  | false =>
      rw [upstream.denoted_eq coder hbody, ClientResponse.denoted_eq coder hbody]
      have hframed := upstream.length.resolve_left (by rw [hbody]; decide)
      by_cases h205 : upstream.status = 205
      · -- the answer has a body, and `fetch` gives none
        have hbytes : fetchedBytes coder upstream = some [] := by
          unfold fetchedBytes
          rw [if_pos ((nullBody_iff hbody).2 h205)]
        simp only [hbytes, Reencodes, h205, ne_eq, not_true_eq_false, false_and, or_false,
          Bool.false_eq_true, false_or, if_true, Option.bind_some]
      · have hnull : ¬NULL_BODY_STATUS.contains upstream.status = true :=
          fun hnull => h205 ((nullBody_iff hbody).1 hnull)
        cases hdecodes : fetchDecodes upstream.codings with
        | false =>
            have hbytes : fetchedBytes coder upstream = some upstream.payload := by
              unfold fetchedBytes
              rw [if_neg hnull, hdecodes, if_neg (by decide)]
            -- the same bytes under the same headers
            refine iff_of_true (fun body h => ?_) (Or.inl (Or.inr ⟨h205, rfl⟩))
            rw [hbytes, Option.bind_some, hframed]
            exact h
        | true =>
            have hbytes : fetchedBytes coder upstream =
                decode coder upstream.codings upstream.payload := by
              unfold fetchedBytes
              rw [if_neg hnull, hdecodes, if_pos rfl]
            have huntouched : ¬((false = true) ∨ upstream.status ≠ 205 ∧ true = false) := by
              simp
            -- the coding is off, and the browser takes it off once more
            rw [hbytes, or_iff_right huntouched, Reencodes]
            refine forall_congr' fun body => imp_congr_right fun h => ?_
            rw [h, Option.bind_some, if_neg h205]

/-- Both bodies are preserved exactly when nothing is written in the place of a coded stream, no
number turns into `null`, and `fetch` takes no coding off and no body away. -/
theorem bodies_preserved_iff {base : String} {req : Request}
    (hmethod : req.method ≠ "GET" ∧ req.method ≠ "HEAD")
    (hparse : ∀ value h, req.middleware = .parsed value h →
      parse (utf8Bytes value.stringify) = some value.serialised)
    (upstream : Response) :
    RequestPreserved coder parse base req ∧ ResponsePreserved coder upstream ↔
      RequestKept coder parse req ∧ (Untouched upstream ∨ Reencodes coder upstream) := by
  rw [requestPreserved_iff coder parse hmethod hparse, responsePreserved_iff]

/-- A request and an answer without codings. -/
def plainPost : Request where
  method := "POST"
  url := "/api/backups"
  headers := ⟨[(.of "content-type", some (.text "application/json"))], by decide⟩
  stream := utf8Bytes "\x7b\x7d"
  middleware := .parsed (.object []) rfl

def plainAnswer : Response where
  status := 200
  headers := ⟨[(.of "content-type", "text/plain")]⟩
  payload := utf8Bytes "hi"
  length := Or.inr rfl

theorem bodies_preserved_plain :
    let parse := fun bytes => if bytes = utf8Bytes "\x7b\x7d" then some (Json.object []) else none
    RequestPreserved (fun _ _ => none) parse "http://127.0.0.1:3010" plainPost ∧
      ResponsePreserved (fun _ _ => none) plainAnswer := by
  intro parse
  have hparse : ∀ value h, plainPost.middleware = .parsed value h →
      parse (utf8Bytes value.stringify) = some value.serialised := by
    intro value h heq
    cases heq
    have htext : utf8Bytes (Json.object []).stringify = utf8Bytes "\x7b\x7d" := by
      decide
    exact if_pos htext
  refine (bodies_preserved_iff _ parse (by decide) hparse plainAnswer).2 ⟨?_, Or.inl ?_⟩
  · exact rfl
  · exact Or.inr (by decide)

/-- The gzip files of a text and of an empty JSON object, and a decoder that knows them. -/
def gzippedHi : List UInt8 :=
  [0x1f, 0x8b, 0x08, 0x00, 0x00, 0x00, 0x00, 0x00, 0x00, 0x03, 0x01, 0x02, 0x00, 0xfd, 0xff, 0x68,
    0x69, 0xac, 0x2a, 0x93, 0xd8, 0x02, 0x00, 0x00, 0x00]

def gzippedObject : List UInt8 :=
  [0x1f, 0x8b, 0x08, 0x00, 0x00, 0x00, 0x00, 0x00, 0x00, 0x03, 0x01, 0x02, 0x00, 0xfd, 0xff, 0x7b,
    0x7d, 0x43, 0xbf, 0xa6, 0xa3, 0x02, 0x00, 0x00, 0x00]

def gunzip (coding : String) (bytes : List UInt8) : Option (List UInt8) :=
  if coding = "gzip" ∧ bytes = gzippedHi then some (utf8Bytes "hi")
  else if coding = "gzip" ∧ bytes = gzippedObject then some (utf8Bytes "\x7b\x7d")
  else none

def gzippedAnswer : Response where
  status := 200
  headers := ⟨[(.of "content-encoding", "gzip")]⟩
  payload := gzippedHi
  length := Or.inr rfl

/-- Middleware has taken the coding off and parsed the body. -/
def gzippedPost : Request where
  method := "POST"
  url := "/api/backups"
  headers := ⟨[(.of "content-encoding", some (.text "gzip"))], by decide⟩
  stream := gzippedObject
  middleware := .parsed (.object []) rfl

/-- The browser and the backup server take a coding off that is not there any more. -/
theorem not_bodies_preserved :
    ¬ResponsePreserved gunzip gzippedAnswer ∧
      ¬RequestPreserved gunzip (fun _ => some (.object [])) "http://127.0.0.1:3010" gzippedPost := by
  constructor
  · intro h
    exact absurd (h (utf8Bytes "hi") (by decide)) (by decide)
  · intro h
    let sent := upstreamRequest "http://127.0.0.1:3010" gzippedPost
    -- the text of the object is no gzip file
    have hnone : decode gunzip sent.codings sent.body.bytes = none := by
      decide
    have hread : (decode gunzip sent.codings sent.body.bytes).bind _ = some _ := h.2
    rw [hnone] at hread
    cases hread

end Proxy
end SignalKBackup
