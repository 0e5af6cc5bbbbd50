import Mathlib.Data.String.Basic
import SignalKBackup.Lib.Fields

/-!
# Headers — which headers cross the proxy

`registerProxy` copies the headers of a request into a `Headers` object for the backup server, and
the headers of its answer into the response for the browser.  Each direction leaves out the names of
a list of its own.

* `hopByHop` is what must not cross: the headers of RFC 7230 section 6.1, and those that `Connection`
  names;
* `EndToEnd` is what a proxy does with one direction;
* `requestHeaders_iff` and `responseHeaders_iff` say when the two loops do that.

The names of headers are in lower case, as Node and `Headers` deliver them.
-/

namespace SignalKBackup
namespace Proxy

open Lib

/-! ## Names -/

def toLowerCase (s : String) : String :=
  String.ofList (s.toList.map Char.toLower)

theorem toLower_toLower (c : Char) : c.toLower.toLower = c.toLower := by
  by_cases h : c.val ≥ 'A'.val ∧ c.val ≤ 'Z'.val
  · have hA := UInt32.le_iff_toNat_le.1 h.1
    have hZ := UInt32.le_iff_toNat_le.1 h.2
    have hval : c.toLower.val = c.val + ('a'.val - 'A'.val) :=
      congrArg Char.val (dif_pos h : c.toLower = _)
    -- a small letter lies behind `Z`
    have hbehind : ¬c.toLower.val ≤ 'Z'.val := by
      rw [hval, UInt32.le_iff_toNat_le, UInt32.toNat_add]
      have h32 : ('a'.val - 'A'.val).toNat = 32 := by decide
      have h65 : 'A'.val.toNat = 65 := by decide
      have h90 : 'Z'.val.toNat = 90 := by decide
      omega
    exact dif_neg fun hupper => hbehind hupper.2
  · have hsame : c.toLower = c := dif_neg h
    rw [hsame, hsame]

theorem toLowerCase_toLowerCase (s : String) : toLowerCase (toLowerCase s) = toLowerCase s := by
  have hcomp : Char.toLower ∘ Char.toLower = Char.toLower := funext toLower_toLower
  simp [toLowerCase, hcomp]

/-- The name of a header. -/
structure HeaderName where
  text : String
  lower : toLowerCase text = text
  deriving DecidableEq

def HeaderName.of (s : String) : HeaderName :=
  ⟨toLowerCase s, toLowerCase_toLowerCase s⟩

/-! ## Headers of either side -/

/-- A value of `req.headers`. -/
inductive HeaderValue
  | text (value : String)
  | array (values : List String)

def HeaderValue.values : HeaderValue → List String
  | .text value => [value]
  | .array values => values

/-- `req.headers`: an object, whose keys are distinct. -/
structure IncomingHeaders where
  entries : List (HeaderName × Option HeaderValue)
  distinct : (entries.map Prod.fst).Nodup

/-- The values of a name among the entries of `req.headers`. -/
def valuesOf (n : HeaderName) : List (HeaderName × Option HeaderValue) → List String
  | [] => []
  | (name, value) :: entries =>
      if name = n then (value.elim [] HeaderValue.values) ++ valuesOf n entries
      else valuesOf n entries

def IncomingHeaders.values (headers : IncomingHeaders) (n : HeaderName) : List String :=
  valuesOf n headers.entries

/-- The header list of a `Headers` object. -/
structure Headers where
  fields : Fields HeaderName String := []

namespace Headers

def set (headers : Headers) (name : HeaderName) (value : String) : Headers :=
  ⟨Fields.set name value headers.fields⟩

def append (headers : Headers) (name : HeaderName) (value : String) : Headers :=
  ⟨Fields.append name value headers.fields⟩

def values (headers : Headers) (n : HeaderName) : List String :=
  Fields.values n headers.fields

/-- The values of a name as `entries()` delivers them: each cookie is a pair of its own, and the
values of any other name are joined. -/
def combine (n : HeaderName) (values : List String) : List String :=
  if n = .of "set-cookie" then values else [", ".intercalate values]

def entries (headers : Headers) : Fields HeaderName String :=
  Fields.grouped (fun a b => a.text ≤ b.text) combine headers.fields

/-- All values of a name. -/
def combined (headers : Headers) (n : HeaderName) : List String :=
  if headers.values n = [] then [] else combine n (headers.values n)

end Headers

/-! ## The two loops -/

def HOP_BY_HOP_REQUEST_HEADERS : List HeaderName :=
  ["host", "connection", "keep-alive", "proxy-authorization", "te", "trailer", "transfer-encoding",
    "upgrade", "content-length"].map .of

def HOP_BY_HOP_RESPONSE_HEADERS : List HeaderName :=
  ["connection", "keep-alive", "transfer-encoding", "upgrade", "proxy-authenticate"].map .of

/-- One round of the loop over `req.headers`. -/
def forward (headers : Headers) (name : HeaderName) : Option HeaderValue → Headers
  | none => headers
  | some value =>
      if HOP_BY_HOP_REQUEST_HEADERS.contains name then headers
      else
        match value with
        | .array values => values.foldl (fun headers v => headers.append name v) headers
        | .text value => headers.set name value

/-- The headers for the backup server. -/
def requestHeaders (req : IncomingHeaders) : Headers :=
  req.entries.foldl (fun headers e => forward headers e.1 e.2) {}

/-- The headers of the response, on which `res.setHeader` replaces what was there. -/
def responseHeaders (upstream : Headers) (res : Fields HeaderName String) :
    Fields HeaderName String :=
  upstream.entries.foldl
    (fun res e =>
      if HOP_BY_HOP_RESPONSE_HEADERS.contains e.1 then res else Fields.set e.1 e.2 res)
    res

/-! ## What is to cross -/

/-- The text without the blanks around it. -/
def trim (text : List Char) : List Char :=
  let blank : Char → Bool := fun c => c == ' ' || c == '\t'
  ((text.dropWhile blank).reverse.dropWhile blank).reverse

/-- The items of a header whose value is a list. -/
def listItems (values : List String) : List String :=
  (values.flatMap fun value => (value.toList.splitOn ',').map fun item => String.ofList (trim item))
    |>.filter fun item => item ≠ ""

/-- The headers of RFC 7230 section 6.1. -/
def RFC_7230 : List HeaderName :=
  ["connection", "keep-alive", "proxy-authenticate", "proxy-authorization", "te", "trailer",
    "transfer-encoding", "upgrade"].map .of

/-- The header belongs to one connection; `connection` has the values of `Connection`. -/
def hopByHop (connection : List String) (n : HeaderName) : Bool :=
  RFC_7230.contains n || ((listItems connection).map .of).contains n

/-- `Host`, and the fields that describe the body. -/
def OWN_FIELDS : List HeaderName :=
  ["host", "content-type", "content-encoding", "content-length"].map .of

/-- End-to-end headers cross with all of their values, and no others do. -/
structure EndToEnd (connection : List String) (sent received : HeaderName → List String) : Prop where
  stays : ∀ n, hopByHop connection n = true → received n = []
  crosses : ∀ n, hopByHop connection n = false → OWN_FIELDS.contains n = false →
    received n = sent n

/-- The hop-by-hop headers that are there are on the list. -/
def Listed (list : List HeaderName) (connection : List String)
    (sent : HeaderName → List String) : Prop :=
  ∀ n, hopByHop connection n = true → sent n ≠ [] → list.contains n = true

/-- What holds of the members of a list, in the words of the code. -/
theorem forall_contains {list : List HeaderName} {P : HeaderName → Prop} (h : ∀ n ∈ list, P n) :
    ∀ n, list.contains n = true → P n :=
  fun n hn => h n (by simpa using hn)

/-- A proxy that leaves out the headers of a list. -/
theorem endToEnd_iff {list : List HeaderName} {connection : List String}
    {sent received kept : HeaderName → List String}
    (hlist : ∀ n, list.contains n = true → RFC_7230.contains n = true ∨ OWN_FIELDS.contains n = true)
    (hreceived : ∀ n, received n = if list.contains n then [] else kept n)
    (hkept : ∀ n, kept n = [] ↔ sent n = []) :
    EndToEnd connection sent received ↔
      Listed list connection sent ∧
        ∀ n, hopByHop connection n = false → OWN_FIELDS.contains n = false → kept n = sent n := by
  -- an end-to-end header is not on the list, except for `Host` and the fields of the body
  have hoff : ∀ n, hopByHop connection n = false → OWN_FIELDS.contains n = false →
      list.contains n = false := by
    intro n hend hown
    by_contra hon
    rcases hlist n (by simpa using hon) with hrfc | hfield
    · rw [hopByHop, hrfc, Bool.true_or] at hend
      cases hend
    · rw [hown] at hfield
      cases hfield
  constructor
  · intro h
    refine ⟨fun n hhop hsent => ?_, fun n hend hown => ?_⟩
    · by_contra hon
      have hstays := h.stays n hhop
      -- a header that is not on the list is kept
      rw [hreceived n, if_neg hon, hkept n] at hstays
      exact hsent hstays
    · have hcrosses := h.crosses n hend hown
      rw [hreceived n, hoff n hend hown] at hcrosses
      exact hcrosses
  · rintro ⟨hlisted, hsame⟩
    refine ⟨fun n hhop => ?_, fun n hend hown => ?_⟩
    · rw [hreceived n]
      split
      case isTrue =>
          rfl
      case isFalse hon =>
          by_contra hsome
          exact hon (hlisted n hhop fun hnone => hsome ((hkept n).2 hnone))
    · rw [hreceived n, hoff n hend hown]
      exact hsame n hend hown

/-! ## Requests -/

theorem values_foldl_append {headers : Headers} {name n : HeaderName} (values : List String) :
    (values.foldl (fun headers v => headers.append name v) headers).values n =
      headers.values n ++ if name = n then values else [] := by
  -- each value is added behind those before it
  induction values generalizing headers with
  | nil =>
      simp
  | cons v values ih =>
      rw [List.foldl_cons, ih]
      by_cases hn : name = n
      · subst hn
        simp [Headers.append, Headers.values, Fields.values_append_self]
      · simp [Headers.append, Headers.values, Fields.values_append_ne _ hn, hn]

theorem forward_self {headers : Headers} {n : HeaderName} (hfresh : headers.values n = [])
    (value : Option HeaderValue) :
    (forward headers n value).values n =
      if HOP_BY_HOP_REQUEST_HEADERS.contains n then [] else value.elim [] HeaderValue.values := by
  cases value with
  | none =>
      simp [forward, hfresh]
  | some value =>
      simp only [forward]
      split
      case isTrue =>
          exact hfresh
      case isFalse =>
          cases value with
          | text value =>
              -- the value takes the place of nothing
              exact Fields.values_set_self value
          | array values =>
              simp [values_foldl_append, hfresh, HeaderValue.values]

theorem forward_ne {headers : Headers} {name n : HeaderName} (hn : name ≠ n)
    (value : Option HeaderValue) : (forward headers name value).values n = headers.values n := by
  cases value with
  | none =>
      rfl
  | some value =>
      simp only [forward]
      split
      case isTrue =>
          rfl
      case isFalse =>
          cases value with
          | text value =>
              exact Fields.values_set_ne value hn
          | array values =>
              simp [values_foldl_append, hn]

theorem valuesOf_eq_nil {n : HeaderName} {entries : List (HeaderName × Option HeaderValue)}
    (h : n ∉ entries.map Prod.fst) : valuesOf n entries = [] := by
  induction entries with
  | nil =>
      rfl
  | cons e entries ih =>
      rw [List.map_cons, List.mem_cons, not_or] at h
      rw [valuesOf, if_neg (Ne.symm h.1), ih h.2]

/-- The names are distinct, so that no round replaces what another has added. -/
theorem values_foldl_forward {entries : List (HeaderName × Option HeaderValue)}
    (hdistinct : (entries.map Prod.fst).Nodup) {n : HeaderName} {headers : Headers}
    (hfresh : n ∈ entries.map Prod.fst → headers.values n = []) :
    (entries.foldl (fun headers e => forward headers e.1 e.2) headers).values n =
      if n ∈ entries.map Prod.fst then
        if HOP_BY_HOP_REQUEST_HEADERS.contains n then [] else valuesOf n entries
      else headers.values n := by
  induction entries generalizing headers with
  | nil =>
      rfl
  | cons e entries ih =>
      rcases e with ⟨name, value⟩
      rw [List.map_cons, List.nodup_cons] at hdistinct
      rw [List.foldl_cons]
      by_cases hn : name = n
      · subst hn
        -- no later round is about this name
        have habsent := hdistinct.1
        rw [ih hdistinct.2 fun hmem => absurd hmem habsent, if_neg habsent,
          forward_self (hfresh (by simp)), valuesOf, if_pos rfl, valuesOf_eq_nil habsent]
        simp
      -- the round is about another name
      · have hsame : (forward headers name value).values n = headers.values n := forward_ne hn value
        rw [ih hdistinct.2 fun hmem => hsame.trans (hfresh (by simpa using Or.inr hmem)), hsame,
          valuesOf, if_neg hn]
        simp only [List.map_cons, List.mem_cons, Ne.symm hn, false_or]

theorem requestHeaders_values (req : IncomingHeaders) (n : HeaderName) :
    (requestHeaders req).values n =
      if HOP_BY_HOP_REQUEST_HEADERS.contains n then [] else req.values n := by
  unfold requestHeaders
  rw [values_foldl_forward req.distinct fun _ => rfl]
  split
  case isTrue =>
      rfl
  case isFalse habsent =>
      simp [IncomingHeaders.values, valuesOf_eq_nil habsent, Headers.values, Fields.values]

theorem request_list : ∀ n, HOP_BY_HOP_REQUEST_HEADERS.contains n = true →
    RFC_7230.contains n = true ∨ OWN_FIELDS.contains n = true :=
  forall_contains (by decide)

theorem requestHeaders_iff (req : IncomingHeaders) :
    EndToEnd (req.values (.of "connection")) req.values (requestHeaders req).values ↔
      Listed HOP_BY_HOP_REQUEST_HEADERS (req.values (.of "connection")) req.values := by
  rw [endToEnd_iff request_list (requestHeaders_values req) fun _ => Iff.rfl]
  simp

/-! ## Responses -/

theorem Headers.entries_values (headers : Headers) (n : HeaderName) :
    Fields.values n headers.entries = headers.combined n :=
  Fields.values_grouped _ _

/-- Of several pairs with one name, which are cookies, the last one stays. -/
theorem responseHeaders_values (upstream : Headers) (res : Fields HeaderName String)
    (n : HeaderName) :
    Fields.values n (responseHeaders upstream res) =
      if HOP_BY_HOP_RESPONSE_HEADERS.contains n = true ∨ upstream.combined n = [] then
        Fields.values n res
      else (upstream.combined n).getLast?.toList := by
  -- leaving a pair out in the loop is leaving it out beforehand
  let kept : HeaderName → Bool := fun k => !HOP_BY_HOP_RESPONSE_HEADERS.contains k
  have hloop : responseHeaders upstream res =
      (upstream.entries.filter fun e => kept e.1).foldl (fun res e => Fields.set e.1 e.2 res) res := by
    rw [List.foldl_filter]
    unfold responseHeaders
    congr 1
    funext res e
    by_cases hon : HOP_BY_HOP_RESPONSE_HEADERS.contains e.1 = true
    · rw [if_pos hon, if_neg (by simp only [kept, hon]; decide)]
    · rw [if_neg hon, if_pos (by simpa [kept] using hon)]
  have hkept : Fields.values n (upstream.entries.filter fun e => kept e.1) =
      if kept n then upstream.combined n else [] := by
    rw [Fields.values_filter, Headers.entries_values]
  rw [hloop, Fields.values_foldl_set, hkept]
  by_cases hon : HOP_BY_HOP_RESPONSE_HEADERS.contains n = true
  · have hkn : ¬kept n = true := by simp only [kept, hon]; decide
    rw [if_neg hkn, if_pos rfl, if_pos (Or.inl hon)]
  · have hkn : kept n = true := by simpa [kept] using hon
    rw [if_pos hkn]
    by_cases hnone : upstream.combined n = []
    · rw [if_pos hnone, if_pos (Or.inr hnone)]
    · rw [if_neg hnone, if_neg (not_or.2 ⟨hon, hnone⟩)]

theorem response_list : ∀ n, HOP_BY_HOP_RESPONSE_HEADERS.contains n = true →
    RFC_7230.contains n = true ∨ OWN_FIELDS.contains n = true :=
  forall_contains (by decide)

/-- Only cookies have several pairs. -/
theorem Headers.combined_last {upstream : Headers} {n : HeaderName} :
    (upstream.combined n).getLast?.toList = upstream.combined n ↔
      n = .of "set-cookie" → (upstream.values n).length ≤ 1 := by
  -- the last one is all there is
  have hlast : ∀ l : List String, l.getLast?.toList = l ↔ l.length ≤ 1 := by
    intro l
    constructor
    · intro h
      rw [← h]
      cases l.getLast? <;> simp
    · intro h
      match l, h with
      | [], _ => rfl
      | [_], _ => rfl
  rw [hlast]
  unfold combined combine
  split
  case isTrue hnone =>
      simp [hnone]
  case isFalse =>
      split
      case isTrue hcookie =>
          simp [hcookie]
      case isFalse hother =>
          simp [hother]

theorem responseHeaders_iff (upstream : Headers) :
    EndToEnd (upstream.values (.of "connection")) upstream.combined
        (fun n => Fields.values n (responseHeaders upstream [])) ↔
      Listed HOP_BY_HOP_RESPONSE_HEADERS (upstream.values (.of "connection")) upstream.combined ∧
        (upstream.values (.of "set-cookie")).length ≤ 1 := by
  have hreceived : ∀ n, Fields.values n (responseHeaders upstream []) =
      if HOP_BY_HOP_RESPONSE_HEADERS.contains n then [] else (upstream.combined n).getLast?.toList := by
    intro n
    rw [responseHeaders_values]
    by_cases hon : HOP_BY_HOP_RESPONSE_HEADERS.contains n = true
    · rw [if_pos (Or.inl hon), if_pos hon]
      rfl
    · by_cases hnone : upstream.combined n = []
      · simp [hnone, Fields.values]
      · rw [if_neg (not_or.2 ⟨hon, hnone⟩), if_neg hon]
  have hkept : ∀ n, (upstream.combined n).getLast?.toList = [] ↔ upstream.combined n = [] := by
    intro n
    simp
  rw [endToEnd_iff response_list hreceived hkept]
  refine and_congr_right fun hlisted => ⟨fun h => ?_, fun hcookies n _ _ => ?_⟩
  · by_contra hseveral
    have hsent : upstream.combined (.of "set-cookie") ≠ [] := by
      intro hnone
      exact hseveral (Headers.combined_last.1 (by rw [hnone]; rfl) rfl)
    -- cookies that a `Connection` header names are not on the list
    have hend : hopByHop (upstream.values (.of "connection")) (.of "set-cookie") = false := by
      by_contra hhop
      exact absurd (hlisted _ (by simpa using hhop) hsent) (by decide)
    exact hseveral (Headers.combined_last.1 (h _ hend (by decide)) rfl)
  · exact Headers.combined_last.2 fun hn => hn ▸ hcookies

/-! ## Both directions -/

/-- The proxy forwards end-to-end headers and only those exactly when each hop-by-hop header that is
there is on the list of its direction, and the answer sets at most one cookie. -/
theorem endToEnd_both (req : IncomingHeaders) (upstream : Headers) :
    (EndToEnd (req.values (.of "connection")) req.values (requestHeaders req).values ∧
        EndToEnd (upstream.values (.of "connection")) upstream.combined
          fun n => Fields.values n (responseHeaders upstream [])) ↔
      Listed HOP_BY_HOP_REQUEST_HEADERS (req.values (.of "connection")) req.values ∧
        Listed HOP_BY_HOP_RESPONSE_HEADERS (upstream.values (.of "connection")) upstream.combined ∧
        (upstream.values (.of "set-cookie")).length ≤ 1 := by
  rw [requestHeaders_iff, responseHeaders_iff]

/-- A request whose `Connection` header names another one. -/
def nominating : IncomingHeaders where
  entries :=
    [(.of "connection", some (.text "keep-alive, X-Token")), (.of "x-token", some (.text "s"))]
  distinct := by decide

def twoCookies : Headers :=
  ⟨[(.of "set-cookie", "a=1"), (.of "set-cookie", "b=2")]⟩

/-- The header that is named crosses, and the first cookie is lost. -/
theorem not_endToEnd :
    ¬EndToEnd (nominating.values (.of "connection")) nominating.values
        (requestHeaders nominating).values ∧
      ¬EndToEnd (twoCookies.values (.of "connection")) twoCookies.combined
        fun n => Fields.values n (responseHeaders twoCookies []) := by
  constructor
  · intro h
    -- `Connection` names it, and the list does not
    exact absurd (h.stays (.of "x-token") (by decide)) (by decide)
  · intro h
    -- the second cookie has replaced the first
    exact absurd (h.crosses (.of "set-cookie") (by decide) (by decide)) (by decide)

end Proxy
end SignalKBackup
