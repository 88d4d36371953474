import Railscale.Http.Codec
import Railscale.Http.Derive
import Mathlib.Data.FinEnum

/-!
# Messages

The abstract side of the HTTP layer: what a well-formed message is, with no parser in sight. A `Head`
is a start line with header lines that are not folded, a `ChunkedBody` follows the grammar of RFC 9112
section 7.1, and a `Request` is a head with the body that `BodyFramingFormula` makes of it. A value of
these types cannot be malformed.
-/

namespace Railscale.Http

open Bytes

/-- A line of a head, without its ending. -/
structure IsLine (l : Bytes) : Prop where
  ne : l ≠ []
  noCrlf : NoCrlf l

/-- A message head: the start line and the header lines, all without their endings. -/
structure Head where
  startLine : Bytes
  headers : List Bytes
  startLine_ok : IsLine startLine
  headers_ok : ∀ l ∈ headers, IsLine l ∧ ¬ HttpStreamingCodec.IsFold l

/-- Lines with their endings. -/
def unlines (ls : List Bytes) : Bytes := ls.flatMap (· ++ crlf)

/-- No lines. -/
@[simp] lemma unlines_nil : unlines [] = [] := rfl

/-- The first line with its end comes in front. -/
@[simp] lemma unlines_cons (l : Bytes) (ls : List Bytes) :
    unlines (l :: ls) = l ++ crlf ++ unlines ls := rfl

/-- The lines of two lists, one behind the other. -/
@[simp] lemma unlines_append (ls ks : List Bytes) : unlines (ls ++ ks) = unlines ls ++ unlines ks := by
  simp [unlines]

/-- Lines that can be the lines of a head: only the first may begin with white space. -/
structure HeadLines (ls : List Bytes) : Prop where
  line : ∀ l ∈ ls, IsLine l
  noFold : ∀ l ∈ ls.tail, ¬ HttpStreamingCodec.IsFold l

/-- No lines are lines of a head. -/
lemma HeadLines.nil : HeadLines [] := ⟨nofun, nofun⟩

/-- One more line, which is not folded unless it is the first. -/
lemma HeadLines.concat {ls : List Bytes} {l : Bytes} (ok : HeadLines ls) (line : IsLine l)
    (noFold : ls ≠ [] → ¬ HttpStreamingCodec.IsFold l) : HeadLines (ls ++ [l]) := by
  refine ⟨?_, ?_⟩
  · intro x hx
    rcases List.mem_append.1 hx with hx | hx
    · exact ok.line x hx
    · rw [List.mem_singleton.1 hx]
      exact line
  · intro x hx
    cases ls with
    | nil => cases hx
    | cons a ls =>
      rcases List.mem_append.1 hx with hx | hx
      · exact ok.noFold x hx
      · rw [List.mem_singleton.1 hx]
        exact noFold (List.cons_ne_nil a ls)

/-- Lines are read off the wire in one way only. -/
lemma unlines_unique {ls ks : List Bytes} {r r' : Bytes} (hl : ∀ l ∈ ls, IsLine l)
    (hk : ∀ l ∈ ks, IsLine l) (e : unlines ls ++ crlf ++ r = unlines ks ++ crlf ++ r') :
    ls = ks ∧ r = r' := by
  induction ls generalizing ks with
  | nil =>
    cases ks with
    | nil => exact ⟨rfl, by simpa using e⟩
    | cons k ks =>
      have line := hk k List.mem_cons_self
      have e : [] ++ cr :: lf :: r = k ++ cr :: lf :: (unlines ks ++ crlf ++ r') := by simpa using e
      exact absurd (line_unique NoCrlf.nil line.noCrlf e).1.symm line.ne
  | cons l ls ih =>
    have line := hl l List.mem_cons_self
    cases ks with
    | nil =>
      have e : l ++ cr :: lf :: (unlines ls ++ crlf ++ r) = [] ++ cr :: lf :: r' := by simpa using e
      exact absurd (line_unique line.noCrlf NoCrlf.nil e).1 line.ne
    | cons k ks =>
      have e : l ++ cr :: lf :: (unlines ls ++ crlf ++ r) =
          k ++ cr :: lf :: (unlines ks ++ crlf ++ r') := by simpa using e
      obtain ⟨rfl, tail⟩ := line_unique line.noCrlf (hk k List.mem_cons_self).noCrlf e
      obtain ⟨rfl, rfl⟩ := ih (fun x hx => hl x (List.mem_cons_of_mem _ hx))
        (fun x hx => hk x (List.mem_cons_of_mem _ hx)) tail
      exact ⟨rfl, rfl⟩

namespace Head

/-- The lines of a head. -/
def lines (h : Head) : List Bytes := h.startLine :: h.headers

/-- A head on the wire, with the empty line that ends it. -/
def bytes (h : Head) : Bytes := unlines h.lines ++ crlf

/-- The lines of a head are such lines. -/
lemma headLines (h : Head) : HeadLines h.lines := by
  refine ⟨?_, fun l hl => (h.headers_ok l hl).2⟩
  intro l hl
  rcases List.mem_cons.1 hl with rfl | hl
  · exact h.startLine_ok
  · exact (h.headers_ok l hl).1

/-- The header lines as the codecs feed them to a session. -/
def fields (h : Head) : Lines := h.headers.map fun l => (.header, l ++ crlf)

end Head

/-! ## Chunked bodies -/

/-- `HEXDIG`. -/
def isHexDigit (b : UInt8) : Bool := (Str.toDigit 16 b.toNat).isSome

/-- The number written by hexadecimal digits. -/
def hexValue (digits : Bytes) : Nat := Str.value 16 (digits.map UInt8.toNat)

/-- `chunk-size [ chunk-ext ]`: the size, then nothing or a `;` with white space before it. -/
inductive SizeLine : Bytes → Nat → Prop where
  | mk {digits ws ext} :
    digits ≠ [] →
    (∀ b ∈ digits, isHexDigit b = true) →
    (∀ b ∈ ws, isOws b = true) →
    ext = [] ∧ ws = [] ∨ ext.head? = some 59 →
    NoCrlf (digits ++ ws ++ ext) →
    SizeLine (digits ++ ws ++ ext) (hexValue digits)

/-- `trailer-section CRLF`. -/
inductive Trailer : Bytes → Prop where
  | last :
    Trailer crlf
  | field {l t} :
    IsLine l →
    Trailer t →
    Trailer (l ++ crlf ++ t)

/-- `chunked-body`. -/
inductive ChunkedBody : Bytes → Prop where
  | last {l t} :
    SizeLine l 0 →
    Trailer t →
    ChunkedBody (l ++ crlf ++ t)
  | chunk {l n d t} :
    SizeLine l n →
    0 < n →
    d.length = n →
    ChunkedBody t →
    ChunkedBody (l ++ crlf ++ d ++ crlf ++ t)

/-! ## Requests -/

/-- The lines of a request head as the codec emits them, under their phases. -/
def Head.requestLines (h : Head) : Lines := (.requestLine, h.startLine ++ crlf) :: h.fields

/-- The framing that `BodyFramingFormula` resolves for the body of a request. -/
def Head.requestFraming (h : Head) : BodyFramingMode :=
  (HttpDerivationInput.resolveAll
    ((DeriverSession.new HttpDerivationInput.allMatchers).feedAll h.requestLines)).bodyFraming

/-- The bodies a request may have under a framing. A request cannot be framed by the end of the
connection, and a head with an unreadable length has no body at all. -/
def RequestBody : BodyFramingMode → Bytes → Prop
  | .none, body => body = []
  | .fixed n, body => body.length = n
  | .chunked, body => ChunkedBody body
  | .untilClose, body => body = []
  | .invalid, _ => False

/-- A well-formed request. -/
structure Request where
  head : Head
  body : Bytes
  body_ok : RequestBody head.requestFraming body

/-- A request on the wire. -/
def Request.bytes (r : Request) : Bytes := r.head.bytes ++ r.body

/-! ## Responses -/

namespace Head

/-- The values of the fields with the name a matcher looks for. -/
def values (h : Head) (m : Matcher) : List Bytes := DeriverSession.hits h.fields m

/-- The members of a list-based field, over all lines it is on. -/
def members (h : Head) (m : Matcher) : List Bytes :=
  (h.values m).flatMap fun v => (v.splitOn 44).map trimOws

/-- The status code of a status line. -/
def status (h : Head) : Option Bytes := Matcher.statusCode.tryMatch h.startLine

end Head

/-- `1*DIGIT`. -/
def decimal (bs : Bytes) : Option Nat :=
  if bs ≠ [] ∧ ∀ b ∈ bs, (Str.toDigit 10 b.toNat).isSome then some (Str.value 10 (bs.map UInt8.toNat))
  else none

/-- The length of a message body, as RFC 9112 section 6.3 determines it. -/
inductive MessageLength where
  | none
  | chunked
  | length (n : Nat)
  | untilClose
  deriving DecidableEq

/-- Whether a response has no body whatever its fields say: the answer to `HEAD`, 204, 304, and a
successful answer to `CONNECT`. -/
def Head.bodiless (method : Bytes) (h : Head) : Bool :=
  method == lit "HEAD" || h.status == some (lit "204") || h.status == some (lit "304") ||
    (method == lit "CONNECT" && (h.status.bind List.head?) == some 50)

/-- RFC 9112 section 6.3 for a response. A response with an invalid length has none. -/
def Head.messageLength (method : Bytes) (h : Head) : Option MessageLength :=
  if h.bodiless method then some .none
  else if h.values .transferEncoding ≠ [] then
    if (h.members .transferEncoding).getLast?.any (eqIgnoreAsciiCase · (lit "chunked")) then
      some .chunked
    else some .untilClose
  else
    match h.members .contentLength with
    | [] => some .untilClose
    | v :: vs =>
      match decimal v with
      | some n => if vs.all (decimal · == some n) then some (.length n) else none
      | none => none

/-- The bodies of a length. -/
def MessageLength.Body : MessageLength → Bytes → Prop
  | .none, body => body = []
  | .chunked, body => ChunkedBody body
  | .length n, body => body.length = n
  | .untilClose, _ => True

/-- An interim response: a head with a 1xx status. -/
structure Interim where
  head : Head
  status_ok : ∃ a b, head.status = some [49, a, b]

/-- A final response to a request with the method. -/
structure Response (method : Bytes) where
  head : Head
  body : Bytes
  length : MessageLength
  status_ok : ∃ a b c, head.status = some [a, b, c] ∧ a ≠ 49
  length_ok : head.messageLength method = some length
  body_ok : length.Body body

/-- A response on the wire. -/
def Response.bytes {method : Bytes} (r : Response method) : Bytes := r.head.bytes ++ r.body

end Railscale.Http
