import Railscale.Atom.Derive
import Railscale.Http.Frame
import Railscale.Lib.Text

/-!
# HTTP derivations

Model of `carriage/src/http/derive.rs`: the matchers that read single lines of a head, and the
formulas that turn their results into the version, the body framing and the connection mode of a
message (`HttpDerivationInput::resolve_all`).
-/

namespace Railscale.Http

open Bytes

/-- Rust `Matcher`. -/
inductive Matcher where
  | headerName (name : Bytes)
  | requestLineVersion
  | requestLineMethod
  | requestLineUri
  | statusCode
  deriving DecidableEq, Repr

/-- Optional white space. -/
def isOws (b : UInt8) : Bool := b == sp || b == tab

/-- Rust `trim_ows`. -/
def trimOws (value : Bytes) : Bytes :=
  let start := (value.findIdx? (!isOws ·)).getD value.length
  let stop := ((value.reverse.findIdx? (!isOws ·)).map fun p => value.length - 1 - p + 1).getD start
  (value.take stop).drop start

/-- Rust `strip_crlf`: the last two bytes go when the first of them is `\r`. -/
def stripCrlf (data : Bytes) : Bytes :=
  if 2 ≤ data.length && data.getD (data.length - 2) 0 == cr then data.take (data.length - 2)
  else data

/-- A line end is stripped. -/
lemma stripCrlf_append_crlf (bs : Bytes) : stripCrlf (bs ++ crlf) = bs := by
  simp [stripCrlf]

namespace Matcher

/-- Rust `Matcher::phase`. -/
def phase : Matcher → HttpPhase
  | .headerName _ => .header
  | .requestLineVersion => .requestLine
  | .requestLineMethod => .requestLine
  | .requestLineUri => .requestLine
  | .statusCode => .statusLine

/-- Rust `Matcher::try_match`. -/
def tryMatch : Matcher → Bytes → Option Bytes
  | .headerName name, data => do
    let sep ← memchr 58 data
    if eqIgnoreAsciiCase (data.take sep) name then some (trimOws (stripCrlf (data.drop (sep + 1))))
    else none
  | .requestLineVersion, data => do
    let lastSpace ← memrchr sp data
    some (stripCrlf (data.drop (lastSpace + 1)))
  | .requestLineMethod, data => do
    let space ← memchr sp data
    some (data.take space)
  | .requestLineUri, data => do
    let firstSpace ← memchr sp data
    let rest := data.drop (firstSpace + 1)
    let secondSpace ← memchr sp rest
    some (rest.take secondSpace)
  | .statusCode, data => do
    let firstSpace ← memchr sp data
    let rest := data.drop (firstSpace + 1)
    some (rest.take ((memchr sp rest).getD rest.length))

/-- Rust `impl MatchAtom for Matcher`. -/
instance : MatchAtom Matcher HttpPhase := ⟨phase, tryMatch⟩

/-- What a header matcher takes from a line. -/
lemma tryMatch_headerName {name data value : Bytes} :
    tryMatch (.headerName name) data = some value ↔
      ∃ p rest, data = p ++ 58 :: rest ∧ 58 ∉ p ∧ eqIgnoreAsciiCase p name = true ∧
        value = trimOws (stripCrlf rest) := by
  have cut : ∀ p rest : Bytes, 58 ∉ p → tryMatch (.headerName name) (p ++ 58 :: rest) =
      if eqIgnoreAsciiCase p name then some (trimOws (stripCrlf rest)) else none := by
    intro p rest hp
    simp [tryMatch, memchr_append_cons hp]
  constructor
  · intro h
    cases hm : memchr 58 data with
    | none => simp [tryMatch, hm] at h
    | some n =>
      obtain ⟨p, rest, rfl, -, hp⟩ := memchr_eq_some hm
      rw [cut p rest hp] at h
      split at h
      · rename_i hn
        exact ⟨p, rest, rfl, hp, hn, (Option.some.inj h).symm⟩
      · cases h
  · rintro ⟨p, rest, rfl, hp, hn, rfl⟩
    rw [cut p rest hp, if_pos hn]

/-- What the version matcher takes from a line. -/
lemma tryMatch_requestLineVersion {data version : Bytes} :
    tryMatch .requestLineVersion data = some version ↔
      ∃ p rest, data = p ++ sp :: rest ∧ sp ∉ rest ∧ version = stripCrlf rest := by
  have cut : ∀ p rest : Bytes, sp ∉ rest →
      tryMatch .requestLineVersion (p ++ sp :: rest) = some (stripCrlf rest) := by
    intro p rest hr
    simp [tryMatch, memrchr_append_cons hr]
  constructor
  · intro h
    cases hm : memchr sp data.reverse with
    | none => simp [tryMatch, memrchr, hm] at h
    | some n =>
      obtain ⟨q, t, e, -, hq⟩ := memchr_eq_some hm
      have e : data = t.reverse ++ sp :: q.reverse := by
        rw [← List.reverse_reverse data, e]
        simp
      subst e
      have hq : sp ∉ q.reverse := by simpa using hq
      rw [cut _ _ hq] at h
      exact ⟨_, _, rfl, hq, (Option.some.inj h).symm⟩
  · rintro ⟨p, rest, rfl, hr, rfl⟩
    exact cut p rest hr

/-- `Matcher::HeaderName(b"Content-Length")`. -/
def contentLength : Matcher := .headerName (lit "Content-Length")

/-- `Matcher::HeaderName(b"Transfer-Encoding")`. -/
def transferEncoding : Matcher := .headerName (lit "Transfer-Encoding")

/-- `Matcher::HeaderName(b"Connection")`. -/
def connection : Matcher := .headerName (lit "Connection")

end Matcher

/-- Rust `HttpVersion`. -/
inductive HttpVersion where
  | http10
  | http11
  deriving DecidableEq, Repr

/-- Rust `BodyFramingMode`. -/
inductive BodyFramingMode where
  | fixed (len : Nat)
  | chunked
  | untilClose
  | none
  | invalid
  deriving DecidableEq, Repr

/-- Rust `ConnectionMode`. -/
inductive ConnectionMode where
  | keepAlive
  | close
  deriving DecidableEq, Repr

/-- `b"HTTP/1.0"`. -/
def http10 : Bytes := lit "HTTP/1.0"

/-- Rust `VersionFormula`. -/
def VersionFormula : DerivationFormula Matcher HttpVersion where
  matchers := [.requestLineVersion]
  resolve matched :=
    match matched.head?.join with
    | some v => if v = http10 then .http10 else .http11
    | none => .http11

/-- Whether a comma-separated list has a token, ignoring ASCII case (Rust `has_connection_token`). -/
def hasConnectionToken (value token : Bytes) : Bool :=
  ((value.splitOn 44).map trimOws).any fun t => eqIgnoreAsciiCase t token

/-- Rust `has_chunked_token`. -/
def hasChunkedToken (value : Bytes) : Bool := hasConnectionToken value (lit "chunked")

/-- The framing of a `Content-Length` value. -/
def contentLengthFraming (cl : Bytes) : BodyFramingMode :=
  match Str.fromUtf8 cl with
  | none => .invalid
  | some s =>
    match Str.parseUsize (Str.trim s) with
    | some len => .fixed len
    | none => .invalid

/-- Rust `BodyFramingFormula`. -/
def BodyFramingFormula : DerivationFormula Matcher BodyFramingMode where
  matchers := [.contentLength, .transferEncoding, .requestLineVersion]
  resolve matched :=
    let contentLength := matched.head?.join
    let transferEncoding := matched[1]?.join
    let version := matched[2]?.join
    if transferEncoding.any hasChunkedToken then .chunked
    else
      match contentLength with
      | some cl => contentLengthFraming cl
      | none => if version.any (· == http10) then .untilClose else .none

/-- Rust `ConnectionFormula`. -/
def ConnectionFormula : DerivationFormula Matcher ConnectionMode where
  matchers := [.connection, .requestLineVersion]
  resolve matched :=
    let connection := matched.head?.join
    let version := matched[1]?.join
    if connection.any (hasConnectionToken · (lit "close")) then .close
    else if connection.any (hasConnectionToken · (lit "keep-alive")) then .keepAlive
    else if version.any (· == http10) then .close
    else .keepAlive

/-- Rust `HttpDerivationInput`. -/
structure HttpDerivationInput where
  version : HttpVersion
  bodyFraming : BodyFramingMode
  connection : ConnectionMode
  hasConflicts : Bool
  clTeConflict : Bool
  deriving DecidableEq, Repr

namespace HttpDerivationInput

/-- Rust `HttpDerivationInput::all_matchers`. -/
def allMatchers : List Matcher :=
  VersionFormula.matchers ++ BodyFramingFormula.matchers ++ ConnectionFormula.matchers

/-- Rust `HttpDerivationInput::resolve_all`. -/
def resolveAll (session : DeriverSession Matcher) : HttpDerivationInput :=
  let bfResults := session.resultsFor BodyFramingFormula
  let clPresent := bfResults.head?.join.isSome
  let tePresent := bfResults[1]?.join.isSome
  { version := VersionFormula.resolve (session.resultsFor VersionFormula)
    bodyFraming := BodyFramingFormula.resolve bfResults
    connection := ConnectionFormula.resolve (session.resultsFor ConnectionFormula)
    hasConflicts :=
      session.hasConflictsFor BodyFramingFormula || session.hasConflictsFor ConnectionFormula
    clTeConflict := clPresent && tePresent }

end HttpDerivationInput

/-! ## Resolution from the lines -/

/-- The lines of a head with the phases they are fed under. -/
abbrev Lines := List (HttpPhase × Bytes)

open DeriverSession in
/-- The derivation of a head, read off its lines. -/
def derive (ls : Lines) : HttpDerivationInput :=
  let cl := hits ls Matcher.contentLength
  let te := hits ls Matcher.transferEncoding
  let conn := hits ls Matcher.connection
  let ver := hits ls Matcher.requestLineVersion
  { version := VersionFormula.resolve [ver.head?]
    bodyFraming := BodyFramingFormula.resolve [cl.head?, te.head?, ver.head?]
    connection := ConnectionFormula.resolve [conn.head?, ver.head?]
    hasConflicts := clash cl || clash te || clash ver || clash conn
    clTeConflict := cl.head?.isSome && te.head?.isSome }

/-- The connection formula in the session of all formulas, with a head whose `Connection` lines disagree. -/
theorem shared_eq_own_connection :
    let ls : Lines := [(.requestLine, lit "GET / HTTP/1.1\r\n"), (.header, lit "Connection: close\r\n"),
      (.header, lit "Connection: keep-alive\r\n")]
    let shared := (DeriverSession.new HttpDerivationInput.allMatchers).feedAll ls
    let own := (DeriverSession.new ConnectionFormula.matchers).feedAll ls
    shared ≠ own ∧ own.resultsFor ConnectionFormula = [some (lit "close"), some (lit "HTTP/1.1")] ∧
      own.hasConflictsFor ConnectionFormula = true ∧
      shared.resultsFor ConnectionFormula = own.resultsFor ConnectionFormula ∧
      shared.hasConflictsFor ConnectionFormula = own.hasConflictsFor ConnectionFormula := by
  have sub : ∀ m ∈ ConnectionFormula.matchers, m ∈ HttpDerivationInput.allMatchers := by decide
  refine ⟨by decide +kernel, by decide +kernel, by decide +kernel, ?_⟩
  exact DeriverSession.shared_eq_own ConnectionFormula sub _

/-- Resolving a session that was fed the lines is reading them. -/
theorem resolveAll_feedAll (ls : Lines) :
    HttpDerivationInput.resolveAll
      ((DeriverSession.new HttpDerivationInput.allMatchers).feedAll ls) = derive ls := by
  have subV : ∀ m ∈ VersionFormula.matchers, m ∈ HttpDerivationInput.allMatchers := by decide
  have subB : ∀ m ∈ BodyFramingFormula.matchers, m ∈ HttpDerivationInput.allMatchers := by decide
  have subC : ∀ m ∈ ConnectionFormula.matchers, m ∈ HttpDerivationInput.allMatchers := by decide
  simp only [HttpDerivationInput.resolveAll, derive,
    DeriverSession.resultsFor_feedAll subV, DeriverSession.resultsFor_feedAll subB,
    DeriverSession.resultsFor_feedAll subC, DeriverSession.hasConflictsFor_feedAll subB,
    DeriverSession.hasConflictsFor_feedAll subC]
  simp only [VersionFormula, BodyFramingFormula, ConnectionFormula, List.map_cons, List.map_nil,
    List.any_cons, List.any_nil, Bool.or_false, List.head?_cons, List.getElem?_cons_succ,
    List.getElem?_cons_zero, Option.join_some, HttpDerivationInput.mk.injEq, true_and]
  generalize DeriverSession.clash (DeriverSession.hits ls Matcher.contentLength) = a
  generalize DeriverSession.clash (DeriverSession.hits ls Matcher.transferEncoding) = b
  generalize DeriverSession.clash (DeriverSession.hits ls Matcher.requestLineVersion) = c
  generalize DeriverSession.clash (DeriverSession.hits ls Matcher.connection) = d
  cases a <;> cases b <;> cases c <;> cases d <;> decide

end Railscale.Http
