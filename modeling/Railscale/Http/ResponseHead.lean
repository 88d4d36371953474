import Railscale.Http.Hook
import Railscale.Http.Message
import Railscale.Http.ResponseCodec

/-!
# Response heads

`ResponseCodec` in the middle of a head, as a function of the lines it has taken (`headCodec`), and the
two derivations that `do_connection` makes of a response head: the codec's own session, which frames
the body, and the session of the response hook, which decides on the connection. Only the codec feeds
its session a request line made of the status line, so the two agree unless the version is HTTP/1.0.
-/

namespace Railscale.Http

open Bytes

namespace ResponseCodec

/-- What the codec feeds its session for the lines of a head. -/
def sessionLines : List Bytes → Lines
  | [] => []
  | l :: ls => (.statusLine, l ++ crlf) :: (.requestLine, synthetic (l ++ crlf)) ::
      ls.map fun l => (.header, l ++ crlf)

/-- The codec behind some lines of a head. -/
def headCodec (ls : List Bytes) : ResponseCodec :=
  ⟨.headers, ls.isEmpty,
    (DeriverSession.new HttpDerivationInput.allMatchers).feedAll (sessionLines ls), none⟩

/-- The frames of the lines of a head. -/
def headFrames : List Bytes → List HttpFrame
  | [] => []
  | l :: ls => .statusLine (l ++ crlf) :: ls.map fun l => .header (l ++ crlf)

/-- The first line is the status line, and the others are headers. -/
lemma headFrames_concat (ls : List Bytes) (l : Bytes) :
    headFrames (ls ++ [l]) =
      headFrames ls ++ [if ls.isEmpty then .statusLine (l ++ crlf) else .header (l ++ crlf)] := by
  cases ls <;> simp [headFrames]

/-- The next line of a head. -/
lemma decode_headCodec (ls : List Bytes) {l : Bytes} (line : IsLine l) (rest : Bytes) :
    (headCodec ls).decode (l ++ cr :: lf :: rest) =
      if ls ≠ [] ∧ HttpStreamingCodec.IsFold l then
        (.error obsFold, headCodec ls, l ++ cr :: lf :: rest)
      else
        (.ok (some (.frame (if ls.isEmpty then .statusLine (l ++ crlf) else .header (l ++ crlf)))),
          headCodec (ls ++ [l]), rest) := by
  rw [decode_line rfl line.ne line.noCrlf]
  cases ls with
  | nil => rfl
  | cons a ls =>
    have next : (headCodec (a :: ls)).afterHeader (l ++ crlf) = headCodec (a :: ls ++ [l]) := by
      simp [afterHeader, headCodec, sessionLines, DeriverSession.feedAll]
    by_cases fold : HttpStreamingCodec.IsFold l
    · simp [headCodec, fold]
    · rw [next]
      simp [headCodec, fold]

/-- How far a codec has come that was called in any way: inside the head, or behind it. -/
inductive Progress (w : Bytes) : List ResponseCodecItem → ResponseCodec → Bytes → Prop where
  | head {ls b} :
    HeadLines ls →
    w = unlines ls ++ b →
    Progress w ((headFrames ls).map .frame) (headCodec ls) b
  | body {ls bodies c b rest} :
    HeadLines ls →
    w = unlines ls ++ crlf ++ rest →
    (∀ i ∈ bodies, ∃ bs, i = .body bs) →
    c.bodyState ≠ .headers →
    c.session = (headCodec ls).session →
    Progress w ((headFrames ls).map .frame ++ .frame .endOfHeaders :: bodies) c b

/-- The rest of a body is not the head. -/
lemma BodyState.ofRemaining_ne_headers (n : Nat) : BodyState.ofRemaining n ≠ .headers := by
  rw [BodyState.ofRemaining]
  split
  · rintro ⟨⟩
  · rintro ⟨⟩

/-- The start of a body is not the head. -/
lemma BodyState.ofFraming_ne_headers (framing : BodyFramingMode) :
    BodyState.ofFraming framing ≠ .headers := by
  cases framing with
  | fixed n => exact BodyState.ofRemaining_ne_headers n
  | _ => nofun

/-- A body with a length does not lead back into the head, and touches only the body state. -/
lemma decodeFixedLength_state {c c' : ResponseCodec} {src rest : Bytes} {n : Nat} {o}
    (d : c.decodeFixedLength src n = (o, c', rest)) (hs : c.bodyState ≠ .headers) :
    c'.bodyState ≠ .headers ∧ c' = { c with bodyState := c'.bodyState } := by
  rw [decodeFixedLength] at d
  split at d
  · cases d
    exact ⟨hs, rfl⟩
  · cases d
    exact ⟨BodyState.ofRemaining_ne_headers _, rfl⟩

/-- Nor does a chunked body. -/
lemma decodeChunked_state {c c' : ResponseCodec} {src rest : Bytes} {state : ChunkedState} {r}
    (d : c.decodeChunked src state = (r, c', rest)) (hs : c.bodyState ≠ .headers) :
    c'.bodyState ≠ .headers ∧ c' = { c with bodyState := c'.bodyState } := by
  have same : c.bodyState ≠ .headers ∧ c = { c with bodyState := c.bodyState } := ⟨hs, rfl⟩
  have chunks : ∀ state, BodyState.chunked state ≠ .headers := by
    rintro _ ⟨⟩
  have last : BodyState.done ≠ .headers := by
    rintro ⟨⟩
  cases state with
  | expectSize =>
    rw [decodeChunked] at d
    split at d
    · cases d; exact same
    · split at d
      · cases d; exact same
      · cases d; exact ⟨chunks _, rfl⟩
  | data n pos =>
    rw [decodeChunked] at d
    split at d
    · cases d; exact same
    · cases d; exact ⟨chunks _, rfl⟩
  | expectDataCrlf =>
    rw [decodeChunked] at d
    split at d
    · cases d; exact same
    · cases d; exact ⟨chunks _, rfl⟩
  | trailerOrEnd =>
    rw [decodeChunked] at d
    split at d
    · cases d; exact ⟨last, rfl⟩
    · cases d; exact same
    · cases d; exact same

/-- Behind the head a call changes the body state only, and takes bodies only. -/
lemma decode_body {c c' : ResponseCodec} {b rest : Bytes} {r} (hs : c.bodyState ≠ .headers)
    (d : c.decode b = (r, c', rest)) :
    (c'.bodyState ≠ .headers ∧ c' = { c with bodyState := c'.bodyState }) ∧
      ∀ i, r = .ok (some i) → ∃ bs, i = .body bs := by
  rw [decode] at d
  split at d
  · rename_i e
    exact absurd e hs
  · split at d <;> rename_i e <;> cases d <;>
      exact ⟨decodeFixedLength_state e hs, by rintro _ ⟨⟩ <;> exact ⟨_, rfl⟩⟩
  · split at d <;> rename_i e <;> cases d <;>
      exact ⟨decodeChunked_state e hs, by rintro _ ⟨⟩ <;> exact ⟨_, rfl⟩⟩
  · split at d <;> cases d <;> exact ⟨⟨hs, rfl⟩, by rintro _ ⟨⟩ <;> exact ⟨_, rfl⟩⟩
  · cases d
    exact ⟨⟨hs, rfl⟩, by rintro _ ⟨⟩⟩

/-- A codec can be brought behind the lines of any head. -/
lemma calls_lines {ls : List Bytes} (ok : HeadLines ls) (rest : Bytes) :
    Decoder.Calls new (unlines ls ++ rest) ((headFrames ls).map .frame) (headCodec ls) rest := by
  induction ls using List.reverseRecOn generalizing rest with
  | nil => exact .arrive rest .start
  | append_singleton ls l ih =>
    have line := ok.line l (by simp)
    have front : HeadLines ls := by
      refine ⟨fun x hx => ok.line x (by simp [hx]), fun x hx => ok.noFold x ?_⟩
      cases ls with
      | nil => cases hx
      | cons a ls => exact List.mem_append_left _ hx
    have noFold : ¬ (ls ≠ [] ∧ HttpStreamingCodec.IsFold l) := by
      rintro ⟨ne, fold⟩
      obtain ⟨a, ls, rfl⟩ := List.exists_cons_of_ne_nil ne
      exact ok.noFold l (by simp) fold
    have d := decode_headCodec ls line rest
    rw [if_neg noFold] at d
    have e : unlines (ls ++ [l]) ++ rest = unlines ls ++ (l ++ cr :: lf :: rest) := by simp
    rw [e, headFrames_concat, List.map_append, List.map_singleton]
    exact .item (ih front _) d

/-- A codec can be brought to the end of any head. -/
lemma calls_head (h : Head) (rest : Bytes) :
    Decoder.Calls new (h.bytes ++ rest) ((headFrames h.lines ++ [HttpFrame.endOfHeaders]).map .frame)
      (headCodec h.lines).endHeaders rest := by
  rw [Head.bytes, List.append_assoc, List.map_append, List.map_singleton]
  exact .item (calls_lines h.headLines _) (decode_empty rfl rest)

/-- A codec that was called in any way is inside the head or behind it. -/
theorem progress {w : Bytes} {is : List ResponseCodecItem} {c : ResponseCodec} {b : Bytes}
    (calls : Decoder.Calls new w is c b) : Progress w is c b := by
  induction calls with
  | start => exact @Progress.head [] [] [] HeadLines.nil rfl
  | arrive bs _ ih =>
    cases ih with
    | head ok e => exact .head ok (by rw [e, List.append_assoc])
    | body ok e bodies hs session =>
      exact .body ok (by rw [e, List.append_assoc]) bodies hs session
  | wait _ d ih =>
    cases ih with
    | head ok e =>
      obtain ⟨rfl, rfl⟩ := incremental.none_same d
      exact .head ok e
    | body ok e bodies hs session =>
      obtain ⟨rfl, rfl⟩ := incremental.none_same d
      exact .body ok e bodies hs session
  | @item w is c b i c' b' _ d ih =>
    cases ih with
    | @head ls _ ok e =>
      -- an item of the head is a line: the empty one ends it, any other is added to it
      rcases line_or_noCrlf b with nc | ⟨l, rest, hl, rfl⟩
      · rw [show Decoder.decode _ b = _ from decode_noCrlf rfl nc] at d
        cases d
      by_cases ne : l = []
      · subst ne
        rw [show Decoder.decode _ ([] ++ cr :: lf :: rest) = _ from decode_empty rfl rest] at d
        cases d
        exact .body ok (by simpa using e) nofun (BodyState.ofFraming_ne_headers _) rfl
      · rw [show Decoder.decode _ (l ++ cr :: lf :: rest) = _ from
          decode_headCodec ls ⟨ne, hl⟩ rest] at d
        split at d
        · cases d
        · rename_i fold
          cases d
          have frames := congrArg (List.map ResponseCodecItem.frame) (headFrames_concat ls l)
          rw [List.map_append, List.map_singleton] at frames
          rw [← frames]
          refine .head (ok.concat ⟨ne, hl⟩ fun h hf => fold ⟨h, hf⟩) ?_
          rw [e]
          simp
    | body ok e bodies hs session =>
      obtain ⟨⟨hs', same⟩, item⟩ := decode_body hs d
      rw [List.append_assoc, List.cons_append]
      refine .body ok e ?_ hs' ?_
      · intro j hj
        rcases List.mem_append.1 hj with hj | hj
        · exact bodies j hj
        · rw [List.mem_singleton.1 hj]
          exact item i rfl
      · rw [same]
        exact session

/-! ## The two derivations -/

/-- The version that the codec's session takes from the line it makes of a status line is HTTP/1.0
exactly when the status line has it before its first space. -/
lemma tryMatch_synthetic {l : Bytes} :
    ∃ v, Matcher.requestLineVersion.tryMatch (synthetic (l ++ crlf)) = some v ∧
      (v = http10 ↔ http10 ++ [sp] <+: l) := by
  have version : ∀ v : Bytes, sp ∉ v →
      Matcher.requestLineVersion.tryMatch (lit "GET / " ++ v ++ crlf) = some v := by
    intro v hv
    refine Matcher.tryMatch_requestLineVersion.2 ⟨lit "GET /", v ++ crlf, ?_, ?_, ?_⟩
    · have e : lit "GET / " = lit "GET /" ++ [sp] := by decide
      rw [e]
      simp
    · simp [hv]
      decide
    · rw [stripCrlf_append_crlf]
  cases hm : memchr sp l with
  | none =>
    -- without a space the version is the whole line, its ending included, so it is not HTTP/1.0
    have none : sp ∉ l ++ crlf := by simp [memchr_eq_none.1 hm, show ¬ sp ∈ crlf by decide]
    refine ⟨l ++ crlf, ?_, ?_, ?_⟩
    · rw [synthetic, extractStatusLineVersion, memchr_eq_none.2 none]
      exact version _ none
    · intro e
      have mem : lf ∈ http10 := e ▸ (by simp)
      exact absurd mem (by decide)
    · rintro ⟨r, rfl⟩
      exact absurd (by simp) none
  | some n =>
    obtain ⟨p, r, rfl, -, hp⟩ := memchr_eq_some hm
    have first : memchr sp (p ++ sp :: r ++ crlf) = some p.length := by
      rw [List.append_assoc]
      exact memchr_append_cons hp
    refine ⟨p, ?_, ?_, ?_⟩
    · rw [synthetic, extractStatusLineVersion, first]
      simp only [List.append_assoc, List.take_left' rfl]
      exact version p hp
    · rintro rfl
      exact ⟨r, by simp⟩
    · rintro ⟨t, e⟩
      have at_p := memchr_append_cons (s := r) hp
      rw [← e, List.append_assoc, List.singleton_append,
        memchr_append_cons (show sp ∉ http10 by decide)] at at_p
      rw [List.append_assoc] at e
      exact (List.append_inj_left e (Option.some.inj at_p)).symm

open DeriverSession in
/-- The derivation of a head whose session has seen the version `v`, if any. -/
def deriveWith (v : Option Bytes) (fields : Lines) : HttpDerivationInput :=
  let cl := hits fields Matcher.contentLength
  let te := hits fields Matcher.transferEncoding
  let conn := hits fields Matcher.connection
  { version := VersionFormula.resolve [v]
    bodyFraming := BodyFramingFormula.resolve [cl.head?, te.head?, v]
    connection := ConnectionFormula.resolve [conn.head?, v]
    hasConflicts := clash cl || clash te || clash conn
    clTeConflict := cl.head?.isSome && te.head?.isSome }

/-- Header lines have no version. -/
lemma hits_fields_version (ls : List Bytes) :
    DeriverSession.hits (ls.map fun l => (HttpPhase.header, l ++ crlf)) Matcher.requestLineVersion
      = [] := by
  rw [DeriverSession.hits, List.filterMap_eq_nil_iff]
  intro x hx
  obtain ⟨l, -, rfl⟩ := List.mem_map.1 hx
  refine if_neg ?_
  rintro ⟨⟩

/-- One value does not clash. -/
lemma clash_singleton (v : Bytes) : DeriverSession.clash [v] = false :=
  DeriverSession.clash_eq_false.2 (by simp)

/-- The session of the codec derives from the headers and from the version of its synthetic line. -/
lemma derive_sessionLines {l v : Bytes} (ls : List Bytes)
    (hv : Matcher.requestLineVersion.tryMatch (synthetic (l ++ crlf)) = some v) :
    derive (sessionLines (l :: ls)) =
      deriveWith (some v) (ls.map fun l => (.header, l ++ crlf)) := by
  have version : DeriverSession.hits (sessionLines (l :: ls)) Matcher.requestLineVersion = [v] := by
    rw [sessionLines, DeriverSession.hits_cons, if_neg (by decide), DeriverSession.hits_cons,
      if_pos (by decide), hits_fields_version]
    exact congrArg (Option.toList · ++ []) hv
  have fields : ∀ name, DeriverSession.hits (sessionLines (l :: ls)) (Matcher.headerName name) =
      DeriverSession.hits (ls.map fun l => (HttpPhase.header, l ++ crlf)) (Matcher.headerName name) := by
    intro name
    have status := DeriverSession.hits_cons HttpPhase.statusLine (l ++ crlf)
      ((.requestLine, synthetic (l ++ crlf)) :: ls.map fun l => (.header, l ++ crlf))
      (Matcher.headerName name)
    have request := DeriverSession.hits_cons HttpPhase.requestLine (synthetic (l ++ crlf))
      (ls.map fun l => (.header, l ++ crlf)) (Matcher.headerName name)
    exact (status.trans (if_neg nofun)).trans (request.trans (if_neg nofun))
  simp only [derive, deriveWith, version, clash_singleton, Matcher.contentLength,
    Matcher.transferEncoding, Matcher.connection, fields, List.head?_cons, Bool.or_false]

/-- What the hook is fed for a head. -/
lemma fedLines_headFrames (l : Bytes) (ls : List Bytes) :
    HttpDeriverHook.fedLines (headFrames (l :: ls) ++ [.endOfHeaders]) =
      (.statusLine, l ++ crlf) :: ls.map fun l => (.header, l ++ crlf) := by
  have fields : HttpDeriverHook.fedLines ((ls.map fun l => HttpFrame.header (l ++ crlf)) ++
      [.endOfHeaders]) = ls.map fun l => (.header, l ++ crlf) := by
    induction ls with
    | nil => rfl
    | cons a ls ih => exact congrArg (_ :: ·) ih
  exact congrArg (_ :: ·) fields

/-- The hook derives from the headers alone. -/
lemma derive_hookLines (l : Bytes) (ls : List Bytes) :
    derive (HttpDeriverHook.fedLines (headFrames (l :: ls) ++ [.endOfHeaders])) =
      deriveWith none (ls.map fun l => (.header, l ++ crlf)) := by
  have version : DeriverSession.hits ((HttpPhase.statusLine, l ++ crlf) ::
      ls.map fun l => (HttpPhase.header, l ++ crlf)) Matcher.requestLineVersion = [] := by
    rw [DeriverSession.hits_cons, if_neg (by decide), hits_fields_version]
  have fields : ∀ name, DeriverSession.hits ((HttpPhase.statusLine, l ++ crlf) ::
      ls.map fun l => (HttpPhase.header, l ++ crlf)) (Matcher.headerName name) =
      DeriverSession.hits (ls.map fun l => (HttpPhase.header, l ++ crlf)) (Matcher.headerName name) := by
    intro name
    exact (DeriverSession.hits_cons _ _ _ _).trans (if_neg nofun)
  rw [fedLines_headFrames]
  simp only [derive, deriveWith, version, show DeriverSession.clash [] = false from rfl,
    Matcher.contentLength, Matcher.transferEncoding, Matcher.connection, fields, List.head?_nil,
    Bool.or_false]

/-- Only the version HTTP/1.0 tells a session that has seen a version from one that has not. -/
lemma deriveWith_none_eq_iff (v : Bytes) (fields : Lines) :
    deriveWith none fields = deriveWith (some v) fields ↔ v ≠ http10 := by
  constructor
  · rintro h rfl
    have version := congrArg HttpDerivationInput.version h
    revert version
    simp [deriveWith, VersionFormula]
  · intro ne
    have ne' : (v == http10) = false := by simpa using ne
    simp [deriveWith, VersionFormula, BodyFramingFormula, ConnectionFormula, ne, ne']

/-- The end of a head is none of its lines. -/
lemma endOfHeaders_notMem_headFrames (ls : List Bytes) : HttpFrame.endOfHeaders ∉ headFrames ls := by
  intro mem
  cases ls with
  | nil => cases mem
  | cons l ls =>
    rcases List.mem_cons.1 mem with h | h
    · cases congrArg HttpFrame.phase h
    · obtain ⟨_, _, h⟩ := List.mem_map.1 h
      cases congrArg HttpFrame.phase h

/-- Calls that end with the end of the headers have taken the lines of a head. -/
lemma calls_endOfHeaders {w b : Bytes} {fs : List HttpFrame} {c : ResponseCodec}
    (calls : Decoder.Calls new w ((fs ++ [HttpFrame.endOfHeaders]).map .frame) c b) :
    ∃ ls rest, HeadLines ls ∧ w = unlines ls ++ crlf ++ rest ∧ fs = headFrames ls ∧
      c.session = (headCodec ls).session := by
  generalize e : (fs ++ [HttpFrame.endOfHeaders]).map ResponseCodecItem.frame = is at calls
  rw [List.map_append, List.map_singleton] at e
  cases progress calls with
  | @head ls b ok _ =>
    have mem : ResponseCodecItem.frame .endOfHeaders ∈ (headFrames ls).map ResponseCodecItem.frame := by
      rw [← e]
      simp
    obtain ⟨f, hf, eq⟩ := List.mem_map.1 mem
    cases eq
    exact absurd hf (endOfHeaders_notMem_headFrames ls)
  | @body ls bodies c b rest ok input bodies_ok _ session =>
    rcases List.eq_nil_or_concat bodies with rfl | ⟨front, i, rfl⟩
    · obtain ⟨frames, -⟩ := List.append_inj' e rfl
      have inj : Function.Injective ResponseCodecItem.frame := fun _ _ h => by cases h; rfl
      exact ⟨ls, rest, ok, input, List.map_injective_iff.2 inj frames, session⟩
    · rw [List.concat_eq_append, ← List.cons_append, ← List.append_assoc] at e
      obtain ⟨-, last⟩ := List.append_inj' e rfl
      obtain ⟨bs, rfl⟩ := bodies_ok i (by simp)
      cases last

end ResponseCodec

open ResponseCodec HttpDeriverHook

/-- The hook that saw the frames of a response head and the session of the codec that emitted them
resolve to the same facts if and only if the status line does not begin with the version HTTP/1.0 and
a space. -/
theorem ResponseCodec.resolve_eq_iff (h : Head) {w rest b : Bytes} {fs : List HttpFrame}
    {c : ResponseCodec} (input : w = h.bytes ++ rest)
    (calls : Decoder.Calls ResponseCodec.new w ((fs ++ [HttpFrame.endOfHeaders]).map .frame) c b) :
    ((fs ++ [HttpFrame.endOfHeaders]).foldl onFrame HttpDeriverHook.new).resolve =
        HttpDerivationInput.resolveAll c.session ↔
      ¬ http10 ++ [sp] <+: h.startLine := by
  obtain ⟨ls, rest', ok, input', rfl, session⟩ := calls_endOfHeaders calls
  obtain ⟨rfl, -⟩ := unlines_unique ok.line h.headLines.line (input'.symm.trans input)
  obtain ⟨v, hv, version⟩ := tryMatch_synthetic (l := h.startLine)
  have hook : ((headFrames h.lines ++ [HttpFrame.endOfHeaders]).foldl onFrame HttpDeriverHook.new).resolve =
      deriveWith none h.fields := by
    rw [resolve_onFrames]
    exact derive_hookLines h.startLine h.headers
  have codec : HttpDerivationInput.resolveAll c.session = deriveWith (some v) h.fields := by
    rw [session]
    exact (resolveAll_feedAll _).trans (derive_sessionLines h.headers hv)
  rw [hook, codec, deriveWith_none_eq_iff, ne_eq, version]

/-- A response head of version HTTP/1.1. -/
def http11Head : Head where
  startLine := lit "HTTP/1.1 200 OK"
  headers := [lit "Content-Length: 2"]
  startLine_ok := ⟨by decide, by decide⟩
  headers_ok := by
    intro l hl
    obtain rfl := List.mem_singleton.1 hl
    exact ⟨⟨by decide, by decide⟩, by decide⟩

/-- The two resolutions of a head of version HTTP/1.1. -/
theorem ResponseCodec.resolve_eq_iff_http11 :
    ((headFrames http11Head.lines ++ [HttpFrame.endOfHeaders]).foldl onFrame
        HttpDeriverHook.new).resolve =
      HttpDerivationInput.resolveAll (headCodec http11Head.lines).endHeaders.session :=
  (ResponseCodec.resolve_eq_iff http11Head rfl (calls_head http11Head [])).2 (by decide)

/-- A response head of version HTTP/1.0. -/
def http10Head : Head where
  startLine := lit "HTTP/1.0 200 OK"
  headers := [lit "Content-Length: 2"]
  startLine_ok := ⟨by decide, by decide⟩
  headers_ok := by
    intro l hl
    obtain rfl := List.mem_singleton.1 hl
    exact ⟨⟨by decide, by decide⟩, by decide⟩

/-- The codec takes an HTTP/1.0 connection to be closed by the upstream, the hook takes it to be kept. -/
theorem ResponseCodec.resolve_ne_http10 :
    Decoder.Calls ResponseCodec.new http10Head.bytes
      ((headFrames http10Head.lines ++ [HttpFrame.endOfHeaders]).map .frame)
      (headCodec http10Head.lines).endHeaders [] ∧
    ((headFrames http10Head.lines ++ [HttpFrame.endOfHeaders]).foldl onFrame
        HttpDeriverHook.new).resolve ≠
      HttpDerivationInput.resolveAll (headCodec http10Head.lines).endHeaders.session := by
  refine ⟨?_, by decide +kernel⟩
  have calls := calls_head http10Head []
  rwa [List.append_nil] at calls

end Railscale.Http
