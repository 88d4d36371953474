import Railscale.Http.Pipeline
import Railscale.Http.Hook

/-!
# Header rewriting

`HttpStreamingCodec` and `HttpPipeline` both replace headers. `keepalive_alike` shows that it does not matter which
of the two is given the matchers. The hook has seen a head before it is rewritten; `keepalive_preserves` shows that
the framing it has derived and checked is still that of the rewritten head.
-/

namespace Railscale.Http

open Bytes

/-! ## The codec and the pipeline -/

namespace HttpStreamingCodec

/-- The codec finds the name of a header as the pipeline does, with or without the line ending. -/
lemma fieldName_crlf (l : Bytes) : fieldName (l ++ crlf) = fieldName l := by
  cases named : fieldName l with
  | none =>
    rw [fieldName_eq_none] at named ⊢
    rw [List.mem_append, not_or]
    exact ⟨named, by decide⟩
  | some name =>
    obtain ⟨rest, rfl, colon⟩ := fieldName_eq_some named
    rw [List.append_assoc]
    exact fieldName_cut colon _

/-- The codec replaces a header as the pipeline does. -/
lemma replaced_eq (matchers : List (Bytes × Bytes)) (l : Bytes) :
    replaced matchers l = (fieldName l).bind (replacement matchers) := by
  rw [replaced, fieldName]
  cases memchr 58 l with
  | none =>
    apply List.findSome?_eq_none_iff.2
    intro m _
    rfl
  | some sep => exact findSome_replacement matchers (l.take sep)

/-- A replaced header is stripped, or kept, as the header it replaces. -/
lemma rewritten_replaced (matchers : List (Bytes × Bytes)) (l : Bytes) :
    (HttpPipeline.keepalive []).rewritten ((replaced matchers l).getD (l ++ crlf)) =
      (HttpPipeline.keepalive matchers).rewritten (l ++ crlf) := by
  rw [replaced_eq, HttpPipeline.rewritten, HttpPipeline.rewritten, fieldName_crlf]
  cases named : fieldName l with
  | none =>
    simp only [Option.bind_none, Option.getD_none, fieldName_crlf, named]
  | some name =>
    simp only [Option.bind_some, HttpPipeline.keepalive]
    cases found : matchers.find? fun m => memmem m.1 name with
    | none => simp only [replacement, found, Option.map_none, Option.getD_none, fieldName_crlf, named, List.find?_nil]
    | some m =>
      obtain ⟨-, -, colon⟩ := fieldName_eq_some named
      simp only [replacement, found, Option.map_some, Option.getD_some, fieldName_headerLine colon, List.find?_nil,
        Option.map_none, Option.getD_none]

/-- Two codecs at the same place of a head, one with the matchers and one without. -/
structure Same (matchers : List (Bytes × Bytes)) (c d : HttpStreamingCodec) : Prop where
  done : c.done = d.done
  firstLine : c.firstLine = d.firstLine
  given : c.matchers = matchers
  bare : d.matchers = []

/-- The frame of a line is rewritten alike by the codec and by the pipeline. -/
lemma frameOf_alike {matchers : List (Bytes × Bytes)} {c d : HttpStreamingCodec} (same : Same matchers c d)
    (l : Bytes) :
    (HttpPipeline.keepalive []).process (c.frameOf l) = (HttpPipeline.keepalive matchers).process (d.frameOf l) := by
  rw [frameOf, frameOf, same.firstLine, same.given, same.bare]
  cases d.firstLine with
  | true => rfl
  | false =>
    have none : replaced [] l = none := rfl
    simp only [Bool.false_eq_true, if_false, none, Option.getD_none, HttpPipeline.process_header,
      rewritten_replaced]

/-- The two codecs make the same of every buffer, up to the rewriting by the pipeline. -/
lemma decode_alike {matchers : List (Bytes × Bytes)} {c d : HttpStreamingCodec} (same : Same matchers c d) (b : Bytes) :
    Decoder.Alike (Same matchers) (HttpPipeline.keepalive []).process (HttpPipeline.keepalive matchers).process
      (c.decode b) (d.decode b) := by
  rcases Bool.eq_false_or_eq_true c.done with stop | going
  · rw [decode_done stop, decode_done (same.done ▸ stop)]
    exact .none same
  have going' : d.done = false := same.done ▸ going
  obtain none | ⟨l, rest, line, rfl⟩ := line_or_noCrlf b
  · rw [decode_noCrlf none, decode_noCrlf none]
    exact .none same
  by_cases empty : l = []
  · subst empty
    rw [List.nil_append, decode_empty going, decode_empty going']
    exact .some ⟨rfl, same.firstLine, same.given, same.bare⟩ rfl
  · have next : Same matchers { c with firstLine := false } { d with firstLine := false } :=
      ⟨same.done, rfl, same.given, same.bare⟩
    rw [decode_line going empty line, decode_line going' empty line, same.firstLine]
    split
    · exact .error next
    · exact .some next (frameOf_alike same l)

/-- The codec with the matchers and the one without them run in lockstep. -/
lemma lockstep (matchers : List (Bytes × Bytes)) :
    Decoder.Lockstep (Same matchers) (HttpPipeline.keepalive []).process (HttpPipeline.keepalive matchers).process where
  decode same b := decode_alike same b
  decodeEof := by
    intro c d same b
    show Decoder.Alike _ _ _ (c.decodeEof b) (d.decodeEof b)
    rw [decodeEof, decodeEof, same.done]
    split
    · exact .none same
    · exact decode_alike same b

/-- A codec that waits leaves its bytes at the end of the transport. -/
lemma decodeEof_waiting (c : HttpStreamingCodec) (b : Bytes) (waits : Decoder.decode c b = (.ok none, c, b)) :
    Decoder.decodeEof c b = (.ok none, c, b) := by
  show c.decodeEof b = _
  rw [decodeEof]
  split
  · rfl
  · exact waits

/-- It does not matter whether the codec or the pipeline is given the matchers: both ways yield the same frames, and
the same error, however the stream is cut into reads. -/
theorem keepalive_alike (matchers : List (Bytes × Bytes)) (ds : List Bytes) :
    (∃ e, Decoder.Decodes (new matchers) [] ds e) ∧ (∃ e', Decoder.Decodes (new []) [] ds e') ∧
      ∀ e e', Decoder.Decodes (new matchers) [] ds e → Decoder.Decodes (new []) [] ds e' →
        e.out.map (HttpPipeline.keepalive []).process = e'.out.map (HttpPipeline.keepalive matchers).process ∧
          e.buffer = e'.buffer ∧ e.left = e'.left ∧ e.err = e'.err := by
  have waits : ∀ c : HttpStreamingCodec, Decoder.decode c [] = (.ok none, c, []) := fun c => decode_noCrlf NoCrlf.nil
  refine ⟨?_, ?_, fun e e' dec dec' => ?_⟩
  · exact Decoder.Decodes.total incremental id decodeEof_waiting (waits _) ds
  · exact Decoder.Decodes.total incremental id decodeEof_waiting (waits _) ds
  · exact dec.alike (lockstep matchers) dec' ⟨rfl, rfl, rfl, rfl⟩

end HttpStreamingCodec

/-! ## The head behind the rewriting -/

namespace HttpPipeline

variable {matchers : List (Bytes × Bytes)}

/-- The matchers leave the headers with the name alone. -/
def Spares (matchers : List (Bytes × Bytes)) (header : Bytes) : Prop :=
  ∀ name, eqIgnoreAsciiCase name header = true → ∀ m ∈ matchers, memmem m.1 name = false

/-- Names that differ in the case of their letters only are hop-by-hop together. -/
lemma isHopByHop_congr {name header : Bytes} (same : eqIgnoreAsciiCase name header = true) :
    isHopByHop name = isHopByHop header := by
  have same : name.map toAsciiLower = header.map toAsciiLower := eq_of_beq same
  simp only [isHopByHop, eqIgnoreAsciiCase, same]

/-- What a rewritten line is: stripped, as it was, or with another value. -/
lemma rewritten_cases (matchers : List (Bytes × Bytes)) (line : Bytes) :
    (∃ name, fieldName line = some name ∧ isHopByHop name = true ∧ (keepalive matchers).rewritten line = []) ∨
    ((∀ name, fieldName line = some name → isHopByHop name = false) ∧ (keepalive matchers).rewritten line = line) ∨
    ∃ name, fieldName line = some name ∧ isHopByHop name = false ∧ ∃ m ∈ matchers, memmem m.1 name = true ∧
      (keepalive matchers).rewritten line = headerLine name m.2 := by
  rw [rewritten]
  cases named : fieldName line with
  | none =>
    refine .inr (.inl ⟨?_, rfl⟩)
    rintro _ ⟨⟩
  | some name =>
    cases hop : isHopByHop name with
    | true => exact .inl ⟨name, rfl, hop, if_pos hop⟩
    | false =>
      simp only [hop, Bool.false_eq_true, if_false, replacement, keepalive]
      cases found : matchers.find? fun m => memmem m.1 name with
      | none =>
        refine .inr (.inl ⟨fun name' same => ?_, rfl⟩)
        rw [← Option.some.inj same]
        exact hop
      | some m =>
        have inside := List.find?_some (p := fun m : Bytes × Bytes => memmem m.1 name) found
        exact .inr (.inr ⟨name, rfl, hop, m, List.mem_of_find?_eq_some found, inside, rfl⟩)

/-- A spared header that is not hop-by-hop is matched in the rewritten line as in the line. -/
lemma tryMatch_rewritten {header : Bytes} (spares : Spares matchers header) (endToEnd : isHopByHop header = false)
    (line : Bytes) :
    Matcher.tryMatch (.headerName header) ((keepalive matchers).rewritten line) =
      Matcher.tryMatch (.headerName header) line := by
  -- a line with another name is matched neither way
  have other : ∀ {line name : Bytes}, fieldName line = some name → ¬ eqIgnoreAsciiCase name header = true →
      Matcher.tryMatch (.headerName header) line = none := by
    intro line name named differs
    obtain ⟨rest, rfl, colon⟩ := fieldName_eq_some named
    rw [Option.eq_none_iff_forall_ne_some]
    intro v found
    obtain ⟨p, rest', cut, colon', same, -⟩ := Matcher.tryMatch_headerName.1 found
    have named' := fieldName_cut colon rest
    rw [cut, fieldName_cut colon'] at named'
    exact differs (Option.some.inj named' ▸ same)
  obtain ⟨name, named, hop, stripped⟩ | ⟨-, same⟩ | ⟨name, named, -, m, mem, found, value⟩ :=
    rewritten_cases matchers line
  · rw [stripped, other named]
    · rfl
    · intro same
      rw [isHopByHop_congr same, endToEnd] at hop
      cases hop
  · rw [same]
  · have differs : ¬ eqIgnoreAsciiCase name header = true := by
      intro same
      rw [spares name same m mem] at found
      cases found
    obtain ⟨-, -, colon⟩ := fieldName_eq_some named
    rw [value, other (fieldName_headerLine colon m.2) differs, other named differs]

/-- A line of the head that has survived: as it was, or the header with another value. -/
def Survives (f out : HttpFrame) : Prop :=
  out = f ∨ ∃ name value, f.phase = .header ∧ fieldName f.data = some name ∧ out = .header (headerLine name value)

/-- Whether the session saw two values of the matcher. -/
def conflictBit (h : HttpDeriverHook) (m : Matcher) : Bool :=
  h.session.hasConflictsFor (E := Unit) ⟨[m], fun _ => ()⟩

/-- The frames `outs` are a rewriting of the frames `ins` that the checks on `ins` hold for. -/
structure Preserves (ins outs : List HttpFrame) : Prop where
  order : ∃ kept, kept.Sublist ins ∧ List.Forall₂ Survives kept (outs.filter fun f => f.data ≠ [])
  endToEnd : ∀ f ∈ outs, f.phase = .header → f.data ≠ [] →
    ∀ name, fieldName f.data = some name → isHopByHop name = false
  version : (outs.foldl HttpDeriverHook.onFrame .new).resolve.version =
    (ins.foldl HttpDeriverHook.onFrame .new).resolve.version
  bodyFraming : (outs.foldl HttpDeriverHook.onFrame .new).resolve.bodyFraming =
    (ins.foldl HttpDeriverHook.onFrame .new).resolve.bodyFraming
  clTeConflict : (outs.foldl HttpDeriverHook.onFrame .new).resolve.clTeConflict =
    (ins.foldl HttpDeriverHook.onFrame .new).resolve.clTeConflict
  conflicts : ∀ m ∈ [Matcher.contentLength, Matcher.transferEncoding],
    conflictBit (outs.foldl HttpDeriverHook.onFrame .new) m = conflictBit (ins.foldl HttpDeriverHook.onFrame .new) m

/-- The frames of a head without its empty line. -/
def headFrames (request : Bytes) (lines : List Bytes) : List HttpFrame :=
  .requestLine request :: lines.map .header

/-- A head is rewritten header by header. -/
lemma process_headFrames (request : Bytes) (lines : List Bytes) :
    (headFrames request lines).map (keepalive matchers).process =
      headFrames request (lines.map (keepalive matchers).rewritten) := by
  have first : (keepalive matchers).process (.requestLine request) = .requestLine request := process_other _ nofun nofun
  rw [headFrames, headFrames, List.map_cons, first, List.map_map, List.map_map]
  congr 2
  funext line
  exact process_header _ line

/-- What the hook is fed for a head. -/
lemma fedLines_headFrames (request : Bytes) (lines : List Bytes) :
    HttpDeriverHook.fedLines (headFrames request lines) =
      (.requestLine, request) :: lines.map fun line => (.header, line) := by
  rw [headFrames, HttpDeriverHook.fedLines, List.filter_cons_of_pos rfl, List.map_cons]
  congr 1
  induction lines with
  | nil => rfl
  | cons line lines ih =>
    rw [List.map_cons, List.filter_cons_of_pos rfl, List.map_cons, ih]
    rfl

/-- A matcher that takes the same from a rewritten header takes the same from the rewritten head. -/
lemma hits_rewritten (matchers : List (Bytes × Bytes)) {m : Matcher}
    (same : m.phase = .header → ∀ line, m.tryMatch ((keepalive matchers).rewritten line) = m.tryMatch line)
    (request : Bytes) (lines : List Bytes) :
    DeriverSession.hits (HttpDeriverHook.fedLines (headFrames request (lines.map (keepalive matchers).rewritten))) m =
      DeriverSession.hits (HttpDeriverHook.fedLines (headFrames request lines)) m := by
  have headers :
      DeriverSession.hits ((lines.map (keepalive matchers).rewritten).map fun line => (HttpPhase.header, line)) m =
      DeriverSession.hits (lines.map fun line => (HttpPhase.header, line)) m := by
    induction lines with
    | nil => rfl
    | cons line lines ih =>
      simp only [List.map_cons]
      rw [DeriverSession.hits_cons, DeriverSession.hits_cons, ih]
      split
      · rename_i phase
        have one : MatchAtom.tryMatch m ((keepalive matchers).rewritten line) = MatchAtom.tryMatch m line :=
          same phase line
        rw [one]
      · rfl
  rw [fedLines_headFrames, fedLines_headFrames, DeriverSession.hits_cons, DeriverSession.hits_cons, headers]

/-- A hook reports a conflict when the values clash. -/
lemma conflictBit_onFrames {m : Matcher} (known : m ∈ HttpDerivationInput.allMatchers) (fs : List HttpFrame) :
    conflictBit (fs.foldl HttpDeriverHook.onFrame .new) m =
      DeriverSession.clash (DeriverSession.hits (HttpDeriverHook.fedLines fs) m) := by
  rw [conflictBit, HttpDeriverHook.onFrames_session]
  refine (DeriverSession.hasConflictsFor_feedAll (fun m' mem => ?_) _).trans (Bool.or_false _)
  rw [List.mem_singleton.1 mem]
  exact known

/-- The lines that survive are an in-order selection. -/
lemma survivors (matchers : List (Bytes × Bytes)) (lines : List Bytes) :
    ∃ kept, kept.Sublist (lines.map HttpFrame.header) ∧ List.Forall₂ Survives kept
      (((lines.map (keepalive matchers).rewritten).map HttpFrame.header).filter fun f => f.data ≠ []) := by
  induction lines with
  | nil => exact ⟨[], .slnil, .nil⟩
  | cons line lines ih =>
    obtain ⟨kept, sub, all⟩ := ih
    simp only [List.map_cons]
    by_cases gone : (keepalive matchers).rewritten line = []
    · refine ⟨kept, sub.cons _, ?_⟩
      rw [List.filter_cons_of_neg]
      · exact all
      · simp [HttpFrame.header, gone]
    · refine ⟨.header line :: kept, sub.cons_cons _, ?_⟩
      rw [List.filter_cons_of_pos]
      · refine .cons ?_ all
        obtain ⟨-, -, -, stripped⟩ | ⟨-, same⟩ | ⟨name, named, -, m, -, -, value⟩ :=
          rewritten_cases matchers line
        · exact absurd stripped gone
        · exact .inl (congrArg _ same)
        · exact .inr ⟨name, m.2, rfl, named, congrArg _ value⟩
      · simp [HttpFrame.header, gone]

/-- No header that is left has a hop-by-hop name. -/
lemma rewritten_endToEnd {line name : Bytes} (left : (keepalive matchers).rewritten line ≠ [])
    (named : fieldName ((keepalive matchers).rewritten line) = some name) : isHopByHop name = false := by
  obtain ⟨-, -, -, stripped⟩ | ⟨endToEnd, same⟩ | ⟨name', named', hop, m, -, -, value⟩ :=
    rewritten_cases matchers line
  · exact absurd stripped left
  · rw [same] at named
    exact endToEnd name named
  · obtain ⟨-, -, colon⟩ := fieldName_eq_some named'
    rw [value, fieldName_headerLine colon] at named
    exact Option.some.inj named ▸ hop

/-- Rewriting a head keeps what the hook has derived of its framing and checked. -/
theorem keepalive_preserves (request : Bytes) (lines : List Bytes)
    (contentLength : Spares matchers (lit "Content-Length"))
    (transferEncoding : Spares matchers (lit "Transfer-Encoding")) :
    Preserves (headFrames request lines) ((headFrames request lines).map (keepalive matchers).process) := by
  have cl := hits_rewritten matchers (m := .contentLength)
    (fun _ line => tryMatch_rewritten contentLength (by decide) line) request lines
  have te := hits_rewritten matchers (m := .transferEncoding)
    (fun _ line => tryMatch_rewritten transferEncoding (by decide) line) request lines
  have ver := hits_rewritten matchers (m := .requestLineVersion) nofun request lines
  rw [process_headFrames]
  refine ⟨?_, ?_, ?_, ?_, ?_, ?_⟩
  · obtain ⟨kept, sub, all⟩ := survivors matchers lines
    by_cases empty : request = []
    · refine ⟨kept, sub.cons _, ?_⟩
      rw [headFrames, List.filter_cons_of_neg]
      · exact all
      · simp [HttpFrame.requestLine, empty]
    · refine ⟨.requestLine request :: kept, sub.cons_cons _, ?_⟩
      rw [headFrames, List.filter_cons_of_pos]
      · exact .cons (.inl rfl) all
      · simp [HttpFrame.requestLine, empty]
  · intro f mem header left name named
    rcases List.mem_cons.1 mem with rfl | mem
    · cases header
    · obtain ⟨out, written, rfl⟩ := List.mem_map.1 mem
      obtain ⟨line, -, rfl⟩ := List.mem_map.1 written
      exact rewritten_endToEnd left named
  · rw [HttpDeriverHook.resolve_onFrames, HttpDeriverHook.resolve_onFrames, derive, derive, ver]
  · rw [HttpDeriverHook.resolve_onFrames, HttpDeriverHook.resolve_onFrames, derive, derive, cl, te, ver]
  · rw [HttpDeriverHook.resolve_onFrames, HttpDeriverHook.resolve_onFrames, derive, derive, cl, te]
  · intro m mem
    have known : m ∈ HttpDerivationInput.allMatchers := by
      revert m
      decide
    rw [conflictBit_onFrames known, conflictBit_onFrames known]
    rcases List.mem_pair.1 mem with rfl | rfl
    · rw [cl]
    · rw [te]

/-- A head with a replaced, a stripped and two spared lines. -/
theorem keepalive_preserves_post :
    Preserves
      (headFrames (lit "POST / HTTP/1.1\r\n")
        [lit "Host: a\r\n", lit "Connection: close\r\n", lit "Content-Length: 5\r\n", lit "content-length: 5\r\n"])
      (headFrames (lit "POST / HTTP/1.1\r\n")
        [lit "Host: b\r\n", [], lit "Content-Length: 5\r\n", lit "content-length: 5\r\n"]) := by
  -- a letter of the needle that the name has in no case
  have spares : ∀ (b : UInt8) (header : Bytes), b ∈ lit "Host" → toAsciiLower b ∉ header.map toAsciiLower →
      Spares [(lit "Host", lit "b")] header := by
    intro b header letter none name same m mem
    rw [List.mem_singleton.1 mem]
    apply decide_eq_false
    intro found
    apply none
    rw [← eq_of_beq same]
    exact List.mem_map_of_mem (found.subset letter)
  have preserves := keepalive_preserves (lit "POST / HTTP/1.1\r\n")
    [lit "Host: a\r\n", lit "Connection: close\r\n", lit "Content-Length: 5\r\n", lit "content-length: 5\r\n"]
    (spares 115 _ (by decide) (by decide)) (spares 72 _ (by decide) (by decide))
  exact preserves

end HttpPipeline

end Railscale.Http
