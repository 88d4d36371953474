import Railscale.Http.ResponseParser

/-!
# Where a response ends

The point at which `ResponseFrameStream` stops, against the end of a response as RFC 9112 section 6.3
defines it. The codec goes by the framing that `BodyFramingFormula` makes of the head, which knows
neither the method nor the status, so the two ends agree exactly when no interim response comes first
and the body happens to be one that this framing delimits (`Delimits`).
-/

namespace Railscale.Http

open Bytes AsyncStream ReadResult

/-! ## Chunks as the codec reads them -/

namespace ResponseCodec

/-- A sequence of whole chunk parts, from one state of the chunk reader to another; `none` is the
state behind the last line. A size line is any line that the size parser accepts, and the two bytes
behind the data of a chunk are not looked at. -/
inductive Chunks : ChunkedState → Bytes → Option ChunkedState → Prop where
  | nil {st} :
    Chunks st [] (some st)
  | size {l n t e} :
    NoCrlf l →
    chunkSize l = .ok n →
    Chunks (.ofSize n) t e →
    Chunks .expectSize (l ++ crlf ++ t) e
  | data {n pos d t e} :
    d ≠ [] →
    d.length ≤ n →
    Chunks (.ofRemaining (n - d.length)) t e →
    Chunks (.data n pos) (d ++ t) e
  | dataCrlf {x y t e} :
    Chunks .expectSize t e →
    Chunks .expectDataCrlf ([x, y] ++ t) e
  | trailer {l t e} :
    IsLine l →
    Chunks .trailerOrEnd t e →
    Chunks .trailerOrEnd (l ++ crlf ++ t) e
  | last :
    Chunks .trailerOrEnd crlf none

/-- The body state behind some chunk parts. -/
def chunksState : Option ChunkedState → BodyState
  | some st => .chunked st
  | none => .done

/-- Behind the body nothing is taken. -/
lemma feedAll_done {c : ResponseCodec} (hs : c.bodyState = .done) (b : Bytes) :
    Decoder.feedAll (ε := IoError) atoms c b = ⟨[], c, b, none⟩ :=
  Decoder.feedAll_wait atoms fun p _ => decode_done hs p

/-- A body up to the end of the transport takes everything. -/
lemma feedAll_untilEof {c : ResponseCodec} (hs : c.bodyState = .untilEof) (b : Bytes) :
    Decoder.feedAll (ε := IoError) atoms c b = ⟨b.map .inr, c, [], none⟩ := by
  by_cases ne : b = []
  · subst ne
    rfl
  · rw [Decoder.feedAll_some incremental (decode_untilEof hs ne)]
    simp [Decoder.Fed.after, atoms]

/-- A body with a length takes as many bytes. -/
lemma feedAll_fixedLength {c : ResponseCodec} {n : Nat} {pos} (hs : c.bodyState = .fixedLength n pos)
    (b : Bytes) :
    Decoder.feedAll (ε := IoError) atoms c b =
      ⟨(b.take n).map .inr, { c with bodyState := .ofRemaining (n - b.length) }, b.drop n, none⟩ := by
  by_cases ne : b = []
  · subst ne
    have same : BodyState.ofRemaining n = c.bodyState := (dif_neg (Nat.ne_of_gt pos)).trans hs.symm
    simp [Decoder.feedAll, Decoder.Fed.start, same]
  rw [Decoder.feedAll_some incremental (decode_fixedLength hs ne)]
  by_cases le : b.length ≤ n
  · rw [List.drop_of_length_le le]
    simp [Decoder.Fed.after, atoms]
  · have zero : n - b.length = 0 := by omega
    rw [feedAll_done (by rw [zero]; rfl)]
    simp [Decoder.Fed.after, atoms]

/-- An item that takes all of a byte string, and what comes behind it. -/
lemma feedAll_whole {c c' : ResponseCodec} {e : Bytes}
    (d : c.decode e = (.ok (some (.body e)), c', [])) (rest : Bytes) :
    Decoder.feedAll (ε := IoError) atoms c (e ++ rest) =
      (Decoder.feedAll atoms c' rest).after (e.map .inr) := by
  obtain ⟨e', -, cut, feed⟩ := incremental.some_feed d
  rw [List.append_nil] at cut
  subst cut
  exact Decoder.feedAll_item atoms feed rest

/-- The data of a chunk is taken, and what follows goes on from there. -/
lemma feedAll_data {c : ResponseCodec} {n : Nat} {pos} (hs : c.bodyState = .chunked (.data n pos))
    {d : Bytes} (ne : d ≠ []) (le : d.length ≤ n) (rest : Bytes) :
    Decoder.feedAll (ε := IoError) atoms c (d ++ rest) =
      (Decoder.feedAll atoms { c with bodyState := .chunked (.ofRemaining (n - d.length)) } rest).after
        (d.map .inr) := by
  have decode := decode_data hs ne
  rw [List.take_of_length_le le, List.drop_of_length_le le] at decode
  exact feedAll_whole decode rest

/-- Whole chunk parts are taken whole. -/
theorem Chunks.feed {c : ResponseCodec} {st : ChunkedState} {b : Bytes} {e : Option ChunkedState}
    (chunks : Chunks st b e) (hs : c.bodyState = .chunked st) (rest : Bytes) :
    Decoder.feedAll (ε := IoError) atoms c (b ++ rest) =
      (Decoder.feedAll atoms { c with bodyState := chunksState e } rest).after (b.map .inr) := by
  induction chunks generalizing c with
  | nil =>
    rw [chunksState, ← hs]
    rfl
  | @size l n t e hl size _ ih =>
    have decode := decode_expectSize hs hl []
    rw [size] at decode
    rw [List.append_assoc, feedAll_whole decode, ih rfl, Decoder.Fed.after_after, ← List.map_append]
  | @data n pos d t e ne le _ ih =>
    rw [List.append_assoc, feedAll_data hs ne le, ih rfl, Decoder.Fed.after_after, ← List.map_append]
  | @dataCrlf x y t e _ ih =>
    rw [List.append_assoc, feedAll_whole (decode_dataCrlf hs x y []), ih rfl,
      Decoder.Fed.after_after, ← List.map_append]
  | @trailer l t e line _ ih =>
    have decode := decode_trailer hs line.noCrlf []
    rw [if_neg line.ne] at decode
    rw [List.append_assoc, feedAll_whole decode, ih hs, Decoder.Fed.after_after, ← List.map_append]
  | last =>
    have decode := decode_trailer hs NoCrlf.nil []
    rw [if_pos rfl] at decode
    exact feedAll_whole decode rest

/-- What the chunk reader takes without an error are whole parts. -/
theorem chunks_of_feed {c : ResponseCodec} {st : ChunkedState} {b : Bytes} (hs : c.bodyState = .chunked st)
    (err : (Decoder.feedAll (ε := IoError) atoms c b).err = none) :
    ∃ body e, Chunks st body e ∧ b = body ++ (Decoder.feedAll (ε := IoError) atoms c b).rest ∧
      (Decoder.feedAll (ε := IoError) atoms c b).codec.bodyState = chunksState e := by
  have stuck : ∀ {c : ResponseCodec} {st : ChunkedState} {b : Bytes}, c.bodyState = .chunked st →
      c.decode b = (.ok none, c, b) →
      ∃ body e, Chunks st body e ∧ b = body ++ (Decoder.feedAll (ε := IoError) atoms c b).rest ∧
        (Decoder.feedAll (ε := IoError) atoms c b).codec.bodyState = chunksState e := by
    intro c st b hs decode
    rw [incremental.none_feed decode]
    exact ⟨[], some st, .nil, rfl, hs⟩
  generalize hn : b.length = n
  -- every call takes a byte or waits, so the length of the buffer goes down
  induction n using Nat.strongRecOn generalizing c st b with
  | ind n ih =>
    cases st with
    | expectSize =>
      rcases line_or_noCrlf b with nc | ⟨l, t, hl, rfl⟩
      · exact stuck hs (by simp [decode, hs, decodeChunked, findCrlf_none.2 nc])
      have decode := decode_expectSize hs hl t
      cases size : chunkSize l with
      | error message =>
        simp only [size] at decode
        rw [(incremental.error_feed decode).2] at err
        cases err
      | ok k =>
        simp only [size] at decode
        rw [Decoder.feedAll_some incremental decode] at err ⊢
        have lt : t.length < n := by simp at hn; omega
        obtain ⟨body, e, chunks, cut, state⟩ := ih _ lt rfl err rfl
        refine ⟨l ++ crlf ++ body, e, .size hl size chunks, ?_, state⟩
        rw [Decoder.Fed.after_rest, List.append_assoc, List.append_assoc, ← cut]
        rfl
    | data k pos =>
      by_cases ne : b = []
      · subst ne
        exact ⟨[], some (.data k pos), .nil, rfl, hs⟩
      have decode := decode_data hs ne
      rw [Decoder.feedAll_some incremental decode] at err ⊢
      have taken : b.take k ≠ [] := by
        rw [ne_eq, List.take_eq_nil_iff, not_or]
        exact ⟨by omega, ne⟩
      have lt : (b.drop k).length < n := by
        have := List.length_pos_iff.2 ne
        rw [List.length_drop]
        omega
      obtain ⟨body, e, chunks, cut, state⟩ := ih _ lt rfl err rfl
      have sub : k - b.length = k - (b.take k).length := by
        rw [List.length_take]
        omega
      rw [sub] at chunks
      refine ⟨b.take k ++ body, e, .data taken (List.length_take_le k b) chunks, ?_, state⟩
      rw [Decoder.Fed.after_rest, List.append_assoc, ← cut, List.take_append_drop]
    | expectDataCrlf =>
      rcases b with _ | ⟨x, _ | ⟨y, t⟩⟩
      · exact ⟨[], some .expectDataCrlf, .nil, rfl, hs⟩
      · exact stuck hs (by simp [decode, hs, decodeChunked])
      · rw [Decoder.feedAll_some incremental (decode_dataCrlf hs x y t)] at err ⊢
        have lt : t.length < n := by simp at hn; omega
        obtain ⟨body, e, chunks, cut, state⟩ := ih _ lt rfl err rfl
        refine ⟨[x, y] ++ body, e, .dataCrlf chunks, ?_, state⟩
        rw [Decoder.Fed.after_rest, List.append_assoc, ← cut]
        rfl
    | trailerOrEnd =>
      rcases line_or_noCrlf b with nc | ⟨l, t, hl, rfl⟩
      · exact stuck hs (by simp [decode, hs, decodeChunked, findCrlf_none.2 nc])
      have decode := decode_trailer hs hl t
      rw [Decoder.feedAll_some incremental decode] at err ⊢
      by_cases ne : l = []
      · subst ne
        -- the codec is done, and leaves what follows the last line
        rw [if_pos rfl, feedAll_done rfl]
        exact ⟨crlf, none, .last, rfl, rfl⟩
      · rw [if_neg ne] at err ⊢
        have lt : t.length < n := by simp at hn; omega
        obtain ⟨body, e, chunks, cut, state⟩ := ih _ lt hs err rfl
        refine ⟨l ++ crlf ++ body, e, .trailer ⟨ne, hl⟩ chunks, ?_, state⟩
        rw [Decoder.Fed.after_rest, List.append_assoc, List.append_assoc, ← cut]
        rfl

/-! ## Nothing is lost or made up -/

/-- The bytes of an item. -/
def rawItem : ResponseCodecItem → Bytes
  | .frame f => f.data
  | .body bs => bs

/-- The bytes of an atom. -/
def atomBytes : HttpFrame ⊕ UInt8 → Bytes
  | .inl f => f.data
  | .inr b => [b]

/-- The bytes of a body, one by one. -/
lemma flatMap_atomBytes_inr (bs : Bytes) :
    (bs.map (Sum.inr (α := HttpFrame))).flatMap atomBytes = bs := by
  induction bs with
  | nil => rfl
  | cons b bs ih => exact congrArg (b :: ·) ih

/-- An item has the bytes of its parts. -/
lemma flatMap_atoms (i : ResponseCodecItem) : (atoms i).flatMap atomBytes = rawItem i := by
  cases i with
  | frame f => exact List.append_nil _
  | body bs => exact flatMap_atomBytes_inr bs

/-- An item is the front of the buffer. -/
lemma decode_raw {c c' : ResponseCodec} {b b' : Bytes} {i : ResponseCodecItem}
    (d : c.decode b = (.ok (some i), c', b')) : b = rawItem i ++ b' := by
  cases hs : c.bodyState with
  | headers =>
    rcases line_or_noCrlf b with nc | ⟨l, t, hl, rfl⟩
    · rw [decode_noCrlf hs nc] at d
      cases d
    by_cases ne : l = []
    · subst ne
      rw [List.nil_append, decode_empty hs] at d
      cases d
      rfl
    · rw [decode_line hs ne hl] at d
      split at d
      · cases d
        simp [rawItem, HttpFrame.statusLine]
      · split at d
        · cases d
        · cases d
          simp [rawItem, HttpFrame.header]
  | fixedLength n pos =>
    by_cases ne : b = []
    · simp [decode, hs, decodeFixedLength, ne] at d
    · rw [decode_fixedLength hs ne] at d
      cases d
      exact (List.take_append_drop n b).symm
  | chunked state =>
    cases state with
    | expectSize =>
      rcases line_or_noCrlf b with nc | ⟨l, t, hl, rfl⟩
      · simp [decode, hs, decodeChunked, findCrlf_none.2 nc] at d
      · rw [decode_expectSize hs hl] at d
        split at d
        · cases d
        · cases d
          simp [rawItem]
    | data n pos =>
      by_cases ne : b = []
      · simp [decode, hs, decodeChunked, ne] at d
      · rw [decode_data hs ne] at d
        cases d
        exact (List.take_append_drop n b).symm
    | expectDataCrlf =>
      rcases b with _ | ⟨x, _ | ⟨y, t⟩⟩
      · simp [decode, hs, decodeChunked] at d
      · simp [decode, hs, decodeChunked] at d
      · rw [decode_dataCrlf hs] at d
        cases d
        rfl
    | trailerOrEnd =>
      rcases line_or_noCrlf b with nc | ⟨l, t, hl, rfl⟩
      · simp [decode, hs, decodeChunked, findCrlf_none.2 nc] at d
      · rw [decode_trailer hs hl] at d
        cases d
        simp [rawItem]
  | untilEof =>
    by_cases ne : b = []
    · simp [decode, hs, ne] at d
    · rw [decode_untilEof hs ne] at d
      cases d
      exact (List.append_nil b).symm
  | done =>
    rw [decode_done hs] at d
    cases d

/-- What the codec emits and what it keeps waiting make up its input. -/
theorem feedAll_conserves (c : ResponseCodec) (b : Bytes) :
    (Decoder.feedAll (ε := IoError) atoms c b).out.flatMap atomBytes ++
      (Decoder.feedAll (ε := IoError) atoms c b).rest = b := by
  obtain ⟨is, c', b', r, dr⟩ := Decoder.Drain.total incremental c b
  rw [dr.feed incremental]
  induction dr with
  | none d =>
    obtain ⟨rfl, rfl⟩ := incremental.none_same d
    rfl
  | error d =>
    obtain ⟨rfl, -⟩ := incremental.error_feed d
    rfl
  | some d _ ih =>
    rw [decode_raw d, List.flatMap_cons, List.flatMap_append, flatMap_atoms, List.append_assoc, ih]

end ResponseCodec

open ResponseCodec

/-! ## What the stream relays -/

namespace ResponseFrameStream

/-- So have some items. -/
lemma flatMap_itemAtoms (is : List (ParsedData HttpFrame)) :
    (is.flatMap itemAtoms).flatMap atomBytes = is.flatMap ParsedData.raw := by
  induction is with
  | nil => rfl
  | cons i is ih =>
    have one : (itemAtoms i).flatMap atomBytes = i.raw := by
      cases i with
      | parsed f => exact List.append_nil _
      | passthrough bs => exact flatMap_atomBytes_inr bs
    rw [List.flatMap_cons, List.flatMap_append, ih, one, List.flatMap_cons]

/-- Reads behind others are fed behind them. -/
lemma fed_append (s : ResponseFrameStream) (p q : List (ReadResult IoError)) :
    s.fed (p ++ q) = Decoder.feed atoms (s.fed p) (all q) := by
  rw [fed, all_append, ← List.append_assoc, Decoder.feedAll, Decoder.feed_append]
  rfl

/-- Behind the body the bytes are left. -/
lemma feed_done {s : Decoder.Fed ResponseCodec IoError (HttpFrame ⊕ UInt8)}
    (hs : s.codec.bodyState = .done) (err : s.err = none) (bs : Bytes) :
    Decoder.feed atoms s bs = { s with rest := s.rest ++ bs } := by
  induction bs generalizing s with
  | nil => rw [List.append_nil]; rfl
  | cons b bs ih =>
    have one : Decoder.feedByte atoms s b = { s with rest := s.rest ++ [b] } := by
      have d : Decoder.decode s.codec (s.rest ++ [b]) = _ := decode_done hs _
      simp [Decoder.feedByte, err, Decoder.Fed.call, d]
    rw [Decoder.feed_cons, one, ih (by exact hs) (by exact err), List.append_assoc]
    rfl

/-- On a transport without errors the stream ends as the bytewise run over all of it does. -/
lemma Ends.fed_all {s s' : ResponseFrameStream} {is r} (ends : Ends s is r s')
    (proper : ∀ x ∈ s.inner.reads, x.Proper) :
    is.flatMap itemAtoms = (s.fed s.inner.reads).out ∧ r = (s.fed s.inner.reads).err := by
  cases ends with
  | complete took err done _ _ =>
    rw [took.reads, fed_append, feed_done done err]
    exact ⟨took.out, err.symm⟩
  | failed took err =>
    rw [took.reads, fed_append, Decoder.feed_failed _ err]
    exact ⟨took.out, err.symm⟩
  | readError took _ =>
    rw [took.reads] at proper
    exact (proper _ (List.mem_append_right _ List.mem_cons_self)).elim
  | eof took err _ left _ =>
    rcases left with rfl | ⟨rs, rfl⟩
    · rw [took.reads, List.append_nil]
      exact ⟨took.out, err.symm⟩
    · rw [took.reads] at proper
      exact absurd rfl (proper (.data []) (by simp))

end ResponseFrameStream

open ResponseFrameStream

/-- The bytewise run of a fresh codec over a transport. -/
def ResponseCodec.run (w : Bytes) : Decoder.Fed ResponseCodec IoError (HttpFrame ⊕ UInt8) :=
  Decoder.feedAll atoms ResponseCodec.new w

/-- Every response stream ends in one of the four ways. -/
lemma ResponseParser.stops (reads : List (ReadResult IoError)) : Stops (ResponseParser.parse reads) :=
  ResponseFrameStream.stops ⟨rfl, ⟨rfl, rfl⟩, nofun⟩ rfl

/-- What is relayed does not depend on the reads. -/
lemma ResponseParser.relays_iff {reads : List (ReadResult IoError)}
    (proper : ∀ x ∈ reads, x.Proper) (w : Bytes) :
    (∃ is s', Collect (ResponseParser.parse reads) is none s' ∧ is.flatMap ParsedData.raw = w) ↔
      (run (all reads)).err = none ∧ (run (all reads)).out.flatMap atomBytes = w := by
  obtain ⟨is, r, s', coll, ends⟩ := ResponseParser.stops reads
  obtain ⟨out, err⟩ := ends.fed_all proper
  have same : (ResponseParser.parse reads).fed (ResponseParser.parse reads).inner.reads =
      run (all reads) := rfl
  rw [same] at out err
  rw [← out, ← err, flatMap_itemAtoms]
  constructor
  · rintro ⟨is', s'', coll', raw⟩
    obtain ⟨rfl, rfl, rfl⟩ := coll.unique coll'
    exact ⟨rfl, raw⟩
  · rintro ⟨rfl, raw⟩
    exact ⟨is, s', coll, raw⟩

/-- Behind the lines of a head the codec goes on with the body. -/
lemma ResponseCodec.run_lines {ls : List Bytes} (ok : HeadLines ls) (w : Bytes) :
    run (unlines ls ++ crlf ++ w) =
      (Decoder.feedAll atoms (headCodec ls).endHeaders w).after
        (((headFrames ls).map ResponseCodecItem.frame ++ [ResponseCodecItem.frame .endOfHeaders]).flatMap
          atoms) := by
  have calls := calls_lines ok (crlf ++ w)
  rw [← List.append_assoc] at calls
  exact Decoder.Calls.feed incremental (.item calls (decode_empty rfl w))

/-- The framing that the codec derives from a response head. -/
def Head.responseFraming (h : Head) : BodyFramingMode :=
  (HttpDerivationInput.resolveAll (headCodec h.lines).session).bodyFraming

/-- The body is one that the framing delimits: the codec takes all of it, and, unless the connection
closes behind it, knows where it ends. -/
def Delimits (framing : BodyFramingMode) (closes : Prop) (body : Bytes) : Prop :=
  match framing with
  | .none => body = []
  | .fixed n => body.length ≤ n ∧ (¬ closes → body.length = n)
  | .chunked => ∃ e, Chunks .expectSize body e ∧ (¬ closes → e = none)
  | .untilClose => closes
  | .invalid => closes

/-- The codec, in front of the body, takes the body and nothing else, whatever follows it. -/
def TakesBody (c : ResponseCodec) (closes : Prop) (body : Bytes) : Prop :=
  ∀ suffix, (closes → suffix = []) →
    (Decoder.feedAll (ε := IoError) atoms c (body ++ suffix)).err = none ∧
      (Decoder.feedAll (ε := IoError) atoms c (body ++ suffix)).rest = suffix

/-- Behind the body only the empty one is taken. -/
lemma takesBody_done {c : ResponseCodec} (hs : c.bodyState = .done) (closes : Prop) (body : Bytes) :
    TakesBody c closes body ↔ body = [] := by
  constructor
  · intro h
    have rest := (h [] fun _ => rfl).2
    rw [feedAll_done hs, List.append_nil] at rest
    exact rest
  · rintro rfl suffix _
    rw [feedAll_done hs]
    exact ⟨rfl, rfl⟩

/-- A body up to the end of the transport is taken when the connection closes. -/
lemma takesBody_untilEof {c : ResponseCodec} (hs : c.bodyState = .untilEof) (closes : Prop)
    (body : Bytes) : TakesBody c closes body ↔ closes := by
  constructor
  · intro h
    by_contra open_
    have rest := (h [0] fun e => absurd e open_).2
    rw [feedAll_untilEof hs] at rest
    cases rest
  · intro closed suffix nil
    rw [nil closed, feedAll_untilEof hs]
    exact ⟨rfl, rfl⟩

/-- A body with a length is taken when it has the length, or is shorter and the connection closes. -/
lemma takesBody_fixedLength {c : ResponseCodec} {n : Nat} {pos}
    (hs : c.bodyState = .fixedLength n pos) (closes : Prop) (body : Bytes) :
    TakesBody c closes body ↔ body.length ≤ n ∧ (¬ closes → body.length = n) := by
  simp only [TakesBody, feedAll_fixedLength hs, true_and]
  constructor
  · intro h
    refine ⟨?_, ?_⟩
    · have rest := h [] fun _ => rfl
      rw [List.append_nil] at rest
      exact List.drop_eq_nil_iff.1 rest
    · intro open_
      have rest := congrArg List.length (h (List.replicate n 0) fun e => absurd e open_)
      simp at rest
      omega
  · rintro ⟨le, eq⟩ suffix nil
    by_cases closed : closes
    · rw [nil closed, List.append_nil]
      exact List.drop_eq_nil_iff.2 le
    · exact List.drop_left' (eq closed)

/-- A call that gives a piece of the body takes bytes. -/
lemma rest_ne_of_decode {c c' : ResponseCodec} {b b' e : Bytes}
    (d : c.decode b = (.ok (some (.body e)), c', b')) (ne : e ≠ []) :
    (Decoder.feedAll (ε := IoError) atoms c b).rest ≠ b := by
  intro rest
  have cons := feedAll_conserves c b
  rw [rest, Decoder.feedAll_some incremental d, Decoder.Fed.after_out, List.flatMap_append,
    flatMap_atoms, List.append_assoc] at cons
  have len := congrArg List.length cons
  have pos := List.length_pos_iff.2 ne
  simp only [rawItem, List.length_append] at len
  omega

/-- Inside a chunked body a line ending is not left alone. -/
lemma not_left_alone {c : ResponseCodec} {st : ChunkedState} (hs : c.bodyState = .chunked st) :
    ¬ ((Decoder.feedAll (ε := IoError) atoms c crlf).err = none ∧
      (Decoder.feedAll (ε := IoError) atoms c crlf).rest = crlf) := by
  rintro ⟨err, rest⟩
  cases st with
  | expectSize =>
    -- an empty size line is an error
    have d := decode_expectSize hs NoCrlf.nil []
    have feed := (incremental.error_feed d).2
    rw [List.nil_append] at feed
    rw [feed] at err
    cases err
  | data n pos =>
    have taken : crlf.take n ≠ [] := by
      rw [ne_eq, List.take_eq_nil_iff, not_or]
      exact ⟨by omega, nofun⟩
    exact rest_ne_of_decode (decode_data hs (List.cons_ne_nil cr [lf])) taken rest
  | expectDataCrlf => exact rest_ne_of_decode (decode_dataCrlf hs cr lf []) nofun rest
  | trailerOrEnd => exact rest_ne_of_decode (decode_trailer hs NoCrlf.nil []) nofun rest

/-- A chunked body is taken when it is chunks to the end, or up to some state and the connection closes. -/
lemma takesBody_chunked {c : ResponseCodec} (hs : c.bodyState = .chunked .expectSize)
    (closes : Prop) (body : Bytes) :
    TakesBody c closes body ↔ ∃ e, Chunks .expectSize body e ∧ (¬ closes → e = none) := by
  constructor
  · intro h
    have here := h [] fun _ => rfl
    rw [List.append_nil] at here
    obtain ⟨_, e, chunks, cut, -⟩ := chunks_of_feed hs here.1
    rw [here.2, List.append_nil] at cut
    subst cut
    refine ⟨e, chunks, fun open_ => ?_⟩
    cases e with
    | none => rfl
    | some st =>
      have more := h crlf fun e => absurd e open_
      rw [chunks.feed hs] at more
      exact absurd more (not_left_alone rfl)
  · rintro ⟨e, chunks, complete⟩ suffix nil
    rw [chunks.feed hs]
    by_cases closed : closes
    · rw [nil closed]
      exact ⟨rfl, rfl⟩
    · rw [complete closed]
      rw [feedAll_done rfl]
      exact ⟨rfl, rfl⟩

/-- The codec behind a head takes the body exactly when its framing delimits it. -/
theorem takesBody_iff (ls : List Bytes) (closes : Prop) (body : Bytes) :
    TakesBody (headCodec ls).endHeaders closes body ↔
      Delimits (HttpDerivationInput.resolveAll (headCodec ls).session).bodyFraming closes body := by
  have hs : (headCodec ls).endHeaders.bodyState =
      .ofFraming (HttpDerivationInput.resolveAll (headCodec ls).session).bodyFraming := rfl
  generalize (HttpDerivationInput.resolveAll (headCodec ls).session).bodyFraming = framing at hs
  cases framing with
  | fixed n =>
    by_cases zero : n = 0
    · subst zero
      rw [takesBody_done hs, Delimits, ← List.length_eq_zero_iff]
      exact ⟨fun h => ⟨h.le, fun _ => h⟩, fun h => Nat.le_zero.1 h.1⟩
    · have hs := hs.trans (dif_neg zero)
      exact takesBody_fixedLength hs closes body
  | chunked => exact takesBody_chunked hs closes body
  | untilClose => exact takesBody_untilEof hs closes body
  | none => exact takesBody_done hs closes body
  | invalid => exact takesBody_untilEof hs closes body

/-! ## The end of a response -/

/-- Whatever follows the responses and however the transport is cut, the stream relays the final
response, all of it and nothing else. A response that the close of the connection ends has nothing
behind it. -/
def RelaysFinal {method : Bytes} (interims : List Interim) (r : Response method) : Prop :=
  ∀ suffix reads, (r.length = .untilClose → suffix = []) → (∀ x ∈ reads, x.Proper) →
    all reads = interims.flatMap (·.head.bytes) ++ r.bytes ++ suffix →
    ∃ is s', Collect (ResponseParser.parse reads) is none s' ∧ is.flatMap ParsedData.raw = r.bytes

/-- A fresh codec relays a response, and nothing else, when it takes the body and nothing else. -/
lemma run_response_iff (h : Head) (body suffix : Bytes) :
    (run (h.bytes ++ body ++ suffix)).err = none ∧
        (run (h.bytes ++ body ++ suffix)).out.flatMap atomBytes = h.bytes ++ body ↔
      (Decoder.feedAll (ε := IoError) atoms (headCodec h.lines).endHeaders (body ++ suffix)).err = none ∧
        (Decoder.feedAll (ε := IoError) atoms (headCodec h.lines).endHeaders
          (body ++ suffix)).rest = suffix := by
  have cons := feedAll_conserves ResponseCodec.new (h.bytes ++ body ++ suffix)
  have lines := run_lines h.headLines (body ++ suffix)
  rw [← Head.bytes, ← List.append_assoc] at lines
  rw [← run] at cons
  have err := congrArg Decoder.Fed.err lines
  have rest := congrArg Decoder.Fed.rest lines
  rw [Decoder.Fed.after_err] at err
  rw [Decoder.Fed.after_rest] at rest
  rw [← err, ← rest]
  refine and_congr_right fun _ => ?_
  constructor
  · intro out
    rw [out] at cons
    exact List.append_cancel_left cons
  · intro left
    rw [left] at cons
    exact List.append_cancel_right cons

/-- Without an interim response it comes down to the body. -/
lemma relaysFinal_nil_iff {method : Bytes} (r : Response method) :
    RelaysFinal [] r ↔
      TakesBody (headCodec r.head.lines).endHeaders (r.length = .untilClose) r.body := by
  constructor
  · intro relays suffix nil
    have ne : r.bytes ++ suffix ≠ [] := by
      simp [Response.bytes, Head.bytes]
    obtain h := relays suffix [.data (r.bytes ++ suffix)] nil (by simpa [ReadResult.Proper] using ne)
      (by simp [ReadResult.bytes])
    rw [ResponseParser.relays_iff (by simpa [ReadResult.Proper] using ne)] at h
    simp only [all_cons, ReadResult.bytes, all_nil, List.append_nil] at h
    exact (run_response_iff r.head r.body suffix).1 h
  · intro takes suffix reads nil proper e
    rw [ResponseParser.relays_iff proper, e]
    exact (run_response_iff r.head r.body suffix).2 (takes suffix nil)

/-- An interim response is relayed in place of the final one. -/
lemma not_relaysFinal_cons {method : Bytes} (i : Interim) (interims : List Interim)
    (r : Response method) : ¬ RelaysFinal (i :: interims) r := by
  intro relays
  have e : (i :: interims).flatMap (·.head.bytes) ++ r.bytes =
      unlines i.head.lines ++ crlf ++ (interims.flatMap (·.head.bytes) ++ r.bytes) := by
    simp [Head.bytes]
  have ne : (i :: interims).flatMap (·.head.bytes) ++ r.bytes ≠ [] := by
    simp [Response.bytes, Head.bytes]
  have proper : ∀ x ∈ [ReadResult.data (ε := IoError)
      ((i :: interims).flatMap (·.head.bytes) ++ r.bytes)], x.Proper := by
    simpa [ReadResult.Proper] using ne
  have h := relays [] _ (fun _ => rfl) proper (by simp [ReadResult.bytes])
  rw [ResponseParser.relays_iff proper] at h
  simp only [all_cons, ReadResult.bytes, all_nil, List.append_nil] at h
  -- what is relayed is the front of the transport, which begins with the interim response
  have cons := feedAll_conserves ResponseCodec.new ((i :: interims).flatMap (·.head.bytes) ++ r.bytes)
  rw [← run, h.2, e, Response.bytes, Head.bytes, List.append_assoc _ r.body] at cons
  obtain ⟨lines, -⟩ := unlines_unique r.head.headLines.line i.head.headLines.line cons
  have start : r.head.startLine = i.head.startLine := (List.cons.inj lines).1
  obtain ⟨a, b, c, final, ne⟩ := r.status_ok
  obtain ⟨a', b', interim⟩ := i.status_ok
  rw [Head.status, start, ← Head.status, interim] at final
  cases final
  exact ne rfl

/-- The stream relays the final response and nothing else, whatever follows it and however the
transport is cut, if and only if no interim response comes first and the body is one that the derived
framing delimits. -/
theorem relaysFinal_iff {method : Bytes} (interims : List Interim) (r : Response method) :
    RelaysFinal interims r ↔
      interims = [] ∧ Delimits r.head.responseFraming (r.length = .untilClose) r.body := by
  cases interims with
  | nil =>
    rw [relaysFinal_nil_iff, takesBody_iff]
    exact ⟨fun h => ⟨rfl, h⟩, fun h => h.2⟩
  | cons i interims => exact ⟨fun h => absurd h (not_relaysFinal_cons i interims r), nofun⟩

/-- `100 Continue`. -/
def continueResponse : Interim where
  head :=
    { startLine := lit "HTTP/1.1 100 Continue"
      headers := []
      startLine_ok := ⟨by decide, by decide⟩
      headers_ok := nofun }
  status_ok := ⟨48, 48, by decide⟩

/-- A response with a body of known length. -/
def okResponse : Response (lit "POST") where
  head :=
    { startLine := lit "HTTP/1.1 200 OK"
      headers := [lit "Content-Length: 2"]
      startLine_ok := http11Head.startLine_ok
      headers_ok := http11Head.headers_ok }
  body := lit "ok"
  length := .length 2
  status_ok := ⟨50, 48, 48, by decide, by decide⟩
  length_ok := by decide +kernel
  body_ok := (by decide : (lit "ok").length = 2)

/-- The answer to a request that asked for `100 Continue` is not relayed. -/
theorem not_relaysFinal_continue : ¬ RelaysFinal [continueResponse] okResponse :=
  not_relaysFinal_cons continueResponse [] okResponse

end Railscale.Http
