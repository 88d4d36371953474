import Railscale.Http.CycleItems
import Railscale.Http.Rewriting

/-!
# Asking for close

`HttpPipeline::new` makes the empty line behind a head a `Connection: close` with an empty line, and takes the
`Connection` lines of the client away. `HttpFrameStream` does not hand the empty line to the pipeline: it comes with
the rest of the read buffer, as bytes that pass through. So a request is forwarded without any `Connection` line,
unless the value that a matcher replaces a header with brings one along behind a line ending of its own
(`asksClose_iff`).
-/

namespace Railscale.Http

open Bytes ReadResult

/-! ## The lines of some bytes -/

/-- The lines of some bytes, without their endings; the last one is what follows the last line ending. -/
def splitCrlf : Bytes → List Bytes
  | [] => [[]]
  | b :: bs =>
    match splitCrlf bs with
    | [] => [[b]]
    | l :: ls => if b = cr ∧ l.head? = some lf then [] :: l.tail :: ls else (b :: l) :: ls

/-- There is at least one line. -/
lemma splitCrlf_ne_nil (bs : Bytes) : splitCrlf bs ≠ [] := by
  cases bs with
  | nil => exact List.cons_ne_nil _ _
  | cons b bs =>
    rw [splitCrlf]
    split
    · exact List.cons_ne_nil _ _
    · split <;> exact List.cons_ne_nil _ _

/-- One more byte belongs to the first line, or ends an empty one in front. -/
lemma splitCrlf_cons {b : UInt8} {bs l : Bytes} {ls : List Bytes} (h : splitCrlf bs = l :: ls) :
    splitCrlf (b :: bs) = if b = cr ∧ l.head? = some lf then [] :: l.tail :: ls else (b :: l) :: ls := by
  rw [splitCrlf, h]

/-- A line end in front is an empty line. -/
lemma splitCrlf_crlf (bs : Bytes) : splitCrlf (crlf ++ bs) = [] :: splitCrlf bs := by
  obtain ⟨l, ls, h⟩ := List.exists_cons_of_ne_nil (splitCrlf_ne_nil bs)
  have after : splitCrlf (lf :: bs) = (lf :: l) :: ls := by
    rw [splitCrlf_cons h, if_neg fun both => absurd both.1 (by decide)]
  rw [h]
  exact (splitCrlf_cons after).trans (if_pos ⟨rfl, rfl⟩)

/-- The lines on the two sides of a line ending. -/
lemma splitCrlf_append (v bs : Bytes) : splitCrlf (v ++ crlf ++ bs) = splitCrlf v ++ splitCrlf bs := by
  induction v with
  | nil => exact splitCrlf_crlf bs
  | cons b v ih =>
    obtain ⟨l, ls, h⟩ := List.exists_cons_of_ne_nil (splitCrlf_ne_nil v)
    rw [h, List.cons_append] at ih
    show splitCrlf (b :: (v ++ crlf ++ bs)) = _
    rw [splitCrlf_cons ih, splitCrlf_cons h]
    split <;> rfl

/-- Bytes without a line ending go before the first line. -/
lemma splitCrlf_front {p v l : Bytes} {ls : List Bytes} (noCrlf : NoCrlf p) (notCr : p.getLast? ≠ some cr)
    (h : splitCrlf v = l :: ls) : splitCrlf (p ++ v) = (p ++ l) :: ls := by
  induction p with
  | nil => exact h
  | cons b p ih =>
    cases p with
    | nil =>
      rw [List.singleton_append, splitCrlf_cons h, if_neg]
      · rfl
      · rintro ⟨rfl, -⟩
        exact notCr rfl
    | cons c p =>
      have rest := ih noCrlf.tail (by rwa [List.getLast?_cons_cons] at notCr)
      rw [List.cons_append, splitCrlf_cons rest, if_neg]
      · rfl
      · rintro ⟨rfl, next⟩
        cases next
        exact noCrlf (List.prefix_append crlf p).isInfix

/-- Without a line end there is one line. -/
lemma splitCrlf_noCrlf {l : Bytes} (h : NoCrlf l) : splitCrlf l = [l] := by
  induction l with
  | nil => rfl
  | cons b l ih =>
    rw [splitCrlf_cons (ih h.tail), if_neg]
    rintro ⟨rfl, next⟩
    obtain ⟨rest, rfl⟩ : ∃ rest, l = lf :: rest := by
      cases l with
      | nil => cases next
      | cons c l =>
        cases next
        exact ⟨l, rfl⟩
    exact h (List.prefix_append crlf rest).isInfix

/-! ## The request for close -/

/-- A `Connection` header line. -/
def isConnection (line : Bytes) : Bool := (fieldName line).any fun name => eqIgnoreAsciiCase name (lit "connection")

/-- The `Connection` lines among some lines, up to the empty one. -/
def connections (ls : List Bytes) : List Bytes := (ls.takeWhile (!·.isEmpty)).filter isConnection

/-- The `Connection` lines of the head that some bytes begin with: the first line is the request line. -/
def connectionLines (bs : Bytes) : List Bytes := connections (splitCrlf bs).tail

/-- The head has one `Connection` line, and it asks for close. -/
def AsksClose (bs : Bytes) : Prop := connectionLines bs = [lit "Connection: close"]

/-- Whether a request asks to close is decided on its lines. -/
instance (bs : Bytes) : Decidable (AsksClose bs) := inferInstanceAs (Decidable (_ = _))

/-- The Connection lines are those in front of the first empty line. -/
lemma connections_stop (front rest : List Bytes) : connections (front ++ [] :: rest) = connections front := by
  induction front with
  | nil => rfl
  | cons l front ih =>
    rw [connections, connections, List.cons_append, List.takeWhile_cons, List.takeWhile_cons]
    split
    · rw [List.filter_cons, List.filter_cons]
      split
      · exact congrArg (List.cons l) ih
      · exact ih
    · rfl

/-- A line that is not empty and no `Connection` line does not count. -/
lemma connections_other {l : Bytes} (ne : l ≠ []) (other : isConnection l = false) (front rest : List Bytes) :
    connections (front ++ l :: rest) = connections (front ++ rest) := by
  induction front with
  | nil =>
    have line : (!l.isEmpty) = true := by simpa using ne
    rw [List.nil_append, List.nil_append, connections, List.takeWhile_cons, if_pos line, List.filter_cons, other]
    rfl
  | cons k front ih =>
    rw [connections, connections, List.cons_append, List.cons_append, List.takeWhile_cons, List.takeWhile_cons]
    split
    · rw [List.filter_cons, List.filter_cons]
      split
      · exact congrArg (List.cons k) ih
      · exact ih
    · rfl

/-! ## What is written of a header line -/

section written

variable (parser pipeline : List (Bytes × Bytes))

/-- The value that a header line is given: by the pipeline, or else by the parser. -/
def replacing (h : Bytes) : Option Bytes :=
  (fieldName h).bind fun name =>
    if isHopByHop name then none
    else ((pipeline.find? fun m => memmem m.1 name).or (parser.find? fun m => memmem m.1 name)).map Prod.snd

/-- The lines that the value brings along, behind line endings of its own. -/
def smuggledLines (h : Bytes) : List Bytes := ((replacing parser pipeline h).map fun v => (splitCrlf v).tail).getD []

/-- The `Connection` lines that the values of the header lines bring along, up to the first empty line. -/
def smuggled (ls : List Bytes) : List Bytes := connections (ls.flatMap (smuggledLines parser pipeline))

/-- What is written of a header line: nothing, or a line that is no `Connection` line and what its value brings
along. -/
inductive WrittenAs (h : Bytes) : Bytes → Prop where
  | removed :
    smuggledLines parser pipeline h = [] →
    WrittenAs h []
  | kept {content first} :
    splitCrlf content = first :: smuggledLines parser pipeline h →
    first ≠ [] →
    isConnection first = false →
    WrittenAs h (content ++ crlf)

variable {parser pipeline}

/-- An end-to-end name is not that of a Connection line. -/
lemma isConnection_name {line name : Bytes} (named : fieldName line = some name) (endToEnd : isHopByHop name = false) :
    isConnection line = false := by
  rw [isConnection, named, Option.any_some]
  rw [isHopByHop, List.any_eq_false] at endToEnd
  exact eq_false_of_ne_true (endToEnd (lit "connection") List.mem_cons_self)

/-- A line whose value is replaced. -/
lemma WrittenAs.replaced {h name v : Bytes} (line : IsLine h) (named : fieldName h = some name)
    (endToEnd : isHopByHop name = false) (value : replacing parser pipeline h = some v) :
    WrittenAs parser pipeline h (headerLine name v) := by
  obtain ⟨rest, rfl, colon⟩ := fieldName_eq_some named
  obtain ⟨l, ls, split⟩ := List.exists_cons_of_ne_nil (splitCrlf_ne_nil v)
  have front : name ++ lit ": " = name ++ [58] ++ [sp] := by
    rw [List.append_assoc]
    rfl
  have noCrlf : NoCrlf (name ++ lit ": ") := by
    have upToColon : NoCrlf (name ++ [58]) := NoCrlf.left (m := rest) (by simpa using line.noCrlf)
    rw [front]
    exact upToColon.concat (by decide)
  have last : (name ++ lit ": ").getLast? ≠ some cr := by
    rw [front, List.getLast?_concat]
    decide
  have first : fieldName (name ++ lit ": " ++ l) = some name := by
    rw [List.append_assoc]
    exact fieldName_cut colon _
  have content : splitCrlf (name ++ lit ": " ++ v) =
      (name ++ lit ": " ++ l) :: smuggledLines parser pipeline (name ++ 58 :: rest) := by
    rw [splitCrlf_front noCrlf last split, smuggledLines, value, Option.map_some, Option.getD_some, split]
    rfl
  refine .kept content ?_ (isConnection_name first endToEnd)
  rw [front]
  simp

/-- What the pipeline makes of the frame of a header line. -/
lemma writtenAs {h : Bytes} (line : IsLine h) :
    WrittenAs parser pipeline h ((HttpPipeline.new pipeline).process (HttpStreamingCodec.headerOf parser h)).data := by
  have plain : ∀ {h : Bytes}, IsLine h → replacing parser pipeline h = none → isConnection h = false →
      WrittenAs parser pipeline h (h ++ crlf) := by
    intro h line none other
    have content : splitCrlf h = h :: smuggledLines parser pipeline h := by
      rw [splitCrlf_noCrlf line.noCrlf, smuggledLines, none]
      rfl
    exact .kept content line.ne other
  rw [HttpStreamingCodec.headerOf, HttpPipeline.process_header, HttpStreamingCodec.replaced_eq]
  show WrittenAs parser pipeline h (HttpPipeline.rewritten _ _)
  rw [HttpPipeline.rewritten]
  cases named : fieldName h with
  | none =>
    simp only [Option.bind_none, Option.getD_none, HttpStreamingCodec.fieldName_crlf, named]
    refine plain line ?_ ?_
    · rw [replacing, named]
      rfl
    · rw [isConnection, named]
      rfl
  | some name =>
    obtain ⟨-, -, colon⟩ := fieldName_eq_some named
    have same : fieldName ((replacement parser name).getD (h ++ crlf)) = some name := by
      rw [replacement]
      cases parser.find? fun m => memmem m.1 name with
      | none => exact (HttpStreamingCodec.fieldName_crlf h).trans named
      | some m => exact fieldName_headerLine colon m.2
    have value : replacing parser pipeline h = if isHopByHop name then none else
        ((pipeline.find? fun m => memmem m.1 name).or (parser.find? fun m => memmem m.1 name)).map Prod.snd := by
      rw [replacing, named]
      rfl
    simp only [Option.bind_some, same, HttpPipeline.new]
    cases hop : isHopByHop name with
    | true =>
      refine .removed ?_
      rw [smuggledLines, value, hop]
      rfl
    | false =>
      rw [hop] at value
      simp only [Bool.false_eq_true, if_false] at value ⊢
      simp only [replacement]
      cases given : pipeline.find? fun m => memmem m.1 name with
      | some m =>
        rw [given] at value
        exact .replaced line named hop value
      | none =>
        rw [given] at value
        cases given' : parser.find? fun m => memmem m.1 name with
        | some m =>
          rw [given'] at value
          exact .replaced line named hop value
        | none =>
          rw [given'] at value
          exact plain line value (isConnection_name named hop)

/-- The header lines of a request as they are written. -/
def writtenLines (parser pipeline : List (Bytes × Bytes)) (ls : List Bytes) : Bytes :=
  ls.flatMap fun h => ((HttpPipeline.new pipeline).process (HttpStreamingCodec.headerOf parser h)).data

/-- The `Connection` lines among the header lines that are written are those that came along with the values. -/
lemma connections_written {ls : List Bytes} (lines : ∀ h ∈ ls, IsLine h) {tail : Bytes} {rest : List Bytes}
    (ends : splitCrlf tail = [] :: rest) (front : List Bytes) :
    connections (front ++ splitCrlf (writtenLines parser pipeline ls ++ tail)) =
      connections (front ++ ls.flatMap (smuggledLines parser pipeline)) := by
  -- the lines that have come along so far gather in front
  induction ls generalizing front with
  | nil =>
    show connections (front ++ splitCrlf tail) = connections (front ++ [])
    rw [ends, connections_stop, List.append_nil]
  | cons h ls ih =>
    have later := ih fun h mem => lines h (List.mem_cons_of_mem _ mem)
    rw [writtenLines, List.flatMap_cons, List.flatMap_cons, List.append_assoc]
    show connections (front ++ splitCrlf (_ ++ (writtenLines parser pipeline ls ++ tail))) = _
    have wrote : WrittenAs parser pipeline h _ := writtenAs (lines h List.mem_cons_self)
    generalize ((HttpPipeline.new pipeline).process (HttpStreamingCodec.headerOf parser h)).data = bytes at wrote ⊢
    cases wrote with
    | removed nothing =>
      rw [nothing, List.nil_append, List.nil_append]
      exact later front
    | @kept content first split ne other =>
      rw [splitCrlf_append, split, List.cons_append, connections_other ne other, ← List.append_assoc, later,
        List.append_assoc]

/-- The request for close in a head that is written: the lines that came along with the values make it. -/
lemma asksClose_written {l : Bytes} {ls : List Bytes} (line : NoCrlf l) (lines : ∀ h ∈ ls, IsLine h) {tail : Bytes}
    {rest : List Bytes} (ends : splitCrlf tail = [] :: rest) :
    AsksClose (l ++ crlf ++ (writtenLines parser pipeline ls ++ tail)) ↔
      smuggled parser pipeline ls = [lit "Connection: close"] := by
  have head : connectionLines (l ++ crlf ++ (writtenLines parser pipeline ls ++ tail)) =
      smuggled parser pipeline ls := by
    rw [connectionLines, splitCrlf_append, splitCrlf_noCrlf line]
    exact connections_written lines ends []
  rw [AsksClose, head]

/-- Values without line endings bring no lines along. -/
lemma smuggled_nil (values : ∀ m ∈ parser ++ pipeline, NoCrlf m.2) (ls : List Bytes) :
    smuggled parser pipeline ls = [] := by
  have none : ∀ h, smuggledLines parser pipeline h = [] := by
    intro h
    rw [smuggledLines]
    cases value : replacing parser pipeline h with
    | none => rfl
    | some v =>
      obtain ⟨name, -, given⟩ := Option.bind_eq_some_iff.1 value
      split at given
      · cases given
      · obtain ⟨m, found, rfl⟩ := Option.map_eq_some_iff.1 given
        have mem : m ∈ parser ++ pipeline := by
          rcases Option.or_eq_some_iff.1 found with found | ⟨-, found⟩
          · exact List.mem_append_right _ (List.mem_of_find?_eq_some found)
          · exact List.mem_append_left _ (List.mem_of_find?_eq_some found)
        rw [Option.map_some, Option.getD_some, splitCrlf_noCrlf (values m mem)]
        rfl
  have nothing : ls.flatMap (smuggledLines parser pipeline) = [] := List.flatMap_eq_nil_iff.2 fun h _ => none h
  rw [smuggled, nothing]
  rfl

end written

/-! ## The requests of a connection -/

namespace Client

open Service HttpFrameStream

variable {H D : Type} [ConnectionHook H HttpFrame] {cfg : Config HttpFrame H} {s : State H D}
  {parser pipeline : List (Bytes × Bytes)}

/-- The frames of a cycle are the request line and the header lines that the client sent one behind the other. -/
structure HeadOf (parser : List (Bytes × Bytes)) (sent : Bytes) (log : List (Event HttpFrame H D)) (l : Bytes)
    (ls : List Bytes) : Prop where
  frames_eq : frames (taken log) = .requestLine (l ++ crlf) :: ls.map (HttpStreamingCodec.headerOf parser)
  sent_eq : ∃ before after, sent = before ++ unlines (l :: ls) ++ after

/-- The frames of a head, line by line. -/
lemma frames_headItems (parser : List (Bytes × Bytes)) (l : Bytes) (ls : List Bytes) :
    frames (headItems parser l ls) = .requestLine (l ++ crlf) :: ls.map (HttpStreamingCodec.headerOf parser) := by
  refine congrArg (List.cons _) ?_
  show (ls.map fun h => ParsedData.parsed (HttpStreamingCodec.headerOf parser h)).filterMap ParsedData.frame? = _
  rw [List.filterMap_map]
  exact congrFun List.filterMap_eq_map ls

/-- What is written of a head. -/
lemma output_headItems (l : Bytes) (ls : List Bytes) :
    (headItems parser l ls).flatMap (ParsedData.output (HttpPipeline.new pipeline).process) =
      l ++ crlf ++ writtenLines parser pipeline ls := by
  have request : (HttpPipeline.new pipeline).process (.requestLine (l ++ crlf)) = .requestLine (l ++ crlf) :=
    HttpPipeline.process_other _ nofun nofun
  rw [headItems, List.flatMap_cons, List.flatMap_map]
  show ((HttpPipeline.new pipeline).process _).data ++ _ = _
  rw [request]
  rfl

/-- The items of a cycle with a write, and what is written. -/
lemma written_of_forwarded {log : List (Event HttpFrame H D)} {pre f post stop before after d'}
    (fwd : Forwarded cfg log pre f post stop before after d') {d : D} {bs : Bytes} (wrote : (d, bs) ∈ writes log) :
    taken log = pre ++ .parsed f :: post ∧ bs = (taken log).flatMap (ParsedData.output cfg.process) := by
  have taken_eq : taken log = pre ++ .parsed f :: post := by
    rw [fwd.log_eq, taken_untaken]
    · exact taken_given fwd.takes_eq fwd.stops
    · exact fwd.takes_after
  refine ⟨taken_eq, ?_⟩
  have once : writes log = [(d', (pre ++ .parsed f :: post).flatMap (ParsedData.output cfg.process))] := by
    rw [fwd.log_eq, writes_append, fwd.once]
    exact congrArg (List.cons _) fwd.writes_after
  rw [once] at wrote
  rw [taken_eq]
  cases List.mem_singleton.1 wrote
  rfl

/-- A request that is forwarded asks for close exactly when the values that replace its headers bring the line along;
with values without line endings none does. -/
theorem asksClose_iff {reads : List (ReadResult IoError)} {as : List (Action D)}
    (process : cfg.process = (HttpPipeline.new pipeline).process)
    (run : Run (Client.step cfg) (State.init cfg parser reads) as s) :
    ∀ log ∈ s.conn.past ++ [s.conn.log], ∀ d bs, (d, bs) ∈ writes log →
      ∃ l ls, HeadOf parser (all reads) log l ls ∧
        (AsksClose bs ↔ smuggled parser pipeline ls = [lit "Connection: close"]) ∧
        ((∀ m ∈ parser ++ pipeline, NoCrlf m.2) → ¬ AsksClose bs) := by
  intro log mem d bs wrote
  have inv : Service.Inv cfg s.conn := (run.invariant (fun _ _ _ inv st => inv.step st) (Cycling.init parser reads)).inv
  have ok : CycleOk cfg log := by
    rcases List.mem_append.1 mem with mem | mem
    · exact inv.past log mem
    · rw [List.mem_singleton.1 mem]
      exact inv.running.cycleOk
  rcases ok with none | ⟨pre, f, post, stop, before, after, d', fwd⟩
  · rw [none] at wrote
    cases wrote
  obtain ⟨taken_eq, written⟩ := written_of_forwarded fwd wrote
  have items := cycleItems_of_run run log mem
  generalize frames_eq : taken log = is at items taken_eq written
  cases items with
  | unrouted none =>
    -- the cycle has a frame with a routing key
    have routing := none f (by rw [taken_eq]; exact List.mem_append_right _ List.mem_cons_self)
    have key : (Frame.routingKey f).isSome := fwd.request.routing
    have unkeyed : Frame.routingKey f = .none := if_neg (by rw [routing]; nofun)
    rw [unkeyed] at key
    cases key
  | @request l ls rest bs' lines ends =>
    obtain ⟨before, sent_eq⟩ := lines.sent
    obtain ⟨tail, more, tail_eq, ends, frameless⟩ : ∃ tail more, bs'.flatMap (ParsedData.output cfg.process) = tail ∧
        splitCrlf tail = [] :: more ∧ frames bs' = [] := by
      rcases ends with rfl | ⟨body, rfl⟩
      · exact ⟨[], [], rfl, rfl, rfl⟩
      · exact ⟨crlf ++ body, splitCrlf body, List.append_nil _, splitCrlf_crlf body, rfl⟩
    have asks : AsksClose bs ↔ smuggled parser pipeline ls = [lit "Connection: close"] := by
      rw [written, List.flatMap_append, tail_eq, process, output_headItems, List.append_assoc]
      exact asksClose_written lines.line.noCrlf lines.lines ends
    refine ⟨l, ls, ⟨?_, before, rest, sent_eq⟩, asks, fun values => ?_⟩
    · rw [frames_eq, frames_append, frames_headItems, frameless, List.append_nil]
    · rw [asks, smuggled_nil values ls]
      nofun

section examples

/-- A service for HTTP that asks its upstreams for close. -/
def closeConfig (pipeline : List (Bytes × Bytes)) : Config HttpFrame HttpDeriverHook :=
  { httpConfig with process := (HttpPipeline.new pipeline).process }

/-- A request. -/
def hostRequest : List (ReadResult IoError) := [.data (lit "GET / HTTP/1.1\r\nHost: a\r\n\r\n")]

/-- It is read up to the end of its head, and routed. -/
def hostActions : List (Action Nat) := List.replicate 8 .turn ++ [.conn (.routed (.ok 7))]

/-- A value with a line ending brings the line along. -/
theorem asksClose_iff_host :
    ∃ s : State HttpDeriverHook Nat,
      Run (Client.step (closeConfig [(lit "Host", lit "b\r\nConnection: close")])) (State.init (closeConfig
        [(lit "Host", lit "b\r\nConnection: close")]) [] hostRequest) hostActions s ∧
      (7, lit "GET / HTTP/1.1\r\nHost: b\r\nConnection: close\r\n\r\n") ∈ writes s.conn.log ∧
      ∃ l ls, HeadOf [] (all hostRequest) s.conn.log l ls ∧
        (AsksClose (lit "GET / HTTP/1.1\r\nHost: b\r\nConnection: close\r\n\r\n") ↔
          smuggled [] [(lit "Host", lit "b\r\nConnection: close")] ls = [lit "Connection: close"]) := by
  obtain ⟨s, run, wrote⟩ : ∃ s : State HttpDeriverHook Nat,
      Run (Client.step (closeConfig [(lit "Host", lit "b\r\nConnection: close")])) (State.init (closeConfig
        [(lit "Host", lit "b\r\nConnection: close")]) [] hostRequest) hostActions s ∧
      writes s.conn.log = [(7, lit "GET / HTTP/1.1\r\nHost: b\r\nConnection: close\r\n\r\n")] :=
    ⟨_, .of_exec rfl, by decide +kernel⟩
  have mem : (7, lit "GET / HTTP/1.1\r\nHost: b\r\nConnection: close\r\n\r\n") ∈ writes s.conn.log := by
    rw [wrote]
    exact List.mem_cons_self
  obtain ⟨l, ls, head, asks, -⟩ := asksClose_iff rfl run _ (List.mem_append_right _ List.mem_cons_self) _ _ mem
  exact ⟨s, run, mem, l, ls, head, asks⟩

/-- The request is forwarded without a `Connection` line. -/
theorem not_asksClose_host :
    ¬ ∀ (parser pipeline : List (Bytes × Bytes)) (reads : List (ReadResult IoError)) as (s : State HttpDeriverHook Nat),
      Run (Client.step (closeConfig pipeline)) (State.init (closeConfig pipeline) parser reads) as s →
      ∀ log ∈ s.conn.past ++ [s.conn.log], ∀ d bs, (d, bs) ∈ writes log → AsksClose bs := by
  intro all
  obtain ⟨s, run, wrote⟩ : ∃ s : State HttpDeriverHook Nat,
      Run (Client.step (closeConfig [])) (State.init (closeConfig []) [] hostRequest) hostActions s ∧
      writes s.conn.log = [(7, lit "GET / HTTP/1.1\r\nHost: a\r\n\r\n")] := ⟨_, .of_exec rfl, by decide +kernel⟩
  have asks := all [] [] hostRequest hostActions s run _ (List.mem_append_right _ List.mem_cons_self) 7 _
    (by rw [wrote]; exact List.mem_cons_self)
  exact absurd asks (by decide +kernel)

end examples

end Client

end Railscale.Http
