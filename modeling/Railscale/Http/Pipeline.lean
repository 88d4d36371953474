import Railscale.Http.Codec

/-!
# The HTTP pipeline

Model of `carriage/src/http/pipeline.rs`: the pipeline that takes hop-by-hop headers off a request and replaces the
headers that its matchers name, and of the part of `conductor/src/lib.rs` that makes the matchers. A matcher is
looked for inside the field name, byte by byte, where the builder speaks of the name of a header.
`renames_iff_agree` says for which headers that is the same.
-/

namespace Railscale.Http

open Bytes

/-- Rust `HOP_BY_HOP`. -/
def hopByHop : List Bytes :=
  [lit "connection", lit "keep-alive", lit "proxy-connection", lit "proxy-authenticate", lit "proxy-authorization",
    lit "te", lit "upgrade"]

/-- Rust `is_hop_by_hop`. -/
def isHopByHop (headerName : Bytes) : Bool := hopByHop.any fun h => eqIgnoreAsciiCase headerName h

/-- Rust `HttpPipeline`; a matcher is the needle of a `Finder` with its replacement value. -/
structure HttpPipeline where
  matchers : List (Bytes × Bytes)
  injectClose : Bool

namespace HttpPipeline

/-- Rust `HttpPipeline::new`. -/
def new (matchers : List (Bytes × Bytes)) : HttpPipeline := ⟨matchers, true⟩

/-- Rust `HttpPipeline::keepalive`. -/
def keepalive (matchers : List (Bytes × Bytes)) : HttpPipeline := ⟨matchers, false⟩

/-- Rust `HttpPipeline::process`. -/
def process (p : HttpPipeline) (frame : HttpFrame) : HttpFrame :=
  if frame.phase = .endOfHeaders then
    if p.injectClose then .header (lit "Connection: close\r\n\r\n") else frame
  else if frame.phase ≠ .header then frame
  else
    let line := frame.data
    match memchr 58 line with
    | none => frame
    | some sep =>
      let name := line.take sep
      if isHopByHop name then .header []
      else if p.matchers.isEmpty then frame
      else
        let replaced := p.matchers.findSome? fun m =>
          if memmem m.1 name then some (name ++ lit ": " ++ m.2 ++ crlf) else none
        match replaced with
        | some bytes => .header bytes
        | none => frame

end HttpPipeline

/-! ## What becomes of a header -/

/-- The header line with a name and a value. -/
def headerLine (name value : Bytes) : Bytes := name ++ lit ": " ++ value ++ crlf

/-- A header line is cut at its first colon. -/
lemma headerLine_eq (name value : Bytes) : headerLine name value = name ++ 58 :: sp :: (value ++ crlf) := by
  rw [headerLine, List.append_assoc, List.append_assoc]
  rfl

/-- Two header lines with one name have one value. -/
lemma headerLine_inj {name v w : Bytes} : headerLine name v = headerLine name w ↔ v = w := by
  rw [headerLine, headerLine, List.append_left_inj, List.append_right_inj]

/-- The replacement of a header with the name by the first matcher that is found in it. -/
def replacement (matchers : List (Bytes × Bytes)) (name : Bytes) : Option Bytes :=
  (matchers.find? fun m => memmem m.1 name).map fun m => headerLine name m.2

/-- The replacement by the first matcher, as the code looks for it. -/
lemma findSome_replacement (matchers : List (Bytes × Bytes)) (name : Bytes) :
    matchers.findSome? (fun m => if memmem m.1 name then some (name ++ lit ": " ++ m.2 ++ crlf) else none) =
      replacement matchers name := by
  induction matchers with
  | nil => rfl
  | cons m ms ih =>
    cases found : memmem m.1 name with
    | true => simp [replacement, headerLine, found]
    | false =>
      rw [replacement] at ih ⊢
      simp only [List.findSome?_cons, List.find?_cons, found, Bool.false_eq_true, if_false]
      exact ih

/-- The name of a header: what stands before the first colon. -/
def fieldName (line : Bytes) : Option Bytes := (memchr 58 line).map line.take

/-- The name stands before the first colon. -/
lemma fieldName_cut {name : Bytes} (colon : 58 ∉ name) (rest : Bytes) :
    fieldName (name ++ 58 :: rest) = some name := by
  rw [fieldName, memchr_append_cons colon, Option.map_some, List.take_left]

/-- A line without a colon has no name. -/
lemma fieldName_eq_none {line : Bytes} : fieldName line = none ↔ 58 ∉ line := by
  rw [fieldName, Option.map_eq_none_iff, memchr_eq_none]

/-- A line with a name is the name, the colon and the rest. -/
lemma fieldName_eq_some {line name : Bytes} (h : fieldName line = some name) :
    ∃ rest, line = name ++ 58 :: rest ∧ 58 ∉ name := by
  obtain ⟨n, found, rfl⟩ := Option.map_eq_some_iff.1 h
  obtain ⟨p, rest, rfl, rfl, colon⟩ := memchr_eq_some found
  rw [List.take_left]
  exact ⟨rest, rfl, colon⟩

/-- A replaced header has the name that it had. -/
lemma fieldName_headerLine {name : Bytes} (colon : 58 ∉ name) (value : Bytes) :
    fieldName (headerLine name value) = some name := by
  rw [headerLine_eq, fieldName_cut colon]

namespace HttpPipeline

variable (p : HttpPipeline)

/-- What a header line is turned into. -/
def rewritten (line : Bytes) : Bytes :=
  match fieldName line with
  | none => line
  | some name => if isHopByHop name then [] else (replacement p.matchers name).getD line

/-- The pipeline rewrites header lines. -/
lemma process_header (line : Bytes) : p.process (.header line) = .header (p.rewritten line) := by
  have phase : (HttpFrame.header line).phase = .header := rfl
  have data : (HttpFrame.header line).data = line := rfl
  have here : ¬ (HttpFrame.header line).phase = .endOfHeaders := nofun
  rw [process, if_neg here, if_neg (not_not.2 phase), rewritten, fieldName]
  simp only [data, findSome_replacement]
  cases memchr 58 line with
  | none => rfl
  | some n =>
    simp only [Option.map_some]
    cases isHopByHop (line.take n) with
    | true => rfl
    | false =>
      cases found : replacement p.matchers (line.take n) with
      | none => exact ite_self _
      | some bytes =>
        have matchers : p.matchers.isEmpty = false := by
          cases none : p.matchers with
          | nil =>
            rw [none] at found
            cases found
          | cons _ _ => rfl
        rw [matchers]
        rfl

/-- Frames of other phases pass, but for the end of the headers. -/
lemma process_other {f : HttpFrame} (header : f.phase ≠ .header) (eoh : f.phase ≠ .endOfHeaders) : p.process f = f := by
  rw [process, if_neg eoh, if_pos header]

end HttpPipeline

/-! ## Replacing headers by name -/

/-- The headers of Rust `conductor::Config`. -/
structure Conductor where
  headers : List (Bytes × Bytes)

namespace Conductor

/-- Rust `replace_header`. -/
def replaceHeader (c : Conductor) (name value : Bytes) : Conductor := { c with headers := c.headers ++ [(name, value)] }

/-- Rust `Config::matchers`. -/
def matchers (c : Conductor) : List (Bytes × Bytes) := c.headers.map fun (name, value) => (name, value)

/-- The matchers are the headers of the configuration. -/
lemma matchers_eq (c : Conductor) : c.matchers = c.headers := List.map_id _

/-- The header line with the value of the first pair that has its name. -/
def renamed (c : Conductor) (line : Bytes) : Bytes :=
  match fieldName line with
  | none => line
  | some name => ((c.headers.find? fun h => eqIgnoreAsciiCase h.1 name).map fun h => headerLine name h.2).getD line

/-- A pipeline with the matchers replaces the header by its name. -/
def Renames (c : Conductor) (injectClose : Bool) (line : Bytes) : Prop :=
  HttpPipeline.process ⟨c.matchers, injectClose⟩ (.header line) = .header (c.renamed line)

/-- The first pair that is found in the field name and the first pair that has it make the same line. -/
def Agree (c : Conductor) (line : Bytes) : Prop :=
  ∀ name, fieldName line = some name →
    match c.headers.find? fun h => memmem h.1 name, c.headers.find? fun h => eqIgnoreAsciiCase h.1 name with
    | none, none => True
    | some found, some named => found.2 = named.2
    | some found, none => line = headerLine name found.2
    | none, some named => line = headerLine name named.2

/-- Two header frames are the same if their lines are. -/
lemma header_inj {l m : Bytes} : HttpFrame.header l = HttpFrame.header m ↔ l = m := by
  constructor
  · intro same
    exact congrArg HttpFrame.data same
  · intro same
    rw [same]

/-- A header that is not hop-by-hop is replaced by its name exactly when the first pair that is found in the name and
the first one that has it agree. -/
theorem renames_iff_agree (c : Conductor) (injectClose : Bool) {line : Bytes}
    (endToEnd : ∀ name, fieldName line = some name → isHopByHop name = false) :
    c.Renames injectClose line ↔ c.Agree line := by
  rw [Renames, HttpPipeline.process_header, header_inj, HttpPipeline.rewritten, renamed, Agree]
  cases named : fieldName line with
  | none => exact iff_of_true rfl nofun
  | some name =>
    have keep : ¬ isHopByHop name = true := ne_true_of_eq_false (endToEnd name named)
    simp only [if_neg keep, replacement, matchers_eq, Option.some.injEq, forall_eq']
    cases c.headers.find? fun h => memmem h.1 name with
    | none =>
      cases c.headers.find? fun h => eqIgnoreAsciiCase h.1 name with
      | none => exact iff_of_true rfl trivial
      | some named => exact Iff.rfl
    | some found =>
      cases c.headers.find? fun h => eqIgnoreAsciiCase h.1 name with
      | none => exact eq_comm
      | some named => exact headerLine_inj

/-- A pair with the name of the header. -/
theorem renames_iff_agree_userAgent :
    HttpPipeline.process ⟨matchers ⟨[(lit "User-Agent", lit "railscale/1.0")]⟩, false⟩
      (.header (lit "User-Agent: curl\r\n")) = .header (lit "User-Agent: railscale/1.0\r\n") := by
  have endToEnd : ∀ name, fieldName (lit "User-Agent: curl\r\n") = some name → isHopByHop name = false := by
    intro name named
    cases named
    decide
  refine Eq.trans ((renames_iff_agree ⟨[(lit "User-Agent", lit "railscale/1.0")]⟩ false endToEnd).2
    fun name named => ?_) ?_
  · cases named
    exact rfl
  · decide

/-- A pair whose name is part of another one. -/
theorem not_renames_part :
    ¬ ∀ (c : Conductor) (injectClose : Bool) (line : Bytes),
      (∀ name, fieldName line = some name → isHopByHop name = false) → c.Renames injectClose line := by
  intro all
  have endToEnd : ∀ name, fieldName (lit "X-Forwarded-Host: b\r\n") = some name → isHopByHop name = false := by
    intro name named
    cases named
    decide
  exact absurd (all ⟨[(lit "Host", lit "a")]⟩ false _ endToEnd) (by rw [Renames]; decide)

end Conductor

end Railscale.Http
