import Railscale.Http.Derive
import Mathlib.Data.List.DropRight

/-!
# Headers on several lines

A list-based header on several lines means what it means on one line with the values joined by commas. A session
keeps the first value of a matcher only, so the derivation of the lines is that of the joined line exactly when
the later values add nothing to the first one (`joins_iff_firstDecides`).
-/

namespace Railscale.Http

open Bytes

/-! ## Optional white space -/

/-- Without optional white space at its ends. -/
structure Trimmed (x : Bytes) : Prop where
  front : ∀ b ∈ x.head?, isOws b = false
  back : ∀ b ∈ x.getLast?, isOws b = false

/-- The first position of a byte that is not white space. -/
lemma findIdx_front {l r : Bytes} {a : UInt8} (hl : ∀ b ∈ l, isOws b = true) (ha : isOws a = false) :
    (l ++ a :: r).findIdx? (!isOws ·) = some l.length := by
  induction l with
  | nil => simp [List.findIdx?_cons, ha]
  | cons b l ih =>
    have skip := hl b List.mem_cons_self
    have ih := ih fun x hx => hl x (List.mem_cons_of_mem _ hx)
    simp [List.findIdx?_cons, skip, ih]

/-- Where all is white space nothing else is found. -/
lemma findIdx_none {l : Bytes} (hl : ∀ b ∈ l, isOws b = true) : l.findIdx? (!isOws ·) = none := by
  rw [List.findIdx?_eq_none_iff]
  intro b hb
  rw [hl b hb]
  rfl

/-- `trim_ows` takes off the white space around a trimmed string. -/
lemma trimOws_around {lead x trail : Bytes} (hl : ∀ b ∈ lead, isOws b = true) (hx : Trimmed x)
    (ht : ∀ b ∈ trail, isOws b = true) : trimOws (lead ++ x ++ trail) = x := by
  rcases List.eq_nil_or_concat' x with rfl | ⟨init, z, whole⟩
  · have all : ∀ b ∈ lead ++ [] ++ trail, isOws b = true := by
      intro b hb
      rw [List.append_nil] at hb
      exact (List.mem_append.1 hb).elim (hl b) (ht b)
    rw [trimOws, findIdx_none all, findIdx_none fun b hb => all b (List.mem_reverse.1 hb)]
    simp
  · have last : isOws z = false := hx.back z (by rw [whole, List.getLast?_concat]; rfl)
    have back : (lead ++ x ++ trail).reverse.findIdx? (!isOws ·) = some trail.length := by
      have order : (lead ++ x ++ trail).reverse = trail.reverse ++ z :: (lead ++ init).reverse := by
        rw [whole]
        simp
      rw [order, findIdx_front (fun b hb => ht b (List.mem_reverse.1 hb)) last, List.length_reverse]
    obtain ⟨a, rest, rfl⟩ := List.exists_cons_of_ne_nil (show x ≠ [] by rw [whole]; simp)
    have front : (lead ++ a :: rest ++ trail).findIdx? (!isOws ·) = some lead.length := by
      rw [List.append_assoc]
      exact findIdx_front hl (hx.front a rfl)
    have stop : (lead ++ a :: rest ++ trail).length - 1 - trail.length + 1 = (lead ++ a :: rest).length := by
      simp only [List.length_append, List.length_cons]
      omega
    rw [trimOws, front, back]
    dsimp only [Option.map_some, Option.getD_some]
    rw [stop, List.take_left, List.drop_left]

/-- What `trim_ows` leaves is trimmed. -/
lemma trimmed_trimOws (v : Bytes) : Trimmed (trimOws v) := by
  have front : v.takeWhile isOws ++ v.dropWhile isOws = v := List.takeWhile_append_dropWhile
  have back : (v.dropWhile isOws).rdropWhile isOws ++ (v.dropWhile isOws).rtakeWhile isOws = v.dropWhile isOws :=
    List.rdropWhile_append_rtakeWhile
  have trimmed : Trimmed ((v.dropWhile isOws).rdropWhile isOws) := by
    refine ⟨fun b hb => ?_, fun b hb => ?_⟩
    · have first : (v.dropWhile isOws).head? = some b := by
        rw [← back, List.head?_append, hb]
        rfl
      have ne : v.dropWhile isOws ≠ [] := by
        intro e
        rw [e] at first
        cases first
      have stop := List.head_dropWhile_not isOws ne
      rw [List.head?_eq_some_head ne] at first
      rw [← Option.some.inj first]
      exact stop
    · have ne : (v.dropWhile isOws).rdropWhile isOws ≠ [] := by
        intro e
        rw [e] at hb
        cases hb
      have stop := List.rdropWhile_last_not isOws _ ne
      rw [List.getLast?_eq_some_getLast ne] at hb
      rw [← Option.some.inj hb]
      exact Bool.eq_false_of_not_eq_true stop
  have around : trimOws v = (v.dropWhile isOws).rdropWhile isOws := by
    have cut : trimOws (v.takeWhile isOws ++ (v.dropWhile isOws).rdropWhile isOws ++
        (v.dropWhile isOws).rtakeWhile isOws) = _ :=
      trimOws_around (fun b hb => List.mem_takeWhile_imp hb) trimmed fun b hb => List.mem_rtakeWhile_imp hb
    rw [List.append_assoc, back, front] at cut
    exact cut
  rw [around]
  exact trimmed

/-! ## Joined values -/

/-- Values joined with commas. -/
def joinValues : List Bytes → Bytes
  | [] => []
  | v :: vs => v ++ vs.flatMap (44 :: ·)

/-- A comma stands between two values. -/
lemma joinValues_cons_cons (v w : Bytes) (vs : List Bytes) :
    joinValues (v :: w :: vs) = v ++ 44 :: joinValues (w :: vs) := by
  simp [joinValues]

/-- A token is in a list when it is on one side of the comma. -/
lemma hasConnectionToken_comma (v w token : Bytes) :
    hasConnectionToken (v ++ 44 :: w) token = (hasConnectionToken v token || hasConnectionToken w token) := by
  rw [hasConnectionToken, List.splitOn_append_cons_self, List.map_append, List.any_append]
  rfl

/-- Joined values have the tokens of all of them. -/
lemma hasConnectionToken_joinValues (v : Bytes) (vs : List Bytes) (token : Bytes) :
    hasConnectionToken (joinValues (v :: vs)) token = (v :: vs).any (hasConnectionToken · token) := by
  induction vs generalizing v with
  | nil => simp [joinValues]
  | cons w vs ih =>
    rw [joinValues_cons_cons, hasConnectionToken_comma, ih w]
    rfl

/-- Trimmed values with a comma between them are trimmed. -/
lemma Trimmed.comma {v w : Bytes} (hv : Trimmed v) (hw : Trimmed w) : Trimmed (v ++ 44 :: w) := by
  have comma : isOws 44 = false := rfl
  refine ⟨fun b hb => ?_, fun b hb => ?_⟩
  · cases v with
    | nil =>
      cases hb
      exact comma
    | cons a v => exact hv.front b hb
  · rw [List.getLast?_append_cons] at hb
    cases w with
    | nil =>
      cases hb
      exact comma
    | cons a w =>
      rw [List.getLast?_cons_cons] at hb
      exact hw.back b hb

/-- Trimmed values that are joined are trimmed. -/
lemma trimmed_joinValues {vs : List Bytes} (all : ∀ v ∈ vs, Trimmed v) : Trimmed (joinValues vs) := by
  induction vs with
  | nil => exact ⟨nofun, nofun⟩
  | cons v vs ih =>
    have hv := all v List.mem_cons_self
    have hvs := ih fun w hw => all w (List.mem_cons_of_mem _ hw)
    cases vs with
    | nil =>
      rw [joinValues, List.flatMap_nil, List.append_nil]
      exact hv
    | cons w vs =>
      rw [joinValues_cons_cons]
      exact hv.comma hvs

/-! ## Joined lines -/

/-- The line is a header line with the name. -/
def isNamed (name : Bytes) (l : HttpPhase × Bytes) : Bool :=
  l.1 == .header && (Matcher.tryMatch (.headerName name) l.2).isSome

/-- A header line with some values. -/
def joinedLine (name : Bytes) (vs : List Bytes) : HttpPhase × Bytes :=
  (.header, name ++ 58 :: sp :: (joinValues vs ++ crlf))

/-- The lines with one line in place of all lines with the name, where the first of them is. -/
def joinHeader (name : Bytes) : Lines → Lines
  | [] => []
  | l :: ls =>
    if isNamed name l then
      joinedLine name (DeriverSession.hits (l :: ls) (Matcher.headerName name)) :: ls.filter (!isNamed name ·)
    else l :: joinHeader name ls

section lines

variable {name : Bytes}

/-- A name is equal to itself. -/
lemma eqIgnoreAsciiCase_refl (s : Bytes) : eqIgnoreAsciiCase s s = true := beq_self_eq_true _

/-- What is read of the joined line. -/
lemma tryMatch_joinedLine (colon : 58 ∉ name) {vs : List Bytes} (all : ∀ v ∈ vs, Trimmed v) :
    Matcher.tryMatch (.headerName name) (joinedLine name vs).2 = some (joinValues vs) := by
  have same := eqIgnoreAsciiCase_refl name
  refine Matcher.tryMatch_headerName.2 ⟨name, sp :: (joinValues vs ++ crlf), rfl, colon, same, ?_⟩
  have strip : stripCrlf (sp :: (joinValues vs ++ crlf)) = [sp] ++ joinValues vs ++ [] := by
    rw [List.append_nil]
    exact stripCrlf_append_crlf (sp :: joinValues vs)
  rw [strip, trimOws_around (List.forall_mem_singleton.2 rfl) (trimmed_joinValues all)
    fun _ mem => absurd mem List.not_mem_nil]

/-- The line that joins the values has the name. -/
lemma isNamed_joinedLine (colon : 58 ∉ name) {vs : List Bytes} (all : ∀ v ∈ vs, Trimmed v) :
    isNamed name (joinedLine name vs) = true := by
  rw [isNamed, tryMatch_joinedLine colon all]
  rfl

/-- The values of a header are trimmed. -/
lemma trimmed_hits (name : Bytes) (ls : Lines) :
    ∀ v ∈ DeriverSession.hits ls (Matcher.headerName name), Trimmed v := by
  intro v hv
  obtain ⟨l, -, hit⟩ := List.mem_filterMap.1 hv
  split at hit
  · obtain ⟨_, _, -, -, -, rfl⟩ := Matcher.tryMatch_headerName.1 hit
    exact trimmed_trimOws _
  · cases hit

/-- A line without the name gives no value of it. -/
lemma nothing_of_unnamed {l : HttpPhase × Bytes} (unnamed : isNamed name l = false) :
    MatchAtom.phase (Matcher.headerName name) = l.1 → MatchAtom.tryMatch (Matcher.headerName name) l.2 = none := by
  obtain ⟨ph, data⟩ := l
  intro header
  have header : HttpPhase.header = ph := header
  subst header
  cases hit : Matcher.tryMatch (.headerName name) data with
  | none => exact hit
  | some v =>
    rw [isNamed, hit] at unnamed
    cases unnamed

/-- The lines without the name give no value of it. -/
lemma hits_filter_unnamed (ls : Lines) :
    DeriverSession.hits (ls.filter (!isNamed name ·)) (Matcher.headerName name) = [] := by
  rw [DeriverSession.hits, List.filterMap_eq_nil_iff]
  intro l mem
  have unnamed : isNamed name l = false := by simpa using (List.mem_filter.1 mem).2
  split
  · rename_i header
    exact nothing_of_unnamed unnamed header
  · rfl

/-- The joined header has one value, if it had any. -/
lemma hits_joinHeader (colon : 58 ∉ name) (ls : Lines) :
    DeriverSession.hits (joinHeader name ls) (Matcher.headerName name) =
      if DeriverSession.hits ls (Matcher.headerName name) = [] then []
      else [joinValues (DeriverSession.hits ls (Matcher.headerName name))] := by
  induction ls with
  | nil => rfl
  | cons l ls ih =>
    cases named : isNamed name l with
    | true =>
      have some : DeriverSession.hits (l :: ls) (Matcher.headerName name) ≠ [] := by
        obtain ⟨ph, data⟩ := l
        rw [isNamed, Bool.and_eq_true, beq_iff_eq] at named
        obtain ⟨header, hit⟩ := named
        obtain ⟨v, hit⟩ := Option.isSome_iff_exists.1 hit
        have header : MatchAtom.phase (Matcher.headerName name) = ph := header.symm
        have hit : MatchAtom.tryMatch (Matcher.headerName name) data = some v := hit
        rw [DeriverSession.hits_cons, if_pos header, hit]
        exact List.cons_ne_nil _ _
      have hit : MatchAtom.tryMatch (Matcher.headerName name)
          (joinedLine name (DeriverSession.hits (l :: ls) (Matcher.headerName name))).2 = _ :=
        tryMatch_joinedLine colon (trimmed_hits name (l :: ls))
      have header : MatchAtom.phase (Matcher.headerName name) = HttpPhase.header := rfl
      rw [joinHeader, if_pos named, if_neg some, joinedLine, DeriverSession.hits_cons, if_pos header,
        hits_filter_unnamed, List.append_nil]
      exact congrArg Option.toList hit
    | false =>
      have skip := DeriverSession.hits_skip (nothing_of_unnamed named)
      rw [joinHeader, if_neg (ne_true_of_eq_false named), skip, skip]
      exact ih

/-- A matcher that takes nothing from the lines with the name does not see them joined. -/
lemma hits_joinHeader_other (colon : 58 ∉ name) {m : Matcher}
    (other : ∀ l, isNamed name l = true → m.phase = l.1 → m.tryMatch l.2 = none) (ls : Lines) :
    DeriverSession.hits (joinHeader name ls) m = DeriverSession.hits ls m := by
  induction ls with
  | nil => rfl
  | cons l ls ih =>
    cases named : isNamed name l with
    | true =>
      have joined := other _ (isNamed_joinedLine colon (trimmed_hits name (l :: ls)))
      have dropped : DeriverSession.hits (ls.filter (!isNamed name ·)) m = DeriverSession.hits ls m :=
        DeriverSession.hits_filter (fun l unnamed => other l (by simpa using unnamed)) ls
      rw [joinHeader, if_pos named, DeriverSession.hits_skip joined, dropped, DeriverSession.hits_skip (other l named)]
    | false =>
      rw [joinHeader, if_neg (ne_true_of_eq_false named), DeriverSession.hits_cons, DeriverSession.hits_cons, ih]

/-- A header with another name. -/
lemma other_headerName {name' : Bytes} (ne : eqIgnoreAsciiCase name name' = false) :
    ∀ l, isNamed name l = true → (Matcher.headerName name').phase = l.1 →
      (Matcher.headerName name').tryMatch l.2 = none := by
  rintro ⟨ph, data⟩ named -
  rw [isNamed, Bool.and_eq_true] at named
  obtain ⟨v, hit⟩ := Option.isSome_iff_exists.1 named.2
  obtain ⟨p, rest, rfl, hp, same, -⟩ := Matcher.tryMatch_headerName.1 hit
  cases hit' : (Matcher.headerName name').tryMatch (p ++ 58 :: rest) with
  | none => rfl
  | some w =>
    obtain ⟨p', rest', cut, hp', same', -⟩ := Matcher.tryMatch_headerName.1 hit'
    have len := memchr_append_cons (s := rest) hp
    rw [cut, memchr_append_cons hp'] at len
    have front : p' = p := (List.append_inj cut.symm (Option.some.inj len)).1
    rw [eqIgnoreAsciiCase, beq_iff_eq] at same same'
    rw [eqIgnoreAsciiCase, ← same, ← same', front, beq_self_eq_true] at ne
    cases ne

/-- The request line is no header. -/
lemma other_requestLineVersion :
    ∀ l, isNamed name l = true → Matcher.requestLineVersion.phase = l.1 →
      Matcher.requestLineVersion.tryMatch l.2 = none := by
  rintro ⟨ph, data⟩ named here
  rw [isNamed, Bool.and_eq_true, beq_iff_eq] at named
  exact nomatch here.trans named.1

/-- The first value of the joined header has the tokens of all values. -/
lemma head_joinHeader (colon : 58 ∉ name) (ls : Lines) (token : Bytes) :
    (DeriverSession.hits (joinHeader name ls) (Matcher.headerName name)).head?.any (hasConnectionToken · token) =
      (DeriverSession.hits ls (Matcher.headerName name)).any (hasConnectionToken · token) := by
  rw [hits_joinHeader colon]
  generalize DeriverSession.hits ls (Matcher.headerName name) = vs
  cases vs with
  | nil => rfl
  | cons v vs =>
    rw [if_neg (List.cons_ne_nil v vs)]
    exact hasConnectionToken_joinValues v vs token

end lines

/-! ## What the formulas read -/

/-- The resolution of a session that was fed the lines. -/
def resolveLines (ls : Lines) : HttpDerivationInput :=
  HttpDerivationInput.resolveAll ((DeriverSession.new HttpDerivationInput.allMatchers).feedAll ls)

/-- The values of all lines with the name. -/
def headerValues (name : Bytes) (ls : Lines) : List Bytes :=
  DeriverSession.hits ls (Matcher.headerName name)

/-- The message says `HTTP/1.0`. -/
def saysHttp10 (ls : Lines) : Bool :=
  (DeriverSession.hits ls Matcher.requestLineVersion).head?.any (· == http10)

/-- The framing without a transfer coding. -/
def plainFraming (ls : Lines) : BodyFramingMode :=
  match (headerValues (lit "Content-Length") ls).head? with
  | some cl => contentLengthFraming cl
  | none => if saysHttp10 ls then .untilClose else .none

/-- Without a transfer coding the framing is not chunked. -/
lemma plainFraming_ne_chunked (ls : Lines) : plainFraming ls ≠ .chunked := by
  rw [plainFraming]
  split
  · rw [contentLengthFraming]
    repeat' split
    all_goals nofun
  · split <;> nofun

/-- The framing is chunked when the first Transfer-Encoding has the token, and goes by the length otherwise. -/
lemma bodyFraming_resolveLines (ls : Lines) :
    (resolveLines ls).bodyFraming =
      if (headerValues (lit "Transfer-Encoding") ls).head?.any hasChunkedToken then .chunked else plainFraming ls := by
  rw [resolveLines, resolveAll_feedAll]
  rfl

/-- The mode that the tokens and the version say. -/
def connectionMode (close keepAlive old : Bool) : ConnectionMode :=
  if close then .close
  else if keepAlive then .keepAlive
  else if old then .close
  else .keepAlive

/-- The mode goes by the tokens of the first Connection line and by the version. -/
lemma connection_resolveLines (ls : Lines) :
    (resolveLines ls).connection =
      connectionMode ((headerValues (lit "Connection") ls).head?.any (hasConnectionToken · (lit "close")))
        ((headerValues (lit "Connection") ls).head?.any (hasConnectionToken · (lit "keep-alive"))) (saysHttp10 ls) := by
  rw [resolveLines, resolveAll_feedAll]
  rfl

/-- More tokens say the same when the first ones close, or keep alive, as all of them do. -/
lemma connectionMode_eq_iff : ∀ {anyClose anyKeep close keep old : Bool}, (close = true → anyClose = true) →
    (keep = true → anyKeep = true) →
    (connectionMode anyClose anyKeep old = connectionMode close keep old ↔
      (anyClose = true → close = true ∨ keep = false ∧ old = true) ∧
        (anyClose = false → anyKeep = true → keep = true ∨ old = false)) := by
  decide

/-! ## Joining -/

/-- The lines resolve to the same framing and connection mode with the lines of a header joined. -/
def Joins (name : Bytes) (ls : Lines) : Prop :=
  (resolveLines (joinHeader name ls)).bodyFraming = (resolveLines ls).bodyFraming ∧
    (resolveLines (joinHeader name ls)).connection = (resolveLines ls).connection

/-- The first value of each list header says what all of them say. -/
structure FirstDecides (ls : Lines) : Prop where
  /-- A coding is `chunked` in the first value if in any. -/
  chunked : ∀ v ∈ headerValues (lit "Transfer-Encoding") ls, hasChunkedToken v = true →
    (headerValues (lit "Transfer-Encoding") ls).head?.any hasChunkedToken = true
  /-- The first value closes, or says nothing where the version closes, if any value closes. -/
  close : ∀ v ∈ headerValues (lit "Connection") ls, hasConnectionToken v (lit "close") = true →
    (headerValues (lit "Connection") ls).head?.any (hasConnectionToken · (lit "close")) = true ∨
      (headerValues (lit "Connection") ls).head?.any (hasConnectionToken · (lit "keep-alive")) = false ∧
        saysHttp10 ls = true
  /-- The first value keeps alive, or the version does, if some value keeps alive and none closes. -/
  keepAlive : (∀ v ∈ headerValues (lit "Connection") ls, hasConnectionToken v (lit "close") = false) →
    ∀ v ∈ headerValues (lit "Connection") ls, hasConnectionToken v (lit "keep-alive") = true →
      (headerValues (lit "Connection") ls).head?.any (hasConnectionToken · (lit "keep-alive")) = true ∨
        saysHttp10 ls = false

/-- Joining the lines of one name leaves the values of the others as they are. -/
lemma headerValues_joinHeader_other {name name' : Bytes} (colon : 58 ∉ name)
    (ne : eqIgnoreAsciiCase name name' = false) (ls : Lines) :
    headerValues name' (joinHeader name ls) = headerValues name' ls :=
  hits_joinHeader_other colon (other_headerName ne) ls

/-- Joining lines leaves the version as it is. -/
lemma saysHttp10_joinHeader {name : Bytes} (colon : 58 ∉ name) (ls : Lines) :
    saysHttp10 (joinHeader name ls) = saysHttp10 ls := by
  rw [saysHttp10, hits_joinHeader_other colon other_requestLineVersion]
  rfl

/-- Joining the lines of another name leaves the length as it is. -/
lemma plainFraming_joinHeader {name : Bytes} (colon : 58 ∉ name)
    (ne : eqIgnoreAsciiCase name (lit "Content-Length") = false) (ls : Lines) :
    plainFraming (joinHeader name ls) = plainFraming ls := by
  rw [plainFraming, headerValues_joinHeader_other colon ne, saysHttp10_joinHeader colon]
  rfl

/-- All values have what the first one has. -/
lemma any_of_head {vs : List Bytes} {p : Bytes → Bool} (first : vs.head?.any p = true) : vs.any p = true := by
  cases vs with
  | nil => cases first
  | cons v vs =>
    rw [List.any_cons, Bool.or_eq_true]
    exact .inl first

/-- What follows from some value follows from each. -/
lemma any_imp_iff {vs : List Bytes} {p : Bytes → Bool} {q : Prop} :
    (vs.any p = true → q) ↔ ∀ v ∈ vs, p v = true → q := by
  rw [List.any_eq_true]
  exact ⟨fun h v mem has => h ⟨v, mem, has⟩, fun h ⟨v, mem, has⟩ => h v mem has⟩

/-- The transfer codings may be joined. -/
lemma joins_transferEncoding (ls : Lines) :
    Joins (lit "Transfer-Encoding") ls ↔
      ∀ v ∈ headerValues (lit "Transfer-Encoding") ls, hasChunkedToken v = true →
        (headerValues (lit "Transfer-Encoding") ls).head?.any hasChunkedToken = true := by
  have colon : 58 ∉ lit "Transfer-Encoding" := by decide
  have conn := headerValues_joinHeader_other colon (show eqIgnoreAsciiCase _ (lit "Connection") = false by rfl) ls
  have ver := saysHttp10_joinHeader colon ls
  have plain := plainFraming_joinHeader colon (show eqIgnoreAsciiCase _ (lit "Content-Length") = false by rfl) ls
  have joined : (headerValues (lit "Transfer-Encoding") (joinHeader (lit "Transfer-Encoding") ls)).head?.any
      hasChunkedToken = (headerValues (lit "Transfer-Encoding") ls).any hasChunkedToken :=
    head_joinHeader colon ls _
  rw [Joins, connection_resolveLines, connection_resolveLines, conn, ver, and_iff_left rfl,
    bodyFraming_resolveLines, bodyFraming_resolveLines, joined, plain]
  rw [← any_imp_iff]
  constructor
  · intro same some
    rw [if_pos some] at same
    by_contra first
    rw [if_neg first] at same
    exact plainFraming_ne_chunked ls same.symm
  · intro decides
    rw [Bool.eq_iff_iff.2 ⟨decides, any_of_head⟩]

/-- The connection options may be joined. -/
lemma joins_connection (ls : Lines) :
    Joins (lit "Connection") ls ↔
      (∀ v ∈ headerValues (lit "Connection") ls, hasConnectionToken v (lit "close") = true →
        (headerValues (lit "Connection") ls).head?.any (hasConnectionToken · (lit "close")) = true ∨
          (headerValues (lit "Connection") ls).head?.any (hasConnectionToken · (lit "keep-alive")) = false ∧
            saysHttp10 ls = true) ∧
      ((∀ v ∈ headerValues (lit "Connection") ls, hasConnectionToken v (lit "close") = false) →
        ∀ v ∈ headerValues (lit "Connection") ls, hasConnectionToken v (lit "keep-alive") = true →
          (headerValues (lit "Connection") ls).head?.any (hasConnectionToken · (lit "keep-alive")) = true ∨
            saysHttp10 ls = false) := by
  have colon : 58 ∉ lit "Connection" := by decide
  have te := headerValues_joinHeader_other colon
    (show eqIgnoreAsciiCase _ (lit "Transfer-Encoding") = false by rfl) ls
  have ver := saysHttp10_joinHeader colon ls
  have plain := plainFraming_joinHeader colon (show eqIgnoreAsciiCase _ (lit "Content-Length") = false by rfl) ls
  have joined : ∀ token, (headerValues (lit "Connection") (joinHeader (lit "Connection") ls)).head?.any
      (hasConnectionToken · token) = (headerValues (lit "Connection") ls).any (hasConnectionToken · token) :=
    head_joinHeader colon ls
  rw [Joins, bodyFraming_resolveLines, bodyFraming_resolveLines, te, plain, and_iff_right rfl,
    connection_resolveLines, connection_resolveLines, joined, joined, ver]
  generalize headerValues (lit "Connection") ls = vs
  generalize saysHttp10 ls = old
  have none : vs.any (hasConnectionToken · (lit "close")) = false ↔
      ∀ v ∈ vs, hasConnectionToken v (lit "close") = false := by
    rw [List.any_eq_false]
    exact forall₂_congr fun v _ => Bool.not_eq_true _ ▸ Iff.rfl
  rw [connectionMode_eq_iff any_of_head any_of_head, any_imp_iff, none]
  exact and_congr_right' (imp_congr_right fun _ => any_imp_iff)

/-- The lines of list headers may be joined exactly when the first line of each says what all of them say. -/
theorem joins_iff_firstDecides (ls : Lines) :
    Joins (lit "Transfer-Encoding") ls ∧ Joins (lit "Connection") ls ↔ FirstDecides ls := by
  rw [joins_transferEncoding, joins_connection]
  exact ⟨fun ⟨chunked, close, keepAlive⟩ => ⟨chunked, close, keepAlive⟩,
    fun decides => ⟨decides.chunked, decides.close, decides.keepAlive⟩⟩

/-- A coding on a second line is not seen. -/
theorem not_joins_chunked_second :
    ¬ ∀ ls, Joins (lit "Transfer-Encoding") ls ∧ Joins (lit "Connection") ls := by
  intro all
  have chunked := (all [(.statusLine, lit "HTTP/1.1 200 OK\r\n"), (.header, lit "Transfer-Encoding: gzip\r\n"),
    (.header, lit "Transfer-Encoding: chunked\r\n")]).1.1
  exact absurd chunked (by decide)

end Railscale.Http
