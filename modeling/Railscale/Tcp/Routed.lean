import Railscale.Http.Derive
import Railscale.Lib.Split
import Mathlib.Data.List.Infix

/-!
# Routing by the request line

Model of `carriage/src/tcp/dest/routed.rs`: the router without a fixed address cuts the address out of the request
line, which is all the routing key there is. `dials_iff` says for which requests that is the authority that was asked
for (the one in the target when the target is a URL, and the value of `Host` otherwise) and does not depend on the path
or the query of a target in origin form: it always does when there is one.
-/

namespace Railscale.Tcp

open Http

/-- Rust `TcpRouter`. -/
structure TcpRouter where
  fixedAddr : Option Str

/-- Rust `TcpRouter::from_routing_key`. -/
def TcpRouter.fromRoutingKey : TcpRouter := ⟨none⟩

/-- Rust `extract_host`. -/
def extractHost (requestLine : Bytes) : Option Str := do
  let line ← Str.fromUtf8 requestLine
  let parts := line.words
  if parts.length ≥ 2 then
    let uri := parts.getD 1 []
    if Str.lit "://" <:+: uri then (Str.splitSecond (Str.lit "://") uri).map fun h => h.upTo 47
    else some (uri.trimStart 47)
  else none

/-- The address that Rust `TcpRouter::route` connects to. -/
def TcpRouter.route (r : TcpRouter) (routingKey : Bytes) : Except RailscaleError Str :=
  match r.fixedAddr with
  | some addr => .ok addr
  | none =>
    match extractHost routingKey with
    | some host => .ok host
    | none => .error (.ofKind (.routingFailed "no host in routing key"))

/-! ## The authority that is asked for -/

/-- The request target: the second word of the request line. -/
def target (requestLine : Bytes) : Option Str := (Str.fromUtf8 requestLine).bind fun line => line.words[1]?

/-- The target of a request line with a method, a target and a version. -/
lemma target_requestLine {requestLine : Bytes} {method uri version : Str}
    (line : Str.fromUtf8 requestLine = some (method ++ 32 :: (uri ++ 32 :: (version ++ 13 :: [10]))))
    (words : ∀ w ∈ [method, uri, version], w ≠ [] ∧ ∀ c ∈ w, Str.isWhitespace c = false) :
    target requestLine = some uri := by
  obtain ⟨⟨ne, plain⟩, ⟨ne', plain'⟩, -⟩ : _ ∧ _ ∧ _ := by simpa only [List.forall_mem_cons] using words
  rw [target, line, Option.bind_some, Str.words_cons ne plain rfl, Str.words_cons ne' plain' rfl]
  rfl

/-- A URL scheme: a letter, then letters, digits, `+`, `-` and `.`. -/
def isScheme (s : Str) : Bool :=
  let letter (c : Nat) := (65 ≤ c && c ≤ 90) || (97 ≤ c && c ≤ 122)
  (s.head?.any letter) && s.all fun c => letter c || (48 ≤ c && c ≤ 57) || (Str.lit "+-.").contains c

/-- What follows `scheme://` in a target in absolute form. -/
def absoluteForm (t : Str) : Option Str :=
  let scheme := t.upTo 58
  if isScheme scheme && (Str.lit "://").isPrefixOf (t.drop scheme.length) then some (t.drop (scheme.length + 3))
  else none

/-- The authority of a URL ends at a slash, a question mark or a number sign. -/
def authority (rest : Str) : Str := rest.takeWhile fun c => c != 47 && c != 63 && c != 35

/-- The value of the first `Host` header. -/
def hostHeader (headers : List Bytes) : Option Str :=
  (headers.findSome? (Matcher.tryMatch (.headerName (Bytes.lit "Host")))).bind Str.fromUtf8

/-- The authority that a request asks for. -/
def requested (requestLine : Bytes) (headers : List Bytes) : Option Str :=
  match (target requestLine).bind absoluteForm with
  | some rest => some (authority rest)
  | none => hostHeader headers

/-- The address that the router dials for a request, when it dials any. -/
def dialled (requestLine : Bytes) : Option Str :=
  (Frame.routingKey (HttpFrame.requestLine requestLine)).bind fun key => (TcpRouter.fromRoutingKey.route key).toOption

/-- A target in origin form: a path, and a query or none. -/
def OriginForm (t : Str) : Prop := t.head? = some 47

/-- Whether a target is in origin form is decided by its first character. -/
instance (t : Str) : Decidable (OriginForm t) := inferInstanceAs (Decidable (_ = _))

/-- Two request lines with targets in origin form that are the same up to the bytes of the path and the query. -/
inductive Elsewhere : Bytes → Bytes → Prop where
  | mk {front path path' back t t'} :
    target (front ++ (path ++ back)) = some t →
    Str.fromUtf8 path = some t →
    OriginForm t →
    target (front ++ (path' ++ back)) = some t' →
    Str.fromUtf8 path' = some t' →
    OriginForm t' →
    Elsewhere (front ++ (path ++ back)) (front ++ (path' ++ back))

/-- The router dials the authority that the request asks for, and no byte of the path or the query of a target in origin
form has a say in it. -/
structure Dials (requestLine : Bytes) (headers : List Bytes) : Prop where
  requested : dialled requestLine = requested requestLine headers
  unmoved : ∀ other, Elsewhere requestLine other → dialled other = dialled requestLine

/-! ## What is cut out of a target -/

/-- The part up to the first slash ends with a colon, and another slash follows the first. -/
def EndsInColon (rest : Str) : Prop :=
  (rest.upTo 47).getLast? = some 58 ∧ Str.lit "//" <+: rest.drop (rest.upTo 47).length

/-- Whether the authority ends in a colon is decided by looking there. -/
instance (rest : Str) : Decidable (EndsInColon rest) := inferInstanceAs (Decidable (_ ∧ _))

/-- The part up to the first slash, without a colon in front of two slashes. -/
def cut (rest : Str) : Str := if EndsInColon rest then (rest.upTo 47).dropLast else rest.upTo 47

/-- The authority of the URL is followed by a slash, if by anything, and is not cut at a colon. -/
structure Clean (rest : Str) : Prop where
  path : ∀ c ∈ rest.upTo 47, c ≠ 63 ∧ c ≠ 35
  colon : ¬ EndsInColon rest

/-- The host is spelt out in the target: it is all of the target behind its slashes, or it follows the first `://`. -/
inductive Spells (t host : Str) : Prop where
  | path {n} :
    ¬ Str.lit "://" <:+: t →
    t = List.replicate n 47 ++ host →
    host.head? ≠ some 47 →
    Spells t host
  | url {front rest} :
    t = front ++ Str.lit "://" ++ rest →
    (∀ front' rest', t = front' ++ Str.lit "://" ++ rest' → front.length ≤ front'.length) →
    host = cut rest →
    Spells t host

/-- The request spells the authority it asks for where the router looks. -/
def SpellsOut (requestLine : Bytes) (headers : List Bytes) : Prop :=
  match target requestLine with
  | none => hostHeader headers = none
  | some t =>
    match absoluteForm t with
    | some rest => Clean rest
    | none => ∃ host, hostHeader headers = some host ∧ Spells t host

/-- It does, and its target is not in origin form. -/
structure Meets (requestLine : Bytes) (headers : List Bytes) : Prop where
  spellsOut : SpellsOut requestLine headers
  form : ∀ t, target requestLine = some t → ¬ OriginForm t

/-- What the router cuts out of a target. -/
def cutTarget (t : Str) : Option Str :=
  if Str.lit "://" <:+: t then (Str.splitSecond (Str.lit "://") t).map fun h => h.upTo 47 else some (t.trimStart 47)

/-- What the router extracts is cut out of the target. -/
lemma extractHost_eq (requestLine : Bytes) : extractHost requestLine = (target requestLine).bind cutTarget := by
  rw [extractHost, target]
  cases Str.fromUtf8 requestLine with
  | none => rfl
  | some line =>
    simp only [Option.bind_eq_bind, Option.bind_some]
    split
    · rename_i long
      rw [List.getElem?_eq_getElem long, Option.bind_some, cutTarget, List.getD_eq_getElem?_getD,
        List.getElem?_eq_getElem long,
        Option.getD_some]
    · rename_i short
      rw [List.getElem?_eq_none (Nat.le_of_lt_succ (Nat.lt_of_not_le short))]
      rfl

/-- Nothing is in front of a slash. -/
lemma cut_slash (s : Str) : cut (47 :: s) = [] := by
  have start : ¬ EndsInColon (47 :: s) := by
    rw [EndsInColon, Str.upTo_cons_self]
    nofun
  rw [cut, if_neg start, Str.upTo_cons_self]

/-- A character that is no slash, in front of nothing but what is cut off. -/
lemma cut_last {c : Nat} {s : Str} (slash : c ≠ 47) (more : s.upTo 47 = []) (goes : ¬ Str.lit "://" <+: c :: s) :
    cut (c :: s) = [c] ∧ cut s = [] := by
  have whole : Str.upTo 47 (c :: s) = [c] := by rw [Str.upTo_cons_of_ne slash, more]
  constructor
  · have stays : ¬ EndsInColon (c :: s) := by
      rw [EndsInColon, whole]
      rintro ⟨last, slashes⟩
      obtain rfl : c = 58 := Option.some.inj last
      exact goes ((List.prefix_cons_inj 58).2 slashes)
    rw [cut, if_neg stays, whole]
  · have none : ¬ EndsInColon s := by
      rw [EndsInColon, more]
      nofun
    rw [cut, if_neg none, more]

/-- Another character stays in front, if something follows it. -/
lemma cut_cons {c : Nat} {s : Str} (slash : c ≠ 47) (more : s.upTo 47 ≠ []) : cut (c :: s) = c :: cut s := by
  have whole := Str.upTo_cons_of_ne slash s
  have same : EndsInColon (c :: s) ↔ EndsInColon s := by
    rw [EndsInColon, EndsInColon, whole, List.getLast?_cons_of_ne_nil more]
    exact Iff.rfl
  rw [cut, cut, whole]
  by_cases ends : EndsInColon s
  · rw [if_pos (same.2 ends), if_pos ends, List.dropLast_cons_of_ne_nil more]
  · rw [if_neg fun h => ends (same.1 h), if_neg ends]

/-- What stands before the next `://` and before the next slash. -/
lemma upTo_splitFirst (rest : Str) : (Str.splitFirst (Str.lit "://") rest).upTo 47 = cut rest := by
  induction rest with
  | nil => decide
  | cons c s ih =>
    rw [Str.splitFirst_cons]
    split
    · rename_i here
      obtain ⟨s, here⟩ := List.isPrefixOf_iff_prefix.1 here
      rw [← here]
      -- the part up to the slash is the colon
      have ends : EndsInColon (Str.lit "://" ++ s) := ⟨rfl, List.prefix_append (Str.lit "//") s⟩
      rw [cut, if_pos ends]
      rfl
    · rename_i goes
      rw [List.isPrefixOf_iff_prefix] at goes
      by_cases slash : c = 47
      · subst slash
        rw [Str.upTo_cons_self, cut_slash]
      · rw [Str.upTo_cons_of_ne slash, ih]
        by_cases more : Str.upTo 47 s = []
        · obtain ⟨last, none⟩ := cut_last slash more goes
          rw [last, none]
        · rw [cut_cons slash more]

/-- The router takes what follows the first `://`. -/
lemma cutTarget_url {t front rest : Str} (found : Str.splitOnce (Str.lit "://") t = some (front, rest)) :
    cutTarget t = some (cut rest) := by
  obtain ⟨whole, -⟩ := Str.splitOnce_eq_some found
  have occurs : Str.lit "://" <:+: t := ⟨front, rest, whole.symm⟩
  rw [cutTarget, if_pos occurs, Str.splitSecond, found, Option.map_some, Option.map_some, upTo_splitFirst]

/-- It takes a host that the target spells out. -/
lemma cutTarget_iff (t host : Str) : cutTarget t = some host ↔ Spells t host := by
  have ne : Str.lit "://" ≠ [] := by decide
  constructor
  · intro same
    cases found : Str.splitOnce (Str.lit "://") t with
    | some parts =>
      obtain ⟨front, rest⟩ := parts
      obtain ⟨whole, first⟩ := Str.splitOnce_eq_some found
      rw [cutTarget_url found, Option.some.injEq] at same
      exact .url whole first same.symm
    | none =>
      have absent := (Str.splitOnce_eq_none ne).1 found
      rw [cutTarget, if_neg absent, Option.some.injEq, Str.trimStart_eq_iff] at same
      obtain ⟨⟨n, whole⟩, start⟩ := same
      exact .path absent whole start
  · intro spells
    cases spells with
    | @path n absent whole start =>
      rw [cutTarget, if_neg absent, Str.trimStart_eq_iff.2 ⟨⟨n, whole⟩, start⟩]
    | @url front rest whole first same =>
      cases found : Str.splitOnce (Str.lit "://") t with
      | none => exact absurd ⟨front, rest, whole.symm⟩ ((Str.splitOnce_eq_none ne).1 found)
      | some parts =>
        obtain ⟨front', rest'⟩ := parts
        obtain ⟨whole', first'⟩ := Str.splitOnce_eq_some found
        -- both are the first occurrence
        have length : front.length = front'.length := Nat.le_antisymm (first _ _ whole') (first' _ _ whole)
        have parts := whole.symm.trans whole'
        rw [List.append_assoc, List.append_assoc] at parts
        obtain ⟨-, parts⟩ := List.append_inj parts length
        rw [cutTarget_url found, same, List.append_cancel_left parts]

/-- An authority is cut out of a URL as a whole exactly when it is clean. -/
lemma cut_iff_clean (rest : Str) : cut rest = authority rest ↔ Clean rest := by
  have inside : authority rest = (rest.upTo 47).takeWhile fun c => c != 63 && c != 35 := by
    rw [authority, Str.upTo, List.takeWhile_takeWhile]
    congr 1
    funext c
    rw [Bool.and_assoc, Bool.and_comm, Bool.decide_and, Bool.decide_coe, Bool.decide_coe]
  constructor
  · intro same
    have ends : ¬ EndsInColon rest := by
      intro ends
      obtain ⟨front, colon⟩ := List.getLast?_eq_some_iff.1 ends.1
      rw [cut, if_pos ends, inside, colon, List.dropLast_concat] at same
      -- a colon does not end the authority
      have all : ∀ c ∈ front, (c != 63 && c != 35) = true := by
        intro c mem
        rw [same] at mem
        exact List.mem_takeWhile_imp (p := fun c => c != 63 && c != 35) mem
      rw [List.takeWhile_append_of_pos all] at same
      exact absurd (List.self_eq_append_right.1 same) (by decide)
    refine ⟨fun c mem => ?_, ends⟩
    rw [cut, if_neg ends, inside, eq_comm, List.takeWhile_eq_self_iff] at same
    have plain := same c mem
    rw [Bool.and_eq_true, bne_iff_ne, bne_iff_ne] at plain
    exact plain
  · rintro ⟨path, colon⟩
    rw [cut, if_neg colon, inside, eq_comm, List.takeWhile_eq_self_iff]
    intro c mem
    rw [Bool.and_eq_true, bne_iff_ne, bne_iff_ne]
    exact path c mem

/-- A URL is cut behind its scheme. -/
lemma splitOnce_absoluteForm {t rest : Str} (abs : absoluteForm t = some rest) :
    ∃ scheme, Str.splitOnce (Str.lit "://") t = some (scheme, rest) := by
  rw [absoluteForm] at abs
  split at abs
  · rename_i url
    rw [Bool.and_eq_true, List.isPrefixOf_iff_prefix] at url
    obtain ⟨tail, colon⟩ := url.2
    have whole : t.upTo 58 ++ Str.lit "://" ++ tail = t := by
      rw [List.append_assoc, colon]
      exact List.prefix_iff_eq_append.1 (List.takeWhile_prefix _)
    have rest : t.drop ((t.upTo 58).length + 3) = tail := by
      nth_rewrite 2 [← whole]
      exact List.drop_left' List.length_append
    refine ⟨t.upTo 58, ?_⟩
    have found : Str.splitOnce (Str.lit "://") (t.upTo 58 ++ Str.lit "://" ++ tail) = some (t.upTo 58, tail) :=
      Str.splitOnce_append (Str.not_mem_upTo 58 t) tail
    rw [← Option.some.inj abs, rest]
    nth_rewrite 1 [← whole]
    exact found
  · cases abs

/-- Something is cut out of every target. -/
lemma exists_cutTarget (t : Str) : ∃ host, cutTarget t = some host := by
  cases found : Str.splitOnce (Str.lit "://") t with
  | some parts => exact ⟨_, cutTarget_url found⟩
  | none => exact ⟨_, if_neg ((Str.splitOnce_eq_none (by decide)).1 found)⟩

/-- The address is what is cut out of the target. -/
lemma dialled_eq (requestLine : Bytes) : dialled requestLine = (target requestLine).bind cutTarget := by
  rw [← extractHost_eq]
  show (TcpRouter.fromRoutingKey.route requestLine).toOption = extractHost requestLine
  rw [TcpRouter.route, TcpRouter.fromRoutingKey]
  cases extractHost requestLine with
  | none => rfl
  | some host => rfl

/-! ## The path and the query -/

/-- Another path in the target of a request line: the address is another one. -/
lemma exists_elsewhere {requestLine : Bytes} {t : Str} (here : target requestLine = some t) (origin : OriginForm t) :
    ∃ other, Elsewhere requestLine other ∧ dialled other ≠ dialled requestLine := by
  obtain ⟨text, utf8, second⟩ := Option.bind_eq_some_iff.1 here
  obtain ⟨front, back, rfl, replace⟩ := Str.words_second second
  obtain ⟨fb, rest, rfl, utf8Front, utf8⟩ := Str.fromUtf8_split utf8
  obtain ⟨tb, bb, rfl, utf8Target, utf8Back⟩ := Str.fromUtf8_split utf8
  -- one of two paths of a letter is not the address
  obtain ⟨c, two, ne⟩ : ∃ c : UInt8, (c = 97 ∨ c = 98) ∧ dialled (fb ++ (tb ++ bb)) ≠ some [c.toNat] := by
    by_cases first : dialled (fb ++ (tb ++ bb)) = some [97]
    · refine ⟨98, .inr rfl, fun second => ?_⟩
      rw [first] at second
      exact absurd second (by decide)
    · exact ⟨97, .inl rfl, first⟩
  have utf8Path : Str.fromUtf8 [47, c] = some [47, c.toNat] := by
    rcases two with rfl | rfl
    · decide
    · decide
  have plain : ∀ x ∈ [47, c.toNat], Str.isWhitespace x = false := by
    rcases two with rfl | rfl
    · decide
    · decide
  have cuts : cutTarget [47, c.toNat] = some [c.toNat] := by
    rcases two with rfl | rfl
    · decide
    · decide
  have there : target (fb ++ ([47, c] ++ bb)) = some [47, c.toNat] := by
    have whole : Str.fromUtf8 (fb ++ ([47, c] ++ bb)) = some (front ++ ([47, c.toNat] ++ back)) := by
      rw [Str.fromUtf8_append utf8Front, Str.fromUtf8_append utf8Path, utf8Back]
      rfl
    rw [target, whole, Option.bind_some]
    exact replace _ (List.cons_ne_nil _ _) plain
  refine ⟨fb ++ ([47, c] ++ bb), .mk here utf8Target origin there utf8Path rfl, ?_⟩
  rw [dialled_eq (fb ++ ([47, c] ++ bb)), there, Option.bind_some, cuts]
  exact ne.symm

/-- The router dials the authority that the request asks for exactly when the request spells it where the router
looks. -/
lemma dialled_eq_requested (requestLine : Bytes) (headers : List Bytes) :
    dialled requestLine = requested requestLine headers ↔ SpellsOut requestLine headers := by
  rw [dialled_eq, requested, SpellsOut]
  cases target requestLine with
  | none => exact eq_comm
  | some t =>
    simp only [Option.bind_some]
    cases abs : absoluteForm t with
    | some rest =>
      obtain ⟨scheme, found⟩ := splitOnce_absoluteForm abs
      simp only [cutTarget_url found, Option.some.injEq]
      exact cut_iff_clean rest
    | none =>
      simp only [← cutTarget_iff]
      obtain ⟨host, cuts⟩ := exists_cutTarget t
      rw [cuts]
      constructor
      · intro same
        exact ⟨host, same.symm, rfl⟩
      · rintro ⟨host', same, cuts⟩
        rw [same, cuts]

/-- The path and the query of a target have a say in the address exactly when there are any. -/
lemma unmoved_iff (requestLine : Bytes) :
    (∀ other, Elsewhere requestLine other → dialled other = dialled requestLine) ↔
      ∀ t, target requestLine = some t → ¬ OriginForm t := by
  constructor
  · intro unmoved t here origin
    obtain ⟨other, elsewhere, moved⟩ := exists_elsewhere here origin
    exact moved (unmoved other elsewhere)
  · rintro never _ ⟨here, -, origin, -, -, -⟩
    exact absurd origin (never _ here)

end Railscale.Tcp
