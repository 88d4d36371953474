import Railscale.Http.Hook
import Railscale.Http.Message

/-!
# Content-Length values

What `BodyFramingFormula` makes of a `Content-Length` value, against `1*DIGIT`. The value goes through UTF-8
decoding, `str::trim` and `str::parse::<usize>`, so that a `+` in front of the number and white space of any kind
around it are read over (`rfcLength_iff_undecorated`). A value that cannot be read makes the framing `Invalid`,
and `HttpDeriverHook::validate` does not look at the framing (`accepts_usable_iff`).
-/

namespace Railscale.Http

open Bytes

/-- The length that is read from a value: a number as the integer parser spells it, with any white space around
it. -/
def ReadsLength (v : Bytes) (n : Nat) : Prop := ∃ s, Str.fromUtf8 v = some s ∧ Str.Padded 10 s n

/-- A number below `2 ^ 64` with a `+` in front of it, or with white space around it. -/
def Decorated (v : Bytes) : Prop :=
  ∃ lead num trail n, Str.fromUtf8 v = some (lead ++ num ++ trail) ∧ (∀ c ∈ lead, Str.isWhitespace c = true) ∧
    (∀ c ∈ trail, Str.isWhitespace c = true) ∧ Str.Numeral 10 num n ∧
    (lead ≠ [] ∨ num.head? = some 43 ∨ trail ≠ [])

/-! ## The framing of a value -/

/-- The framing has a length when the value reads as that length. -/
lemma contentLengthFraming_fixed {v : Bytes} {n : Nat} : contentLengthFraming v = .fixed n ↔ ReadsLength v n := by
  rw [contentLengthFraming, ReadsLength]
  cases Str.fromUtf8 v with
  | none => exact iff_of_false nofun (by rintro ⟨s, h, -⟩; cases h)
  | some s =>
    have parses : Str.fromStrRadix 10 (Str.trim s) = some n ↔ Str.Padded 10 s n := Str.fromStrRadix_trim (by decide)
    constructor
    · intro h
      refine ⟨s, rfl, parses.1 ?_⟩
      cases parsed : Str.fromStrRadix 10 (Str.trim s) with
      | none => simp [Str.parseUsize, parsed] at h
      | some m =>
        simp only [Str.parseUsize, parsed, BodyFramingMode.fixed.injEq] at h
        rw [h]
    · rintro ⟨s', h, padded⟩
      cases h
      simp [Str.parseUsize, parses.2 padded]

/-- The framing is invalid when the value reads as no length. -/
lemma contentLengthFraming_invalid {v : Bytes} : contentLengthFraming v = .invalid ↔ ∀ n, ¬ ReadsLength v n := by
  constructor
  · intro h n reads
    rw [contentLengthFraming_fixed.2 reads] at h
    cases h
  · intro unread
    have notFixed : ∀ n, contentLengthFraming v ≠ .fixed n := fun n h => unread n (contentLengthFraming_fixed.1 h)
    cases text : Str.fromUtf8 v with
    | none => simp [contentLengthFraming, text]
    | some s =>
      cases parsed : Str.parseUsize (Str.trim s) with
      | none => simp [contentLengthFraming, text, parsed]
      | some n => exact absurd (by simp [contentLengthFraming, text, parsed]) (notFixed n)

/-! ## Decimal digits -/

/-- A decimal number has digits only, at least one, and their value. -/
lemma decimal_eq_some {v : Bytes} {n : Nat} :
    decimal v = some n ↔ v ≠ [] ∧ (∀ b ∈ v, (Str.toDigit 10 b.toNat).isSome) ∧
      Str.value 10 (v.map UInt8.toNat) = n := by
  rw [decimal, Option.ite_none_right_eq_some, Option.some.injEq, and_assoc]

/-- An ASCII byte, as a number. -/
lemma toNat_lt_ascii {b : UInt8} (h : b.toNat < 0x80) : b < 0x80 := UInt8.lt_iff_toNat_lt.2 h

/-- Digits are read, without anything around them. -/
lemma fromUtf8_decimal {v : Bytes} {n : Nat} (h : decimal v = some n) (fits : n < Str.usizeBound) :
    Str.fromUtf8 v = some (v.map UInt8.toNat) ∧ Str.Numeral 10 (v.map UInt8.toNat) n := by
  obtain ⟨ne, digits, rfl⟩ := decimal_eq_some.1 h
  have ascii : ∀ b ∈ v, b < 0x80 := by
    intro b hb
    have shape := Str.toDigit_cases (digits b hb)
    exact toNat_lt_ascii (by omega)
  have text := Str.fromUtf8_ascii ascii []
  rw [List.append_nil] at text
  refine ⟨text.trans ?_, @Str.Numeral.mk 10 [] (v.map UInt8.toNat) (.inl rfl) ?_ ?_ fits⟩
  · simp [Str.fromUtf8]
  · exact fun e => ne (List.map_eq_nil_iff.1 e)
  · intro c hc
    obtain ⟨b, hb, rfl⟩ := List.mem_map.1 hc
    exact digits b hb

/-- A decimal number that fits reads as itself. -/
lemma readsLength_decimal {v : Bytes} {n : Nat} (h : decimal v = some n) (fits : n < Str.usizeBound) :
    ReadsLength v n := by
  obtain ⟨text, num⟩ := fromUtf8_decimal h fits
  exact ⟨_, text, [], _, [], (List.append_nil _).symm, nofun, nofun, num⟩

/-- A value is read when it is a decorated number, or decimal digits. -/
lemma ReadsLength.decimal {v : Bytes} {n : Nat} (reads : ReadsLength v n) (plain : ¬ Decorated v) :
    decimal v = some n ∧ n < Str.usizeBound := by
  obtain ⟨s, text, lead, num, trail, rfl, hl, ht, numeral⟩ := reads
  have bare : ∀ shape : lead ≠ [] ∨ num.head? = some 43 ∨ trail ≠ [], False :=
    fun shape => plain ⟨lead, num, trail, n, text, hl, ht, numeral, shape⟩
  obtain rfl : lead = [] := by
    by_contra ne
    exact bare (.inl ne)
  obtain rfl : trail = [] := by
    by_contra ne
    exact bare (.inr (.inr ne))
  have unsigned : num.head? ≠ some 43 := fun e => bare (.inr (.inl e))
  rw [List.nil_append, List.append_nil] at text
  have bytes := Str.ascii_of_fromUtf8 text fun c hc => (numeral.plain c hc).2
  obtain ⟨sign, ne, digits, fits⟩ := numeral
  rcases sign with rfl | rfl
  · refine ⟨decimal_eq_some.2 ⟨?_, ?_, by rw [bytes]; rfl⟩, fits⟩
    · rintro rfl
      exact ne bytes.symm
    · intro b hb
      refine digits b.toNat ?_
      rw [List.nil_append] at bytes
      rw [← bytes]
      exact List.mem_map_of_mem hb
  · exact absurd rfl unsigned

/-- A number with a sign or with white space around it reads as a length. -/
lemma Decorated.readsLength {v : Bytes} (dec : Decorated v) : ∃ n, ReadsLength v n := by
  obtain ⟨lead, num, trail, n, text, hl, ht, numeral, -⟩ := dec
  exact ⟨n, _, text, lead, num, trail, rfl, hl, ht, numeral⟩

/-- A decorated number is not just digits. -/
lemma Decorated.not_decimal {v : Bytes} (dec : Decorated v) {n : Nat} (h : decimal v = some n)
    (fits : n < Str.usizeBound) : False := by
  obtain ⟨lead, num, trail, m, text, hl, ht, numeral, shape⟩ := dec
  obtain ⟨text', numeral'⟩ := fromUtf8_decimal h fits
  obtain ⟨-, digits, -⟩ := decimal_eq_some.1 h
  have same : v.map UInt8.toNat = lead ++ num ++ trail := Option.some.inj (text'.symm.trans text)
  have noSpace : ∀ c ∈ lead ++ num ++ trail, Str.isWhitespace c = false := by
    rw [← same]
    exact fun c hc => (numeral'.plain c hc).1
  have noPlus : 43 ∉ lead ++ num ++ trail := by
    rw [← same]
    intro plus
    obtain ⟨b, hb, e⟩ := List.mem_map.1 plus
    exact (Str.toDigit_sign (digits b hb)).1 e
  rcases shape with ne | plus | ne
  · obtain ⟨c, hc⟩ := List.exists_mem_of_ne_nil lead ne
    have space := noSpace c (List.mem_append_left _ (List.mem_append_left _ hc))
    exact nomatch (hl c hc).symm.trans space
  · exact noPlus (List.mem_append_left _ (List.mem_append_right _ (List.mem_of_head? plus)))
  · obtain ⟨c, hc⟩ := List.exists_mem_of_ne_nil trail ne
    have space := noSpace c (List.mem_append_right _ hc)
    exact nomatch (ht c hc).symm.trans space

/-! ## Against the grammar -/

/-- The framing of a message with the values is the length that `1*DIGIT` gives, when it fits a `usize`, and
otherwise invalid. -/
structure RfcLength (v : Bytes) (te version : Option Bytes) : Prop where
  fixed : ∀ n, BodyFramingFormula.resolve [some v, te, version] = .fixed n ↔
    decimal v = some n ∧ n < Str.usizeBound
  invalid : (∀ n, decimal v = some n → ¬ n < Str.usizeBound) →
    BodyFramingFormula.resolve [some v, te, version] = .invalid

/-- Without the chunked token the framing is that of the length. -/
lemma resolve_length (v : Bytes) {te : Option Bytes} (unchunked : te.any hasChunkedToken = false)
    (version : Option Bytes) :
    BodyFramingFormula.resolve [some v, te, version] = contentLengthFraming v := by
  show (if te.any hasChunkedToken then BodyFramingMode.chunked else contentLengthFraming v) = contentLengthFraming v
  rw [unchunked]
  rfl

/-- Without a chunked token a `Content-Length` value is read with the grammar exactly when it is not a number
with a `+` or with white space around it. -/
theorem rfcLength_iff_undecorated (v : Bytes) {te : Option Bytes} (unchunked : te.any hasChunkedToken = false)
    (version : Option Bytes) : RfcLength v te version ↔ ¬ Decorated v := by
  constructor
  · intro rfc dec
    obtain ⟨n, reads⟩ := dec.readsLength
    have framing : BodyFramingFormula.resolve [some v, te, version] = .fixed n := by
      rw [resolve_length v unchunked, contentLengthFraming_fixed]
      exact reads
    obtain ⟨digits, fits⟩ := (rfc.fixed n).1 framing
    exact dec.not_decimal digits fits
  · intro plain
    refine ⟨fun n => ?_, fun unread => ?_⟩
    · rw [resolve_length v unchunked, contentLengthFraming_fixed]
      exact ⟨fun reads => reads.decimal plain, fun h => readsLength_decimal h.1 h.2⟩
    · rw [resolve_length v unchunked, contentLengthFraming_invalid]
      intro n reads
      obtain ⟨digits, fits⟩ := reads.decimal plain
      exact unread n digits fits

/-- Plain digits. -/
theorem rfcLength_iff_undecorated_digits :
    (RfcLength (lit "0042") (some (lit "gzip")) none ↔ ¬ Decorated (lit "0042")) ∧
      BodyFramingFormula.resolve [some (lit "0042"), some (lit "gzip"), none] = .fixed 42 :=
  ⟨rfcLength_iff_undecorated _ (by decide +kernel) _, by decide +kernel⟩

/-- A sign in front of the number. -/
theorem not_rfcLength_plus :
    ¬ ∀ (v : Bytes) (te version : Option Bytes), trimOws v = v → te.any hasChunkedToken = false →
      RfcLength v te version := by
  intro all
  have rfc := all (lit "+5") none none (by decide +kernel) rfl
  obtain ⟨digits, -⟩ := (rfc.fixed 5).1 (by decide +kernel)
  exact absurd digits (by decide +kernel)

/-! ## Accepted requests -/

namespace HttpDeriverHook

/-- The framing of a head without a conflict. -/
lemma framing_of_length {fs : List HttpFrame} (ok : NoConflict fs) {f : HttpFrame} (mem : f ∈ fs) {v : Bytes}
    (named : Named (lit "Content-Length") f v) : (derive (fedLines fs)).bodyFraming = contentLengthFraming v := by
  have noTe : DeriverSession.hits (fedLines fs) Matcher.transferEncoding = [] := by
    by_contra ne
    obtain ⟨w, hw⟩ := List.exists_mem_of_ne_nil _ ne
    obtain ⟨g, hg, te⟩ := mem_hits_headerName.1 hw
    exact ok.clTe ⟨⟨f, mem, v, named⟩, ⟨g, hg, w, te⟩⟩
  have first : (DeriverSession.hits (fedLines fs) Matcher.contentLength).head? = some v := by
    have hit : v ∈ DeriverSession.hits (fedLines fs) Matcher.contentLength := mem_hits_headerName.2 ⟨f, mem, named⟩
    cases hits : DeriverSession.hits (fedLines fs) Matcher.contentLength with
    | nil =>
      rw [hits] at hit
      cases hit
    | cons w ws =>
      have hw : w ∈ DeriverSession.hits (fedLines fs) Matcher.contentLength := by
        rw [hits]
        exact List.mem_cons_self
      obtain ⟨g, hg, named'⟩ := mem_hits_headerName.1 hw
      rw [ok.header _ List.mem_cons_self g hg f mem w v named' named]
      rfl
  rw [derive]
  dsimp only
  rw [first, noTe]
  exact resolve_length v rfl _

/-- Without a Content-Length the framing is not invalid. -/
lemma framing_without_length {fs : List HttpFrame} (none : ∀ f ∈ fs, ∀ v, ¬ Named (lit "Content-Length") f v) :
    (derive (fedLines fs)).bodyFraming ≠ .invalid := by
  have noCl : DeriverSession.hits (fedLines fs) Matcher.contentLength = [] := by
    by_contra ne
    obtain ⟨w, hw⟩ := List.exists_mem_of_ne_nil _ ne
    obtain ⟨g, hg, named⟩ := mem_hits_headerName.1 hw
    exact none g hg w named
  have framing : (derive (fedLines fs)).bodyFraming =
      if (DeriverSession.hits (fedLines fs) Matcher.transferEncoding).head?.any hasChunkedToken then .chunked
      else if (DeriverSession.hits (fedLines fs) Matcher.requestLineVersion).head?.any (· == http10) then .untilClose
      else .none := by
    rw [derive, noCl]
    rfl
  rw [framing]
  split
  · rintro ⟨⟩
  · split
    · rintro ⟨⟩
    · rintro ⟨⟩

/-- An accepted head has a usable framing exactly when it has a conflict, so that it is not accepted, or every
`Content-Length` value that it carries can be read. -/
theorem accepts_usable_iff (fs : List HttpFrame) :
    ((fs.foldl onFrame new).validate = .ok () → (fs.foldl onFrame new).resolve.bodyFraming ≠ .invalid) ↔
      (NoConflict fs → ∀ f ∈ fs, ∀ v, Named (lit "Content-Length") f v → ∃ n, ReadsLength v n) := by
  rw [validate_eq_ok, resolve_onFrames]
  constructor
  · intro usable ok f mem v named
    have valid := usable ok
    rw [framing_of_length ok mem named, ne_eq, contentLengthFraming_invalid] at valid
    exact not_forall_not.1 valid
  · intro readable ok
    by_cases length : ∃ f ∈ fs, ∃ v, Named (lit "Content-Length") f v
    · obtain ⟨f, mem, v, named⟩ := length
      rw [framing_of_length ok mem named, ne_eq, contentLengthFraming_invalid]
      exact not_forall_not.2 (readable ok f mem v named)
    · refine framing_without_length fun f mem v named => length ⟨f, mem, v, named⟩

/-- A length that is not a number. -/
theorem not_usable_letters :
    ¬ ∀ fs : List HttpFrame,
      (fs.foldl onFrame new).validate = .ok () → (fs.foldl onFrame new).resolve.bodyFraming ≠ .invalid := by
  intro usable
  refine usable [.requestLine (lit "POST / HTTP/1.1\r\n"), .header (lit "Content-Length: abc\r\n")] ?_ ?_
  · decide +kernel
  · decide +kernel

end HttpDeriverHook

end Railscale.Http
