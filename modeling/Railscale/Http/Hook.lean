import Railscale.Http.Derive

/-!
# The HTTP deriver hook

Model of `carriage/src/http/hook.rs`: the hook that feeds every line of a head to a session and
rejects a head with conflicting lines. `HttpDeriverHook.validate_onFrames` gives the verdict as a
function of the lines, and `validate_eq_ok` states it without the session: no message carries both
length headers, and no two lines disagree about one of the four derived values.
-/

namespace Railscale.Http

open Bytes

/-- Rust `HttpDeriverHook`. -/
structure HttpDeriverHook where
  session : DeriverSession Matcher
  deriving DecidableEq

namespace HttpDeriverHook

/-- Rust `HttpDeriverHook::new`. -/
def new : HttpDeriverHook := ⟨.new HttpDerivationInput.allMatchers⟩

/-- Rust `HttpDeriverHook::resolve`. -/
def resolve (h : HttpDeriverHook) : HttpDerivationInput := .resolveAll h.session

/-- Rust `HttpDeriverHook::on_frame`. -/
def onFrame (h : HttpDeriverHook) (f : HttpFrame) : HttpDeriverHook :=
  if f.phase = .endOfHeaders ∨ f.phase = .body then h
  else ⟨h.session.feed f.phase f.data⟩

/-- Rust `HttpDeriverHook::validate`. -/
def validate (h : HttpDeriverHook) : Except RailscaleError Unit :=
  let derived := h.resolve
  if derived.clTeConflict then
    .error (.ofKind (.parse "Content-Length and Transfer-Encoding both present (request smuggling)"))
  else if derived.hasConflicts then
    .error (.ofKind (.parse "conflicting header values detected"))
  else .ok ()

/-- Rust `HttpDeriverHook::reset`. -/
def reset (_ : HttpDeriverHook) : HttpDeriverHook := new

/-- Rust `HttpDeriverHook::should_close_connection`. -/
def shouldCloseConnection (h : HttpDeriverHook) : Bool := h.resolve.connection == .close

/-- Rust `impl ConnectionHook<HttpFrame> for HttpDeriverHook`. -/
instance : ConnectionHook HttpDeriverHook HttpFrame := ⟨onFrame, validate, shouldCloseConnection⟩

/-- The lines a hook feeds to its session. -/
def fedLines (fs : List HttpFrame) : Lines :=
  (fs.filter fun f => f.phase != .endOfHeaders && f.phase != .body).map fun f => (f.phase, f.data)

/-- The session of a hook has been fed the lines of its frames. -/
lemma onFrames_session (h : HttpDeriverHook) (fs : List HttpFrame) :
    (fs.foldl onFrame h).session = h.session.feedAll (fedLines fs) := by
  induction fs generalizing h with
  | nil => rfl
  | cons f fs ih =>
    rw [List.foldl_cons, ih, onFrame]
    by_cases e : f.phase = .endOfHeaders ∨ f.phase = .body
    · rcases e with e | e <;> simp [fedLines, e]
    · rw [not_or] at e
      simp [fedLines, e.1, e.2, DeriverSession.feedAll]

/-- A fresh hook that saw the frames resolves to the derivation of their lines. -/
theorem resolve_onFrames (fs : List HttpFrame) :
    (fs.foldl onFrame new).resolve = derive (fedLines fs) := by
  rw [resolve, onFrames_session]
  exact resolveAll_feedAll _

/-! ## The verdict -/

/-- The frame is a header line with the name (the bytes before the first colon, in any case) and the
value (what follows, without the line ending and the white space around it). -/
def Named (name : Bytes) (f : HttpFrame) (value : Bytes) : Prop :=
  f.phase = .header ∧ ∃ p rest, f.data = p ++ 58 :: rest ∧ 58 ∉ p ∧
    eqIgnoreAsciiCase p name = true ∧ value = trimOws (stripCrlf rest)

/-- The frame is a request line whose bytes after the last space are the version. -/
def VersionToken (f : HttpFrame) (version : Bytes) : Prop :=
  f.phase = .requestLine ∧ ∃ p rest, f.data = p ++ sp :: rest ∧ sp ∉ rest ∧ version = stripCrlf rest

/-- No two lines of the head contradict each other. -/
structure NoConflict (fs : List HttpFrame) : Prop where
  clTe : ¬ ((∃ f ∈ fs, ∃ v, Named (lit "Content-Length") f v) ∧
    (∃ f ∈ fs, ∃ v, Named (lit "Transfer-Encoding") f v))
  header : ∀ name ∈ [lit "Content-Length", lit "Transfer-Encoding", lit "Connection"],
    ∀ f ∈ fs, ∀ g ∈ fs, ∀ v w, Named name f v → Named name g w → v = w
  version : ∀ f ∈ fs, ∀ g ∈ fs, ∀ v w, VersionToken f v → VersionToken g w → v = w

/-- The hits of a matcher whose phase the hook does not skip are what it takes from the frames. -/
lemma mem_hits {fs : List HttpFrame} {m : Matcher} {v : Bytes}
    (ph : m.phase ≠ .endOfHeaders ∧ m.phase ≠ .body) :
    v ∈ DeriverSession.hits (fedLines fs) m ↔
      ∃ f ∈ fs, f.phase = m.phase ∧ m.tryMatch f.data = some v := by
  simp only [DeriverSession.hits, fedLines, List.mem_filterMap, List.mem_map, List.mem_filter,
    Bool.and_eq_true, bne_iff_ne, ne_eq]
  constructor
  · rintro ⟨_, ⟨f, ⟨hf, -⟩, rfl⟩, h⟩
    split at h
    · rename_i e
      exact ⟨f, hf, e.symm, h⟩
    · cases h
  · rintro ⟨f, hf, e, h⟩
    refine ⟨(f.phase, f.data), ⟨f, ⟨hf, ?_⟩, rfl⟩, ?_⟩
    · rw [e]; exact ph
    · rw [if_pos (show MatchAtom.phase m = f.phase from e.symm)]
      exact h

/-- The matcher of a name takes the values of the frames with the name. -/
lemma mem_hits_headerName {fs : List HttpFrame} {name v : Bytes} :
    v ∈ DeriverSession.hits (fedLines fs) (Matcher.headerName name) ↔ ∃ f ∈ fs, Named name f v := by
  rw [mem_hits (by simp [Matcher.phase])]
  simp only [Matcher.tryMatch_headerName, Named, Matcher.phase]

/-- The matcher of the version takes the version tokens. -/
lemma mem_hits_version {fs : List HttpFrame} {v : Bytes} :
    v ∈ DeriverSession.hits (fedLines fs) Matcher.requestLineVersion ↔
      ∃ f ∈ fs, VersionToken f v := by
  rw [mem_hits (by simp [Matcher.phase])]
  simp only [Matcher.tryMatch_requestLineVersion, VersionToken, Matcher.phase]

/-- A value was taken if a frame has the name. -/
lemma head_hits_isSome {fs : List HttpFrame} {name : Bytes} :
    (DeriverSession.hits (fedLines fs) (Matcher.headerName name)).head?.isSome = true ↔
      ∃ f ∈ fs, ∃ v, Named name f v := by
  rw [List.isSome_head?]
  constructor
  · intro ne
    obtain ⟨v, hv⟩ := List.exists_mem_of_ne_nil _ ne
    obtain ⟨f, hf, hn⟩ := mem_hits_headerName.1 hv
    exact ⟨f, hf, v, hn⟩
  · rintro ⟨f, hf, v, hn⟩
    exact List.ne_nil_of_mem (mem_hits_headerName.2 ⟨f, hf, hn⟩)

/-- The values of a name do not clash if they are all the same. -/
lemma clash_headerName {fs : List HttpFrame} {name : Bytes} :
    DeriverSession.clash (DeriverSession.hits (fedLines fs) (Matcher.headerName name)) = false ↔
      ∀ f ∈ fs, ∀ g ∈ fs, ∀ v w, Named name f v → Named name g w → v = w := by
  rw [DeriverSession.clash_eq_false]
  constructor
  · intro h f hf g hg v w hv hw
    exact h v (mem_hits_headerName.2 ⟨f, hf, hv⟩) w (mem_hits_headerName.2 ⟨g, hg, hw⟩)
  · intro h v hv w hw
    obtain ⟨f, hf, hv⟩ := mem_hits_headerName.1 hv
    obtain ⟨g, hg, hw⟩ := mem_hits_headerName.1 hw
    exact h f hf g hg v w hv hw

/-- The versions do not clash if they are all the same. -/
lemma clash_version {fs : List HttpFrame} :
    DeriverSession.clash (DeriverSession.hits (fedLines fs) Matcher.requestLineVersion) = false ↔
      ∀ f ∈ fs, ∀ g ∈ fs, ∀ v w, VersionToken f v → VersionToken g w → v = w := by
  rw [DeriverSession.clash_eq_false]
  constructor
  · intro h f hf g hg v w hv hw
    exact h v (mem_hits_version.2 ⟨f, hf, hv⟩) w (mem_hits_version.2 ⟨g, hg, hw⟩)
  · intro h v hv w hw
    obtain ⟨f, hf, hv⟩ := mem_hits_version.1 hv
    obtain ⟨g, hg, hw⟩ := mem_hits_version.1 hw
    exact h f hf g hg v w hv hw

/-- The verdict after any frames. -/
lemma validate_onFrames (fs : List HttpFrame) :
    (fs.foldl onFrame new).validate =
      if (derive (fedLines fs)).clTeConflict then
        .error (.ofKind (.parse
          "Content-Length and Transfer-Encoding both present (request smuggling)"))
      else if (derive (fedLines fs)).hasConflicts then
        .error (.ofKind (.parse "conflicting header values detected"))
      else .ok () := by
  rw [validate, resolve_onFrames]

/-- There is a conflict when both headers are there. -/
lemma clTeConflict_iff (fs : List HttpFrame) :
    (derive (fedLines fs)).clTeConflict = true ↔
      (∃ f ∈ fs, ∃ v, Named (lit "Content-Length") f v) ∧
        (∃ f ∈ fs, ∃ v, Named (lit "Transfer-Encoding") f v) := by
  simp only [derive, Bool.and_eq_true]
  exact and_congr head_hits_isSome head_hits_isSome

/-- There is no conflict when the values of each name and the versions are the same. -/
lemma hasConflicts_iff (fs : List HttpFrame) :
    (derive (fedLines fs)).hasConflicts = false ↔
      (∀ name ∈ [lit "Content-Length", lit "Transfer-Encoding", lit "Connection"],
        ∀ f ∈ fs, ∀ g ∈ fs, ∀ v w, Named name f v → Named name g w → v = w) ∧
      (∀ f ∈ fs, ∀ g ∈ fs, ∀ v w, VersionToken f v → VersionToken g w → v = w) := by
  simp only [derive, Matcher.contentLength, Matcher.transferEncoding, Matcher.connection,
    Bool.or_eq_false_iff, clash_headerName, clash_version, List.mem_cons, List.not_mem_nil, or_false,
    forall_eq_or_imp, forall_eq]
  tauto

/-- The hook accepts exactly the heads without a conflict. -/
lemma validate_eq_ok (fs : List HttpFrame) :
    (fs.foldl onFrame new).validate = .ok () ↔ NoConflict fs := by
  rw [validate_onFrames]
  constructor
  · intro h
    split at h
    · cases h
    · rename_i clte
      split at h
      · cases h
      · rename_i conf
        obtain ⟨hd, ver⟩ := (hasConflicts_iff fs).1 (by simpa using conf)
        exact ⟨fun h => clte ((clTeConflict_iff fs).2 h), hd, ver⟩
  · intro h
    have clte : ¬ (derive (fedLines fs)).clTeConflict = true :=
      fun e => h.clTe ((clTeConflict_iff fs).1 e)
    have conf : ¬ (derive (fedLines fs)).hasConflicts = true := by
      rw [(hasConflicts_iff fs).2 ⟨h.header, h.version⟩]
      nofun
    rw [if_neg clte, if_neg conf]

/-- The flags the verdict is made of do not depend on the order of the frames. -/
lemma flags_perm {fs fs' : List HttpFrame} (perm : fs.Perm fs') :
    (derive (fedLines fs')).clTeConflict = (derive (fedLines fs)).clTeConflict ∧
      (derive (fedLines fs')).hasConflicts = (derive (fedLines fs)).hasConflicts := by
  have mem : ∀ f, f ∈ fs' ↔ f ∈ fs := fun f => perm.symm.mem_iff
  refine ⟨?_, ?_⟩
  · rw [Bool.eq_iff_iff, clTeConflict_iff, clTeConflict_iff]
    simp only [mem]
  · have neg : ∀ a b : Bool, (a = false ↔ b = false) → a = b := by decide
    apply neg
    rw [hasConflicts_iff, hasConflicts_iff]
    simp only [mem]

/-- The verdict on a head: accepted exactly when no two of its lines contradict each other, in
whatever order they came. -/
theorem validate_iff_noConflict (fs fs' : List HttpFrame) (perm : fs.Perm fs') :
    ((fs.foldl onFrame new).validate = .ok () ↔ NoConflict fs) ∧
      (fs'.foldl onFrame new).validate = (fs.foldl onFrame new).validate := by
  refine ⟨validate_eq_ok fs, ?_⟩
  rw [validate_onFrames, validate_onFrames, (flags_perm perm).1, (flags_perm perm).2]

/-- A head with two different lengths, in both orders. -/
theorem validate_iff_noConflict_lengths :
    ([HttpFrame.requestLine (lit "GET / HTTP/1.1\r\n"),
        .header (lit "Content-Length: 10\r\n"), .header (lit "content-length:20\r\n")].foldl
      onFrame new).validate =
      .error (.ofKind (.parse "conflicting header values detected")) ∧
    ([HttpFrame.requestLine (lit "GET / HTTP/1.1\r\n"),
        .header (lit "content-length:20\r\n"), .header (lit "Content-Length: 10\r\n")].foldl
      onFrame new).validate =
      .error (.ofKind (.parse "conflicting header values detected")) := by
  have first : ([HttpFrame.requestLine (lit "GET / HTTP/1.1\r\n"),
        .header (lit "Content-Length: 10\r\n"), .header (lit "content-length:20\r\n")].foldl
      onFrame new).validate =
      .error (.ofKind (.parse "conflicting header values detected")) := by decide +kernel
  refine ⟨first, ?_⟩
  rw [← first]
  exact (validate_iff_noConflict _ _ (.cons _ (.swap _ _ _))).2

end HttpDeriverHook

end Railscale.Http
