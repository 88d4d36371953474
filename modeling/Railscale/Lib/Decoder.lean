import Railscale.Lib.Bytes
import Mathlib.Data.List.Induction

/-!
# Incremental decoders

A decoder takes items off the front of a buffer that grows as bytes arrive. Whether a decoder depends
on how the bytes were cut into reads is a question about `decode` alone: it does not when decoding a
whole buffer is the same as decoding it byte by byte. `feed` is that byte-by-byte run and
`Incremental` the per-call law; `Drain.feed` shows that a decoder with the law agrees with `feed`
however much of the input it is given at once, so any two ways of cutting the input agree.

The items themselves may differ between two cuts (a body of ten bytes may be two items or ten), so
they are compared through `atoms`, the indivisible parts of an item.
-/

namespace Railscale

/-- A decoder with state `C`, items `ι` and errors `ε`. A call returns its result with the new state
and the bytes it leaves in the buffer. -/
class Decoder (C : Type) (ι ε : outParam Type) where
  /-- Take the next item off the buffer. -/
  decode : C → Bytes → Except ε (Option ι) × C × Bytes
  /-- Take the next item off the buffer of a transport that has ended. -/
  decodeEof : C → Bytes → Except ε (Option ι) × C × Bytes

namespace Decoder

variable {C ι ε α : Type} [Decoder C ι ε]

/-- The outcome of feeding bytes to a decoder: what it emitted, its state, the bytes it keeps
waiting and the error it stopped at. -/
structure Fed (C ε α : Type) where
  out : List α
  codec : C
  rest : Bytes
  err : Option ε

/-- The start of a feed. -/
def Fed.start (c : C) : Fed C ε α := ⟨[], c, [], none⟩

/-- The outcome of a feed that had emitted `out` before. -/
def Fed.after (out : List α) (s : Fed C ε α) : Fed C ε α := { s with out := out ++ s.out }

/-- The output is put in front. -/
@[simp] lemma Fed.after_out (out : List α) (s : Fed C ε α) : (s.after out).out = out ++ s.out := rfl

/-- The codec stays. -/
@[simp] lemma Fed.after_codec (out : List α) (s : Fed C ε α) : (s.after out).codec = s.codec := rfl

/-- The rest of the bytes stays. -/
@[simp] lemma Fed.after_rest (out : List α) (s : Fed C ε α) : (s.after out).rest = s.rest := rfl

/-- The error stays. -/
@[simp] lemma Fed.after_err (out : List α) (s : Fed C ε α) : (s.after out).err = s.err := rfl

/-- Two outputs in front are their concatenation in front. -/
@[simp] lemma Fed.after_after (out out' : List α) (s : Fed C ε α) :
    (s.after out').after out = s.after (out ++ out') := by
  simp [after]

/-- One call of `decode` on the waiting bytes. -/
def Fed.call (atoms : ι → List α) (s : Fed C ε α) : Fed C ε α :=
  match decode s.codec s.rest with
  | (.ok none, c, r) => { s with codec := c, rest := r }
  | (.ok (some i), c, r) => { s with out := s.out ++ atoms i, codec := c, rest := r }
  | (.error e, c, r) => { s with codec := c, rest := r, err := some e }

/-- Feed one byte: it joins the waiting bytes and `decode` is called once, unless the decoder has
failed. -/
def feedByte (atoms : ι → List α) (s : Fed C ε α) (b : UInt8) : Fed C ε α :=
  match s.err with
  | some _ => { s with rest := s.rest ++ [b] }
  | none => Fed.call atoms { s with rest := s.rest ++ [b] }

/-- Feed a byte string. -/
def feed (atoms : ι → List α) (s : Fed C ε α) (bs : Bytes) : Fed C ε α :=
  bs.foldl (feedByte atoms) s

/-- The bytewise outcome of a whole input. -/
def feedAll (atoms : ι → List α) (c : C) (bs : Bytes) : Fed C ε α := feed atoms (.start c) bs

/-- Without bytes nothing comes out. -/
@[simp] lemma feedAll_nil (atoms : ι → List α) (c : C) :
    feedAll (ε := ε) atoms c [] = ⟨[], c, [], none⟩ := rfl

/-- Without bytes nothing changes. -/
@[simp] lemma feed_nil (atoms : ι → List α) (s : Fed C ε α) : feed atoms s [] = s := rfl

/-- Bytes are fed one by one. -/
@[simp] lemma feed_cons (atoms : ι → List α) (s : Fed C ε α) (b : UInt8) (bs : Bytes) :
    feed atoms s (b :: bs) = feed atoms (feedByte atoms s b) bs := rfl

/-- Feeding is a monoid action. -/
lemma feed_append (atoms : ι → List α) (s : Fed C ε α) (bs cs : Bytes) :
    feed atoms s (bs ++ cs) = feed atoms (feed atoms s bs) cs :=
  List.foldl_append

/-- A failed decoder only collects bytes. -/
lemma feed_failed (atoms : ι → List α) {s : Fed C ε α} {e : ε} (h : s.err = some e) (bs : Bytes) :
    feed atoms s bs = { s with rest := s.rest ++ bs } := by
  induction bs generalizing s with
  | nil => simp
  | cons b bs ih =>
    have hb : feedByte atoms s b = { s with rest := s.rest ++ [b] } := by
      simp [feedByte, h]
    rw [feed_cons, hb, ih (by exact h)]
    simp

/-- The output so far is only ever extended. -/
lemma feed_out (atoms : ι → List α) (s : Fed C ε α) (bs : Bytes) (out : List α) :
    feed atoms (s.after out) bs = (feed atoms s bs).after out := by
  induction bs generalizing s with
  | nil => rfl
  | cons b bs ih =>
    rw [feed_cons, feed_cons]
    have hb : feedByte atoms (s.after out) b = (feedByte atoms s b).after out := by
      cases he : s.err with
      | some e => simp [feedByte, Fed.after, he]
      | none =>
        simp only [feedByte, Fed.after, he, Fed.call]
        split <;> simp
    rw [hb]
    exact ih _

/-- The decoder wants more bytes at every prefix of the input. -/
def Waits (c : C) (b : Bytes) : Prop := ∀ p, p <+: b → decode c p = (.ok none, c, p)

/-- A codec that waits keeps its bytes. -/
lemma Waits.decode {c : C} {b : Bytes} (w : Waits c b) : decode c b = (.ok none, c, b) :=
  w b List.prefix_rfl

/-- A decoder that waits keeps its input. -/
lemma feedAll_wait (atoms : ι → List α) {c : C} {b : Bytes} (w : Waits c b) :
    feedAll atoms c b = ⟨[], c, b, none⟩ := by
  induction b using List.reverseRecOn with
  | nil => rfl
  | append_singleton b x ih =>
    have hb := ih fun p hp => w p (hp.trans (List.prefix_append b [x]))
    rw [feedAll, feed_append, ← feedAll, hb]
    simp [feedByte, Fed.call, w.decode]

/-- A byte behind those that a codec waits on is one more call. -/
lemma feedAll_last (atoms : ι → List α) {c : C} {b : Bytes} (x : UInt8) (w : Waits c b) :
    feedAll atoms c (b ++ [x]) = Fed.call atoms ⟨[], c, b ++ [x], none⟩ := by
  rw [feedAll, feed_append, ← feedAll, feedAll_wait atoms w]
  rfl

/-- An item that shows with its last byte. -/
lemma feedAll_token (atoms : ι → List α) {c c' : C} {b : Bytes} {x : UInt8} {i : ι}
    (w : Waits c b) (d : decode c (b ++ [x]) = (.ok (some i), c', [])) :
    feedAll atoms c (b ++ [x]) = ⟨atoms i, c', [], none⟩ := by
  rw [feedAll_last atoms x w, Fed.call, d]
  rfl

/-- An error that shows with the last byte of a part of the input. -/
lemma feedAll_error (atoms : ι → List α) {c c' : C} {b : Bytes} {x : UInt8} {err : ε}
    (w : Waits c b) (d : decode c (b ++ [x]) = (.error err, c', b ++ [x])) (rest : Bytes) :
    feedAll atoms c (b ++ [x] ++ rest) = ⟨[], c', b ++ [x] ++ rest, some err⟩ := by
  rw [feedAll, feed_append, ← feedAll, feedAll_last atoms x w, Fed.call, d, feed_failed _ rfl]

/-- Feeding a fresh decoder the bytes of an item and then more is feeding the decoder behind it. -/
lemma feedAll_item (atoms : ι → List α) {c c' : C} {e : Bytes} {i : ι}
    (h : feedAll (ε := ε) atoms c e = ⟨atoms i, c', [], none⟩) (bs : Bytes) :
    feedAll (ε := ε) atoms c (e ++ bs) = (feedAll atoms c' bs).after (atoms i) := by
  rw [feedAll, feed_append, ← feedAll, h]
  have more := feed_out atoms (Fed.start (ε := ε) c') bs (atoms i)
  simpa [Fed.start, Fed.after, feedAll] using more

/-- Bytes that are taken as they come, up to a number of them. -/
lemma feedAll_stream {atoms : ι → List α} (st : Nat → C) (item : Bytes → ι)
    (cut : ∀ bs cs, atoms (item (bs ++ cs)) = atoms (item bs) ++ atoms (item cs))
    (take : ∀ n b, b ≠ [] → b.length ≤ n →
      decode (st n) b = (.ok (some (item b)), st (n - b.length), []))
    {n : Nat} {e : Bytes} (ne : e ≠ []) (le : e.length ≤ n) :
    feedAll atoms (st n) e = ⟨atoms (item e), st (n - e.length), [], none⟩ := by
  induction e generalizing n with
  | nil => exact absurd rfl ne
  | cons x e ih =>
    rw [List.length_cons] at le
    have first : feedAll atoms (st n) [x] = ⟨atoms (item [x]), st (n - 1), [], none⟩ := by
      show Fed.call atoms ⟨[], st n, [x], none⟩ = _
      rw [Fed.call, take n [x] (by simp) (by simp; omega)]
      rfl
    by_cases last : e = []
    · subst last
      exact first
    · have rest := ih (n := n - 1) last (by omega)
      have sub : n - 1 - e.length = n - (e.length + 1) := by omega
      have split := feedAll_item atoms first e
      rw [List.singleton_append, rest, sub] at split
      rw [split, Fed.after, ← cut, List.length_cons]
      rfl

/-- The law of an incremental decoder, relative to the atoms of its items: a call that wants more
bytes changes nothing and would have wanted more at every shorter buffer, and a call that takes an
item or fails does what the bytewise run does on the bytes it looked at. -/
structure Incremental (C : Type) {ι ε α : Type} [Decoder C ι ε] (atoms : ι → List α) : Prop where
  none_same {c c' : C} {b b' : Bytes} : decode c b = (.ok none, c', b') → c' = c ∧ b' = b
  none_feed {c c' : C} {b b' : Bytes} :
    decode c b = (.ok none, c', b') → feedAll atoms c b = ⟨[], c, b, none⟩
  some_feed {c c' : C} {b b' : Bytes} {i : ι} : decode c b = (.ok (some i), c', b') →
    ∃ e, e ≠ [] ∧ b = e ++ b' ∧ feedAll atoms c e = ⟨atoms i, c', [], none⟩
  error_feed {c c' : C} {b b' : Bytes} {err : ε} : decode c b = (.error err, c', b') →
    b' = b ∧ feedAll atoms c b = ⟨[], c', b, some err⟩

/-- What one call of an incremental decoder does: it waits, takes an item or fails. -/
inductive Outcome (atoms : ι → List α) (c : C) : Bytes → Prop where
  | wait {b} :
    Waits c b →
    Outcome atoms c b
  | item {e rest i c'} :
    e ≠ [] →
    feedAll (ε := ε) atoms c e = ⟨atoms i, c', [], none⟩ →
    decode c (e ++ rest) = (.ok (some i), c', rest) →
    Outcome atoms c (e ++ rest)
  | error {b err c'} :
    feedAll atoms c b = ⟨[], c', b, some err⟩ →
    decode c b = (.error err, c', b) →
    Outcome atoms c b

/-- A decoder whose calls have these outcomes is incremental. -/
theorem Incremental.of_outcome {atoms : ι → List α} (h : ∀ (c : C) b, Outcome atoms c b) :
    Incremental C atoms where
  none_same {c c' b b'} d := by
    cases h c b with
    | wait w => rw [w.decode] at d; cases d; exact ⟨rfl, rfl⟩
    | item _ _ d' => rw [d'] at d; cases d
    | error _ d' => rw [d'] at d; cases d
  none_feed {c c' b b'} d := by
    cases h c b with
    | wait w => exact feedAll_wait atoms w
    | item _ _ d' => rw [d'] at d; cases d
    | error _ d' => rw [d'] at d; cases d
  some_feed {c c' b b' i} d := by
    cases h c b with
    | wait w => rw [w.decode] at d; cases d
    | item ne f d' => rw [d'] at d; cases d; exact ⟨_, ne, rfl, f⟩
    | error _ d' => rw [d'] at d; cases d
  error_feed {c c' b b' err} d := by
    cases h c b with
    | wait w => rw [w.decode] at d; cases d
    | item _ _ d' => rw [d'] at d; cases d
    | error f d' => rw [d'] at d; cases d; exact ⟨rfl, f⟩

/-- The outcome of calling `decode` until it wants more bytes or fails. -/
inductive Drain : C → Bytes → List ι → C → Bytes → Option ε → Prop where
  | none {c b c' b'} :
    decode c b = (.ok none, c', b') →
    Drain c b [] c' b' none
  | error {c b c' b' e} :
    decode c b = (.error e, c', b') →
    Drain c b [] c' b' (some e)
  | some {c b i c1 b1 is c' b' r} :
    decode c b = (.ok (some i), c1, b1) →
    Drain c1 b1 is c' b' r →
    Drain c b (i :: is) c' b' r

/-- Everything a decoder can be put through: bytes arrive in the buffer, `w` in all, and `decode` is
called on it, in any order. -/
inductive Calls (c0 : C) : Bytes → List ι → C → Bytes → Prop where
  | start :
    Calls c0 [] [] c0 []
  | arrive {w is c b} (bs : Bytes) :
    Calls c0 w is c b →
    Calls c0 (w ++ bs) is c (b ++ bs)
  | wait {w is c b c' b'} :
    Calls c0 w is c b →
    decode c b = (.ok none, c', b') →
    Calls c0 w is c' b'
  | item {w is c b i c' b'} :
    Calls c0 w is c b →
    decode c b = (.ok (some i), c', b') →
    Calls c0 w (is ++ [i]) c' b'

/-- Draining a buffer is one way of calling a decoder. -/
lemma Calls.drain {c0 c c' : C} {w b b' : Bytes} {is js : List ι} {r : Option ε}
    (calls : Calls c0 w is c b) (dr : Drain c b js c' b' r) (ok : r = none) :
    Calls c0 w (is ++ js) c' b' := by
  induction dr generalizing is with
  | none d =>
    rw [List.append_nil]
    exact .wait calls d
  | error _ => cases ok
  | some d _ ih =>
    have more := ih (.item calls d) ok
    rw [List.append_assoc] at more
    exact more

/-- The outcome of calling `decodeEof` until it has nothing more to say or fails. -/
inductive DrainEof : C → Bytes → List ι → C → Bytes → Option ε → Prop where
  | none {c b c' b'} :
    decodeEof c b = (.ok none, c', b') →
    DrainEof c b [] c' b' none
  | error {c b c' b' e} :
    decodeEof c b = (.error e, c', b') →
    DrainEof c b [] c' b' (some e)
  | some {c b i c1 b1 is c' b' r} :
    decodeEof c b = (.ok (some i), c1, b1) →
    DrainEof c1 b1 is c' b' r →
    DrainEof c b (i :: is) c' b' r

/-- Where a transport leaves its decoder: the items, the state, the bytes that wait in the buffer, the
reads that were not made and the error. -/
structure End (C ι ε : Type) where
  out : List ι
  codec : C
  buffer : Bytes
  left : List Bytes
  err : Option ε

/-- Decoding a transport: the buffer is drained after every read and at the end, up to the first error. -/
inductive Decodes : C → Bytes → List Bytes → End C ι ε → Prop where
  | eof {c b is c' b' r} :
    DrainEof c b is c' b' r →
    Decodes c b [] ⟨is, c', b', [], r⟩
  | read {c b d ds is c1 b1 e} :
    Drain c (b ++ d) is c1 b1 none →
    Decodes c1 b1 ds e →
    Decodes c b (d :: ds) { e with out := is ++ e.out }
  | error {c b d ds is c' b' e} :
    Drain c (b ++ d) is c' b' (some e) →
    Decodes c b (d :: ds) ⟨is, c', b', ds, some e⟩

/-- Decoding some reads of a transport that goes on: the buffer is drained after each of them, up to the first
error. -/
inductive Reads : C → Bytes → List Bytes → End C ι ε → Prop where
  | stop {c b} :
    Reads c b [] ⟨[], c, b, [], none⟩
  | read {c b d ds is c1 b1 e} :
    Drain c (b ++ d) is c1 b1 none →
    Reads c1 b1 ds e →
    Reads c b (d :: ds) { e with out := is ++ e.out }
  | error {c b d ds is c' b' e} :
    Drain c (b ++ d) is c' b' (some e) →
    Reads c b (d :: ds) ⟨is, c', b', ds, some e⟩

/-- The items of a call. -/
def emitted : Except ε (Option ι) → List ι
  | .ok (some i) => [i]
  | _ => []

/-- Everything a decoder can be put through, its errors and the end of its transport included: bytes
arrive in the buffer, `w` in all, and it is called in any order. -/
inductive Uses (c0 : C) : Bytes → List ι → C → Bytes → Prop where
  | start :
    Uses c0 [] [] c0 []
  | arrive {w is c b} (bs : Bytes) :
    Uses c0 w is c b →
    Uses c0 (w ++ bs) is c (b ++ bs)
  | decode {w is c b r c' b'} :
    Uses c0 w is c b →
    decode c b = (r, c', b') →
    Uses c0 w (is ++ emitted r) c' b'
  | decodeEof {w is c b r c' b'} :
    Uses c0 w is c b →
    decodeEof c b = (r, c', b') →
    Uses c0 w (is ++ emitted r) c' b'

/-- Draining a buffer is one way of using a decoder. -/
lemma Uses.drain {c0 c c' : C} {w b b' : Bytes} {is js : List ι} {r : Option ε}
    (uses : Uses c0 w is c b) (dr : Drain c b js c' b' r) : Uses c0 w (is ++ js) c' b' := by
  induction dr generalizing is with
  | none d => exact .decode uses d
  | error d => exact .decode uses d
  | some d _ ih =>
    have more := ih (.decode uses d)
    rw [List.append_assoc] at more
    exact more

/-- Items drained at the end of the input are paid for like the others. -/
lemma Uses.drainEof {c0 c c' : C} {w b b' : Bytes} {is js : List ι} {r : Option ε}
    (uses : Uses c0 w is c b) (dr : DrainEof c b js c' b' r) : Uses c0 w (is ++ js) c' b' := by
  induction dr generalizing is with
  | none d => exact .decodeEof uses d
  | error d => exact .decodeEof uses d
  | some d _ ih =>
    have more := ih (.decodeEof uses d)
    rw [List.append_assoc] at more
    exact more

/-- Decoding a transport is one way of using a decoder. -/
lemma Uses.decodes {c0 c : C} {w b : Bytes} {is : List ι} {ds : List Bytes} {e : End C ι ε}
    (uses : Uses c0 w is c b) (dec : Decodes c b ds e) : ∃ w', Uses c0 w' (is ++ e.out) e.codec e.buffer := by
  induction dec generalizing w is with
  | eof dr => exact ⟨w, uses.drainEof dr⟩
  | @read c b d ds js c1 b1 e dr _ ih =>
    obtain ⟨w', more⟩ := ih ((Uses.arrive d uses).drain dr)
    rw [List.append_assoc] at more
    exact ⟨w', more⟩
  | @error c b d ds js c' b' e dr => exact ⟨w ++ d, (Uses.arrive d uses).drain dr⟩

/-! ## Two decoders in lockstep -/

section lockstep

variable {D ι' κ : Type} [Decoder D ι' ε]

/-- Two calls did the same: their states are related and their items look the same through `f` and `g`. -/
inductive Alike (R : C → D → Prop) (f : ι → κ) (g : ι' → κ) :
    Except ε (Option ι) × C × Bytes → Except ε (Option ι') × D × Bytes → Prop where
  | none {c d b} :
    R c d →
    Alike R f g (.ok none, c, b) (.ok none, d, b)
  | some {c d b i j} :
    R c d →
    f i = g j →
    Alike R f g (.ok (some i), c, b) (.ok (some j), d, b)
  | error {c d b e} :
    R c d →
    Alike R f g (.error e, c, b) (.error e, d, b)

/-- Related decoders do the same whatever the buffer is. -/
structure Lockstep (R : C → D → Prop) (f : ι → κ) (g : ι' → κ) : Prop where
  decode : ∀ {c d}, R c d → ∀ b, Alike R f g (decode (ε := ε) c b) (decode d b)
  decodeEof : ∀ {c d}, R c d → ∀ b, Alike R f g (decodeEof (ε := ε) c b) (decodeEof d b)

variable {R : C → D → Prop} {f : ι → κ} {g : ι' → κ} (lock : Lockstep (ε := ε) R f g)
include lock

/-- Two codecs that go alike drain to items that go alike, to one rest and to one error. -/
lemma Drain.alike {c c' : C} {d d' : D} {b b' b'' : Bytes} {is : List ι} {js : List ι'} {r r' : Option ε}
    (dr : Drain c b is c' b' r) (dr' : Drain d b js d' b'' r') (rel : R c d) :
    is.map f = js.map g ∧ R c' d' ∧ b' = b'' ∧ r = r' := by
  induction dr generalizing d js with
  | @none c b c' b' h =>
    have same := lock.decode rel b
    rw [h] at same
    cases dr' with
    | none h' => rw [h'] at same; cases same with | none rel => exact ⟨rfl, rel, rfl, rfl⟩
    | error h' => rw [h'] at same; cases same
    | some h' _ => rw [h'] at same; cases same
  | @error c b c' b' e h =>
    have same := lock.decode rel b
    rw [h] at same
    cases dr' with
    | none h' => rw [h'] at same; cases same
    | error h' => rw [h'] at same; cases same with | error rel => exact ⟨rfl, rel, rfl, rfl⟩
    | some h' _ => rw [h'] at same; cases same
  | @some c b i c1 b1 is c' b' r h _ ih =>
    have same := lock.decode rel b
    rw [h] at same
    cases dr' with
    | none h' => rw [h'] at same; cases same
    | error h' => rw [h'] at same; cases same
    | some h' dr' =>
      rw [h'] at same
      cases same with
      | some rel item =>
        obtain ⟨items, rest⟩ := ih dr' rel
        refine ⟨?_, rest⟩
        rw [List.map_cons, List.map_cons, item, items]

/-- So they do at the end of the input. -/
lemma DrainEof.alike {c c' : C} {d d' : D} {b b' b'' : Bytes} {is : List ι} {js : List ι'} {r r' : Option ε}
    (dr : DrainEof c b is c' b' r) (dr' : DrainEof d b js d' b'' r') (rel : R c d) :
    is.map f = js.map g ∧ R c' d' ∧ b' = b'' ∧ r = r' := by
  induction dr generalizing d js with
  | @none c b c' b' h =>
    have same := lock.decodeEof rel b
    rw [h] at same
    cases dr' with
    | none h' => rw [h'] at same; cases same with | none rel => exact ⟨rfl, rel, rfl, rfl⟩
    | error h' => rw [h'] at same; cases same
    | some h' _ => rw [h'] at same; cases same
  | @error c b c' b' e h =>
    have same := lock.decodeEof rel b
    rw [h] at same
    cases dr' with
    | none h' => rw [h'] at same; cases same
    | error h' => rw [h'] at same; cases same with | error rel => exact ⟨rfl, rel, rfl, rfl⟩
    | some h' _ => rw [h'] at same; cases same
  | @some c b i c1 b1 is c' b' r h _ ih =>
    have same := lock.decodeEof rel b
    rw [h] at same
    cases dr' with
    | none h' => rw [h'] at same; cases same
    | error h' => rw [h'] at same; cases same
    | some h' dr' =>
      rw [h'] at same
      cases same with
      | some rel item =>
        obtain ⟨items, rest⟩ := ih dr' rel
        refine ⟨?_, rest⟩
        rw [List.map_cons, List.map_cons, item, items]

/-- Related decoders make the same of a transport: they emit the same, wait with the same bytes and fail alike. -/
theorem Decodes.alike {c : C} {d : D} {b : Bytes} {ds : List Bytes} {e : End C ι ε} {e' : End D ι' ε}
    (dec : Decodes c b ds e) (dec' : Decodes d b ds e') (rel : R c d) :
    e.out.map f = e'.out.map g ∧ e.buffer = e'.buffer ∧ e.left = e'.left ∧ e.err = e'.err := by
  induction dec generalizing d e' with
  | eof dr =>
    cases dec' with
    | eof dr' =>
      obtain ⟨items, -, rfl, rfl⟩ := dr.alike lock dr' rel
      exact ⟨items, rfl, rfl, rfl⟩
  | read dr _ ih =>
    cases dec' with
    | read dr' dec' =>
      obtain ⟨items, rel, rfl, -⟩ := dr.alike lock dr' rel
      obtain ⟨more, rest⟩ := ih dec' rel
      refine ⟨?_, rest⟩
      rw [List.map_append, List.map_append, items, more]
    | error dr' =>
      obtain ⟨-, -, -, err⟩ := dr.alike lock dr' rel
      cases err
  | error dr =>
    cases dec' with
    | read dr' _ =>
      obtain ⟨-, -, -, err⟩ := dr.alike lock dr' rel
      cases err
    | error dr' =>
      obtain ⟨items, -, rfl, err⟩ := dr.alike lock dr' rel
      exact ⟨items, rfl, rfl, err⟩

end lockstep

/-! ## Incremental decoders -/

section incremental

variable {atoms : ι → List α} (inc : Incremental C atoms)
include inc

/-- A call that takes an item is the first of the bytewise run. -/
lemma feedAll_some {c c' : C} {b b' : Bytes} {i : ι} (d : decode c b = (.ok (some i), c', b')) :
    feedAll (ε := ε) atoms c b = (feedAll atoms c' b').after (atoms i) := by
  obtain ⟨e, -, rfl, f⟩ := inc.some_feed d
  exact feedAll_item atoms f b'

/-- A decoder that was called in any way continues as the bytewise run does. -/
theorem Calls.feed {c0 c : C} {w b : Bytes} {is : List ι} (calls : Calls c0 w is c b) :
    feedAll (ε := ε) atoms c0 w = (feedAll atoms c b).after (is.flatMap atoms) := by
  induction calls with
  | start => rfl
  | arrive bs _ ih =>
    rw [feedAll, feed_append, ← feedAll, ih, feed_out, feedAll, feedAll, feed_append]
  | wait _ d ih =>
    obtain ⟨rfl, rfl⟩ := inc.none_same d
    exact ih
  | item _ d ih =>
    rw [ih, feedAll_some inc d]
    simp

/-- Draining a buffer is feeding it byte by byte. -/
theorem Drain.feed {c c' : C} {b b' : Bytes} {is : List ι} {r : Option ε}
    (dr : Drain c b is c' b' r) : feedAll atoms c b = ⟨is.flatMap atoms, c', b', r⟩ := by
  induction dr with
  | none h =>
    obtain ⟨rfl, rfl⟩ := inc.none_same h
    simpa using inc.none_feed h
  | error h =>
    obtain ⟨rfl, hf⟩ := inc.error_feed h
    simpa using hf
  | some h _ ih =>
    obtain ⟨e, _, rfl, hf⟩ := inc.some_feed h
    rw [feedAll_item atoms hf, ih]
    simp [Fed.after]

/-- Every buffer drains: each item takes at least one byte. -/
theorem Drain.total (c : C) (b : Bytes) : ∃ is c' b' r, Drain c b is c' b' r := by
  generalize hn : b.length = n
  induction n using Nat.strongRecOn generalizing c b with
  | ind n ih =>
    match hd : decode c b with
    | (.ok .none, c', b') => exact ⟨_, _, _, _, .none hd⟩
    | (.error e, c', b') => exact ⟨_, _, _, _, .error hd⟩
    | (.ok (.some i), c1, b1) =>
      obtain ⟨e, ne, rfl, _⟩ := inc.some_feed hd
      have lt : b1.length < n := by
        have : 0 < e.length := List.length_pos_iff.2 ne
        simp only [List.length_append] at hn
        omega
      obtain ⟨is, c', b', r, dr⟩ := ih b1.length lt c1 b1 rfl
      exact ⟨_, _, _, _, .some hd dr⟩

/-- A decoder that waits with bytes `b` continues as if it had been fed them. -/
lemma feedAll_waiting {c c' : C} {b b' : Bytes} (h : decode c b = (.ok none, c', b'))
    (bs : Bytes) : feedAll atoms c (b ++ bs) = feed atoms ⟨[], c, b, none⟩ bs := by
  rw [feedAll, feed_append, ← feedAll, inc.none_feed h]

/-- A drained decoder waits. -/
lemma waits_of_drain {c c' : C} {b b' : Bytes} {is : List ι} {r : Option ε} (dr : Drain c b is c' b' r)
    (ok : r = none) : decode c' b' = (.ok none, c', b') := by
  induction dr with
  | none h =>
    obtain ⟨rfl, rfl⟩ := inc.none_same h
    exact h
  | error _ => cases ok
  | some _ _ ih => exact ih ok

/-- A read that is drained is the first part of the bytewise run. -/
lemma feedAll_read {c c1 : C} {b d b1 : Bytes} {is : List ι} (dr : Drain c (b ++ d) is c1 b1 (none : Option ε))
    (bs : Bytes) :
    feedAll (ε := ε) atoms c (b ++ (d ++ bs)) = (feedAll atoms c1 (b1 ++ bs)).after (is.flatMap atoms) := by
  -- a codec that waits has taken in its buffer, so the run goes on from there
  rw [feedAll_waiting inc (waits_of_drain inc dr rfl), ← feed_out, ← List.append_assoc, feedAll, feed_append,
    ← feedAll, dr.feed inc, Fed.after, List.append_nil]

/-- Draining takes bytes off the front of the buffer. -/
lemma Drain.suffix {c c' : C} {b b' : Bytes} {is : List ι} {r : Option ε} (dr : Drain c b is c' b' r) : b' <:+ b := by
  induction dr with
  | none h =>
    obtain ⟨-, rfl⟩ := inc.none_same h
    exact List.suffix_rfl
  | error h =>
    obtain ⟨rfl, -⟩ := inc.error_feed h
    exact List.suffix_rfl
  | some h _ ih =>
    obtain ⟨e, -, rfl, -⟩ := inc.some_feed h
    exact ih.trans (List.suffix_append e _)

/-! ## Reads -/

/-- Any reads are decoded. -/
theorem Reads.total (c : C) (b : Bytes) (ds : List Bytes) : ∃ e, Reads c b ds e := by
  induction ds generalizing c b with
  | nil => exact ⟨_, .stop⟩
  | cons d ds ih =>
    obtain ⟨is, c1, b1, r, dr⟩ := Drain.total inc c (b ++ d)
    cases r with
    | some e => exact ⟨_, .error dr⟩
    | none =>
      obtain ⟨e, reads⟩ := ih c1 b1
      exact ⟨_, .read dr reads⟩

/-- What is left is the end of what came. -/
lemma Reads.suffix {c : C} {b : Bytes} {ds : List Bytes} {e : End C ι ε} (reads : Reads c b ds e) :
    e.buffer ++ e.left.flatten <:+ b ++ ds.flatten := by
  induction reads with
  | stop => exact List.suffix_rfl
  | @read c b d ds is c1 b1 e dr _ ih =>
    rw [List.flatten_cons, ← List.append_assoc]
    exact ih.trans (List.suffix_append_self_iff.2 (dr.suffix inc))
  | @error c b d ds is c' b' e dr =>
    rw [List.flatten_cons, ← List.append_assoc]
    exact List.suffix_append_self_iff.2 (dr.suffix inc)

/-- The reads end where the bytewise run over all of them ends, however they are cut. -/
theorem Reads.feed {c : C} {b : Bytes} {ds : List Bytes} {e : End C ι ε} (reads : Reads c b ds e)
    (waits : decode c b = (.ok none, c, b)) :
    feedAll atoms c (b ++ ds.flatten) = ⟨e.out.flatMap atoms, e.codec, e.buffer ++ e.left.flatten, e.err⟩ := by
  induction reads with
  | @stop c b =>
    rw [List.flatten_nil, List.append_nil, inc.none_feed waits]
    rfl
  | @read c b d ds is c1 b1 e dr _ ih =>
    have rest := ih (waits_of_drain inc dr rfl)
    rw [List.flatten_cons, feedAll_read inc dr, rest]
    simp [Fed.after]
  | @error c b d ds is c' b' err dr =>
    rw [List.flatten_cons, ← List.append_assoc, feedAll, feed_append, ← feedAll, dr.feed inc,
      feed_failed _ rfl]

/-! ## Transports -/

section transports

variable (atEof : C → C)
  (quiet : ∀ c b, decode c b = (.ok none, c, b) → decodeEof (ε := ε) c b = (.ok none, atEof c, b))
include quiet

/-- Every transport is decoded. -/
theorem Decodes.total {c : C} {b : Bytes} (waits : decode c b = (.ok none, c, b)) (ds : List Bytes) :
    ∃ e, Decodes c b ds e := by
  induction ds generalizing c b with
  | nil => exact ⟨_, .eof (.none (quiet c b waits))⟩
  | cons d ds ih =>
    obtain ⟨is, c1, b1, r, dr⟩ := Drain.total inc c (b ++ d)
    cases r with
    | some e => exact ⟨_, .error dr⟩
    | none =>
      obtain ⟨e, dec⟩ := ih (waits_of_drain inc dr rfl)
      exact ⟨_, .read dr dec⟩

/-- A transport ends where the bytewise run over all of it ends, whatever its reads are. -/
theorem Decodes.feed {c : C} {b : Bytes} {ds : List Bytes} {e : End C ι ε} (dec : Decodes c b ds e)
    (waits : decode c b = (.ok none, c, b)) :
    ∃ c', feedAll atoms c (b ++ ds.flatten) =
        ⟨e.out.flatMap atoms, c', e.buffer ++ e.left.flatten, e.err⟩ ∧
      e.codec = if e.err.isSome then c' else atEof c' := by
  induction dec with
  | @eof c b is c' b' r dr =>
    have ended := quiet c b waits
    cases dr with
    | none h =>
      rw [ended] at h
      cases h
      refine ⟨c, ?_, rfl⟩
      simp [inc.none_feed waits]
    | error h => rw [ended] at h; cases h
    | some h _ => rw [ended] at h; cases h
  | @read c b d ds is c1 b1 e dr _ ih =>
    obtain ⟨c', feed, codec⟩ := ih (waits_of_drain inc dr rfl)
    refine ⟨c', ?_, codec⟩
    rw [List.flatten_cons, feedAll_read inc dr, feed]
    simp [Fed.after]
  | @error c b d ds is c' b' err dr =>
    refine ⟨c', ?_, rfl⟩
    rw [List.flatten_cons, ← List.append_assoc, feedAll, feed_append, ← feedAll, dr.feed inc,
      feed_failed _ rfl]

end transports

end incremental

end Decoder

end Railscale
