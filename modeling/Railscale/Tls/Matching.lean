import Railscale.Tls.ClientHello
import Railscale.Http.Codec

/-!
# Routing by host name

Model of `train_track/src/destinations/route.rs`: a router picks the first entry whose strategy matches the routing
key. The patterns are lower-cased when a strategy is made and the key is compared as it comes, so capital letters in
the host name of a ClientHello can make a difference. `ignoresCase_iff` says when they do not.
-/

namespace Railscale.Tls

open Bytes
open Http (memmem)

/-- Rust `MatchStrategy`. -/
inductive MatchStrategy where
  | Exact (pat : Bytes)
  | Suffix (pat : Bytes)
  | Prefix (pat : Bytes)
  | Contains (needle : Bytes)

namespace MatchStrategy

/-- Rust `MatchStrategy::lowercase`. -/
def lowercase (v : Bytes) : Bytes := v.map toAsciiLower

/-- Rust `MatchStrategy::exact`. -/
def ofExact (domain : Bytes) : MatchStrategy := Exact (lowercase domain)

/-- Rust `MatchStrategy::suffix`. -/
def ofSuffix (domain : Bytes) : MatchStrategy := Suffix (lowercase domain)

/-- Rust `MatchStrategy::prefix`. -/
def ofPrefix (domain : Bytes) : MatchStrategy := Prefix (lowercase domain)

/-- Rust `MatchStrategy::contains`. -/
def ofContains (needle : Bytes) : MatchStrategy := Contains (lowercase needle)

/-- Rust `MatchStrategy::is_match`. -/
def isMatch (s : MatchStrategy) (domain : Bytes) : Bool :=
  match s with
  | Exact pat => domain.length == pat.length && memmem pat domain
  | Suffix pat => decide (domain.length ≥ pat.length) && domain.drop (domain.length - pat.length) == pat
  | Prefix pat => decide (domain.length ≥ pat.length) && domain.take pat.length == pat
  | Contains needle => memmem needle domain

/-- The strategies that can be made. -/
inductive Built : MatchStrategy → Prop where
  | exact {domain} :
    Built (ofExact domain)
  | suffix {domain} :
    Built (ofSuffix domain)
  | front {domain} :
    Built (ofPrefix domain)
  | contains {needle} :
    Built (ofContains needle)

end MatchStrategy

/-- Rust `RouteFactory`. -/
abbrev RouteFactory (D : Type) := Bytes → Except RailscaleError D

/-- Rust `MatchingRouter`. -/
structure MatchingRouter (D : Type) where
  matchers : List (MatchStrategy × RouteFactory D)

namespace MatchingRouter

variable {D : Type}

/-- The error of a key that no entry matches. -/
def noRoute : RailscaleError := .ofKind (.routingFailed "no matching route")

/-- The loop of Rust `MatchingRouter::route`. -/
def routeLoop (routingKey : Bytes) : List (MatchStrategy × RouteFactory D) → Except RailscaleError D
  | [] => .error noRoute
  | (strategy, factory) :: rest => if strategy.isMatch routingKey then factory routingKey else routeLoop routingKey rest

/-- Rust `MatchingRouter::route`. -/
def route (r : MatchingRouter D) (routingKey : Bytes) : Except RailscaleError D := routeLoop routingKey r.matchers

/-- The entry whose factory is called. -/
def selected (r : MatchingRouter D) (routingKey : Bytes) : Option Nat :=
  r.matchers.findIdx? fun m => m.1.isMatch routingKey

/-- The factory of the selected entry is called, and no other. -/
lemma route_selected (r : MatchingRouter D) (routingKey : Bytes) :
    r.route routingKey =
      match (r.selected routingKey).bind fun n => r.matchers[n]? with
      | some (_, factory) => factory routingKey
      | none => .error noRoute := by
  obtain ⟨matchers⟩ := r
  rw [route, selected]
  induction matchers with
  | nil => rfl
  | cons m ms ih =>
    obtain ⟨strategy, factory⟩ := m
    rw [routeLoop, List.findIdx?_cons]
    dsimp only at ih ⊢
    split
    · rfl
    · rw [ih]
      cases ms.findIdx? fun m => m.1.isMatch routingKey with
      | none => rfl
      | some n => rfl

end MatchingRouter

/-! ## What a strategy matches -/

namespace MatchStrategy

/-- What a strategy is for. -/
def Matches (s : MatchStrategy) (domain : Bytes) : Prop :=
  match s with
  | Exact pat => domain = pat
  | Suffix pat => pat <:+ domain
  | Prefix pat => pat <+: domain
  | Contains needle => needle <:+: domain

/-- Whether a strategy matches is decided by looking for its value. -/
instance (s : MatchStrategy) (domain : Bytes) : Decidable (s.Matches domain) :=
  match s with
  | Exact pat => inferInstanceAs (Decidable (domain = pat))
  | Suffix pat => inferInstanceAs (Decidable (pat <:+ domain))
  | Prefix pat => inferInstanceAs (Decidable (pat <+: domain))
  | Contains needle => inferInstanceAs (Decidable (needle <:+: domain))

/-- The length test and the substring search of an exact match are equality, and the slices are what they look like. -/
lemma isMatch_iff (s : MatchStrategy) (domain : Bytes) : s.isMatch domain = true ↔ s.Matches domain := by
  cases s with
  | Exact pat =>
    simp only [isMatch, Matches, Bool.and_eq_true, beq_iff_eq, memmem, decide_eq_true_eq]
    constructor
    · rintro ⟨len, found⟩
      exact (found.eq_of_length len.symm).symm
    · rintro rfl
      exact ⟨rfl, List.infix_rfl⟩
  | Suffix pat =>
    simp only [isMatch, Matches, Bool.and_eq_true, beq_iff_eq, decide_eq_true_eq]
    constructor
    · rintro ⟨-, same⟩
      rw [← same]
      exact List.drop_suffix _ _
    · rintro ⟨front, rfl⟩
      simp
  | Prefix pat =>
    simp only [isMatch, Matches, Bool.and_eq_true, beq_iff_eq, decide_eq_true_eq]
    constructor
    · rintro ⟨-, same⟩
      rw [← same]
      exact List.take_prefix _ _
    · rintro ⟨rest, rfl⟩
      simp
  | Contains needle => simp [isMatch, Matches, memmem]

/-- There is no capital letter. -/
def LowerCase (v : Bytes) : Prop := lowercase v = v

/-- Whether a value is in lower case is decided by making it so. -/
instance (v : Bytes) : Decidable (LowerCase v) := inferInstanceAs (Decidable (_ = _))

/-- What the strategy looks at is written without capital letters: the whole domain, its end or its start, or some
place where the needle is. -/
def Plain (s : MatchStrategy) (domain : Bytes) : Prop :=
  match s with
  | Exact _ => LowerCase domain
  | Suffix pat => LowerCase (domain.drop (domain.length - pat.length))
  | Prefix pat => LowerCase (domain.take pat.length)
  | Contains needle => ∃ part, part <:+: domain ∧ lowercase part = needle ∧ LowerCase part

/-- What was made lower case is. -/
lemma lowerCase_lowercase (v : Bytes) : LowerCase (lowercase v) := by
  rw [LowerCase, lowercase, lowercase, List.map_map]
  exact List.map_congr_left fun b _ => toAsciiLower_idem b

/-- Lower case keeps the length. -/
lemma length_lowercase (v : Bytes) : (lowercase v).length = v.length := List.length_map _

/-- Lower case goes part by part. -/
lemma lowercase_append (v w : Bytes) : lowercase (v ++ w) = lowercase v ++ lowercase w := List.map_append

/-- The end in lower case. -/
lemma lowercase_drop (n : Nat) (v : Bytes) : lowercase (v.drop n) = (lowercase v).drop n := List.map_drop

/-- The beginning in lower case. -/
lemma lowercase_take (n : Nat) (v : Bytes) : lowercase (v.take n) = (lowercase v).take n := List.map_take

/-- A strategy matches what it matches in lower case, when it is written so. -/
lemma Built.matches_iff {s : MatchStrategy} (built : s.Built) (domain : Bytes) :
    s.Matches domain ↔ s.Matches (lowercase domain) ∧ s.Plain domain := by
  cases built with
  | @exact pat =>
    have lower := lowerCase_lowercase pat
    constructor
    · rintro rfl
      exact ⟨lower, lower⟩
    · rintro ⟨same, plain⟩
      exact plain.symm.trans same
  | @suffix pat =>
    have lower : lowercase (lowercase pat) = lowercase pat := lowerCase_lowercase pat
    simp only [ofSuffix, Matches, Plain, LowerCase]
    constructor
    · rintro ⟨front, rfl⟩
      rw [List.length_append, Nat.add_sub_cancel, List.drop_left, lowercase_append, lower]
      exact ⟨List.suffix_append _ _, rfl⟩
    · rintro ⟨found, plain⟩
      have same := List.suffix_iff_eq_drop.1 found
      rw [length_lowercase domain, ← lowercase_drop, plain] at same
      have here := List.drop_suffix (domain.length - (lowercase pat).length) domain
      rw [← same] at here
      exact here
  | @front pat =>
    have lower : lowercase (lowercase pat) = lowercase pat := lowerCase_lowercase pat
    simp only [ofPrefix, Matches, Plain, LowerCase]
    constructor
    · rintro ⟨rest, rfl⟩
      rw [List.take_left, lowercase_append, lower]
      exact ⟨List.prefix_append _ _, rfl⟩
    · rintro ⟨found, plain⟩
      have same := List.prefix_iff_eq_take.1 found
      rw [← lowercase_take, plain] at same
      have here := List.take_prefix (lowercase pat).length domain
      rw [← same] at here
      exact here
  | @contains needle =>
    have lower : lowercase (lowercase needle) = lowercase needle := lowerCase_lowercase needle
    simp only [ofContains, Matches, Plain, LowerCase]
    constructor
    · intro found
      refine ⟨?_, _, found, lower, lower⟩
      rw [← lower]
      exact found.map toAsciiLower
    · rintro ⟨-, part, found, same, plain⟩
      rw [← same, plain]
      exact found

end MatchStrategy

/-! ## The entry that is selected -/

namespace MatchingRouter

variable {D : Type}

/-- The first entry that matches the key in lower case. -/
def expected (r : MatchingRouter D) (host : Bytes) : Option Nat :=
  r.matchers.findIdx? fun m => m.1.Matches (MatchStrategy.lowercase host)

/-- The frame is routed to the first entry that matches its host in lower case, and fails when there is none. -/
def RoutesLowered (r : MatchingRouter D) (f : TlsEncryptedFrame) (host : Bytes) : Prop :=
  ∃ key, Frame.routingKey f = some key ∧ r.selected key = r.expected host ∧
    (r.expected host = none → r.route key = .error noRoute)

/-- The host is written without capital letters where the first entry that matches it in lower case looks. -/
def Plain (r : MatchingRouter D) (host : Bytes) : Prop :=
  ∀ m, r.matchers.find? (fun m => m.1.Matches (MatchStrategy.lowercase host)) = some m → m.1.Plain host

/-- The entry for the host as it is written is the one for its lower case exactly when it is written plainly there. -/
lemma selected_eq_iff {ms : List (MatchStrategy × RouteFactory D)} (built : ∀ m ∈ ms, m.1.Built) (host : Bytes) :
    selected ⟨ms⟩ host = expected ⟨ms⟩ host ↔ Plain ⟨ms⟩ host := by
  rw [selected, expected, Plain]
  induction ms with
  | nil => exact iff_of_true rfl nofun
  | cons m ms ih =>
    have whole := (built m List.mem_cons_self).matches_iff host
    have isMatch := m.1.isMatch_iff host
    have ih := ih fun m mem => built m (List.mem_cons_of_mem _ mem)
    dsimp only at ih ⊢
    rw [List.findIdx?_cons, List.findIdx?_cons, List.find?_cons]
    by_cases lowered : m.1.Matches (MatchStrategy.lowercase host)
    · by_cases plain : m.1.Plain host
      · have found : m.1.isMatch host = true := isMatch.2 (whole.2 ⟨lowered, plain⟩)
        simp [found, lowered, plain]
      · have missed : m.1.isMatch host = false :=
          eq_false_of_ne_true fun found => plain (whole.1 (isMatch.1 found)).2
        simp [missed, lowered, plain]
    · have missed : m.1.isMatch host = false :=
        eq_false_of_ne_true fun found => lowered (whole.1 (isMatch.1 found)).1
      have shift : Function.Injective (Option.map fun n : Nat => n + 1) :=
        Option.map_injective fun _ _ same => Nat.succ.inj same
      simp only [missed, lowered, decide_false, Bool.false_eq_true, if_false]
      rw [← ih]
      exact shift.eq_iff

/-- Without an entry that matches there is no route. -/
lemma route_of_none {r : MatchingRouter D} {key : Bytes} (none : r.selected key = none) :
    r.route key = .error noRoute := by
  rw [route_selected, none]
  rfl

/-- A key that is the host up to case is routed like it exactly when it is plain. -/
lemma routesLowered_iff {r : MatchingRouter D} (built : ∀ m ∈ r.matchers, m.1.Built) {f : TlsEncryptedFrame}
    {host key : Bytes} (routes : TlsEncryptedFrame.Routes f (some key)) (same : eqIgnoreAsciiCase key host = true) :
    r.RoutesLowered f host ↔ r.Plain key := by
  have expected : r.expected host = r.expected key := by
    have same : MatchStrategy.lowercase key = MatchStrategy.lowercase host := eq_of_beq same
    rw [MatchingRouter.expected, MatchingRouter.expected, same]
  rw [RoutesLowered, routes.2, expected, ← selected_eq_iff built]
  constructor
  · rintro ⟨key', same, selected, -⟩
    rw [← Option.some.inj same] at selected
    exact selected
  · intro selected
    exact ⟨key, rfl, selected, fun none => route_of_none (selected.trans none)⟩

/-- Two frames whose hosts differ in the case of their letters are both routed to the first entry that matches the
host in lower case exactly when both hosts are written plainly where that entry looks. -/
theorem ignoresCase_iff {r : MatchingRouter D} (built : ∀ m ∈ r.matchers, m.1.Built) {f g : TlsEncryptedFrame}
    {host host' : Bytes} (routes : TlsEncryptedFrame.Routes f (some host))
    (routes' : TlsEncryptedFrame.Routes g (some host')) (same : eqIgnoreAsciiCase host' host = true) :
    r.RoutesLowered f host ∧ r.RoutesLowered g host ↔ r.Plain host ∧ r.Plain host' :=
  and_congr (routesLowered_iff built routes (beq_self_eq_true _)) (routesLowered_iff built routes' same)

/-- A ClientHello that asks for a host. -/
def hello (host : Bytes) (fits : ([.serverName [⟨0, host⟩]].flatMap Extension.encode).length < 2 ^ 16) :
    ClientHello where
  version := (3, 3)
  random := Vector.replicate 32 0
  sessionId := []
  sessionId_fits := by decide
  cipherSuites := [0, 156]
  cipherSuites_fit := by decide
  compressionMethods := [0]
  compressionMethods_fit := by decide
  extensions := some ⟨[.serverName [⟨0, host⟩]], fits⟩

/-- The key of this ClientHello is the host. -/
lemma routes_hello (host : Bytes) (fits : ([.serverName [⟨0, host⟩]].flatMap Extension.encode).length < 2 ^ 16) :
    TlsEncryptedFrame.Routes ⟨(hello host fits).encode, .handshake⟩ (some host) :=
  TlsEncryptedFrame.routes_of_payload (TlsEncryptedFrame.handshakePayload_bare _ (List.prefix_refl _))
    (TlsEncryptedFrame.messageSni_encode _)

/-- A tenant with all hosts below a domain, and a route for all other hosts. -/
def tenants : MatchingRouter Nat :=
  ⟨[(.ofSuffix (lit ".Example.com"), fun _ => .ok 0), (.ofContains [], fun _ => .ok 1)]⟩

/-- Its strategies were made by the constructors. -/
lemma tenants_built : ∀ m ∈ tenants.matchers, m.1.Built := by
  intro m mem
  rcases List.mem_pair.1 mem with rfl | rfl
  · exact .suffix
  · exact .contains

/-- Capital letters in front of the suffix make no difference. -/
theorem ignoresCase_iff_label :
    tenants.RoutesLowered ⟨(hello (lit "api.example.com") (by decide)).encode, .handshake⟩ (lit "api.example.com") ∧
      tenants.RoutesLowered ⟨(hello (lit "API.example.com") (by decide)).encode, .handshake⟩
        (lit "api.example.com") := by
  refine (ignoresCase_iff tenants_built (routes_hello _ _) (routes_hello _ _) (by decide)).2 ⟨?_, ?_⟩
  · intro m first
    cases first
    show MatchStrategy.LowerCase _
    decide
  · intro m first
    cases first
    show MatchStrategy.LowerCase _
    decide

/-- Capital letters in the suffix lead to the other route. -/
theorem not_ignoresCase_domain :
    ¬ ∀ (r : MatchingRouter Nat) (f g : TlsEncryptedFrame) (host host' : Bytes), (∀ m ∈ r.matchers, m.1.Built) →
      TlsEncryptedFrame.Routes f (some host) → TlsEncryptedFrame.Routes g (some host') →
      eqIgnoreAsciiCase host' host = true → r.RoutesLowered f host ∧ r.RoutesLowered g host := by
  intro all
  have routes := routes_hello (lit "api.EXAMPLE.com") (by decide)
  obtain ⟨-, key, same, selected, -⟩ := all tenants _ _ (lit "api.example.com") _ tenants_built
    (routes_hello _ (by decide)) routes (by decide)
  rw [routes.2, Option.some.injEq] at same
  subst same
  exact absurd selected (by decide)

end MatchingRouter

end Railscale.Tls
