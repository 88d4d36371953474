import Railscale.Atom.Frame
import Railscale.Lib.Split

/-!
# The routers of TLS destinations

Model of the part of `trezorcarriage/src/destination.rs` and `client.rs` that reads an authority off a routing key:
both routers derive from it the address to dial and the name to verify, one by the last colon and the other by
the first. `ServerName::try_from` is not in the repository: what it says to a text is the parameter `check`. One router
asks it before it dials, and the other behind that. `readsAlike_iff` says which authorities they read alike.
-/

namespace Railscale.Tls

/-- Rust `rustls::pki_types::ServerName`: a text that `ServerName::try_from` has nothing against. -/
@[ext]
structure Pki.ServerName (check : Str → Option String) where
  text : Str
  accepted : check text = none

/-- Rust `ServerName::try_from`, with the text of its error. -/
def Pki.ServerName.tryFrom (check : Str → Option String) (host : Str) : Except String (Pki.ServerName check) :=
  match accepted : check host with
  | none => .ok ⟨host, accepted⟩
  | some err => .error err

/-- A router that dials: the address, and the name that it verifies behind it. -/
structure Connect (check : Str → Option String) where
  addr : Str
  sni : Except RailscaleError (Pki.ServerName check)

/-- Rust `TlsRouter`. -/
structure TlsRouter where
  fixedAddr : Option Str
  sniHostname : Option Str

/-- Rust `TlsRouter::from_routing_key`. -/
def TlsRouter.fromRoutingKey : TlsRouter := ⟨none, none⟩

/-- Rust `TlsRouter::connect`, up to the handshake. The name is checked behind the dial. -/
def TlsRouter.connect (check : Str → Option String) (addr sniHostname : Str) : Connect check where
  addr := addr
  sni := (Pki.ServerName.tryFrom check sniHostname).mapError fun e =>
    .ofKind (.routingFailed ("invalid SNI hostname '" ++ sniHostname.string ++ "': " ++ e))

/-- Rust `TlsRouter::route`, up to the handshake. `display` is the text of a `Utf8Error`. -/
def TlsRouter.route (check : Str → Option String) (display : Bytes → String) (r : TlsRouter) (routingKey : Bytes) :
    Except RailscaleError (Connect check) :=
  match r.fixedAddr, r.sniHostname with
  | some addr, some sni => .ok (connect check addr sni)
  | _, _ =>
    match Str.fromUtf8 routingKey with
    | none => .error (.ofKind (.routingFailed ("routing key not UTF-8: " ++ display routingKey)))
    | some key =>
      let (host, port) :=
        match Str.rfind 58 key with
        | some pos => (key.take pos, key.drop (pos + 1))
        | none => (key, Str.lit "443")
      let addr := host ++ Str.lit ":" ++ port
      .ok (connect check addr host)

/-- Rust `RoutingStrategy`. -/
inductive RoutingStrategy where
  | fixed (addr : Str)
  | fromKey

/-- Rust `TlsClientRouter`. -/
structure TlsClientRouter where
  strategy : RoutingStrategy

namespace TlsClientRouter

/-- Rust `TlsClientRouter::from_routing_key`. -/
def fromRoutingKey : TlsClientRouter := ⟨.fromKey⟩

/-- Rust `TlsClientRouter::resolve_addr`. -/
def resolveAddr (r : TlsClientRouter) (routingKey : Bytes) : Except RailscaleError Str :=
  match r.strategy with
  | .fixed addr => .ok addr
  | .fromKey =>
    match Str.fromUtf8 routingKey with
    | none => .error (.ofKind (.routingFailed "invalid UTF-8 in routing key"))
    | some key =>
      let host := key.upTo 47
      if host.isEmpty then .error (.ofKind (.routingFailed "empty host in routing key"))
      else if host.contains 58 then .ok host
      else .ok (host ++ Str.lit ":443")

/-- Rust `TlsClientRouter::resolve_sni`. -/
def resolveSni (check : Str → Option String) (addr : Str) : Except RailscaleError (Pki.ServerName check) :=
  let host := addr.upTo 58
  (Pki.ServerName.tryFrom check host).mapError fun _ =>
    .ofKind (.routingFailed ("invalid SNI hostname: " ++ host.string))

/-- Rust `TlsClientRouter::route`, up to the handshake. The name is checked before the dial. -/
def route (check : Str → Option String) (r : TlsClientRouter) (routingKey : Bytes) :
    Except RailscaleError (Connect check) := do
  let addr ← r.resolveAddr routingKey
  let sni ← resolveSni check addr
  return ⟨addr, .ok sni⟩

end TlsClientRouter

/-! ## Authorities -/

/-- Letters and digits. -/
def isAlphanumeric (c : Nat) : Bool := (48 ≤ c && c ≤ 57) || (65 ≤ c && c ≤ 90) || (97 ≤ c && c ≤ 122)

/-- The characters of a registered name, an IPv4 address included. -/
def isRegName (c : Nat) : Bool := isAlphanumeric c || (Str.lit "-._~%!$&'()*+,;=").contains c

/-- The characters of an IPv6 address. -/
def isIpv6 (c : Nat) : Bool := (Str.lit "0123456789ABCDEFabcdef:.").contains c

/-- The host of an authority. -/
inductive Host where
  | regName (name : Str) (chars : ∀ c ∈ name, isRegName c = true)
  | ipv6 (addr : Str) (chars : ∀ c ∈ addr, isIpv6 c = true) (colons : 2 ≤ addr.count 58)

/-- The host as it is written: an IPv6 address stands in brackets. -/
def Host.text : Host → Str
  | regName name _ => name
  | ipv6 addr _ _ => Str.lit "[" ++ addr ++ Str.lit "]"

/-- An authority: a host, and a port or none. -/
structure Authority where
  host : Host
  port : Option Str
  digits : ∀ p, port = some p → ∀ c ∈ p, (48 ≤ c ∧ c ≤ 57)

namespace Authority

/-- The authority as it is written. -/
def text (a : Authority) : Str := a.host.text ++ a.port.elim [] fun p => Str.lit ":" ++ p

/-- The address that an authority stands for: port 443 when it gives none. -/
def addr (a : Authority) : Str :=
  a.host.text ++ Str.lit ":" ++ (a.port.filter fun p => !p.isEmpty).getD (Str.lit "443")

/-- Both routers dial the address of the authority and verify its host. -/
def ReadsAlike (check : Str → Option String) (a : Authority) (routingKey : Bytes) : Prop :=
  ∃ name : Pki.ServerName check, name.text = a.host.text ∧
    (∀ display, TlsRouter.route check display .fromRoutingKey routingKey = .ok ⟨a.addr, .ok name⟩) ∧
    TlsClientRouter.route check .fromRoutingKey routingKey = .ok ⟨a.addr, .ok name⟩

/-- The authority is not empty, its host is no IPv6 address and a valid server name, and there are digits behind a
colon. -/
structure Plain (check : Str → Option String) (a : Authority) : Prop where
  host : ∀ addr chars colons, a.host ≠ .ipv6 addr chars colons
  port : a.port ≠ some []
  written : a.text ≠ []
  accepted : check a.host.text = none

/-! ## Where the colons are -/

/-- A registered name has neither a colon nor a slash. -/
lemma isRegName_ne {c : Nat} (name : isRegName c = true) : c ≠ 58 ∧ c ≠ 47 := by
  constructor
  · rintro rfl
    exact absurd name (by decide)
  · rintro rfl
    exact absurd name (by decide)

/-- An IPv6 address has no slash. -/
lemma isIpv6_ne {c : Nat} (addr : isIpv6 c = true) : c ≠ 47 := by
  rintro rfl
  exact absurd addr (by decide)

/-- There is no slash in an authority. -/
lemma slash_not_mem (a : Authority) : 47 ∉ a.text := by
  intro mem
  rw [text, List.mem_append] at mem
  rcases mem with mem | mem
  · cases host : a.host with
    | regName name chars =>
      rw [host] at mem
      exact (isRegName_ne (chars _ mem)).2 rfl
    | ipv6 addr chars colons =>
      rw [host, Host.text, List.append_assoc, List.mem_append, List.mem_append] at mem
      rcases mem with mem | mem | mem
      · exact absurd mem (by decide)
      · exact isIpv6_ne (chars _ mem) rfl
      · exact absurd mem (by decide)
  · cases port : a.port with
    | none =>
      rw [port] at mem
      cases mem
    | some p =>
      rw [port, Option.elim_some, List.mem_append] at mem
      rcases mem with mem | mem
      · exact absurd mem (by decide)
      · exact absurd (a.digits p port 47 mem).1 (by decide)

/-- A port has no colon. -/
lemma colon_not_mem_port {a : Authority} {p : Str} (port : a.port = some p) : 58 ∉ p :=
  fun mem => absurd (a.digits p port 58 mem).2 (by decide)

/-! ## What the routers make of a text -/

section routes

variable {check : Str → Option String} {routingKey : Bytes} {host port : Str}

/-- A text that nothing is said against is a server name. -/
lemma tryFrom_accepted (accepted : check host = none) : Pki.ServerName.tryFrom check host = .ok ⟨host, accepted⟩ := by
  rw [Pki.ServerName.tryFrom]
  split
  · rfl
  · rename_i err against
    cases against.symm.trans accepted

/-- A server name is the text it is made from. -/
lemma text_of_tryFrom {name : Pki.ServerName check} (made : Pki.ServerName.tryFrom check host = .ok name) :
    name.text = host := by
  rw [Pki.ServerName.tryFrom] at made
  split at made
  · cases made
    rfl
  · cases made

/-- The router on a text without a colon. -/
lemma tls_noColon (display : Bytes → String) (utf8 : Str.fromUtf8 routingKey = some host) (colon : 58 ∉ host) :
    TlsRouter.route check display .fromRoutingKey routingKey =
      .ok (TlsRouter.connect check (host ++ Str.lit ":443") host) := by
  simp only [TlsRouter.route, TlsRouter.fromRoutingKey, utf8, Str.rfind_none colon, List.append_assoc]
  rfl

/-- The router on a text whose last colon is in front of the port. -/
lemma tls_colon (display : Bytes → String) (utf8 : Str.fromUtf8 routingKey = some (host ++ Str.lit ":" ++ port))
    (colon : 58 ∉ port) :
    TlsRouter.route check display .fromRoutingKey routingKey =
      .ok (TlsRouter.connect check (host ++ Str.lit ":" ++ port) host) := by
  have last : Str.rfind 58 (host ++ Str.lit ":" ++ port) = some host.length := by
    rw [List.append_assoc]
    exact Str.rfind_append_cons colon
  have take : (host ++ Str.lit ":" ++ port).take host.length = host := by
    rw [List.append_assoc, List.take_left]
  have drop : (host ++ Str.lit ":" ++ port).drop (host.length + 1) = port := List.drop_left' List.length_append
  simp only [TlsRouter.route, TlsRouter.fromRoutingKey, utf8, last, take, drop]

/-- A valid name is verified. -/
lemma connect_accepted (addr : Str) (accepted : check host = none) :
    TlsRouter.connect check addr host = ⟨addr, .ok ⟨host, accepted⟩⟩ := by
  rw [TlsRouter.connect, tryFrom_accepted accepted]
  rfl

/-- The address of the client router, for a text without a slash. -/
lemma resolveAddr_eq {text : Str} (utf8 : Str.fromUtf8 routingKey = some text) (slash : 47 ∉ text) :
    TlsClientRouter.fromRoutingKey.resolveAddr routingKey =
      if text.isEmpty then .error (.ofKind (.routingFailed "empty host in routing key"))
      else if text.contains 58 then .ok text
      else .ok (text ++ Str.lit ":443") := by
  simp only [TlsClientRouter.resolveAddr, TlsClientRouter.fromRoutingKey, utf8, Str.upTo_of_not_mem slash]

/-- The name of the client router is what stands in front of the first colon. -/
lemma resolveSni_eq_ok {addr : Str} {name : Pki.ServerName check} :
    TlsClientRouter.resolveSni check addr = .ok name ↔ name.text = addr.upTo 58 := by
  rw [TlsClientRouter.resolveSni]
  constructor
  · intro verified
    cases made : Pki.ServerName.tryFrom check (addr.upTo 58) with
    | error err =>
      rw [made] at verified
      cases verified
    | ok name' =>
      rw [made] at verified
      cases verified
      exact text_of_tryFrom made
  · intro same
    have accepted : check (addr.upTo 58) = none := same ▸ name.accepted
    rw [tryFrom_accepted accepted]
    exact congrArg Except.ok (Pki.ServerName.ext same.symm)

/-- When the client router dials, it has an address and a name. -/
lemma client_route_iff {addr : Str} {name : Pki.ServerName check} :
    TlsClientRouter.route check .fromRoutingKey routingKey = .ok ⟨addr, .ok name⟩ ↔
      TlsClientRouter.fromRoutingKey.resolveAddr routingKey = .ok addr ∧ name.text = addr.upTo 58 := by
  rw [TlsClientRouter.route, ← resolveSni_eq_ok]
  cases TlsClientRouter.fromRoutingKey.resolveAddr routingKey with
  | error err =>
    constructor
    · intro routes
      cases routes
    · rintro ⟨resolved, -⟩
      cases resolved
  | ok addr' =>
    show (TlsClientRouter.resolveSni check addr').bind _ = _ ↔ _
    cases verified : TlsClientRouter.resolveSni check addr' with
    | error err =>
      constructor
      · intro routes
        cases routes
      · rintro ⟨same, named⟩
        obtain rfl := Except.ok.inj same
        cases verified.symm.trans named
    | ok name' =>
      constructor
      · intro routes
        cases routes
        exact ⟨rfl, verified⟩
      · rintro ⟨same, named⟩
        obtain rfl := Except.ok.inj same
        obtain rfl := Except.ok.inj (verified.symm.trans named)
        rfl

end routes

/-! ## Agreement -/

section agreement

variable {check : Str → Option String} {a : Authority} {routingKey : Bytes}

/-- Both routers read the same address and the host of the authority off a text: they read the authority alike when that
is its address, and the host is a valid name. -/
lemma readsAlike_of_same {addr : Str}
    (tls : ∀ display, TlsRouter.route check display .fromRoutingKey routingKey =
      .ok (TlsRouter.connect check addr a.host.text))
    (client : TlsClientRouter.fromRoutingKey.resolveAddr routingKey = .ok addr) (sni : addr.upTo 58 = a.host.text) :
    a.ReadsAlike check routingKey ↔ a.addr = addr ∧ check a.host.text = none := by
  constructor
  · rintro ⟨name, text, -, routes⟩
    obtain ⟨same, -⟩ := client_route_iff.1 routes
    exact ⟨Except.ok.inj (same.symm.trans client), text ▸ name.accepted⟩
  · rintro ⟨rfl, accepted⟩
    refine ⟨⟨a.host.text, accepted⟩, rfl, fun display => ?_, client_route_iff.2 ⟨client, sni.symm⟩⟩
    rw [tls, connect_accepted _ accepted]

/-- A name without a port. -/
lemma readsAlike_noPort {name : Str} {chars : ∀ c ∈ name, isRegName c = true} (host : a.host = .regName name chars)
    (port : a.port = none) (utf8 : Str.fromUtf8 routingKey = some name) :
    a.ReadsAlike check routingKey ↔ name ≠ [] ∧ check name = none := by
  have colon : 58 ∉ name := fun mem => (isRegName_ne (chars _ mem)).1 rfl
  have slash : 47 ∉ name := fun mem => (isRegName_ne (chars _ mem)).2 rfl
  have addr : a.addr = name ++ Str.lit ":443" := by
    rw [Authority.addr, host, port, List.append_assoc]
    rfl
  have text : a.host.text = name := by rw [host]; rfl
  have resolved := resolveAddr_eq utf8 slash
  by_cases empty : name = []
  · -- the client router gives up
    refine iff_of_false ?_ fun both => both.1 empty
    rintro ⟨sni, -, -, routes⟩
    obtain ⟨same, -⟩ := client_route_iff.1 routes
    rw [resolved, if_pos (List.isEmpty_iff.2 empty)] at same
    cases same
  · have contains : ¬ name.contains 58 = true := by
      rw [List.contains_iff_mem]
      exact colon
    rw [if_neg (by rw [List.isEmpty_iff]; exact empty), if_neg contains] at resolved
    have sni : (name ++ Str.lit ":443").upTo 58 = a.host.text := text ▸ Str.upTo_append_cons colon _
    have tls : ∀ display, TlsRouter.route check display .fromRoutingKey routingKey =
        .ok (TlsRouter.connect check (name ++ Str.lit ":443") a.host.text) := by
      intro display
      rw [text]
      exact tls_noColon display utf8 colon
    rw [readsAlike_of_same tls resolved sni, text]
    exact ⟨fun both => ⟨empty, both.2⟩, fun both => ⟨addr, both.2⟩⟩

/-- A name with a port. -/
lemma readsAlike_port {name p : Str} {chars : ∀ c ∈ name, isRegName c = true} (host : a.host = .regName name chars)
    (port : a.port = some p) (utf8 : Str.fromUtf8 routingKey = some (name ++ Str.lit ":" ++ p)) :
    a.ReadsAlike check routingKey ↔ p ≠ [] ∧ check name = none := by
  have colon : 58 ∉ name := fun mem => (isRegName_ne (chars _ mem)).1 rfl
  have text : a.host.text = name := by rw [host]; rfl
  have slash : 47 ∉ name ++ Str.lit ":" ++ p := by
    have slash := a.slash_not_mem
    rw [Authority.text, text, port, Option.elim_some, ← List.append_assoc] at slash
    exact slash
  have resolved := resolveAddr_eq utf8 slash
  have empty : ¬ (name ++ Str.lit ":" ++ p).isEmpty = true := by simp [Str.lit]
  have contains : (name ++ Str.lit ":" ++ p).contains 58 = true := by simp [Str.lit]
  rw [if_neg empty, if_pos contains] at resolved
  have sni : (name ++ Str.lit ":" ++ p).upTo 58 = a.host.text := by
    rw [List.append_assoc, text]
    exact Str.upTo_append_cons colon p
  have addr : a.addr = name ++ Str.lit ":" ++ p ↔ p ≠ [] := by
    rw [Authority.addr, text, port, List.append_right_inj]
    cases p with
    | nil => decide
    | cons c p => exact iff_of_true rfl (List.cons_ne_nil c p)
  have tls : ∀ display, TlsRouter.route check display .fromRoutingKey routingKey =
      .ok (TlsRouter.connect check (name ++ Str.lit ":" ++ p) a.host.text) := by
    intro display
    rw [text]
    exact tls_colon display utf8 (colon_not_mem_port port)
  rw [readsAlike_of_same tls resolved sni, addr, text]

/-- A host with a colon is not read alike: the client router stops at the colon. -/
lemma not_readsAlike_of_colon (colon : 58 ∈ a.host.text) : ¬ a.ReadsAlike check routingKey := by
  rintro ⟨name, text, -, client⟩
  rw [← text, (client_route_iff.1 client).2] at colon
  exact Str.not_mem_upTo 58 _ colon

/-- An IPv6 address has colons. -/
lemma colon_mem_ipv6 {addr : Str} {chars : ∀ c ∈ addr, isIpv6 c = true} {colons : 2 ≤ addr.count 58}
    (host : a.host = .ipv6 addr chars colons) : 58 ∈ a.host.text := by
  have inside : 58 ∈ addr := List.count_pos_iff.1 (Nat.lt_of_lt_of_le Nat.zero_lt_two colons)
  rw [host, Host.text]
  exact List.mem_append_left _ (List.mem_append_right _ inside)

/-- The two routers read an authority alike exactly when it is plain. -/
theorem readsAlike_iff (utf8 : Str.fromUtf8 routingKey = some a.text) :
    a.ReadsAlike check routingKey ↔ a.Plain check := by
  cases host : a.host with
  | ipv6 addr chars colons =>
    constructor
    · intro alike
      exact absurd alike (not_readsAlike_of_colon (colon_mem_ipv6 host))
    · intro plain
      exact absurd host (plain.host addr chars colons)
  | regName name chars =>
    have noIpv6 : ∀ addr chars colons, a.host ≠ .ipv6 addr chars colons := by
      rw [host]
      nofun
    have same : a.host.text = name := by rw [host]; rfl
    have text := utf8
    rw [Authority.text, same] at text
    cases port : a.port with
    | none =>
      rw [port, Option.elim_none, List.append_nil] at text
      rw [readsAlike_noPort host port text]
      constructor
      · rintro ⟨ne, accepted⟩
        refine ⟨noIpv6, ?_, ?_, same ▸ accepted⟩
        · rw [port]
          nofun
        · rw [Authority.text, same, port]
          exact fun none => ne ((List.append_nil _).symm.trans none)
      · intro plain
        refine ⟨?_, same ▸ plain.accepted⟩
        rintro rfl
        apply plain.written
        rw [Authority.text, same, port]
        rfl
    | some p =>
      rw [port, Option.elim_some, ← List.append_assoc] at text
      rw [readsAlike_port host port text]
      constructor
      · rintro ⟨ne, accepted⟩
        refine ⟨noIpv6, ?_, ?_, same ▸ accepted⟩
        · rw [port]
          exact fun same => ne (Option.some.inj same)
        · rw [Authority.text, same, port]
          simp [Str.lit]
      · intro plain
        refine ⟨?_, same ▸ plain.accepted⟩
        rintro rfl
        exact plain.port port

/-- A host with port 8443. -/
def on8443 (host : Host) : Authority where
  host := host
  port := some (Str.lit "8443")
  digits p same := by
    rw [← Option.some.inj same]
    decide

/-- What is said against a host that is not made of letters and digits. -/
def alphanumeric (host : Str) : Option String :=
  if host ≠ [] ∧ ∀ c ∈ host, isAlphanumeric c = true then none else some "invalid dns name"

/-- A name with a port. -/
theorem readsAlike_iff_localhost :
    (on8443 (.regName (Str.lit "localhost") (by decide))).ReadsAlike alphanumeric (Bytes.lit "localhost:8443") := by
  refine (readsAlike_iff (by decide +kernel)).2 ⟨nofun, ?_, ?_, ?_⟩
  · decide
  · decide
  · decide

/-- An IPv6 address with a port: the host that the client router takes for a name is "[", whatever is said against
it. -/
theorem not_readsAlike_ipv6 :
    Str.fromUtf8 (Bytes.lit "[::1]:8443") = some (on8443 (.ipv6 (Str.lit "::1") (by decide) (by decide))).text ∧
      ∀ check, ¬ (on8443 (.ipv6 (Str.lit "::1") (by decide) (by decide))).ReadsAlike check
        (Bytes.lit "[::1]:8443") := by
  refine ⟨by decide +kernel, fun check => not_readsAlike_of_colon ?_⟩
  exact colon_mem_ipv6 rfl

end agreement

end Authority

end Railscale.Tls
