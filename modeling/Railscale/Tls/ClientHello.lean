import Railscale.Tls.Frame

/-!
# ClientHello

The messages that `extract_sni` is for: a ClientHello with its length-prefixed fields, the extensions and,
among them, the names the client asks for. `routes_clientHello` says that the routing key of such a message
is its host name, and that a message that is cut off has none.

The walk over the fields is followed on any prefix of the message (`extensionsBlock_front`): each check
either finds that the bytes end there or reads the length that was written.
-/

namespace Railscale.Tls

open Bytes

/-! ## The messages -/

/-- An entry of a server_name list. -/
structure ServerName where
  nameType : UInt8
  name : Bytes
  deriving DecidableEq

/-- Its bytes: the type, the length and the name. -/
def ServerName.encode (n : ServerName) : Bytes := n.nameType :: (beU16 n.name.length ++ n.name)

/-- The first name of type 0. -/
def firstHostName (names : List ServerName) : Option Bytes :=
  (names.find? (·.nameType = 0)).map ServerName.name

/-- An extension: server_name with its names, or any other type with any data. -/
inductive Extension where
  | serverName (names : List ServerName)
  | other (extType : UInt16) (notServerName : extType ≠ 0) (data : Bytes)

namespace Extension

/-- Its type. -/
def extType : Extension → Nat
  | serverName _ => 0
  | other extType _ _ => extType.toNat

/-- Its data: the list of names with its length, or as it is. -/
def data : Extension → Bytes
  | serverName names => beU16 (names.flatMap ServerName.encode).length ++ names.flatMap ServerName.encode
  | other _ _ data => data

/-- Its bytes: the type, the length and the data. -/
def encode (e : Extension) : Bytes := beU16 e.extType ++ (beU16 e.data.length ++ e.data)

end Extension

/-- The names of the first server_name extension. -/
def firstServerName (list : List Extension) : Option (List ServerName) :=
  list.findSome? fun
    | .serverName names => some names
    | .other _ _ _ => none

/-- An extensions block. -/
structure Extensions where
  list : List Extension
  fits : (list.flatMap Extension.encode).length < 2 ^ 16

/-- The block with its length. -/
def Extensions.encode (x : Extensions) : Bytes :=
  beU16 (x.list.flatMap Extension.encode).length ++ x.list.flatMap Extension.encode

/-- A well-formed ClientHello. -/
structure ClientHello where
  version : UInt8 × UInt8
  random : Vector UInt8 32
  sessionId : Bytes
  sessionId_fits : sessionId.length < 2 ^ 8
  cipherSuites : Bytes
  cipherSuites_fit : cipherSuites.length < 2 ^ 16
  compressionMethods : Bytes
  compressionMethods_fit : compressionMethods.length < 2 ^ 8
  extensions : Option Extensions

/-- The three bytes of a number below `2 ^ 24`, the high one first. -/
def beU24 (n : Nat) : Bytes := UInt8.ofNat (n / 65536) :: beU16 n

namespace ClientHello

/-- The fields in front of the session id. -/
def fixed (h : ClientHello) : Bytes := h.version.1 :: h.version.2 :: h.random.toList

/-- The fields from the session id up to the extensions. -/
def fields (h : ClientHello) : Bytes :=
  UInt8.ofNat h.sessionId.length :: (h.sessionId ++ (beU16 h.cipherSuites.length ++
    (h.cipherSuites ++ UInt8.ofNat h.compressionMethods.length :: h.compressionMethods)))

/-- The message without its type and length. -/
def body (h : ClientHello) : Bytes :=
  h.fixed ++ (h.fields ++ (h.extensions.elim [] Extensions.encode))

/-- The bytes of the handshake message. -/
def encode (h : ClientHello) : Bytes := 1 :: (beU24 h.body.length ++ h.body)

/-- The message up to its extensions. -/
def front (h : ClientHello) : Bytes := 1 :: (beU24 h.body.length ++ (h.fixed ++ h.fields))

/-- The message is its front and its extensions. -/
lemma encode_eq (h : ClientHello) : h.encode = h.front ++ h.extensions.elim [] Extensions.encode := by
  simp [encode, front, body]

/-- The fields of a fixed length, with the type and the length of the message. -/
lemma length_fixed (h : ClientHello) : (1 :: (beU24 h.body.length ++ h.fixed) : Bytes).length = 38 := by
  simp [fixed, beU24]

/-- The length of the front. -/
lemma length_front (h : ClientHello) :
    h.front.length = 42 + h.sessionId.length + h.cipherSuites.length + h.compressionMethods.length := by
  simp only [front, fixed, fields, beU24, List.length_cons, List.length_append, length_beU16, Vector.length_toList]
  omega

/-- The first name of type 0 in the first server_name extension. -/
def hostName (h : ClientHello) : Option Bytes :=
  (firstServerName (h.extensions.elim [] Extensions.list)).bind firstHostName

end ClientHello

namespace TlsEncryptedFrame

/-! ## The loops -/

/-- The loop over the names finds the first one of type 0. -/
lemma nameLoop_encode (names : List ServerName) (fits : (names.flatMap ServerName.encode).length < 2 ^ 16)
    (l r : Bytes) :
    nameLoop (l ++ (names.flatMap ServerName.encode ++ r))
        (l.length + (names.flatMap ServerName.encode).length) l.length =
      .ok (firstHostName names) := by
  induction names generalizing l with
  | nil =>
    rw [nameLoop, if_neg (by simp)]
    rfl
  | cons n names ih =>
    rw [List.flatMap_cons] at fits ⊢
    generalize hd : l ++ (n.encode ++ names.flatMap ServerName.encode ++ r) = d
    have size : n.encode.length = 3 + n.name.length := by
      simp only [ServerName.encode, List.length_cons, List.length_append, length_beU16]
      omega
    rw [List.length_append] at fits ⊢
    have whole : d = l ++ n.nameType ::
        (beU16 n.name.length ++ (n.name ++ (names.flatMap ServerName.encode ++ r))) := by
      rw [← hd, ServerName.encode]
      simp only [List.append_assoc, List.cons_append]
    have behind : d = l ++ [n.nameType] ++
        (beU16 n.name.length ++ (n.name ++ (names.flatMap ServerName.encode ++ r))) := by
      rw [whole, List.append_assoc]
      rfl
    have type : byteAt d l.length = .ok n.nameType := byteAt_eq whole rfl
    have nameLen : u16At d (l.length + 1) = .ok n.name.length :=
      u16At_eq behind (by simp) (by omega)
    rw [nameLoop, if_pos (by omega), type, ok_bind, nameLen, ok_bind, if_neg (by omega)]
    -- the entry fits into the list, so the loop takes its name or goes on behind it
    by_cases host : n.nameType = 0
    · have name : slice d (l.length + 3) (l.length + 3 + n.name.length) = .ok n.name := by
        rw [behind, ← List.append_assoc]
        exact slice_append (by simp) (by simp)
      rw [if_pos host, name, firstHostName, List.find?_cons_of_pos (by simpa using host)]
      rfl
    · have rest := ih (by omega) (l ++ n.encode)
      rw [List.append_assoc, ← List.append_assoc n.encode, hd, List.length_append, size] at rest
      rw [if_neg host, firstHostName, List.find?_cons_of_neg (by simpa using host), ← firstHostName, ← rest, size]
      congr 1 <;> omega

/-- A server_name extension is read as its first name of type 0. -/
lemma serverName_encode (names : List ServerName) (l r : Bytes)
    (fits : (Extension.serverName names).data.length < 2 ^ 16) :
    serverName (l ++ ((Extension.serverName names).data ++ r)) l.length (Extension.serverName names).data.length =
      .ok (firstHostName names) := by
  have size : (Extension.serverName names).data.length = 2 + (names.flatMap ServerName.encode).length := by
    simp only [Extension.data, List.length_append, length_beU16]
  have listLen : u16At (l ++ ((Extension.serverName names).data ++ r)) l.length =
      .ok (names.flatMap ServerName.encode).length := by
    refine u16At_prefix (l := l) (r := names.flatMap ServerName.encode ++ r) ?_ rfl (by simp; omega) (by omega)
    rw [Extension.data, List.append_assoc]
  rw [serverName, if_neg (by omega), listLen, ok_bind]
  have loop := nameLoop_encode names (by omega)
    (l ++ beU16 (names.flatMap ServerName.encode).length) r
  rw [List.append_assoc, ← List.append_assoc (beU16 _), ← Extension.data, List.length_append,
    length_beU16] at loop
  dsimp only
  rw [if_neg (by omega)]
  exact loop

/-- The type has two bytes. -/
lemma extType_lt (e : Extension) : e.extType < 2 ^ 16 := by
  cases e with
  | serverName names => exact Nat.two_pow_pos 16
  | other extType _ _ => exact extType.toNat_lt

/-- The loop over the extensions finds the first server_name extension. -/
lemma extensionLoop_encode (list : List Extension) (fits : (list.flatMap Extension.encode).length < 2 ^ 16)
    (l r : Bytes) :
    extensionLoop (l ++ (list.flatMap Extension.encode ++ r))
        (l.length + (list.flatMap Extension.encode).length) l.length =
      .ok ((firstServerName list).bind firstHostName) := by
  induction list generalizing l with
  | nil =>
    rw [extensionLoop, if_neg (by simp)]
    rfl
  | cons e list ih =>
    rw [List.flatMap_cons] at fits ⊢
    generalize hd : l ++ (e.encode ++ list.flatMap Extension.encode ++ r) = d
    have size : e.encode.length = 4 + e.data.length := by
      simp only [Extension.encode, List.length_append, length_beU16]
      omega
    rw [List.length_append] at fits ⊢
    have whole : d = l ++ (beU16 e.extType ++
        (beU16 e.data.length ++ (e.data ++ (list.flatMap Extension.encode ++ r)))) := by
      rw [← hd, Extension.encode]
      simp only [List.append_assoc]
    have behind : d = l ++ beU16 e.extType ++
        (beU16 e.data.length ++ (e.data ++ (list.flatMap Extension.encode ++ r))) := by
      rw [whole, List.append_assoc]
    have type : u16At d l.length = .ok e.extType := u16At_eq whole rfl (extType_lt e)
    have dataLen : u16At d (l.length + 2) = .ok e.data.length :=
      u16At_eq behind (by simp) (by omega)
    rw [extensionLoop, if_pos (by omega), type, ok_bind, dataLen, ok_bind, if_neg (by omega)]
    -- the first server_name extension decides, whatever follows it
    cases e with
    | serverName names =>
      have found := serverName_encode names
        (l ++ beU16 (Extension.serverName names).extType ++ beU16 (Extension.serverName names).data.length)
        (list.flatMap Extension.encode ++ r) (by omega)
      rw [List.append_assoc _ (beU16 _), ← behind] at found
      have zero : (Extension.serverName names).extType = 0 := rfl
      rw [List.length_append, List.length_append, length_beU16, length_beU16] at found
      rw [if_pos zero]
      exact found
    | other extType notServerName data =>
      have rest := ih (by omega) (l ++ (Extension.other extType notServerName data).encode)
      rw [List.append_assoc, ← List.append_assoc (Extension.encode _), hd, List.length_append, size] at rest
      have skip : (Extension.other extType notServerName data).extType ≠ 0 := by
        intro zero
        exact notServerName (UInt16.toNat.inj zero)
      rw [if_neg skip, size]
      refine Eq.trans ?_ rest
      congr 1 <;> omega

/-! ## The fields in front of the extensions -/

/-- A check that ends the walk, when ending it is right. -/
lemma check {α : Type} {c : Prop} [Decidable c] {x y : Checked (Option α)} (stop : c → y = .ok none)
    (go : ¬ c → x = y) : (if c then pure none else x) = y := by
  split
  · rename_i h
    exact (stop h).symm
  · rename_i h
    exact go h

/-- A number below 2 ^ 8 is the byte it makes. -/
lemma toNat_ofNat_lt {n : Nat} (lt : n < 2 ^ 8) : (UInt8.ofNat n).toNat = n := by
  rw [UInt8.toNat_ofNat']
  exact Nat.mod_eq_of_lt lt

/-- On bytes that begin like a ClientHello the walk comes to the length of its extensions, if the bytes go
that far. -/
lemma extensionsBlock_front (h : ClientHello) {d r : Bytes} (pre : d <+: h.front ++ r) :
    extensionsBlock d =
      if d.length < h.front.length + 2 then .ok none
      else do
        let extensionsLen ← u16At d h.front.length
        if d.length < h.front.length + 2 + extensionsLen then return none
        return some (h.front.length + 2, h.front.length + 2 + extensionsLen) := by
  have size := h.length_front
  have start : d <+: 1 :: (beU24 h.body.length ++ h.fixed) ++ UInt8.ofNat h.sessionId.length ::
      (h.sessionId ++ (beU16 h.cipherSuites.length ++ (h.cipherSuites ++
        UInt8.ofNat h.compressionMethods.length :: (h.compressionMethods ++ r)))) := by
    simp only [ClientHello.front, ClientHello.fields, List.append_assoc, List.cons_append] at pre ⊢
    exact pre
  have fixed := h.length_fixed
  -- every check fails on a message that ends there, and all of these end before the extensions
  refine check (fun c => if_pos (by omega)) fun c => ?_
  have msgType : byteAt d 0 = .ok 1 := byteAt_prefix (l := []) start rfl (by omega)
  obtain ⟨_, len1⟩ := byteAt_ok (show 1 < d.length by omega)
  obtain ⟨_, len2⟩ := byteAt_ok (show 2 < d.length by omega)
  obtain ⟨_, len3⟩ := byteAt_ok (show 3 < d.length by omega)
  rw [msgType, ok_bind, if_neg (not_not.2 rfl), len1, ok_bind, len2, ok_bind, len3, ok_bind]
  refine check (fun c => if_pos (by omega)) fun c => ?_
  refine check (fun c => if_pos (by omega)) fun c => ?_
  have sessionIdLen : byteAt d (4 + (2 + 32)) = .ok (UInt8.ofNat h.sessionId.length) :=
    byteAt_prefix start fixed.symm (by omega)
  rw [sessionIdLen, ok_bind, toNat_ofNat_lt h.sessionId_fits]
  refine check (fun c => if_pos (by omega)) fun c => ?_
  refine check (fun c => if_pos (by omega)) fun c => ?_
  have cipherSuitesLen : u16At d (4 + (2 + 32) + 1 + h.sessionId.length) = .ok h.cipherSuites.length := by
    refine u16At_prefix (l := 1 :: (beU24 h.body.length ++ h.fixed) ++ UInt8.ofNat h.sessionId.length :: h.sessionId)
      (r := h.cipherSuites ++ UInt8.ofNat h.compressionMethods.length :: (h.compressionMethods ++ r))
      ?_ ?_ (by omega) h.cipherSuites_fit
    · rw [List.append_assoc]
      exact start
    · rw [List.length_append, fixed, List.length_cons]
      omega
  rw [cipherSuitesLen, ok_bind]
  refine check (fun c => if_pos (by omega)) fun c => ?_
  refine check (fun c => if_pos (by omega)) fun c => ?_
  have compressionLen : byteAt d (4 + (2 + 32) + 1 + h.sessionId.length + 2 + h.cipherSuites.length) =
      .ok (UInt8.ofNat h.compressionMethods.length) := by
    refine byteAt_prefix (l := 1 :: (beU24 h.body.length ++ h.fixed) ++ UInt8.ofNat h.sessionId.length ::
      (h.sessionId ++ (beU16 h.cipherSuites.length ++ h.cipherSuites))) (r := h.compressionMethods ++ r)
      ?_ ?_ (by omega)
    · simp only [List.append_assoc, List.cons_append] at start ⊢
      exact start
    · rw [List.length_append, fixed, List.length_cons, List.length_append, List.length_append, length_beU16]
      omega
  rw [compressionLen, ok_bind, toNat_ofNat_lt h.compressionMethods_fit]
  refine check (fun c => if_pos (by omega)) fun c => ?_
  have here : 4 + (2 + 32) + 1 + h.sessionId.length + 2 + h.cipherSuites.length + 1 + h.compressionMethods.length =
      h.front.length := by
    omega
  rw [here]
  refine check (fun c => if_pos c) fun c => ?_
  rw [if_neg c]

/-- With an extensions block the name is looked for in it. -/
lemma messageSni_some {d : Bytes} {pos extensionsEnd : Nat}
    (block : extensionsBlock d = .ok (some (pos, extensionsEnd))) :
    messageSni d = extensionLoop d extensionsEnd pos := by
  rw [messageSni, block]
  rfl

/-- Without one there is no name. -/
lemma messageSni_none {d : Bytes} (block : extensionsBlock d = .ok none) : messageSni d = .ok none := by
  rw [messageSni, block]
  rfl

/-- What is read of a whole message. -/
lemma messageSni_encode (h : ClientHello) : messageSni h.encode = .ok h.hostName := by
  have whole : h.encode <+: h.front ++ h.extensions.elim [] Extensions.encode := by
    rw [← h.encode_eq]
  have block := extensionsBlock_front h whole
  rw [ClientHello.hostName]
  cases hx : h.extensions with
  | none =>
    have bytes : h.encode = h.front := by
      rw [h.encode_eq, hx]
      exact List.append_nil _
    rw [bytes, if_pos (Nat.lt_add_of_pos_right (by decide))] at block
    rw [bytes]
    exact messageSni_none block
  | some x =>
    have bytes : h.encode = h.front ++ x.encode := by
      rw [h.encode_eq, hx]
      rfl
    have size : x.encode.length = 2 + (x.list.flatMap Extension.encode).length := by
      rw [Extensions.encode, List.length_append, length_beU16]
    have long : ¬ (h.front ++ x.encode).length < h.front.length + 2 := by
      rw [List.length_append]
      omega
    have fits : ¬ (h.front ++ x.encode).length <
        h.front.length + 2 + (x.list.flatMap Extension.encode).length := by
      rw [List.length_append]
      omega
    have len : u16At (h.front ++ x.encode) h.front.length = .ok (x.list.flatMap Extension.encode).length :=
      u16At_prefix (List.prefix_refl _) rfl (Nat.le_of_not_lt long) x.fits
    rw [bytes, if_neg long, len, ok_bind, if_neg fits] at block
    rw [bytes, messageSni_some block]
    have loop := extensionLoop_encode x.list x.fits
      (h.front ++ beU16 (x.list.flatMap Extension.encode).length) []
    rw [List.append_nil, List.append_assoc, List.length_append, length_beU16] at loop
    exact loop

/-- What is read of a message that is cut off before its extensions end. -/
lemma messageSni_cut (h : ClientHello) (hx : h.extensions.isSome = true) {d : Bytes} (pre : d <+: h.encode)
    (cut : d ≠ h.encode) : messageSni d = .ok none := by
  have less : d.length < h.encode.length :=
    Nat.lt_of_le_of_ne pre.length_le fun same => cut (pre.eq_of_length same)
  obtain ⟨x, hx⟩ := Option.isSome_iff_exists.1 hx
  rw [h.encode_eq, hx, Option.elim_some] at pre less
  have block := extensionsBlock_front h pre
  by_cases short : d.length < h.front.length + 2
  · rw [if_pos short] at block
    exact messageSni_none block
  · have beyond : d.length < h.front.length + 2 + (x.list.flatMap Extension.encode).length := by
      rw [Extensions.encode, List.length_append, List.length_append, length_beU16] at less
      omega
    rw [if_neg short, u16At_prefix pre rfl (Nat.le_of_not_lt short) x.fits, ok_bind, if_pos beyond] at block
    exact messageSni_none block

/-! ## Routing keys -/

/-- `routing_key()` returns the key, and does not panic on the way. -/
def Routes (f : TlsEncryptedFrame) (key : Option Bytes) : Prop :=
  f.extractSni = .ok key ∧ Frame.routingKey f = key

/-- The key of a handshake frame is read from its message. -/
lemma routes_of_payload {d d' : Bytes} {key : Option Bytes} (payload : handshakePayload ⟨d, .handshake⟩ = .ok (some d'))
    (sni : messageSni d' = .ok key) : Routes ⟨d, .handshake⟩ key := by
  have extract : extractSni ⟨d, .handshake⟩ = .ok key := by
    rw [extractSni, if_neg (not_not.2 rfl), payload]
    exact sni
  refine ⟨extract, ?_⟩
  simp only [Frame.routingKey, extract]

/-- A message, whole or cut off, is read from its first byte. -/
lemma handshakePayload_bare (h : ClientHello) {d : Bytes} (pre : d <+: h.encode) :
    handshakePayload ⟨d, .handshake⟩ = .ok (some d) := by
  rw [handshakePayload]
  split
  · rename_i long
    have start : 0 < d.length := Nat.lt_of_lt_of_le (by decide) long
    have first : byteAt d 0 = .ok 1 := byteAt_prefix (l := []) pre rfl start
    rw [first, ok_bind]
    rfl
  · rfl

/-- Behind a record header it is read from the sixth byte on. -/
lemma handshakePayload_record (b1 b2 b3 b4 : UInt8) {d : Bytes} (ne : d ≠ []) :
    handshakePayload ⟨22 :: b1 :: b2 :: b3 :: b4 :: d, .handshake⟩ = .ok (some d) := by
  have long : (22 :: b1 :: b2 :: b3 :: b4 :: d).length ≥ 6 := by
    have pos := List.length_pos_of_ne_nil ne
    simp only [List.length_cons]
    omega
  have payload : slice (22 :: b1 :: b2 :: b3 :: b4 :: d) 5 (22 :: b1 :: b2 :: b3 :: b4 :: d).length = .ok d := by
    rw [slice, if_pos ⟨Nat.le_of_succ_le long, Nat.le_refl _⟩, List.take_length]
    rfl
  rw [handshakePayload]
  simp only [if_pos long]
  show (slice (22 :: b1 :: b2 :: b3 :: b4 :: d) 5 _ >>= fun payload => pure (some payload)) = _
  rw [payload]
  rfl

/-- What begins with the byte 22 is not a message. -/
lemma messageSni_header {d rest : Bytes} (pre : d <+: 22 :: rest) : messageSni d = .ok none := by
  refine messageSni_none (check (fun _ => rfl) fun long => ?_)
  have first : byteAt d 0 = .ok 22 := byteAt_prefix (l := []) pre rfl (by omega)
  rw [first, ok_bind]
  rfl

end TlsEncryptedFrame

open TlsEncryptedFrame in
/-- The routing key of a ClientHello is its host name, with or without a record header in front of it, and
when it has extensions a message that is cut off has no routing key. -/
theorem routes_clientHello (h : ClientHello) (b1 b2 b3 b4 : UInt8) :
    Routes ⟨h.encode, .handshake⟩ h.hostName ∧
      Routes ⟨22 :: b1 :: b2 :: b3 :: b4 :: h.encode, .handshake⟩ h.hostName ∧
      (h.extensions.isSome = true →
        (∀ d, d <+: h.encode → d ≠ h.encode → Routes ⟨d, .handshake⟩ none) ∧
        ∀ d, d <+: 22 :: b1 :: b2 :: b3 :: b4 :: h.encode → d ≠ 22 :: b1 :: b2 :: b3 :: b4 :: h.encode →
          Routes ⟨d, .handshake⟩ none) := by
  refine ⟨?_, ?_, fun hx => ⟨fun d pre cut => ?_, fun d pre cut => ?_⟩⟩
  · exact routes_of_payload (handshakePayload_bare h (List.prefix_refl _)) (messageSni_encode h)
  · exact routes_of_payload (handshakePayload_record b1 b2 b3 b4 (List.cons_ne_nil _ _)) (messageSni_encode h)
  · exact routes_of_payload (handshakePayload_bare h pre) (messageSni_cut h hx pre cut)
  · by_cases short : d.length < 6
    · refine routes_of_payload ?_ (messageSni_header pre)
      rw [handshakePayload]
      exact if_neg (Nat.not_le.2 short)
    · have header : [22, b1, b2, b3, b4] <+: d :=
        List.prefix_of_prefix_length_le (List.prefix_append _ h.encode) pre (Nat.le_of_succ_le (Nat.le_of_not_lt short))
      obtain ⟨d, rfl⟩ := header
      have pre : d <+: h.encode := (List.prefix_append_right_inj [22, b1, b2, b3, b4]).1 pre
      have ne : d ≠ [] := by
        rintro rfl
        exact short (Nat.lt_succ_self 5)
      refine routes_of_payload (handshakePayload_record b1 b2 b3 b4 ne) (messageSni_cut h hx pre ?_)
      rintro rfl
      exact cut rfl

/-- A message with a host name, and what is left of it without its last byte. -/
theorem routes_clientHello_oneName :
    ∃ h : ClientHello, h.hostName = some (lit "a.b") ∧ TlsEncryptedFrame.Routes ⟨h.encode, .handshake⟩ h.hostName ∧
      TlsEncryptedFrame.Routes ⟨h.encode.dropLast, .handshake⟩ none := by
  refine ⟨{ version := (3, 3), random := Vector.replicate 32 0, sessionId := [], sessionId_fits := by decide
            cipherSuites := [0, 156], cipherSuites_fit := by decide
            compressionMethods := [0], compressionMethods_fit := by decide
            extensions := some ⟨[.other 65281 (by decide) [0], .serverName [⟨1, []⟩, ⟨0, lit "a.b"⟩]], by decide⟩ }, ?_⟩
  obtain ⟨bare, -, cut⟩ := routes_clientHello _ 3 1 0 66
  refine ⟨by decide, bare, (cut rfl).1 _ (List.dropLast_prefix _) ?_⟩
  intro same
  have len := congrArg List.length same
  rw [List.length_dropLast] at len
  exact absurd len (by decide)

end Railscale.Tls
