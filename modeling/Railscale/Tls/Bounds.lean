import Railscale.Tls.Frame

/-!
# Host names of hostile messages

What `extract_sni` does with bytes of which nothing is known. It does not panic, and a name that it returns lies
in a server_name list, which lies in a server_name extension, which lies in the extensions block that the message
declares (`extractSni_finds`). The extension and the name are those that the walk over the lengths comes to, from
the start of the block and from the start of the list.
-/

namespace Railscale.Tls

open Bytes

/-! ## Where things are -/

/-- The extensions block: behind the session id, the cipher suites and the compression methods, with its length
in front of it, and inside the message. -/
structure ExtensionsBlock (d : Bytes) (start stop : Nat) : Prop where
  start_eq : ∃ sessionIdLen cipherSuitesLen compressionLen, byteAt d 38 = .ok sessionIdLen ∧
    u16At d (39 + sessionIdLen.toNat) = .ok cipherSuitesLen ∧
    byteAt d (41 + sessionIdLen.toNat + cipherSuitesLen) = .ok compressionLen ∧
    start = 44 + sessionIdLen.toNat + cipherSuitesLen + compressionLen.toNat
  le : start ≤ stop
  length : u16At d (start - 2) = .ok (stop - start)
  inside : stop ≤ d.length

/-- The positions that the walk over the extensions of a block comes to. -/
inductive ExtensionAt (d : Bytes) (start stop : Nat) : Nat → Prop where
  | first :
    ExtensionAt d start stop start
  | next {pos len} :
    ExtensionAt d start stop pos →
    u16At d (pos + 2) = .ok len →
    pos + 4 + len ≤ stop →
    ExtensionAt d start stop (pos + 4 + len)

/-- The positions that the walk over the names of a list comes to. -/
inductive NameAt (d : Bytes) (start stop : Nat) : Nat → Prop where
  | first :
    NameAt d start stop start
  | next {pos len} :
    NameAt d start stop pos →
    u16At d (pos + 1) = .ok len →
    pos + 3 + len ≤ stop →
    NameAt d start stop (pos + 3 + len)

/-- The name stands in the list from `start` to `stop`, as an entry of type 0. -/
structure InList (d : Bytes) (start stop : Nat) (name : Bytes) (pos : Nat) : Prop where
  here : NameAt d start stop pos
  after : start ≤ pos
  type : byteAt d pos = .ok 0
  length : u16At d (pos + 1) = .ok name.length
  inside : pos + 3 + name.length ≤ stop
  slice : name = (d.drop (pos + 3)).take name.length

/-- The list of names is the one of the extension at `pos`, which is of type 0 and ends at `stop`. -/
structure InExtension (d : Bytes) (pos stop listEnd : Nat) : Prop where
  type : u16At d pos = .ok 0
  length : u16At d (pos + 2) = .ok (stop - (pos + 4))
  listLength : u16At d (pos + 4) = .ok (listEnd - (pos + 6))
  le : pos + 6 ≤ listEnd
  inside : listEnd ≤ stop

/-- The name, the list, the extension and the block, each inside the next, and the block inside the message. -/
structure HostNameIn (d : Bytes) (name : Bytes) (start stop pos extEnd listEnd namePos : Nat) : Prop where
  block : ExtensionsBlock d start stop
  extension : ExtensionAt d start stop pos
  after : start ≤ pos
  inside : extEnd ≤ stop
  list : InExtension d pos extEnd listEnd
  name : InList d (pos + 6) listEnd name namePos

/-- The walk over the extensions goes forward. -/
lemma ExtensionAt.after {d : Bytes} {start stop pos : Nat} (h : ExtensionAt d start stop pos) : start ≤ pos := by
  induction h with
  | first => exact Nat.le_refl _
  | next _ _ _ ih => omega

/-- So does the walk over the names. -/
lemma NameAt.after {d : Bytes} {start stop pos : Nat} (h : NameAt d start stop pos) : start ≤ pos := by
  induction h with
  | first => exact Nat.le_refl _
  | next _ _ _ ih => omega

/-! ## The walk -/

namespace TlsEncryptedFrame

/-- The block that is found is the one of the message. -/
lemma extensionsBlock_finds (d : Bytes) :
    Finds (fun (b : Nat × Nat) => ExtensionsBlock d b.1 b.2) (extensionsBlock d) := by
  unfold extensionsBlock
  refine .check fun _ => .byte (by omega) fun _ _ => .check fun _ => ?_
  refine .byte (by omega) fun _ _ => .byte (by omega) fun _ _ => .byte (by omega) fun _ _ => ?_
  refine .check fun _ => .check fun _ => .byte (by omega) fun sessionIdLen sessionId => ?_
  refine .check fun _ => .check fun _ => .u16 (by omega) fun cipherSuitesLen cipherSuites => ?_
  refine .check fun _ => .check fun _ => .byte (by omega) fun compressionLen compression => ?_
  refine .check fun _ => .check fun _ => .u16 (by omega) fun extensionsLen extensions => ?_
  refine .check fun inside => .found
    ⟨⟨sessionIdLen, cipherSuitesLen, compressionLen, sessionId, ?_, ?_, ?_⟩, ?_, ?_, ?_⟩
  · exact cipherSuites
  · have here : 4 + (2 + 32) + 1 + sessionIdLen.toNat + 2 + cipherSuitesLen =
        41 + sessionIdLen.toNat + cipherSuitesLen := by
      omega
    rw [← here]
    exact compression
  · dsimp only
    omega
  · dsimp only
    omega
  · rw [Nat.add_sub_cancel, Nat.add_sub_cancel_left]
    exact extensions
  · exact Nat.not_lt.1 inside

/-- The loop over the names. -/
lemma nameLoop_finds {d : Bytes} {start listEnd : Nat} (inside : listEnd ≤ d.length) {listPos : Nat}
    (here : NameAt d start listEnd listPos) :
    Finds (fun name => ∃ pos, InList d start listEnd name pos) (nameLoop d listEnd listPos) := by
  generalize left : listEnd - listPos = n
  -- an entry takes at least its header off what is left of the list
  induction n using Nat.strongRecOn generalizing listPos with
  | ind n ih =>
    rw [nameLoop]
    split
    · refine .byte (by omega) fun nameType type => .u16 (by omega) fun nameLen length => .check fun fits => ?_
      split
      · rename_i zero
        subst zero
        have size : ((d.take (listPos + 3 + nameLen)).drop (listPos + 3)).length = nameLen := by
          rw [List.length_drop, List.length_take]
          omega
        refine .slice (by omega) (by omega) (.found ⟨listPos, here, here.after, type, ?_, ?_, ?_⟩)
        · rw [size]
          exact length
        · rw [size]
          omega
        · rw [size, List.drop_take, Nat.add_sub_cancel_left]
      · exact ih _ (by omega) (here.next length (by omega)) rfl
    · exact .nothing

/-- The first server_name extension. -/
lemma serverName_finds {d : Bytes} {start stop pos extDataLen : Nat} (inside : stop ≤ d.length)
    (type : u16At d pos = .ok 0) (length : u16At d (pos + 2) = .ok extDataLen) (fits : pos + 4 + extDataLen ≤ stop)
    (block : ExtensionsBlock d start stop) (here : ExtensionAt d start stop pos) :
    Finds (fun name => ∃ pos extEnd listEnd namePos, HostNameIn d name start stop pos extEnd listEnd namePos)
      (serverName d (pos + 4) extDataLen) := by
  unfold serverName
  refine .check fun long => .u16 (by omega) fun listLen listLength => .check fun listFits => ?_
  have names : Finds (fun name => ∃ namePos, InList d (pos + 6) (pos + 4 + 2 + listLen) name namePos)
      (nameLoop d (pos + 4 + 2 + listLen) (pos + 4 + 2)) :=
    nameLoop_finds (by omega) .first
  refine names.mono ?_
  rintro name ⟨namePos, inList⟩
  refine ⟨pos, pos + 4 + extDataLen, pos + 4 + 2 + listLen, namePos, block, here, here.after, fits, ?_, inList⟩
  refine ⟨type, ?_, ?_, by omega, by omega⟩
  · rw [Nat.add_sub_cancel_left]
    exact length
  · rw [Nat.add_sub_cancel_left]
    exact listLength

/-- The loop over the extensions. -/
lemma extensionLoop_finds {d : Bytes} {start stop pos : Nat} (block : ExtensionsBlock d start stop)
    (here : ExtensionAt d start stop pos) :
    Finds (fun name => ∃ pos extEnd listEnd namePos, HostNameIn d name start stop pos extEnd listEnd namePos)
      (extensionLoop d stop pos) := by
  have inside := block.inside
  generalize left : stop - pos = n
  induction n using Nat.strongRecOn generalizing pos with
  | ind n ih =>
    rw [extensionLoop]
    split
    · refine .u16 (by omega) fun extType type => .u16 (by omega) fun extDataLen length => .check fun fits => ?_
      have fits := Nat.not_lt.1 fits
      split
      · rename_i zero
        subst zero
        exact serverName_finds inside type length fits block here
      · exact ih _ (by omega) (here.next length fits) rfl
    · exact .nothing

/-- The payload is there, as the end of the data. -/
lemma handshakePayload_eq (f : TlsEncryptedFrame) :
    ∃ d, f.handshakePayload = .ok (some d) ∧ d <:+ f.data := by
  rw [handshakePayload]
  split
  · obtain ⟨first, here⟩ := byteAt_ok (show 0 < f.data.length by omega)
    rw [here, ok_bind]
    split
    · refine ⟨f.data.drop 5, ?_, List.drop_suffix _ _⟩
      rw [slice, if_pos ⟨by omega, Nat.le_refl _⟩, List.take_length]
      rfl
    · exact ⟨f.data, rfl, List.suffix_refl _⟩
  · exact ⟨f.data, rfl, List.suffix_refl _⟩

/-- On any bytes and any record type `extract_sni` does not panic, and a name that it returns is a part of the
handshake message at the end of the data: of a name list, in an extension of type 0, in the extensions block. -/
theorem extractSni_finds (f : TlsEncryptedFrame) :
    Finds (fun name => ∃ d, d <:+ f.data ∧ ∃ start stop pos extEnd listEnd namePos,
      HostNameIn d name start stop pos extEnd listEnd namePos) f.extractSni := by
  unfold extractSni
  refine .check fun _ => ?_
  obtain ⟨d, payload, atEnd⟩ := handshakePayload_eq f
  rw [payload, ok_bind]
  refine (extensionsBlock_finds d).bind .nothing ?_
  rintro ⟨start, stop⟩ - block
  refine (extensionLoop_finds block .first).mono ?_
  rintro name ⟨pos, extEnd, listEnd, namePos, inside⟩
  exact ⟨d, atEnd, start, stop, pos, extEnd, listEnd, namePos, inside⟩

end TlsEncryptedFrame

end Railscale.Tls
