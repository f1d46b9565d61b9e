import Keraunos.Wire.Proof.RoundTrip

/-!
# What gossip re-encodes to

The signatures of a gossip message cover the bytes its originator sent; `signed_payload` and
`encode` rebuild them from the parsed fields. They are the received bytes exactly when nothing
follows the last field and the address field of a node announcement holds descriptors of the known
kinds only (`Gossip.Plain`).
-/

open Bytes Parse

/-- The parsers accept the serialised form of a key or signature and nothing else. -/
structure KeyParsers.Canonical (K : KeyParsers) : Prop where
  pubkey : ∀ b pk, b.length = 33 → K.fromSlice b = some pk → pk.serialize = b
  signature : ∀ b sig, b.length = 64 → K.fromCompact b = some sig → sig.serializeCompact = b

theorem KeyParsers.transparent_canonical : KeyParsers.transparent.Canonical where
  pubkey b pk _ h := by
    simp only [transparent] at h
    split at h
    · cases h
      simp [PublicKey.serialize]
    · cases h
  signature b sig _ h := by
    simp only [transparent] at h
    split at h
    · cases h
      simp [Signature.serializeCompact]
    · contradiction

namespace Wire

/-! ## Fields accept nothing but their encoding -/

theorem length_of_take {n : Nat} {s a s' : List UInt8} (h : (Reader.take n).run s = .ok (a, s')) :
    a.length = n := Parse.length_of_take (e := WireError.unexpectedEnd) h

theorem exact_take (n : Nat) : Exact (Reader.take n) id := Exact.take WireError.unexpectedEnd n

theorem exact_uint (w : Nat) : Exact (Reader.uint w) (beBytes w) := by
  intro s v s' h
  obtain ⟨b, hb, rfl⟩ := of_run_last (p := Reader.take w) (g := beVal) h
  have hlen := length_of_take hb
  subst hlen
  rw [beBytes_beVal]
  exact exact_take _ s b s' hb

theorem exact_array (n : Nat) : Exact (Reader.array n) Vector.toList := by
  intro s a s' h
  simp only [Reader.array, StateT.run] at h
  split at h
  · cases h
  · cases h
    simp

/-- The value of an integer field fits its width. -/
theorem lt_of_uint {w v : Nat} {s s' : List UInt8} (h : (Reader.uint w).run s = .ok (v, s')) :
    v < 256 ^ w := by
  obtain ⟨b, hb, rfl⟩ := of_run_last (p := Reader.take w) (g := beVal) h
  have hlt := beVal_lt b
  rwa [length_of_take hb] at hlt

theorem exact_bytesU16 : Exact Reader.bytesU16 Writer.bytesU16 := by
  intro s b s' h
  obtain ⟨len, s1, hlen, h⟩ := of_run_bind h
  have hs := exact_uint 2 s len s1 hlen
  have hb := exact_take len s1 b s' h
  rw [hs, hb, Writer.bytesU16, Writer.u16, length_of_take h, List.append_assoc]
  rfl

theorem length_of_bytesU16 {s b s' : List UInt8} (h : Reader.bytesU16.run s = .ok (b, s')) :
    b.length < 2 ^ 16 := by
  obtain ⟨len, s1, hlen, h⟩ := of_run_bind h
  rw [length_of_take h]
  exact lt_of_uint hlen

section
variable {K : KeyParsers} (hK : K.Canonical)
include hK

theorem exact_pubkey : Exact (Reader.pubkey K) Writer.pubkey := by
  intro s pk s' h
  obtain ⟨b, s1, hb, h⟩ := of_run_bind h
  have hs := exact_take 33 s b s1 hb
  cases hpk : K.fromSlice b with
  | none =>
    rw [hpk] at h
    cases h
  | some pk' =>
    rw [hpk] at h
    cases h
    rw [Writer.pubkey, hK.pubkey b pk (length_of_take hb) hpk]
    exact hs

theorem exact_signature : Exact (Reader.signature K) Writer.signature := by
  intro s sig s' h
  obtain ⟨b, s1, hb, h⟩ := of_run_bind h
  have hs := exact_take 64 s b s1 hb
  cases hsig : K.fromCompact b with
  | none =>
    rw [hsig] at h
    cases h
  | some sig' =>
    rw [hsig] at h
    cases h
    rw [Writer.signature, hK.signature b sig (length_of_take hb) hsig]
    exact hs

/-! ## The three messages -/

theorem ChannelUpdate.exact_read : Exact (ChannelUpdate.read K) ChannelUpdate.write := by
  intro s m s' h
  obtain ⟨signature, s1, rfl, h1⟩ := (exact_signature hK).of_bind h
  obtain ⟨chainHash, s2, rfl, h2⟩ := (exact_array 32).of_bind h1
  obtain ⟨scid, s3, rfl, h3⟩ := (exact_uint 8).of_bind h2
  obtain ⟨timestamp, s4, rfl, h4⟩ := (exact_uint 4).of_bind h3
  obtain ⟨messageFlags, s5, rfl, h5⟩ := (exact_uint 1).of_bind h4
  obtain ⟨channelFlags, s6, rfl, h6⟩ := (exact_uint 1).of_bind h5
  obtain ⟨delta, s7, rfl, h7⟩ := (exact_uint 2).of_bind h6
  obtain ⟨minimum, s8, rfl, h8⟩ := (exact_uint 8).of_bind h7
  obtain ⟨feeBase, s9, rfl, h9⟩ := (exact_uint 4).of_bind h8
  obtain ⟨feeRate, s10, rfl, h10⟩ := (exact_uint 4).of_bind h9
  obtain ⟨maximum, s11, rfl, h11⟩ := (exact_uint 8).of_bind h10
  cases h11
  simp only [ChannelUpdate.write, ChannelUpdate.writeAfterSig, List.append_assoc]
  rfl

theorem ChannelAnnouncement.of_read {s s' : List UInt8} {m : ChannelAnnouncement}
    (h : (ChannelAnnouncement.read K).run s = .ok (m, s')) :
    s = m.write ++ s' ∧ m.features.length < 2 ^ 16 := by
  obtain ⟨sig1, s1, rfl, h1⟩ := (exact_signature hK).of_bind h
  obtain ⟨sig2, s2, rfl, h2⟩ := (exact_signature hK).of_bind h1
  obtain ⟨sig3, s3, rfl, h3⟩ := (exact_signature hK).of_bind h2
  obtain ⟨sig4, s4, rfl, h4⟩ := (exact_signature hK).of_bind h3
  obtain ⟨features, s5, hf, h5⟩ := of_run_bind h4
  obtain rfl := exact_bytesU16 _ _ _ hf
  obtain ⟨chainHash, s6, rfl, h6⟩ := (exact_array 32).of_bind h5
  obtain ⟨scid, s7, rfl, h7⟩ := (exact_uint 8).of_bind h6
  obtain ⟨key1, s8, rfl, h8⟩ := (exact_pubkey hK).of_bind h7
  obtain ⟨key2, s9, rfl, h9⟩ := (exact_pubkey hK).of_bind h8
  obtain ⟨key3, s10, rfl, h10⟩ := (exact_pubkey hK).of_bind h9
  obtain ⟨key4, s11, rfl, h11⟩ := (exact_pubkey hK).of_bind h10
  cases h11
  refine ⟨?_, length_of_bytesU16 hf⟩
  simp only [ChannelAnnouncement.write, ChannelAnnouncement.signedPayload, List.append_assoc]
  rfl

/-- The fields of a node announcement before its addresses, as written. -/
def NodeAnnouncement.head (m : NodeAnnouncement) : List UInt8 :=
  Writer.signature m.signature ++ Writer.bytesU16 m.features ++ Writer.u32 m.timestamp ++
    Writer.pubkey m.nodeId ++ m.rgbColor.toList ++ m.aliasBytes.toList

omit hK in
theorem NodeAnnouncement.write_eq (m : NodeAnnouncement) :
    m.write = m.head ++ Writer.bytesU16 (m.addresses.flatMap NetAddress.write) := by
  simp only [NodeAnnouncement.write, NodeAnnouncement.writeAfterSig, NodeAnnouncement.head,
    List.append_assoc]

/-- The address field stands as received; the addresses are what `read_addresses` made of it. -/
theorem NodeAnnouncement.of_read {s s' : List UInt8} {m : NodeAnnouncement}
    (h : (NodeAnnouncement.read K).run s = .ok (m, s')) :
    ∃ addrBytes, s = m.head ++ Writer.bytesU16 addrBytes ++ s' ∧ addrBytes.length < 2 ^ 16 ∧
      m.features.length < 2 ^ 16 ∧ readAddresses addrBytes = .ok m.addresses := by
  obtain ⟨signature, s1, rfl, h1⟩ := (exact_signature hK).of_bind h
  obtain ⟨features, s2, hf, h2⟩ := of_run_bind h1
  obtain rfl := exact_bytesU16 _ _ _ hf
  obtain ⟨timestamp, s3, rfl, h3⟩ := (exact_uint 4).of_bind h2
  obtain ⟨nodeId, s4, rfl, h4⟩ := (exact_pubkey hK).of_bind h3
  obtain ⟨rgbColor, s5, rfl, h5⟩ := (exact_array 3).of_bind h4
  obtain ⟨aliasBytes, s6, rfl, h6⟩ := (exact_array 32).of_bind h5
  obtain ⟨addrBytes, s7, ha, h7⟩ := of_run_bind h6
  obtain rfl := exact_bytesU16 _ _ _ ha
  obtain ⟨addresses, haddr, h8⟩ := of_run_lift h7
  cases h8
  refine ⟨addrBytes, ?_, length_of_bytesU16 ha, length_of_bytesU16 hf, haddr⟩
  simp only [NodeAnnouncement.head, List.append_assoc]
  rfl

end

/-! ## Address fields -/

/-- A sequence of complete descriptors of the kinds 1, 2, 4 and 5. -/
inductive KnownDescriptors : List UInt8 → Prop
  | nil : KnownDescriptors []
  | v4 {body rest : List UInt8} (hb : body.length = 6) (hr : KnownDescriptors rest) :
      KnownDescriptors (1 :: body ++ rest)
  | v6 {body rest : List UInt8} (hb : body.length = 18) (hr : KnownDescriptors rest) :
      KnownDescriptors (2 :: body ++ rest)
  | torV3 {body rest : List UInt8} (hb : body.length = 37) (hr : KnownDescriptors rest) :
      KnownDescriptors (4 :: body ++ rest)
  | hostname {len : UInt8} {body rest : List UInt8} (hb : body.length = len.toNat + 2)
      (hr : KnownDescriptors rest) : KnownDescriptors (5 :: len :: body ++ rest)

theorem exists_append_of_length {l : List UInt8} {m n : Nat} (h : l.length = m + n) :
    ∃ x y, l = x ++ y ∧ x.length = m ∧ y.length = n :=
  ⟨l.take m, l.drop m, (List.take_append_drop m l).symm, by simp; omega, by simp; omega⟩

theorem exists_vector_of_length {l : List UInt8} {n : Nat} (h : l.length = n) :
    ∃ v : Vector UInt8 n, v.toList = l := ⟨⟨l.toArray, by simpa using h⟩, by simp⟩

theorem exists_uint_of_length {l : List UInt8} {w : Nat} (h : l.length = w) :
    ∃ v < 256 ^ w, beBytes w v = l := by
  subst h
  exact ⟨beVal l, beVal_lt l, beBytes_beVal l⟩

/-- Such a sequence is what the writer makes of some addresses. -/
theorem KnownDescriptors.exists_addresses {bytes : List UInt8} (h : KnownDescriptors bytes) :
    ∃ as : List NetAddress, (∀ a ∈ as, a.Fits) ∧ as.flatMap NetAddress.write = bytes := by
  -- it is enough to find the address of the first descriptor
  suffices cons : ∀ {bytes rest : List UInt8} (a : NetAddress), a.Fits → bytes = a.write ++ rest →
      (∃ as : List NetAddress, (∀ a ∈ as, a.Fits) ∧ as.flatMap NetAddress.write = rest) →
      ∃ as : List NetAddress, (∀ a ∈ as, a.Fits) ∧ as.flatMap NetAddress.write = bytes by
    induction h with
    | nil => exact ⟨[], by simp, rfl⟩
    | v4 hb _ ih =>
      obtain ⟨x, y, rfl, hx, hy⟩ := exists_append_of_length (m := 4) (n := 2) hb
      obtain ⟨addr, rfl⟩ := exists_vector_of_length hx
      obtain ⟨port, hp, rfl⟩ := exists_uint_of_length hy
      exact cons (.v4 addr port) hp rfl ih
    | v6 hb _ ih =>
      obtain ⟨x, y, rfl, hx, hy⟩ := exists_append_of_length (m := 16) (n := 2) hb
      obtain ⟨addr, rfl⟩ := exists_vector_of_length hx
      obtain ⟨port, hp, rfl⟩ := exists_uint_of_length hy
      exact cons (.v6 addr port) hp rfl ih
    | torV3 hb _ ih =>
      obtain ⟨x, xs, rfl, hx, hxs⟩ := exists_append_of_length (m := 32) (n := 5) hb
      obtain ⟨y, ys, rfl, hy, hys⟩ := exists_append_of_length (m := 2) (n := 3) hxs
      obtain ⟨z, t, rfl, hz, ht⟩ := exists_append_of_length (m := 1) (n := 2) hys
      obtain ⟨key, rfl⟩ := exists_vector_of_length hx
      obtain ⟨checksum, hc, rfl⟩ := exists_uint_of_length hy
      obtain ⟨version, hv, rfl⟩ := exists_uint_of_length hz
      obtain ⟨port, hp, rfl⟩ := exists_uint_of_length ht
      refine cons (.torV3 key checksum version port) ⟨hc, hv, hp⟩ ?_ ih
      simp only [NetAddress.write, List.append_assoc, List.cons_append]
      rfl
    | hostname hb _ ih =>
      obtain ⟨name, y, rfl, hx, hy⟩ := exists_append_of_length hb
      obtain ⟨port, hp, rfl⟩ := exists_uint_of_length hy
      refine cons (.hostname name port) ⟨?_, hp⟩ ?_ ih
      · rw [hx]
        exact UInt8.toNat_lt _
      · simp only [NetAddress.write, hx, List.append_assoc, List.cons_append]
        simp [Writer.u8, Writer.u16, beBytes]
  rintro bytes rest a ha hbytes ⟨as, hfit, has⟩
  refine ⟨a :: as, ?_, ?_⟩
  · intro x hx
    rcases List.mem_cons.1 hx with rfl | hx
    · exact ha
    · exact hfit x hx
  · rw [List.flatMap_cons, has, hbytes]

theorem knownDescriptors_flatMap {as : List NetAddress} (h : ∀ a ∈ as, a.Fits) :
    KnownDescriptors (as.flatMap NetAddress.write) := by
  induction as with
  | nil => exact .nil
  | cons a as ih =>
    have hr := ih fun x hx => h x (List.mem_cons_of_mem _ hx)
    have ha := h a List.mem_cons_self
    rw [List.flatMap_cons]
    cases a with
    | v4 addr port => exact .v4 (show (addr.toList ++ Writer.u16 port).length = 6 by simp [Writer.u16]) hr
    | v6 addr port => exact .v6 (show (addr.toList ++ Writer.u16 port).length = 18 by simp [Writer.u16]) hr
    | torV3 key checksum version port =>
      have hlen : (key.toList ++ Writer.u16 checksum ++ Writer.u8 version ++
          Writer.u16 port).length = 37 := by simp [Writer.u16, Writer.u8]
      have hk := KnownDescriptors.torV3 hlen hr
      simpa [NetAddress.write, Writer.u8, beBytes] using hk
    | hostname name port =>
      have hlen : (name ++ Writer.u16 port).length = (UInt8.ofNat name.length).toNat + 2 := by
        simpa [Writer.u16] using (Nat.mod_eq_of_lt ha.1).symm
      have hk := KnownDescriptors.hostname hlen hr
      simpa [NetAddress.write, Writer.u8, beBytes] using hk

/-- A pass of `read_addresses`: an address as written, or bytes that leave no trace. -/
theorem NodeAnnouncement.of_readAddress {out : List NetAddress} {s s' : List UInt8}
    {r : ForInStep (List NetAddress)} (h : (readAddress out).run s = .ok (r, s')) :
    (∃ a : NetAddress, a.Fits ∧ r = .yield (out ++ [a]) ∧ s = a.write ++ s') ∨
      r = .yield out ∨ r = .done out := by
  obtain ⟨typ, s0, rfl, h0⟩ := (exact_uint 1).of_bind h
  split at h0
  · next ht =>
    obtain ⟨addr, s1, rfl, h1⟩ := (exact_array 4).of_bind h0
    obtain ⟨port, s2, hp, h2⟩ := of_run_bind h1
    obtain rfl := exact_uint 2 _ _ _ hp
    cases h2
    subst ht
    refine .inl ⟨.v4 addr port, lt_of_uint hp, rfl, ?_⟩
    simp only [NetAddress.write, List.append_assoc]
    rfl
  split at h0
  · next ht =>
    obtain ⟨addr, s1, rfl, h1⟩ := (exact_array 16).of_bind h0
    obtain ⟨port, s2, hp, h2⟩ := of_run_bind h1
    obtain rfl := exact_uint 2 _ _ _ hp
    cases h2
    subst ht
    refine .inl ⟨.v6 addr port, lt_of_uint hp, rfl, ?_⟩
    simp only [NetAddress.write, List.append_assoc]
    rfl
  split at h0
  · obtain ⟨_, s1, _, h1⟩ := of_run_bind h0
    cases h1
    exact .inr (.inl rfl)
  split at h0
  · next ht =>
    obtain ⟨key, s1, rfl, h1⟩ := (exact_array 32).of_bind h0
    obtain ⟨checksum, s2, hc, h2⟩ := of_run_bind h1
    obtain rfl := exact_uint 2 _ _ _ hc
    obtain ⟨version, s3, hv, h3⟩ := of_run_bind h2
    obtain rfl := exact_uint 1 _ _ _ hv
    obtain ⟨port, s4, hp, h4⟩ := of_run_bind h3
    obtain rfl := exact_uint 2 _ _ _ hp
    cases h4
    subst ht
    refine .inl ⟨.torV3 key checksum version port,
      ⟨lt_of_uint hc, lt_of_uint hv, lt_of_uint hp⟩, rfl, ?_⟩
    simp only [NetAddress.write, List.append_assoc]
    rfl
  split at h0
  · next ht =>
    obtain ⟨len, s1, hl, h1⟩ := of_run_bind h0
    obtain rfl := exact_uint 1 _ _ _ hl
    obtain ⟨name, s2, hn, h2⟩ := of_run_bind h1
    obtain rfl := exact_take _ _ _ _ hn
    obtain ⟨port, s3, hp, h3⟩ := of_run_bind h2
    obtain rfl := exact_uint 2 _ _ _ hp
    cases h3
    subst ht
    have hlen := length_of_take hn
    subst hlen
    refine .inl ⟨.hostname name port, ⟨lt_of_uint hl, lt_of_uint hp⟩, rfl, ?_⟩
    simp only [NetAddress.write, List.append_assoc]
    rfl
  · cases h0
    exact .inr (.inr rfl)

/-- The addresses read fit, and they are not longer than the bytes they were read from. -/
theorem NodeAnnouncement.of_readAddresses {bytes : List UInt8} {as : List NetAddress}
    (h : readAddresses bytes = .ok as) :
    (∀ a ∈ as, a.Fits) ∧ (as.flatMap NetAddress.write).length ≤ bytes.length := by
  rw [readAddresses] at h
  cases hr : (whileMore readAddress []).run bytes with
  | error e =>
    rw [hr] at h
    cases h
  | ok p =>
    rw [hr] at h
    cases h
    have hr' : (whileMore readAddress []).run bytes = .ok (p.1, p.2) := hr
    have hrun := of_run_whileMore readAddress_consumes
      (R := fun out s out' => ∃ new, out' = out ++ new ∧ (∀ a ∈ new, NetAddress.Fits a) ∧
        (new.flatMap NetAddress.write).length ≤ s.length) ?_ ?_ ?_ hr'
    · obtain ⟨new, hnew, hfit, hlen⟩ := hrun
      rw [List.nil_append] at hnew
      subst hnew
      exact ⟨hfit, hlen⟩
    · intro out
      exact ⟨[], by simp, by simp, by simp⟩
    · intro out s out' s' hpass
      rcases of_readAddress hpass with ⟨a, -, hr, -⟩ | hr | hr
      · cases hr
      · cases hr
      · cases hr
        exact ⟨[], by simp, by simp, by simp⟩
    · intro out s out' s' out'' hpass hrest
      have hcost := readAddress_consumes _ _ _ _ hpass
      obtain ⟨new, hnew, hfit, hlen⟩ := hrest
      rcases of_readAddress hpass with ⟨a, ha, hr, hs⟩ | hr | hr
      · cases hr
        refine ⟨a :: new, by simp [hnew], ?_, ?_⟩
        · intro x hx
          rcases List.mem_cons.1 hx with rfl | hx
          · exact ha
          · exact hfit x hx
        · rw [List.flatMap_cons, hs, List.length_append, List.length_append]
          omega
      · cases hr
        exact ⟨new, hnew, hfit, by omega⟩
      · cases hr

/-- `read_addresses` and the writer are inverse exactly on sequences of known descriptors. -/
theorem NodeAnnouncement.readAddresses_exact_iff {bytes : List UInt8} {as : List NetAddress}
    (h : readAddresses bytes = .ok as) :
    as.flatMap NetAddress.write = bytes ↔ KnownDescriptors bytes := by
  constructor
  · intro hbytes
    rw [← hbytes]
    exact knownDescriptors_flatMap (of_readAddresses h).1
  · intro hknown
    obtain ⟨as', hfit, hbytes⟩ := hknown.exists_addresses
    rw [← hbytes, readAddresses_write hfit] at h
    cases h
    exact hbytes

/-! ## Accepted messages -/

/-- Everything `p` accepts is a message of type `t`. -/
def Tags (p : Reader Message) (t : Nat) : Prop := ∀ s m s', p.run s = .ok (m, s') → m.msgType = t

theorem Tags.last {α : Type} {p : Reader α} {g : α → Message} {t : Nat}
    (h : ∀ a, (g a).msgType = t) : Tags (p >>= fun x => pure (g x)) t := by
  intro s m s' hr
  obtain ⟨a, -, rfl⟩ := of_run_last hr
  exact h a

theorem Tags.ite {c : Prop} [Decidable c] {p q : Reader Message} {t : Nat} (hp : c → Tags p t)
    (hq : Tags q t) : Tags (if c then p else q) t := by
  split
  · next hc => exact hp hc
  · exact hq

/-- A message is decoded from its own type number. -/
theorem Message.tags_decodeBody (K : KeyParsers) (typ : Nat) : Tags (decodeBody K typ) typ := by
  unfold decodeBody
  iterate 25 refine Tags.ite (fun h => Tags.last fun _ => h.symm) ?_
  refine Tags.ite (fun _ => Tags.last fun _ => rfl) ?_
  intro s m s' hr
  cases hr

/-- The type and the body of an accepted message. -/
theorem Message.of_decode {K : KeyParsers} {b : List UInt8} {m : Message}
    (h : Message.decode K b = .ok m) :
    ∃ s s', b = Writer.u16 m.msgType ++ s ∧ (Message.decodeBody K m.msgType).run s = .ok (m, s') := by
  unfold Message.decode at h
  cases hr : StateT.run (do
    let typ ← Reader.u16
    Message.decodeBody K typ) b with
  | error e =>
    rw [hr] at h
    cases h
  | ok p =>
    obtain ⟨m', s'⟩ := p
    rw [hr] at h
    cases h
    obtain ⟨typ, s, rfl, hbody⟩ := (exact_uint 2).of_bind hr
    obtain rfl := tags_decodeBody K typ s m s' hbody
    exact ⟨s, s', rfl, hbody⟩

/-! ## Fidelity -/

/-- The 16-bit integer at an offset. -/
def u16At (b : List UInt8) (i : Nat) : Nat := beVal ((b.drop i).take 2)

namespace Gossip

/-- Where the address field of a node announcement starts: after the type, signature, features,
timestamp, key, colour and alias. -/
def addressesAt (b : List UInt8) : Nat := 2 + 64 + 2 + u16At b 66 + 4 + 33 + 3 + 32

/-- Nothing follows the last field, and the address field of a node announcement is a sequence of
known descriptors. -/
def Plain (b : List UInt8) : Prop :=
  if u16At b 0 = MsgType.channelAnnouncement then
    b.length = 2 + 4 * 64 + 2 + u16At b 258 + 32 + 8 + 4 * 33
  else if u16At b 0 = MsgType.nodeAnnouncement then
    b.length = addressesAt b + 2 + u16At b (addressesAt b) ∧
      KnownDescriptors (b.drop (addressesAt b + 2))
  else b.length = 2 + 64 + 72

end Gossip

/-- The gossip messages that carry signatures. -/
def Message.IsSignedGossip : Message → Prop
  | .channelAnnouncement _ | .nodeAnnouncement _ | .channelUpdate _ => True
  | _ => False

/-- The payload checked against the signatures and the bytes broadcast again are those received. -/
def Message.Reproduces (m : Message) (b : List UInt8) : Prop :=
  match m with
  | .channelAnnouncement a => a.signedPayload = b.drop (2 + 4 * 64) ∧ m.encode = b
  | .nodeAnnouncement a => a.signedPayload = b.drop (2 + 64) ∧ m.encode = b
  | .channelUpdate u => u.signedPayload = b.drop (2 + 64) ∧ m.encode = b
  | _ => True

/-! ### Lengths and offsets of the received bytes -/

theorem length_bytesU16 (b : List UInt8) : (Writer.bytesU16 b).length = 2 + b.length := by
  simp [Writer.bytesU16, Writer.u16]

theorem u16At_append {p b : List UInt8} {i v : Nat} (hi : p.length = i) (hv : v < 2 ^ 16)
    (h : ∃ s, b = p ++ (Writer.u16 v ++ s)) : u16At b i = v := by
  obtain ⟨s, rfl⟩ := h
  rw [u16At, List.drop_left' hi, List.take_left' (by simp [Writer.u16]), Writer.u16,
    beVal_beBytes, Nat.mod_eq_of_lt (show v < 256 ^ 2 from hv)]

section
variable {b s : List UInt8}

theorem ChannelAnnouncement.plain_iff {a : ChannelAnnouncement} (hf : a.features.length < 2 ^ 16)
    (hb : b = Writer.u16 MsgType.channelAnnouncement ++ (a.write ++ s)) :
    Gossip.Plain b ↔ s = [] := by
  have htype : u16At b 0 = MsgType.channelAnnouncement :=
    u16At_append (p := []) rfl (by decide) ⟨_, hb⟩
  have hlen : b.length = 2 + 4 * 64 + 2 + a.features.length + 32 + 8 + 4 * 33 + s.length := by
    rw [hb]
    simp [ChannelAnnouncement.write, ChannelAnnouncement.signedPayload, length_bytesU16,
      Writer.u16, Writer.u64, Writer.signature, Writer.pubkey]
    omega
  have hfeat : u16At b 258 = a.features.length := by
    refine u16At_append (p := Writer.u16 MsgType.channelAnnouncement ++
      (Writer.signature a.nodeSignature1 ++ (Writer.signature a.nodeSignature2 ++
      (Writer.signature a.bitcoinSignature1 ++ Writer.signature a.bitcoinSignature2)))) ?_ hf ?_
    · simp [Writer.u16, Writer.signature]
    · rw [hb]
      simp only [ChannelAnnouncement.write, ChannelAnnouncement.signedPayload, Writer.bytesU16,
        List.append_assoc]
      exact ⟨_, rfl⟩
  rw [Gossip.Plain, if_pos htype, hfeat, hlen, ← List.length_eq_zero_iff]
  omega

theorem ChannelUpdate.plain_iff {u : ChannelUpdate}
    (hb : b = Writer.u16 MsgType.channelUpdate ++ (u.write ++ s)) : Gossip.Plain b ↔ s = [] := by
  have htype : u16At b 0 = MsgType.channelUpdate := u16At_append (p := []) rfl (by decide) ⟨_, hb⟩
  have hlen : b.length = 2 + 64 + 72 + s.length := by
    rw [hb]
    simp [ChannelUpdate.write, ChannelUpdate.writeAfterSig, Writer.u8, Writer.u16, Writer.u32,
      Writer.u64, Writer.signature]
    omega
  rw [Gossip.Plain, if_neg (by rw [htype]; decide), if_neg (by rw [htype]; decide), hlen,
    ← List.length_eq_zero_iff]
  omega

theorem NodeAnnouncement.plain_iff {a : NodeAnnouncement} {addrBytes : List UInt8}
    (hf : a.features.length < 2 ^ 16) (ha : addrBytes.length < 2 ^ 16)
    (hb : b = Writer.u16 MsgType.nodeAnnouncement ++ (a.head ++ Writer.bytesU16 addrBytes ++ s)) :
    Gossip.Plain b ↔ s = [] ∧ KnownDescriptors addrBytes := by
  have htype : u16At b 0 = MsgType.nodeAnnouncement := u16At_append (p := []) rfl (by decide) ⟨_, hb⟩
  have hfeat : u16At b 66 = a.features.length := by
    refine u16At_append (p := Writer.u16 MsgType.nodeAnnouncement ++ Writer.signature a.signature)
      ?_ hf ?_
    · simp [Writer.u16, Writer.signature]
    · rw [hb]
      simp only [NodeAnnouncement.head, Writer.bytesU16, List.append_assoc]
      exact ⟨_, rfl⟩
  have hat : (Writer.u16 MsgType.nodeAnnouncement ++ a.head).length = Gossip.addressesAt b := by
    rw [Gossip.addressesAt, hfeat]
    simp [NodeAnnouncement.head, length_bytesU16, Writer.u16, Writer.u32, Writer.signature,
      Writer.pubkey]
    omega
  have haddr : u16At b (Gossip.addressesAt b) = addrBytes.length := by
    refine u16At_append hat ha ⟨addrBytes ++ s, hb.trans ?_⟩
    simp only [Writer.bytesU16, List.append_assoc]
  have hlen : b.length = Gossip.addressesAt b + 2 + addrBytes.length + s.length := by
    rw [← hat, hb]
    simp only [List.length_append, length_bytesU16]
    omega
  have hdrop : b.drop (Gossip.addressesAt b + 2) = addrBytes ++ s := by
    have hpre : (Writer.u16 MsgType.nodeAnnouncement ++ a.head ++
        Writer.u16 addrBytes.length).length = Gossip.addressesAt b + 2 := by
      rw [List.length_append, hat]
      simp [Writer.u16]
    rw [← hpre]
    conv_lhs => rw [hb]
    rw [show Writer.u16 MsgType.nodeAnnouncement ++ (a.head ++ Writer.bytesU16 addrBytes ++ s) =
      Writer.u16 MsgType.nodeAnnouncement ++ a.head ++ Writer.u16 addrBytes.length ++
        (addrBytes ++ s) by simp only [Writer.bytesU16, List.append_assoc], List.drop_left]
  rw [Gossip.Plain, if_neg (by rw [htype]; decide), if_pos htype, haddr, hdrop]
  constructor
  · rintro ⟨hend, hknown⟩
    have hs : s = [] := List.length_eq_zero_iff.1 (by omega)
    subst hs
    rw [List.append_nil] at hknown
    exact ⟨rfl, hknown⟩
  · rintro ⟨hs, hknown⟩
    subst hs
    rw [List.append_nil]
    exact ⟨by simpa using hlen, hknown⟩

end

/-- The signed payload is what follows the signatures of the encoding. -/
theorem Message.reproduces_of_encode {m : Message} {b : List UInt8} (h : m.encode = b) :
    m.Reproduces b := by
  cases m with
  | channelAnnouncement a =>
    refine ⟨?_, h⟩
    rw [← h, encode, body, ChannelAnnouncement.write, ← List.append_assoc, ← List.append_assoc,
      ← List.append_assoc, ← List.append_assoc]
    exact (List.drop_left' (by simp [Writer.u16, Writer.signature])).symm
  | nodeAnnouncement a =>
    refine ⟨?_, h⟩
    rw [← h, encode, body, NodeAnnouncement.write, ← List.append_assoc]
    exact (List.drop_left' (by simp [Writer.u16, Writer.signature])).symm
  | channelUpdate u =>
    refine ⟨?_, h⟩
    rw [← h, encode, body, ChannelUpdate.write, ← List.append_assoc]
    exact (List.drop_left' (by simp [Writer.u16, Writer.signature])).symm
  | _ => trivial

theorem Message.reproduces_iff_encode {m : Message} (hg : m.IsSignedGossip) {b : List UInt8} :
    m.Reproduces b ↔ m.encode = b := by
  refine ⟨fun h => ?_, reproduces_of_encode⟩
  cases m with
  | channelAnnouncement _ | nodeAnnouncement _ | channelUpdate _ => exact h.2
  | _ => exact hg.elim

/-- An accepted gossip message stands for the received bytes exactly when these are plain. -/
theorem Message.reproduces_iff (K : KeyParsers) (hK : K.Canonical) (b : List UInt8) (m : Message)
    (hg : m.IsSignedGossip) (h : Message.decode K b = .ok m) :
    m.Reproduces b ↔ Gossip.Plain b := by
  rw [reproduces_iff_encode hg]
  obtain ⟨s0, s, hb, hbody⟩ := of_decode h
  cases m with
  | channelAnnouncement a =>
    obtain ⟨a', hread, ha⟩ := of_run_last hbody
    cases ha
    obtain ⟨rfl, hf⟩ := ChannelAnnouncement.of_read hK hread
    rw [ChannelAnnouncement.plain_iff hf hb, hb, encode, List.append_cancel_left_eq]
    exact List.self_eq_append_right
  | channelUpdate u =>
    obtain ⟨u', hread, hu⟩ := of_run_last hbody
    cases hu
    obtain rfl := ChannelUpdate.exact_read hK _ _ _ hread
    rw [ChannelUpdate.plain_iff hb, hb, encode, List.append_cancel_left_eq]
    exact List.self_eq_append_right
  | nodeAnnouncement a =>
    obtain ⟨a', hread, ha⟩ := of_run_last hbody
    cases ha
    obtain ⟨addrBytes, rfl, hlen, hf, haddr⟩ := NodeAnnouncement.of_read hK hread
    rw [NodeAnnouncement.plain_iff hf hlen hb, ← NodeAnnouncement.readAddresses_exact_iff haddr, hb,
      encode, body, NodeAnnouncement.write_eq, List.append_cancel_left_eq, List.append_assoc,
      List.append_cancel_left_eq]
    constructor
    · intro hsame
      -- the length fields agree, and neither is longer than it says
      have hle := (NodeAnnouncement.of_readAddresses haddr).2
      have hlens := congrArg List.length hsame
      rw [List.length_append, length_bytesU16, length_bytesU16] at hlens
      have hs : s = [] := List.length_eq_zero_iff.1 (by omega)
      subst hs
      rw [List.append_nil, Writer.bytesU16, Writer.bytesU16] at hsame
      exact ⟨rfl, List.append_inj_right hsame (by simp [Writer.u16])⟩
    · rintro ⟨hs, hsame⟩
      rw [hs, hsame, List.append_nil]
  | _ => exact hg.elim

theorem Message.reproduces_iff_plain_sample :
    Message.sample.Reproduces Message.sample.encode ↔ Gossip.Plain Message.sample.encode :=
  Message.reproduces_iff KeyParsers.transparent KeyParsers.transparent_canonical _ _ trivial
    (by decide +kernel)

/-- A node announcement whose address field holds a Tor v2 descriptor. -/
def Gossip.torV2 : List UInt8 :=
  Writer.u16 MsgType.nodeAnnouncement ++ List.replicate 64 7 ++ Writer.bytesU16 [] ++
    Writer.u32 1700000000 ++ (Crypto.Transparent.ofNat 33
      0x0279be667ef9dcbbac55a06295ce870b07029bfcdb2dce28d959f2815b16f81798).toList ++
    List.replicate 3 0 ++ List.replicate 32 0x6b ++ Writer.bytesU16 (3 :: List.replicate 12 1)

/-- The same announcement without its descriptor. -/
def Gossip.torV2Parsed : NodeAnnouncement where
  signature := ⟨Vector.replicate 64 7⟩
  features := []
  timestamp := 1700000000
  nodeId := ⟨Crypto.Transparent.ofNat 33
    0x0279be667ef9dcbbac55a06295ce870b07029bfcdb2dce28d959f2815b16f81798⟩
  rgbColor := Vector.replicate 3 0
  aliasBytes := Vector.replicate 32 0x6b
  addresses := []

theorem Gossip.torV2_lost :
    Message.decode KeyParsers.transparent torV2 = .ok (.nodeAnnouncement torV2Parsed) ∧
      torV2Parsed.signedPayload ≠ torV2.drop (2 + 64) ∧
      (Message.nodeAnnouncement torV2Parsed).encode ≠ torV2 := by
  decide +kernel

end Wire
