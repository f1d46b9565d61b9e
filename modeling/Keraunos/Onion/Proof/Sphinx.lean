import Keraunos.Onion.Proof.Peel

/-!
# Peeling undoes construction

* `StreamOk`: what is assumed of the stream cipher, a keystream of the asked length whose prefixes
  agree.
* `grow`: the filler of a route, one hop at a time; `filler_eq_grow` is the loop's.
* `wrapAll_spec`: the layer of a suffix of the route ends with the filler grown so far, and peels
  hop by hop. The induction is over the suffix, with the grown filler `F` as the parameter: the
  last `F.length` bytes of the layer are `F`, and what a hop shifts in behind them is exactly what
  `grow` appends.
-/

namespace Onion

open Bytes Wire

/-- The stream generator: the asked length, and consistent prefixes. -/
structure StreamOk (C : Crypto) : Prop where
  length : ∀ k n, (C.keystream k n).length = n
  take_eq : ∀ k m n, m ≤ n → (C.keystream k n).take m = C.keystream k m

/-- Blinding the ephemeral key succeeds at every hop before the last. -/
def BlindsOk (C : Crypto) : List Bytes32 → PublicKey → Prop
  | [], _ => True
  | [_], _ => True
  | ss :: rest, pk => ∃ pk', nextEphemeral C pk ss = .ok pk' ∧ BlindsOk C rest pk'

/-- Hop by hop, the packet peels to the payloads of the route: `Forward` before the last hop and
`Final` at the last. -/
def PeelsAs (C : Crypto) (assocData : List UInt8) : List Hop → OnionPacket → Prop
  | [], _ => False
  | [h], packet => peelWithSecret C h.1 packet assocData = .ok (.final h.2)
  | h :: rest, packet => ∃ next,
      peelWithSecret C h.1 packet assocData = .ok (.forward h.2 next) ∧ PeelsAs C assocData rest next

/-! ## The filler -/

section
variable {C : Crypto}

/-- What one hop makes of the filler: `shift` zeros come in behind it, and the end of the hop's
stream is XORed over all of it. -/
def growStep (C : Crypto) (F : List UInt8) (h : Hop) : List UInt8 :=
  xorInto (F ++ List.replicate h.shift 0)
    ((C.keystream (rho C h.1) (payloadsLen + h.shift)).drop (payloadsLen - F.length))

/-- The filler grown over all hops but the last. -/
def grow (C : Crypto) : List Hop → List UInt8 → List UInt8
  | [], F => F
  | [_], F => F
  | h :: rest, F => grow C rest (growStep C F h)

theorem grow_cons_cons (h h' : Hop) (rest : List Hop) (F : List UInt8) :
    grow C (h :: h' :: rest) F = grow C (h' :: rest) (growStep C F h) := rfl

@[simp] theorem length_growStep (F : List UInt8) (h : Hop) :
    (growStep C F h).length = F.length + h.shift := by
  simp [growStep]

theorem grow_eq_foldl (hops : List Hop) (F : List UInt8) :
    grow C hops F = hops.dropLast.foldl (growStep C) F := by
  induction hops generalizing F with
  | nil => rfl
  | cons h rest ih =>
    cases rest with
    | nil => rfl
    | cons h' rest => rw [grow_cons_cons, ih, List.dropLast_cons_cons, List.foldl_cons]

theorem fillerStep_eq (hS : StreamOk C) (h : Hop) (F : List UInt8) {n : Nat} (hn : h.shift ≤ n)
    (hF : F.length ≤ payloadsLen) :
    fillerStep C (F ++ List.replicate n 0, F.length) h =
      (growStep C F h ++ List.replicate (n - h.shift) 0, F.length + h.shift) := by
  obtain ⟨m, rfl⟩ := Nat.exists_eq_add_of_le hn
  have hend : ((C.keystream (rho C h.1) (payloadsLen + h.shift)).drop
      (payloadsLen - F.length)).drop (F ++ List.replicate h.shift 0).length = [] := by
    rw [List.drop_drop]
    refine List.drop_eq_nil_of_le ?_
    rw [hS.length, List.length_append, List.length_replicate]
    omega
  rw [fillerStep, List.replicate_add, ← List.append_assoc, xorInto_append, hend, xorInto_nil,
    Nat.add_sub_cancel_left, growStep]

/-- The filler loop works in a buffer of the final length, whose unused end is zero. -/
theorem foldl_fillerStep (hS : StreamOk C) (hops : List Hop) (F : List UInt8) (n : Nat)
    (hn : totalShift hops ≤ n) (hF : F.length + totalShift hops ≤ payloadsLen) :
    hops.foldl (fillerStep C) (F ++ List.replicate n 0, F.length) =
      (hops.foldl (growStep C) F ++ List.replicate (n - totalShift hops) 0,
        F.length + totalShift hops) := by
  induction hops generalizing F n with
  | nil => simp [totalShift]
  | cons h rest ih =>
    have ht : totalShift (h :: rest) = h.shift + totalShift rest := rfl
    rw [ht] at hn hF
    rw [List.foldl_cons, fillerStep_eq hS h F (by omega) (by omega), ← length_growStep (C := C) F h,
      ih _ _ (by omega) (by rw [length_growStep]; omega), ht, length_growStep, List.foldl_cons,
      Nat.sub_add_eq, Nat.add_assoc]

theorem totalShift_dropLast_le (hops : List Hop) : totalShift hops.dropLast ≤ totalShift hops := by
  induction hops with
  | nil => exact Nat.le_refl _
  | cons h rest ih =>
    cases rest with
    | nil => exact Nat.zero_le _
    | cons h' rest =>
      rw [List.dropLast_cons_cons]
      exact Nat.add_le_add_left ih _

theorem filler_eq_grow (hS : StreamOk C) {hops : List Hop} (h : totalShift hops ≤ payloadsLen) :
    filler C hops = grow C hops [] := by
  have hle := totalShift_dropLast_le hops
  have := foldl_fillerStep hS hops.dropLast [] (totalShift hops.dropLast) (Nat.le_refl _)
    (by simpa using hle.trans h)
  rw [filler, grow_eq_foldl]
  simp only [List.nil_append, List.length_nil] at this
  rw [this]
  simp

/-! ## One layer -/

/-- Bytes before the end of the stream see its short and long forms alike. -/
theorem xorInto_keystream (hS : StreamOk C) (k : Bytes32) (bs : List UInt8) {m n d : Nat}
    (hm : m ≤ n) (hb : bs.length + d ≤ m) :
    xorInto bs ((C.keystream k m).drop d) = xorInto bs ((C.keystream k n).drop d) := by
  rw [← hS.take_eq k m n hm, List.drop_take]
  exact xorInto_take_of_le (by omega)

/-- The decrypted buffer of a layer: its plaintext, then the stream past the payloads. -/
theorem decryptBuf_xorInto (hS : StreamOk C) (ss : Bytes32) {plain : List UInt8}
    (h : plain.length = payloadsLen) :
    decryptBuf C ss (xorInto plain (C.keystream (rho C ss) payloadsLen)) =
      plain ++ xorInto (List.replicate payloadsLen 0)
        ((C.keystream (rho C ss) (payloadsLen * 2)).drop payloadsLen) := by
  rw [decryptBuf, xorInto_append, length_xorInto, h]
  congr 1
  have := xorInto_keystream hS (rho C ss) plain (m := payloadsLen) (n := payloadsLen * 2)
    (d := 0) (by decide) (by omega)
  simp only [List.drop_zero] at this
  rw [this, xorInto_xorInto]

section
variable {ss : Bytes32} (packet : OnionPacket) {assocData p rest : List UInt8} {hm : Bytes32}

/-- Peeling a layer whose decrypted buffer starts with the last frame. -/
theorem peelWithSecret_final (hv : packet.version = 0)
    (hmac : mac C ss packet.payloads assocData = packet.hmac)
    (hbuf : decryptBuf C ss packet.payloads = frame p zero32 ++ rest) (h2 : 2 ≤ p.length)
    (hlen : shiftSize p.length ≤ payloadsLen) :
    peelWithSecret C ss packet assocData = .ok (.final p) := by
  rw [Opens.peel_eq ⟨hv, hmac, hbuf, h2, length_le_of_shiftSize hlen⟩, if_pos rfl]

/-- Peeling a layer whose decrypted buffer starts with a frame that carries a next HMAC. -/
theorem peelWithSecret_forward {k : PublicKey} (hv : packet.version = 0)
    (hmac : mac C ss packet.payloads assocData = packet.hmac)
    (hbuf : decryptBuf C ss packet.payloads = frame p hm ++ rest) (h2 : 2 ≤ p.length)
    (hlen : shiftSize p.length ≤ payloadsLen) (hne : hm ≠ zero32)
    (hk : nextEphemeral C packet.ephemeralKey ss = .ok k)
    (hl : (rest.take payloadsLen).length = payloadsLen) :
    peelWithSecret C ss packet assocData =
      .ok (.forward p ⟨0, k, rest.take payloadsLen, hm, hl⟩) := by
  rw [Opens.peel_eq ⟨hv, hmac, hbuf, h2, length_le_of_shiftSize hlen⟩, if_neg hne, hk]
  exact dif_pos hl

end

/-! ## The whole route -/

theorem shift_le_total (h : Hop) (rest : List Hop) {n : Nat} (ht : totalShift (h :: rest) ≤ n) :
    shiftSize h.2.length ≤ n ∧ totalShift rest + shiftSize h.2.length ≤ n := by
  have : totalShift (h :: rest) = shiftSize h.2.length + totalShift rest := rfl
  omega

/-- The layer of the last hop, whose end is overwritten with the filler. -/
theorem lastLayer_spec (hS : StreamOk C) (assocData : List UInt8) {pad F : List UInt8} {h : Hop}
    (hpad : pad.length = payloadsLen) (hF : F.length + shiftSize h.2.length ≤ payloadsLen) :
    (wrapHop C assocData F h (pad, zero32)).1.length = payloadsLen ∧
    (wrapHop C assocData F h (pad, zero32)).1.drop (payloadsLen - F.length) = F ∧
    ∃ rest, decryptBuf C h.1 (wrapHop C assocData F h (pad, zero32)).1 =
      frame h.2 zero32 ++ rest := by
  have hfl := length_frame h.2 zero32
  obtain ⟨fr, hfr⟩ : ∃ fr, fr = frame h.2 zero32 := ⟨_, rfl⟩
  obtain ⟨enc, henc⟩ : ∃ enc, enc = xorInto (fr ++ pad.take (payloadsLen - fr.length))
      (C.keystream (rho C h.1) payloadsLen) := ⟨_, rfl⟩
  rw [← hfr] at hfl ⊢
  have hel : enc.length = payloadsLen := by
    rw [henc, length_xorInto, List.length_append, List.length_take, hpad]; omega
  have hmix : (wrapHop C assocData F h (pad, zero32)).1 = enc.take (payloadsLen - F.length) ++ F := by
    simp only [wrapHop, ← hfr, ← henc]
    split
    · rfl
    · next h0 =>
      obtain rfl : F = [] := by simpa using h0
      rw [List.append_nil, List.take_of_length_le (by simp [hel])]
  have htl : (enc.take (payloadsLen - F.length)).length = payloadsLen - F.length := by
    rw [List.length_take, hel]; omega
  rw [hmix]
  refine ⟨by rw [List.length_append, htl]; omega, ?_, ?_⟩
  · rw [List.drop_append, htl, Nat.sub_self, List.drop_zero, List.drop_eq_nil_of_le (by omega),
      List.nil_append]
  · -- only the front of the buffer matters at the last hop
    refine ⟨(decryptBuf C h.1 (enc.take (payloadsLen - F.length) ++ F)).drop fr.length, ?_⟩
    have hks := xorInto_keystream hS (rho C h.1) fr (m := payloadsLen)
      (n := payloadsLen * 2) (d := 0) (by omega) (by omega)
    simp only [List.drop_zero] at hks
    have htake : (decryptBuf C h.1 (enc.take (payloadsLen - F.length) ++ F)).take fr.length = fr := by
      rw [decryptBuf, take_xorInto, List.append_assoc, List.take_append_of_le_length (by omega),
        List.take_take, Nat.min_eq_left (by omega), henc, take_xorInto, List.take_left, hks,
        xorInto_xorInto]
    conv_lhs => rw [← List.take_append_drop fr.length (decryptBuf C h.1 _), htake]

/-- The layer of a hop before the last, around a layer that ends with the filler grown by it. -/
theorem innerLayer_spec (hS : StreamOk C) (assocData : List UInt8) {F : List UInt8} {h : Hop}
    {inner : List UInt8 × Bytes32} (hil : inner.1.length = payloadsLen)
    (hF : F.length + shiftSize h.2.length ≤ payloadsLen)
    (htail : inner.1.drop (payloadsLen - (growStep C F h).length) = growStep C F h) :
    (wrapHop C assocData [] h inner).1.length = payloadsLen ∧
    (wrapHop C assocData [] h inner).1.drop (payloadsLen - F.length) = F ∧
    ∃ rest, decryptBuf C h.1 (wrapHop C assocData [] h inner).1 = frame h.2 inner.2 ++ rest ∧
      rest.take payloadsLen = inner.1 := by
  have hfl := length_frame h.2 inner.2
  rw [length_growStep] at htail
  unfold Hop.shift at htail
  obtain ⟨s, hs⟩ : ∃ s, s = shiftSize h.2.length := ⟨_, rfl⟩
  rw [← hs] at hfl hF htail
  have hmix : (wrapHop C assocData [] h inner).1 =
      xorInto (frame h.2 inner.2 ++ inner.1.take (payloadsLen - s))
        (C.keystream (rho C h.1) payloadsLen) := by
    simp [wrapHop, hfl]
  have htk : (inner.1.take (payloadsLen - s)).length = payloadsLen - s := by
    rw [List.length_take, hil]; omega
  have hpl : (frame h.2 inner.2 ++ inner.1.take (payloadsLen - s)).length = payloadsLen := by
    rw [List.length_append, htk]; omega
  rw [hmix]
  refine ⟨by rw [length_xorInto, hpl], ?_, _, by
    rw [decryptBuf_xorInto hS h.1 hpl, List.append_assoc], ?_⟩
  · -- the end of the inner layer's front is `F` under this hop's stream
    have hin : (frame h.2 inner.2 ++ inner.1.take (payloadsLen - s)).drop (payloadsLen - F.length) =
        (growStep C F h).take F.length := by
      rw [List.drop_append, List.drop_eq_nil_of_le (by omega), List.nil_append, hfl, List.drop_take,
        ← htail, show payloadsLen - F.length - s = payloadsLen - (F.length + s) by omega,
        show payloadsLen - s - (payloadsLen - (F.length + s)) = F.length by omega]
    have hks := xorInto_keystream hS (rho C h.1) F (m := payloadsLen)
      (n := payloadsLen + h.shift) (d := payloadsLen - F.length) (by omega) (by omega)
    rw [drop_xorInto, hin, growStep, take_xorInto, List.take_left, ← hks, xorInto_xorInto]
  · -- what is shifted in is the end of the grown filler
    have hks := xorInto_keystream hS (rho C h.1) (List.replicate s 0)
      (m := payloadsLen + h.shift) (n := payloadsLen * 2) (d := payloadsLen)
      (by unfold Hop.shift; omega) (by rw [List.length_replicate]; unfold Hop.shift; omega)
    have hd : inner.1.drop (payloadsLen - s) = (growStep C F h).drop F.length := by
      rw [← htail, List.drop_drop, show payloadsLen - (F.length + s) + F.length = payloadsLen - s by
        omega]
    have hz : (growStep C F h).drop F.length =
        xorInto (List.replicate s 0) ((C.keystream (rho C h.1) (payloadsLen * 2)).drop payloadsLen) := by
      rw [growStep, drop_xorInto, List.drop_left, List.drop_drop,
        show payloadsLen - F.length + F.length = payloadsLen by omega, ← hks, hs]
      rfl
    rw [List.take_append, htk, List.take_of_length_le (by omega), take_xorInto, List.take_replicate,
      show min (payloadsLen - (payloadsLen - s)) payloadsLen = s by omega, ← hz, ← hd,
      List.take_append_drop]

theorem wrapAll_cons_cons (assocData pad fill : List UInt8) (h h' : Hop) (rest : List Hop) :
    wrapAll C assocData pad fill (h :: h' :: rest) =
      wrapHop C assocData [] h (wrapAll C assocData pad fill (h' :: rest)) := rfl

/-- The layer of a suffix of the route. -/
theorem wrapAll_spec (hS : StreamOk C) (assocData : List UInt8) {pad : List UInt8}
    (hpad : pad.length = payloadsLen)
    (hops : List Hop) :
    ∀ (F : List UInt8) (_ : hops ≠ []), F.length + totalShift hops ≤ payloadsLen →
      (∀ h ∈ hops, 2 ≤ h.2.length) →
      (∀ k, 0 < k → k < hops.length →
        (wrapAll C assocData pad (grow C hops F) (hops.drop k)).2 ≠ zero32) →
      ∃ hl : (wrapAll C assocData pad (grow C hops F) hops).1.length = payloadsLen,
        (wrapAll C assocData pad (grow C hops F) hops).1.drop (payloadsLen - F.length) = F ∧
        ∀ pk, BlindsOk C (hops.map (·.1)) pk → PeelsAs C assocData hops
          ⟨0, pk, (wrapAll C assocData pad (grow C hops F) hops).1,
            (wrapAll C assocData pad (grow C hops F) hops).2, hl⟩ := by
  induction hops with
  | nil => intro F hne; exact absurd rfl hne
  | cons h rest ih =>
    intro F _ hF h2 hmac
    obtain ⟨hs, hs'⟩ := shift_le_total h rest (n := payloadsLen - F.length)
      (by omega)
    have hp2 := h2 h (List.mem_cons_self ..)
    cases rest with
    | nil =>
      obtain ⟨hl, htail, r, hr⟩ := lastLayer_spec hS assocData hpad
        (show F.length + shiftSize h.2.length ≤ payloadsLen by omega)
      refine ⟨hl, htail, fun pk _ => ?_⟩
      exact peelWithSecret_final ⟨0, pk, _, (wrapHop C assocData F h (pad, zero32)).2, hl⟩ rfl rfl
        hr hp2 (by omega)
    | cons h' rest =>
      have hgl := length_growStep (C := C) F h
      unfold Hop.shift at hgl
      obtain ⟨hil, hitail, hipeel⟩ := ih (growStep C F h) (by simp) (by omega)
        (fun x hx => h2 x (List.mem_cons_of_mem _ hx))
        (fun k hk hkl => hmac (k + 1) (by omega) (by simp only [List.length_cons] at hkl ⊢; omega))
      have hne := hmac 1 (by omega) (by simp)
      simp only [List.drop_succ_cons, List.drop_zero] at hne
      rw [grow_cons_cons] at hne ⊢
      simp only [wrapAll_cons_cons]
      obtain ⟨hl, htail, r, hr, hrt⟩ := innerLayer_spec hS assocData hil
        (show F.length + shiftSize h.2.length ≤ payloadsLen by omega) hitail
      refine ⟨hl, htail, fun pk hpk => ?_⟩
      obtain ⟨pk', hb, hbr⟩ := hpk
      refine ⟨⟨0, pk', _, _, hil⟩, ?_, hipeel pk' hbr⟩
      rw [peelWithSecret_forward ⟨0, pk, _, (wrapHop C assocData [] h _).2, hl⟩ rfl rfl hr hp2
        (by omega) hne hb (by rw [hrt]; exact hil)]
      simp only [hrt]

/-- **Sphinx.** The packet constructed for a route peels, hop by hop, to the route's payloads:
`Forward` before the last hop, `Final` at the last, and never an HMAC error. -/
theorem construct_peels (hS : StreamOk C) {sessionKey : SecretKey} {sharedSecrets : List Bytes32}
    {payloads : List (List UInt8)} {assocData : List UInt8}
    (hlen : sharedSecrets.length = payloads.length) (hne : payloads ≠ [])
    (h2 : ∀ p ∈ payloads, 2 ≤ p.length)
    (htot : (payloads.map fun p => shiftSize p.length).sum ≤ payloadsLen)
    (hmac : ∀ k, 0 < k → k < payloads.length →
      (wrapAll C assocData (C.keystream (generateKey C padType sessionKey.bytes) payloadsLen)
        (filler C (sharedSecrets.zip payloads)) ((sharedSecrets.zip payloads).drop k)).2 ≠ zero32)
    (hblind : BlindsOk C sharedSecrets (C.publicKey sessionKey)) :
    ∃ packet, construct C sessionKey sharedSecrets payloads assocData = .ok packet ∧
      PeelsAs C assocData (sharedSecrets.zip payloads) packet := by
  set hops := sharedSecrets.zip payloads with hhops
  have hfst : hops.map (·.1) = sharedSecrets := List.map_fst_zip (by omega)
  have hsnd : hops.map (·.2) = payloads := List.map_snd_zip (by omega)
  have hts : totalShift hops ≤ payloadsLen := by
    have : hops.map Hop.shift = payloads.map fun p => shiftSize p.length := by
      rw [← hsnd, List.map_map]; rfl
    rw [totalShift, this]
    exact htot
  have hgrow := filler_eq_grow hS hts
  have hne' : hops ≠ [] := by
    intro h0
    rw [h0] at hsnd
    exact hne hsnd.symm
  have hlen' : hops.length = payloads.length := by rw [← hsnd, List.length_map]
  have hspec := wrapAll_spec hS assocData (hS.length _ _) hops [] hne'
    (by simpa using hts)
    (fun h hh => h2 h.2 (by rw [← hsnd]; exact List.mem_map_of_mem hh))
    (fun k hk hkl => by rw [← hgrow]; exact hmac k hk (by omega))
  rw [← hgrow] at hspec
  obtain ⟨hl, -, hpeel⟩ := hspec
  refine ⟨⟨0, C.publicKey sessionKey, _, _, hl⟩, ?_, hpeel _ (by rw [hfst]; exact hblind)⟩
  unfold construct
  simp only [← hhops]
  rw [if_pos ⟨hlen, hne, hts⟩, dif_pos hl]

end

theorem streamOk_transparent : StreamOk Crypto.transparent where
  length _ _ := by simp [Crypto.transparent]
  take_eq _ m n h := by simp [Crypto.transparent, List.take_replicate, h]

/-- A route of two hops with two-byte payloads. -/
theorem construct_peels_pair :
    let C := Crypto.transparent
    ∃ packet, construct C ⟨zero32⟩ [zero32, zero32] [[1, 2], [3, 4]] [] = .ok packet ∧
      PeelsAs C [] [(zero32, [1, 2]), (zero32, [3, 4])] packet := by
  intro C
  refine construct_peels streamOk_transparent rfl (by simp) (by simp) (by decide) ?_
    ⟨_, rfl, trivial⟩
  intro k hk hk2
  obtain rfl : k = 1 := by simp at hk2; omega
  decide +kernel

end Onion
