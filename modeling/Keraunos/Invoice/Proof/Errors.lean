import Keraunos.Invoice.Proof.Slices

/-!
# One wrong character is found

With a value of zero the step of the checksum register is one to one on registers of 30 bits
(`polymodStep_zero_ne`): the low five bits of the generators are linearly independent, so a register
that a step clears had nothing in its top, and then the step only shifted it. So the difference that
one changed value makes never leaves the register, however many values follow (`polymod_ne`).
-/

namespace Bech32

open Digits

/-! ## The register -/

/-- The low five bits of a step that reads zero say which generators were added. -/
theorem selection_of_low : ∀ t₀ t₁ t₂ t₃ t₄ : Bool,
    ((if t₀ then 0x3b6a57b2#32 else 0) ^^^ (if t₁ then 0x26508e6d#32 else 0) ^^^
      (if t₂ then 0x1ea119fa#32 else 0) ^^^ (if t₃ then 0x3d4233dd#32 else 0) ^^^
      (if t₄ then 0x2a1462b3#32 else 0)) &&& 31#32 = 0#32 →
    t₀ = false ∧ t₁ = false ∧ t₂ = false ∧ t₃ = false ∧ t₄ = false := by
  decide

theorem xor_and (a b m : BitVec 32) : (a ^^^ b) &&& m = (a &&& m) ^^^ (b &&& m) := by
  ext i
  simp [Bool.and_xor_distrib_right]

theorem shifted_low (a : BitVec 32) : (a <<< 5) &&& 31#32 = 0#32 := by
  apply BitVec.eq_of_toNat_eq
  rw [BitVec.toNat_and, BitVec.toNat_shiftLeft, Nat.shiftLeft_eq]
  exact (Nat.and_two_pow_sub_one_eq_mod _ 5).trans (by rw [BitVec.toNat_ofNat]; omega)

/-- A step that reads zero clears no register. -/
theorem polymodStep_zero_ne {a : BitVec 32} (ha : a.toNat < 2 ^ 30) (hne : a ≠ 0) :
    polymodStep a 0 ≠ 0 := by
  intro hzero
  have hlow := congrArg (· &&& 31#32) hzero
  rw [polymodStep_eq] at hlow
  simp only [UInt8.toNat_zero, BitVec.ofNat_eq_ofNat, BitVec.xor_zero, BitVec.zero_and,
    BitVec.xor_assoc] at hlow
  rw [xor_and, shifted_low, BitVec.zero_xor] at hlow
  simp only [← BitVec.xor_assoc] at hlow
  obtain ⟨h₀, h₁, h₂, h₃, h₄⟩ := selection_of_low _ _ _ _ _ hlow
  have hsmall : a.toNat < 2 ^ 25 := by
    apply Nat.lt_pow_two_of_testBit
    intro i hi
    by_cases htop : i < 30
    · have hcases : i = 25 ∨ i = 26 ∨ i = 27 ∨ i = 28 ∨ i = 29 := by omega
      rcases hcases with rfl | rfl | rfl | rfl | rfl
      · exact h₀
      · exact h₁
      · exact h₂
      · exact h₃
      · exact h₄
    · exact Nat.testBit_lt_two_pow
        (Nat.lt_of_lt_of_le ha (Nat.pow_le_pow_right (by decide) (Nat.not_lt.1 htop)))
  rw [polymodStep_small hsmall] at hzero
  have hshift := congrArg BitVec.toNat hzero
  rw [UInt8.toNat_zero, BitVec.xor_zero, BitVec.toNat_shiftLeft, Nat.shiftLeft_eq] at hshift
  change a.toNat * 2 ^ 5 % 2 ^ 32 = 0 at hshift
  have hclear : a.toNat = 0 := by omega
  exact hne (BitVec.eq_of_toNat_eq hclear)

theorem foldl_zeros_ne (n : Nat) {e : BitVec 32} (he : e.toNat < 2 ^ 30) (hne : e ≠ 0) :
    (List.replicate n 0).foldl polymodStep e ≠ 0 := by
  induction n generalizing e with
  | zero => exact hne
  | succ n ih => exact ih (polymodStep_lt e 0) (polymodStep_zero_ne he hne)

/-- The value that enters is XORed into the register. -/
theorem polymodStep_value (chk : BitVec 32) (v v' : UInt8) : polymodStep chk v' =
    polymodStep chk v ^^^ (BitVec.ofNat 32 v.toNat ^^^ BitVec.ofNat 32 v'.toNat) := by
  simp only [polymodStep_eq]
  generalize BitVec.ofNat 32 v.toNat = x
  generalize BitVec.ofNat 32 v'.toNat = y
  have hcancel : x ^^^ (x ^^^ y) = y := by
    rw [← BitVec.xor_assoc, BitVec.xor_self, BitVec.zero_xor]
  calc _ = (chk &&& 0x01ffffff) <<< 5 ^^^ (x ^^^ (x ^^^ y)) ^^^ selected chk 0x3b6a57b2 0 ^^^
      selected chk 0x26508e6d 1 ^^^ selected chk 0x1ea119fa 2 ^^^ selected chk 0x3d4233dd 3 ^^^
      selected chk 0x2a1462b3 4 := by rw [hcancel]
    _ = _ := by ac_rfl

/-- The register tells any two values at one place apart. -/
theorem polymod_ne (pre post : List UInt8) {v v' : UInt8} (hne : v ≠ v') :
    polymod (pre ++ v' :: post) ≠ polymod (pre ++ v :: post) := by
  intro heq
  simp only [polymod, List.foldl_append, List.foldl_cons] at heq
  rw [polymodStep_value _ v v', foldl_polymodStep_xor] at heq
  have hdiff : (BitVec.ofNat 32 v.toNat ^^^ BitVec.ofNat 32 v'.toNat).toNat < 2 ^ 30 := by
    have hbyte : ∀ b : UInt8, (BitVec.ofNat 32 b.toNat).toNat < 2 ^ 30 := by
      intro b
      rw [BitVec.toNat_ofNat]
      have := b.toNat_lt
      omega
    rw [BitVec.toNat_xor]
    exact Nat.xor_lt_two_pow (hbyte v) (hbyte v')
  refine foldl_zeros_ne post.length hdiff ?_ ?_
  · intro hsame
    have hval := congrArg BitVec.toNat (BitVec.xor_eq_zero_iff.1 hsame)
    rw [BitVec.toNat_ofNat, BitVec.toNat_ofNat] at hval
    have hv := v.toNat_lt
    have hv' := v'.toNat_lt
    exact hne (UInt8.toNat_inj.1 (by omega))
  · exact (BitVec.xor_right_inj _).1 (heq.trans BitVec.xor_zero.symm)

/-! ## Strings -/

/-- A string cut around its last separator. -/
theorem decode_cut {hrp payload : List Char}
    (hlower : ∀ c ∈ hrp ++ '1' :: payload, c.isUpper = false) (hlast : '1' ∉ payload) :
    decode (hrp ++ '1' :: payload) =
      if hrp = [] ∨ (utf8 payload).length < 6 then .error .noSeparator
      else (payload.mapM valueOf >>= fun data =>
        if polymod (hrpExpand hrp ++ data) ≠ 1 then .error .badChecksum
        else .ok (hrp, data.take (data.length - 6))) := by
  have hupper : (hrp ++ '1' :: payload).any Char.isUpper = false :=
    List.any_eq_false.2 fun c hc => by simp [hlower c hc]
  have hmap : (hrp ++ '1' :: payload).map Char.toLower = hrp ++ '1' :: payload :=
    (List.map_congr_left fun c hc => toLower_eq_self (hlower c hc)).trans (List.map_id _)
  obtain ⟨hdrop, htake⟩ := cut_last hrp hlast
  unfold decode
  rw [hupper, Bool.and_false, if_neg Bool.false_ne_true]
  dsimp only
  rw [hmap, hdrop, htake]
  simp only [List.reverse_reverse]
  split
  · rfl
  · rfl

/-- The character of a value. -/
theorem charset_of_valueOf {c : Char} {v : UInt8} (h : valueOf c = .ok v) :
    charset[v.toNat]? = some c := by
  unfold valueOf at h
  split at h
  · next i hfound =>
    obtain ⟨hi, hc, -⟩ := List.findIdx?_eq_some_iff_getElem.1 hfound
    have hlen : charset.length = 32 := by decide
    obtain rfl := Except.ok.inj h
    rw [UInt8.toNat_ofNat', Nat.mod_eq_of_lt (by omega), List.getElem?_eq_getElem hi,
      of_decide_eq_true hc]
  · cases h

theorem exists_valueOf {c : Char} (h : c ∈ charset) : ∃ v, valueOf c = .ok v ∧ c ≠ '1' ∧
    c.isUpper = false := by
  have hall : charset.all (fun c => (valueOf c).isOk && c != '1' && !c.isUpper) = true := by
    decide +kernel
  obtain ⟨hok, hone, hupper⟩ : (valueOf c).isOk = true ∧ c ≠ '1' ∧ c.isUpper = false := by
    simpa [and_assoc] using List.all_eq_true.1 hall c h
  cases hv : valueOf c with
  | error e =>
    rw [hv] at hok
    cases hok
  | ok v => exact ⟨v, rfl, hone, hupper⟩

theorem mapM_append_cons {ε α β : Type} {f : α → Except ε β} {before after : List α} {a : α}
    {out : List β} : (before ++ a :: after).mapM f = .ok out ↔
      ∃ pre b post, out = pre ++ b :: post ∧ before.mapM f = .ok pre ∧ f a = .ok b ∧
        after.mapM f = .ok post := by
  rw [List.mapM_append, List.mapM_cons]
  cases hbefore : before.mapM f with
  | error e => exact ⟨nofun, fun ⟨_, _, _, _, h, _⟩ => nomatch h⟩
  | ok pre =>
    cases ha : f a with
    | error e => exact ⟨nofun, fun ⟨_, _, _, _, _, h, _⟩ => nomatch h⟩
    | ok b =>
      cases hafter : after.mapM f with
      | error e => exact ⟨nofun, fun ⟨_, _, _, _, _, _, h⟩ => nomatch h⟩
      | ok post =>
        constructor
        · intro h
          exact ⟨pre, b, post, (Except.ok.inj h).symm, rfl, rfl, rfl⟩
        · rintro ⟨_, _, _, rfl, h₁, h₂, h₃⟩
          cases h₁
          cases h₂
          cases h₃
          rfl

/-- Another character of the charset in a place of the payload breaks the checksum. -/
theorem decode_replaced {hrp before after : List Char} {c c' : Char}
    {r : List Char × List UInt8}
    (hlower : ∀ x ∈ hrp ++ '1' :: (before ++ c :: after), x.isUpper = false)
    (hlast : '1' ∉ before ++ c :: after)
    (hvalid : decode (hrp ++ '1' :: (before ++ c :: after)) = .ok r)
    (hc' : c' ∈ charset) (hne : c' ≠ c) :
    decode (hrp ++ '1' :: (before ++ c' :: after)) = .error .badChecksum := by
  obtain ⟨v', hv', hone, hupper⟩ := exists_valueOf hc'
  have hlower' : ∀ x ∈ hrp ++ '1' :: (before ++ c' :: after), x.isUpper = false := by
    intro x hx
    simp only [List.mem_append, List.mem_cons] at hlower hx
    by_cases hxc : x = c'
    · exact hxc ▸ hupper
    · exact hlower x (by tauto)
  have hlast' : '1' ∉ before ++ c' :: after := by
    simp only [List.mem_append, List.mem_cons] at hlast ⊢
    have := hone.symm
    tauto
  rw [decode_cut hlower hlast] at hvalid
  split at hvalid
  · cases hvalid
  next hlong =>
  cases hdata : (before ++ c :: after).mapM valueOf with
  | error e =>
    rw [hdata] at hvalid
    cases hvalid
  | ok data =>
    rw [hdata] at hvalid
    change (if polymod (hrpExpand hrp ++ data) ≠ 1 then _ else _) = _ at hvalid
    split at hvalid
    · cases hvalid
    next hsum =>
    obtain ⟨pre, v, post, rfl, hpre, hv, hpost⟩ := mapM_append_cons.1 hdata
    have hdata' : (before ++ c' :: after).mapM valueOf = .ok (pre ++ v' :: post) :=
      mapM_append_cons.2 ⟨pre, v', post, rfl, hpre, hv', hpost⟩
    have hvalues : v ≠ v' := by
      rintro rfl
      exact hne (Option.some.inj ((charset_of_valueOf hv').symm.trans (charset_of_valueOf hv)))
    have hsize : (utf8 (before ++ c' :: after)).length = (utf8 (before ++ c :: after)).length := by
      rw [← size_eq_utf8, ← size_eq_utf8, size_of_mapM hdata, size_of_mapM hdata']
      simp
    rw [decode_cut hlower' hlast', hsize, if_neg hlong, hdata']
    change (if polymod (hrpExpand hrp ++ (pre ++ v' :: post)) ≠ 1 then _ else _) = _
    rw [if_pos]
    rw [← not_not.1 hsum, ← List.append_assoc, ← List.append_assoc]
    exact polymod_ne _ _ hvalues

/-- What `encode` writes, `decode` reads; and no valid string in lower case stays valid when one
character after its separator, the last `1`, is replaced by another one of the charset. -/
theorem decode_encode_and_replaced :
    (∀ (hrp : List Char) (data : List UInt8), hrp ≠ [] → (∀ c ∈ hrp, c.isUpper = false) →
      Valid 32 data → ∃ s, encode hrp data = some s ∧ decode s = .ok (hrp, data)) ∧
    ∀ (s hrp before after : List Char) (c c' : Char) (r : List Char × List UInt8),
      decode s = .ok r → (∀ x ∈ s, x.isUpper = false) → s = hrp ++ '1' :: (before ++ c :: after) →
      '1' ∉ before ++ c :: after → c' ∈ charset → c' ≠ c →
      decode (hrp ++ '1' :: (before ++ c' :: after)) = .error .badChecksum := by
  constructor
  · intro hrp data hne hlower hdata
    exact decode_of_encode hne hlower hdata
  · rintro s hrp before after c c' r hvalid hlower rfl hlast hc' hne
    exact decode_replaced hlower hlast hvalid hc' hne

theorem decode_encode_and_replaced_shortest :
    (∃ s, encode ['a'] [31, 0] = some s ∧ decode s = .ok (['a'], [31, 0])) ∧
    decode "a12uel5l".toList = .ok (['a'], []) ∧
    decode "a12uel4l".toList = .error .badChecksum :=
  have hvalid : decode "a12uel5l".toList = .ok (['a'], []) := by decide +kernel
  have hlower : "a12uel5l".toList.all (fun x => !x.isUpper) = true := by decide +kernel
  ⟨decode_encode_and_replaced.1 ['a'] [31, 0] (by decide) (List.forall_mem_singleton.2 rfl)
      (valid_cons.2 ⟨by decide, valid_cons.2 ⟨by decide, valid_nil⟩⟩), hvalid,
    decode_encode_and_replaced.2 _ ['a'] ['2', 'u', 'e', 'l'] ['l'] '5' '4' _ hvalid
      (fun x hx => by simpa using List.all_eq_true.1 hlower x hx) (by decide) (by decide) (by decide)
      (by decide)⟩

end Bech32
