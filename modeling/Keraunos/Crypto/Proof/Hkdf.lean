import Keraunos.Crypto.Hkdf
import Keraunos.Crypto.Proof.Sha256
import Keraunos.Noise.Cipher

/-!
# HKDF fills what it fills with the output of RFC 5869

`T prk info i` is block `i` of the output and `okm` the output. A pass of the loop of `expand` writes the
next block and chains it (`expandLoop_step`); the counter is advanced after every block, also after the
last one. So an output of 255 blocks, the longest that `expand` admits, is never returned: block 255 is
written, and then the counter does not fit (`expandLoop_panics`).
-/

open Blocks

/-! ## HMAC -/

/-- The calls do not matter: HMAC hashes what it was given behind the inner key. -/
theorem HmacSha256.finalize_foldl_update (key : List UInt8) (parts : List (List UInt8)) :
    (parts.foldl HmacSha256.update (.new key)).finalize = hmacSha256 key parts.flatten := by
  have hinner : ∀ h : HmacSha256, parts.foldl HmacSha256.update h =
      { h with inner := parts.foldl Sha256.update h.inner } := by
    induction parts with
    | nil => exact fun h => rfl
    | cons part parts ih => exact fun h => ih (h.update part)
  have hone : ∀ h : HmacSha256, h.update parts.flatten =
      { h with inner := h.inner.update parts.flatten } := fun h => rfl
  have hsplit := Sha256.finalize_foldl_update ([((blockKey key).map (· ^^^ 0x36)).toList] ++ parts)
  have hwhole := Sha256.finalize_foldl_update
    [((blockKey key).map (· ^^^ 0x36)).toList, parts.flatten]
  rw [hmacSha256, hinner, hone, finalize, finalize]
  have hdigest : (parts.foldl Sha256.update (HmacSha256.new key).inner).finalize =
      ((HmacSha256.new key).inner.update parts.flatten).finalize := by
    refine hsplit.trans (Eq.trans ?_ hwhole.symm)
    simp
  rw [hdigest]

namespace Hkdf

variable {ε : Type}

/-! ## The output -/

/-- `T(i)`: the empty string, then the HMAC of the block before, the info and the number of the
block. -/
def T (prk : Bytes32) (info : List UInt8) : Nat → List UInt8
  | 0 => []
  | i + 1 => (hmacSha256 prk.toList (T prk info i ++ info ++ [UInt8.ofNat (i + 1)])).toList

/-- `T(1) ‖ … ‖ T(n)`. -/
def stream (prk : Bytes32) (info : List UInt8) (n : Nat) : List UInt8 :=
  (List.range n).flatMap fun i => T prk info (i + 1)

/-- The output of `len` bytes. -/
def okm (prk : Bytes32) (info : List UInt8) (len : Nat) : List UInt8 :=
  (stream prk info ((len + 31) / 32)).take len

variable {prk : Bytes32} {info : List UInt8}

theorem stream_succ (prk : Bytes32) (info : List UInt8) (n : Nat) :
    stream prk info (n + 1) = stream prk info n ++ T prk info (n + 1) := by
  rw [stream, List.range_succ, List.flatMap_append, List.flatMap_singleton]
  rfl

theorem length_stream (prk : Bytes32) (info : List UInt8) (n : Nat) :
    (stream prk info n).length = 32 * n := by
  induction n with
  | zero => rfl
  | succ n ih =>
    rw [stream_succ, List.length_append, ih, T, Vector.length_toList]
    ring

/-! ## The loop -/

/-- A pass of the loop writes the next block. -/
theorem expandLoop_step {out : List UInt8} {i written : Nat} (h : written < out.length) :
    (expandLoop prk info out (T prk info i) (i + 1) written : Except (Fault ε) (List UInt8)) =
      nextCounter (i + 1) >>= fun counter =>
        expandLoop prk info (out.take written ++ (T prk info (i + 1)).take (min (out.length - written) 32)
          ++ out.drop (written + min (out.length - written) 32)) (T prk info (i + 1)) counter
          (written + min (out.length - written) 32) := by
  have hblock : ((((HmacSha256.new prk.toList).update (T prk info i)).update info).update
      [UInt8.ofNat (i + 1)]).finalize.toList = T prk info (i + 1) := by
    have hparts := HmacSha256.finalize_foldl_update prk.toList
      [T prk info i, info, [UInt8.ofNat (i + 1)]]
    rw [T, List.append_assoc]
    exact congrArg Vector.toList hparts
  rw [expandLoop, if_pos h]
  dsimp only
  rw [hblock]

section
variable {out block : List UInt8} {a m : Nat}

theorem length_write (hout : a + m ≤ out.length) (hblock : m ≤ block.length) :
    (out.take a ++ block.take m ++ out.drop (a + m)).length = out.length := by
  simp only [List.length_append, List.length_take, List.length_drop]
  omega

theorem take_write (hout : a + m ≤ out.length) (hblock : m ≤ block.length) :
    (out.take a ++ block.take m ++ out.drop (a + m)).take (a + m) = out.take a ++ block.take m := by
  apply List.take_left'
  rw [List.length_append, List.length_take_of_le (by omega), List.length_take_of_le hblock]

end

theorem length_T_succ (prk : Bytes32) (info : List UInt8) (i : Nat) :
    (T prk info (i + 1)).length = 32 := by rw [T, Vector.length_toList]

/-- From `i` blocks in place, which are the first `32 * i` bytes of the output, the loop completes it. -/
theorem expandLoop_eq {out : List UInt8} {i : Nat} (hshort : out.length ≤ 254 * 32)
    (hi : 32 * i < out.length + 32)
    (hfilled : out.take (min (32 * i) out.length) =
      (stream prk info i).take (min (32 * i) out.length)) :
    (expandLoop prk info out (T prk info i) (i + 1) (min (32 * i) out.length) :
      Except (Fault ε) (List UInt8)) = .ok (okm prk info out.length) := by
  induction hd : (out.length + 31) / 32 - i generalizing out i with
  | zero =>
    have hend : min (32 * i) out.length = out.length := by omega
    have hcount : (out.length + 31) / 32 = i := by omega
    rw [hend, List.take_length] at hfilled
    rw [expandLoop, hend, if_neg (Nat.lt_irrefl _), okm, hcount, ← hfilled]
    rfl
  | succ d ih =>
    have hmore : 32 * i < out.length := by omega
    have hstart : min (32 * i) out.length = 32 * i := by omega
    have hcounter : (nextCounter (i + 1) : Except (Fault ε) Nat) = .ok (i + 1 + 1) := if_pos (by omega)
    rw [hstart] at hfilled
    rw [hstart, expandLoop_step hmore, hcounter]
    generalize hm : min (out.length - 32 * i) 32 = m
    have hroom : 32 * i + m ≤ out.length := by omega
    have hblock : m ≤ (T prk info (i + 1)).length := by
      rw [length_T_succ]
      omega
    have hlen := length_write hroom hblock
    have hnext : 32 * i + m = min (32 * (i + 1)) out.length := by omega
    have htake := take_write hroom hblock
    have hfill : out.take (32 * i) ++ (T prk info (i + 1)).take m =
        (stream prk info (i + 1)).take (32 * i + m) := by
      rw [hfilled, ← length_stream prk info i, List.take_length, stream_succ, List.take_length_add_append]
    generalize out.take (32 * i) ++ (T prk info (i + 1)).take m ++ out.drop (32 * i + m) = out' at hlen htake
    rw [hfill, hnext, ← hlen] at htake
    have hrest := ih (i := i + 1) (by omega) (by omega) htake (by omega)
    rw [hlen, ← hnext] at hrest
    exact hrest

/-- Where the output has a block 255, the loop ends there. -/
theorem expandLoop_panics {out t : List UInt8} {i : Nat} (hlong : 254 * 32 < out.length)
    (hi : i ≤ 254) :
    (expandLoop prk info out t (i + 1) (32 * i) : Except (Fault ε) (List UInt8)) = .error .panic := by
  induction hd : 254 - i generalizing out t i with
  | zero =>
    obtain rfl : i = 254 := by omega
    rw [expandLoop, if_pos (by omega)]
    rfl
  | succ d ih =>
    have hcounter : (nextCounter (i + 1) : Except (Fault ε) Nat) = .ok (i + 1 + 1) := if_pos (by omega)
    have htake : min (out.length - 32 * i) 32 = 32 := by omega
    rw [expandLoop, if_pos (by omega), hcounter, htake]
    refine ih (i := i + 1) ?_ (by omega) (by omega)
    rw [length_write (by omega) (Nat.le_of_eq (Vector.length_toList).symm)]
    exact hlong

/-! ## The whole range -/

theorem expand_eq (prk : Bytes32) (info : List UInt8) {out : List UInt8}
    (h : out.length ≤ 254 * 32) :
    (expand prk info out : Except (Fault ε) (List UInt8)) = .ok (okm prk info out.length) := by
  have hloop : (expandLoop prk info out (T prk info 0) 1 (min (32 * 0) out.length) :
      Except (Fault ε) (List UInt8)) = .ok (okm prk info out.length) :=
    expandLoop_eq h (by omega) (by simp)
  rw [Nat.mul_zero, Nat.zero_min] at hloop
  rw [expand, if_pos (by omega)]
  exact hloop

theorem expand_panics (prk : Bytes32) (info : List UInt8) {out : List UInt8}
    (h : 254 * 32 < out.length) : (expand prk info out : Except (Fault ε) (List UInt8)) = .error .panic := by
  unfold expand
  split
  · exact expandLoop_panics (i := 0) h (by decide)
  · rfl

/-- `expand` returns the output exactly if that has at most 254 blocks. -/
theorem expand_eq_iff (prk : Bytes32) (info out : List UInt8) :
    (expand prk info out : Except (Fault ε) (List UInt8)) = .ok (okm prk info out.length) ↔
      out.length ≤ 254 * 32 := by
  constructor
  · intro hok
    by_contra hlong
    rw [expand_panics prk info (Nat.not_le.1 hlong)] at hok
    cases hok
  · exact expand_eq prk info

/-- The longest output that `expand` admits is not returned. -/
theorem expand_longest_panics :
    (List.replicate 8160 (0 : UInt8)).length ≤ 255 * 32 ∧
    (expand (Vector.replicate 32 0) [] (List.replicate 8160 0) : Except (Fault Empty) (List UInt8)) =
      .error .panic := by
  refine ⟨?_, expand_panics _ _ ?_⟩
  · rw [List.length_replicate]
  · rw [List.length_replicate]
    decide

/-! ## The transport keys -/

theorem toList_overwrite_all {n : Nat} {data : List UInt8} (hlen : data.length = n)
    (h : 0 + data.length ≤ n) : (overwrite (Vector.replicate n 0) 0 data h).toList = data := by
  rw [toList_overwrite_of_full _ h (by omega)]
  rfl

/-- Two keys are two blocks of output, as the transport derives them. -/
theorem twoKeys_eq (P : Noise.Primitives) (hP : P.C.hmacSha256 = hmacSha256) (salt : Bytes32)
    (ikm : List UInt8) : (twoKeys salt.toList ikm : Except (Fault ε) (Bytes32 × Bytes32)) =
      .ok (Noise.hkdfTwoKeys P salt ikm) := by
  have hokm : okm (hmacSha256 salt.toList ikm) [] 64 =
      T (hmacSha256 salt.toList ikm) [] 1 ++ T (hmacSha256 salt.toList ikm) [] 2 := by
    rw [okm, show (64 + 31) / 32 = 2 from rfl, List.take_of_length_le]
    · rw [stream_succ, stream_succ]
      rfl
    · rw [length_stream]
  have hlen : (List.replicate 64 (0 : UInt8)).length ≤ 254 * 32 := by
    rw [List.length_replicate]
    decide
  have hexpand := expand_eq (ε := ε) (hmacSha256 salt.toList ikm) [] hlen
  rw [List.length_replicate, hokm] at hexpand
  have hfirst : (T (hmacSha256 salt.toList ikm) [] 1 ++ T (hmacSha256 salt.toList ikm) [] 2).take 32 =
      T (hmacSha256 salt.toList ikm) [] 1 := List.take_left' (length_T_succ _ _ 0)
  have hsecond : ((T (hmacSha256 salt.toList ikm) [] 1 ++
      T (hmacSha256 salt.toList ikm) [] 2).drop 32).take 32 = T (hmacSha256 salt.toList ikm) [] 2 := by
    rw [List.drop_left' (length_T_succ _ _ 0)]
    exact List.take_of_length_le (Nat.le_of_eq (length_T_succ _ _ 1))
  rw [twoKeys, extract, hexpand]
  show Except.ok _ = _
  rw [Noise.hkdfTwoKeys, hP]
  refine congrArg Except.ok (Prod.ext (Vector.toList_inj.1 ?_) (Vector.toList_inj.1 ?_))
  · rw [toList_overwrite_all (by rw [hfirst, length_T_succ]), hfirst]
    rfl
  · rw [toList_overwrite_all (by rw [hsecond, length_T_succ]), hsecond, T, List.append_nil]
    rfl

end Hkdf
