import Keraunos.Crypto.Sha256
import Mathlib.Data.List.GetD
import Mathlib.Logic.Function.Iterate

/-!
# Incremental SHA-256 is one-shot SHA-256

`Absorbed msg s` says what a hasher is after the bytes `msg`, however they were split over calls: the
state is the compression of the full blocks of `msg`, the rest of `msg` waits, and `total` is its length.
An update keeps this (`Absorbed.update`), and so does the padding loop, which feeds zeros to `update`
itself; from any fill level it stops at 56 after fewer than 64 passes (`pad_eq`). So `finalize` is the
compression of all blocks of the padded message (`Absorbed.finalize`).
-/

open Blocks Bytes

namespace Sha256

/-! ## The padded message -/

/-- The zeros between the byte `0x80` and the length field. -/
def zeros (len : Nat) : Nat := (119 - len % 64) % 64

/-- The message, `0x80`, zeros and the length in bits as a 64-bit big-endian integer. -/
def padded (msg : List UInt8) : List UInt8 :=
  msg ++ 0x80 :: List.replicate (zeros msg.length) 0 ++ beBytes 8 (8 * msg.length)

theorem length_padded (msg : List UInt8) :
    (padded msg).length = msg.length + 1 + zeros msg.length + 8 := by
  simp only [padded, List.length_append, List.length_cons, List.length_replicate, length_beBytes]
  omega

/-- The padding ends a block. -/
theorem length_padded_mod (msg : List UInt8) : (padded msg).length % 64 = 0 := by
  rw [length_padded, zeros]
  omega

/-- No shorter padding ends a block. -/
theorem zeros_minimal {len z : Nat} (h : (len + 1 + z + 8) % 64 = 0) : zeros len ≤ z := by
  rw [zeros]
  omega

/-- The last field is the length in bits. -/
theorem beVal_length_field {msg : List UInt8} (h : msg.length < 2 ^ 61) :
    beVal ((padded msg).drop (msg.length + 1 + zeros msg.length)) = 8 * msg.length := by
  have hfront : (msg ++ 0x80 :: List.replicate (zeros msg.length) 0).length =
      msg.length + 1 + zeros msg.length := by
    simp only [List.length_append, List.length_cons, List.length_replicate]
    omega
  rw [padded, List.drop_left' hfront, beVal_beBytes, Nat.mod_eq_of_lt]
  omega

/-! ## Updates -/

/-- A hasher after the bytes `msg`. -/
structure Absorbed (msg : List UInt8) (s : Sha256) : Prop where
  state : s.state = (blocks 64 msg).foldl compress h0
  pending : s.buffer.pending = remainder 64 msg
  total : s.total = msg.length % 2 ^ 64

theorem absorbed_new : Absorbed [] new := ⟨rfl, rfl, rfl⟩

variable {msg : List UInt8} {s : Sha256}

theorem state_update (s : Sha256) (data : List UInt8) : (s.update data).state =
    (blocks 64 (s.buffer.pending ++ data)).foldl compress s.state := by
  obtain ⟨b', -, hrun⟩ := absorb_eq (m := Id) (fun state block => pure (compress state block))
    s.buffer data
  rw [update, hrun, List.foldlM_pure]
  rfl

/-- A call absorbs its bytes, however many they are. -/
theorem Absorbed.update (h : Absorbed msg s) (data : List UInt8) :
    Absorbed (msg ++ data) (s.update data) := by
  obtain ⟨hblocks, hrem⟩ := blocks_append (by decide : 0 < 64) msg data
  refine ⟨?_, ?_, ?_⟩
  · rw [state_update, h.state, h.pending, hblocks, List.foldl_append]
  · rw [pending_update, h.pending, hrem]
  · show (s.total + data.length) % 2 ^ 64 = _
    rw [h.total, List.length_append, Nat.mod_add_mod]

theorem Absorbed.foldl_update (h : Absorbed msg s) (parts : List (List UInt8)) :
    Absorbed (msg ++ parts.flatten) (parts.foldl Sha256.update s) := by
  induction parts generalizing msg s with
  | nil => rwa [List.flatten_nil, List.append_nil]
  | cons part parts ih =>
    rw [List.flatten_cons, ← List.append_assoc]
    exact ih (h.update part)

theorem Absorbed.len (h : Absorbed msg s) : s.buffer.len = msg.length % 64 := by
  rw [← Buffer.length_pending, h.pending, length_remainder]

/-! ## The padding loop -/

/-- The zeros that the loop adds at a fill level. -/
def passes (len : Nat) : Nat := (120 - len) % 64

theorem len_iterate (s : Sha256) (j : Nat) :
    ((fun s => s.update [0])^[j] s).buffer.len = (s.buffer.len + j) % 64 := by
  induction j with
  | zero => exact (Nat.mod_eq_of_lt s.buffer.lt).symm
  | succ j ih =>
    rw [Function.iterate_succ_apply', len_update, ih, List.length_singleton, Nat.mod_add_mod,
      Nat.add_assoc]

/-- The loop leaves after `passes` passes, the first time that the fill level is 56. -/
theorem pad_eq (s : Sha256) :
    s.pad = (fun s => s.update [0])^[passes s.buffer.len] s ∧ s.pad.buffer.len = 56 := by
  fun_induction pad s with
  | case1 s hlen ih =>
    have hlt := s.buffer.lt
    have hpasses : passes s.buffer.len = passes (s.update [0]).buffer.len + 1 := by
      rw [len_update, List.length_singleton, passes, passes]
      omega
    rw [hpasses, Function.iterate_succ_apply]
    exact ih
  | case2 s hlen =>
    have hfull : s.buffer.len = 56 := not_not.1 hlen
    rw [hfull]
    exact ⟨rfl, rfl⟩

theorem Absorbed.iterate (h : Absorbed msg s) (j : Nat) :
    Absorbed (msg ++ List.replicate j 0) ((fun s => s.update [0])^[j] s) := by
  induction j with
  | zero => rwa [List.replicate_zero, List.append_nil]
  | succ j ih =>
    rw [Function.iterate_succ_apply', List.replicate_succ', ← List.append_assoc]
    exact ih.update [0]

/-- The last block is what waits and the length field. -/
theorem Absorbed.finalize (h : Absorbed msg s) :
    s.finalize = ((blocks 64 (padded msg)).foldl compress h0).toBytes := by
  have hmark := h.update [0x80]
  obtain ⟨hpad, hlen⟩ := pad_eq (s.update [0x80])
  have hzeros : passes (s.update [0x80]).buffer.len = zeros msg.length := by
    rw [hmark.len, List.length_append, List.length_singleton, passes, zeros]
    omega
  have hfront := hmark.iterate (passes (s.update [0x80]).buffer.len)
  rw [← hpad, hzeros, List.append_assoc, List.singleton_append] at hfront
  have hfield : beBytes 8 (s.total * 8 % 2 ^ 64) = beBytes 8 (8 * msg.length) := by
    have hmod : ∀ v, beBytes 8 (v % 2 ^ 64) = beBytes 8 v := by
      intro v
      conv_rhs => rw [← Nat.div_add_mod v (2 ^ 64), Nat.mul_comm]
      exact (beBytes_add_mul 8 (v % 2 ^ 64) (v / 2 ^ 64)).symm
    rw [h.total, hmod, ← hmod (8 * msg.length), ← hmod (msg.length % 2 ^ 64 * 8)]
    congr 1
    omega
  have hwait : (s.update [0x80]).pad.buffer.buf.toList.take 56 =
      remainder 64 (msg ++ 0x80 :: List.replicate (zeros msg.length) 0) := by
    rw [← hfront.pending, Buffer.pending, hlen]
  have hlast : (overwrite (s.update [0x80]).pad.buffer.buf 56 (beBytes 8 (s.total * 8 % 2 ^ 64))
      (by rw [length_beBytes])).toList = remainder 64
        (msg ++ 0x80 :: List.replicate (zeros msg.length) 0) ++ beBytes 8 (8 * msg.length) := by
    rw [toList_overwrite_of_full _ _ (by rw [length_beBytes]), hwait, hfield]
  obtain ⟨hblocks, -⟩ := blocks_append (by decide : 0 < 64)
    (msg ++ 0x80 :: List.replicate (zeros msg.length) 0) (beBytes 8 (8 * msg.length))
  rw [← hlast, ← List.append_nil (Vector.toList _), blocks_cons (by decide)] at hblocks
  rw [padded, hblocks, List.foldl_append, ← hfront.state]
  rfl

/-- For every message and every way of splitting it into calls: the digest is the compression of the
blocks of the padded message, and the padding is minimal and ends with the length in bits. The padding
loop ends from every fill level, at its first visit to 56. -/
theorem finalize_updates (parts : List (List UInt8)) (h : parts.flatten.length < 2 ^ 61) :
    (parts.foldl update new).finalize =
      ((blocks 64 (padded parts.flatten)).foldl compress h0).toBytes ∧
    (padded parts.flatten).length % 64 = 0 ∧
    (∀ z, (parts.flatten.length + 1 + z + 8) % 64 = 0 → zeros parts.flatten.length ≤ z) ∧
    beVal ((padded parts.flatten).drop (parts.flatten.length + 1 + zeros parts.flatten.length)) =
      8 * parts.flatten.length ∧
    ∀ s : Sha256, ∃ j < 64, s.pad = (fun s => s.update [0])^[j] s ∧ s.pad.buffer.len = 56 ∧
      ∀ i < j, ((fun s => s.update [0])^[i] s).buffer.len ≠ 56 := by
  refine ⟨?_, length_padded_mod _, fun z => zeros_minimal, beVal_length_field h, fun s => ?_⟩
  · have hall := absorbed_new.foldl_update parts
    rw [List.nil_append] at hall
    exact hall.finalize
  · obtain ⟨hpad, hlen⟩ := pad_eq s
    refine ⟨passes s.buffer.len, Nat.mod_lt _ (by decide), hpad, hlen, fun i hi => ?_⟩
    have hlt := s.buffer.lt
    rw [passes] at hi
    rw [len_iterate]
    omega

theorem finalize_updates_abc :
    ([[0x61], [], [0x62, 0x63]].foldl update new).finalize.toList =
      [0xba, 0x78, 0x16, 0xbf, 0x8f, 0x01, 0xcf, 0xea, 0x41, 0x41, 0x40, 0xde, 0x5d, 0xae, 0x22, 0x23,
        0xb0, 0x03, 0x61, 0xa3, 0x96, 0x17, 0x7a, 0x9c, 0xb4, 0x10, 0xff, 0x61, 0xf2, 0x00, 0x15,
        0xad] := by
  rw [(finalize_updates [[0x61], [], [0x62, 0x63]] (by decide)).1]
  decide +kernel

/-- The calls do not matter. -/
theorem finalize_foldl_update (parts : List (List UInt8)) :
    (parts.foldl update new).finalize = digest parts.flatten := by
  have hall := absorbed_new.foldl_update parts
  have hone := absorbed_new.update parts.flatten
  rw [digest, hall.finalize, hone.finalize]

/-! ## The message schedule -/

theorem foldl_extend_succ (w : List (BitVec 32)) (n : Nat) :
    (List.range' 16 (n + 1)).foldl extend w = extend ((List.range' 16 n).foldl extend w) (16 + n) := by
  rw [List.range'_concat, List.foldl_concat, Nat.one_mul]

theorem length_foldl_extend (w : List (BitVec 32)) (n : Nat) :
    ((List.range' 16 n).foldl extend w).length = w.length + n := by
  induction n with
  | zero => rfl
  | succ n ih =>
    rw [foldl_extend_succ, extend, List.length_append, ih]
    rfl

/-- A word stays where it was put. -/
theorem getD_foldl_extend (w : List (BitVec 32)) {i n n' : Nat} (hi : i < w.length + n)
    (hle : n ≤ n') : ((List.range' 16 n').foldl extend w).getD i 0 =
      ((List.range' 16 n).foldl extend w).getD i 0 := by
  induction n', hle using Nat.le_induction with
  | base => rfl
  | succ n' hle ih =>
    rw [foldl_extend_succ, extend, List.getD_append, ih]
    rw [length_foldl_extend]
    omega

/-- The words after the first sixteen, which are those of the block. -/
theorem schedule_recurrence (block : Vector UInt8 64) {i : Nat} (hlow : 16 ≤ i) (hhigh : i < 64) :
    let w (j : Nat) := (schedule block).getD j 0
    w i = w (i - 16) +
      ((w (i - 15)).rotateRight 7 ^^^ (w (i - 15)).rotateRight 18 ^^^ (w (i - 15) >>> 3)) +
      w (i - 7) + ((w (i - 2)).rotateRight 17 ^^^ (w (i - 2)).rotateRight 19 ^^^ (w (i - 2) >>> 10)) := by
  obtain ⟨n, rfl⟩ := Nat.exists_eq_add_of_le hlow
  have hlen : ((List.range 16).map (wordOf block)).length = 16 := by simp
  have hearlier : ∀ j < 16 + n, (schedule block).getD j 0 =
      ((List.range' 16 n).foldl extend ((List.range 16).map (wordOf block))).getD j 0 :=
    fun j hj => getD_foldl_extend _ (by omega) (by omega)
  have hnew : (schedule block).getD (16 + n) 0 =
      (extend ((List.range' 16 n).foldl extend ((List.range 16).map (wordOf block))) (16 + n)).getD
        (16 + n) 0 := by
    rw [← foldl_extend_succ]
    exact getD_foldl_extend _ (by omega) (by omega)
  have hplace : ((List.range' 16 n).foldl extend ((List.range 16).map (wordOf block))).length =
      16 + n := by
    rw [length_foldl_extend, hlen]
  dsimp only
  rw [hnew, hearlier _ (by omega), hearlier _ (by omega), hearlier _ (by omega),
    hearlier _ (by omega), extend, List.getD_append_right _ _ _ _ (by omega), hplace, Nat.sub_self]
  rfl

end Sha256
