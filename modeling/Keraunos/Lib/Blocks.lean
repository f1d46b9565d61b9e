import Mathlib.Data.List.Basic

/-!
# Absorbing a message block by block

A hash or a MAC absorbs a message in blocks of `n` bytes; between calls the bytes of an unfinished
block wait in a buffer. `blocks n data` are the full blocks of a message and `remainder n data` what is
left after them. `Buffer` is the buffer, of which only the first `len` bytes count: the rest is left
over from earlier blocks. `absorb step st b data` is one call. In what it leaves to the next call the
message absorbed so far is only visible as the state after its full blocks and its remainder
(`absorb_eq`), and blocks are cut off from the front (`blocks_append`), so calls compose.
-/

namespace Blocks

variable {n : Nat}

/-! ## Cutting a message -/

/-- Block `i` of `n` bytes. -/
def block (n : Nat) (data : List UInt8) (i : Nat) : Vector UInt8 n :=
  Vector.ofFn fun j => data.getD (n * i + j) 0

/-- `chunks_exact(n)`. -/
def blocks (n : Nat) (data : List UInt8) : List (Vector UInt8 n) :=
  (List.range (data.length / n)).map (block n data)

/-- `chunks_exact(n).remainder()`. -/
def remainder (n : Nat) (data : List UInt8) : List UInt8 := data.drop (n * (data.length / n))

theorem length_remainder (n : Nat) (data : List UInt8) :
    (remainder n data).length = data.length % n := by
  rw [remainder, List.length_drop, Nat.mod_def]

theorem remainder_lt (hn : 0 < n) (data : List UInt8) : 0 + (remainder n data).length < n := by
  rw [Nat.zero_add, length_remainder]
  exact Nat.mod_lt _ hn

theorem blocks_of_lt {data : List UInt8} (h : data.length < n) : blocks n data = [] := by
  rw [blocks, Nat.div_eq_of_lt h]
  rfl

theorem remainder_of_lt {data : List UInt8} (h : data.length < n) : remainder n data = data := by
  rw [remainder, Nat.div_eq_of_lt h]
  rfl

theorem block_zero (v : Vector UInt8 n) (data : List UInt8) : block n (v.toList ++ data) 0 = v := by
  ext i hi
  simp [block, List.getElem?_append]

theorem block_succ (v : Vector UInt8 n) (data : List UInt8) (i : Nat) :
    block n (v.toList ++ data) (i + 1) = block n data i := by
  ext j hj
  have hle : n ≤ n * (i + 1) + j := by
    rw [Nat.mul_succ]
    omega
  have hsub : n * (i + 1) + j - n = n * i + j := by
    rw [Nat.mul_succ]
    omega
  simp [block, List.getElem?_append, Nat.not_lt.2 hle, hsub]

theorem blocks_cons (hn : 0 < n) (v : Vector UInt8 n) (data : List UInt8) :
    blocks n (v.toList ++ data) = v :: blocks n data := by
  have hcount : (v.toList ++ data).length / n = data.length / n + 1 := by
    rw [List.length_append, Vector.length_toList, Nat.add_comm, Nat.add_div_right _ hn]
  rw [blocks, hcount, List.range_succ_eq_map, List.map_cons, List.map_map, block_zero, blocks]
  congr 1
  exact List.map_congr_left fun i _ => block_succ v data i

theorem remainder_cons (hn : 0 < n) (v : Vector UInt8 n) (data : List UInt8) :
    remainder n (v.toList ++ data) = remainder n data := by
  have hcount : (v.toList ++ data).length / n = data.length / n + 1 := by
    rw [List.length_append, Vector.length_toList, Nat.add_comm, Nat.add_div_right _ hn]
  rw [remainder, hcount, Nat.mul_succ, Nat.add_comm, ← List.drop_drop,
    List.drop_left' Vector.length_toList, remainder]

/-- A message of at least one block. -/
theorem exists_block {data : List UInt8} (h : n ≤ data.length) :
    ∃ (v : Vector UInt8 n) (rest : List UInt8), data = v.toList ++ rest := by
  have hsize : (data.take n).toArray.size = n := by
    rw [List.size_toArray, List.length_take_of_le h]
  refine ⟨⟨(data.take n).toArray, hsize⟩, data.drop n, ?_⟩
  rw [Vector.toList_mk, List.toList_toArray, List.take_append_drop]

/-- Blocks are cut off from the front, whatever else follows. -/
theorem blocks_append (hn : 0 < n) (data more : List UInt8) :
    blocks n (data ++ more) = blocks n data ++ blocks n (remainder n data ++ more) ∧
      remainder n (data ++ more) = remainder n (remainder n data ++ more) := by
  induction hlen : data.length using Nat.strongRecOn generalizing data with
  | ind len ih =>
    by_cases hshort : data.length < n
    · rw [blocks_of_lt hshort, remainder_of_lt hshort]
      exact ⟨rfl, rfl⟩
    · obtain ⟨v, rest, rfl⟩ := exists_block (Nat.not_lt.1 hshort)
      have hlt : rest.length < len := by
        rw [← hlen, List.length_append, Vector.length_toList]
        omega
      obtain ⟨hblocks, hrem⟩ := ih rest.length hlt rest rfl
      rw [List.append_assoc, blocks_cons hn, blocks_cons hn, remainder_cons hn, remainder_cons hn,
        hblocks, hrem]
      exact ⟨rfl, rfl⟩

/-! ## The buffer -/

/-- `buf[at..at + data.len()].copy_from_slice(data)`. -/
def overwrite (buf : Vector UInt8 n) (start : Nat) (data : List UInt8)
    (h : start + data.length ≤ n) : Vector UInt8 n :=
  ⟨(buf.toList.take start ++ data ++ buf.toList.drop (start + data.length)).toArray, by
    simp
    omega⟩

theorem toList_overwrite (buf : Vector UInt8 n) {start : Nat} {data : List UInt8}
    (h : start + data.length ≤ n) : (overwrite buf start data h).toList =
      buf.toList.take start ++ data ++ buf.toList.drop (start + data.length) := by
  rw [overwrite, Vector.toList_mk]

/-- A buffer that is not full. -/
structure Buffer (n : Nat) where
  buf : Vector UInt8 n
  len : Nat
  lt : len < n

namespace Buffer

/-- What waits for the next call. -/
def pending (b : Buffer n) : List UInt8 := b.buf.toList.take b.len

@[simp] theorem length_pending (b : Buffer n) : b.pending.length = b.len := by
  rw [pending, List.length_take, Vector.length_toList, Nat.min_eq_left (Nat.le_of_lt b.lt)]

theorem pos (b : Buffer n) : 0 < n := Nat.lt_of_le_of_lt (Nat.zero_le _) b.lt

/-- What completes the block fits. -/
theorem fits (b : Buffer n) {data : List UInt8} : b.len + (data.take (n - b.len)).length ≤ n := by
  have hlt := b.lt
  rw [List.length_take]
  omega

/-- The buffer after a write that does not fill it. -/
def write (buf : Vector UInt8 n) (start : Nat) (data : List UInt8) (h : start + data.length < n) :
    Buffer n := ⟨overwrite buf start data (Nat.le_of_lt h), start + data.length, h⟩

end Buffer

/-- What counts after a write that continues what counted before it. -/
theorem take_overwrite (buf : Vector UInt8 n) {start : Nat} {data : List UInt8}
    (h : start + data.length ≤ n) : (overwrite buf start data h).toList.take (start + data.length) =
      buf.toList.take start ++ data := by
  have hlen : (buf.toList.take start ++ data).length = start + data.length := by
    rw [List.length_append, List.length_take, Vector.length_toList]
    omega
  rw [toList_overwrite, List.take_left' hlen]

theorem Buffer.pending_write (buf : Vector UInt8 n) {start : Nat} {data : List UInt8}
    (h : start + data.length < n) :
    (Buffer.write buf start data h).pending = buf.toList.take start ++ data :=
  take_overwrite buf (Nat.le_of_lt h)

/-- A write up to the end. -/
theorem toList_overwrite_of_full (buf : Vector UInt8 n) {start : Nat} {data : List UInt8}
    (h : start + data.length ≤ n) (hfull : n ≤ start + data.length) :
    (overwrite buf start data h).toList = buf.toList.take start ++ data := by
  rw [← take_overwrite buf h, List.take_of_length_le]
  rwa [Vector.length_toList]

section
variable {m : Type → Type} [Monad m] {σ : Type}

/-- The full blocks of the data, one after the other, and the rest to the front of the buffer. -/
def absorbChunks (step : σ → Vector UInt8 n → m σ) (hn : 0 < n) (st : σ) (buf : Vector UInt8 n)
    (data : List UInt8) : m (σ × Buffer n) := do
  let st ← (blocks n data).foldlM step st
  return (st, .write buf 0 (remainder n data) (remainder_lt hn data))

/-- One call. -/
def absorb (step : σ → Vector UInt8 n → m σ) (st : σ) (b : Buffer n) (data : List UInt8) :
    m (σ × Buffer n) :=
  if 0 < b.len then
    let now := data.take (n - b.len)
    -- The input ends without completing the block.
    if hfill : b.len + now.length < n then return (st, .write b.buf b.len now hfill)
    else do
      let buf := overwrite b.buf b.len now b.fits
      let st ← step st buf
      absorbChunks step b.pos st buf (data.drop now.length)
  else absorbChunks step b.pos st b.buf data

variable (step : σ → Vector UInt8 n → m σ)

theorem absorbChunks_eq (hn : 0 < n) (buf : Vector UInt8 n) (data : List UInt8) :
    ∃ b' : Buffer n, b'.pending = remainder n data ∧ ∀ st : σ, absorbChunks step hn st buf data =
      (blocks n data).foldlM step st >>= fun st' => pure (st', b') :=
  ⟨_, Buffer.pending_write buf (remainder_lt hn data), fun _ => rfl⟩

variable [LawfulMonad m]

/-- A call absorbs the full blocks of what waited and what came, and keeps the remainder. -/
theorem absorb_eq (b : Buffer n) (data : List UInt8) :
    ∃ b' : Buffer n, b'.pending = remainder n (b.pending ++ data) ∧ ∀ st, absorb step st b data =
      (blocks n (b.pending ++ data)).foldlM step st >>= fun st' => pure (st', b') := by
  unfold absorb
  by_cases hpos : 0 < b.len
  · simp only [if_pos hpos]
    by_cases hfill : b.len + (data.take (n - b.len)).length < n
    · have hall : data.take (n - b.len) = data := by
        rw [List.length_take] at hfill
        exact List.take_of_length_le (by omega)
      have hshort : (b.pending ++ data).length < n := by
        rw [List.length_append, b.length_pending]
        rwa [hall] at hfill
      refine ⟨.write b.buf b.len (data.take (n - b.len)) hfill, ?_, ?_⟩
      · rw [Buffer.pending_write, remainder_of_lt hshort, hall]
        rfl
      · intro st
        rw [dif_pos hfill, blocks_of_lt hshort, List.foldlM_nil, pure_bind]
    · simp only [dif_neg hfill]
      have hfull := toList_overwrite_of_full b.buf b.fits (Nat.not_lt.1 hfill)
      generalize overwrite b.buf b.len (data.take (n - b.len)) b.fits = buf at hfull
      have hcut : data.drop (data.take (n - b.len)).length = data.drop (n - b.len) := by
        rw [List.length_take]
        by_cases hle : n - b.len ≤ data.length
        · rw [Nat.min_eq_left hle]
        · rw [List.drop_of_length_le (by omega), List.drop_of_length_le (by omega)]
      have hdata : b.pending ++ data = buf.toList ++ data.drop (n - b.len) := by
        rw [hfull, List.append_assoc, List.take_append_drop]
        rfl
      obtain ⟨b', hpending, hrun⟩ := absorbChunks_eq step b.pos buf (data.drop (n - b.len))
      refine ⟨b', ?_, ?_⟩
      · rw [hpending, hdata, remainder_cons b.pos]
      · intro st
        rw [hdata, blocks_cons b.pos, List.foldlM_cons, bind_assoc, hcut]
        exact congrArg (step st buf >>= ·) (funext hrun)
  · have hnone : b.pending = [] := by
      rw [Buffer.pending, Nat.eq_zero_of_not_pos hpos]
      rfl
    simp only [if_neg hpos, hnone, List.nil_append]
    exact absorbChunks_eq step b.pos b.buf data

end

end Blocks
