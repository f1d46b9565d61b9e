import Keraunos.Lib.Act
import Keraunos.Lib.Bytes

/-!
# Per-commitment secrets (`shachain.rs`)

Generation of per-commitment secrets from a seed and the 49-slot store for the secrets the
counterparty reveals. Indices count down from `2^48 - 1`, the index of commitment 0. The hash is a
parameter: nothing here depends on what `Sha256::digest` computes.
-/

/-- A 32-byte array. -/
abbrev Bytes32 : Type := Vector UInt8 32

instance : LawfulBEq Bytes32 := inferInstance

/-- The bytes a reader takes for a 32-byte array. -/
theorem Bytes32.size_take {data : List UInt8} (h : ¬ data.length < 32) :
    (data.take 32).toArray.size = 32 :=
  Bytes.size_take h

namespace Shachain

def maxIndex : Nat := (1 <<< 48) - 1

/-- The index of a commitment number (`u64` subtraction, which wraps). -/
def indexForCommitment (commitmentNumber : Nat) : Nat :=
  (maxIndex + 2 ^ 64 - commitmentNumber) % 2 ^ 64

/-- Flip bit `bit` of the byte string. -/
def flipBit (p : Bytes32) (bit : Nat) : Bytes32 :=
  p.setIfInBounds (bit / 8) (p.getD (bit / 8) 0 ^^^ ((1 : UInt8) <<< UInt8.ofNat (bit % 8)))

section
variable (H : Bytes32 → Bytes32)

/-- `derive_secret`: for `b` from `bits - 1` down to 0, flip bit `b` and hash when the index has
bit `b`. -/
def deriveSecret (base : Bytes32) (bits index : Nat) : Bytes32 :=
  match bits with
  | 0 => base
  | b + 1 =>
    deriveSecret (if index &&& (1 <<< b) ≠ 0 then H (flipBit base b) else base) b index

def generateFromSeed (seed : Bytes32) (index : Nat) : Bytes32 := deriveSecret H seed 48 index

end

/-- The error of `SecretStore::insert`. -/
inductive InsertError where
  | insertError
  deriving Repr, DecidableEq

/-- `trailing_zeros` of a `u64`, counted over at most `fuel` bits. -/
def trailingZerosAux : Nat → Nat → Nat
  | 0, _ => 0
  | fuel + 1, n => if n % 2 = 1 then 0 else trailingZerosAux fuel (n / 2) + 1

def trailingZeros (n : Nat) : Nat := trailingZerosAux 64 n

/-- One `(index, secret)` pair per bucket. -/
structure SecretStore where
  known : Vector (Option (Nat × Bytes32)) 49
  deriving DecidableEq

namespace SecretStore

def new : SecretStore := ⟨Vector.replicate 49 none⟩

def bucket (index : Nat) : Nat := if index = 0 then 48 else trailingZeros index

/-- The stored pair of bucket `b` (`none` past the last bucket). -/
def slot (st : SecretStore) (b : Nat) : Option (Nat × Bytes32) := (st.known[b]?).join

section
variable (H : Bytes32 → Bytes32)

/-- The check of `insert`: `secret` re-derives the secret of every lower bucket. -/
def consistent (st : SecretStore) (b : Nat) (secret : Bytes32) : Bool :=
  (List.range b).all fun lower =>
    match st.slot lower with
    | some (knownIndex, knownSecret) => deriveSecret H secret b knownIndex = knownSecret
    | none => true

/-- `insert`: store the secret in its bucket if it re-derives every lower one. An index with more
than 48 trailing zeros is out of the array's range. -/
def insert (st : SecretStore) (index : Nat) (secret : Bytes32) :
    Except (Fault InsertError) SecretStore :=
  let b := bucket index
  if consistent H st b secret then
    if h : b < 49 then .ok ⟨st.known.set b (some (index, secret)) h⟩ else .error .panic
  else .error (.err .insertError)

/-- The mask of bucket `b`: clears the low `b` bits of a `u64`. -/
def mask (b : Nat) : Nat := if b = 48 then 0 else 2 ^ 64 - 1 - ((1 <<< b) - 1)

/-- `secret_for`: derive the secret of `index` from the first bucket that covers it. -/
def secretFor (st : SecretStore) (index : Nat) : Option Bytes32 :=
  (List.range 49).findSome? fun b =>
    match st.slot b with
    | some (knownIndex, knownSecret) =>
      if index &&& mask b = knownIndex &&& mask b ∧ knownIndex ≤ index then
        some (deriveSecret H knownSecret b index)
      else none
    | none => none

end

/-- The occupied buckets, for persistence. -/
def entries (st : SecretStore) : List (Nat × Bytes32) := st.known.toList.filterMap id

/-- Put an entry in the bucket of its index. -/
def put (st : SecretStore) (e : Nat × Bytes32) : SecretStore :=
  ⟨st.known.setIfInBounds (bucket e.1) (some e)⟩

def fromEntries (es : List (Nat × Bytes32)) : SecretStore := es.foldl put new

end SecretStore

end Shachain
