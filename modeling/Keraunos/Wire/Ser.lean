import Keraunos.Lib.Parse
import Keraunos.Crypto

/-!
# Wire primitives (`wire/ser.rs`, `wire/bigsize.rs`)

A reader consumes the front of a byte string; a writer appends, so it is the written bytes
themselves.
-/

namespace Wire

open Bytes Parse

inductive WireError where
  | unexpectedEnd
  | nonMinimalBigSize
  | badPubkey
  | badSignature
  | unknownRequiredTlv (t : Nat)
  | tlvNotStrictlyAscending
  | tlvLengthMismatch
  | unknownMessageType (t : Nat)
  | trailingBytes
  | badFormat (what : String)
  deriving DecidableEq, Repr

/-- `WireReader`: the state is the unread rest. -/
abbrev Reader (α : Type) : Type := StateT (List UInt8) (Except WireError) α

namespace Reader

def take (n : Nat) : Reader (List UInt8) := fun data =>
  if data.length < n then .error .unexpectedEnd else .ok (data.take n, data.drop n)

/-- `uN::from_be_bytes` of the next `w` bytes. -/
def uint (w : Nat) : Reader Nat := do
  return beVal (← take w)

def u8 : Reader Nat := uint 1
def u16 : Reader Nat := uint 2
def u32 : Reader Nat := uint 4
def u64 : Reader Nat := uint 8

/-- `array::<N>`. -/
def array (n : Nat) : Reader (Vector UInt8 n) := fun data =>
  if h : data.length < n then .error .unexpectedEnd
  else .ok (⟨(data.take n).toArray, Bytes.size_take h⟩, data.drop n)

/-- All remaining bytes. -/
def rest : Reader (List UInt8) := Parse.rest

/-- The BOLT `len`/`data` idiom. -/
def bytesU16 : Reader (List UInt8) := do
  let len ← u16
  take len

section
variable (K : KeyParsers)

def pubkey : Reader PublicKey := do
  match K.fromSlice (← take 33) with
  | some pk => return pk
  | none => throw .badPubkey

def signature : Reader Signature := do
  match K.fromCompact (← take 64) with
  | some sig => return sig
  | none => throw .badSignature

end

theorem run_bind_ok {α β : Type} {x : Reader α} {f : α → Reader β} {s s' : List UInt8} {a : α}
    (h : x.run s = .ok (a, s')) : (x >>= f).run s = (f a).run s' := by
  rw [StateT.run_bind, h]
  rfl

@[simp] theorem run_pure {α : Type} (a : α) (s : List UInt8) :
    (pure a : Reader α).run s = .ok (a, s) := rfl

theorem take_append {xs ys : List UInt8} {n : Nat} (h : xs.length = n) :
    (take n).run (xs ++ ys) = .ok (xs, ys) := by
  subst h
  simp [take, StateT.run]

theorem uint_append (w v : Nat) (ys : List UInt8) (h : v < 256 ^ w) :
    (uint w).run (beBytes w v ++ ys) = .ok (v, ys) := by
  rw [uint, run_bind_ok (take_append (length_beBytes w v)), run_pure, beVal_beBytes,
    Nat.mod_eq_of_lt h]

end Reader

/-! ## `WireWriter`: what each call appends -/

namespace Writer

def u8 (v : Nat) : List UInt8 := beBytes 1 v
def u16 (v : Nat) : List UInt8 := beBytes 2 v
def u32 (v : Nat) : List UInt8 := beBytes 4 v
def u64 (v : Nat) : List UInt8 := beBytes 8 v

def bytesU16 (b : List UInt8) : List UInt8 := u16 b.length ++ b

def pubkey (pk : PublicKey) : List UInt8 := pk.serialize

def signature (sig : Signature) : List UInt8 := sig.serializeCompact

end Writer

/-! ## BigSize -/

namespace BigSize

/-- `bigsize::write`. -/
def write (value : Nat) : List UInt8 :=
  if value ≤ 0xfc then beBytes 1 value
  else if value ≤ 0xffff then beBytes 1 0xfd ++ beBytes 2 value
  else if value ≤ 0xffffffff then beBytes 1 0xfe ++ beBytes 4 value
  else beBytes 1 0xff ++ beBytes 8 value

/-- `bigsize::read`: rejects encodings longer than needed. -/
def read : Reader Nat := do
  let first ← Reader.u8
  if first ≤ 0xfc then return first
  else if first = 0xfd then
    let v ← Reader.u16
    if v < 0xfd then throw .nonMinimalBigSize else return v
  else if first = 0xfe then
    let v ← Reader.u32
    if v ≤ 0xffff then throw .nonMinimalBigSize else return v
  else
    let v ← Reader.u64
    if v ≤ 0xffffffff then throw .nonMinimalBigSize else return v

/-- `bigsize::len`. -/
def len (value : Nat) : Nat :=
  if value ≤ 0xfc then 1 else if value ≤ 0xffff then 3 else if value ≤ 0xffffffff then 5 else 9

theorem length_write (v : Nat) : (write v).length = len v := by
  unfold write len
  split
  · simp
  split
  · simp
  split <;> simp

/-- Reading what was written gives the value back. -/
theorem read_write {v : Nat} (h : v < 2 ^ 64) (rest : List UInt8) :
    read.run (write v ++ rest) = .ok (v, rest) := by
  unfold write read Reader.u8 Reader.u16 Reader.u32 Reader.u64
  split
  · next h1 =>
    rw [Reader.run_bind_ok (Reader.uint_append 1 v _ (by omega)), if_pos h1, Reader.run_pure]
  split
  · next h1 h2 =>
    rw [List.append_assoc, Reader.run_bind_ok (Reader.uint_append 1 0xfd _ (by decide)),
      if_neg (by decide), if_pos rfl, Reader.run_bind_ok (Reader.uint_append 2 v _ (by omega)),
      if_neg (by omega), Reader.run_pure]
  split
  · next h1 h2 h3 =>
    rw [List.append_assoc, Reader.run_bind_ok (Reader.uint_append 1 0xfe _ (by decide)),
      if_neg (by decide), if_neg (by decide), if_pos rfl,
      Reader.run_bind_ok (Reader.uint_append 4 v _ (by omega)), if_neg (by omega), Reader.run_pure]
  · next h1 h2 h3 =>
    rw [List.append_assoc, Reader.run_bind_ok (Reader.uint_append 1 0xff _ (by decide)),
      if_neg (by decide), if_neg (by decide), if_neg (by decide),
      Reader.run_bind_ok (Reader.uint_append 8 v _ (by omega)), if_neg (by omega), Reader.run_pure]

end BigSize

end Wire
