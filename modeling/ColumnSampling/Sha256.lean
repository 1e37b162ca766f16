import ColumnSampling.Bytes

/-!
# SHA-256

The digest of a byte string: the message is padded to whole blocks of 64 bytes, and each block is
mixed into a state of eight 32-bit words by 64 rounds.
-/

namespace ColumnSampling.Sha256

structure State where
  a : UInt32
  b : UInt32
  c : UInt32
  d : UInt32
  e : UInt32
  f : UInt32
  g : UInt32
  h : UInt32

/-- The first 32 bits of the fractional parts of the cube roots of the first 64 primes. -/
def roundConstants : Array UInt32 := #[
  0x428a2f98, 0x71374491, 0xb5c0fbcf, 0xe9b5dba5, 0x3956c25b, 0x59f111f1, 0x923f82a4, 0xab1c5ed5,
  0xd807aa98, 0x12835b01, 0x243185be, 0x550c7dc3, 0x72be5d74, 0x80deb1fe, 0x9bdc06a7, 0xc19bf174,
  0xe49b69c1, 0xefbe4786, 0x0fc19dc6, 0x240ca1cc, 0x2de92c6f, 0x4a7484aa, 0x5cb0a9dc, 0x76f988da,
  0x983e5152, 0xa831c66d, 0xb00327c8, 0xbf597fc7, 0xc6e00bf3, 0xd5a79147, 0x06ca6351, 0x14292967,
  0x27b70a85, 0x2e1b2138, 0x4d2c6dfc, 0x53380d13, 0x650a7354, 0x766a0abb, 0x81c2c92e, 0x92722c85,
  0xa2bfe8a1, 0xa81a664b, 0xc24b8b70, 0xc76c51a3, 0xd192e819, 0xd6990624, 0xf40e3585, 0x106aa070,
  0x19a4c116, 0x1e376c08, 0x2748774c, 0x34b0bcb5, 0x391c0cb3, 0x4ed8aa4a, 0x5b9cca4f, 0x682e6ff3,
  0x748f82ee, 0x78a5636f, 0x84c87814, 0x8cc70208, 0x90befffa, 0xa4506ceb, 0xbef9a3f7, 0xc67178f2]

/-- The first 32 bits of the fractional parts of the square roots of the first eight primes. -/
def initial : State :=
  ⟨0x6a09e667, 0xbb67ae85, 0x3c6ef372, 0xa54ff53a, 0x510e527f, 0x9b05688c, 0x1f83d9ab, 0x5be0cd19⟩

@[inline] def rotate (x k : UInt32) : UInt32 := (x >>> k) ||| (x <<< (32 - k))

/-- One round, with its constant and its word of the message schedule. -/
def round (s : State) (k w : UInt32) : State :=
  let high := rotate s.e 6 ^^^ rotate s.e 11 ^^^ rotate s.e 25
  let choice := (s.e &&& s.f) ^^^ (~~~s.e &&& s.g)
  let t := s.h + high + choice + k + w
  let low := rotate s.a 2 ^^^ rotate s.a 13 ^^^ rotate s.a 22
  let majority := (s.a &&& s.b) ^^^ (s.a &&& s.c) ^^^ (s.b &&& s.c)
  ⟨t + (low + majority), s.a, s.b, s.c, s.d + t, s.e, s.f, s.g⟩

@[inline] def wordAt (message : ByteArray) (offset : Nat) : UInt32 :=
  (message.get! offset).toUInt32 <<< 24 ||| (message.get! (offset + 1)).toUInt32 <<< 16 |||
    (message.get! (offset + 2)).toUInt32 <<< 8 ||| (message.get! (offset + 3)).toUInt32

/-- The next word of the schedule, `i + 16`, from those before it. -/
@[inline] def nextWord (w : Array UInt32) (i : Nat) : UInt32 :=
  let x := w[i + 1]!
  let y := w[i + 14]!
  w[i]! + (rotate x 7 ^^^ rotate x 18 ^^^ x >>> 3) + w[i + 9]! +
    (rotate y 17 ^^^ rotate y 19 ^^^ y >>> 10)

def schedule (message : ByteArray) (offset : Nat) : Array UInt32 :=
  let block := Nat.fold 16 (fun i _ w => w.push (wordAt message (offset + 4 * i)))
    (Array.emptyWithCapacity 64)
  Nat.fold 48 (fun i _ w => w.push (nextWord w i)) block

def compress (message : ByteArray) (offset : Nat) (s : State) : State :=
  let w := schedule message offset
  let t := Nat.fold 64 (fun i _ s => round s roundConstants[i]! w[i]!) s
  ⟨s.a + t.a, s.b + t.b, s.c + t.c, s.d + t.d, s.e + t.e, s.f + t.f, s.g + t.g, s.h + t.h⟩

def pushWord (bytes : ByteArray) (w : UInt32) : ByteArray :=
  (((bytes.push (w >>> 24).toUInt8).push (w >>> 16).toUInt8).push (w >>> 8).toUInt8).push w.toUInt8

@[simp] theorem size_pushWord (bytes : ByteArray) (w : UInt32) :
    (pushWord bytes w).size = bytes.size + 4 := by
  simp [pushWord, ByteArray.size_push]

/--
The message, a one bit, zero bits up to the last eight bytes of a block, and the length of the
message in bits.
-/
def pad (message : ByteArray) : ByteArray :=
  let zeros := (119 - message.size % 64) % 64
  let bits := (8 * message.size).toUInt64
  let filled := Nat.fold zeros (fun _ _ m => m.push 0) (message.push 0x80)
  pushWord (pushWord filled (bits >>> 32).toUInt32) bits.toUInt32

def State.toRoot (s : State) : Root where
  bytes := pushWord (pushWord (pushWord (pushWord (pushWord (pushWord (pushWord (pushWord
    .empty s.a) s.b) s.c) s.d) s.e) s.f) s.g) s.h
  size_eq := by simp

def digest (message : ByteArray) : Root :=
  let padded := pad message
  (Nat.fold (padded.size / 64) (fun i _ s => compress padded (64 * i) s) initial).toRoot

end ColumnSampling.Sha256

namespace ColumnSampling

/-- The parent of two nodes of a merkle tree. -/
def hashPair (left right : Root) : Root := Sha256.digest (left.bytes ++ right.bytes)

end ColumnSampling
