/-! # A keystream of random words

A ChaCha keystream of twelve rounds: the 32-bit words that a pseudo-random source draws from a seed.
Each block mixes the constants, the key and the number of the block in six double rounds and adds
the initial words. -/

namespace FormalLanguages.Sampling

/-- Sixteen 32-bit words, as four rows of four. -/
abbrev Block := Vector UInt32 16

/-- The bits of a word moved left by `n`, those that leave coming back on the right. -/
def rotateLeft (x : UInt32) (n : UInt32) : UInt32 := (x <<< n) ||| (x >>> (32 - n))

/-- Mixes four words of a block into one another. -/
def quarterRound (b : Block) (i j k l : Fin 16) : Block :=
  let b := b.set i (b[i] + b[j])
  let b := b.set l (rotateLeft (b[l] ^^^ b[i]) 16)
  let b := b.set k (b[k] + b[l])
  let b := b.set j (rotateLeft (b[j] ^^^ b[k]) 12)
  let b := b.set i (b[i] + b[j])
  let b := b.set l (rotateLeft (b[l] ^^^ b[i]) 8)
  let b := b.set k (b[k] + b[l])
  b.set j (rotateLeft (b[j] ^^^ b[k]) 7)

/-- Mixes the columns and then the diagonals of a block. -/
def doubleRound (b : Block) : Block :=
  -- columns
  let b := quarterRound b 0 4 8 12
  let b := quarterRound b 1 5 9 13
  let b := quarterRound b 2 6 10 14
  let b := quarterRound b 3 7 11 15
  -- diagonals
  let b := quarterRound b 0 5 10 15
  let b := quarterRound b 1 6 11 12
  let b := quarterRound b 2 7 8 13
  quarterRound b 3 4 9 14

/-- The eight words of a key. -/
abbrev Key := Vector UInt32 8

/-- The block of a key with the given number before mixing: the constants, the key and the two
halves of the number. -/
def initialBlock (key : Key) (number : UInt64) : Block :=
  #v[0x61707865, 0x3320646e, 0x79622d32, 0x6b206574,
    key[0], key[1], key[2], key[3], key[4], key[5], key[6], key[7],
    number.toUInt32, (number >>> 32).toUInt32, 0, 0]

/-- The words of the block with the given number. -/
def keyBlock (key : Key) (number : UInt64) : Block :=
  let initial := initialBlock key number
  let mixed := Nat.repeat doubleRound 6 initial
  Vector.zipWith (· + ·) initial mixed

/-- The next state of the congruential generator that expands a seed. -/
def nextSeed (s : UInt64) : UInt64 := s * 6364136223846793005 + 11634580027462260723

/-- The word that a state of the seed generator gives out: some of its middle bits, turned right by
its highest bits. -/
def seedWord (s : UInt64) : UInt32 :=
  let x := (((s >>> 18) ^^^ s) >>> 27).toUInt32
  let turn := (s >>> 59).toUInt32
  (x >>> turn) ||| (x <<< (32 - turn))

/-- The key that a seed is expanded to. -/
def keyOfSeed (seed : UInt64) : Key :=
  Vector.ofFn fun i => seedWord (Nat.repeat nextSeed (i.val + 1) seed)

end FormalLanguages.Sampling
