/-!
# Seeded streams of random words

A stream is the keystream of the ChaCha block function with six double rounds, keyed by the
expansion of a 64-bit seed. It yields 32-bit words one after the other; a 64-bit word is the next
two of them, the lower half first.

* `Stream.ofSeed` starts the stream of a seed.
* `Stream.next32` and `Stream.next64` draw a word and give the rest of the stream.
-/

namespace TensorGraph

/-- Sixteen words, a block of the stream. -/
abbrev Block := Vector UInt32 16

namespace Block

/-- A word rotated to the left. -/
def rotateLeft (x : UInt32) (n : UInt32) : UInt32 := (x <<< n) ||| (x >>> (32 - n))

/-- The quarter round on four words of a block. -/
def quarterRound (a b c d : Fin 16) (s : Block) : Block :=
  let s := s.set a (s[a] + s[b])
  let s := s.set d (rotateLeft (s[d] ^^^ s[a]) 16)
  let s := s.set c (s[c] + s[d])
  let s := s.set b (rotateLeft (s[b] ^^^ s[c]) 12)
  let s := s.set a (s[a] + s[b])
  let s := s.set d (rotateLeft (s[d] ^^^ s[a]) 8)
  let s := s.set c (s[c] + s[d])
  s.set b (rotateLeft (s[b] ^^^ s[c]) 7)

/-- A column round followed by a diagonal round. -/
def doubleRound (s : Block) : Block :=
  s |> quarterRound 0 4 8 12 |> quarterRound 1 5 9 13
    |> quarterRound 2 6 10 14 |> quarterRound 3 7 11 15
    |> quarterRound 0 5 10 15 |> quarterRound 1 6 11 12
    |> quarterRound 2 7 8 13 |> quarterRound 3 4 9 14

/-- A block put through a number of double rounds. -/
def rounds : Nat → Block → Block
  | 0, s => s
  | n + 1, s => rounds n (doubleRound s)

/-- The block before any round: the four constant words, the key, the counter with its lower half
first, and a zero nonce. -/
def initial (key : Vector UInt32 8) (counter : UInt64) : Block :=
  #v[0x61707865, 0x3320646e, 0x79622d32, 0x6b206574,
    key[0], key[1], key[2], key[3], key[4], key[5], key[6], key[7],
    counter.toUInt32, (counter >>> 32).toUInt32, 0, 0]

/-- The block of the stream with a given number. -/
def keystream (key : Vector UInt32 8) (counter : UInt64) : Block :=
  let start := initial key counter
  (rounds 6 start).zipWith (· + ·) start

end Block

/-- A stream of random words at some position. -/
structure Stream where
  /-- The expanded seed. -/
  key : Vector UInt32 8
  /-- The number of the next block. -/
  counter : UInt64
  /-- The words of the current block that have not been drawn. -/
  pending : List UInt32
  deriving DecidableEq

namespace Stream

/-- One step of the congruential generator that expands a seed. -/
def advance (state : UInt64) : UInt64 := state * 6364136223846793005 + 11634580027462260723

/-- The word that the seed expansion makes of a generator state. -/
def permute (state : UInt64) : UInt32 :=
  let x := (((state >>> 18) ^^^ state) >>> 27).toUInt32
  let n := (state >>> 59).toUInt32
  (x >>> n) ||| (x <<< ((32 - n) % 32))

/-- The words of the seed expansion. -/
def expansion : Nat → UInt64 → List UInt32
  | 0, _ => []
  | n + 1, state => permute (advance state) :: expansion n (advance state)

/-- The stream of a seed, at its start. -/
def ofSeed (seed : UInt64) : Stream :=
  let words := expansion 8 seed
  { key := Vector.ofFn fun i => words.getD i 0, counter := 0, pending := [] }

/-- Draw the next 32-bit word. -/
def next32 (s : Stream) : UInt32 × Stream :=
  match s.pending with
  | w :: rest => (w, { s with pending := rest })
  -- the block is used up
  | [] =>
    match (Block.keystream s.key s.counter).toList with
    | w :: rest => (w, { s with counter := s.counter + 1, pending := rest })
    | [] => (0, s)

/-- Draw the next 64-bit word, lower half first. -/
def next64 (s : Stream) : UInt64 × Stream :=
  let (low, s) := s.next32
  let (high, s) := s.next32
  (low.toUInt64 ||| (high.toUInt64 <<< 32), s)

end Stream
end TensorGraph
