namespace TrialLoop

/-- The bits of a word moved up by some places, with those that leave it at the bottom. -/
@[inline]
def rotateLeft (x n : UInt32) : UInt32 :=
  (x <<< n) ||| (x >>> (32 - n))

/-- Four words that are mixed with each other. -/
structure Quarter where
  a : UInt32
  b : UInt32
  c : UInt32
  d : UInt32

namespace Quarter

/-- The words mixed: each in turn has a neighbour added, or such a sum mixed in and rotated. -/
@[inline]
def mixed (q : Quarter) : Quarter :=
  let a := q.a + q.b
  let d := rotateLeft (q.d ^^^ a) 16
  let c := q.c + d
  let b := rotateLeft (q.b ^^^ c) 12
  let a := a + b
  let d := rotateLeft (d ^^^ a) 8
  let c := c + d
  let b := rotateLeft (b ^^^ c) 7
  ⟨a, b, c, d⟩

/-- The sums of the words at each place. -/
@[inline]
def sum (p q : Quarter) : Quarter :=
  ⟨p.a + q.a, p.b + q.b, p.c + q.c, p.d + q.d⟩

end Quarter

/-- Sixteen words, which stand in four columns. -/
structure Block where
  first : Quarter
  second : Quarter
  third : Quarter
  fourth : Quarter

namespace Block

/-- Each column mixed. -/
@[inline]
def mixed (s : Block) : Block :=
  ⟨s.first.mixed, s.second.mixed, s.third.mixed, s.fourth.mixed⟩

/-- The diagonals as columns: each row is moved to the left by its place. -/
@[inline]
def diagonals (s : Block) : Block where
  first := ⟨s.first.a, s.second.b, s.third.c, s.fourth.d⟩
  second := ⟨s.second.a, s.third.b, s.fourth.c, s.first.d⟩
  third := ⟨s.third.a, s.fourth.b, s.first.c, s.second.d⟩
  fourth := ⟨s.fourth.a, s.first.b, s.second.c, s.third.d⟩

/-- The columns from the diagonals: each row is moved back to the right. -/
@[inline]
def columns (s : Block) : Block where
  first := ⟨s.first.a, s.fourth.b, s.third.c, s.second.d⟩
  second := ⟨s.second.a, s.first.b, s.fourth.c, s.third.d⟩
  third := ⟨s.third.a, s.second.b, s.first.c, s.fourth.d⟩
  fourth := ⟨s.fourth.a, s.third.b, s.second.c, s.first.d⟩

theorem columns_diagonals (s : Block) : s.diagonals.columns = s := rfl

/-- A round over the columns and one over the diagonals. -/
@[inline]
def doubleRound (s : Block) : Block :=
  s.mixed.diagonals.mixed.columns

/-- The sums of the words at each place. -/
@[inline]
def sum (s t : Block) : Block :=
  ⟨s.first.sum t.first, s.second.sum t.second, s.third.sum t.third, s.fourth.sum t.fourth⟩

/-- The words row by row. -/
@[inline]
def toList (s : Block) : List UInt32 :=
  [s.first.a, s.second.a, s.third.a, s.fourth.a,
    s.first.b, s.second.b, s.third.b, s.fourth.b,
    s.first.c, s.second.c, s.third.c, s.fourth.c,
    s.first.d, s.second.d, s.third.d, s.fourth.d]

/-- The block before any round: rows of four fixed words, the key, and the number of the block. -/
@[inline]
def start (key : Vector UInt32 8) (number : UInt64) : Block where
  first := ⟨0x61707865, key[0], key[4], number.toUInt32⟩
  second := ⟨0x3320646e, key[1], key[5], (number >>> 32).toUInt32⟩
  third := ⟨0x79622d32, key[2], key[6], 0⟩
  fourth := ⟨0x6b206574, key[3], key[7], 0⟩

/-- The words of a block of the stream: twelve rounds, and the sum with the start. -/
def words (key : Vector UInt32 8) (number : UInt64) : List UInt32 :=
  let s := start key number
  (s.doubleRound.doubleRound.doubleRound.doubleRound.doubleRound.doubleRound.sum s).toList

end Block

/-- An endless row of random words: some words at hand, and the blocks from a number on. -/
structure RandomStream where
  key : Vector UInt32 8
  number : UInt64
  ready : List UInt32

namespace RandomStream

/-- The next state of the generator of keys. -/
def nextSeed (state : UInt64) : UInt64 :=
  state * 6364136223846793005 + 11634580027462260723

/-- The word of a key that a state of the generator gives. -/
def seedWord (state : UInt64) : UInt32 :=
  let x := (((state >>> 18) ^^^ state) >>> 27).toUInt32
  let n := (state >>> 59).toUInt32
  (x >>> n) ||| (x <<< ((32 - n) % 32))

/-- The stream of a seed. -/
def ofSeed (seed : UInt64) : RandomStream :=
  let s1 := nextSeed seed
  let s2 := nextSeed s1
  let s3 := nextSeed s2
  let s4 := nextSeed s3
  let s5 := nextSeed s4
  let s6 := nextSeed s5
  let s7 := nextSeed s6
  let s8 := nextSeed s7
  ⟨#v[seedWord s1, seedWord s2, seedWord s3, seedWord s4, seedWord s5, seedWord s6, seedWord s7,
    seedWord s8], 0, []⟩

/-- The first word of the next block, when no word is at hand. -/
def wordOfBlock : StateM RandomStream UInt32 := fun s =>
  match Block.words s.key s.number with
  | w :: ws => (w, { s with number := s.number + 1, ready := ws })
  | [] => (0, s)

/-- The next word. -/
@[inline]
def word : StateM RandomStream UInt32 := fun s =>
  match s.ready with
  | w :: ws => (w, { s with ready := ws })
  | [] => wordOfBlock s

/-- A double of at least zero and below one, from the 53 upper bits of two words. -/
@[inline]
def unit : StateM RandomStream Float := do
  let low ← word
  let high ← word
  let bits := (high.toUInt64 <<< 32) ||| low.toUInt64
  return (bits >>> 11).toFloat * Float.ofBits 0x3CA0000000000000

/--
A number below `n` from the next words. A word is refused if its product with `n` lies in the part
of the range that would favour some numbers, which is less than half of it, so that the last try is
never reached in practice.
-/
def belowWithin (n zone : UInt32) : Nat → StateM RandomStream UInt32
  | 0 => return (((← word).toUInt64 * n.toUInt64) >>> 32).toUInt32
  | tries + 1 => do
    let product := (← word).toUInt64 * n.toUInt64
    if product.toUInt32 ≤ zone then return (product >>> 32).toUInt32
    else belowWithin n zone tries

/-- An evenly distributed number below `n`, which has 32 bits. -/
def below (n : Nat) : StateM RandomStream Nat :=
  return (← belowWithin n.toUInt32 ((n.toUInt32 <<< (31 - n.toUInt32.log2)) - 1) 256).toNat

end RandomStream

end TrialLoop
