/-!
# Random — reproducible random numbers

The Mersenne twister on 624 words of 32 bits, seeded from the words of an integer.  A number below
a bound is drawn as many bits as the bound has, again and again until it is small enough.
-/

namespace Scrawl

/-- **A random number generator.** -/
structure Generator where
  words : Array UInt32
  /-- The next word to use; all are used up at `Generator.size`. -/
  index : Nat
deriving Inhabited

namespace Generator

/-- The number of words. -/
def size : Nat := 624

/-- How far apart the words are that are mixed with each other. -/
def offset : Nat := 397

/-- A word of the state. -/
def word (words : Array UInt32) (i : Nat) : UInt32 := words.getD i 0

/-- The high bits of a word folded onto the low ones. -/
def fold (w : UInt32) : UInt32 := w ^^^ (w >>> 30)

/-! ## Seeding -/

/-- The words that follow from a first one. -/
def spread (first : UInt32) : Array UInt32 :=
  (List.range (size - 1)).foldl (fun words i =>
    words.push (fold (word words i) * 1812433253 + UInt32.ofNat (i + 1))) #[first]

/-- The words of a number, the least significant first; at least one. -/
def wordsOf (n : Nat) : Array UInt32 :=
  let count := max 1 ((n.log2 + 32) / 32)
  (Array.range count).map fun i => UInt32.ofNat (n >>> (32 * i))

/-- The next place of the words when they are gone through again and again; the first word takes the
value of the last each time around. -/
def turn (words : Array UInt32) (i : Nat) : Array UInt32 × Nat :=
  if i + 1 < size then (words, i + 1)
  else (words.setIfInBounds 0 (word words (size - 1)), 1)

/-- A word mixed with a multiple of the one before it. -/
def mixed (words : Array UInt32) (i : Nat) (factor : UInt32) : UInt32 :=
  word words i ^^^ (fold (word words (i - 1)) * factor)

/-- Mixes a key into the words. -/
def mixKey (key : Array UInt32) (words : Array UInt32) : Array UInt32 × Nat :=
  (List.range (max size key.size)).foldl (fun (words, i) step =>
    let j := step % key.size
    let w := mixed words i 1664525 + key.getD j 0 + UInt32.ofNat j
    turn (words.setIfInBounds i w) i) (words, 1)

/-- Mixes the words among themselves. -/
def mixSelf (words : Array UInt32) (start : Nat) : Array UInt32 :=
  ((List.range (size - 1)).foldl (fun (words, i) _ =>
    let w := mixed words i 1566083941 - UInt32.ofNat i
    turn (words.setIfInBounds i w) i) (words, start)).1

/-- **The generator of a seed**; the sign of the seed does not matter. -/
def ofSeed (seed : Int) : Generator :=
  let (words, i) := mixKey (wordsOf seed.natAbs) (spread 19650218)
  ⟨(mixSelf words i).setIfInBounds 0 0x80000000, size⟩

/-! ## Drawing -/

/-- A word of the next round. -/
def twisted (words : Array UInt32) (i : Nat) : UInt32 :=
  let joined :=
    (word words i &&& 0x80000000) ||| (word words ((i + 1) % size) &&& 0x7fffffff)
  word words ((i + offset) % size) ^^^ (joined >>> 1) ^^^
    (if joined &&& 1 = 0 then 0 else 0x9908b0df)

/-- The words of the next round, each made from words already replaced and words not yet. -/
def refill (words : Array UInt32) : Array UInt32 :=
  (List.range size).foldl (fun words i => words.setIfInBounds i (twisted words i)) words

/-- The bits of a word stirred on their way out. -/
def tempered (y : UInt32) : UInt32 :=
  let y := y ^^^ (y >>> 11)
  let y := y ^^^ ((y <<< 7) &&& 0x9d2c5680)
  let y := y ^^^ ((y <<< 15) &&& 0xefc60000)
  y ^^^ (y >>> 18)

/-- The next 32 bits. -/
def next (g : Generator) : UInt32 × Generator :=
  let g := if g.index < size then g else ⟨refill g.words, 0⟩
  (tempered (word g.words g.index), { g with index := g.index + 1 })

/-- The next bits, whole words first and the least significant ones foremost. -/
def bits : Nat → Nat → Generator → Nat × Generator
  | 0, _, g => (0, g)
  | words + 1, count, g =>
    let (y, g) := g.next
    let low := y.toNat >>> (32 - min 32 count)
    let (high, g) := bits words (count - 32) g
    (low + high <<< 32, g)

/-- The number of bits of a number. -/
def bitLength (n : Nat) : Nat := if n = 0 then 0 else n.log2 + 1

/-- **A number below a bound**, if one is drawn within so many tries. -/
def below? : Nat → Nat → Generator → Option (Nat × Generator)
  | 0, _, _ => none
  | tries + 1, bound, g =>
    let count := bitLength bound
    let (n, g) := bits ((count + 31) / 32) count g
    if n < bound then some (n, g) else below? tries bound g

end Generator

end Scrawl
