/-!
# Spreading a Seed

A seed is a natural number of any size. It is cut into words of 32 bits, and the words
are stirred into a pool of four: each is hashed, every pool word is mixed into every
other, and words beyond the fourth are mixed into all of them. The state that a
generator starts from is drawn from the pool by a second hash.

Both hashes carry a multiplier from call to call, so each call is a step of a small
state of its own.

## Main definitions

* `seedWords`: The words of a seed.
* `seedPool`: The pool of a seed.
* `seedState`: The words that a generator starts from.
-/

namespace Roster

namespace Random

/-- The words of 32 bits of a number, the least first; at most `fuel` of them. -/
def wordsOf : Nat → Nat → List UInt32
  | 0, _ => []
  | fuel + 1, n =>
    if n < Nat.pow 2 32 then [n.toUInt32]
    else (n % Nat.pow 2 32).toUInt32 :: wordsOf fuel (n / Nat.pow 2 32)

/-- The words of a seed; zero has one word. -/
def seedWords (seed : Nat) : List UInt32 := wordsOf (seed.log2 / 32 + 1) seed

/-- The upper half of a word, on the lower. -/
def fold16 (v : UInt32) : UInt32 := v ^^^ (v >>> 16)

/-- One step of the first hash: the hashed word and the next multiplier. -/
def hashWord (v h : UInt32) : UInt32 × UInt32 :=
  let next := h * 0x931e8875
  (fold16 ((v ^^^ h) * next), next)

/-- Two words mixed into one. -/
def mixWords (x y : UInt32) : UInt32 := fold16 (x * 0xca01f9dd - y * 0x4973f715)

/-- The pool while it is stirred, with the multiplier of the hash. -/
structure Pool where
  words : Vector UInt32 4
  multiplier : UInt32

namespace Pool

/-- Mixes the hash of a word into a place of the pool. -/
def absorb (p : Pool) (word : UInt32) (place : Fin 4) : Pool :=
  let (v, next) := hashWord word p.multiplier
  { words := p.words.set place (mixWords p.words[place] v), multiplier := next }

/-- Puts the hash of a word into a place of the pool. -/
def fill (p : Pool) (word : UInt32) (place : Fin 4) : Pool :=
  let (v, next) := hashWord word p.multiplier
  { words := p.words.set place v, multiplier := next }

/-- Mixes a place of the pool into every other. -/
def spread (p : Pool) (source : Fin 4) : Pool :=
  ((List.finRange 4).filter (· != source)).foldl (fun p place => p.absorb p.words[source] place) p

/-- Mixes a word into every place of the pool. -/
def absorbAll (p : Pool) (word : UInt32) : Pool :=
  (List.finRange 4).foldl (fun p place => p.absorb word place) p

end Pool

/-- The pool of a seed. -/
def seedPool (seed : Nat) : Pool :=
  let words := seedWords seed
  let empty : Pool := { words := Vector.replicate 4 0, multiplier := 0x43b0d7e5 }
  let filled :=
    (List.finRange 4).foldl (fun p place => p.fill (words[place.val]?.getD 0) place) empty
  let stirred := (List.finRange 4).foldl Pool.spread filled
  (words.drop 4).foldl Pool.absorbAll stirred

/-- Words drawn from a pool, starting at a place, at most `count` of them. -/
def draw (words : Vector UInt32 4) : Nat → Nat → UInt32 → List UInt32
  | 0, _, _ => []
  | count + 1, place, h =>
    let next := h * 0x58f38ded
    fold16 ((words.get (Fin.ofNat 4 place) ^^^ h) * next) ::
      draw words count (place + 1) next

/-- Words of 32 bits in pairs, each a word of 64 bits with the lower half first. -/
def pairWords : List UInt32 → List Nat
  | low :: high :: rest => (low.toNat + Nat.pow 2 32 * high.toNat) :: pairWords rest
  | _ => []

/-- The four words of 64 bits that a generator starts from. -/
def seedState (seed : Nat) : List Nat :=
  pairWords (draw (seedPool seed).words 8 0 0x8b51f9dd)

end Random

end Roster
