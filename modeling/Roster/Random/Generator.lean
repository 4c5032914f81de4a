import Roster.Random.Seed

/-!
# A Generator of Uniform Doubles

A linear congruential generator with a state of 128 bits. Each output folds the two
halves of the state onto each other and rotates the result by the state's top bits; the
upper 53 bits of it, scaled to the unit interval, are a double.

## Main definitions

* `Generator`: State and increment.
* `Generator.ofSeed`: The generator of a seed.
* `Generator.next`: One output and the generator behind it.
* `Generator.double`: One double below one.
* `Generator.doubles`: Several doubles.
-/

namespace Roster

namespace Random

/-- A generator: its state and its increment, both below `2 ^ 128`. -/
structure Generator where
  state : Nat
  increment : Nat

namespace Generator

/-- The multiplier of the state. -/
def multiplier : Nat := 0x2360ed051fc65da44385df649fccf645

/-- The next state. -/
def advance (g : Generator) : Generator :=
  { g with state := (g.state * multiplier + g.increment) % Nat.pow 2 128 }

/-- A word of 64 bits rotated to the right. -/
def rotate (x : UInt64) (count : Nat) : UInt64 :=
  if count % 64 = 0 then x
  else (x >>> (count % 64).toUInt64) ||| (x <<< (64 - count % 64).toUInt64)

/-- The output of a state. -/
def output (g : Generator) : UInt64 :=
  let high := (g.state / Nat.pow 2 64).toUInt64
  let low := (g.state % Nat.pow 2 64).toUInt64
  rotate (high ^^^ low) (g.state / Nat.pow 2 122)

/-- One output and the generator behind it. -/
def next (g : Generator) : UInt64 × Generator :=
  let g := g.advance
  (g.output, g)

/-- The generator of a seed: its words give the initial state and the increment. -/
def ofSeed (seed : Nat) : Generator :=
  match seedState seed with
  | [a, b, c, d] =>
    let increment := (2 * (c * Nat.pow 2 64 + d) + 1) % Nat.pow 2 128
    let first := ({ state := 0, increment := increment } : Generator).advance
    let second : Generator :=
      { first with state := (first.state + a * Nat.pow 2 64 + b) % Nat.pow 2 128 }
    second.advance
  | _ => { state := 0, increment := 1 }

/-- One double below one and the generator behind it. -/
def double (g : Generator) : Float × Generator :=
  let (x, g) := g.next
  ((x >>> 11).toFloat / 9007199254740992.0, g)

/-- Some doubles in turn and the generator behind them. -/
def doubles : Nat → Generator → List Float × Generator
  | 0, g => ([], g)
  | count + 1, g =>
    let (x, g) := g.double
    let (xs, g) := doubles count g
    (x :: xs, g)

end Generator

end Random

end Roster
