import NetImage.Example.SeedTable

/-!
# NetImage.Example.LaggedFibonacci

The additive lagged Fibonacci generator with lags 607 and 273 on words of 64 bits, seeded by a
multiplicative congruential generator. The same seed always gives the same numbers.
-/

namespace NetImage

/-- A generator: its state and the two places in it that are added next. -/
structure Generator where
  words : Array UInt64
  tap : Nat
  feed : Nat

namespace Generator

/-- The number of words of the state. -/
def size : Nat := 607

/-- The modulus of the seeding generator. -/
def modulus : Nat := 2147483647

/-- One step of the seeding generator. -/
def seedStep (x : Nat) : Nat := 48271 * x % modulus

/-- The start of the seeding generator for a seed. -/
def seedStart (seed : Int64) : Nat :=
  let s := seed.toInt % modulus
  if s = 0 then 89482311 else s.toNat

/-- One word of the state: three steps of the seeding generator, mixed with a word of the table. -/
def seedWord (x : Nat) (mixed : UInt64) : UInt64 × Nat :=
  let x₁ := seedStep x
  let x₂ := seedStep x₁
  let x₃ := seedStep x₂
  let word := (x₁.toUInt64 <<< 40) ^^^ (x₂.toUInt64 <<< 20) ^^^ x₃.toUInt64
  (word ^^^ mixed, x₃)

/-- The generator for a seed. The first twenty steps of the seeding generator are dropped. -/
def ofSeed (seed : Int64) : Generator :=
  let start := (List.range 20).foldl (fun x _ => seedStep x) (seedStart seed)
  let (words, _) := seedTable.foldl
    (fun (acc : Array UInt64 × Nat) mixed =>
      let (word, x) := seedWord acc.2 mixed
      (acc.1.push word, x))
    (#[], start)
  ⟨words, 0, size - 273⟩

/-- The place before `i` in the state, which is a ring. -/
def before (i : Nat) : Nat := if i = 0 then size - 1 else i - 1

/-- The next word. -/
def next (g : Generator) : UInt64 × Generator :=
  let tap := before g.tap
  let feed := before g.feed
  let word := g.words.getD feed 0 + g.words.getD tap 0
  (word, ⟨g.words.setIfInBounds feed word, tap, feed⟩)

/-- The next real number from 0 to 1. A draw that rounds to one is made again. Nothing bounds how
often, so `redraws` is a cut: where all draws up to it round to one, the last is kept. -/
def unit (redraws : Nat) (g : Generator) : Float × Generator :=
  let (word, g) := g.next
  let x := (word &&& 0x7fffffffffffffff).toFloat / 9223372036854775808.0
  match redraws with
  | 0 => (x, g)
  | n + 1 => if x == 1.0 then unit n g else (x, g)

end Generator
end NetImage
