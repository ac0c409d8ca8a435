/-!
# A seeded stream of words

A seed is stretched to a key by a permuted congruential generator, and the
key is stretched to an endless stream of 32-bit words by ChaCha with twelve
rounds: the words of block 0, then of block 1, and so on. A block is
sixteen words, the block counter being two of them.
-/

namespace StepGraph.Ids

/-! ## The key -/

/-- The next state of the generator that makes keys. -/
def nextState (state : UInt64) : UInt64 :=
  state * 6364136223846793005 + 11634580027462260723

/-- A word with its bits turned right. -/
def rotateRight (word amount : UInt32) : UInt32 :=
  (word >>> amount) ||| (word <<< (32 - amount))

/-- The word that a state yields. -/
def stateWord (state : UInt64) : UInt32 :=
  let mixed := ((state >>> 18) ^^^ state) >>> 27
  rotateRight mixed.toUInt32 (state >>> 59).toUInt32

/-- As many words as asked for, from the states after the given one. -/
def stateWords : Nat → UInt64 → List UInt32
  | 0, _ => []
  | count + 1, state => stateWord (nextState state) :: stateWords count (nextState state)

/-! ## Blocks -/

/-- The sixteen words of a block. -/
abbrev Block := Vector UInt32 16

/-- A word with its bits turned left. -/
def rotateLeft (word amount : UInt32) : UInt32 :=
  (word <<< amount) ||| (word >>> (32 - amount))

/-- Mix four words of a block. -/
def quarterRound (v : Block) (a b c d : Fin 16) : Block :=
  let v := v.set a (v[a] + v[b])
  let v := v.set d (rotateLeft (v[d] ^^^ v[a]) 16)
  let v := v.set c (v[c] + v[d])
  let v := v.set b (rotateLeft (v[b] ^^^ v[c]) 12)
  let v := v.set a (v[a] + v[b])
  let v := v.set d (rotateLeft (v[d] ^^^ v[a]) 8)
  let v := v.set c (v[c] + v[d])
  v.set b (rotateLeft (v[b] ^^^ v[c]) 7)

/-- Two rounds: the columns of the block, then its diagonals. -/
def doubleRound (v : Block) : Block :=
  let v := quarterRound v 0 4 8 12
  let v := quarterRound v 1 5 9 13
  let v := quarterRound v 2 6 10 14
  let v := quarterRound v 3 7 11 15
  let v := quarterRound v 0 5 10 15
  let v := quarterRound v 1 6 11 12
  let v := quarterRound v 2 7 8 13
  quarterRound v 3 4 9 14

/-- A number of double rounds. -/
def doubleRounds : Nat → Block → Block
  | 0, v => v
  | count + 1, v => doubleRounds count (doubleRound v)

/-- The block before mixing: four constants, the key, the counter, and two
zeros. -/
def blockInput (key : List UInt32) (counter : Nat) : Block :=
  Vector.ofFn fun i =>
    if i.val < 4 then #[0x61707865, 0x3320646e, 0x79622d32, 0x6b206574].getD i 0
    else if i.val < 12 then key.getD (i - 4) 0
    else if i.val = 12 then counter.toUInt32
    else if i.val = 13 then (counter / UInt32.size).toUInt32
    else 0

/-- One block of the stream: twelve rounds of mixing, added to the block
before mixing. -/
def block (key : List UInt32) (counter : Nat) : Block :=
  let input := blockInput key counter
  let mixed := doubleRounds 6 input
  Vector.ofFn fun i => mixed[i] + input[i]

/-- **The stream of a seed**, word by word. -/
def seededWord (seed : UInt64) (position : Nat) : UInt32 :=
  (block (stateWords 8 seed) (position / 16)).get ⟨position % 16, Nat.mod_lt _ (by decide)⟩

end StepGraph.Ids
