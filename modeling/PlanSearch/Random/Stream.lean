/-
The generator behind the draws.

A seed of 64 bits is stretched to a key of eight words, and the twelve-
round ChaCha function turns key and block counter into blocks of sixteen
words, which are used up in order. A draw of 64 bits takes two words,
low half first, also across the end of a block.

A number from a range is the high half of word times range width; when
the low half is so close to wrapping that the result could be biased,
another word decides whether it carries over.
-/
import PlanSearch.Random.Chance

namespace PlanSearch

/-- A position in the word stream of a key. -/
structure Stream where
  key : List UInt32
  /-- The number of the next block. -/
  block : Nat
  /-- Words of the present block not used yet. -/
  ready : List UInt32
  deriving Repr, DecidableEq

namespace Stream

-- ============================================================ blocks

def rotateLeft (x : UInt32) (n : UInt32) : UInt32 :=
  (x <<< n) ||| (x >>> (32 - n))

/-- The quarter round on four words of a block. -/
def quarter (w : Array UInt32) (a b c d : Nat) : Array UInt32 :=
  let va := w.getD a 0
  let vb := w.getD b 0
  let vc := w.getD c 0
  let vd := w.getD d 0
  let va := va + vb
  let vd := rotateLeft (vd ^^^ va) 16
  let vc := vc + vd
  let vb := rotateLeft (vb ^^^ vc) 12
  let va := va + vb
  let vd := rotateLeft (vd ^^^ va) 8
  let vc := vc + vd
  let vb := rotateLeft (vb ^^^ vc) 7
  (((w.set! a va).set! b vb).set! c vc).set! d vd

/-- A round down the columns and one along the diagonals. -/
def doubleRound (w : Array UInt32) : Array UInt32 :=
  let w := quarter w 0 4 8 12
  let w := quarter w 1 5 9 13
  let w := quarter w 2 6 10 14
  let w := quarter w 3 7 11 15
  let w := quarter w 0 5 10 15
  let w := quarter w 1 6 11 12
  let w := quarter w 2 7 8 13
  quarter w 3 4 9 14

/-- Six double rounds. -/
def rounds : Nat → Array UInt32 → Array UInt32
  | 0, w => w
  | n + 1, w => rounds n (doubleRound w)

/-- The sixteen words of a block. -/
def blockWords (key : List UInt32) (block : Nat) : List UInt32 :=
  let low := UInt32.ofNat (block % 4294967296)
  let high := UInt32.ofNat (block / 4294967296 % 4294967296)
  let start : Array UInt32 :=
    (#[0x61707865, 0x3320646e, 0x79622d32, 0x6b206574] ++ key.toArray) ++
      #[low, high, 0, 0]
  List.zipWith (· + ·) (rounds 6 start).toList start.toList

-- ============================================================ seeding

/-- The next state of the key stretcher. -/
def stretch (x : UInt64) : UInt64 :=
  x * 6364136223846793005 + 11634580027462260723

/-- The key word of a state: its high bits, mixed and rotated. -/
def keyWord (x : UInt64) : UInt32 :=
  let mixed := (((x >>> 18) ^^^ x) >>> 27).toUInt32
  let turn := (x >>> 59).toUInt32
  if turn = 0 then mixed else (mixed >>> turn) ||| (mixed <<< (32 - turn))

/-- The given number of key words after a state. -/
def keyWords : Nat → UInt64 → List UInt32
  | 0, _ => []
  | n + 1, x => keyWord (stretch x) :: keyWords n (stretch x)

/-- The stream of a seed. -/
def ofSeed (seed : UInt64) : Stream := ⟨keyWords 8 seed, 0, []⟩

-- ============================================================ draws

/-- The next word. -/
def word (s : Stream) : UInt32 × Stream :=
  match s.ready with
  | w :: rest => (w, { s with ready := rest })
  | [] =>
    match blockWords s.key s.block with
    | w :: rest => (w, { s with block := s.block + 1, ready := rest })
    | [] => (0, s)

/-- The next two words as one number, low half first. -/
def doubleWord (s : Stream) : UInt64 × Stream :=
  let (low, s) := s.word
  let (high, s) := s.word
  (low.toUInt64 ||| (high.toUInt64 <<< 32), s)

/-- A draw of 32 or 64 bits. -/
def draw (wide : Bool) (s : Stream) : Nat × Stream :=
  if wide then
    let (w, s) := s.doubleWord
    (w.toNat, s)
  else
    let (w, s) := s.word
    (w.toNat, s)

/-- A number from `low` on, out of `range` many (zero stands for all of
them), by draws of 32 or 64 bits. -/
def inRange (wide : Bool) (low range : Nat) (s : Stream) : Nat × Stream :=
  let width := if wide then 18446744073709551616 else 4294967296
  let (first, s) := s.draw wide
  if range = 0 then (low + first, s)
  else
    let high := first * range / width
    let rest := first * range % width
    if width - range < rest then
      let (second, s) := s.draw wide
      (low + high + (if width ≤ rest + second * range / width then 1 else 0), s)
    else (low + high, s)

/-- The fault of a draw from nothing. -/
def emptyRange : Fault := .broken "cannot sample empty range"

/-- A number below `n`. -/
def below (n : Nat) (s : Stream) : Except Fault (Nat × Stream) :=
  if n = 0 then .error emptyRange else .ok (s.inRange (4294967295 < n) 0 n)

/-- A number from `low` to `high`. -/
def between (low high : Nat) (s : Stream) : Except Fault (Nat × Stream) :=
  if high < low then .error emptyRange
  else
    let wide := decide (4294967295 < high)
    let width := if wide then 18446744073709551616 else 4294967296
    .ok (s.inRange wide low ((high - low + 1) % width))

/-- A toss: whether a double word is in the lower half. -/
def toss (s : Stream) : Bool × Stream :=
  let (w, s) := s.doubleWord
  (decide (w < 9223372036854775808), s)

/-- A fraction of a top: 52 bits of a double word, scaled. -/
def fraction (top : Float) (s : Stream) : Float × Stream :=
  let (w, s) := s.doubleWord
  ((Float.ofBits ((w >>> 12) ||| 0x3ff0000000000000) - 1.0) * top, s)

end Stream

/-- Answers the draws from a stream. -/
def Chance.run {α : Type} : Chance α → Stream → Except Fault (α × Stream)
  | .pure a, s => .ok (a, s)
  | .index n next, s =>
    match s.below n with
    | .ok (k, s) => (next k).run s
    | .error f => .error f
  | .between low high next, s =>
    match s.between low high with
    | .ok (k, s) => (next k).run s
    | .error f => .error f
  | .coin next, s =>
    let (b, s) := s.toss
    (next b).run s
  | .fraction top next, s =>
    let (x, s) := s.fraction top
    (next x).run s

end PlanSearch
