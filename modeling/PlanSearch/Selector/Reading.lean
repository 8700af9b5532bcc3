/-
Passes over selector trees.

Opening a selector on a solution gives a reading, from which one move
after the other is taken. A selector in random order starts each of its
passes on a stream of its own, so how often each has been opened is part
of the outcome; `Passes` counts that, node by node, addressed by the way
down from the root.

When a child is opened matters for these counts. A union in the given
order opens a child when the one before has ended, and one in random
order opens every child that has weight at once. A product in the given
order opens its children one after the other and reads each to its end
before the first combination is formed; in random order it opens all of
them at once.

Reading can take any number of rejected draws, and a product in the given
order never comes to its first combination if a child never ends. So
every function here has a patience, and running out of it is an outcome
of its own.
-/
import PlanSearch.Selector.Sampler
import PlanSearch.Selector.Tree

namespace PlanSearch

/-- How often each selector has been opened in random order, by its way
down from the root. -/
abbrev Passes := List (List Nat × Nat)

/-- The number of the next pass of a selector, counting this one. -/
def Passes.open (passes : Passes) (path : List Nat) : Nat × Passes :=
  match passes with
  | [] => (0, [(path, 1)])
  | p :: rest =>
    if p.1 = path then (p.2, (path, p.2 + 1) :: rest)
    else
      let (n, rest) := Passes.open rest path
      (n, p :: rest)

/-- One digit of an odometer: all moves of a child, and those still to
come in this turn, the present one first. -/
structure Wheel (S V : Type) where
  pool : List (Move S V)
  left : List (Move S V)

namespace Wheel

variable {S V : Type}

/-- The present moves of some wheels. -/
def present (wheels : List (Wheel S V)) : List (Move S V) :=
  wheels.filterMap fun w => w.left.head?

/-- Turns the last wheel; one that has come around turns the one before.
Nothing if all have come around. -/
def turn : List (Wheel S V) → Option (List (Wheel S V))
  | [] => none
  | w :: rest =>
    match turn rest with
    | some rest => some (w :: rest)
    | none =>
      match w.left with
      | _ :: m :: more =>
          some (⟨w.pool, m :: more⟩ :: rest.map fun r => ⟨r.pool, r.pool⟩)
      | _ => none

end Wheel

/-- A pass under way. -/
inductive Reading (S V : Type)
  /-- Moves that are there already. -/
  | listed (moves : List (Move S V))
  /-- Draws from a stream, with the segment kept from the last attempt. -/
  | drawn (sampler : Sampler S V) (held : List Nat) (stream : Stream)
  /-- The child being read, and the children to be opened after it, each
  with its place. -/
  | joined (current : Reading S V) (rest : List (Nat × Selector S V))
    (path : List Nat)
  /-- The children not yet ended with their weights. -/
  | weighted (live : List (Float × Reading S V)) (stream : Stream)
  /-- Combinations of all moves of all children; nothing once the last
  one was taken. -/
  | combined (wheels : Option (List (Wheel S V)))
  /-- One move of each child at a time. -/
  | zipped (children : List (Reading S V)) (ignoreEmpty : Bool)
  /-- At most this many moves. -/
  | limited (left : Nat) (inner : Reading S V)
  /-- An opening that ran out of patience. -/
  | stalled

/-- What asking for the next move comes to. -/
inductive Turn (S V : Type)
  | move (m : Move S V)
  | ended
  /-- The patience ran out. -/
  | stuck

/-- What asking each of several readings for a move comes to. -/
inductive Round (S V : Type)
  | moves (ms : List (Move S V))
  | ended
  | stuck

namespace Reading

variable {S V : Type}

/-- A reading with no moves. -/
def empty : Reading S V := .listed []

/-- The sum of some weights. -/
def totalWeight (live : List (Float × Reading S V)) : Float :=
  live.foldl (fun total l => total + l.1) 0.0

/-- The place that a number below the total weight falls into: the first
whose weight exceeds what is left of it, the last one if none does. -/
def place (live : List (Float × Reading S V)) (pick : Float) : Nat :=
  match live with
  | [] => 0
  | [_] => 0
  | l :: rest => if pick < l.1 then 0 else place rest (pick - l.1) + 1

/-- The wheels of a product, or none if it has no combination. -/
def wheels (ignoreEmpty : Bool) (pools : List (List (Move S V))) :
    Option (List (Wheel S V)) :=
  let pools := if ignoreEmpty then pools.filter fun p => !p.isEmpty else pools
  if pools.isEmpty || pools.any List.isEmpty then none
  else some (pools.map fun p => ⟨p, p⟩)

/-- The result of one attempt with the stream it leaves. -/
def attempt (sampler : Sampler S V) (held : List Nat) (stream : Stream) :
    Except Fault (Attempt S V × Stream) := (sampler held).run stream

/-- Draws until a move is hit. -/
def drawNext : Nat → Sampler S V → List Nat → Stream →
    Except Fault (Turn S V × Reading S V)
  | 0, sampler, held, stream => .ok (.stuck, .drawn sampler held stream)
  | fuel + 1, sampler, held, stream =>
    match attempt sampler held stream with
    | .error f => .error f
    | .ok (.take m, stream) => .ok (.move m, .drawn sampler [] stream)
    | .ok (.again held, stream) => drawNext fuel sampler held stream
    | .ok (.stop, stream) => .ok (.ended, .drawn sampler [] stream)

/-- Opens a leaf. -/
def openLeaf [BEq V] (l : Leaf S V) (order : Order) (seed : UInt64) (s : S)
    (path : List Nat) (passes : Passes) : Reading S V × Passes :=
  match order with
  | .given => (.listed (l.moves s), passes)
  | .random =>
    match l.sampler s with
    | none => (empty, passes)
    | some sampler =>
      let (pass, passes) := passes.open path
      (.drawn sampler [] (Seed.stream seed pass), passes)

mutual

/-- Opens a selector on a solution. -/
def openOn [BEq V] (s : S) : Nat → Selector S V → List Nat →
    Act Passes (Reading S V)
  | 0, _, _ => return .stalled
  | fuel + 1, selector, path =>
    match selector with
    | .leaf l order seed => do
      let (reading, passes) := openLeaf l order seed s path (← get)
      set passes
      return reading
    | .union children weights order seed =>
      match order with
      | .given =>
        return .joined empty (children.zipIdx.map fun (c, i) => (i, c)) path
      | .random => do
        let weights := Weights.normalized (weights.of s children.length)
        let live ← openWeighted s fuel (children.zip weights).zipIdx path
        let (pass, passes) := (← get).open path
        set passes
        return .weighted live (Seed.stream seed pass)
    | .product children ignoreEmpty order =>
      match order with
      | .given => do
        let pools ← drainAll s fuel children.zipIdx path
        match pools with
        | some pools => return .combined (wheels ignoreEmpty pools)
        | none => return .stalled
      | .random => do
        return .zipped (← openAll s fuel children.zipIdx path) ignoreEmpty
    | .limited limit inner => do
      return .limited limit (← openOn s fuel inner (path ++ [0]))

/-- Opens children in order. -/
def openAll [BEq V] (s : S) :
    Nat → List (Selector S V × Nat) → List Nat → Act Passes (List (Reading S V))
  | 0, children, _ => return children.map fun _ => .stalled
  | _ + 1, [], _ => return []
  | fuel + 1, c :: rest, path => do
    let reading ← openOn s fuel c.1 (path ++ [c.2])
    return reading :: (← openAll s fuel rest path)

/-- Opens the children that have weight. -/
def openWeighted [BEq V] (s : S) :
    Nat → List ((Selector S V × Float) × Nat) → List Nat →
    Act Passes (List (Float × Reading S V))
  | 0, children, _ => return children.map fun c => (c.1.2, .stalled)
  | _ + 1, [], _ => return []
  | fuel + 1, c :: rest, path => do
    if 0.0 < c.1.2 then
      let reading ← openOn s fuel c.1.1 (path ++ [c.2])
      return (c.1.2, reading) :: (← openWeighted s fuel rest path)
    else openWeighted s fuel rest path

/-- Opens children one after the other and reads each to its end. -/
def drainAll [BEq V] (s : S) : Nat → List (Selector S V × Nat) → List Nat →
    Act Passes (Option (List (List (Move S V))))
  | 0, _, _ => return none
  | _ + 1, [], _ => return some []
  | fuel + 1, c :: rest, path => do
    let reading ← openOn s fuel c.1 (path ++ [c.2])
    match ← drain s fuel reading [] with
    | none => return none
    | some pool =>
      match ← drainAll s fuel rest path with
      | none => return none
      | some pools => return some (pool :: pools)

/-- Reads to the end; the moves so far are reversed. -/
def drain [BEq V] (s : S) : Nat → Reading S V → List (Move S V) →
    Act Passes (Option (List (Move S V)))
  | 0, _, _ => return none
  | fuel + 1, reading, done => do
    match ← next s fuel reading with
    | (.move m, reading) => drain s fuel reading (m :: done)
    | (.ended, _) => return some done.reverse
    | (.stuck, _) => return none

/-- The next move of a reading. -/
def next [BEq V] (s : S) :
    Nat → Reading S V → Act Passes (Turn S V × Reading S V)
  | 0, reading => return (.stuck, reading)
  | fuel + 1, reading =>
    match reading with
    | .listed [] => return (.ended, reading)
    | .listed (m :: rest) => return (.move m, .listed rest)
    | .drawn sampler held stream => Act.lift (drawNext fuel sampler held stream)
    | .joined current rest path => do
      match ← next s fuel current with
      | (.move m, current) => return (.move m, .joined current rest path)
      | (.stuck, current) => return (.stuck, .joined current rest path)
      | (.ended, current) =>
        match rest with
        | [] => return (.ended, .joined current [] path)
        | c :: rest => do
          let opened ← openOn s fuel c.2 (path ++ [c.1])
          next s fuel (.joined opened rest path)
    | .weighted live stream =>
      let total := totalWeight live
      if live.isEmpty || !(0.0 < total) then return (.ended, reading)
      else do
        let (pick, stream) := stream.fraction total
        if !(pick < total) then next s fuel (.weighted live stream)
        else
          let chosen := place live pick
          match live[chosen]? with
          | none => return (.ended, .weighted live stream)
          | some (weight, child) =>
            match ← next s fuel child with
            | (.move m, child) =>
              return (.move m,
                .weighted (live.set chosen (weight, child)) stream)
            | (.stuck, child) =>
              return (.stuck, .weighted
                (live.set chosen (weight, child)) stream)
            | (.ended, _) =>
                next s fuel (.weighted (live.eraseIdx chosen) stream)
    | .combined none => return (.ended, reading)
    | .combined (some wheels) =>
      return (.move (.composite (Wheel.present wheels)),
        .combined (Wheel.turn wheels))
    | .zipped children ignoreEmpty => do
      match ← nextOfEach s fuel ignoreEmpty children with
      | (.moves [], children) => return (.ended, .zipped children ignoreEmpty)
      | (.moves moves, children) =>
        return (.move (.composite moves), .zipped children ignoreEmpty)
      | (.ended, children) => return (.ended, .zipped children ignoreEmpty)
      | (.stuck, children) => return (.stuck, .zipped children ignoreEmpty)
    | .stalled => return (.stuck, reading)
    | .limited 0 _ => return (.ended, reading)
    | .limited (left + 1) inner => do
      match ← next s fuel inner with
      | (.move m, inner) => return (.move m, .limited left inner)
      | (turn, inner) => return (turn, .limited (left + 1) inner)

/-- The next move of each child; a child that has ended is passed over or
ends the pass. -/
def nextOfEach [BEq V] (s : S) : Nat → Bool → List (Reading S V) →
    Act Passes (Round S V × List (Reading S V))
  | 0, _, children => return (.stuck, children)
  | _ + 1, _, [] => return (.moves [], [])
  | fuel + 1, ignoreEmpty, child :: rest => do
    match ← next s fuel child with
    | (.stuck, child) => return (.stuck, child :: rest)
    | (.move m, child) =>
      match ← nextOfEach s fuel ignoreEmpty rest with
      | (.moves moves, rest) => return (.moves (m :: moves), child :: rest)
      | (other, rest) => return (other, child :: rest)
    | (.ended, child) =>
      if ignoreEmpty then
        let (round, rest) ← nextOfEach s fuel ignoreEmpty rest
        return (round, child :: rest)
      else return (.ended, child :: rest)

end

end Reading

end PlanSearch
