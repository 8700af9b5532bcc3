/-
Segments: contiguous runs of chains whose length lies within bounds, and
the links they can be moved behind.
-/
import PlanSearch.Selector.Pillar

namespace PlanSearch

/-- How long a segment may be. -/
structure SegmentSizes where
  minimum : Nat
  maximum : Nat
  deriving DecidableEq, Repr

namespace SegmentSizes

/-- Bounds as they are asked for; there is no empty segment. -/
def of (minimum maximum : Option Nat) : SegmentSizes :=
  ⟨max (minimum.getD 1) 1, maximum.getD Checked.maxCount⟩

instance : Shown SegmentSizes where
  shown z := Text.Shown.record "SubChainSizes"
    [("minimum", shown z.minimum), ("maximum", shown z.maximum)]

/-- The segments of one chain: by start, then by size. -/
def segmentsOf (z : SegmentSizes) (chain : List Nat) : List (List Nat) :=
  (List.range chain.length).flatMap fun start =>
    (upTo z.minimum (min z.maximum (chain.length - start))).map fun size =>
      runOf chain start size

/-- The segments of all chains. -/
def segments (z : SegmentSizes) (index : ChainIndex) : List (List Nat) :=
  index.chains.flatMap z.segmentsOf

/-- A segment by chance: first a chain that is long enough, then size and
start. Nothing if there is no such chain or no admissible size. -/
def sample (z : SegmentSizes) (index : ChainIndex) :
    Chance (Option (List Nat)) :=
  let eligible := index.chains.filter fun chain => z.minimum ≤ chain.length
  if eligible.isEmpty || z.maximum < z.minimum then return none
  else do
    let chain := eligible.getD (← Chance.drawBelow eligible.length) []
    let size ← Chance.drawBetween z.minimum (min z.maximum chain.length)
    let start ← Chance.drawBetween 0 (chain.length - size)
    return some (runOf chain start size)

end SegmentSizes

namespace ChainIndex

/-- Every link: the anchors, then the entities chain by chain. -/
def allLinks (index : ChainIndex) : List Link :=
  (List.range index.chains.length).map Link.anchor ++
    index.chains.flatten.map Link.entity

/-- Every assigned entity, chain by chain. -/
def allEntities (index : ChainIndex) : List Nat := index.chains.flatten

/-- Whether a tail can be attached behind a link with an effect: the link
is neither the entity itself nor what it follows now. -/
def isTailTarget (index : ChainIndex) (entity : Nat) (link : Link) : Bool :=
  link != .entity entity && index.previousLink entity != some link

end ChainIndex

/-- Whether a link points into a segment. -/
def Link.isIn (segment : List Nat) : Link → Bool
  | .anchor _ => false
  | .entity e => segment.contains e

end PlanSearch
