/-
Inheritance between selectors.

A selector takes from its parent what it leaves open itself. Lists are
merged: the selector's own entries come first, then those of the parent
it does not have yet. Only selectors of one kind inherit from each other.
-/
import PlanSearch.Config.Selector

namespace PlanSearch

namespace Inherit

/-- The parent's value where the child has none. -/
def value {α : Type} (child parent : Option α) : Option α := child.or parent

/-- The child's entries, then the parent's entries not there yet. -/
def entries {α : Type} [BEq α] (child parent : List α) : List α :=
  parent.foldl
    (fun merged a => if merged.contains a then merged else merged ++ [a]) child

end Inherit

def CommonSettings.inherit (child parent : CommonSettings) :
    CommonSettings where
  inheritFrom := Inherit.value child.inheritFrom parent.inheritFrom
  order := Inherit.value child.order parent.order
  weight := Inherit.value child.weight parent.weight
  limit := Inherit.value child.limit parent.limit

/-- Settings that both have are merged field by field. -/
def SubPillarSettings.inherit (child parent : Option SubPillarSettings) :
    Option SubPillarSettings :=
  match child, parent with
  | some c, some p =>
      some ⟨Inherit.value c.enabled p.enabled,
        Inherit.value c.minimum p.minimum,
      Inherit.value c.maximum p.maximum⟩
  | c, p => Inherit.value c p

def SegmentSettings.inherit (child parent : SegmentSettings) :
    SegmentSettings where
  variableName := Inherit.value child.variableName parent.variableName
  minimum := Inherit.value child.minimum parent.minimum
  maximum := Inherit.value child.maximum parent.maximum
  reversing := Inherit.value child.reversing parent.reversing

/-- The settings of a leaf with what it inherits; nothing if the kinds
differ. -/
def LeafConfig.inherit? : LeafConfig → LeafConfig → Option LeafConfig
  | change c x, change d y =>
      some (.change (Inherit.value c d) (Inherit.value x y))
  | swap c xs, swap d ys =>
      some (.swap (Inherit.value c d) (Inherit.entries xs ys))
  | pillarChange c s x, pillarChange d t y =>
    some (.pillarChange (Inherit.value c d) (SubPillarSettings.inherit s t)
      (Inherit.value x y))
  | pillarSwap c s xs, pillarSwap d t ys =>
    some (.pillarSwap (Inherit.value c d) (SubPillarSettings.inherit s t)
      (Inherit.entries xs ys))
  | segmentChange s, segmentChange t => some (.segmentChange (s.inherit t))
  | segmentSwap s, segmentSwap t => some (.segmentSwap (s.inherit t))
  | tailSwap x, tailSwap y => some (.tailSwap (Inherit.value x y))
  | moveList f, moveList g => some (.moveList (Inherit.value f g))
  | moveSource f, moveSource g => some (.moveSource (Inherit.value f g))
  | _, _ => none

namespace SelectorConfig

/-- The error of inheriting from a selector of another kind. -/
def mismatch (child parent : SelectorConfig) : ConfigError :=
  .kindMismatch child.kind child.kind parent.kind

/-- A selector with what it inherits from another one of its kind. -/
def inherit (child parent : SelectorConfig) :
    Except ConfigError SelectorConfig :=
  match child, parent with
  | leaf c settings, leaf d others =>
    match settings.inherit? others with
    | some merged => .ok (leaf (c.inherit d) merged)
    | none => .error (mismatch child parent)
  | union c children factory, union d others factory' =>
    .ok (union (c.inherit d) (Inherit.entries children others)
      (Inherit.value factory factory'))
  | product c children ignore, product d others ignore' =>
    .ok (product (c.inherit d) (Inherit.entries children others)
      (Inherit.value ignore ignore'))
  | _, _ => .error (mismatch child parent)

end SelectorConfig

end PlanSearch
