/-
A plan with several variables of both kinds.

Four basic variables of two classes, each over entities of its own, and
two chained ones. Nothing relates them: the score is the sum of what the
entities contribute.
-/
import PlanSearch.Problem.World

namespace PlanSearch

/-- The entities of one basic variable and the values they may take. -/
structure Column where
  held : List (Option Int)
  range : List Int
  deriving DecidableEq, Repr

/-- The entities of one chained variable and the number of anchors. -/
structure Track where
  links : List (Option Link)
  anchors : Nat
  deriving DecidableEq, Repr

structure Mixed where
  ax : Column
  ay : Column
  bz : Column
  bx : Column
  prev : Track
  route : Track
  stored : Option HardSoft

namespace Mixed

instance : Planning Mixed HardSoft where
  stored := Mixed.stored
  store score s := { s with stored := score }

/-- A basic variable over one column. -/
def basic (name : String) (descriptor : Nat) (column : Mixed → Column)
    (put : Mixed → Column → Mixed) : BasicVariable Mixed Int where
  name := name
  descriptor := descriptor
  count s := (column s).held.length
  get s e := ((column s).held[e]?).join
  set s e value := put s { column s with held := (column s).held.set e value }
  values s := (column s).range

/-- A chained variable over one track. -/
def chainedOver (name : String) (descriptor : Nat) (track : Mixed → Track)
    (put : Mixed → Track → Mixed) : ChainedVariable Mixed where
  name := name
  descriptor := descriptor
  count s := (track s).links.length
  anchors s := (track s).anchors
  get s e := ((track s).links[e]?).join
  set s e link := put s { track s with links := (track s).links.set e link }

def basics : List (String × BasicVariable Mixed Int) :=
  [("A", basic "x" 0 Mixed.ax fun s c => { s with ax := c }),
    ("A", basic "y" 1 Mixed.ay fun s c => { s with ay := c }),
    ("B", basic "z" 2 Mixed.bz fun s c => { s with bz := c }),
    ("B", basic "x" 3 Mixed.bx fun s c => { s with bx := c })]

def chained : List (ChainedVariable Mixed) :=
  [chainedOver "prev" 4 Mixed.prev fun s t => { s with prev := t },
    chainedOver "route" 5 Mixed.route fun s t => { s with route := t }]

/-- A value costs its multiple, one more for each variable before; an
open entity costs a hard point. -/
def valueCost (descriptor : Nat) : Option Int → Except Fault HardSoft
  | none => .ok (HardSoft.of (-1) 0)
  | some value => do
    let cost ← Checked.mul (← Checked.level value)
      (← Checked.level (descriptor + 1))
    return HardSoft.of 0 (← Checked.neg cost)

/-- A link costs its length: entities stand ten apart, anchors five. -/
def linkCost (entity : Nat) : Option Link → Except Fault HardSoft
  | none => .ok (HardSoft.of (-1) 0)
  | some (.anchor a) => do
    return HardSoft.of 0
      (← Checked.level (-(((entity : Int) + 1) * 10 - a * 5).natAbs))
  | some (.entity p) => do
    return HardSoft.of 0 (← Checked.level (-(((entity : Int) - p).natAbs * 10)))

/-- What the entity of a variable contributes. -/
def contribution (s : Mixed) (descriptor e : Nat) :
    Except Fault (Option HardSoft) :=
  match descriptor with
  | 0 => of s.ax
  | 1 => of s.ay
  | 2 => of s.bz
  | 3 => of s.bx
  | 4 => along s.prev
  | 5 => along s.route
  | _ => .ok none
where
  of (column : Column) : Except Fault (Option HardSoft) :=
    match column.held[e]? with
    | some value => (valueCost descriptor value).map some
    | none => .ok none
  along (track : Track) : Except Fault (Option HardSoft) :=
    match track.links[e]? with
    | some link => (linkCost e link).map some
    | none => .ok none

/-- The problem without its score: variables and contributions. -/
def parts : World Mixed where
  basics := basics
  chained := chained
  contribution := contribution
  score _ := .ok (Score.zero .hardSoft)
  initialized _ := .ok true
  append value s :=
    some ({ s with ax := { s.ax with held := s.ax.held ++ [value] } }, 0)

def world : World Mixed := { parts with score := parts.contributionSum }

end Mixed

end PlanSearch
