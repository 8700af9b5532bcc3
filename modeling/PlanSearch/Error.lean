/-
Errors that planning answers with.

Only a failed score evaluation is transient: it spoils the candidate at
hand and nothing else. Every other error ends what was being done.
-/
import PlanSearch.Text.Shown

namespace PlanSearch

/-- What planning can answer instead of a result. -/
inductive PlanError
  | config (text : String)
  | initialization (entity : Nat) (text : String)
  | structural (text : String)
  | scoring (text : String)
  | cancelled
  | invalidState (text : String)
  deriving DecidableEq, Repr

namespace PlanError

def message : PlanError → String
  | config text => "Configuration error: " ++ text
  | initialization entity text =>
    "Initialization invariant violated for entity " ++
      Text.ofNat entity ++ ": " ++ text
  | structural text => "Structural invariant violated: " ++ text
  | scoring text => "Score calculation error: " ++ text
  | cancelled => "Solver was cancelled"
  | invalidState text => "Invalid state: " ++ text

/-- Whether the error spoils the current candidate only. -/
def isTransient : PlanError → Bool
  | scoring _ => true
  | _ => false

instance : Shown PlanError where
  shown
    | config text => Text.Shown.tuple "Config" [shown text]
    | initialization entity text =>
      Text.Shown.record "Initialization" [("entity_id", shown entity),
        ("message", shown text)]
    | structural text => Text.Shown.tuple "Structural" [shown text]
    | scoring text => Text.Shown.tuple "ScoreCalculation" [shown text]
    | cancelled => "Cancelled"
    | invalidState text => Text.Shown.tuple "InvalidState" [shown text]

end PlanError

end PlanSearch
