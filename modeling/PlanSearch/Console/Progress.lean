/-
What the library logs: the reports of a construction, and of the building
of selectors.

Candidates are logged as they are shown for debugging, and most of what
is said about single entities and selectors is for those who debug.
-/
import PlanSearch.Console.Event
import PlanSearch.Construction.Event
import PlanSearch.Score.Text
import PlanSearch.Selector.Build

namespace PlanSearch

namespace ConstructionEvent

open Console

/-- The name of the phase. -/
def phaseName : String := "Construction Heuristic"

/-- Where the reports come from. -/
def target : String := "planforge_solver::phase::construction::events"

/-- Entities a second, if any time has passed. -/
def speed (assigned millis : Nat) : Nat :=
  if millis = 0 then 0 else assigned * 1000 / millis

/-- A report as a logged event, some milliseconds after the phase began. -/
def logged {V : Type} {shape : Shape} (word : V → String) (millis : Nat) :
    ConstructionEvent V (Score shape) → Event
  | started units entities => ⟨.info, target, [("event", .text "phase_start"),
      ("phase", .text phaseName), ("phase_index", .number 0),
        ("demand_count", .number units),
      ("entity_count", .number entities)]⟩
  | committed entity value score =>
      ⟨.debug, target, [("event", .text "entity_committed"),
      ("entity_id", .number entity), ("value", .shown (word value)),
      ("score", .shown score.text)]⟩
  | skipped entity value e =>
      ⟨.warn, target, [("event", .text "candidate_skipped"),
      ("entity_id", .number entity), ("value", .shown (word value)),
      ("error", .shown e.message)]⟩
  | ended summary =>
      ⟨.info, target, [("event", .text "phase_end"), ("phase", .text phaseName),
      ("phase_index", .number 0), ("duration_ms", .number millis),
      ("steps", .number summary.assigned),
      ("speed", .number (speed summary.assigned millis)),
      ("skipped", .number summary.skipped),
      ("terminated", .flag summary.terminated),
      ("score", .shown summary.score.text)]⟩

end ConstructionEvent

/-- The report of a selector as a logged event. -/
def SelectorReport.logged (r : SelectorReport) : Console.Event :=
  ⟨.debug, "planforge_solver::builder", [("event", .text "selector_built"),
    ("path", .shown r.path), ("kind", .text r.kind),
      ("order", .shown (shown r.order)),
    ("limit", .shown (shown r.limit))]⟩

end PlanSearch
