/-
Sessions: steps on one director, as a script tells them.

Every call that reaches the director is logged, and the log is emptied
when it is answered. A recording runs steps of its own on a director
that can take them back; the moves made there stay known afterwards. A
fault ends the steps it happens in.
-/
import PlanSearch.Director.Traced
import PlanSearch.Script.Selectors
import PlanSearch.Search.Climb

namespace PlanSearch.Script

/-- Directors with a log of the calls that reached them. -/
class Logged (D : Type) where
  log : D → Array String
  clearLog : D → D

instance {D : Type} : Logged (Traced D) :=
  ⟨Traced.log, fun t => { t with log := #[] }⟩

instance {D S : Type} [Logged D] : Logged (Recording D S) :=
  ⟨fun r => Logged.log r.inner,
    fun r => { r with inner := Logged.clearLog r.inner }⟩

/-- What a session has come to. -/
structure Session (D S : Type) where
  director : D
  moves : KnownMoves S
  /-- The moves of the last pass. -/
  lastPass : List (Move S Int)
  passes : Passes

/-- What a session is played with. -/
structure Cast (S : Type) where
  stage : Stage S
  selector : Option (Selector S Int)

namespace Session

variable {D S : Type} [Director D S HardSoft] [Logged D]

/-- Lets the director act. -/
def direct {α : Type} (act : Act D α) : Play (Session D S) α :=
  Play.act (·.director) (fun x d => { x with director := d }) act

/-- The working solution. -/
def working : Play (Session D S) S := do
  return Director.working (← get).director

/-- The state as it is written. -/
def written (cast : Cast S) :
    Play (Session D S) Document := do return cast.stage.write (← working)

def clearLog : Play (Session D S) Unit :=
  modify fun x => { x with director := Logged.clearLog x.director }

/-- The state reached, and the calls since the last answer of this kind. -/
def changed (cast : Cast S) : Play (Session D S) Document := do
  let x ← get
  clearLog
  return table [("state", ← written cast),
    ("log", .list ((Logged.log x.director).toList.map .text))]

/-- Keeps a move under a name and tells about it. -/
def keep (id : String) (m : Move S Int) : Play (Session D S) Document := do
  modify fun x => { x with moves := (id, m) :: x.moves }
  return fullDocument m

/-- The move that a step names. -/
def namedMove (step : Document) : Play (Session D S) (Move S Int) := do
  known (← get).moves (← getText step "id")

-- ============================================================ edits

/-- Writes a value through the accessor of its variable. -/
def writerOf (world : World S) (step : Document) :
    Read (Nat × String × (S → S)) := do
  let name ← getText step "variable"
  let entity ← getNat step "entity"
  match basicNamed world name with
  | .ok x =>
    let value ← getOption asInt step "value"
    return (x.descriptor, x.name, fun s => x.set s entity value)
  | .error _ =>
    let x ← chainedNamed world name
    let link ← getOption asLink step "value"
    return (x.descriptor, x.name, fun s => x.set s entity link)

/-- Edits one entity, announced or not. -/
def setValue (cast : Cast S) (step : Document) :
    Play (Session D S) Document := do
  let (descriptor, name, write) ← writerOf cast.stage.world step
  let entity ← getNat step "entity"
  let notify := getFlag step "notify" true
  if notify then direct (Director.before descriptor entity name)
  direct (Act.update (Director.edit write))
  if notify then direct (Director.after descriptor entity name)
  changed cast

/-- Appends an entity, announced or not. -/
def pushValue (cast : Cast S) (step : Document) :
    Play (Session D S) Document := do
  let value ← getOption asInt step "value"
  let s ← working
  match cast.stage.world.append value s with
  | none => malformed "nothing can be appended"
  | some (appended, descriptor) =>
    let index := ((cast.stage.world.counts s).find? fun c => c.1
      == descriptor).map Prod.snd
    direct (Act.update (Director.edit fun _ => appended))
    if getFlag step "notify" true then
      direct (Director.added descriptor (index.getD 0))
    changed cast

-- ============================================================ passes

/-- The first moves of a new pass of the selector. -/
def newPass (cast : Cast S) (step : Document) :
    Play (Session D S) (List (Move S Int)) := do
  match cast.selector with
  | none => malformed "no selector"
  | some selector =>
    let take ← getNat step "take"
    let s ← working
    let portion ← Play.act (·.passes) (fun x p => { x with passes := p })
      (selector.firstMoves s take)
    if portion.stuck then malformed "a pass without end"
    else return portion.moves

/-- Tries moves and takes them back in both ways; ends after one that could
not be taken back. -/
def trials (cast : Cast S) (before : Document) :
    List (Move S Int) → Play (Session D S) (List Document)
  | [] => return []
  | m :: rest => do
    let doable := m.isDoable (← working)
    let score ← direct m.trial
    let recorded := (← written cast) == before
    let undo := m.undo (← working)
    direct m.run
    direct undo.run
    let undone := (← written cast) == before
    let answer := Document.list [.bool doable, scoreDocument score,
      .bool recorded, .bool undone]
    if undone then return answer :: (← trials cast before rest)
    else return [answer]

/-- Does the best move of a new pass, round after round, as long as one is
better than doing nothing. -/
def climb (cast : Cast S) (step : Document) :
    Nat → Play (Session D S) (List Document)
  | 0 => return []
  | rounds + 1 => do
    let current ← direct Director.score
    let moves ← newPass cast step
    match ← direct (Move.bestOf current moves.zipIdx none) with
    | none => return []
    | some best =>
      direct best.move.run
      let score ← direct Director.score
      let answer := table [("index", .nat best.place),
        ("score", scoreDocument score), ("state", ← written cast)]
      return answer :: (← climb cast step rounds)

-- ============================================================ questions

def facts (cast : Cast S) [Planning S HardSoft] :
    Play (Session D S) Document := do
  let s ← working
  return table [("state", cast.stage.write s),
    ("initialized", .bool (← Play.lift (cast.stage.world.initialized s))),
    ("stored", Document.option scoreDocument (Planning.stored s)),
      ("clone", .bool true),
    ("incremental", .bool (Director.isIncremental (← get).director)),
    ("full", scoreDocument (← Play.lift (cast.stage.world.score s)))]

/-- Draws repeated on one stream. -/
def sampled {α : Type} (draw : Chance α) :
    Nat → Stream → Except Fault (List α × Stream)
  | 0, stream => .ok ([], stream)
  | n + 1, stream => do
    let (a, stream) ← draw.run stream
    let (rest, stream) ← sampled draw n stream
    return (a :: rest, stream)

def segmentAnswer (cast : Cast S) (step : Document) :
    Play (Session D S) Document := do
  let x ← chainedOf cast.stage.world step
  let sizes ← segmentSizesOf step
  match x.index (← working) with
  | .error flaw => return errorDocument flaw.error
  | .ok index =>
    let stream := Seed.stream (UInt64.ofNat (← getNat step "seed")) 0
    let (samples, _) ← Play.lift
      (sampled (sizes.sample index) (← getNat step "samples") stream)
    return table [("min", .nat sizes.minimum),
      ("all", .list ((sizes.segments index).map nats)),
      ("sampled", .list (samples.map (Document.option nats)))]

def pillarDocument (p : Pillar) : Document :=
  table [("group", .nat p.group), ("entities", nats p.entities),
    ("size", .nat p.entities.length), ("empty", .bool p.entities.isEmpty)]

/-- Samples of every group in turn, on one stream. -/
def pillarSamples (sub : SubPillars) (times : Nat) :
    List (List Nat × Nat) → Stream → Except Fault (List Pillar)
  | [], _ => .ok []
  | (group, number) :: rest, stream => do
    let (samples, stream) ← sampled
      (Pillar.sample sub number group) times stream
    return samples ++ (← pillarSamples sub times rest stream)

def pillarAnswer (cast : Cast S) (step : Document) :
    Play (Session D S) Document := do
  let vars ← basicsOf cast.stage.world step
  let sub ← subPillarsOf step "sub_pillar"
  let s ← working
  let groups := Pillar.groups vars sub s
  let stream := Seed.stream (UInt64.ofNat (← getNat step "seed")) 0
  let samples ← Play.lift
    (pillarSamples sub (← getNat step "samples") groups.zipIdx stream)
  return table [("groups", .list (groups.map nats)),
    ("pillars", .list ((Pillar.all vars sub s).map pillarDocument)),
    ("sampled", .list (samples.map pillarDocument))]

-- ============================================================ steps

/-- Runs a step that is no recording. -/
def runPlain (cast : Cast S) [Planning S HardSoft] (step : Document) :
    String → Play (Session D S) Document
  | "make" => do
    let x ← get
    match ← moveOf cast.stage.world x.moves (← working) deepest
        (← getDocument step "move") with
    | .ok m => keep (← getText step "id") m
    | .error e => return errorDocument e
  | "doable" => do return .bool ((← namedMove step).isDoable (← working))
  | "apply" => do
    direct (← namedMove step).run
    changed cast
  | "undo" => do
    keep (← getText step "as") ((← namedMove step).undo (← working))
  | "debug" => do return .text (shown (← namedMove step))
  | "score" => do return scoreDocument (← direct Director.score)
  | "try_score" => do
    match ← direct Director.tryScore with
    | .ok score => return scoreDocument score
    | .error e => return errorDocument e
  | "reset" => do
    direct Director.reset
    changed cast
  | "facts" => facts cast
  | "set" => setValue cast step
  | "push" => pushValue cast step
  | "info" => do
    match cast.selector with
    | some selector => Play.lift (infoOf (← working) selector)
    | none => malformed "no selector"
  | "debug_selector" =>
      return .text (Text.Shown.option (cast.selector.map shown))
  | "pass" => do
    let moves ← newPass cast step
    modify fun x => { x with lastPass := moves }
    return .list (moves.map moveDocument)
  | "count" => do return .nat (← newPass cast step).length
  | "pick" => do
    match (← get).lastPass[← getNat step "index"]? with
    | some m => keep (← getText step "id") m
    | none => malformed "no such move"
  | "trial" => do
    let moves ← newPass cast step
    let answers ← trials cast (← written cast) moves
    clearLog
    return .list answers
  | "climb" => do
    let answers ← climb cast step (← getNat step "rounds")
    clearLog
    return .list answers
  | "chain_index" => do
    match (← chainedOf cast.stage.world step).index (← working) with
    | .ok index => return .list (index.chains.map nats)
    | .error flaw => return errorDocument flaw.error
  | "sub_chains" => segmentAnswer cast step
  | "pillars" => pillarAnswer cast step
  | other => malformed other

/-- How a recording ends. -/
def endRecording : String → Act (Recording D S) Unit
  | "undo" => Recording.undoChanges
  | "clear" => Recording.clear
  | "clear_undo" => do
    Recording.clear
    Recording.undoChanges
  | "reset" => Director.reset
  | _ => return

/-- The answers of some steps, and whether a fault ended them. -/
abbrev Answers := List Document × Bool

/-- A session goes on with another director. -/
def onDirector {E : Type} (d : E) (x : Session D S) : Session E S :=
  ⟨d, x.moves, x.lastPass, x.passes⟩

/-- Runs a script of steps. The fuel bounds how deep recordings nest and how
many steps there are. -/
def runSteps (cast : Cast S) [Planning S HardSoft] :
    Nat → {D : Type} → [Director D S HardSoft] → [Logged D] → List Document →
      Play (Session D S) Answers
  | 0, _, _, _, _ => malformed "too many steps"
  | _ + 1, _, _, _, [] => return ([], false)
  | fuel + 1, D, _, _, step :: rest => do
    let act ← getText step "do"
    let attempt : Play (Session D S) Document :=
      if act == "record" then do
        let x ← get
        let inner := onDirector (Recording.start x.director) x
        let (result, inner) :=
          (runSteps cast fuel (D := Recording D S)
            (← getList step "steps")).run inner
        set (onDirector inner.director.inner inner)
        let (answers, broken) ← ExceptT.mk fun y => (result, y)
        let changes := inner.director.changeCount
        let empty := inner.director.undos.isEmpty
        let ending ← getText step "end"
        let ended := if broken then pure () else endRecording ending
        let (result, recording) := ended.run inner.director
        set (onDirector recording.inner inner)
        Play.lift result
        return table [("steps", .list answers), ("changes", .nat changes),
          ("empty", .bool empty), ("left", .nat recording.changeCount),
          ("after", ← changed cast)]
      else runPlain cast step act
    let x ← get
    let (result, y) := attempt.run x
    set y
    match result with
    | .ok answer =>
      let (answers, broken) ← runSteps cast fuel rest
      return (answer :: answers, broken)
    | .error (.fault f) => return ([faultDocument f], true)
    | .error (.answer d) =>
      let (answers, broken) ← runSteps cast fuel rest
      return (d :: answers, broken)
    | .error (.malformed what) => malformed what

end Session

-- ============================================================ sessions

/-- The director a script asks for. -/
def engineOf {S : Type} (stage : Stage S) (d : Document) :
    Read (Engine S .hardSoft) := do
  match ← getOption asText d "director" with
  | some "incremental" =>
    let limit ← getOption asLevel d "limit"
    let calculator :=
      RunningTotal.calculator stage.world.slots stage.world.contribution limit
    return .incremental (.start calculator (.start .hardSoft) stage.start)
  | _ => return .full (.start stage.world.score stage.start)

/-- The calls that kept a running total up to date, and whether it is. -/
def callEntries {S : Type} {shape : Shape} :
    Engine S shape → List (String × Document)
  | .full _ => []
  | .incremental d => [("calls", table [("reset", .nat d.totals.resets),
      ("before", .nat d.totals.retractions),
        ("after", .nat d.totals.insertions)]),
    ("ready", .bool d.ready)]

def sessionOn {S : Type} [Planning S HardSoft] (d : Document)
    (stage : Stage S) : Read Document := do
  let engine ← engineOf stage d
  let cast : Cast S := ⟨stage, ← selectorOf stage.world d⟩
  let start : Session (Traced (Engine S .hardSoft)) S :=
    ⟨.start engine, [], [], []⟩
  let (result, last) :=
    (Session.runSteps cast deepest (← getList d "steps")).run start
  let (answers, broken) ← result
  if broken then return table [("steps", .list answers)]
  else
    let engine := last.director.inner
    let s := Director.working engine
    return table ([("steps", .list answers), ("final", stage.write s),
      ("stored", Document.option scoreDocument (Planning.stored s))] ++
        callEntries engine)

def sessionAnswer (d : Document) : Read Document := onStage d (sessionOn d)

end PlanSearch.Script
