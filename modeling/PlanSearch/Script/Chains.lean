/-
Scripts on chains: what a set of links comes to, and questions about it.
-/
import PlanSearch.Chain.Rearrange
import PlanSearch.Script.Answer

namespace PlanSearch.Script

/-- The anchor and place of an entity, the next entity and the previous link. -/
def surroundings (index : ChainIndex) (entity : Nat) : Document :=
  .list [Document.option pairDocument (index.locate entity),
    Document.option .nat (index.next entity),
    Document.option linkDocument (index.previousLink entity)]

def segmentDocument (index : ChainIndex) (segment : List Nat) : Document :=
  table [("located", match index.locateSegment segment with
      | .ok place => pairDocument place
      | .error flaw => errorDocument flaw.error),
    ("first", Document.option .nat segment.head?),
      ("last", Document.option .nat segment.getLast?),
    ("len", .nat segment.length), ("empty", .bool segment.isEmpty)]

def chainQuery (index : ChainIndex) (d : Document) : Read Document := do
  match ← getText d "get" with
  | "chain" => return nats (index.chain (← getNat d "anchor"))
  | "locate" =>
      return Document.option pairDocument (index.locate (← getNat d "entity"))
  | "anchor_of" =>
      return Document.option .nat (index.anchorOf (← getNat d "entity"))
  | "next" => return Document.option .nat (index.next (← getNat d "entity"))
  | "previous" =>
      return Document.option linkDocument
        (index.previousLink (← getNat d "entity"))
  | "all" =>
      return .list ((List.range (← getNat d "count")).map (surroundings index))
  | "split_point" =>
    return Document.option pairDocument
      (index.splitPoint (← asLink (← getDocument d "link")))
  | "sub_chain" => return segmentDocument index (← getNats d "entities")
  | "overlaps" =>
    let right ← getNats d "right"
    return .bool ((← getNats d "left").any right.contains)
  | "contains" =>
      return .bool ((← getNats d "entities").contains (← getNat d "entity"))
  | "link_before" =>
    return linkDocument (← lift (ChainIndex.linkBefore (← getNat d "anchor")
      (← getNats d "chain") (← getNat d "position")))
  | other => malformed other

def chainsAnswer (d : Document) : Read Document := do
  let links ← (← getList d "links").mapM (asOption asLink)
  match ChainIndex.ofLinks (← getNat d "anchors") links with
  | .error flaw => return errorDocument flaw.error
  | .ok index =>
    let head := table [("anchors", .nat index.chains.length),
      ("chains", .list (index.chains.map nats))]
    return .list (head :: (← (← getList d "queries").mapM fun q =>
      answered (chainQuery index q)))

end PlanSearch.Script
