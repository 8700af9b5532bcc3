/-
Well-formed links.

Links form a graph in which every entity has at most one predecessor, and
nothing else is known of it: links may branch, dangle, stand still or run
in circles. `WellFormed` says that they do none of this. It is stated
about the links alone, without chains or an order in which they are built.

`Reached links link p e` counts how far along the links an entity is: `e`
is the `p`-th one behind the link. It is the bridge to chains. What is
reached from an anchor is reached from that one only and at one distance
only, so a well-formed set of links has no way longer than its entities.
-/
import Mathlib.Data.Fin.Pigeonhole
import PlanSearch.Proofs.Chain.Position

namespace PlanSearch.ChainIndex

variable {anchors : Nat} {links : List (Option Link)} {link : Link}
  {a b p q e d : Nat}

-- ================================================================== links

/-- The entity is assigned and follows the link. -/
def Follows (links : List (Option Link)) (e : Nat) (link : Link) : Prop :=
  links[e]? = some (some link)

/-- The entity follows something. -/
def Assigned (links : List (Option Link)) (e : Nat) : Prop :=
  ∃ link, Follows links e link

/-- Going from predecessor to predecessor ends at an anchor. -/
inductive Rooted (links : List (Option Link)) : Nat → Prop
  | anchor {e a : Nat} : Follows links e (.anchor a) → Rooted links e
  | entity {e p : Nat} : Follows links e (.entity p) → Rooted links p →
    Rooted links e

/-- Links that are chains. -/
structure WellFormed (anchors : Nat) (links : List (Option Link)) : Prop where
  /-- Anchors that are followed exist, -/
  anchor_exists : ∀ e a, Follows links e (.anchor a) → a < anchors
  /-- and so do entities. -/
  entity_exists : ∀ e p, Follows links e (.entity p) → p < links.length
  /-- Nothing follows itself -/
  not_itself : ∀ e, ¬ Follows links e (.entity e)
  /-- or what is unassigned. -/
  assigned : ∀ e p, Follows links e (.entity p) → Assigned links p
  /-- Nothing has two successors. -/
  single : ∀ d e link, Follows links d link → Follows links e link → d = e
  /-- And all ways back end at an anchor. -/
  rooted : ∀ e, Assigned links e → Rooted links e

theorem Follows.lt_length (h : Follows links e link) : e < links.length :=
  (List.getElem?_eq_some_iff.mp h).1

/-- An entity follows one link. -/
theorem Follows.link_unique {other : Link} (h : Follows links e link)
    (g : Follows links e other) : link = other :=
  Option.some.inj (Option.some.inj (h.symm.trans g))

/-- Whatever is reached from an anchor is assigned. -/
theorem Rooted.assigned (h : Rooted links e) : Assigned links e := by
  cases h with
  | anchor hfollows => exact ⟨_, hfollows⟩
  | entity hfollows _ => exact ⟨_, hfollows⟩

-- ================================================================== flaws

/-- What a flaw says about the links it was found in. The flaws of
rearrangements say nothing about links. -/
def Shows (anchors : Nat) (links : List (Option Link)) : ChainFlaw → Prop
  | .unknownAnchor e a => Follows links e (.anchor a) ∧ anchors ≤ a
  | .followsItself e => Follows links e (.entity e)
  | .followsUnassigned e p =>
      Follows links e (.entity p) ∧ links[p]? = some none
  | .unknownEntity e p => Follows links e (.entity p) ∧ links.length ≤ p
  | .twoSuccessors link d e =>
      d < e ∧ Follows links d link ∧ Follows links e link
  | .rootless e => Assigned links e ∧ ¬ Rooted links e
  | _ => False

/-- Well-formed links show no flaw. -/
theorem WellFormed.not_shows (h : WellFormed anchors links) (flaw : ChainFlaw) :
    ¬ Shows anchors links flaw := by
  intro hshows
  cases flaw with
  | unknownAnchor e a =>
      exact Nat.not_lt.mpr hshows.2 (h.anchor_exists e a hshows.1)
  | followsItself e => exact h.not_itself e hshows
  | followsUnassigned e p =>
      obtain ⟨link, hlink⟩ := h.assigned e p hshows.1
      cases hlink.symm.trans hshows.2
  | unknownEntity e p =>
      exact Nat.not_lt.mpr hshows.2 (h.entity_exists e p hshows.1)
  | twoSuccessors link d e =>
      obtain ⟨hlt, hd, he⟩ := hshows
      exact Nat.ne_of_lt hlt (h.single d e link hd he)
  | rootless e => exact hshows.2 (h.rooted e hshows.1)
  | _ => exact hshows

-- =============================================================== distance

/-- The entity is reached from a link, with so many others before it. -/
def Reached (links : List (Option Link)) (link : Link) : Nat → Nat → Prop
  | 0, e => Follows links e link
  | p + 1, e => ∃ d, Reached links link p d ∧ Follows links e (.entity d)

theorem reached_zero : Reached links link 0 e ↔ Follows links e link := Iff.rfl

/-- One position further along the chain. -/
theorem reached_succ :
    Reached links link (p + 1) e ↔
    ∃ d, Reached links link p d ∧ Follows links e (.entity d) :=
  Iff.rfl

/-- The same way, taken apart at its start. -/
theorem reached_succ_start :
    Reached links link (p + 1) e ↔
    ∃ d, Follows links d link ∧ Reached links (.entity d) p e := by
  induction p generalizing e with
  | zero => exact Iff.rfl
  | succ p ih =>
      rw [reached_succ]
      constructor
      · intro h
        obtain ⟨c, hc, he⟩ := h
        obtain ⟨d, hd, hdc⟩ := ih.mp hc
        exact ⟨d, hd, c, hdc, he⟩
      · intro h
        obtain ⟨d, hd, c, hdc, he⟩ := h
        exact ⟨c, ih.mpr ⟨d, hd, hdc⟩, he⟩

theorem Reached.assigned (h : Reached links link p e) : Assigned links e := by
  cases p with
  | zero => exact ⟨_, h⟩
  | succ p =>
      obtain ⟨d, -, he⟩ := h
      exact ⟨_, he⟩

theorem Reached.lt_length (h : Reached links link p e) : e < links.length := by
  obtain ⟨_, hfollows⟩ := h.assigned
  exact hfollows.lt_length

/-- Every entity on the way has been reached before. -/
theorem Reached.exists_of_le (h : Reached links link p e) (hle : q ≤ p) :
    ∃ d, Reached links link q d := by
  induction p generalizing e with
  | zero =>
      obtain rfl := Nat.le_zero.mp hle
      exact ⟨e, h⟩
  | succ p ih =>
      rcases Nat.lt_or_ge p q with hlt | hge
      · obtain rfl : q = p + 1 := Nat.le_antisymm hle hlt
        exact ⟨e, h⟩
      · obtain ⟨d, hd, -⟩ := h
        exact ih hd hge

/-- An entity is reached from one anchor, and at one distance. This needs
nothing of the links: it goes back along predecessors, of which an entity
has one. -/
theorem Reached.place_unique (h : Reached links (.anchor a) p e)
    (g : Reached links (.anchor b) q e) : a = b ∧ p = q := by
  induction p generalizing q e with
  | zero =>
      cases q with
      | zero =>
          cases Follows.link_unique h g
          exact ⟨rfl, rfl⟩
      | succ q =>
          obtain ⟨d, -, hd⟩ := g
          cases Follows.link_unique h hd
  | succ p ih =>
      obtain ⟨d, hreach, hd⟩ := h
      cases q with
      | zero => cases Follows.link_unique hd g
      | succ q =>
          obtain ⟨c, greach, hc⟩ := g
          cases hd.link_unique hc
          obtain ⟨rfl, rfl⟩ := ih hreach greach
          exact ⟨rfl, rfl⟩

/-- No way from an anchor is longer than there are entities: the entities
on it all differ. -/
theorem Reached.distance_lt (h : Reached links (.anchor a) p e) :
    p < links.length := by
  -- an entity for every distance up to `p`, and no two of them the same
  have hway : ∀ q : Fin (p + 1), ∃ d : Fin links.length,
      Reached links (.anchor a) q d := by
    intro q
    obtain ⟨d, hd⟩ := h.exists_of_le (Nat.le_of_lt_succ q.isLt)
    exact ⟨⟨d, hd.lt_length⟩, hd⟩
  choose way hway using hway
  have hinjective : Function.Injective way := by
    intro q r hqr
    have hr := hway r
    rw [← hqr] at hr
    exact Fin.ext ((hway q).place_unique hr).2
  exact Fin.le_of_injective way hinjective

/-- What is rooted is reached from an anchor, -/
theorem Rooted.exists_reached (h : Rooted links e) :
    ∃ a p, Reached links (.anchor a) p e := by
  induction h with
  | anchor hfollows => exact ⟨_, 0, hfollows⟩
  | entity hfollows _ ih =>
      obtain ⟨a, p, hreach⟩ := ih
      exact ⟨a, p + 1, _, hreach, hfollows⟩

/-- and the other way around. -/
theorem Reached.rooted (h : Reached links (.anchor a) p e) :
    Rooted links e := by
  induction p generalizing e with
  | zero => exact .anchor h
  | succ p ih =>
      obtain ⟨d, hreach, hfollows⟩ := h
      exact .entity hfollows (ih hreach)

/-- The anchor a way starts from exists. -/
theorem Reached.anchor_lt
    (anchor_exists : ∀ e a, Follows links e (.anchor a) → a < anchors)
    (h : Reached links (.anchor a) p e) : a < anchors := by
  obtain ⟨d, hd⟩ := h.exists_of_le (Nat.zero_le p)
  exact anchor_exists d a hd

end PlanSearch.ChainIndex
