/-
Places in a configured tree, and the first flaw of one.

A selector stands at a place: the numbers of the children on the way down
to it from the root. Places are compared like words in a dictionary. A
selector thus comes before whatever is inside it, and what is inside one
child before what is inside the next, which is the order in which the
check walks through a tree.

# Paths

The path that an error carries is a place written out below the kind of
the root (`pathTo`). A number is written in digits and ends at a bracket,
so a path can be read in one way only, however many digits its numbers
have (`pathTo_inj`).

# The check

`FirstFlaw` says at which place a tree has its first flaw and what is
reported of it, without following the check. Checking children in a row
stops at the first that fails, with all before it found in order, and
this is what puts the first flaw of a child in front of everything else.
-/
import Mathlib.Data.List.Lex
import PlanSearch.Proofs.Config.Template

namespace PlanSearch

namespace SelectorConfig

-- ===================================================================== places

/-- The selector at a place, if the tree has the place. -/
def at? : List Nat → SelectorConfig → Option SelectorConfig
  | [], config => some config
  | i :: place, config => config.children[i]?.bind (at? place)

/-- The path to a place of the tree that stands at a path. -/
def pathTo (path : String) (place : List Nat) : String :=
  place.foldl childPath path

theorem at?_cons {config node : SelectorConfig} {i : Nat} {place : List Nat} :
    config.at? (i :: place) = some node ↔
      ∃ child, config.children[i]? = some child ∧ child.at? place = some node :=
  Option.bind_eq_some_iff

-- ====================================================================== paths

/-- The letters that a step to a child adds to a path. -/
def stepText (i : Nat) : List Char :=
  ".selectors[".toList ++ (Nat.toDigits 10 i ++ [']'])

/-- The path to a child is that of its parent and one more step. -/
theorem toList_childPath (path : String) (i : Nat) :
    (childPath path i).toList = path.toList ++ stepText i := by
  have hdigits : (Text.ofNat i).toList = Nat.toDigits 10 i :=
    String.toList_ofList
  rw [childPath, String.toList_append, String.toList_append,
    String.toList_append, hdigits, List.append_assoc, List.append_assoc]
  rfl

/-- The path to a place is written step by step. -/
theorem toList_pathTo (path : String) (place : List Nat) :
    (pathTo path place).toList = path.toList ++ place.flatMap stepText := by
  induction place generalizing path with
  | nil => rw [List.flatMap_nil, List.append_nil]; rfl
  | cons i place ih =>
      have hstep := ih (childPath path i)
      rw [toList_childPath, List.append_assoc] at hstep
      rw [List.flatMap_cons]
      exact hstep

/-- A number ends at its bracket. -/
theorem takeWhile_number (i : Nat) (rest : List Char) :
    (Nat.toDigits 10 i ++ ']' :: rest).takeWhile (· != ']')
      = Nat.toDigits 10 i := by
  have hdigits : ∀ c ∈ Nat.toDigits 10 i, (c != ']') = true := by
    intro c hc
    have hdigit := Nat.isDigit_of_mem_toDigits (by decide) (by decide) hc
    refine bne_iff_ne.2 ?_
    intro hbracket
    rw [hbracket] at hdigit
    exact absurd hdigit (by decide)
  rw [List.takeWhile_append_of_pos hdigits]
  simp

/-- Numbers are known by their digits. -/
theorem toDigits_inj {i j : Nat} (h : Nat.toDigits 10 i = Nat.toDigits 10 j) :
    i = j := by
  have hvalue := congrArg (fun digits => Nat.ofDigitChars 10 digits 0) h
  simpa using hvalue

theorem stepText_append_ne_nil (i : Nat) (rest : List Char) :
    stepText i ++ rest ≠ [] := by
  intro hnil
  obtain ⟨hstep, -⟩ := List.append_eq_nil_iff.1 hnil
  obtain ⟨-, hnumber⟩ := List.append_eq_nil_iff.1 hstep
  exact absurd (List.append_eq_nil_iff.1 hnumber).2 (List.cons_ne_nil _ _)

/-- Up to the bracket stands the number, and behind it the rest. -/
theorem stepText_append_inj {i j : Nat} {rest others : List Char}
    (h : stepText i ++ rest = stepText j ++ others) :
    i = j ∧ rest = others := by
  unfold stepText at h
  rw [List.append_assoc, List.append_assoc, List.append_assoc,
    List.append_assoc] at h
  have hnumbers : Nat.toDigits 10 i ++ ']' :: rest = Nat.toDigits 10 j ++
      ']' :: others :=
    List.append_cancel_left h
  have hdigits := congrArg (List.takeWhile (· != ']')) hnumbers
  rw [takeWhile_number, takeWhile_number] at hdigits
  rw [hdigits] at hnumbers
  exact ⟨toDigits_inj hdigits,
    (List.cons.inj (List.append_cancel_left hnumbers)).2⟩

/-- Places are known by the text of their steps. -/
theorem flatMap_stepText_inj {place other : List Nat}
    (h : place.flatMap stepText = other.flatMap stepText) : place = other := by
  induction place generalizing other with
  | nil =>
      cases other with
      | nil => rfl
      | cons j other => exact absurd h.symm (stepText_append_ne_nil j _)
  | cons i place ih =>
      cases other with
      | nil => exact absurd h (stepText_append_ne_nil i _)
      | cons j other =>
          obtain ⟨rfl, hrest⟩ := stepText_append_inj h
          rw [ih hrest]

/-- Different places have different paths. -/
theorem pathTo_inj {path : String} {place other : List Nat} :
    pathTo path place = pathTo path other ↔ place = other := by
  refine ⟨fun h => flatMap_stepText_inj ?_, fun h => by rw [h]⟩
  have hletters := congrArg String.toList h
  rw [toList_pathTo, toList_pathTo] at hletters
  exact List.append_cancel_left hletters

-- ====================================================================== flaws

/-- The selector by itself is in order: its weight, if it has one, is finite
and not below zero, and a composite has children. -/
structure Usable (config : SelectorConfig) : Prop where
  weight : ∀ w, config.common.weight = some w →
    w.isFinite = true ∧ w.isBelowZero = false
  children : config.isComposite = true → config.children ≠ []

/-- What is reported of a selector that is not in order: a bad weight before
a lack of children. -/
inductive Flaw (path : String) (config : SelectorConfig) : ConfigError → Prop
  | weight {w : Binary64} (hw : config.common.weight = some w)
      (hbad : w.isFinite = false ∨ w.isBelowZero = true) :
      Flaw path config (.invalidWeight path w)
  | empty (hgood : ∀ w, config.common.weight = some w →
      w.isFinite = true ∧ w.isBelowZero = false)
      (hcomposite : config.isComposite = true) (hnone : config.children = []) :
      Flaw path config (.emptyComposite path)

/-- A tree at a path has its first flaw at a place, and the error reports it
under the path to that place. -/
structure FirstFlaw (path : String) (config : SelectorConfig) (place : List Nat)
    (e : ConfigError) : Prop where
  flaw : ∃ node, config.at? place = some node ∧ node.Flaw (pathTo path place) e
  first : ∀ earlier node, earlier < place →
    config.at? earlier = some node → node.Usable

variable {path : String} {config : SelectorConfig} {e : ConfigError}

/-- A weight is finite and not below zero. -/
theorem isWeight_iff {w : Binary64} :
    isWeight w = true ↔ w.isFinite = true ∧ w.isBelowZero = false := by
  simp [isWeight]

/-- A selector with a flaw is not in order. -/
theorem Flaw.not_usable (h : config.Flaw path e) : ¬ config.Usable := by
  intro husable
  cases h with
  | weight hw hbad =>
      obtain ⟨hfinite, hbelow⟩ := husable.weight _ hw
      simp [hfinite, hbelow] at hbad
  | empty _ hcomposite hnone => exact husable.children hcomposite hnone

/-- A flaw is reported under the path of the selector. -/
theorem Flaw.path_eq (h : config.Flaw path e) : e.path? = some path := by
  cases h with
  | weight => rfl
  | empty => rfl

/-- A selector has one flaw at most. -/
theorem Flaw.unique {other : ConfigError} (h : config.Flaw path e)
    (g : config.Flaw path other) : e = other := by
  cases h with
  | weight hw hbad =>
      cases g with
      | weight hw' _ =>
          cases hw.symm.trans hw'
          rfl
      | empty hgood _ _ => simp [hgood _ hw] at hbad
  | empty hgood _ _ =>
      cases g with
      | weight hw' hbad' => simp [hgood _ hw'] at hbad'
      | empty => rfl

/-- A selector is in order, or the check of it alone reports its flaw. -/
theorem flawAt_spec (path : String) (config : SelectorConfig) :
    match flawAt path config with
    | none => config.Usable
    | some e => config.Flaw path e := by
  have hempty (hgood : ∀ w, config.common.weight = some w →
      w.isFinite = true ∧ w.isBelowZero = false) :
      match flawAt.emptyAt path config with
      | none => config.Usable
      | some e => config.Flaw path e := by
    unfold flawAt.emptyAt
    by_cases hnone : (config.isComposite && config.children.isEmpty) = true
    · rw [if_pos hnone]
      obtain ⟨hcomposite, hnone⟩ := Bool.and_eq_true_iff.1 hnone
      exact .empty hgood hcomposite (List.isEmpty_iff.1 hnone)
    · rw [if_neg hnone]
      refine ⟨hgood, fun hcomposite hchildren => hnone ?_⟩
      rw [hcomposite, hchildren]
      rfl
  unfold flawAt
  cases hw : config.common.weight with
  | none => exact hempty fun w hsome => nomatch hw.symm.trans hsome
  | some w =>
      dsimp only
      by_cases hgood : isWeight w = true
      · rw [if_pos hgood]
        refine hempty fun w' hw' => ?_
        cases hw.symm.trans hw'
        exact isWeight_iff.1 hgood
      · rw [if_neg hgood]
        refine .weight hw ?_
        rw [isWeight_iff] at hgood
        cases hfinite : w.isFinite with
        | false => exact .inl rfl
        | true => simpa [hfinite] using hgood

-- ================================================================== the check

/-- The check of a tree is that of its root, and then of the children. -/
theorem validateAt_eq (path : String) (config : SelectorConfig) :
    validateAt path config = match flawAt path config with
      | some e => .error e
      | none => validateAll path 0 config.children := by
  cases config with
  | leaf common settings =>
      rw [validateAt]
      cases flawAt path (leaf common settings) with
      | none => simp only [children, validateAll]
      | some e => rfl
  | union => rfl
  | product => rfl

/-- Children that pass the check do so each under its path. -/
theorem validateAll_ok {index : Nat} {cs : List SelectorConfig}
    (h : validateAll path index cs = .ok ()) :
    ∀ i d, cs[i]? = some d → validateAt (childPath path (index + i)) d
      = .ok () := by
  induction cs generalizing index with
  | nil => exact fun i d hd => nomatch hd
  | cons c rest ih =>
      rw [validateAll] at h
      intro i d hd
      cases hc : validateAt (childPath path index) c with
      | error e =>
          rw [hc] at h
          cases h
      | ok =>
          rw [hc] at h
          cases i with
          | zero =>
              cases hd
              exact hc
          | succ i =>
              have hrest := ih h i d hd
              rwa [Nat.add_assoc, Nat.add_comm 1 i] at hrest

/-- Children that fail do so at the first that fails. -/
theorem validateAll_error {index : Nat} {cs : List SelectorConfig}
    (h : validateAll path index cs = .error e) :
    ∃ i d, cs[i]? = some d ∧
      validateAt (childPath path (index + i)) d = .error e ∧
      ∀ j < i, ∀ d', cs[j]? = some d' →
        validateAt (childPath path (index + j)) d' = .ok () := by
  induction cs generalizing index with
  | nil => cases h
  | cons c rest ih =>
      rw [validateAll] at h
      cases hc : validateAt (childPath path index) c with
      | error e' =>
          rw [hc] at h
          cases h
          exact ⟨0, c, rfl, hc, fun j hj => absurd hj (Nat.not_lt_zero j)⟩
      | ok =>
          rw [hc] at h
          obtain ⟨i, d, hd, herror, hbefore⟩ := ih h
          rw [Nat.add_assoc, Nat.add_comm 1 i] at herror
          refine ⟨i + 1, d, hd, herror, fun j hj d' hd' => ?_⟩
          cases j with
          | zero =>
              cases hd'
              exact hc
          | succ j =>
              have hrest := hbefore j (Nat.lt_of_succ_lt_succ hj) d' hd'
              rwa [Nat.add_assoc, Nat.add_comm 1 j] at hrest

/-- Where the check of a tree succeeds every selector is in order. -/
theorem usable_of_validateAt (h : validateAt path config = .ok ())
    {place : List Nat} {node : SelectorConfig}
    (hnode : config.at? place = some node) : node.Usable := by
  induction place generalizing path config with
  | nil =>
      cases hnode
      have hspec := flawAt_spec path node
      rw [validateAt_eq] at h
      cases hflaw : flawAt path node with
      | none => rwa [hflaw] at hspec
      | some e =>
          rw [hflaw] at h
          cases h
  | cons i place ih =>
      obtain ⟨child, hchild, hnode⟩ := at?_cons.1 hnode
      rw [validateAt_eq] at h
      split at h
      · cases h
      · exact ih (validateAll_ok h i child hchild) hnode

/-- Where it fails it reports the first flaw. The induction is on the tree:
what comes before a place inside a child is the root, what is inside an
earlier child, or what comes before it in that child. -/
theorem firstFlaw_of_validateAt (h : validateAt path config = .error e) :
    ∃ place, FirstFlaw path config place e := by
  induction config using children_induction generalizing path with
  | h config ih =>
    have hspec := flawAt_spec path config
    rw [validateAt_eq] at h
    cases hflaw : flawAt path config with
    | some e' =>
        rw [hflaw] at h hspec
        cases h
        exact ⟨[], ⟨config, rfl, hspec⟩, fun earlier node hearlier =>
          absurd hearlier (List.not_lt_nil earlier)⟩
    | none =>
        rw [hflaw] at h hspec
        obtain ⟨i, d, hd, herror, hbefore⟩ := validateAll_error h
        rw [Nat.zero_add] at herror
        obtain ⟨place, ⟨node, hnode, hreport⟩, hfirst⟩ :=
          ih d (List.mem_of_getElem? hd) herror
        refine ⟨i :: place, ⟨node, at?_cons.2 ⟨d, hd, hnode⟩, hreport⟩, ?_⟩
        intro earlier other hearlier hother
        cases earlier with
        | nil =>
            cases hother
            exact hspec
        | cons j earlier =>
            obtain ⟨d', hd', hother⟩ := at?_cons.1 hother
            rcases List.cons_lt_cons_iff.1 hearlier with hj | ⟨rfl, hbelow⟩
            · exact usable_of_validateAt (hbefore j hj d' hd') hother
            · cases hd.symm.trans hd'
              exact hfirst earlier other hbelow hother

/-- A tree has one first flaw. -/
theorem FirstFlaw.unique {place other : List Nat} {e' : ConfigError}
    (h : FirstFlaw path config place e) (g : FirstFlaw path config other e') :
    e = e' := by
  obtain ⟨⟨node, hnode, hflaw⟩, hfirst⟩ := h
  obtain ⟨⟨node', hnode', hflaw'⟩, hfirst'⟩ := g
  rcases lt_trichotomy place other with hlt | rfl | hlt
  · exact absurd (hfirst' place node hlt hnode) hflaw.not_usable
  · cases hnode.symm.trans hnode'
    exact hflaw.unique hflaw'
  · exact absurd (hfirst other node' hlt hnode') hflaw'.not_usable

/-- The check of a tree succeeds exactly if every selector in it is in order.
Otherwise it reports the first flaw, under the path to the place where that
is, and no other place has this path. -/
theorem validate_exact (config : SelectorConfig) :
    (config.validate = .ok () ↔ ∀ place node, config.at? place = some node →
      node.Usable) ∧
    (∀ e, config.validate = .error e ↔
      ∃ place, FirstFlaw config.kind config place e) ∧
    (∀ place e, FirstFlaw config.kind config place e →
      e.path? = some (pathTo config.kind place)) ∧
    ∀ place other, pathTo config.kind place = pathTo config.kind other ↔
      place = other := by
  have hfails (e : ConfigError) (h : config.validate = .error e) :
      ∃ place, FirstFlaw config.kind config place e := firstFlaw_of_validateAt h
  refine ⟨⟨fun h place node hnode => usable_of_validateAt h hnode, fun h => ?_⟩,
    fun e => ⟨hfails e, ?_⟩, ?_, fun place other => pathTo_inj⟩
  · cases hresult : config.validate with
    | ok => rfl
    | error e =>
        obtain ⟨place, ⟨node, hnode, hflaw⟩, -⟩ := hfails e hresult
        exact absurd (h place node hnode) hflaw.not_usable
  · intro hflawed
    rcases hflawed with ⟨place, hfirst⟩
    cases hresult : config.validate with
    | ok =>
        obtain ⟨node, hnode, hflaw⟩ := hfirst.flaw
        exact absurd (usable_of_validateAt hresult hnode) hflaw.not_usable
    | error e' =>
        obtain ⟨place', hfirst'⟩ := hfails e' hresult
        rw [hfirst.unique hfirst']
  · rintro place e ⟨⟨node, -, hflaw⟩, -⟩
    exact hflaw.path_eq

end SelectorConfig

end PlanSearch
