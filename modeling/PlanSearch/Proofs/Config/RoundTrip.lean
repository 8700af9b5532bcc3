/-
Selector trees survive being written and read back.

A tree is read from the document written for it as soon as its counts are
counts of 64 bits (`read_document`); that its weights are finite is what
makes this document a JSON value, since other numbers would be written as
null. Both hold of every tree that was read from JSON, so what is written
for one of those is read as the same tree (`json_roundTrip`). The written
form has the fields of each kind, each at most once, and holds no null:
unknown fields and nulls of the document that was read first are gone.

A tree is followed twice, once by its selectors, of which each was read
from some part of the document (`read_occurs`), and once by its document,
of which everything but a weight is written the same for every tree
(`all_document`).
-/
import PlanSearch.Proofs.Config.Fields
import PlanSearch.Proofs.Config.Inherit

namespace PlanSearch

namespace SelectorConfig

open ConfigReader

-- ===================================================== trees that can be kept

/-- The counts of a selector without its children. -/
def counts : SelectorConfig → List (Option Nat)
  | leaf common settings => common.limit :: settings.counts
  | union common _ _ | product common _ _ => [common.limit]

/-- Every weight of a tree is finite. -/
def FiniteWeights (c : SelectorConfig) : Prop :=
  ∀ x, Occurs c x → ∀ w, x.common.weight = some w → w.isFinite = true

/-- Every count of a tree is one of 64 bits. -/
def CountsFit (c : SelectorConfig) : Prop := ∀ x, Occurs c x → Fit x.counts

theorem CountsFit.child {c d : SelectorConfig} (h : c.CountsFit)
    (hd : d ∈ c.children) : d.CountsFit := (forall_occurs_iff.1 h).2 d hd

/-- The limit of a selector is one of its counts. -/
theorem CountsFit.limit {c : SelectorConfig} (h : c.CountsFit) :
    Fit [c.common.limit] := by
  intro n hn
  refine h c (.root c) n ?_
  cases c <;> simp_all [counts, common]

/-- No field of a kind is a common one. -/
theorem common_back (kind : String) {back : Entries}
    (h : KeysOf (fieldsOf kind) back) :
    ∀ key ∈ commonFields, under key back = [] :=
  fun key hkey => h.under_eq_nil fun hmem =>
    fieldsOf_disjoint kind key hmem (List.mem_cons_of_mem _ hkey)

/-- The fields of a kind are not found among the common ones. -/
theorem kind_front (kind : String) (d : Document) (c : CommonSettings) :
    ∀ key ∈ fieldsOf kind, under key (("type", d) :: c.entries) = [] := by
  intro key hkey
  have hnot := fieldsOf_disjoint kind key hkey
  have hkeys : KeysOf ("type" :: commonFields) (("type", d) :: c.entries) :=
    (keysOf_common c).cons_cons "type"
  exact hkeys.under_eq_nil hnot

/-- Children are read past everything before them. -/
theorem children?_skip {numbered : Bool} {front : Entries}
    (h : "selectors" ∉ front.map Prod.fst) (back : Entries) :
    children? numbered (front ++ back) = children? numbered back := by
  induction front with
  | nil => rfl
  | cons e rest ih =>
    obtain ⟨key, d⟩ := e
    simp only [List.map_cons, List.mem_cons, not_or] at h
    rw [List.cons_append, children?]
    · exact ih h.2
    · intro items hkey
      exact absurd (Prod.mk.inj hkey).1.symm h.1
    · intro d hkey
      exact absurd (Prod.mk.inj hkey).1.symm h.1

/-- A selector is read from its kind, its common settings and what its kind
has besides. -/
theorem entry?_kind {kind : String} {rest : Entries}
    (h : "type" ∉ rest.map Prod.fst) :
    entry? "type" (("type", .text kind) :: rest)
      = some (some (.text kind)) := by
  rw [entry?_eq, under_cons, if_pos (beq_self_eq_true _),
    ConfigReader.under_eq_nil h]

/-- The kind is not among what follows it. -/
theorem type_notMem {kind : String} (c : CommonSettings) {back : Entries}
    (h : KeysOf (fieldsOf kind) back) :
    "type" ∉ (c.entries ++ back).map Prod.fst := by
  intro hmem
  rw [List.map_append, List.mem_append] at hmem
  obtain hmem | hmem := hmem
  · exact absurd ((keysOf_common c).subset hmem) (by decide)
  · exact fieldsOf_disjoint kind _ (h.subset hmem) List.mem_cons_self

/-- The kind of a leaf is one that is read. -/
theorem kind_mem_kinds (settings : LeafConfig) : settings.kind ∈ kinds := by
  cases settings <;> simp [LeafConfig.kind, kinds]

/-- A kind is read from its name. -/
theorem kind?_text (numbered : Bool) {kind : String} (h : kind ∈ kinds) :
    kind? numbered (.text kind) = some kind :=
  if_pos (List.contains_iff_mem.2 h)

/-- A leaf reads back if its counts are counts. -/
theorem leaf_read {numbered inner : Bool} {common : CommonSettings}
    {settings : LeafConfig} (hlimit : Fit [common.limit])
    (hcounts : Fit settings.counts) :
    selector? numbered inner (leaf common settings).document
      = some (leaf common settings) := by
  have hkeys := keysOf_leaf settings
  have hcommon : common?
      (("type", .text settings.kind) :: (common.entries ++ settings.entries))
      = some common := common?_written (common_back settings.kind hkeys) hlimit
  have hleaf : leaf? settings.kind
      (("type", .text settings.kind) :: (common.entries ++ settings.entries))
          = some settings :=
    @leaf?_written (("type", .text settings.kind) :: common.entries) settings
      (kind_front settings.kind _ common) hcounts
  have htype := @entry?_kind settings.kind _ (type_notMem common hkeys)
  have hkind := kind?_text (numbered && inner) (kind_mem_kinds settings)
  rw [document, selector?]
  simp only [List.cons_append, htype, hcommon, hkind, Option.bind_eq_bind,
    Option.bind_some]
  split
  · rename_i h
    exact absurd h (kind_leaf_ne settings).1
  · rename_i h
    exact absurd h (kind_leaf_ne settings).2
  · rw [hleaf]
    rfl

/-- The children of a composite are read from the one entry that lists them. -/
theorem children?_written {numbered : Bool} {front back : Entries}
    {items : List Document} (hfront : "selectors" ∉ front.map Prod.fst)
    (hback : "selectors" ∉ back.map Prod.fst) :
    children? numbered (front ++ ("selectors", .list items) :: back)
      = selectors? numbered items := by
  have hno : (back.any fun e => e.1 == "selectors") = false :=
    List.any_eq_false.2 fun e he hkey =>
      hback (beq_iff_eq.1 hkey ▸ List.mem_map_of_mem he)
  rw [children?_skip hfront, children?,
    if_neg (by rw [hno]; exact Bool.false_ne_true)]

/-- The table of a composite, as far as its children go. -/
def compositeEntries (kind : String) (common : CommonSettings)
    (items : List Document) (tail : Entries) : Entries :=
  ("type", .text kind) :: common.entries ++ ("selectors", .list items) :: tail

section Composite

variable {numbered : Bool} {kind key : String} {common : CommonSettings}
  {items : List Document} {tail : Entries}

/-- The kind of a written composite is read. -/
theorem composite_kind
    (h : KeysOf (fieldsOf kind) (("selectors", .list items) :: tail)) :
    entry? "type" (compositeEntries kind common items tail)
      = some (some (.text kind)) :=
  entry?_kind (type_notMem common h)

/-- The common settings of a written composite are read. -/
theorem composite_common
    (h : KeysOf (fieldsOf kind) (("selectors", .list items) :: tail))
    (hlimit : Fit [common.limit]) :
    common? (compositeEntries kind common items tail) = some common :=
  common?_written (common_back kind h) hlimit

/-- The children of a written composite are read. -/
theorem composite_children
    (h : KeysOf (fieldsOf kind) (("selectors", .list items) :: tail)) :
    children? numbered (compositeEntries kind common items tail)
      = selectors? numbered items := by
  have hfront : "selectors"
      ∉ (("type", Document.text kind) :: common.entries).map Prod.fst :=
    fun h => absurd (((keysOf_common common).cons_cons "type").subset h)
      (by decide)
  have hnodup : (("selectors", Document.list items) :: tail).map
      Prod.fst |>.Nodup :=
    h.nodup (fieldsOf_nodup kind)
  exact children?_written hfront (List.nodup_cons.1 hnodup).1

/-- The last field of a composite is found behind its children. -/
theorem composite_under (hkey : key ∈ fieldsOf kind) (hne : key ≠ "selectors") :
    under key (compositeEntries kind common items tail) = under key tail := by
  rw [compositeEntries, under_append,
    kind_front kind _ common key hkey, under_cons, if_neg fun h =>
    hne (beq_iff_eq.1 h).symm]
  rfl

end Composite

mutual

/-- A tree whose counts fit is read from its document. -/
theorem read_document (numbered inner : Bool) :
    ∀ {c : SelectorConfig}, c.CountsFit →
      selector? numbered inner c.document = some c
  | leaf common settings, h =>
    leaf_read h.limit fun n hn => h _ (.root _) n (List.mem_cons_of_mem _ hn)
  | union common children weightFactory, h => by
    have hkeys : KeysOf (fieldsOf "union")
        (("selectors", .list (documents children)) ::
        textEntry "selector_probability_weight_factory" weightFactory) :=
      (keysOf_entryOf ..).cons_cons _
    have hchildren : selectors? numbered (documents children) = some children :=
      read_documents numbered fun d hd => h.child hd
    have hfactory : field? text? "selector_probability_weight_factory"
        (compositeEntries "union" common (documents children)
          (textEntry "selector_probability_weight_factory" weightFactory))
              = some weightFactory :=
      text?_written ((composite_under (by decide) (by decide)).trans (by simp))
    have hkind := kind?_text (numbered && inner)
      (show "union" ∈ kinds by decide)
    have hlimit : Fit [common.limit] := h.limit
    show selector? numbered inner
      (.table (compositeEntries "union" common _ _)) = _
    simp only [selector?, composite_kind hkeys,
      composite_common hkeys hlimit, hkind, composite_children hkeys, hchildren,
      hfactory, Option.bind_eq_bind, Option.bind_some]
    rfl
  | product common children ignoreEmpty, h => by
    have hkeys : KeysOf (fieldsOf "cartesian_product")
        (("selectors", .list (documents children)) ::
        flagEntry "ignore_empty_child_iterators" ignoreEmpty) :=
      (keysOf_entryOf ..).cons_cons _
    have hchildren : selectors? numbered (documents children) = some children :=
      read_documents numbered fun d hd => h.child hd
    have hignore : field? flag? "ignore_empty_child_iterators"
        (compositeEntries "cartesian_product" common (documents children)
          (flagEntry "ignore_empty_child_iterators" ignoreEmpty))
              = some ignoreEmpty :=
      flag?_written ((composite_under (by decide) (by decide)).trans (by simp))
    have hkind := kind?_text (numbered && inner) (show "cartesian_product"
      ∈ kinds by decide)
    have hlimit : Fit [common.limit] := h.limit
    show selector? numbered inner
      (.table (compositeEntries "cartesian_product" common _ _)) = _
    simp only [selector?, composite_kind hkeys,
      composite_common hkeys hlimit, hkind, composite_children hkeys, hchildren,
      hignore, Option.bind_eq_bind, Option.bind_some]
    rfl

/-- Children read back one by one. -/
theorem read_documents (numbered : Bool) : ∀ {cs : List SelectorConfig},
    (∀ c ∈ cs, c.CountsFit) → selectors? numbered (documents cs) = some cs
  | [], _ => rfl
  | c :: rest, h => by
    rw [documents, selectors?,
      read_document numbered true (h c List.mem_cons_self),
      read_documents numbered fun d hd => h d (List.mem_cons_of_mem c hd)]
    rfl

end

-- ============================================================= what is written

section Values

variable {P : Document → Prop}

/-- What holds throughout a setting that is given holds throughout its
entry. -/
theorem all_entryOf {α : Type} {key : String} {write : α → Document}
    {v : Option α} (h : ∀ a, v = some a → Document.All P (write a)) :
    ∀ e ∈ entryOf key write v, Document.All P e.2 := by
  intro e he
  obtain ⟨a, hv, rfl⟩ := mem_entryOf.1 he
  exact h a hv

variable (hplain : ∀ d, d ≠ .null → (∀ x, d ≠ .float x) → P d)

include hplain

/-- Texts, flags and whole numbers have nothing else in them. -/
theorem all_plain {d : Document} (hnull : d ≠ .null)
    (hfloat : ∀ x, d ≠ .float x) (hlist : ∀ items, d ≠ .list items)
    (htable : ∀ entries, d ≠ .table entries) : Document.All P d :=
  Document.all_atom hlist htable (hplain d hnull hfloat)

theorem all_textEntry (key : String) (v : Option String) :
    ∀ e ∈ textEntry key v, Document.All P e.2 :=
  all_entryOf fun _ _ => all_plain hplain nofun nofun nofun nofun

theorem all_countEntry (key : String) (v : Option Nat) :
    ∀ e ∈ countEntry key v, Document.All P e.2 :=
  all_entryOf fun _ _ => all_plain hplain nofun nofun nofun nofun

theorem all_flagEntry (key : String) (v : Option Bool) :
    ∀ e ∈ flagEntry key v, Document.All P e.2 :=
  all_entryOf fun _ _ => all_plain hplain nofun nofun nofun nofun

/-- What holds throughout all entries holds throughout the table, itself no
number and not nothing. -/
theorem all_table_entries {entries : Entries}
    (h : ∀ e ∈ entries, Document.All P e.2) : Document.All P (.table entries) :=
  Document.all_table.2 ⟨hplain _ nofun nofun, h⟩

/-- What holds throughout all items holds throughout the list. -/
theorem all_list_items {items : List Document}
    (h : ∀ d ∈ items, Document.All P d) : Document.All P (.list items) :=
  Document.all_list.2 ⟨hplain _ nofun nofun, h⟩

theorem all_namesEntry (key : String) (names : List String) :
    ∀ e ∈ namesEntry key names, Document.All P e.2 := by
  intro e he
  unfold namesEntry at he
  split at he
  · cases he
  · obtain rfl := List.mem_singleton.1 he
    refine all_list_items hplain fun d hd => ?_
    obtain ⟨name, -, rfl⟩ := List.mem_map.1 hd
    exact all_plain hplain nofun nofun nofun nofun

/-- Nothing in the settings of pillars is null or a fraction. -/
theorem all_subPillar (s : SubPillarSettings) : Document.All P s.document :=
  all_table_entries hplain (List.forall_mem_append.2 ⟨List.forall_mem_append.2
    ⟨all_flagEntry hplain _ _, all_countEntry hplain _ _⟩,
      all_countEntry hplain _ _⟩)

/-- The weight is all that can be a fraction among the common settings. -/
theorem all_commonEntries {c : CommonSettings}
    (hweight : ∀ w, c.weight = some w → P (.float w)) :
    ∀ e ∈ c.entries, Document.All P e.2 := by
  simp only [CommonSettings.entries, List.forall_mem_append]
  refine ⟨⟨⟨all_textEntry hplain _ _, all_entryOf fun _ _ => ?_⟩,
    all_entryOf fun w hw => ?_⟩, all_countEntry hplain _ _⟩
  · exact all_plain hplain (by simp) (by simp) (by simp) (by simp)
  · exact Document.all_atom (by simp) (by simp) (hweight w hw)

/-- Nothing in the settings of a leaf is null or a fraction. -/
theorem all_leafEntries (settings : LeafConfig) :
    ∀ e ∈ settings.entries, Document.All P e.2 := by
  have hsub (sub : Option SubPillarSettings) :
      ∀ e ∈ entryOf "sub_pillar" SubPillarSettings.document sub,
          Document.All P e.2 :=
    all_entryOf fun s _ => all_subPillar hplain s
  cases settings <;>
    simp only [LeafConfig.entries, SegmentSettings.entries,
      List.forall_mem_append]
  case change => exact ⟨all_textEntry hplain _ _, all_textEntry hplain _ _⟩
  case swap => exact ⟨all_textEntry hplain _ _, all_namesEntry hplain _ _⟩
  case pillarChange =>
    exact ⟨⟨all_textEntry hplain _ _, hsub _⟩, all_textEntry hplain _ _⟩
  case pillarSwap =>
    exact ⟨⟨all_textEntry hplain _ _, hsub _⟩, all_namesEntry hplain _ _⟩
  case segmentChange | segmentSwap =>
    exact ⟨⟨⟨all_textEntry hplain _ _, all_countEntry hplain _ _⟩,
      all_countEntry hplain _ _⟩, all_flagEntry hplain _ _⟩
  case tailSwap | moveList | moveSource => exact all_textEntry hplain _ _

end Values

mutual

/-- A document of a tree holds no null, and its numbers are counts and the
weights of the tree. -/
theorem all_document {P : Document → Prop}
    (hplain : ∀ d, d ≠ .null → (∀ x, d ≠ .float x) → P d) :
    ∀ {c : SelectorConfig}, (∀ x, Occurs c x → ∀ w, x.common.weight = some w →
      P (.float w)) → Document.All P c.document
  | leaf common settings, h => by
    refine all_table_entries hplain
      (List.forall_mem_cons.2 ⟨?_, List.forall_mem_append.2 ⟨?_, ?_⟩⟩)
    · exact all_plain hplain nofun nofun nofun nofun
    · exact all_commonEntries hplain (h _ (.root _))
    · exact all_leafEntries hplain settings
  | union common children weightFactory, h => by
    refine all_table_entries hplain
      (List.forall_mem_cons.2 ⟨?_, List.forall_mem_append.2 ⟨?_,
      List.forall_mem_cons.2 ⟨?_, all_textEntry hplain _ _⟩⟩⟩)
    · exact all_plain hplain nofun nofun nofun nofun
    · exact all_commonEntries hplain (h _ (.root _))
    · exact all_list_items hplain (all_documents hplain fun d hd x hx =>
        h x (.inside hd hx))
  | product common children ignoreEmpty, h => by
    refine all_table_entries hplain
      (List.forall_mem_cons.2 ⟨?_, List.forall_mem_append.2 ⟨?_,
      List.forall_mem_cons.2 ⟨?_, all_flagEntry hplain _ _⟩⟩⟩)
    · exact all_plain hplain nofun nofun nofun nofun
    · exact all_commonEntries hplain (h _ (.root _))
    · exact all_list_items hplain (all_documents hplain fun d hd x hx =>
        h x (.inside hd hx))

/-- What holds of all but null and of the weights of the children holds
throughout their documents. -/
theorem all_documents {P : Document → Prop}
    (hplain : ∀ d, d ≠ .null → (∀ x, d ≠ .float x) → P d) :
    ∀ {cs : List SelectorConfig},
      (∀ d ∈ cs, ∀ x, Occurs d x → ∀ w, x.common.weight = some w →
        P (.float w)) →
    ∀ d ∈ documents cs, Document.All P d
  | [], _ => nofun
  | c :: _, h =>
      List.forall_mem_cons.2 ⟨all_document hplain (h c List.mem_cons_self),
      all_documents hplain fun d hd => h d (List.mem_cons_of_mem c hd)⟩

end

-- ================================================================ what is read

/-- Children that were read stand in the list of a table's entry. -/
theorem mem_of_children? {numbered : Bool} {entries : Entries}
    {cs : List SelectorConfig} (h : children? numbered entries = some cs) :
    cs = [] ∨
      ∃ items, ("selectors", .list items) ∈ entries ∧ selectors? numbered items
        = some cs := by
  induction entries with
  | nil =>
    rw [children?] at h
    exact .inl (Option.some.inj h).symm
  | cons e rest ih =>
    unfold children? at h
    split at h
    · rename_i heq
      cases heq
    · rename_i items rest' heq
      obtain ⟨rfl, rfl⟩ := List.cons.inj heq
      split at h
      · cases h
      · exact .inr ⟨items, List.mem_cons_self, h⟩
    · cases h
    · rename_i heq
      obtain ⟨rfl, rfl⟩ := List.cons.inj heq
      obtain h | ⟨items, hmem, h⟩ := ih h
      · exact .inl h
      · exact .inr ⟨items, List.mem_cons_of_mem _ hmem, h⟩

/-- Each child was read from one of the items. -/
theorem mem_of_selectors? {numbered : Bool} {items : List Document}
    {cs : List SelectorConfig} (h : selectors? numbered items = some cs) :
    ∀ c ∈ cs, ∃ d ∈ items, selector? numbered true d = some c := by
  induction items generalizing cs with
  | nil =>
    rw [selectors?] at h
    obtain rfl := Option.some.inj h
    exact nofun
  | cons d rest ih =>
    rw [selectors?] at h
    simp only [Option.bind_eq_bind, Option.bind_eq_some_iff] at h
    obtain ⟨c, hc, cs', hcs, h⟩ := h
    obtain rfl := Option.some.inj h
    refine List.forall_mem_cons.2 ⟨⟨d, List.mem_cons_self, hc⟩,
      fun c' hc' => ?_⟩
    obtain ⟨d', hd', h'⟩ := ih hcs c' hc'
    exact ⟨d', List.mem_cons_of_mem _ hd', h'⟩

/-- Each child was read from something that stands in the table. -/
theorem holds_of_children? {numbered : Bool} {entries : Entries}
    {cs : List SelectorConfig} (h : children? numbered entries = some cs) :
    ∀ c ∈ cs, ∃ d,
      (Document.table entries).Holds d ∧ selector? numbered true d
        = some c := by
  obtain rfl | ⟨items, hitems, h⟩ := mem_of_children? h
  · exact nofun
  · intro c hc
    obtain ⟨d, hd, hread⟩ := mem_of_selectors? h c hc
    exact ⟨d, .entry hitems (.item hd (.self d)), hread⟩

/-- What a selector that was read from JSON has by itself, and where its
children were read from. -/
theorem read_root {numbered inner : Bool} {d : Document} {c : SelectorConfig}
    (hjson : d.IsJson) (h : selector? numbered inner d = some c) :
    (∀ w, c.common.weight = some w → w.isFinite = true) ∧ Fit c.counts ∧
      ∀ child ∈ c.children, ∃ x, d.Holds x ∧ selector? numbered true x
        = some child := by
  unfold selector? at h
  split at h
  · simp only [Option.bind_eq_bind, Option.bind_eq_some_iff] at h
    obtain ⟨_, -, _, -, kind, -, common, hcommon, h⟩ := h
    obtain ⟨hweight, hlimit⟩ := common?_settings hcommon hjson
    split at h
    · obtain ⟨children, hchildren, h⟩ := Option.bind_eq_some_iff.1 h
      obtain ⟨factory, -, h⟩ := Option.bind_eq_some_iff.1 h
      obtain rfl := Option.some.inj h
      exact ⟨hweight, hlimit, holds_of_children? hchildren⟩
    · obtain ⟨children, hchildren, h⟩ := Option.bind_eq_some_iff.1 h
      obtain ⟨ignoreEmpty, -, h⟩ := Option.bind_eq_some_iff.1 h
      obtain rfl := Option.some.inj h
      exact ⟨hweight, hlimit, holds_of_children? hchildren⟩
    · obtain ⟨settings, hsettings, h⟩ := Option.bind_eq_some_iff.1 h
      obtain rfl := Option.some.inj h
      refine ⟨hweight, fun n hn => ?_, nofun⟩
      obtain hn | hn := List.mem_cons.1 hn
      · exact hlimit n (List.mem_singleton.2 hn)
      · exact leaf?_fit hsettings n hn
  · cases h

/-- Every selector of a tree that was read was read itself. -/
theorem read_occurs {c x : SelectorConfig} (hx : Occurs c x)
    {numbered inner : Bool} {d : Document} (hjson : d.IsJson)
    (h : selector? numbered inner d = some c) :
    ∃ inner' d', d.Holds d' ∧ selector? numbered inner' d' = some x := by
  induction hx generalizing inner d with
  | root c => exact ⟨inner, d, .self d, h⟩
  | inside hd _ ih =>
    obtain ⟨y, hy, hread⟩ := (read_root hjson h).2.2 _ hd
    obtain ⟨inner', z, hz, hlast⟩ := ih (hjson.of_holds hy) hread
    exact ⟨inner', z, hy.trans hz, hlast⟩

/-- A tree that was read from JSON has finite weights, and its counts fit. -/
theorem read_fits {numbered inner : Bool} {d : Document} {c : SelectorConfig}
    (hjson : d.IsJson) (h : selector? numbered inner d = some c) :
    c.FiniteWeights ∧ c.CountsFit := by
  have hown : ∀ x, Occurs c x →
      (∀ w, x.common.weight = some w → w.isFinite = true) ∧ Fit x.counts := by
    intro x hx
    obtain ⟨inner', y, hy, hread⟩ := read_occurs hx hjson h
    obtain ⟨hweight, hcounts, -⟩ := read_root (hjson.of_holds hy) hread
    exact ⟨hweight, hcounts⟩
  exact ⟨fun x hx => (hown x hx).1, fun x hx => (hown x hx).2⟩

-- ================================================================= round trips

/-- A written selector: its table has known fields of its kind and no others,
each at most once, and so have the tables in it. -/
inductive Tidy : Document → Prop
  | table {kind : String} {entries : Entries}
      (hkind : ("type", .text kind) ∈ entries)
      (hkeys : KeysOf ("type" :: (commonFields ++ fieldsOf kind)) entries)
      (hsub : ∀ d, ("sub_pillar", d) ∈ entries →
        ∃ settings, d = .table settings ∧ KeysOf subPillarFields settings)
      (hchildren : ∀ items, ("selectors", .list items) ∈ entries →
        ∀ d ∈ items, Tidy d) :
      Tidy (.table entries)

/-- Settings of pillars stand in a leaf as a table of their own. -/
theorem sub_of_mem {settings : LeafConfig} {d : Document}
    (h : ("sub_pillar", d) ∈ settings.entries) :
    ∃ entries, d = .table entries ∧ KeysOf subPillarFields entries := by
  have hsub (sub : Option SubPillarSettings)
      (h : ("sub_pillar", d)
        ∈ entryOf "sub_pillar" SubPillarSettings.document sub) :
      ∃ entries, d = .table entries ∧ KeysOf subPillarFields entries := by
    obtain ⟨s, -, heq⟩ := mem_entryOf.1 h
    obtain rfl := (Prod.mk.inj heq).2
    exact keysOf_subPillar s
  have hkey := (keysOf_leaf settings).mem h
  cases settings with
  | pillarChange entityClass sub variableName =>
    obtain h | h := List.mem_append.1 h
    · obtain h | h := List.mem_append.1 h
      · exact absurd ((keysOf_entryOf ..).mem h) (by decide)
      · exact hsub sub h
    · exact absurd ((keysOf_entryOf ..).mem h) (by decide)
  | pillarSwap entityClass sub variableNames =>
    obtain h | h := List.mem_append.1 h
    · obtain h | h := List.mem_append.1 h
      · exact absurd ((keysOf_entryOf ..).mem h) (by decide)
      · exact hsub sub h
    · exact absurd ((keysOf_namesEntry ..).mem h) (by decide)
  | _ => exact absurd hkey (by simp [LeafConfig.kind, fieldsOf])

/-- The table of a composite is tidy if its children are. -/
theorem tidy_composite {kind : String} {common : CommonSettings}
    {items : List Document} {tail : Entries}
    (hkeys : KeysOf (fieldsOf kind) (("selectors", .list items) :: tail))
    (hsub : "sub_pillar" ∉ fieldsOf kind) (hitems : ∀ d ∈ items, Tidy d) :
    Tidy (.table (compositeEntries kind common items tail)) := by
  have hfront : KeysOf ("type" :: commonFields)
      (("type", .text kind) :: common.entries) :=
    (keysOf_common common).cons_cons "type"
  have hall := hfront.append hkeys
  refine .table List.mem_cons_self hall (fun d hd => ?_) fun listed hd => ?_
  · obtain hd | hd := List.mem_append.1 hd
    · exact absurd (hfront.mem hd) (by decide)
    · exact absurd (hkeys.mem hd) hsub
  · -- the keys are distinct, so the list is the one of the children
    obtain hd | hd := List.mem_append.1 hd
    · exact absurd (hfront.mem hd) (by decide)
    · obtain heq | htail := List.mem_cons.1 hd
      · obtain rfl := Document.list.inj (Prod.mk.inj heq).2
        exact hitems
      · exact absurd (List.mem_map_of_mem htail)
          (List.nodup_cons.1 (hkeys.nodup (fieldsOf_nodup kind))).1

mutual

/-- Every selector is written as a tidy document. -/
theorem tidy_document : ∀ c : SelectorConfig, Tidy c.document
  | leaf common settings => by
    have hfront : KeysOf ("type" :: commonFields)
        (("type", .text settings.kind) ::
        common.entries) := (keysOf_common common).cons_cons "type"
    refine .table List.mem_cons_self (hfront.append (keysOf_leaf settings))
      (fun d hd => ?_)
      fun listed hd => ?_
    · obtain hd | hd := List.mem_append.1 hd
      · exact absurd (hfront.mem hd) (by decide)
      · exact sub_of_mem hd
    · obtain hd | hd := List.mem_append.1 hd
      · exact absurd (hfront.mem hd) (by decide)
      · have hkey := (keysOf_leaf settings).mem hd
        cases settings <;> simp [LeafConfig.kind, fieldsOf] at hkey
  | union common children weightFactory =>
    @tidy_composite "union" common _ _
      ((keysOf_entryOf ..).cons_cons _) (by decide)
      (tidy_documents children)
  | product common children ignoreEmpty =>
    @tidy_composite "cartesian_product" common _ _
      ((keysOf_entryOf ..).cons_cons _) (by decide)
      (tidy_documents children)

theorem tidy_documents : ∀ cs : List SelectorConfig, ∀ d ∈ documents cs, Tidy d
  | [] => nofun
  | c :: rest => List.forall_mem_cons.2 ⟨tidy_document c, tidy_documents rest⟩

end

/-- A document of finite weights is JSON. -/
theorem isJson_document {c : SelectorConfig} (h : c.FiniteWeights) :
    c.document.IsJson := by
  have hall : Document.All (fun d => ∀ x, d = .float x →
      x.isFinite = true) c.document := by
    refine all_document (fun d _ hd x hx => absurd hx (hd x))
      fun y hy w hw x hx => ?_
    obtain rfl := Document.float.inj hx
    exact h y hy w hw
  exact fun x hx => hall _ hx x rfl

/-- Nothing is written as null. -/
theorem null_notHeld (c : SelectorConfig) : ¬ c.document.Holds .null := fun h =>
  all_document (P := (· ≠ .null)) (fun _ hd _ => hd)
    (fun _ _ _ _ => nofun) _ h rfl

/-- Selector trees survive being written and read back. A tree of finite
weights is read from the JSON value written for it; and what is written for
a tree that was read from any JSON value is read as the same tree, has the
known fields of each kind and no others, and holds no null. -/
theorem json_roundTrip :
    (∀ c : SelectorConfig, c.FiniteWeights → c.CountsFit →
      ofDocument? c.document.json = some c) ∧
    ∀ (d : Document) (c : SelectorConfig), d.IsJson → ofDocument? d = some c →
      ofDocument? c.document.json = some c ∧ Tidy c.document.json ∧
        ¬ c.document.json.Holds .null := by
  have hwritten {c : SelectorConfig} (hweights : c.FiniteWeights)
      (hcounts : c.CountsFit) :
      ofDocument? c.document.json = some c := by
    rw [(isJson_document hweights).json_eq]
    exact read_document true false hcounts
  refine ⟨fun c => hwritten, fun d c hjson hread => ?_⟩
  obtain ⟨hweights, hcounts⟩ := read_fits hjson hread
  refine ⟨hwritten hweights hcounts, ?_⟩
  rw [(isJson_document hweights).json_eq]
  exact ⟨tidy_document c, null_notHeld c⟩

/-- A union with an integer for its weight, a null, a field that no selector
has, and a child that gives the number of its kind and a record as a list. -/
def roughUnion : Document :=
  .table [("note", .text "x"), ("fixed_probability_weight", .int 2),
    ("selected_count_limit", .null),
      ("selectors", .list
      [.table [("type", .int 2),
        ("sub_pillar", .list [.bool true, .int 2, .null]),
        ("variable_names", .null)]]),
    ("type", .text "union")]

/-- The tree that it stands for. -/
def plainUnion : SelectorConfig :=
  .union ⟨none, none, some (.ofInt 2), none⟩
    [.leaf .unset (.pillarChange none (some ⟨some true, some 2, none⟩) none)]
      none

/-- The rough document reads as the plain union. -/
theorem roughUnion_read : ofDocument? roughUnion = some plainUnion := rfl

theorem roughUnion_isJson : roughUnion.IsJson := Document.isJson_iff.2 rfl

/-- The plain union and the rough document that reads as it. -/
theorem json_roundTrip_union :
    plainUnion.FiniteWeights ∧ plainUnion.CountsFit ∧ roughUnion.IsJson ∧
      ofDocument? roughUnion = some plainUnion ∧
      ofDocument? plainUnion.document.json = some plainUnion ∧
      Tidy plainUnion.document.json ∧
      ¬ plainUnion.document.json.Holds .null := by
  obtain ⟨hweights, hcounts⟩ := read_fits roughUnion_isJson roughUnion_read
  exact ⟨hweights, hcounts, roughUnion_isJson, roughUnion_read,
    json_roundTrip.1 plainUnion hweights hcounts,
    (json_roundTrip.2 roughUnion plainUnion roughUnion_isJson
      roughUnion_read).2⟩

end SelectorConfig

end PlanSearch
