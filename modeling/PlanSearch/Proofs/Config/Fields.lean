/-
The fields of a selector's table, written and read.

What is written for a field is read back by the reader of that field, as
long as no other entry has its key (`field?_written`). So each record
needs its keys to be distinct and to be those that its reader asks for;
`KeysOf` says that of the entries written for it, and `fieldsOf` lists the
keys of each kind.

The other way round, a value that was read stands under its key
(`mem_of_field?`). Of a count this tells that it has 64 bits, and of a
weight that it is finite, since JSON has no other numbers and the nearest
double to an integer of 64 bits is finite.
-/
import PlanSearch.Config.Reading
import PlanSearch.Proofs.Decimal.Whole
import PlanSearch.Proofs.Document

namespace PlanSearch

/-- The counts among the settings of a leaf. -/
def LeafConfig.counts : LeafConfig → List (Option Nat)
  | pillarChange _ (some sub) _ | pillarSwap _ (some sub) _ =>
      [sub.minimum, sub.maximum]
  | segmentChange segments | segmentSwap segments =>
      [segments.minimum, segments.maximum]
  | _ => []

namespace ConfigReader

-- ======================================================== entries of one key

variable {α : Type} {read? : Document → Option α} {write : α → Document}
  {key : String}

/-- The entries of a key. -/
def under (key : String) (entries : Entries) : Entries :=
  entries.filter fun e => e.1 == key

/-- What stands under a key in two tables put together. -/
@[simp] theorem under_append (key : String) (front back : Entries) :
    under key (front ++ back) = under key front ++ under key back :=
  List.filter_append ..

@[simp] theorem under_cons (key : String) (entry : String × Document)
    (rest : Entries) : under key (entry :: rest)
      = if entry.1 == key then entry :: under key rest else under key rest :=
  List.filter_cons

@[simp] theorem under_nil (key : String) : under key [] = [] := rfl

/-- A key that no entry has. -/
theorem under_eq_nil {entries : Entries} (h : key ∉ entries.map Prod.fst) :
    under key entries = [] :=
  List.filter_eq_nil_iff.2 fun _ hmem hkey =>
    h (beq_iff_eq.1 hkey ▸ List.mem_map_of_mem hmem)

/-- A setting that may be missing is written under its own key only. -/
@[simp] theorem under_entryOf (key other : String) (write : α → Document)
    (v : Option α) : under key (entryOf other write v) = if other == key
      then entryOf other write v else [] := by
  cases v with
  | none => simp [entryOf, under]
  | some _ => simp only [entryOf, under, List.filter_cons, List.filter_nil]

@[simp] theorem under_textEntry (key other : String) (v : Option String) :
    under key (textEntry other v) = if other == key
      then textEntry other v else [] :=
  under_entryOf ..

@[simp] theorem under_countEntry (key other : String) (v : Option Nat) :
    under key (countEntry other v) = if other == key
      then countEntry other v else [] :=
  under_entryOf ..

@[simp] theorem under_flagEntry (key other : String) (v : Option Bool) :
    under key (flagEntry other v) = if other == key
      then flagEntry other v else [] :=
  under_entryOf ..

/-- Names are written under their own key, or not at all. -/
@[simp] theorem under_namesEntry (key other : String) (names : List String) :
    under key (namesEntry other names) = if other == key
      then namesEntry other names else [] := by
  unfold namesEntry
  split
  · simp [under]
  · simp only [under, List.filter_cons, List.filter_nil]

/-- A field is what stands under its key, as long as that is one thing at
most. -/
theorem entry?_eq {entries : Entries} :
    entry? key entries = match under key entries with
    | [] => some none
    | [e] => some (some e.2)
    | _ => none := rfl

-- ===================================================== reading what is written

/-- A field reads what was written for it, if its key has no other entry. -/
theorem field?_written {entries : Entries} {v : Option α}
    (hentries : under key entries = entryOf key write v)
    (hread : ∀ a, v = some a → read? (write a) = some a)
    (hnull : ∀ a, write a ≠ .null) : field? read? key entries = some v := by
  unfold field?
  rw [entry?_eq, hentries]
  cases v with
  | none => rfl
  | some a =>
    have hoptional : optional? read? (write a) = some (some a) := by
      unfold optional?
      split
      · rename_i h; exact absurd h (hnull a)
      · rw [hread a rfl]; rfl
    exact hoptional

/-- A list of texts reads back. -/
theorem list?_texts (names : List String) :
    list? text? (.list (names.map .text)) = some names := by
  simp only [list?]
  induction names with
  | nil => rfl
  | cons name rest ih => rw [List.map_cons, List.mapM_cons, ih]; rfl

/-- Names that stand under a key read back, also if there are none. -/
theorem names?_written {entries : Entries} {v : List String}
    (hentries : under key entries = namesEntry key v) :
    names? key entries = some v := by
  unfold names?
  rw [entry?_eq, hentries]
  cases v with
  | nil => rfl
  | cons name rest => exact list?_texts (name :: rest)

/-- A text that stands under a key reads back, also if there is none. -/
theorem text?_written {entries : Entries} {v : Option String}
    (hentries : under key entries = textEntry key v) :
    field? text? key entries = some v :=
  field?_written hentries (fun _ _ => rfl) fun _ h => nomatch h

/-- A flag that stands under a key reads back, also if there is none. -/
theorem flag?_written {entries : Entries} {v : Option Bool}
    (hentries : under key entries = flagEntry key v) :
    field? flag? key entries = some v :=
  field?_written hentries (fun _ _ => rfl) fun _ h => nomatch h

/-- A number reads back if it is a count. -/
theorem count?_nat {n : Nat} (h : n < Checked.countLimit) :
    count? (.nat n) = some n := by
  have hfits : (0 : Int) ≤ n ∧ (n : Int).toNat < Checked.countLimit :=
    ⟨Int.natCast_nonneg n, h⟩
  exact if_pos hfits

/-- A number that stands under a key reads back if it is a count. -/
theorem count?_written {entries : Entries} {v : Option Nat}
    (hentries : under key entries = countEntry key v)
    (hfits : ∀ n, v = some n → n < Checked.countLimit) :
    field? count? key entries = some v :=
  field?_written hentries (fun n hn => count?_nat (hfits n hn))
    fun _ h => nomatch h

-- ================================================================ the fields

/-- The fields that every selector has. -/
def commonFields : List String :=
  ["inherit_from", "selection_order", "fixed_probability_weight",
    "selected_count_limit"]

def subPillarFields : List String := ["enabled", "minimum_size", "maximum_size"]

/-- The fields of a kind besides those that every selector has. -/
def fieldsOf : String → List String
  | "change" => ["entity_class", "variable_name"]
  | "swap" => ["entity_class", "variable_names"]
  | "pillar_change" => ["entity_class", "sub_pillar", "variable_name"]
  | "pillar_swap" => ["entity_class", "sub_pillar", "variable_names"]
  | "sub_chain_change" | "sub_chain_swap" =>
    ["variable_name", "minimum_sub_chain_size", "maximum_sub_chain_size",
      "select_reversing_move_too"]
  | "tail_chain_swap" => ["variable_name"]
  | "move_list_factory" | "move_iterator_factory" => ["factory"]
  | "union" => ["selectors", "selector_probability_weight_factory"]
  | "cartesian_product" => ["selectors", "ignore_empty_child_iterators"]
  | _ => []

/-- Every count is one of 64 bits. -/
def Fit (counts : List (Option Nat)) : Prop :=
  ∀ n, some n ∈ counts → n < Checked.countLimit

/-- Settings of pillars read back if their sizes are counts. -/
theorem subPillar?_document {s : SubPillarSettings}
    (h : Fit [s.minimum, s.maximum]) : subPillar? s.document = some s := by
  simp only [SubPillarSettings.document, subPillar?]
  rw [flag?_written (v := s.enabled) (by simp),
    count?_written (v := s.minimum) (by simp) fun n hn => h n (by simp [hn]),
    count?_written (v := s.maximum) (by simp) fun n hn => h n (by simp [hn])]
  rfl

/-- Settings of pillars read back as a field of a table. -/
theorem subPillar?_written {entries : Entries} {v : Option SubPillarSettings}
    (hentries : under "sub_pillar" entries
      = entryOf "sub_pillar" SubPillarSettings.document v)
    (hfits : ∀ s, v = some s → Fit [s.minimum, s.maximum]) :
    field? subPillar? "sub_pillar" entries = some v :=
  field?_written hentries (fun s hs => subPillar?_document (hfits s hs))
    fun _ h => nomatch h

/-- Settings of segments read back behind fields of other names. -/
theorem segments?_written {front : Entries} {s : SegmentSettings}
    (hfront : ∀ key ∈ fieldsOf "sub_chain_change", under key front = [])
    (hfits : Fit [s.minimum, s.maximum]) :
    segments? (front ++ s.entries) = some s := by
  simp only [fieldsOf, List.forall_mem_cons] at hfront
  obtain ⟨hname, hminimum, hmaximum, hreversing, -⟩ := hfront
  simp only [SegmentSettings.entries, segments?]
  rw [text?_written (v := s.variableName) (by simp [hname]),
    count?_written (v := s.minimum) (by simp [hminimum]) fun n hn =>
      hfits n (by simp [hn]),
    count?_written (v := s.maximum) (by simp [hmaximum]) fun n hn =>
      hfits n (by simp [hn]),
    flag?_written (v := s.reversing) (by simp [hreversing])]
  rfl

/-- The settings of a leaf are read back behind entries of other keys. -/
theorem leaf?_written {front : Entries} {settings : LeafConfig}
    (hfront : ∀ key ∈ fieldsOf settings.kind, under key front = [])
    (hfits : Fit settings.counts) :
    leaf? settings.kind (front ++ settings.entries) = some settings := by
  cases settings with
  | change entityClass variableName =>
    simp only [LeafConfig.kind, fieldsOf, List.forall_mem_cons] at hfront
    obtain ⟨hclass, hname, -⟩ := hfront
    simp only [LeafConfig.kind, leaf?, leaf?.entityClass, leaf?.variableName,
      LeafConfig.entries]
    rw [text?_written (v := entityClass) (by simp [hclass]),
      text?_written (v := variableName) (by simp [hname])]
    rfl
  | swap entityClass variableNames =>
    simp only [LeafConfig.kind, fieldsOf, List.forall_mem_cons] at hfront
    obtain ⟨hclass, hnames, -⟩ := hfront
    simp only [LeafConfig.kind, leaf?, leaf?.entityClass, LeafConfig.entries]
    rw [text?_written (v := entityClass) (by simp [hclass]),
      names?_written (v := variableNames) (by simp [hnames])]
    rfl
  | pillarChange entityClass sub variableName =>
    simp only [LeafConfig.kind, fieldsOf, List.forall_mem_cons] at hfront
    obtain ⟨hclass, hsub, hname, -⟩ := hfront
    simp only [LeafConfig.kind, leaf?, leaf?.entityClass, leaf?.sub,
      leaf?.variableName, LeafConfig.entries]
    rw [text?_written (v := entityClass) (by simp [hclass]),
      subPillar?_written (v := sub) (by simp [hsub]) fun s hs => by
        subst hs; exact hfits,
      text?_written (v := variableName) (by simp [hname])]
    rfl
  | pillarSwap entityClass sub variableNames =>
    simp only [LeafConfig.kind, fieldsOf, List.forall_mem_cons] at hfront
    obtain ⟨hclass, hsub, hnames, -⟩ := hfront
    simp only [LeafConfig.kind, leaf?, leaf?.entityClass, leaf?.sub,
      LeafConfig.entries]
    rw [text?_written (v := entityClass) (by simp [hclass]),
      subPillar?_written (v := sub) (by simp [hsub]) fun s hs => by
        subst hs; exact hfits,
      names?_written (v := variableNames) (by simp [hnames])]
    rfl
  | segmentChange segments =>
    simp only [LeafConfig.kind, leaf?, LeafConfig.entries]
    rw [segments?_written hfront hfits]
    rfl
  | segmentSwap segments =>
    simp only [LeafConfig.kind, leaf?, LeafConfig.entries]
    rw [segments?_written hfront hfits]
    rfl
  | tailSwap variableName =>
    simp only [LeafConfig.kind, fieldsOf, List.forall_mem_cons] at hfront
    simp only [LeafConfig.kind, leaf?, leaf?.variableName, LeafConfig.entries]
    rw [text?_written (v := variableName) (by simp [hfront.1])]
    rfl
  | moveList factory =>
    simp only [LeafConfig.kind, fieldsOf, List.forall_mem_cons] at hfront
    simp only [LeafConfig.kind, leaf?, LeafConfig.entries]
    rw [text?_written (v := factory) (by simp [hfront.1])]
    rfl
  | moveSource factory =>
    simp only [LeafConfig.kind, fieldsOf, List.forall_mem_cons] at hfront
    simp only [LeafConfig.kind, leaf?, LeafConfig.entries]
    rw [text?_written (v := factory) (by simp [hfront.1])]
    rfl

/-- An order reads back from its word. -/
theorem order?_written {entries : Entries} {v : Option Order}
    (hentries : under "selection_order" entries
      = entryOf "selection_order" (fun order => .text (Order.word order)) v) :
    field? (word? Order.ofWord?) "selection_order" entries = some v :=
  field?_written hentries (fun order _ => by cases order <;> rfl)
    fun _ h => nomatch h

/-- A weight reads back as a field of a table. -/
theorem weight?_written {entries : Entries} {v : Option Binary64}
    (hentries : under "fixed_probability_weight" entries
      = entryOf "fixed_probability_weight" .float v) :
    field? weight? "fixed_probability_weight" entries = some v :=
  field?_written hentries (fun _ _ => rfl) fun _ h => nomatch h

/-- The common settings read back between the kind and other fields. -/
theorem common?_written {c : CommonSettings} {kind : Document} {back : Entries}
    (hback : ∀ key ∈ commonFields, under key back = [])
    (hfits : Fit [c.limit]) :
    common? (("type", kind) :: (c.entries ++ back)) = some c := by
  simp only [commonFields, List.forall_mem_cons] at hback
  obtain ⟨hparent, horder, hweight, hlimit, -⟩ := hback
  simp only [CommonSettings.entries, common?]
  rw [text?_written (v := c.inheritFrom) (by simp [hparent]),
    order?_written (v := c.order) (by simp [horder]),
    weight?_written (v := c.weight) (by simp [hweight]),
    count?_written (v := c.limit) (by simp [hlimit]) fun n hn =>
      hfits n (by simp [hn])]
  rfl

-- ======================================================= the keys of a table

/-- The keys of written entries, each at most once and in their order. -/
def KeysOf (keys : List String) (entries : Entries) : Prop :=
  (entries.map Prod.fst).Sublist keys

theorem KeysOf.append {front back : Entries} {fs bs : List String}
    (hf : KeysOf fs front) (hb : KeysOf bs back) :
    KeysOf (fs ++ bs) (front ++ back) := by
  rw [KeysOf, List.map_append]
  exact List.Sublist.append hf hb

/-- Nothing stands under a key that a table does not have. -/
theorem KeysOf.under_eq_nil {keys : List String} {entries : Entries}
    {key : String} (h : KeysOf keys entries) (hkey : key ∉ keys) :
    under key entries = [] :=
  ConfigReader.under_eq_nil fun hmem => hkey (h.subset hmem)

theorem KeysOf.mem {keys : List String} {entries : Entries} {key : String}
    {d : Document} (h : KeysOf keys entries)
    (hmem : (key, d) ∈ entries) : key ∈ keys :=
  h.subset (List.mem_map_of_mem hmem)

theorem KeysOf.nodup {keys : List String} {entries : Entries}
    (h : KeysOf keys entries) (hkeys : keys.Nodup) :
    (entries.map Prod.fst).Nodup := List.Sublist.nodup h hkeys

/-- The entry of a setting that may be missing. -/
theorem mem_entryOf {α : Type} {key : String} {write : α → Document}
    {v : Option α} {e : String × Document} : e ∈ entryOf key write v ↔
    ∃ a, v = some a ∧ e = (key, write a) := by
  cases v <;> simp [entryOf]

theorem keysOf_entryOf {α : Type} (key : String) (write : α → Document)
    (v : Option α) : KeysOf [key] (entryOf key write v) := by
  cases v with
  | none => exact List.nil_sublist _
  | some _ => exact List.Sublist.refl _

theorem keysOf_namesEntry (key : String) (names : List String) :
    KeysOf [key] (namesEntry key names) := by
  cases names with
  | nil => exact List.nil_sublist _
  | cons _ _ => exact List.Sublist.refl _

/-- The common settings are written under the common fields. -/
theorem keysOf_common (c : CommonSettings) : KeysOf commonFields c.entries :=
  (((keysOf_entryOf ..).append (keysOf_entryOf ..)).append
    (keysOf_entryOf ..)).append
    (keysOf_entryOf ..)

/-- Settings of pillars are a table with fields of their own. -/
theorem keysOf_subPillar (s : SubPillarSettings) :
    ∃ entries, s.document = .table entries ∧ KeysOf subPillarFields entries :=
  ⟨_, rfl, ((keysOf_entryOf ..).append (keysOf_entryOf ..)).append
    (keysOf_entryOf ..)⟩

/-- The settings of a leaf are written under the fields of its kind. -/
theorem keysOf_leaf (settings : LeafConfig) :
    KeysOf (fieldsOf settings.kind) settings.entries := by
  cases settings with
  | change => exact (keysOf_entryOf ..).append (keysOf_entryOf ..)
  | swap => exact (keysOf_entryOf ..).append (keysOf_namesEntry ..)
  | pillarChange =>
    exact ((keysOf_entryOf ..).append (keysOf_entryOf ..)).append
      (keysOf_entryOf ..)
  | pillarSwap =>
    exact ((keysOf_entryOf ..).append (keysOf_entryOf ..)).append
      (keysOf_namesEntry ..)
  | segmentChange | segmentSwap =>
    exact (((keysOf_entryOf ..).append (keysOf_entryOf ..)).append
      (keysOf_entryOf ..)).append
      (keysOf_entryOf ..)
  | tailSwap | moveList | moveSource => exact keysOf_entryOf ..

theorem fieldsOf_nodup (kind : String) : (fieldsOf kind).Nodup := by
  unfold fieldsOf
  split <;> decide

/-- The settings of a kind are none of those that every selector has. -/
theorem fieldsOf_disjoint (kind : String) :
    ∀ key ∈ fieldsOf kind, key ∉ "type" :: commonFields := by
  unfold fieldsOf
  split <;> decide

-- ================================================== what was read stands there

/-- A field that was read stands in the table. -/
theorem mem_of_entry? {key : String} {entries : Entries} {d : Document}
    (h : entry? key entries = some (some d)) : (key, d) ∈ entries := by
  unfold entry? at h
  split at h
  · cases h
  · rename_i e he
    obtain rfl := Option.some.inj (Option.some.inj h)
    have hmem : e ∈ entries.filter fun e =>
      e.1 == key := by rw [he]; exact List.mem_singleton_self e
    obtain ⟨hmem, hkey⟩ := List.mem_filter.1 hmem
    exact beq_iff_eq.1 hkey ▸ hmem
  · cases h

/-- A setting that is given was read from what stands there. -/
theorem read_of_optional? {α : Type} {read? : Document → Option α}
    {d : Document} {a : α} (h : optional? read? d = some (some a)) :
    read? d = some a := by
  unfold optional? at h
  split at h
  · cases h
  · obtain ⟨b, hb, hab⟩ := Option.map_eq_some_iff.1 h
    obtain rfl := Option.some.inj hab
    exact hb

/-- A value that was read stands under its key. -/
theorem mem_of_field? {α : Type} {read? : Document → Option α} {key : String}
    {entries : Entries} {a : α} (h : field? read? key entries = some (some a)) :
    ∃ d, (key, d) ∈ entries ∧ read? d = some a := by
  unfold field? at h
  obtain ⟨found, hfound, h⟩ := Option.bind_eq_some_iff.1 h
  cases found with
  | none => cases h
  | some d =>
    exact ⟨d, mem_of_entry? hfound, read_of_optional? h⟩

/-- What was read as a count is one. -/
theorem count?_lt {d : Document} {n : Nat} (h : count? d = some n) :
    n < Checked.countLimit := by
  unfold count? at h
  split at h
  · split at h
    · rename_i hfits
      obtain rfl := Option.some.inj h
      exact hfits.2
    · cases h
  · cases h

/-- A count read as a field is one. -/
theorem field?_count_lt {key : String} {entries : Entries} {v : Option Nat}
    (h : field? count? key entries = some v) :
    ∀ n, v = some n → n < Checked.countLimit := by
  rintro n rfl
  obtain ⟨d, -, hd⟩ := mem_of_field? h
  exact count?_lt hd

/-- A weight that was read from JSON is finite, also one written as an
integer. -/
theorem weight?_finite {d : Document} {w : Binary64} (hd : d.IsJson)
    (h : weight? d = some w) : w.isFinite = true := by
  unfold weight? at h
  split at h
  · obtain rfl := Option.some.inj h
    exact hd _ (.self _)
  · split at h
    · rename_i n hfits
      obtain rfl := Option.some.inj h
      exact Binary64.isFinite_ofInt (by omega)
    · cases h
  · cases h

/-- Common settings that were read can be written again: the weight is a
number that JSON can hold, and the limit is a count. -/
theorem common?_settings {entries : Entries} {c : CommonSettings}
    (h : common? entries = some c) (hjson : (Document.table entries).IsJson) :
    (∀ w, c.weight = some w → w.isFinite = true) ∧ Fit [c.limit] := by
  unfold common? at h
  simp only [Option.bind_eq_bind, Option.bind_eq_some_iff] at h
  obtain ⟨parent, -, order, -, weight, hweight, limit, hlimit, h⟩ := h
  obtain rfl := Option.some.inj h
  refine ⟨?_, ?_⟩
  · rintro w rfl
    obtain ⟨d, hd, hw⟩ := mem_of_field? hweight
    exact weight?_finite (hjson.of_holds (.entry hd (.self d))) hw
  · intro n hn
    exact field?_count_lt hlimit n (List.mem_singleton.1 hn).symm

/-- Sizes of pillars that were read are counts. -/
theorem subPillar?_fit {d : Document} {s : SubPillarSettings}
    (h : subPillar? d = some s) : Fit [s.minimum, s.maximum] := by
  have hcounts : (∀ n, s.minimum = some n → n < Checked.countLimit) ∧
      ∀ n, s.maximum = some n → n < Checked.countLimit := by
    unfold subPillar? at h
    split at h
    · simp only [Option.bind_eq_bind, Option.bind_eq_some_iff] at h
      obtain ⟨enabled, -, minimum, hminimum, maximum, hmaximum, h⟩ := h
      obtain rfl := Option.some.inj h
      exact ⟨field?_count_lt hminimum, field?_count_lt hmaximum⟩
    · simp only [Option.bind_eq_bind, Option.bind_eq_some_iff] at h
      obtain ⟨enabled, -, minimum, hminimum, maximum, hmaximum, h⟩ := h
      obtain rfl := Option.some.inj h
      refine ⟨?_, ?_⟩
      · rintro n rfl
        exact count?_lt (read_of_optional? hminimum)
      · rintro n rfl
        exact count?_lt (read_of_optional? hmaximum)
    · cases h
  intro n hn
  rcases List.mem_cons.1 hn with hn | hn
  · exact hcounts.1 n hn.symm
  · exact hcounts.2 n (List.mem_singleton.1 hn).symm

/-- Sizes of segments that were read are counts. -/
theorem segments?_fit {entries : Entries} {s : SegmentSettings}
    (h : segments? entries = some s) : Fit [s.minimum, s.maximum] := by
  unfold segments? at h
  simp only [Option.bind_eq_bind, Option.bind_eq_some_iff] at h
  obtain ⟨name, -, minimum, hminimum, maximum, hmaximum, reversing, -, h⟩ := h
  obtain rfl := Option.some.inj h
  intro n hn
  rcases List.mem_cons.1 hn with hn | hn
  · exact field?_count_lt hminimum n hn.symm
  · exact field?_count_lt hmaximum n (List.mem_singleton.1 hn).symm

/-- Sizes of pillars read as a field are counts. -/
theorem field?_subPillar_fit {key : String} {entries : Entries}
    {v : Option SubPillarSettings}
    (h : field? subPillar? key entries = some v) :
    ∀ s, v = some s → Fit [s.minimum, s.maximum] := by
  rintro s rfl
  obtain ⟨d, -, hd⟩ := mem_of_field? h
  exact subPillar?_fit hd

/-- The counts of a leaf that was read fit. -/
theorem leaf?_fit {kind : String} {entries : Entries} {settings : LeafConfig}
    (h : leaf? kind entries = some settings) : Fit settings.counts := by
  have hnone : Fit [] := nofun
  unfold leaf? at h
  split at h
  · simp only [Option.bind_eq_bind, Option.bind_eq_some_iff] at h
    obtain ⟨_, -, _, -, h⟩ := h
    obtain rfl := Option.some.inj h
    exact hnone
  · simp only [Option.bind_eq_bind, Option.bind_eq_some_iff] at h
    obtain ⟨_, -, _, -, h⟩ := h
    obtain rfl := Option.some.inj h
    exact hnone
  · simp only [Option.bind_eq_bind, Option.bind_eq_some_iff] at h
    obtain ⟨_, -, sub, hsub, _, -, h⟩ := h
    obtain rfl := Option.some.inj h
    cases sub with
    | none => exact hnone
    | some s => exact field?_subPillar_fit hsub s rfl
  · simp only [Option.bind_eq_bind, Option.bind_eq_some_iff] at h
    obtain ⟨_, -, sub, hsub, _, -, h⟩ := h
    obtain rfl := Option.some.inj h
    cases sub with
    | none => exact hnone
    | some s => exact field?_subPillar_fit hsub s rfl
  · obtain ⟨s, hs, h⟩ := Option.bind_eq_some_iff.1 h
    obtain rfl := Option.some.inj h
    exact segments?_fit hs
  · obtain ⟨s, hs, h⟩ := Option.bind_eq_some_iff.1 h
    obtain rfl := Option.some.inj h
    exact segments?_fit hs
  · obtain ⟨_, -, h⟩ := Option.bind_eq_some_iff.1 h
    obtain rfl := Option.some.inj h
    exact hnone
  · obtain ⟨_, -, h⟩ := Option.bind_eq_some_iff.1 h
    obtain rfl := Option.some.inj h
    exact hnone
  · obtain ⟨_, -, h⟩ := Option.bind_eq_some_iff.1 h
    obtain rfl := Option.some.inj h
    exact hnone
  · cases h

end ConfigReader

end PlanSearch
