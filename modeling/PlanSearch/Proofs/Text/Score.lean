/-
Score texts: the grammar and the reader agree.

`Spells` is the grammar, said without the reader: which numbers a text
without white space at its ends spells for a shape. The reader accepts a
text exactly if what trimming leaves of it spells something, and returns
the numbers in their order (`parse_exact`); the text written for a score
spells its levels.

Each function of the reader has one lemma that says when it succeeds, in
the words of the grammar. Cutting a text at its slashes undoes joining,
because no part of the grammar holds a slash; and the first `hard/` of a
bendable score is the one behind the first bracket, because nothing the
brackets may hold contains an `h`.
-/
import PlanSearch.Score.Text
import PlanSearch.Proofs.Act
import PlanSearch.Proofs.Text.Literal
import Mathlib.Data.List.Forall2

namespace PlanSearch.Score

open Text

variable {shape : Shape}

-- ================================================================== grammar

/-- One part of a fixed score: a number right before its word. -/
def PartOf (word : String) (part : List Char) (n : Int64) : Prop :=
  ∃ digits, Trims part (digits ++ word.toList) ∧ Literal digits n

/-- Parts of a fixed score, one for each level. -/
inductive PartsOf : List Level → List (List Char) → List Int64 → Prop
  | nil : PartsOf [] [] []
  | cons {level levels part parts n ns} (head : PartOf level.word part n)
      (tail : PartsOf levels parts ns) : PartsOf (level :: levels)
        (part :: parts) (n :: ns)

/-- One bracketed number. -/
def NumberOf (part : List Char) (n : Int64) : Prop :=
  ∃ digits, Trims part digits ∧ Literal digits n

/-- What may stand between brackets: numbers with slashes between them, or
white space for none. -/
def Lists (inside : List Char) (ns : List Int64) : Prop :=
  (ns = [] ∧ ∀ c ∈ inside, isBlank c = true) ∨
    (ns ≠ [] ∧ ∃ parts, inside = ['/'].intercalate parts ∧
      List.Forall₂ NumberOf parts ns)

/-- The bracketed numbers and their word. -/
def brackets (inside : List Char) (word : String) : List Char :=
  '[' :: (inside ++ ']' :: word.toList)

/-- The numbers that a text without white space at its ends spells. -/
def Spells : Shape → List Char → List Int64 → Prop
  | .bendable hard soft, body, ns =>
    ∃ a b hs ss, body = brackets a "hard" ++ '/' :: brackets b "soft"
      ∧ ns = hs ++ ss ∧ hs.length = hard ∧ ss.length = soft ∧
        Lists a hs ∧ Lists b ss
  | fixed, body, ns =>
    ∃ parts, body = ['/'].intercalate parts ∧ PartsOf fixed.levels parts ns

-- ================================================================== cutting

/-- Cutting at a mark is splitting there. -/
theorem splitAt_eq (mark : Char) (text : List Char) :
    splitAt mark text = text.splitOn mark := by
  induction text with
  | nil => rfl
  | cons c rest ih =>
    rw [splitAt, List.splitOn_cons_eq_if_modifyHead, ih]
    by_cases hc : c = mark
    · rw [if_pos hc, if_pos (beq_iff_eq.2 hc)]
    · rw [if_neg hc, if_neg fun h => hc (beq_iff_eq.1 h)]
      cases hrest : rest.splitOn mark with
      | nil => exact absurd hrest (List.splitOn_ne_nil mark rest)
      | cons piece more => rfl

theorem splitAt_ne_nil (mark : Char) (text : List Char) :
    splitAt mark text ≠ [] := by
  rw [splitAt_eq]
  exact List.splitOn_ne_nil mark text

/-- Parts that were cut at slashes are put together again. -/
theorem intercalate_splitAt (text : List Char) :
    ['/'].intercalate (splitAt '/' text) = text := by
  rw [splitAt_eq, List.intercalate_splitOn]

/-- Parts without slashes are found again. -/
theorem splitAt_intercalate {parts : List (List Char)} (hne : parts ≠ [])
    (h : ∀ part ∈ parts, '/' ∉ part) :
    splitAt '/' (['/'].intercalate parts) = parts := by
  rw [splitAt_eq, List.splitOn_intercalate '/' h hne]

/-- An ending is stripped from exactly the texts that have it. -/
theorem stripEnding_eq_some_iff {ending text front : List Char} :
    stripEnding ending text = some front ↔ text = front ++ ending := by
  unfold stripEnding
  constructor
  · intro h
    split at h
    · rename_i hsuffix
      obtain ⟨pre, rfl⟩ := List.isSuffixOf_iff_suffix.1 hsuffix
      obtain rfl := Option.some.inj h
      simp
    · cases h
  · rintro rfl
    rw [if_pos (List.isSuffixOf_iff_suffix.2 (List.suffix_append front ending))]
    simp

/-- What stands in parts put together is a slash or stands in a part. -/
theorem mem_intercalate {c : Char} {parts : List (List Char)}
    (h : c ∈ ['/'].intercalate parts) : c = '/' ∨ ∃ part ∈ parts, c ∈ part := by
  induction parts with
  | nil => cases h
  | cons part rest ih =>
    cases rest with
    | nil =>
      rw [List.intercalate_singleton] at h
      exact .inr ⟨part, List.mem_cons_self, h⟩
    | cons next more =>
      rw [List.intercalate_cons_cons, List.mem_append, List.mem_append] at h
      rcases h with (h | h) | h
      · exact .inr ⟨part, List.mem_cons_self, h⟩
      · exact .inl (List.mem_singleton.1 h)
      · refine (ih h).imp_right ?_
        rintro ⟨p, hp, hc⟩
        exact ⟨p, List.mem_cons_of_mem _ hp, hc⟩

/-- The first part stays in front of what is joined to it. -/
theorem mem_intercalate_cons {c : Char} {part : List Char} (h : c ∈ part)
    (parts : List (List Char)) : c ∈ ['/'].intercalate (part :: parts) := by
  cases parts with
  | nil => rwa [List.intercalate_singleton]
  | cons next more =>
    rw [List.intercalate_cons_cons]
    exact List.mem_append_left _ (List.mem_append_left _ h)

-- ================================================================== characters

/-- A number between white space consists of that, digits and perhaps a sign. -/
theorem NumberOf.mem {part : List Char} {n : Int64} (h : NumberOf part n) :
    ∀ c ∈ part, isBlank c = true ∨ c.isDigit = true ∨ c = '+' ∨ c = '-' := by
  obtain ⟨digits, ⟨-, front, back, rfl, hfront, hback⟩, hliteral⟩ := h
  intro c hc
  rcases List.mem_append.1 hc with hc | hc
  · exact (List.mem_append.1 hc).imp (hfront c) (hliteral.digit_or_sign c)
  · exact .inl (hback c hc)

/-- No number has a slash in it. -/
theorem NumberOf.slash_notMem {part : List Char} {n : Int64}
    (h : NumberOf part n) : '/' ∉ part :=
  fun hc => absurd (h.mem _ hc) (by decide)

theorem exists_numberOf {parts : List (List Char)} {ns : List Int64}
    (h : List.Forall₂ NumberOf parts ns) :
    ∀ part ∈ parts, ∃ n, NumberOf part n := by
  induction h with
  | nil => exact fun part hpart => (nomatch hpart)
  | cons hn _ ih => exact List.forall_mem_cons.2 ⟨⟨_, hn⟩, ih⟩

/-- A number is not all white space. -/
theorem NumberOf.exists_not_blank {part : List Char} {n : Int64}
    (h : NumberOf part n) : ∃ c ∈ part, isBlank c = false := by
  obtain ⟨digits, ⟨-, front, back, rfl, -, -⟩, hliteral⟩ := h
  obtain ⟨c, hc⟩ := List.exists_mem_of_ne_nil digits hliteral.ne_nil
  exact ⟨c, List.mem_append_left _ (List.mem_append_right _ hc),
    hliteral.not_blank c hc⟩

/-- No part of a score has a slash in it. -/
theorem PartOf.slash_notMem {level : Level} {part : List Char} {n : Int64}
    (h : PartOf level.word part n) : '/' ∉ part := by
  obtain ⟨digits, ⟨-, front, back, rfl, hfront, hback⟩, hliteral⟩ := h
  intro hc
  rcases List.mem_append.1 hc with hc | hc
  · rcases List.mem_append.1 hc with hc | hc
    · exact absurd (hfront _ hc) (by decide)
    · rcases List.mem_append.1 hc with hc | hc
      · exact absurd (hliteral.digit_or_sign _ hc) (by decide)
      · cases level <;> exact absurd hc (by decide)
  · exact absurd (hback _ hc) (by decide)

/-- The brackets hold no letter. -/
theorem Lists.h_notMem {inside : List Char} {ns : List Int64}
    (h : Lists inside ns) : 'h' ∉ inside := by
  intro hc
  obtain ⟨-, hblank⟩ | ⟨-, parts, rfl, hparts⟩ := h
  · exact absurd (hblank _ hc) (by decide)
  · obtain hslash | ⟨part, hpart, hc⟩ := mem_intercalate hc
    · exact absurd hslash (by decide)
    · obtain ⟨n, hn⟩ := exists_numberOf hparts part hpart
      exact absurd (hn.mem _ hc) (by decide)

-- ================================================================== reading

/-- A part is read exactly if it is a number before the word of its level.
-/
theorem readPart_iff {word : String} {part : List Char} {n : Int64} :
    readPart word part = .ok n ↔ PartOf word part n := by
  have hcut {digits : List Char} : stripEnding word.toList (trim part)
      = some digits ↔
      Trims part (digits ++ word.toList) :=
        stripEnding_eq_some_iff.trans trim_eq_iff
  unfold readPart
  constructor
  · intro h
    dsimp only at h
    split at h
    · cases h
    · rename_i digits hdigits
      split at h
      · rename_i m hm
        obtain rfl := Except.ok.inj h
        exact ⟨digits, hcut.1 hdigits, readLevel_iff.1 hm⟩
      · cases h
  · rintro ⟨digits, htrims, hliteral⟩
    simp only [hcut.2 htrims, readLevel_iff.2 hliteral]

/-- Parts are read exactly if each is one of its level. -/
theorem readParts_iff {levels : List Level} {parts : List (List Char)}
    {ns : List Int64} (hlen : parts.length = levels.length) :
    readParts levels parts = .ok ns ↔ PartsOf levels parts ns := by
  induction levels generalizing parts ns with
  | nil =>
    obtain rfl := List.length_eq_zero_iff.1 hlen
    constructor
    · intro h
      obtain rfl := Except.ok.inj h
      exact .nil
    · rintro ⟨⟩
      rfl
  | cons level levels ih =>
    obtain ⟨part, parts, rfl⟩ := List.exists_cons_of_length_eq_add_one hlen
    have hlen := Nat.succ.inj hlen
    constructor
    · intro h
      obtain ⟨n, hn, h⟩ := exists_of_bind_ok h
      obtain ⟨rest, hrest, h⟩ := exists_of_bind_ok h
      obtain rfl := Except.ok.inj h
      exact .cons (readPart_iff.1 hn) ((ih hlen).1 hrest)
    · rintro (_ | ⟨hn, hrest⟩)
      unfold readParts
      rw [readPart_iff.2 hn, (ih hlen).2 hrest]
      rfl

/-- There is a part and a number for each level. -/
theorem PartsOf.length_eq {levels : List Level} {parts : List (List Char)}
    {ns : List Int64} (h : PartsOf levels parts ns) :
    parts.length = levels.length ∧ ns.length = levels.length := by
  induction h with
  | nil => exact ⟨rfl, rfl⟩
  | cons _ _ ih => exact ⟨congrArg (· + 1) ih.1, congrArg (· + 1) ih.2⟩

/-- No part among several has a slash in it. -/
theorem PartsOf.slash_notMem {levels : List Level} {parts : List (List Char)}
    {ns : List Int64} (h : PartsOf levels parts ns) :
    ∀ part ∈ parts, '/' ∉ part := by
  induction h with
  | nil => exact fun part hpart => (nomatch hpart)
  | cons hn _ ih => exact List.forall_mem_cons.2 ⟨hn.slash_notMem, ih⟩

/-- Numbers are read exactly if each part is one. -/
theorem readNumbers_iff {word : String} {parts : List (List Char)}
    {ns : List Int64} : readNumbers word parts = .ok ns ↔
    List.Forall₂ NumberOf parts ns := by
  have hnumber {part : List Char} {n : Int64} :
      readLevel (trim part) = .ok n ↔ NumberOf part n := by
    constructor
    · exact fun h => ⟨trim part, trim_eq_iff.1 rfl, readLevel_iff.1 h⟩
    · rintro ⟨digits, htrims, hliteral⟩
      rw [trim_eq_iff.2 htrims, readLevel_iff.2 hliteral]
  induction parts generalizing ns with
  | nil =>
    constructor
    · intro h
      obtain rfl := Except.ok.inj h
      exact .nil
    · rintro ⟨⟩
      rfl
  | cons part parts ih =>
    constructor
    · intro h
      unfold readNumbers at h
      split at h
      · cases h
      · rename_i n hn
        obtain ⟨rest, hrest, h⟩ := exists_of_bind_ok h
        obtain rfl := Except.ok.inj h
        exact .cons (hnumber.1 hn) (ih.1 hrest)
    · rintro (_ | ⟨hn, hrest⟩)
      unfold readNumbers
      rw [hnumber.2 hn, ih.2 hrest]
      rfl

/-- Brackets are opened exactly where they stand before their word. -/
theorem insideBrackets_eq_some_iff {word : String} {part inside : List Char} :
    insideBrackets word part = some inside ↔ part = brackets inside word := by
  unfold insideBrackets brackets
  constructor
  · intro h
    split at h
    · rename_i rest hrest
      rw [stripEnding_eq_some_iff.1 hrest, stripEnding_eq_some_iff.1 h]
      simp
    · cases h
  · intro h
    have hcut : stripEnding word.toList part
        = some ('[' :: (inside ++ [']'])) :=
      stripEnding_eq_some_iff.2 (by rw [h]; simp)
    rw [hcut]
    exact stripEnding_eq_some_iff.2 rfl

/-- Reads what stands between brackets. -/
def readInside (word : String) (inside : List Char) :
    Except ScoreTextError (List Int64) :=
  if (trim inside).isEmpty then .ok []
  else readNumbers word (splitAt '/' inside)

/-- What stands between brackets is read exactly if it lists numbers. -/
theorem readInside_iff {word : String} {inside : List Char} {ns : List Int64} :
    readInside word inside = .ok ns ↔ Lists inside ns := by
  unfold readInside
  by_cases hblank : ∀ c ∈ inside, isBlank c = true
  · rw [if_pos (trim_isEmpty_iff.2 hblank)]
    constructor
    · intro h
      exact .inl ⟨(Except.ok.inj h).symm, hblank⟩
    · rintro (⟨rfl, -⟩ | ⟨hne, parts, rfl, hparts⟩)
      · rfl
      · -- a first number would hold a character that is no white space
        cases hparts with
        | nil => exact absurd rfl hne
        | @cons part n parts ns hn _ =>
          obtain ⟨c, hc, hnot⟩ := hn.exists_not_blank
          rw [hblank c (mem_intercalate_cons hc parts)] at hnot
          cases hnot
  · rw [if_neg fun h => hblank (trim_isEmpty_iff.1 h), readNumbers_iff]
    constructor
    · intro h
      refine .inr ⟨?_, splitAt '/' inside, (intercalate_splitAt inside).symm, h⟩
      rintro rfl
      exact splitAt_ne_nil '/' inside (List.forall₂_nil_right_iff.1 h)
    · rintro (⟨-, h⟩ | ⟨hne, parts, rfl, hparts⟩)
      · exact absurd h hblank
      · have hparts_ne : parts ≠ [] := by
          rintro rfl
          exact hne (List.forall₂_nil_left_iff.1 hparts)
        have hslash : ∀ part ∈ parts, '/' ∉ part := fun part hpart =>
          have ⟨_, hn⟩ := exists_numberOf hparts part hpart
          hn.slash_notMem
        rw [splitAt_intercalate hparts_ne hslash]
        exact hparts

/-- Behind its brackets a part is read as a list of numbers, of which there
have to be as many as expected. -/
theorem readBracketed_eq {word : String} {expected : Nat}
    {part inside : List Char} (h : insideBrackets word part = some inside) :
    readBracketed word expected part = (readInside word inside >>= fun ns =>
      if ns.length = expected then .ok ns
      else .error (.count word expected ns.length)) := by
  simp only [readBracketed, h, readInside]
  split <;> rfl

/-- A bracketed part is read exactly if it lists as many numbers as
expected. -/
theorem readBracketed_iff {word : String} {expected : Nat} {part : List Char}
    {ns : List Int64} : readBracketed word expected part = .ok ns ↔
      ∃ inside, part = brackets inside word ∧ Lists inside ns ∧
        ns.length = expected := by
  constructor
  · intro h
    cases hinside : insideBrackets word part with
    | none =>
      unfold readBracketed at h
      rw [hinside] at h
      cases h
    | some inside =>
      rw [readBracketed_eq hinside] at h
      obtain ⟨read, hread, hcount⟩ := exists_of_bind_ok h
      split at hcount
      · rename_i hlen
        obtain rfl := Except.ok.inj hcount
        exact ⟨inside, insideBrackets_eq_some_iff.1 hinside,
          readInside_iff.1 hread, hlen⟩
      · cases hcount
  · rintro ⟨inside, hpart, hlists, hlen⟩
    rw [readBracketed_eq (insideBrackets_eq_some_iff.2 hpart),
      readInside_iff.2 hlists]
    exact if_pos hlen

/-- The text is cut at a slash. -/
theorem cutHard_some {text front back : List Char}
    (h : cutHard text = some (front, back)) : text = front ++ '/' :: back := by
  fun_induction cutHard text generalizing front with
  | case1 rest =>
    obtain ⟨rfl, rfl⟩ := Prod.mk.inj (Option.some.inj h)
    rfl
  | case2 => cases h
  | case3 c rest _ ih =>
    obtain ⟨⟨rest', back'⟩, hrest, heq⟩ := Option.map_eq_some_iff.1 h
    obtain ⟨rfl, rfl⟩ := Prod.mk.inj heq
    rw [ih hrest]
    rfl

/-- The cut is behind the first `h` if `hard/` starts there. -/
theorem cutHard_append {front : List Char} (h : 'h' ∉ front)
    (back : List Char) : cutHard (front ++ "hard/".toList ++ back)
      = some (front ++ "hard".toList, back) := by
  induction front with
  | nil => rfl
  | cons c rest ih =>
    have hc : c ≠ 'h' := fun hc => h (hc ▸ List.mem_cons_self)
    have hrest : 'h' ∉ rest := fun hmem => h (List.mem_cons_of_mem c hmem)
    have hskip : cutHard (c :: (rest ++ "hard/".toList ++ back))
        = (cutHard (rest ++ "hard/".toList ++ back)).map fun p =>
            (c :: p.1, p.2) :=
      cutHard.eq_3 _ _ fun _ heq _ => hc heq
    exact hskip.trans (by rw [ih hrest]; rfl)

/-- A bendable score is read exactly from the texts that spell one. -/
theorem readBendable_iff {hard soft : Nat} {text : List Char}
    {ns : List Int64} : readBendable hard soft text = .ok ns ↔
      ∃ body, Trims text body ∧ Spells (.bendable hard soft) body ns := by
  unfold readBendable
  constructor
  · intro h
    refine ⟨trim text, trim_eq_iff.1 rfl, ?_⟩
    dsimp only at h
    split at h
    · cases h
    · rename_i front back hcut
      obtain ⟨hs, hhs, hrest⟩ := exists_of_bind_ok h
      obtain ⟨ss, hss, hns⟩ := exists_of_bind_ok hrest
      obtain ⟨a, rfl, ha, hhard⟩ := readBracketed_iff.1 hhs
      obtain ⟨b, rfl, hb, hsoft⟩ := readBracketed_iff.1 hss
      exact ⟨a, b, hs, ss, cutHard_some hcut, (Except.ok.inj hns).symm, hhard,
        hsoft, ha, hb⟩
  · rintro ⟨body, htrims, a, b, hs, ss, rfl, rfl, hhard, hsoft, ha, hb⟩
    have hcut : cutHard (brackets a "hard" ++ '/' :: brackets b "soft")
        = some (brackets a "hard", brackets b "soft") := by
      have hfront : 'h' ∉ '[' :: (a ++ [']']) := by simp [ha.h_notMem]
      have hbody : brackets a "hard" ++ '/' :: brackets b "soft"
          = '[' :: (a ++ [']']) ++ "hard/".toList ++ brackets b "soft" := by
            simp [brackets]
      rw [hbody, cutHard_append hfront]
      simp [brackets]
    simp only [trim_eq_iff.2 htrims, hcut,
      readBracketed_iff.2 ⟨a, rfl, ha, hhard⟩,
      readBracketed_iff.2 ⟨b, rfl, hb, hsoft⟩]
    rfl

/-- A score of fixed levels is read exactly from one part for each of them.
-/
theorem readFixed_iff {levels : List Level} (hshape : shape.levels = levels)
    (hne : levels ≠ []) {text : List Char} {ns : List Int64} :
    readFixed shape text = .ok ns ↔
      ∃ body, Trims text body ∧
        ∃ parts, body = ['/'].intercalate parts ∧ PartsOf levels parts ns := by
  subst hshape
  unfold readFixed
  constructor
  · intro h
    dsimp only at h
    split at h
    · rename_i hlen
      exact ⟨trim text, trim_eq_iff.1 rfl, splitAt '/' (trim text),
        (intercalate_splitAt _).symm, (readParts_iff hlen).1 h⟩
    · cases h
  · rintro ⟨body, htrims, parts, rfl, hparts⟩
    have hlen := hparts.length_eq.1
    have hne : parts ≠ [] := by
      rintro rfl
      exact hne (List.length_eq_zero_iff.1 hlen.symm)
    simp only [trim_eq_iff.2 htrims,
      splitAt_intercalate hne hparts.slash_notMem, if_pos hlen]
    exact (readParts_iff hlen).2 hparts

/-- Levels are read exactly from the texts that spell them, blanks around
them left out. -/
theorem readLevels_iff {text : List Char} {ns : List Int64} :
    readLevels shape text = .ok ns ↔
    ∃ body, Trims text body ∧ Spells shape body ns := by
  cases shape with
  | hardSoft => exact readFixed_iff rfl (by decide)
  | hardMediumSoft => exact readFixed_iff rfl (by decide)
  | bendable hard soft => exact readBendable_iff

/-- A shape has as many numbers as it has levels. -/
theorem Spells.length_eq {body : List Char} {ns : List Int64}
    (h : Spells shape body ns) : ns.length = shape.levels.length := by
  cases shape with
  | hardSoft =>
    obtain ⟨parts, -, hparts⟩ := h
    exact hparts.length_eq.2
  | hardMediumSoft =>
    obtain ⟨parts, -, hparts⟩ := h
    exact hparts.length_eq.2
  | bendable hard soft =>
    obtain ⟨a, b, hs, ss, -, rfl, rfl, rfl, -, -⟩ := h
    simp [Shape.levels]

/-- A score is read exactly from the texts that spell it. -/
theorem parse_iff {text : String} {s : Score shape} :
    parse shape text = .ok s ↔
    ∃ body, Trims text.toList body ∧ Spells shape body s.levels := by
  rw [← readLevels_iff]
  unfold parse
  constructor
  · intro h
    split at h
    · cases h
    · rename_i levels hlevels
      split at h
      · obtain rfl := Except.ok.inj h
        exact hlevels
      · cases h
  · intro h
    rw [h]
    exact dif_pos s.length_eq

-- ================================================================== writing

theorem word_not_blank (level : Level) :
    ∀ c ∈ level.word.toList, isBlank c = false := by
  refine not_blank_of_any ?_
  cases level <;> decide

/-- No character of a written part is white space. -/
theorem part_not_blank (level : Level) (n : Int64) :
    ∀ c ∈ (ofLevel n ++ level.word).toList, isBlank c = false := by
  rw [String.toList_append]
  exact List.forall_mem_append.2 ⟨(literal_ofLevel n).not_blank,
    word_not_blank level⟩

/-- What is written for a level is a part of it. -/
theorem partOf_written (level : Level) (n : Int64) :
    PartOf level.word (ofLevel n ++ level.word).toList n := by
  refine ⟨(ofLevel n).toList, ?_, literal_ofLevel n⟩
  have htrims := (bare_of_forall (part_not_blank level n)).trims
  rwa [String.toList_append] at htrims ⊢

/-- The written parts spell the levels they are written for. -/
theorem partsOf_partTexts {levels : List Level} {ns : List Int64}
    (h : ns.length = levels.length) :
    PartsOf levels ((partTexts levels ns).map String.toList) ns := by
  induction levels generalizing ns with
  | nil =>
    obtain rfl := List.length_eq_zero_iff.1 h
    exact .nil
  | cons level levels ih =>
    obtain ⟨n, rest, rfl⟩ := List.exists_cons_of_length_eq_add_one h
    exact .cons (partOf_written level n) (ih (Nat.succ.inj h))

/-- Nothing that is written for levels is blank. -/
theorem partTexts_not_blank {levels : List Level} {ns : List Int64} :
    ∀ part ∈ (partTexts levels ns).map String.toList, ∀ c ∈ part,
      isBlank c = false := by
  induction levels generalizing ns with
  | nil => exact fun part hpart => (nomatch hpart)
  | cons level levels ih =>
    cases ns with
    | nil => exact fun part hpart => (nomatch hpart)
    | cons n rest => exact List.forall_mem_cons.2 ⟨part_not_blank level n, ih⟩

/-- The text of fixed levels spells them. -/
theorem fixed_written {levels : List Level} {ns : List Int64}
    (h : ns.length = levels.length) :
    Bare ("/".intercalate (partTexts levels ns)).toList ∧
      ∃ parts, ("/".intercalate (partTexts levels ns)).toList
        = ['/'].intercalate parts ∧ PartsOf levels parts ns := by
  rw [String.toList_intercalate]
  refine ⟨bare_of_forall fun c hc => ?_, _, rfl, partsOf_partTexts h⟩
  obtain rfl | ⟨part, hpart, hc⟩ := mem_intercalate hc
  · decide
  · exact partTexts_not_blank part hpart c hc

/-- The digits of a level are a number, and the number is the level. -/
theorem numberOf_ofLevel (n : Int64) : NumberOf (ofLevel n).toList n :=
  ⟨_, (bare_of_forall (literal_ofLevel n).not_blank).trims, literal_ofLevel n⟩

/-- Numbers written with slashes between them list themselves. -/
theorem lists_written (ns : List Int64) :
    Lists ("/".intercalate (ns.map ofLevel)).toList ns := by
  by_cases hns : ns = []
  · subst hns
    exact .inl ⟨rfl, by simp⟩
  · refine .inr ⟨hns, (ns.map ofLevel).map String.toList,
      String.toList_intercalate, ?_⟩
    rw [List.map_map, List.forall₂_map_left_iff]
    exact List.forall₂_same.2 fun n _ => numberOf_ofLevel n

/-- Bracketed levels are written between brackets. -/
theorem toList_bracketed (ns : List Int64) (word : String) :
    (bracketed ns word).toList
      = brackets ("/".intercalate (ns.map ofLevel)).toList word := by
  simp [bracketed, brackets]

/-- Two bracketed parts have no blank around them. -/
theorem bare_brackets (a b : List Char) :
    Bare (brackets a "hard" ++ '/' :: brackets b "soft") := by
  have hfirst : Bare ['['] := bare_of_forall (not_blank_of_any (by decide))
  have hlast : Bare "soft".toList :=
    bare_of_forall (not_blank_of_any (by decide))
  have hends : brackets a "hard" ++ '/' :: brackets b "soft"
      = ['['] ++ (a ++ "]hard/[".toList ++ b ++ [']']) ++
        "soft".toList := by simp [brackets]
  rw [hends]
  exact hfirst.append hlast (by decide) (by decide) _

/-- The text written for a score has no white space at its ends and spells
its levels. -/
theorem spells_text (s : Score shape) :
    Trims s.text.toList s.text.toList ∧
    Spells shape s.text.toList s.levels := by
  cases shape with
  | hardSoft =>
    obtain ⟨hbare, hspells⟩ := fixed_written s.length_eq
    exact ⟨hbare.trims, hspells⟩
  | hardMediumSoft =>
    obtain ⟨hbare, hspells⟩ := fixed_written s.length_eq
    exact ⟨hbare.trims, hspells⟩
  | bendable hard soft =>
    have hlen : s.levels.length = hard + soft := by
      simpa [Shape.levels] using s.length_eq
    have htext : s.text.toList
          = brackets ("/".intercalate ((s.levels.take hard).map ofLevel)).toList
          "hard" ++ '/' :: brackets
            ("/".intercalate ((s.levels.drop hard).map ofLevel)).toList
          "soft" := by
      rw [← toList_bracketed, ← toList_bracketed]
      simp [text]
    have hbare : Bare s.text.toList := htext ▸ bare_brackets _ _
    refine ⟨hbare.trims, _, _, _, _, htext,
      (List.take_append_drop hard s.levels).symm, ?_, ?_, lists_written _,
      lists_written _⟩
    · rw [List.length_take, hlen]
      exact Nat.min_eq_left (Nat.le_add_right hard soft)
    · rw [List.length_drop, hlen, Nat.add_sub_cancel_left]

/-- Score texts and scores correspond: the text of a score is read as that
score, and the texts that are read are those that spell numbers, which are
the levels in their order. -/
theorem parse_exact (shape : Shape) :
    (∀ s : Score shape, parse shape s.text = .ok s) ∧
      ∀ (text : String) (levels : List Int64),
        (∃ s : Score shape, parse shape text = .ok s ∧ s.levels = levels) ↔
          ∃ body, Trims text.toList body ∧ Spells shape body levels := by
  constructor
  · intro s
    exact parse_iff.2 ⟨_, spells_text s⟩
  · intro text levels
    constructor
    · rintro ⟨s, hs, rfl⟩
      exact parse_iff.1 hs
    · rintro ⟨body, htrims, hspells⟩
      exact ⟨⟨levels, hspells.length_eq⟩,
        parse_iff.2 ⟨body, htrims, hspells⟩, rfl⟩

end PlanSearch.Score
