/-
Trimming, and numbers as they are written.

`Trims` says what trimming comes to without saying how: what is left
stands in the text with white space around it, and neither starts nor
ends with any. `Literal` says the same of reading a level: a sign if
there is one, at least one digit, and the number these write. That the
number fits a level needs no clause of its own, since it is one.

Reading carries the value so far and refuses it as soon as it leaves the
range. That is no earlier than need be, because the value only grows
away from zero with every digit (`readDigits_iff`).
-/
import PlanSearch.Text.Blank
import PlanSearch.Text.Integer
import PlanSearch.Proofs.Checked
import Mathlib.Data.List.DropRight

namespace PlanSearch.Text

-- ================================================================== trimming

/-- The text neither starts nor ends with white space. -/
structure Bare (core : List Char) : Prop where
  first : ∀ c, core.head? = some c → isBlank c = false
  last : ∀ c, core.getLast? = some c → isBlank c = false

/-- The text without the white space at its ends. -/
structure Trims (text core : List Char) : Prop extends Bare core where
  around : ∃ front back, text = front ++ core ++ back
    ∧ (∀ c ∈ front, isBlank c = true) ∧ ∀ c ∈ back, isBlank c = true

/-- A text that has no white space at its ends stays as it is. -/
theorem Bare.trims {core : List Char} (h : Bare core) : Trims core core where
  toBare := h
  around := ⟨[], [], by simp⟩

theorem bare_nil : Bare [] := ⟨fun _ h => (nomatch h), fun _ h => (nomatch h)⟩

/-- What stands between two texts does not matter for the ends. -/
theorem Bare.append {front back : List Char} (hfront : Bare front)
    (hback : Bare back) (hf : front ≠ []) (hb : back ≠ []) (mid : List Char) :
    Bare (front ++ mid ++ back) where
  first c h := by
    rw [List.append_assoc, List.head?_append_of_ne_nil _ hf] at h
    exact hfront.first c h
  last c h := by
    rw [List.getLast?_append_of_ne_nil _ hb] at h
    exact hback.last c h

theorem not_blank_of_any {text : List Char} (h : text.any isBlank = false) :
    ∀ c ∈ text, isBlank c = false :=
  fun c hc => Bool.eq_false_iff.mpr (List.any_eq_false.mp h c hc)

/-- A text is bare if none of it is white space. -/
theorem bare_of_forall {core : List Char} (h : ∀ c ∈ core, isBlank c = false) :
    Bare core where
  first c hc := h c (List.mem_of_head? hc)
  last c hc := h c (List.mem_of_getLast? hc)

/-- Nothing is trimmed in front of a bare core. -/
theorem trimLeft_of_bare {core : List Char} (h : Bare core) (hne : core ≠ [])
    (back : List Char) : trimLeft (core ++ back) = core ++ back := by
  cases core with
  | nil => exact absurd rfl hne
  | cons c rest =>
    have hc := h.first c rfl
    exact List.dropWhile_cons_of_neg (by rw [hc]; exact Bool.false_ne_true)

/-- Trimming comes to the text without the white space at its ends, and there
is only one. -/
theorem trim_eq_iff {text core : List Char} :
    trim text = core ↔ Trims text core := by
  constructor
  · rintro rfl
    have hfirst : ∀ c, (trim text).head? = some c → isBlank c = false := by
      intro c hc
      have hpre : trim text <+: trimLeft text :=
        List.rdropWhile_prefix isBlank (trimLeft text)
      obtain ⟨back, hback⟩ := hpre
      have hne : trim text ≠ [] := by
        rintro hnil
        rw [hnil] at hc
        cases hc
      have hhead : (trimLeft text).head? = some c := by
        rw [← hback, List.head?_append_of_ne_nil _ hne, hc]
      have hnot := List.head?_dropWhile_not isBlank text
      rw [trimLeft] at hhead
      rw [hhead] at hnot
      exact hnot
    refine ⟨⟨hfirst, fun c hc => ?_⟩, ?_⟩
    · rw [trim, trimRight, List.getLast?_reverse] at hc
      have hnot := List.head?_dropWhile_not isBlank (trimLeft text).reverse
      rw [hc] at hnot
      exact hnot
    · refine ⟨text.takeWhile isBlank,
        ((trimLeft text).reverse.takeWhile isBlank).reverse, ?_, ?_, ?_⟩
      · have hright : trim text ++
            ((trimLeft text).reverse.takeWhile isBlank).reverse
            = trimLeft text := by
          rw [trim, trimRight, ← List.reverse_append,
            List.takeWhile_append_dropWhile, List.reverse_reverse]
        rw [List.append_assoc, hright, trimLeft,
          List.takeWhile_append_dropWhile]
      · exact fun c hc => List.mem_takeWhile_imp hc
      · exact fun c hc => List.mem_takeWhile_imp (List.mem_reverse.1 hc)
  · rintro ⟨hbare, front, back, rfl, hfront, hback⟩
    have hleft : trimLeft (front ++ core ++ back)
        = trimLeft (core ++ back) := by
      rw [List.append_assoc]
      exact List.dropWhile_append_of_pos hfront
    by_cases hne : core = []
    · subst hne
      have hall : trimLeft ([] ++ back) = [] :=
        List.dropWhile_eq_nil_iff.2 hback
      rw [trim, hleft, hall]
      rfl
    · rw [trim, hleft, trimLeft_of_bare hbare hne, trimRight,
        List.reverse_append]
      rw [List.dropWhile_append_of_pos fun c hc =>
        hback c (List.mem_reverse.1 hc)]
      have hlast : Bare core.reverse :=
        ⟨fun c hc => hbare.last c (by rwa [List.head?_reverse] at hc),
          fun c hc => hbare.first c (by rwa [List.getLast?_reverse] at hc)⟩
      have hstays := trimLeft_of_bare hlast (by simpa using hne) []
      rw [List.append_nil] at hstays
      exact (congrArg List.reverse hstays).trans (List.reverse_reverse core)

/-- Nothing is left exactly of white space. -/
theorem trim_isEmpty_iff {text : List Char} :
    (trim text).isEmpty = true ↔ ∀ c ∈ text, isBlank c = true := by
  rw [List.isEmpty_iff, trim_eq_iff]
  constructor
  · rintro ⟨-, front, back, rfl, hfront, hback⟩ c hc
    rw [List.append_nil] at hc
    exact (List.mem_append.1 hc).elim (hfront c) (hback c)
  · exact fun h => ⟨bare_nil, text, [], by simp, h, fun c hc => (nomatch hc)⟩

-- ================================================================== literals

/-- No digit is blank. -/
theorem not_blank_of_isDigit {c : Char} (h : c.isDigit = true) :
    isBlank c = false := by
  have hlow : 48 ≤ c.toNat := (Char.isDigit_iff_toNat.1 h).1
  have hhigh : c.toNat ≤ 57 := (Char.isDigit_iff_toNat.1 h).2
  simp only [isBlank, Bool.or_eq_false_iff, Bool.and_eq_false_iff,
    decide_eq_false_iff_not, beq_eq_false_iff_ne]
  omega

/-- At least one digit, and nothing else. -/
def Digits (ds : List Char) : Prop := ds ≠ [] ∧ ∀ c ∈ ds, c.isDigit = true

/-- The number that digits write. -/
def value (ds : List Char) : Nat := Nat.ofDigitChars 10 ds 0

/-- A level as it may be written, with the number it stands for. -/
inductive Literal : List Char → Int64 → Prop
  | plain {ds : List Char} {n : Int64} (hds : Digits ds)
    (hn : n.toInt = value ds) : Literal ds n
  | plus {ds : List Char} {n : Int64} (hds : Digits ds)
      (hn : n.toInt = value ds) :
      Literal ('+' :: ds) n
  | minus {ds : List Char} {n : Int64} (hds : Digits ds)
      (hn : n.toInt = -(value ds : Int)) :
      Literal ('-' :: ds) n

/-- Only digits have a value, the distance from the first of them. -/
theorem digitValue?_eq (c : Char) :
    digitValue? c = if c.isDigit then some (c.toNat - 48) else none := by
  have hdigit : c.isDigit = true ↔ '0' ≤ c ∧ c ≤ '9' := by
    simp [Char.isDigit, Char.le_def]
  unfold digitValue?
  by_cases h : c.isDigit = true
  · rw [if_pos (hdigit.1 h), if_pos h]
  · rw [if_neg fun g => h (hdigit.2 g), if_neg h]

/-- A number with a sign. -/
def signed (negative : Bool) (n : Nat) : Int :=
  if negative then -(n : Int) else n

/-- A number nearer to zero fits if the farther one does. -/
theorem fitsLevel_signed_of_le {negative : Bool} {m n : Nat} (h : m ≤ n)
    (hn : Checked.fitsLevel (signed negative n) = true) :
    Checked.fitsLevel (signed negative m) = true := by
  cases negative <;>
    simp only [Checked.fitsLevel, signed, decide_eq_true_eq, if_true,
    Bool.false_eq_true, if_false] at hn ⊢ <;> omega

/-- More digits make no number smaller. -/
theorem le_ofDigitChars (ds : List Char) (n : Nat) :
    n ≤ Nat.ofDigitChars 10 ds n := by
  induction ds generalizing n with
  | nil => simp
  | cons c rest ih =>
    rw [Nat.ofDigitChars_cons]
    exact Nat.le_trans (by omega) (ih _)

/-- Digits are read exactly if the number they write fits, and it is that. -/
theorem readDigits_iff {negative : Bool} {ds : List Char}
    {start : Nat} {n : Int}
    (hstart : Checked.fitsLevel (signed negative start) = true) :
    readDigits negative (signed negative start) ds = .ok n ↔
      (∀ c ∈ ds, c.isDigit = true) ∧
        n = signed negative (Nat.ofDigitChars 10 ds start) ∧
        Checked.fitsLevel n = true := by
  induction ds generalizing start with
  | nil =>
    constructor
    · rintro h
      obtain rfl := Except.ok.inj h
      exact ⟨fun c hc => (nomatch hc), by simp, hstart⟩
    · rintro ⟨-, rfl, -⟩
      simp [readDigits]
  | cons c rest ih =>
    simp only [readDigits, digitValue?_eq, List.forall_mem_cons]
    by_cases hc : c.isDigit = true
    · -- the next value is the value so far with the digit behind it
      have hnext : (if negative = true
            then signed negative start * 10 - (c.toNat - 48 : Nat)
            else signed negative start * 10 + (c.toNat - 48 : Nat))
          = signed negative (10 * start + (c.toNat - 48)) := by
        cases negative <;>
          simp only [signed, if_true, Bool.false_eq_true, if_false] <;> omega
      simp only [hc, if_true, hnext, true_and, Nat.ofDigitChars_cons]
      by_cases hfits : Checked.fitsLevel
        (signed negative (10 * start + (c.toNat - 48))) = true
      · rw [if_pos hfits]
        exact ih hfits
      · rw [if_neg hfits]
        refine ⟨fun h => (nomatch h), fun ⟨_, hn, hlast⟩ => ?_⟩
        rw [hn] at hlast
        exact absurd (fitsLevel_signed_of_le
          (le_ofDigitChars rest _) hlast) hfits
    · rw [if_neg hc]
      exact ⟨fun h => (nomatch h), fun h => absurd h.1.1 hc⟩

/-- The digits of a level with their sign known. -/
theorem map_readDigits_iff {negative : Bool} {ds : List Char} {n : Int64} :
    (readDigits negative 0 ds).map Int64.ofInt = .ok n ↔
      (∀ c ∈ ds, c.isDigit = true) ∧ n.toInt = signed negative (value ds) := by
  have hzero : (0 : Int) = signed negative 0 := by cases negative <;> rfl
  have hstart : Checked.fitsLevel (signed negative 0) = true := by
    cases negative <;> decide
  have hread := @readDigits_iff negative ds 0
    (signed negative (value ds)) hstart
  rw [← hzero] at hread
  constructor
  · intro h
    cases hread' : readDigits negative 0 ds with
    | error e => rw [hread'] at h; cases h
    | ok m =>
      rw [hread'] at h
      obtain rfl := Except.ok.inj h
      rw [hzero] at hread'
      obtain ⟨hds, rfl, hfits⟩ := (readDigits_iff hstart).1 hread'
      exact ⟨hds, Checked.toInt_ofInt_of_fits hfits⟩
  · rintro ⟨hds, hn⟩
    have hfits : Checked.fitsLevel (signed negative (value ds)) = true :=
      hn ▸ Checked.fitsLevel_toInt n
    rw [hread.2 ⟨hds, rfl, hfits⟩]
    show Except.ok (Int64.ofInt (signed negative (value ds))) = Except.ok n
    rw [← hn, Int64.ofInt_toInt]

/-- A literal consists of digits and perhaps a sign. -/
theorem Literal.digit_or_sign {text : List Char} {n : Int64}
    (h : Literal text n) :
    ∀ c ∈ text, c.isDigit = true ∨ c = '+' ∨ c = '-' := by
  intro c hc
  cases h with
  | plain hds => exact .inl (hds.2 c hc)
  | plus hds =>
    exact (List.mem_cons.1 hc).elim (fun h => .inr (.inl h)) fun h =>
      .inl (hds.2 c h)
  | minus hds =>
    exact (List.mem_cons.1 hc).elim (fun h => .inr (.inr h)) fun h =>
      .inl (hds.2 c h)

theorem Literal.ne_nil {text : List Char} {n : Int64} (h : Literal text n) :
    text ≠ [] := by
  cases h with
  | plain hds => exact hds.1
  | plus => exact List.cons_ne_nil _ _
  | minus => exact List.cons_ne_nil _ _

/-- No character of a literal is white space. -/
theorem Literal.not_blank {text : List Char} {n : Int64} (h : Literal text n) :
    ∀ c ∈ text, isBlank c = false := by
  intro c hc
  obtain hdigit | rfl | rfl := h.digit_or_sign c hc
  · exact not_blank_of_isDigit hdigit
  · decide
  · decide

/-- A level is read exactly from its literals. -/
theorem readLevel_iff {text : List Char} {n : Int64} :
    readLevel text = .ok n ↔ Literal text n := by
  constructor
  · intro h
    unfold readLevel at h
    split at h
    · cases h
    · cases h
    · cases h
    · rename_i ds hds
      obtain ⟨hdigits, hn⟩ := map_readDigits_iff.1 h
      exact .plus ⟨fun hnil => hds (by rw [hnil]), hdigits⟩ hn
    · rename_i ds hds
      obtain ⟨hdigits, hn⟩ := map_readDigits_iff.1 h
      exact .minus ⟨fun hnil => hds (by rw [hnil]), hdigits⟩ hn
    · rename_i hne _ _ _ _
      obtain ⟨hdigits, hn⟩ := map_readDigits_iff.1 h
      exact .plain ⟨hne, hdigits⟩ hn
  · intro h
    cases h with
    | plain hds hn =>
      obtain ⟨hne, hdigits⟩ := hds
      have hread : (readDigits false 0 text).map Int64.ofInt = .ok n :=
        map_readDigits_iff.2 ⟨hdigits, hn⟩
      -- a digit is neither sign
      have hplus : '+' ∉ text := fun h => absurd (hdigits _ h) (by decide)
      have hminus : '-' ∉ text := fun h => absurd (hdigits _ h) (by decide)
      unfold readLevel
      split
      · exact absurd rfl hne
      · exact absurd List.mem_cons_self hplus
      · exact absurd List.mem_cons_self hminus
      · exact absurd List.mem_cons_self hplus
      · exact absurd List.mem_cons_self hminus
      · exact hread
    | @plus ds _ hds hn =>
      obtain ⟨hne, hdigits⟩ := hds
      obtain ⟨c, rest, rfl⟩ := List.exists_cons_of_ne_nil hne
      exact map_readDigits_iff.2 ⟨hdigits, hn⟩
    | @minus ds _ hds hn =>
      obtain ⟨hne, hdigits⟩ := hds
      obtain ⟨c, rest, rfl⟩ := List.exists_cons_of_ne_nil hne
      exact map_readDigits_iff.2 ⟨hdigits, hn⟩

/-- A level is written as one of its literals. -/
theorem literal_ofLevel (n : Int64) : Literal (ofLevel n).toList n := by
  have hdigits (m : Nat) : Digits (Nat.toDigits 10 m) :=
    ⟨Nat.toDigits_ne_nil,
      fun c hc => Nat.isDigit_of_mem_toDigits (by decide) (by decide) hc⟩
  have hvalue (m : Nat) : value (Nat.toDigits 10 m) = m :=
    Nat.ofDigitChars_toDigits (by decide) (by decide)
  unfold ofLevel ofInt
  split
  · rename_i m hm
    rw [String.toList_ofList]
    exact .plain (hdigits m) (by rw [hvalue, hm]; rfl)
  · rename_i m hm
    rw [String.toList_ofList]
    exact .minus (hdigits _) (by rw [hvalue, hm]; rfl)

end PlanSearch.Text
