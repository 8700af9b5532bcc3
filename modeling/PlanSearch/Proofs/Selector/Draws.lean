/-
Draws that come to an end.

A selector in random order draws until a draw hits. Most kinds hit with
every draw: what they draw from is known not to be empty before the first
one, and nothing they draw is refused (`Leaf.Plain`,
`Leaf.Plain.steady`). The others may be refused any number of times, and
whether a hit comes at last is a matter of the stream. `Sampler.Hits` says
that it does; it is what the rest of the theory of passes asks of such a
leaf, and what a plain one has (`Sampler.Sure.steady`).
-/
import PlanSearch.Proofs.Chance
import PlanSearch.Proofs.Selector.Pillars
import PlanSearch.Selector.Reading

namespace PlanSearch

-- ================================================================== samplers

namespace Sampler

variable {S V : Type} {sampler : Sampler S V}

/-- Attempt after attempt, one comes that is not refused. -/
inductive Hits (sampler : Sampler S V) : List Nat → Stream → Prop
  | take {held : List Nat} {stream after : Stream} {m : Move S V} :
      Reading.attempt sampler held stream = .ok (.take m, after) →
        Hits sampler held stream
  | stop {held : List Nat} {stream after : Stream} :
      Reading.attempt sampler held stream = .ok (.stop, after) →
        Hits sampler held stream
  | again {held kept : List Nat} {stream after : Stream} :
      Reading.attempt sampler held stream = .ok (.again kept, after) →
        Hits sampler kept after →
      Hits sampler held stream

/-- From wherever the stream is at, a new draw is not refused for ever. -/
def Steady (sampler : Sampler S V) : Prop := ∀ stream, sampler.Hits [] stream

/-- No attempt fails, and none is refused. -/
structure Sure (sampler : Sampler S V) : Prop where
  safe : ∀ held, (sampler held).Safe
  hit : ∀ held kept, ¬(sampler held).Yields (.again kept)

/-- A sampler that refuses nothing is steady. -/
theorem Sure.steady (h : sampler.Sure) : sampler.Steady := by
  intro stream
  obtain ⟨outcome, after, hrun⟩ := (h.safe []).exists_run stream
  cases outcome with
  | take m => exact .take hrun
  | stop => exact .stop hrun
  | again kept => exact absurd (Chance.yields_of_run hrun) (h.hit [] kept)

/-- Patience enough for all the refusals, and the draw comes to an answer. -/
theorem Hits.drawNext {held : List Nat} {stream : Stream}
    (h : sampler.Hits held stream) :
    ∃ n turn after, turn ≠ .stuck ∧ ∀ fuel, n ≤ fuel →
      Reading.drawNext fuel sampler held stream
        = .ok (turn, .drawn sampler [] after) := by
  induction h with
  | @take held stream after m hattempt =>
      refine ⟨1, .move m, after, nofun, fun fuel hfuel => ?_⟩
      obtain ⟨k, rfl⟩ : ∃ k, fuel = k + 1 := ⟨fuel - 1, by omega⟩
      rw [Reading.drawNext, hattempt]
  | @stop held stream after hattempt =>
      refine ⟨1, .ended, after, nofun, fun fuel hfuel => ?_⟩
      obtain ⟨k, rfl⟩ : ∃ k, fuel = k + 1 := ⟨fuel - 1, by omega⟩
      rw [Reading.drawNext, hattempt]
  | again hattempt _ ih =>
      obtain ⟨n, turn, after, hturn, hlater⟩ := ih
      refine ⟨n + 1, turn, after, hturn, fun fuel hfuel => ?_⟩
      obtain ⟨k, rfl⟩ : ∃ k, fuel = k + 1 := ⟨fuel - 1, by omega⟩
      rw [Reading.drawNext, hattempt]
      exact hlater k (by omega)

end Sampler

-- ==================================================================== leaves

namespace Leaf

variable {S V : Type}

/-- The kinds that refuse nothing they draw. -/
inductive Plain : Leaf S V → Prop
  | change (x : BasicVariable S V) : Plain (.change x false)
  | swap (targets : List (BasicVariable S V)) : Plain (.swap targets)
  | pillarChange (x : BasicVariable S V) (sub : SubPillars) :
    Plain (.pillarChange x sub)
  | pillarSwap (targets : List (BasicVariable S V)) (sub : SubPillars) :
      Plain (.pillarSwap targets sub)
  | moveList (factory : MoveList S V) : Plain (.moveList factory)

/-- Drawing a pair asks for nothing impossible if there are two. -/
theorem safe_drawPair {n : Nat} (h : 2 ≤ n) : (drawPair n).Safe :=
  Chance.safe_bind (Chance.safe_drawBelow (by omega)) fun _ _ =>
    Chance.safe_bind (Chance.safe_drawBelow (by omega)) fun _ _ =>
      Chance.safe_pure _

/-- Sampling a pillar asks for nothing impossible. -/
theorem safe_sample (sub : SubPillars) (number : Nat) (group : List Nat) :
    (Pillar.sample sub number group).Safe := by
  unfold Pillar.sample
  split
  · rename_i low high hsizes
    split
    · exact Chance.safe_bind
          (Chance.safe_drawBetween (SubPillars.sizes_le hsizes)) fun _ _ =>
        Chance.safe_bind (Chance.safe_drawBetween (Nat.zero_le _)) fun _ _ =>
          Chance.safe_pure _
    · exact Chance.safe_pure _
  · exact Chance.safe_pure _

/-- A move that has not come out ends the pass; it is not drawn again. -/
theorem ofOption_ne_again (found : Option (Move S V)) (kept : List Nat) :
    Attempt.ofOption found ≠ .again kept := by
  cases found with
  | none => exact nofun
  | some m => exact nofun

variable {s : S} {sampler : Sampler S V}

/-- Sampled changes ask for nothing impossible. -/
theorem safe_changeSampler [BEq V] {x : BasicVariable S V} {skipNoops : Bool}
    (h : changeSampler x skipNoops s = some sampler) (held : List Nat) :
    (sampler held).Safe := by
  obtain ⟨hguard, hsampler⟩ := Option.ite_none_left_eq_some.mp h
  have hcount : 0 < x.count s := by
    refine Nat.pos_of_ne_zero fun hzero => hguard ?_
    rw [hzero]
    rfl
  have hvalues : x.values s ≠ [] := by
    intro hnil
    refine hguard ?_
    rw [hnil, List.isEmpty_nil, Bool.or_true]
    rfl
  cases hsampler
  refine Chance.safe_bind (Chance.safe_drawBelow hcount) fun _ _ => ?_
  refine Chance.safe_bind (Chance.safe_pick hvalues) fun value _ => ?_
  cases value with
  | none => exact Chance.safe_pure _
  | some v => exact Chance.safe_pure _

/-- Sampled changes are never refused unless those without effect are
skipped. -/
theorem sure_changeSampler [BEq V] {x : BasicVariable S V}
    (h : changeSampler x false s = some sampler) : sampler.Sure := by
  refine ⟨safe_changeSampler h, fun _ kept hagain => ?_⟩
  obtain ⟨-, hsampler⟩ := Option.ite_none_left_eq_some.mp h
  cases hsampler
  obtain ⟨_, -, hagain⟩ := Chance.yields_bind hagain
  obtain ⟨value, -, hagain⟩ := Chance.yields_bind hagain
  cases value with
  | none => cases Chance.yields_pure hagain
  | some v => cases Chance.yields_pure hagain

/-- Sampled swaps are never refused. -/
theorem sure_swapSampler {targets : List (BasicVariable S V)}
    (h : swapSampler targets s = some sampler) : sampler.Sure := by
  obtain ⟨hcount, hsampler⟩ := Option.ite_none_left_eq_some.mp h
  cases hsampler
  refine ⟨fun _ => ?_, fun _ kept hagain => ?_⟩
  · exact Chance.safe_bind (safe_drawPair (Nat.le_of_not_lt hcount)) fun _ _ =>
      Chance.safe_pure _
  · obtain ⟨_, -, hagain⟩ := Chance.yields_bind hagain
    cases Chance.yields_pure hagain

/-- Sampled changes of pillars are never refused. -/
theorem sure_pillarChangeSampler [BEq V] {x : BasicVariable S V}
    {sub : SubPillars} (h : pillarChangeSampler x sub s = some sampler) :
    sampler.Sure := by
  obtain ⟨hguard, hsampler⟩ := Option.ite_none_left_eq_some.mp h
  rw [Bool.or_eq_true, not_or, List.isEmpty_iff, List.isEmpty_iff] at hguard
  obtain ⟨hvalues, hgroups⟩ := hguard
  cases hsampler
  refine ⟨fun _ => ?_, fun _ kept hagain => ?_⟩
  · refine Chance.safe_bind
      (Chance.safe_drawBelow (List.length_pos_iff.mpr hgroups)) ?_
    refine fun _ _ => Chance.safe_bind (safe_sample _ _ _) fun _ _ => ?_
    refine Chance.safe_bind (Chance.safe_pick hvalues) fun value _ => ?_
    cases value with
    | none => exact Chance.safe_pure _
    | some v => exact Chance.safe_pure _
  · obtain ⟨_, -, hagain⟩ := Chance.yields_bind hagain
    obtain ⟨_, -, hagain⟩ := Chance.yields_bind hagain
    obtain ⟨value, -, hagain⟩ := Chance.yields_bind hagain
    cases value with
    | none => cases Chance.yields_pure hagain
    | some v => exact ofOption_ne_again _ _ (Chance.yields_pure hagain)

theorem sure_pillarSwapSampler [BEq V] {targets : List (BasicVariable S V)}
    {sub : SubPillars} (h : pillarSwapSampler targets sub s = some sampler) :
    sampler.Sure := by
  obtain ⟨hgroups, hsampler⟩ := Option.ite_none_left_eq_some.mp h
  cases hsampler
  refine ⟨fun _ => ?_, fun _ kept hagain => ?_⟩
  · refine Chance.safe_bind (safe_drawPair (Nat.le_of_not_lt hgroups))
      fun _ _ => ?_
    refine Chance.safe_bind (safe_sample _ _ _) fun _ _ => ?_
    exact Chance.safe_bind (safe_sample _ _ _) fun _ _ => Chance.safe_pure _
  · obtain ⟨_, -, hagain⟩ := Chance.yields_bind hagain
    obtain ⟨_, -, hagain⟩ := Chance.yields_bind hagain
    obtain ⟨_, -, hagain⟩ := Chance.yields_bind hagain
    exact ofOption_ne_again _ _ (Chance.yields_pure hagain)

/-- Draws from what someone else lists. -/
theorem sure_pick {moves : List (Move S V)} (h : moves ≠ []) :
    Sampler.Sure (fun _ => do
      return Attempt.ofOption (← Chance.pick moves) : Sampler S V) := by
  refine ⟨fun _ => Chance.safe_bind (Chance.safe_pick h) fun _ _ =>
    Chance.safe_pure _, fun _ kept hagain => ?_⟩
  obtain ⟨_, -, hagain⟩ := Chance.yields_bind hagain
  exact ofOption_ne_again _ _ (Chance.yields_pure hagain)

variable [BEq V] {l : Leaf S V}

/-- Every draw of a plain leaf hits, or ends the pass. -/
theorem Plain.sure (plain : l.Plain) (h : l.sampler s = some sampler) :
    sampler.Sure := by
  cases plain with
  | change x => exact sure_changeSampler h
  | swap targets => exact sure_swapSampler h
  | pillarChange x sub => exact sure_pillarChangeSampler h
  | pillarSwap targets sub => exact sure_pillarSwapSampler h
  | moveList factory =>
      obtain ⟨hmoves, hsampler⟩ := Option.ite_none_left_eq_some.mp h
      cases hsampler
      rw [List.isEmpty_iff] at hmoves
      exact sure_pick hmoves

/-- Where the leaf draws at all, it is not refused for ever. -/
def Steady (s : S) (l : Leaf S V) : Prop :=
  ∀ sampler, l.sampler s = some sampler → sampler.Steady

/-- A leaf that refuses nothing is steady over every solution. -/
theorem Plain.steady (plain : l.Plain) (s : S) : l.Steady s :=
  fun _ h => (plain.sure h).steady

end Leaf

end PlanSearch
