import RankRunner.Proofs.Accounting
import RankRunner.Report

/-! # Labels and counters

The label of a case and the counter that it adds to are found by different tests, and tell the same
of it (`Case.shows_iff`). A tally is what a report says about the cases: their labels, and the
counters of the groups and of the run. Once the counters of a run have been set, its tally agrees
with itself (`Run.aggregate_agrees`). -/

namespace RankRunner

open Report

/-- The labels of statuses without a meaning of their own. -/
def isCodeLabel (label : String) : Bool := label.toList.head? == some 'E'

/-- Whether a label is that of a case with the standing. -/
def Standing.shows (k : Standing) (label : String) : Bool :=
  match k with
  | .passed => label == "PASS"
  | .failed => label == "FAIL" || isCodeLabel label
  | .aborted => label == "ABRT"
  | .skipped => label == "SKIP"
  | .notRun => label == "NOTRUN"

/-- What a report says about a group: its cases with their labels, and its counters. -/
structure GroupTally where
  id : String
  cases : List (String × String)
  synopsis : Synopsis
  deriving DecidableEq

structure Tally where
  groups : List GroupTally
  synopsis : Synopsis
  deriving DecidableEq

def GroupTally.labels (t : GroupTally) : List String := t.cases.map (·.2)

/-- The counters of a group tell how often there is each label. -/
structure GroupTally.Agrees (t : GroupTally) : Prop where
  known : ∀ label ∈ t.labels, label ∈ ["PASS", "FAIL", "ABRT", "SKIP", "NOTRUN"] ∨
    ∃ code : Int, label = "E" ++ toString code
  total : t.synopsis.total = t.labels.length
  passed : t.synopsis.passed = t.labels.count "PASS"
  failed : t.synopsis.failed = t.labels.countP fun label => label == "FAIL" || isCodeLabel label
  aborted : t.synopsis.aborted = t.labels.count "ABRT"
  skipped : t.synopsis.skipped = t.labels.count "SKIP"
  notRun : t.synopsis.notRun = t.labels.count "NOTRUN"

/-- The counters agree with the labels in each group, and those of the run are the sums of those of
the groups. -/
structure Tally.Agrees (t : Tally) : Prop where
  groups : ∀ g ∈ t.groups, g.Agrees
  total : t.synopsis.total = (t.groups.map (·.synopsis.total)).sum
  counter : ∀ k, t.synopsis.counter k = (t.groups.map (·.synopsis.counter k)).sum

def Group.tally (g : Group) : GroupTally where
  id := g.id
  cases := g.cases.items.map fun c => (c.id, caseLabel c)
  synopsis := g.synopsis

def Run.tally (r : Run) : Tally where
  groups := r.groups.items.map Group.tally
  synopsis := r.synopsis

/-! ## Labels -/

theorem Status.label_cases (s : Status) :
    (s = .success ∧ s.label = "PASS") ∨ (s = .failure ∧ s.label = "FAIL") ∨
      (s = .aborted ∧ s.label = "ABRT") ∨ (s = .skipped ∧ s.label = "SKIP") ∨
        (s ∉ [.success, .aborted, .skipped] ∧ s.label = "E" ++ toString s.code) := by
  obtain ⟨code⟩ := s
  unfold label named?
  split_ifs <;> simp_all [success, failure, aborted, skipped]

/-- No other label than those of codes starts as they do. -/
theorem Standing.shows_of_code {label : String} (h : label.toList.head? = some 'E') (k : Standing) :
    k.shows label = decide (k = .failed) := by
  have hne {s : String} (hs : s.toList.head? ≠ some 'E') : (label == s) = false := by
    refine beq_eq_false_iff_ne.2 ?_
    rintro rfl
    exact hs h
  cases k with
  | passed => exact hne (by decide)
  | aborted => exact hne (by decide)
  | skipped => exact hne (by decide)
  | notRun => exact hne (by decide)
  | failed => simp [shows, isCodeLabel, h]

/-- The label of a case shows what the case is counted as. -/
theorem Case.shows_iff (c : Case) (k : Standing) :
    k.shows (caseLabel c) = true ↔ k.Holds c.status c.notRun := by
  rw [Standing.holds_iff, caseLabel]
  cases c.notRun with
  | true =>
    have hfind : Standing.find c.status true = .notRun := rfl
    rw [if_pos rfl, hfind]
    cases k <;> decide
  | false =>
    rcases c.status.label_cases with ⟨hs, hl⟩ | ⟨hs, hl⟩ | ⟨hs, hl⟩ | ⟨hs, hl⟩ | ⟨hs, hl⟩ <;>
      rw [if_neg Bool.false_ne_true, hl]
    case inr.inr.inr.inr =>
      have hfind : Standing.find c.status false = .failed := by
        simp_all [Standing.find]
      rw [Standing.shows_of_code (by simp), hfind, decide_eq_true_iff, eq_comm]
    all_goals
      rw [hs]
      cases k <;> decide

theorem caseLabel_known (c : Case) :
    caseLabel c ∈ ["PASS", "FAIL", "ABRT", "SKIP", "NOTRUN"] ∨
      ∃ code : Int, caseLabel c = "E" ++ toString code := by
  unfold caseLabel
  split
  · exact .inl (by decide)
  · rcases c.status.label_cases with ⟨-, hl⟩ | ⟨-, hl⟩ | ⟨-, hl⟩ | ⟨-, hl⟩ | ⟨-, hl⟩ <;> rw [hl]
    case inr.inr.inr.inr => exact .inr ⟨_, rfl⟩
    all_goals exact .inl (by decide)

/-! ## Counters -/

theorem Group.labels_tally (g : Group) : g.tally.labels = g.cases.items.map caseLabel := by
  rw [GroupTally.labels, tally, List.map_map]
  rfl

theorem Synopsis.Counts.agrees {g : Group} (h : g.synopsis.Counts g.cases.items) :
    g.tally.Agrees := by
  have hcounter (k : Standing) : g.synopsis.counter k = g.tally.labels.countP k.shows := by
    rw [h.counter, g.labels_tally, List.countP_map]
    refine congrArg _ (List.countP_congr fun c _ => ?_)
    rw [decide_eq_true_iff, Function.comp_apply, c.shows_iff]
  exact {
    known := by
      rw [g.labels_tally]
      exact List.forall_mem_map.2 fun c _ => caseLabel_known c
    total := by
      rw [g.labels_tally, List.length_map]
      exact h.total
    passed := hcounter .passed
    failed := hcounter .failed
    aborted := hcounter .aborted
    skipped := hcounter .skipped
    notRun := hcounter .notRun }

/-- Once the counters of a run have been set, they agree with the labels of its cases. -/
theorem Run.aggregate_agrees (r : Run) : r.aggregate.tally.Agrees where
  groups := by
    refine List.forall_mem_map.2 fun g hg => ?_
    exact (r.aggregate_groups_counts g hg).agrees
  total := by
    have htotal := Synopsis.total_merged {} r.aggregate.groups.items
    rw [tally, List.map_map]
    exact htotal.trans (zero_add _)
  counter k := by
    have hcounter := Synopsis.counter_merged {} r.aggregate.groups.items k
    rw [tally, List.map_map]
    refine hcounter.trans ?_
    cases k <;> exact zero_add _

end RankRunner
