import RankRunner.Proofs.Schedule.Counted
import RankRunner.Proofs.Schedule.InOrder

/-! # What a schedule in chunks leaves

As long as the launcher has no faults of its own, a schedule in chunks ends on its course, also
where it is asked to stop, where a wait fails or where children stay outstanding (`Broken`). It only
starts children and waits for any of them: to clear up is left to others (`Journal.Unswept`). -/

namespace RankRunner

open Effect

variable {σ : Type}

/-- A fault of the given family. -/
def Failure.IsOf (f : Failure) (family : Family) : Prop := ∃ d, f = .fault d ∧ d.family = family

/-- Whether an operation serves to clear up after a run that is stopped. -/
def Act.sweeps : Act → Bool
  | .wait .. | .kill .. | .drain .. => true
  | .start .. | .waitAny .. => false

namespace Journal

variable {J B : Journal σ}

/-- No child was killed or waited for on its own, and nothing was drained. -/
def Unswept (J : Journal σ) : Prop := ∀ e ∈ J, e.act.sweeps = false

/-- No case was to be started. -/
def Startless (B : Journal σ) : Prop := ∀ id, B.starts id = []

theorem Unswept.append (h : J.Unswept) (h' : B.Unswept) : (J ++ B).Unswept := fun e he =>
  (List.mem_append.1 he).elim (h e) (h' e)

theorem Unswept.snoc {e : Entry σ} (h : J.Unswept) (he : e.act.sweeps = false) :
    Unswept (J ++ [e]) :=
  h.append fun _ he' => List.mem_singleton.1 he' ▸ he

theorem Startless.append (h : J.Startless) (h' : B.Startless) : (J ++ B).Startless := fun id => by
  rw [starts_append, h id, h' id, List.append_nil]

theorem Startless.snoc {e : Entry σ} (h : B.Startless) (he : e.act.started? = none) :
    Startless (B ++ [e]) :=
  h.append fun _ => starts_of_started? he

end Journal

namespace Launcher

variable {launcher : Launcher σ} {inv : σ → Prop}

theorem Faultless.journaled (h : launcher.Faultless) : launcher.journaled.Faultless where
  start l c _ := ensures_recorded.2 (h.start l c _)
  waitAny _ := ensures_recorded.2 (h.waitAny _)
  wait pid _ := ensures_recorded.2 (h.wait pid _)
  kill pid _ := ensures_recorded.2 (h.kill pid _)
  drain _ := ensures_recorded.2 (h.drain _)

/-- A schedule only starts children and waits for any of them. -/
theorem Numbered.keeps_unswept (h : launcher.Numbered inv) :
    launcher.Keeps fun J t => inv t.backend ∧ J.Unswept where
  start _ _ l c hJ := (h.start l c _ hJ.1).mono (fun _ _ ht => ⟨ht, hJ.2.snoc rfl⟩)
    fun _ _ ht => ⟨ht, hJ.2.snoc rfl⟩
  waitAny _ _ hJ := (h.waitAny _ hJ.1).mono (fun _ _ ht => ⟨⟨ht.1, hJ.2.snoc rfl⟩, ht.2⟩)
    fun _ _ ht => ⟨ht, hJ.2.snoc rfl⟩
  unaffected _ _ _ _ _ hJ := hJ

end Launcher

namespace Schedule

open Siblings

section Faultless

variable {launcher : Launcher σ}

theorem ensures_isDue_true {α : Type} [WorkItem α] {rank : Int} {pos : Nat} (s : Scope α σ) :
    Ensures (isDue rank pos) (fun _ _ => True) (fun _ _ => False) s := by
  cases ha : s.list.items[pos]? with
  | none =>
    simp only [isDue, ensures_bind, ensures_get, ha]
    exact trivial
  | some a => exact ensures_isDue ha (fun _ => trivial) (fun _ _ => trivial) fun _ _ _ => trivial

theorem ensures_note_true (d : Completion) (s : Scope Case σ) :
    Ensures (note d) (fun _ _ => True) (fun _ _ => False) s :=
  ensures_note (fun _ _ => trivial) fun _ _ _ _ _ _ => trivial

variable (faultless : launcher.Faultless)
include faultless

theorem ensures_launch_raised (pos : Nat) (s : Scope Case σ) :
    Ensures (launch launcher pos) (fun _ _ => True) (fun f _ => ∃ q, f = .raised q) s := by
  cases hc : s.list.items[pos]? with
  | none =>
    simp only [launch, ensures_bind, Scope.ensures_at?, hc]
    exact trivial
  | some c =>
    exact ensures_launch hc ((faultless.start _ c _).mono (fun _ _ _ => trivial)
      fun _ _ hf => ⟨.inl hf, fun _ => trivial⟩)

/-- The collection of children fails for a failing wait, if not for something else that was
raised. -/
theorem ensures_reapFrom_failing (fuel reaped : Nat) (s : Scope Case σ) :
    Ensures (reapFrom launcher fuel reaped) (fun _ _ => True)
      (fun f _ => (∃ q, f = .raised q) ∨ f.IsOf .reap) s := by
  induction fuel generalizing reaped s with
  | zero => trivial
  | succ fuel ih =>
    simp only [reapFrom, ensures_bind, ensures_get, Scope.ensures_requested]
    split
    · trivial
    · simp only [ensures_bind, awaitAny, ensures_attempt, Scope.ensures_onHost]
      refine (faultless.waitAny s.host).mono (fun d? host _ => ?_) fun f host hf => ?_
      · cases d? with
        | none => trivial
        | some d =>
          refine ensures_bind.2 ((ensures_note_true d _).mono (fun noted t _ => ?_)
            fun _ _ h => h.elim)
          cases noted with
          | false => exact ih _ t
          | true => exact ih _ t
      · obtain ⟨q, rfl⟩ := hf
        dsimp only
        split
        · exact ih _ _
        · split
          · exact .inr ⟨_, rfl, rfl⟩
          · exact .inl ⟨q, rfl⟩

theorem ensures_barrier_failing (s : Scope Case σ) :
    Ensures (barrier launcher) (fun _ _ => True)
      (fun f _ => (∃ q, f = .raised q) ∨ f.IsOf .reap) s := by
  simp only [barrier, reap, ensures_bind, Scope.ensures_onHost, ensures_modify, ensures_attempt,
    ensures_get]
  refine (ensures_reapFrom_failing faultless _ 0 _).mono (fun n t _ => ?_) fun f t hf => ?_
  · rw [ensures_bind, ensures_get, ensures_ite]
    split
    · simp only [ensures_fail, Fault.family, if_true, ensures_bind, Scope.ensures_requested]
      split
      · trivial
      · exact .inr ⟨_, rfl, rfl⟩
    · trivial
  · rcases hf with ⟨q, rfl⟩ | ⟨d, rfl, hfamily⟩
    · exact .inl ⟨q, rfl⟩
    · have hne : d.family ≠ .reapIncomplete := by
        rw [hfamily]
        decide
      simp only [if_neg hne]
      exact .inr ⟨d, rfl, hfamily⟩

end Faultless

section OnCourse

variable {launcher : Launcher σ} {P : Journal σ → Host σ → Prop} {J₀ : Journal σ}
  {l₀ : Siblings Case} {limit : Nat}

/-- A wait has failed, or nobody reports the children that are outstanding, while the schedule was
on its course; unless something else was raised. -/
def Broken (P : Journal σ → Host σ → Prop) (J₀ : Journal σ) (l₀ : Siblings Case) (limit : Nat)
    (f : Failure) (t : Scope Case (Journaled σ)) : Prop :=
  (∃ q, f = .raised q) ∨
    f.IsOf .reap ∧ 0 < t.list.outstanding ∧ ∃ r k, OnCourse (fun _ => P) J₀ l₀ limit r k t

/-- A schedule in chunks stays on its course when it is asked to stop and when it fails, as long as
the launcher raises nothing that the runner does not expect. -/
theorem chunkRule_onCourse (keeps : launcher.Keeps P) (faultless : launcher.Faultless)
    (hr : l₀.Ranked) (hidle : ∀ c ∈ l₀.items, c.Idle) :
    ChunkRule launcher.journaled limit l₀.items.length
      (fun r k live s => OnCourse (fun _ => P) J₀ l₀ limit r k s ∧ s.list.live.length = live)
      (fun t => t.host.requested = true ∧ ∃ r k, OnCourse (fun _ => P) J₀ l₀ limit r k t)
      (Broken P J₀ l₀ limit) := by
  have always : ChunkRule launcher.journaled limit l₀.items.length
      (fun r k live s => OnCourse (fun _ => P) J₀ l₀ limit r k s ∧ s.list.live.length = live)
      (Stopped True (fun _ => P) J₀ l₀ limit)
      (fun _ s => Failed True (fun _ => P) J₀ l₀ limit s.host) :=
    chunkRule_of_keepsAt keeps.keepsAt hr hidle fun _ _ => trivial
  refine ⟨always.length, ?_, ?_, always.next⟩
  · intro r k live s hk hlive hs
    refine ((always.launch r k live s hk hlive hs).and (ensures_isDue_true s)).mono ?_
      fun _ _ hf => hf.2.elim
    rintro due t ⟨ht, _⟩
    cases due with
    | false => exact ht
    | true =>
      exact (ht.and (ensures_launch_raised faultless.journaled k t)).mono (fun _ _ hu => hu.1)
        fun _ _ hf => .inl hf.2
  · rintro r k live s _ _ _ ⟨hs, _⟩
    refine ((ensures_barrier_onCourse keeps.keepsAt hidle hs).and
      (ensures_barrier_failing faultless.journaled s)).mono ?_ ?_
    · rintro go t ⟨⟨ht, hgo⟩, _⟩
      cases go with
      | false => exact ⟨hgo, r, k, ht⟩
      | true => exact ⟨ht, hgo⟩
    · rintro f t ⟨⟨ht, hout, _⟩, hf⟩
      exact hf.imp id fun hf => ⟨hf, hout, r, k, ht⟩

/-- A schedule in chunks goes through all ranks, is asked to stop, or is broken. -/
theorem ensures_scheduleChunks_onCourse (keeps : launcher.Keeps P) (faultless : launcher.Faultless)
    (hr : l₀.Ranked) (hidle : ∀ c ∈ l₀.items, c.Idle) (hlimit : 0 < limit)
    (ho : l₀.outstanding = 0) {h : Host (Journaled σ)} (hP : P [] h.plain) :
    Ensures (scheduleChunks launcher.journaled limit)
      (fun _ t => OnCourse (fun _ => P) h.backend.journal l₀ limit (l₀.maxRank + 1) 0 t ∧
          t.list.live = [] ∨
        t.host.requested = true ∧ ∃ r k, OnCourse (fun _ => P) h.backend.journal l₀ limit r k t)
      (Broken P h.backend.journal l₀ limit) ⟨l₀, h⟩ := by
  refine (ensures_scheduleChunks_of_rule hr hidle (chunkRule_onCourse keeps faultless hr hidle)
    hlimit ho hP).mono (fun _ t ht => ht.imp id fun ht => ?_) fun _ _ hf => hf
  exact ht.elim id id

end OnCourse

end Schedule
end RankRunner
