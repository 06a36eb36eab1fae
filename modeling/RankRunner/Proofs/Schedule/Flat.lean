import RankRunner.Proofs.Launcher.Laws
import RankRunner.Proofs.Schedule.BailOut
import RankRunner.Proofs.Schedule.Loops
import RankRunner.Schedule.Inline

/-! # Schedules that go no further than rank zero

A list whose largest rank is zero is scheduled for its items of that rank. Whatever its cases do,
and whatever a launcher does with them as long as its completions carry the number of a process,
the cases of all other ranks are spared (`Siblings.Spared`). That holds for each part of a schedule,
and for a bail-out. -/

namespace RankRunner

open Effect

variable {σ : Type}

/-- A case may change if it is of rank zero. -/
structure Case.Spared (c₀ c : Case) : Prop where
  rank : c.rank = c₀.rank
  same : c₀.rank ≠ 0 → c = c₀

theorem Case.Spared.refl (c : Case) : c.Spared c := ⟨rfl, fun _ => rfl⟩

theorem Case.Spared.trans {a b c : Case} (h : a.Spared b) (h' : b.Spared c) : a.Spared c := by
  refine ⟨h'.rank.trans h.rank, fun hne => ?_⟩
  rw [← h.rank] at hne
  rw [h'.same hne, h.same (h.rank ▸ hne)]

namespace Siblings

variable {l₀ l : Siblings Case} {pos : Nat} {c : Case}

/-- The cases that are not of rank zero are as they were. -/
def Spared (l₀ l : Siblings Case) : Prop := List.Forall₂ Case.Spared l₀.items l.items

namespace Spared

theorem refl (l : Siblings Case) : l.Spared l := List.forall₂_same.2 fun c _ => .refl c

theorem modify (h : l₀.Spared l) (hc : l.items[pos]? = some c) (hrank : c.rank = 0)
    {f : Case → Case} (hf : (f c).rank = c.rank) : l₀.Spared (l.modify pos f) := by
  have hstep : List.Forall₂ Case.Spared l.items (l.modify pos f).items := by
    refine List.forall₂_modify Case.Spared.refl fun a ha => ?_
    cases hc.symm.trans ha
    exact ⟨hf, fun hne => absurd hrank hne⟩
  refine (h.comp hstep).imp ?_
  rintro a b ⟨_, hab, hbc⟩
  exact hab.trans hbc

/-- If nothing was running at first, what is running is of rank zero. -/
theorem rank_of_pid (h : l₀.Spared l) (hidle : ∀ c ∈ l₀.items, c.pid = none) (hc : c ∈ l.items)
    (hpid : c.pid.isSome) : c.rank = 0 := by
  obtain ⟨c₀, hc₀, hs⟩ := h.exists_of_mem_right hc
  refine Decidable.byContradiction fun hne => ?_
  rw [hs.rank] at hne
  rw [hs.same hne, hidle c₀ hc₀] at hpid
  cases hpid

end Spared

end Siblings

namespace Schedule

open Siblings

/-- A list that has no rank but zero is gone through once, unless the run is asked to stop. -/
theorem ensures_schedule_flat {α : Type} [WorkItem α] {dispatch : Nat → Effect (Scope α σ) Unit}
    {I : Nat → Scope α σ → Prop} {E : Failure → Scope α σ → Prop} {s : Scope α σ} {n : Nat}
    (hranks : s.list.ranks = [0]) (hlen : s.list.items.length = n)
    (step : ∀ k s, k < n → I k s →
      Ensures (isDue 0 k) (fun due s => if due then
        Ensures (dispatch k) (fun _ => I (k + 1)) E s else I (k + 1) s) E s) (h : I 0 s) :
    Ensures (schedule dispatch) (fun _ t => ∃ k, I k t) E s := by
  simp only [schedule, ensures_bind, ensures_get, hranks, scheduleRanks, Scope.ensures_requested]
  split
  · exact ⟨0, h⟩
  · simp only [ensures_bind, ensures_get, hlen, List.range_eq_range']
    exact (ensures_scheduleRank (I := fun _ => I) step n (Nat.zero_add n) h).mono
      (fun _ t ht => ⟨n, ht⟩) fun _ _ h => h

variable {launcher : Launcher σ} {inv : σ → Prop} {l₀ : Siblings Case} {s : Scope Case σ}
  {pos : Nat} {c : Case}

/-- Cases of other ranks are spared, and the launcher keeps its invariant. -/
def Sparing (inv : σ → Prop) (l₀ : Siblings Case) (s : Scope Case σ) : Prop :=
  l₀.Spared s.list ∧ inv s.host.backend

theorem ensures_isDue_sparing {E : Failure → Scope Case σ → Prop} (h : Sparing inv l₀ s) :
    Ensures (isDue 0 pos) (fun due t => Sparing inv l₀ t ∧
      (due = true → ∃ c, t.list.items[pos]? = some c ∧ c.rank = 0)) E s := by
  cases hc : s.list.items[pos]? with
  | none =>
    simp only [isDue, ensures_bind, ensures_get, hc]
    exact ⟨h, fun hdue => absurd hdue Bool.false_ne_true⟩
  | some c =>
    refine ensures_isDue hc (fun _ => ?_) (fun hrank _ => ?_) fun hrank _ _ => ?_
    · exact ⟨h, fun hdue => absurd hdue Bool.false_ne_true⟩
    · exact ⟨h, fun _ => ⟨c, hc, hrank⟩⟩
    · exact ⟨⟨h.1.modify hc hrank rfl, h.2⟩, fun hdue => absurd hdue Bool.false_ne_true⟩

theorem ensures_runInline_spared (h : l₀.Spared s.list) (hc : s.list.items[pos]? = some c)
    (hrank : c.rank = 0) :
    Ensures (runInline pos) (fun _ t => l₀.Spared t.list) (fun _ t => l₀.Spared t.list) s := by
  simp only [runInline, ensures_bind, Scope.ensures_at?, hc, Scope.ensures_stampStart]
  rw [Scope.ensures_onHost]
  refine ensures_true.mono (fun status t _ => ?_) fun f t _ => h.modify hc hrank rfl
  simp only [ensures_bind, Scope.ensures_modifyAt, Scope.ensures_stampStop, modify_modify]
  rw [Scope.ensures_showCase (modify_getElem? hc)]
  exact h.modify hc hrank rfl

theorem ensures_schedule_spared (h : l₀.Spared s.list) (hranks : s.list.ranks = [0]) :
    Ensures (schedule runInline) (fun _ t => l₀.Spared t.list) (fun _ t => l₀.Spared t.list)
      s := by
  refine (ensures_schedule_flat (I := fun _ => Sparing (fun _ => True) l₀) hranks rfl ?_
    ⟨h, trivial⟩).mono (fun _ t ht => ?_) fun _ _ h => h
  · intro k t _ ht
    refine (ensures_isDue_sparing ht).mono ?_ fun _ _ h => h
    rintro (_ | _) u ⟨hu, hdue⟩
    · exact hu
    · obtain ⟨c, hc, hrank⟩ := hdue rfl
      exact (ensures_runInline_spared hu.1 hc hrank).mono (fun _ _ h => ⟨h, trivial⟩)
        fun _ _ h => h
  · obtain ⟨_, ht⟩ := ht
    exact ht.1

section Chunks

variable (numbered : launcher.Numbered inv)
include numbered

theorem ensures_launch_sparing (h : Sparing inv l₀ s) (hc : s.list.items[pos]? = some c)
    (hrank : c.rank = 0) :
    Ensures (launch launcher pos) (fun _ => Sparing inv l₀) (fun _ => Sparing inv l₀) s := by
  refine ensures_launch hc
    ((numbered.start (atLaunch pos s) c _ (by exact h.2)).mono (fun pid t ht => ?_)
      fun f t ht => ?_)
  · exact ⟨h.1.modify hc hrank rfl, ht⟩
  · exact ⟨.inl ⟨h.1.modify hc hrank rfl, ht⟩, fun _ => ⟨h.1.modify hc hrank rfl, ht⟩⟩

variable (hidle : ∀ c ∈ l₀.items, c.pid = none)
include hidle

theorem ensures_reapFrom_sparing (fuel reaped : Nat) (h : Sparing inv l₀ s) :
    Ensures (reapFrom launcher fuel reaped) (fun _ => Sparing inv l₀) (fun _ => Sparing inv l₀)
      s := by
  refine ensures_reapFrom (K := fun _ => Sparing inv l₀) (fun _ _ h _ => h) ?_ fuel reaped s h
  intro fuel t ht _ _
  refine (numbered.waitAny _ ht.2).mono ?_ fun f u hu => ⟨⟨ht.1, hu⟩, .inl ⟨ht.1, hu⟩⟩
  rintro (_ | d) u ⟨hu, hd⟩
  · exact ⟨ht.1, hu⟩
  · refine ensures_note (fun _ _ => ⟨ht.1, hu⟩) fun pos c hc hpid _ _ => ?_
    have hsome : c.pid.isSome := hpid ▸ hd d rfl
    exact ⟨ht.1.modify hc (ht.1.rank_of_pid hidle (List.mem_of_getElem? hc) hsome) rfl, hu⟩

theorem ensures_barrier_sparing (h : Sparing inv l₀ s) :
    Ensures (barrier launcher) (fun _ => Sparing inv l₀) (fun _ => Sparing inv l₀) s := by
  refine (ensures_barrier (K := fun _ => Sparing inv l₀)
    (fun fuel reaped t ht => ensures_reapFrom_sparing numbered hidle fuel reaped ht)
    (fun _ _ ht => ht) (fun _ _ ht => ht) h).mono ?_ ?_
  · rintro (_ | _) t ht
    · exact ht.1.elim id And.left
    · exact ht.1
  · intro f t ht
    exact ht.elim id And.left

theorem ensures_chunkRank_sparing (limit live : Nat) (positions : List Nat)
    (h : Sparing inv l₀ s) : Ensures (chunkRank launcher limit 0 live positions)
      (fun _ => Sparing inv l₀) (fun _ => Sparing inv l₀) s := by
  induction positions generalizing live s with
  | nil => exact h
  | cons pos rest ih =>
    simp only [chunkRank, ensures_bind]
    refine (ensures_isDue_sparing h).mono ?_ fun _ _ h => h
    rintro (_ | _) t ⟨ht, hdue⟩
    · exact ih live ht
    · obtain ⟨c, hc, hrank⟩ := hdue rfl
      rw [if_pos rfl, ensures_bind]
      refine (ensures_launch_sparing numbered ht hc hrank).mono (fun started u hu => ?_)
        fun _ _ h => h
      generalize (if started then live + 1 else live) = live
      split
      · rw [ensures_bind]
        refine (ensures_barrier_sparing numbered hidle hu).mono (fun go v hv => ?_) fun _ _ h => h
        cases go with
        | true => exact ih 0 hv
        | false => exact hv
      · exact ih _ hu

theorem ensures_scheduleChunks_sparing (limit : Nat) (h : Sparing inv l₀ s)
    (hranks : s.list.ranks = [0]) : Ensures (scheduleChunks launcher limit)
      (fun _ => Sparing inv l₀) (fun _ => Sparing inv l₀) s := by
  simp only [scheduleChunks, ensures_bind, ensures_get, hranks, chunkRanks,
    Scope.ensures_requested]
  split
  · exact h
  · simp only [ensures_bind, ensures_get]
    refine (ensures_chunkRank_sparing numbered hidle limit 0 _ h).mono ?_ fun _ _ h => h
    rintro (_ | _ | live) t ht
    · exact ht
    · exact ht
    · refine ensures_bind.2 ((ensures_barrier_sparing numbered hidle ht).mono (fun go u hu => ?_)
        fun _ _ h => h)
      cases go with
      | true => exact hu
      | false => exact hu

end Chunks

theorem ensures_killAll_list (positions : List Nat) (host : Host σ) :
    Ensures (killAll launcher positions) (fun _ t => t.list = s.list) (fun _ t => t.list = s.list)
      { s with host } :=
  (Clearing.any.ensures_killAll positions trivial).mono (fun _ _ ht => ht.1) fun _ _ ht => ht.2.1

theorem ensures_abort_spared (hidle : ∀ c ∈ l₀.items, c.pid = none) (pos : Nat)
    (h : l₀.Spared s.list) : Ensures (abort launcher pos) (fun _ t => l₀.Spared t.list)
      (fun _ t => l₀.Spared t.list) s := by
  by_cases hnone : ∀ c ∈ s.list.items[pos]?, c.pid = none
  · exact ensures_abort_idle hnone h
  · push Not at hnone
    obtain ⟨c, hc, hne⟩ := hnone
    obtain ⟨pid, hpid⟩ := Option.ne_none_iff_exists'.1 hne
    have hrank := h.rank_of_pid hidle (List.mem_of_getElem? hc) (hpid ▸ rfl)
    refine ensures_abort_running hc hpid (ensures_true.mono (fun done t _ clock time => ?_)
      fun _ _ _ => h)
    exact h.modify hc hrank rfl

theorem ensures_abortAll_spared (hidle : ∀ c ∈ l₀.items, c.pid = none) (positions : List Nat)
    (h : l₀.Spared s.list) : Ensures (abortAll launcher positions) (fun _ t => l₀.Spared t.list)
      (fun _ t => l₀.Spared t.list) s := by
  induction positions generalizing s with
  | nil => exact h
  | cons pos rest ih =>
    rw [abortAll, ensures_bind]
    exact (ensures_abort_spared hidle pos h).mono (fun _ _ ht => ih ht) fun _ _ ht => ht

/-- A bail-out aborts what is running, and spares what is not. -/
theorem ensures_bailOut_spared (hidle : ∀ c ∈ l₀.items, c.pid = none) (reason : String)
    (h : l₀.Spared s.list) : Ensures (bailOut launcher reason) (fun _ _ => False)
      (fun _ t => l₀.Spared t.list) s := by
  simp only [bailOut, ensures_bind, ensures_get]
  refine (ensures_killAll_list _ s.host).mono (fun _ t ht => ?_) fun _ t ht => ht ▸ h
  rw [ensures_bind]
  refine (ensures_abortAll_spared hidle _ (ht ▸ h)).mono (fun _ u hu => ?_) fun _ _ hu => hu
  rw [ensures_bind, Scope.ensures_onHost]
  exact ensures_true.mono (fun _ _ _ => hu) fun _ _ _ => hu

end Schedule
end RankRunner
