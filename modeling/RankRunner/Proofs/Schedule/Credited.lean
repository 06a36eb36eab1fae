import RankRunner.Proofs.Schedule.Counted
import RankRunner.Proofs.Schedule.Left
import RankRunner.Proofs.Schedule.Returned

/-! # Credit for cases

A case that is not running and counts as a success has earned it, or was never dispatched, since
items count as successes until something else is recorded (`Credited`). However a schedule of cases
ends, its list is credited, and to bail out keeps it so and leaves nothing running. -/

namespace RankRunner

open Effect Siblings

variable {σ : Type}

namespace Schedule

variable {launcher : Launcher σ} {inv : σ → Prop} {sandboxed : Bool} {J J₀ B : Journal σ}
  {l₀ l l' : Siblings Case} {limit : Nat} {r : Int} {k : Nat} {c : Case}

/-- That a case was dispatched and ended with success is on record: its child exited with code zero,
or its function was called and came to code zero. -/
def Earned (sandboxed : Bool) (J : Journal σ) (c : Case) : Prop :=
  if sandboxed then J.Green c.id else c.Returned (Journaled σ)

theorem earned_true : Earned true J c ↔ J.Green c.id := Iff.rfl

theorem earned_false : Earned false J c ↔ c.Returned (Journaled σ) := Iff.rfl

structure Undispatched (J : Journal σ) (c : Case) : Prop where
  start : c.start = none
  starts : J.starts c.id = []

structure Credited (sandboxed : Bool) (J : Journal σ) (l : Siblings Case) : Prop where
  counted : l.Counted
  credit : ∀ c ∈ l.items, c.pid = none → c.succeeded = true →
    Earned sandboxed J c ∨ Undispatched J c

/-- Nothing is running, and every success was earned. -/
structure Completed (sandboxed : Bool) (J : Journal σ) (l : Siblings Case) : Prop where
  live : l.live = []
  earned : ∀ c ∈ l.items, c.succeeded = true → Earned sandboxed J c

/-- What a schedule leaves: the children of the running cases are those that were started and not
reaped, and nothing was done to clear them up. -/
structure Left (sandboxed : Bool) (J : Journal σ) (l : Siblings Case) : Prop
    extends Credited sandboxed J l where
  pids : l.pids = J.unreaped
  unswept : J.Unswept

theorem Earned.append (h : Earned sandboxed J c) (hB : B.Startless) :
    Earned sandboxed (J ++ B) c := by
  cases sandboxed with
  | true => exact (earned_true.1 h).append (hB c.id)
  | false => exact earned_false.1 h

theorem Undispatched.append (h : Undispatched J c) (hB : B.Startless) :
    Undispatched (J ++ B) c :=
  ⟨h.start, by rw [Journal.starts_append, h.starts, hB, List.append_nil]⟩

/-- When the running cases of a credited list have been aborted, it is credited. -/
theorem Credited.aborting {τ : Type} {B' : Journal τ} (h : Credited sandboxed J l)
    (habort : Aborting (livePositions l) B' l l') (hB : B.Startless) :
    Credited sandboxed (J ++ B) l' ∧ l'.live = [] := by
  obtain ⟨hzero, hidle⟩ := habort.settled h.counted
  refine ⟨⟨.of_live hzero (live_eq_nil hidle), fun c' hc' hpid hs => ?_⟩, live_eq_nil hidle⟩
  obtain ⟨c, hc, hdropped⟩ := habort.cases.exists_of_mem_right hc'
  cases hdropped with
  | kept => exact (h.credit c' hc hpid hs).imp (·.append hB) (·.append hB)
  | aborted pid t done hrunning => cases hs

section Chunks

/-- On its course a schedule in chunks credits its list. -/
theorem Underway.credited (hstart : ∀ c ∈ l₀.items, c.start = none)
    (h : Underway l₀ limit r k J l) : Credited true J l := by
  refine ⟨h.live_length, fun c hc hpid hs => ?_⟩
  obtain ⟨p, hp⟩ := List.mem_iff_getElem?.1 hc
  obtain ⟨c₀, hc₀, hid, _, hpassed | hahead⟩ := h.related hp
  · rw [earned_true, hid]
    exact .inl (hpassed.green hpid hs)
  · rw [hahead.eq]
    exact .inr ⟨hstart c₀ (List.mem_of_getElem? hc₀), hahead.starts⟩

theorem Underway.completed (hr : l₀.Ranked) (h : Underway l₀ limit (l₀.maxRank + 1) 0 J l)
    (hlive : l.live = []) : Completed true J l := by
  refine ⟨hlive, fun c hc hs => ?_⟩
  obtain ⟨c₀, _, hpassed⟩ := (h.upto.forall₂ hr).exists_of_mem_right hc
  rw [earned_true, hpassed.id]
  exact hpassed.green (pid_of_live hlive c hc) hs

/-- However a schedule in chunks ends, unless for something else that was raised, it tells what it
leaves. -/
theorem ensures_scheduleChunks_left (numbered : launcher.Numbered inv)
    (faultless : launcher.Faultless) (hr : l₀.Ranked) (hidle : ∀ c ∈ l₀.items, c.Idle)
    (hstart : ∀ c ∈ l₀.items, c.start = none) (hlimit : 0 < limit) (ho : l₀.outstanding = 0)
    {h : Host (Journaled σ)} (hinv : inv h.backend.backend) :
    Ensures (scheduleChunks launcher.journaled limit)
      (fun _ t => ∃ J, t.host.backend.journal = h.backend.journal ++ J ∧
        inv t.host.backend.backend ∧ Left true J t.list ∧
        (t.host.requested = false → Completed true J t.list))
      (fun f t => (∃ q, f = .raised q) ∨ f.IsOf .reap ∧ 0 < t.list.outstanding ∧
        ∃ J, t.host.backend.journal = h.backend.journal ++ J ∧ Left true J t.list) ⟨l₀, h⟩ := by
  have hleft {J : Journal σ} {r : Int} {k : Nat} {l : Siblings Case}
      (hu : Underway l₀ limit r k J l) (hJ : J.Unswept) : Left true J l :=
    ⟨hu.credited hstart, hu.pids, hJ⟩
  have hnone : Journal.Unswept ([] : Journal σ) := fun _ he => absurd he List.not_mem_nil
  refine (ensures_scheduleChunks_onCourse numbered.keeps_unswept faultless hr hidle hlimit ho
    (h := h) ⟨hinv, hnone⟩).mono ?_ ?_
  · rintro _ t (⟨⟨J, hJ, ⟨hinv, hun⟩, hu⟩, hlive⟩ | ⟨hreq, r, k, J, hJ, ⟨hinv, hun⟩, hu⟩)
    · exact ⟨J, hJ, hinv, hleft hu hun, fun _ => hu.completed hr hlive⟩
    · exact ⟨J, hJ, hinv, hleft hu hun, fun hcalm => by rw [hreq] at hcalm; cases hcalm⟩
  · rintro f t (hf | ⟨hf, hout, r, k, J, hJ, ⟨_, hun⟩, hu⟩)
    · exact .inl hf
    · exact .inr ⟨hf, hout, J, hJ, hleft hu hun⟩

end Chunks

section Simple

variable {backend : Journaled σ} {s : Scope Case (Journaled σ)}

theorem Trying.live (hidle : ∀ c ∈ l₀.items, c.Idle) (h : Trying l₀ backend r k s) :
    s.list.live = [] :=
  live_eq_nil (h.upto.forall_mem (fun _ _ _ hF => hF.pid)
    fun c₀ hc₀ _ hG => hG ▸ (hidle c₀ hc₀).pid)

/-- On its course a simple schedule credits its list, and leaves nothing running. -/
theorem Trying.left (hidle : ∀ c ∈ l₀.items, c.Idle) (hstart : ∀ c ∈ l₀.items, c.start = none)
    (h : Trying l₀ backend r k s) : Left (σ := σ) false [] s.list := by
  have hlive := h.live hidle
  refine ⟨⟨.of_live h.outstanding hlive, ?_⟩, ?_, fun _ he => absurd he List.not_mem_nil⟩
  · exact h.upto.forall_mem (fun _ _ _ hF _ hs => .inl (hF.returned hs))
      fun c₀ hc₀ _ hG _ _ => .inr ⟨hG ▸ hstart c₀ hc₀, rfl⟩
  · rw [Journal.unreaped_nil, ← Multiset.card_eq_zero, card_pids, hlive]
    rfl

theorem Trying.completed (hr : l₀.Ranked) (hidle : ∀ c ∈ l₀.items, c.Idle)
    (h : Trying l₀ backend (l₀.maxRank + 1) 0 s) : Completed (σ := σ) false [] s.list := by
  refine ⟨h.live hidle, fun c hc hs => ?_⟩
  obtain ⟨_, _, htried⟩ := (h.upto.forall₂ hr).exists_of_mem_right hc
  exact earned_false.2 (htried.returned hs)

end Simple

/-- To bail out dispatches nothing. -/
theorem Faultless.clearing (faultless : launcher.Faultless) (J₀ : Journal σ) :
    Clearing launcher.journaled (fun t => ∃ B, t.backend.journal = J₀ ++ B ∧ B.Startless)
      (fun f => ∃ q, f = .raised q) (fun f => ∃ q, f = .raised q) where
  unaffected _ _ _ h := h
  kill pid _ := fun ⟨B, hB, hnone⟩ => Launcher.ensures_recorded.2 ((faultless.kill pid _).mono
    (fun _ t _ => ⟨B ++ [⟨.kill pid (.ok ()), t⟩], by simp [hB], hnone.snoc rfl⟩)
    fun f t hf => ⟨hf, B ++ [⟨.kill pid (.error f), t⟩], by simp [hB], hnone.snoc rfl⟩)
  wait pid _ := fun ⟨B, hB, hnone⟩ => Launcher.ensures_recorded.2 ((faultless.wait pid _).mono
    (fun d t _ => ⟨B ++ [⟨.wait pid (.ok d), t⟩], by simp [hB], hnone.snoc rfl⟩)
    fun f t hf => ⟨⟨B ++ [⟨.wait pid (.error f), t⟩], by simp [hB], hnone.snoc rfl⟩, .inl hf⟩)
  drain _ := fun ⟨B, hB, hnone⟩ => Launcher.ensures_recorded.2 ((faultless.drain _).mono
    (fun n t _ => ⟨B ++ [⟨.drain (.ok n), t⟩], by simp [hB], hnone.snoc rfl⟩)
    fun f t hf => ⟨hf, B ++ [⟨.drain (.error f), t⟩], by simp [hB], hnone.snoc rfl⟩)

/-- To bail out ends with the fault that says so, unless for something that was raised, and leaves
nothing running. -/
theorem ensures_bailOut_credited (faultless : launcher.Faultless) {reason : String}
    {s : Scope Case (Journaled σ)} (h : Credited sandboxed J s.list) :
    Ensures (bailOut launcher.journaled reason) (fun _ _ => False)
      (fun f t => (∃ q, f = .raised q) ∨ f.IsOf .interrupted ∧
        ∃ B, t.host.backend.journal = s.host.backend.journal ++ B ∧
          Credited sandboxed (J ++ B) t.list ∧ t.list.live = []) s := by
  refine ((Faultless.clearing faultless s.host.backend.journal).ensures_bailOut
    ⟨[], (List.append_nil _).symm, fun _ => rfl⟩).mono (fun _ _ hf => hf) ?_
  rintro f t (hf | ⟨⟨B, hB, hnone⟩, ⟨hf, _⟩ | ⟨hf | ⟨killed, n, rfl⟩, B', habort⟩⟩)
  · exact .inl hf
  · exact .inl hf
  · exact .inl hf
  · exact .inr ⟨⟨_, rfl, rfl⟩, B, hB, h.aborting habort hnone⟩

end Schedule
end RankRunner
