import RankRunner.Proofs.Launcher.Dutiful
import RankRunner.Proofs.Launcher.ForkedFaithful
import RankRunner.Proofs.Launcher.ForkedYielding

/-! # Child processes are all reported

As long as no signal arrives and only the system refuses children, every child over a process table
is reported once, with whatever status word it ends. -/

namespace RankRunner

open Effect

namespace Completion

/-- A status word tells of an end unless its lowest byte is that of a child that was stopped. -/
theorem exists_decode_ended (pid : Int) {word : Int} (usage : Option Usage)
    (h : isStatusWord word = true) (h' : word % 256 ≠ 127) :
    ∃ d, decode pid word usage = .ok d ∧ d.stopped = false := by
  simp only [decode, h, Bool.not_true, Bool.false_eq_true, if_false, if_neg h']
  split <;> exact ⟨_, rfl, rfl⟩

end Completion

namespace Forked

variable {h t : Host Forked}

/-- The run is not asked to stop, no signal arrives, only the system refuses children, and each
child ends. -/
structure Signalless (h : Host Forked) : Prop extends Quiet h where
  requested : h.requested = false
  failing : ∀ x ∈ h.backend.table.failing, x.2.isSystem = true
  children : ∀ x ∈ h.backend.table.live,
    Completion.isStatusWord x.2 = true ∧ x.2 % 256 ≠ 127

theorem childWord_ends (c : Case) (h : Host Forked) : childWord c h % 256 ≠ 127 := by
  rcases childWord_cases c h with hsignal | ⟨code, hcode⟩
  · simp only [isSignal, Bool.and_eq_true, decide_eq_true_eq] at hsignal
    omega
  · rw [hcode, Completion.exitWord]
    omega

namespace Signalless

theorem undisturbed (hh : Signalless h) (hu : Undisturbed h t)
    (hlive : ∀ x ∈ t.backend.table.live, x ∈ h.backend.table.live) : Signalless t := by
  refine ⟨⟨hu.late.trans hh.late, fun e he => hh.events e (hu.events e he)⟩,
    hu.requested.trans hh.requested, ?_, fun x hx => hh.children x (hlive x hx)⟩
  rw [hu.failing]
  exact hh.failing

theorem ensures_start (hh : Signalless h) (l : Siblings Case) (c : Case) : Ensures (start l c)
    (fun pid => Launcher.Served Signalless alive (.start l c (.ok pid)) h)
    (fun f t => Launcher.Served Signalless alive (.start l c (.error f)) h t ∧
      ∃ q, f = .raised q ∧ q.isSystem = true) h := by
  simp only [start, updateTable, ensures_bind, ensures_get, ensures_modify]
  split
  · next q hq =>
    exact ⟨⟨{ hh with }, rfl, rfl⟩, q, rfl, hh.failing _ (List.mem_of_lookup hq)⟩
  · refine ⟨{ hh with children := fun x hx => ?_ }, rfl, ?_⟩
    · rcases List.mem_append.1 hx with hx | hx
      · exact hh.children x hx
      · rw [List.mem_singleton.1 hx]
        exact ⟨isStatusWord_childWord c h, childWord_ends c h⟩
    · simp only [alive, List.map_append, List.map_cons, List.map_nil]
      exact Multiset.coe_eq_coe.2 (List.perm_append_singleton ..)

theorem ensures_waitAny (hh : Signalless h) (hp : alive h.backend ≠ 0) : Ensures waitAny
    (fun d? t => Launcher.Served Signalless alive (.waitAny (.ok d?)) h t ∧
      Forked.patience t < Forked.patience h ∧ ∃ d, d? = some d ∧ d.pid.isSome)
    (fun f t => Launcher.Served Signalless alive (.waitAny (.error f)) h t ∧
      Forked.patience t < Forked.patience h ∧ ∃ q, f = .raised q ∧ q.isInterrupted = true) h := by
  have hne : h.backend.table.live ≠ [] := fun hnil => hp (by rw [alive, hnil]; rfl)
  simp only [waitAny, ensures_bind, ensures_attempt]
  refine (hh.ensures_blockingCollect hne).mono (fun done t ht => ?_) fun f t ht => ?_
  · have hsub (x) (hx : x ∈ (done.1, done.2.1) :: t.backend.table.live) :=
      ht.live.symm.mem_iff.1 hx
    obtain ⟨hword, hends⟩ := hh.children _ (hsub _ List.mem_cons_self)
    obtain ⟨d, hd, hstopped⟩ := Completion.exists_decode_ended done.1 (some done.2.2) hword hends
    have hpid := Completion.decode_pid hd
    have hcalm := hh.undisturbed ht.toUndisturbed fun x hx => hsub x (List.mem_cons_of_mem _ hx)
    simp only [completion, hd, ensures_bind]
    refine ⟨⟨hcalm, ht.barriers, ?_⟩, ht.patience, d, rfl, by rw [hpid]; rfl⟩
    rw [alive_of_perm ht.live]
    simp [Act.unreaped, hstopped, hpid]
  · have hcalm := hh.undisturbed ht.toUndisturbed fun x hx => ht.live ▸ hx
    obtain ⟨r, rfl, hr⟩ := ht.interrupted
    simp only [isNoChild_of_isInterrupted hr, Bool.false_eq_true, if_false]
    exact ⟨⟨hcalm, ht.barriers, by rw [alive, ht.live]; rfl⟩, ht.patience, r, rfl, hr⟩

end Signalless

/-- Children over a process table are all reported. -/
theorem dutiful : launcher.Dutiful Signalless alive where
  requested _ hh := hh.requested
  unaffected _ _ _ _ hh := { hh with }
  patience_eq _ _ _ _ := rfl
  pending_eq_zero _ _ hp := absurd hp (Nat.succ_ne_zero _)
  start l c _ hh := hh.ensures_start l c
  waitAny _ hh hp := (hh.ensures_waitAny hp).mono
    (fun _ _ ht => ⟨ht.1, Nat.succ_lt_succ ht.2.1, ht.2.2⟩)
    fun _ _ ht => ⟨ht.1, Nat.succ_lt_succ ht.2.1, ht.2.2⟩

end Forked
end RankRunner
