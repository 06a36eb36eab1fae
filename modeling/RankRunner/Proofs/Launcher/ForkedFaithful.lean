import RankRunner.Proofs.Launcher.Faithful
import RankRunner.Proofs.Launcher.Forked

/-! # Child processes are reported faithfully

If every child can be started, is reported by its own status word, and no signal arrives, then the
status word of a child, once it is decoded, tells the status that the outcome of its case stands
for. Children may be reported in any order. What a wait leaves as it is while no signal arrives is
stated once, as `Forked.Undisturbed`, for whatever the children exit with. -/

namespace RankRunner

open Effect

/-- Nothing but the order of the children changes by the event, or a wait is broken off. -/
def WaitEvent.Harmless : WaitEvent → Prop
  | .nothing | .overtakes _ => True
  | .fails r => r.isInterrupted = true
  | .status .. | .signal _ | .late _ => False

theorem Completion.exitWord_div {code : Int} (h : 0 ≤ code) (h' : code < Case.exitCodes) :
    exitWord code / 256 % 256 = code := by
  unfold exitWord
  unfold Case.exitCodes at h'
  omega

namespace Forked

variable {h t : Host Forked} {c : Case}

/-- The children in the table, each with the status that its status word stands for. -/
def pending (b : Forked) : Multiset (Int × Status) :=
  b.table.live.map fun x => (x.1, Status.mk (x.2 / 256 % 256))

/-- No child fails to start, no event is harmful, and all children exit on their own. -/
structure Calm (h : Host Forked) : Prop where
  requested : h.requested = false
  late : h.interruption.late = none
  failing : h.backend.table.failing = []
  events : ∀ e ∈ h.backend.table.events, e.Harmless
  children : ∀ x ∈ h.backend.table.live, x.1 < h.backend.table.nextPid ∧
    ∃ code, 0 ≤ code ∧ code < Case.exitCodes ∧ x.2 = Completion.exitWord code

/-- The status word of a child tells the status of its case. -/
theorem childWord_eq (hc : c.Surviving) :
    childWord c h = Completion.exitWord c.verdict.code := by
  have hsignals : ((c.action.map fun a => a.deed (h.timesCalled a.key)).map (childSignals h)).getD
      [] = [] := by
    cases ha : c.action with
    | none => rfl
    | some a =>
      simp only [Option.map_some, Option.getD_some, childSignals, hc.signal a ha,
        hc.survives a ha]
      split <;> rfl
  have hcall : Ensures c.call (fun n _ => c.verdict = ⟨n⟩) (fun _ _ => c.verdict = .aborted) h := by
    refine hc.ensures_call fun _ _ => ?_
    cases ho : c.outcome with
    | ok n => exact show c.verdict = ⟨n⟩ by rw [Case.verdict, ho]
    | error f => exact show c.verdict = .aborted by rw [Case.verdict, ho]
  unfold Ensures at hcall
  simp only [childWord, hsignals, List.findSome?_nil]
  split at hcall
  · next hrun => rw [hrun, hcall]
  · next hrun => rw [hrun, hcall]

theorem ensures_start_of_calm {l : Siblings Case} (hc : c.Surviving) (hh : Calm h) :
    Ensures (start l c)
      (fun pid t => Calm t ∧ pid ∉ (pending h.backend).map Prod.fst ∧
        pending t.backend = (pid, c.verdict) ::ₘ pending h.backend)
      (fun _ _ => False) h := by
  simp only [start, updateTable, ensures_bind, ensures_get, ensures_modify, hh.failing,
    List.lookup_nil]
  have hrange := c.verdict_range
  refine ⟨⟨hh.requested, hh.late, rfl, hh.events, fun x hx => ?_⟩, fun hmem => ?_, ?_⟩
  · rcases List.mem_append.1 hx with hx | hx
    · obtain ⟨hlt, hcode⟩ := hh.children x hx
      exact ⟨Int.lt_trans hlt (Int.lt_succ _), hcode⟩
    · cases List.mem_singleton.1 hx
      exact ⟨Int.lt_succ _, _, hrange.1, hrange.2, childWord_eq hc⟩
  · simp only [pending, Multiset.map_coe, List.map_map, Multiset.mem_coe, List.mem_map] at hmem
    obtain ⟨x, hx, hpid⟩ := hmem
    have := (hh.children x hx).1
    simp only [Function.comp] at hpid
    omega
  · have hword : Status.mk (childWord c h / 256 % 256) = c.verdict := by
      rw [childWord_eq hc, Completion.exitWord_div hrange.1 hrange.2]
    simp only [pending, List.map_append, List.map_cons, List.map_nil, hword]
    exact Multiset.coe_eq_coe.2 (List.perm_append_singleton ..)

/-- No signal is late, and no event is harmful. -/
structure Quiet (h : Host Forked) : Prop where
  late : h.interruption.late = none
  events : ∀ e ∈ h.backend.table.events, e.Harmless

/-- What a wait leaves as it is when no signal arrives. Events are used up at most. -/
structure Undisturbed (h t : Host Forked) : Prop where
  requested : t.requested = h.requested
  late : t.interruption.late = h.interruption.late
  barriers : t.barriers = h.barriers
  failing : t.backend.table.failing = h.backend.table.failing
  nextPid : t.backend.table.nextPid = h.backend.table.nextPid
  events : ∀ e ∈ t.backend.table.events, e ∈ h.backend.table.events

structure Reported (h : Host Forked) (done : Int × Int × Usage) (t : Host Forked) : Prop
    extends Undisturbed h t where
  patience : patience t < patience h
  live : h.backend.table.live.Perm ((done.1, done.2.1) :: t.backend.table.live)

structure BrokenOff (h : Host Forked) (f : Failure) (t : Host Forked) : Prop
    extends Undisturbed h t where
  patience : patience t < patience h
  live : t.backend.table.live = h.backend.table.live
  interrupted : ∃ r, f = .raised r ∧ r.isInterrupted = true

theorem Undisturbed.ensures_collect (hu : Undisturbed h t)
    (hp : Forked.patience t ≤ Forked.patience h)
    (hl : t.backend.table.live.Perm h.backend.table.live) (hne : h.backend.table.live ≠ []) :
    Ensures collect (Reported h) (fun _ _ => False) t := by
  simp only [collect, ensures_bind, ensures_get]
  split
  · next hlive => exact hne (List.Perm.eq_nil (hl.symm.trans (.of_eq hlive)))
  · next pid word live hlive =>
    refine ⟨{ hu with }, Nat.lt_of_lt_of_le ?_ hp, hl.symm.trans (.of_eq hlive)⟩
    simp only [Forked.patience, hlive, List.length_cons]
    omega

namespace Quiet

theorem ensures_collectAny (hh : Quiet h) (hne : h.backend.table.live ≠ []) :
    Ensures collectAny (Reported h) (BrokenOff h) h := by
  have htail : h.backend.table.events.tail.length ≤ h.backend.table.events.length := by simp
  have hrest : Undisturbed h { h with backend := { h.backend with
      table := { h.backend.table with events := h.backend.table.events.tail } } } :=
    ⟨rfl, rfl, rfl, rfl, rfl, fun _ he => List.mem_of_mem_tail he⟩
  have hharmless : (h.backend.table.events.headD .nothing).Harmless := by
    cases hev : h.backend.table.events with
    | nil => trivial
    | cons e events => exact hh.events e (hev ▸ List.mem_cons_self)
  simp only [collectAny, ensures_bind, ensures_get, updateTable, ensures_modify]
  split
  · exact (hrest.ensures_collect (Nat.add_le_add_right htail _) (.refl _) hne).mono
      (fun _ _ ht => ht) fun _ _ ht => ht.elim
  · next r hev =>
    rw [hev] at hharmless
    refine ⟨hrest, ?_, rfl, r, rfl, hharmless⟩
    cases hevents : h.backend.table.events with
    | nil => rw [hevents] at hev; cases hev
    | cons e events => simp [Forked.patience, hevents]
  · next hev => exact absurd hharmless (by rw [hev]; exact id)
  · next hev => exact absurd hharmless (by rw [hev]; exact id)
  · next hev => exact absurd hharmless (by rw [hev]; exact id)
  · next place _ =>
    have hperm := ProcessTable.overtake_live place
      { h.backend.table with events := h.backend.table.events.tail }
    have hmoved : Undisturbed h { h with
        backend.table := .overtake place
          { h.backend.table with events := h.backend.table.events.tail } } := { hrest with }
    exact (hmoved.ensures_collect (Nat.add_le_add htail (Nat.le_of_eq hperm.length_eq)) hperm
      hne).mono (fun _ _ ht => ht) fun _ _ ht => ht.elim

/-- To block changes nothing, since no signal arrives. -/
theorem ensures_blockingCollect (hh : Quiet h) (hne : h.backend.table.live ≠ []) :
    Ensures blockingCollect (Reported h) (BrokenOff h) h := by
  simp only [blockingCollect, ensures_bind, ensures_get]
  split
  · have hmarked : Quiet { h with interruption := { h.interruption with blocking := true } } :=
      ⟨hh.late, hh.events⟩
    simp only [ensures_bind, Host.blocking, Host.setBlocking, ensures_ensuring, ensures_modify]
    refine (hmarked.ensures_collectAny hne).mono (fun done t ht => ?_) fun f t ht => ?_
    · rw [ensures_bind, ensures_attempt]
      simp only [Host.deliverLate, ensures_bind, ensures_get, ht.late.trans hh.late]
      exact ⟨{ ht.toUndisturbed with }, ht.patience, ht.live⟩
    · exact ⟨{ ht.toUndisturbed with }, ht.patience, ht.live, ht.interrupted⟩
  · exact hh.ensures_collectAny hne

end Quiet

theorem isNoChild_of_isInterrupted {r : Raised} (hr : r.isInterrupted = true) :
    isNoChild (.raised r) = false := by
  rw [Raised.isInterrupted, beq_iff_eq] at hr
  simp [isNoChild, Raised.isNoChild, hr]

namespace Calm

theorem quiet (hh : Calm h) : Quiet h := ⟨hh.late, hh.events⟩

theorem undisturbed (hh : Calm h) (hu : Undisturbed h t)
    (hlive : ∀ x ∈ t.backend.table.live, x ∈ h.backend.table.live) : Calm t := by
  refine ⟨hu.requested.trans hh.requested, hu.late.trans hh.late, hu.failing.trans hh.failing,
    fun e he => hh.events e (hu.events e he), fun x hx => ?_⟩
  rw [hu.nextPid]
  exact hh.children x (hlive x hx)

theorem ensures_waitAny (hh : Calm h) (hp : pending h.backend ≠ 0) : Ensures waitAny
    (fun d? t => Calm t ∧ Forked.patience t < Forked.patience h ∧
      ∃ d pid, d? = some d ∧ d.pid = some pid ∧ d.stopped = false ∧
        pending h.backend = (pid, ⟨d.result⟩) ::ₘ pending t.backend)
    (fun f t => Calm t ∧ Forked.patience t < Forked.patience h ∧
      pending t.backend = pending h.backend ∧ ∃ r, f = .raised r ∧ r.isInterrupted = true) h := by
  have hne : h.backend.table.live ≠ [] := fun hnil => hp (by rw [pending, hnil]; rfl)
  simp only [waitAny, ensures_bind, ensures_attempt]
  refine (hh.quiet.ensures_blockingCollect hne).mono (fun done t ht => ?_) fun f t ht => ?_
  · obtain ⟨pid, word, usage⟩ := done
    have hcalm := hh.undisturbed ht.toUndisturbed fun x hx =>
      ht.live.symm.mem_iff.1 (List.mem_cons_of_mem _ hx)
    obtain ⟨code, hcode, hcode', hword⟩ := (hh.children _ (ht.live.symm.mem_iff.1
      List.mem_cons_self)).2
    have hpending : pending h.backend = (pid, ⟨code⟩) ::ₘ pending t.backend := by
      have := Multiset.coe_eq_coe.2 (ht.live.map fun x => (x.1, Status.mk (x.2 / 256 % 256)))
      rw [List.map_cons, hword, Completion.exitWord_div hcode hcode'] at this
      exact this
    have hdecode := Completion.decode_exitWord pid (some usage) hcode hcode'
    rw [← hword] at hdecode
    simp only [completion, hdecode, ensures_bind]
    exact ⟨hcalm, ht.patience, _, pid, rfl, rfl, rfl, hpending⟩
  · have hcalm := hh.undisturbed ht.toUndisturbed fun x hx => ht.live ▸ hx
    obtain ⟨_, hlt, hlive, r, rfl, hr⟩ := ht
    simp only [isNoChild_of_isInterrupted hr, Bool.false_eq_true, if_false]
    exact ⟨hcalm, hlt, by rw [pending, hlive, pending], r, rfl, hr⟩

end Calm

theorem faithful : launcher.Faithful Calm pending where
  requested _ hh := hh.requested
  unaffected _ _ _ _ hh := ⟨hh.requested, hh.late, hh.failing, hh.events, hh.children⟩
  patience_eq _ _ _ _ := rfl
  pending_eq_zero _ _ hp := absurd hp (Nat.succ_ne_zero _)
  start l _ _ hc hh := ensures_start_of_calm (l := l) hc hh
  waitAny _ hh hp := (hh.ensures_waitAny hp).mono
    (fun _ _ ht => ⟨ht.1, Nat.succ_lt_succ ht.2.1, ht.2.2⟩)
    fun _ _ ht => ⟨ht.1, Nat.succ_lt_succ ht.2.1, ht.2.2⟩

end Forked
end RankRunner
