import RankRunner.Execution
import RankRunner.Launcher.Forked
import RankRunner.Proofs.Ensures

/-! # Whose flag a blocked wait marks

A signal breaks a blocked wait off only where the wait has marked the flag that the signal sets.
That is so for a launcher that was given to the run. One that is made for the run has the flag of
the run only if it had been set before (`Forked.shares_ofRun_none`). Otherwise its waits go on over
a signal and collect a child (`Forked.run_waitAny_given`, `Forked.run_waitAny_made`), which a
bail-out would have aborted. -/

namespace RankRunner

open Effect

variable {σ : Type}

theorem Effect.run_attempt_congr {S α : Type} {x y : Effect S α} {s t : S}
    (h : x.run s = y.run t) : x.attempt.run s = y.attempt.run t := by
  simp only [EStateM.run, attempt] at h ⊢
  rw [h]

theorem Effect.run_ensuring_of_ok {S α : Type} {x : Effect S α} {last : Effect S Unit}
    {s t : S} {a : α} (hx : x.run s = .ok a t) :
    (x.ensuring last).run s = (do last; pure a : Effect S α).run t := by
  simp only [EStateM.run] at hx
  simp only [ensuring, EStateM.run, hx]

theorem Effect.run_ensuring_of_error {S α : Type} {x : Effect S α} {last : Effect S Unit}
    {s t : S} {f : Failure} (hx : x.run s = .error f t) :
    (x.ensuring last).run s = (do last; throw f : Effect S α).run t := by
  simp only [EStateM.run] at hx
  simp only [ensuring, EStateM.run, hx]

namespace Host

variable {h : Host σ} {n : Int} {Q : Unit → Host σ → Prop} {E : Failure → Host σ → Prop}

/-- Whether a signal reaches the runner. -/
def Hears (h : Host σ) (n : Int) : Prop := h.filtered = false ∨ n ∈ handledSignals

theorem run_deliver (hn : h.Hears n) : (deliver n).run h = (handle n).run h := by
  show EStateM.run (if h.filtered = true then
      if handledSignals.contains n = true then handle n
      else if !isSignal n then Effect.raise notASignal else pure ()
    else handle n) h = _
  rcases hn with hf | hmem
  · rw [hf]
    rfl
  · rw [if_pos (List.contains_iff_mem.2 hmem)]
    split <;> rfl

/-- A signal that finds a wait marked is raised there. -/
theorem run_deliver_blocking (hn : h.Hears n) (hb : h.interruption.blocking = true) :
    (deliver n).run h =
      .error (.raised (.signalled n)) { h with interruption := h.interruption.signal n } := by
  rw [run_deliver hn]
  show EStateM.run (if h.interruption.blocking = true then Effect.raise (.signalled n) else pure ())
    { h with interruption := h.interruption.signal n } = _
  rw [if_pos hb]
  rfl

theorem run_deliver_idle (hn : h.Hears n) (hb : h.interruption.blocking = false) :
    (deliver n).run h = .ok () { h with interruption := h.interruption.signal n } := by
  rw [run_deliver hn]
  show EStateM.run (if h.interruption.blocking = true then Effect.raise (.signalled n) else pure ())
    { h with interruption := h.interruption.signal n } = _
  rw [hb]
  rfl

/-- A signal that the runner handles breaks off what is marked as blocking, and sets the flag. -/
theorem ensures_deliver_of_handled (hn : n ∈ handledSignals) :
    Ensures (deliver n) Q E h ↔
      if h.interruption.blocking then
        E (.raised (.signalled n)) { h with interruption := h.interruption.signal n }
      else Q () { h with interruption := h.interruption.signal n } := by
  unfold Ensures
  by_cases hb : h.interruption.blocking = true
  · rw [run_deliver_blocking (.inr hn) hb, if_pos hb]
  · rw [run_deliver_idle (.inr hn) (Bool.eq_false_iff.2 hb), if_neg hb]

/-- The surroundings with the mark that the runner is blocked in a wait. -/
def blocked (h : Host σ) : Host σ :=
  { h with interruption := { h.interruption with blocking := true } }

def unblocked (h : Host σ) : Host σ :=
  { h with interruption := { h.interruption with blocking := false } }

/-- A marked wait answers without the mark, if no signal is late for it. -/
theorem run_blocking_of_ok {α : Type} {x : Effect (Host σ) α} {t : Host σ} {a : α}
    (hx : x.run h.blocked = .ok a t) (hlate : t.interruption.late = none) :
    (blocking x).run h = .ok (a, none) t.unblocked := by
  have hdeliver : deliverLate.run t = .ok () t := by
    rw [deliverLate, EStateM.run_bind, EStateM.run_get]
    simp only [hlate, EStateM.run_pure]
  have hattempt : deliverLate.attempt.run t = .ok (.ok ()) t :=
    run_attempt_congr (y := pure ()) hdeliver
  refine (run_ensuring_of_ok (t := t) (a := (a, none)) ?_).trans rfl
  rw [setBlocking, EStateM.run_bind, EStateM.run_modify]
  simp only [blocked] at hx
  simp only [EStateM.run_bind, hx, hattempt, EStateM.run_pure]

/-- A marked wait that fails takes its mark away. -/
theorem run_blocking_of_error {α : Type} {x : Effect (Host σ) α} {t : Host σ} {f : Failure}
    (hx : x.run h.blocked = .error f t) : (blocking x).run h = .error f t.unblocked := by
  refine (run_ensuring_of_error (t := t) (f := f) ?_).trans rfl
  rw [setBlocking, EStateM.run_bind, EStateM.run_modify]
  simp only [blocked] at hx
  simp only [EStateM.run_bind, hx]

end Host

theorem Interruption.describe_of_handled {i : Interruption}
    (hi : ∀ n ∈ i.signum, n ∈ handledSignals) : ∃ why, i.describe = .ok why := by
  unfold describe
  cases hs : i.signum with
  | none => exact ⟨_, rfl⟩
  | some n =>
    have hn := hi n hs
    simp only [handledSignals, List.mem_cons, List.not_mem_nil, or_false] at hn
    rcases hn with rfl | rfl | rfl <;> exact ⟨_, rfl⟩

namespace Forked

variable {h : Host Forked} {n : Int} {events : List WaitEvent} {table : ProcessTable}

/-- The host after the first event of its table. -/
def afterEvent (h : Host Forked) (events : List WaitEvent) : Host Forked :=
  { h with backend := { h.backend with table := { h.backend.table with events } } }

theorem run_collectAny_nothing (hev : h.backend.table.events = .nothing :: events) :
    collectAny.run h = collect.run (afterEvent h events) := by
  simp [collectAny, updateTable, EStateM.run_bind, hev, afterEvent]

/-- A wait for any child takes a signal before a child. -/
theorem run_collectAny_signal (hev : h.backend.table.events = .signal n :: events) :
    collectAny.run h =
      (do Host.deliver n; collect : Effect (Host Forked) _).run (afterEvent h events) := by
  simp [collectAny, updateTable, EStateM.run_bind, hev, afterEvent]

theorem run_collectAny_signal_blocking (hev : h.backend.table.events = .signal n :: events)
    (hn : h.Hears n) (hb : h.interruption.blocking = true) :
    collectAny.run h = .error (.raised (.signalled n))
      (afterEvent { h with interruption := h.interruption.signal n } events) := by
  have hdeliver := Host.run_deliver_blocking (h := afterEvent h events) hn hb
  rw [run_collectAny_signal hev, EStateM.run_bind, hdeliver]
  rfl

theorem run_collectAny_signal_idle (hev : h.backend.table.events = .signal n :: events)
    (hn : h.Hears n) (hb : h.interruption.blocking = false) :
    collectAny.run h =
      collect.run (afterEvent { h with interruption := h.interruption.signal n } events) := by
  have hdeliver := Host.run_deliver_idle (h := afterEvent h events) hn hb
  rw [run_collectAny_signal hev, EStateM.run_bind, hdeliver]
  rfl

theorem run_blockingCollect_own (hs : h.backend.shares = false) :
    blockingCollect.run h = collectAny.run h := by
  simp [blockingCollect, EStateM.run_bind, hs]

theorem run_blockingCollect_of_ok {t : Host Forked} {done : Int × Int × Usage}
    (hs : h.backend.shares = true) (hcollect : collectAny.run h.blocked = .ok done t)
    (hlate : t.interruption.late = none) : blockingCollect.run h = .ok done t.unblocked := by
  rw [blockingCollect, EStateM.run_bind, EStateM.run_get]
  simp only [hs, if_true, EStateM.run_bind, Host.run_blocking_of_ok hcollect hlate]
  rfl

theorem run_blockingCollect_of_error {t : Host Forked} {f : Failure}
    (hs : h.backend.shares = true) (hcollect : collectAny.run h.blocked = .error f t) :
    blockingCollect.run h = .error f t.unblocked := by
  rw [blockingCollect, EStateM.run_bind, EStateM.run_get]
  simp only [hs, if_true, EStateM.run_bind, Host.run_blocking_of_error hcollect]

theorem run_waitAny_congr {h' : Host Forked}
    (hcollect : blockingCollect.run h = blockingCollect.run h') :
    waitAny.run h = waitAny.run h' := by
  rw [waitAny, EStateM.run_bind, EStateM.run_bind, run_attempt_congr hcollect]

theorem run_waitAny_of_signalled {t : Host Forked}
    (hcollect : blockingCollect.run h = .error (.raised (.signalled n)) t) :
    waitAny.run h = .error (.raised (.signalled n)) t := by
  have hattempt : blockingCollect.attempt.run h = .ok (.error (.raised (.signalled n))) t :=
    run_attempt_congr (y := throw _) hcollect
  rw [waitAny, EStateM.run_bind, hattempt]
  rfl

/-- A signal breaks a wait off whose launcher was given to the run, and no child is collected. -/
theorem run_waitAny_given (hn : h.Hears n) (hidle : h.interruption.blocking = false)
    (given : Forked) (hev : given.table.events = .signal n :: events) :
    waitAny.run { h with backend := ofRun h.interruption table (some given) } =
      .error (.raised (.signalled n))
        { h with
          interruption := h.interruption.signal n
          backend := ⟨{ given.table with events }, true⟩ } := by
  apply run_waitAny_of_signalled
  let waiting : Host Forked := { h with backend := ofRun h.interruption table (some given) }
  have hfails := run_collectAny_signal_blocking (h := waiting.blocked) hev hn rfl
  refine (run_blockingCollect_of_error (h := waiting) rfl hfails).trans ?_
  simp [waiting, afterEvent, Host.blocked, Host.unblocked, Interruption.signal, ofRun, hidle]

/-- A launcher that was made for the run waits on as if the signal had come before the wait. -/
theorem run_waitAny_made (hn : h.Hears n) (hidle : h.interruption.blocking = false)
    (hreq : h.interruption.requested = false) (hev : table.events = .signal n :: events) :
    waitAny.run { h with backend := ofRun h.interruption table none } =
      waitAny.run
        { h with
          interruption := h.interruption.signal n
          backend := ⟨{ table with events := .nothing :: events }, false⟩ } := by
  apply run_waitAny_congr
  let waiting : Host Forked := { h with backend := ofRun h.interruption table none }
  have hcollect := run_collectAny_signal_idle (h := waiting) hev hn hidle
  rw [run_blockingCollect_own hreq, run_blockingCollect_own rfl, hcollect,
    run_collectAny_nothing rfl]
  simp [waiting, afterEvent, ofRun, make, hreq]

end Forked
end RankRunner
