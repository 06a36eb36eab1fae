import RankRunner.Launcher.InProcess
import RankRunner.Proofs.Launcher.Flag
import RankRunner.Proofs.Launcher.Yielding
import RankRunner.Proofs.Outcome

/-! # Cases in the runner's own process let a run stop

Cases that run in the runner itself can ask it to stop. The launcher is yielding if they raise
nothing that stops the runner at once, and if only signals arrive that the runner handles
(`InProcess.yielding`). -/

namespace RankRunner

open Effect

variable {σ : Type}

/-- The function raises nothing that stops the runner itself, and only signals that the runner
handles arrive while it is called. -/
structure Case.Harmless (c : Case) : Prop where
  signal : ∀ a ∈ c.action, ∀ n, ∀ s ∈ (a.deed n).signal, s ∈ handledSignals
  fatal : ∀ a ∈ c.action, ∀ n f, (a.deed n).ending = .raises f → f.isFatal = false

/-- What a case may do to its surroundings: the flag may be set, for a reason that can be told. -/
structure Host.Disturbed (h t : Host σ) : Prop where
  backend : t.backend = h.backend
  heedful : t.heedful = h.heedful
  blocking : t.interruption.blocking = h.interruption.blocking
  requested : h.interruption.requested = true → t.interruption.requested = true
  signum : (∀ n ∈ h.interruption.signum, n ∈ handledSignals) →
    ∀ n ∈ t.interruption.signum, n ∈ handledSignals

namespace Host.Disturbed

variable {h t : Host σ}

theorem refl (h : Host σ) : Disturbed h h := ⟨rfl, rfl, rfl, id, id⟩

theorem insists (h' : Disturbed h t) : h.Insists t := by
  intro hreq
  simp only [Host.requested, Bool.and_eq_true] at hreq ⊢
  exact ⟨h'.heedful.trans hreq.1, h'.requested hreq.2⟩

end Host.Disturbed

namespace Case

variable {c : Case} {h : Host σ}

/-- A call of the function of a harmless case comes to a code, or to something that is raised and
does not stop the runner at once. -/
theorem Harmless.ensures_call (hc : c.Harmless) (hb : h.interruption.blocking = false) :
    Ensures c.call (fun _ => h.Disturbed) (fun f t => h.Disturbed t ∧ f.isFatal = false) h := by
  refine Case.ensures_call (.refl h) (fun a ha => ?_) (fun t shown ht => { ht with })
    (fun v f hf t ht => ⟨ht, Ending.isFatal_of_returns hf⟩) fun _ _ hf => hf.1
  refine Action.ensures_perform (fun _ _ => ⟨rfl, rfl, rfl, id, id⟩)
    (fun t ht => ⟨ht.backend, ht.heedful, ht.blocking, fun _ => rfl, ht.signum⟩)
    (fun n hn t ht => ?_) fun f hf t ht => ⟨ht, hc.fatal a ha _ f hf⟩
  have hhandled := hc.signal a ha _ n hn
  have hmark : ¬ t.interruption.blocking = true := by
    rw [ht.blocking, hb]
    exact Bool.false_ne_true
  rw [Host.ensures_deliver_of_handled hhandled, if_neg hmark]
  exact ⟨ht.backend, ht.heedful, ht.blocking, fun _ => rfl, fun _ m hm =>
    Option.some.inj hm ▸ hhandled⟩

end Case

namespace InProcess

variable {h : Host InProcess}

/-- The completions that are kept. -/
def alive (b : InProcess) : Multiset Int := b.done.map fun d => d.pid.getD 0

structure Sound (h : Host InProcess) : Prop where
  signum : ∀ n ∈ h.interruption.signum, n ∈ handledSignals
  blocking : h.interruption.blocking = false
  done : ∀ d ∈ h.backend.done, d.pid.isSome

theorem ensures_start_sound (hs : Sound h) (l : Siblings Case) {c : Case} (hc : c.Harmless) :
    Ensures (start l c) (fun _ t => Sound t ∧ h.Insists t) (fun _ _ => False) h := by
  let begun : Host InProcess :=
    { h with backend := { h.backend with nextPid := h.backend.nextPid + 1 } }
  have hpush (d : Completion) (hd : d.pid.isSome) {t : Host InProcess} (ht : begun.Disturbed t) :
      Ensures (do push d; return h.backend.nextPid) (fun _ t => Sound t ∧ h.Insists t)
        (fun _ _ => False) t := by
    refine ⟨⟨ht.signum hs.signum, ht.blocking.trans hs.blocking, fun d' hd' => ?_⟩, ht.insists⟩
    rcases List.mem_append.1 hd' with hd' | hd'
    · rw [ht.backend] at hd'
      exact hs.done d' hd'
    · cases List.mem_singleton.1 hd'
      exact hd
  simp only [start, ensures_bind, ensures_get, ensures_modify, ensures_attempt]
  refine (hc.ensures_call (h := begun) hs.blocking).mono ?_ ?_
  · intro code t ht
    exact hpush { pid := some h.backend.nextPid, exit := some code } rfl ht
  · rintro f t ⟨ht, hfatal⟩
    rw [hfatal, if_neg Bool.false_ne_true, ensures_bind, Host.ensures_warn]
    exact hpush { pid := some h.backend.nextPid, signal := some abortSignal } rfl { ht with }

/-- Cases in the runner's own process are yielding if they are harmless. -/
theorem yielding : launcher.Yielding Case.Harmless Sound (fun _ => True) alive where
  unaffected _ _ _ _ hs := { hs with }
  unmarked _ hs := hs.blocking
  describes _ hs := Interruption.describe_of_handled hs.signum
  start l c h hs hc := (ensures_start_sound hs l hc).mono (fun _ _ ht => ⟨ht, trivial⟩)
    fun _ _ hf => hf.elim
  waitAny h hs := by
    simp only [launcher, waitAny, ensures_bind, ensures_get]
    split
    · exact ⟨⟨hs, id⟩, fun d hd => absurd hd (Option.not_mem_none d)⟩
    · next d done hdone =>
      have hrest (d') (hd' : d' ∈ done) := hs.done d' (hdone ▸ List.mem_cons_of_mem d hd')
      refine ⟨⟨{ hs with done := hrest }, id⟩, fun d' hd' => ?_⟩
      cases hd'
      exact hs.done d (hdone ▸ List.mem_cons_self)
  wait pid h hs _ := by
    simp only [launcher, wait, ensures_bind, ensures_get]
    split
    · exact ⟨hs, _, rfl, .inl (Raised.isNoChild_noSuchChild pid)⟩
    · exact { hs with done := fun d hd => hs.done d (List.mem_of_mem_eraseP hd) }
  kill _ _ hs _ := hs
  drain h hs := ⟨{ hs with done := fun d hd => absurd hd List.not_mem_nil }, rfl⟩

end InProcess
end RankRunner
