import RankRunner.Launcher.InProcess
import RankRunner.Proofs.Clock
import RankRunner.Proofs.Launcher.Scripted
import RankRunner.Proofs.Schedule.Returned

/-! # Launchers and the clock of the runner

To start a case or to wait for a child may take time, but does not set the clock of the runner back
(`Launcher.Timely`). Child processes and scripts leave that clock alone. Cases that run in the
runner itself do not, and have to keep to it as well (`Case.Timely`). -/

namespace RankRunner

open Effect

variable {σ : Type}

/-- No call of the function sets the clock back. -/
def Case.Timely (c : Case) : Prop := ∀ a ∈ c.action, ∀ n, 0 ≤ (a.deed n).advance

/-- The clock goes forward however the function ends. -/
theorem Case.Timely.ensures_call {c : Case} (hc : c.Timely) {h : Host σ} (hh : h.clock.Forward) :
    Ensures c.call (fun _ t => h.clock.Later t.clock) (fun _ t => h.clock.Later t.clock) h :=
  Case.ensures_call hh.later
    (fun a ha => Action.ensures_perform (fun _ _ => hh.later_advance (hc a ha _)) (fun _ ht => ht)
      (fun _ _ _ ht => Host.ensures_deliver fun _ _ => ⟨ht, fun _ => ht⟩) fun _ _ _ ht => ht)
    (fun _ _ ht => ht) (fun _ _ _ _ ht => ht) fun _ _ ht => ht

/-- Neither to start a case that satisfies `D` nor to wait for a child sets the clock back. -/
structure Launcher.Timely (launcher : Launcher σ) (D : Case → Prop) : Prop where
  start : ∀ l c h, D c → h.clock.Forward → Ensures (launcher.start l c)
    (fun _ t => h.clock.Later t.clock) (fun _ t => h.clock.Later t.clock) h
  waitAny : ∀ h, h.clock.Forward → Ensures launcher.waitAny
    (fun _ t => h.clock.Later t.clock) (fun _ t => h.clock.Later t.clock) h

namespace Forked

/-- Whatever the system reports carries the number of a process. -/
theorem numbered : launcher.Numbered fun _ => True where
  start _ _ _ _ := ensures_true
  waitAny _ _ := ensures_waitAny.mono (fun _ _ ht => ⟨trivial, ht.2.2⟩) fun _ _ _ => trivial

theorem timely : launcher.Timely fun _ => True where
  start l _ _ _ hh := (ensures_start (l := l)).mono (fun _ _ ht => ht.1.clock ▸ hh.later)
    fun _ _ ht => ht.1.clock ▸ hh.later
  waitAny _ hh := ensures_waitAny.mono (fun _ _ ht => ht.1.clock ▸ hh.later)
    fun _ _ ht => ht.1.clock ▸ hh.later

end Forked

namespace Scripted

theorem timely : launcher.Timely fun _ => True where
  start l c h _ hh := by
    simp only [launcher, start, Host.record, ensures_bind, ensures_modify, ensures_get]
    split <;> exact hh.later
  waitAny h hh := by
    simp only [launcher, waitAny, Host.record, ensures_bind, ensures_modify, ensures_get]
    split
    · exact hh.later
    · exact hh.later
    · next c request signal _ =>
      have hdeliver (n : Int) (t : Host Scripted) (ht : t.clock = h.clock) :
          Ensures (do Host.deliver n; return some c) (fun _ t => h.clock.Later t.clock)
            (fun _ t => h.clock.Later t.clock) t :=
        ensures_bind.2 (Host.ensures_deliver fun _ _ => ⟨ht ▸ hh.later, fun _ => ht ▸ hh.later⟩)
      cases request with
      | false =>
        cases signal with
        | none => exact hh.later
        | some n => exact hdeliver n _ rfl
      | true =>
        cases signal with
        | none => exact hh.later
        | some n => exact hdeliver n _ rfl

end Scripted

namespace InProcess

/-- A completion that was kept is answered, and the others are kept on. -/
theorem ensures_waitAny_kept {h : Host InProcess} :
    Ensures waitAny (fun d? t => t.clock = h.clock ∧ (∀ d ∈ d?, d ∈ h.backend.done) ∧
      ∀ d ∈ t.backend.done, d ∈ h.backend.done) (fun _ _ => False) h := by
  simp only [waitAny, ensures_bind, ensures_get]
  split
  · exact ⟨rfl, fun d hd => absurd hd (Option.not_mem_none d), fun _ hd => hd⟩
  · next d done hdone =>
    rw [hdone]
    refine ⟨rfl, fun d' hd' => ?_, fun _ hd' => List.mem_cons_of_mem d hd'⟩
    cases hd'
    exact List.mem_cons_self

/-- The completion of a case is kept under the number under which the case was started. -/
theorem numbered : launcher.Numbered fun b => ∀ d ∈ b.done, d.pid.isSome where
  start l c h hdone := by
    let begun : Host InProcess :=
      { h with backend := { h.backend with nextPid := h.backend.nextPid + 1 } }
    have hpush (d : Completion) (hd : d.pid.isSome) {t : Host InProcess}
        (ht : t.backend = begun.backend) : Ensures (do push d; return h.backend.nextPid)
          (fun _ t => ∀ d ∈ t.backend.done, d.pid.isSome)
          (fun _ t => ∀ d ∈ t.backend.done, d.pid.isSome) t := by
      show ∀ d' ∈ t.backend.done ++ [d], d'.pid.isSome
      rw [ht]
      exact List.forall_mem_append.2 ⟨hdone, List.forall_mem_singleton.2 hd⟩
    simp only [launcher, start, ensures_bind, ensures_get, ensures_modify, ensures_attempt]
    refine (Case.ensures_call_backend (h := begun)).mono (fun _ t ht => hpush _ rfl ht)
      fun f t ht => ?_
    cases hfatal : f.isFatal with
    | true =>
      rw [if_pos rfl]
      show ∀ d ∈ t.backend.done, d.pid.isSome
      rw [ht]
      exact hdone
    | false =>
      rw [if_neg Bool.false_ne_true, ensures_bind, Host.ensures_warn]
      exact hpush _ rfl ht
  waitAny _ hdone := ensures_waitAny_kept.mono
    (fun _ _ ht => ⟨fun d hd => hdone d (ht.2.2 d hd), fun d hd => hdone d (ht.2.1 d hd)⟩)
    fun _ _ hf => hf.elim

theorem timely : launcher.Timely Case.Timely where
  start l c h hc hh := by
    simp only [launcher, start, ensures_bind, ensures_get, ensures_modify, ensures_attempt]
    refine (hc.ensures_call (by exact hh)).mono (fun _ t ht => ht) fun f t ht => ?_
    cases hfatal : f.isFatal with
    | true =>
      rw [if_pos rfl]
      exact ht
    | false =>
      rw [if_neg Bool.false_ne_true, ensures_bind, Host.ensures_warn]
      exact ht
  waitAny _ hh := ensures_waitAny_kept.mono (fun _ _ ht => ht.1 ▸ hh.later) fun _ _ hf => hf.elim

end InProcess
end RankRunner
