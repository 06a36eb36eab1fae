import Mathlib.Data.Multiset.MapFold
import RankRunner.Proofs.Expected
import RankRunner.Launcher

/-! # Launchers that can be relied on

A faithful launcher starts every case, and reports each child once, with the status that the
outcome of its case stands for. The order in which children are reported is left open, and waits
may be broken off. -/

namespace RankRunner

open Effect

variable {σ : Type}

/-- While the surroundings are `calm`, `pending` holds the children that were started and are still
to be reported, each with the status of its case. -/
structure Launcher.Faithful (launcher : Launcher σ) (calm : Host σ → Prop)
    (pending : σ → Multiset (Int × Status)) : Prop where
  requested : ∀ h, calm h → h.requested = false
  unaffected : ∀ h clock shown barriers, calm h → calm { h with clock, shown, barriers }
  patience_eq : ∀ h clock shown barriers,
    launcher.patience { h with clock, shown, barriers } = launcher.patience h
  pending_eq_zero : ∀ h, calm h → launcher.patience h = 0 → pending h.backend = 0
  start : ∀ l c h, c.Surviving → calm h → Ensures (launcher.start l c)
    (fun pid t => calm t ∧ pid ∉ (pending h.backend).map Prod.fst ∧
      pending t.backend = (pid, c.verdict) ::ₘ pending h.backend)
    (fun _ _ => False) h
  waitAny : ∀ h, calm h → pending h.backend ≠ 0 → Ensures launcher.waitAny
    (fun d? t => calm t ∧ launcher.patience t < launcher.patience h ∧
      ∃ d pid, d? = some d ∧ d.pid = some pid ∧ d.stopped = false ∧
        pending h.backend = (pid, ⟨d.result⟩) ::ₘ pending t.backend)
    (fun f t => calm t ∧ launcher.patience t < launcher.patience h ∧
      pending t.backend = pending h.backend ∧ ∃ r, f = .raised r ∧ r.isInterrupted = true) h

end RankRunner
