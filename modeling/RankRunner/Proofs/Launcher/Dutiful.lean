import RankRunner.Proofs.Launcher.Laws

/-! # Launchers that report every child

A dutiful launcher starts a case unless the system refuses a child, and reports every child in the
end. Which cases are refused, how the children end and in which order they are reported is left
open. Strangers and children that were only stopped may be reported in between, and waits may be
broken off. -/

namespace RankRunner

open Effect

variable {σ : Type} {launcher : Launcher σ} {calm : Host σ → Prop} {pending : σ → Multiset Int}

namespace Launcher

/-- What an operation of a dutiful launcher leaves: the children that are `pending` are those that
are started and not reaped. -/
structure Served (calm : Host σ → Prop) (pending : σ → Multiset Int) (act : Act) (h t : Host σ) :
    Prop where
  calm : calm t
  barriers : t.barriers = h.barriers
  pending : pending t.backend = act.unreaped (pending h.backend)

structure Dutiful (launcher : Launcher σ) (calm : Host σ → Prop) (pending : σ → Multiset Int) :
    Prop where
  requested : ∀ h, calm h → h.requested = false
  unaffected : ∀ h clock shown barriers, calm h → calm { h with clock, shown, barriers }
  patience_eq : ∀ h clock shown barriers,
    launcher.patience { h with clock, shown, barriers } = launcher.patience h
  pending_eq_zero : ∀ h, calm h → launcher.patience h = 0 → pending h.backend = 0
  start : ∀ l c h, calm h → Ensures (launcher.start l c)
    (fun pid => Served calm pending (.start l c (.ok pid)) h)
    (fun f t => Served calm pending (.start l c (.error f)) h t ∧
      ∃ q, f = .raised q ∧ q.isSystem = true) h
  waitAny : ∀ h, calm h → pending h.backend ≠ 0 → Ensures launcher.waitAny
    (fun d? t => Served calm pending (.waitAny (.ok d?)) h t ∧
      launcher.patience t < launcher.patience h ∧ ∃ d, d? = some d ∧ d.pid.isSome)
    (fun f t => Served calm pending (.waitAny (.error f)) h t ∧
      launcher.patience t < launcher.patience h ∧ ∃ q, f = .raised q ∧ q.isInterrupted = true) h

/-- Everything is calm, and the children that are pending are those of the journal. -/
def Serving (calm : Host σ → Prop) (pending : σ → Multiset Int) (J : Journal σ) (h : Host σ) :
    Prop :=
  calm h ∧ pending h.backend = J.unreaped

theorem Served.serving {J : Journal σ} {act : Act} {h t : Host σ}
    (hs : Served calm pending act h t) (hJ : pending h.backend = J.unreaped) :
    Serving calm pending (J ++ [⟨act, t⟩]) t :=
  ⟨hs.calm, by rw [Journal.unreaped_snoc, ← hJ, hs.pending]⟩

theorem Dutiful.keepsAt (h : launcher.Dutiful calm pending) :
    launcher.KeepsAt (fun _ => True) False fun _ => Serving calm pending where
  start _ _ s l c hP _ _ := (h.start l c s hP.1).mono (fun _ _ ht => ht.serving hP.2)
    fun _ _ ht => ⟨ht.1.serving hP.2, .inr ht.2⟩
  waitAny _ _ s hP hlive _ := by
    refine (h.waitAny s hP.1 (hP.2 ▸ hlive)).mono (fun _ t ht => ⟨ht.1.serving hP.2, ?_⟩)
      fun _ _ ht => ⟨ht.1.serving hP.2, .inr ht.2.2⟩
    obtain ⟨_, _, d, rfl, hd⟩ := ht
    rintro _ ⟨⟩
    exact hd
  next _ _ _ hP _ _ := hP
  unaffected _ _ _ _ _ _ hP := ⟨h.unaffected _ _ _ _ hP.1, hP.2⟩

end Launcher
end RankRunner
