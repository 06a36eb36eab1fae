import RankRunner.Proofs.Launcher.Journal

/-! # Laws for launchers

What may be required of a launcher. Each law speaks of one operation at a time, and may depend on
an invariant `inv` of the state of the launcher. `Launcher.Keeps` is the common form, in terms of
the journal, to which the others are reduced. -/

namespace RankRunner

open Effect

variable {σ : Type} {launcher : Launcher σ} {inv : σ → Prop} {alive : σ → Multiset Int}

/-- That the run is asked to stop is not taken back. -/
def Host.Insists (h t : Host σ) : Prop := h.requested = true → t.requested = true

namespace Launcher

/-- The launcher keeps `P`, which does not depend on what the runner itself changes, and its
completions carry the number of a process. -/
structure Keeps (launcher : Launcher σ) (P : Journal σ → Host σ → Prop) : Prop where
  start : ∀ J h l c, P J h → Ensures (launcher.start l c)
    (fun pid t => P (J ++ [⟨.start l c (.ok pid), t⟩]) t)
    (fun f t => P (J ++ [⟨.start l c (.error f), t⟩]) t) h
  waitAny : ∀ J h, P J h → Ensures launcher.waitAny
    (fun d? t => P (J ++ [⟨.waitAny (.ok d?), t⟩]) t ∧ ∀ d ∈ d?, d.pid.isSome)
    (fun f t => P (J ++ [⟨.waitAny (.error f), t⟩]) t) h
  unaffected : ∀ J h clock shown barriers, P J h → P J { h with clock, shown, barriers }

/-- The launcher keeps `P r` while a schedule is at the rank `r`. The schedule starts cases of that
rank that satisfy `D`, waits while a child is unreaped and the run has not been asked to stop, and
without that goes on to the next rank when all children are reaped. Unless `X` holds, a start fails
through the system only, and a wait only because it was broken off. -/
structure KeepsAt (launcher : Launcher σ) (D : Case → Prop) (X : Prop)
    (P : Int → Journal σ → Host σ → Prop) : Prop where
  start : ∀ r J h l c, P r J h → D c → c.rank = r → Ensures (launcher.start l c)
    (fun pid t => P r (J ++ [⟨.start l c (.ok pid), t⟩]) t)
    (fun f t => P r (J ++ [⟨.start l c (.error f), t⟩]) t ∧
      (X ∨ ∃ q, f = .raised q ∧ q.isSystem = true)) h
  waitAny : ∀ r J h, P r J h → J.unreaped ≠ 0 → h.requested = false → Ensures launcher.waitAny
    (fun d? t => P r (J ++ [⟨.waitAny (.ok d?), t⟩]) t ∧ ∀ d ∈ d?, d.pid.isSome)
    (fun f t => P r (J ++ [⟨.waitAny (.error f), t⟩]) t ∧
      (X ∨ ∃ q, f = .raised q ∧ q.isInterrupted = true)) h
  next : ∀ r J h, P r J h → J.unreaped = 0 → h.requested = false → P (r + 1) J h
  unaffected : ∀ r J h clock shown barriers, P r J h → P r J { h with clock, shown, barriers }

theorem Keeps.keepsAt {P : Journal σ → Host σ → Prop} (h : launcher.Keeps P) :
    launcher.KeepsAt (fun _ => True) True fun _ => P where
  start _ J s l c hP _ _ := (h.start J s l c hP).mono (fun _ _ ht => ht) fun _ _ ht =>
    ⟨ht, .inl trivial⟩
  waitAny _ J s hP _ _ := (h.waitAny J s hP).mono (fun _ _ ht => ht) fun _ _ ht =>
    ⟨ht, .inl trivial⟩
  next _ _ _ hP _ _ := hP
  unaffected _ := h.unaffected

/-- The completions of the launcher carry the number of a process. -/
structure Numbered (launcher : Launcher σ) (inv : σ → Prop) : Prop where
  start : ∀ l c h, inv h.backend →
    Ensures (launcher.start l c) (fun _ t => inv t.backend) (fun _ t => inv t.backend) h
  waitAny : ∀ h, inv h.backend → Ensures launcher.waitAny
    (fun d? t => inv t.backend ∧ ∀ d ∈ d?, d.pid.isSome) (fun _ t => inv t.backend) h

/-- All operations keep the invariant, and to wait for one child fails only for want of it. -/
structure Collecting (launcher : Launcher σ) (inv : σ → Prop) : Prop
    extends Numbered launcher inv where
  wait : ∀ pid h, inv h.backend → Ensures (launcher.wait pid) (fun _ t => inv t.backend)
    (fun f t => inv t.backend ∧ ∃ q, f = .raised q ∧ q.isNoChild = true) h
  kill : ∀ pid h, inv h.backend →
    Ensures (launcher.kill pid) (fun _ t => inv t.backend) (fun _ t => inv t.backend) h
  drain : ∀ h, inv h.backend →
    Ensures launcher.drain (fun _ t => inv t.backend) (fun _ t => inv t.backend) h

/-- What goes wrong in the launcher is raised. It is none of the faults of the runner. -/
structure Faultless (launcher : Launcher σ) : Prop where
  start : ∀ l c h, Ensures (launcher.start l c) (fun _ _ => True) (fun f _ => ∃ q, f = .raised q) h
  waitAny : ∀ h, Ensures launcher.waitAny (fun _ _ => True) (fun f _ => ∃ q, f = .raised q) h
  wait : ∀ pid h, Ensures (launcher.wait pid) (fun _ _ => True) (fun f _ => ∃ q, f = .raised q) h
  kill : ∀ pid h, Ensures (launcher.kill pid) (fun _ _ => True) (fun f _ => ∃ q, f = .raised q) h
  drain : ∀ h, Ensures launcher.drain (fun _ _ => True) (fun f _ => ∃ q, f = .raised q) h

/-- To start a case or to wait for a child does not take back that the run is asked to stop. -/
structure Insistent (launcher : Launcher σ) : Prop where
  start : ∀ l c h, Ensures (launcher.start l c) (fun _ => h.Insists) (fun _ => h.Insists) h
  waitAny : ∀ h, Ensures launcher.waitAny (fun _ => h.Insists) (fun _ => h.Insists) h

/-- The children that are alive are no more than were alive before, the one that was started, and
without the one of which it is told that it ended. -/
structure Truthful (launcher : Launcher σ) (inv : σ → Prop) (alive : σ → Multiset Int) : Prop
    extends Numbered launcher inv where
  alive_start : ∀ l c h, inv h.backend → Ensures (launcher.start l c)
    (fun pid t => alive t.backend ≤ (Act.start l c (.ok pid)).unreaped (alive h.backend))
    (fun _ t => alive t.backend ≤ alive h.backend) h
  alive_waitAny : ∀ h, inv h.backend → Ensures launcher.waitAny
    (fun d? t => alive t.backend ≤ (Act.waitAny (.ok d?)).unreaped (alive h.backend))
    (fun _ t => alive t.backend ≤ alive h.backend) h

/-- Only children that are started and not reaped are alive beside those of the beginning. -/
def Accounted (inv : σ → Prop) (alive : σ → Multiset Int) (others : Multiset Int) (J : Journal σ)
    (h : Host σ) : Prop :=
  inv h.backend ∧ alive h.backend ≤ others + J.unreaped ∧
    J.Each fun before e => alive e.host.backend ≤ others + (before ++ [e]).unreaped

theorem Accounted.snoc {others : Multiset Int} {J : Journal σ} {h t : Host σ}
    (ha : Accounted inv alive others J h) {act : Act} (hinv : inv t.backend)
    (halive : alive t.backend ≤ act.unreaped (alive h.backend)) :
    Accounted inv alive others (J ++ [⟨act, t⟩]) t := by
  have hle : alive t.backend ≤ others + Journal.unreaped (J ++ [⟨act, t⟩]) := by
    rw [Journal.unreaped_snoc]
    exact Std.le_trans halive (Std.le_trans (act.unreaped_mono ha.2.1) (act.unreaped_add_le ..))
  exact ⟨hinv, hle, ha.2.2.snoc hle⟩

theorem Truthful.keeps (h : launcher.Truthful inv alive) (others : Multiset Int) :
    launcher.Keeps (Accounted inv alive others) where
  start J s l c ha := by
    refine ((h.start l c s ha.1).and (h.alive_start l c s ha.1)).mono (fun pid t ht => ?_)
      fun f t ht => ?_
    · exact ha.snoc ht.1 ht.2
    · exact ha.snoc ht.1 ht.2
  waitAny J s ha := by
    refine ((h.waitAny s ha.1).and (h.alive_waitAny s ha.1)).mono (fun d? t ht => ?_)
      fun f t ht => ?_
    · exact ⟨ha.snoc ht.1.1 ht.2, ht.1.2⟩
    · exact ha.snoc ht.1 ht.2
  unaffected _ _ _ _ _ ha := ha

/-- If the run is not asked to stop now, it never was. -/
def Undisturbed (inv : σ → Prop) (asked : Bool) (J : Journal σ) (h : Host σ) : Prop :=
  inv h.backend ∧ (h.requested = false → asked = false ∧ ∀ e ∈ J, e.host.requested = false)

theorem Undisturbed.snoc {asked : Bool} {J : Journal σ} {h t : Host σ}
    (hu : Undisturbed inv asked J h) (act : Act) (hinv : inv t.backend) (ht : h.Insists t) :
    Undisturbed inv asked (J ++ [⟨act, t⟩]) t := by
  refine ⟨hinv, fun hreq => ?_⟩
  have hreq₀ : h.requested = false := by
    cases hh : h.requested with
    | false => rfl
    | true => exact absurd (ht hh) (by simp [hreq])
  obtain ⟨hasked, hJ⟩ := hu.2 hreq₀
  refine ⟨hasked, fun e he => ?_⟩
  rcases List.mem_append.1 he with he | he
  · exact hJ e he
  · cases List.mem_singleton.1 he
    exact hreq

theorem Numbered.keeps (h : launcher.Numbered inv) (h' : launcher.Insistent) (asked : Bool) :
    launcher.Keeps (Undisturbed inv asked) where
  start J s l c hu := by
    refine ((h.start l c s hu.1).and (h'.start l c s)).mono (fun pid t ht => ?_)
      fun f t ht => ?_
    · exact hu.snoc _ ht.1 ht.2
    · exact hu.snoc _ ht.1 ht.2
  waitAny J s hu := by
    refine ((h.waitAny s hu.1).and (h'.waitAny s)).mono (fun d? t ht => ?_)
      fun f t ht => ?_
    · exact ⟨hu.snoc _ ht.1.1 ht.2, ht.1.2⟩
    · exact hu.snoc _ ht.1 ht.2
  unaffected _ _ _ _ _ hu := hu

end Launcher
end RankRunner
