import RankRunner.Proofs.Launcher.Laws
import RankRunner.Proofs.Lists

/-! # Launchers that let a run stop

A yielding launcher fails only in ways that are foreseen: no child can be started, there is none
to wait for, or a wait is broken off. What its journal tells once the run is asked to stop is
`Journal.Halts`: hardly anything is started, and only at the rank at hand. -/

namespace RankRunner

open Effect

variable {σ : Type}

namespace Act

/-- The case that was to be started. -/
def dispatched? : Act → Option Case
  | start _ c _ => some c
  | _ => none

/-- Whether a child was started. -/
def launched : Act → Bool
  | start _ _ (.ok _) => true
  | _ => false

theorem card_unreaped_of_dispatched {act : Act} (h : act.dispatched?.isSome)
    (children : Multiset Int) :
    Multiset.card (act.unreaped children) =
      Multiset.card children + if act.launched then 1 else 0 := by
  cases act with
  | start l c answer =>
    cases answer with
    | ok pid => exact Multiset.card_cons pid children
    | error f => rfl
  | _ => cases h

/-- A child that is not reaped was so before, or it was started. -/
theorem mem_unreaped {act : Act} {children : Multiset Int} {pid : Int}
    (h : pid ∈ act.unreaped children) :
    pid ∈ children ∨ ∃ l c, act = .start l c (.ok pid) := by
  cases act with
  | start l c answer =>
    cases answer with
    | ok n =>
      rcases Multiset.mem_cons.1 h with rfl | h
      · exact .inr ⟨l, c, rfl⟩
      · exact .inl h
    | error f => exact .inl h
  | waitAny answer =>
    left
    rcases answer with _ | _ | d
    · exact h
    · exact h
    · simp only [unreaped] at h
      split at h
      · exact h
      · cases hd : d.pid with
        | none => simpa [hd] using h
        | some n => exact Multiset.mem_of_mem_erase (by simpa [hd] using h)
  | _ => exact .inl h

end Act

namespace Journal

variable {J J' : Journal σ} {e : Entry σ} {limit : Nat}

/-- The cases that were to be started, in their order. -/
def dispatched (J : Journal σ) : List Case := J.filterMap (·.act.dispatched?)

/-- How many children were started. -/
def launched (J : Journal σ) : Nat := J.countP (·.act.launched)

@[simp] theorem dispatched_append : (J ++ J').dispatched = J.dispatched ++ J'.dispatched :=
  List.filterMap_append

/-- Once the run is asked to stop, at most `limit` children are started, and only cases of the rank
at hand are dispatched. -/
def Halts (limit : Nat) (J : Journal σ) : Prop :=
  ∀ (before : Journal σ) e after, J = before ++ e :: after → e.host.requested = true →
    launched (e :: after) ≤ limit ∧
      ∃ c ∈ (dispatched (before ++ [e])).getLast?, ∀ b ∈ dispatched after, b.rank = c.rank

/-- While cases are dispatched nothing is reaped. -/
theorem card_unreaped_append (h : ∀ x ∈ J', x.act.dispatched?.isSome) :
    Multiset.card (J ++ J').unreaped = Multiset.card J.unreaped + J'.launched := by
  induction J' generalizing J with
  | nil => simp [launched]
  | cons x J' ih =>
    have hx := Act.card_unreaped_of_dispatched (h x List.mem_cons_self) J.unreaped
    rw [← unreaped_snoc] at hx
    rw [List.append_cons, ih fun y hy => h y (List.mem_cons_of_mem _ hy), hx]
    simp only [launched, List.countP_cons]
    omega

end Journal

namespace Launcher

variable {launcher : Launcher σ} {D : Case → Prop} {inv : Host σ → Prop} {issued : Int → Prop}
  {alive : σ → Multiset Int}

/-- A launcher fails only in ways that are foreseen, and leaves no child alive when it has collected
all of them. Its processes are `issued`. That there is no child to wait for is an answer of a wait
for any child, and a failure of a wait for one. A wait for one child is broken off only where it is
marked: a signal breaks off a wait only if its handler raises something, which it does in a marked
wait and in no other, and after a handler that returns the wait is taken up again. -/
structure Yielding (launcher : Launcher σ) (D : Case → Prop) (inv : Host σ → Prop)
    (issued : Int → Prop) (alive : σ → Multiset Int) : Prop where
  unaffected : ∀ h clock shown barriers, inv h → inv { h with clock, shown, barriers }
  unmarked : ∀ h, inv h → h.interruption.blocking = false
  describes : ∀ h, inv h → ∃ why, h.interruption.describe = .ok why
  start : ∀ l c h, inv h → D c → Ensures (launcher.start l c)
    (fun pid t => (inv t ∧ h.Insists t) ∧ issued pid)
    (fun f t => (inv t ∧ h.Insists t) ∧ ∃ q, f = .raised q ∧ q.isSystem = true) h
  waitAny : ∀ h, inv h → Ensures launcher.waitAny
    (fun d? t => (inv t ∧ h.Insists t) ∧ ∀ d ∈ d?, d.pid.isSome)
    (fun f t => (inv t ∧ h.Insists t) ∧ ∃ q, f = .raised q ∧ q.isInterrupted = true) h
  wait : ∀ pid h, inv h → issued pid → Ensures (launcher.wait pid) (fun _ t => inv t)
    (fun f t => inv t ∧ ∃ q, f = .raised q ∧
      (q.isNoChild = true ∨ q.isInterrupted = true ∧ h.interruption.blocking = true)) h
  kill : ∀ pid h, inv h → issued pid →
    Ensures (launcher.kill pid) (fun _ t => inv t) (fun _ _ => False) h
  drain : ∀ h, inv h →
    Ensures launcher.drain (fun _ t => inv t ∧ alive t.backend = 0) (fun _ _ => False) h

/-- What has been watched of a schedule at the rank `r`. The run was not asked to stop before it
is, and since then cases of the rank have been dispatched at most. -/
structure Watched (inv : Host σ → Prop) (issued : Int → Prop) (r : Int) (J : Journal σ)
    (h : Host σ) : Prop where
  inv : inv h
  issued : ∀ pid ∈ J.unreaped, issued pid
  quiet : h.requested = false → ∀ e ∈ J, e.host.requested = false
  busy : J.unreaped ≠ 0 → ∃ c ∈ J.dispatched.getLast?, c.rank = r
  halted : ∀ (before : Journal σ) e after, J = before ++ e :: after → e.host.requested = true →
    (∃ c ∈ (Journal.dispatched (before ++ [e])).getLast?, c.rank = r) ∧
      ∀ x ∈ after, ∃ c, x.act.dispatched? = some c ∧ c.rank = r

namespace Watched

variable {r : Int} {J : Journal σ} {h t : Host σ} {limit : Nat}

theorem nil (hinv : inv h) : Watched inv issued r [] h := by
  refine ⟨hinv, nofun, fun _ _ he => absurd he List.not_mem_nil, fun hne => absurd rfl hne,
    fun before e after hJ => ?_⟩
  cases before <;> cases hJ

theorem quiet_snoc (hw : Watched inv issued r J h) (ht : h.Insists t) {act : Act}
    (hreq : t.requested = false) : ∀ e ∈ J ++ [⟨act, t⟩], e.host.requested = false := by
  have hreq₀ : h.requested = false := by
    cases hh : h.requested with
    | false => rfl
    | true => exact absurd (ht hh) (by simp [hreq])
  intro e he
  rcases List.mem_append.1 he with he | he
  · exact hw.quiet hreq₀ e he
  · cases List.mem_singleton.1 he
    exact hreq

theorem dispatch (hw : Watched inv issued r J h) (hinv : inv t) (ht : h.Insists t)
    {l : Siblings Case} {c : Case} (hrank : c.rank = r) {answer : Except Failure Int}
    (hissued : ∀ pid, answer = .ok pid → issued pid) :
    Watched inv issued r (J ++ [⟨.start l c answer, t⟩]) t := by
  have hlast : c ∈ (Journal.dispatched (J ++ [⟨.start l c answer, t⟩])).getLast? := by
    simp [Journal.dispatched, Act.dispatched?]
  refine ⟨hinv, fun pid hpid => ?_, fun hreq => hw.quiet_snoc ht hreq, fun _ => ⟨c, hlast, hrank⟩,
    fun before e after hJ he => ?_⟩
  · rw [Journal.unreaped_snoc] at hpid
    rcases Act.mem_unreaped hpid with hpid | ⟨_, _, hact⟩
    · exact hw.issued pid hpid
    · cases hact
      exact hissued pid rfl
  · rcases List.snoc_eq_append_cons hJ with ⟨rfl, rfl, rfl⟩ | ⟨mid, hmid, rfl⟩
    · exact ⟨⟨c, hlast, hrank⟩, fun x hx => absurd hx List.not_mem_nil⟩
    · obtain ⟨hbusy, hafter⟩ := hw.halted before e mid hmid he
      refine ⟨hbusy, fun x hx => ?_⟩
      rcases List.mem_append.1 hx with hx | hx
      · exact hafter x hx
      · cases List.mem_singleton.1 hx
        exact ⟨c, rfl, hrank⟩

/-- A wait begins only while the run is not asked to stop, when some child of the rank is left. -/
theorem wait (hw : Watched inv issued r J h) (hlive : J.unreaped ≠ 0)
    (hreq : h.requested = false) (hinv : inv t) (ht : h.Insists t)
    {answer : Except Failure (Option Completion)} :
    Watched inv issued r (J ++ [⟨.waitAny answer, t⟩]) t := by
  have hlast : ∃ c ∈ (Journal.dispatched (J ++ [⟨.waitAny answer, t⟩])).getLast?, c.rank = r := by
    simpa [Journal.dispatched, Act.dispatched?] using hw.busy hlive
  refine ⟨hinv, fun pid hpid => ?_, fun hreq => hw.quiet_snoc ht hreq, fun _ => hlast,
    fun before e after hJ he => ?_⟩
  · rw [Journal.unreaped_snoc] at hpid
    rcases Act.mem_unreaped hpid with hpid | ⟨_, _, hact⟩
    · exact hw.issued pid hpid
    · cases hact
  · rcases List.snoc_eq_append_cons hJ with ⟨rfl, rfl, rfl⟩ | ⟨mid, hmid, rfl⟩
    · exact ⟨hlast, fun x hx => absurd hx List.not_mem_nil⟩
    · have hquiet := hw.quiet hreq e (hmid ▸ List.mem_append_right _ List.mem_cons_self)
      rw [hquiet] at he
      cases he

theorem next (hw : Watched inv issued r J h) (hlive : J.unreaped = 0)
    (hreq : h.requested = false) : Watched inv issued (r + 1) J h := by
  refine ⟨hw.inv, hw.issued, hw.quiet, fun hne => absurd hlive hne, fun before e after hJ he => ?_⟩
  have hquiet := hw.quiet hreq e (hJ ▸ List.mem_append_right _ List.mem_cons_self)
  rw [hquiet] at he
  cases he

/-- Children that are started once the run is asked to stop are not reaped, so that they are no
more than may be unreaped. -/
theorem halts (hw : Watched inv issued r J h) (hcard : Multiset.card J.unreaped ≤ limit) :
    J.Halts limit := by
  intro before e after hJ he
  obtain ⟨⟨c, hc, hrank⟩, hafter⟩ := hw.halted before e after hJ he
  refine ⟨?_, c, hc, fun b hb => ?_⟩
  · have hall : ∀ x ∈ after, x.act.dispatched?.isSome := fun x hx => by
      obtain ⟨b, hb, _⟩ := hafter x hx
      rw [hb]
      rfl
    have hcount := Journal.card_unreaped_append (J := before ++ [e]) hall
    rw [← List.append_cons, ← hJ] at hcount
    have hfirst : (if e.act.launched then 1 else 0) ≤ Multiset.card (before ++ [e]).unreaped := by
      rw [Journal.unreaped_snoc]
      split
      · next hl =>
        unfold Act.launched at hl
        split at hl
        · next hact =>
          rw [hact]
          exact Nat.succ_le_of_lt (Multiset.card_pos.2 (Multiset.cons_ne_zero))
        · cases hl
      · exact Nat.zero_le _
    have hsplit : Journal.launched (e :: after) =
        Journal.launched after + if e.act.launched then 1 else 0 := List.countP_cons ..
    omega
  · obtain ⟨x, hx, hxb⟩ := List.mem_filterMap.1 hb
    obtain ⟨b', hb', hrank'⟩ := hafter x hx
    cases hb'.symm.trans hxb
    rw [hrank, hrank']

end Watched

/-- A schedule is watched at each rank, and foresees how a yielding launcher fails. -/
theorem Yielding.keepsAt (h : launcher.Yielding D inv issued alive) :
    launcher.KeepsAt D False (Watched inv issued) where
  start r J s l c hw hD hrank := by
    refine (h.start l c s hw.inv hD).mono ?_ ?_
    · rintro pid t ⟨⟨hinv, ht⟩, hpid⟩
      exact hw.dispatch hinv ht hrank fun pid' hpid' => Except.ok.inj hpid' ▸ hpid
    · rintro f t ⟨⟨hinv, ht⟩, hf⟩
      refine ⟨hw.dispatch hinv ht hrank fun pid' hpid' => ?_, .inr hf⟩
      cases hpid'
  waitAny r J s hw hlive hreq := by
    refine (h.waitAny s hw.inv).mono ?_ ?_
    · rintro d? t ⟨⟨hinv, ht⟩, hd⟩
      exact ⟨hw.wait hlive hreq hinv ht, hd⟩
    · rintro f t ⟨⟨hinv, ht⟩, hf⟩
      exact ⟨hw.wait hlive hreq hinv ht, .inr hf⟩
  next _ _ _ hw hlive hreq := hw.next hlive hreq
  unaffected _ _ s clock shown barriers hw :=
    { hw with inv := h.unaffected s clock shown barriers hw.inv }

end Launcher
end RankRunner
