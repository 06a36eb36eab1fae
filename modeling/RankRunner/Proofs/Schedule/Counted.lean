import Mathlib.Logic.Relation
import RankRunner.Proofs.Launcher.Scripted
import RankRunner.Proofs.Schedule.BailOut
import RankRunner.Proofs.Schedule.Bounds

/-! # The count of outstanding children

A list counts as outstanding the children of its running cases (`Siblings.Counted`). To launch a
case that is not running, to collect children and to bail out keep the count right, however each of
them ends. So the count is right whatever was done to the list before, and it tells how a collection
of children ends (`outstanding_of_steps`). -/

namespace RankRunner

namespace Siblings

variable {l l' : Siblings Case} {pos : Nat} {f : Case → Case} {c : Case}

def Counted (l : Siblings Case) : Prop := l.outstanding = l.live.length

theorem Counted.of_live (ho : l.outstanding = 0) (hlive : l.live = []) : l.Counted := by
  rw [Counted, ho, hlive]
  rfl

theorem Counted.pid_eq_none (h : l.Counted) (ho : l.outstanding = 0) :
    ∀ c ∈ l.items, c.pid = none := by
  have hcounted : l.outstanding = l.live.length := h
  exact pid_of_live (List.eq_nil_of_length_eq_zero (by omega))

/-- How many cases that are running in the first list are not running in the second. -/
def cleared (l l' : Siblings Case) : Nat :=
  (l.items.zip l'.items).countP fun (before, after) => before.pid.isSome && after.pid.isNone

/-- Each case has kept its process, or is not running any more. -/
def Thinned (l l' : Siblings Case) : Prop :=
  List.Forall₂ (fun before after => after.pid = before.pid ∨ after.pid = none) l.items l'.items

theorem Thinned.refl (l : Siblings Case) : l.Thinned l := List.forall₂_same.2 fun _ _ => .inl rfl

theorem Thinned.modify (h : l.Thinned l') (hc : l'.items[pos]? = some c) (hf : (f c).pid = none) :
    l.Thinned (l'.modify pos f) := by
  refine List.Forall₂.modify h (fun _ _ hab => hab) fun a b hb _ => ?_
  cases hc.symm.trans hb
  exact .inr hf

/-- What was running has been cleared, or is running still. -/
theorem Thinned.cleared_add_live (h : l.Thinned l') :
    l.cleared l' + l'.live.length = l.live.length := by
  simp only [live, cleared, ← List.countP_eq_length_filter]
  unfold Thinned at h
  generalize l.items = before at h ⊢
  generalize l'.items = after at h ⊢
  induction h with
  | nil => rfl
  | @cons a b _ _ hpid _ ih =>
    have hself : (a.pid.isSome && a.pid.isNone) = false := by cases a.pid <;> rfl
    rw [List.zip_cons_cons, List.countP_cons, List.countP_cons, List.countP_cons]
    dsimp only
    rcases hpid with hpid | hpid
    · rw [hpid, hself, if_neg Bool.false_ne_true]
      omega
    · rw [hpid, Option.isNone_none, Bool.and_true, Option.isSome_none, if_neg Bool.false_ne_true]
      omega

theorem live_length_modify (hc : l.items[pos]? = some c) (f : Case → Case) :
    (l.modify pos f).live.length + c.pid.toList.length =
      l.live.length + (f c).pid.toList.length := by
  obtain ⟨others, hl, hmod⟩ := exists_pids_modify hc
  rw [← card_pids, ← card_pids, hmod, hl, Multiset.card_add, Multiset.card_add, Multiset.coe_card,
    Multiset.coe_card]
  omega

/-- A case that stays running, or not, leaves the count right. -/
theorem Counted.modify (h : l.Counted) (hc : l.items[pos]? = some c) (hf : (f c).pid = c.pid) :
    (l.modify pos f).Counted := by
  have := live_length_modify hc f
  unfold Counted at h ⊢
  rw [hf] at this
  change l.outstanding = _
  omega

theorem Counted.start (h : l.Counted) (hc : l.items[pos]? = some c) (hidle : c.pid = none)
    (t : Timestamp) (pid : Int) : Counted
      { l.modify pos (·.started t pid) with outstanding := l.outstanding + 1 } := by
  have : (l.modify pos (·.started t pid)).live.length = l.live.length + 1 := by
    simpa [hidle, Case.started] using live_length_modify hc (·.started t pid)
  unfold Counted at h ⊢
  change l.outstanding + 1 = ((l.modify pos (·.started t pid)).live.length : Int)
  omega

theorem live_length_complete (hc : l.items[pos]? = some c) (hpid : c.pid.isSome)
    (t : Timestamp) (d : Completion) :
    (l.modify pos (·.completed t d)).live.length + 1 = l.live.length := by
  obtain ⟨pid, hpid⟩ := Option.isSome_iff_exists.1 hpid
  simpa [hpid, Case.completed] using live_length_modify hc (·.completed t d)

end Siblings

namespace Schedule

open Effect Siblings Relation

variable {σ : Type} {launcher : Launcher σ} {inv : σ → Prop} {s t : Scope Case σ} {pos n : Nat}
  {l : Siblings Case} {c : Case}

/-- The count is right, and the launcher keeps its invariant. -/
structure Counting (inv : σ → Prop) (s : Scope Case σ) : Prop where
  counted : s.list.Counted
  backend : inv s.host.backend

/-- The count is right while children of the list `l` are collected, `n` of them so far. -/
structure Reaping (inv : σ → Prop) (l : Siblings Case) (n : Nat) (s : Scope Case σ) : Prop
    extends Counting inv s where
  thinned : l.Thinned s.list
  reaped : n + s.list.live.length = l.live.length

theorem Counting.reaping (h : Counting inv s) : Reaping inv s.list 0 s :=
  ⟨h, .refl _, Nat.zero_add _⟩

theorem Reaping.cleared (h : Reaping inv l n s) : n = l.cleared s.list := by
  have := h.thinned.cleared_add_live
  have := h.reaped
  omega

theorem Reaping.complete (h : Reaping inv l n s) (hc : s.list.items[pos]? = some c)
    (hpid : c.pid.isSome) (time : Timestamp) (d : Completion) {host : Host σ}
    (hinv : inv host.backend) : Reaping inv l (n + 1)
      { list := { s.list.modify pos (·.completed time d) with
          outstanding := s.list.outstanding - 1 }
        host } := by
  have hlive := live_length_complete hc hpid time d
  have hcounted := h.counted
  have hreaped := h.reaped
  unfold Siblings.Counted at hcounted
  refine ⟨⟨?_, hinv⟩, h.thinned.modify hc rfl, ?_⟩
  · change s.list.outstanding - 1 = ((s.list.modify pos (·.completed time d)).live.length : Int)
    omega
  · change n + 1 + (s.list.modify pos (·.completed time d)).live.length = _
    omega

section Operations

theorem ensures_launch_counting (numbered : launcher.Numbered inv) (h : Counting inv s)
    (hc : s.list.items[pos]? = some c) (hidle : c.pid = none) :
    Ensures (launch launcher pos) (fun _ => Counting inv) (fun _ => Counting inv) s := by
  refine ensures_launch hc
    ((numbered.start (atLaunch pos s) c _ (by exact h.backend)).mono (fun pid t ht => ?_)
      fun f t ht => ⟨.inl ⟨?_, ht⟩, fun shown => ⟨?_, ht⟩⟩)
  · exact ⟨h.counted.start hc hidle _ pid, ht⟩
  · exact h.counted.modify hc rfl
  · exact h.counted.modify hc rfl

theorem ensures_reap_counting_cases (numbered : launcher.Numbered inv) (h : Counting inv s) :
    Ensures (reap launcher) (fun n t => Reaping inv s.list n t ∧ t.list.outstanding = 0)
      (fun _ t => Counting inv t ∧ 0 < t.list.outstanding) s := by
  refine (ensures_reap_counting (R := Reaping inv s.list)
    (E := fun t => Counting inv t ∧ 0 < t.list.outstanding) (ensures_reapFrom_counting
      (K := fun _ => Reaping inv s.list) (fun _ _ _ ht _ => ht) ?_ _ 0 s h.reaping)).mono ?_ ?_
  · intro fuel n t ht hout _
    refine (numbered.waitAny _ ht.backend).mono ?_ fun f host hinv =>
      ⟨⟨⟨ht.counted, hinv⟩, ht.thinned, ht.reaped⟩, .inl ⟨⟨ht.counted, hinv⟩, hout⟩⟩
    rintro (_ | d) host ⟨hinv, hd⟩
    · exact ⟨⟨ht.counted, hinv⟩, ht.thinned, ht.reaped⟩
    · refine ensures_note (fun _ _ => ⟨⟨ht.counted, hinv⟩, ht.thinned, ht.reaped⟩)
        fun pos c hc hpid _ _ => ?_
      exact ht.complete hc (hpid ▸ hd d rfl) _ d hinv
  · rintro n t ⟨ht, hout⟩
    have hcounted : t.list.outstanding = t.list.live.length := ht.counted
    exact ⟨ht, by omega⟩
  · rintro f t (ht | ⟨⟨_, ht⟩, hout, _⟩)
    · exact ht
    · exact ⟨ht.toCounting, hout⟩

theorem clearing_of_collecting (collecting : launcher.Collecting inv) :
    Clearing launcher (fun h => inv h.backend) (fun _ => True) (fun _ => False) where
  unaffected _ _ _ h := h
  kill pid h hinv := (collecting.kill pid h hinv).mono (fun _ _ h => h) fun _ _ h => ⟨trivial, h⟩
  wait pid h hinv := (collecting.wait pid h hinv).mono (fun _ _ h => h)
    fun _ _ h => ⟨h.1, .inr h.2⟩
  drain h hinv := (collecting.drain h hinv).mono (fun _ _ h => h) fun _ _ h => ⟨trivial, h⟩

theorem ensures_bailOut_counting (collecting : launcher.Collecting inv) (reason : String)
    (h : Counting inv s) :
    Ensures (bailOut launcher reason) (fun _ => Counting inv) (fun _ => Counting inv) s := by
  refine ((clearing_of_collecting collecting).ensures_bailOut h.backend).mono
    (fun _ _ hf => hf.elim) fun f t ht => ?_
  obtain ⟨hinv, ⟨_, hl⟩ | ⟨_, _, haborting⟩⟩ := ht.resolve_left id
  · exact ⟨hl ▸ h.counted, hinv⟩
  · obtain ⟨hzero, hidle⟩ := haborting.settled h.counted
    exact ⟨.of_live hzero (live_eq_nil hidle), hinv⟩

end Operations

/-- What is done to a list of cases, however it ends: a case that is not running is launched,
children are collected, or the run bails out. In between the surroundings may change. -/
inductive Step (launcher : Launcher σ) (inv : σ → Prop) : Scope Case σ → Scope Case σ → Prop where
  | launch (s : Scope Case σ) (pos : Nat) (c : Case) (place : s.list.items[pos]? = some c)
    (idle : c.pid = none) : Step launcher inv s ((launch launcher pos).ending s)
  | reap (s : Scope Case σ) : Step launcher inv s ((reap launcher).ending s)
  | bailOut (s : Scope Case σ) (reason : String) :
    Step launcher inv s ((bailOut launcher reason).ending s)
  | elsewhere (s : Scope Case σ) (host : Host σ) (backend : inv host.backend) :
    Step launcher inv s { s with host }

theorem Step.counting (collecting : launcher.Collecting inv) (step : Step launcher inv s t)
    (h : Counting inv s) : Counting inv t := by
  cases step with
  | launch pos c place idle =>
    exact (ensures_launch_counting collecting.toNumbered h place idle).ending
  | reap =>
    refine Ensures.ending ((ensures_reap_counting_cases collecting.toNumbered h).mono ?_ ?_)
    · exact fun _ _ ht => ht.1.toCounting
    · exact fun _ _ ht => ht.1
  | bailOut reason => exact (ensures_bailOut_counting collecting reason h).ending
  | elsewhere host backend => exact ⟨h.counted, backend⟩

theorem counting_of_steps (collecting : launcher.Collecting inv)
    (steps : ReflTransGen (Step launcher inv) s t) (h : Counting inv s) : Counting inv t := by
  induction steps with
  | refl => exact h
  | tail _ step ih => exact step.counting collecting ih

/-- Whatever was done to a list that began with nothing running, it counts its running cases as
outstanding. To collect children ends well exactly if none is outstanding afterwards, and then it
answers with the number of cases that it cleared. -/
theorem outstanding_of_steps (collecting : launcher.Collecting inv) (hinv : inv s.host.backend)
    (hlive : s.list.live = []) (hout : s.list.outstanding = 0)
    (steps : ReflTransGen (Step launcher inv) s t) :
    t.list.outstanding = t.list.live.length ∧ 0 ≤ t.list.outstanding ∧
    (∀ n u, (reap launcher).run t = .ok n u → n = t.list.cleared u.list) ∧
    ((∃ n u, (reap launcher).run t = .ok n u) ↔
      ((reap launcher).ending t).list.outstanding = 0) := by
  have hstart : Counting inv s := ⟨.of_live hout hlive, hinv⟩
  have ht := counting_of_steps collecting steps hstart
  have hreap := ensures_reap_counting_cases collecting.toNumbered ht
  have hcounted : t.list.outstanding = t.list.live.length := ht.counted
  refine ⟨hcounted, by omega, fun n u hrun => (hreap.of_ok hrun).1.cleared, ?_, fun hzero => ?_⟩
  · rintro ⟨n, u, hrun⟩
    have hend : (reap launcher).ending t = u := by rw [Effect.ending, hrun]
    rw [hend]
    exact (hreap.of_ok hrun).2
  · cases hrun : (reap launcher).run t with
    | ok n u => exact ⟨n, u, rfl⟩
    | error f u =>
      have hend : (reap launcher).ending t = u := by rw [Effect.ending, hrun]
      rw [Ensures, hrun] at hreap
      rw [hend] at hzero
      have := hreap.2
      omega

/-- After a wait that fails, two children are reported. -/
def failingScript : Scripted where
  anys := [.fails (.system 5 "Input/output error"),
    .done { pid := some 1001, exit := some 0 } false none,
    .done { pid := some 1002, exit := some 0 } false none]

theorem failingScript_numbered : failingScript.Numbered := by
  intro c request signal hc
  simp only [failingScript, List.mem_cons, List.not_mem_nil, or_false, reduceCtorEq, false_or,
    Script.AnyReply.done.injEq] at hc
  rcases hc with ⟨rfl, _⟩ | ⟨rfl, _⟩ <;> rfl

theorem outstanding_of_failingScript :
    ∃ t u, ReflTransGen (Step Scripted.launcher Scripted.Numbered)
        ⟨threeCases, { backend := failingScript }⟩ t ∧
      t.list.outstanding = 2 ∧ t.list.outstanding = t.list.live.length ∧
      (reap Scripted.launcher).run t = .ok 2 u ∧ 2 = t.list.cleared u.list ∧
      ((reap Scripted.launcher).ending t).list.outstanding = 0 := by
  let s₀ : Scope Case Scripted := ⟨threeCases, { backend := failingScript }⟩
  let s₁ := (launch Scripted.launcher 0).ending s₀
  let s₂ := (launch Scripted.launcher 1).ending s₁
  have steps : ReflTransGen (Step Scripted.launcher Scripted.Numbered) s₀
      ((reap Scripted.launcher).ending s₂) :=
    .tail (.tail (.single (.launch s₀ 0 (.declare "a" none []) rfl rfl))
      (.launch s₁ 1 (.declare "b" none []) rfl rfl)) (.reap s₂)
  obtain ⟨hcount, _, hcleared, hends⟩ := outstanding_of_steps Scripted.collecting
    failingScript_numbered rfl rfl steps
  obtain ⟨u, hu⟩ := exists_of_answers (x := reap Scripted.launcher) (n := 2)
    (s := (reap Scripted.launcher).ending s₂) (by decide +kernel)
  exact ⟨_, u, steps, by decide +kernel, hcount, hu, hcleared 2 u hu, hends.1 ⟨2, u, hu⟩⟩

end Schedule
end RankRunner
