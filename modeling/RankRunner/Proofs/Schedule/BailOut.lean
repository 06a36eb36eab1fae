import RankRunner.Proofs.Launcher.Yielding
import RankRunner.Proofs.Schedule.Children
import RankRunner.Schedule.BailOut

/-! # What a bail-out leaves

With a yielding launcher a bail-out kills every running case of a list, waits for each of them and
collects whatever else is around. It always ends with the fault that tells of it, and then nothing
of the list is running (`ensures_bailOut_of_yielding`). -/

namespace RankRunner

open Effect

variable {σ : Type}

/-- What becomes of a running case when the run bails out. -/
def Case.aborted (t : Timestamp) (done : Option Completion) (c : Case) : Case :=
  { c with
    stop := some t, pid := none, status := .aborted
    usage := match done with
      | some d => d.usage
      | none => c.usage }

namespace Journal

/-- A process was killed. -/
def Killed (J : Journal σ) (pid : Int) : Prop := ∃ e ∈ J, e.act = .kill pid (.ok ())

/-- A process was waited for. -/
def Awaited (J : Journal σ) (pid : Int) : Prop := ∃ e ∈ J, ∃ answer, e.act = .wait pid answer

/-- In the end all children were collected. -/
def Drained (J : Journal σ) : Prop := ∃ n, ∃ e ∈ J.getLast?, e.act = .drain (.ok n)

end Journal

namespace Schedule

open Siblings

variable {launcher : Launcher σ} {D : Case → Prop} {inv : Host σ → Prop} {issued : Int → Prop}
  {alive : σ → Multiset Int} {l l' : Siblings Case} {B B' : Journal σ} {c c' : Case} {pid : Int}

/-- A case is as it was, unless it was running and is aborted. -/
inductive Dropped (B : Journal σ) (c : Case) : Case → Prop where
  | kept : Dropped B c c
  | aborted (pid : Int) (t : Timestamp) (done : Option Completion) (running : c.pid = some pid)
    (awaited : B.Awaited pid) : Dropped B c (c.aborted t done)

/-- A case after a bail-out is as it was, unless it was running: then its child was killed and
waited for, and it is aborted. -/
inductive Cleared (B : Journal σ) (c : Case) : Case → Prop where
  | kept (idle : c.pid = none) : Cleared B c c
  | aborted (pid : Int) (t : Timestamp) (done : Option Completion) (running : c.pid = some pid)
    (killed : B.Killed pid) (awaited : B.Awaited pid) : Cleared B c (c.aborted t done)

theorem Dropped.mono (h : Dropped B c c') (hsub : ∀ e ∈ B, e ∈ B') : Dropped B' c c' := by
  cases h with
  | kept => exact .kept
  | aborted pid t done hpid hwait =>
    obtain ⟨e, he, hact⟩ := hwait
    exact .aborted pid t done hpid ⟨e, hsub e he, hact⟩

/-- A case that is not running is not aborted again. -/
theorem Dropped.trans {c₁ : Case} (h : Dropped B c c₁) (h' : Dropped B c₁ c') :
    Dropped B c c' := by
  cases h with
  | kept => exact h'
  | aborted pid t done hpid hwait =>
    cases h' with
    | kept => exact .aborted pid t done hpid hwait
    | aborted _ _ _ hrunning => cases hrunning

theorem Dropped.of_idle (h : Dropped B c c') (hpid : c.pid = none) : c' = c := by
  cases h with
  | kept => rfl
  | aborted _ _ _ hrunning => rw [hpid] at hrunning; cases hrunning

/-- The list after the running cases at some places have been aborted. -/
structure Aborting (positions : List Nat) (B : Journal σ) (l l' : Siblings Case) : Prop where
  cases : List.Forall₂ (Dropped B) l.items l'.items
  idle : ∀ pos ∈ positions, ∀ c ∈ l'.items[pos]?, c.pid = none
  outstanding : l'.outstanding = 0 ∨ l'.outstanding = l.outstanding ∧
    ∀ pos ∈ positions, ∀ c ∈ l.items[pos]?, c.pid = none

namespace Aborting

variable {pos : Nat} {positions : List Nat}

theorem nil : Aborting [] B l l :=
  ⟨List.forall₂_same.2 fun _ _ => .kept, fun _ hp => absurd hp List.not_mem_nil,
    .inr ⟨rfl, fun _ hp => absurd hp List.not_mem_nil⟩⟩

/-- A place without a running case is passed over. -/
theorem cons_of_idle (h : Aborting positions B l l') (hidle : ∀ c ∈ l.items[pos]?, c.pid = none) :
    Aborting (pos :: positions) B l l' := by
  refine ⟨h.cases, fun p hp c' hc' => ?_, h.outstanding.imp id fun hrest => ⟨hrest.1, ?_⟩⟩
  · rcases List.mem_cons.1 hp with rfl | hp
    · obtain ⟨c, hc, hdropped⟩ := h.cases.exists_of_getElem? hc'
      rw [hdropped.of_idle (hidle c hc)]
      exact hidle c hc
    · exact h.idle p hp c' hc'
  · intro p hp c hc
    rcases List.mem_cons.1 hp with rfl | hp
    · exact hidle c hc
    · exact hrest.2 p hp c hc

theorem cons {t : Timestamp} {done : Option Completion} {e : Journal.Entry σ}
    {answer : Except Failure Completion} (hc : l.items[pos]? = some c) (hpid : c.pid = some pid)
    (he : e.act = .wait pid answer)
    (h : Aborting positions B { l.modify pos (·.aborted t done) with outstanding := 0 } l') :
    Aborting (pos :: positions) (e :: B) l l' := by
  have hawaited : Journal.Awaited (e :: B) pid := ⟨e, List.mem_cons_self, answer, he⟩
  have hfirst : List.Forall₂ (Dropped (e :: B)) l.items (l.modify pos (·.aborted t done)).items :=
    List.forall₂_modify (fun _ => .kept) fun a ha => by
      cases hc.symm.trans ha
      exact .aborted pid t done hpid hawaited
  refine ⟨?_, fun p hp c' hc' => ?_, .inl (h.outstanding.elim id And.left)⟩
  · refine (hfirst.comp h.cases).imp ?_
    rintro a a' ⟨b, hab, hba⟩
    exact hab.trans (hba.mono fun _ hx => List.mem_cons_of_mem _ hx)
  · rcases List.mem_cons.1 hp with rfl | hp
    · obtain ⟨b, hb, hdropped⟩ := h.cases.exists_of_getElem? hc'
      cases (modify_getElem? hc).symm.trans hb
      rw [hdropped.of_idle rfl]
      rfl
    · exact h.idle p hp c' hc'

end Aborting

theorem mem_livePositions {pos : Nat} (hc : l.items[pos]? = some c) (hpid : c.pid.isSome) :
    pos ∈ livePositions l := by
  obtain ⟨hlt, _⟩ := List.getElem?_eq_some_iff.1 hc
  refine List.mem_filter.2 ⟨List.mem_range.2 hlt, ?_⟩
  rw [hc]
  exact hpid

/-- When the running cases have been aborted, nothing is running. -/
theorem Aborting.settled (h : Aborting (livePositions l) B l l')
    (hout : l.outstanding = l.live.length) :
    l'.outstanding = 0 ∧ ∀ c ∈ l'.items, c.pid = none := by
  refine ⟨?_, fun c' hc' => ?_⟩
  · rcases h.outstanding with hzero | ⟨hsame, hnot⟩
    · exact hzero
    · have hnone : l.live = [] := live_eq_nil fun c hc => by
        by_contra hpid
        obtain ⟨p, hp⟩ := List.mem_iff_getElem?.1 hc
        exact hpid (hnot p (mem_livePositions hp (Option.isSome_iff_ne_none.2 hpid)) c hp)
      rw [hsame, hout, hnone]
      rfl
  · obtain ⟨p, hp⟩ := List.mem_iff_getElem?.1 hc'
    obtain ⟨c, hc, hdropped⟩ := h.cases.exists_of_getElem? hp
    cases hpid : c.pid with
    | none => rw [hdropped.of_idle hpid, hpid]
    | some pid => exact h.idle p (mem_livePositions hc (by rw [hpid]; rfl)) c' hp

/-- When the running cases have been killed and aborted, nothing is running. -/
theorem Aborting.cleared (h : Aborting (livePositions l) B' l l')
    (hkilled : ∀ pos ∈ livePositions l, ∀ c ∈ l.items[pos]?, ∀ pid ∈ c.pid, B.Killed pid)
    (hout : l.outstanding = l.live.length) :
    l'.outstanding = 0 ∧ (∀ c ∈ l'.items, c.pid = none) ∧
      ∀ after, List.Forall₂ (Cleared (B ++ B' ++ after)) l.items l'.items := by
  obtain ⟨hzero, hidle⟩ := h.settled hout
  refine ⟨hzero, hidle, fun after => ?_⟩
  refine h.cases.imp_of_mem fun c hc c' hc' hdropped => ?_
  cases hdropped with
  | kept => exact .kept (hidle c hc')
  | aborted pid t done hpid hawaited =>
    obtain ⟨p, hp⟩ := List.mem_iff_getElem?.1 hc
    obtain ⟨e, he, hkill⟩ := hkilled p (mem_livePositions hp (by rw [hpid]; rfl)) c hp pid hpid
    obtain ⟨e', he', answer, hwait⟩ := hawaited
    refine .aborted pid t done hpid ⟨e, ?_, hkill⟩ ⟨e', ?_, answer, hwait⟩
    · exact List.mem_append_left _ (List.mem_append_left _ he)
    · exact List.mem_append_left _ (List.mem_append_right _ he')

section Abort

variable {s : Scope Case σ} {Q : Unit → Scope Case σ → Prop} {E : Failure → Scope Case σ → Prop}
  {pos : Nat}

theorem ensures_abort_idle (hidle : ∀ c ∈ s.list.items[pos]?, c.pid = none) (h : Q () s) :
    Ensures (abort launcher pos) Q E s := by
  simp only [abort, ensures_bind, Scope.ensures_at?]
  rcases hc : s.list.items[pos]? with _ | ⟨i, action, _ | pid, usage⟩
  · exact h
  · exact h
  · rw [hc] at hidle
    cases hidle _ rfl

/-- A running case is aborted when its child has been waited for. -/
theorem ensures_abort_running (hc : s.list.items[pos]? = some c) (hpid : c.pid = some pid)
    (h : Ensures (awaitKilled launcher pid)
      (fun done t => ∀ clock time, Q ()
        { list := { s.list.modify pos (·.aborted time done) with outstanding := 0 }
          host := { t with clock } })
      (fun f t => E f { s with host := t }) s.host) :
    Ensures (abort launcher pos) Q E s := by
  obtain ⟨i, action, _, usage⟩ := c
  cases hpid
  simp only [abort, ensures_bind, Scope.ensures_at?, hc, Scope.ensures_onHost,
    Scope.ensures_modifyAt, Scope.ensures_stampStop]
  refine h.mono (fun done t hQ => ?_) fun _ _ h => h
  cases done with
  | none =>
    simp only [modify_modify]
    exact hQ _ _
  | some d =>
    simp only [ensures_bind, Scope.ensures_modifyAt, modify_modify]
    exact hQ _ _

end Abort

section Clearing

/-- What a bail-out needs of a launcher that keeps `I`: to kill and to drain fail only as `F` says,
and to wait for one child only as `F'` says or for want of it. -/
structure Clearing (launcher : Launcher σ) (I : Host σ → Prop) (F F' : Failure → Prop) : Prop where
  unaffected : ∀ h clock shown, I h → I { h with clock, shown }
  kill : ∀ pid h, I h → Ensures (launcher.kill pid) (fun _ => I) (fun f t => F f ∧ I t) h
  wait : ∀ pid h, I h → Ensures (launcher.wait pid) (fun _ => I)
    (fun f t => I t ∧ (F' f ∨ ∃ q, f = .raised q ∧ q.isNoChild = true)) h
  drain : ∀ h, I h → Ensures launcher.drain (fun _ => I) (fun f t => F f ∧ I t) h

namespace Clearing

/-- Nothing is needed if nothing is to be known. -/
theorem any : Clearing launcher (fun _ => True) (fun _ => True) (fun _ => True) where
  unaffected _ _ _ _ := trivial
  kill _ _ _ := ensures_true.mono (fun _ _ h => h) fun _ _ h => ⟨h, h⟩
  wait _ _ _ := ensures_true.mono (fun _ _ h => h) fun _ _ h => ⟨h, .inl h⟩
  drain _ _ := ensures_true.mono (fun _ _ h => h) fun _ _ h => ⟨h, h⟩

variable {I : Host σ → Prop} {F F' : Failure → Prop} {s : Scope Case σ}
  (clearing : Clearing launcher I F F')
include clearing

/-- To kill the children of a list leaves it as it is. -/
theorem ensures_killAll (positions : List Nat) (h : I s.host) :
    Ensures (killAll launcher positions) (fun _ t => t.list = s.list ∧ I t.host)
      (fun f t => F f ∧ t.list = s.list ∧ I t.host) s := by
  obtain ⟨l, host⟩ := s
  induction positions generalizing host with
  | nil => exact ⟨rfl, h⟩
  | cons pos rest ih =>
    simp only [killAll, ensures_bind, Scope.ensures_at?]
    rcases l.items[pos]? with _ | ⟨i, action, _ | pid, usage⟩
    · exact ih host h
    · exact ih host h
    · simp only [Scope.ensures_onHost, ensures_bind, Host.ensures_debugging]
      refine (clearing.kill pid _ (clearing.unaffected _ host.clock _ h)).mono
        (fun _ t ht => ih t ht) fun f t ht => ⟨ht.1, trivial, ht.2⟩

theorem ensures_awaitKilled (pid : Int) {h : Host σ} (hI : I h) :
    Ensures (awaitKilled launcher pid) (fun _ => I) (fun f _ => F' f) h := by
  simp only [awaitKilled, ensures_bind, ensures_attempt]
  refine (clearing.wait pid h hI).mono (fun _ _ ht => ht) fun f t hwait => ?_
  obtain ⟨ht, hf⟩ := hwait
  cases f with
  | fault f =>
    refine hf.resolve_right ?_
    rintro ⟨_, hf, _⟩
    cases hf
  | raised q =>
    dsimp only
    split
    · exact ht
    · next hq =>
      refine hf.resolve_right ?_
      rintro ⟨_, hf, hno⟩
      cases hf
      exact hq hno

/-- The running cases at the places are aborted one after the other. -/
theorem ensures_abortAll (positions : List Nat) (h : I s.host) :
    Ensures (abortAll launcher positions)
      (fun _ t => I t.host ∧ ∃ B : Journal σ, Aborting positions B s.list t.list)
      (fun f _ => F' f) s := by
  induction positions generalizing s with
  | nil => exact ⟨h, [], .nil⟩
  | cons pos rest ih =>
    rw [abortAll, ensures_bind]
    by_cases hidle : ∀ c ∈ s.list.items[pos]?, c.pid = none
    · refine ensures_abort_idle hidle ((ih h).mono ?_ fun _ _ h => h)
      rintro _ t ⟨ht, B, hB⟩
      exact ⟨ht, B, hB.cons_of_idle hidle⟩
    · push Not at hidle
      obtain ⟨c, hc, hne⟩ := hidle
      obtain ⟨pid, hpid⟩ := Option.ne_none_iff_exists'.1 hne
      refine ensures_abort_running hc hpid ((clearing.ensures_awaitKilled pid h).mono
        (fun done host hI clock time => ?_) fun _ _ h => h)
      refine (ih (clearing.unaffected host clock host.shown hI)).mono ?_ fun _ _ h => h
      rintro _ t ⟨ht, B, hB⟩
      exact ⟨ht, ⟨.wait pid (.ok (done.getD { pid })), host⟩ :: B, hB.cons hc hpid rfl⟩

/-- However a bail-out ends, the list is as it was or all that was running has been aborted, unless
a wait failed. -/
theorem ensures_bailOut {reason : String} (h : I s.host) :
    Ensures (bailOut launcher reason) (fun _ _ => False) (fun f t => F' f ∨ I t.host ∧
      (F f ∧ t.list = s.list ∨ (F f ∨ ∃ killed n, f = .fault (.bailedOut reason killed n)) ∧
        ∃ B : Journal σ, Aborting (livePositions s.list) B s.list t.list)) s := by
  simp only [bailOut, ensures_bind, ensures_get]
  refine (clearing.ensures_killAll _ h).mono ?_ fun f t ht => .inr ⟨ht.2.2, .inl ⟨ht.1, ht.2.1⟩⟩
  rintro _ t ⟨hl, ht⟩
  refine ensures_bind.2 ((clearing.ensures_abortAll (livePositions s.list) ht).mono ?_
    fun _ _ h => .inl h)
  rintro _ u ⟨hu, B, hB⟩
  rw [hl] at hB
  rw [ensures_bind, Scope.ensures_onHost]
  refine (clearing.drain _ hu).mono (fun n v hv => ?_) fun f v hv => ?_
  · exact .inr ⟨clearing.unaffected v v.clock _ hv, .inr ⟨.inr ⟨_, n, rfl⟩, B, hB⟩⟩
  · exact .inr ⟨hv.2, .inr ⟨.inl hv.1, B, hB⟩⟩

end Clearing

end Clearing

section Steps

variable (yielding : launcher.Yielding D inv issued alive)
include yielding

theorem ensures_killAll (hissued : ∀ pid ∈ l.pids, issued pid) (positions : List Nat)
    {h : Host (Journaled σ)} (hinv : inv h.plain) :
    Ensures (killAll launcher.journaled positions) (fun _ t => t.list = l ∧ inv t.host.plain ∧
      ∃ B, t.host.backend.journal = h.backend.journal ++ B ∧ B.dispatched = [] ∧
        ∀ pos ∈ positions, ∀ c ∈ l.items[pos]?, ∀ pid ∈ c.pid, B.Killed pid)
      (fun _ _ => False) ⟨l, h⟩ := by
  induction positions generalizing h with
  | nil =>
    exact ⟨rfl, hinv, [], (List.append_nil _).symm, rfl, fun _ hp => absurd hp List.not_mem_nil⟩
  | cons pos rest ih =>
    simp only [killAll, ensures_bind, Scope.ensures_at?]
    -- a place without a running case is passed over
    have hover (hidle : ∀ c ∈ l.items[pos]?, c.pid = none) :
        Ensures (killAll launcher.journaled rest) (fun _ t => t.list = l ∧ inv t.host.plain ∧
          ∃ B, t.host.backend.journal = h.backend.journal ++ B ∧ B.dispatched = [] ∧
            ∀ p ∈ pos :: rest, ∀ c ∈ l.items[p]?, ∀ pid ∈ c.pid, B.Killed pid)
          (fun _ _ => False) ⟨l, h⟩ := by
      refine (ih hinv).mono ?_ fun _ _ h => h
      rintro _ t ⟨hl, hinv', B, hB, hnone, hkilled⟩
      refine ⟨hl, hinv', B, hB, hnone, fun p hp c hc pid hpid => ?_⟩
      rcases List.mem_cons.1 hp with rfl | hp
      · rw [hidle c hc] at hpid
        cases hpid
      · exact hkilled p hp c hc pid hpid
    rcases hc : l.items[pos]? with _ | ⟨i, action, _ | pid, usage⟩
    · exact hover (by simp [hc])
    · exact hover (by simp [hc])
    · have hpid : issued pid := hissued pid (mem_pids.2 ⟨_, List.mem_of_getElem? hc, rfl⟩)
      simp only [Scope.ensures_onHost, ensures_bind, Host.ensures_debugging]
      have hinv' := yielding.unaffected _ h.clock
        (h.shown ++ h.console.debugging s!"bail-out: killing {i.id} (pid={pid})") h.barriers hinv
      refine Launcher.ensures_recorded.2 ((yielding.kill pid _ hinv' hpid).mono
        (fun _ t ht => ?_) fun _ _ h => h.elim)
      refine (ih (h := t.withJournal _) ht).mono ?_ fun _ _ h => h
      rintro _ u ⟨hl, hinv', B, hB, hnone, hkilled⟩
      refine ⟨hl, hinv', ⟨.kill pid (.ok ()), t⟩ :: B, ?_, hnone, fun p hp c hc' pid' hpid' => ?_⟩
      · rw [hB, Host.withJournal_journal, ← List.append_cons]
      · rcases List.mem_cons.1 hp with rfl | hp
        · cases hc.symm.trans hc'
          cases hpid'
          exact ⟨_, List.mem_cons_self, rfl⟩
        · obtain ⟨e, he, hact⟩ := hkilled p hp c hc' pid' hpid'
          exact ⟨e, List.mem_cons_of_mem _ he, hact⟩

/-- A wait for a child that was killed ends well, as no signal breaks it off. -/
theorem ensures_awaitKilled {h : Host (Journaled σ)} (hinv : inv h.plain) (hpid : issued pid) :
    Ensures (awaitKilled launcher.journaled pid) (fun _ t => inv t.plain ∧ ∃ answer host,
      t.backend.journal = h.backend.journal ++ [⟨.wait pid answer, host⟩])
      (fun _ _ => False) h := by
  simp only [awaitKilled, ensures_bind, ensures_attempt]
  refine Launcher.ensures_recorded.2 ((yielding.wait pid _ hinv hpid).mono ?_ ?_)
  · intro d t ht
    exact ⟨ht, _, t, rfl⟩
  · rintro _ t ⟨ht, q, rfl, hq⟩
    have hno : q.isNoChild = true := by
      refine hq.resolve_right fun hq => ?_
      rw [yielding.unmarked _ hinv] at hq
      cases hq.2
    simp only [hno, if_true]
    exact ⟨ht, _, t, rfl⟩

/-- What a place of the list becomes: a running case is aborted, and everything settled. -/
theorem ensures_abort {s : Scope Case (Journaled σ)} (hinv : inv s.host.plain)
    (hissued : ∀ pid ∈ s.list.pids, issued pid) (pos : Nat) :
    Ensures (abort launcher.journaled pos) (fun _ t => inv t.host.plain ∧
      (t.list = s.list ∧ t.host.backend.journal = s.host.backend.journal ∧
          (∀ c ∈ s.list.items[pos]?, c.pid = none) ∨
        ∃ c pid time done answer host, s.list.items[pos]? = some c ∧ c.pid = some pid ∧
          t.list = { s.list.modify pos (·.aborted time done) with outstanding := 0 } ∧
          t.host.backend.journal = s.host.backend.journal ++ [⟨.wait pid answer, host⟩]))
      (fun _ _ => False) s := by
  by_cases hidle : ∀ c ∈ s.list.items[pos]?, c.pid = none
  · exact ensures_abort_idle hidle ⟨hinv, .inl ⟨rfl, rfl, hidle⟩⟩
  · push Not at hidle
    obtain ⟨c, hc, hne⟩ := hidle
    obtain ⟨pid, hpid⟩ := Option.ne_none_iff_exists'.1 hne
    have hmem := mem_pids.2 ⟨c, List.mem_of_getElem? hc, hpid⟩
    refine ensures_abort_running hc hpid
      ((ensures_awaitKilled yielding hinv (hissued pid hmem)).mono ?_ fun _ _ h => h)
    rintro done t ⟨ht, answer, host, hJ⟩ clock time
    exact ⟨yielding.unaffected t.plain clock t.shown t.barriers ht,
      .inr ⟨c, pid, time, done, answer, host, hc, hpid, rfl, hJ⟩⟩

theorem ensures_abortAll (positions : List Nat) {s : Scope Case (Journaled σ)}
    (hinv : inv s.host.plain) (hissued : ∀ pid ∈ s.list.pids, issued pid) :
    Ensures (abortAll launcher.journaled positions) (fun _ t => inv t.host.plain ∧
      ∃ B, t.host.backend.journal = s.host.backend.journal ++ B ∧ B.dispatched = [] ∧
        Aborting positions B s.list t.list) (fun _ _ => False) s := by
  induction positions generalizing s with
  | nil => exact ⟨hinv, [], (List.append_nil _).symm, rfl, .nil⟩
  | cons pos rest ih =>
    simp only [abortAll, ensures_bind]
    refine (ensures_abort yielding hinv hissued pos).mono ?_ fun _ _ h => h
    rintro _ t ⟨ht, ⟨hl, hJ, hidle⟩ | ⟨c, pid, time, done, answer, host, hc, hpid, hl, hJ⟩⟩
    · refine (ih ht (hl ▸ hissued)).mono ?_ fun _ _ h => h
      rintro _ u ⟨hu, B, hB, hnone, hrest⟩
      rw [hl] at hrest
      exact ⟨hu, B, hJ ▸ hB, hnone, hrest.cons_of_idle hidle⟩
    · have hissued' : ∀ pid ∈ t.list.pids, issued pid := by
        intro pid' hpid'
        obtain ⟨b, hb, hbp⟩ := mem_pids.1 hpid'
        rw [hl] at hb
        rcases List.mem_modify hb with hb | ⟨a, _, rfl⟩
        · exact hissued pid' (mem_pids.2 ⟨b, hb, hbp⟩)
        · cases hbp
      refine (ih ht hissued').mono ?_ fun _ _ h => h
      rintro _ u ⟨hu, B, hB, hnone, hrest⟩
      rw [hl] at hrest
      exact ⟨hu, ⟨.wait pid answer, host⟩ :: B, by rw [hB, hJ, ← List.append_cons], hnone,
        hrest.cons hc hpid rfl⟩

/-- A bail-out ends with the fault that tells of it. By then no case of the list is running, and no
child is alive. -/
theorem ensures_bailOut_of_yielding {reason : String} {s : Scope Case (Journaled σ)}
    (hinv : inv s.host.plain) (hissued : ∀ pid ∈ s.list.pids, issued pid)
    (hout : s.list.outstanding = s.list.live.length) :
    Ensures (bailOut launcher.journaled reason) (fun _ _ => False) (fun f t =>
      (∃ killed n, f = .fault (.bailedOut reason killed n)) ∧
      alive t.host.backend.backend = 0 ∧ t.list.outstanding = 0 ∧
      (∀ c ∈ t.list.items, c.pid = none) ∧
      ∃ B, t.host.backend.journal = s.host.backend.journal ++ B ∧ B.dispatched = [] ∧
        B.Drained ∧ List.Forall₂ (Cleared B) s.list.items t.list.items) s := by
  simp only [bailOut, ensures_bind, ensures_get]
  refine (ensures_killAll yielding hissued _ hinv).mono ?_ fun _ _ h => h.elim
  rintro _ t ⟨hl, ht, B, hB, hnone, hkilled⟩
  refine ensures_bind.2 ((ensures_abortAll yielding (livePositions s.list) ht
    (hl ▸ hissued)).mono ?_ fun _ _ h => h.elim)
  rintro _ u ⟨hu, B', hB', hnone', habort⟩
  rw [hl] at habort
  rw [ensures_bind, Scope.ensures_onHost]
  refine Launcher.ensures_recorded.2 ((yielding.drain _ hu).mono ?_ fun _ _ h => h.elim)
  rintro n v ⟨hv, halive⟩
  obtain ⟨hzero, hidle, hcleared⟩ := habort.cleared hkilled hout
  refine ⟨⟨_, n, rfl⟩, halive, hzero, hidle, B ++ B' ++ [⟨.drain (.ok n), v⟩], ?_, ?_,
    ⟨n, _, List.getLast?_concat, rfl⟩, hcleared _⟩
  · rw [← List.append_assoc, ← List.append_assoc, ← hB, ← hB']
    rfl
  · rw [Journal.dispatched_append, Journal.dispatched_append, hnone, hnone']
    rfl

end Steps

end Schedule
end RankRunner
