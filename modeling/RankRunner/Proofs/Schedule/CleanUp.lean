import RankRunner.Proofs.Launcher.ForkedYielding
import RankRunner.Proofs.Launcher.Plain
import RankRunner.Proofs.Launcher.Scripted
import RankRunner.Proofs.Schedule.BailOut

/-! # What a bail-out does, and to whom

A bail-out goes over the running cases of a list twice, and takes their processes away as it goes.
Its operations are told by the list as it was at the beginning: all the processes are killed, then
each of them is waited for, and last everything else is collected (`bailOut_collects`). What becomes
of the list is told by the answers to the waits alone (`Siblings.aborted`). -/

namespace RankRunner

open Effect

variable {σ : Type}

/-- What a bail-out relies on: to kill and to drain cannot fail, and to wait for a child fails only
for want of it. -/
structure Launcher.Obliging (launcher : Launcher σ) (inv : Host σ → Prop) (issued : Int → Prop) :
    Prop where
  unaffected : ∀ h clock shown, inv h → inv { h with clock, shown }
  kill : ∀ pid h, inv h → issued pid →
    Ensures (launcher.kill pid) (fun _ => inv) (fun _ _ => False) h
  wait : ∀ pid h, inv h → issued pid → Ensures (launcher.wait pid) (fun _ => inv)
    (fun f t => inv t ∧ ∃ q, f = .raised q ∧ q.isNoChild = true) h
  drain : ∀ h, inv h → Ensures launcher.drain (fun _ => inv) (fun _ _ => False) h

/-- A wait that is not marked is not broken off. -/
theorem Launcher.Yielding.obliging {launcher : Launcher σ} {D : Case → Prop} {inv : Host σ → Prop}
    {issued : Int → Prop} {alive : σ → Multiset Int}
    (yielding : launcher.Yielding D inv issued alive) : launcher.Obliging inv issued where
  unaffected h clock shown := yielding.unaffected h clock shown h.barriers
  kill := yielding.kill
  wait pid h hinv hpid := by
    refine (yielding.wait pid h hinv hpid).mono (fun _ _ ht => ht) ?_
    rintro f t ⟨ht, q, rfl, hq⟩
    refine ⟨ht, q, rfl, hq.resolve_right fun hq => ?_⟩
    rw [yielding.unmarked h hinv] at hq
    cases hq.2
  drain h hinv := (yielding.drain h hinv).mono (fun _ _ ht => ht.1) fun _ _ ht => ht

theorem Scripted.obliging : launcher.Obliging (fun _ => True) fun _ => True where
  unaffected _ _ _ _ := trivial
  kill _ _ _ _ := trivial
  wait _ _ _ _ := ensures_wait.mono (fun _ _ _ => trivial) fun _ _ ht => ⟨trivial, ht.2⟩
  drain _ _ := trivial

theorem Forked.obliging : launcher.Obliging Unmarked (· ≠ anyPid) := yielding.obliging

/-- What was asked of the launcher, in its order. -/
def Journal.acts (J : Journal σ) : List Act := J.map (·.act)

@[simp] theorem Journal.acts_append (J J' : Journal σ) : (J ++ J').acts = J.acts ++ J'.acts :=
  List.map_append

/-! ## The list -/

/-- The wait for the killed child of the case at a place: when it came back, and its answer. -/
structure Await where
  pos : Nat
  time : Timestamp
  answer : Except Failure Completion

namespace Siblings

variable {l : Siblings Case} {waits : List Await} {w : Await}

/-- The case whose child has been waited for is aborted. -/
def aborted (l : Siblings Case) (w : Await) : Siblings Case :=
  { l.modify w.pos (·.aborted w.time w.answer.toOption) with outstanding := 0 }

/-- The processes of the running cases, in the order of their declaration. -/
def running (l : Siblings Case) : List Int := l.items.filterMap (·.pid)

/-- The processes of the cases at some places. -/
def runningAt (l : Siblings Case) (positions : List Nat) : List Int :=
  positions.filterMap fun pos => l.items[pos]?.bind (·.pid)

theorem runningAt_livePositions (l : Siblings Case) :
    l.runningAt (Schedule.livePositions l) = l.running := by
  have hplaces : (List.range l.items.length).map (l.items[·]?) = l.items.map some := by
    apply List.ext_getElem (by simp)
    intro p hp hp'
    simp at hp
    simp [hp]
  have hall : l.running = (List.range l.items.length).filterMap fun pos =>
      l.items[pos]?.bind (·.pid) := by
    have := congrArg (List.filterMap fun c? : Option Case => c?.bind (·.pid)) hplaces
    rw [List.filterMap_map, List.filterMap_map] at this
    exact this.symm
  rw [hall, runningAt, Schedule.livePositions, List.filterMap_filter]
  apply List.filterMap_congr
  intro pos _
  cases l.items[pos]? with
  | none => rfl
  | some c => cases hpid : c.pid <;> simp [hpid]

theorem aborted_getElem?_of_ne {pos : Nat} (h : pos ≠ w.pos) :
    (l.aborted w).items[pos]? = l.items[pos]? := modify_getElem?_of_ne h

theorem foldl_aborted_maxRank : (waits.foldl aborted l).maxRank = l.maxRank := by
  induction waits generalizing l with
  | nil => rfl
  | cons w waits ih => exact ih

theorem foldl_aborted_outstanding (h : waits ≠ []) : (waits.foldl aborted l).outstanding = 0 := by
  obtain ⟨before, w, rfl⟩ := List.eq_nil_or_concat waits |>.resolve_left h
  rw [List.concat_eq_append, List.foldl_append]
  rfl

theorem foldl_aborted_length : (waits.foldl aborted l).items.length = l.items.length := by
  induction waits generalizing l with
  | nil => rfl
  | cons w waits ih => exact ih.trans modify_length

theorem foldl_aborted_getElem?_of_not_mem {pos : Nat} (h : pos ∉ waits.map (·.pos)) :
    (waits.foldl aborted l).items[pos]? = l.items[pos]? := by
  induction waits generalizing l with
  | nil => rfl
  | cons w waits ih =>
    obtain ⟨hne, hrest⟩ := not_or.1 (mt List.mem_cons.2 h)
    exact (ih hrest).trans (aborted_getElem?_of_ne hne)

/-- Of the waits for distinct cases each aborts its own. -/
theorem foldl_aborted_getElem? {c : Case} (hn : (waits.map (·.pos)).Nodup) (hw : w ∈ waits)
    (hc : l.items[w.pos]? = some c) :
    (waits.foldl aborted l).items[w.pos]? = some (c.aborted w.time w.answer.toOption) := by
  induction waits generalizing l with
  | nil => cases hw
  | cons w' waits ih =>
    obtain ⟨hnot, hn⟩ := List.nodup_cons.1 hn
    rcases List.mem_cons.1 hw with rfl | hw
    · exact (foldl_aborted_getElem?_of_not_mem hnot).trans (modify_getElem? hc)
    · have hne : w.pos ≠ w'.pos := fun heq =>
        hnot (List.mem_map.2 ⟨w, hw, heq⟩)
      exact ih hn hw ((aborted_getElem?_of_ne hne).trans hc)

end Siblings

namespace Schedule

open Siblings

variable {launcher : Launcher σ} {inv : Host σ → Prop} {issued : Int → Prop} {l : Siblings Case}

theorem nodup_livePositions : (livePositions l).Nodup := List.nodup_range.filter _

theorem livePositions_running : ∀ pos ∈ livePositions l, ∃ c pid,
    l.items[pos]? = some c ∧ c.pid = some pid := by
  intro pos hpos
  obtain ⟨-, hlive⟩ := List.mem_filter.1 hpos
  obtain ⟨c, hc, hpid⟩ := (Option.any_eq_true _ _).1 hlive
  obtain ⟨pid, hpid⟩ := Option.isSome_iff_exists.1 hpid
  exact ⟨c, pid, hc, hpid⟩

/-! ## The effects -/

section Obliging

variable (obliging : launcher.Obliging inv issued)
include obliging

theorem ensures_killAll_acts (positions : List Nat) {h : Host (Journaled σ)} (hinv : inv h.plain)
    (hissued : ∀ pid ∈ l.pids, issued pid) :
    Ensures (killAll launcher.journaled positions) (fun _ t => t.list = l ∧ inv t.host.plain ∧
      t.host.backend.journal.acts =
        h.backend.journal.acts ++ (l.runningAt positions).map fun pid => .kill pid (.ok ()))
      (fun _ _ => False) ⟨l, h⟩ := by
  induction positions generalizing h with
  | nil => exact ⟨rfl, hinv, (List.append_nil _).symm⟩
  | cons pos rest ih =>
    simp only [killAll, ensures_bind, Scope.ensures_at?]
    rw [runningAt, List.filterMap_cons]
    rcases hc : l.items[pos]? with _ | ⟨i, action, _ | pid, usage⟩
    · exact ih hinv
    · exact ih hinv
    · have hpid : issued pid := hissued pid (mem_pids.2 ⟨_, List.mem_of_getElem? hc, rfl⟩)
      simp only [Scope.ensures_onHost, ensures_bind, Host.ensures_debugging]
      have hinv' := obliging.unaffected _ h.clock
        (h.shown ++ h.console.debugging s!"bail-out: killing {i.id} (pid={pid})") hinv
      refine Launcher.ensures_recorded.2 ((obliging.kill pid _ hinv' hpid).mono
        (fun _ t ht => ?_) fun _ _ h => h)
      refine (ih (h := t.withJournal _) ht).mono ?_ fun _ _ h => h
      rintro _ u ⟨hl, hu, hacts⟩
      refine ⟨hl, hu, ?_⟩
      rw [hacts, Host.withJournal_journal, Journal.acts_append, List.append_assoc]
      rfl

theorem ensures_awaitKilled_acts {pid : Int} {h : Host (Journaled σ)} (hinv : inv h.plain)
    (hpid : issued pid) :
    Ensures (awaitKilled launcher.journaled pid) (fun done t => inv t.plain ∧ ∃ answer,
      done = answer.toOption ∧
      t.backend.journal.acts = h.backend.journal.acts ++ [.wait pid answer])
      (fun _ _ => False) h := by
  simp only [awaitKilled, ensures_bind, ensures_attempt]
  refine Launcher.ensures_recorded.2 ((obliging.wait pid _ hinv hpid).mono ?_ ?_)
  · intro d t ht
    exact ⟨ht, .ok d, rfl, Journal.acts_append ..⟩
  · rintro _ t ⟨ht, q, rfl, hq⟩
    simp only [hq, if_true]
    exact ⟨ht, .error (.raised q), rfl, Journal.acts_append ..⟩

theorem ensures_abortAll_acts (positions : List Nat) {s : Scope Case (Journaled σ)}
    (hinv : inv s.host.plain) (hissued : ∀ pid ∈ s.list.pids, issued pid)
    (hn : positions.Nodup)
    (hrunning : ∀ pos ∈ positions, ∃ c pid, s.list.items[pos]? = some c ∧ c.pid = some pid) :
    Ensures (abortAll launcher.journaled positions) (fun _ t => inv t.host.plain ∧
      ∃ waits : List Await, waits.map (·.pos) = positions ∧ t.list = waits.foldl aborted s.list ∧
        t.host.backend.journal.acts = s.host.backend.journal.acts ++
          (s.list.runningAt positions).zipWith .wait (waits.map (·.answer)))
      (fun _ _ => False) s := by
  induction positions generalizing s with
  | nil => exact ⟨hinv, [], rfl, rfl, (List.append_nil _).symm⟩
  | cons pos rest ih =>
    obtain ⟨hnot, hn⟩ := List.nodup_cons.1 hn
    obtain ⟨c, pid, hc, hpid⟩ := hrunning pos List.mem_cons_self
    have hmem := mem_pids.2 ⟨c, List.mem_of_getElem? hc, hpid⟩
    rw [abortAll, ensures_bind]
    refine ensures_abort_running hc hpid
      ((ensures_awaitKilled_acts obliging hinv (hissued pid hmem)).mono ?_ fun _ _ h => h)
    rintro _ t ⟨ht, answer, rfl, hacts⟩ clock time
    -- the places that are left are as they were
    have hkept : ∀ p ∈ rest, (s.list.aborted ⟨pos, time, answer⟩).items[p]? = s.list.items[p]? :=
      fun p hp => aborted_getElem?_of_ne fun (heq : p = pos) => hnot (heq ▸ hp)
    have hissued' : ∀ pid ∈ (s.list.aborted ⟨pos, time, answer⟩).pids, issued pid := by
      intro pid' hpid'
      obtain ⟨others, hpids, hmod⟩ := exists_pids_of_pid hc hpid
      refine hissued pid' (hpids ▸ Multiset.mem_cons_of_mem ?_)
      exact hmod (·.aborted time answer.toOption) rfl ▸ hpid'
    refine (ih (s := ⟨s.list.aborted ⟨pos, time, answer⟩, { t with clock }⟩)
      (obliging.unaffected t.plain clock t.shown ht) hissued' hn fun p hp => ?_).mono ?_
      fun _ _ h => h
    · rw [hkept p hp]
      exact hrunning p (List.mem_cons_of_mem _ hp)
    · rintro _ u ⟨hu, waits, hwaits, hl, hacts'⟩
      have hat : s.list.runningAt (pos :: rest) =
          pid :: (s.list.aborted ⟨pos, time, answer⟩).runningAt rest := by
        rw [runningAt, List.filterMap_cons_some (b := pid) (by rw [hc]; exact hpid)]
        congr 1
        exact List.filterMap_congr fun p hp => by rw [hkept p hp]
      refine ⟨hu, ⟨pos, time, answer⟩ :: waits, by rw [List.map_cons, hwaits], hl, ?_⟩
      rw [hacts', hat]
      change t.backend.journal.acts ++ _ = _
      rw [hacts, List.append_assoc]
      rfl

end Obliging

/-! ## The whole -/

/-- A case after a bail-out: as it was if it was not running, and aborted otherwise, with the
usage that the wait for its child told of, if there was one to wait for. -/
inductive Collected (acts : List Act) (c : Case) : Case → Prop where
  | kept (idle : c.pid = none) : Collected acts c c
  | aborted (pid : Int) (time : Timestamp) (answer : Except Failure Completion)
    (running : c.pid = some pid) (waited : .wait pid answer ∈ acts) :
    Collected acts c (c.aborted time answer.toOption)

theorem length_livePositions : (livePositions l).length = l.running.length := by
  rw [← runningAt_livePositions, runningAt]
  refine (List.filterMap_length_eq_length.2 fun pos hpos => ?_).symm
  obtain ⟨c, pid, hc, hpid⟩ := livePositions_running pos hpos
  rw [hc, Option.bind_some, hpid]
  rfl

theorem length_running : l.running.length = l.live.length := card_pids

/-- What is waited for at the place of a running case is its process. -/
theorem mem_zipWith_wait {waits : List Await} {w : Await} {c : Case} {pid : Int}
    (hrunning : ∀ w ∈ waits, ∃ c pid, l.items[w.pos]? = some c ∧ c.pid = some pid)
    (hw : w ∈ waits) (hc : l.items[w.pos]? = some c) (hpid : c.pid = some pid) :
    Act.wait pid w.answer ∈
      (l.runningAt (waits.map (·.pos))).zipWith Act.wait (waits.map (·.answer)) := by
  induction waits with
  | nil => cases hw
  | cons w' waits ih =>
    obtain ⟨c', pid', hc', hpid'⟩ := hrunning w' List.mem_cons_self
    rw [List.map_cons, runningAt, List.filterMap_cons_some (b := pid') (by rw [hc']; exact hpid'),
      List.map_cons, List.zipWith_cons_cons]
    rcases List.mem_cons.1 hw with rfl | hw
    · cases hc.symm.trans hc'
      cases hpid.symm.trans hpid'
      exact List.mem_cons_self
    · exact List.mem_cons_of_mem _ (ih (fun w hw => hrunning w (List.mem_cons_of_mem _ hw)) hw)

theorem collected_of_waits {waits : List Await} {acts : List Act}
    (hwaits : waits.map (·.pos) = livePositions l)
    (hacts : ∀ act ∈ l.running.zipWith Act.wait (waits.map (·.answer)), act ∈ acts) :
    List.Forall₂ (Collected acts) l.items (waits.foldl aborted l).items := by
  have hrunning : ∀ w ∈ waits, ∃ c pid, l.items[w.pos]? = some c ∧ c.pid = some pid :=
    fun w hw => livePositions_running _ (hwaits ▸ List.mem_map_of_mem hw)
  have hnodup : (waits.map (·.pos)).Nodup := hwaits ▸ nodup_livePositions
  refine List.forall₂_iff_get.2 ⟨foldl_aborted_length.symm, fun p hp hp' => ?_⟩
  have hc := List.getElem?_eq_getElem hp
  have hc' := List.getElem?_eq_getElem hp'
  rw [List.get_eq_getElem, List.get_eq_getElem]
  cases hpid : l.items[p].pid with
  | none =>
    have hnot : p ∉ waits.map (·.pos) := by
      intro hmem
      obtain ⟨w, hw, rfl⟩ := List.mem_map.1 hmem
      obtain ⟨c, pid, hcw, hpidw⟩ := hrunning w hw
      cases hc.symm.trans hcw
      cases hpid.symm.trans hpidw
    rw [foldl_aborted_getElem?_of_not_mem hnot, hc] at hc'
    rw [← Option.some.inj hc']
    exact .kept hpid
  | some pid =>
    have hmem : p ∈ waits.map (·.pos) := hwaits ▸ mem_livePositions hc (by rw [hpid]; rfl)
    obtain ⟨w, hw, rfl⟩ := List.mem_map.1 hmem
    rw [foldl_aborted_getElem? hnodup hw hc] at hc'
    rw [← Option.some.inj hc']
    have hwait := mem_zipWith_wait hrunning hw hc hpid
    rw [hwaits, runningAt_livePositions] at hwait
    exact .aborted pid w.time w.answer hpid (hacts _ hwait)

/-- A bail-out kills the processes of all running cases, then waits for each of them, and last
collects whatever else is around. -/
theorem ensures_bailOut_acts (obliging : launcher.Obliging inv issued) (reason : String)
    {s : Scope Case (Journaled σ)} (hinv : inv s.host.plain)
    (hissued : ∀ pid ∈ s.list.pids, issued pid) :
    Ensures (bailOut launcher.journaled reason) (fun _ _ => False) (fun f t =>
      ∃ drained, f = .fault (.bailedOut reason (s.list.live.map (·.id)) drained) ∧
      ∃ waits : List Await, waits.map (·.pos) = livePositions s.list ∧
        t.list = waits.foldl aborted s.list ∧
        t.host.backend.journal.acts = s.host.backend.journal.acts ++
          (s.list.running.map (fun pid => .kill pid (.ok ())) ++
            s.list.running.zipWith .wait (waits.map (·.answer)) ++ [.drain (.ok drained)])) s := by
  simp only [bailOut, ensures_bind, ensures_get]
  refine (ensures_killAll_acts obliging (livePositions s.list) hinv hissued).mono ?_
    fun _ _ h => h.elim
  rintro _ t ⟨hl, ht, hkills⟩
  refine ensures_bind.2 ((ensures_abortAll_acts obliging (livePositions s.list) ht (hl ▸ hissued)
    nodup_livePositions (hl ▸ livePositions_running)).mono ?_ fun _ _ h => h.elim)
  rintro _ u ⟨hu, waits, hpositions, hlist, hwaits⟩
  rw [hl] at hlist hwaits
  rw [ensures_bind, Scope.ensures_onHost]
  refine Launcher.ensures_recorded.2 ((obliging.drain _ hu).mono ?_ fun _ _ h => h.elim)
  intro drained v _
  refine ⟨drained, rfl, waits, hpositions, hlist, ?_⟩
  change (u.host.backend.journal ++ [_]).acts = _
  rw [Journal.acts_append, hwaits, hkills, runningAt_livePositions, List.append_assoc,
    List.append_assoc, List.append_assoc]
  rfl

/-- A bail-out kills all running cases, then waits for each of them, and last collects whatever
else is around. It always ends with the fault that names those cases. By then they are aborted,
nothing is outstanding, and all other cases are as they were. -/
theorem bailOut_collects (obliging : launcher.Obliging inv issued)
    (hout : l.outstanding = l.live.length) (hissued : ∀ pid ∈ l.pids, issued pid) {h : Host σ}
    (hinv : inv h) (reason : String) :
    ∃ (t : Scope Case (Journaled σ)) (drained : Int) (answers : List (Except Failure Completion)),
      (bailOut launcher.journaled reason).run ⟨l, h.withJournal []⟩ =
        .error (.fault (.bailedOut reason (l.live.map (·.id)) drained)) t ∧
      (bailOut launcher reason).run ⟨l, h⟩ =
        .error (.fault (.bailedOut reason (l.live.map (·.id)) drained)) t.plain ∧
      answers.length = l.running.length ∧
      t.host.backend.journal.acts = l.running.map (fun pid => .kill pid (.ok ())) ++
        l.running.zipWith .wait answers ++ [.drain (.ok drained)] ∧
      List.Forall₂ (Collected t.host.backend.journal.acts) l.items t.list.items ∧
      t.list.outstanding = 0 ∧ t.list.maxRank = l.maxRank := by
  obtain ⟨f, t, hrun, drained, rfl, waits, hpositions, hlist, hacts⟩ :=
    (ensures_bailOut_acts obliging reason (s := ⟨l, h.withJournal []⟩) hinv hissued).exists_error
  have hplain : (bailOut launcher reason).run ⟨l, h⟩ = _ :=
    (launcher.journaled_followedBy.bailOut reason).mirrors ⟨l, h.withJournal []⟩
  rw [hrun] at hplain
  change _ = [] ++ _ at hacts
  rw [List.nil_append] at hacts
  refine ⟨t, drained, waits.map (·.answer), hrun, hplain, ?_, hacts, ?_, ?_, ?_⟩
  · rw [List.length_map, ← List.length_map (·.pos), hpositions, length_livePositions]
  · rw [hlist]
    refine collected_of_waits hpositions fun act hact => ?_
    rw [hacts]
    exact List.mem_append_left _ (List.mem_append_right _ hact)
  · rw [hlist]
    by_cases hnone : waits = []
    · subst hnone
      rw [List.foldl_nil, hout, ← length_running, ← length_livePositions, ← hpositions]
      rfl
    · exact foldl_aborted_outstanding hnone
  · rw [hlist, foldl_aborted_maxRank]

/-- Four cases, of which the first and the third are running. -/
def halfway : Siblings Case where
  items := [{ id := "a", pid := some 11 }, { id := "b", status := .failure },
    { id := "c", pid := some 12 }, { id := "d" }]
  maxRank := 1
  outstanding := 2

/-- One child is still to be waited for, and the other one is gone. -/
def halfwayScript : Scripted where
  waits := [.done { pid := some 11, exit := some 0, usage := some default }, .noChild]
  drained := 3

/-- The same children as processes of the system. -/
def halfwayTable : Forked where
  table := { live := [(11, 0)] }

theorem halfwayTable_unmarked : Forked.Unmarked { backend := halfwayTable } := by
  refine ⟨⟨nofun, nofun, nofun, fun x hx => ?_, nofun, by decide⟩, rfl⟩
  cases List.mem_singleton.1 hx
  rfl

theorem bailOut_collects_halfway :
    halfway.outstanding = halfway.live.length ∧
      (∃ (t : Scope Case (Journaled Scripted)) (drained : Int)
        (answers : List (Except Failure Completion)),
        (bailOut Scripted.launcher "interrupted").run ⟨halfway, { backend := halfwayScript }⟩ =
          .error (.fault (.bailedOut "interrupted" ["a", "c"] drained)) t.plain ∧
        answers.length = 2 ∧
        t.host.backend.journal.acts = [.kill 11 (.ok ()), .kill 12 (.ok ())] ++
          [11, 12].zipWith .wait answers ++ [.drain (.ok drained)] ∧
        List.Forall₂ (Collected t.host.backend.journal.acts) halfway.items t.list.items ∧
        t.list.outstanding = 0 ∧ t.list.maxRank = 1) ∧
      (∀ pid ∈ halfway.pids, pid ≠ Forked.anyPid) ∧
      ∃ (t : Scope Case (Journaled Forked)) (drained : Int),
        (bailOut Forked.launcher "interrupted").run ⟨halfway, { backend := halfwayTable }⟩ =
          .error (.fault (.bailedOut "interrupted" ["a", "c"] drained)) t.plain ∧
        t.list.outstanding = 0 := by
  have hpids : ∀ pid ∈ halfway.pids, pid ≠ Forked.anyPid := by decide
  obtain ⟨t, drained, answers, -, h⟩ := bailOut_collects Scripted.obliging (l := halfway) rfl
    (fun _ _ => trivial) (h := { backend := halfwayScript }) trivial "interrupted"
  obtain ⟨t', drained', _, -, hrun, -, -, -, hzero, -⟩ := bailOut_collects Forked.obliging
    (l := halfway) rfl hpids halfwayTable_unmarked "interrupted"
  exact ⟨rfl, ⟨t, drained, answers, h⟩, hpids, t', drained', hrun, hzero⟩

end Schedule
end RankRunner
