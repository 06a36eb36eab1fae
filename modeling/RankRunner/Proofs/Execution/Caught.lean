import RankRunner.Proofs.Execution.Refused
import RankRunner.Proofs.Lists
import RankRunner.Proofs.Outcome
import RankRunner.Proofs.Preserves

/-! # Runs that fail in foreseen ways only

A run fails with a fault, or with a condition that is neither fatal nor a request to exit
(`Failure.Caught`), if the functions of its cases raise nothing fatal and the launcher raises
nothing but such conditions (`Execution.runSuite_preserves`). For a launcher over a process table it
is enough that the table raises system errors only (`Forked.caught`). -/

namespace RankRunner

open Effect

variable {α β σ : Type}

/-! ## Failures -/

def Raised.Caught (r : Raised) : Prop := r.isFatal = false ∧ r.name ≠ "SystemExit"

instance (r : Raised) : Decidable r.Caught := inferInstanceAs (Decidable (_ ∧ _))

/-- A fault, or a condition that neither ends the program nor asks for its exit. -/
def Failure.Caught : Failure → Prop
  | .fault _ => True
  | .raised r => r.Caught

/-- Nothing but the name counts. -/
theorem Raised.Caught.of_name {r : Raised} (name : String) (h : (Raised.mk name []).Caught)
    (hr : r.name = name) : r.Caught := by
  subst hr
  exact h

theorem Raised.Caught.of_isSystem {r : Raised} (h : r.isSystem = true) : r.Caught := by
  have hnames : ∀ name ∈ systemNames, (Raised.mk name []).Caught := by decide
  exact .of_name r.name (hnames _ (List.contains_iff_mem.1 h)) rfl

theorem Interruption.describe_caught {i : Interruption} {r : Raised} (h : i.describe = .error r) :
    r.Caught := by
  unfold describe at h
  split at h
  · cases h
  · split at h
    · cases h
    · cases h
      exact .of_name "ValueError" (by decide) rfl

theorem Completion.decode_caught {pid status : Int} {usage : Option Usage} {r : Raised}
    (h : decode pid status usage = .error r) : r.Caught := by
  unfold decode at h
  split at h
  · cases h
    exact .of_name "OverflowError" (by decide) rfl
  · dsimp only at h
    split at h
    · cases h
    · split at h <;> cases h

/-! ## The host -/

/-- The launcher is in a state that satisfies `inv`. -/
def Host.In (inv : σ → Prop) (h : Host σ) : Prop := inv h.backend

namespace Host

variable {inv : σ → Prop}

theorem deliver_preserves (n : Int) :
    (deliver n : Effect (Host σ) Unit).Preserves Failure.Caught (In inv) := by
  have handles : (handle n : Effect (Host σ) Unit).Preserves Failure.Caught (In inv) :=
    .bind (.modify fun _ hh => hh) fun _ => .get_bind fun _ _ =>
      .ite (fun _ => .raise (.of_name "InterruptedError" (by decide) rfl)) fun _ => .pure _
  refine .get_bind fun _ _ => .ite (fun _ => .ite (fun _ => handles) fun _ => ?_) fun _ => handles
  exact .ite (fun _ => .raise (.of_name "OSError" (by decide) rfl)) fun _ => .pure _

theorem blocking_preserves {x : Effect (Host σ) α} (hx : x.Preserves Failure.Caught (In inv)) :
    (blocking x).Preserves Failure.Caught (In inv) := by
  have late : (deliverLate : Effect (Host σ) Unit).Preserves Failure.Caught (In inv) := by
    refine .get_bind fun h _ => ?_
    split
    · exact .pure _
    · exact .bind (.modify fun _ hh => hh) fun _ => deliver_preserves _
  refine .ensuring (.bind (.modify fun _ hh => hh) fun _ => .bind hx fun a => ?_)
    (.modify fun _ hh => hh)
  exact .attempt_bind late (fun _ => .pure _) fun _ _ => .pure _

end Host

namespace Case

variable {c : Case} {inv : σ → Prop}

/-- No call of the function raises anything fatal. -/
def Orderly (c : Case) : Prop :=
  ∀ a ∈ c.action, ∀ n f, (a.deed n).ending = .raises f → f.isFatal = false

theorem Orderly.call_preserves (hc : c.Orderly) :
    (c.call : Effect (Host σ) Int).Preserves (·.isFatal = false) (Host.In inv) := fun h hh =>
  ensures_call hh
    (fun a ha => Action.ensures_perform (fun _ _ => hh) (fun _ ht => ht)
      (fun n _ t ht => (Host.deliver_preserves n t ht).mono (fun _ _ hu => hu) fun f u hu =>
        ⟨hu.1, by cases f with | fault _ => rfl | raised _ => exact hu.2.1⟩)
      fun f hf _ ht => ⟨ht, hc a ha _ f hf⟩)
    (fun _ _ ht => ht) (fun _ _ hf _ ht => ⟨ht, Ending.isFatal_of_returns hf⟩) fun _ _ he => he.1

theorem statusOf_preserves (code : Int) :
    (c.statusOf code : Effect (Host σ) Status).Preserves Failure.Caught (Host.In inv) := by
  unfold statusOf
  split
  · exact .bind (.modify fun _ hh => hh) fun _ => .pure _
  · exact .pure _

end Case

/-! ## Lists -/

/-- The items of a list satisfy `P`, and the state of the launcher satisfies `inv`. -/
structure Scope.Orderly (P : α → Prop) (inv : σ → Prop) (s : Scope α σ) : Prop where
  items : ∀ a ∈ s.list.items, P a
  backend : inv s.host.backend

namespace Scope

variable {T : Failure → Prop} {P : α → Prop} {inv : σ → Prop} {pos : Nat}

theorem onHost_preserves {x : Effect (Host σ) β} (hx : x.Preserves T (Host.In inv)) :
    (onHost x : Effect (Scope α σ) β).Preserves T (Orderly P inv) :=
  .zoom hx (fun _ hs => hs.backend) fun _ _ hs ht => ⟨hs.items, ht⟩

theorem modifyAt_preserves {f : α → α} (hf : ∀ a, P a → P (f a)) :
    (modifyAt pos f : Effect (Scope α σ) Unit).Preserves T (Orderly P inv) := by
  refine .modify fun s hs => ⟨fun b hb => ?_, hs.backend⟩
  rcases List.mem_modify hb with hb | ⟨a, ha, rfl⟩
  · exact hs.items b hb
  · exact hf a (hs.items a ha)

theorem say_preserves (text : Shown) :
    (onHost (Host.say text) : Effect (Scope α σ) Unit).Preserves T (Orderly P inv) :=
  onHost_preserves (.modify fun _ hh => hh)

theorem debugging_preserves (message : String) :
    (onHost (Host.debugging message) : Effect (Scope α σ) Unit).Preserves T (Orderly P inv) :=
  onHost_preserves (.get_bind fun _ _ => .modify fun _ hh => hh)

/-- What is found at a place satisfies `P`. -/
theorem at?_bind {f : Option α → Effect (Scope α σ) β}
    (hnone : (f none).Preserves T (Orderly P inv))
    (hsome : ∀ a, P a → (f (some a)).Preserves T (Orderly P inv)) :
    (at? pos >>= f).Preserves T (Orderly P inv) := fun s hs => by
  rw [ensures_bind, ensures_at?]
  cases ha : s.list.items[pos]? with
  | none => exact hnone s hs
  | some a => exact hsome a (hs.items a (List.mem_of_getElem? ha)) s hs

theorem now_preserves :
    (onHost Host.now : Effect (Scope α σ) Timestamp).Preserves T (Orderly P inv) :=
  onHost_preserves fun _ hh => hh

theorem stampStart_preserves [WorkItem α] (hP : ∀ f a, P a → P (WorkItem.update f a)) :
    (stampStart pos : Effect (Scope α σ) Unit).Preserves T (Orderly P inv) :=
  .bind now_preserves fun _ => modifyAt_preserves fun a ha => hP _ a ha

theorem stampStop_preserves [WorkItem α] (hP : ∀ f a, P a → P (WorkItem.update f a)) :
    (stampStop pos : Effect (Scope α σ) Unit).Preserves T (Orderly P inv) :=
  .bind now_preserves fun _ => modifyAt_preserves fun a ha => hP _ a ha

theorem requested_bind {f : Bool → Effect (Scope α σ) β}
    (hf : ∀ b, (f b).Preserves T (Orderly P inv)) :
    (requested >>= f).Preserves T (Orderly P inv) := fun s hs =>
  ensures_bind.2 (ensures_requested.2 (hf s.host.requested s hs))

end Scope

namespace Schedule

section Simple

variable [WorkItem α] {P : α → Prop} {inv : σ → Prop} {rank : Int} {pos : Nat}
  {dispatch : Nat → Effect (Scope α σ) Unit} (hskip : ∀ a, P a → P (WorkItem.skip a))
include hskip

theorem isDue_preserves : (isDue rank pos : Effect (Scope α σ) Bool).Preserves Failure.Caught
    (Scope.Orderly P inv) := by
  refine .get_bind fun s _ => ?_
  dsimp only
  split
  · exact .pure _
  · refine .ite (fun _ => .pure _) fun _ => .ite (fun _ => .pure _) fun _ =>
      .bind (Scope.at?_bind (.pure _) fun a _ => ?_) fun _ => .pure _
    exact .bind (Scope.modifyAt_preserves hskip) fun _ =>
      Scope.onHost_preserves (.get_bind fun _ _ => .modify fun _ hh => hh)

variable (hdispatch : ∀ pos, (dispatch pos).Preserves Failure.Caught (Scope.Orderly P inv))
include hdispatch

theorem scheduleRank_preserves (places : List Nat) :
    (scheduleRank dispatch rank places).Preserves Failure.Caught (Scope.Orderly P inv) := by
  induction places with
  | nil => exact .pure _
  | cons pos rest ih =>
    exact .bind (isDue_preserves hskip) fun _ =>
      .ite (fun _ => .bind (hdispatch pos) fun _ => ih) fun _ => ih

theorem scheduleRanks_preserves (ranks : List Int) :
    (scheduleRanks dispatch ranks).Preserves Failure.Caught (Scope.Orderly P inv) := by
  induction ranks with
  | nil => exact .pure _
  | cons rank ranks ih =>
    exact Scope.requested_bind fun _ => .ite (fun _ => .pure _) fun _ => .get_bind fun _ _ =>
      .bind (scheduleRank_preserves hskip hdispatch _) fun _ => ih

theorem schedule_preserves :
    (schedule dispatch).Preserves Failure.Caught (Scope.Orderly P inv) :=
  .get_bind fun _ _ => scheduleRanks_preserves hskip hdispatch _

end Simple

variable {inv : σ → Prop} {pos : Nat}

theorem showCase_preserves : (Scope.showCase pos : Effect (Scope Case σ) Unit).Preserves
    Failure.Caught (Scope.Orderly Case.Orderly inv) :=
  Scope.at?_bind (.pure _) fun _ _ =>
    Scope.onHost_preserves (.get_bind fun _ _ => .modify fun _ hh => hh)

/-- What a case raises is dealt with in place, unless it is fatal. -/
theorem runInline_preserves : (runInline pos : Effect (Scope Case σ) Unit).Preserves
    Failure.Caught (Scope.Orderly Case.Orderly inv) := by
  refine Scope.at?_bind (.pure _) fun c hc => ?_
  refine .bind (Scope.stampStart_preserves fun _ _ ha => ha) fun _ =>
    .bind (Scope.onHost_preserves (.attempt_bind hc.call_preserves
      (fun code => Case.statusOf_preserves code) fun e he => ?_)) fun status => ?_
  · refine .ite (fun hfatal => ?_) fun _ => .bind (.modify fun _ hh => hh) fun _ => .pure _
    rw [he] at hfatal
    cases hfatal
  · exact .bind (Scope.modifyAt_preserves fun _ ha => ha) fun _ =>
      .bind (Scope.stampStop_preserves fun _ _ ha => ha) fun _ => showCase_preserves

end Schedule

/-! ## Launchers -/

/-- All operations keep the invariant, and fail in foreseen ways only. -/
structure Launcher.Caught (launcher : Launcher σ) (inv : σ → Prop) : Prop where
  start : ∀ l c, (launcher.start l c).Preserves Failure.Caught (Host.In inv)
  wait : ∀ pid, (launcher.wait pid).Preserves Failure.Caught (Host.In inv)
  waitAny : launcher.waitAny.Preserves Failure.Caught (Host.In inv)
  kill : ∀ pid, (launcher.kill pid).Preserves Failure.Caught (Host.In inv)
  drain : launcher.drain.Preserves Failure.Caught (Host.In inv)

namespace Schedule

variable {launcher : Launcher σ} {inv : σ → Prop} (h : launcher.Caught inv)
include h

/-- A case that the system did not let start is not run. -/
theorem launch_preserves (pos : Nat) : (launch launcher pos).Preserves Failure.Caught
    (Scope.Orderly Case.Orderly inv) := by
  refine Scope.at?_bind (.pure _) fun c _ => ?_
  refine .bind (Scope.stampStart_preserves fun _ _ ha => ha) fun _ => .get_bind fun s _ =>
    .attempt_bind (Scope.onHost_preserves (h.start s.list c)) (fun pid => ?_) fun e he => ?_
  · exact .bind (Scope.modifyAt_preserves fun _ ha => ha) fun _ =>
      .bind (.modify fun _ hs => ⟨hs.items, hs.backend⟩) fun _ => .pure _
  · cases e with
    | fault f => exact .throw he
    | raised r =>
      exact .ite (fun _ => .bind (Scope.say_preserves _) fun _ =>
        .bind (Scope.modifyAt_preserves fun _ ha => ha) fun _ =>
        .bind (Scope.stampStop_preserves fun _ _ ha => ha) fun _ => .pure _) fun _ => .raise he

omit h in
theorem note_preserves (c : Completion) : (note c : Effect (Scope Case σ) Bool).Preserves
    Failure.Caught (Scope.Orderly Case.Orderly inv) := by
  refine .get_bind fun s _ => ?_
  dsimp only
  split
  · next pos case _ _ =>
    refine .ite (fun _ => .bind (Scope.debugging_preserves _) fun _ => .pure _) fun _ => ?_
    have status : (completedStatus case c : Effect (Host σ) Status).Preserves Failure.Caught
        (Host.In inv) := by
      unfold completedStatus
      split
      · exact .bind (.get_bind fun _ _ => .modify fun _ hh => hh) fun _ => .pure _
      · exact case.statusOf_preserves _
    refine .bind (.bind (.modify fun _ hs => ⟨hs.items, hs.backend⟩) fun _ => ?_) fun _ => .pure _
    exact .bind (Scope.modifyAt_preserves fun _ ha => ha) fun _ =>
      .bind (Scope.stampStop_preserves fun _ _ ha => ha) fun _ =>
      .bind (Scope.onHost_preserves status) fun _ =>
      .bind (Scope.modifyAt_preserves fun _ ha => ha) fun _ => showCase_preserves
  · exact .bind (Scope.debugging_preserves _) fun _ => .pure _

theorem awaitAny_preserves : (awaitAny launcher).Preserves Failure.Caught
    (Scope.Orderly Case.Orderly inv) := by
  refine .attempt_bind (Scope.onHost_preserves h.waitAny) (fun done => ?_) fun e he => ?_
  · cases done <;> exact .pure _
  · cases e with
    | fault f => exact .throw he
    | raised r =>
      exact .ite (fun _ => .pure _) fun _ => .ite (fun _ => .get_bind fun _ _ => .fail trivial)
        fun _ => .raise he

theorem reapFrom_preserves (fuel reaped : Nat) : (reapFrom launcher fuel reaped).Preserves
    Failure.Caught (Scope.Orderly Case.Orderly inv) := by
  induction fuel generalizing reaped with
  | zero => exact .pure _
  | succ fuel ih =>
    refine .get_bind fun s _ => Scope.requested_bind fun _ => .ite (fun _ => .pure _) fun _ =>
      .bind (awaitAny_preserves h) fun waited => ?_
    cases waited with
    | interrupted => exact ih reaped
    | exhausted => exact .pure _
    | done c =>
      exact .bind (note_preserves c) fun _ => .ite (fun _ => ih _) fun _ => ih _

theorem barrier_preserves : (barrier launcher).Preserves Failure.Caught
    (Scope.Orderly Case.Orderly inv) := by
  have hreap : (reap launcher).Preserves Failure.Caught (Scope.Orderly Case.Orderly inv) :=
    .get_bind fun _ _ => .bind (reapFrom_preserves h _ 0) fun _ => .get_bind fun _ _ =>
      .ite (fun _ => .bind (.fail trivial) fun _ => .pure _) fun _ => .pure _
  refine .bind (Scope.onHost_preserves (.modify fun _ hh => hh)) fun _ =>
    .attempt_bind hreap (fun _ => .pure _) fun e he => ?_
  cases e with
  | raised r => exact .throw he
  | fault f =>
    refine .ite (fun _ => Scope.requested_bind fun _ => .ite
      (fun _ => .bind (Scope.debugging_preserves _) fun _ => .pure _) fun _ => ?_) fun _ =>
        .fail trivial
    split <;> exact .fail trivial

theorem chunkRank_preserves (limit : Nat) (rank : Int) (live : Nat) (places : List Nat) :
    (chunkRank launcher limit rank live places).Preserves Failure.Caught
      (Scope.Orderly Case.Orderly inv) := by
  induction places generalizing live with
  | nil => exact .pure _
  | cons pos rest ih =>
    refine .bind (isDue_preserves fun _ ha => ha) fun _ => .ite (fun _ => ?_) fun _ => ih live
    refine .bind (launch_preserves h pos) fun started => ?_
    generalize (if started then live + 1 else live) = now
    exact .ite (fun _ => .bind (barrier_preserves h) fun _ => .ite (fun _ => ih 0) fun _ =>
      .pure _) fun _ => ih now

theorem scheduleChunks_preserves (limit : Nat) : (scheduleChunks launcher limit).Preserves
    Failure.Caught (Scope.Orderly Case.Orderly inv) := by
  refine .get_bind fun s _ => ?_
  generalize s.list.ranks = ranks
  induction ranks with
  | nil => exact .pure _
  | cons rank ranks ih =>
    refine Scope.requested_bind fun _ => .ite (fun _ => .pure _) fun _ => .get_bind fun _ _ =>
      .bind (chunkRank_preserves h limit rank 0 _) fun live => ?_
    split
    · exact .pure _
    · exact ih
    · exact .bind (barrier_preserves h) fun _ => .ite (fun _ => ih) fun _ => .pure _

theorem killAll_preserves (places : List Nat) : (killAll launcher places).Preserves
    Failure.Caught (Scope.Orderly Case.Orderly inv) := by
  induction places with
  | nil => exact .pure _
  | cons pos rest ih =>
    refine Scope.at?_bind ih fun c _ => ?_
    split
    · exact .bind (Scope.onHost_preserves (.bind (.get_bind fun _ _ => .modify fun _ hh => hh)
        fun _ => h.kill _)) fun _ => ih
    · exact ih

theorem abort_preserves (pos : Nat) : (abort launcher pos).Preserves Failure.Caught
    (Scope.Orderly Case.Orderly inv) := by
  refine Scope.at?_bind (.pure _) fun c _ => ?_
  split
  · have awaits (pid : Int) : (awaitKilled launcher pid).Preserves Failure.Caught (Host.In inv) := by
      refine .attempt_bind (h.wait pid) (fun _ => .pure _) fun e he => ?_
      cases e with
      | fault f => exact .throw he
      | raised r => exact .ite (fun _ => .pure _) fun _ => .raise he
    refine .bind (Scope.onHost_preserves (awaits _)) fun done =>
      .bind (Scope.modifyAt_preserves fun _ ha => ha) fun _ =>
      .bind (Scope.stampStop_preserves fun _ _ ha => ha) fun _ =>
      .bind (Scope.modifyAt_preserves fun _ ha => ha) fun _ => ?_
    cases done with
    | none => exact .modify fun _ hs => ⟨hs.items, hs.backend⟩
    | some c =>
      exact .bind (Scope.modifyAt_preserves fun _ ha => ha) fun _ =>
        .modify fun _ hs => ⟨hs.items, hs.backend⟩
  · exact .pure _

theorem bailOut_preserves (reason : String) : (bailOut launcher reason).Preserves Failure.Caught
    (Scope.Orderly Case.Orderly inv) := by
  refine .get_bind fun s _ => .bind (killAll_preserves h _) fun _ => .bind ?_ fun _ =>
    .bind (Scope.onHost_preserves h.drain) fun _ => .bind (Scope.debugging_preserves _) fun _ =>
    .fail trivial
  generalize livePositions s.list = places
  induction places with
  | nil => exact .pure _
  | cons pos rest ih => exact .bind (abort_preserves h pos) fun _ => ih

end Schedule

/-! ## Groups and runs -/

/-- The functions of all cases are orderly. -/
def Group.Orderly (g : Group) : Prop := ∀ c ∈ g.cases.items, c.Orderly

theorem Group.Orderly.skip {g : Group} (h : g.Orderly) : g.skip.Orderly := fun c hc => by
  obtain ⟨c₀, hc₀, rfl⟩ := List.mem_map.1 hc
  exact h c₀ hc₀

structure Session.Orderly (inv : σ → Prop) (s : Session σ) : Prop where
  groups : ∀ g ∈ s.run.groups.items, g.Orderly
  backend : inv s.host.backend

namespace Session

variable {inv : σ → Prop}

theorem onHost_preserves {x : Effect (Host σ) α} (hx : x.Preserves Failure.Caught (Host.In inv)) :
    (onHost x).Preserves Failure.Caught (Orderly inv) :=
  .zoom hx (fun _ hs => hs.backend) fun _ _ hs ht => ⟨hs.groups, ht⟩

end Session

namespace Execution

variable {launcher : Launcher σ} {inv : σ → Prop} {regime : Regime}

theorem onCases_preserves {pos : Nat} {x : Effect (Scope Case σ) α}
    (hx : x.Preserves Failure.Caught (Scope.Orderly Case.Orderly inv)) :
    (onCases pos x).Preserves Failure.Caught (Scope.Orderly Group.Orderly inv) := by
  refine .zoom hx (fun s hs => ⟨fun c hc => ?_, hs.backend⟩) fun s t hs ht =>
    ⟨fun g hg => ?_, ht.backend⟩
  · cases hg : s.list.items[pos]? with
    | none =>
      rw [hg] at hc
      cases hc
    | some g =>
      rw [hg] at hc
      exact hs.items g (List.mem_of_getElem? hg) c hc
  · rcases List.mem_modify hg with hg | ⟨g₀, _, rfl⟩
    · exact hs.items g hg
    · exact ht.items

theorem runGroup_preserves (h : launcher.Caught inv) (pos : Nat) :
    (runGroup regime launcher pos).Preserves Failure.Caught
      (Scope.Orderly Group.Orderly inv) := by
  have tell (text : Console → Group → Shown) (g : Group) :
      (Scope.onHost do Host.say (text (← get).console g) :
        Effect (Scope Group σ) Unit).Preserves Failure.Caught (Scope.Orderly Group.Orderly inv) :=
    Scope.onHost_preserves (.get_bind fun _ _ => .modify fun _ hh => hh)
  have cases : (runCases regime launcher).Preserves Failure.Caught
      (Scope.Orderly Case.Orderly inv) :=
    .ite (fun _ => Schedule.scheduleChunks_preserves h _) fun _ =>
      Schedule.schedule_preserves (fun _ ha => ha) fun _ => Schedule.runInline_preserves
  refine .bind (Scope.at?_bind (.pure _) fun g _ => tell _ g) fun _ =>
    .bind (Scope.stampStart_preserves fun _ _ ha => ha) fun _ =>
    .bind (onCases_preserves cases) fun _ =>
    .bind (Scope.stampStop_preserves fun _ _ ha => ha) fun _ =>
    .bind (Scope.modifyAt_preserves fun _ ha => ha) fun _ =>
    .bind (Scope.at?_bind (.pure _) fun g _ => tell _ g) fun _ =>
    Scope.requested_bind fun _ => .ite (fun _ => .get_bind fun _ _ => ?_) fun _ => .pure _
  exact .bind (.ofExcept fun _ hr => Interruption.describe_caught hr) fun reason =>
    onCases_preserves (Schedule.bailOut_preserves h reason)

theorem dispatch_preserves (h : launcher.Caught inv) :
    (dispatch regime launcher).Preserves Failure.Caught (Session.Orderly inv) := by
  refine .bind (.zoom (Schedule.schedule_preserves (fun _ hg => hg.skip) fun pos =>
    runGroup_preserves h pos) (fun s hs => ⟨hs.groups, hs.backend⟩)
      fun s t _ ht => ⟨ht.items, ht.backend⟩) fun _ => .get_bind fun s _ => ?_
  exact .ite (fun _ => .bind (.ofExcept fun _ hr => Interruption.describe_caught hr) fun _ =>
    .fail trivial) fun _ => .pure _

theorem sequence_preserves : (sequence : Effect (Session σ) Unit).Preserves Failure.Caught
    (Session.Orderly inv) := by
  refine .get_bind fun s hs => ?_
  obtain ⟨hgroups, hbackend⟩ := hs
  have ranked : ∀ g ∈ s.run.sequence.1.groups.items, g.Orderly := by
    intro g hg c hc
    obtain ⟨g₀, hg₀, hgg⟩ := s.run.sequence_reranked.groups.items.exists_of_mem_right hg
    obtain ⟨c₀, hc₀, hcc⟩ := hgg.cases.items.exists_of_mem_right hc
    rw [hcc.1]
    exact hgroups g₀ hg₀ c₀ hc₀
  refine .bind (fun _ hs => ⟨ranked, hbackend⟩) fun _ => ?_
  split
  · exact .fail trivial
  · exact .pure _

/-- Without handlers of signals there is nothing to restore. -/
theorem close_preserves : (close {} : Effect (Session σ) Unit).Preserves Failure.Caught
    (Session.Orderly inv) := by
  refine .bind (Session.onHost_preserves fun _ hh => hh) fun _ =>
    .bind (.modify fun _ hs => ⟨hs.groups, hs.backend⟩) fun _ =>
    .bind (Session.onHost_preserves (.pure _)) fun _ => .modify fun s hs => ⟨fun g hg => ?_, hs.backend⟩
  obtain ⟨g₀, hg₀, rfl⟩ := List.mem_map.1 hg
  exact hs.groups g₀ hg₀

/-- A run of orderly cases fails in foreseen ways only. -/
theorem runSuite_preserves (h : launcher.Caught inv) :
    (runSuite regime launcher).Preserves Failure.Caught (Session.Orderly inv) :=
  .bind sequence_preserves fun _ => .get_bind fun _ _ =>
    .bind (Session.onHost_preserves (.get_bind fun _ _ => .modify fun _ hh => hh)) fun _ =>
    .bind (Session.onHost_preserves (.pure _)) fun _ =>
    .bind (Session.onHost_preserves fun _ hh => hh) fun _ =>
    .bind (.modify fun _ hs => ⟨hs.groups, hs.backend⟩) fun _ =>
    .bind (.ensuring (dispatch_preserves h) close_preserves) fun _ =>
    .get_bind fun _ _ => .pure _

end Execution

/-! ## Child processes -/

/-- The system refuses children and breaks waits off with system errors only. -/
structure ProcessTable.Systemic (t : ProcessTable) : Prop where
  failing : ∀ x ∈ t.failing, x.2.isSystem = true
  events : ∀ r, .fails r ∈ t.events → r.isSystem = true

namespace Forked

/-- The table of processes is systemic. -/
def Systemic (b : Forked) : Prop := b.table.Systemic

theorem updateTable_preserves {f : ProcessTable → ProcessTable}
    (hf : ∀ t : ProcessTable, t.Systemic → (f t).Systemic) :
    (updateTable f).Preserves Failure.Caught (Host.In Systemic) :=
  .modify fun _ hh => hf _ hh

theorem noChildren_caught : ProcessTable.noChildren.Caught :=
  .of_name "ChildProcessError" (by decide) rfl

theorem collect_preserves : collect.Preserves Failure.Caught (Host.In Systemic) := by
  refine .get_bind fun h _ => ?_
  dsimp only
  split
  · exact .raise noChildren_caught
  · exact .bind (updateTable_preserves fun _ ht => ⟨ht.failing, ht.events⟩) fun _ => .pure _

theorem collectAny_preserves : collectAny.Preserves Failure.Caught (Host.In Systemic) := by
  refine .get_bind fun h hh => .bind (updateTable_preserves fun _ ht =>
    ⟨ht.failing, fun r hr => hh.events r (List.mem_of_mem_tail hr)⟩) fun _ => ?_
  dsimp only
  split
  · exact collect_preserves
  · next r hr =>
    refine .raise (.of_isSystem (hh.events r ?_))
    cases hevents : h.backend.table.events with
    | nil =>
      rw [hevents] at hr
      cases hr
    | cons e events =>
      rw [hevents] at hr
      cases hr
      exact List.mem_cons_self
  · exact .pure _
  · exact .bind (Host.deliver_preserves _) fun _ => collect_preserves
  · exact .bind (.modify fun _ hh => hh) fun _ => collect_preserves
  · exact .bind (updateTable_preserves fun _ ht => ⟨ht.failing, ht.events⟩) fun _ => collect_preserves

theorem collectOne_preserves (pid : Int) :
    (collectOne pid).Preserves Failure.Caught (Host.In Systemic) := by
  have taken (h : Host Forked) (done : Int × Int × Usage) :
      (do
        updateTable ({ · with live := h.backend.table.live.eraseP (·.1 == pid) })
        return done).Preserves Failure.Caught (Host.In Systemic) :=
    .bind (updateTable_preserves fun _ ht => ⟨ht.failing, ht.events⟩) fun _ => .pure _
  refine .get_bind fun h _ => ?_
  dsimp only
  split
  · exact .raise noChildren_caught
  · exact .ite (fun _ => .bind (.raise noChildren_caught) fun _ => taken h _) fun _ => taken h _

theorem completion_preserves (done : Int × Int × Usage) :
    (completion done).Preserves Failure.Caught (Host.In Systemic) :=
  .ofExcept fun _ hr => Completion.decode_caught hr

theorem drainFrom_preserves (fuel : Nat) (n : Int) :
    (drainFrom fuel n).Preserves Failure.Caught (Host.In Systemic) := by
  induction fuel generalizing n with
  | zero => exact .pure _
  | succ fuel ih =>
    exact .attempt_bind collectAny_preserves (fun _ => ih _) fun e he =>
      .ite (fun _ => ih n) fun _ => .ite (fun _ => .pure _) fun _ => .throw he

/-- Over a systemic table, a launcher of child processes fails in foreseen ways only. -/
theorem caught : launcher.Caught Systemic where
  start l c := by
    refine .get_bind fun h hh =>
      .bind (updateTable_preserves fun _ ht => ⟨ht.failing, ht.events⟩) fun _ => ?_
    split
    · next r hr => exact .raise (.of_isSystem (hh.failing _ (List.mem_of_lookup hr)))
    · exact .bind (updateTable_preserves fun _ ht => ⟨ht.failing, ht.events⟩) fun _ => .pure _
  wait pid := .ite (fun _ => .bind collectAny_preserves completion_preserves) fun _ =>
    .bind (collectOne_preserves pid) completion_preserves
  waitAny := by
    have hcollect : blockingCollect.Preserves Failure.Caught (Host.In Systemic) :=
      .get_bind fun _ _ => .ite (fun _ => .bind (Host.blocking_preserves collectAny_preserves)
        fun _ => .pure _) fun _ => collectAny_preserves
    exact .attempt_bind hcollect (fun done => .bind (completion_preserves done) fun _ => .pure _)
      fun e he => .ite (fun _ => .pure _) fun _ => .throw he
  kill _ := .pure _
  drain := .get_bind fun _ _ => drainFrom_preserves _ 0

end Forked
end RankRunner
