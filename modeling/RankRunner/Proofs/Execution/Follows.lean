import RankRunner.Execution
import RankRunner.Proofs.Ensures

/-! # Runs with corresponding launchers

When each operation of a launcher does on the images of the backends what an operation of another
one does on the backends, whole runs with the two launchers correspond as well
(`Launcher.FollowedBy.runSuite`). The operations have to correspond only from the backends that
satisfy an invariant, which runs keep. -/

namespace RankRunner

namespace Effect

variable {S T S' T' α β : Type} {inv : S → Prop} {f : S → T} {x : Effect S α} {y : Effect T α}

/-- From the states that satisfy `inv`, the effect `y` does with the images of the states what `x`
does with the states, and `x` keeps `inv`. -/
def Follows (inv : S → Prop) (f : S → T) (x : Effect S α) (y : Effect T α) : Prop :=
  ∀ s, inv s → Ensures x (fun a s' => y.run (f s) = .ok a (f s') ∧ inv s')
    (fun e s' => y.run (f s) = .error e (f s') ∧ inv s') s

theorem follows_pure (a : α) : Follows inv f (pure a) (pure a) := fun _ hs => ⟨rfl, hs⟩

theorem follows_throw (e : Failure) : Follows inv f (throw e : Effect S α) (throw e) :=
  fun _ hs => ⟨rfl, hs⟩

theorem follows_ofExcept (a : Except Raised α) :
    Follows inv f (ofExcept a : Effect S α) (ofExcept a) := by
  cases a with
  | ok a => exact follows_pure a
  | error r => exact follows_throw _

theorem Follows.bind (h : Follows inv f x y) {k : α → Effect S β} {k' : α → Effect T β}
    (hk : ∀ a, Follows inv f (k a) (k' a)) : Follows inv f (x >>= k) (y >>= k') := by
  intro s hs
  rw [ensures_bind, EStateM.run_bind]
  refine (h s hs).mono (fun a s' ha => ?_) fun e s' he => ?_
  · rw [ha.1]
    exact hk a s' ha.2
  · rw [he.1]
    exact ⟨rfl, he.2⟩

theorem follows_ite {c : Prop} [Decidable c] {x' : Effect S α} {y' : Effect T α}
    (h : Follows inv f x y) (h' : Follows inv f x' y') :
    Follows inv f (if c then x else x') (if c then y else y') := by
  split
  · exact h
  · exact h'

theorem follows_get {k : S → Effect S α} {k' : T → Effect T α}
    (h : ∀ s, inv s → Follows inv f (k s) (k' (f s))) :
    Follows inv f (get >>= k) (get >>= k') :=
  fun s hs => h s hs s hs

theorem Follows.attempt (h : Follows inv f x y) : Follows inv f x.attempt y.attempt := by
  intro s hs
  rw [ensures_attempt]
  refine (h s hs).mono (fun a s' ha => ⟨?_, ha.2⟩) fun e s' he => ⟨?_, he.2⟩
  · have := ha.1
    simp only [EStateM.run, Effect.attempt] at this ⊢
    rw [this]
  · have := he.1
    simp only [EStateM.run, Effect.attempt] at this ⊢
    rw [this]

theorem Follows.ensuring (h : Follows inv f x y) {last : Effect S Unit} {last' : Effect T Unit}
    (hlast : Follows inv f last last') :
    Follows inv f (x.ensuring last) (y.ensuring last') := by
  intro s hs
  have hx := h s hs
  simp only [Ensures, EStateM.run, Effect.ensuring] at hx ⊢
  cases hxs : x s with
  | ok a s' =>
    rw [hxs] at hx
    rw [hx.1]
    exact (hlast.bind fun _ => follows_pure a) s' hx.2
  | error e s' =>
    rw [hxs] at hx
    rw [hx.1]
    exact (hlast.bind fun _ => follows_throw e) s' hx.2

/-- Effects on parts of the states correspond, if the parts do. -/
theorem Follows.zoom {inv' : S' → Prop} {f' : S' → T'} (h : Follows inv f x y) {view : S' → S}
    {put : S → S' → S'} {view' : T' → T} {put' : T → T' → T'}
    (hview : ∀ s, view' (f' s) = f (view s)) (hput : ∀ t s, put' (f t) (f' s) = f' (put t s))
    (hinv : ∀ s, inv' s → inv (view s)) (hinv' : ∀ t s, inv t → inv' (put t s)) :
    Follows inv' f' (x.zoom view put) (y.zoom view' put') := by
  intro s hs
  rw [ensures_zoom]
  refine (h (view s) (hinv s hs)).mono (fun a t ht => ⟨?_, hinv' t s ht.2⟩)
    fun e t ht => ⟨?_, hinv' t s ht.2⟩
  · have := ht.1
    simp only [EStateM.run, Effect.zoom] at this ⊢
    rw [hview, this, ← hput]
  · have := ht.1
    simp only [EStateM.run, Effect.zoom] at this ⊢
    rw [hview, this, ← hput]

end Effect

open Effect

variable {α β σ τ : Type} {inv : Interruption → σ → Prop} {g : σ → τ}

/-- The surroundings with the image of the backend. -/
def Host.onto (g : σ → τ) (h : Host σ) : Host τ := { h with backend := g h.backend }

def Host.Holds (inv : Interruption → σ → Prop) (h : Host σ) : Prop := inv h.interruption h.backend

def Scope.onto (g : σ → τ) (s : Scope α σ) : Scope α τ := ⟨s.list, s.host.onto g⟩

def Scope.Holds (inv : Interruption → σ → Prop) (s : Scope α σ) : Prop := s.host.Holds inv

@[simp] theorem Scope.onto_list (s : Scope α σ) : (s.onto g).list = s.list := rfl

def Session.onto (g : σ → τ) (s : Session σ) : Session τ := ⟨s.run, s.host.onto g⟩

def Session.Holds (inv : Interruption → σ → Prop) (s : Session σ) : Prop := s.host.Holds inv

/-- To ask the run to stop does not break the invariant. -/
structure Host.Lasting (inv : Interruption → σ → Prop) : Prop where
  request : ∀ i b, inv i b → inv i.request b
  signal : ∀ n i b, inv i b → inv (i.signal n) b

/-- The operations of the launcher correspond to those of another one. -/
structure Launcher.FollowedBy (launcher : Launcher σ) (inv : Interruption → σ → Prop) (g : σ → τ)
    (launcher' : Launcher τ) : Prop extends Host.Lasting inv where
  start : ∀ l c, Follows (Host.Holds inv) (Host.onto g) (launcher.start l c) (launcher'.start l c)
  wait : ∀ pid, Follows (Host.Holds inv) (Host.onto g) (launcher.wait pid) (launcher'.wait pid)
  waitAny : Follows (Host.Holds inv) (Host.onto g) launcher.waitAny launcher'.waitAny
  kill : ∀ pid, Follows (Host.Holds inv) (Host.onto g) (launcher.kill pid) (launcher'.kill pid)
  drain : Follows (Host.Holds inv) (Host.onto g) launcher.drain launcher'.drain
  patience : ∀ h, launcher'.patience (h.onto g) = launcher.patience h

namespace Host

theorem follows_now : Follows (Holds inv) (onto g) now now := fun _ hs => ⟨rfl, hs⟩

theorem follows_say (text : Shown) : Follows (Holds inv) (onto g) (say text) (say text) :=
  fun _ hs => ⟨rfl, hs⟩

theorem follows_debugging (message : String) :
    Follows (Holds inv) (onto g) (debugging message) (debugging message) :=
  fun _ hs => ⟨rfl, hs⟩

theorem follows_record (c : Call) : Follows (Holds inv) (onto g) (record c) (record c) :=
  fun _ hs => ⟨rfl, hs⟩

theorem follows_advance (f : Clock → Clock) : Follows (Holds inv) (onto g)
    (modify fun h => { h with clock := f h.clock })
    (modify fun h => { h with clock := f h.clock }) :=
  fun _ hs => ⟨rfl, hs⟩

namespace Lasting

variable (lasting : Lasting inv)
include lasting

theorem follows_request : Follows (Holds inv) (onto g) Host.request Host.request :=
  fun _ hs => ⟨rfl, lasting.request _ _ hs⟩

theorem follows_handle (n : Int) : Follows (Holds inv) (onto g) (handle n) (handle n) := by
  refine Follows.bind ?_ fun _ => follows_get fun h _ => ?_
  · exact fun _ hs => ⟨rfl, lasting.signal n _ _ hs⟩
  · exact follows_ite (follows_throw _) (follows_pure ())

theorem follows_deliver (n : Int) : Follows (Holds inv) (onto g) (deliver n) (deliver n) := by
  refine follows_get fun h _ => follows_ite ?_ (lasting.follows_handle n)
  exact follows_ite (lasting.follows_handle n)
    (follows_ite (follows_throw _) (follows_pure ()))

theorem follows_deliver? {x : Effect (Host σ) Value} {y : Effect (Host τ) Value}
    (h : Follows (Holds inv) (onto g) x y) (n? : Option Int) :
    Follows (Holds inv) (onto g)
      (match n? with | some n => deliver n >>= fun _ => x | none => x)
      (match n? with | some n => deliver n >>= fun _ => y | none => y) := by
  cases n? with
  | none => exact h
  | some n => exact (lasting.follows_deliver n).bind fun _ => h

end Lasting

end Host

theorem Ending.follows_answer (e : Ending) :
    Follows (Host.Holds inv) (Host.onto g)
      (match e with
        | .returns v => pure v
        | .raises f => throw f : Effect (Host σ) Value)
      (match e with
        | .returns v => pure v
        | .raises f => throw f) := by
  cases e with
  | returns v => exact follows_pure v
  | raises f => exact follows_throw f

theorem Action.follows_perform (lasting : Host.Lasting inv) (a : Action) (id : String) :
    Follows (Host.Holds inv) (Host.onto g) (a.perform id) (a.perform id) := by
  refine follows_get fun h _ => ?_
  have hn : (h.onto g).timesCalled a.key = h.timesCalled a.key := rfl
  rw [hn]
  generalize a.deed (h.timesCalled a.key) = d
  refine (Host.follows_record _).bind fun _ =>
    (Host.follows_advance (·.advance d.advance)).bind fun _ => ?_
  have hsignal := lasting.follows_deliver? (g := g) d.ending.follows_answer d.signal
  have hrequest := follows_ite (c := d.request = true)
    (lasting.follows_request.bind fun _ => hsignal) hsignal
  cases d.print with
  | none => exact hrequest
  | some text => exact (Host.follows_say _).bind fun _ => hrequest

namespace Case

variable (c : Case)

theorem follows_codeOf (v : Value) :
    Follows (Host.Holds inv) (Host.onto g) (c.codeOf v) (c.codeOf v) := by
  cases v with
  | null => exact follows_pure _
  | bool | int | float | text | list | dict =>
    exact (follows_ofExcept _).bind fun n => follows_ite (follows_pure n) fun _ hs => ⟨rfl, hs⟩

theorem follows_call (lasting : Host.Lasting inv) :
    Follows (Host.Holds inv) (Host.onto g) c.call c.call := by
  unfold call
  cases c.action with
  | none => exact follows_pure _
  | some a =>
    refine (a.follows_perform lasting c.id).attempt.bind fun answer => ?_
    cases answer with
    | ok v => exact c.follows_codeOf v
    | error f => exact follows_ite (follows_pure _) (follows_throw f)

theorem follows_statusOf (code : Int) :
    Follows (Host.Holds inv) (Host.onto g) (c.statusOf code) (c.statusOf code) :=
  follows_ite (fun _ hs => ⟨rfl, hs⟩) fun _ hs => ⟨rfl, hs⟩

end Case

namespace Scope

theorem follows_onHost {x : Effect (Host σ) β} {y : Effect (Host τ) β}
    (h : Follows (Host.Holds inv) (Host.onto g) x y) :
    Follows (Holds (α := α) inv) (onto g) (onHost x) (onHost y) :=
  h.zoom (fun _ => rfl) (fun _ _ => rfl) (fun _ hs => hs) fun _ _ ht => ht

theorem follows_at? (pos : Nat) :
    Follows (Holds (α := α) inv) (onto g) (at? pos) (at? pos) := fun _ hs => ⟨rfl, hs⟩

theorem follows_modifyAt (pos : Nat) (f : α → α) :
    Follows (Holds inv) (onto g) (modifyAt pos f) (modifyAt pos f) := fun _ hs => ⟨rfl, hs⟩

theorem follows_addOutstanding (n : Int) :
    Follows (Holds (α := α) inv) (onto g) (addOutstanding n) (addOutstanding n) :=
  fun _ hs => ⟨rfl, hs⟩

theorem follows_requested :
    Follows (Holds (α := α) inv) (onto g) requested requested := fun _ hs => ⟨rfl, hs⟩

theorem follows_stampStart [WorkItem α] (pos : Nat) :
    Follows (Holds (α := α) inv) (onto g) (stampStart pos) (stampStart pos) :=
  fun _ hs => ⟨rfl, hs⟩

theorem follows_stampStop [WorkItem α] (pos : Nat) :
    Follows (Holds (α := α) inv) (onto g) (stampStop pos) (stampStop pos) :=
  fun _ hs => ⟨rfl, hs⟩

theorem follows_showCase (pos : Nat) :
    Follows (Holds inv) (onto g) (showCase pos) (showCase pos) := by
  refine (follows_at? pos).bind fun c? => ?_
  cases c? with
  | none => exact follows_pure ()
  | some c => exact fun _ hs => ⟨rfl, hs⟩

end Scope

namespace Schedule

section Simple

variable [WorkItem α]

theorem follows_skip (pos : Nat) (reason : String) :
    Follows (Scope.Holds (α := α) inv) (Scope.onto g) (skip pos reason) (skip pos reason) := by
  refine (Scope.follows_at? pos).bind fun a? => ?_
  cases a? with
  | none => exact follows_pure ()
  | some a => exact fun _ hs => ⟨rfl, hs⟩

theorem follows_isDue (rank : Int) (pos : Nat) :
    Follows (Scope.Holds (α := α) inv) (Scope.onto g) (isDue rank pos) (isDue rank pos) := by
  refine follows_get fun s _ => ?_
  simp only [Scope.onto_list]
  cases s.list.items[pos]? with
  | none => exact follows_pure false
  | some a =>
    refine follows_ite (follows_pure false) (follows_ite (follows_pure true) ?_)
    exact (follows_skip pos _).bind fun _ => follows_pure false

variable {dispatch : Nat → Effect (Scope α σ) Unit} {dispatch' : Nat → Effect (Scope α τ) Unit}
  (h : ∀ pos, Follows (Scope.Holds inv) (Scope.onto g) (dispatch pos) (dispatch' pos))
include h

theorem follows_scheduleRank (rank : Int) (positions : List Nat) :
    Follows (Scope.Holds inv) (Scope.onto g) (scheduleRank dispatch rank positions)
      (scheduleRank dispatch' rank positions) := by
  induction positions with
  | nil => exact follows_pure ()
  | cons pos rest ih =>
    refine (follows_isDue rank pos).bind fun due => ?_
    cases due with
    | false => exact ih
    | true => exact (h pos).bind fun _ => ih

theorem follows_scheduleRanks (ranks : List Int) :
    Follows (Scope.Holds inv) (Scope.onto g) (scheduleRanks dispatch ranks)
      (scheduleRanks dispatch' ranks) := by
  induction ranks with
  | nil => exact follows_pure ()
  | cons rank ranks ih =>
    refine Scope.follows_requested.bind fun asked => follows_ite (follows_pure ()) ?_
    exact follows_get fun s _ => (follows_scheduleRank h rank _).bind fun _ => ih

theorem follows_schedule :
    Follows (Scope.Holds inv) (Scope.onto g) (schedule dispatch) (schedule dispatch') :=
  follows_get fun _ _ => follows_scheduleRanks h _

end Simple

theorem follows_completedStatus (c : Case) (d : Completion) :
    Follows (Host.Holds inv) (Host.onto g) (completedStatus c d) (completedStatus c d) := by
  unfold completedStatus
  cases d.signal with
  | some n => exact fun _ hs => ⟨rfl, hs⟩
  | none => exact c.follows_statusOf _

theorem follows_complete (pos : Nat) (c : Case) (d : Completion) :
    Follows (Scope.Holds inv) (Scope.onto g) (complete pos c d) (complete pos c d) :=
  (Scope.follows_addOutstanding _).bind fun _ => (Scope.follows_modifyAt pos _).bind fun _ =>
    (Scope.follows_stampStop pos).bind fun _ =>
      (Scope.follows_onHost (follows_completedStatus c d)).bind fun _ =>
        (Scope.follows_modifyAt pos _).bind fun _ => Scope.follows_showCase pos

theorem follows_note (d : Completion) :
    Follows (Scope.Holds inv) (Scope.onto g) (note d) (note d) := by
  refine follows_get fun s _ => ?_
  simp only [Scope.onto_list]
  cases s.list.positionOfPid? d.pid with
  | none => exact fun _ hs => ⟨rfl, hs⟩
  | some pos =>
    cases s.list.byPid? d.pid with
    | none => exact fun _ hs => ⟨rfl, hs⟩
    | some c =>
      exact follows_ite (fun _ hs => ⟨rfl, hs⟩)
        ((follows_complete pos c d).bind fun _ => follows_pure true)

theorem follows_runInline (lasting : Host.Lasting inv) (pos : Nat) :
    Follows (Scope.Holds inv) (Scope.onto g) (runInline pos) (runInline pos) := by
  refine (Scope.follows_at? pos).bind fun c? => ?_
  cases c? with
  | none => exact follows_pure ()
  | some c =>
    refine (Scope.follows_stampStart pos).bind fun _ => ?_
    refine (Scope.follows_onHost ((c.follows_call lasting).attempt.bind fun answer => ?_)).bind
      fun status => (Scope.follows_modifyAt pos _).bind fun _ =>
        (Scope.follows_stampStop pos).bind fun _ => Scope.follows_showCase pos
    cases answer with
    | ok code => exact c.follows_statusOf code
    | error f => exact follows_ite (fun _ hs => ⟨rfl, hs⟩) fun _ hs => ⟨rfl, hs⟩

end Schedule

namespace Launcher.FollowedBy

open Schedule Execution

variable {launcher : Launcher σ} {launcher' : Launcher τ}
  (followed : launcher.FollowedBy inv g launcher')
include followed

theorem launch (pos : Nat) : Follows (Scope.Holds inv) (Scope.onto g)
    (Schedule.launch launcher pos) (Schedule.launch launcher' pos) := by
  refine (Scope.follows_at? pos).bind fun c? => ?_
  cases c? with
  | none => exact follows_pure false
  | some c =>
    refine (Scope.follows_stampStart pos).bind fun _ => follows_get fun s _ => ?_
    refine (Scope.follows_onHost (followed.start _ c)).attempt.bind fun answer => ?_
    rcases answer with (f | r) | pid
    · exact follows_throw _
    · exact follows_ite (fun _ hs => ⟨rfl, hs⟩) (follows_throw _)
    · exact fun _ hs => ⟨rfl, hs⟩

theorem awaitAny : Follows (Scope.Holds inv) (Scope.onto g)
    (Schedule.awaitAny launcher) (Schedule.awaitAny launcher') := by
  refine (Scope.follows_onHost followed.waitAny).attempt.bind fun answer => ?_
  rcases answer with (f | r) | _ | c
  · exact follows_throw _
  · exact follows_ite (follows_pure _)
      (follows_ite (follows_get fun _ _ => follows_throw _) (follows_throw _))
  · exact follows_pure _
  · exact follows_pure _

theorem reapFrom (fuel reaped : Nat) : Follows (Scope.Holds inv) (Scope.onto g)
    (Schedule.reapFrom launcher fuel reaped) (Schedule.reapFrom launcher' fuel reaped) := by
  induction fuel generalizing reaped with
  | zero => exact follows_pure reaped
  | succ fuel ih =>
    refine follows_get fun s _ => Scope.follows_requested.bind fun asked => ?_
    refine follows_ite (follows_pure reaped) ?_
    refine followed.awaitAny.bind fun waited => ?_
    cases waited with
    | exhausted => exact follows_pure reaped
    | interrupted => exact ih reaped
    | done c => exact (follows_note c).bind fun noted => follows_ite (ih (reaped + 1)) (ih reaped)

theorem reap : Follows (Scope.Holds inv) (Scope.onto g)
    (Schedule.reap launcher) (Schedule.reap launcher') := by
  refine follows_get fun s _ => ?_
  have hpatience : launcher'.patience (s.onto g).host = launcher.patience s.host :=
    followed.patience s.host
  rw [hpatience]
  refine (followed.reapFrom _ 0).bind fun reaped => ?_
  exact follows_get fun s _ => follows_ite (fun _ hs => ⟨rfl, hs⟩) (follows_pure reaped)

theorem barrier : Follows (Scope.Holds inv) (Scope.onto g)
    (Schedule.barrier launcher) (Schedule.barrier launcher') := by
  refine Follows.bind ?_ fun _ => followed.reap.attempt.bind fun answer => ?_
  · exact fun _ hs => ⟨rfl, hs⟩
  rcases answer with (f | r) | reaped
  · refine follows_ite (Scope.follows_requested.bind fun asked => ?_) (follows_throw _)
    refine follows_ite (fun _ hs => ⟨rfl, hs⟩) ?_
    cases f <;> exact follows_throw _
  · exact follows_throw _
  · exact follows_pure true

theorem chunkRank (limit : Nat) (rank : Int) (live : Nat) (positions : List Nat) :
    Follows (Scope.Holds inv) (Scope.onto g)
      (Schedule.chunkRank launcher limit rank live positions)
      (Schedule.chunkRank launcher' limit rank live positions) := by
  induction positions generalizing live with
  | nil => exact follows_pure _
  | cons pos rest ih =>
    refine (follows_isDue rank pos).bind fun due => ?_
    refine follows_ite ((followed.launch pos).bind fun started => ?_) (ih live)
    refine follows_ite (followed.barrier.bind fun go => ?_) (ih _)
    exact follows_ite (ih 0) (follows_pure none)

theorem chunkRanks (limit : Nat) (ranks : List Int) : Follows (Scope.Holds inv) (Scope.onto g)
    (Schedule.chunkRanks launcher limit ranks) (Schedule.chunkRanks launcher' limit ranks) := by
  induction ranks with
  | nil => exact follows_pure ()
  | cons rank ranks ih =>
    refine Scope.follows_requested.bind fun asked => follows_ite (follows_pure ()) ?_
    refine follows_get fun s _ => (followed.chunkRank limit rank 0 _).bind fun live? => ?_
    rcases live? with _ | _ | live
    · exact follows_pure ()
    · exact ih
    · exact followed.barrier.bind fun go => follows_ite ih (follows_pure ())

theorem scheduleChunks (limit : Nat) : Follows (Scope.Holds inv) (Scope.onto g)
    (Schedule.scheduleChunks launcher limit) (Schedule.scheduleChunks launcher' limit) :=
  follows_get fun _ _ => followed.chunkRanks limit _

theorem killAll (positions : List Nat) : Follows (Scope.Holds inv) (Scope.onto g)
    (Schedule.killAll launcher positions) (Schedule.killAll launcher' positions) := by
  induction positions with
  | nil => exact follows_pure ()
  | cons pos rest ih =>
    refine (Scope.follows_at? pos).bind fun c? => ?_
    rcases c? with _ | ⟨i, action, _ | pid, usage⟩
    · exact ih
    · exact ih
    · exact (Scope.follows_onHost ((Host.follows_debugging _).bind fun _ =>
        followed.kill pid)).bind fun _ => ih

theorem awaitKilled (pid : Int) : Follows (Host.Holds inv) (Host.onto g)
    (Schedule.awaitKilled launcher pid) (Schedule.awaitKilled launcher' pid) := by
  refine (followed.wait pid).attempt.bind fun answer => ?_
  rcases answer with (f | r) | c
  · exact follows_throw _
  · exact follows_ite (follows_pure none) (follows_throw _)
  · exact follows_pure _

theorem abort (pos : Nat) : Follows (Scope.Holds inv) (Scope.onto g)
    (Schedule.abort launcher pos) (Schedule.abort launcher' pos) := by
  refine (Scope.follows_at? pos).bind fun c? => ?_
  rcases c? with _ | ⟨i, action, _ | pid, usage⟩
  · exact follows_pure ()
  · exact follows_pure ()
  · refine (Scope.follows_onHost (followed.awaitKilled pid)).bind fun done => ?_
    refine (Scope.follows_modifyAt pos _).bind fun _ =>
      (Scope.follows_stampStop pos).bind fun _ => (Scope.follows_modifyAt pos _).bind fun _ => ?_
    cases done with
    | none => exact fun _ hs => ⟨rfl, hs⟩
    | some c => exact fun _ hs => ⟨rfl, hs⟩

theorem abortAll (positions : List Nat) : Follows (Scope.Holds inv) (Scope.onto g)
    (Schedule.abortAll launcher positions) (Schedule.abortAll launcher' positions) := by
  induction positions with
  | nil => exact follows_pure ()
  | cons pos rest ih => exact (followed.abort pos).bind fun _ => ih

theorem bailOut (reason : String) : Follows (Scope.Holds inv) (Scope.onto g)
    (Schedule.bailOut launcher reason) (Schedule.bailOut launcher' reason) :=
  follows_get fun _ _ => (followed.killAll _).bind fun _ => (followed.abortAll _).bind fun _ =>
    (Scope.follows_onHost followed.drain).bind fun _ =>
      (Scope.follows_onHost (Host.follows_debugging _)).bind fun _ => follows_throw _

theorem runCases (regime : Regime) : Follows (Scope.Holds inv) (Scope.onto g)
    (Execution.runCases regime launcher) (Execution.runCases regime launcher') :=
  follows_ite (followed.scheduleChunks _)
    (follows_schedule (follows_runInline followed.toLasting))

end Launcher.FollowedBy

namespace Execution

theorem follows_onCases (pos : Nat) {x : Effect (Scope Case σ) α} {y : Effect (Scope Case τ) α}
    (h : Follows (Scope.Holds inv) (Scope.onto g) x y) :
    Follows (Scope.Holds inv) (Scope.onto g) (onCases pos x) (onCases pos y) :=
  h.zoom (fun _ => rfl) (fun _ _ => rfl) (fun _ hs => hs) fun _ _ ht => ht

theorem follows_onHost {x : Effect (Host σ) α} {y : Effect (Host τ) α}
    (h : Follows (Host.Holds inv) (Host.onto g) x y) :
    Follows (Session.Holds inv) (Session.onto g) (Session.onHost x) (Session.onHost y) :=
  h.zoom (fun _ => rfl) (fun _ _ => rfl) (fun _ hs => hs) fun _ _ ht => ht

theorem follows_onGroups {x : Effect (Scope Group σ) α} {y : Effect (Scope Group τ) α}
    (h : Follows (Scope.Holds inv) (Scope.onto g) x y) :
    Follows (Session.Holds inv) (Session.onto g) (Session.onGroups x) (Session.onGroups y) :=
  h.zoom (fun _ => rfl) (fun _ _ => rfl) (fun _ hs => hs) fun _ _ ht => ht

theorem follows_tell (pos : Nat) (text : Console → Group → Shown) :
    Follows (Scope.Holds inv) (Scope.onto g)
      (do match ← Scope.at? pos with
          | none => pure ()
          | some g => Scope.onHost do Host.say (text (← get).console g))
      (do match ← Scope.at? pos with
          | none => pure ()
          | some g => Scope.onHost do Host.say (text (← get).console g)) := by
  refine (Scope.follows_at? pos).bind fun g? => ?_
  cases g? with
  | none => exact follows_pure ()
  | some g => exact fun _ hs => ⟨rfl, hs⟩

theorem follows_sequence :
    Follows (Session.Holds inv) (Session.onto g) sequence sequence := by
  refine follows_get fun s hs => ?_
  have hrun : (s.onto g).run = s.run := rfl
  rw [hrun]
  obtain ⟨run, fault⟩ := s.run.sequence
  refine Follows.bind ?_ fun _ => ?_
  · exact fun _ _ => ⟨rfl, hs⟩
  · cases fault with
    | none => exact follows_pure ()
    | some f => exact follows_throw _

end Execution

namespace Launcher.FollowedBy

open Execution

variable {launcher : Launcher σ} {launcher' : Launcher τ}
  (followed : launcher.FollowedBy inv g launcher') (regime : Regime)
include followed

theorem runGroup (pos : Nat) : Follows (Scope.Holds inv) (Scope.onto g)
    (Execution.runGroup regime launcher pos) (Execution.runGroup regime launcher' pos) := by
  refine (follows_tell pos _).bind fun _ => (Scope.follows_stampStart pos).bind fun _ =>
    (follows_onCases pos (followed.runCases regime)).bind fun _ =>
      (Scope.follows_stampStop pos).bind fun _ => (Scope.follows_modifyAt pos _).bind fun _ =>
        (follows_tell pos _).bind fun _ => Scope.follows_requested.bind fun asked => ?_
  refine follows_ite (follows_get fun s _ => (follows_ofExcept _).bind fun reason => ?_)
    (follows_pure ())
  exact follows_onCases pos (followed.bailOut reason)

theorem dispatch : Follows (Session.Holds inv) (Session.onto g)
    (Execution.dispatch regime launcher) (Execution.dispatch regime launcher') := by
  refine (follows_onGroups (Schedule.follows_schedule (followed.runGroup regime))).bind fun _ =>
    follows_get fun s _ => ?_
  exact follows_ite ((follows_ofExcept _).bind fun reason => follows_throw _) (follows_pure ())

/-- Runs with corresponding launchers correspond. -/
theorem runSuite : Follows (Session.Holds inv) (Session.onto g)
    (Execution.runSuite regime launcher) (Execution.runSuite regime launcher') := by
  refine follows_sequence.bind fun _ => follows_get fun s _ => (follows_onHost ?_).bind fun _ =>
    (follows_onHost (follows_pure ())).bind fun _ => (follows_onHost Host.follows_now).bind fun t =>
      Follows.bind ?_ fun _ => ?_
  · exact fun _ hs => ⟨rfl, hs⟩
  · exact fun _ hs => ⟨rfl, hs⟩
  have hclose : Follows (Session.Holds inv) (Session.onto g) (close {}) (close {}) :=
    fun _ hs => ⟨rfl, hs⟩
  exact ((followed.dispatch regime).ensuring hclose).bind fun _ =>
    follows_get fun s _ => follows_pure _

end Launcher.FollowedBy
end RankRunner
