import RankRunner.Proofs.Execution.Follows
import RankRunner.Proofs.Launcher.Journal

/-! # To keep a journal changes nothing else

A run with a launcher that keeps a journal does what it does without the journal
(`runSuite_plain`), since each operation of the launcher does. -/

namespace RankRunner

namespace Effect

variable {S T α : Type} {f : S → T} {x : Effect S α} {y : Effect T α}

/-- The effect `y` does with the images of the states what `x` does with the states. -/
def Mirrors (f : S → T) (x : Effect S α) (y : Effect T α) : Prop :=
  ∀ s, y.run (f s) = match x.run s with
    | .ok a s' => .ok a (f s')
    | .error e s' => .error e (f s')

theorem Follows.mirrors (h : Follows (fun _ => True) f x y) : Mirrors f x y := by
  intro s
  have hs := h s trivial
  unfold Ensures at hs
  cases hx : x.run s with
  | ok a s' =>
    rw [hx] at hs
    exact hs.1
  | error e s' =>
    rw [hx] at hs
    exact hs.1

/-- What ends well on the images of the states ends well on the states. -/
theorem Mirrors.exists_ok (h : Mirrors f x y) {s : S} {a : α} {t : T}
    (hy : y.run (f s) = .ok a t) : ∃ s', x.run s = .ok a s' ∧ f s' = t := by
  rw [h s] at hy
  cases hx : x.run s with
  | ok b s' =>
    rw [hx] at hy
    cases hy
    exact ⟨s', rfl, rfl⟩
  | error e s' =>
    rw [hx] at hy
    cases hy

theorem Mirrors.ending (h : Mirrors f x y) (s : S) : y.ending (f s) = f (x.ending s) := by
  have := h s
  simp only [EStateM.run, Effect.ending] at this ⊢
  rw [this]
  cases x s <;> rfl

theorem Mirrors.fault?_eq (h : Mirrors f x y) (s : S) : y.fault? (f s) = x.fault? s := by
  unfold fault?
  rw [h s]
  rcases x.run s with _ | ⟨_ | _, _⟩ <;> rfl

end Effect

open Effect

variable {α σ : Type}

/-- The scope without the journal. -/
def Scope.plain (s : Scope α (Journaled σ)) : Scope α σ := ⟨s.list, s.host.plain⟩

def Session.plain (s : Session (Journaled σ)) : Session σ := ⟨s.run, s.host.plain⟩

namespace Launcher

theorem follows_recorded (act : Except Failure α → Act) (x : Effect (Host σ) α) :
    Follows (Host.Holds fun _ _ => True) (Host.onto (·.backend)) (recorded act x) x := by
  intro h _
  rw [ensures_recorded]
  unfold Ensures
  cases hx : x.run h.plain with
  | ok a t => exact ⟨hx, trivial⟩
  | error f t => exact ⟨hx, trivial⟩

/-- A launcher does what it does with a journal. -/
theorem journaled_followedBy (launcher : Launcher σ) :
    launcher.journaled.FollowedBy (fun _ _ => True) (·.backend) launcher where
  request _ _ _ := trivial
  signal _ _ _ _ := trivial
  start _ _ := follows_recorded _ _
  wait _ := follows_recorded _ _
  waitAny := follows_recorded _ _
  kill _ := follows_recorded _ _
  drain := follows_recorded _ _
  patience _ := rfl

end Launcher

theorem Schedule.mirrors_scheduleChunks (launcher : Launcher σ) (limit : Nat) :
    Mirrors Scope.plain (scheduleChunks launcher.journaled limit)
      (scheduleChunks launcher limit) :=
  (launcher.journaled_followedBy.scheduleChunks limit).mirrors

/-- A run with a launcher that keeps a journal does what it does without the journal. -/
theorem Execution.runSuite_plain (regime : Regime) (launcher : Launcher σ) :
    Mirrors Session.plain (runSuite regime launcher.journaled) (runSuite regime launcher) :=
  (launcher.journaled_followedBy.runSuite regime).mirrors

end RankRunner
