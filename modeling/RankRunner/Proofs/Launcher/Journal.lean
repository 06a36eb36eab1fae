import Mathlib.Data.Multiset.AddSub
import RankRunner.Launcher
import RankRunner.Proofs.Ensures

/-! # Launchers that keep a journal

`Launcher.journaled` does what a launcher does and writes down every operation: what was asked
for, how it was answered, and the surroundings it left. A journal tells which cases were started
with which processes (`Journal.starts`), which completions came in (`Journal.received`), and
whether the one child of a case ended (`Journal.Ended`), and well (`Journal.Green`). -/

namespace RankRunner

/-- What a launcher was asked for, and its answer. -/
inductive Act where
  | start (siblings : Siblings Case) (c : Case) (answer : Except Failure Int)
  | waitAny (answer : Except Failure (Option Completion))
  | wait (pid : Int) (answer : Except Failure Completion)
  | kill (pid : Int) (answer : Except Failure Unit)
  | drain (answer : Except Failure Int)

structure Journal.Entry (σ : Type) where
  act : Act
  /-- The surroundings after the operation. -/
  host : Host σ

abbrev Journal (σ : Type) := List (Journal.Entry σ)

structure Journaled (σ : Type) where
  backend : σ
  journal : Journal σ := []

namespace Act

/-- The case that was to be started, with its process if there is one. -/
def started? : Act → Option (String × Option Int)
  | start _ c answer => some (c.id, answer.toOption)
  | _ => none

/-- The completion that came in. -/
def received? : Act → Option Completion
  | waitAny (.ok c?) => c?
  | _ => none

/-- The children that are started and not yet reaped after an operation. A completion reaps a child
unless it tells that the child was only stopped. -/
def unreaped (act : Act) (children : Multiset Int) : Multiset Int :=
  match act with
  | start _ _ (.ok pid) => pid ::ₘ children
  | waitAny (.ok (some d)) =>
    if d.stopped then children else d.pid.elim children children.erase
  | _ => children

theorem unreaped_mono (act : Act) {s t : Multiset Int} (h : s ≤ t) :
    act.unreaped s ≤ act.unreaped t := by
  unfold unreaped
  split
  · exact Multiset.cons_le_cons _ h
  · next d =>
    split
    · exact h
    · cases d.pid with
      | none => exact h
      | some pid => exact Multiset.erase_le_erase _ h
  · exact h

/-- Children beside those that are told of stay, or are reaped by chance. -/
theorem unreaped_add_le (act : Act) (s t : Multiset Int) :
    act.unreaped (s + t) ≤ s + act.unreaped t := by
  unfold unreaped
  split
  · rw [Multiset.add_cons]
  · next d =>
    split
    · exact Std.le_refl _
    · cases d.pid with
      | none => exact Std.le_refl _
      | some pid =>
        by_cases hp : pid ∈ t
        · exact Std.le_of_eq (Multiset.erase_add_right_pos s hp)
        · simp only [Option.elim_some, Multiset.erase_of_notMem hp]
          exact Multiset.erase_le ..
  · exact Std.le_refl _

end Act

namespace Journal

variable {σ : Type} {J J' : Journal σ} {e : Entry σ} {id : String} {c : Completion}

/-- How each attempt to start a case with the given identity ended, in their order. -/
def starts (J : Journal σ) (id : String) : List (Option Int) :=
  J.filterMap fun e => e.act.started?.bind fun s => if s.1 = id then some s.2 else none

/-- The completions that came in, in their order. -/
def received (J : Journal σ) : List Completion := J.filterMap (·.act.received?)

/-- The children that are started and not yet reaped. -/
def unreaped (J : Journal σ) : Multiset Int := J.foldl (fun children e => e.act.unreaped children) 0

@[simp] theorem unreaped_nil : unreaped ([] : Journal σ) = 0 := rfl

@[simp] theorem unreaped_snoc : (J ++ [e]).unreaped = e.act.unreaped J.unreaped :=
  List.foldl_append

/-- When all children have been reaped it does not matter what was before. -/
theorem unreaped_append_of_eq_zero (h : J.unreaped = 0) : (J ++ J').unreaped = J'.unreaped := by
  rw [unreaped, List.foldl_append]
  exact congrArg (fun s => List.foldl _ s J') h

@[simp] theorem starts_append : (J ++ J').starts id = J.starts id ++ J'.starts id :=
  List.filterMap_append

@[simp] theorem received_append : (J ++ J').received = J.received ++ J'.received :=
  List.filterMap_append

theorem starts_of_started? (h : e.act.started? = none) : starts [e] id = [] := by
  simp [starts, h]

theorem starts_of_start {l : Siblings Case} {b : Case} {answer : Except Failure Int}
    (h : e.act = .start l b answer) :
    starts [e] id = if b.id = id then [answer.toOption] else [] := by
  simp only [starts, List.filterMap_cons, List.filterMap_nil, h, Act.started?, Option.bind_some]
  split <;> simp_all

/-- The case was started once, and afterwards a completion of its child came in, which had not
only been stopped. -/
def Ended (J : Journal σ) (id : String) (c : Completion) : Prop :=
  ∃ pid before after, J = before ++ after ∧ before.starts id = [some pid] ∧
    after.starts id = [] ∧ c ∈ after.received ∧ c.pid = some pid ∧ c.stopped = false

/-- The case was started once, and its child exited on its own with code zero. -/
def Green (J : Journal σ) (id : String) : Prop :=
  ∃ c, J.Ended id c ∧ c.signal = none ∧ c.exit = some 0

theorem Ended.starts (h : J.Ended id c) : ∃ pid, c.pid = some pid ∧ J.starts id = [some pid] := by
  obtain ⟨pid, before, after, rfl, hb, ha, _, hpid, _⟩ := h
  exact ⟨pid, hpid, by simp [hb, ha]⟩

theorem Ended.append (h : J.Ended id c) (h' : J'.starts id = []) : (J ++ J').Ended id c := by
  obtain ⟨pid, before, after, rfl, hb, ha, hc, hpid, hs⟩ := h
  refine ⟨pid, before, after ++ J', List.append_assoc .., hb, ?_, ?_, hpid, hs⟩
  · rw [starts_append, ha, h', List.append_nil]
  · rw [received_append]
    exact List.mem_append_left _ hc

theorem Ended.of_received {pid : Int} (h : J.starts id = [some pid]) (h' : J'.starts id = [])
    (hc : c ∈ J'.received) (hpid : c.pid = some pid) (hs : c.stopped = false) :
    (J ++ J').Ended id c :=
  ⟨pid, J, J', rfl, h, h', hc, hpid, hs⟩

theorem Green.append (h : J.Green id) (h' : J'.starts id = []) : (J ++ J').Green id :=
  let ⟨c, hc, hg⟩ := h
  ⟨c, hc.append h', hg⟩

/-- Each entry is in order, given what had been written down before it. -/
def Each (P : Journal σ → Entry σ → Prop) (J : Journal σ) : Prop :=
  ∀ before e after, J = before ++ e :: after → P before e

theorem each_nil {P : Journal σ → Entry σ → Prop} : Each P [] := fun before e after h => by
  cases before <;> cases h

theorem Each.snoc {P : Journal σ → Entry σ → Prop} (h : J.Each P) (he : P J e) :
    Each P (J ++ [e]) := by
  intro before e' after hJ
  rcases List.append_eq_append_iff.1 hJ with ⟨mid, rfl, hm⟩ | ⟨mid, rfl, hm⟩
  · cases mid with
    | nil => cases hm; simpa using he
    | cons x mid => cases mid <;> cases hm
  · cases mid with
    | nil => cases hm; simpa using he
    | cons x mid => cases hm; exact h before e' mid rfl

end Journal

namespace Host

variable {σ : Type}

/-- The surroundings without the journal. -/
def plain (h : Host (Journaled σ)) : Host σ := { h with backend := h.backend.backend }

def withJournal (J : Journal σ) (h : Host σ) : Host (Journaled σ) :=
  { h with backend := ⟨h.backend, J⟩ }

@[simp] theorem withJournal_journal (J : Journal σ) (h : Host σ) :
    (h.withJournal J).backend.journal = J := rfl

end Host

namespace Launcher

open Effect

variable {σ α : Type}

/-- An operation on the plain surroundings that is written down. -/
def recorded (act : Except Failure α → Act) (x : Effect (Host σ) α) :
    Effect (Host (Journaled σ)) α := fun h =>
  match x.run h.plain with
  | .ok a t => .ok a (t.withJournal (h.backend.journal ++ [⟨act (.ok a), t⟩]))
  | .error f t => .error f (t.withJournal (h.backend.journal ++ [⟨act (.error f), t⟩]))

def journaled (launcher : Launcher σ) : Launcher (Journaled σ) where
  start l c := recorded (.start l c) (launcher.start l c)
  wait pid := recorded (.wait pid) (launcher.wait pid)
  waitAny := recorded .waitAny launcher.waitAny
  kill pid := recorded (.kill pid) (launcher.kill pid)
  drain := recorded .drain launcher.drain
  patience h := launcher.patience h.plain

@[simp] theorem ensures_recorded {act : Except Failure α → Act} {x : Effect (Host σ) α}
    {Q : α → Host (Journaled σ) → Prop} {E : Failure → Host (Journaled σ) → Prop}
    {h : Host (Journaled σ)} :
    Ensures (recorded act x) Q E h ↔
      Ensures x (fun a t => Q a (t.withJournal (h.backend.journal ++ [⟨act (.ok a), t⟩])))
        (fun f t => E f (t.withJournal (h.backend.journal ++ [⟨act (.error f), t⟩]))) h.plain := by
  simp only [Ensures, recorded, EStateM.run]
  cases x h.plain <;> rfl

end Launcher
end RankRunner
