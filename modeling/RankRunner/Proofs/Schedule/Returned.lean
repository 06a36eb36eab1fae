import RankRunner.Proofs.Launcher.Forked
import RankRunner.Proofs.Schedule.Settled

/-! # What a simple schedule of cases leaves

Whatever the functions of the cases do, a simple schedule records a success only for a case whose
function it called, and which came to code zero (`Case.Returned`). To run cases in the runner itself
leaves the launcher alone, and fails only for something that was raised. -/

namespace RankRunner

open Effect Siblings

variable {σ : Type}

namespace Case

variable {c : Case} {h : Host σ}

/-- The function of the case was called when the case started, and when the case stopped it had
come to code zero. -/
def Returned (σ : Type) (c : Case) : Prop :=
  ∃ (clock : Clock) (h t : Host σ), c.start = some clock.reading ∧ h.clock = clock.tick ∧
    c.call.run h = .ok Status.success.code t ∧ c.stop = some t.clock.reading

/-- To call the function of a case leaves the launcher alone. -/
theorem ensures_call_backend : Ensures c.call
    (fun _ t => t.backend = h.backend) (fun _ t => t.backend = h.backend) h :=
  ensures_call rfl
    (fun _ _ => Action.ensures_perform (fun _ _ => rfl) (fun _ ht => ht)
      (fun _ _ _ ht => Host.ensures_deliver fun _ _ => ⟨ht, fun _ => ht⟩) fun _ _ _ ht => ht)
    (fun _ _ ht => ht) (fun _ _ _ _ ht => ht) fun _ _ ht => ht

end Case

namespace Schedule

variable {l₀ : Siblings Case} {s : Scope Case σ} {c₀ c : Case} {r : Int} {k : Nat}

/-- What has become of a case that a simple schedule has passed. -/
structure Tried (σ : Type) (c₀ c : Case) : Prop where
  id : c.id = c₀.id
  rank : c.rank = c₀.rank
  pid : c.pid = none
  returned : c.succeeded = true → c.Returned σ

theorem ensures_runInline_tried (hc : s.list.items[k]? = some c) (hpid : c.pid = none) :
    Ensures (runInline k) (fun _ t => t.host.backend = s.host.backend ∧
        ∃ f, t.list = s.list.modify k f ∧ Tried σ c (f c))
      (fun f _ => ∃ q, f = .raised q) s := by
  refine ensures_runInline_of_call hc ((Case.ensures_call_backend.and ensures_run).mono ?_ ?_)
  · rintro code t ⟨hbackend, hcall⟩ shown
    refine ⟨hbackend, _, rfl, rfl, rfl, hpid, fun hs => ?_⟩
    simp only [Case.called, Item.succeeded, Bool.and_eq_true, beq_iff_eq] at hs
    obtain ⟨rfl⟩ : code = Status.success.code := congrArg Status.code hs.1
    exact ⟨s.host.clock, _, t, rfl, rfl, hcall, rfl⟩
  · rintro f t ⟨hbackend, _⟩
    split
    · next hfatal =>
      cases f with
      | fault d => cases hfatal
      | raised q => exact ⟨q, rfl⟩
    · exact fun shown => ⟨hbackend, _, rfl, rfl, rfl, hpid, fun hs => by cases hs⟩

/-- How far a simple schedule has come. The launcher has been left alone. -/
structure Trying (l₀ : Siblings Case) (backend : σ) (r : Int) (k : Nat) (t : Scope Case σ) :
    Prop where
  backend : t.host.backend = backend
  outstanding : t.list.outstanding = 0
  upto : l₀.Upto t.list (Tried σ) (fun c₀ c => c = c₀) r k

/-- A place is gone by, skipped, or its function is called. -/
theorem Trying.dispatch {backend : σ} (hidle : ∀ c ∈ l₀.items, c.Idle) (hk : k < l₀.items.length)
    (h : Trying l₀ backend r k s) :
    Ensures (isDue r k) (fun due t => if due then
      Ensures (runInline k) (fun _ => Trying l₀ backend r (k + 1)) (fun f _ => ∃ q, f = .raised q) t
      else Trying l₀ backend r (k + 1) t) (fun f _ => ∃ q, f = .raised q) s := by
  have hc₀ := List.getElem?_eq_getElem hk
  have hpid := (hidle _ (List.getElem_mem hk)).pid
  generalize l₀.items[k] = c₀ at hc₀ hpid
  -- what is of the rank at hand has not been passed
  have hpass {f : Case → Case} (hrank : c₀.rank = r) (hf : Tried σ c₀ (f c₀)) :
      l₀.Upto (s.list.modify k f) (Tried σ) (fun c₀ c => c = c₀) r (k + 1) :=
    h.upto.pass_modify hc₀ hrank fun _ hc => hc ▸ hf
  refine ensures_isDue_upto h.upto hc₀ (fun _ hc => hc.rank) (fun _ hc => hc ▸ rfl)
    (fun hupto => { h with upto := hupto }) ?_ ?_
  · rintro hrank _ hc rfl _
    refine (ensures_runInline_tried hc hpid).mono ?_ fun _ _ hf => hf
    rintro _ t ⟨hbackend, f, hl, hf⟩
    exact ⟨hbackend.trans h.backend, hl ▸ h.outstanding, hl ▸ hpass hrank hf⟩
  · intro hrank _ _ _ _ _
    exact ⟨h.backend, h.outstanding, hpass hrank ⟨rfl, rfl, hpid, fun hs => by cases hs⟩⟩

/-- A simple schedule tries all cases, or is asked to stop. It fails only for what is raised. -/
theorem ensures_schedule_trying (hr : l₀.Ranked) (hidle : ∀ c ∈ l₀.items, c.Idle)
    (ho : l₀.outstanding = 0) {h : Host σ} :
    Ensures (schedule runInline) (fun _ t => Trying l₀ h.backend (l₀.maxRank + 1) 0 t ∨
        t.host.requested = true ∧ ∃ r, Trying l₀ h.backend r 0 t)
      (fun f _ => ∃ q, f = .raised q) ⟨l₀, h⟩ :=
  ensures_schedule (n := l₀.items.length) (I := Trying l₀ h.backend) hr.maxRank_nonneg
    (fun _ _ _ ht => ht.upto.length) (fun _ _ _ hk ht => ht.dispatch hidle hk)
    (fun _ _ ht => { ht with upto := ht.upto.next }) ⟨rfl, ho, .start hr fun _ _ => rfl⟩

end Schedule
end RankRunner
