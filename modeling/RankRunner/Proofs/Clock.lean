import Mathlib.Logic.Function.Iterate
import Mathlib.Order.Lattice
import RankRunner.Time

/-! # Clocks that go forward

Instants are compared by their distance from the start of 1970, whatever the time zone they are
shown in. A clock goes forward if none of its readings is earlier than the one before. To read it
and to let time pass keeps it so, and whatever is read later is no earlier (`Clock.Later`). -/

namespace RankRunner

instance : Preorder Timestamp where
  le x y := x.micros ≤ y.micros
  le_refl x := Int.le_refl x.micros
  le_trans _ _ _ := Int.le_trans

namespace Clock

variable {c d e : Clock} {micros : Int}

/-- No reading of the clock is earlier than the one before. -/
def Forward (c : Clock) : Prop := ∀ n, (tick^[n] c).reading ≤ (tick^[n + 1] c).reading

theorem Forward.tick (h : c.Forward) : c.tick.Forward := fun n => h (n + 1)

theorem Forward.reading_le (h : c.Forward) : c.reading ≤ c.tick.reading := h 0

theorem tick_advance (c : Clock) (micros : Int) :
    (c.advance micros).tick = c.tick.advance micros := by
  simp only [Clock.tick, advance, mk.injEq, and_true]
  omega

theorem iterate_tick_advance (c : Clock) (micros : Int) (n : Nat) :
    tick^[n] (c.advance micros) = (tick^[n] c).advance micros :=
  (Function.Semiconj.iterate_right (f := (advance · micros)) (fun c => (tick_advance c micros).symm)
    n c).symm

theorem Forward.advance (h : c.Forward) (micros : Int) : (c.advance micros).Forward := by
  intro n
  rw [iterate_tick_advance, iterate_tick_advance]
  exact Int.add_le_add_right (h n) micros

theorem reading_le_advance (h : 0 ≤ micros) : c.reading ≤ (c.advance micros).reading :=
  Int.le_add_of_nonneg_right h

/-- A clock goes forward if none of its steps goes back. -/
theorem forward_of_step (hfirst : ∀ micros ∈ c.step.first, 0 ≤ micros) (hrest : 0 ≤ c.step.rest) :
    c.Forward := by
  intro n
  induction n generalizing c with
  | zero =>
    refine Int.le_add_of_nonneg_right ?_
    cases hsteps : c.step.first with
    | nil => exact hrest
    | cons micros steps => exact hfirst micros (hsteps ▸ List.mem_cons_self)
  | succ n ih => exact ih (fun micros hm => hfirst micros (List.mem_of_mem_tail hm)) hrest

/-- The second clock goes forward from what the first one shows, or from later. -/
structure Later (c d : Clock) : Prop where
  forward : d.Forward
  reading_le : c.reading ≤ d.reading

theorem Forward.later (h : c.Forward) : c.Later c := ⟨h, le_refl _⟩

theorem Forward.later_tick (h : c.Forward) : c.Later c.tick := ⟨h.tick, h.reading_le⟩

theorem Forward.later_advance (h : c.Forward) (hmicros : 0 ≤ micros) :
    c.Later (c.advance micros) :=
  ⟨h.advance micros, reading_le_advance hmicros⟩

theorem Later.trans (h : c.Later d) (h' : d.Later e) : c.Later e :=
  ⟨h'.forward, h.reading_le.trans h'.reading_le⟩

theorem Later.tick (h : c.Later d) : c.Later d.tick := h.trans h.forward.later_tick

end Clock
end RankRunner
