import RankRunner.Schedule.Scope

/-! # What an effect ensures

`x.Ensures Q E s` tells how the effect `x` ends from the state `s`: with an answer and a state that
satisfy `Q`, or with a failure and a state that satisfy `E`. An effect always ends in one of the
two ways, so that `E` being false everywhere means that it succeeds. Each operation of effects has
its rule as an equivalence; to rewrite with the rules computes what has to hold at the start. -/

namespace RankRunner

namespace Effect

variable {S T α β : Type}

def Ensures (x : Effect S α) (Q : α → S → Prop) (E : Failure → S → Prop) (s : S) : Prop :=
  match x.run s with
  | .ok a s' => Q a s'
  | .error f s' => E f s'

variable {x : Effect S α} {Q Q' : α → S → Prop} {E E' : Failure → S → Prop} {s s' : S}

theorem Ensures.of_ok (h : Ensures x Q E s) (hx : x.run s = .ok a s') : Q a s' := by
  simpa only [Ensures, hx] using h

theorem Ensures.of_error (h : Ensures x Q E s) (hx : x.run s = .error f s') : E f s' := by
  simpa only [Ensures, hx] using h

theorem Ensures.exists_ok (h : Ensures x Q (fun _ _ => False) s) :
    ∃ a s', x.run s = .ok a s' ∧ Q a s' := by
  unfold Ensures at h
  split at h
  · next a s' hx => exact ⟨a, s', hx, h⟩
  · exact h.elim

theorem Ensures.exists_error (h : Ensures x (fun _ _ => False) E s) :
    ∃ f s', x.run s = .error f s' ∧ E f s' := by
  unfold Ensures at h
  split at h
  · exact h.elim
  · next f s' hx => exact ⟨f, s', hx, h⟩

theorem Ensures.mono (h : Ensures x Q E s) (hQ : ∀ a s', Q a s' → Q' a s')
    (hE : ∀ f s', E f s' → E' f s') : Ensures x Q' E' s := by
  unfold Ensures at h ⊢
  split at h
  · exact hQ _ _ h
  · exact hE _ _ h

theorem Ensures.and (h : Ensures x Q E s) (h' : Ensures x Q' E' s) :
    Ensures x (fun a s' => Q a s' ∧ Q' a s') (fun f s' => E f s' ∧ E' f s') s := by
  unfold Ensures at h h' ⊢
  cases hx : x.run s <;> simp only [hx] at h h' ⊢ <;> exact ⟨h, h'⟩

/-- The state in which an effect ends, with an answer or with a failure. -/
def ending (x : Effect S α) (s : S) : S :=
  match x.run s with
  | .ok _ s' => s'
  | .error _ s' => s'

theorem Ensures.ending {P : S → Prop} (h : Ensures x (fun _ => P) (fun _ => P) s) :
    P (x.ending s) := by
  unfold Ensures at h
  unfold Effect.ending
  cases hx : x.run s <;> simpa only [hx] using h

theorem ending_of_ok (h : x.run s = .ok a s') : x.ending s = s' := by
  rw [Effect.ending, h]

/-- Whether an effect answers with a number. -/
def answers (x : Effect S Nat) (n : Nat) (s : S) : Bool :=
  match x.run s with
  | .ok m _ => m == n
  | .error .. => false

theorem exists_of_answers {x : Effect S Nat} {n : Nat} (h : x.answers n s = true) :
    ∃ s', x.run s = .ok n s' := by
  unfold answers at h
  split at h
  · next m s' hx => exact ⟨s', by rw [hx, beq_iff_eq.1 h]⟩
  · cases h

/-- The family of the fault with which an effect fails. -/
def fault? (x : Effect S α) (s : S) : Option Family :=
  match x.run s with
  | .error (.fault d) _ => some d.family
  | _ => none

theorem fault?_eq_some_iff {family : Family} : x.fault? s = some family ↔
    ∃ d, x.run s = .error (.fault d) (x.ending s) ∧ d.family = family := by
  unfold fault? Effect.ending
  rcases x.run s with _ | ⟨d | q, t⟩ <;> simp

theorem ensures_run : Ensures x (fun a s' => x.run s = .ok a s')
    (fun f s' => x.run s = .error f s') s := by
  unfold Ensures
  cases x.run s <;> rfl

theorem ensures_true : Ensures x (fun _ _ => True) (fun _ _ => True) s := by
  unfold Ensures
  split <;> trivial

@[simp] theorem ensures_pure {a : α} : Ensures (pure a) Q E s ↔ Q a s := Iff.rfl

@[simp] theorem ensures_throw {f : Failure} :
    Ensures (throw f : Effect S α) Q E s ↔ E f s := Iff.rfl

@[simp] theorem ensures_fail {f : Fault} :
    Ensures (fail f : Effect S α) Q E s ↔ E (.fault f) s := Iff.rfl

@[simp] theorem ensures_raise {r : Raised} :
    Ensures (raise r : Effect S α) Q E s ↔ E (.raised r) s := Iff.rfl

theorem ensures_ofExcept {x : Except Raised α} : Ensures (ofExcept x) Q E s ↔
    (∀ a, x = .ok a → Q a s) ∧ ∀ r, x = .error r → E (.raised r) s := by
  cases x with
  | ok a => exact ⟨fun h => ⟨fun _ ha => Except.ok.inj ha ▸ h, nofun⟩, fun h => h.1 a rfl⟩
  | error r => exact ⟨fun h => ⟨nofun, fun _ hr => Except.error.inj hr ▸ h⟩, fun h => h.2 r rfl⟩

@[simp] theorem ensures_bind {f : α → Effect S β} {Q : β → S → Prop} :
    Ensures (x >>= f) Q E s ↔ Ensures x (fun a => Ensures (f a) Q E) E s := by
  simp only [Ensures, EStateM.run_bind]
  cases x.run s <;> rfl

@[simp] theorem ensures_map {f : α → β} {Q : β → S → Prop} :
    Ensures (f <$> x) Q E s ↔ Ensures x (fun a => Q (f a)) E s := by
  rw [← bind_pure_comp, ensures_bind]
  rfl

@[simp] theorem ensures_get {Q : S → S → Prop} :
    Ensures (get : Effect S S) Q E s ↔ Q s s := Iff.rfl

@[simp] theorem ensures_set {Q : PUnit → S → Prop} :
    Ensures (set s' : Effect S PUnit) Q E s ↔ Q ⟨⟩ s' := Iff.rfl

@[simp] theorem ensures_modify {Q : PUnit → S → Prop} {g : S → S} :
    Ensures (modify g : Effect S PUnit) Q E s ↔ Q ⟨⟩ (g s) := Iff.rfl

@[simp] theorem ensures_attempt {Q : Except Failure α → S → Prop} :
    Ensures x.attempt Q E s ↔
      Ensures x (fun a => Q (.ok a)) (fun f => Q (.error f)) s := by
  simp only [Ensures, attempt, EStateM.run]
  cases x s <;> rfl

@[simp] theorem ensures_zoom {view : S → T} {put : T → S → S} {x : Effect T α} :
    Ensures (x.zoom view put) Q E s ↔
      Ensures x (fun a t => Q a (put t s)) (fun f t => E f (put t s)) (view s) := by
  simp only [Ensures, zoom, EStateM.run]
  cases x (view s) <;> rfl

@[simp] theorem ensures_ensuring {last : Effect S Unit} :
    Ensures (x.ensuring last) Q E s ↔
      Ensures x (fun a => Ensures last (fun _ => Q a) E)
        (fun f => Ensures last (fun _ => E f) E) s := by
  simp only [Ensures, ensuring, EStateM.run]
  cases x s with
  | ok a s' =>
    exact ensures_bind (x := last) (f := fun _ => pure a) (Q := Q) (E := E) (s := s')
  | error f s' =>
    exact ensures_bind (x := last) (f := fun _ => throw f) (Q := Q) (E := E) (s := s')

theorem ensures_ite {c : Prop} [Decidable c] {y : Effect S α} :
    Ensures (if c then x else y) Q E s ↔ if c then Ensures x Q E s else Ensures y Q E s := by
  split <;> rfl

/-- What fails after anything fails. -/
theorem fails_bind {f : α → Effect S β}
    (h : ∀ a s, Ensures (f a) (fun _ _ => False) (fun _ _ => True) s) :
    Ensures (x >>= f) (fun _ _ => False) (fun _ _ => True) s :=
  ensures_bind.2 (ensures_true.mono (fun a s _ => h a s) fun _ _ h => h)

end Effect

open Effect

variable {σ α β : Type}

namespace Host

variable {h : Host σ} {Q : Unit → Host σ → Prop} {E : Failure → Host σ → Prop}

@[simp] theorem ensures_now {Q : Timestamp → Host σ → Prop} :
    Ensures now Q E h ↔ Q h.clock.reading { h with clock := h.clock.tick } := Iff.rfl

@[simp] theorem ensures_say {text : Shown} :
    Ensures (say text) Q E h ↔ Q () { h with shown := h.shown ++ text } := Iff.rfl

@[simp] theorem ensures_debugging {message : String} :
    Ensures (debugging message) Q E h ↔
      Q () { h with shown := h.shown ++ h.console.debugging message } := Iff.rfl

@[simp] theorem ensures_warn {message : String} :
    Ensures (warn message) Q E h ↔
      Q () { h with shown := h.shown ++ Console.warning message } := Iff.rfl

end Host

namespace Scope

variable {s : Scope α σ} {E : Failure → Scope α σ → Prop}

@[simp] theorem ensures_onHost {x : Effect (Host σ) β} {Q : β → Scope α σ → Prop} :
    Ensures (onHost x) Q E s ↔
      Ensures x (fun b host => Q b { s with host }) (fun f host => E f { s with host }) s.host :=
  ensures_zoom

@[simp] theorem ensures_at? {pos : Nat} {Q : Option α → Scope α σ → Prop} :
    Ensures (at? pos) Q E s ↔ Q s.list.items[pos]? s := Iff.rfl

@[simp] theorem ensures_modifyAt {pos : Nat} {f : α → α} {Q : Unit → Scope α σ → Prop} :
    Ensures (modifyAt pos f) Q E s ↔ Q () { s with list := s.list.modify pos f } := Iff.rfl

@[simp] theorem ensures_addOutstanding {n : Int} {Q : Unit → Scope α σ → Prop} :
    Ensures (addOutstanding n) Q E s ↔
      Q () { s with list := { s.list with outstanding := s.list.outstanding + n } } := Iff.rfl

@[simp] theorem ensures_requested {Q : Bool → Scope α σ → Prop} :
    Ensures requested Q E s ↔ Q s.host.requested s := Iff.rfl

@[simp] theorem ensures_stampStart [WorkItem α] {pos : Nat} {Q : Unit → Scope α σ → Prop} :
    Ensures (stampStart pos) Q E s ↔ Q ()
      { list := s.list.modify pos (WorkItem.update ({ · with start := some s.host.clock.reading }))
        host := { s.host with clock := s.host.clock.tick } } := Iff.rfl

@[simp] theorem ensures_stampStop [WorkItem α] {pos : Nat} {Q : Unit → Scope α σ → Prop} :
    Ensures (stampStop pos) Q E s ↔ Q ()
      { list := s.list.modify pos (WorkItem.update ({ · with stop := some s.host.clock.reading }))
        host := { s.host with clock := s.host.clock.tick } } := Iff.rfl

theorem ensures_showCase {s : Scope Case σ} {E : Failure → Scope Case σ → Prop} {pos : Nat}
    {Q : Unit → Scope Case σ → Prop} {c : Case} (hc : s.list.items[pos]? = some c) :
    Ensures (showCase pos) Q E s ↔ Q ()
      { s with host := { s.host with shown := s.host.shown ++ s.host.console.caseResult c } } := by
  simp only [showCase, ensures_bind, ensures_at?, hc]
  exact Iff.rfl

end Scope
end RankRunner
