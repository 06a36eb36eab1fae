import Mathlib.Data.Multiset.AddSub
import RankRunner.Proofs.Ensures
import RankRunner.Proofs.Lists
import RankRunner.Schedule.Chunks

/-! # Starting and collecting children

Rules for the parts of a schedule in chunks: the launch of a case, the note of a completion, and
the loop that collects a chunk. They say for any launcher what becomes of the list, and leave to
their users what the launcher does. -/

namespace RankRunner

namespace Case

/-- The case with the time at which it starts. -/
def stamped (t : Timestamp) (c : Case) : Case := { c with start := some t }

/-- What becomes of a case that is started. -/
def started (t : Timestamp) (pid : Int) (c : Case) : Case :=
  { c with start := some t, pid := some pid }

/-- What becomes of a case for which no child could be started. -/
def refused (t t' : Timestamp) (c : Case) : Case :=
  { c with start := some t, stop := some t', notRun := true }

/-- What becomes of a case whose child ended. -/
def completed (t : Timestamp) (d : Completion) (c : Case) : Case :=
  { c with stop := some t, pid := none, status := ⟨d.result⟩, usage := d.usage }

end Case

namespace Siblings

variable {α : Type} {l : Siblings α} {pos : Nat} {f g : α → α}

@[simp] theorem modify_length : (l.modify pos f).items.length = l.items.length :=
  List.length_modify ..

@[simp] theorem modify_modify : (l.modify pos f).modify pos g = l.modify pos (g ∘ f) := by
  simp [modify, List.modify_modify_eq]

theorem modify_getElem?_of_ne {p : Nat} (h : p ≠ pos) :
    (l.modify pos f).items[p]? = l.items[p]? :=
  List.getElem?_modify_ne f l.items h.symm

theorem modify_getElem? {a : α} (h : l.items[pos]? = some a) :
    (l.modify pos f).items[pos]? = some (f a) := by
  simp [modify, h]

theorem exists_of_modify_getElem? {b : α} (h : (l.modify pos f).items[pos]? = some b) :
    ∃ a, l.items[pos]? = some a ∧ f a = b := by
  simpa [modify, List.getElem?_modify] using h

section Pids

variable {l : Siblings Case} {f : Case → Case} {c : Case}

/-- The processes of the running cases. -/
def pids (l : Siblings Case) : Multiset Int := l.items.filterMap (·.pid)

theorem card_pids : Multiset.card l.pids = l.live.length := by
  rw [pids, Multiset.coe_card, List.length_filterMap_eq_countP, live, List.countP_eq_length_filter]

theorem pid_of_live (h : l.live = []) : ∀ c ∈ l.items, c.pid = none := fun c hc =>
  Option.not_isSome_iff_eq_none.1 (List.filter_eq_nil_iff.1 h c hc)

theorem live_eq_nil (h : ∀ c ∈ l.items, c.pid = none) : l.live = [] :=
  List.filter_eq_nil_iff.2 fun c hc => Option.not_isSome_iff_eq_none.2 (h c hc)

/-- To change one case exchanges its process. -/
theorem exists_pids_modify (h : l.items[pos]? = some c) :
    ∃ others : Multiset Int, l.pids = c.pid.toList + others ∧
      ∀ f : Case → Case, (l.modify pos f).pids = (f c).pid.toList + others := by
  have hcons : ∀ (b : Case) (bs : List Case), ((b :: bs).filterMap (·.pid) : Multiset Int) =
      b.pid.toList + (bs.filterMap (·.pid) : Multiset Int) := by
    intro b bs
    rw [List.filterMap_cons]
    cases b.pid <;> rfl
  refine ⟨(l.items.eraseIdx pos).filterMap (·.pid), ?_, fun f => ?_⟩
  · rw [← hcons]
    exact Multiset.coe_eq_coe.2 ((List.perm_cons_eraseIdx h).filterMap _)
  · rw [← hcons]
    exact Multiset.coe_eq_coe.2 ((List.modify_perm_cons_eraseIdx h f).filterMap _)

theorem mem_pids {pid : Int} : pid ∈ l.pids ↔ ∃ c ∈ l.items, c.pid = some pid := by
  simp [pids]

/-- To end a running case takes its process away. -/
theorem exists_pids_of_pid {pid : Int} (h : l.items[pos]? = some c) (hp : c.pid = some pid) :
    ∃ others, l.pids = pid ::ₘ others ∧
      ∀ f : Case → Case, (f c).pid = none → (l.modify pos f).pids = others := by
  obtain ⟨others, hl, hmod⟩ := exists_pids_modify h
  refine ⟨others, ?_, fun f hf => ?_⟩
  · rw [hl, hp]
    exact Multiset.singleton_add pid others
  · rw [hmod, hf]
    exact Multiset.zero_add others

/-- Running cases at different places have different processes, if all processes differ. -/
theorem place_eq_of_pid (hn : l.pids.Nodup) {p q : Nat} {a b : Case} {pid : Int}
    (ha : l.items[p]? = some a) (hb : l.items[q]? = some b) (hap : a.pid = some pid)
    (hbp : b.pid = some pid) : p = q := by
  obtain ⟨others, hl, hmod⟩ := exists_pids_of_pid ha hap
  refine Decidable.byContradiction fun hne => ?_
  have hb' : (l.modify p ({ · with pid := none })).items[q]? = some b := by
    rw [modify_getElem?_of_ne (Ne.symm hne), hb]
  have hmem := mem_pids.2 ⟨b, List.mem_of_getElem? hb', hbp⟩
  rw [hmod _ rfl] at hmem
  rw [hl] at hn
  exact (Multiset.nodup_cons.1 hn).1 hmem

end Pids

end Siblings

namespace Schedule

open Effect

variable {σ : Type} {launcher : Launcher σ} {s : Scope Case σ}
  {E : Failure → Scope Case σ → Prop} {pos : Nat} {c : Case}

/-- The list in which a case is launched. -/
def atLaunch (pos : Nat) (s : Scope Case σ) : Siblings Case :=
  s.list.modify pos (·.stamped s.host.clock.reading)

/-- A launched case is started, or refused if the failure is of the system. Other failures are
passed on. The case gets the times that the clock shows. -/
theorem ensures_launch {Q : Bool → Scope Case σ → Prop} (hc : s.list.items[pos]? = some c)
    (h : Ensures (launcher.start (atLaunch pos s) c)
      (fun pid host => Q true
        { list := { s.list.modify pos (·.started s.host.clock.reading pid) with
            outstanding := s.list.outstanding + 1 }
          host })
      (fun f host => (E f { list := atLaunch pos s, host } ∨
          ∃ r, f = .raised r ∧ r.isSystem = true) ∧
        ∀ shown, Q false
          { list := s.list.modify pos (·.refused s.host.clock.reading host.clock.reading)
            host := { host with clock := host.clock.tick, shown } })
      { s.host with clock := s.host.clock.tick }) :
    Ensures (launch launcher pos) Q E s := by
  simp only [launch, ensures_bind, Scope.ensures_at?, hc, Scope.ensures_stampStart, ensures_get,
    ensures_attempt, Scope.ensures_onHost]
  refine h.mono (fun pid host hQ => ?_) fun f host hf => ?_
  · simp only [ensures_bind, Scope.ensures_modifyAt, Scope.ensures_addOutstanding, ensures_pure,
      Siblings.modify_modify]
    exact hQ
  · obtain ⟨hE, hQ⟩ := hf
    cases f with
    | fault f =>
      refine hE.resolve_right ?_
      rintro ⟨_, hf, _⟩
      cases hf
    | raised r =>
      dsimp only
      split
      · simp only [ensures_bind, Scope.ensures_onHost, Host.ensures_say, Scope.ensures_modifyAt,
          Scope.ensures_stampStop, ensures_pure, Siblings.modify_modify]
        exact hQ _
      · next hr =>
        refine hE.resolve_right ?_
        rintro ⟨_, hf, hs⟩
        cases hf
        exact hr hs

theorem ensures_completedStatus {h : Host σ} {Q : Status → Host σ → Prop}
    {E : Failure → Host σ → Prop} {d : Completion}
    (hQ : ∀ shown, Q ⟨d.result⟩ { h with shown }) : Ensures (completedStatus c d) Q E h := by
  unfold completedStatus
  cases hs : d.signal with
  | some n =>
    have : d.result = Status.aborted.code := by simp [Completion.result, hs]
    simp only [ensures_bind, Host.ensures_debugging, ensures_pure]
    rw [this] at hQ
    exact hQ _
  | none =>
    simp only [Case.statusOf, ensures_bind, ensures_ite, Host.ensures_warn, ensures_pure]
    split
    · exact hQ _
    · exact hQ h.shown

theorem ensures_complete {Q : Unit → Scope Case σ → Prop} {d : Completion}
    (hc : s.list.items[pos]? = some c)
    (hQ : ∀ shown, Q ()
      { list := { s.list.modify pos (·.completed s.host.clock.reading d) with
          outstanding := s.list.outstanding - 1 }
        host := { s.host with clock := s.host.clock.tick, shown } }) :
    Ensures (complete pos c d) Q E s := by
  simp only [complete, ensures_bind, Scope.ensures_addOutstanding, Scope.ensures_modifyAt,
    Scope.ensures_stampStop, Scope.ensures_onHost]
  refine ensures_completedStatus fun shown => ?_
  simp only [Siblings.modify_modify]
  rw [Scope.ensures_showCase (Siblings.modify_getElem? hc)]
  exact hQ _

/-- A completion ends the first case with its process, unless the child was only stopped. The case
gets the time that the clock shows. -/
theorem ensures_note {Q : Bool → Scope Case σ → Prop} {d : Completion}
    (kept : (∀ c ∈ s.list.items, c.pid ≠ d.pid) ∨ d.stopped = true →
      ∀ shown, Q false { s with host := { s.host with shown } })
    (ended : ∀ pos c, s.list.items[pos]? = some c → c.pid = d.pid → d.stopped = false →
      ∀ shown, Q true
        { list := { s.list.modify pos (·.completed s.host.clock.reading d) with
            outstanding := s.list.outstanding - 1 }
          host := { s.host with clock := s.host.clock.tick, shown } }) :
    Ensures (note d) Q E s := by
  simp only [note, ensures_bind, ensures_get]
  cases hpos : s.list.positionOfPid? d.pid with
  | none =>
    refine kept (.inl fun c hc => ?_) _
    simpa using List.findIdx?_eq_none_iff.1 hpos c hc
  | some pos =>
    obtain ⟨hlt, hpid, hfirst⟩ := List.findIdx?_eq_some_iff_getElem.1 hpos
    have hfind : s.list.byPid? d.pid = some s.list.items[pos] :=
      List.find?_eq_some_iff_getElem.2 ⟨hpid, pos, hlt, rfl, fun j hj => by simpa using hfirst j hj⟩
    simp only [hfind]
    split
    · next hs => exact kept (.inr hs) _
    · next hs =>
      have hc := List.getElem?_eq_getElem hlt
      rw [ensures_bind]
      exact ensures_complete hc (ended pos _ hc (by simpa using hpid) (by simpa using hs))

section Counting

variable {K : Nat → Nat → Scope Case σ → Prop} {R : Nat → Scope Case σ → Prop}
  {E : Scope Case σ → Prop}

/-- The loop that collects children keeps an invariant `K fuel reaped` while `fuel` waits are left
and `reaped` cases have been ended, and ends in `R`. A wait that was only broken off is repeated. -/
theorem ensures_reapFrom_counting
    (stop : ∀ fuel reaped s, K fuel reaped s →
      fuel = 0 ∨ s.list.outstanding ≤ 0 ∨ s.host.requested = true → R reaped s)
    (step : ∀ fuel reaped s, K (fuel + 1) reaped s → 0 < s.list.outstanding →
      s.host.requested = false →
      Ensures launcher.waitAny
        (fun d? host => match d? with
          | none => R reaped { s with host }
          | some d => Ensures (note d) (fun noted => K fuel (if noted then reaped + 1 else reaped))
            (fun _ => E) { s with host })
        (fun f host => K fuel reaped { s with host } ∧
          (E { s with host } ∨ ∃ r, f = .raised r ∧ r.isInterrupted = true)) s.host)
    (fuel reaped : Nat) (s : Scope Case σ) (h : K fuel reaped s) :
    Ensures (reapFrom launcher fuel reaped) R (fun _ => E) s := by
  induction fuel generalizing reaped s with
  | zero => exact stop 0 reaped s h (.inl rfl)
  | succ fuel ih =>
    simp only [reapFrom, ensures_bind, ensures_get, Scope.ensures_requested]
    split
    · next hstop => exact stop _ _ s h (.inr hstop)
    · next hgo =>
      simp only [not_or, Int.not_le, Bool.not_eq_true] at hgo
      simp only [ensures_bind, awaitAny, ensures_attempt, Scope.ensures_onHost]
      refine (step fuel reaped s h hgo.1 hgo.2).mono (fun d? host hd => ?_) fun f host hf => ?_
      · cases d? with
        | none => exact hd
        | some d =>
          refine ensures_bind.2 (hd.mono (fun noted s hK => ?_) fun _ _ h => h)
          cases noted with
          | false => exact ih _ _ hK
          | true => exact ih _ _ hK
      · obtain ⟨hK, hE⟩ := hf
        cases f with
        | fault f =>
          refine hE.resolve_right ?_
          rintro ⟨_, hf, _⟩
          cases hf
        | raised r =>
          dsimp only
          split
          · exact ih _ _ hK
          · next hr =>
            have hE' : E { s with host } := by
              refine hE.resolve_right ?_
              rintro ⟨_, hf, hi⟩
              cases hf
              exact hr hi
            split
            · exact hE'
            · exact hE'

/-- Children that stay outstanding are a fault. -/
theorem ensures_reap_counting
    (hloop : Ensures (reapFrom launcher (launcher.patience s.host) 0) R (fun _ => E) s) :
    Ensures (reap launcher) (fun n t => R n t ∧ t.list.outstanding ≤ 0)
      (fun f t => E t ∨ (∃ n, R n t) ∧ 0 < t.list.outstanding ∧ ∃ n, f = .fault (.reapIncomplete n))
      s := by
  simp only [reap, ensures_bind, ensures_get]
  refine hloop.mono (fun reaped t hR => ?_) fun _ _ hE => .inl hE
  rw [ensures_bind, ensures_get, ensures_ite]
  split
  · next hout => exact .inr ⟨⟨reaped, hR⟩, hout, _, rfl⟩
  · next hout => exact ⟨hR, Int.not_lt.1 hout⟩

end Counting

section Collect

variable {K : Nat → Scope Case σ → Prop} {R E : Scope Case σ → Prop}

/-- The loop that collects children, where it does not matter how many cases it has ended. -/
theorem ensures_reapFrom
    (stop : ∀ fuel s, K fuel s → fuel = 0 ∨ s.list.outstanding ≤ 0 ∨ s.host.requested = true → R s)
    (step : ∀ fuel s, K (fuel + 1) s → 0 < s.list.outstanding → s.host.requested = false →
      Ensures launcher.waitAny
        (fun d? host => match d? with
          | none => R { s with host }
          | some d => Ensures (note d) (fun _ => K fuel) (fun _ => E) { s with host })
        (fun f host => K fuel { s with host } ∧
          (E { s with host } ∨ ∃ r, f = .raised r ∧ r.isInterrupted = true)) s.host)
    (fuel reaped : Nat) (s : Scope Case σ) (h : K fuel s) :
    Ensures (reapFrom launcher fuel reaped) (fun _ => R) (fun _ => E) s :=
  ensures_reapFrom_counting (K := fun fuel _ => K fuel) (R := fun _ => R)
    (fun fuel _ => stop fuel) (fun fuel _ => step fuel) fuel reaped s h

theorem ensures_reap
    (hloop : ∀ fuel reaped s, K fuel s →
      Ensures (reapFrom launcher fuel reaped) (fun _ => R) (fun _ => E) s)
    (h : K (launcher.patience s.host) s) :
    Ensures (reap launcher) (fun _ s => R s ∧ s.list.outstanding ≤ 0)
      (fun f s => E s ∨ R s ∧ 0 < s.list.outstanding ∧ ∃ n, f = .fault (.reapIncomplete n)) s :=
  (ensures_reap_counting (R := fun _ => R) (hloop _ 0 s h)).mono (fun _ _ h => h)
    fun _ _ h => h.imp_right fun ⟨⟨_, hR⟩, hout⟩ => ⟨hR, hout⟩

/-- A chunk is collected when nothing is outstanding any more. It is left as it is only if the run
was asked to stop, and without that to leave it is a fault. -/
theorem ensures_barrier
    (hloop : ∀ fuel reaped s, K fuel s →
      Ensures (reapFrom launcher fuel reaped) (fun _ => R) (fun _ => E) s)
    (hR : ∀ s shown, R s → R { s with host := { s.host with shown } })
    (hE : ∀ s shown, E s → E { s with host := { s.host with shown } })
    (h : let host := { s.host with barriers := s.host.barriers + 1 }
      K (launcher.patience host) { s with host }) :
    Ensures (barrier launcher) (fun go s => if go then R s ∧ s.list.outstanding ≤ 0
        else (E s ∨ R s ∧ 0 < s.list.outstanding) ∧ s.host.requested = true)
      (fun _ s => E s ∨ R s ∧ 0 < s.list.outstanding ∧ s.host.requested = false) s := by
  simp only [barrier, ensures_bind, Scope.ensures_onHost, ensures_modify, ensures_attempt]
  refine (ensures_reap hloop h).mono (fun _ s hR => hR) fun f s hs => ?_
  cases f with
  | raised r =>
    refine .inl (hs.resolve_right ?_)
    rintro ⟨_, _, _, hf⟩
    cases hf
  | fault f =>
    dsimp only
    split
    · simp only [ensures_bind, Scope.ensures_requested]
      split
      · next hreq =>
        refine ⟨?_, hreq⟩
        rcases hs with hs | ⟨hs, hout, _⟩
        · exact .inl (hE _ _ hs)
        · exact .inr ⟨hR _ _ hs, hout⟩
      · next hreq =>
        have hs' : E s ∨ R s ∧ 0 < s.list.outstanding ∧ s.host.requested = false :=
          hs.imp id fun hs => ⟨hs.1, hs.2.1, Bool.eq_false_iff.2 hreq⟩
        split <;> exact hs'
    · next hfamily =>
      refine .inl (hs.resolve_right ?_)
      rintro ⟨_, _, _, hf⟩
      cases hf
      exact hfamily rfl

/-- While nobody asks the run to stop, and each wait uses up patience that lasts for all children, a
chunk is collected to the last child. -/
theorem ensures_barrier_of_patience {I : Scope Case σ → Prop}
    (calm : ∀ s, I s → s.host.requested = false)
    (spent : ∀ s, I s → launcher.patience s.host = 0 → s.list.outstanding ≤ 0)
    (unaffected : ∀ s shown, I s → I { s with host := { s.host with shown } })
    (wait : ∀ s, I s → 0 < s.list.outstanding → Ensures launcher.waitAny
      (fun d? host => match d? with
        | none => False
        | some d => Ensures (note d) (fun _ s' => I s' ∧
            launcher.patience s'.host < launcher.patience s.host) (fun _ _ => False)
            { s with host })
      (fun f host => (I { s with host } ∧ launcher.patience host < launcher.patience s.host) ∧
        ∃ r, f = .raised r ∧ r.isInterrupted = true) s.host)
    (h : I { s with host := { s.host with barriers := s.host.barriers + 1 } }) :
    Ensures (barrier launcher) (fun go s => go = true ∧ I s ∧ s.list.outstanding ≤ 0)
      (fun _ _ => False) s := by
  refine (ensures_barrier (K := fun fuel s => I s ∧ launcher.patience s.host ≤ fuel)
    (R := fun s => I s ∧ s.list.outstanding ≤ 0) (E := fun _ => False) (ensures_reapFrom ?_ ?_)
    (fun s shown hs => ⟨unaffected s shown hs.1, hs.2⟩) (fun _ _ h => h)
    ⟨h, Nat.le_refl _⟩).mono (fun go s hs => ?_) fun f s hs => ?_
  · rintro fuel s ⟨hs, hfuel⟩ (rfl | hout | hreq)
    · exact ⟨hs, spent s hs (Nat.le_zero.1 hfuel)⟩
    · exact ⟨hs, hout⟩
    · rw [calm s hs] at hreq
      cases hreq
  · intro fuel s ⟨hs, hfuel⟩ hout _
    refine (wait s hs hout).mono (fun d? host hd => ?_) fun f host ⟨⟨hs', hlt⟩, hf⟩ =>
      ⟨⟨hs', Nat.le_of_lt_succ (Nat.lt_of_lt_of_le hlt hfuel)⟩, .inr hf⟩
    cases d? with
    | none => exact hd.elim
    | some d =>
      exact hd.mono (fun _ s' ⟨hs', hlt⟩ =>
        ⟨hs', Nat.le_of_lt_succ (Nat.lt_of_lt_of_le hlt hfuel)⟩) fun _ _ h => h
  · cases go with
    | false =>
      obtain ⟨⟨_, hout⟩, hleft⟩ := hs.1.resolve_left id
      omega
    | true => exact ⟨rfl, hs.1.1, hs.2⟩
  · obtain ⟨⟨_, hout⟩, hleft, _⟩ := hs.resolve_left id
    omega

end Collect

end Schedule
end RankRunner
