import RankRunner.Launcher.Forked
import RankRunner.Proofs.Launcher.Laws
import RankRunner.Proofs.Lists

/-! # The laws of child processes

Children over a process table keep the laws of launchers: completions carry the numbers of
processes, the flag of the run is left alone or set, and a child that is reported to have ended is
in the table no more. -/

namespace RankRunner

open Effect

variable {h t : Host Forked}

/-- A signal may set the flag, and does nothing else. -/
theorem Host.ensures_deliver {σ : Type} {h : Host σ} {Q : Unit → Host σ → Prop}
    {E : Failure → Host σ → Prop} {n : Int}
    (hQ : ∀ i, (h.interruption.requested = true → i.requested = true) →
      Q () { h with interruption := i } ∧ ∀ q, E (.raised q) { h with interruption := i }) :
    Ensures (deliver n) Q E h := by
  have hset := hQ (h.interruption.signal n) fun _ => rfl
  have hkept := hQ h.interruption id
  simp only [deliver, handle, ensures_bind, ensures_get, ensures_ite, ensures_modify,
    ensures_raise, ensures_pure]
  split
  · split
    · split
      · exact hset.2 _
      · exact hset.1
    · split
      · exact hkept.2 _
      · exact hkept.1
  · split
    · exact hset.2 _
    · exact hset.1

namespace ProcessTable

theorem overtake_live (place : Nat) (t : ProcessTable) : (t.overtake place).live.Perm t.live := by
  unfold overtake
  cases hp : t.live[place]? with
  | none =>
    rw [List.getElem?_eq_none_iff] at hp
    simp [List.eraseIdx_of_length_le hp]
  | some c => exact (List.perm_cons_eraseIdx hp).symm

end ProcessTable

theorem Completion.decode_pid {pid word : Int} {usage : Option Usage} {d : Completion}
    (h : decode pid word usage = .ok d) : d.pid = some pid := by
  simp only [decode] at h
  split at h
  · cases h
  · split at h
    · cases h; rfl
    · split at h <;> cases h <;> rfl

namespace Forked

/-- No event reports a process that is not in the table. -/
def Closed (s : Forked) : Prop := ∀ e ∈ s.table.events, ∀ pid word, e ≠ .status pid word

/-- The processes that are alive. -/
def alive (s : Forked) : Multiset Int := s.table.live.map (·.1)

/-- What a wait leaves alone: the clock stays as it is, the flag is not taken back, and events are
used up at most. -/
structure Later (h t : Host Forked) : Prop where
  clock : t.clock = h.clock
  heedful : t.heedful = h.heedful
  requested : h.interruption.requested = true → t.interruption.requested = true
  events : ∀ e ∈ t.backend.table.events, e ∈ h.backend.table.events

theorem Later.closed (hl : Later h t) (hc : h.backend.Closed) : t.backend.Closed :=
  fun e he => hc e (hl.events e he)

theorem Later.insists (hl : Later h t) : h.Insists t := by
  intro hreq
  simp only [Host.requested, Bool.and_eq_true] at hreq ⊢
  exact ⟨hl.heedful.trans hreq.1, hl.requested hreq.2⟩

/-- What one wait does: a child is taken away and reported, unless the system reports a stranger,
and a wait that fails takes none away. -/
def Collected (h : Host Forked) (done : Int × Int × Usage) (t : Host Forked) : Prop :=
  Later h t ∧ (h.backend.Closed →
    h.backend.table.live.Perm ((done.1, done.2.1) :: t.backend.table.live))

def NotCollected (h t : Host Forked) : Prop :=
  Later h t ∧ t.backend.table.live.Perm h.backend.table.live

theorem ensures_collect {s : Host Forked} (hl : Later h s)
    (hp : s.backend.table.live.Perm h.backend.table.live) :
    Ensures collect (Collected h) (fun _ => NotCollected h) s := by
  simp only [collect, ensures_bind, ensures_get]
  split
  · exact ⟨hl, hp⟩
  · next pid word live hlive =>
    exact ⟨⟨hl.clock, hl.heedful, hl.requested, hl.events⟩, fun _ => hp.symm.trans (.of_eq hlive)⟩

theorem ensures_collectAny : Ensures collectAny (Collected h) (fun _ => NotCollected h) h := by
  have htail (e) (he : e ∈ h.backend.table.events.tail) := List.mem_of_mem_tail he
  simp only [collectAny, ensures_bind, ensures_get, updateTable, ensures_modify]
  split
  · exact ensures_collect ⟨rfl, rfl, id, htail⟩ (.refl _)
  · exact ⟨⟨rfl, rfl, id, htail⟩, .refl _⟩
  · next pid word hev =>
    refine ⟨⟨rfl, rfl, id, htail⟩, fun hc => ?_⟩
    cases hevents : h.backend.table.events with
    | nil => rw [hevents] at hev; cases hev
    | cons e events =>
      rw [hevents] at hev
      cases hev
      exact absurd rfl (hc _ (hevents ▸ List.mem_cons_self) pid word)
  · next n _ =>
    exact ensures_bind.2 (Host.ensures_deliver fun i hi =>
      ⟨ensures_collect ⟨rfl, rfl, hi, htail⟩ (.refl _), fun f => ⟨⟨rfl, rfl, hi, htail⟩, .refl _⟩⟩)
  · exact ensures_collect ⟨rfl, rfl, id, htail⟩ (.refl _)
  · exact ensures_collect ⟨rfl, rfl, id, htail⟩ (ProcessTable.overtake_live ..)

theorem ensures_blocking {x : Effect (Host Forked) α} {Q : α → Host Forked → Prop}
    {E : Failure → Host Forked → Prop}
    (hx : Ensures x Q E { h with interruption := { h.interruption with blocking := true } })
    (hQ : ∀ a t i, Q a t → (t.interruption.requested = true → i.requested = true) →
      Q a { t with interruption := i })
    (hE : ∀ f t i, E f t → (t.interruption.requested = true → i.requested = true) →
      E f { t with interruption := i }) :
    Ensures (Host.blocking x) (fun a => Q a.1) E h := by
  simp only [Host.blocking, Host.setBlocking, ensures_ensuring, ensures_bind, ensures_modify]
  refine hx.mono (fun a t hq => ?_) fun f t he => hE f t _ he id
  rw [ensures_bind, ensures_attempt]
  simp only [Host.deliverLate, ensures_bind, ensures_get]
  split
  · exact hQ a t _ hq id
  · rw [ensures_bind, ensures_modify]
    exact Host.ensures_deliver fun i hi => ⟨hQ a t _ hq hi, fun f => hQ a t _ hq hi⟩

theorem ensures_blockingCollect :
    Ensures blockingCollect (Collected h) (fun _ => NotCollected h) h := by
  simp only [blockingCollect, ensures_bind, ensures_get]
  split
  · rw [ensures_bind]
    refine ensures_blocking (Q := Collected h) (E := fun _ => NotCollected h) ?_ ?_ ?_
    · refine ensures_collectAny.mono (fun _ _ ht => ?_) fun _ _ ht => ?_
      · exact ⟨⟨ht.1.clock, ht.1.heedful, ht.1.requested, ht.1.events⟩, ht.2⟩
      · exact ⟨⟨ht.1.clock, ht.1.heedful, ht.1.requested, ht.1.events⟩, ht.2⟩
    · exact fun _ _ i ht hi => ⟨⟨ht.1.clock, ht.1.heedful, hi ∘ ht.1.requested, ht.1.events⟩, ht.2⟩
    · exact fun _ _ i ht hi => ⟨⟨ht.1.clock, ht.1.heedful, hi ∘ ht.1.requested, ht.1.events⟩, ht.2⟩
  · exact ensures_collectAny

theorem alive_of_perm {pid word : Int}
    (hp : h.backend.table.live.Perm ((pid, word) :: t.backend.table.live)) :
    h.backend.alive = pid ::ₘ t.backend.alive :=
  Multiset.coe_eq_coe.2 (hp.map (·.1))

theorem ensures_waitAny : Ensures waitAny
    (fun d? t => Later h t ∧ (h.backend.Closed →
      t.backend.alive ≤ (Act.waitAny (.ok d?)).unreaped h.backend.alive) ∧ ∀ d ∈ d?, d.pid.isSome)
    (fun _ t => Later h t ∧ (h.backend.Closed → t.backend.alive ≤ h.backend.alive)) h := by
  simp only [waitAny, ensures_bind, ensures_attempt]
  refine ensures_blockingCollect.mono (fun done t ht => ?_) fun f t ht => ?_
  · obtain ⟨hl, hp⟩ := ht
    simp only [completion, ensures_bind]
    cases hd : Completion.decode done.1 done.2.1 (some done.2.2) with
    | error r =>
      refine ⟨hl, fun hc => ?_⟩
      rw [alive_of_perm (hp hc)]
      exact Multiset.le_cons_self ..
    | ok d =>
      have hpid := Completion.decode_pid hd
      refine ⟨hl, fun hc => ?_, fun d' hd' => ?_⟩
      · rw [alive_of_perm (hp hc)]
        simp only [Act.unreaped, hpid, Option.elim_some]
        split
        · exact Multiset.le_cons_self ..
        · rw [Multiset.erase_cons_head]
      · cases hd'
        rw [hpid]
        rfl
  · obtain ⟨hl, hp⟩ := ht
    have halive : t.backend.alive = h.backend.alive := Multiset.coe_eq_coe.2 (hp.map _)
    rw [ensures_ite]
    split
    · exact ⟨hl, fun _ => halive.le, fun d hd => (Option.not_mem_none d hd).elim⟩
    · exact ⟨hl, fun _ => halive.le⟩

theorem ensures_start {l : Siblings Case} {c : Case} : Ensures (start l c)
    (fun pid t => Later h t ∧ t.backend.alive = pid ::ₘ h.backend.alive)
    (fun _ t => Later h t ∧ t.backend.alive = h.backend.alive) h := by
  simp only [start, updateTable, ensures_bind, ensures_get, ensures_modify]
  split
  · exact ⟨⟨rfl, rfl, id, fun _ he => he⟩, rfl⟩
  · refine ⟨⟨rfl, rfl, id, fun _ he => he⟩, ?_⟩
    simp [alive]

theorem truthful : launcher.Truthful Closed alive where
  start l _ _ hc := (ensures_start (l := l)).mono (fun _ _ ht => ht.1.closed hc)
    fun _ _ ht => ht.1.closed hc
  waitAny _ hc := ensures_waitAny.mono (fun _ _ ht => ⟨ht.1.closed hc, ht.2.2⟩)
    fun _ _ ht => ht.1.closed hc
  alive_start l _ _ _ := (ensures_start (l := l)).mono (fun _ _ ht => Std.le_of_eq ht.2)
    fun _ _ ht => Std.le_of_eq ht.2
  alive_waitAny _ hc := ensures_waitAny.mono (fun _ _ ht => ht.2.1 hc) fun _ _ ht => ht.2 hc

theorem insistent : launcher.Insistent where
  start l _ _ := (ensures_start (l := l)).mono (fun _ _ ht => ht.1.insists)
    fun _ _ ht => ht.1.insists
  waitAny _ := ensures_waitAny.mono (fun _ _ ht => ht.1.insists) fun _ _ ht => ht.1.insists

section Faultless

variable {pid : Int}

theorem collect_raises :
    Ensures collect (fun _ _ => True) (fun f _ => ∃ q, f = .raised q) h := by
  simp only [collect, ensures_bind, ensures_get]
  split
  · exact ⟨_, rfl⟩
  · trivial

theorem collectAny_raises :
    Ensures collectAny (fun _ _ => True) (fun f _ => ∃ q, f = .raised q) h := by
  simp only [collectAny, ensures_bind, ensures_get, updateTable, ensures_modify]
  split
  · exact collect_raises
  · exact ⟨_, rfl⟩
  · trivial
  · exact ensures_bind.2 (Host.ensures_deliver fun i _ => ⟨collect_raises, fun q => ⟨q, rfl⟩⟩)
  · exact collect_raises
  · exact collect_raises

theorem blockingCollect_raises :
    Ensures blockingCollect (fun _ _ => True) (fun f _ => ∃ q, f = .raised q) h := by
  simp only [blockingCollect, ensures_bind, ensures_get]
  split
  · exact ensures_bind.2 (ensures_blocking (Q := fun _ _ => True)
      (E := fun f _ => ∃ q, f = .raised q) collectAny_raises (fun _ _ _ _ _ => trivial)
      fun _ _ _ hf _ => hf)
  · exact collectAny_raises

theorem completion_raises (done : Int × Int × Usage) :
    Ensures (completion done) (fun _ _ => True) (fun f _ => ∃ q, f = .raised q) h :=
  ensures_ofExcept.2 ⟨fun _ _ => trivial, fun q _ => ⟨q, rfl⟩⟩

theorem collectOne_raises :
    Ensures (collectOne pid) (fun _ _ => True) (fun f _ => ∃ q, f = .raised q) h := by
  simp only [collectOne, ensures_bind, ensures_get]
  split
  · exact ⟨_, rfl⟩
  · split
    · exact ⟨_, rfl⟩
    · trivial

theorem drainFrom_raises (fuel : Nat) (n : Int) :
    Ensures (drainFrom fuel n) (fun _ _ => True) (fun f _ => ∃ q, f = .raised q) h := by
  induction fuel generalizing n h with
  | zero => trivial
  | succ fuel ih =>
    simp only [drainFrom, ensures_bind, ensures_attempt]
    refine collectAny_raises.mono (fun _ _ _ => ih _) fun f t hf => ?_
    split
    · exact ih _
    · split
      · trivial
      · exact hf

theorem faultless : launcher.Faultless where
  start l _ _ := by
    simp only [launcher, start, updateTable, ensures_bind, ensures_get, ensures_modify]
    split
    · exact ⟨_, rfl⟩
    · trivial
  waitAny _ := by
    simp only [launcher, waitAny, ensures_bind, ensures_attempt]
    refine blockingCollect_raises.mono (fun done _ _ => ?_) fun f _ hf => ?_
    · exact ensures_bind.2 ((completion_raises done).mono (fun _ _ _ => trivial) fun _ _ hf => hf)
    · rw [ensures_ite]
      split
      · trivial
      · exact hf
  wait pid _ := by
    simp only [launcher, wait, ensures_bind, ensures_ite]
    split
    · exact collectAny_raises.mono (fun done _ _ => completion_raises done) fun _ _ hf => hf
    · exact collectOne_raises.mono (fun done _ _ => completion_raises done) fun _ _ hf => hf
  kill _ _ := trivial
  drain _ := drainFrom_raises _ _

end Faultless

end Forked
end RankRunner
