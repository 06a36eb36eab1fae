import RankRunner.Proofs.Launcher.Timely
import RankRunner.Proofs.Schedule.Counted
import RankRunner.Proofs.Schedule.Timed

/-! # When the cases of a schedule in chunks are started and stopped

A case that runs as a child is stamped when it is launched, and when its child is collected. All
children are collected before the next rank begins, so that the cases of a rank have stopped before
those of a higher rank are started, though cases of one rank overlap in whatever way
(`ensures_scheduleChunks_timed`). A case for which no child could be started is stamped as well. -/

namespace RankRunner

open Effect Siblings

variable {σ : Type} {launcher : Launcher σ} {T : Case → Prop} {inv : σ → Prop}
  {l₀ : Siblings Case} {clock₀ : Clock} {lo now : Timestamp} {limit : Nat} {r : Int} {k p : Nat}
  {c c₀ : Case} {s : Scope Case σ} {host : Host σ}

namespace Case

/-- The child of the case was started, and has not been collected. -/
structure Running (lo : Timestamp) (r : Int) (now : Timestamp) (c : Case) : Prop where
  pid : c.pid.isSome
  rank : c.rank = r
  start : ∃ x, c.start = some x ∧ lo ≤ x ∧ x ≤ now
  stop : c.stop = none

/-- What becomes of a case that is dispatched: its child is running, or there is none any more. -/
def Launched (lo : Timestamp) (r : Int) (now : Timestamp) (c : Case) : Prop :=
  c.pid = none ∧ c.toItem.Spans lo now ∨ c.Running lo r now

/-- What becomes of a case that is skipped. -/
structure Skipped (c : Case) : Prop where
  unstamped : c.toItem.Unstamped
  status : c.status = .skipped
  pid : c.pid = none

theorem monotone_launched (lo : Timestamp) (r : Int) : Monotone (Launched lo r) := by
  rintro now now' hle c (⟨hpid, hspans⟩ | ⟨hpid, hrank, ⟨x, hstart, hlo, hnow⟩, hstop⟩)
  · exact .inl ⟨hpid, hspans.mono (le_refl _) hle⟩
  · exact .inr ⟨hpid, hrank, ⟨x, hstart, hlo, hnow.trans hle⟩, hstop⟩

theorem Launched.spans (h : c.Launched lo r now) (hpid : c.pid = none) :
    c.toItem.Spans lo now := by
  rcases h with ⟨_, hspans⟩ | ⟨hsome, _⟩
  · exact hspans
  · rw [hpid] at hsome
    cases hsome

theorem Launched.running (h : c.Launched lo r now) (hpid : c.pid.isSome) : c.Running lo r now := by
  rcases h with ⟨hnone, _⟩ | h
  · rw [hnone] at hpid
    cases hpid
  · exact h

end Case

namespace Schedule

/-- A schedule in chunks is on time, and counts its children right. -/
structure ChunksOnTime (inv : σ → Prop) (l₀ : Siblings Case) (clock₀ : Clock) (r : Int) (k : Nat)
    (s : Scope Case σ) : Prop
    extends OnTime inv False (Case.Launched clock₀.reading r) Case.Skipped l₀ clock₀ r k s where
  counted : s.list.Counted

namespace ChunksOnTime

theorem elsewhere (h : ChunksOnTime inv l₀ clock₀ r k s) (hinv : inv host.backend)
    (hclock : s.host.clock.Later host.clock) : ChunksOnTime inv l₀ clock₀ r k { s with host } :=
  ⟨h.toOnTime.elsewhere (Case.monotone_launched ..) hinv hclock, h.counted⟩

section Steps

variable (hr : l₀.Ranked) (hnew : ∀ c ∈ l₀.items, c.toItem.Unstamped)
  (hidle : ∀ c ∈ l₀.items, c.Idle) (h : ChunksOnTime inv l₀ clock₀ r k s)
include hr hnew hidle h

/-- A case is started now. It is the one at hand, and runs from now on. -/
theorem started (hc : l₀.items[k]? = some c) (hrank : c.rank = r)
    (hsat : s.list.satisfiesAll c.toItem = true) (pid : Int) (hinv : inv host.backend)
    (hclock : s.host.clock.Later host.clock) (hat : s.list.items[k]? = some c) :
    ChunksOnTime inv l₀ clock₀ r (k + 1)
      { list := { s.list.modify k (·.started s.host.clock.reading pid) with
          outstanding := s.list.outstanding + 1 }
        host } := by
  have hmem := List.mem_of_getElem? hc
  have hpass := h.toOnTime.pass (Case.monotone_launched ..) hr hnew hc hrank
    (f := (·.started s.host.clock.reading pid)) ⟨fun _ => rfl, fun _ => rfl, fun _ => rfl⟩ hinv
    hclock (fun _ => .inr ⟨rfl, hrank, ⟨_, rfl, h.clock.reading_le, hclock.reading_le⟩,
      (hnew c hmem).stop⟩) (fun hsat' => absurd (hsat'.symm.trans hsat) Bool.false_ne_true) ?_ ?_
  · exact ⟨hpass.congr rfl, h.counted.start hat (hidle c hmem).pid _ pid⟩
  · rintro _ ⟨⟩
    exact le_refl _
  · intro x hx
    cases (hnew c hmem).stop.symm.trans hx

/-- No child could be started for the case at hand. It stops when that is known. -/
theorem refused (hc : l₀.items[k]? = some c) (hrank : c.rank = r)
    (hsat : s.list.satisfiesAll c.toItem = true) (hinv : inv host.backend)
    (hclock : s.host.clock.tick.Later host.clock) (hat : s.list.items[k]? = some c)
    (shown : Shown) : ChunksOnTime inv l₀ clock₀ r (k + 1)
      { list := s.list.modify k (·.refused s.host.clock.reading host.clock.reading)
        host := { host with clock := host.clock.tick, shown } } := by
  have hmem := List.mem_of_getElem? hc
  have hbefore := h.clock.forward.later_tick.trans hclock
  have hafter := hclock.forward.reading_le
  refine ⟨h.toOnTime.pass (Case.monotone_launched ..) hr hnew hc hrank
    (f := (·.refused s.host.clock.reading host.clock.reading))
    ⟨fun _ => rfl, fun _ => rfl, fun _ => rfl⟩ hinv hbefore.tick
    (fun _ => .inl ⟨(hidle c hmem).pid, _, _, rfl, rfl, h.clock.reading_le, hbefore.reading_le,
      hafter⟩) (fun hsat' => absurd (hsat'.symm.trans hsat) Bool.false_ne_true) ?_ ?_,
    h.counted.modify hat rfl⟩
  · rintro _ ⟨⟩
    exact le_refl _
  · rintro _ ⟨⟩
    exact hafter

/-- A case whose child is collected stops now. As it was running it is of the rank at hand, and
nothing of a higher rank has been started. -/
theorem complete (hc : s.list.items[p]? = some c) (hpid : c.pid.isSome) (d : Completion)
    (shown : Shown) : ChunksOnTime inv l₀ clock₀ r k
      { list := { s.list.modify p (·.completed s.host.clock.reading d) with
          outstanding := s.list.outstanding - 1 }
        host := { s.host with clock := s.host.clock.tick, shown } } := by
  obtain ⟨c₀, hc₀, ⟨hpast, hdecided⟩ | ⟨_, rfl⟩⟩ := h.upto.original hc
  swap
  · rw [(hidle c (List.mem_of_getElem? hc₀)).pid] at hpid
    cases hpid
  have hsat : s.list.satisfiesAll c₀.toItem = true := by
    by_contra hsat
    rw [(hdecided.skipped (Bool.eq_false_iff.2 hsat)).pid] at hpid
    cases hpid
  obtain ⟨_, hrank, ⟨x, hstart, hlo, hnow⟩, _⟩ := (hdecided.dispatched hsat).running hpid
  have hlater := h.clock.forward.later_tick
  have hlive := live_length_complete hc hpid s.host.clock.reading d
  have hcounted := h.counted
  refine ⟨OnTime.congr (s := { list := s.list.modify p (·.completed s.host.clock.reading d)
                               host := { s.host with clock := s.host.clock.tick, shown } })
    (h.toOnTime.revise (Case.monotone_launched ..) hr hc₀ hpast (hdecided.rank.symm.trans hrank) hc
      ⟨fun _ => rfl, fun _ => rfl, fun _ => rfl⟩ h.backend hlater ?_ rfl ?_ ?_) rfl, ?_⟩
  · refine fun _ => ⟨hdecided.id, hdecided.rank, hdecided.deps, fun _ => .inl ⟨rfl, ?_⟩,
      fun hsat' => absurd (hsat'.symm.trans hsat) Bool.false_ne_true⟩
    exact ⟨x, _, hstart, rfl, hlo, hnow, hlater.reading_le⟩
  · rintro _ ⟨⟩
    exact hlater.reading_le
  · rintro q b hb (hlt | ⟨hf, _⟩)
    · exact h.start_eq_none hnew hb (.inl (hrank ▸ hlt))
    · exact hf.elim
  · unfold Siblings.Counted at hcounted ⊢
    change s.list.outstanding - 1 =
      ((s.list.modify p (·.completed s.host.clock.reading d)).live.length : Int)
    omega

variable (numbered : launcher.Numbered inv) (timely : launcher.Timely T)
include numbered timely

/-- However a chunk is collected, the schedule stays on time. -/
theorem ensures_barrier :
    Ensures (barrier launcher) (fun go t => if go then
      ChunksOnTime inv l₀ clock₀ r k t ∧ t.list.outstanding = 0 else t.host.requested = true)
      (fun _ _ => True) s := by
  refine (Schedule.ensures_barrier (K := fun _ => ChunksOnTime inv l₀ clock₀ r k)
    (R := ChunksOnTime inv l₀ clock₀ r k) (E := fun _ => True)
    (ensures_reapFrom (fun _ _ ht _ => ht) fun _ t ht _ _ => ?_)
    (fun t shown ht => ht.elsewhere ht.backend ht.clock.forward.later) (fun _ _ _ => trivial)
    (h.elsewhere h.backend h.clock.forward.later)).mono (fun go t ht => ?_) fun _ _ _ => trivial
  · refine ((numbered.waitAny _ ht.backend).and (timely.waitAny _ ht.clock.forward)).mono ?_
      fun f host hf => ⟨ht.elsewhere hf.1 hf.2, .inl trivial⟩
    rintro (_ | d) host ⟨⟨hinv, hd⟩, hclock⟩
    · exact ht.elsewhere hinv hclock
    · have hthen := ht.elsewhere hinv hclock
      refine ensures_note (fun _ shown => ?_) fun p c hc hcp _ shown => ?_
      · exact hthen.elsewhere hinv hclock.forward.later
      · exact hthen.complete hr hnew hidle hc (hcp ▸ hd d rfl) d shown
  · cases go with
    | false => exact ht.2
    | true =>
      obtain ⟨ht, hout⟩ := ht
      have hcounted : t.list.outstanding = t.list.live.length := ht.counted
      exact ⟨ht, by omega⟩

/-- A place is gone by, skipped, started or refused. -/
theorem launch (hT : ∀ c ∈ l₀.items, T c) (hk : k < l₀.items.length) :
    Ensures (isDue r k) (fun due t => if due then
      Ensures (Schedule.launch launcher k)
        (fun started t => ChunksOnTime inv l₀ clock₀ r (k + 1) t ∧
          t.list.outstanding = if started then s.list.outstanding + 1 else s.list.outstanding)
        (fun _ _ => True) t
      else ChunksOnTime inv l₀ clock₀ r (k + 1) t ∧ t.list.outstanding = s.list.outstanding)
      (fun _ _ => True) s := by
  have hc := List.getElem?_eq_getElem hk
  generalize l₀.items[k] = c at hc
  have hmem := List.mem_of_getElem? hc
  refine ensures_isDue_upto h.upto hc (fun _ hc => hc.rank) (fun _ hc => by rw [hc])
    (fun hupto => ⟨{ h with upto := hupto }, rfl⟩) ?_ ?_
  · rintro hrank _ hat rfl hsat
    refine ensures_launch hat (((numbered.start _ _ _ (by exact h.backend)).and
      (timely.start _ _ _ (hT _ hmem) h.clock.forward.tick)).mono (fun pid t ht => ?_)
      fun f t ht => ⟨.inl trivial, fun shown => ?_⟩)
    · have hlater := h.clock.forward.later_tick.trans ht.2
      exact ⟨h.started hr hnew hidle hc hrank hsat pid ht.1 hlater hat, rfl⟩
    · exact ⟨h.refused hr hnew hidle hc hrank hsat ht.1 ht.2 hat shown, rfl⟩
  · rintro hrank _ hat rfl hsat shown
    have hunstamped := hnew _ hmem
    have hskip := h.toOnTime.skip (Case.monotone_launched ..) hr hnew hc hrank hsat
      ⟨⟨hunstamped.start, hunstamped.stop⟩, rfl, (hidle _ hmem).pid⟩ shown
    exact ⟨⟨hskip, h.counted.modify hat rfl⟩, rfl⟩

end Steps

/-- What a schedule in chunks keeps. -/
theorem rule (numbered : launcher.Numbered inv) (timely : launcher.Timely T) (hr : l₀.Ranked)
    (hnew : ∀ c ∈ l₀.items, c.toItem.Unstamped) (hidle : ∀ c ∈ l₀.items, c.Idle)
    (hT : ∀ c ∈ l₀.items, T c) : ChunkRule launcher limit l₀.items.length
      (fun r k live s => ChunksOnTime inv l₀ clock₀ r k s ∧ s.list.outstanding = live)
      (fun s => s.host.requested = true) (fun _ _ => True) where
  length _ _ _ _ h := h.1.upto.length
  launch r k live s hk _ h := by
    obtain ⟨h, hout⟩ := h
    refine (h.launch hr hnew hidle numbered timely hT hk).mono (fun due t ht => ?_) fun _ _ h => h
    cases due with
    | false => exact ⟨ht.1, ht.2.trans hout⟩
    | true =>
      refine Ensures.mono ht (fun started u hu => ⟨hu.1, hu.2.trans ?_⟩) fun _ _ h => h
      cases started
      · exact hout
      · exact congrArg (· + 1) hout
  barrier _ _ _ _ _ _ _ h := h.1.ensures_barrier hr hnew hidle numbered timely
  next r s h _ := by
    obtain ⟨h, hout⟩ := h
    have hpid := h.counted.pid_eq_none hout
    refine ⟨{ h with upto := h.upto.next.mono (fun _ _ c hc hd => ?_) fun _ _ _ _ hc => hc }, hout⟩
    exact { hd with
      dispatched := fun hsat => .inl ⟨hpid c hc, (hd.dispatched hsat).spans (hpid c hc)⟩ }

end ChunksOnTime

/-- A schedule in chunks leaves its list timed, unless it is asked to stop. -/
theorem ensures_scheduleChunks_timed (numbered : launcher.Numbered inv)
    (timely : launcher.Timely T) (hr : l₀.Ranked) (hnew : ∀ c ∈ l₀.items, c.toItem.Unstamped)
    (hidle : ∀ c ∈ l₀.items, c.Idle) (hT : ∀ c ∈ l₀.items, T c) (hlimit : 0 < limit)
    (ho : l₀.outstanding = 0) {h : Host σ} (hinv : inv h.backend) (hclock : h.clock.Forward) :
    Ensures (scheduleChunks launcher limit) (fun _ t => t.host.requested = true ∨
        inv t.host.backend ∧ h.clock.Later t.host.clock ∧
          t.list.Timed False (fun _ => True) (·.status = .skipped) h.clock.reading
            t.host.clock.reading)
      (fun _ _ => True) ⟨l₀, h⟩ := by
  have hstart : ChunksOnTime inv l₀ h.clock 0 0 ⟨l₀, h⟩ :=
    ⟨.start hr hnew hinv hclock, .of_live ho (live_eq_nil fun c hc => (hidle c hc).pid)⟩
  refine ((ChunksOnTime.rule numbered timely hr hnew hidle hT).ensures_scheduleChunks hlimit
    hr.maxRank_nonneg ⟨hstart, ho⟩).mono (fun _ t ht => ?_) fun _ _ h => h
  rcases ht with ⟨ht, hout⟩ | hreq | ⟨hreq, _⟩
  · have hpid := ht.counted.pid_eq_none hout
    exact .inr ⟨ht.backend, ht.clock, ht.timed hr (fun c hc hl => ⟨hl.spans (hpid c hc), trivial⟩)
      fun c hc => ⟨hc.unstamped, hc.status⟩⟩
  · exact .inl hreq
  · exact .inl hreq

end Schedule
end RankRunner
