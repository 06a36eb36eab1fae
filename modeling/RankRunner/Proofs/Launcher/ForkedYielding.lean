import RankRunner.Proofs.Launcher.Flag
import RankRunner.Proofs.Launcher.Forked
import RankRunner.Proofs.Launcher.Yielding

/-! # Child processes let a run stop

Children over a process table are yielding if only signals arrive that the runner handles, waits
fail only because they are broken off, and children can be refused by the system only
(`Forked.yielding`). To collect all children uses up an event or a child with every wait, so that
no child is left when it ends. -/

namespace RankRunner

open Effect

namespace Completion

theorem isStatusWord_iff {n : Int} :
    isStatusWord n = true ↔ -2147483648 ≤ n ∧ n < 2147483648 := by
  simp [isStatusWord]

theorem isStatusWord_exitWord (code : Int) : isStatusWord (exitWord code) = true := by
  rw [isStatusWord_iff, exitWord]
  omega

theorem exists_decode (pid : Int) {word : Int} (usage : Option Usage)
    (h : isStatusWord word = true) : ∃ d, decode pid word usage = .ok d := by
  simp only [decode, h, Bool.not_true, Bool.false_eq_true, if_false]
  split
  · exact ⟨_, rfl⟩
  · split <;> exact ⟨_, rfl⟩

end Completion

namespace Forked

variable {h t : Host Forked} {pid : Int}

theorem isNoChild_noChildren : isNoChild (.raised ProcessTable.noChildren) = true := by
  decide +kernel

theorem isInterrupted_noChildren : isInterrupted (.raised ProcessTable.noChildren) = false := by
  decide +kernel

/-- The signals are handled, waits are broken off at most, and status words can be decoded. -/
def SoundEvent : WaitEvent → Prop
  | .nothing | .overtakes _ => True
  | .fails r => r.isInterrupted = true
  | .status _ word => Completion.isStatusWord word = true
  | .signal n | .late n => n ∈ handledSignals

structure Sound (h : Host Forked) : Prop where
  signum : ∀ n ∈ h.interruption.signum, n ∈ handledSignals
  late : ∀ n ∈ h.interruption.late, n ∈ handledSignals
  events : ∀ e ∈ h.backend.table.events, SoundEvent e
  live : ∀ x ∈ h.backend.table.live, Completion.isStatusWord x.2 = true
  failing : ∀ x ∈ h.backend.table.failing, x.2.isSystem = true
  nextPid : 0 ≤ h.backend.table.nextPid

/-- What a wait leaves. -/
structure Continued (h t : Host Forked) : Prop where
  sound : Sound t
  blocking : t.interruption.blocking = h.interruption.blocking

/-- A child ends with a signal or with an exit code. -/
theorem childWord_cases (c : Case) (h : Host Forked) :
    isSignal (childWord c h) = true ∨ ∃ code, childWord c h = Completion.exitWord code := by
  unfold childWord
  dsimp only
  split
  · next word hword =>
    obtain ⟨n, _, hn⟩ := List.exists_of_findSome?_eq_some hword
    unfold killedWord? at hn
    split at hn
    · cases hn
    · split at hn
      · next hsignal =>
        cases hn
        exact .inl hsignal
      · cases hn
        exact .inr ⟨_, rfl⟩
  · split
    · exact .inr ⟨_, rfl⟩
    · exact .inr ⟨_, rfl⟩

theorem isStatusWord_childWord (c : Case) (h : Host Forked) :
    Completion.isStatusWord (childWord c h) = true := by
  rcases childWord_cases c h with hsignal | ⟨code, hcode⟩
  · simp only [isSignal, Bool.and_eq_true, decide_eq_true_eq] at hsignal
    rw [Completion.isStatusWord_iff]
    omega
  · rw [hcode]
    exact Completion.isStatusWord_exitWord code

theorem Sound.signal (hs : Sound h) {n : Int} (hn : n ∈ handledSignals) :
    Sound { h with interruption := h.interruption.signal n } :=
  { hs with signum := fun _ hm => Option.some.inj hm ▸ hn }

/-- The oldest child is collected, unless there is none. -/
theorem ensures_collect_sound (hs : Sound h) : Ensures collect
    (fun done t => Continued h t ∧ Completion.isStatusWord done.2.1 = true ∧
      patience t < patience h)
    (fun f t => Continued h t ∧ f = .raised ProcessTable.noChildren ∧ t.backend.table.live = [])
    h := by
  simp only [collect, ensures_bind, ensures_get]
  split
  · next hlive => exact ⟨⟨hs, rfl⟩, rfl, hlive⟩
  · next pid word live hlive =>
    have hmem (x) (hx : x ∈ live) := hs.live x (hlive ▸ List.mem_cons_of_mem _ hx)
    refine ⟨⟨{ hs with live := hmem }, rfl⟩, hs.live (pid, word) (hlive ▸ List.mem_cons_self), ?_⟩
    simp only [patience, hlive, List.length_cons]
    omega

theorem Continued.trans {u : Host Forked} (h₁ : Continued h t) (h₂ : Continued t u) :
    Continued h u :=
  ⟨h₂.sound, h₂.blocking.trans h₁.blocking⟩

/-- A wait for any child collects one or takes the event of a stranger, unless it is broken off or
there is no child. -/
theorem ensures_collectAny_sound (hs : Sound h) : Ensures collectAny
    (fun done t => Continued h t ∧ Completion.isStatusWord done.2.1 = true ∧
      patience t < patience h)
    (fun f t => Continued h t ∧ (isInterrupted f = true ∧ patience t < patience h ∨
      f = .raised ProcessTable.noChildren ∧ t.backend.table.live = [])) h := by
  have hcollect {s : Host Forked} (hc : Continued h s) (hp : patience s ≤ patience h) :
      Ensures collect
        (fun done t => Continued h t ∧ Completion.isStatusWord done.2.1 = true ∧
          patience t < patience h)
        (fun f t => Continued h t ∧ (isInterrupted f = true ∧ patience t < patience h ∨
          f = .raised ProcessTable.noChildren ∧ t.backend.table.live = [])) s := by
    refine (ensures_collect_sound hc.sound).mono ?_ fun _ _ ht => ⟨hc.trans ht.1, .inr ht.2⟩
    rintro _ t ⟨ht, hword, hlt⟩
    exact ⟨hc.trans ht, hword, Nat.lt_of_lt_of_le hlt hp⟩
  simp only [collectAny, ensures_bind, ensures_get, updateTable, ensures_modify]
  cases hev : h.backend.table.events with
  | nil =>
    refine hcollect ⟨{ hs with events := fun e he => absurd he List.not_mem_nil }, rfl⟩ ?_
    simp [patience, hev]
  | cons e events =>
    have he := hs.events e (hev ▸ List.mem_cons_self)
    have hrest (e') (he' : e' ∈ events) := hs.events e' (hev ▸ List.mem_cons_of_mem e he')
    have hlt (live : List (Int × Int)) (hlen : live.length = h.backend.table.live.length) :
        events.length + live.length < patience h := by
      simp only [patience, hev, List.length_cons, hlen]
      omega
    have hnext := hlt _ rfl
    dsimp only [List.headD_cons, List.tail_cons]
    have hs' : Sound { h with backend := { h.backend with
        table := { h.backend.table with events } } } := { hs with events := hrest }
    cases e with
    | nothing => exact hcollect ⟨hs', rfl⟩ (Nat.le_of_lt hnext)
    | fails q => exact ⟨⟨hs', rfl⟩, .inl ⟨he, hnext⟩⟩
    | status pid word => exact ⟨⟨hs', rfl⟩, he, hnext⟩
    | signal n =>
      rw [ensures_bind, Host.ensures_deliver_of_handled he]
      split
      · exact ⟨⟨hs'.signal he, rfl⟩, .inl ⟨rfl, hnext⟩⟩
      · exact hcollect ⟨hs'.signal he, rfl⟩ (Nat.le_of_lt hnext)
    | late n =>
      refine hcollect ⟨{ hs' with late := fun _ hm => Option.some.inj hm ▸ he }, rfl⟩ ?_
      exact Nat.le_of_lt hnext
    | overtakes place =>
      have hperm := ProcessTable.overtake_live place { h.backend.table with events }
      refine hcollect ⟨{ hs' with live := fun x hx => hs.live x (hperm.mem_iff.1 hx) }, rfl⟩ ?_
      exact Nat.le_of_lt (hlt _ hperm.length_eq)

/-- To set the mark of a blocking wait does not change what is sound. -/
theorem Sound.mark (hs : Sound h) (blocking : Bool) :
    Sound { h with interruption := { h.interruption with blocking } } :=
  ⟨hs.signum, hs.late, hs.events, hs.live, hs.failing, hs.nextPid⟩

/-- Nothing is marked as blocking between two operations. -/
def Unmarked (h : Host Forked) : Prop := Sound h ∧ h.interruption.blocking = false

theorem Continued.unmarked (ht : Continued h t) (hb : h.interruption.blocking = false) :
    Unmarked t :=
  ⟨ht.sound, ht.blocking.trans hb⟩

/-- A signal that is late for a marked wait is raised at its end, where nobody minds it. -/
theorem ensures_blocking_collectAny (hs : Sound h) : Ensures (Host.blocking collectAny)
    (fun done t => Unmarked t ∧ Completion.isStatusWord done.1.2.1 = true)
    (fun f t => Unmarked t ∧ (isInterrupted f = true ∨ f = .raised ProcessTable.noChildren)) h := by
  simp only [Host.blocking, Host.setBlocking, ensures_ensuring, ensures_bind, ensures_modify]
  refine (ensures_collectAny_sound (hs.mark true)).mono ?_
    fun _ _ ht => ⟨⟨ht.1.sound.mark false, rfl⟩, ht.2.imp And.left And.left⟩
  rintro done t ⟨ht, hword, _⟩
  rw [ensures_bind, ensures_attempt]
  simp only [Host.deliverLate, ensures_bind, ensures_get]
  split
  · exact ⟨⟨ht.sound.mark false, rfl⟩, hword⟩
  · next n hlate =>
    have hn := ht.sound.late n hlate
    have hs' : Sound { t with interruption := { t.interruption with late := none } } :=
      { ht.sound with late := fun m hm => absurd hm (Option.not_mem_none m) }
    rw [ensures_bind, ensures_modify, Host.ensures_deliver_of_handled hn]
    split
    · exact ⟨⟨(hs'.signal hn).mark false, rfl⟩, hword⟩
    · exact ⟨⟨(hs'.signal hn).mark false, rfl⟩, hword⟩

theorem ensures_blockingCollect_sound (hu : Unmarked h) : Ensures blockingCollect
    (fun done t => Unmarked t ∧ Completion.isStatusWord done.2.1 = true)
    (fun f t => Unmarked t ∧ (isInterrupted f = true ∨ f = .raised ProcessTable.noChildren)) h := by
  simp only [blockingCollect, ensures_bind, ensures_get]
  split
  · rw [ensures_bind]
    exact ensures_blocking_collectAny hu.1
  · exact (ensures_collectAny_sound hu.1).mono (fun _ _ ht => ⟨ht.1.unmarked hu.2, ht.2.1⟩)
      fun _ _ ht => ⟨ht.1.unmarked hu.2, ht.2.imp And.left And.left⟩

theorem ensures_completion {done : Int × Int × Usage} {Q : Completion → Host Forked → Prop}
    {E : Failure → Host Forked → Prop} (hword : Completion.isStatusWord done.2.1 = true)
    (hQ : ∀ d, d.pid = some done.1 → Q d h) : Ensures (completion done) Q E h := by
  obtain ⟨d, hd⟩ := Completion.exists_decode done.1 (some done.2.2) hword
  rw [completion, hd]
  exact hQ d (Completion.decode_pid hd)

theorem exists_of_isInterrupted {f : Failure} (hf : isInterrupted f = true) :
    ∃ q, f = .raised q ∧ q.isInterrupted = true := by
  cases f with
  | fault => cases hf
  | raised q => exact ⟨q, rfl, hf⟩

theorem ensures_waitAny_sound (hu : Unmarked h) : Ensures waitAny
    (fun d? t => Unmarked t ∧ ∀ d ∈ d?, d.pid.isSome)
    (fun f t => Unmarked t ∧ ∃ q, f = .raised q ∧ q.isInterrupted = true) h := by
  simp only [waitAny, ensures_bind, ensures_attempt]
  refine (ensures_blockingCollect_sound hu).mono ?_ ?_
  · rintro done t ⟨ht, hword⟩
    rw [ensures_bind]
    refine ensures_completion hword fun d hd => ⟨ht, fun d' hd' => ?_⟩
    cases hd'
    rw [hd]
    rfl
  · rintro f t ⟨ht, hf | rfl⟩
    · rw [ensures_ite]
      split
      · exact ⟨ht, fun d hd => absurd hd (Option.not_mem_none d)⟩
      · exact ⟨ht, exists_of_isInterrupted hf⟩
    · rw [if_pos isNoChild_noChildren]
      exact ⟨ht, fun d hd => absurd hd (Option.not_mem_none d)⟩

/-- A wait for one child is not marked, and fails only if there is no such child. -/
theorem ensures_wait_sound (hu : Unmarked h) (hpid : pid ≠ anyPid) : Ensures (wait pid)
    (fun _ t => Unmarked t) (fun f t => Unmarked t ∧ f = .raised ProcessTable.noChildren) h := by
  simp only [wait, if_neg hpid, ensures_bind, collectOne, ensures_get]
  cases hlive : h.backend.table.live.lookup pid with
  | none => exact ⟨hu, rfl⟩
  | some word =>
    have hword := hu.1.live _ (List.mem_of_lookup hlive)
    dsimp only
    rw [ensures_ite]
    split
    · exact ⟨hu, rfl⟩
    · refine ensures_completion hword fun d _ => ⟨{ hu.1 with live := fun x hx => ?_ }, hu.2⟩
      exact hu.1.live x (List.mem_of_mem_eraseP hx)

/-- Each wait uses up an event or a child, so that the fuel lasts until no child is left. -/
theorem ensures_drainFrom (fuel : Nat) (n : Int) (hu : Unmarked h) (hfuel : patience h < fuel) :
    Ensures (drainFrom fuel n) (fun _ t => Unmarked t ∧ t.backend.alive = 0) (fun _ _ => False)
      h := by
  induction fuel generalizing n h with
  | zero => exact absurd hfuel (Nat.not_lt_zero _)
  | succ fuel ih =>
    simp only [drainFrom, ensures_bind, ensures_attempt]
    refine (ensures_collectAny_sound hu.1).mono ?_ ?_
    · rintro done t ⟨ht, _, hlt⟩
      exact ih _ (ht.unmarked hu.2) (by omega)
    · rintro f t ⟨ht, ⟨hf, hlt⟩ | ⟨rfl, hlive⟩⟩
      · rw [if_pos hf]
        exact ih _ (ht.unmarked hu.2) (by omega)
      · rw [if_neg (Bool.eq_false_iff.1 isInterrupted_noChildren),
          if_pos isNoChild_noChildren]
        refine ⟨ht.unmarked hu.2, ?_⟩
        rw [alive, hlive]
        rfl

theorem ensures_start_sound (hu : Unmarked h) (l : Siblings Case) (c : Case) : Ensures (start l c)
    (fun pid t => Unmarked t ∧ pid ≠ anyPid)
    (fun f t => Unmarked t ∧ ∃ q, f = .raised q ∧ q.isSystem = true) h := by
  obtain ⟨hs, hblocking⟩ := hu
  simp only [start, updateTable, ensures_bind, ensures_get, ensures_modify]
  split
  · next q hq =>
    exact ⟨⟨{ hs with }, hblocking⟩, q, rfl, hs.failing _ (List.mem_of_lookup hq)⟩
  · have hnext := hs.nextPid
    refine ⟨⟨{ hs with live := fun x hx => ?_, nextPid := ?_ }, hblocking⟩, ?_⟩
    · rcases List.mem_append.1 hx with hx | hx
      · exact hs.live x hx
      · rw [List.mem_singleton.1 hx]
        exact isStatusWord_childWord c h
    · exact Int.le_add_one hnext
    · exact fun heq => absurd (heq ▸ hnext) (by decide)

/-- Children over a process table are yielding. -/
theorem yielding : launcher.Yielding (fun _ => True) Unmarked (· ≠ anyPid) alive where
  unaffected _ _ _ _ hu := ⟨{ hu.1 with }, hu.2⟩
  unmarked _ hu := hu.2
  describes _ hu := Interruption.describe_of_handled hu.1.signum
  start l c h hu _ := ((ensures_start_sound hu l c).and (insistent.start l c h)).mono
    (fun _ _ => and_right_comm.1) fun _ _ => and_right_comm.1
  waitAny h hu := ((ensures_waitAny_sound hu).and (insistent.waitAny h)).mono
    (fun _ _ => and_right_comm.1) fun _ _ => and_right_comm.1
  wait pid h hu hpid := (ensures_wait_sound hu hpid).mono (fun _ _ ht => ht)
    fun _ _ ht => ⟨ht.1, _, ht.2, .inl isNoChild_noChildren⟩
  kill _ _ hu _ := hu
  drain h hu := by
    simp only [launcher, drain, ensures_bind, ensures_get]
    exact ensures_drainFrom _ _ hu (Nat.lt_succ_self _)

end Forked
end RankRunner
