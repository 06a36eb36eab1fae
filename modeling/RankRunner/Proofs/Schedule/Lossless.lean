import RankRunner.Proofs.Launcher.ForkedLossless
import RankRunner.Proofs.Schedule.AnyOrder

/-! # What was collected is recorded

To collect the children of a list while signals to stop may come at any time records the completion
of each child that is taken away on its case, also if the run is asked to stop by the signal that
came with it (`Keeping`). The children that are left outstanding can still be waited for
(`reap_lossless`). -/

namespace RankRunner.Schedule

open Effect Siblings Forked

variable {l : Siblings Case} {h : Host Forked} {s : Scope Case Forked} {c c' : Case} {n : Nat}

/-- The case is as it was, or completed by what its child was decoded to. -/
def Recorded (h : Host Forked) (c c' : Case) : Prop :=
  c' = c ∨ ∃ pid word d time, c.pid = some pid ∧ (pid, word) ∈ h.backend.table.live ∧
    Completion.decode pid word (some (h.backend.table.usage pid)) = .ok d ∧ c' = c.completed time d

/-- The list `l` while its children are collected, `n` of them so far: the children that are alive
are those of the cases that are running. -/
structure Keeping (l : Siblings Case) (h : Host Forked) (n : Nat) (s : Scope Case Forked) : Prop
    extends Reaping (fun _ => True) l n s where
  cancellable : Cancellable s.host
  unmarked : s.host.interruption.blocking = false
  usages : s.host.backend.table.usages = h.backend.table.usages
  sublist : ∀ x ∈ s.host.backend.table.live, x ∈ h.backend.table.live
  pids : s.list.pids = alive s.host.backend
  cases : List.Forall₂ (Recorded h) l.items s.list.items

/-- A case after children were collected. One whose child is gone is completed by what that child
was decoded to. -/
inductive Accounted (h t : Host Forked) (c : Case) : Case → Prop
  | idle : c.pid = none → Accounted h t c c
  | waiting (pid : Int) : c.pid = some pid → pid ∈ alive t.backend → Accounted h t c c
  | recorded (pid word : Int) (d : Completion) (time : Timestamp) : c.pid = some pid →
    (pid, word) ∈ h.backend.table.live → pid ∉ alive t.backend →
    Completion.decode pid word (some (h.backend.table.usage pid)) = .ok d →
    Accounted h t c (c.completed time d)

namespace Keeping

theorem start (hh : Cancellable h) (hunmarked : h.interruption.blocking = false)
    (hpids : l.pids = alive h.backend) (hout : l.Counted) : Keeping l h 0 ⟨l, h⟩ where
  toReaping := Counting.reaping (s := ⟨l, h⟩) ⟨hout, trivial⟩
  cancellable := hh
  unmarked := hunmarked
  usages := rfl
  sublist _ hx := hx
  pids := hpids
  cases := List.forall₂_same.2 fun _ _ => .inl rfl

/-- A wait that takes no child away leaves the list as it is. -/
theorem keep (hk : Keeping l h n s) {t : Host Forked} {r : Except Failure (Option Completion)}
    (hs : Safe s.host t r) (hlive : t.backend.table.live = s.host.backend.table.live) :
    Keeping l h n { s with host := t } where
  toReaping := ⟨⟨hk.counted, trivial⟩, hk.thinned, hk.reaped⟩
  cancellable := hs.cancellable hk.cancellable
  unmarked := hs.unmarked
  usages := hs.waited.usages.trans hk.usages
  sublist x hx := hk.sublist x (hlive ▸ hx)
  pids := by
    rw [alive, hlive]
    exact hk.pids
  cases := hk.cases

/-- The completion of a child that is taken away is recorded. -/
theorem complete (hk : Keeping l h n s) {t : Host Forked} {pid word : Int} {d : Completion}
    (hs : Safe s.host t (.ok (some d)))
    (hlive : s.host.backend.table.live.Perm ((pid, word) :: t.backend.table.live))
    (hd : Completion.decode pid word (some (s.host.backend.table.usage pid)) = .ok d)
    {pos : Nat} (hc : s.list.items[pos]? = some c) (hpid : c.pid = some pid) (time : Timestamp)
    (clock : Clock) (shown : Shown) :
    Keeping l h (n + 1)
      { list := { s.list.modify pos (·.completed time d) with
          outstanding := s.list.outstanding - 1 }
        host := { t with clock, shown } } := by
  have hmem := hk.sublist _ (hlive.mem_iff.2 List.mem_cons_self)
  obtain ⟨others, hothers, hmod⟩ := exists_pids_of_pid hc hpid
  have hcancellable := hs.cancellable hk.cancellable
  refine ⟨hk.toReaping.complete hc (by rw [hpid]; rfl) time d trivial,
    ⟨hcancellable.shares, hcancellable.late, hcancellable.events, hcancellable.children⟩,
    hs.unmarked, hs.waited.usages.trans hk.usages,
    fun x hx => hk.sublist x (hlive.mem_iff.2 (List.mem_cons_of_mem _ hx)), ?_, ?_⟩
  · have halive : alive s.host.backend = pid ::ₘ alive t.backend :=
      Multiset.coe_eq_coe.2 (hlive.map _)
    change (s.list.modify pos _).pids = alive t.backend
    rw [hmod _ rfl]
    exact (Multiset.cons_inj_right pid).1 (hothers.symm.trans (hk.pids.trans halive))
  · refine hk.cases.modify (fun _ _ hab => hab) fun a b hb hab => ?_
    cases hc.symm.trans hb
    rcases hab with rfl | ⟨_, _, _, _, _, _, _, rfl⟩
    · rw [ProcessTable.usage, hk.usages] at hd
      exact .inr ⟨pid, word, d, time, hpid, hmem, hd, rfl⟩
    · cases hpid

/-- All cases, when no more children are waited for. -/
theorem accounted (hk : Keeping l h n s) (hn : l.pids.Nodup) :
    List.Forall₂ (Accounted h s.host) l.items s.list.items := by
  refine List.forall₂_iff_get.2 ⟨hk.cases.length_eq, fun i hi hi' => ?_⟩
  have hc : l.items[i]? = some (l.items.get ⟨i, hi⟩) := List.getElem?_eq_getElem hi
  have hc' : s.list.items[i]? = some (s.list.items.get ⟨i, hi'⟩) := List.getElem?_eq_getElem hi'
  have hrecorded := (List.forall₂_iff_get.1 hk.cases).2 i hi hi'
  generalize l.items.get ⟨i, hi⟩ = c at hc hrecorded ⊢
  generalize s.list.items.get ⟨i, hi'⟩ = c' at hc' hrecorded ⊢
  rcases hrecorded with rfl | ⟨pid, word, d, time, hpid, hmem, hd, rfl⟩
  · cases hpid : c'.pid with
    | none => exact .idle hpid
    | some pid =>
      have hrunning := mem_pids.2 ⟨c', List.mem_of_getElem? hc', hpid⟩
      exact .waiting pid hpid (hk.pids ▸ hrunning)
  · refine .recorded pid word d time hpid hmem (fun hlive => ?_) hd
    -- Another running case would have the same process already at the start.
    rw [← hk.pids] at hlive
    obtain ⟨b, hb, hbpid⟩ := mem_pids.1 hlive
    obtain ⟨j, hj⟩ := List.mem_iff_getElem?.1 hb
    obtain ⟨a, ha, rfl | ⟨_, _, _, _, _, _, _, rfl⟩⟩ := hk.cases.exists_of_getElem? hj
    · cases place_eq_of_pid hn hc ha hpid hbpid
      cases hc'.symm.trans hj
      cases hbpid
    · cases hbpid

end Keeping

theorem ensures_waitAny_keeping {fuel : Nat} (hk : Keeping l h n s)
    (hfuel : patience s.host ≤ fuel) (hout : 0 < s.list.outstanding) :
    Ensures waitAny
      (fun d? host => match d? with
        | none => False
        | some d => Ensures (note d) (fun noted t =>
            Keeping l h (if noted then n + 1 else n) t ∧ patience t.host < fuel)
            (fun _ _ => False) { s with host })
      (fun f host => (Keeping l h n { s with host } ∧ patience host < fuel) ∧
        ∃ r, f = .raised r ∧ r.isInterrupted = true) s.host := by
  have hcounted : s.list.outstanding = s.list.live.length := hk.counted
  have hlen : Multiset.card s.list.pids = s.host.backend.table.live.length := by
    rw [hk.pids, alive, Multiset.coe_card, List.length_map]
  have hrunning : 0 < s.host.backend.table.live.length := by
    have := card_pids (l := s.list)
    omega
  refine (ensures_waitAny_lossless hk.cancellable).mono ?_ ?_
  · intro d? t hs
    have hevents : t.backend.table.events.length ≤ s.host.backend.table.events.length := by
      rw [hs.waited.events, List.length_tail]
      omega
    cases hs.lossless with
    | nobody hbefore _ =>
      rw [hbefore] at hrunning
      exact absurd hrunning (Nat.lt_irrefl 0)
    | collected pid word d hlive hd hstopped =>
      have hpid := Completion.decode_pid hd
      have hless := hlive.length_eq
      have hlt : patience t < fuel := by
        simp only [patience, List.length_cons] at hless hfuel ⊢
        omega
      refine ensures_note (fun hnot => ?_) fun pos c hc hcpid _ shown => ?_
      · have hmem : pid ∈ s.list.pids := by
          rw [hk.pids, alive, Multiset.mem_coe]
          exact List.mem_map_of_mem (hlive.mem_iff.2 List.mem_cons_self)
        obtain ⟨c, hc, hcpid⟩ := mem_pids.1 hmem
        rcases hnot with hnot | hnot
        · exact absurd (hcpid.trans hpid.symm) (hnot c hc)
        · rw [hstopped] at hnot
          cases hnot
      · exact ⟨hk.complete hs hlive hd hc (hcpid.trans hpid) _ _ shown, hlt⟩
  · intro f t hs
    cases hs.lossless with
    | raised n _ hev _ hlive =>
      refine ⟨⟨hk.keep hs hlive, ?_⟩, _, rfl, Raised.isInterrupted_signalled n⟩
      have hevents := hs.waited.events
      cases hall : s.host.backend.table.events with
      | nil =>
        rw [hall] at hev
        cases hev
      | cons e events =>
        rw [hall, List.tail_cons] at hevents
        simp only [patience, hall, hevents, hlive, List.length_cons] at hfuel ⊢
        omega

/-- To collect the children ends only with all of them, or when the run is asked to stop. -/
theorem ensures_reap_keeping (hh : Cancellable h) (hunmarked : h.interruption.blocking = false)
    (hpids : l.pids = alive h.backend) (hout : l.Counted) :
    Ensures (reap launcher) (fun n t => Keeping l h n t ∧ t.list.outstanding = 0)
      (fun f t => (∃ n, Keeping l h n t) ∧ 0 < t.list.outstanding ∧ t.host.requested = true ∧
        ∃ n, f = .fault (.reapIncomplete n)) ⟨l, h⟩ := by
  have hloop : Ensures (reapFrom launcher (launcher.patience h) 0) _ _ ⟨l, h⟩ :=
    ensures_reapFrom_counting (E := fun _ => False)
      (K := fun fuel n t => Keeping l h n t ∧ patience t.host < fuel)
      (R := fun n t => Keeping l h n t ∧ (t.list.outstanding ≤ 0 ∨ t.host.requested = true))
      ?_ ?_ _ 0 _ ⟨.start hh hunmarked hpids hout, Nat.lt_succ_self _⟩
  · refine (ensures_reap_counting hloop).mono ?_ ?_
    · rintro n t ⟨⟨hk, -⟩, hzero⟩
      have hcounted : t.list.outstanding = t.list.live.length := hk.counted
      exact ⟨hk, by omega⟩
    · rintro f t (hf | ⟨⟨n, hk, hend⟩, hleft, hfault⟩)
      · exact hf.elim
      · exact ⟨⟨n, hk⟩, hleft, hend.resolve_left (Int.not_le.2 hleft), hfault⟩
  · rintro fuel n t ⟨hk, hfuel⟩ hstop
    rcases hstop with rfl | hend
    · exact absurd hfuel (Nat.not_lt_zero _)
    · exact ⟨hk, hend⟩
  · rintro fuel n t ⟨hk, hfuel⟩ hleft _
    refine (ensures_waitAny_keeping hk (Nat.le_of_lt_succ hfuel) hleft).mono ?_ ?_
    · rintro (_ | d) host hd
      · exact hd.elim
      · exact hd
    · exact fun f host hf => ⟨hf.1, .inr hf.2⟩

/-- What collecting the children of a list leaves, however it ends. -/
structure Kept (l : Siblings Case) (h : Host Forked) (t : Scope Case Forked) : Prop where
  cases : List.Forall₂ (Accounted h t.host) l.items t.list.items
  counted : t.list.outstanding = t.host.backend.table.live.length
  cancellable : Cancellable t.host
  unmarked : t.host.interruption.blocking = false

theorem Keeping.kept (hk : Keeping l h n s) (hn : l.pids.Nodup) : Kept l h s where
  cases := hk.accounted hn
  counted := by
    have hcounted : s.list.outstanding = s.list.live.length := hk.counted
    rw [hcounted, ← card_pids, hk.pids, alive, Multiset.coe_card, List.length_map]
  cancellable := hk.cancellable
  unmarked := hk.unmarked

/-- Signals to stop may come at any time, and a wait may be broken off by one, but no child is lost
to them. A single wait leaves the children as they are or answers with the completion of the one
that it takes away, and many waits with those of all that are gone. Collecting the children of a
list records them on their cases, also if the run is asked to stop. No mark is left behind that
would raise a signal elsewhere. -/
theorem reap_lossless (hh : Cancellable h) :
    Ensures waitAny (fun d? t => Safe h t (.ok d?)) (fun f t => Safe h t (.error f)) h ∧
    (∀ r t, Safe h t r → Cancellable t ∧ ∀ n, t.Hears n →
      (Host.deliver n).run t = .ok () { t with interruption := t.interruption.signal n }) ∧
    (∀ n, Ensures (waits n) (fun ds t => ∃ gone, Decoded h gone ds ∧
      h.backend.table.live.Perm (gone ++ t.backend.table.live)) (fun _ _ => False) h) ∧
    ∀ l : Siblings Case, l.pids = alive h.backend → l.pids.Nodup → l.outstanding = l.live.length →
      h.interruption.blocking = false →
      Ensures (reap launcher)
        (fun n t => n = l.live.length ∧ t.host.backend.table.live = [] ∧ Kept l h t)
        (fun f t => t.host.requested = true ∧ 0 < t.list.outstanding ∧
          (∃ n, f = .fault (.reapIncomplete n)) ∧ Kept l h t) ⟨l, h⟩ := by
  refine ⟨ensures_waitAny_lossless hh, fun r t hs => ⟨hs.cancellable hh, fun n hn => ?_⟩,
    fun n => ?_, fun l hpids hn hout hunmarked => ?_⟩
  · exact Host.run_deliver_idle hn hs.unmarked
  · exact (ensures_waits n hh).mono (fun _ _ ht => ht.2) fun _ _ hf => hf
  · refine (ensures_reap_keeping hh hunmarked hpids hout).mono ?_ ?_
    · rintro n t ⟨hk, hzero⟩
      have hkept := hk.kept hn
      have hreaped := hk.reaped
      have hcounted : t.list.outstanding = t.list.live.length := hk.counted
      have hempty := hkept.counted
      refine ⟨by omega, List.length_eq_zero_iff.1 (by omega), hkept⟩
    · rintro f t ⟨⟨n, hk⟩, hleft, hreq, hfault⟩
      exact ⟨hreq, hleft, hfault, hk.kept hn⟩

/-- Two children, a signal that comes when the first of them has been collected, and one that breaks
the next wait off. -/
def lateSignalled : Host Forked where
  backend := {
    table := { live := [(11, 768), (12, 9)], events := [.late 2, .signal 15] }
    shares := true }

theorem lateSignalled_cancellable : Cancellable lateSignalled where
  shares := rfl
  late := by decide
  events e he := by
    simp only [lateSignalled, List.mem_cons, List.not_mem_nil, or_false] at he
    rcases he with rfl | rfl
    · exact (by decide : (2 : Int) ∈ handledSignals)
    · exact (by decide : (15 : Int) ∈ handledSignals)
  children := by decide

theorem reap_lossless_pairRunning :
    Cancellable lateSignalled ∧ pairRunning.pids = alive lateSignalled.backend ∧
      ((reap launcher).ending ⟨pairRunning, lateSignalled⟩).list.items.map
        (fun c => (c.pid, c.status.code)) = [(none, 3), (none, 0), (some 12, 0)] ∧
      Ensures (reap launcher)
        (fun n t => n = pairRunning.live.length ∧ t.host.backend.table.live = [] ∧
          Kept pairRunning lateSignalled t)
        (fun f t => t.host.requested = true ∧ 0 < t.list.outstanding ∧
          (∃ n, f = .fault (.reapIncomplete n)) ∧ Kept pairRunning lateSignalled t)
        ⟨pairRunning, lateSignalled⟩ := by
  have hpids : pairRunning.pids = alive lateSignalled.backend := rfl
  have hreap := (reap_lossless lateSignalled_cancellable).2.2.2
  exact ⟨lateSignalled_cancellable, hpids, by decide +kernel,
    hreap pairRunning hpids (by decide) rfl rfl⟩

end RankRunner.Schedule
