import RankRunner.Proofs.Launcher.ForkedDutiful

/-! # No child is lost to a signal

While children are waited for, they end in some order, and signals to stop may come at any time: as
long as the wait blocks, or when it has its result in hand. A wait that is broken off by a signal
takes no child away, and one that takes a child away answers with its completion, whatever comes in
between (`Forked.ensures_waitAny_lossless`). So however often one waits, the children that are gone
are those of the completions (`Forked.ensures_waits`). -/

namespace RankRunner

open Effect

namespace Forked

variable {h t : Host Forked}

/-- Children end in some order, and signals to stop come. -/
def CancelEvent : WaitEvent → Prop
  | .nothing | .overtakes _ => True
  | .signal n | .late n => n ∈ handledSignals
  | .fails _ | .status .. => False

/-- Blocked waits mark the flag of the run, which signals to stop may set at any time, and each
child ends. -/
structure Cancellable (h : Host Forked) : Prop where
  shares : h.backend.shares = true
  late : ∀ n ∈ h.interruption.late, n ∈ handledSignals
  events : ∀ e ∈ h.backend.table.events, CancelEvent e
  children : ∀ x ∈ h.backend.table.live,
    Completion.isStatusWord x.2 = true ∧ x.2 % 256 ≠ 127

/-- What one wait leaves but for the children. -/
structure Waited (h t : Host Forked) : Prop where
  shares : t.backend.shares = h.backend.shares
  late : ∀ n ∈ t.interruption.late, n ∈ handledSignals
  events : t.backend.table.events = h.backend.table.events.tail
  usages : t.backend.table.usages = h.backend.table.usages

/-- What becomes of the children if the wait takes one away. -/
structure Taken (h : Host Forked) (done : Int × Int × Usage) (t : Host Forked) : Prop where
  live : h.backend.table.live.Perm ((done.1, done.2.1) :: t.backend.table.live)
  usage : done.2.2 = h.backend.table.usage done.1

/-- What becomes of the children if the wait fails. -/
inductive Spared (h t : Host Forked) : Failure → Prop
  | nobody : h.backend.table.live = [] → t.backend.table.live = [] →
    Spared h t (.raised ProcessTable.noChildren)
  | broken (n : Int) : n ∈ handledSignals →
    h.backend.table.events.head? = some (.signal n) → t.interruption.requested = true →
    t.backend.table.live = h.backend.table.live → Spared h t (.raised (.signalled n))

theorem Waited.cancellable (hw : Waited h t) (hh : Cancellable h)
    (hlive : ∀ x ∈ t.backend.table.live, x ∈ h.backend.table.live) : Cancellable t where
  shares := hw.shares.trans hh.shares
  late := hw.late
  events e he := hh.events e (List.mem_of_mem_tail (hw.events ▸ he))
  children x hx := hh.children x (hlive x hx)

/-- Of the children in any order the first is collected. -/
theorem ensures_collect_taken {s : Host Forked} (hw : Waited h s)
    (hp : s.backend.table.live.Perm h.backend.table.live) : Ensures collect
    (fun done t => Waited h t ∧ t.interruption = s.interruption ∧ Taken h done t)
    (fun f t => Waited h t ∧ Spared h t f) s := by
  simp only [collect, ensures_bind, ensures_get]
  split
  · next hlive =>
    exact ⟨hw, .nobody (List.nil_perm.1 (hlive ▸ hp)) hlive⟩
  · next pid word live hlive =>
    refine ⟨⟨hw.shares, hw.late, hw.events, hw.usages⟩, rfl, hp.symm.trans (.of_eq hlive), ?_⟩
    simp only [ProcessTable.usage, hw.usages]

/-- A signal that comes while the wait blocks breaks it off; one that comes later does not. -/
theorem ensures_collectAny_taken (hh : Cancellable h) (hb : h.interruption.blocking = true) :
    Ensures collectAny (fun done t => Waited h t ∧ t.interruption.blocking = true ∧ Taken h done t)
      (fun f t => Waited h t ∧ Spared h t f) h := by
  have hcollect {s : Host Forked} (hw : Waited h s) (hblocking : s.interruption.blocking = true)
      (hp : s.backend.table.live.Perm h.backend.table.live) : Ensures collect
      (fun done t => Waited h t ∧ t.interruption.blocking = true ∧ Taken h done t)
      (fun f t => Waited h t ∧ Spared h t f) s := by
    refine (ensures_collect_taken hw hp).mono ?_ fun _ _ ht => ht
    rintro _ t ⟨ht, hi, htaken⟩
    exact ⟨ht, hi ▸ hblocking, htaken⟩
  simp only [collectAny, ensures_bind, ensures_get, updateTable, ensures_modify]
  cases hev : h.backend.table.events with
  | nil => exact hcollect ⟨rfl, hh.late, by rw [hev], rfl⟩ hb (.refl _)
  | cons e events =>
    have he := hh.events e (hev ▸ List.mem_cons_self)
    have htail : events = h.backend.table.events.tail := by rw [hev, List.tail_cons]
    dsimp only [List.headD_cons, List.tail_cons]
    cases e with
    | nothing => exact hcollect ⟨rfl, hh.late, htail, rfl⟩ hb (.refl _)
    | fails => exact he.elim
    | status => exact he.elim
    | signal n =>
      rw [ensures_bind, Host.ensures_deliver_of_handled he, if_pos hb]
      exact ⟨⟨rfl, hh.late, htail, rfl⟩, .broken n he (by rw [hev, List.head?_cons]) rfl rfl⟩
    | late n =>
      exact hcollect ⟨rfl, fun m hm => Option.some.inj hm ▸ he, htail, rfl⟩ hb (.refl _)
    | overtakes place =>
      exact hcollect ⟨rfl, hh.late, htail, rfl⟩ hb (ProcessTable.overtake_live ..)

/-- A signal that comes when the result is in hand is raised at the end of the marked wait, and
the result is kept. Either way the mark is taken away. -/
theorem ensures_blocking_taken (hh : Cancellable h) : Ensures (Host.blocking collectAny)
    (fun done t => Waited h t ∧ t.interruption.blocking = false ∧ Taken h done.1 t)
    (fun f t => Waited h t ∧ t.interruption.blocking = false ∧ Spared h t f) h := by
  simp only [Host.blocking, Host.setBlocking, ensures_ensuring, ensures_bind, ensures_modify]
  have hmarked : Cancellable h.blocked := ⟨hh.shares, hh.late, hh.events, hh.children⟩
  refine (ensures_collectAny_taken hmarked rfl).mono ?_ ?_
  · rintro done t ⟨hw, hblocking, htaken⟩
    have htaken' (i : Interruption) : Taken h done { t with interruption := i } :=
      ⟨htaken.live, htaken.usage⟩
    rw [ensures_bind, ensures_attempt]
    simp only [Host.deliverLate, ensures_bind, ensures_get]
    split
    · exact ⟨⟨hw.shares, hw.late, hw.events, hw.usages⟩, rfl, htaken' _⟩
    · next n hlate =>
      have hn := hw.late n hlate
      rw [ensures_bind, ensures_modify, Host.ensures_deliver_of_handled hn, if_pos hblocking]
      exact ⟨⟨hw.shares, fun m hm => absurd hm (Option.not_mem_none m), hw.events, hw.usages⟩, rfl,
        htaken' _⟩
  · rintro f t ⟨hw, hspared⟩
    refine ⟨⟨hw.shares, hw.late, hw.events, hw.usages⟩, rfl, ?_⟩
    cases hspared with
    | nobody hbefore hafter => exact .nobody hbefore hafter
    | broken n hn hev hreq hlive => exact .broken n hn hev hreq hlive

/-- How a wait for any child ends: it is broken off and leaves the children as they are, there are
none, or one is taken away and the answer is its completion. -/
inductive Lossless (h t : Host Forked) : Except Failure (Option Completion) → Prop
  | raised (n : Int) : n ∈ handledSignals →
    h.backend.table.events.head? = some (.signal n) → t.interruption.requested = true →
    t.backend.table.live = h.backend.table.live → Lossless h t (.error (.raised (.signalled n)))
  | nobody : h.backend.table.live = [] → t.backend.table.live = [] → Lossless h t (.ok none)
  | collected (pid word : Int) (d : Completion) :
    h.backend.table.live.Perm ((pid, word) :: t.backend.table.live) →
    Completion.decode pid word (some (h.backend.table.usage pid)) = .ok d → d.stopped = false →
    Lossless h t (.ok (some d))

theorem Lossless.mem {r : Except Failure (Option Completion)} (hr : Lossless h t r) {x : Int × Int}
    (hx : x ∈ t.backend.table.live) : x ∈ h.backend.table.live := by
  cases hr with
  | raised _ _ _ _ hlive => rwa [hlive] at hx
  | nobody _ hafter => exact absurd (hafter ▸ hx) List.not_mem_nil
  | collected _ _ _ hp _ _ => exact hp.mem_iff.2 (List.mem_cons_of_mem _ hx)

/-- One wait, however it ends. -/
structure Safe (h t : Host Forked) (r : Except Failure (Option Completion)) : Prop where
  waited : Waited h t
  unmarked : t.interruption.blocking = false
  lossless : Lossless h t r

theorem Safe.cancellable {r : Except Failure (Option Completion)} (hs : Safe h t r)
    (hh : Cancellable h) : Cancellable t :=
  hs.waited.cancellable hh fun _ => hs.lossless.mem

theorem ensures_waitAny_lossless (hh : Cancellable h) :
    Ensures waitAny (fun d? t => Safe h t (.ok d?)) (fun f t => Safe h t (.error f)) h := by
  simp only [waitAny, ensures_bind, ensures_attempt, blockingCollect, ensures_get, hh.shares,
    if_true]
  refine (ensures_blocking_taken hh).mono ?_ ?_
  · rintro ⟨done, _⟩ t ⟨hw, hunmarked, hlive, husage⟩
    have hmem := hlive.mem_iff.2 List.mem_cons_self
    obtain ⟨hword, hends⟩ := hh.children _ hmem
    obtain ⟨d, hd, hstopped⟩ := Completion.exists_decode_ended done.1 (some done.2.2) hword hends
    simp only [ensures_pure, ensures_bind, completion, hd]
    exact ⟨hw, hunmarked, .collected done.1 done.2.1 d hlive (husage ▸ hd) hstopped⟩
  · rintro f t ⟨hw, hunmarked, hspared⟩
    cases hspared with
    | nobody hbefore hafter =>
      rw [if_pos isNoChild_noChildren]
      exact ⟨hw, hunmarked, .nobody hbefore hafter⟩
    | broken n hn hev hreq hlive =>
      simp only [isNoChild_of_isInterrupted (Raised.isInterrupted_signalled n), Bool.false_eq_true,
        if_false]
      exact ⟨hw, hunmarked, .raised n hn hev hreq hlive⟩

/-- The completion that a wait tells of, if any. -/
def told : Except Failure (Option Completion) → List Completion
  | .ok (some d) => [d]
  | _ => []

/-- Wait so often for any child, whatever comes of it, and answer with the completions. -/
def waits : Nat → Effect (Host Forked) (List Completion)
  | 0 => return []
  | n + 1 => do
    let r ← waitAny.attempt
    return told r ++ (← waits n)

/-- The children with the completions that they are decoded to. -/
def Decoded (h : Host Forked) : List (Int × Int) → List Completion → Prop :=
  List.Forall₂ fun x d => Completion.decode x.1 x.2 (some (h.backend.table.usage x.1)) = .ok d

/-- What is gone after a wait is what it tells of. -/
theorem Lossless.exists_gone {r : Except Failure (Option Completion)} (hr : Lossless h t r) :
    ∃ gone, Decoded h gone (told r) ∧
      h.backend.table.live.Perm (gone ++ t.backend.table.live) := by
  cases hr with
  | raised _ _ _ _ hlive => exact ⟨[], .nil, .of_eq hlive.symm⟩
  | nobody hbefore hafter => exact ⟨[], .nil, .of_eq (hbefore.trans hafter.symm)⟩
  | collected pid word d hlive hd _ => exact ⟨[(pid, word)], .cons hd .nil, hlive⟩

/-- The children that are gone after many waits are those that they tell of. -/
theorem ensures_waits (n : Nat) (hh : Cancellable h) : Ensures (waits n)
    (fun ds t => Cancellable t ∧ ∃ gone, Decoded h gone ds ∧
      h.backend.table.live.Perm (gone ++ t.backend.table.live)) (fun _ _ => False) h := by
  induction n generalizing h with
  | zero => exact ⟨hh, [], .nil, .refl _⟩
  | succ n ih =>
    have hrest {t : Host Forked} {r : Except Failure (Option Completion)} (hs : Safe h t r) :
        Ensures (waits n) (fun ds u => Cancellable u ∧ ∃ gone, Decoded h gone (told r ++ ds) ∧
          h.backend.table.live.Perm (gone ++ u.backend.table.live)) (fun _ _ => False) t := by
      obtain ⟨gone, hgone, hlive⟩ := hs.lossless.exists_gone
      refine (ih (hs.cancellable hh)).mono ?_ fun _ _ hf => hf
      rintro ds u ⟨hu, later, hlater, hlive'⟩
      have hlater' : Decoded h later ds := by
        refine hlater.imp fun x d hx => ?_
        rwa [ProcessTable.usage, hs.waited.usages] at hx
      refine ⟨hu, gone ++ later, List.rel_append hgone hlater', ?_⟩
      rw [List.append_assoc]
      exact hlive.trans (hlive'.append_left gone)
    simp only [waits, ensures_bind, ensures_attempt]
    exact (ensures_waitAny_lossless hh).mono (fun _ _ hs => ensures_bind.2 (hrest hs))
      fun _ _ hs => ensures_bind.2 (hrest hs)

end Forked
end RankRunner
