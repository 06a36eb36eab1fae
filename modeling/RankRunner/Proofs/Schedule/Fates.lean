import RankRunner.Proofs.Schedule.BailOut
import RankRunner.Proofs.Schedule.Bounds

/-! # The fates of cases

A schedule in chunks with a yielding launcher ends on its course, or fails before the run is asked
to stop (`ensures_scheduleChunks_watched`). With a bail-out after it, nothing is left running, and
each case has one of four fates (`Underway.fate`). -/

namespace RankRunner.Schedule

open Effect Siblings

variable {σ : Type} {launcher : Launcher σ} {D : Case → Prop} {inv : Host σ → Prop}
  {issued : Int → Prop} {alive : σ → Multiset Int} {J B B' : Journal σ} {l₀ l l' : Siblings Case}
  {limit : Nat} {r : Int} {k : Nat} {c : Case}

/-- What has become of a case after a schedule with the journal `J` and a bail-out with the journal
`B`. It was not dispatched, it could not be started, its child ended and gave it a status, or its
child was still around, was killed and waited for, and the case is aborted. -/
inductive Fate (J B : Journal σ) (c : Case) : Prop where
  | spared (starts : J.starts c.id = [])
  | refused (starts : J.starts c.id = [none]) (notRun : c.notRun = true)
  | ended (d : Completion) (ended : J.Ended c.id d) (status : c.status = ⟨d.result⟩)
  | aborted (n : Int) (starts : J.starts c.id = [some n]) (unreaped : n ∈ J.unreaped)
    (killed : B.Killed n) (awaited : B.Awaited n) (status : c.status = .aborted)

theorem Fate.mono (h : Fate J [] c) (B : Journal σ) : Fate J B c := by
  cases h with
  | spared hs => exact .spared hs
  | refused hs hn => exact .refused hs hn
  | ended d hd hst => exact .ended d hd hst
  | aborted n _ _ hkilled =>
    obtain ⟨_, he, _⟩ := hkilled
    exact absurd he List.not_mem_nil

theorem Cleared.id {c' : Case} (h : Cleared B c c') : c'.id = c.id := by
  cases h <;> rfl

/-- After a bail-out every case has its fate. -/
theorem Underway.fate (hidle : ∀ c ∈ l₀.items, c.Idle) (h : Underway l₀ limit r k J l)
    (hcleared : List.Forall₂ (Cleared B) l.items l'.items) : ∀ c ∈ l'.items, Fate J B c := by
  intro c' hc'
  obtain ⟨c, hc, hcl⟩ := hcleared.exists_of_mem_right hc'
  obtain ⟨p, hp⟩ := List.mem_iff_getElem?.1 hc
  obtain ⟨c₀, hc₀, hid, _, hpa⟩ := h.related hp
  have hrest (hnot : c.pid = none) : c' = c := by
    cases hcl with
    | kept => rfl
    | aborted n _ _ hn => rw [hnot] at hn; cases hn
  rcases hpa with hpassed | hahead
  · cases hpassed.outcome with
    | skipped hs _ hn => exact .spared (hrest hn ▸ hid ▸ hs)
    | refused hs hnot hn => exact .refused (hrest hn ▸ hid ▸ hs) (hrest hn ▸ hnot)
    | ended d hd hst hn => exact .ended d (hrest hn ▸ hid ▸ hd) (hrest hn ▸ hst)
    | running n hs hn _ =>
      cases hcl with
      | kept hnot => rw [hnot] at hn; cases hn
      | aborted m t done hm hkilled hawaited =>
        cases hn.symm.trans hm
        have hmem : n ∈ J.unreaped := h.pids ▸ mem_pids.2 ⟨c, hc, hn⟩
        exact .aborted n (hid ▸ hs) hmem hkilled hawaited rfl
  · have hn : c.pid = none := by
      rw [hahead.eq]
      exact (hidle c₀ (List.mem_of_getElem? hc₀)).pid
    exact .spared (hrest hn ▸ hid ▸ hahead.starts)

/-- Only cases of the list are dispatched. -/
theorem mem_of_dispatched (h : J.Each (InOrder l₀ limit)) (hc : c ∈ J.dispatched) :
    c ∈ l₀.items := by
  obtain ⟨e, he, hact⟩ := List.mem_filterMap.1 hc
  obtain ⟨before, after, _, horder⟩ := h.of_mem he
  unfold Act.dispatched? at hact
  split at hact
  · next l b answer hstart =>
    cases hact
    exact (horder.2 l c answer hstart).mem
  · cases hact

/-- The list when nothing of it is running is as after a bail-out that had nothing to do. -/
theorem cleared_of_live (hlive : l.live = []) : List.Forall₂ (Cleared B) l.items l.items :=
  List.forall₂_same.2 fun c hc => .kept (pid_of_live hlive c hc)

/-- A schedule ends somewhere on its course, and with nothing running unless the run is asked to
stop. It does not fail once the run is asked to stop. -/
theorem ensures_scheduleChunks_watched (yielding : launcher.Yielding D inv issued alive)
    (hr : l.Ranked) (hidle : ∀ c ∈ l.items, c.Idle) (hD : ∀ c ∈ l.items, D c)
    (hout : l.outstanding = 0) (hlimit : 0 < limit) {h : Host (Journaled σ)} (hinv : inv h.plain) :
    Ensures (scheduleChunks launcher.journaled limit)
      (fun _ t => ∃ J r k, t.host.backend.journal = h.backend.journal ++ J ∧
        Launcher.Watched inv issued r J t.host.plain ∧ Underway l limit r k J t.list ∧
        (t.host.requested = false → t.list.live = []))
      (fun _ t => ∃ J, t.host.backend.journal = h.backend.journal ++ J ∧
        ∀ e ∈ J, e.host.requested = false) ⟨l, h⟩ := by
  refine (ensures_scheduleChunks_of_keepsAt yielding.keepsAt hr hidle hD hlimit hout (h := h)
    (.nil hinv)).mono (fun _ t ht => ?_) fun f t ht => ?_
  · rcases ht with ⟨⟨J, hJ, hw, hu⟩, hlive⟩ | hstopped
    · exact ⟨J, _, _, hJ, hw, hu, fun _ => hlive⟩
    · obtain ⟨r, k, J, hJ, hw, hu⟩ := hstopped.somewhere.resolve_right And.left
      refine ⟨J, r, k, hJ, hw, hu, fun hreq => ?_⟩
      rw [hstopped.requested] at hreq
      cases hreq
  · obtain ⟨J, hJ, ⟨r, hw⟩, _⟩ := ht.orderly
    exact ⟨J, hJ, hw.quiet (ht.foreseen.resolve_left id)⟩

end RankRunner.Schedule
