import RankRunner.Proofs.Launcher.Journal
import RankRunner.Proofs.Schedule.Children
import RankRunner.Proofs.Schedule.Upto

/-! # A schedule in chunks and its journal

The invariant of a schedule in chunks, in terms of the list and of what the journal of the
launcher tells since the schedule began. `Underway l₀ limit r k J l` holds of the list `l`, which
was `l₀` before, when the schedule has come to the place `k` of the rank `r` and the journal says
`J`. There is one lemma for each thing that can happen: an item is gone by, skipped, started or
refused, a completion is noted or ends a case, and a rank ends. -/

namespace RankRunner

namespace Completion

/-- Only an exit with code zero is a success. -/
theorem result_eq_success_iff {d : Completion} :
    Status.mk d.result = .success ↔ d.signal = none ∧ d.exit = some 0 := by
  unfold result
  cases d.signal with
  | some n => simp [Status.success, Status.aborted]
  | none =>
    cases d.exit with
    | none => simp [Status.success, Status.aborted]
    | some n => simp [Status.success]

end Completion

namespace Schedule

open Siblings

variable {σ : Type} {J J' : Journal σ} {e : Journal.Entry σ} {l₀ l : Siblings Case} {limit : Nat}
  {r : Int} {k : Nat} {c₀ c : Case}

/-- What has become of a case that the schedule has passed. Only cases of the rank at hand are
running. -/
inductive Outcome (J : Journal σ) (r : Int) (c₀ c : Case) : Prop where
  | skipped (starts : J.starts c₀.id = []) (status : c.status = .skipped) (pid : c.pid = none)
  | refused (starts : J.starts c₀.id = [none]) (notRun : c.notRun = true) (pid : c.pid = none)
  | running (n : Int) (starts : J.starts c₀.id = [some n]) (pid : c.pid = some n)
    (rank : c₀.rank = r)
  | ended (d : Completion) (ended : J.Ended c₀.id d) (status : c.status = ⟨d.result⟩)
    (pid : c.pid = none)

structure Passed (J : Journal σ) (r : Int) (c₀ c : Case) : Prop where
  id : c.id = c₀.id
  rank : c.rank = c₀.rank
  outcome : Outcome J r c₀ c

structure Ahead (J : Journal σ) (c₀ c : Case) : Prop where
  eq : c = c₀
  starts : J.starts c₀.id = []

theorem Passed.append (h : Passed J r c₀ c) (h' : J'.starts c₀.id = []) :
    Passed (J ++ J') r c₀ c := by
  refine ⟨h.id, h.rank, ?_⟩
  cases h.outcome with
  | skipped hs hst hp => exact .skipped (by simp [hs, h']) hst hp
  | refused hs hn hp => exact .refused (by simp [hs, h']) hn hp
  | running n hs hp hr => exact .running n (by simp [hs, h']) hp hr
  | ended d hd hst hp => exact .ended d (hd.append h') hst hp

theorem Ahead.append (h : Ahead J c₀ c) (h' : J'.starts c₀.id = []) : Ahead (J ++ J') c₀ c :=
  ⟨h.eq, by simp [h.starts, h']⟩

/-- What is not running stays as it is when the rank changes. -/
theorem Passed.of_pid (h : Passed J r c₀ c) (hp : c.pid = none) (r' : Int) :
    Passed J r' c₀ c := by
  refine ⟨h.id, h.rank, ?_⟩
  cases h.outcome with
  | skipped hs hst hp => exact .skipped hs hst hp
  | refused hs hn hp => exact .refused hs hn hp
  | running n _ hn _ => rw [hp] at hn; cases hn
  | ended d hd hst hp => exact .ended d hd hst hp

/-- A case that succeeded and is not running is green. -/
theorem Passed.green (h : Passed J r c₀ c) (hp : c.pid = none) (hs : c.succeeded = true) :
    J.Green c₀.id := by
  simp only [Item.succeeded, Bool.and_eq_true, beq_iff_eq, Bool.not_eq_true'] at hs
  cases h.outcome with
  | skipped _ hst _ => rw [hs.1] at hst; cases hst
  | refused _ hn _ => rw [hs.2] at hn; cases hn
  | running n _ hn _ => rw [hp] at hn; cases hn
  | ended d hd hst _ => exact ⟨d, hd, Completion.result_eq_success_iff.1 (hst ▸ hs.1)⟩

/-- A case may be started: fewer than `limit` children are started and not reaped, all of them of
its rank, and everything it depends on was reaped and succeeded. -/
structure MayStart (l₀ : Siblings Case) (limit : Nat) (before : Journal σ) (l : Siblings Case)
    (b : Case) : Prop where
  mem : b ∈ l₀.items
  ids : l.ids = l₀.ids
  pids : l.pids = before.unreaped
  live_lt : l.live.length < limit
  rank : ∀ a ∈ l.live, a.rank = b.rank
  needs : ∀ t ∈ b.needs, ∃ a ∈ l.items, a.id = t ∧ a.pid = none ∧ a.status = .success ∧
    a.notRun = false ∧ before.Green t

/-- An entry is in order if no more than `limit` children are left, and a case that was started
could be. -/
def InOrder (l₀ : Siblings Case) (limit : Nat) (before : Journal σ) (e : Journal.Entry σ) : Prop :=
  Multiset.card (before ++ [e]).unreaped ≤ limit ∧
    ∀ l b answer, e.act = .start l b answer → MayStart l₀ limit before l b

structure Underway (l₀ : Siblings Case) (limit : Nat) (r : Int) (k : Nat) (J : Journal σ)
    (l : Siblings Case) : Prop where
  order : J.Each (InOrder l₀ limit)
  others : ∀ id ∉ l₀.ids, J.starts id = []
  upto : l₀.Upto l (Passed J r) (Ahead J) r k
  pids : l.pids = J.unreaped
  outstanding : l.outstanding = Multiset.card J.unreaped
  card_le : Multiset.card J.unreaped ≤ limit

namespace Underway

theorem start_of_idle (hr : l₀.Ranked) (hidle : ∀ c ∈ l₀.items, c.Idle)
    (ho : l₀.outstanding = 0) : Underway (σ := σ) l₀ limit 0 0 [] l₀ := by
  refine ⟨Journal.each_nil, fun _ _ => rfl, .start hr fun c _ => ⟨rfl, rfl⟩, ?_, ho,
    Nat.zero_le _⟩
  rw [Journal.unreaped_nil, Multiset.eq_zero_iff_forall_notMem]
  intro pid hpid
  obtain ⟨c, hc, hp⟩ := mem_pids.1 hpid
  rw [(hidle c hc).pid] at hp
  cases hp

theorem live_length (h : Underway l₀ limit r k J l) : l.outstanding = l.live.length := by
  rw [h.outstanding, ← h.pids, card_pids]

/-- The case at a place is what it was, or has been passed. -/
theorem related (h : Underway l₀ limit r k J l) {p : Nat} (hc : l.items[p]? = some c) :
    ∃ c₀, l₀.items[p]? = some c₀ ∧ c.id = c₀.id ∧ c.rank = c₀.rank ∧
      (Passed J r c₀ c ∨ Ahead J c₀ c) := by
  obtain ⟨c₀, hc₀, ⟨_, hpassed⟩ | ⟨_, hahead⟩⟩ := h.upto.original hc
  · exact ⟨c₀, hc₀, hpassed.id, hpassed.rank, .inl hpassed⟩
  · exact ⟨c₀, hc₀, by rw [hahead.eq], by rw [hahead.eq], .inr hahead⟩

/-- A running case has been passed, and is of the rank at hand. -/
theorem running (hidle : ∀ c ∈ l₀.items, c.Idle) (h : Underway l₀ limit r k J l) {p : Nat}
    (hc : l.items[p]? = some c) {pid : Int} (hp : c.pid = some pid) :
    ∃ c₀, l₀.items[p]? = some c₀ ∧ c.id = c₀.id ∧ c.rank = c₀.rank ∧ c₀.rank = r ∧
      Past r k p c₀ ∧ J.starts c₀.id = [some pid] := by
  obtain ⟨c₀, hc₀, ⟨hpast, hpassed⟩ | ⟨_, hahead⟩⟩ := h.upto.original hc
  swap
  · rw [hahead.eq, (hidle c₀ (List.mem_of_getElem? hc₀)).pid] at hp
    cases hp
  refine ⟨c₀, hc₀, hpassed.id, hpassed.rank, ?_⟩
  cases hpassed.outcome with
  | running n hs hn hr =>
    cases hp.symm.trans hn
    exact ⟨hr, hpast, hs⟩
  | skipped _ _ hn | refused _ _ hn | ended _ _ _ hn => rw [hp] at hn; cases hn

/-- The cases at other places than that of a case are not touched by entries about it. -/
theorem starts_of_ne (h : l₀.ids.Nodup) (hc₀ : l₀.items[k]? = some c₀)
    (he : ∀ id, id ≠ c₀.id → J'.starts id = []) :
    ∀ p b₀, p ≠ k → l₀.items[p]? = some b₀ → J'.starts b₀.id = [] :=
  fun _ _ hp hb₀ => he _ (id_ne_of_ne h hb₀ hc₀ hp)

/-- The case at the place at hand is passed. The journal may go on about it, but about no other. -/
theorem pass (hr : l₀.Ranked) (h : Underway l₀ limit r k J l) (hc₀ : l₀.items[k]? = some c₀)
    (hrank : c₀.rank = r) (J' : Journal σ) (f : Case → Case) (n : Int)
    (horder : (J ++ J').Each (InOrder l₀ limit))
    (he : ∀ id, id ≠ c₀.id → J'.starts id = [])
    (hf : Passed (J ++ J') r c₀ (f c₀))
    (hpids : (l.modify k f).pids = (J ++ J').unreaped)
    (hout : l.outstanding + n = Multiset.card (J ++ J').unreaped)
    (hcard : Multiset.card (J ++ J').unreaped ≤ limit) :
    Underway l₀ limit r (k + 1) (J ++ J')
      { l.modify k f with outstanding := l.outstanding + n } := by
  obtain ⟨c, hc, ha⟩ := h.upto.at_place hc₀ (Int.le_of_eq hrank.symm)
  have hmem := List.mem_map_of_mem (f := WorkItem.id) (List.mem_of_getElem? hc₀)
  refine ⟨horder, fun id hid => ?_, ?_, hpids, hout, hcard⟩
  · rw [Journal.starts_append, h.others id hid, he id, List.append_nil]
    rintro rfl
    exact hid hmem
  · have hne := starts_of_ne hr.nodup hc₀ he
    refine h.upto.pass hc₀ hrank modify_length (fun p hp => modify_getElem?_of_ne hp)
      (modify_getElem? hc) (ha.eq ▸ hf) (fun p b₀ b hp hb₀ hb => ?_) fun p b₀ b hp hb₀ hb => ?_
    · exact hb.append (hne p b₀ hp hb₀)
    · exact hb.append (hne p b₀ hp hb₀)

theorem go_by (h : Underway l₀ limit r k J l) (hc : l.items[k]? = some c) (hne : c.rank ≠ r) :
    Underway l₀ limit r (k + 1) J l := by
  obtain ⟨c₀, hc₀, _, hrank, _⟩ := h.related hc
  refine { h with upto := h.upto.go_by fun a₀ ha₀ => ?_ }
  cases hc₀.symm.trans ha₀
  exact hrank ▸ hne

/-- The processes of the list without the case at hand, which is not running. -/
theorem pids_modify (hidle : ∀ c ∈ l₀.items, c.Idle) (hc₀ : l₀.items[k]? = some c₀)
    (h : Underway l₀ limit r k J l) (hrank : c₀.rank = r) (f : Case → Case) :
    (l.modify k f).pids = (f c₀).pid.toList + J.unreaped := by
  obtain ⟨c, hc, ha⟩ := h.upto.at_place hc₀ (Int.le_of_eq hrank.symm)
  obtain ⟨others, hl, hmod⟩ := exists_pids_modify (ha.eq ▸ hc)
  rw [hmod, ← h.pids, hl, (hidle c₀ (List.mem_of_getElem? hc₀)).pid]
  simp

theorem skip (hr : l₀.Ranked) (hidle : ∀ c ∈ l₀.items, c.Idle) (hc₀ : l₀.items[k]? = some c₀)
    (h : Underway l₀ limit r k J l) (hrank : c₀.rank = r) :
    Underway l₀ limit r (k + 1) J (l.modify k WorkItem.skip) := by
  have hpid := (hidle c₀ (List.mem_of_getElem? hc₀)).pid
  obtain ⟨_, _, ha⟩ := h.upto.at_place hc₀ (Int.le_of_eq hrank.symm)
  have hpass := h.pass hr hc₀ hrank [] WorkItem.skip 0
  simp only [List.append_nil, Int.add_zero] at hpass
  refine hpass h.order (fun _ _ => rfl) ⟨rfl, rfl, .skipped ha.starts rfl hpid⟩ ?_ h.outstanding
    h.card_le
  rw [h.pids_modify hidle hc₀ hrank]
  change (↑c₀.pid.toList : Multiset Int) + _ = _
  simp [hpid]

theorem start (hr : l₀.Ranked) (hidle : ∀ c ∈ l₀.items, c.Idle) (hc₀ : l₀.items[k]? = some c₀)
    (h : Underway l₀ limit r k J l) (hrank : c₀.rank = r) {siblings : Siblings Case} {pid : Int}
    (hmay : MayStart l₀ limit J siblings c₀) (he : e.act = .start siblings c₀ (.ok pid))
    (t : Timestamp) :
    Underway l₀ limit r (k + 1) (J ++ [e])
      { l.modify k (·.started t pid) with outstanding := l.outstanding + 1 } := by
  obtain ⟨_, _, ha⟩ := h.upto.at_place hc₀ (Int.le_of_eq hrank.symm)
  have hun : (J ++ [e]).unreaped = pid ::ₘ J.unreaped := by rw [Journal.unreaped_snoc, he]; rfl
  have hlt : Multiset.card J.unreaped < limit := by
    rw [← hmay.pids, card_pids]
    exact hmay.live_lt
  have hcard : Multiset.card (J ++ [e]).unreaped ≤ limit := by
    rw [hun, Multiset.card_cons]
    omega
  refine h.pass hr hc₀ hrank [e] (·.started t pid) 1 (h.order.snoc ⟨hcard, fun _ _ _ h => ?_⟩)
    (fun id hid => ?_) ⟨rfl, rfl, .running pid ?_ rfl hrank⟩ ?_ ?_ hcard
  · cases he.symm.trans h
    exact hmay
  · rw [Journal.starts_of_start he, if_neg hid.symm]
  · rw [Journal.starts_append, ha.starts, Journal.starts_of_start he, if_pos rfl]
    rfl
  · rw [hun, h.pids_modify hidle hc₀ hrank]
    rfl
  · rw [hun, Multiset.card_cons, h.outstanding]
    rfl

theorem refuse (hr : l₀.Ranked) (hidle : ∀ c ∈ l₀.items, c.Idle) (hc₀ : l₀.items[k]? = some c₀)
    (h : Underway l₀ limit r k J l) (hrank : c₀.rank = r) {siblings : Siblings Case} {f : Failure}
    (hmay : MayStart l₀ limit J siblings c₀) (he : e.act = .start siblings c₀ (.error f))
    (t t' : Timestamp) :
    Underway l₀ limit r (k + 1) (J ++ [e]) (l.modify k (·.refused t t')) := by
  have hpid := (hidle c₀ (List.mem_of_getElem? hc₀)).pid
  obtain ⟨_, _, ha⟩ := h.upto.at_place hc₀ (Int.le_of_eq hrank.symm)
  have hun : (J ++ [e]).unreaped = J.unreaped := by rw [Journal.unreaped_snoc, he]; rfl
  have hpass := h.pass hr hc₀ hrank [e] (·.refused t t') 0
  simp only [Int.add_zero] at hpass
  refine hpass (h.order.snoc ⟨hun ▸ h.card_le, fun _ _ _ h => ?_⟩) (fun id hid => ?_)
    ⟨rfl, rfl, .refused ?_ rfl hpid⟩ ?_ (hun ▸ h.outstanding) (hun ▸ h.card_le)
  · cases he.symm.trans h
    exact hmay
  · rw [Journal.starts_of_start he, if_neg hid.symm]
  · rw [Journal.starts_append, ha.starts, Journal.starts_of_start he, if_pos rfl]
    rfl
  · rw [hun, h.pids_modify hidle hc₀ hrank]
    change (↑c₀.pid.toList : Multiset Int) + _ = _
    simp [hpid]

/-- An entry that neither starts nor reaps a child leaves everything as it is. -/
theorem keep (h : Underway l₀ limit r k J l) (hs : e.act.started? = none)
    (hu : e.act.unreaped J.unreaped = J.unreaped) : Underway l₀ limit r k (J ++ [e]) l := by
  have hstarts : ∀ id, Journal.starts [e] id = [] := fun id => Journal.starts_of_started? hs
  have hunreaped : (J ++ [e]).unreaped = J.unreaped := by rw [Journal.unreaped_snoc, hu]
  refine ⟨h.order.snoc ⟨hunreaped ▸ h.card_le, fun l b a he => ?_⟩, fun id hid => ?_, ?_, ?_, ?_, ?_⟩
  · rw [he] at hs; cases hs
  · rw [Journal.starts_append, h.others id hid, hstarts, List.append_nil]
  · exact h.upto.mono (fun _ _ _ _ hp => hp.append (hstarts _)) fun _ _ _ _ ha =>
      ha.append (hstarts _)
  · rw [hunreaped, h.pids]
  · rw [hunreaped, h.outstanding]
  · rw [hunreaped]; exact h.card_le

/-- A completion ends a case. -/
theorem complete (hidle : ∀ c ∈ l₀.items, c.Idle) (h : Underway l₀ limit r k J l) {p : Nat}
    (hc : l.items[p]? = some c) {d : Completion} {pid : Int} (hpid : d.pid = some pid)
    (hcp : c.pid = some pid) (hd : d.stopped = false)
    (he : e.act = .waitAny (.ok (some d))) (t : Timestamp) :
    Underway l₀ limit r k (J ++ [e])
      { l.modify p (·.completed t d) with outstanding := l.outstanding - 1 } := by
  obtain ⟨c₀, hc₀, hid, hrank, _, hpast, hstarts⟩ := h.running hidle hc hcp
  have hnone : ∀ id, Journal.starts [e] id = [] :=
    fun id => Journal.starts_of_started? (by rw [he]; rfl)
  obtain ⟨others, hl, hmod⟩ := exists_pids_modify hc
  have hun : (J ++ [e]).unreaped = others := by
    rw [Journal.unreaped_snoc, he, ← h.pids, hl, hcp]
    simp [Act.unreaped, hd, hpid]
  have hcard : Multiset.card J.unreaped = Multiset.card others + 1 := by
    rw [← h.pids, hl, hcp]
    simp
  have hle := h.card_le
  refine ⟨h.order.snoc ⟨?_, fun l b a ha => ?_⟩, fun id hid => ?_, ?_, ?_, ?_, ?_⟩
  · rw [hun]; omega
  · rw [he] at ha; cases ha
  · rw [Journal.starts_append, h.others id hid, hnone, List.append_nil]
  · refine h.upto.revise modify_length (fun q hq => modify_getElem?_of_ne hq) (fun b₀ hb₀ => ?_)
      (fun _ _ _ _ _ _ hp => hp.append (hnone _)) fun _ _ ha => ha.append (hnone _)
    cases hc₀.symm.trans hb₀
    refine ⟨hpast, _, modify_getElem? hc, hid, hrank, .ended d ?_ rfl rfl⟩
    exact .of_received hstarts (hnone _) (by simp [Journal.received, he, Act.received?]) hpid hd
  · rw [hun]
    exact (hmod _).trans (by simp [Case.completed])
  · rw [hun]
    have := h.outstanding
    change l.outstanding - 1 = _
    omega
  · rw [hun]; omega

/-- When nothing is running, the next rank can begin. -/
theorem next (h : Underway l₀ limit r l₀.items.length J l) (hlive : l.live = []) :
    Underway l₀ limit (r + 1) 0 J l := by
  refine ⟨h.order, h.others, ?_, h.pids, h.outstanding, h.card_le⟩
  exact h.upto.next.mono (fun c₀ _ c hc hp => hp.of_pid (pid_of_live hlive c hc) _)
    fun _ _ _ _ ha => ha

theorem ids (h : Underway l₀ limit r k J l) : l.ids = l₀.ids :=
  h.upto.ids (fun _ _ h => h.id) fun _ _ h => by rw [h.eq]

/-- What is due may be started. -/
theorem mayStart (hidle : ∀ c ∈ l₀.items, c.Idle) (hr : l₀.Ranked)
    (h : Underway l₀ limit r k J l) (hc₀ : l₀.items[k]? = some c₀) (hrank : c₀.rank = r)
    (hlive : l.live.length < limit) (hdue : l.satisfiesAll c₀.toItem = true) (t : Timestamp) :
    MayStart l₀ limit J (l.modify k (·.stamped t)) c₀ := by
  have hmem := List.mem_of_getElem? hc₀
  obtain ⟨c, hc, _⟩ := h.upto.at_place hc₀ (Int.le_of_eq hrank.symm)
  obtain ⟨others, hl, hmod⟩ := exists_pids_modify hc
  have hpids : (l.modify k (·.stamped t)).pids = l.pids := by rw [hl, hmod]; rfl
  have hid₀ (a₀ a : Case) (h : Passed J r a₀ a) : WorkItem.id a = WorkItem.id a₀ := h.id
  have hid₁ (a₀ a : Case) (h : Ahead J a₀ a) : WorkItem.id a = WorkItem.id a₀ := by rw [h.eq]
  refine ⟨hmem, ?_, hpids.trans h.pids, ?_, fun a ha => ?_, fun t' ht' => ?_⟩
  · exact (ids_modify (f := (·.stamped t)) (fun _ => rfl) k).trans h.ids
  · rw [← card_pids, hpids, card_pids]
    exact hlive
  · obtain ⟨ha, hp⟩ := List.mem_filter.1 ha
    obtain ⟨pid, hpid⟩ := Option.isSome_iff_exists.1 hp
    obtain ⟨b, hb, hbp, hbr⟩ : ∃ b ∈ l.items, b.pid = some pid ∧ b.rank = a.rank := by
      rcases List.mem_modify ha with ha | ⟨b, hb, rfl⟩
      · exact ⟨a, ha, hpid, rfl⟩
      · exact ⟨b, hb, hpid, rfl⟩
    obtain ⟨p, hp'⟩ := List.mem_iff_getElem?.1 hb
    obtain ⟨b₀, _, _, hrb, hr₀, _⟩ := h.running hidle hp' hbp
    rw [← hbr, hrb, hr₀, hrank]
  · obtain ⟨b₀, _, b, hb, hid, hlt, hpassed, hget⟩ := h.upto.needs_past hr hid₀ hid₁ hmem hrank ht'
    obtain ⟨b', hb', hs⟩ := (satisfiesAll_iff l (hr.resolved c₀ hmem)).1 hdue t' ht'
    cases hget.symm.trans hb'
    have hpid : b.pid = none := by
      cases hpassed.outcome with
      | running _ _ _ hr₀ =>
        rw [Case.workItem_item] at hlt
        omega
      | skipped _ _ hn | refused _ _ hn | ended _ _ _ hn => exact hn
    have hgreen : J.Green t' := hid ▸ hpassed.green hpid hs
    have hbid : b.id = t' := hpassed.id.trans hid
    simp only [Case.workItem_item, Item.succeeded, Bool.and_eq_true, beq_iff_eq,
      Bool.not_eq_true'] at hs
    obtain ⟨p, hp⟩ := List.mem_iff_getElem?.1 hb
    by_cases hpk : p = k
    · subst hpk
      exact ⟨_, List.mem_of_getElem? (modify_getElem? hp), hbid, hpid, hs.1, hs.2, hgreen⟩
    · exact ⟨b, List.mem_of_getElem? ((modify_getElem?_of_ne hpk).trans hp), hbid, hpid, hs.1, hs.2,
        hgreen⟩

end Underway

end Schedule
end RankRunner
