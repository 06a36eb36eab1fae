import RankRunner.Proofs.Launcher.Faithful
import RankRunner.Proofs.Schedule.Settled

/-! # A schedule in chunks with a faithful launcher

With a launcher that can be relied on, a schedule in chunks settles all cases, no matter how many
children may be alive at a time and in which order they are reported
(`ensures_scheduleChunks_settled`). While it goes on, each case that was passed is settled, or its
child is pending with the status that it will have. -/

namespace RankRunner.Schedule

open Effect Siblings

variable {σ : Type} {launcher : Launcher σ} {calm : Host σ → Prop}
  {pending : σ → Multiset (Int × Status)} {l₀ l : Siblings Case} {limit : Nat}
  {children : Multiset (Int × Status)} {r : Int} {k : Nat} {c₀ c : Case} {pid : Int}

/-- The child of a case is pending. -/
structure Running (l₀ : Siblings Case) (children : Multiset (Int × Status)) (r : Int)
    (c₀ c : Case) : Prop where
  id : c.id = c₀.id
  rank : c.rank = c₀.rank
  rank_eq : c₀.rank = r
  notRun : c.notRun = false
  ready : l₀.Ready Case.Good c₀
  pending : ∃ pid, c.pid = some pid ∧ (pid, c₀.verdict) ∈ children

def SettledOrRunning (l₀ : Siblings Case) (children : Multiset (Int × Status)) (r : Int)
    (c₀ c : Case) : Prop :=
  Settled l₀ c₀ c ∨ Running l₀ children r c₀ c

/-- The list when the schedule has come to the place `k` of the rank `r`, and `children` are
pending. -/
structure Tended (l₀ : Siblings Case) (children : Multiset (Int × Status)) (r : Int) (k : Nat)
    (l : Siblings Case) : Prop where
  upto : l₀.Upto l (SettledOrRunning l₀ children r) (fun c₀ c => c = c₀) r k
  pids : l.pids = children.map Prod.fst
  nodup : l.pids.Nodup
  outstanding : l.outstanding = Multiset.card children

namespace SettledOrRunning

theorem id (h : SettledOrRunning l₀ children r c₀ c) : c.id = c₀.id := by
  rcases h with h | h
  · exact h.id
  · exact h.id

theorem rank (h : SettledOrRunning l₀ children r c₀ c) : c.rank = c₀.rank := by
  rcases h with h | h
  · exact h.rank
  · exact h.rank

theorem mono (h : SettledOrRunning l₀ children r c₀ c) {children' : Multiset (Int × Status)}
    (hsub : ∀ pid, c.pid = some pid → (pid, c₀.verdict) ∈ children →
      (pid, c₀.verdict) ∈ children') : SettledOrRunning l₀ children' r c₀ c := by
  rcases h with h | h
  · exact .inl h
  · obtain ⟨pid, hpid, hmem⟩ := h.pending
    exact .inr { h with pending := ⟨pid, hpid, hsub pid hpid hmem⟩ }

theorem settled (h : SettledOrRunning l₀ 0 r c₀ c) : Settled l₀ c₀ c := by
  rcases h with h | h
  · exact h
  · obtain ⟨_, _, hmem⟩ := h.pending
    exact absurd hmem (Multiset.notMem_zero _)

end SettledOrRunning

namespace Tended

theorem start_of_idle (hr : l₀.Ranked) (hidle : ∀ c ∈ l₀.items, c.Idle)
    (ho : l₀.outstanding = 0) : Tended l₀ 0 0 0 l₀ := by
  have hpids : l₀.pids = 0 := by
    rw [Multiset.eq_zero_iff_forall_notMem]
    intro pid hmem
    obtain ⟨c, hc, hpid⟩ := mem_pids.1 hmem
    rw [(hidle c hc).pid] at hpid
    cases hpid
  exact ⟨.start hr fun _ _ => rfl, hpids, hpids ▸ Multiset.nodup_zero, ho⟩

theorem next (h : Tended l₀ 0 r l₀.items.length l) : Tended l₀ 0 (r + 1) 0 l :=
  ⟨h.upto.next.mono (fun _ _ _ _ h => .inl h.settled) fun _ _ _ _ h => h, h.pids, h.nodup,
    h.outstanding⟩

theorem satisfiesAll_iff (hr : l₀.Ranked) (h : Tended l₀ children r k l)
    (hc₀ : l₀.items[k]? = some c₀) (hrank : c₀.rank = r) :
    l.satisfiesAll c₀.toItem = true ↔ l₀.Ready Case.Good c₀ := by
  refine h.upto.satisfiesAll_iff_ready hr (fun _ _ h => h.id) (fun _ _ h => by rw [h])
    (fun b₀ hb₀ b hlt hb => ?_) (List.mem_of_getElem? hc₀) hrank
  rcases hb with hb | hb
  · exact hb.succeeded_iff hr.nodup hb₀
  · rw [Case.workItem_item, hb.rank_eq] at hlt
    exact absurd hlt (Int.lt_irrefl r)

theorem skip (hidle : ∀ c ∈ l₀.items, c.Idle) (h : Tended l₀ children r k l)
    (hc₀ : l₀.items[k]? = some c₀) (hrank : c₀.rank = r) (hready : ¬ l₀.Ready Case.Good c₀) :
    Tended l₀ children r (k + 1) (l.modify k WorkItem.skip) := by
  obtain ⟨c, hc, rfl⟩ := h.upto.at_place hc₀ (Int.le_of_eq hrank.symm)
  have hi := hidle c (List.mem_of_getElem? hc₀)
  obtain ⟨others, hl, hmod⟩ := exists_pids_modify hc
  have hpids : (l.modify k WorkItem.skip).pids = l.pids := by
    rw [hl, hmod]
    rfl
  refine ⟨h.upto.pass_modify hc₀ hrank ?_, hpids.trans h.pids, hpids ▸ h.nodup, h.outstanding⟩
  rintro _ rfl
  exact .inl ⟨rfl, rfl, hi.notRun, hi.pid, (if_neg hready).symm⟩

theorem start (hidle : ∀ c ∈ l₀.items, c.Idle) (h : Tended l₀ children r k l)
    (hc₀ : l₀.items[k]? = some c₀) (hrank : c₀.rank = r) (hready : l₀.Ready Case.Good c₀)
    (hpid : pid ∉ children.map Prod.fst) (t : Timestamp) :
    Tended l₀ ((pid, c₀.verdict) ::ₘ children) r (k + 1)
      { l.modify k (·.started t pid) with outstanding := l.outstanding + 1 } := by
  obtain ⟨c, hc, rfl⟩ := h.upto.at_place hc₀ (Int.le_of_eq hrank.symm)
  have hi := hidle c (List.mem_of_getElem? hc₀)
  obtain ⟨others, hl, hmod⟩ := exists_pids_modify hc
  have hpids : (l.modify k (·.started t pid)).pids = pid ::ₘ l.pids := by
    rw [hmod, hl, hi.pid]
    exact (Multiset.singleton_add pid others).trans (congrArg _ (Multiset.zero_add others).symm)
  have hmem : (pid, c.verdict) ∈ (pid, c.verdict) ::ₘ children := Multiset.mem_cons_self ..
  refine ⟨?_, ?_, ?_, ?_⟩
  · refine h.upto.pass hc₀ hrank modify_length (fun p hp => modify_getElem?_of_ne hp)
      (modify_getElem? hc) (.inr ⟨rfl, rfl, hrank, hi.notRun, hready, pid, rfl, hmem⟩)
      (fun _ _ _ _ _ hb => hb.mono fun _ _ hm => Multiset.mem_cons_of_mem hm)
      fun _ _ _ _ _ hb => hb
  · rw [Multiset.map_cons, ← h.pids]
    exact hpids
  · refine (congrArg Multiset.Nodup hpids).mpr (Multiset.nodup_cons.2 ⟨?_, h.nodup⟩)
    rwa [h.pids]
  · have := h.outstanding
    rw [Multiset.card_cons]
    change l.outstanding + 1 = _
    omega

theorem running (hidle : ∀ c ∈ l₀.items, c.Idle) (h : Tended l₀ children r k l) {p : Nat}
    (hc : l.items[p]? = some c) (hcp : c.pid = some pid) :
    ∃ c₀, l₀.items[p]? = some c₀ ∧ Past r k p c₀ ∧ Running l₀ children r c₀ c := by
  have hp : p < l₀.items.length := h.upto.length ▸ (List.getElem?_eq_some_iff.1 hc).1
  have hc₀ := List.getElem?_eq_getElem hp
  generalize l₀.items[p] = c₀ at hc₀
  by_cases hpast : Past r k p c₀
  · obtain ⟨_, hc', hs | hr⟩ := h.upto.past p c₀ hc₀ hpast
    · cases hc.symm.trans hc'
      rw [hs.pid] at hcp
      cases hcp
    · cases hc.symm.trans hc'
      exact ⟨c₀, hc₀, hpast, hr⟩
  · obtain ⟨_, hc', rfl⟩ := h.upto.ahead p c₀ hc₀ hpast
    cases hc.symm.trans hc'
    rw [(hidle c (List.mem_of_getElem? hc₀)).pid] at hcp
    cases hcp

theorem complete (hidle : ∀ c ∈ l₀.items, c.Idle) {status : Status}
    (h : Tended l₀ ((pid, status) ::ₘ children) r k l) {p : Nat} (hc : l.items[p]? = some c)
    (hcp : c.pid = some pid) {d : Completion} (hd : status = ⟨d.result⟩) (t : Timestamp) :
    Tended l₀ children r k
      { l.modify p (·.completed t d) with outstanding := l.outstanding - 1 } := by
  obtain ⟨c₀, hc₀, hpast, hrun⟩ := h.running hidle hc hcp
  obtain ⟨others, hl, hmod⟩ := exists_pids_of_pid hc hcp
  have hnodup := h.nodup
  rw [hl] at hnodup
  obtain ⟨hnot, hothers⟩ := Multiset.nodup_cons.1 hnodup
  have hrest : others = children.map Prod.fst := by
    have := h.pids
    rw [hl, Multiset.map_cons] at this
    exact (Multiset.cons_inj_right pid).1 this
  have hpids : (l.modify p (·.completed t d)).pids = others := hmod _ rfl
  have hverdict : c₀.verdict = status := by
    obtain ⟨_, hp, hmem⟩ := hrun.pending
    cases hcp.symm.trans hp
    rcases Multiset.mem_cons.1 hmem with heq | hmem
    · exact (Prod.ext_iff.1 heq).2
    · exact absurd (Multiset.mem_map_of_mem Prod.fst hmem) (hrest ▸ hnot)
  refine ⟨?_, hpids.trans hrest, ?_, ?_⟩
  · refine h.upto.revise modify_length (fun q hq => modify_getElem?_of_ne hq) (fun b₀ hb₀ => ?_)
      (fun q b₀ b hq _ hb hrel => hrel.mono fun pid' hpid' hmem => ?_) fun _ _ hb => hb
    · cases hc₀.symm.trans hb₀
      refine ⟨hpast, _, modify_getElem? hc, .inl ⟨hrun.id, hrun.rank, hrun.notRun, rfl, ?_⟩⟩
      rw [if_pos hrun.ready, hverdict, hd]
      rfl
    · refine (Multiset.mem_cons.1 hmem).resolve_left fun heq => hq ?_
      cases (Prod.ext_iff.1 heq).1
      exact (place_eq_of_pid h.nodup hc hb hcp hpid').symm
  · exact (congrArg Multiset.Nodup hpids).mpr hothers
  · have := h.outstanding
    rw [Multiset.card_cons] at this
    change l.outstanding - 1 = _
    omega

/-- Nothing is pending when nothing is outstanding. -/
theorem eq_zero (h : Tended l₀ children r k l) (hout : l.outstanding ≤ 0) : children = 0 := by
  have := h.outstanding
  exact Multiset.card_eq_zero.1 (by omega)

end Tended

section Chunks

variable {s : Scope Case σ} (faithful : launcher.Faithful calm pending)
  (hr : l₀.Ranked) (hidle : ∀ c ∈ l₀.items, c.Idle) (hsurvive : ∀ c ∈ l₀.items, c.Surviving)

/-- The schedule has come to the place `k` of the rank `r`. -/
def OnWatch (calm : Host σ → Prop) (pending : σ → Multiset (Int × Status)) (l₀ : Siblings Case)
    (r : Int) (k : Nat) (s : Scope Case σ) : Prop :=
  calm s.host ∧ Tended l₀ (pending s.host.backend) r k s.list

include faithful hidle

/-- A wait for any child is answered with one that is pending, or is broken off. -/
theorem ensures_waitAny_of_onWatch (h : OnWatch calm pending l₀ r k s)
    (hout : 0 < s.list.outstanding) : Ensures launcher.waitAny
      (fun d? host => match d? with
        | none => False
        | some d => Ensures (note d) (fun _ s' => OnWatch calm pending l₀ r k s' ∧
            launcher.patience s'.host < launcher.patience s.host) (fun _ _ => False)
            { s with host })
      (fun f host => (OnWatch calm pending l₀ r k { s with host } ∧
          launcher.patience host < launcher.patience s.host) ∧
        ∃ r, f = .raised r ∧ r.isInterrupted = true) s.host := by
  obtain ⟨hcalm, htended⟩ := h
  have hpending : pending s.host.backend ≠ 0 := fun hzero => by
    have := htended.outstanding
    rw [hzero, Multiset.card_zero] at this
    omega
  refine (faithful.waitAny s.host hcalm hpending).mono (fun d? t ⟨hcalm', hlt, hd⟩ => ?_)
    fun f t ⟨hcalm', hlt, heq, hf⟩ => ⟨⟨⟨hcalm', heq ▸ htended⟩, hlt⟩, hf⟩
  obtain ⟨d, pid, rfl, hpid, hstopped, heq⟩ := hd
  rw [heq] at htended
  refine ensures_note (fun hkept => ?_) fun p c hc hcp _ shown => ⟨⟨?_, ?_⟩, ?_⟩
  · have hmem : pid ∈ s.list.pids := by
      rw [htended.pids, Multiset.map_cons]
      exact Multiset.mem_cons_self ..
    obtain ⟨c, hc, hcp⟩ := mem_pids.1 hmem
    rcases hkept with hkept | hkept
    · exact absurd (hcp.trans hpid.symm) (hkept c hc)
    · rw [hstopped] at hkept
      cases hkept
  · exact faithful.unaffected t _ shown t.barriers hcalm'
  · exact htended.complete hidle hc (hcp.trans hpid) rfl _
  · exact (faithful.patience_eq t _ shown t.barriers).symm ▸ hlt

/-- A chunk is collected to the last child. -/
theorem ensures_barrier_of_onWatch (h : OnWatch calm pending l₀ r k s) :
    Ensures (barrier launcher) (fun go s => if go then
      OnWatch calm pending l₀ r k s ∧ pending s.host.backend = 0 else False)
      (fun _ _ => False) s := by
  refine (ensures_barrier_of_patience (I := OnWatch calm pending l₀ r k)
    (fun s hs => faithful.requested s.host hs.1) (fun s hs hspent => ?_)
    (fun s shown hs => ⟨faithful.unaffected s.host _ shown _ hs.1, hs.2⟩)
    (fun s hs hout => ensures_waitAny_of_onWatch faithful hidle hs hout)
    ⟨faithful.unaffected s.host _ _ _ h.1, h.2⟩).mono ?_ fun _ _ hf => hf
  · have := hs.2.outstanding
    rw [faithful.pending_eq_zero s.host hs.1 hspent, Multiset.card_zero] at this
    exact Int.le_of_eq this
  · rintro go t ⟨rfl, ht, hout⟩
    exact ⟨ht, ht.2.eq_zero hout⟩

include hr hsurvive

/-- A place is gone by, skipped or started. -/
theorem OnWatch.launch (hk : k < l₀.items.length) (h : OnWatch calm pending l₀ r k s) :
    Ensures (isDue r k) (fun due t => if due then
      Ensures (Schedule.launch launcher k) (fun started t => started = true ∧
        OnWatch calm pending l₀ r (k + 1) t ∧ Multiset.card (pending t.host.backend) =
          Multiset.card (pending s.host.backend) + 1) (fun _ _ => False) t
      else OnWatch calm pending l₀ r (k + 1) t ∧ Multiset.card (pending t.host.backend) =
        Multiset.card (pending s.host.backend)) (fun _ _ => False) s := by
  obtain ⟨hcalm, htended⟩ := h
  have hc₀ := List.getElem?_eq_getElem hk
  have hmem := List.getElem_mem hk
  generalize l₀.items[k] = c₀ at hc₀ hmem
  refine ensures_isDue_upto htended.upto hc₀ (fun _ hc => hc.rank) (fun _ hc => hc ▸ rfl)
    (fun hupto => ⟨⟨hcalm, { htended with upto := hupto }⟩, rfl⟩) ?_ ?_
  · rintro heq _ hc rfl hsat
    refine ensures_launch hc ((faithful.start _ _ _ (hsurvive _ hmem)
      (faithful.unaffected s.host _ _ _ hcalm)).mono (fun pid t ⟨hcalm', hpid, hp⟩ => ?_)
      fun _ _ h => h.elim)
    refine ⟨rfl, ⟨hcalm', ?_⟩, ?_⟩
    · rw [hp]
      exact htended.start hidle hc₀ heq ((htended.satisfiesAll_iff hr hc₀ heq).1 hsat) hpid _
    · rw [hp]
      exact Multiset.card_cons ..
  · rintro heq _ _ rfl hsat _
    have hready := (htended.satisfiesAll_iff hr hc₀ heq).not.1 (Bool.eq_false_iff.1 hsat)
    exact ⟨⟨faithful.unaffected s.host _ _ _ hcalm, htended.skip hidle hc₀ heq hready⟩, rfl⟩

theorem chunkRule_of_faithful : ChunkRule launcher limit l₀.items.length
    (fun r k live s => OnWatch calm pending l₀ r k s ∧
      Multiset.card (pending s.host.backend) = live)
    (fun _ => False) (fun _ _ => False) where
  length _ _ _ _ h := h.1.2.upto.length
  launch r k live s hk _ h := by
    obtain ⟨h, rfl⟩ := h
    refine (h.launch faithful hr hidle hsurvive hk).mono (fun due t ht => ?_) fun _ _ h => h
    cases due with
    | false => exact ht
    | true =>
      refine Ensures.mono ht (fun started t' ⟨hstarted, hw, hcard⟩ => ⟨hw, ?_⟩) fun _ _ h => h
      rw [hcard, if_pos hstarted]
  barrier r k live s _ _ _ h := by
    refine (ensures_barrier_of_onWatch faithful hidle h.1).mono (fun go t ht => ?_) fun _ _ h => h
    cases go with
    | false => exact ht
    | true => exact ⟨ht.1, by rw [ht.2, Multiset.card_zero]⟩
  next r s h _ := by
    obtain ⟨⟨hcalm, htended⟩, hcard⟩ := h
    have hzero := Multiset.card_eq_zero.1 hcard
    rw [hzero] at htended
    exact ⟨⟨hcalm, hzero ▸ htended.next⟩, hcard⟩

/-- A schedule in chunks settles all cases, and leaves nothing pending. -/
theorem ensures_scheduleChunks_settled (hlimit : 0 < limit) (ho : l₀.outstanding = 0) {h : Host σ}
    (hcalm : calm h) (hpending : pending h.backend = 0) :
    Ensures (scheduleChunks launcher limit) (fun _ t =>
      List.Forall₂ (Settled l₀) l₀.items t.list.items ∧ calm t.host ∧ pending t.host.backend = 0)
      (fun _ _ => False) ⟨l₀, h⟩ := by
  have hstart : Tended l₀ (pending h.backend) 0 0 l₀ := hpending ▸ .start_of_idle hr hidle ho
  refine ((chunkRule_of_faithful faithful hr hidle hsurvive).ensures_scheduleChunks hlimit
    hr.maxRank_nonneg ⟨⟨hcalm, hstart⟩, by rw [hpending, Multiset.card_zero]⟩).mono
    (fun _ t ht => ?_) fun _ _ h => h
  rcases ht with ⟨⟨hcalm', htended⟩, hcard⟩ | ht | ⟨hreq, _, _, ⟨hcalm', _⟩, _⟩
  · have hzero := Multiset.card_eq_zero.1 hcard
    rw [hzero] at htended
    exact ⟨(htended.upto.forall₂ hr).imp fun _ _ h => h.settled, hcalm', hzero⟩
  · exact ht.elim
  · rw [faithful.requested _ hcalm'] at hreq
    cases hreq

end Chunks

end RankRunner.Schedule
