import RankRunner.Proofs.Launcher.Laws
import RankRunner.Proofs.Schedule.Loops
import RankRunner.Proofs.Schedule.Underway

/-! # A schedule in chunks is in order

Whatever a launcher does, a schedule in chunks of a ranked list keeps `Underway`, provided that
completions carry the number of a process (`chunkRule_of_keepsAt`). What else the launcher keeps of
its surroundings and of the journal at each rank is kept as well. A schedule that is asked to stop
does so somewhere on its course (`Stopped`), unless the launcher fails in an unforeseen way. -/

namespace RankRunner

open Effect

variable {σ : Type}

namespace Schedule

open Siblings

/-- The journal has been kept in order since `J₀`. -/
def Orderly (P : Journal σ → Host σ → Prop) (J₀ : Journal σ) (l₀ : Siblings Case) (limit : Nat)
    (h : Host (Journaled σ)) : Prop :=
  ∃ J, h.backend.journal = J₀ ++ J ∧ P J h.plain ∧ J.Each (InOrder l₀ limit) ∧
    ∀ id ∉ l₀.ids, J.starts id = []

theorem Orderly.mono {P P' : Journal σ → Host σ → Prop} {J₀ : Journal σ} {l₀ : Siblings Case}
    {limit : Nat} {h : Host (Journaled σ)} (ho : Orderly P J₀ l₀ limit h)
    (hP : ∀ J h, P J h → P' J h) : Orderly P' J₀ l₀ limit h :=
  let ⟨J, hJ, hPJ, hu⟩ := ho
  ⟨J, hJ, hP _ _ hPJ, hu⟩

variable {launcher : Launcher σ} {D : Case → Prop} {X : Prop}
  {P : Int → Journal σ → Host σ → Prop} {J₀ : Journal σ} {l₀ : Siblings Case} {limit : Nat}
  {s : Scope Case (Journaled σ)} {r : Int} {k live : Nat}

/-- The schedule has come to the place `k` of the rank `r`. -/
def OnCourse (P : Int → Journal σ → Host σ → Prop) (J₀ : Journal σ) (l₀ : Siblings Case)
    (limit : Nat) (r : Int) (k : Nat) (s : Scope Case (Journaled σ)) : Prop :=
  ∃ J, s.host.backend.journal = J₀ ++ J ∧ P r J s.host.plain ∧ Underway l₀ limit r k J s.list

/-- The journal has been kept in order up to some rank. -/
abbrev OrderlyAt (P : Int → Journal σ → Host σ → Prop) (J₀ : Journal σ) (l₀ : Siblings Case)
    (limit : Nat) (h : Host (Journaled σ)) : Prop :=
  Orderly (fun J h => ∃ r, P r J h) J₀ l₀ limit h

/-- The schedule is asked to stop. It has stopped on its course unless the launcher may fail in
ways that are not foreseen. -/
structure Stopped (X : Prop) (P : Int → Journal σ → Host σ → Prop) (J₀ : Journal σ)
    (l₀ : Siblings Case) (limit : Nat) (s : Scope Case (Journaled σ)) : Prop where
  requested : s.host.requested = true
  somewhere : (∃ r k, OnCourse P J₀ l₀ limit r k s) ∨ X ∧ OrderlyAt P J₀ l₀ limit s.host

/-- The schedule has failed, which a foreseen failure of the launcher cannot bring about once the
run is asked to stop. -/
structure Failed (X : Prop) (P : Int → Journal σ → Host σ → Prop) (J₀ : Journal σ)
    (l₀ : Siblings Case) (limit : Nat) (h : Host (Journaled σ)) : Prop where
  orderly : OrderlyAt P J₀ l₀ limit h
  foreseen : X ∨ h.requested = false

theorem OnCourse.orderly (h : OnCourse P J₀ l₀ limit r k s) : OrderlyAt P J₀ l₀ limit s.host :=
  let ⟨J, hJ, hP, hu⟩ := h
  ⟨J, hJ, ⟨r, hP⟩, hu.order, hu.others⟩

theorem Stopped.orderly (h : Stopped X P J₀ l₀ limit s) : OrderlyAt P J₀ l₀ limit s.host := by
  rcases h.somewhere with ⟨r, k, h⟩ | ⟨_, h⟩
  · exact h.orderly
  · exact h

section Steps

variable (keeps : launcher.KeepsAt D X P) (hr : l₀.Ranked) (hidle : ∀ c ∈ l₀.items, c.Idle)
include keeps

theorem OrderlyAt.unaffected {h : Host (Journaled σ)} (ho : OrderlyAt P J₀ l₀ limit h)
    (clock : Clock) (shown : Shown) (barriers : Nat) :
    OrderlyAt P J₀ l₀ limit { h with clock, shown, barriers } :=
  let ⟨J, hJ, ⟨r, hP⟩, hu⟩ := ho
  ⟨J, hJ, ⟨r, keeps.unaffected r J h.plain clock shown barriers hP⟩, hu⟩

theorem OnCourse.unaffected (h : OnCourse P J₀ l₀ limit r k s) (clock : Clock) (shown : Shown)
    (barriers : Nat) :
    OnCourse P J₀ l₀ limit r k { s with host := { s.host with clock, shown, barriers } } :=
  let ⟨J, hJ, hP, hu⟩ := h
  ⟨J, hJ, keeps.unaffected r J s.host.plain clock shown barriers hP, hu⟩

include hidle

theorem ensures_waitAny_of_onCourse (h : OnCourse P J₀ l₀ limit r k s)
    (hout : 0 < s.list.outstanding) (hreq : s.host.requested = false) :
    Ensures launcher.journaled.waitAny
      (fun d? host => match d? with
        | none => OnCourse P J₀ l₀ limit r k { s with host }
        | some d => Ensures (note d) (fun _ => OnCourse P J₀ l₀ limit r k) (fun _ _ => False)
          { s with host })
      (fun f host => OnCourse P J₀ l₀ limit r k { s with host } ∧
        (X ∧ OrderlyAt P J₀ l₀ limit host ∨ ∃ q, f = .raised q ∧ q.isInterrupted = true))
      s.host := by
  obtain ⟨J, hJ, hP, hu⟩ := h
  have hjournal (e : Journal.Entry σ) : s.host.backend.journal ++ [e] = J₀ ++ (J ++ [e]) := by
    rw [hJ, List.append_assoc]
  have hlive : J.unreaped ≠ 0 := by
    intro hzero
    have := hu.outstanding
    rw [hzero, Multiset.card_zero] at this
    omega
  refine Launcher.ensures_recorded.2 ((keeps.waitAny r J _ hP hlive hreq).mono
    (fun d? t ⟨hPt, hd⟩ => ?_) fun f t ⟨hPt, hf⟩ => ?_)
  · cases d? with
    | none => exact ⟨_, hjournal _, hPt, hu.keep rfl rfl⟩
    | some d =>
      obtain ⟨pid, hpid⟩ := Option.isSome_iff_exists.1 (hd d rfl)
      refine ensures_note (fun hkept shown => ?_) fun p c hc hcp hst shown => ?_
      · refine ⟨_, hjournal _, keeps.unaffected r _ t t.clock shown t.barriers hPt,
          hu.keep rfl ?_⟩
        simp only [Act.unreaped, hpid, Option.elim_some]
        split
        · rfl
        · next hst =>
          refine Multiset.erase_of_notMem fun hmem => ?_
          rw [← hu.pids] at hmem
          obtain ⟨c, hc, hcp⟩ := mem_pids.1 hmem
          exact (hkept.resolve_right hst) c hc (hcp.trans hpid.symm)
      · exact ⟨_, hjournal _, keeps.unaffected r _ t _ shown t.barriers hPt,
          hu.complete hidle hc hpid (hcp.trans hpid) hst rfl _⟩
  · have hc := hu.keep (e := ⟨.waitAny (.error f), t⟩) rfl rfl
    refine ⟨⟨_, hjournal _, hPt, hc⟩, hf.imp (fun hX => ?_) id⟩
    exact ⟨hX, _, hjournal _, ⟨r, hPt⟩, hc.order, hc.others⟩

/-- However a chunk is collected, the schedule stays on its course. Where that fails, children are
outstanding, and the launcher did not do as foreseen or the run was not asked to stop. -/
theorem ensures_barrier_onCourse (h : OnCourse P J₀ l₀ limit r k s) :
    Ensures (barrier launcher.journaled) (fun go s => OnCourse P J₀ l₀ limit r k s ∧
        if go then s.list.live.length = 0 else s.host.requested = true)
      (fun _ s => OnCourse P J₀ l₀ limit r k s ∧ 0 < s.list.outstanding ∧
        (X ∨ s.host.requested = false)) s := by
  refine (ensures_barrier (K := fun _ => OnCourse P J₀ l₀ limit r k)
    (E := fun s => (OnCourse P J₀ l₀ limit r k s ∧ 0 < s.list.outstanding) ∧ X)
    (ensures_reapFrom (fun _ _ h _ => h) fun _ s h hout hreq =>
      (ensures_waitAny_of_onCourse keeps hidle h hout hreq).mono (fun d? host hd => ?_)
        fun f host hf => ⟨hf.1, hf.2.imp (fun hX => ⟨⟨hf.1, hout⟩, hX.1⟩) id⟩)
    (fun s shown h => h.unaffected keeps _ shown _)
    (fun s shown h => ⟨⟨h.1.1.unaffected keeps _ shown _, h.1.2⟩, h.2⟩)
    (h.unaffected keeps _ _ _)).mono (fun go s hs => ?_) fun f s hs => ?_
  · cases d? with
    | none => exact hd
    | some d => exact hd.mono (fun _ _ h => h) fun _ _ h => h.elim
  · cases go with
    | false => exact ⟨hs.1.elim (fun h => h.1.1) (fun h => h.1), hs.2⟩
    | true =>
      obtain ⟨hc, hout⟩ := hs
      obtain ⟨_, _, _, hu⟩ := id hc
      have hlive : s.list.live.length = 0 := by
        have := hu.live_length
        omega
      exact ⟨hc, hlive⟩
  · rcases hs with ⟨⟨hc, hout⟩, hX⟩ | ⟨hc, hout, hreq⟩
    · exact ⟨hc, hout, .inl hX⟩
    · exact ⟨hc, hout, .inr hreq⟩

theorem ensures_barrier_of_onCourse (h : OnCourse P J₀ l₀ limit r k s) :
    Ensures (barrier launcher.journaled) (fun go s =>
      if go then OnCourse P J₀ l₀ limit r k s ∧ s.list.live.length = 0
      else Stopped X P J₀ l₀ limit s) (fun _ s => Failed X P J₀ l₀ limit s.host) s := by
  refine (ensures_barrier_onCourse keeps hidle h).mono (fun go s ⟨hc, hs⟩ => ?_)
    fun f s ⟨hc, _, hs⟩ => ⟨hc.orderly, hs⟩
  cases go with
  | false => exact ⟨hs, .inl ⟨r, k, hc⟩⟩
  | true => exact ⟨hc, hs⟩

include hr

/-- A place is gone by, skipped, started or refused. -/
theorem OnCourse.launch (hD : ∀ c ∈ l₀.items, D c) (hk : k < l₀.items.length)
    (hlive : s.list.live.length < limit) (h : OnCourse P J₀ l₀ limit r k s) :
    Ensures (isDue r k) (fun due t => if due then
      Ensures (Schedule.launch launcher.journaled k) (fun started t =>
        OnCourse P J₀ l₀ limit r (k + 1) t ∧
          t.list.live.length = if started then s.list.live.length + 1 else s.list.live.length)
        (fun _ t => Failed X P J₀ l₀ limit t.host) t
      else OnCourse P J₀ l₀ limit r (k + 1) t ∧ t.list.live.length = s.list.live.length)
      (fun _ t => Failed X P J₀ l₀ limit t.host) s := by
  obtain ⟨J, hJ, hP, hu⟩ := h
  have hout := hu.live_length
  have hjournal (e : Journal.Entry σ) : s.host.backend.journal ++ [e] = J₀ ++ (J ++ [e]) := by
    rw [hJ, List.append_assoc]
  obtain ⟨c, hc, _⟩ := hu.upto.related k (List.getElem?_eq_getElem hk)
  obtain ⟨c₀, hc₀, _, hrank, _⟩ := hu.related hc
  refine ensures_isDue hc (fun hne => ?_) (fun heq hdue => ?_) fun heq _ shown => ?_
  · exact ⟨⟨J, hJ, hP, hu.go_by hc hne⟩, rfl⟩
  · have heq₀ := hrank.symm.trans heq
    obtain ⟨_, hc', ha⟩ := hu.upto.at_place hc₀ (Int.le_of_eq heq₀.symm)
    cases hc.symm.trans hc'
    cases ha.eq
    have hmay := hu.mayStart hidle hr hc₀ heq₀ hlive hdue s.host.clock.reading
    have hPstart := keeps.unaffected r J s.host.plain s.host.clock.tick s.host.shown
      s.host.barriers hP
    refine ensures_launch hc (Launcher.ensures_recorded.2 ((keeps.start r J _ _ _ hPstart
      (hD c (List.mem_of_getElem? hc₀)) heq).mono
      (fun pid t hPt => ?_) fun f t ⟨hPt, hf⟩ => ⟨?_, fun shown => ?_⟩))
    · have hu' := hu.start hr hidle hc₀ heq₀ (e := ⟨.start _ c (.ok pid), t⟩) hmay rfl
        s.host.clock.reading
      refine ⟨⟨_, hjournal _, hPt, hu'⟩, ?_⟩
      have := hu'.live_length
      simp only [if_true] at this ⊢
      omega
    · have hrefuse := hu.refuse hr hidle hc₀ heq₀ (e := ⟨.start _ c (.error f), t⟩) hmay rfl
        s.host.clock.reading s.host.clock.reading
      exact hf.imp (fun hX => ⟨⟨_, hjournal _, ⟨r, hPt⟩, hrefuse.order, hrefuse.others⟩, .inl hX⟩) id
    · have hu' := hu.refuse hr hidle hc₀ heq₀ (e := ⟨.start _ c (.error f), t⟩) hmay rfl
        s.host.clock.reading t.clock.reading
      refine ⟨⟨_, hjournal _, keeps.unaffected r _ t _ shown t.barriers hPt, hu'⟩, ?_⟩
      have : s.list.outstanding = _ := hu'.live_length
      simp only [Bool.false_eq_true, if_false, Host.withJournal]
      omega
  · have hu' := hu.skip hr hidle hc₀ (hrank.symm.trans heq)
    refine ⟨⟨J, hJ, keeps.unaffected r J s.host.plain _ shown _ hP, hu'⟩, ?_⟩
    have : s.list.outstanding = _ := hu'.live_length
    dsimp only
    omega

/-- What a schedule in chunks keeps, whatever the launcher does. -/
theorem chunkRule_of_keepsAt (hD : ∀ c ∈ l₀.items, D c) :
    ChunkRule launcher.journaled limit l₀.items.length
      (fun r k live s => OnCourse P J₀ l₀ limit r k s ∧ s.list.live.length = live)
      (Stopped X P J₀ l₀ limit) (fun _ s => Failed X P J₀ l₀ limit s.host) where
  length r k live s h := by
    obtain ⟨⟨_, _, _, hu⟩, _⟩ := h
    exact hu.upto.length
  launch r k live s hk hlive h := by
    obtain ⟨h, rfl⟩ := h
    exact OnCourse.launch keeps hr hidle hD hk hlive h
  barrier _ _ _ _ _ _ _ h := ensures_barrier_of_onCourse keeps hidle h.1
  next r s h hreq := by
    obtain ⟨⟨J, hJ, hP, hu⟩, hlive⟩ := h
    have hzero : J.unreaped = 0 := by
      rw [← hu.pids, ← Multiset.card_eq_zero, card_pids, hlive]
    exact ⟨⟨J, hJ, keeps.next r J _ hP hzero hreq,
      hu.next (List.eq_nil_of_length_eq_zero hlive)⟩, hlive⟩

omit keeps in
/-- A schedule in chunks that is at its begin in order goes on so to its end, by a rule that keeps it
on its course. -/
theorem ensures_scheduleChunks_of_rule {R : Scope Case (Journaled σ) → Prop}
    {E : Failure → Scope Case (Journaled σ) → Prop} {h : Host (Journaled σ)}
    (rule : ChunkRule launcher.journaled limit l₀.items.length
      (fun r k live s => OnCourse P h.backend.journal l₀ limit r k s ∧ s.list.live.length = live)
      R E) (hlimit : 0 < limit) (ho : l₀.outstanding = 0) (hP : P 0 [] h.plain) :
    Ensures (scheduleChunks launcher.journaled limit) (fun _ t =>
      OnCourse P h.backend.journal l₀ limit (l₀.maxRank + 1) 0 t ∧ t.list.live = [] ∨ R t ∨
        t.host.requested = true ∧ ∃ r k, OnCourse P h.backend.journal l₀ limit r k t) E ⟨l₀, h⟩ := by
  have hu : Underway (σ := σ) l₀ limit 0 0 [] l₀ := .start_of_idle hr hidle ho
  have hlive : l₀.live.length = 0 := by
    have := hu.live_length
    omega
  refine (rule.ensures_scheduleChunks hlimit hr.maxRank_nonneg
    ⟨⟨[], (List.append_nil _).symm, hP, hu⟩, hlive⟩).mono (fun _ t ht => ?_) fun _ _ h => h
  rcases ht with ⟨h, hl⟩ | h | ⟨hreq, r, k, h, _⟩
  · exact .inl ⟨h, List.eq_nil_of_length_eq_zero hl⟩
  · exact .inr (.inl h)
  · exact .inr (.inr ⟨hreq, r, k, h⟩)

/-- After a schedule in chunks everything has been passed and nothing is running, or the run is
asked to stop; and the journal is in order in any case. -/
theorem ensures_scheduleChunks_of_keepsAt (hD : ∀ c ∈ l₀.items, D c) (hlimit : 0 < limit)
    (ho : l₀.outstanding = 0) {h : Host (Journaled σ)} (hP : P 0 [] h.plain) :
    Ensures (scheduleChunks launcher.journaled limit) (fun _ t =>
      OnCourse P h.backend.journal l₀ limit (l₀.maxRank + 1) 0 t ∧ t.list.live = [] ∨
        Stopped X P h.backend.journal l₀ limit t)
      (fun _ t => Failed X P h.backend.journal l₀ limit t.host) ⟨l₀, h⟩ := by
  refine (ensures_scheduleChunks_of_rule hr hidle (chunkRule_of_keepsAt keeps hr hidle hD) hlimit ho
    hP).mono (fun _ t ht => ht.imp id fun ht => ?_) fun _ _ h => h
  rcases ht with h | ⟨hreq, h⟩
  · exact h
  · exact ⟨hreq, .inl h⟩

end Steps

section Always

variable {P : Journal σ → Host σ → Prop} (keeps : launcher.Keeps P) (hr : l₀.Ranked)
  (hidle : ∀ c ∈ l₀.items, c.Idle) (hlimit : 0 < limit) (ho : l₀.outstanding = 0)
include keeps hr hidle hlimit ho

theorem ensures_scheduleChunks_of_keeps {h : Host (Journaled σ)} (hP : P [] h.plain) :
    Ensures (scheduleChunks launcher.journaled limit) (fun _ t =>
      OnCourse (fun _ => P) h.backend.journal l₀ limit (l₀.maxRank + 1) 0 t ∧ t.list.live = [] ∨
        Orderly P h.backend.journal l₀ limit t.host ∧ t.host.requested = true)
      (fun _ t => Orderly P h.backend.journal l₀ limit t.host) ⟨l₀, h⟩ := by
  have hplain (h : Host (Journaled σ)) {J₀ : Journal σ}
      (ho : OrderlyAt (fun _ => P) J₀ l₀ limit h) : Orderly P J₀ l₀ limit h :=
    ho.mono fun _ _ ⟨_, hP⟩ => hP
  refine (ensures_scheduleChunks_of_keepsAt keeps.keepsAt hr hidle (fun _ _ => trivial) hlimit ho
    hP).mono (fun _ t ht => ht.imp id fun ht => ⟨hplain _ ht.orderly, ht.requested⟩)
    fun _ t ht => hplain _ ht.orderly

/-- However a schedule in chunks ends, its journal is in order. -/
theorem orderly_ending {h : Host (Journaled σ)} (hP : P [] h.plain) :
    Orderly P h.backend.journal l₀ limit
      ((scheduleChunks launcher.journaled limit).ending ⟨l₀, h⟩).host := by
  refine Ensures.ending (P := fun t : Scope Case _ => Orderly P h.backend.journal l₀ limit t.host) ?_
  refine (ensures_scheduleChunks_of_keeps keeps hr hidle hlimit ho hP).mono (fun _ t ht => ?_)
    fun _ _ ht => ht
  rcases ht with ⟨ht, _⟩ | ⟨ht, _⟩
  · exact ht.orderly.mono fun _ _ ⟨_, hP⟩ => hP
  · exact ht

end Always

end Schedule
end RankRunner
