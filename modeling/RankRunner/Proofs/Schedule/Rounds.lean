import Mathlib.Algebra.Order.Floor.Div
import Mathlib.GroupTheory.GroupAction.Ring
import RankRunner.Proofs.Launcher.Dutiful
import RankRunner.Proofs.Launcher.ForkedDutiful
import RankRunner.Proofs.Schedule.Bounds
import RankRunner.Proofs.Schedule.Dispatch

/-! # How often a schedule waits

A schedule in chunks collects a chunk when it is full, and the last one of a rank unless it is
empty. So it waits once for every `limit` children that were started at a rank, and once for the
rest of them (`Chunked`). With a dutiful launcher it dispatches all that is due in order, comes to
the end of every case, and waits no more often than that (`scheduleChunks_in_rounds`). -/

/-- Another chunk, which is not empty, takes one more round. -/
theorem Nat.add_ceilDiv_of_dvd {n live limit : Nat} (h : limit ∣ n) (hlive : 0 < live)
    (hle : live ≤ limit) : (n + live) ⌈/⌉ limit = n ⌈/⌉ limit + 1 := by
  obtain ⟨q, rfl⟩ := h
  have hlimit : 0 < limit := Nat.lt_of_lt_of_le hlive hle
  have hq : (limit * q) ⌈/⌉ limit = q := smul_ceilDiv (b := q) hlimit
  rw [hq]
  refine Nat.le_antisymm ((ceilDiv_le_iff_le_mul hlimit).2 ?_) (Nat.lt_of_not_le fun hle' => ?_)
  · rw [Nat.mul_succ]
    omega
  · have := (ceilDiv_le_iff_le_mul hlimit).1 hle'
    omega

namespace RankRunner

open Effect

variable {σ : Type}

/-- Whether a child was started for a case of the rank. -/
def Act.launchedAt (r : Int) : Act → Bool
  | start _ c (.ok _) => c.rank == r
  | _ => false

namespace Journal

variable {J : Journal σ} {e : Entry σ} {r : Int} {limit : Nat}

/-- How many children were started for cases of the rank. -/
def launchedAt (J : Journal σ) (r : Int) : Nat := J.countP (·.act.launchedAt r)

/-- How many chunks the children of lower ranks make. -/
def roundsBelow (limit : Nat) (J : Journal σ) (r : Int) : Nat :=
  ((List.range r.toNat).map fun (n : Nat) => J.launchedAt n ⌈/⌉ limit).sum

theorem launchedAt_snoc : (J ++ [e]).launchedAt r =
    J.launchedAt r + if e.act.launchedAt r then 1 else 0 := by
  simp [launchedAt, List.countP_append, List.countP_singleton]

theorem launchedAt_eq_zero (h : ∀ c ∈ J.dispatched, c.rank ≠ r) : J.launchedAt r = 0 := by
  refine List.countP_eq_zero.2 fun e he hlaunched => ?_
  unfold Act.launchedAt at hlaunched
  split at hlaunched
  · next l c pid hact =>
    exact h c (List.mem_filterMap.2 ⟨e, he, by rw [hact]; rfl⟩) (beq_iff_eq.1 hlaunched)
  · cases hlaunched

theorem roundsBelow_snoc (h : ∀ n < r, e.act.launchedAt n = false) :
    (J ++ [e]).roundsBelow limit r = J.roundsBelow limit r := by
  refine congrArg List.sum (List.map_congr_left fun n hn => ?_)
  have := List.mem_range.1 hn
  rw [launchedAt_snoc, h n (by omega)]
  rfl

theorem roundsBelow_next (hr : 0 ≤ r) : J.roundsBelow limit (r + 1) =
    J.roundsBelow limit r + J.launchedAt r ⌈/⌉ limit := by
  have htop : (r + 1).toNat = r.toNat + 1 := by omega
  have hcast : (r.toNat : Int) = r := Int.toNat_of_nonneg hr
  simp [roundsBelow, htop, List.range_succ, hcast]

end Journal

namespace Schedule

open Siblings

variable {launcher : Launcher σ} {calm : Host σ → Prop} {pending : σ → Multiset Int}
  {J : Journal σ} {e : Journal.Entry σ} {l₀ : Siblings Case} {base limit n : Nat} {r : Int}
  {k live barriers : Nat} {c₀ c : Case} {s : Scope Case (Journaled σ)}

/-- The count of chunks when the schedule has come to the place `k` of the rank `r`, `live` children
of a chunk being alive. Those that were collected before make full chunks, unless the last place of
the rank has been passed. -/
structure Chunked (base limit n : Nat) (r : Int) (k live : Nat) (J : Journal σ) (barriers : Nat) :
    Prop where
  rank_nonneg : 0 ≤ r
  collected : ∃ m, J.launchedAt r = m + live ∧ (limit ∣ m ∨ k = n ∧ live = 0) ∧
    barriers = base + J.roundsBelow limit r + m ⌈/⌉ limit

namespace Chunked

theorem start : Chunked (σ := σ) base limit n 0 0 0 [] base :=
  ⟨Int.le_refl 0, 0, rfl, .inl (Nat.dvd_zero limit), by rw [zero_ceilDiv]; rfl⟩

theorem go_by (h : Chunked base limit n r k live J barriers) (hk : k < n) :
    Chunked base limit n r (k + 1) live J barriers := by
  obtain ⟨hr, m, hm, hdvd, hb⟩ := h
  exact ⟨hr, m, hm, .inl (hdvd.resolve_right fun hend => by omega), hb⟩

theorem keep (h : Chunked base limit n r k live J barriers)
    (he : ∀ r, e.act.launchedAt r = false) :
    Chunked base limit n r k live (J ++ [e]) barriers := by
  obtain ⟨hr, m, hm, hdvd, hb⟩ := h
  refine ⟨hr, m, ?_, hdvd, ?_⟩
  · rw [Journal.launchedAt_snoc, he r, hm]
    rfl
  · rw [Journal.roundsBelow_snoc fun n _ => he n, hb]

theorem launch (h : Chunked base limit n r k live J barriers) (hk : k < n)
    {siblings : Siblings Case} {pid : Int} (he : e.act = .start siblings c (.ok pid))
    (hrank : c.rank = r) : Chunked base limit n r (k + 1) (live + 1) (J ++ [e]) barriers := by
  obtain ⟨hr, m, hm, hdvd, hb⟩ := h
  have hat (i : Int) : e.act.launchedAt i = (c.rank == i) := by rw [he]; rfl
  refine ⟨hr, m, ?_, .inl (hdvd.resolve_right fun hend => by omega), ?_⟩
  · rw [Journal.launchedAt_snoc, hat, hrank, beq_self_eq_true, hm]
    rfl
  · rw [Journal.roundsBelow_snoc fun i hi => ?_, hb]
    rw [hat, hrank, beq_eq_false_iff_ne]
    omega

/-- To begin to wait is counted at once. -/
theorem wait (h : Chunked base limit n r k live J barriers) :
    Chunked (base + 1) limit n r k live J (barriers + 1) := by
  obtain ⟨hr, m, hm, hdvd, hb⟩ := h
  exact ⟨hr, m, hm, hdvd, by omega⟩

/-- The chunk has been collected for which the last wait was. -/
theorem collect (h : Chunked (base + 1) limit n r k live J barriers) (hlive : 0 < live)
    (hle : live ≤ limit) (hfull : live = limit ∨ k = n) :
    Chunked base limit n r k 0 J barriers := by
  obtain ⟨hr, m, hm, hdvd, hb⟩ := h
  replace hdvd : limit ∣ m := hdvd.resolve_right fun hend => by omega
  refine ⟨hr, m + live, hm, ?_, ?_⟩
  · rcases hfull with rfl | hend
    · exact .inl (Nat.dvd_add hdvd (Nat.dvd_refl live))
    · exact .inr ⟨hend, rfl⟩
  · rw [Nat.add_ceilDiv_of_dvd hdvd hlive hle, hb]
    omega

theorem next (h : Chunked base limit n r n 0 J barriers) (hnone : J.launchedAt (r + 1) = 0) :
    Chunked base limit n (r + 1) 0 0 J barriers := by
  obtain ⟨hr, m, hm, _, hb⟩ := h
  refine ⟨by omega, 0, hnone, .inl (Nat.dvd_zero limit), ?_⟩
  rw [Journal.roundsBelow_next hr, hm, Nat.add_zero, zero_ceilDiv, hb]
  omega

theorem barriers_eq (h : Chunked base limit n r k 0 J barriers) (hnone : J.launchedAt r = 0) :
    barriers = base + J.roundsBelow limit r := by
  obtain ⟨_, m, hm, _, hb⟩ := h
  have hzero : m = 0 := by omega
  rw [hb, hzero, zero_ceilDiv]
  rfl

end Chunked

/-- What has been dispatched, and how often the schedule has waited. -/
structure Tallied (l₀ : Siblings Case) (base limit : Nat) (r : Int) (k live : Nat)
    (s : Scope Case (Journaled σ)) : Prop where
  listed : Listed l₀ r k s.host.backend.journal s.list
  chunked : Chunked base limit l₀.items.length r k live s.host.backend.journal s.host.barriers

/-- The schedule has come to the place `k` of the rank `r`, and all its children are reported. -/
abbrev Attending (calm : Host σ → Prop) (pending : σ → Multiset Int) (l₀ : Siblings Case)
    (limit : Nat) (r : Int) (k : Nat) (s : Scope Case (Journaled σ)) : Prop :=
  OnCourse (fun _ => Launcher.Serving calm pending) [] l₀ limit r k s

theorem Attending.serving (h : Attending calm pending l₀ limit r k s) :
    Launcher.Serving calm pending s.host.backend.journal s.host.plain ∧
      Underway l₀ limit r k s.host.backend.journal s.list := by
  obtain ⟨J, hJ, hs, hu⟩ := h
  rw [List.nil_append] at hJ
  exact hJ ▸ ⟨hs, hu⟩

theorem Attending.outstanding (h : Attending calm pending l₀ limit r k s) :
    s.list.outstanding = Multiset.card (pending s.host.plain.backend) := by
  obtain ⟨⟨_, hpending⟩, hu⟩ := h.serving
  rw [hpending]
  exact hu.outstanding

section Steps

variable (dutiful : launcher.Dutiful calm pending) (hr : l₀.Ranked)
  (hidle : ∀ c ∈ l₀.items, c.Idle)
include dutiful

theorem Attending.requested (h : Attending calm pending l₀ limit r k s) :
    s.host.requested = false :=
  dutiful.requested _ h.serving.1.1

include hr

/-- A place is gone by, skipped, started or refused. -/
theorem Tallied.launch (hk : k < l₀.items.length) (ha : Attending calm pending l₀ limit r k s)
    (h : Tallied l₀ base limit r k live s) :
    Ensures (isDue r k) (fun due t => if due then
      Ensures (Schedule.launch launcher.journaled k) (fun started =>
        Tallied l₀ base limit r (k + 1) (if started then live + 1 else live))
        (fun _ _ => False) t
      else Tallied l₀ base limit r (k + 1) live t) (fun _ _ => False) s := by
  obtain ⟨⟨hcalm, _⟩, hu⟩ := ha.serving
  have hc₀ := List.getElem?_eq_getElem hk
  generalize l₀.items[k] = c₀ at hc₀
  obtain ⟨c, hc, _⟩ := hu.upto.related k hc₀
  obtain ⟨_, hc₀', _, hrank, _⟩ := hu.related hc
  cases hc₀.symm.trans hc₀'
  have hahead (heq : c.rank = r) : c = c₀ := by
    obtain ⟨_, hc', hahead⟩ := hu.upto.at_place hc₀ (Int.le_of_eq (heq.symm.trans hrank))
    cases hc.symm.trans hc'
    exact hahead.eq
  refine ensures_isDue hc (fun hne => ?_) (fun heq hdue => ?_) fun heq hnot shown => ?_
  · exact ⟨h.listed.go_by hc₀ (hrank ▸ hne), h.chunked.go_by hk⟩
  · obtain rfl := hahead heq
    refine ensures_launch hc (Launcher.ensures_recorded.2 ((dutiful.start _ _ _
      (dutiful.unaffected _ _ _ _ hcalm)).mono (fun pid t ht => ⟨?_, ?_⟩)
      fun f t ht => ⟨.inr ht.2, fun shown => ⟨?_, ?_⟩⟩))
    · have hlisted := h.listed.dispatch hr hu.ids hc₀ heq hdue
        (f := (·.started s.host.clock.reading pid)) (fun _ => rfl)
        (e := ⟨.start (atLaunch k s) c (.ok pid), t⟩) rfl fun _ _ hnot => .inl hnot
      -- The count of outstanding children is not read by what is listed.
      exact ⟨hlisted.dispatched, hlisted.refused⟩
    · have := h.chunked.launch hk (e := ⟨.start (atLaunch k s) c (.ok pid), t⟩) rfl heq
      exact ht.barriers ▸ this
    · refine h.listed.dispatch hr hu.ids hc₀ heq hdue (fun _ => rfl)
        (e := ⟨.start (atLaunch k s) c (.error f), t⟩) rfl fun b hb _ => .inr ?_
      cases hc.symm.trans hb
      rw [Journal.starts_of_start rfl, if_pos rfl]
      exact List.mem_singleton_self _
    · have := (h.chunked.go_by hk).keep (e := ⟨.start (atLaunch k s) c (.error f), t⟩)
        fun _ => rfl
      exact ht.1.barriers ▸ this
  · obtain rfl := hahead heq
    exact ⟨h.listed.skip hr hu.ids hc₀ heq hnot, h.chunked.go_by hk⟩

include hidle

/-- Whatever a wait for any child tells, what is listed and the count of chunks stay right. -/
theorem Tallied.ensures_waitAny (hout : 0 < s.list.outstanding)
    (ha : Attending calm pending l₀ limit r k s) (h : Tallied l₀ base limit r k live s) :
    Ensures launcher.journaled.waitAny
      (fun d? host => match d? with
        | none => False
        | some d => Ensures (note d) (fun _ s' => Tallied l₀ base limit r k live s' ∧
            launcher.patience s'.host.plain < launcher.patience s.host.plain)
            (fun _ _ => False) { s with host })
      (fun f host => (Tallied l₀ base limit r k live { s with host } ∧
          launcher.patience host.plain < launcher.patience s.host.plain) ∧
        ∃ q, f = .raised q ∧ q.isInterrupted = true) s.host := by
  obtain ⟨⟨hcalm, _⟩, hu⟩ := ha.serving
  have hne : pending s.host.plain.backend ≠ 0 := fun hzero => by
    rw [ha.outstanding, hzero, Multiset.card_zero] at hout
    omega
  have hchunked (act : Act) (t : Host σ) (hact : ∀ r, act.launchedAt r = false)
      (ht : t.barriers = s.host.barriers) := ht ▸ h.chunked.keep (e := ⟨act, t⟩) hact
  refine Launcher.ensures_recorded.2 ((dutiful.waitAny _ hcalm hne).mono (fun d? t ht => ?_)
    fun f t ⟨hserved, hlt, hf⟩ => ⟨⟨⟨?_, ?_⟩, hlt⟩, hf⟩)
  · obtain ⟨hserved, hlt, d, rfl, hd⟩ := ht
    have hpatience (clock : Clock) (shown : Shown) :
        launcher.patience { t with clock, shown } < launcher.patience s.host.plain :=
      (dutiful.patience_eq t clock shown t.barriers).symm ▸ hlt
    refine ensures_note (fun _ shown => ⟨⟨?_, ?_⟩, hpatience _ shown⟩)
      fun p c hc hcp _ shown => ⟨⟨?_, ?_⟩, hpatience _ shown⟩
    · exact h.listed.keep [⟨.waitAny (.ok (some d)), t⟩] rfl
    · exact hchunked _ t (fun _ => rfl) hserved.barriers
    · obtain ⟨pid, hpid⟩ := Option.isSome_iff_exists.1 hd
      obtain ⟨c₀, hc₀, _, _, hrank, _⟩ := hu.running hidle hc (hcp.trans hpid)
      have hlisted := h.listed.complete hr hu.ids hc₀ hrank [⟨.waitAny (.ok (some d)), t⟩] rfl
        t.clock.reading d
      exact ⟨hlisted.dispatched, hlisted.refused⟩
    · exact hchunked _ t (fun _ => rfl) hserved.barriers
  · exact h.listed.keep [⟨.waitAny (.error f), t⟩] rfl
  · exact hchunked _ t (fun _ => rfl) hserved.barriers

/-- A chunk is collected to the last child. -/
theorem Tallied.ensures_barrier (hlive : 0 < live) (hle : live ≤ limit)
    (hfull : live = limit ∨ k = l₀.items.length) (ha : Attending calm pending l₀ limit r k s)
    (h : Tallied l₀ base limit r k live s) :
    Ensures (barrier launcher.journaled) (fun go s => go = true ∧
      (Attending calm pending l₀ limit r k s ∧ s.list.live.length = 0) ∧
        Tallied l₀ base limit r k 0 s) (fun _ _ => False) s := by
  -- The wait is counted before it begins, so that the loop runs with `base + 1`.
  refine (ensures_barrier_of_patience (I := fun s => Attending calm pending l₀ limit r k s ∧
      Tallied l₀ (base + 1) limit r k live s) (fun s hs => hs.1.requested dutiful)
    (fun s hs hspent => ?_)
    (fun s shown hs => ⟨hs.1.unaffected dutiful.keepsAt _ shown _, hs.2.listed, hs.2.chunked⟩)
    (fun s hs hout => ?_)
    ⟨ha.unaffected dutiful.keepsAt _ _ _, h.listed, h.chunked.wait⟩).mono ?_ fun _ _ hf => hf
  · rw [hs.1.outstanding, dutiful.pending_eq_zero _ hs.1.serving.1.1 hspent]
    exact Int.le_refl 0
  · refine ((ensures_waitAny_of_onCourse dutiful.keepsAt hidle hs.1 hout
      (hs.1.requested dutiful)).and (hs.2.ensures_waitAny dutiful hr hidle hout hs.1)).mono ?_
      fun f host ⟨⟨ha', _⟩, ⟨ht', hlt⟩, hf⟩ => ⟨⟨⟨ha', ht'⟩, hlt⟩, hf⟩
    rintro (_ | d) host ⟨ha', ht'⟩
    · exact ht'.elim
    · exact (ha'.and ht').mono (fun _ s' ⟨ha', ht', hlt⟩ => ⟨⟨ha', ht'⟩, hlt⟩) fun _ _ h => h.1
  · rintro go t ⟨rfl, ⟨ha', ht'⟩, hout⟩
    have := ha'.serving.2.live_length
    exact ⟨rfl, ⟨ha', by omega⟩, ht'.listed, ht'.chunked.collect hlive hle hfull⟩

/-- A schedule in chunks with a dutiful launcher stays on its course, and keeps its tally. -/
theorem chunkRule_of_dutiful : ChunkRule launcher.journaled limit l₀.items.length
    (fun r k live s => (Attending calm pending l₀ limit r k s ∧ s.list.live.length = live) ∧
      Tallied l₀ base limit r k live s) (fun _ => False) (fun _ _ => False) := by
  have always : ChunkRule launcher.journaled limit l₀.items.length
      (fun r k live s => Attending calm pending l₀ limit r k s ∧ s.list.live.length = live)
      (Stopped False (fun _ => Launcher.Serving calm pending) [] l₀ limit)
      (fun _ s => Failed False (fun _ => Launcher.Serving calm pending) [] l₀ limit s.host) :=
    chunkRule_of_keepsAt dutiful.keepsAt hr hidle fun _ _ => trivial
  refine ⟨fun r k live s h => always.length r k live s h.1, ?_, ?_, ?_⟩
  · rintro r k live s hk hlive ⟨hs, ht⟩
    refine ((always.launch r k live s hk hlive hs).and (ht.launch dutiful hr hk hs.1)).mono ?_
      fun _ _ h => h.2
    rintro due t ⟨hs', ht'⟩
    cases due with
    | false => exact ⟨hs', ht'⟩
    | true => exact (hs'.and ht').mono (fun _ _ h => h) fun _ _ h => h.2
  · rintro r k live s hlive hle hfull ⟨⟨ha, _⟩, ht⟩
    refine (ht.ensures_barrier dutiful hr hidle hlive hle hfull ha).mono ?_ fun _ _ h => h
    rintro go t ⟨rfl, h⟩
    exact h
  · rintro r s ⟨hs, ht⟩ hreq
    refine ⟨always.next r s hs hreq, ht.listed.next ht.chunked.rank_nonneg, ht.chunked.next ?_⟩
    refine Journal.launchedAt_eq_zero fun c hc heq => ?_
    have hle := (ht.listed.of_mem hc).2
    omega

theorem ensures_scheduleChunks_tallied (hlimit : 0 < limit) (ho : l₀.outstanding = 0)
    {h : Host σ} (hcalm : calm h) (hpending : pending h.backend = 0) :
    Ensures (scheduleChunks launcher.journaled limit) (fun _ t =>
      Attending calm pending l₀ limit (l₀.maxRank + 1) 0 t ∧ t.list.live = [] ∧
        Tallied l₀ h.barriers limit (l₀.maxRank + 1) 0 0 t) (fun _ _ => False)
      ⟨l₀, h.withJournal []⟩ := by
  have hu : Underway (σ := σ) l₀ limit 0 0 [] l₀ := .start_of_idle hr hidle ho
  have hlive : l₀.live.length = 0 := by
    have := hu.live_length
    omega
  have hstart : Attending calm pending l₀ limit 0 0 ⟨l₀, h.withJournal []⟩ :=
    ⟨[], rfl, ⟨hcalm, hpending⟩, hu⟩
  refine ((chunkRule_of_dutiful dutiful hr hidle).ensures_scheduleChunks hlimit hr.maxRank_nonneg
    ⟨⟨hstart, hlive⟩, .start_of_idle hidle, .start⟩).mono (fun _ t ht => ?_) fun _ _ h => h
  rcases ht with ⟨⟨ha, hl⟩, ht⟩ | ht | ⟨hreq, _, _, ⟨ha, _⟩, _⟩
  · exact ⟨ha, List.eq_nil_of_length_eq_zero hl, ht⟩
  · exact ht.elim
  · rw [ha.requested dutiful] at hreq
    cases hreq

end Steps

/-- How a case ends. -/
inductive Ending where
  | skipped
  | notRun
  | reaped
  deriving DecidableEq, Repr

/-- The ending that follows from the attempts to start a case. -/
def Ending.ofStarts : List (Option Int) → Ending
  | [] => .skipped
  | none :: _ => .notRun
  | some _ :: _ => .reaped

/-- The case ended so: it was not dispatched, its only start was refused, or its child ended and
gave it a status. -/
def EndsAs (J : Journal σ) (c₀ c : Case) : Ending → Prop
  | .skipped => J.starts c₀.id = [] ∧ c.status = .skipped ∧ c.notRun = false
  | .notRun => J.starts c₀.id = [none] ∧ c.notRun = true
  | .reaped => ∃ d, J.Ended c₀.id d ∧ c.status = ⟨d.result⟩ ∧ c.notRun = false

theorem EndsAs.eq_ofStarts {ending : Ending} (h : EndsAs J c₀ c ending) :
    ending = .ofStarts (J.starts c₀.id) := by
  cases ending with
  | skipped => rw [h.1]; rfl
  | notRun => rw [h.1]; rfl
  | reaped =>
    obtain ⟨d, hd, _⟩ := h
    obtain ⟨pid, _, hstarts⟩ := hd.starts
    rw [hstarts]
    rfl

/-- What was passed and is not running has ended in exactly one way. -/
theorem Passed.endsAs (h : Passed J r c₀ c) (hp : c.pid = none)
    (hrefused : c.notRun = true → none ∈ J.starts c.id) : ∃! ending, EndsAs J c₀ c ending := by
  rw [h.id] at hrefused
  have hrun (hnot : none ∉ J.starts c₀.id) : c.notRun = false :=
    Bool.eq_false_iff.2 fun hnotRun => hnot (hrefused hnotRun)
  obtain ⟨ending, hends⟩ : ∃ ending, EndsAs J c₀ c ending := by
    cases h.outcome with
    | skipped hs hst _ => exact ⟨.skipped, hs, hst, hrun (by rw [hs]; exact List.not_mem_nil)⟩
    | refused hs hnot _ => exact ⟨.notRun, hs, hnot⟩
    | running n _ hn _ => rw [hp] at hn; cases hn
    | ended d hd hst _ =>
      obtain ⟨pid, _, hs⟩ := hd.starts
      exact ⟨.reaped, d, hd, hst, hrun (by simp [hs])⟩
  exact ⟨ending, hends, fun _ h => h.eq_ofStarts.trans hends.eq_ofStarts.symm⟩

/-- With a dutiful launcher a schedule in chunks dispatches exactly the cases all of whose
dependencies succeed, rank by rank and in the order of declaration, ends each case in one of three
ways, and waits at each rank once for every chunk of the children that were started. -/
theorem scheduleChunks_in_rounds (dutiful : launcher.Dutiful calm pending) {l : Siblings Case}
    (hl : l.Fresh Case.Fresh) (hseq : l.sequence.2 = none) (hlimit : 0 < limit) (h : Host σ)
    (hcalm : calm h) (hpending : pending h.backend = 0) :
    ∃ (t : Scope Case (Journaled σ)) (J : Journal σ),
      (scheduleChunks launcher.journaled limit).run ⟨l.sequence.1, h.withJournal []⟩ = .ok () t ∧
      (scheduleChunks launcher limit).run ⟨l.sequence.1, h⟩ = .ok () t.plain ∧
      t.host.backend.journal = J ∧
      (J.dispatched = l.sequence.1.ranks.flatMap fun r =>
        (l.sequence.1.atRank r).filter fun c => t.list.satisfiesAll c.toItem) ∧
      List.Forall₂ (fun c₀ c => c.id = c₀.id ∧ c.pid = none ∧ ∃! ending, EndsAs J c₀ c ending)
        l.sequence.1.items t.list.items ∧
      t.list.outstanding = 0 ∧
      t.host.barriers =
        h.barriers + (l.sequence.1.ranks.map fun r => J.launchedAt r ⌈/⌉ limit).sum := by
  have hr := Siblings.sequence_ranked hl (fun _ hc => hc.item) hseq
  have hout : l.sequence.1.outstanding = 0 :=
    (Siblings.sequence_reranked l).2.trans hl.outstanding
  obtain ⟨_, t, hrun, ha, hlive, htally⟩ :=
    (ensures_scheduleChunks_tallied dutiful hr hl.idle hlimit hout hcalm hpending).exists_ok
  have hplain := mirrors_scheduleChunks launcher limit ⟨l.sequence.1, h.withJournal []⟩
  rw [hrun] at hplain
  have hu := ha.serving.2
  refine ⟨t, _, hrun, hplain, rfl, ?_, ?_, ?_, ?_⟩
  · rw [htally.listed.dispatched, course_end, List.filter_flatMap]
  · refine (hu.upto.forall₂ hr).imp_of_mem fun c₀ _ c hc hpassed => ?_
    obtain ⟨p, hp⟩ := List.mem_iff_getElem?.1 hc
    have hpid := pid_of_live hlive c hc
    exact ⟨hpassed.id, hpid, hpassed.endsAs hpid (htally.listed.refused p c hp)⟩
  · rw [hu.live_length, hlive]
    rfl
  · have hnone : t.host.backend.journal.launchedAt (l.sequence.1.maxRank + 1) = 0 := by
      refine Journal.launchedAt_eq_zero fun c hc heq => ?_
      have := hr.rank_le c (htally.listed.of_mem hc).1
      rw [Case.workItem_item] at this
      omega
    rw [htally.chunked.barriers_eq hnone, Journal.roundsBelow, ranks, List.map_map]
    rfl

/-- No child can be started for the second case, and the first wait is broken off. -/
def oneRefused : Forked where
  table := {
    failing := [(1, .system 11 "Resource temporarily unavailable")]
    events := [.fails (.system 4 "Interrupted system call"), .overtakes 1] }

theorem oneRefused_signalless : Forked.Signalless { backend := oneRefused } := by
  refine ⟨⟨rfl, fun e he => ?_⟩, rfl, fun x hx => ?_, nofun⟩
  · simp only [oneRefused, List.mem_cons, List.not_mem_nil, or_false] at he
    rcases he with rfl | rfl
    · rfl
    · trivial
  · cases List.mem_singleton.1 hx
    decide +kernel

/-- Of the first two cases only one child is started, and the third one depends on that. -/
theorem scheduleChunks_in_rounds_threeCases :
    threeCases.Fresh Case.Fresh ∧ threeCases.sequence.2 = none ∧ 0 < 2 ∧
      Forked.Signalless { backend := oneRefused } ∧ oneRefused.alive = 0 ∧
      ∃ (t : Scope Case (Journaled Forked)) (J : Journal Forked),
        (scheduleChunks Forked.launcher 2).run
          ⟨threeCases.sequence.1, { backend := oneRefused }⟩ = .ok () t.plain ∧
        t.host.backend.journal = J ∧
        J.dispatched.map (·.id) = ["a", "b", "c"] ∧
        t.list.outstanding = 0 ∧
        (threeCases.sequence.1.ranks.map fun r => J.launchedAt r ⌈/⌉ 2).sum = 2 := by
  obtain ⟨t, J, _, hplain, hJ, hdispatched, _, hout, hbarriers⟩ :=
    scheduleChunks_in_rounds Forked.dutiful threeCases_fresh rfl Nat.two_pos
      { backend := oneRefused } oneRefused_signalless rfl
  have hending := ending_of_ok hplain
  have hlist : t.list = t.plain.list := rfl
  have hcount : t.host.barriers = t.plain.host.barriers := rfl
  rw [hlist, ← hending] at hdispatched
  rw [hcount, ← hending] at hbarriers
  refine ⟨threeCases_fresh, rfl, Nat.two_pos, oneRefused_signalless, rfl, t, J, hplain, hJ, ?_,
    hout, ?_⟩
  · rw [hdispatched]
    decide +kernel
  · rw [Nat.zero_add] at hbarriers
    rw [← hbarriers]
    decide +kernel

end Schedule
end RankRunner
