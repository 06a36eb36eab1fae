import RankRunner.Proofs.Accounting
import RankRunner.Proofs.Execution.Green
import RankRunner.Proofs.Schedule.Credited

/-! # What the counters of a run credit

The counters of a run tell how many of its cases are successes (`Run.Tallied`). A run that answers
has dispatched and completed each of them. One that is stopped by a fault leaves its groups
credited: what it had no time for still counts as a success (`runSuite_passed_credited`). If it is
stopped by a failing wait, it leaves behind the children of the group at hand
(`runSuite_reap_uncollected`). -/

namespace RankRunner

open Effect

variable {σ : Type} {launcher : Launcher σ} {inv : σ → Prop} {J : Journal σ}

/-- The counters of the run and of its groups tell how many cases are successes. -/
structure Run.Tallied (r : Run) : Prop where
  run : r.synopsis.passed = r.cases.countP (·.succeeded)
  groups : ∀ g ∈ r.groups.items, g.synopsis.passed = g.cases.items.countP (·.succeeded)

theorem Run.aggregate_tallied (r : Run) : r.aggregate.Tallied :=
  ⟨r.aggregate_counts.passed, fun g hg => (r.aggregate_groups_counts g hg).passed⟩

/-- However a run that could be ranked ends, its counters are right. -/
theorem Execution.runSuite_tallied {regime : Regime} {r r' : Run} (hseq : r.sequence = (r', none))
    {h : Host σ} : Ensures (runSuite regime launcher) (fun _ s => s.run.Tallied)
      (fun _ s => s.run.Tallied) ⟨r, h⟩ := by
  refine ensures_runSuite_ending hseq fun clock shown t₁ => ensures_true.mono ?_ ?_
  · intro _ t _ clock t₂
    split
    · exact ⟨fun _ _ => Run.aggregate_tallied _, fun _ _ => Run.aggregate_tallied _⟩
    · exact Run.aggregate_tallied _
  · exact fun _ _ _ _ _ => Run.aggregate_tallied _

namespace Execution

open Siblings Schedule

variable {sandboxed : Bool} {order : List (String × Journal σ)} {id : String} {l₀ : Siblings Group}
  {r : Int} {k : Nat} {g₀ g : Group} {t : Scope Group (Journaled σ)}

/-- The part of the journal that belongs to a group. A group that was not entered has none. -/
def partOf (order : List (String × Journal σ)) (id : String) : Journal σ :=
  (order.lookup id).getD []

theorem partOf_eq_nil (h : order.lookup id = none) : partOf order id = [] := by
  rw [partOf, h]
  rfl

theorem partOf_snoc_self (h : order.lookup id = none) : partOf (order ++ [(id, J)]) id = J := by
  simp [partOf, List.lookup_append, h]

theorem lookup_snoc_of_ne {i : String} (h : i ≠ id) :
    (order ++ [(id, J)]).lookup i = order.lookup i := by
  rw [List.lookup_append, List.lookup_cons, beq_false_of_ne h]
  exact Option.or_none

/-- The journal consists of one part for each group that was entered. -/
structure Parted (order : List (String × Journal σ)) (h : Host (Journaled σ)) : Prop where
  journal : h.backend.journal = order.flatMap (·.2)
  nodup : (order.map (·.1)).Nodup

theorem Parted.snoc {h h' : Host (Journaled σ)} (hp : Parted order h)
    (hid : order.lookup id = none) (hJ : h'.backend.journal = h.backend.journal ++ J) :
    Parted (order ++ [(id, J)]) h' := by
  refine ⟨?_, ?_⟩
  · rw [hJ, hp.journal, List.flatMap_append, List.flatMap_singleton]
  · rw [List.map_append, List.map_singleton]
    refine List.nodup_append.2 ⟨hp.nodup, List.nodup_singleton _, fun i hi j hj => ?_⟩
    obtain ⟨x, hx, rfl⟩ := List.mem_map.1 hi
    rw [List.mem_singleton.1 hj]
    intro heq
    have := List.lookup_eq_none_iff.1 hid x hx
    simp [heq] at this

/-- A group that was run to its end, or skipped. -/
structure Done (sandboxed : Bool) (order : List (String × Journal σ)) (g₀ g : Group) : Prop where
  id : g.id = g₀.id
  rank : g.rank = g₀.rank
  counted : g.cases.Counted
  completed : Completed sandboxed (partOf order g.id) g.cases

/-- A group that was not entered. -/
structure Untouched (order : List (String × Journal σ)) (g₀ g : Group) : Prop where
  eq : g = g₀
  lookup : order.lookup g₀.id = none

/-- Nothing of a group is running, and it is credited. -/
structure Resting (sandboxed : Bool) (order : List (String × Journal σ)) (g : Group) : Prop where
  credited : Credited sandboxed (partOf order g.id) g.cases
  live : g.cases.live = []

theorem Done.resting (h : Done sandboxed order g₀ g) : Resting sandboxed order g :=
  ⟨⟨h.counted, fun c hc _ hs => .inl (h.completed.earned c hc hs)⟩, h.completed.live⟩

theorem Done.snoc (h : Done sandboxed order g₀ g) (hid : g₀.id ≠ id) :
    Done sandboxed (order ++ [(id, J)]) g₀ g := by
  refine ⟨h.id, h.rank, h.counted, ?_⟩
  rw [partOf, lookup_snoc_of_ne (h.id.trans_ne hid)]
  exact h.completed

/-- A group that can be entered, none of whose cases has been dispatched. -/
structure Unstarted (g : Group) : Prop extends Group.Poised g where
  start : ∀ c ∈ g.cases.items, c.start = none

theorem Unstarted.live (h : Unstarted g) : g.cases.live = [] :=
  live_eq_nil fun c hc => (h.idle c hc).pid

theorem Unstarted.counted (h : Unstarted g) : g.cases.Counted := .of_live h.outstanding h.live

theorem Untouched.ne (h : Untouched (order ++ [(id, J)]) g₀ g) : g₀.id ≠ id := by
  intro heq
  have hmem := List.lookup_eq_none_iff.1 h.lookup (id, J)
    (List.mem_append_right _ List.mem_cons_self)
  simp [heq] at hmem

theorem Untouched.resting (h : Untouched order g₀ g) (hg : Unstarted g₀) :
    Resting sandboxed order g := by
  obtain ⟨rfl, hlookup⟩ := h
  refine ⟨⟨hg.counted, fun c hc _ _ => .inr ⟨hg.start c hc, ?_⟩⟩, hg.live⟩
  rw [partOf_eq_nil hlookup]
  rfl

theorem Untouched.skip (h : Untouched order g₀ g) (hg : Unstarted g₀) :
    Done sandboxed order g₀ (WorkItem.skip g) := by
  obtain ⟨rfl, _⟩ := h
  have hlive : (WorkItem.skip g).cases.live = [] := by
    refine live_eq_nil fun c hc => ?_
    obtain ⟨b, hb, rfl⟩ := List.mem_map.1 hc
    exact (hg.idle b hb).pid
  refine ⟨rfl, rfl, .of_live hg.outstanding hlive, hlive, fun c hc hs => ?_⟩
  obtain ⟨b, _, rfl⟩ := List.mem_map.1 hc
  cases hs

/-- The children of one group are left behind: all that were started and not reaped are running
still, nothing was done to clear them up, and no other group has any. -/
structure Uncollected (sandboxed : Bool) (order : List (String × Journal σ)) (l : Siblings Group)
    (h : Host (Journaled σ)) : Prop where
  credited : ∀ g ∈ l.items, Credited sandboxed (partOf order g.id) g.cases
  unswept : h.backend.journal.Unswept
  uncollected : ∃ g ∈ l.items, g.cases.pids = h.backend.journal.unreaped ∧
    0 < g.cases.outstanding ∧ ∀ g' ∈ l.items, g'.id ≠ g.id → g'.cases.live = []

/-- How the schedule of the groups fails: for something that was raised, for a run that is asked to
stop, or for children that cannot be collected, which the simple way does not have. -/
inductive Failing (sandboxed : Bool) (l : Siblings Group) (h : Host (Journaled σ)) :
    Failure → Prop where
  | raised (q : Raised) : Failing sandboxed l h (.raised q)
  | interrupted (d : Fault) (family : d.family = .interrupted) (order : List (String × Journal σ))
    (parted : Parted order h) (resting : ∀ g ∈ l.items, Resting sandboxed order g) :
    Failing sandboxed l h (.fault d)
  | reap (d : Fault) (family : d.family = .reap) (order : List (String × Journal σ))
    (parted : Parted order h) (uncollected : Uncollected sandboxed order l h) :
    Failing sandboxed l h (.fault d)

/-- How far the schedule of the groups has come. -/
structure Advancing (inv : σ → Prop) (sandboxed : Bool) (l₀ : Siblings Group)
    (order : List (String × Journal σ)) (r : Int) (k : Nat) (t : Scope Group (Journaled σ)) : Prop
    extends Parted order t.host where
  backend : inv t.host.backend.backend
  unswept : t.host.backend.journal.Unswept
  unreaped : t.host.backend.journal.unreaped = 0
  upto : l₀.Upto t.list (Done sandboxed order) (Untouched order) r k

/-- However the cases of a group are scheduled and however that ends, unless for something else that
was raised, it tells what is left of the list. -/
theorem ensures_runCases_left (numbered : launcher.Numbered inv) (faultless : launcher.Faultless)
    (regime : Regime) (hg : Unstarted g) {h : Host (Journaled σ)} (hinv : inv h.backend.backend) :
    Ensures (runCases regime launcher.journaled)
      (fun _ t => ∃ J, t.host.backend.journal = h.backend.journal ++ J ∧
        inv t.host.backend.backend ∧ Left regime.sandboxed J t.list ∧
        (t.host.requested = false → Completed regime.sandboxed J t.list))
      (fun f t => (∃ q, f = .raised q) ∨ f.IsOf .reap ∧ 0 < t.list.outstanding ∧
        ∃ J, t.host.backend.journal = h.backend.journal ++ J ∧ Left regime.sandboxed J t.list)
      ⟨g.cases, h⟩ := by
  rw [runCases]
  cases regime.sandboxed with
  | true =>
    exact ensures_scheduleChunks_left numbered faultless hg.ranked hg.idle hg.start
      regime.limit_pos hg.outstanding hinv
  | false =>
    refine (ensures_schedule_trying hg.ranked hg.idle hg.outstanding).mono ?_ fun _ _ hf => .inl hf
    have hback {t : Scope Case (Journaled σ)} (ht : t.host.backend = h.backend) :
        t.host.backend.journal = h.backend.journal ++ [] ∧ inv t.host.backend.backend := by
      rw [ht]
      exact ⟨(List.append_nil _).symm, hinv⟩
    rintro _ t (ht | ⟨hreq, r, ht⟩)
    · exact ⟨[], (hback ht.backend).1, (hback ht.backend).2, ht.left hg.idle hg.start,
        fun _ => ht.completed hg.ranked hg.idle⟩
    · exact ⟨[], (hback ht.backend).1, (hback ht.backend).2, ht.left hg.idle hg.start,
        fun hcalm => by rw [hreq] at hcalm; cases hcalm⟩

namespace Advancing

/-- The group at hand gets the next part of the journal. What is known of it afterwards is `F`,
which has to hold of the groups that are done. -/
theorem upto_enter (hr : l₀.Ranked) (h : Advancing inv sandboxed l₀ order r k t)
    (hg₀ : l₀.items[k]? = some g₀) (hrank : g₀.rank = r) {F : Group → Group → Prop}
    {f : Group → Group} (hF : F g₀ (f g₀)) (J : Journal σ)
    (hdone : ∀ b₀ b, b₀.id ≠ g₀.id → Done sandboxed (order ++ [(g₀.id, J)]) b₀ b → F b₀ b) :
    l₀.Upto (t.list.modify k f) F (Untouched (order ++ [(g₀.id, J)])) r (k + 1) := by
  obtain ⟨g, hg, rfl, _⟩ := h.upto.at_place hg₀ (Int.le_of_eq hrank.symm)
  have hne {p : Nat} {b₀ : Group} (hp : p ≠ k) (hb₀ : l₀.items[p]? = some b₀) : b₀.id ≠ g.id :=
    id_ne_of_ne hr.nodup hb₀ hg₀ hp
  refine h.upto.pass hg₀ hrank modify_length (fun p hp => modify_getElem?_of_ne hp)
    (modify_getElem? hg) hF (fun p b₀ b hp hb₀ hb => hdone b₀ b (hne hp hb₀) (hb.snoc (hne hp hb₀)))
    fun p b₀ b hp hb₀ hb => ⟨hb.eq, ?_⟩
  rw [lookup_snoc_of_ne (hne hp hb₀)]
  exact hb.lookup

/-- What holds of the group at hand when it has been entered, and of every other group that is
resting, holds of all groups. -/
theorem forall_entered (hr : l₀.Ranked) (hgroups : ∀ g ∈ l₀.items, Unstarted g)
    (h : Advancing inv sandboxed l₀ order r k t) (hg₀ : l₀.items[k]? = some g₀)
    (hrank : g₀.rank = r) {P : Group → Prop} {f : Group → Group} (J : Journal σ) (hf : P (f g₀))
    (hrest : ∀ b, b.id ≠ g₀.id → Resting sandboxed (order ++ [(g₀.id, J)]) b → P b) :
    ∀ b ∈ (t.list.modify k f).items, P b := by
  have hupto := h.upto_enter hr hg₀ hrank (F := fun _ => P) hf J fun b₀ b hne hb =>
    hrest b (hb.id.trans_ne hne) hb.resting
  exact hupto.forall_mem (fun _ _ _ hb => hb) fun b₀ hb₀ b hb =>
    hrest b (hb.eq ▸ hb.ne) (hb.resting (hgroups b₀ hb₀))

variable (numbered : launcher.Numbered inv) (faultless : launcher.Faultless) {regime : Regime}
  (hr : l₀.Ranked) (hgroups : ∀ g ∈ l₀.items, Unstarted g)
  (h : Advancing inv regime.sandboxed l₀ order r k t)
include numbered faultless hr hgroups h

/-- A group that is entered is done, unless the run is asked to stop meanwhile or its children
cannot be collected. -/
theorem runGroup (hg₀ : l₀.items[k]? = some g₀) (hrank : g₀.rank = r) :
    Ensures (runGroup regime launcher.journaled k)
      (fun _ t => ∃ order, Advancing inv regime.sandboxed l₀ order r (k + 1) t)
      (fun f t => Failing regime.sandboxed t.list t.host f) t := by
  obtain ⟨g, hg, rfl, hlookup⟩ := h.upto.at_place hg₀ (Int.le_of_eq hrank.symm)
  have hunstarted := hgroups g (List.mem_of_getElem? hg₀)
  refine ensures_runGroup_ending hg fun clock shown t₁ =>
    (ensures_runCases_left numbered faultless regime hunstarted
      (h := { t.host with clock, shown }) h.backend).mono ?_ ?_
  · rintro _ u ⟨J, hJ, hinv, hleft, hcompleted⟩ clock shown t₂
    split
    · next hreq =>
      refine ⟨fun reason _ => ?_, fun q _ => .raised q⟩
      refine (ensures_bailOut_credited faultless
        (s := { u with host := { u.host with clock, shown } }) hleft.toCredited).mono
        (fun _ _ hf => hf) ?_
      rintro f v (⟨q, rfl⟩ | ⟨⟨d, rfl, hfamily⟩, B, hB, hcredited, hlive⟩)
      · exact .raised q
      · have hpart : partOf (order ++ [(g.id, J ++ B)]) g.id = J ++ B := partOf_snoc_self hlookup
        refine .interrupted d hfamily _ (h.snoc hlookup (J := J ++ B) ?_)
          (h.forall_entered hr hgroups hg₀ hrank _ ⟨by exact hpart.symm ▸ hcredited, hlive⟩
            fun _ _ hb => hb)
        rw [hB, ← List.append_assoc]
        exact congrArg (· ++ B) hJ
    · next hreq =>
      have hdone := hcompleted (Bool.eq_false_iff.2 hreq)
      have hpart : partOf (order ++ [(g.id, J)]) g.id = J := partOf_snoc_self hlookup
      have hzero : J.unreaped = 0 := by
        rw [← hleft.pids, ← Multiset.card_eq_zero, card_pids, hdone.live]
        rfl
      refine ⟨order ++ [(g.id, J)], h.snoc hlookup hJ, hinv, ?_, ?_, ?_⟩
      · exact hJ ▸ h.unswept.append hleft.unswept
      · exact (congrArg _ hJ).trans ((Journal.unreaped_append_of_eq_zero h.unreaped).trans hzero)
      · exact h.upto_enter hr hg₀ hrank
          ⟨rfl, rfl, hleft.counted, by exact hpart.symm ▸ hdone⟩ J fun _ _ _ hb => hb
  · rintro f u (⟨q, rfl⟩ | ⟨⟨d, rfl, hfamily⟩, hout, J, hJ, hleft⟩)
    · exact .raised q
    · have hpart : partOf (order ++ [(g.id, J)]) g.id = J := partOf_snoc_self hlookup
      have hentered : (t.list.modify k (·.entered t₁ u.list)).items[k]? =
        some (g.entered t₁ u.list) := modify_getElem? hg
      have hall := h.forall_entered hr hgroups hg₀ hrank (f := (·.entered t₁ u.list))
        (P := fun b => Credited regime.sandboxed (partOf (order ++ [(g.id, J)]) b.id) b.cases ∧
          (b.id ≠ g.id → b.cases.live = [])) J
        ⟨by exact hpart.symm ▸ hleft.toCredited, fun hne => absurd rfl hne⟩
        fun _ _ hb => ⟨hb.credited, fun _ => hb.live⟩
      refine .reap d hfamily _ (h.snoc hlookup hJ) ⟨fun b hb => (hall b hb).1, ?_,
        _, List.mem_of_getElem? hentered, ?_, hout, fun b hb => (hall b hb).2⟩
      · exact hJ ▸ h.unswept.append hleft.unswept
      · exact hleft.pids.trans ((congrArg _ hJ).trans
          (Journal.unreaped_append_of_eq_zero h.unreaped)).symm

/-- A place is gone by, skipped, or its group is entered. -/
theorem dispatch (hk : k < l₀.items.length) :
    Ensures (isDue r k) (fun due t => if due then
      Ensures (Execution.runGroup regime launcher.journaled k)
        (fun _ t => ∃ order, Advancing inv regime.sandboxed l₀ order r (k + 1) t)
        (fun f t => Failing regime.sandboxed t.list t.host f) t
      else ∃ order, Advancing inv regime.sandboxed l₀ order r (k + 1) t)
      (fun f t => Failing regime.sandboxed t.list t.host f) t := by
  have hg₀ := List.getElem?_eq_getElem hk
  have hmem := List.getElem_mem hk
  generalize l₀.items[k] = g₀ at hg₀ hmem
  refine ensures_isDue_upto h.upto hg₀ (fun _ hg => hg.rank) (fun _ hg => hg.eq ▸ rfl)
    (fun hupto => ⟨order, { h with upto := hupto }⟩) ?_ ?_
  · intro hrank _ _ _ _
    exact h.runGroup numbered faultless hr hgroups hg₀ hrank
  · intro hrank _ _ _ _ _
    exact ⟨order, { h with
      upto := h.upto.pass_modify hg₀ hrank fun _ hg => hg.skip (hgroups g₀ hmem) }⟩

end Advancing

/-- To count everything does not change what is left. -/
theorem Failing.closed {l : Siblings Group} {h : Host (Journaled σ)} {f : Failure}
    (hf : Failing sandboxed l h f) (run : Run) (t₁ t₂ : Timestamp) (clock : Clock) :
    Failing sandboxed (run.closed t₁ t₂ l).groups { h with clock } f := by
  cases hf with
  | raised q => exact .raised q
  | interrupted d family order parted resting =>
    exact .interrupted d family order ⟨parted.journal, parted.nodup⟩
      (List.forall_mem_map.2 fun g hg => ⟨(resting g hg).credited, (resting g hg).live⟩)
  | reap d family order parted uncollected =>
    obtain ⟨hcredited, hunswept, g, hg, hpids, hout, hothers⟩ := uncollected
    exact .reap d family order ⟨parted.journal, parted.nodup⟩
      ⟨List.forall_mem_map.2 hcredited, hunswept, g.account, List.mem_map_of_mem hg, hpids, hout,
        List.forall_mem_map.2 hothers⟩

section Runs

variable (numbered : launcher.Numbered inv) (faultless : launcher.Faultless) (regime : Regime)
include numbered faultless

/-- The groups are scheduled to the end, or the run is asked to stop, or it fails. -/
theorem ensures_schedule_advancing (hr : l₀.Ranked) (hgroups : ∀ g ∈ l₀.items, Unstarted g)
    {h : Host (Journaled σ)} (hJ : h.backend.journal = []) (hinv : inv h.backend.backend) :
    Ensures (schedule (runGroup regime launcher.journaled))
      (fun _ t => (∃ order, Advancing inv regime.sandboxed l₀ order (l₀.maxRank + 1) 0 t) ∨
        t.host.requested = true ∧ ∃ r order, Advancing inv regime.sandboxed l₀ order r 0 t)
      (fun f t => Failing regime.sandboxed t.list t.host f) ⟨l₀, h⟩ := by
  have hstart : Advancing inv regime.sandboxed l₀ [] 0 0 ⟨l₀, h⟩ :=
    ⟨⟨hJ, List.nodup_nil⟩, hinv, by rw [hJ]; exact fun _ he => absurd he List.not_mem_nil,
      by rw [hJ]; rfl, .start hr fun _ _ => ⟨rfl, rfl⟩⟩
  exact ensures_schedule (n := l₀.items.length)
    (I := fun r k t => ∃ order, Advancing inv regime.sandboxed l₀ order r k t) hr.maxRank_nonneg
    (fun r k t ⟨_, ht⟩ => ht.upto.length)
    (fun r k t hk ⟨_, ht⟩ => ht.dispatch numbered faultless hr hgroups hk)
    (fun r t ⟨order, ht⟩ => ⟨order, { ht with upto := ht.upto.next }⟩) ⟨[], hstart⟩

/-- A run that answers has completed each of its groups, and one that fails leaves behind what
`Failing` says. -/
theorem ensures_runSuite_credited {r r' : Run} (hr : r.Fresh) (hseq : r.sequence = (r', none))
    {h : Host (Journaled σ)} (hJ : h.backend.journal = []) (hinv : inv h.backend.backend) :
    Ensures (runSuite regime launcher.journaled)
      (fun _ s => ∃ order, Parted order s.host ∧ ∀ g ∈ s.run.groups.items,
        Completed regime.sandboxed (partOf order g.id) g.cases)
      (fun f s => Failing regime.sandboxed s.run.groups s.host f) ⟨r, h⟩ := by
  have hranked := (hr.ranked hseq).1
  have hgroups : ∀ g ∈ r'.groups.items, Unstarted g := fun g hg =>
    ⟨hr.poised hseq g hg, hr.start_eq_none hseq g hg⟩
  refine ensures_runSuite_ending hseq fun clock shown t₁ => (ensures_schedule_advancing numbered
    faultless regime hranked hgroups (h := { h with clock, shown }) hJ hinv).mono ?_
    fun f t hf clock t₂ => hf.closed r' t₁ t₂ clock
  rintro _ t ht clock t₂
  split
  · have hstopped : ∃ r order, Advancing inv regime.sandboxed r'.groups order r 0 t :=
      ht.elim (fun ⟨order, ht⟩ => ⟨_, order, ht⟩) fun ht => ht.2
    obtain ⟨r, order, ht⟩ := hstopped
    have hrest : ∀ g ∈ t.list.items, Resting regime.sandboxed order g :=
      ht.upto.forall_mem (fun _ _ _ hb => hb.resting) fun b hb _ hu => hu.resting (hgroups b hb)
    exact ⟨fun reason _ => (Failing.interrupted (.cancelled reason) rfl order ht.toParted
      hrest).closed r' t₁ t₂ clock, fun q _ => .raised q⟩
  · next hreq =>
    obtain ⟨order, ht⟩ := ht.resolve_right fun ht => hreq ht.1
    refine ⟨order, ⟨ht.journal, ht.nodup⟩, List.forall_mem_map.2 fun g hg => ?_⟩
    obtain ⟨_, _, hdone⟩ := (ht.upto.forall₂ hranked).exists_of_mem_right hg
    exact hdone.completed

end Runs

/-- A run counts as passed what is a success. If it answers, it has dispatched each success and
seen it complete. If it is stopped, each success that does not hold a child was dispatched and seen
to complete, or was never dispatched; and no child is held if it was asked to stop. -/
theorem runSuite_passed_credited (numbered : launcher.Numbered inv)
    (faultless : launcher.Faultless) (regime : Regime) {r : Run} (hr : r.Fresh)
    (hseq : r.sequence.2 = none) {h : Host σ} (hinv : inv h.backend) :
    ∃ t : Session (Journaled σ),
      (runSuite regime launcher.journaled).ending ⟨r, h.withJournal []⟩ = t ∧
      (runSuite regime launcher).ending ⟨r, h⟩ = t.plain ∧ t.run.Tallied ∧
      ((∃ code s, (runSuite regime launcher).run ⟨r, h⟩ = .ok code s) →
        ∃ order, Parted order t.host ∧ ∀ g ∈ t.run.groups.items,
          Completed regime.sandboxed (partOf order g.id) g.cases) ∧
      ∀ family, (runSuite regime launcher).fault? ⟨r, h⟩ = some family →
        (family = .interrupted ∨ family = .reap) ∧ ∃ order, Parted order t.host ∧
          ∀ g ∈ t.run.groups.items, Credited regime.sandboxed (partOf order g.id) g.cases ∧
            (family = .interrupted → g.cases.live = []) := by
  have hseq' : r.sequence = (r.sequence.1, none) := Prod.ext rfl hseq
  have hplain := runSuite_plain regime launcher
  have hends := ensures_runSuite_credited numbered faultless regime hr hseq'
    (h := h.withJournal []) rfl hinv
  refine ⟨_, rfl, hplain.ending ⟨r, h.withJournal []⟩,
    (runSuite_tallied (h := h.withJournal []) hseq').ending, ?_, fun family hfamily => ?_⟩
  · rintro ⟨code, s, hs⟩
    obtain ⟨t, ht, _⟩ := hplain.exists_ok (s := ⟨r, h.withJournal []⟩) hs
    rw [ending_of_ok ht]
    exact hends.of_ok ht
  · have hfault := (hplain.fault?_eq ⟨r, h.withJournal []⟩).symm.trans hfamily
    obtain ⟨d, hrun, rfl⟩ := fault?_eq_some_iff.1 hfault
    cases hends.of_error hrun with
    | interrupted _ family order parted resting =>
      exact ⟨.inl family, order, parted, fun g hg => ⟨(resting g hg).credited, fun _ =>
        (resting g hg).live⟩⟩
    | reap _ family order parted uncollected =>
      refine ⟨.inr family, order, parted, fun g hg => ⟨uncollected.credited g hg, fun hint => ?_⟩⟩
      rw [family] at hint
      cases hint

/-- Two groups of one case each. -/
def pairRun : Run where
  id := "run"
  groups := { items := [{ id := "g", cases := { items := [{ id := "a" }] } },
    { id := "h", cases := { items := [{ id := "a" }] } }] }

theorem pairRun_fresh : pairRun.Fresh := by
  have hcases : Siblings.Fresh Case.Fresh { items := [{ id := "a" }] } := by
    refine ⟨by decide, fun c hc => ?_, rfl, rfl⟩
    rw [List.mem_singleton.1 hc]
    exact ⟨.empty _, rfl, rfl⟩
  refine ⟨⟨by decide, fun g hg => ?_, rfl, rfl⟩, rfl, rfl, rfl⟩
  rcases List.mem_pair.1 hg with rfl | rfl <;> exact ⟨.empty _, hcases, rfl⟩

/-- Children in whose first wait something happens. -/
def disrupted (event : WaitEvent) : Forked := { table := { events := [event] } }

theorem disrupted_closed {event : WaitEvent} (h : ∀ pid word, event ≠ .status pid word) :
    (disrupted event).Closed := fun e he => by
  rw [List.mem_singleton.1 he]
  exact h

theorem runSuite_pairRun_credited :
    ∃ (t : Session (Journaled Forked)) (order : List (String × Journal Forked)),
      (runSuite ⟨true, 1, Nat.one_pos⟩ Forked.launcher).ending
        ⟨pairRun, { backend := disrupted (.signal 2) }⟩ = t.plain ∧
      t.run.Tallied ∧ Parted order t.host ∧ ∀ g ∈ t.run.groups.items,
        Credited true (partOf order g.id) g.cases ∧ g.cases.live = [] := by
  obtain ⟨t, _, hplain, htallied, _, hfault⟩ := runSuite_passed_credited
    Forked.truthful.toNumbered Forked.faultless ⟨true, 1, Nat.one_pos⟩ pairRun_fresh
    (by decide +kernel) (h := { backend := disrupted (.signal 2) }) (disrupted_closed nofun)
  obtain ⟨_, order, hparted, hcredited⟩ := hfault .interrupted (by decide +kernel)
  exact ⟨t, order, hplain, htallied, hparted, fun g hg =>
    ⟨(hcredited g hg).1, (hcredited g hg).2 rfl⟩⟩

/-- The case of the second group is never dispatched, and counts as passed. -/
theorem runSuite_pairRun_passed :
    pairRun.Fresh ∧ pairRun.sequence.2 = none ∧
      (runSuite ⟨true, 1, Nat.one_pos⟩ Forked.launcher).fault?
        ⟨pairRun, { backend := disrupted (.signal 2) }⟩ = some .interrupted ∧
      ((runSuite ⟨true, 1, Nat.one_pos⟩ Forked.launcher).ending
        ⟨pairRun, { backend := disrupted (.signal 2) }⟩).run.groups.items.map
          (fun g => (g.id, g.cases.items.map (·.start.isSome), g.synopsis.passed)) =
        [("g", [true], 1), ("h", [false], 1)] :=
  ⟨pairRun_fresh, by decide +kernel, by decide +kernel, by decide +kernel⟩

/-- A run that fails because children cannot be collected leaves those of one group behind: all that
were started and not reaped are held by their cases, and none was killed or waited for. -/
theorem runSuite_reap_uncollected (numbered : launcher.Numbered inv)
    (faultless : launcher.Faultless) (regime : Regime) {r : Run} (hr : r.Fresh)
    (hseq : r.sequence.2 = none) {h : Host σ} (hinv : inv h.backend)
    (hfails : (runSuite regime launcher).fault? ⟨r, h⟩ = some .reap) :
    ∃ t : Session (Journaled σ),
      (runSuite regime launcher.journaled).ending ⟨r, h.withJournal []⟩ = t ∧
      (runSuite regime launcher).ending ⟨r, h⟩ = t.plain ∧ t.host.backend.journal.Unswept ∧
      ∃ g ∈ t.run.groups.items, g.cases.pids = t.host.backend.journal.unreaped ∧
        0 < g.cases.outstanding ∧ g.cases.outstanding = g.cases.live.length ∧
        ∀ g' ∈ t.run.groups.items, g'.id ≠ g.id →
          g'.cases.live = [] ∧ g'.cases.outstanding = 0 := by
  have hseq' : r.sequence = (r.sequence.1, none) := Prod.ext rfl hseq
  have hplain := runSuite_plain regime launcher
  have hfault := (hplain.fault?_eq ⟨r, h.withJournal []⟩).symm.trans hfails
  obtain ⟨d, hrun, hfamily⟩ := fault?_eq_some_iff.1 hfault
  refine ⟨_, rfl, hplain.ending ⟨r, h.withJournal []⟩, ?_⟩
  cases (ensures_runSuite_credited numbered faultless regime hr hseq'
    (h := h.withJournal []) rfl hinv).of_error hrun with
  | interrupted _ family =>
    rw [family] at hfamily
    cases hfamily
  | reap _ _ order parted uncollected =>
    obtain ⟨hcredited, hunswept, g, hg, hpids, hout, hothers⟩ := uncollected
    refine ⟨hunswept, g, hg, hpids, hout, (hcredited g hg).counted, fun g' hg' hne => ?_⟩
    have hlive := hothers g' hg' hne
    refine ⟨hlive, ?_⟩
    rw [(hcredited g' hg').counted, hlive]
    rfl

/-- A wait fails for a reason that has nothing to do with the children. -/
def ioError : WaitEvent := .fails (.system 5 "Input/output error")

theorem runSuite_pairRun_reap :
    ∃ t : Session (Journaled Forked),
      (runSuite ⟨true, 1, Nat.one_pos⟩ Forked.launcher).ending
        ⟨pairRun, { backend := disrupted ioError }⟩ = t.plain ∧
      t.host.backend.journal.Unswept ∧
      ∃ g ∈ t.run.groups.items, g.cases.pids = t.host.backend.journal.unreaped ∧
        0 < g.cases.outstanding := by
  obtain ⟨t, _, hplain, hunswept, g, hg, hpids, hout, _⟩ := runSuite_reap_uncollected
    Forked.truthful.toNumbered Forked.faultless ⟨true, 1, Nat.one_pos⟩ pairRun_fresh
    (by decide +kernel) (h := { backend := disrupted ioError }) (disrupted_closed nofun)
    (by decide +kernel)
  exact ⟨t, hplain, hunswept, g, hg, hpids, hout⟩

/-- The child of the first group is alive when the run has ended, and its case holds it. -/
theorem runSuite_pairRun_uncollected :
    (runSuite ⟨true, 1, Nat.one_pos⟩ Forked.launcher).fault?
        ⟨pairRun, { backend := disrupted ioError }⟩ = some .reap ∧
      ((runSuite ⟨true, 1, Nat.one_pos⟩ Forked.launcher).ending
        ⟨pairRun, { backend := disrupted ioError }⟩).run.groups.items.map
          (fun g => (g.cases.outstanding, g.cases.items.map (·.pid))) =
        [(1, [some 1001]), (0, [none])] ∧
      ((runSuite ⟨true, 1, Nat.one_pos⟩ Forked.launcher).ending
        ⟨pairRun, { backend := disrupted ioError }⟩).host.backend.table.live.map (·.1) = [1001] :=
  ⟨by decide +kernel, by decide +kernel, by decide +kernel⟩

end Execution
end RankRunner
