import RankRunner.Proofs.Execution.Green
import RankRunner.Proofs.Launcher.ForkedYielding
import RankRunner.Proofs.Schedule.Fates

/-! # Clean cancellation

A run in child processes that is asked to stop, at whatever moment, ends with a fault that says
so, provided that its launcher is yielding. From that moment on at most as many children are started
as may be alive at a time, all of them at the group and the rank at hand. At the end no case holds
a process, and no child is alive. -/

namespace RankRunner

open Effect

variable {σ : Type} {launcher : Launcher σ} {D : Case → Prop} {inv : Host σ → Prop}
  {issued : Int → Prop} {alive : σ → Multiset Int}

namespace Schedule

open Siblings

/-- A schedule that is asked to stop beforehand does nothing. -/
theorem ensures_schedule_of_requested {α : Type} [WorkItem α]
    {dispatch : Nat → Effect (Scope α σ) Unit} {E : Failure → Scope α σ → Prop} {s : Scope α σ}
    (hreq : s.host.requested = true) : Ensures (schedule dispatch) (fun _ t => t = s) E s := by
  simp only [schedule, ensures_bind, ensures_get]
  cases s.list.ranks with
  | nil => exact rfl
  | cons rank ranks =>
    simp only [scheduleRanks, ensures_bind, Scope.ensures_requested]
    rw [if_pos hreq]
    exact rfl

end Schedule

namespace Execution

open Siblings Schedule

variable {order order' : List (Group × Journal σ)} {B : Journal σ} {g₀ g : Group}
  {l₀ : Siblings Group} {limit : Nat} {r : Int} {k : Nat} {t : Scope Group (Journaled σ)}

/-- Nothing of a group is left running, and its cases have their fates. Each of the groups that
were entered has its part of the journal, and `B` is the journal of the bail-out. -/
structure Tidied (order : List (Group × Journal σ)) (B : Journal σ) (g₀ g : Group) : Prop where
  id : g.id = g₀.id
  ids : g.cases.ids = g₀.cases.ids
  outstanding : g.cases.outstanding = 0
  idle : ∀ c ∈ g.cases.items, c.pid = none
  fate : ∀ x ∈ order, x.1.id = g₀.id → ∀ c ∈ g.cases.items, Fate x.2 B c

/-- What the journal tells of a group that was entered. -/
structure Part (limit : Nat) (x : Group × Journal σ) : Prop where
  dispatched : ∀ c ∈ x.2.dispatched, c ∈ x.1.cases.items
  halts : x.2.Halts limit

/-- The groups that were entered, each once, with their parts of the journal. -/
structure Entered (limit : Nat) (l₀ : Siblings Group) (order : List (Group × Journal σ)) :
    Prop where
  nodup : (order.map (·.1.id)).Nodup
  mem : ∀ x ∈ order, x.1 ∈ l₀.items
  parts : ∀ x ∈ order, Part limit x

theorem Entered.nil : Entered (σ := σ) limit l₀ [] :=
  ⟨List.nodup_nil, fun _ hx => absurd hx List.not_mem_nil, fun _ hx => absurd hx List.not_mem_nil⟩

/-- The run has been asked to stop, and has stopped. Of the groups that were entered only the last
one was asked to stop. What the journal tells behind their parts belongs to the bail-out, which
dispatches nothing, and collects all children that are left. -/
structure Halted (alive : σ → Multiset Int) (limit : Nat) (l₀ l : Siblings Group)
    (order : List (Group × Journal σ)) (B : Journal σ) (h : Host (Journaled σ)) : Prop where
  journal : h.backend.journal = order.flatMap (·.2) ++ B
  entered : Entered limit l₀ order
  earlier : ∀ x ∈ order.dropLast, ∀ e ∈ x.2, e.host.requested = false
  bailOut : B.dispatched = []
  collected : order = [] ∨ B.Drained ∧ alive h.backend.backend = 0
  outstanding : l.outstanding = 0
  groups : List.Forall₂ (Tidied order B) l₀.items l.items

/-- A failure that tells of a run that was asked to stop and has stopped. -/
def Interrupted (alive : σ → Multiset Int) (limit : Nat) (l₀ : Siblings Group) (f : Failure)
    (l : Siblings Group) (h : Host (Journaled σ)) : Prop :=
  ∃ fault order B, f = .fault fault ∧ fault.family = .interrupted ∧
    Halted alive limit l₀ l order B h

/-- The run was not asked to stop in any entry of its journal. -/
def Quiet (h : Host (Journaled σ)) : Prop := ∀ e ∈ h.backend.journal, e.host.requested = false

theorem Tidied.mono {B' : Journal σ} (h : Tidied order [] g₀ g)
    (hsub : ∀ x ∈ order', x ∈ order ∨ x.1.id ≠ g₀.id) : Tidied order' B' g₀ g := by
  refine { h with fate := fun x hx hid c hc => ?_ }
  exact (h.fate x ((hsub x hx).resolve_right (· hid)) hid c hc).mono B'

/-- A group that was not entered. -/
structure Waiting (order : List (Group × Journal σ)) (g₀ g : Group) : Prop where
  eq : g = g₀
  notEntered : ∀ x ∈ order, x.1.id ≠ g₀.id

theorem Waiting.tidied (h : Waiting order g₀ g) (hg : g₀.Poised) : Tidied order B g₀ g := by
  obtain ⟨rfl, hnot⟩ := h
  exact ⟨rfl, rfl, hg.outstanding, fun c hc => (hg.idle c hc).pid, fun x hx hid =>
    absurd hid (hnot x hx)⟩

theorem Waiting.skip (h : Waiting order g₀ g) (hg : g₀.Poised) :
    Tidied order [] g₀ (WorkItem.skip g) := by
  obtain ⟨rfl, hnot⟩ := h
  refine ⟨rfl, ?_, hg.outstanding, fun c hc => ?_, fun x hx hid => absurd hid (hnot x hx)⟩
  · exact List.map_map.trans rfl
  · obtain ⟨b, hb, rfl⟩ := List.mem_map.1 hc
    exact (hg.idle b hb).pid

/-- The groups when the schedule has come to the place `k` of the rank `r`, and the run has not been
asked to stop. -/
structure Proceeding (inv : Host σ → Prop) (limit : Nat) (l₀ : Siblings Group)
    (order : List (Group × Journal σ)) (r : Int) (k : Nat) (t : Scope Group (Journaled σ)) :
    Prop where
  journal : t.host.backend.journal = order.flatMap (·.2)
  inv : inv t.host.plain
  calm : t.host.requested = false
  entered : Entered limit l₀ order
  quiet : ∀ x ∈ order, ∀ e ∈ x.2, e.host.requested = false
  outstanding : t.list.outstanding = 0
  upto : l₀.Upto t.list (fun g₀ g => g.rank = g₀.rank ∧ Tidied order [] g₀ g) (Waiting order) r k

namespace Proceeding

theorem start (hr : l₀.Ranked) (hout : l₀.outstanding = 0) {h : Host (Journaled σ)}
    (hJ : h.backend.journal = []) (hinv : inv h.plain) (hcalm : h.requested = false) :
    Proceeding inv limit l₀ [] 0 0 ⟨l₀, h⟩ := by
  have hnil {P : Group × Journal σ → Prop} : ∀ x ∈ [], P x := fun _ hx => absurd hx List.not_mem_nil
  exact ⟨hJ, hinv, hcalm, .nil, hnil, hout, .start hr fun _ _ => ⟨rfl, hnil⟩⟩

theorem quiet_host (h : Proceeding inv limit l₀ order r k t) : Quiet t.host := by
  intro e he
  rw [h.journal] at he
  obtain ⟨x, hx, hex⟩ := List.mem_flatMap.1 he
  exact h.quiet x hx e hex

/-- A group that is entered gets the next part of the journal. -/
theorem enter (hr : l₀.Ranked) (h : Proceeding inv limit l₀ order r k t)
    (hg : l₀.items[k]? = some g) (hrank : g.rank = r) {J : Journal σ} (hpart : Part limit (g, J))
    {f : Group → Group} (hf : (f g).rank = g.rank) (hid : (f g).id = g.id)
    (hids : (f g).cases.ids = g.cases.ids) (hout : (f g).cases.outstanding = 0)
    (hidle : ∀ c ∈ (f g).cases.items, c.pid = none)
    (hfate : ∀ c ∈ (f g).cases.items, Fate J B c) :
    Entered limit l₀ (order ++ [(g, J)]) ∧
      l₀.Upto (t.list.modify k f)
        (fun g₀ g' => g'.rank = g₀.rank ∧ Tidied (order ++ [(g, J)]) B g₀ g')
        (Waiting (order ++ [(g, J)])) r (k + 1) := by
  obtain ⟨g', hg', rfl, hnot⟩ := h.upto.at_place hg (Int.le_of_eq hrank.symm)
  have hne {p : Nat} {b : Group} (hp : p ≠ k) (hb : l₀.items[p]? = some b) : g'.id ≠ b.id :=
    id_ne_of_ne hr.nodup hg hb hp.symm
  refine ⟨⟨?_, fun x hx => ?_, fun x hx => ?_⟩, ?_⟩
  · rw [List.map_append, List.nodup_append]
    refine ⟨h.entered.nodup, List.nodup_singleton _, fun i hi j hj => ?_⟩
    obtain ⟨x, hx, rfl⟩ := List.mem_map.1 hi
    rw [List.map_singleton, List.mem_singleton] at hj
    exact hj ▸ hnot x hx
  · rcases List.mem_append.1 hx with hx | hx
    · exact h.entered.mem x hx
    · rw [List.mem_singleton.1 hx]
      exact List.mem_of_getElem? hg
  · rcases List.mem_append.1 hx with hx | hx
    · exact h.entered.parts x hx
    · rw [List.mem_singleton.1 hx]
      exact hpart
  · refine h.upto.pass hg hrank modify_length (fun p hp => modify_getElem?_of_ne hp)
      (modify_getElem? hg') ⟨hf, hid, hids, hout, hidle, fun x hx hx' => ?_⟩
      (fun p b₀ b hp hb₀ hb => ⟨hb.1, hb.2.mono fun x hx => ?_⟩)
      fun p b₀ b hp hb₀ hb => ⟨hb.eq, fun x hx => ?_⟩
    · rcases List.mem_append.1 hx with hx | hx
      · exact absurd hx' (hnot x hx)
      · rw [List.mem_singleton.1 hx]
        exact hfate
    · rcases List.mem_append.1 hx with hx | hx
      · exact .inl hx
      · rw [List.mem_singleton.1 hx]
        exact .inr (hne hp hb₀)
    · rcases List.mem_append.1 hx with hx | hx
      · exact hb.notEntered x hx
      · rw [List.mem_singleton.1 hx]
        exact hne hp hb₀

/-- A group that is run is accounted for, and the run goes on, unless it is asked to stop meanwhile:
then it stops with this group. -/
theorem runGroup (yielding : launcher.Yielding D inv issued alive) {regime : Regime}
    (hregime : regime.sandboxed = true) (hr : l₀.Ranked)
    (h : Proceeding inv regime.limit l₀ order r k t) (hg₀ : l₀.items[k]? = some g)
    (hrank : g.rank = r) (hgroups : ∀ g ∈ l₀.items, g.Poised) (hD : ∀ c ∈ g.cases.items, D c) :
    Ensures (runGroup regime launcher.journaled k)
      (fun _ t => ∃ order, Proceeding inv regime.limit l₀ order r (k + 1) t)
      (fun f t => Quiet t.host ∨ Interrupted alive regime.limit l₀ f t.list t.host) t := by
  obtain ⟨_, hgt, rfl, _⟩ := h.upto.at_place hg₀ (Int.le_of_eq hrank.symm)
  have hg := hgroups _ (List.mem_of_getElem? hg₀)
  refine ensures_runGroup_ending hgt fun clock shown t₁ => ?_
  rw [runCases, if_pos hregime]
  have hinv := yielding.unaffected t.host.plain clock shown t.host.barriers h.inv
  refine (ensures_scheduleChunks_watched yielding hg.ranked hg.idle hD hg.outstanding
    regime.limit_pos (h := { t.host with clock, shown }) hinv).mono ?_ ?_
  · rintro _ u ⟨J, r', k', hJ, hw, hu, hlive⟩ clock shown t₂
    replace hJ : u.host.backend.journal = order.flatMap (·.2) ++ J := hJ.trans (by rw [← h.journal])
    have hpart : Part regime.limit (_, J) :=
      ⟨fun c hc => mem_of_dispatched hu.order hc, hw.halts hu.card_le⟩
    have hinv' := yielding.unaffected u.host.plain clock shown u.host.barriers hw.inv
    split
    · next hreq =>
      refine ⟨fun reason _ => ?_, fun q hq => ?_⟩
      · refine (ensures_bailOut_of_yielding yielding
          (s := { u with host := { u.host with clock, shown } }) hinv'
          (fun pid hpid => hw.issued pid (hu.pids ▸ hpid)) hu.live_length).mono (fun _ _ h => h) ?_
        rintro f v ⟨⟨killed, n, hf⟩, halive, hout, hidle, B, hB, hnone, hdrained, hcleared⟩
        have hids : v.list.ids = u.list.ids :=
          List.map_eq_of_forall₂ hcleared fun _ _ hc => hc.id
        obtain ⟨hentered, hupto⟩ := h.enter hr hg₀ hrank hpart
          (f := fun g => { g.ran t₁ t₂ u.list with cases := v.list }) rfl rfl (hids.trans hu.ids)
          hout hidle (hu.fate hg.idle hcleared)
        refine .inr ⟨.bailedOut reason killed n, _, B, hf, rfl, ?_, hentered, ?_, hnone,
          .inr ⟨hdrained, halive⟩, h.outstanding, ?_⟩
        · rw [List.flatMap_append, List.flatMap_singleton, hB]
          exact congrArg (· ++ B) hJ
        · rw [List.dropLast_concat]
          exact h.quiet
        · exact hupto.forall₂_related (fun _ _ _ h => h.2) fun g₀ hg₀ _ h =>
            h.tidied (hgroups g₀ hg₀)
      · obtain ⟨why, hwhy⟩ := yielding.describes _ hw.inv
        cases hwhy.symm.trans hq
    · next hreq =>
      have hcalm := Bool.eq_false_iff.2 hreq
      have hlive := hlive hcalm
      have hout : u.list.outstanding = 0 := by
        rw [hu.live_length, hlive]
        rfl
      obtain ⟨hentered, hupto⟩ := h.enter hr hg₀ hrank hpart (B := []) (f := (·.ran t₁ t₂ u.list))
        rfl rfl hu.ids hout (pid_of_live hlive) (hu.fate hg.idle (cleared_of_live hlive))
      refine ⟨_, ?_, hinv', hcalm, hentered, fun x hx => ?_, h.outstanding, hupto⟩
      · rw [List.flatMap_append, List.flatMap_singleton]
        exact hJ
      · rcases List.mem_append.1 hx with hx | hx
        · exact h.quiet x hx
        · rw [List.mem_singleton.1 hx]
          exact hw.quiet hcalm
  · rintro f u ⟨J, hJ, hquiet⟩
    refine .inl fun e he => ?_
    rw [hJ] at he
    rcases List.mem_append.1 he with he | he
    · exact h.quiet_host e he
    · exact hquiet e he

/-- A place is gone by, skipped, or its group is run. -/
theorem dispatch (yielding : launcher.Yielding D inv issued alive) {regime : Regime}
    (hregime : regime.sandboxed = true) (hr : l₀.Ranked) (hgroups : ∀ g ∈ l₀.items, g.Poised)
    (hD : ∀ g ∈ l₀.items, ∀ c ∈ g.cases.items, D c) (hk : k < l₀.items.length)
    (h : Proceeding inv regime.limit l₀ order r k t) :
    Ensures (isDue r k) (fun due t => if due then
      Ensures (Execution.runGroup regime launcher.journaled k)
        (fun _ t => ∃ order, Proceeding inv regime.limit l₀ order r (k + 1) t)
        (fun f t => Quiet t.host ∨ Interrupted alive regime.limit l₀ f t.list t.host) t
      else ∃ order, Proceeding inv regime.limit l₀ order r (k + 1) t)
      (fun f t => Quiet t.host ∨ Interrupted alive regime.limit l₀ f t.list t.host) t := by
  have hg₀ := List.getElem?_eq_getElem hk
  have hmem := List.getElem_mem hk
  generalize l₀.items[k] = g₀ at hg₀ hmem
  refine ensures_isDue_upto h.upto hg₀ (fun _ hg => hg.1) (fun _ hg => hg.eq ▸ rfl)
    (fun hupto => ⟨order, { h with upto := hupto }⟩) ?_ ?_
  · intro hrank _ _ _ _
    exact h.runGroup yielding hregime hr hg₀ hrank hgroups (hD g₀ hmem)
  · intro hrank _ _ _ _ shown
    exact ⟨order, { h with
      inv := yielding.unaffected _ t.host.clock shown t.host.barriers h.inv
      upto := h.upto.pass_modify hg₀ hrank fun _ hg =>
        ⟨congrArg (·.rank) hg.eq, hg.skip (hgroups g₀ hmem)⟩ }⟩

end Proceeding

/-- The groups are scheduled to the end without the run being asked to stop, or it is asked to stop
and stops. -/
theorem ensures_schedule_proceeding (yielding : launcher.Yielding D inv issued alive)
    {regime : Regime} (hregime : regime.sandboxed = true) (hr : l₀.Ranked)
    (hout : l₀.outstanding = 0) (hgroups : ∀ g ∈ l₀.items, g.Poised)
    (hD : ∀ g ∈ l₀.items, ∀ c ∈ g.cases.items, D c) {h : Host (Journaled σ)}
    (hJ : h.backend.journal = []) (hinv : inv h.plain) (hcalm : h.requested = false) :
    Ensures (Schedule.schedule (runGroup regime launcher.journaled))
      (fun _ t => Quiet t.host ∧ t.host.requested = false)
      (fun f t => Quiet t.host ∨ Interrupted alive regime.limit l₀ f t.list t.host) ⟨l₀, h⟩ := by
  refine (Schedule.ensures_schedule (n := l₀.items.length) (I := fun r k t => ∃ order,
    Proceeding inv regime.limit l₀ order r k t) hr.maxRank_nonneg ?_ ?_ ?_
    ⟨[], .start hr hout hJ hinv hcalm⟩).mono ?_ fun _ _ h => h
  · rintro r k t ⟨_, ht⟩
    exact ht.upto.length
  · rintro r k t hk ⟨_, ht⟩
    exact ht.dispatch yielding hregime hr hgroups hD hk
  · rintro r t ⟨order, ht⟩
    exact ⟨order, { ht with upto := ht.upto.next }⟩
  · rintro _ t (⟨_, ht⟩ | ⟨_, _, _, ht⟩)
    · exact ⟨ht.quiet_host, ht.calm⟩
    · exact ⟨ht.quiet_host, ht.calm⟩

/-- To count everything does not change what is left. -/
theorem Halted.closed {l : Siblings Group} {h : Host (Journaled σ)}
    (hh : Halted alive limit l₀ l order B h) (run : Run) (t₁ t₂ : Timestamp) (clock : Clock) :
    Halted alive limit l₀ (run.closed t₁ t₂ l).groups order B { h with clock } :=
  { hh with
    groups := List.forall₂_map_right_iff.2 (hh.groups.imp fun _ _ hg =>
      ⟨hg.id, hg.ids, hg.outstanding, hg.idle, hg.fate⟩) }

/-- A run that is not asked to stop has a quiet journal. One that is asked to stop beforehand has
none, and one that is asked to stop meanwhile is interrupted. -/
theorem ensures_runSuite_interrupted (yielding : launcher.Yielding D inv issued alive)
    {regime : Regime} (hregime : regime.sandboxed = true) {r r' : Run}
    (hseq : r.sequence = (r', none)) (hr : r'.groups.Ranked) (hout : r'.groups.outstanding = 0)
    (hgroups : ∀ g ∈ r'.groups.items, g.Poised)
    (hD : ∀ g ∈ r'.groups.items, ∀ c ∈ g.cases.items, D c) {h : Host (Journaled σ)}
    (hJ : h.backend.journal = []) (hinv : inv h.plain) :
    Ensures (runSuite regime launcher.journaled)
      (fun _ s => Quiet s.host ∧ h.requested = false)
      (fun f s => Quiet s.host ∧ h.requested = false ∨
        Interrupted alive regime.limit r'.groups f s.run.groups s.host ∧
          (h.requested = true → s.host.backend.journal = [])) ⟨r, h⟩ := by
  cases hreq : h.requested with
  | false =>
    refine ensures_runSuite_ending hseq fun clock shown t₁ =>
      (ensures_schedule_proceeding yielding hregime hr hout hgroups hD
        (h := { h with clock, shown }) hJ (yielding.unaffected _ clock shown h.barriers hinv)
        hreq).mono ?_ ?_
    · rintro _ t ⟨hquiet, hcalm⟩ clock t₂
      rw [if_neg (Bool.eq_false_iff.1 hcalm)]
      exact ⟨hquiet, rfl⟩
    · rintro f t (hquiet | ⟨fault, order, B, hf, hfamily, hhalted⟩) clock t₂
      · exact .inl ⟨hquiet, rfl⟩
      · exact .inr ⟨⟨fault, order, B, hf, hfamily, hhalted.closed r' t₁ t₂ clock⟩,
          fun hreq' => absurd hreq' Bool.false_ne_true⟩
  | true =>
    refine ensures_runSuite_ending hseq fun clock shown t₁ =>
      (ensures_schedule_of_requested (by exact hreq)).mono (fun _ t ht clock t₂ => ?_)
      fun _ _ h => h
    subst ht
    rw [if_pos (by exact hreq)]
    refine ⟨fun reason _ => .inr ⟨⟨.cancelled reason, [], [], rfl, rfl, ?_⟩, fun _ => hJ⟩,
      fun q hq => ?_⟩
    · have hnil {P : Group × Journal σ → Prop} : ∀ x ∈ [], P x :=
        fun _ hx => absurd hx List.not_mem_nil
      refine Halted.closed ⟨hJ, .nil, hnil, rfl, .inl rfl, hout, ?_⟩ r' t₁ t₂ clock
      exact List.forall₂_same.2 fun g hg => Waiting.tidied ⟨rfl, hnil⟩ (hgroups g hg)
    · obtain ⟨why, hwhy⟩ := yielding.describes _ hinv
      cases hwhy.symm.trans hq

theorem runSuite_interrupted (yielding : launcher.Yielding D inv issued alive) {regime : Regime}
    (hregime : regime.sandboxed = true) {r : Run} (hr : r.Fresh) (hseq : r.sequence.2 = none)
    (hD : ∀ g ∈ r.sequence.1.groups.items, ∀ c ∈ g.cases.items, D c) {h : Host σ} (hinv : inv h)
    {t : Session (Journaled σ)}
    (ht : (runSuite regime launcher.journaled).ending ⟨r, h.withJournal []⟩ = t)
    (hreq : h.requested = true ∨ ∃ e ∈ t.host.backend.journal, e.host.requested = true) :
    ∃ f order B, (runSuite regime launcher).run ⟨r, h⟩ = .error (.fault f) t.plain ∧
      f.family = .interrupted ∧
      Halted alive regime.limit r.sequence.1.groups t.run.groups order B t.host ∧
      (h.requested = true → t.host.backend.journal = []) := by
  obtain ⟨r', fault, hs⟩ : ∃ r' fault, r.sequence = (r', fault) := ⟨_, _, rfl⟩
  rw [hs] at hseq hD ⊢
  cases hseq
  have hends := ensures_runSuite_interrupted yielding hregime hs (hr.ranked hs).1
    (hr.outstanding hs) (hr.poised hs) hD (h := h.withJournal []) rfl hinv
  have hplain := runSuite_plain regime launcher ⟨r, h.withJournal []⟩
  have hnot {s : Session (Journaled σ)} (hst : s = t)
      (hquiet : Quiet s.host ∧ h.requested = false) : False := by
    subst hst
    rcases hreq with hreq | ⟨e, he, hreq⟩
    · rw [hquiet.2] at hreq
      cases hreq
    · rw [hquiet.1 e he] at hreq
      cases hreq
  unfold Ensures at hends
  unfold Effect.ending at ht
  cases hrun : (runSuite regime launcher.journaled).run ⟨r, h.withJournal []⟩ with
  | ok code s =>
    rw [hrun] at hends ht
    exact (hnot ht hends).elim
  | error f s =>
    rw [hrun] at hends ht hplain
    obtain ⟨⟨fault, order, B, rfl, hfamily, hhalted⟩, hbefore⟩ :=
      hends.resolve_left fun hquiet => hnot ht hquiet
    cases ht
    exact ⟨fault, order, B, hplain, hfamily, hhalted, hbefore⟩

/-- Children of which the first ends, and then an interrupt breaks a wait off. -/
def disturbed : Forked where
  table := { events := [.nothing, .signal 2] }
  shares := true

theorem disturbed_unmarked : Forked.Unmarked { backend := disturbed } := by
  have hnone {P : Int → Prop} : ∀ n ∈ (none : Option Int), P n := fun n hn =>
    absurd hn (Option.not_mem_none n)
  refine ⟨⟨hnone, hnone, fun e he => ?_, fun _ hx => absurd hx List.not_mem_nil,
    fun _ hx => absurd hx List.not_mem_nil, by decide⟩, rfl⟩
  simp only [disturbed, List.mem_cons, List.not_mem_nil, or_false] at he
  rcases he with rfl | rfl
  · trivial
  · exact List.mem_cons_self

theorem runSuite_twoGroups_interrupted :
    ∃ (t : Session (Journaled Forked)) (f : Fault) (order : List (Group × Journal Forked))
      (B : Journal Forked), (runSuite ⟨true, 2, Nat.two_pos⟩ Forked.launcher).run
        ⟨twoGroups, { backend := disturbed }⟩ = .error (.fault f) t.plain ∧
      f.family = .interrupted ∧
      Halted Forked.alive 2 twoGroups.sequence.1.groups t.run.groups order B t.host := by
  have hasked : ((runSuite ⟨true, 2, Nat.two_pos⟩ Forked.launcher.journaled).ending
      ⟨twoGroups, Host.withJournal [] { backend := disturbed }⟩).host.backend.journal.any
        (·.host.requested) = true := by decide +kernel
  obtain ⟨f, order, B, hrun, hfamily, hhalted, _⟩ := runSuite_interrupted Forked.yielding rfl
    twoGroups_fresh (by decide +kernel) (fun _ _ _ _ => trivial) disturbed_unmarked rfl
    (.inr (List.any_eq_true.1 hasked))
  exact ⟨_, f, order, B, hrun, hfamily, hhalted⟩

end Execution
end RankRunner
