import Mathlib.Data.Multiset.MapFold
import RankRunner.Proofs.Schedule.Counted

/-! # Children that end in any order

To collect the children of a list comes to the same in whatever order they end, and whatever the
waits come back with in between: a strange child, one that was only stopped, or nothing as the wait
was broken off (`reap_interleaved`). The loop keeps the invariant `Gathering`, by which the replies
that are to come tell of the end of each child that is still running. -/

namespace RankRunner

open Effect

variable {σ : Type}

/-- What a wait for any child comes back with. -/
abbrev Reply := Except Raised Completion

/-- As long as the run is not asked to stop, the waits for any child come back with what is
`ahead`, and do not ask for that. -/
structure Launcher.Streams (launcher : Launcher σ) (ahead : σ → List Reply) : Prop where
  waitAny : ∀ h reply rest, h.requested = false → ahead h.backend = reply :: rest →
    Ensures launcher.waitAny
      (fun d? t => t.requested = false ∧ ahead t.backend = rest ∧ ∃ d ∈ d?, reply = .ok d)
      (fun f t => t.requested = false ∧ ahead t.backend = rest ∧
        ∃ q, f = .raised q ∧ reply = .error q) h
  patience : ∀ h, (ahead h.backend).length ≤ launcher.patience h

namespace Launcher.Streams

variable {launcher : Launcher σ} {ahead : σ → List Reply} {h : Host σ} {rest : List Reply}
  {E : Failure → Host σ → Prop} {Q : Option Completion → Host σ → Prop}

theorem ensures_done (streams : launcher.Streams ahead) (hcalm : h.requested = false)
    {d : Completion} (hahead : ahead h.backend = .ok d :: rest)
    (hQ : ∀ t, t.requested = false → ahead t.backend = rest → Q (some d) t) :
    Ensures launcher.waitAny Q E h := by
  refine (streams.waitAny h _ _ hcalm hahead).mono ?_ ?_
  · rintro _ t ⟨ht, hrest, _, rfl, hd⟩
    cases hd
    exact hQ t ht hrest
  · rintro f t ⟨_, _, q, _, hq⟩
    cases hq

theorem ensures_broken (streams : launcher.Streams ahead) (hcalm : h.requested = false)
    {q : Raised} (hahead : ahead h.backend = .error q :: rest)
    (hE : ∀ t, t.requested = false → ahead t.backend = rest → E (.raised q) t) :
    Ensures launcher.waitAny Q E h := by
  refine (streams.waitAny h _ _ hcalm hahead).mono ?_ ?_
  · rintro _ t ⟨_, _, d, _, hd⟩
    cases hd
  · rintro _ t ⟨ht, hrest, _, rfl, hq⟩
    cases hq
    exact hE t ht hrest

end Launcher.Streams

/-- The replies tell once of the end of each of the `running` processes, in the order of `ends`. As
long as there is one to come they may also tell of processes that are not `known`, or of running
ones that were stopped, or that the wait was broken off. -/
inductive Interleaves (known : Multiset Int) : Multiset Int → List Completion → List Reply → Prop
  where
  | nil (rest : List Reply) : Interleaves known 0 [] rest
  | ended {running ends rest} (d : Completion) (pid : Int) (told : d.pid = some pid)
    (stopped : d.stopped = false) (later : Interleaves known running ends rest) :
    Interleaves known (pid ::ₘ running) (d :: ends) (.ok d :: rest)
  | stopped {running ends rest} (d : Completion) (pid : Int) (told : d.pid = some pid)
    (stopped : d.stopped = true) (live : pid ∈ running)
    (later : Interleaves known running ends rest) : Interleaves known running ends (.ok d :: rest)
  | stranger {running ends rest} (d : Completion) (pid : Int) (told : d.pid = some pid)
    (unknown : pid ∉ known) (later : Interleaves known running ends rest) :
    Interleaves known running ends (.ok d :: rest)
  | interrupted {running ends rest} (q : Raised) (broken : q.isInterrupted = true)
    (later : Interleaves known running ends rest) : Interleaves known running ends (.error q :: rest)

namespace Interleaves

variable {known running : Multiset Int} {ends : List Completion} {replies : List Reply}

theorem pids (h : Interleaves known running ends replies) :
    (ends.map (·.pid) : Multiset (Option Int)) = running.map some := by
  induction h with
  | nil => rfl
  | ended d pid told _ _ ih =>
    rw [List.map_cons, ← Multiset.cons_coe, ih, told, Multiset.map_cons]
  | stopped _ _ _ _ _ _ ih | stranger _ _ _ _ _ ih | interrupted _ _ _ ih => exact ih

theorem ends_eq_nil (h : Interleaves known 0 ends replies) : ends = [] := by
  have := congrArg Multiset.card h.pids
  simpa using this

/-- Processes that are told of at the end differ, if all do. -/
theorem eq_of_pid (h : Interleaves known running ends replies) (hn : running.Nodup)
    {d d' : Completion} (hd : d ∈ ends) (hd' : d' ∈ ends) (hpid : d.pid = d'.pid) : d = d' := by
  have hnodup : (ends.map (·.pid)).Nodup := by
    rw [← Multiset.coe_nodup, h.pids]
    exact Multiset.Nodup.map (Option.some_injective _) hn
  exact List.inj_on_of_nodup_map hnodup hd hd' hpid

end Interleaves

namespace Scripted

open Script

/-- The replies up to the first one by which a run is asked to stop, or told that no child is
left. -/
def upcoming : List AnyReply → List Reply
  | .done c false none :: rest => .ok c :: upcoming rest
  | .fails r :: rest => .error r :: upcoming rest
  | _ => []

theorem length_upcoming (anys : List AnyReply) : (upcoming anys).length ≤ anys.length := by
  induction anys using upcoming.induct with
  | case1 c rest ih => exact Nat.succ_le_succ ih
  | case2 r rest ih => exact Nat.succ_le_succ ih
  | case3 anys h h' => rw [upcoming] <;> simp_all

theorem streams : launcher.Streams fun s => upcoming s.anys where
  waitAny h reply rest hcalm hahead := by
    rcases hanys : h.backend.anys with _ | ⟨_ | r | ⟨c, _ | _, _ | _⟩, later⟩
    all_goals rw [hanys] at hahead; cases hahead
    · simp only [launcher, waitAny, Host.record, ensures_bind, ensures_modify, ensures_get, hanys]
      exact ⟨hcalm, rfl, r, rfl, rfl⟩
    · simp only [launcher, waitAny, Host.record, ensures_bind, ensures_modify, ensures_get, hanys]
      exact ⟨hcalm, rfl, c, rfl, rfl⟩
  patience h := Nat.le_succ_of_le (length_upcoming h.backend.anys)

end Scripted

/-- The case without the time at which it stopped. -/
def Case.unstopped (c : Case) : Case := { c with stop := none }

/-- The list without the times at which its cases stopped. -/
def Siblings.timeless (l : Siblings Case) : Siblings Case :=
  { l with items := l.items.map Case.unstopped }

namespace Schedule

open Siblings

variable {launcher : Launcher σ} {ahead : σ → List Reply} {l : Siblings Case} {c c' : Case}
  {ends told left : List Completion} {n : Nat} {s : Scope Case σ} {pos : Nat}

/-- A case while children are collected: as it was, or completed by what was told of its child. -/
inductive Gathered (told : List Completion) (c : Case) : Case → Prop where
  | kept : Gathered told c c
  | completed (d : Completion) (time : Timestamp) (mem : d ∈ told) (running : c.pid.isSome)
    (pid : d.pid = c.pid) : Gathered told c (c.completed time d)

/-- A case after children were collected: completed by what was told of its child, if it was
running. -/
inductive Reaped (ends : List Completion) (c : Case) : Case → Prop where
  | kept (idle : c.pid = none) : Reaped ends c c
  | completed (d : Completion) (time : Timestamp) (mem : d ∈ ends) (running : c.pid.isSome)
    (pid : d.pid = c.pid) : Reaped ends c (c.completed time d)

/-- The list `l` while its children are collected, `n` of them so far: those that are running are
told of by what is ahead. -/
structure Gathering (ahead : σ → List Reply) (l : Siblings Case) (ends : List Completion) (n : Nat)
    (s : Scope Case σ) : Prop extends Reaping (fun _ => True) l n s where
  calm : s.host.requested = false
  maxRank : s.list.maxRank = l.maxRank
  known : s.list.pids ≤ l.pids
  cases : ∃ told left, told ++ left = ends ∧
    List.Forall₂ (Gathered told) l.items s.list.items ∧
    Interleaves l.pids s.list.pids left (ahead s.host.backend)

theorem Gathered.mono (h : Gathered told c c') (hsub : ∀ d ∈ told, d ∈ left) :
    Gathered left c c' := by
  cases h with
  | kept => exact .kept
  | completed d time mem running pid => exact .completed d time (hsub d mem) running pid

/-- A case that is still running is as it was. -/
theorem Gathered.complete {d : Completion} (h : Gathered told c c') (hpid : c'.pid = d.pid)
    (hrunning : c'.pid.isSome) (hd : d ∈ told) (time : Timestamp) :
    Gathered told c (c'.completed time d) := by
  cases h with
  | kept => exact .completed d time hd hrunning hpid.symm
  | completed => cases hrunning

theorem gathering_of_interleaves (hcalm : s.host.requested = false) (hout : s.list.Counted)
    (hstream : Interleaves s.list.pids s.list.pids ends (ahead s.host.backend)) :
    Gathering ahead s.list ends 0 s :=
  ⟨Counting.reaping ⟨hout, trivial⟩, hcalm, rfl, Std.le_refl _, [], ends, rfl,
    List.forall₂_same.2 fun _ _ => .kept, hstream⟩

namespace Gathering

variable {host : Host σ} {d : Completion} {pid : Int}

/-- What comes in may end no case. Then it leaves the list as it is, and what is ahead tells of the
same ends as before. -/
theorem keep (h : Gathering ahead l ends n s) (hends : told ++ left = ends)
    (hcases : List.Forall₂ (Gathered told) l.items s.list.items) (hcalm : host.requested = false)
    (hstream : Interleaves l.pids s.list.pids left (ahead host.backend)) :
    Gathering ahead l ends n { s with host } :=
  ⟨⟨⟨h.counted, trivial⟩, h.thinned, h.reaped⟩, hcalm, h.maxRank, h.known, told, left, hends,
    hcases, hstream⟩

/-- Or it ends the case that is running with its process. -/
theorem complete (h : Gathering ahead l ends n s) (hends : told ++ d :: left = ends)
    (hcases : List.Forall₂ (Gathered told) l.items s.list.items) (host : Host σ)
    (hcalm : host.requested = false)
    {running : Multiset Int} (hpids : s.list.pids = pid ::ₘ running)
    (hstream : Interleaves l.pids running left (ahead host.backend)) (hd : d.pid = some pid)
    (hc : s.list.items[pos]? = some c) (hpid : c.pid = d.pid) (time : Timestamp) :
    Gathering ahead l ends (n + 1)
      { list := { s.list.modify pos (·.completed time d) with
          outstanding := s.list.outstanding - 1 }
        host } := by
  have hrunning : c.pid.isSome := by rw [hpid, hd]; rfl
  obtain ⟨others, hothers, hmod⟩ := exists_pids_of_pid hc (hpid.trans hd)
  have hsame : others = running := (Multiset.cons_inj_right pid).1 (hothers.symm.trans hpids)
  have hpids' : (s.list.modify pos (·.completed time d)).pids = running := (hmod _ rfl).trans hsame
  refine ⟨h.toReaping.complete hc hrunning time d trivial, hcalm, h.maxRank, ?_, told ++ [d], left,
    ?_, ?_, ?_⟩
  · change (s.list.modify pos _).pids ≤ l.pids
    rw [hpids']
    exact Std.le_trans (hpids ▸ Multiset.le_cons_self running pid) h.known
  · rw [List.append_assoc]
    exact hends
  · refine hcases.modify (fun _ _ hab => hab.mono fun _ => List.mem_append_left _) ?_
    intro a b hb hab
    cases hc.symm.trans hb
    exact (hab.mono fun _ => List.mem_append_left _).complete hpid hrunning (by simp) time
  · change Interleaves l.pids (s.list.modify pos _).pids left (ahead host.backend)
    rw [hpids']
    exact hstream

end Gathering

/-- One more wait for any child. -/
theorem ensures_waitAny_gathering (streams : launcher.Streams ahead)
    {fuel : Nat} (h : Gathering ahead l ends n s)
    (hfuel : (ahead s.host.backend).length ≤ fuel + 1) (hout : 0 < s.list.outstanding) :
    Ensures launcher.waitAny
      (fun d? host => match d? with
        | none => False
        | some d => Ensures (note d) (fun noted t =>
            Gathering ahead l ends (if noted then n + 1 else n) t ∧
              (ahead t.host.backend).length ≤ fuel) (fun _ _ => False) { s with host })
      (fun f host => (Gathering ahead l ends n { s with host } ∧
        (ahead host.backend).length ≤ fuel) ∧ ∃ q, f = .raised q ∧ q.isInterrupted = true)
      s.host := by
  obtain ⟨told, left, hends, hcases, hstream⟩ := h.cases
  have hcounted : s.list.outstanding = s.list.live.length := h.counted
  have hlive : s.list.pids ≠ 0 := by
    intro hzero
    have := card_pids (l := s.list)
    rw [hzero, Multiset.card_zero] at this
    omega
  generalize hpids : s.list.pids = running at hstream hlive
  generalize hahead : ahead s.host.backend = replies at hstream hfuel
  cases hstream with
  | nil => exact (hlive rfl).elim
  | @ended running left rest d pid htold hstopped later =>
    refine streams.ensures_done h.calm hahead fun t hcalm hrest => ?_
    subst hrest
    refine ensures_note (fun hnot => ?_) fun pos c hc hpid _ shown => ?_
    · obtain ⟨c, hc, hpid⟩ := mem_pids.1 (hpids ▸ Multiset.mem_cons_self pid running)
      rcases hnot with hnot | hnot
      · exact (hnot c hc (hpid.trans htold.symm)).elim
      · rw [hstopped] at hnot
        cases hnot
    · exact ⟨h.complete hends hcases { t with clock := t.clock.tick, shown } hcalm hpids later htold
        hc hpid _, Nat.le_of_succ_le_succ hfuel⟩
  | stopped d pid htold hstopped live later =>
    refine streams.ensures_done h.calm hahead fun t hcalm hrest => ?_
    subst hrest
    refine ensures_note (fun _ shown => ?_) fun pos c hc hpid hended => ?_
    · exact ⟨h.keep hends hcases hcalm (hpids ▸ later), Nat.le_of_succ_le_succ hfuel⟩
    · rw [hstopped] at hended
      cases hended
  | stranger d pid htold unknown later =>
    refine streams.ensures_done h.calm hahead fun t hcalm hrest => ?_
    subst hrest
    refine ensures_note (fun _ shown => ?_) fun pos c hc hpid hended => ?_
    · exact ⟨h.keep hends hcases hcalm (hpids ▸ later), Nat.le_of_succ_le_succ hfuel⟩
    · have hmem := mem_pids.2 ⟨c, List.mem_of_getElem? hc, hpid.trans htold⟩
      exact (unknown (Multiset.mem_of_le h.known hmem)).elim
  | interrupted q broken later =>
    refine streams.ensures_broken h.calm hahead fun t hcalm hrest => ?_
    subst hrest
    exact ⟨⟨h.keep hends hcases hcalm (hpids ▸ later), Nat.le_of_succ_le_succ hfuel⟩, q, rfl,
      broken⟩

/-- When nothing is left to come, or nothing is outstanding, all running cases are completed. -/
theorem Gathering.reaped_all (h : Gathering ahead l ends n s)
    (hend : (ahead s.host.backend).length = 0 ∨ s.list.outstanding ≤ 0) :
    n = l.live.length ∧ s.list.outstanding = 0 ∧
      List.Forall₂ (Reaped ends) l.items s.list.items := by
  obtain ⟨told, left, hends, hcases, hstream⟩ := h.cases
  have hcounted : s.list.outstanding = s.list.live.length := h.counted
  have hreaped := h.reaped
  have hcard := card_pids (l := s.list)
  have hzero : s.list.pids = 0 := by
    rcases hend with hend | hend
    · rw [List.length_eq_zero_iff.1 hend] at hstream
      generalize s.list.pids = running at hstream
      cases hstream
      rfl
    · exact Multiset.card_eq_zero.1 (by omega)
  rw [hzero] at hstream hcard
  have hlive : s.list.live.length = 0 := hcard.symm
  refine ⟨by omega, by omega, ?_⟩
  rw [hstream.ends_eq_nil, List.append_nil] at hends
  subst hends
  have hidle := pid_of_live (List.length_eq_zero_iff.1 hlive)
  refine hcases.imp_of_mem fun c _ c' hc' hgathered => ?_
  cases hgathered with
  | kept => exact .kept (hidle c hc')
  | completed d time mem running pid => exact .completed d time mem running pid

theorem ensures_reap_gathering (streams : launcher.Streams ahead)
    (h : Gathering ahead s.list ends 0 s) :
    Ensures (reap launcher) (fun n t => n = s.list.live.length ∧ t.list.outstanding = 0 ∧
      List.Forall₂ (Reaped ends) s.list.items t.list.items ∧ t.list.maxRank = s.list.maxRank)
      (fun _ _ => False) s := by
  have hloop : Ensures (reapFrom launcher (launcher.patience s.host) 0) _ _ s :=
    ensures_reapFrom_counting (E := fun _ => False)
      (K := fun fuel n t => Gathering ahead s.list ends n t ∧ (ahead t.host.backend).length ≤ fuel)
      (R := fun n t => n = s.list.live.length ∧ t.list.outstanding = 0 ∧
        List.Forall₂ (Reaped ends) s.list.items t.list.items ∧ t.list.maxRank = s.list.maxRank)
      ?_ ?_ _ 0 s ⟨h, streams.patience s.host⟩
  · refine (ensures_reap_counting hloop).mono (fun _ _ ht => ht.1) ?_
    rintro f t (hf | ⟨⟨_, _, hzero, _⟩, hout, _⟩)
    · exact hf
    · omega
  · rintro fuel n t ⟨ht, hfuel⟩ hstop
    have hend : (ahead t.host.backend).length = 0 ∨ t.list.outstanding ≤ 0 := by
      rcases hstop with rfl | hout | hreq
      · exact .inl (Nat.le_zero.1 hfuel)
      · exact .inr hout
      · rw [ht.calm] at hreq
        cases hreq
    obtain ⟨hcount, hzero, hcases⟩ := ht.reaped_all hend
    exact ⟨hcount, hzero, hcases, ht.maxRank⟩
  · rintro fuel n t ⟨ht, hfuel⟩ hout _
    refine (ensures_waitAny_gathering streams ht hfuel hout).mono ?_ ?_
    · rintro (_ | d) host hd
      · exact hd.elim
      · exact hd
    · exact fun f host hf => ⟨hf.1, .inr hf.2⟩

/-- Two completions of one case by the same completion differ in their times. -/
theorem Reaped.unstopped_eq {ends' : List Completion} {c₁ c₂ : Case} (h₁ : Reaped ends c c₁)
    (h₂ : Reaped ends' c c₂)
    (hsame : ∀ d ∈ ends, ∀ d' ∈ ends', d.pid = d'.pid → d = d') : c₂.unstopped = c₁.unstopped := by
  cases h₁ with
  | kept hidle =>
    cases h₂ with
    | kept => rfl
    | completed d' _ _ hrunning => rw [hidle] at hrunning; cases hrunning
  | completed d time hd hrunning hpid =>
    cases h₂ with
    | kept hidle => rw [hidle] at hrunning; cases hrunning
    | completed d' time' hd' _ hpid' =>
      cases hsame d hd d' hd' (hpid.trans hpid'.symm)
      rfl

/-- The children of a list may end in any order, and there may be all kinds of replies in between.
To collect them answers with their number. Each case that was running is completed by what was told
of its child, and all others are as they were. To what it comes does not depend on the order or on
the replies in between, but for the times. -/
theorem reap_interleaved (streams : launcher.Streams ahead) (hn : l.pids.Nodup)
    (hout : l.outstanding = l.live.length) {h h' : Host σ} (hcalm : h.requested = false)
    (hcalm' : h'.requested = false) {ends ends' : List Completion}
    (hstream : Interleaves l.pids l.pids ends (ahead h.backend))
    (hstream' : Interleaves l.pids l.pids ends' (ahead h'.backend)) (hperm : ends.Perm ends') :
    ∃ t t' : Scope Case σ,
      (reap launcher).run ⟨l, h⟩ = .ok l.live.length t ∧
      t.list.outstanding = 0 ∧ t.list.maxRank = l.maxRank ∧
      List.Forall₂ (Reaped ends) l.items t.list.items ∧
      (reap launcher).run ⟨l, h'⟩ = .ok l.live.length t' ∧
      t'.list.timeless = t.list.timeless := by
  obtain ⟨n, t, hrun, rfl, hzero, hcases, hmax⟩ := (ensures_reap_gathering streams
    (s := ⟨l, h⟩) (gathering_of_interleaves hcalm hout hstream)).exists_ok
  obtain ⟨n', t', hrun', rfl, hzero', hcases', hmax'⟩ := (ensures_reap_gathering streams
    (s := ⟨l, h'⟩) (gathering_of_interleaves hcalm' hout hstream')).exists_ok
  have hsame : ∀ d ∈ ends, ∀ d' ∈ ends', d.pid = d'.pid → d = d' :=
    fun d hd d' hd' => hstream.eq_of_pid hn hd (hperm.mem_iff.2 hd')
  refine ⟨t, t', hrun, hzero, hmax, hcases, hrun', ?_⟩
  have hitems : t'.list.items.map Case.unstopped = t.list.items.map Case.unstopped := by
    refine List.map_eq_of_forall₂ (hcases.flip.comp hcases') ?_
    rintro c₁ c₂ ⟨c, h₁, h₂⟩
    exact h₁.unstopped_eq h₂ hsame
  rw [timeless, timeless, hitems, hzero, hzero', hmax, hmax']

/-- Three cases, of which two are running. -/
def pairRunning : Siblings Case where
  items := [{ id := "a", pid := some 11 }, { id := "b" }, { id := "c", pid := some 12 }]
  outstanding := 2

def exited : Completion := { pid := some 11, exit := some 3 }

def killed : Completion := { pid := some 12, signal := some 9 }

/-- A strange child ends, a wait is broken off, and a child is stopped before it ends. -/
def noisyScript : Scripted where
  anys := [.done { pid := some 99, exit := some 0 } false none, .done exited false none,
    .fails (.system 4 "Interrupted system call"), .done { killed with stopped := true } false none,
    .done killed false none]

def plainScript : Scripted where
  anys := [.done killed false none, .done exited false none]

theorem pairRunning_pids : pairRunning.pids = 11 ::ₘ 12 ::ₘ 0 := rfl

theorem noisyScript_interleaves : Interleaves pairRunning.pids pairRunning.pids [exited, killed]
    (Scripted.upcoming noisyScript.anys) := by
  rw [pairRunning_pids]
  refine .stranger _ 99 rfl (by decide) (.ended _ 11 rfl rfl (.interrupted _ rfl ?_))
  exact .stopped _ 12 rfl rfl (by decide) (.ended _ 12 rfl rfl (.nil _))

theorem plainScript_interleaves : Interleaves pairRunning.pids pairRunning.pids [killed, exited]
    (Scripted.upcoming plainScript.anys) := by
  rw [pairRunning_pids, Multiset.cons_swap]
  exact .ended _ 12 rfl rfl (.ended _ 11 rfl rfl (.nil _))

theorem reap_interleaved_pairRunning :
    pairRunning.pids.Nodup ∧ pairRunning.outstanding = pairRunning.live.length ∧
      ∃ t t' : Scope Case Scripted,
        (reap Scripted.launcher).run ⟨pairRunning, { backend := noisyScript }⟩ = .ok 2 t ∧
        t.list.outstanding = 0 ∧ t.list.maxRank = 0 ∧
        List.Forall₂ (Reaped [exited, killed]) pairRunning.items t.list.items ∧
        (reap Scripted.launcher).run ⟨pairRunning, { backend := plainScript }⟩ = .ok 2 t' ∧
        t'.list.timeless = t.list.timeless :=
  have hn : pairRunning.pids.Nodup := by decide
  ⟨hn, rfl, reap_interleaved Scripted.streams hn rfl rfl rfl noisyScript_interleaves
    plainScript_interleaves (.swap _ _ _)⟩

end Schedule
end RankRunner
