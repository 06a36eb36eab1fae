import RankRunner.Launcher.InProcess
import RankRunner.Proofs.Execution.Caught
import RankRunner.Proofs.Schedule.Returned

/-! # No completion is lost in the runner's own process

A launcher is asked one thing after the other (`Service.after`), and whatever it was asked, each
exchange is kept. The completions that cases in the runner's own process leave are then in one of
three places: with the launcher, told in answer to a wait, or discarded (`Conserving`). How a single
request is answered depends on what the launcher has kept until then (`Answered`), and this is all
that one has to know of a request in order to see that nothing is lost
(`Conserving.add`, `completions_conserved`). -/

namespace RankRunner

open Effect

variable {σ α : Type}

/-- The surroundings of a launcher in a given state. -/
def Host.around (h : Host Unit) (backend : σ) : Host σ := { h with backend }

namespace Launcher

/-- What can be asked of a launcher. -/
inductive Request where
  | start (siblings : Siblings Case) (c : Case)
  | wait (pid : Int)
  | waitAny
  | kill (pid : Int)
  | drain

/-- An operation of a launcher and its answer, with the surroundings before and after it. -/
structure Exchange (σ : Type) where
  before : Host σ
  act : Act
  after : Host σ

/-- What comes of an operation, `act` being the operation with its answer. -/
def exchange (act : Except Failure α → Act) (x : Effect (Host σ) α) (h : Host σ) : Exchange σ :=
  match x.run h with
  | .ok a t => ⟨h, act (.ok a), t⟩
  | .error f t => ⟨h, act (.error f), t⟩

def ask (launcher : Launcher σ) (h : Host σ) : Request → Exchange σ
  | .start l c => exchange (.start l c) (launcher.start l c) h
  | .wait pid => exchange (.wait pid) (launcher.wait pid) h
  | .waitAny => exchange .waitAny launcher.waitAny h
  | .kill pid => exchange (.kill pid) (launcher.kill pid) h
  | .drain => exchange .drain launcher.drain h

theorem exchange_before (act : Except Failure α → Act) (x : Effect (Host σ) α) (h : Host σ) :
    (exchange act x h).before = h := by
  unfold exchange
  split <;> rfl

theorem ask_before (launcher : Launcher σ) (h : Host σ) (r : Request) :
    (launcher.ask h r).before = h := by
  cases r <;> exact exchange_before ..

theorem exchange_of_ensures {x : Effect (Host σ) α} {h : Host σ} {Q : α → Host σ → Prop}
    {E : Failure → Host σ → Prop} (hx : Ensures x Q E h) (act : Except Failure α → Act) :
    (∃ a, (exchange act x h).act = act (.ok a) ∧ Q a (exchange act x h).after) ∨
      ∃ f, (exchange act x h).act = act (.error f) ∧ E f (exchange act x h).after := by
  unfold Ensures at hx
  unfold exchange
  cases hrun : x.run h with
  | ok a t =>
    rw [hrun] at hx
    exact .inl ⟨a, rfl, hx⟩
  | error f t =>
    rw [hrun] at hx
    exact .inr ⟨f, rfl, hx⟩

namespace Exchange

/-- The number with which a case was started. -/
def started (e : Exchange σ) : List Int :=
  match e.act with
  | .start _ _ (.ok pid) => [pid]
  | _ => []

/-- The completion that a wait answered with. -/
def delivered (e : Exchange σ) : List Completion :=
  match e.act with
  | .wait _ (.ok d) | .waitAny (.ok (some d)) => [d]
  | _ => []

end Exchange

/-- A launcher with all that it was asked. -/
structure Service (σ : Type) where
  backend : σ
  exchanges : List (Exchange σ) := []

namespace Service

def add (s : Service σ) (e : Exchange σ) : Service σ :=
  { backend := e.after.backend, exchanges := s.exchanges ++ [e] }

/-- Ask one thing more. The surroundings may have changed since the last time. -/
def ask (launcher : Launcher σ) (s : Service σ) (q : Host Unit × Request) : Service σ :=
  s.add (launcher.ask (q.1.around s.backend) q.2)

/-- Ask a launcher that was not asked before. -/
def after (launcher : Launcher σ) (new : σ) (qs : List (Host Unit × Request)) : Service σ :=
  qs.foldl (ask launcher) { backend := new }

/-- The numbers with which cases were started. -/
def started (s : Service σ) : List Int := s.exchanges.flatMap (·.started)

/-- The completions that waits answered with. -/
def delivered (s : Service σ) : List Completion := s.exchanges.flatMap (·.delivered)

@[simp] theorem started_add (s : Service σ) (e : Exchange σ) :
    (s.add e).started = s.started ++ e.started := by
  simp [started, add]

@[simp] theorem delivered_add (s : Service σ) (e : Exchange σ) :
    (s.add e).delivered = s.delivered ++ e.delivered := by
  simp [delivered, add]

end Service

end Launcher

/-- A call leaves the launcher alone. Only a function that is not orderly raises anything fatal. -/
theorem Case.ensures_call_fatal {c : Case} {h : Host σ} :
    Ensures c.call (fun _ t => t.backend = h.backend)
      (fun f t => t.backend = h.backend ∧ (f.isFatal = true → ¬ c.Orderly)) h := by
  by_cases hc : c.Orderly
  · have hkeeps : Preserves (·.isFatal = false) (Host.In (· = h.backend)) c.call :=
      hc.call_preserves
    refine (hkeeps h rfl).mono (fun _ _ ht => ht) fun f t ht => ⟨ht.1, fun hf => ?_⟩
    rw [ht.2] at hf
    cases hf
  · exact ensures_call_backend.mono (fun _ _ ht => ht) fun _ _ ht => ⟨ht, fun _ => hc⟩

namespace InProcess

/-- The surroundings in which the function of a case is called: a number has been taken for it. -/
def begun (h : Host InProcess) : Host InProcess :=
  { h with backend := { h.backend with nextPid := h.backend.nextPid + 1 } }

/-- What is to be told of a case that is started with a number: how its function ends. -/
def completionOf (c : Case) (pid : Int) (h : Host InProcess) : Completion :=
  match c.call.run (begun h) with
  | .ok code _ => { pid := some pid, exit := some code }
  | .error _ _ => { pid := some pid, signal := some abortSignal }

@[simp] theorem completionOf_pid (c : Case) (pid : Int) (h : Host InProcess) :
    (completionOf c pid h).pid = some pid := by
  unfold completionOf
  split <;> rfl

end InProcess

namespace Launcher

/-- The completion of the case that was started. -/
def Exchange.made (e : Exchange InProcess) : List Completion :=
  match e.act with
  | .start _ c (.ok pid) => [InProcess.completionOf c pid e.before]
  | _ => []

/-- The completions that were pending as all was drained. -/
def Exchange.discarded (e : Exchange InProcess) : List Completion :=
  match e.act with
  | .drain (.ok _) => e.before.backend.done
  | _ => []

namespace Service

/-- The completions of the cases that were started, in the order of their starts. -/
def made (s : Service InProcess) : List Completion := s.exchanges.flatMap (·.made)

def discarded (s : Service InProcess) : List Completion := s.exchanges.flatMap (·.discarded)

@[simp] theorem made_add (s : Service InProcess) (e : Exchange InProcess) :
    (s.add e).made = s.made ++ e.made := by
  simp [made, add]

@[simp] theorem discarded_add (s : Service InProcess) (e : Exchange InProcess) :
    (s.add e).discarded = s.discarded ++ e.discarded := by
  simp [discarded, add]

end Service

end Launcher

namespace InProcess

open Launcher

/-! ## One request -/

/-- A case that is started is called at once, and its completion is kept behind the others. -/
theorem ensures_start_made {l : Siblings Case} {c : Case} {h : Host InProcess} :
    Ensures (start l c)
      (fun pid t => pid = h.backend.nextPid ∧ t.backend =
        ⟨h.backend.nextPid + 1, h.backend.done ++ [completionOf c pid h]⟩)
      (fun f t => (f.isFatal = true ∧ ¬ c.Orderly) ∧ t.backend = (begun h).backend) h := by
  have hpush (d : Completion) (hd : d = completionOf c h.backend.nextPid h) {t : Host InProcess}
      (ht : t.backend = (begun h).backend) : Ensures (do push d; return h.backend.nextPid)
        (fun pid t => pid = h.backend.nextPid ∧ t.backend =
          ⟨h.backend.nextPid + 1, h.backend.done ++ [completionOf c pid h]⟩)
        (fun f t => (f.isFatal = true ∧ ¬ c.Orderly) ∧ t.backend = (begun h).backend) t := by
    refine ⟨rfl, ?_⟩
    show InProcess.mk t.backend.nextPid (t.backend.done ++ [d]) = _
    rw [ht, hd]
    rfl
  simp only [start, ensures_bind, ensures_get, ensures_modify, ensures_attempt]
  refine (ensures_run.and (Case.ensures_call_fatal (h := begun h))).mono ?_ ?_
  · rintro code t ⟨hrun, ht⟩
    exact hpush _ (by rw [completionOf, hrun]) ht
  · rintro f t ⟨hrun, ht, hfatal⟩
    cases hf : f.isFatal with
    | true =>
      rw [if_pos rfl]
      exact ⟨⟨hf, hfatal hf⟩, ht⟩
    | false =>
      rw [if_neg Bool.false_ne_true, ensures_bind, Host.ensures_warn]
      exact hpush _ (by rw [completionOf, hrun]) ht

/-- A wait by number takes the first completion of that number away. -/
theorem ensures_wait_taken {pid : Int} {h : Host InProcess} : Ensures (wait pid)
    (fun d t => ∃ before after, h.backend.done = before ++ d :: after ∧ d.pid = some pid ∧
      t.backend = { h.backend with done := before ++ after })
    (fun f t => (some pid ∉ h.backend.done.map (·.pid) ∧ f = .raised (.noSuchChild pid)) ∧
      t.backend = h.backend) h := by
  simp only [wait, ensures_bind, ensures_get]
  split
  · next hnone =>
    refine ⟨⟨fun hmem => ?_, rfl⟩, rfl⟩
    obtain ⟨d, hd, hpid⟩ := List.mem_map.1 hmem
    simpa [hpid] using List.find?_eq_none.1 hnone d hd
  · next d hd =>
    obtain ⟨hpid, before, after, hdone, hbefore⟩ := List.find?_eq_some_iff_append.1 hd
    refine ⟨before, after, hdone, by simpa using hpid, ?_⟩
    have hrest : h.backend.done.eraseP (·.pid == some pid) = before ++ after := by
      rw [hdone, List.eraseP_append_right _ (by simpa using hbefore), List.eraseP_cons, hpid,
        cond_true]
    show InProcess.mk h.backend.nextPid (h.backend.done.eraseP (·.pid == some pid)) = _
    rw [hrest]

theorem ensures_waitAny_head {h : Host InProcess} : Ensures waitAny
    (fun d? t => d? = h.backend.done.head? ∧
      t.backend = { h.backend with done := h.backend.done.tail })
    (fun _ _ => False) h := by
  simp only [waitAny, ensures_bind, ensures_get]
  split
  · next hdone => exact ⟨by rw [hdone]; rfl, by rw [hdone]; exact congrArg (InProcess.mk _) hdone⟩
  · next d done hdone => exact ⟨by rw [hdone]; rfl, by rw [hdone]; rfl⟩

/-- How a request is answered, and what becomes of the launcher. -/
inductive Answered (s : Service InProcess) (e : Exchange InProcess) : Request → Prop
  /-- The case gets a number that none got before, and its completion comes last. -/
  | started (l : Siblings Case) (c : Case) : s.backend.nextPid ∉ s.started →
    e.act = .start l c (.ok s.backend.nextPid) →
    e.after.backend = ⟨s.backend.nextPid + 1,
      s.backend.done ++ [completionOf c s.backend.nextPid e.before]⟩ → Answered s e (.start l c)
  /-- The function stops the runner itself, which only one that is not orderly does. -/
  | stopped (l : Siblings Case) (c : Case) (f : Failure) : ¬ c.Orderly → f.isFatal = true →
    e.act = .start l c (.error f) →
    e.after.backend = { s.backend with nextPid := s.backend.nextPid + 1 } →
    Answered s e (.start l c)
  | found (pid : Int) (before after : List Completion) (d : Completion) :
    s.backend.done = before ++ d :: after → d.pid = some pid → e.act = .wait pid (.ok d) →
    e.after.backend = { s.backend with done := before ++ after } → Answered s e (.wait pid)
  | unknown (pid : Int) : some pid ∉ s.backend.done.map (·.pid) →
    e.act = .wait pid (.error (.raised (.noSuchChild pid))) → e.after.backend = s.backend →
    Answered s e (.wait pid)
  /-- The oldest completion is told, or that there is none. -/
  | oldest : e.act = .waitAny (.ok s.backend.done.head?) →
    e.after.backend = { s.backend with done := s.backend.done.tail } → Answered s e .waitAny
  | spared (pid : Int) : e.act = .kill pid (.ok ()) → e.after.backend = s.backend →
    Answered s e (.kill pid)
  | drained : e.act = .drain (.ok s.backend.done.length) →
    e.after.backend = { s.backend with done := [] } → Answered s e .drain

/-! ## All requests -/

variable {s : Service InProcess}

/-- What was made is with the launcher, in the order of the starts, or was told, or discarded. -/
structure Conserving (s : Service InProcess) : Prop where
  numbers : s.made.map (·.pid) = s.started.map some
  distinct : s.started.Nodup
  numbered : ∀ pid ∈ s.started, pid < s.backend.nextPid
  inOrder : s.backend.done.Sublist s.made
  conserved : (s.backend.done ++ s.delivered ++ s.discarded).Perm s.made

theorem Conserving.fresh (h : Conserving s) : s.backend.nextPid ∉ s.started := fun hmem =>
  Int.lt_irrefl _ (h.numbered _ hmem)

theorem Conserving.answered (h : Conserving s) (u : Host Unit) (r : Request) :
    Answered s (launcher.ask (u.around s.backend) r) r := by
  cases r with
  | start l c =>
    rcases exchange_of_ensures (ensures_start_made (l := l)) (.start l c) with
      ⟨pid, he, rfl, ht⟩ | ⟨f, he, ⟨hf, hc⟩, ht⟩
    · exact .started l c h.fresh he (by rw [ask_before]; exact ht)
    · exact .stopped l c f hc hf he ht
  | wait pid =>
    rcases exchange_of_ensures ensures_wait_taken (.wait pid) with
      ⟨d, he, before, after, hdone, hpid, ht⟩ | ⟨f, he, ⟨hnot, rfl⟩, ht⟩
    · exact .found pid before after d hdone hpid he ht
    · exact .unknown pid hnot he ht
  | waitAny =>
    rcases exchange_of_ensures ensures_waitAny_head .waitAny with ⟨d?, he, rfl, ht⟩ | ⟨f, -, hf⟩
    · exact .oldest he ht
    · exact hf.elim
  | kill pid => exact .spared pid rfl rfl
  | drain => exact .drained rfl rfl

/-- It is enough that an exchange conserves what was kept before it and what is made in it. -/
theorem Conserving.grow (h : Conserving s) {e : Exchange InProcess}
    (hnumbers : e.made.map (·.pid) = e.started.map some) (hnew : (s.started ++ e.started).Nodup)
    (hnext : ∀ pid ∈ s.started ++ e.started, pid < e.after.backend.nextPid)
    (horder : e.after.backend.done.Sublist (s.made ++ e.made))
    (hparts : (e.after.backend.done ++ e.delivered ++ e.discarded).Perm
      (s.backend.done ++ e.made)) : Conserving (s.add e) := by
  refine ⟨?_, ?_, ?_, ?_, ?_⟩
  · rw [Service.made_add, Service.started_add, List.map_append, List.map_append, h.numbers,
      hnumbers]
  · rw [Service.started_add]
    exact hnew
  · rw [Service.started_add]
    exact hnext
  · rw [Service.made_add]
    exact horder
  · rw [Service.made_add, Service.delivered_add, Service.discarded_add]
    refine List.perm_iff_count.2 fun d => ?_
    have hd := hparts.count_eq d
    have hs := h.conserved.count_eq d
    simp only [Service.add, List.count_append] at hd hs ⊢
    omega

/-- No case is started. What the launcher has kept stays with it, is told or is discarded. -/
theorem Conserving.keep (h : Conserving s) {e : Exchange InProcess} {next : Int}
    {kept : List Completion} (hafter : e.after.backend = ⟨next, kept⟩)
    (hnext : s.backend.nextPid ≤ next) (hstarted : e.started = []) (hmade : e.made = [])
    (horder : kept.Sublist s.backend.done)
    (hparts : (kept ++ e.delivered ++ e.discarded).Perm s.backend.done) :
    Conserving (s.add e) := by
  apply h.grow <;> simp only [hafter, hstarted, hmade, List.append_nil, List.map_nil]
  · exact h.distinct
  · intro pid hpid
    exact Int.lt_of_lt_of_le (h.numbered pid hpid) hnext
  · exact horder.trans h.inOrder
  · exact hparts

/-- A case is started, and its completion comes last. -/
theorem Conserving.start (h : Conserving s) {e : Exchange InProcess} {d : Completion}
    (hd : d.pid = some s.backend.nextPid)
    (hafter : e.after.backend = ⟨s.backend.nextPid + 1, s.backend.done ++ [d]⟩)
    (hstarted : e.started = [s.backend.nextPid]) (hmade : e.made = [d])
    (htold : e.delivered = []) (hgone : e.discarded = []) : Conserving (s.add e) := by
  apply h.grow <;> simp only [hafter, hstarted, hmade, htold, hgone, List.append_nil]
  · rw [List.map_singleton, List.map_singleton, hd]
  · rw [← List.concat_eq_append]
    exact h.distinct.concat h.fresh
  · intro pid hpid
    rcases List.mem_append.1 hpid with hpid | hpid
    · exact Int.lt_trans (h.numbered pid hpid) (Int.lt_succ _)
    · rw [List.mem_singleton.1 hpid]
      exact Int.lt_succ _
  · exact h.inOrder.append_right _
  · exact .refl _

theorem Conserving.add (h : Conserving s) {e : Exchange InProcess} {r : Request}
    (he : Answered s e r) (hbefore : e.before.backend = s.backend) : Conserving (s.add e) := by
  have hkept : (s.backend.done ++ [] ++ []).Perm s.backend.done := by simp
  obtain ⟨before, act, after⟩ := e
  cases he with
  | started l c _ hact hafter =>
    cases hact
    exact h.start (completionOf_pid ..) hafter rfl rfl rfl rfl
  | stopped l c f _ _ hact hafter =>
    cases hact
    exact h.keep hafter (Int.le_of_lt (Int.lt_succ _)) rfl rfl (.refl _) hkept
  | found pid front back d hdone _ hact hafter =>
    cases hact
    refine h.keep hafter (Int.le_refl _) rfl rfl ?_ ?_
    · rw [hdone]
      exact (List.sublist_cons_self ..).append_left _
    · show (front ++ back ++ [d] ++ []).Perm _
      rw [List.append_nil, hdone]
      exact (List.perm_append_singleton ..).trans List.perm_middle.symm
  | unknown pid _ hact hafter =>
    cases hact
    exact h.keep hafter (Int.le_refl _) rfl rfl (.refl _) hkept
  | oldest hact hafter =>
    cases hact
    refine h.keep hafter (Int.le_refl _) rfl rfl (List.tail_sublist _) ?_
    cases s.backend.done with
    | nil => exact .nil
    | cons d rest =>
      show (rest ++ [d] ++ []).Perm _
      rw [List.append_nil]
      exact List.perm_append_singleton ..
  | spared pid hact hafter =>
    cases hact
    exact h.keep hafter (Int.le_refl _) rfl rfl (.refl _) hkept
  | drained hact hafter =>
    cases hact
    exact h.keep hafter (Int.le_refl _) rfl rfl (List.nil_sublist _)
      (.of_eq (congrArg (·.done) hbefore))

theorem conserving_after (qs : List (Host Unit × Request)) :
    Conserving (Service.after launcher {} qs) := by
  induction qs using List.reverseRecOn with
  | nil => exact ⟨rfl, List.nodup_nil, nofun, .refl _, .refl _⟩
  | append_singleton qs q ih =>
    rw [Service.after, List.foldl_append]
    exact ih.add (ih.answered q.1 q.2) (congrArg (·.backend) (ask_before ..))

/-- What holds of all that was asked, and of any request that comes next. -/
structure Lossless (s : Service InProcess) : Prop extends Conserving s where
  /-- Each number with which a case was started is pending, told or discarded, just once. -/
  once : ∀ pid, (s.backend.done.map (·.pid)).count (some pid) +
    (s.delivered.map (·.pid)).count (some pid) + (s.discarded.map (·.pid)).count (some pid) =
      if pid ∈ s.started then 1 else 0
  next : ∀ (u : Host Unit) (r : Request), Answered s (launcher.ask (u.around s.backend) r) r

theorem Conserving.lossless (h : Conserving s) : Lossless s where
  toConserving := h
  once pid := by
    have hcount := (h.conserved.map (·.pid)).count_eq (some pid)
    rw [h.numbers, List.map_append, List.map_append, List.count_append, List.count_append,
      List.count_map_of_injective _ _ (Option.some_injective _)] at hcount
    rw [hcount, h.distinct.count]
  next := h.answered

/-- Whatever cases were started and whatever was asked in between, in whatever surroundings: no
completion is lost, none is told twice, those that are kept stand in the order of the starts, and
the next request is answered accordingly. -/
theorem completions_conserved (qs : List (Host Unit × Request)) :
    Lossless (Service.after launcher {} qs) :=
  (conserving_after qs).lossless

/-- Of four cases that are started the third is waited for, and then the oldest. -/
example : let new : Host Unit := { backend := () }
    let start (id : String) : Host Unit × Request := (new, .start {} { id })
    let s := Service.after launcher {} [start "lint", start "build", start "test", start "ship",
      (new, .wait 3), (new, .waitAny), (new, .wait 1), (new, .drain), (new, .waitAny)]
    s.started = [1, 2, 3, 4] ∧ s.delivered.map (·.pid) = [some 3, some 1] ∧
      s.discarded.map (·.pid) = [some 2, some 4] ∧ s.backend.done.map (·.pid) = [] := by
  decide

end InProcess
end RankRunner
