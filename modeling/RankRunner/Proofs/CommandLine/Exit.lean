import RankRunner.Proofs.CommandLine.Delivery
import RankRunner.Proofs.Config

/-! # The exit code of an invocation

An invocation that has something to run, an `Errand`, ends with zero exactly if the run comes to its
end with nothing but successes and its report is written in full; any other end gives one. Invalid
options give two. A run that cannot be built, or that ends with a failure, leaves all files as they
are and shows nothing but what went wrong. -/

namespace RankRunner

open Effect

theorem Selection.select_subset {groups selected : List Group} {names : List String}
    (h : select groups names = .ok selected) : selected ⊆ groups := by
  unfold select at h
  split at h
  · cases h
    exact List.Subset.refl _
  · cases hf : follow groups [] names.reverse with
    | error f =>
      rw [hf] at h
      cases h
    | ok wanted =>
      rw [hf] at h
      cases h
      exact List.filter_sublist.subset

namespace CommandLine

variable {w : Surroundings} {args : List String} {files : Files} {s s' : Shell}

/-- The choice and the configuration that valid options come to. -/
def settings? (w : Surroundings) (args : List String) : Option (Choice × Config) :=
  match parse args with
  | .error _ => none
  | .ok given =>
    match choose w.env given with
    | .error _ => none
    | .ok c =>
      match configOf w.env w.cpus c with
      | .error _ => none
      | .ok config => some (c, config)

theorem settings?_eq_some_iff {c : Choice} {config : Config} :
    settings? w args = some (c, config) ↔ ∃ given, parse args = .ok given ∧
      choose w.env given = .ok c ∧ configOf w.env w.cpus c = .ok config := by
  unfold settings?
  constructor
  · intro h
    split at h
    · cases h
    next given hgiven =>
    split at h
    · cases h
    next c' hc =>
    split at h
    · cases h
    next config' hconfig =>
    cases h
    exact ⟨given, hgiven, hc, hconfig⟩
  · rintro ⟨given, hgiven, hc, hconfig⟩
    simp only [hgiven, hc, hconfig]

/-- Neither help nor a listing is asked for. -/
def Runs (args : List String) : Prop :=
  ∀ given, parse args = .ok given → flagsOf .help given = [] ∧ flagsOf .list given = []

/-- What an invocation is to run: its options are valid, and its suite can be found and loaded. -/
structure Errand (w : Surroundings) (args : List String) (files : Files) where
  choice : Choice
  config : Config
  path : String
  groups : List Group
  valid : settings? w args = some (choice, config)
  found : findSuite files choice.suite = .ok (.ok path)
  loads : files.load path = .ok groups

namespace Errand

/-- The options and the files determine what is to be run. -/
theorem unique (e e' : Errand w args files) : e' = e := by
  obtain ⟨c, config, path, groups, hvalid, hfound, hloads⟩ := e
  obtain ⟨c', config', path', groups', hvalid', hfound', hloads'⟩ := e'
  cases hvalid.symm.trans hvalid'
  cases hfound.symm.trans hfound'
  cases hloads.symm.trans hloads'
  rfl

variable (e : Errand w args files)

/-- The run of the selected groups. -/
def run : Except Fault Run := buildRun e.groups e.config (Path.stem (Path.name e.path)) w.hostName

/-- The host, with the console that the options choose. -/
def enter (h : Host Forked) : Host Forked :=
  { h with console := { debug := e.choice.debug, verbose := e.choice.verbose } }

/-- The run as it starts. -/
def start (h : Host Forked) (r : Run) : Session Forked where
  run := r
  host := { e.enter h with shown := h.shown ++ Console.runStarted r (Path.name e.path) }

/-- What the run comes to. -/
def execution (h : Host Forked) (regime : Regime) (r : Run) :
    EStateM.Result Failure (Session Forked) Nat :=
  (Execution.runSuite regime Forked.launcher).run (e.start h r)

end Errand

/-- The run came to its end. -/
def Completed (e : Errand w args files) (h : Host Forked) (r : Run) (t : Session Forked) : Prop :=
  ∃ regime code, Regime.ofRun? r = .ok regime ∧ e.execution h regime r = .ok code t

/-- What is asked of an invocation that ends with zero: its options are valid, the selected groups
can be run, they and all of their cases succeed without an interruption, and the report is written
in full. -/
def Accomplished (w : Surroundings) (args : List String) (s s' : Shell) : Prop :=
  ∃ (e : Errand w args s.files) (r : Run) (t : Session Forked) (text : String),
    e.run = .ok r ∧ r.sequence.2 = none ∧ Completed e s.host r t ∧
    (∀ g ∈ t.run.groups.items, g.succeeded = true ∧ ∀ c ∈ g.cases.items, c.succeeded = true) ∧
    t.host.requested = false ∧ Written t.run ⟨t.host, s.files⟩ s' text

/-- An invocation fails before it comes to the report: the run cannot be built, or it ends with a
failure, be it in ranking, by an interruption or in collecting children. -/
inductive Broken (w : Surroundings) (args : List String) (s : Shell) :
    Failure → Host Forked → Prop
  | unbuilt (e : Errand w args s.files) {d : Fault} : e.run = .error d →
    Broken w args s (.fault d) (e.enter s.host)
  | failed (e : Errand w args s.files) {r : Run} {regime : Regime} {f : Failure}
    {t : Session Forked} : e.run = .ok r → Regime.ofRun? r = .ok regime →
    e.execution s.host regime r = .error f t → Broken w args s f t.host

/-! ## What an invocation does -/

theorem invoke_of_invalid (hruns : Runs args) (h : settings? w args = none) :
    ∃ s', (invoke w args).run s = .ok (.code 2) s' := by
  unfold settings? at h
  unfold invoke
  cases he : parse args with
  | error e => exact ⟨_, rfl⟩
  | ok given =>
    rw [he] at h
    dsimp only at h ⊢
    rw [(hruns given he).1]
    simp only [List.isEmpty_nil, Bool.not_true, Bool.false_eq_true, if_false]
    cases hc : choose w.env given with
    | error e => exact ⟨_, rfl⟩
    | ok c =>
      rw [hc] at h
      dsimp only at h ⊢
      unfold perform
      cases hconfig : configOf w.env w.cpus c with
      | error r => exact ⟨_, rfl⟩
      | ok config =>
        rw [hconfig] at h
        cases h

theorem explain_of_caught {f : Failure} (h : f.Caught) :
    escapes f = false ∧ (explain f).2 = .code 1 := by
  cases f with
  | fault d => exact ⟨rfl, rfl⟩
  | raised r =>
    obtain ⟨hfatal, hexit⟩ := h
    refine ⟨by simp [escapes, hfatal], ?_⟩
    have hkey : r.name ≠ "KeyboardInterrupt" := by
      intro hname
      simp [Raised.isFatal, hname] at hfatal
    simp [explain, hexit, hkey]

theorem choose_list {env : Environment} {given : List Given} {c : Choice}
    (h : choose env given = .ok c) : c.list = !(flagsOf .list given).isEmpty := by
  unfold choose at h
  dsimp only at h
  cases hcheck : checkAll ((valuesOf .format given).getLast?.getD env.formatOrDefault)
      (valuesOf .parallel given).getLast? (checkOrder given) with
  | error e =>
    rw [hcheck] at h
    cases h
  | ok _ =>
    rw [hcheck] at h
    simp only [bind, Except.bind] at h
    split at h
    · cases h
    · cases h
      rfl

/-- An errand runs the suite, and explains what is caught. -/
theorem Errand.ensures_invoke (e : Errand w args s.files) (hruns : Runs args)
    {Q : Exit → Shell → Prop} (h : Ensures (runSuite e.config false e.path w.hostName)
      (fun code => Q (.code code))
      (fun f t => f.Caught ∧ Q (.code 1) (t.showing (explain f).1)) ⟨e.enter s.host, s.files⟩) :
    Ensures (invoke w args) Q (fun _ _ => False) s := by
  obtain ⟨given, hgiven, hc, hconfig⟩ := settings?_eq_some_iff.1 e.valid
  obtain ⟨hhelp, hlist⟩ := hruns given hgiven
  have hno : e.choice.list = false := by
    rw [choose_list hc, hlist]
    rfl
  unfold invoke
  rw [hgiven]
  dsimp only
  rw [hhelp, hc]
  simp only [List.isEmpty_nil, Bool.not_true, Bool.false_eq_true, if_false]
  unfold perform
  rw [ensures_bind, ensures_modify, hconfig]
  simp only [ensures_bind, ensures_get, ensures_ofExcept, e.found, hno]
  refine ⟨fun found hfound => ?_, fun q hq => by cases hq⟩
  cases hfound
  rw [ensures_bind, ensures_attempt]
  refine h.mono (fun code t ht => ht) fun f t hft => ?_
  obtain ⟨hf, ht⟩ := hft
  obtain ⟨hescapes, hexit⟩ := explain_of_caught hf
  dsimp only
  rw [hescapes]
  simp only [Bool.false_eq_true, if_false, leave, ensures_bind, ensures_say, ensures_pure, hexit]
  exact ht

theorem Errand.exists_regime (e : Errand w args files) {r : Run} (h : e.run = .ok r) :
    ∃ regime, Regime.ofRun? r = .ok regime := by
  obtain ⟨given, -, -, hconfig⟩ := settings?_eq_some_iff.1 e.valid
  exact Regime.exists_ofRun? ((buildRun_settings h).1 ▸ Config.one_le_maxParallel hconfig)

/-- What becomes of the run of an errand: it is built, executed and reported. -/
theorem Errand.ensures_runSuite (e : Errand w args s.files) {Q : Int → Shell → Prop}
    {E : Failure → Shell → Prop}
    (unbuilt : ∀ d, e.run = .error d → E (.fault d) ⟨e.enter s.host, s.files⟩)
    (failed : ∀ r regime f t, e.run = .ok r → Regime.ofRun? r = .ok regime →
      e.execution s.host regime r = .error f t → E f ⟨t.host, s.files⟩)
    (unwritten : ∀ r t f u, e.run = .ok r → Completed e s.host r t → f.Caught →
      (¬ ∃ u text, Written t.run ⟨t.host, s.files⟩ u text) → E f u)
    (written : ∀ r regime code t u text, e.run = .ok r → Regime.ofRun? r = .ok regime →
      e.execution s.host regime r = .ok code t → Written t.run ⟨t.host, s.files⟩ u text →
      Q code u) :
    Ensures (runSuite e.config false e.path w.hostName) Q E ⟨e.enter s.host, s.files⟩ := by
  unfold runSuite
  rw [ensures_bind, ensures_get]
  dsimp only
  rw [e.loads]
  simp only [Bool.false_eq_true, if_false, pure_bind]
  cases hrun : e.run with
  | error d =>
    have hbuild : buildRun e.groups e.config (Path.stem (Path.name e.path)) w.hostName = .error d :=
      hrun
    rw [hbuild]
    exact unbuilt d hrun
  | ok r =>
    have hbuild : buildRun e.groups e.config (Path.stem (Path.name e.path)) w.hostName = .ok r :=
      hrun
    obtain ⟨regime, hregime⟩ := e.exists_regime hrun
    rw [hbuild]
    simp only [ensures_bind, ensures_say, execute, hregime, pure_bind, Effect.ofExcept, ensures_get]
    have hexec : (Execution.runSuite regime Forked.launcher).run ⟨r, (Shell.showing
        ⟨e.enter s.host, s.files⟩ (Console.runStarted r (Path.name e.path))).host⟩ =
        e.execution s.host regime r := rfl
    rw [hexec]
    cases hend : e.execution s.host regime r with
    | error f t => exact failed r regime f t hrun hregime hend
    | ok code t =>
      rw [ensures_bind, ensures_set, ensures_pure, ensures_bind]
      refine (ensures_writeReport t.run ⟨t.host, s.files⟩).mono (fun _ u hu => ?_)
        fun f u hf => unwritten r t f u hrun ⟨regime, code, hregime, hend⟩ hf.1 hf.2
      obtain ⟨text, hu⟩ := hu
      rw [ensures_bind, ensures_say, ensures_ite]
      have hresults := hu.showing (Console.results t.run)
      split
      · exact written r regime code t _ text hrun hregime hend (hresults.showing _)
      · exact written r regime code t _ text hrun hregime hend hresults

/-- A run that comes to its end was ranked and not asked to stop, and tells whether all of it
succeeded. -/
theorem Completed.facts {e : Errand w args files} {h : Host Forked} {r : Run} {regime : Regime}
    {code : Nat} {t : Session Forked} (hend : e.execution h regime r = .ok code t) :
    r.sequence.2 = none ∧ code = t.run.exitCode ∧ t.host.requested = false := by
  obtain ⟨r', fault, hseq⟩ : ∃ r' fault, r.sequence = (r', fault) := ⟨_, _, rfl⟩
  cases fault with
  | some d =>
    unfold Errand.execution Execution.runSuite Errand.start at hend
    rw [Execution.runSuiteUnder_of_fault hseq] at hend
    cases hend
  | none =>
    have hensures : Ensures (Execution.runSuite regime Forked.launcher)
        (fun code t => code = t.run.exitCode ∧ t.host.requested = false) (fun _ _ => True)
        (e.start h r) := by
      refine Execution.ensures_runSuite hseq fun _ _ => ensures_true.mono (fun _ t _ => ?_)
        fun _ _ _ _ _ => trivial
      split
      · exact fun _ _ => trivial
      · next hreq => exact fun _ _ _ => ⟨rfl, Bool.eq_false_iff.2 hreq⟩
    exact ⟨by rw [hseq], hensures.of_ok hend⟩

/-- Whatever stops the run of orderly cases is caught. -/
theorem Errand.execution_caught (e : Errand w args files) (horderly : ∀ g ∈ e.groups, g.Orderly)
    {h : Host Forked} (htable : h.backend.Systemic) {r : Run} {regime : Regime} {f : Failure}
    {t : Session Forked} (hrun : e.run = .ok r) (hend : e.execution h regime r = .error f t) :
    f.Caught := by
  have hgroups : ∀ g ∈ r.groups.items, g.Orderly := by
    unfold run buildRun at hrun
    dsimp only at hrun
    cases hselect : Selection.select e.groups e.config.groups with
    | error d =>
      rw [hselect] at hrun
      cases hrun
    | ok selected =>
      rw [hselect] at hrun
      rw [Run.addGroups_eq_append hrun]
      exact fun g hg => horderly g (Selection.select_subset hselect (by simpa using hg))
  exact ((Execution.runSuite_preserves Forked.caught _ ⟨hgroups, htable⟩).of_error hend).2

/-- What an exit code tells of an invocation and of the state that it leaves. -/
structure Verdict (w : Surroundings) (args : List String) (s : Shell) (n : Int) (s' : Shell) :
    Prop where
  zero : n = 0 ↔ Accomplished w args s s'
  two : n = 2 ↔ settings? w args = none
  range : n = 0 ∨ n = 1 ∨ n = 2
  /-- Where it did not come to a report, nothing is shown but what went wrong. -/
  broken : ∀ f h, Broken w args s f h → n = 1 ∧ s' = Shell.showing ⟨h, s.files⟩ (explain f).1

theorem Verdict.of_invalid (h : settings? w args = none) : Verdict w args s 2 s' := by
  have hnone (e : Errand w args s.files) : False := by
    have := e.valid
    rw [h] at this
    cases this
  refine ⟨iff_of_false (by decide) fun ⟨e, _⟩ => hnone e, iff_of_true rfl h, .inr (.inr rfl), ?_⟩
  intro f h hb
  cases hb with
  | unbuilt e _ => exact (hnone e).elim
  | failed e _ _ _ => exact (hnone e).elim

namespace Errand

variable (e : Errand w args s.files) {r : Run} {regime : Regime} {t : Session Forked} {f : Failure}
include e

/-- An errand has one run, which ends in one way. -/
theorem execution_unique {e' : Errand w args s.files} {r' : Run} {regime' : Regime}
    {x x' : EStateM.Result Failure (Session Forked) Nat} (hrun : e.run = .ok r)
    (hregime : Regime.ofRun? r = .ok regime) (hend : e.execution s.host regime r = x)
    (hrun' : e'.run = .ok r') (hregime' : Regime.ofRun? r' = .ok regime')
    (hend' : e'.execution s.host regime' r' = x') : x' = x := by
  obtain rfl := e.unique e'
  cases hrun.symm.trans hrun'
  cases hregime.symm.trans hregime'
  exact hend'.symm.trans hend

theorem verdict_one (hnot : ¬ Accomplished w args s s') (hbroken : ∀ f h, Broken w args s f h →
    s' = Shell.showing ⟨h, s.files⟩ (explain f).1) : Verdict w args s 1 s' where
  zero := iff_of_false (by decide) hnot
  two := iff_of_false (by decide) (by rw [e.valid]; nofun)
  range := .inr (.inl rfl)
  broken f h hb := ⟨rfl, hbroken f h hb⟩

theorem verdict_unbuilt {d : Fault} (hrun : e.run = .error d) : Verdict w args s 1
    (Shell.showing ⟨e.enter s.host, s.files⟩ (explain (.fault d)).1) := by
  refine e.verdict_one ?_ fun f h hb => ?_
  · rintro ⟨e', r, t, text, hrun', -⟩
    obtain rfl := e.unique e'
    cases hrun.symm.trans hrun'
  · cases hb with
    | unbuilt e' hrun' =>
      obtain rfl := e.unique e'
      cases hrun.symm.trans hrun'
      rfl
    | failed e' hrun' _ _ =>
      obtain rfl := e.unique e'
      cases hrun.symm.trans hrun'

theorem verdict_failed (hrun : e.run = .ok r) (hregime : Regime.ofRun? r = .ok regime)
    (hend : e.execution s.host regime r = .error f t) : Verdict w args s 1
    (Shell.showing ⟨t.host, s.files⟩ (explain f).1) := by
  refine e.verdict_one ?_ fun f h hb => ?_
  · rintro ⟨e', r', t, text, hrun', -, ⟨regime', code, hregime', hend'⟩, -⟩
    obtain rfl := e.unique e'
    cases hrun.symm.trans hrun'
    cases hregime.symm.trans hregime'
    cases hend.symm.trans hend'
  · cases hb with
    | unbuilt e' hrun' =>
      obtain rfl := e.unique e'
      cases hrun.symm.trans hrun'
    | failed e' hrun' hregime' hend' =>
      cases e.execution_unique hrun hregime hend hrun' hregime' hend'
      rfl

/-- A run that came to its end is not broken, whatever becomes of its report. -/
theorem not_broken (hrun : e.run = .ok r) (hdone : Completed e s.host r t) {h : Host Forked} :
    ¬ Broken w args s f h := by
  obtain ⟨regime, code, hregime, hend⟩ := hdone
  intro hb
  cases hb with
  | unbuilt e' hrun' =>
    obtain rfl := e.unique e'
    cases hrun.symm.trans hrun'
  | failed e' hrun' hregime' hend' =>
    cases e.execution_unique hrun hregime hend hrun' hregime' hend'

theorem verdict_unwritten (hrun : e.run = .ok r) (hdone : Completed e s.host r t)
    (hnot : ¬ ∃ u text, Written t.run ⟨t.host, s.files⟩ u text) : Verdict w args s 1 s' := by
  refine e.verdict_one ?_ fun f h hb => (e.not_broken hrun hdone hb).elim
  rintro ⟨e', r', t', text, hrun', -, ⟨regime', code', hregime', hend'⟩, -, -, hwritten⟩
  obtain ⟨regime, code, hregime, hend⟩ := hdone
  cases e.execution_unique hrun hregime hend hrun' hregime' hend'
  exact hnot ⟨_, _, hwritten⟩

/-- With its report written, a run decides on the exit code by its groups and cases. -/
theorem verdict_written {code : Nat} {text : String} (hrun : e.run = .ok r)
    (hregime : Regime.ofRun? r = .ok regime) (hend : e.execution s.host regime r = .ok code t)
    (hwritten : Written t.run ⟨t.host, s.files⟩ s' text) : Verdict w args s code s' := by
  have hdone : Completed e s.host r t := ⟨regime, code, hregime, hend⟩
  obtain ⟨hseq, rfl, hcalm⟩ := Completed.facts hend
  have hall : t.run.exitCode = 0 ↔ ∀ g ∈ t.run.groups.items,
      g.succeeded = true ∧ ∀ c ∈ g.cases.items, c.succeeded = true := by
    simp [Run.exitCode_eq_zero_iff, Group.succeededFully]
  have hrange : t.run.exitCode = 0 ∨ t.run.exitCode = 1 := by
    unfold Run.exitCode
    split
    · exact .inl rfl
    · exact .inr rfl
  refine ⟨?_, iff_of_false (by omega) (by rw [e.valid]; nofun), by omega,
    fun f h hb => (e.not_broken hrun hdone hb).elim⟩
  rw [Int.natCast_eq_zero, hall]
  constructor
  · exact fun hg => ⟨e, r, t, text, hrun, hseq, hdone, hg, hcalm, hwritten⟩
  · rintro ⟨e', r', t', text', hrun', -, ⟨regime', code', hregime', hend'⟩, hg, -⟩
    cases e.execution_unique hrun hregime hend hrun' hregime' hend'
    exact hg

end Errand

/-- Without help or a listing being asked for, and with a suite whose functions raise nothing fatal,
every invocation ends with an exit code, and the code tells what became of it. -/
theorem invoke_exit {w : Surroundings} {args : List String} {s : Shell} (hruns : Runs args)
    (hsuite : settings? w args ≠ none →
      ∃ e : Errand w args s.files, ∀ g ∈ e.groups, g.Orderly)
    (htable : s.host.backend.Systemic) :
    ∃ n s', (invoke w args).run s = .ok (.code n) s' ∧ Verdict w args s n s' := by
  by_cases hvalid : settings? w args = none
  · obtain ⟨s', hs'⟩ := invoke_of_invalid (s := s) hruns hvalid
    exact ⟨2, s', hs', .of_invalid hvalid⟩
  · obtain ⟨e, horderly⟩ := hsuite hvalid
    have hends : Ensures (invoke w args)
        (fun exit s' => ∃ n, exit = .code n ∧ Verdict w args s n s') (fun _ _ => False) s := by
      refine e.ensures_invoke hruns (e.ensures_runSuite ?_ ?_ ?_ ?_)
      · exact fun d hrun => ⟨trivial, 1, rfl, e.verdict_unbuilt hrun⟩
      · exact fun r regime f t hrun hregime hend =>
          ⟨e.execution_caught horderly htable hrun hend, 1, rfl, e.verdict_failed hrun hregime hend⟩
      · exact fun r t f u hrun hdone hf hnot => ⟨hf, 1, rfl, e.verdict_unwritten hrun hdone hnot⟩
      · exact fun r regime code t u text hrun hregime hend hwritten =>
          ⟨code, rfl, e.verdict_written hrun hregime hend hwritten⟩
    obtain ⟨_, s', hinvoke, n, rfl, hverdict⟩ := hends.exists_ok
    exact ⟨n, s', hinvoke, hverdict⟩

/-! ## A suite that asks to exit -/

/-- One case, the function of which asks to exit. -/
def quitting : List Group := [{
  id := "g"
  cases := { items := [{
    id := "quits"
    action := some ⟨0, [{ ending := .raises (.raised ⟨"SystemExit", [.int 3]⟩) }]⟩ }] } }]

def quittingFiles : Files where
  location := []
  entries := [(["s.py"], .suite { listing := some { groups := .ok quitting } })]

theorem quitting_orderly : ∀ g ∈ quitting, g.Orderly := by
  intro g hg c hc a ha n f hf
  cases List.mem_singleton.1 hg
  cases List.mem_singleton.1 hc
  cases ha
  rw [Action.deed_of_le (Nat.le_add_left 1 n)] at hf
  cases hf
  decide

theorem components_name : Path.components "s.py" = ["s.py"] := by
  rw [Path.components, String.splitOn, if_neg (by decide)]
  repeat rw [String.splitOnAux, if_neg (by decide +kernel), if_neg (by decide +kernel)]
  rw [String.splitOnAux, if_pos (by decide +kernel)]
  decide +kernel

theorem components_whole : Path.components "/s.py" = ["s.py"] := by
  rw [Path.components, String.splitOn, if_neg (by decide), String.splitOnAux,
    if_neg (by decide +kernel), if_pos (by decide +kernel)]
  dsimp only
  rw [if_pos (by decide +kernel)]
  repeat rw [String.splitOnAux, if_neg (by decide +kernel), if_neg (by decide +kernel)]
  rw [String.splitOnAux, if_pos (by decide +kernel)]
  decide +kernel

theorem hasNull_name : Path.hasNull "s.py" = false := by
  rw [Path.hasNull, String.contains_char_eq]
  decide +kernel

theorem isAbsolute_name : Path.isAbsolute "s.py" = false := by decide +kernel

theorem isAbsolute_whole : Path.isAbsolute "/s.py" = true := by decide +kernel

theorem quittingFiles_found :
    findSuite quittingFiles (some "s.py") = .ok (.ok "s.py") := by
  have hfile : quittingFiles.isFile "s.py" = .ok true := by
    simp only [Files.isFile, hasNull_name, Files.find, Path.plain, Path.parts, components_name,
      isAbsolute_name, Files.start]
    rfl
  have hname : (some "s.py").filter (· != "") = some "s.py" := rfl
  simp only [findSuite, hname, hfile]
  rfl

theorem quittingFiles_loads : quittingFiles.load "s.py" = .ok quitting := by
  have hexpand : quittingFiles.expand "s.py" = .ok "s.py" := by
    simp only [Files.expand, isAbsolute_name, Path.parts, components_name]
    rfl
  have hresolve : quittingFiles.resolve "s.py" = .ok ["s.py"] := by
    simp only [Files.resolve, hexpand, bind, Except.bind, hasNull_name, Files.start,
      isAbsolute_name, Path.parts, components_name]
    rfl
  have hwhole : Path.whole ["s.py"] = "/s.py" := rfl
  have hfind : quittingFiles.find "/s.py" =
      .ok (.suite { listing := some { groups := .ok quitting } }) := by
    simp only [Files.find, Path.plain, Path.parts, components_whole, isAbsolute_whole, Files.start]
    rfl
  have hsuffix : Path.suffix "s.py" = ".py" := by decide +kernel
  simp only [Files.load, hresolve, hwhole, hfind, List.getLast?_singleton, Option.getD_some,
    hsuffix]
  rfl

theorem parse_quitting : parse ["-s", "s.py"] = .ok [.flag .simple true, .argument "s.py"] := by
  decide +kernel

def quittingErrand : Errand { hostName := "host" } ["-s", "s.py"] quittingFiles where
  choice := ⟨some "s.py", "report.txt", "txt", none, true, false, false, [], false⟩
  config := ⟨"report.txt", "txt", 1, true, false, false, []⟩
  path := "s.py"
  groups := quitting
  valid := settings?_eq_some_iff.2 ⟨_, parse_quitting, rfl, rfl⟩
  found := quittingFiles_found
  loads := quittingFiles_loads

theorem invoke_quitting_exit :
    Runs ["-s", "s.py"] ∧ (∀ g ∈ quitting, g.Orderly) ∧ Forked.Systemic {} ∧
    ∃ n s', (invoke { hostName := "host" } ["-s", "s.py"]).run
        ⟨{ backend := {} }, quittingFiles⟩ = .ok (.code n) s' ∧
      Verdict { hostName := "host" } ["-s", "s.py"] ⟨{ backend := {} }, quittingFiles⟩ n s' := by
  have hruns : Runs ["-s", "s.py"] := fun given hgiven => by
    cases parse_quitting.symm.trans hgiven
    exact ⟨rfl, rfl⟩
  have htable : Forked.Systemic {} := ⟨nofun, nofun⟩
  exact ⟨hruns, quitting_orderly, htable,
    invoke_exit hruns (fun _ => ⟨quittingErrand, quitting_orderly⟩) htable⟩

end CommandLine
end RankRunner
