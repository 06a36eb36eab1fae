import RankRunner.CommandLine

/-! # Configurations that are accepted

A field has its value from what is given or from its default (`Config.field_eq_ok`), and what is
given is checked. Of the defaults only the number of parallel cases is (`Config.read_eq_ok`), so
that a run can always be scheduled, while its format and its place may be what the environment says,
whatever that is. A report is then broken off for want of a renderer (`Report.render_unknown`). -/

namespace RankRunner

theorem Run.addGroups_eq_append {r r' : Run} {gs : List Group} (h : r.addGroups gs = .ok r') :
    r' = { r with groups := { r.groups with items := r.groups.items ++ gs } } := by
  induction gs generalizing r with
  | nil =>
    cases h
    simp
  | cons g gs ih =>
    unfold addGroups at h
    cases hadd : r.groups.add g with
    | error f =>
      rw [hadd] at h
      cases h
    | ok groups =>
      rw [hadd] at h
      have hgroups : groups = { r.groups with items := r.groups.items ++ [g] } := by
        unfold Siblings.add at hadd
        split at hadd
        · cases hadd
        · exact (Except.ok.inj hadd).symm
      rw [ih h, hgroups]
      simp

namespace Config

variable {env : Environment} {cpus : Option Int} {given : List (String × Value)} {c : Config}
  {α : Type} {location s : String} {dflt a : α} {check : Value → Except Flaw α} {v : Value}

theorem checked_eq_ok : checked location check v = .ok a ↔ check v = .ok a := by
  unfold checked
  cases check v with
  | error flaw => exact ⟨nofun, nofun⟩
  | ok b => simp only [Except.ok.injEq]

/-- What is given is checked, and the default is not. -/
theorem field_eq_ok : field given location dflt check = .ok a ↔
    given.lookup location = none ∧ dflt = a ∨
      ∃ v, given.lookup location = some v ∧ check v = .ok a := by
  unfold field
  cases given.lookup location with
  | none => simp
  | some v => simp [checked_eq_ok]

theorem nonempty_eq_ok (h : nonempty v = .ok s) : s ≠ "" := by
  unfold nonempty at h
  cases hv : text v with
  | error flaw =>
    rw [hv] at h
    cases h
  | ok t =>
    rw [hv] at h
    simp only [bind, Except.bind] at h
    split at h
    · cases h
    · next hne => exact Except.ok.inj h ▸ hne

/-- A configuration is accepted if each of its fields is. -/
theorem read_eq_ok : read env cpus given = .ok c ↔
    field given "outfile" env.outputOrDefault nonempty = .ok c.outfile ∧
    field given "format" env.formatOrDefault formatName = .ok c.format ∧
    positive ((given.lookup "max_parallel").getD (env.parallelOrDefault cpus)) =
      .ok c.maxParallel ∧
    field given "simple" env.simpleOrDefault truth = .ok c.simple ∧
    field given "verbose" false truth = .ok c.verbose ∧
    field given "debug" false truth = .ok c.debug ∧
    textList given "groups" = .ok c.groups := by
  have hpositive (v : Value) (n : Int) :
      positive v = .ok n ↔ checked "max_parallel" positive v = .ok n := checked_eq_ok.symm
  rw [hpositive]
  unfold read
  dsimp only
  split
  · next houtfile hformat hparallel hsimple hverbose hdebug hgroups =>
    simp only [houtfile, hformat, hparallel, hsimple, hverbose, hdebug, hgroups, Except.ok.injEq]
    constructor
    · rintro rfl
      exact ⟨rfl, rfl, rfl, rfl, rfl, rfl, rfl⟩
    · obtain ⟨⟩ := c
      rintro ⟨rfl, rfl, rfl, rfl, rfl, rfl, rfl⟩
      rfl
  · next hnot =>
    refine ⟨nofun, fun ⟨houtfile, hformat, hparallel, hsimple, hverbose, hdebug, hgroups⟩ => ?_⟩
    exact (hnot _ _ _ _ _ _ _ houtfile hformat hparallel hsimple hverbose hdebug hgroups).elim

/-- However many cases there are to run at a time, it is at least one. -/
theorem one_le_maxParallel (h : read env cpus given = .ok c) : 1 ≤ c.maxParallel :=
  positive_eq_ok (read_eq_ok.1 h).2.2.1

theorem format_settled (h : read env cpus given = .ok c) :
    c.format ∈ formats ∨ given.lookup "format" = none ∧ env.format = some c.format := by
  rcases field_eq_ok.1 (read_eq_ok.1 h).2.1 with ⟨hgiven, hformat⟩ | ⟨v, -, hv⟩
  · cases henv : env.format with
    | none =>
      rw [Environment.formatOrDefault, henv] at hformat
      exact .inl (hformat ▸ by decide)
    | some f =>
      rw [Environment.formatOrDefault, henv] at hformat
      exact .inr ⟨hgiven, congrArg some hformat⟩
  · exact .inl (formatName_eq_ok hv)

theorem outfile_settled (h : read env cpus given = .ok c) :
    c.outfile ≠ "" ∨ given.lookup "outfile" = none ∧ env.output = some c.outfile := by
  rcases field_eq_ok.1 (read_eq_ok.1 h).1 with ⟨hgiven, houtput⟩ | ⟨v, -, hv⟩
  · cases henv : env.output with
    | none =>
      rw [Environment.outputOrDefault, henv] at houtput
      exact .inl (houtput ▸ by decide)
    | some s =>
      rw [Environment.outputOrDefault, henv] at houtput
      exact .inr ⟨hgiven, congrArg some houtput⟩
  · exact .inl (nonempty_eq_ok hv)

end Config

theorem Regime.exists_ofRun? {r : Run} (h : 1 ≤ r.maxParallel) :
    ∃ regime, Regime.ofRun? r = .ok regime := by
  unfold Regime.ofRun?
  rw [dif_pos (by omega)]
  exact ⟨_, rfl⟩

namespace Report

/-- The formats that a configuration may give are those that there are renderers for. -/
theorem lookup_eq_none_iff {format : String} :
    formats.lookup format = none ↔ format ∉ Config.formats := by
  have hnames : formats.map (·.1) = Config.formats := rfl
  rw [← hnames, List.mem_map, List.lookup_eq_none_iff]
  simp only [bne_iff_ne, not_exists, not_and]
  exact forall₂_congr fun p _ => ⟨fun h => h.symm, fun h => Ne.symm h⟩

theorem render_known {r : Run} (h : r.format ∈ Config.formats) :
    ∃ renderer : Renderer, ∀ hooks, render hooks r = (renderer.override hooks).render r := by
  cases hlookup : formats.lookup r.format with
  | none => exact (lookup_eq_none_iff.1 hlookup h).elim
  | some renderer =>
    refine ⟨renderer, fun hooks => ?_⟩
    rw [render, hlookup]

theorem render_unknown {r : Run} (h : r.format ∉ Config.formats) (hooks : Hooks) :
    render hooks r = { failure := some (unknownFormat r.format) } := by
  rw [render, lookup_eq_none_iff.2 h]

end Report

/-- The settings of a run are those of the configuration that it is built from. -/
theorem CommandLine.buildRun_settings {groups : List Group} {c : Config} {id host : String}
    {r : Run} (h : buildRun groups c id host = .ok r) :
    r.maxParallel = c.maxParallel ∧ r.outfile = c.outfile ∧ r.format = c.format := by
  unfold buildRun at h
  cases hselect : Selection.select groups c.groups with
  | error f =>
    rw [hselect] at h
    cases h
  | ok selected =>
    rw [hselect] at h
    rw [Run.addGroups_eq_append h]
    exact ⟨rfl, rfl, rfl⟩

/-- Whatever the environment holds and whatever is given, the configuration is refused, or it has a
number of parallel cases that a run can be scheduled with, and a format and a place for the report
unless they were left to an environment that names no format or no place. A run that is built from
it can be scheduled, and its report is written with a renderer exactly if the format is one. -/
theorem Config.read_settled (env : Environment) (cpus : Option Int)
    (given : List (String × Value)) :
    (∃ problems, read env cpus given = .error problems) ∨
    ∃ c, read env cpus given = .ok c ∧
      1 ≤ c.maxParallel ∧
      (c.format ∈ formats ∨ given.lookup "format" = none ∧ env.format = some c.format) ∧
      (c.outfile ≠ "" ∨ given.lookup "outfile" = none ∧ env.output = some c.outfile) ∧
      ∀ groups id host r, CommandLine.buildRun groups c id host = .ok r →
        (∃ regime, Regime.ofRun? r = .ok regime) ∧
        (c.format ∈ formats → ∃ renderer : Report.Renderer, ∀ hooks,
          Report.render hooks r = (renderer.override hooks).render r) ∧
        (c.format ∉ formats → ∀ hooks,
          Report.render hooks r = { failure := some (Report.unknownFormat c.format) }) := by
  cases hread : read env cpus given with
  | error problems => exact .inl ⟨problems, rfl⟩
  | ok c =>
    refine .inr ⟨c, rfl, one_le_maxParallel hread, format_settled hread, outfile_settled hread, ?_⟩
    intro groups id host r hbuild
    obtain ⟨hmax, -, hformat⟩ := CommandLine.buildRun_settings hbuild
    refine ⟨Regime.exists_ofRun? (hmax ▸ one_le_maxParallel hread), fun h => ?_, fun h hooks => ?_⟩
    · exact Report.render_known (hformat ▸ h)
    · rw [← hformat] at h ⊢
      exact Report.render_unknown h hooks

namespace Config

/-- An environment that names no place for the report, and a format that is none. -/
def heedless : Environment := { output := some "", format := some "pdf", parallel := some "8" }

theorem heedless_simpleOrDefault : heedless.simpleOrDefault = false := by decide +kernel

/-- What is given goes before the environment. -/
theorem read_settled_overridden :
    ∃ c, read heedless none [("format", .text "xml"), ("outfile", .text "o")] = .ok c ∧
      c.maxParallel = 8 ∧ c.format ∈ formats ∧ c.outfile = "o" ∧
      ∃ r, CommandLine.buildRun [{ id := "g" }] c "run" "host" = .ok r ∧
        (∃ regime, Regime.ofRun? r = .ok regime) ∧ ∃ renderer : Report.Renderer, ∀ hooks,
          Report.render hooks r = (renderer.override hooks).render r := by
  let c : Config := ⟨"o", "xml", 8, false, false, false, []⟩
  have hread : read heedless none [("format", .text "xml"), ("outfile", .text "o")] = .ok c :=
    read_eq_ok.2 ⟨rfl, rfl, rfl, congrArg Except.ok heedless_simpleOrDefault, rfl, rfl, rfl⟩
  have hformat : c.format ∈ formats := by decide
  have hbuild : CommandLine.buildRun [{ id := "g" }] c "run" "host" = .ok
      { id := "run", groups := { items := [{ id := "g" }] }, maxParallel := 8, outfile := "o",
        format := "xml", host := "host" } := rfl
  rcases read_settled heedless none [("format", .text "xml"), ("outfile", .text "o")] with
    ⟨problems, h⟩ | ⟨c', h, -, -, -, hbuilt⟩
  · cases hread.symm.trans h
  · cases hread.symm.trans h
    obtain ⟨hregime, hknown, -⟩ := hbuilt _ _ _ _ hbuild
    exact ⟨c, hread, rfl, hformat, rfl, _, hbuild, hregime, hknown hformat⟩

/-- The environment is not checked: the report of a run may have no format and no place. -/
theorem read_heedless :
    ∃ c, read heedless (some 4) [] = .ok c ∧ c.format ∉ formats ∧ c.outfile = "" ∧
      ∃ r, CommandLine.buildRun [{ id := "g" }] c "run" "host" = .ok r ∧
        (Report.render {} r).failure =
          some (.badValue "Unknown report format: 'pdf'") := by
  let c : Config := ⟨"", "pdf", 8, false, false, false, []⟩
  have hread : read heedless (some 4) [] = .ok c :=
    read_eq_ok.2 ⟨rfl, rfl, rfl, congrArg Except.ok heedless_simpleOrDefault, rfl, rfl, rfl⟩
  have hformat : c.format ∉ formats := by decide
  have hquote : Literal.quote "pdf" = "'pdf'" := by decide +kernel
  refine ⟨c, hread, hformat, rfl, _, rfl, ?_⟩
  rw [Report.render_unknown hformat]
  change some (Report.unknownFormat "pdf") = _
  rw [Report.unknownFormat, hquote]
  rfl

end Config

end RankRunner
