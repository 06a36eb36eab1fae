import RankRunner.Proofs.Report.Record
import RankRunner.Proofs.Report.Scan
import RankRunner.Proofs.Report.Tally

/-! # The tally in a report

A report is read by what the run is made of: the names of the run, of its groups and of their cases.
The reader expects each of them in its place, whatever characters it is made of, and takes the
labels and the counters from what is written between them. Every report that is finished is read as
the tally of its run, as plain text (`Text.scanned_run`) and as a document (`Xml.scanned_run`). -/

namespace RankRunner

open Report

/-- What a run is made of: its groups, each with its cases. -/
structure Outline where
  id : String
  host : String
  groups : List (String × List String)

def Group.outline (g : Group) : String × List String := (g.id, g.cases.items.map (·.id))

def Run.outline (r : Run) : Outline where
  id := r.id
  host := r.host
  groups := r.groups.items.map Group.outline

/-- A text with both times of a usage can be written if they are numbers; they are plain in it. -/
theorem Usage.written (u : Usage) (places : Nat) (f : String → String → String) :
    let text : Except Raised String := do
      let utime ← u.utime.fixed places
      let stime ← u.stime.fixed places
      return f utime stime
    ((∃ s, text = .ok s) ↔ u.Timed) ∧
      ∀ s, text = .ok s → ∃ utime stime, Plain utime ∧ Plain stime ∧ s = f utime stime := by
  unfold Usage.Timed Seconds.fixed
  cases u.utime.toFloat with
  | error r => exact ⟨⟨nofun, fun h => nomatch h.1⟩, nofun⟩
  | ok x =>
    cases u.stime.toFloat with
    | error r => exact ⟨⟨nofun, fun h => nomatch h.2⟩, nofun⟩
    | ok y =>
      refine ⟨⟨fun _ => ⟨⟨x, rfl⟩, y, rfl⟩, fun _ => ⟨_, rfl⟩⟩, fun s hs => ?_⟩
      cases hs
      exact ⟨_, _, plain_fixed places x, plain_fixed places y, rfl⟩

namespace Report

open Scan

/-! ## Readers -/

def scanSynopsis (entry : String → Scan Int) : Scan Synopsis := do
  return {
    total := ← entry "total", passed := ← entry "pass", failed := ← entry "fail",
    aborted := ← entry "abrt", skipped := ← entry "skip", notRun := ← entry "notrun" }

namespace Text

def scanEntry (name : String) : Scan Int := do
  token (name ++ "=")
  let n ← upTo (if name = "notrun" then '\n' else ' ')
  ofOption n.toInt?

def scanCase (id : String) : Scan (String × String) := do
  token ("\t\t" ++ id ++ ": ")
  let label ← upTo ' '
  token "["
  past ']'
  past '\n'
  return (id, label)

def scanGroup (g : String × List String) : Scan GroupTally := do
  token ("\t" ++ g.1 ++ ": ")
  past ' '
  token "["
  past ']'
  token " "
  let synopsis ← scanSynopsis scanEntry
  let cases ← g.2.mapM scanCase
  return { id := g.1, cases, synopsis }

def scanRun (o : Outline) : Scan Tally := do
  token (o.id ++ "\nhost: " ++ o.host ++ "\n")
  past '\n'
  past '\n'
  past '\n'
  let groups ← o.groups.mapM scanGroup
  token "\n"
  let synopsis ← scanSynopsis scanEntry
  return { groups, synopsis }

end Text

namespace Xml

def scanAttr (name : String) : Scan String := do
  token (" " ++ name ++ "=\"")
  upTo '"'

def scanEntry (name : String) : Scan Int := do
  let n ← scanAttr name
  ofOption n.toInt?

def scanTimes : Scan Unit := do
  let _ ← scanAttr "start"
  let _ ← scanAttr "stop"

def scanCounters : Scan Synopsis := do
  token "<synopsis"
  let synopsis ← scanSynopsis scanEntry
  token "/>"
  return synopsis

/-- The end of a case, after a line with its usage if there is one. -/
def scanClosing : Scan Unit := do
  let closing ← upTo '\n'
  if closing = ">" then
    past '\n'
    token "    </case>\n"

def scanCase (id : String) : Scan (String × String) := do
  token ("    <case" ++ attr "id" id)
  let label ← scanAttr "status"
  let _ ← scanAttr "rank"
  scanTimes
  scanClosing
  return (id, label)

def scanGroup (g : String × List String) : Scan GroupTally := do
  token ("  <group" ++ attr "id" g.1)
  let _ ← scanAttr "status"
  let _ ← scanAttr "rank"
  scanTimes
  token ">\n"
  let cases ← g.2.mapM scanCase
  token "    "
  let synopsis ← scanCounters
  token "\n  </group>\n"
  return { id := g.1, cases, synopsis }

def scanRun (o : Outline) : Scan Tally := do
  token "<?xml version=\"1.0\" encoding=\"UTF-8\"?>\n"
  token ("<run" ++ attr "id" o.id ++ attr "host" o.host)
  let _ ← scanAttr "sandboxed"
  scanTimes
  token ">\n"
  let groups ← o.groups.mapM scanGroup
  token "  "
  let synopsis ← scanCounters
  token "\n</run>\n"
  return { groups, synopsis }

end Xml

def readers : List (String × (Outline → Scan Tally)) :=
  [("txt", Text.scanRun), ("xml", Xml.scanRun)]

/-- The tally in the report of a run with that outline; the report has to be that of such a run
from its start to its end. -/
def readTally? (format : String) (o : Outline) (text : String) : Option Tally :=
  (readers.lookup format).bind fun scan => (scan o).whole? text

/-! ## What is read -/

@[simp] theorem toString_string (s : String) : toString s = s := rfl

theorem scans_synopsis {entry : String → Scan Int} {text : String → Int → String}
    (h : ∀ name n, Scans (entry name) (text name n) n) (s : Synopsis) :
    Scans (scanSynopsis entry) (String.join (s.entries.map fun (name, n) => text name n)) s := by
  have hscan : Scans (scanSynopsis entry) _ s :=
    (h "total" s.total).bind <| (h "pass" s.passed).bind <| (h "fail" s.failed).bind <|
      (h "abrt" s.aborted).bind <| (h "skip" s.skipped).bind <| (h "notrun" s.notRun).bind <|
      .pure s
  exact hscan.text (by simp [Synopsis.entries])

namespace Text

def entry (name : String) (n : Int) : String :=
  name ++ "=" ++ toString n ++ String.singleton (if name = "notrun" then '\n' else ' ')

theorem scans_entry (name : String) (n : Int) : Scans (scanEntry name) (entry name n) n := by
  have hend : isPlain (if name = "notrun" then '\n' else ' ') = false := by split <;> decide
  have hscan : Scans (scanEntry name) _ n := (Scans.token (name ++ "=")).bind <|
    (Scans.upTo ((plain_int n).notMem hend)).bind <| .ofOption (Int.toInt?_repr n)
  exact hscan.text (by simp [entry])

theorem scans_counters (s : Synopsis) : Scans (scanSynopsis scanEntry) (counters s ++ "\n") s :=
  (scans_synopsis scans_entry s).text (by simp [entry, counters, Synopsis.entries])

/-- The line of a case, with a usage on it if its times can be written. -/
theorem scanned_case (c : Case) : (case c).Scanned (∀ u, c.usage = some u → u.Timed)
    (scanCase c.id) (c.id, caseLabel c) := by
  have hscan {used : String} (hused : '\n' ∉ used.toList) :
      Scans (scanCase c.id) (s!"\t\t{c.id}: {caseLabel c} [{duration c.toItem}]" ++ used ++ "\n")
        (c.id, caseLabel c) := by
    have hscan : Scans (scanCase c.id) _ (c.id, caseLabel c) :=
      (Scans.token ("\t\t" ++ c.id ++ ": ")).bind <|
      (Scans.upTo ((plain_caseLabel c).notMem (by decide))).bind <| (Scans.token "[").bind <|
      (Scans.past ((plain_duration c.toItem).notMem (by decide))).bind <|
      (Scans.past hused).bind <| .pure _
    exact hscan.text (by simp)
  have hiff : (∃ used, (c.usage.map usage).getD (.ok "") = .ok used) ↔
      ∀ u, c.usage = some u → u.Timed := by
    cases c.usage with
    | none => simp
    | some u => exact (u.written 3 _).1.trans (by simp)
  have hline (used : String) (hused : (c.usage.map usage).getD (.ok "") = .ok used) :
      '\n' ∉ used.toList := by
    cases hu : c.usage with
    | none =>
      rw [hu] at hused
      cases hused
      simp
    | some u =>
      rw [hu] at hused
      obtain ⟨utime, stime, hutime, hstime, rfl⟩ := (u.written 3 _).2 used hused
      have hplain {s : String} (hs : Plain s) : '\n' ∉ s.toList := hs.notMem (by decide)
      simp [hplain hutime, hplain hstime, hplain (plain_int u.maxrss)]
  unfold case
  rw [← hiff]
  generalize (c.usage.map usage).getD (.ok "") = used at hline ⊢
  cases used with
  | error r => exact ⟨⟨nofun, nofun⟩, nofun⟩
  | ok used =>
    refine ⟨⟨fun _ => ⟨_, rfl⟩, fun _ => ⟨_, rfl⟩⟩, fun text htext => ?_⟩
    cases htext
    exact hscan (hline used rfl)

theorem scanned_group (g : Group) : (renderer.renderGroup g).Scanned
    (∀ c ∈ g.cases.items, ∀ u, c.usage = some u → u.Timed) (scanGroup g.outline) g.tally := by
  refine (Draft.Scanned.concat fun c _ => scanned_case c).enclosed fun text hcases => ?_
  have hscan : Scans (scanGroup g.outline) _ g.tally :=
    (Scans.token ("\t" ++ g.id ++ ": ")).bind <|
    (Scans.past ((plain_label g.status).notMem (by decide))).bind <| (Scans.token "[").bind <|
    (Scans.past ((plain_duration g.toItem).notMem (by decide))).bind <| (Scans.token " ").bind <|
    (scans_counters g.synopsis).bind <| hcases.bind <| .pure _
  exact hscan.text (by simp [renderer, group])

theorem scanned_run (r : Run) : (renderer.render r).Scanned
    (∀ g ∈ r.groups.items, ∀ c ∈ g.cases.items, ∀ u, c.usage = some u → u.Timed)
    (scanRun r.outline) r.tally := by
  refine (Draft.Scanned.concat fun g _ => scanned_group g).enclosed fun text hgroups => ?_
  have hmode : '\n' ∉ ("mode: " ++ if r.sandboxed then "sandboxed" else "simple").toList := by
    split <;> decide
  have htime (name : String) (hname : '\n' ∉ name.toList) (t : Option Timestamp) :
      '\n' ∉ (name ++ timeText t).toList := by
    rw [String.toList_append, List.mem_append, not_or]
    exact ⟨hname, (plain_timeText t).notMem (by decide)⟩
  have hscan : Scans (scanRun r.outline) _ r.tally :=
    (Scans.token (r.id ++ "\nhost: " ++ r.host ++ "\n")).bind <| (Scans.past hmode).bind <|
    (Scans.past (htime "started: " (by decide) r.start)).bind <|
    (Scans.past (htime "stopped: " (by decide) r.stop)).bind <| hgroups.bind <|
    (Scans.token "\n").bind <| (scans_counters r.synopsis).bind <| .pure _
  exact hscan.text (by simp [renderer, run])

end Text

namespace Xml

theorem quote_of_plain {s : String} (h : Plain s) : quote s = "\"" ++ s ++ "\"" := by
  have hquote : s.toList.contains '"' = false := by
    simpa using h.notMem (c := '"') (by decide)
  have hescape : ∀ c ∈ s.toList, escape c = String.singleton c := by
    intro c hc
    have hplain := h c hc
    unfold escape
    split_ifs <;> first | rfl | (subst c; cases hplain)
  have hjoin : String.join (s.toList.map escape) = s := by
    rw [List.map_congr_left hescape]
    exact String.toList_inj.1 (by simp [List.flatMap_map])
  unfold quote
  dsimp only
  rw [hquote, Bool.not_false, if_pos rfl, hjoin]

theorem scans_attr (name : String) {value : String} (h : Plain value) :
    Scans (scanAttr name) (attr name value) value := by
  have hscan : Scans (scanAttr name) _ value := (Scans.token (" " ++ name ++ "=\"")).bind
    (Scans.upTo (h.notMem (by decide)))
  exact hscan.text (by simp [attr, quote_of_plain h])

theorem scans_entry (name : String) (n : Int) : Scans (scanEntry name) (intAttr name n) n := by
  have hscan : Scans (scanEntry name) _ n :=
    (scans_attr name (plain_int n)).bind (.ofOption (Int.toInt?_repr n))
  exact hscan.text (by simp [intAttr])

theorem scans_times (start stop : Option Timestamp) : Scans scanTimes (times start stop) () := by
  have hscan : Scans scanTimes _ () := (scans_attr "start" (plain_timeText start)).bind <|
    (scans_attr "stop" (plain_timeText stop)).bind (.pure ())
  exact hscan.text (by simp [times])

theorem scans_counters (s : Synopsis) : Scans scanCounters (synopsis s) s := by
  have hscan : Scans scanCounters _ s := (Scans.token "<synopsis").bind <|
    (scans_synopsis scans_entry s).bind <| (Scans.token "/>").bind <| .pure s
  exact hscan.text (by simp [synopsis])

theorem scanned_usage (u : Usage) : (Draft.ofExcept (usage u)).Scanned u.Timed (past '\n') () := by
  have hwritten := u.written 6 fun utime stime =>
    "      <usage" ++ attr "utime" utime ++ attr "stime" stime ++ intAttr "maxrss" u.maxrss ++
      String.join (u.faults.map fun (name, n) => intAttr name n) ++ "/>\n"
  refine ⟨by rw [Draft.finished_ofExcept]; exact hwritten.1, fun text htext => ?_⟩
  rw [Draft.finished_ofExcept] at htext
  obtain ⟨utime, stime, hutime, hstime, rfl⟩ := hwritten.2 text htext
  have hplain {s : String} (hs : Plain s) : '\n' ∉ s.toList := hs.notMem (by decide)
  have hattr {name value : String} (hname : '\n' ∉ name.toList) (h : Plain value) :
      '\n' ∉ (attr name value).toList := by
    simp [attr, quote_of_plain h, hname, hplain h]
  have hline : '\n' ∉ ("      <usage" ++ attr "utime" utime ++ attr "stime" stime ++
      intAttr "maxrss" u.maxrss ++ String.join (u.faults.map fun (name, n) => intAttr name n) ++
      "/>").toList := by
    simp [Usage.faults, intAttr, hattr, hutime, hstime, plain_int]
  exact (Scans.past hline).text (by simp)

/-- A case without a usage is an empty element, and one with a usage has a line of its own for
it. -/
theorem scanned_case (c : Case) : (case c).Scanned (∀ u, c.usage = some u → u.Timed)
    (scanCase c.id) (c.id, caseLabel c) := by
  have hscan {closing : String} (hclosing : Scans scanClosing closing ()) :
      Scans (scanCase c.id) ("    <case" ++ attr "id" c.id ++ attr "status" (caseLabel c) ++
        intAttr "rank" c.rank ++ times c.start c.stop ++ closing) (c.id, caseLabel c) := by
    have hscan : Scans (scanCase c.id) _ (c.id, caseLabel c) :=
      (Scans.token ("    <case" ++ attr "id" c.id)).bind <|
      (scans_attr "status" (plain_caseLabel c)).bind <|
      (scans_attr "rank" (plain_int c.rank)).bind <| (scans_times c.start c.stop).bind <|
      hclosing.bind <| .pure _
    exact hscan.text (by simp [intAttr])
  unfold case
  cases c.usage with
  | none =>
    have hclosing : Scans scanClosing _ () :=
      (Scans.upTo (s := "/>") (c := '\n') (by decide)).bind (.pure ())
    refine ⟨⟨fun _ _ => nofun, fun _ => ⟨_, rfl⟩⟩, fun text htext => ?_⟩
    cases htext
    exact hscan (hclosing.text (by simp))
  | some u =>
    have hiff : (∀ v, some u = some v → v.Timed) ↔ u.Timed := by simp
    rw [hiff]
    refine (scanned_usage u).enclosed fun line hline => ?_
    have hclosing : Scans scanClosing _ () :=
      (Scans.upTo (s := ">") (c := '\n') (by decide)).bind
        (hline.bind (Scans.token "    </case>\n"))
    exact (hscan hclosing).text (by simp)

theorem scanned_group (g : Group) : (renderer.renderGroup g).Scanned
    (∀ c ∈ g.cases.items, ∀ u, c.usage = some u → u.Timed) (scanGroup g.outline) g.tally := by
  refine (Draft.Scanned.concat fun c _ => scanned_case c).enclosed fun text hcases => ?_
  have hscan : Scans (scanGroup g.outline) _ g.tally :=
    (Scans.token ("  <group" ++ attr "id" g.id)).bind <|
    (scans_attr "status" (plain_label g.status)).bind <|
    (scans_attr "rank" (plain_int g.rank)).bind <| (scans_times g.start g.stop).bind <|
    (Scans.token ">\n").bind <| hcases.bind <| (Scans.token "    ").bind <|
    (scans_counters g.synopsis).bind <| (Scans.token "\n  </group>\n").bind <| .pure _
  exact hscan.text (by simp [renderer, group, intAttr])

theorem scanned_run (r : Run) : (renderer.render r).Scanned
    (∀ g ∈ r.groups.items, ∀ c ∈ g.cases.items, ∀ u, c.usage = some u → u.Timed)
    (scanRun r.outline) r.tally := by
  refine (Draft.Scanned.concat fun g _ => scanned_group g).enclosed fun text hgroups => ?_
  have hmode : Plain (if r.sandboxed then "true" else "false") := by split <;> decide
  have hscan : Scans (scanRun r.outline) _ r.tally :=
    (Scans.token "<?xml version=\"1.0\" encoding=\"UTF-8\"?>\n").bind <|
    (Scans.token ("<run" ++ attr "id" r.id ++ attr "host" r.host)).bind <|
    (scans_attr "sandboxed" hmode).bind <| (scans_times r.start r.stop).bind <|
    (Scans.token ">\n").bind <| hgroups.bind <| (Scans.token "  ").bind <|
    (scans_counters r.synopsis).bind <| (Scans.token "\n</run>\n").bind <| .pure _
  refine hscan.text ?_
  unfold renderer run
  -- The declaration is too long a text to be taken apart into characters.
  generalize "<?xml version=\"1.0\" encoding=\"UTF-8\"?>\n" = declaration
  simp

end Xml

/-! ## The report of a run -/

theorem formats_cases {format : String} (h : format = "txt" ∨ format = "xml") :
    ∃ renderer scan, formats.lookup format = some renderer ∧ readers.lookup format = some scan ∧
      ∀ r : Run, (renderer.render r).Scanned
        (∀ g ∈ r.groups.items, ∀ c ∈ g.cases.items, ∀ u, c.usage = some u → u.Timed)
        (scan r.outline) r.tally := by
  rcases h with rfl | rfl
  · exact ⟨_, _, rfl, rfl, Text.scanned_run⟩
  · exact ⟨_, _, rfl, rfl, Xml.scanned_run⟩

theorem outline_aggregate (r : Run) : r.aggregate.outline = r.outline := by
  rw [Run.outline, Run.aggregate_groups, List.map_map]
  rfl

/-- The report of a run whose counters have been set can be written unless a time in it is no
number, and is read as the tally of the run. There each case stands once and in the order of its
declaration, the counters of a group are those of the labels of its cases, and the counters of the
run are the sums of those of its groups. -/
theorem render_tally (r : Run) (hformat : r.format = "txt" ∨ r.format = "xml") :
    ((∃ text, (render {} r.aggregate).finished = .ok text) ↔
        ∀ c ∈ r.cases, ∀ u, c.usage = some u → u.Timed) ∧
      (∀ text, (render {} r.aggregate).finished = .ok text →
        readTally? r.format r.outline text = some r.aggregate.tally) ∧
      r.aggregate.tally.groups.map (fun g => (g.id, g.cases.map (·.1))) =
        r.groups.items.map (fun g => (g.id, g.cases.items.map (·.id))) ∧
      r.aggregate.tally.Agrees := by
  obtain ⟨renderer, scan, hrenderer, hscan, hscanned⟩ := formats_cases hformat
  have hsame : r.aggregate.format = r.format := rfl
  have hrender : render {} r.aggregate = renderer.render r.aggregate := by
    unfold render
    rw [hsame, hrenderer]
    rfl
  obtain ⟨hfinishes, hscans⟩ := hscanned r.aggregate
  refine ⟨?_, fun text htext => ?_, ?_, r.aggregate_agrees⟩
  · rw [hrender, hfinishes, ← r.aggregate_cases, Run.cases, List.forall_mem_flatMap]
  · rw [hrender] at htext
    rw [readTally?, hscan, ← outline_aggregate]
    exact (hscans text htext).whole?
  · simp only [Run.tally, Run.aggregate_groups, List.map_map]
    refine List.map_congr_left fun g _ => ?_
    simp [Group.tally, Group.account]

/-- A run with a case of each kind, and with names that look like a report. -/
def mixed (format : String) : Run where
  id := "host: run\n\n"
  host := "h"
  format
  groups := { items := [
    { id := "one: PASS [-]\n\t\ttwo: FAIL"
      cases := { items := [
        { id := "a" },
        { id := "b\" status=\"PASS", status := .failure, usage := some
            { utime := .float (.finite false 1 (-2)), stime := .float (.finite false 3 0)
              maxrss := 2048 } },
        { id := "c: PASS [", status := ⟨-7⟩ },
        { id := "", status := .aborted, notRun := true }] } },
    { id := "two", cases := { items := [
        { id := "a", status := .aborted }, { id := "/>\n", status := .skipped }] } }] }

def mixedTally : Tally where
  groups := [
    { id := "one: PASS [-]\n\t\ttwo: FAIL"
      cases := [("a", "PASS"), ("b\" status=\"PASS", "FAIL"), ("c: PASS [", "E-7"), ("", "NOTRUN")]
      synopsis := { total := 4, passed := 1, failed := 2, notRun := 1 } },
    { id := "two", cases := [("a", "ABRT"), ("/>\n", "SKIP")]
      synopsis := { total := 2, aborted := 1, skipped := 1 } }]
  synopsis := { total := 6, passed := 1, failed := 2, aborted := 1, skipped := 1, notRun := 1 }

theorem render_tally_mixed :
    (∃ text, (render {} (mixed "txt").aggregate).finished = .ok text ∧
      readTally? "txt" (mixed "txt").outline text = some mixedTally) ∧
    ∃ text, (render {} (mixed "xml").aggregate).finished = .ok text ∧
      readTally? "xml" (mixed "xml").outline text = some mixedTally := by
  have hread (format : String) (hformat : format = "txt" ∨ format = "xml") :
      ∃ text, (render {} (mixed format).aggregate).finished = .ok text ∧
        readTally? format (mixed format).outline text = some mixedTally := by
    obtain ⟨hfinishes, hreads, -, -⟩ := render_tally (mixed format) hformat
    have htimed : ∀ c ∈ (mixed format).cases, ∀ u, c.usage = some u → u.Timed := by
      simp [mixed, Run.cases, Usage.Timed, Seconds.toFloat]
    obtain ⟨text, htext⟩ := hfinishes.2 htimed
    exact ⟨text, htext, (hreads text htext).trans rfl⟩
  exact ⟨hread "txt" (.inl rfl), hread "xml" (.inr rfl)⟩

end Report
end RankRunner
