import RankRunner.Proofs.Report.Elements
import RankRunner.Proofs.Report.Plain
import RankRunner.Proofs.Report.Record

/-! # The round trip of a report

Every part of a report is a list of lines that `Tells` its records: there is an element on each
line, and it is read as the record. This is shown of the usage of a case, of a case, of a group and
of the run, each from what it holds (`Tells.concat`, `Tells.element`), and so the report as a
document is read back as the record of the run. -/

namespace RankRunner

open Markup Report

/-! ## What is written is legal -/

theorem UsageRecord.fit_attributes {u : UsageRecord} (hutime : Legal u.utime)
    (hstime : Legal u.stime) : Fit u.attributes where
  names := by simp only [attributes, List.map]; decide
  distinct := by simp [attributes]
  legal := by simp [attributes, hutime, hstime, (plain_int _).legal]

theorem ItemRecord.fit_attributes {i : Item} {label : String} (hid : Legal i.id)
    (hlabel : Legal label) : Fit (i.record label).attributes where
  names := by simp only [attributes, List.map]; decide
  distinct := by simp [attributes]
  legal := by
    simp [attributes, Item.record, hid, hlabel, (plain_int _).legal, (plain_timeText _).legal]

theorem Synopsis.fit_attributes (s : Synopsis) : Fit s.attributes where
  names := by simp only [attributes, entries, List.map]; decide
  distinct := by simp [attributes, entries]
  legal := by simp [attributes, entries, (plain_int _).legal]

theorem RunRecord.fit_attributes {r : Run} (groups : List GroupRecord) (hid : Legal r.id)
    (hhost : Legal r.host) : Fit (r.recordWith groups).attributes where
  names := by simp only [attributes, List.map]; decide
  distinct := by simp [attributes]
  legal := by
    have hsandboxed : Legal (if r.sandboxed then "true" else "false") := by split <;> decide
    have h : ∀ value ∈ [r.id, r.host, if r.sandboxed then "true" else "false",
        timeText r.start, timeText r.stop], Legal value := by
      simp [hid, hhost, hsandboxed, (plain_timeText _).legal]
    exact h

namespace Markup

variable {α β : Type} {indent inner name : String} {decode : Node → Option α}

/-- The lines of a text are decoded as `vs`, or both are missing for the same reason. -/
inductive Tells (indent : String) (decode : Node → Option α) :
    Except Raised String → Except Raised (List α) → Prop where
  | ok {text : String} {ns : List Node} {vs : List α}
    (reads : Reads text (ns.flatMap (line indent)))
    (decodes : List.Forall₂ (Decodes decode) ns vs) : Tells indent decode (.ok text) (.ok vs)
  | error {r : Raised} : Tells indent decode (.error r) (.error r)

namespace Tells

theorem one {text : String} {kvs : List (String × String)} {content : List Node} {v : α}
    (hreads : Reads text (line indent (.element name kvs content)))
    (hdecode : decode (.element name kvs content) = some v) :
    Tells indent decode (.ok text) (.ok [v]) := by
  have hlines : Reads text ([Node.element name kvs content].flatMap (line indent)) := by
    rwa [List.flatMap_singleton]
  exact .ok hlines (.cons (.element hdecode) .nil)

theorem append {x y : Except Raised String} {v w : Except Raised (List α)}
    (hx : Tells indent decode x v) (hy : Tells indent decode y w) :
    Tells indent decode (x.bind fun s => y.map (s ++ ·)) (v.bind fun vs => w.map (vs ++ ·)) := by
  cases hx with
  | error => exact .error
  | ok hs hns =>
    cases hy with
    | error => exact .error
    | ok ht hms =>
      exact .ok (by rw [List.flatMap_append]; exact hs.append ht) (List.rel_append hns hms)

/-- A list of drafts tells a list of records. -/
theorem concat {f : β → Draft} {g : β → Except Raised α} {l : List β}
    (h : ∀ b ∈ l, Tells indent decode (f b).finished ((g b).map ([·]))) :
    Tells indent decode (Draft.concat (l.map f)).finished (l.mapM g) := by
  induction l using List.reverseRecOn with
  | nil =>
    have hreads : Reads "" (([] : List Node).flatMap (line indent)) := .nil
    exact .ok hreads .nil
  | append_singleton l b ih =>
    have hlast := (ih fun a ha => h a (by simp [ha])).append (h b (by simp))
    rw [List.map_append, List.map_singleton, Draft.concat_concat, Draft.finished_append]
    have hmap : (l ++ [b]).mapM g =
        (l.mapM g).bind fun vs => ((g b).map ([·])).map (vs ++ ·) := by
      rw [List.mapM_append]
      cases l.mapM g with
      | error r => rfl
      | ok vs => cases hb : g b <;> simp [hb] <;> rfl
    rwa [hmap]

/-- An element that holds the lines of a text and then those of some other elements. -/
theorem element {decode' : Node → Option β} {rest : String} {kvs : List (String × String)}
    {ms : List Node} {x : Except Raised String} {v : Except Raised (List α)} (indent name : String)
    (wrap : List α → β) (hindent : Margin indent) (hinner : Margin inner)
    (hname : isName name.toList = true) (hfit : Fit kvs) (h : Tells inner decode x v)
    (hrest : Reads rest (ms.flatMap (line inner))) (hms : ∀ n ∈ ms, n.isBlank = false)
    (hdecode : ∀ content ns vs, v = .ok vs → (Node.element name kvs content).children = ns ++ ms →
      List.Forall₂ (Decodes decode) ns vs →
        decode' (.element name kvs content) = some (wrap vs)) :
    Tells indent decode'
      (x.map fun text => indent ++ "<" ++ name ++ attributes kvs ++ ">\n" ++ (text ++ rest) ++
        indent ++ "</" ++ name ++ ">\n")
      (v.map fun vs => [wrap vs]) := by
  cases h with
  | error => exact .error
  | @ok text ns vs hreads hns =>
    have hlines : Reads (text ++ rest) ((ns ++ ms).flatMap (line inner)) := by
      rw [List.flatMap_append]
      exact hreads.append hrest
    have hchildren : (Node.element name kvs (lines indent inner (ns ++ ms))).children = ns ++ ms :=
      children_lines hindent hinner (List.forall_mem_append.2 ⟨Decodes.elements hns, hms⟩)
    exact .one (.lines hindent hname hfit hlines) (hdecode _ ns vs rfl hchildren hns)

end Tells

end Markup

/-! ## The elements of a report -/

namespace Report.Xml

theorem usage_text (u : Usage) (utime stime : String) :
    "      <usage" ++ attr "utime" utime ++ attr "stime" stime ++ intAttr "maxrss" u.maxrss ++
        String.join (u.faults.map fun (name, n) => intAttr name n) ++ "/>\n" =
      "      " ++ "<" ++ "usage" ++ attributes (UsageRecord.attributes { u with utime, stime }) ++
        "/>\n" :=
  String.toList_inj.1 (by simp [attributes, UsageRecord.attributes, Usage.faults, intAttr])

theorem item_text (head : String) (i : Item) (label : String) :
    head ++ attr "id" i.id ++ attr "status" label ++ intAttr "rank" i.rank ++
      times i.start i.stop = head ++ attributes (i.record label).attributes :=
  String.toList_inj.1 (by simp [attributes, ItemRecord.attributes, Item.record, intAttr, times])

theorem synopsis_text (s : Synopsis) :
    synopsis s = "<" ++ "synopsis" ++ attributes s.attributes ++ "/>" :=
  String.toList_inj.1
    (by simp [attributes, Synopsis.attributes, Synopsis.entries, intAttr, synopsis])

theorem tells_usage (u : Usage) : Tells "      " UsageRecord.ofNode? (usage u)
    (u.record.map ([·])) := by
  unfold usage Usage.record
  cases hutime : u.utime.fixed 6 with
  | error r => exact .error
  | ok utime =>
    cases hstime : u.stime.fixed 6 with
    | error r => exact .error
    | ok stime =>
      let v : UsageRecord := { u with utime, stime }
      have hfit := v.fit_attributes (plain_of_fixed hutime).legal (plain_of_fixed hstime).legal
      have hreads := Reads.emptyLine "      " "usage" (by simp [Margin]) (by decide) hfit
      rw [← usage_text] at hreads
      exact .one hreads v.ofNode?_element

theorem case_empty_text (attributes : String) :
    "    <case" ++ attributes ++ "/>\n" = "    " ++ "<" ++ "case" ++ attributes ++ "/>\n" :=
  String.toList_inj.1 (by simp)

theorem case_text (attributes text : String) :
    "    <case" ++ attributes ++ ">\n" ++ text ++ "    </case>\n" =
      "    " ++ "<" ++ "case" ++ attributes ++ ">\n" ++ (text ++ "") ++ "    " ++ "</" ++ "case" ++
        ">\n" :=
  String.toList_inj.1 (by simp)

theorem group_text (g : Group) (text : String) :
    group g .head ++ text ++ group g .tail =
      "  " ++ "<" ++ "group" ++ attributes (g.toItem.record g.status.label).attributes ++ ">\n" ++
        (text ++ ("    " ++ synopsis g.synopsis ++ "\n")) ++ "  " ++ "</" ++ "group" ++ ">\n" := by
  unfold group
  dsimp only
  rw [item_text]
  exact String.toList_inj.1 (by simp)

/-- A case is one element, be it empty or around its usage. -/
theorem tells_case {c : Case} (hid : Legal c.id) : Tells "    " CaseRecord.ofNode?
    (case c).finished (c.record.map ([·])) := by
  have hfit := ItemRecord.fit_attributes (i := c.toItem) hid (plain_caseLabel c).legal
  generalize hi : c.toItem.record (caseLabel c) = i at hfit
  unfold case Case.record
  dsimp only
  rw [item_text, hi]
  cases c.usage with
  | none =>
    have hnone : CaseRecord.ofNode? (.element "case" i.attributes []) =
        some { i with usage := none } := CaseRecord.ofNode?_element i [] rfl .nil (Nat.zero_le 1)
    have hreads := Reads.emptyLine "    " "case" margin_four (by decide) hfit
    rw [← case_empty_text] at hreads
    exact .one hreads hnone
  | some u =>
    have hone (usage : List UsageRecord) (h : u.record.map ([·]) = .ok usage) :
        usage.length ≤ 1 := by
      cases hu : u.record with
      | error r => rw [hu] at h; cases h
      | ok v => rw [hu] at h; exact Except.ok.inj h ▸ Nat.le_refl 1
    have hnil : Reads "" (([] : List Node).flatMap (line "      ")) := .nil
    have h := (tells_usage u).element "    " "case"
      (fun usage => CaseRecord.mk i usage.head?) margin_four (by simp [Margin]) (by decide) hfit
      hnil (by simp) fun content ns usage hv hchildren hns =>
        CaseRecord.ofNode?_element i usage (by simpa using hchildren) hns (hone usage hv)
    have hrecord : (u.record.map ([·])).map (fun usage => [CaseRecord.mk i usage.head?]) =
        (u.record.map fun v => { i with usage := some v }).map ([·]) := by
      cases u.record <;> rfl
    simp only [← case_text] at h
    rw [hrecord] at h
    dsimp only
    rw [Draft.finished_enclosed, Draft.finished_ofExcept]
    exact h

theorem reads_synopsis (indent : String) (hindent : Margin indent) (s : Synopsis) :
    Reads (indent ++ synopsis s ++ "\n")
      ([Node.element "synopsis" s.attributes []].flatMap (line indent)) := by
  have hreads := Reads.emptyLine indent "synopsis" hindent (by decide) s.fit_attributes
  have htext : indent ++ "<" ++ "synopsis" ++ attributes s.attributes ++ "/>\n" =
      indent ++ synopsis s ++ "\n" := String.toList_inj.1 (by simp [synopsis_text])
  rwa [htext, ← List.flatMap_singleton (line indent)] at hreads

theorem tells_group {g : Group} (hid : Legal g.id) (hcases : ∀ c ∈ g.cases.items, Legal c.id) :
    Tells "  " GroupRecord.ofNode? (renderer.renderGroup g).finished (g.record.map ([·])) := by
  have hfit := ItemRecord.fit_attributes (i := g.toItem) hid (plain_label g.status).legal
  have hlines : Tells "    " CaseRecord.ofNode? (Draft.concat (g.cases.items.map case)).finished
      (g.cases.items.mapM Case.record) := .concat fun c hc => tells_case (hcases c hc)
  have h := hlines.element "  " "group"
    (fun cases => GroupRecord.mk (g.toItem.record g.status.label) cases g.synopsis) margin_two
    margin_four (by decide) hfit (reads_synopsis "    " margin_four g.synopsis)
    (by simp [Node.isBlank]) fun content ns cases _ hchildren hns =>
      GroupRecord.ofNode?_element _ g.synopsis hchildren hns
  have hrecord : g.record.map ([·]) = (g.cases.items.mapM Case.record).map fun cases =>
      [GroupRecord.mk (g.toItem.record g.status.label) cases g.synopsis] := by
    unfold Group.record
    cases g.cases.items.mapM Case.record <;> rfl
  simp only [← group_text] at h
  rw [hrecord, Renderer.renderGroup, Draft.finished_enclosed]
  exact h

theorem run_text (r : Run) (groups : List GroupRecord) (text : String) :
    run r .head ++ text ++ run r .tail =
      "<?xml version=\"1.0\" encoding=\"UTF-8\"?>\n" ++
        ("" ++ "<" ++ "run" ++ attributes (r.recordWith groups).attributes ++ ">\n" ++
          (text ++ ("  " ++ synopsis r.synopsis ++ "\n")) ++ "" ++ "</" ++ "run" ++ ">\n") := by
  unfold run
  generalize "<?xml version=\"1.0\" encoding=\"UTF-8\"?>\n" = declaration
  apply String.toList_inj.1
  cases hs : r.sandboxed <;>
    simp [attributes, RunRecord.attributes, Run.recordWith, times, hs]

end Report.Xml

/-- Identities and the name of the host are made of characters that XML allows. -/
structure Run.Legal (r : Run) : Prop where
  id : Markup.Legal r.id
  host : Markup.Legal r.host
  groups : ∀ g ∈ r.groups.items, Markup.Legal g.id
  cases : ∀ g ∈ r.groups.items, ∀ c ∈ g.cases.items, Markup.Legal c.id

/-- The document that holds just one line is read as the element on it. -/
theorem Markup.Tells.read? {α : Type} {decode : Node → Option α} {x : Except Raised String}
    {v : Except Raised α} (h : Tells "" decode x (v.map ([·]))) :
    x.map (fun text => (Markup.read? ("<?xml version=\"1.0\" encoding=\"UTF-8\"?>\n" ++ text)).bind
      decode) = v.map some := by
  cases v with
  | error r =>
    cases h
    rfl
  | ok v =>
    change Tells "" decode x (.ok [v]) at h
    cases h with
    | ok hreads hns =>
      obtain ⟨n, _, ⟨hn⟩, hnil, rfl⟩ := List.forall₂_cons_right_iff.1 hns
      cases List.forall₂_nil_right_iff.1 hnil
      refine congrArg Except.ok ?_
      show (Markup.read? _).bind decode = some v
      rw [hreads.read?]
      exact hn

theorem Run.Legal.tells {r : Run} (h : r.Legal) : Tells "" RunRecord.ofNode?
    ((Draft.concat (r.groups.items.map Xml.renderer.renderGroup)).finished.map fun text =>
      "" ++ "<" ++ "run" ++ attributes (r.recordWith []).attributes ++ ">\n" ++
        (text ++ ("  " ++ Xml.synopsis r.synopsis ++ "\n")) ++ "" ++ "</" ++ "run" ++ ">\n")
    (r.record.map ([·])) := by
  have hlines : Tells "  " GroupRecord.ofNode?
      (Draft.concat (r.groups.items.map Xml.renderer.renderGroup)).finished
      (r.groups.items.mapM Group.record) :=
    .concat fun g hg => Xml.tells_group (h.groups g hg) (h.cases g hg)
  have hrun := hlines.element "" "run" r.recordWith (by simp [Margin]) margin_two (by decide)
    (RunRecord.fit_attributes [] h.id h.host) (Xml.reads_synopsis "  " margin_two r.synopsis)
    (by simp [Node.isBlank]) fun content ns groups _ hchildren hns =>
      RunRecord.ofNode?_element (r.recordWith groups) hchildren hns
  have hrecord : r.record.map ([·]) =
      (r.groups.items.mapM Group.record).map fun groups => [r.recordWith groups] := by
    unfold Run.record
    cases r.groups.items.mapM Group.record <;> rfl
  rw [hrecord]
  exact hrun

/-- The report of a run as an XML document is well-formed, and says what is recorded of the run. It
is broken off only where a case took a time that cannot be written, and then what is recorded is
missing for the same reason. -/
theorem Report.render_readBack {r : Run} (hformat : r.format = "xml") (hlegal : r.Legal) :
    (Report.render {} r).finished.map RunRecord.read? = r.record.map some ∧
      ((∃ v, r.record = .ok v) ↔ ∀ c ∈ r.cases, ∀ u, c.usage = some u → u.Timed) := by
  refine ⟨?_, r.exists_record_iff⟩
  have hrender : Report.render {} r = Xml.renderer.render r := by
    unfold Report.render
    rw [hformat]
    rfl
  have htells := hlegal.tells.read?
  simp only [hrender, Renderer.render, Draft.finished_enclosed, Xml.renderer, Xml.run_text r []]
    at htells ⊢
  generalize (Draft.concat (r.groups.items.map _)).finished = x at htells ⊢
  unfold RunRecord.read?
  cases x <;> simpa only [Except.map] using htells

/-- A run whose identities hold quotes of both kinds, markup and white space. -/
def Report.quoting : Run where
  id := "it's \"a & b\"\t<1>\r\n"
  host := "h"
  format := "xml"
  sandboxed := false
  start := some ⟨1700000000123456, 3600⟩
  groups := { items := [{
    id := "]]>"
    rank := 1
    cases := { items := [
      { id := "&amp;", notRun := true },
      { id := "'", status := ⟨-7⟩, rank := 2, usage := some
          { utime := .float (.finite false 1 (-2)), stime := .whole 3, maxrss := 2048 } }] } }] }
  synopsis := { total := 2, failed := 1, notRun := 1 }

theorem Report.quoting_readBack : Report.quoting.format = "xml" ∧ Report.quoting.Legal ∧
    (Report.render {} Report.quoting).finished.map RunRecord.read? = .ok (some {
      id := "it's \"a & b\"\t<1>\r\n", host := "h", sandboxed := false
      start := "2023-11-14T23:13:20.123+01:00", stop := "-"
      groups := [{
        id := "]]>", label := "PASS", rank := 1, start := "-", stop := "-", synopsis := {}
        cases := [
          { id := "&amp;", label := "NOTRUN", rank := 0, start := "-", stop := "-", usage := none },
          { id := "'", label := "E-7", rank := 2, start := "-", stop := "-", usage := some {
              utime := "0.250000", stime := "3.000000", maxrss := 2048, minflt := 0, majflt := 0,
              nvcsw := 0, nivcsw := 0 } }] }]
      synopsis := { total := 2, failed := 1, notRun := 1 } }) := by
  have hlegal : Report.quoting.Legal := by
    constructor <;> decide
  refine ⟨rfl, hlegal, ?_⟩
  rw [(Report.render_readBack rfl hlegal).1]
  rfl

end RankRunner
