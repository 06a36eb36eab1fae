import Mathlib
import RankRunner.Report
import RankRunner.Proofs.Lists
import RankRunner.Proofs.Report.Markup

/-! # Records of a run

A record is what a report says about a run, whatever it looks like. A run has one unless some time
in it cannot be written (`Run.exists_record_iff`). A record is read from the outermost element of a
document, where other nodes than the elements of the report and white space are refused, and the
elements with the attributes of a record are read as that record.

The whole library is imported for one lemma that no part of it brings along: an integer is read back
from its text (`Int.toInt?_repr`). -/

namespace RankRunner

open Markup Report

/-! ## Records -/

/-- What a report says about the resources that a child process used, the times as they are
written. -/
structure UsageRecord where
  utime : String
  stime : String
  maxrss : Int
  minflt : Int
  majflt : Int
  nvcsw : Int
  nivcsw : Int
  deriving DecidableEq

structure ItemRecord where
  id : String
  label : String
  rank : Int
  start : String
  stop : String
  deriving DecidableEq

structure CaseRecord extends ItemRecord where
  usage : Option UsageRecord
  deriving DecidableEq

structure GroupRecord extends ItemRecord where
  cases : List CaseRecord
  synopsis : Synopsis
  deriving DecidableEq

structure RunRecord where
  id : String
  host : String
  sandboxed : Bool
  start : String
  stop : String
  groups : List GroupRecord
  synopsis : Synopsis
  deriving DecidableEq

/-- What is said about a group or a case under a label. -/
def Item.record (i : Item) (label : String) : ItemRecord where
  id := i.id
  label
  rank := i.rank
  start := timeText i.start
  stop := timeText i.stop

/-- What is said about used resources. Times that are no numbers cannot be written. -/
def Usage.record (u : Usage) : Except Raised UsageRecord := do
  let utime ← u.utime.fixed 6
  let stime ← u.stime.fixed 6
  return { u with utime, stime }

def Case.record (c : Case) : Except Raised CaseRecord :=
  let i := c.toItem.record (caseLabel c)
  match c.usage with
  | none => .ok { i with usage := none }
  | some u => u.record.map fun v => { i with usage := some v }

def Group.record (g : Group) : Except Raised GroupRecord :=
  (g.cases.items.mapM Case.record).map fun cases =>
    { g.toItem.record g.status.label with cases, synopsis := g.synopsis }

/-- What is said about a run above what is said about its groups. -/
def Run.recordWith (r : Run) (groups : List GroupRecord) : RunRecord :=
  { r with start := timeText r.start, stop := timeText r.stop, groups }

/-- What a report says about a run: its groups and their cases in the order of declaration. -/
def Run.record (r : Run) : Except Raised RunRecord :=
  (r.groups.items.mapM Group.record).map r.recordWith

/-- The times of a usage can be written as decimals, as all but too large integers can. -/
def Usage.Timed (u : Usage) : Prop :=
  (∃ x, u.utime.toFloat = .ok x) ∧ ∃ x, u.stime.toFloat = .ok x

theorem exists_map_eq_ok {ε α β : Type} {x : Except ε α} {f : α → β} :
    (∃ b, x.map f = .ok b) ↔ ∃ a, x = .ok a := by
  cases x with
  | error e => exact ⟨nofun, nofun⟩
  | ok a => exact ⟨fun _ => ⟨a, rfl⟩, fun _ => ⟨f a, rfl⟩⟩

theorem exists_mapM_eq_ok {ε α β : Type} {f : α → Except ε β} {l : List α} :
    (∃ bs, l.mapM f = .ok bs) ↔ ∀ a ∈ l, ∃ b, f a = .ok b := by
  induction l with
  | nil => exact ⟨fun _ => nofun, fun _ => ⟨[], rfl⟩⟩
  | cons a l ih =>
    rw [List.forall_mem_cons, ← ih, List.mapM_cons]
    cases f a with
    | error e => exact ⟨nofun, fun h => nomatch h.1⟩
    | ok b =>
      have hrest : (do let bs ← l.mapM f; pure (b :: bs)) = (l.mapM f).map (b :: ·) := by
        cases l.mapM f <;> rfl
      show (∃ bs, (do let bs ← l.mapM f; pure (b :: bs)) = .ok bs) ↔ _
      rw [hrest, exists_map_eq_ok]
      exact ⟨fun h => ⟨⟨b, rfl⟩, h⟩, fun h => h.2⟩

theorem Usage.exists_record_iff (u : Usage) : (∃ v, u.record = .ok v) ↔ u.Timed := by
  unfold Usage.record Usage.Timed Seconds.fixed
  cases u.utime.toFloat with
  | error r => exact ⟨nofun, fun h => nomatch h.1⟩
  | ok x =>
    cases u.stime.toFloat with
    | error r => exact ⟨nofun, fun h => nomatch h.2⟩
    | ok y => exact ⟨fun _ => ⟨⟨x, rfl⟩, y, rfl⟩, fun _ => ⟨_, rfl⟩⟩

theorem Case.exists_record_iff (c : Case) :
    (∃ v, c.record = .ok v) ↔ ∀ u, c.usage = some u → u.Timed := by
  unfold Case.record
  cases c.usage with
  | none =>
    dsimp only
    exact ⟨fun _ _ hu => (nomatch hu), fun _ => ⟨_, rfl⟩⟩
  | some u =>
    dsimp only
    rw [exists_map_eq_ok, u.exists_record_iff]
    exact ⟨fun h _ hu => Option.some.inj hu ▸ h, fun h => h u rfl⟩

/-- A run has a record unless a time that one of its cases used is no number. -/
theorem Run.exists_record_iff (r : Run) :
    (∃ v, r.record = .ok v) ↔ ∀ c ∈ r.cases, ∀ u, c.usage = some u → u.Timed := by
  have hgroup (g : Group) : (∃ v, g.record = .ok v) ↔
      ∀ c ∈ g.cases.items, ∀ u, c.usage = some u → u.Timed := by
    rw [Group.record, exists_map_eq_ok, exists_mapM_eq_ok]
    exact forall₂_congr fun c _ => c.exists_record_iff
  rw [Run.record, exists_map_eq_ok, exists_mapM_eq_ok, Run.cases, List.forall_mem_flatMap]
  exact forall₂_congr fun g _ => hgroup g

/-! ## Reading records -/

def UsageRecord.ofNode? (n : Node) : Option UsageRecord := do
  guard (n.isNamed "usage" && n.children.isEmpty)
  return {
    utime := ← n.attribute? "utime", stime := ← n.attribute? "stime",
    maxrss := ← n.integer? "maxrss", minflt := ← n.integer? "minflt",
    majflt := ← n.integer? "majflt", nvcsw := ← n.integer? "nvcsw",
    nivcsw := ← n.integer? "nivcsw" }

def ItemRecord.ofNode? (n : Node) : Option ItemRecord := do
  return {
    id := ← n.attribute? "id", label := ← n.attribute? "status", rank := ← n.integer? "rank",
    start := ← n.attribute? "start", stop := ← n.attribute? "stop" }

def Synopsis.ofNode? (n : Node) : Option Synopsis := do
  guard (n.isNamed "synopsis" && n.children.isEmpty)
  return {
    total := ← n.integer? "total", passed := ← n.integer? "pass", failed := ← n.integer? "fail",
    aborted := ← n.integer? "abrt", skipped := ← n.integer? "skip",
    notRun := ← n.integer? "notrun" }

def CaseRecord.ofNode? (n : Node) : Option CaseRecord := do
  guard (n.isNamed "case")
  let item ← ItemRecord.ofNode? n
  match n.children with
  | [] => return { item with usage := none }
  | [u] => return { item with usage := some (← UsageRecord.ofNode? u) }
  | _ => none

def GroupRecord.ofNode? (n : Node) : Option GroupRecord := do
  guard (n.isNamed "group")
  let item ← ItemRecord.ofNode? n
  let cases ← n.children.dropLast.mapM CaseRecord.ofNode?
  return { item with cases, synopsis := ← n.children.getLast?.bind Synopsis.ofNode? }

def RunRecord.ofNode? (n : Node) : Option RunRecord := do
  guard (n.isNamed "run")
  let groups ← n.children.dropLast.mapM GroupRecord.ofNode?
  return {
    id := ← n.attribute? "id", host := ← n.attribute? "host",
    sandboxed := ← n.truth? "sandboxed", start := ← n.attribute? "start",
    stop := ← n.attribute? "stop", groups,
    synopsis := ← n.children.getLast?.bind Synopsis.ofNode? }

/-- The record in an XML document, which has to be well-formed. -/
def RunRecord.read? (text : String) : Option RunRecord :=
  (Markup.read? text).bind RunRecord.ofNode?

/-! ## Records from elements -/

def UsageRecord.attributes (u : UsageRecord) : List (String × String) := [
  ("utime", u.utime), ("stime", u.stime), ("maxrss", toString u.maxrss),
  ("minflt", toString u.minflt), ("majflt", toString u.majflt), ("nvcsw", toString u.nvcsw),
  ("nivcsw", toString u.nivcsw)]

def ItemRecord.attributes (i : ItemRecord) : List (String × String) := [
  ("id", i.id), ("status", i.label), ("rank", toString i.rank), ("start", i.start),
  ("stop", i.stop)]

def Synopsis.attributes (s : Synopsis) : List (String × String) :=
  s.entries.map fun (name, n) => (name, toString n)

def RunRecord.attributes (r : RunRecord) : List (String × String) := [
  ("id", r.id), ("host", r.host), ("sandboxed", if r.sandboxed then "true" else "false"),
  ("start", r.start), ("stop", r.stop)]

theorem UsageRecord.ofNode?_element (u : UsageRecord) :
    ofNode? (.element "usage" u.attributes []) = some u := by
  simp [ofNode?, Node.isNamed, Node.children, Node.attribute?, Node.integer?, attributes,
    List.lookup, Int.toInt?_repr]

theorem Synopsis.ofNode?_element (s : Synopsis) :
    ofNode? (.element "synopsis" s.attributes []) = some s := by
  simp [ofNode?, Node.isNamed, Node.children, Node.attribute?, Node.integer?, attributes, entries,
    List.lookup, Int.toInt?_repr]

theorem ItemRecord.ofNode?_element (i : ItemRecord) (name : String) (content : List Node) :
    ofNode? (.element name i.attributes content) = some i := by
  simp [ofNode?, Node.attribute?, Node.integer?, attributes, List.lookup, Int.toInt?_repr]

namespace Markup

variable {α : Type} {decode : Node → Option α}

/-- An element and what it is decoded as. -/
inductive Decodes (decode : Node → Option α) : Node → α → Prop where
  | element {name : String} {kvs : List (String × String)} {content : List Node} {v : α}
    (h : decode (.element name kvs content) = some v) :
    Decodes decode (.element name kvs content) v

theorem Decodes.decoded {n : Node} {v : α} (h : Decodes decode n v) : decode n = some v := by
  cases h
  assumption

theorem Decodes.mapM {ns : List Node} {vs : List α} (h : List.Forall₂ (Decodes decode) ns vs) :
    ns.mapM decode = some vs := by
  induction h with
  | nil => rfl
  | cons hn _ ih => simp [hn.decoded, ih]

theorem Decodes.elements {ns : List Node} {vs : List α}
    (h : List.Forall₂ (Decodes decode) ns vs) : ∀ n ∈ ns, n.isBlank = false := by
  intro n hn
  obtain ⟨_, _, ⟨_⟩⟩ := h.exists_of_mem_left hn
  rfl

end Markup

/-- There is at most one usage in a case. -/
theorem CaseRecord.ofNode?_element (i : ItemRecord) (usage : List UsageRecord)
    {content ns : List Node}
    (hchildren : (Node.element "case" i.attributes content).children = ns)
    (h : List.Forall₂ (Decodes UsageRecord.ofNode?) ns usage) (hone : usage.length ≤ 1) :
    ofNode? (.element "case" i.attributes content) = some { i with usage := usage.head? } := by
  unfold ofNode?
  rw [hchildren]
  cases h with
  | nil => simp [Node.isNamed, ItemRecord.ofNode?_element]
  | cons hn h =>
    cases h with
    | nil => simp [Node.isNamed, ItemRecord.ofNode?_element, hn.decoded]
    | cons => simp at hone

theorem GroupRecord.ofNode?_element (i : ItemRecord) (synopsis : Synopsis)
    {content ns : List Node} {cases : List CaseRecord}
    (hchildren : (Node.element "group" i.attributes content).children =
      ns ++ [.element "synopsis" synopsis.attributes []])
    (h : List.Forall₂ (Decodes CaseRecord.ofNode?) ns cases) :
    ofNode? (.element "group" i.attributes content) = some { i with cases, synopsis } := by
  simp [ofNode?, hchildren, Node.isNamed, ItemRecord.ofNode?_element, Decodes.mapM h,
    Synopsis.ofNode?_element]

theorem RunRecord.ofNode?_element (r : RunRecord) {content ns : List Node}
    (hchildren : (Node.element "run" r.attributes content).children =
      ns ++ [.element "synopsis" r.synopsis.attributes []])
    (h : List.Forall₂ (Decodes GroupRecord.ofNode?) ns r.groups) :
    ofNode? (.element "run" r.attributes content) = some r := by
  have hsandboxed : (Node.element "run" r.attributes content).truth? "sandboxed" =
      some r.sandboxed := by
    cases hs : r.sandboxed <;>
      simp [Node.truth?, Node.attribute?, attributes, List.lookup, hs]
  simp [ofNode?, hchildren, Node.isNamed, Decodes.mapM h, Synopsis.ofNode?_element, hsandboxed]
  simp [Node.attribute?, attributes, List.lookup]

end RankRunner
