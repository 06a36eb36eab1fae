import RankRunner.Proofs.Declaration.Needs
import Mathlib.Data.List.Pairwise

/-! # Pools of work items

In a pool work items are known by number, and a list of siblings holds numbers: an item may stand in
several lists, and what is declared of it shows wherever it stands. What a call does to a list is
what it does to the siblings that the list stands for; a call that raises a fault keeps what was
done before it. The journal tells what entered a list and what was declared, in the order of the
calls. `Pool.Sound` relates the lists and the dependencies to it, and is kept by every operation. -/

namespace RankRunner

inductive Pool.Entry where
  | entered (list item : Nat)
  | declared (item : Nat) (target : String)

structure Pool (α : Type) where
  items : List α := []
  lists : List (List Nat) := []
  journal : List Pool.Entry := []

namespace Pool

open WorkItem (item)

variable {α : Type} {p : Pool α} {a : α} {k n m : Nat} {id t : String}

/-- The numbers in a list. -/
def numbers (p : Pool α) (k : Nat) : List Nat := (p.lists[k]?).getD []

/-- The items of a list, as they are now. -/
def siblings (p : Pool α) (k : Nat) : Siblings α where
  items := (p.numbers k).filterMap (p.items[·]?)

/-- What has entered a list so far. -/
def entered (p : Pool α) (k : Nat) : List Nat :=
  p.journal.filterMap fun
    | .entered list n => if list = k then some n else none
    | .declared _ _ => none

/-- What has been declared of an item so far. -/
def declared (p : Pool α) (n : Nat) : List String :=
  p.journal.filterMap fun
    | .declared n' target => if n' = n then some target else none
    | .entered _ _ => none

/-! ## Operations -/

def make (p : Pool α) (a : α) : Pool α := { p with items := p.items ++ [a] }

def openList (p : Pool α) : Pool α := { p with lists := p.lists ++ [[]] }

def enter (p : Pool α) (k n : Nat) : Pool α :=
  { p with lists := p.lists.modify k (· ++ [n]), journal := p.journal ++ [.entered k n] }

@[simp] theorem items_enter (p : Pool α) (k n : Nat) : (p.enter k n).items = p.items := rfl

/-- What is made gets the next number, so that nothing that stood in a list before changes. -/
theorem getElem?_make (h : n < p.items.length) (a : α) : (p.make a).items[n]? = p.items[n]? :=
  List.getElem?_append_left h

theorem numbers_enter (p : Pool α) (k n j : Nat) (h : k < p.lists.length) :
    (p.enter k n).numbers j = if k = j then p.numbers j ++ [n] else p.numbers j := by
  unfold enter numbers
  dsimp only
  rw [List.getElem?_modify]
  by_cases hj : k = j
  · subst hj
    simp [List.getElem?_eq_getElem h]
  · simp [hj]

theorem numbers_openList (p : Pool α) (k : Nat) : p.openList.numbers k = p.numbers k := by
  unfold openList numbers
  rcases Nat.lt_trichotomy k p.lists.length with hk | rfl | hk
  · rw [List.getElem?_append_left hk]
  · simp
  · rw [List.getElem?_eq_none (by simp; omega), List.getElem?_eq_none (by omega)]

theorem siblings_openList (p : Pool α) (k : Nat) : p.openList.siblings k = p.siblings k := by
  rw [siblings, numbers_openList]
  rfl

theorem siblings_eq_empty (hk : p.lists.length ≤ k) : p.siblings k = {} := by
  rw [siblings, numbers, List.getElem?_eq_none hk]
  rfl

theorem siblings_enter (p : Pool α) (k n j : Nat) (hk : k < p.lists.length)
    (ha : p.items[n]? = some a) : (p.enter k n).siblings j =
      if k = j then { items := (p.siblings j).items ++ [a] } else p.siblings j := by
  have hlast : [n].filterMap (p.items[·]?) = [a] := by simp [ha]
  rw [siblings, siblings, numbers_enter p k n j hk]
  split
  · rw [List.filterMap_append, ← hlast]
    rfl
  · rfl

/-- All items and all lists are as they were; there may be new ones. -/
structure Kept (p p' : Pool α) : Prop where
  items : ∀ n < p.items.length, p'.items[n]? = p.items[n]?
  siblings : ∀ k < p.lists.length, p'.siblings k = p.siblings k

theorem Kept.refl (p : Pool α) : p.Kept p := ⟨fun _ _ => rfl, fun _ _ => rfl⟩

/-- All items are as they were, and so are all lists but one. -/
structure KeptBut (p : Pool α) (k : Nat) (p' : Pool α) : Prop where
  items : p'.items = p.items
  length : p'.lists.length = p.lists.length
  elsewhere : ∀ j, k ≠ j → p'.siblings j = p.siblings j

theorem KeptBut.refl (p : Pool α) (k : Nat) : p.KeptBut k p := ⟨rfl, rfl, fun _ _ => rfl⟩

theorem KeptBut.trans {p' p'' : Pool α} (h : p.KeptBut k p') (h' : p'.KeptBut k p'') :
    p.KeptBut k p'' :=
  ⟨h'.items.trans h.items, h'.length.trans h.length,
    fun j hj => (h'.elsewhere j hj).trans (h.elsewhere j hj)⟩

/-- What comes of an operation on a list is what an operation on siblings gives: the siblings that
the list then stands for, or the fault. -/
def Gives (out : Pool α × Option Fault) (k : Nat) : Except Fault (Siblings α) → Prop
  | .ok l => out.2 = none ∧ out.1.siblings k = l
  | .error f => out.2 = some f

variable [WorkItem α]

/-- The name of an item. -/
def name? (p : Pool α) (n : Nat) : Option String := (p.items[n]?).map WorkItem.id

@[simp] theorem name?_enter (p : Pool α) (k n : Nat) : (p.enter k n).name? = p.name? := rfl

/-- The names that an item depends on. -/
def needs (p : Pool α) (n : Nat) : List String :=
  ((p.items[n]?).map fun a => (item a).needs).getD []

/-- Declare a dependency of an item; of what does not exist nothing is declared. -/
def declare (p : Pool α) (n : Nat) (target : String) : Pool α :=
  if n < p.items.length then
    { p with
      items := p.items.modify n (WorkItem.update (·.dependsOn target))
      journal := p.journal ++ [.declared n target] }
  else p

def declareAll (p : Pool α) (n : Nat) (targets : List String) : Pool α :=
  targets.foldl (·.declare n ·) p

/-- Add an item to a list. -/
def add (p : Pool α) (k n : Nat) : Pool α × Option Fault :=
  match p.lists[k]?, p.items[n]? with
  | some _, some a =>
    match (p.siblings k).add a with
    | .ok _ => (p.enter k n, none)
    | .error f => (p, some f)
  | _, _ => (p, none)

def addAll (p : Pool α) (k : Nat) : List Nat → Pool α × Option Fault
  | [] => (p, none)
  | n :: ns =>
    match p.add k n with
    | (p, none) => p.addAll k ns
    | (p, some f) => (p, some f)

/-- The number under which an item with a name stands in a list. -/
def member? (p : Pool α) (k : Nat) (id : String) : Option Nat :=
  (p.numbers k).find? (p.name? · == some id)

/-- Declare a dependency of the item that has a name in a list. -/
def dependsOn (p : Pool α) (k : Nat) (id target : String) : Pool α × Option Fault :=
  match (p.siblings k).dependsOn id target, p.member? k id with
  | .ok _, some n => (p.declare n target, none)
  | .ok _, none => (p, none)
  | .error f, _ => (p, some f)

def dependsOnAll (p : Pool α) (k : Nat) (id : String) : List String → Pool α × Option Fault
  | [] => (p, none)
  | t :: ts =>
    match p.dependsOn k id t with
    | (p, none) => p.dependsOnAll k id ts
    | (p, some f) => (p, some f)

/-! ## Names in a list -/

theorem ids_siblings (p : Pool α) (k : Nat) :
    (p.siblings k).ids = (p.numbers k).filterMap p.name? := by
  rw [Siblings.ids, siblings, List.map_filterMap]
  rfl

theorem lists_declare (p : Pool α) (n : Nat) (t : String) : (p.declare n t).lists = p.lists := by
  rw [declare]
  split <;> rfl

theorem numbers_declare (p : Pool α) (n k : Nat) (t : String) :
    (p.declare n t).numbers k = p.numbers k := by
  rw [numbers, numbers, lists_declare]

theorem name?_declare (p : Pool α) (n m : Nat) (t : String) :
    (p.declare n t).name? m = p.name? m := by
  unfold declare name?
  split
  · rw [List.getElem?_modify]
    cases p.items[m]? with
    | none => rfl
    | some a =>
      by_cases hm : n = m <;> simp [hm, WorkItem.id]
  · rfl

theorem needs_declare (p : Pool α) (h : n < p.items.length) (m : Nat) :
    (p.declare n t).needs m =
      if n = m then ((item p.items[n]).dependsOn t).needs else p.needs m := by
  unfold declare needs
  rw [if_pos h, List.getElem?_modify]
  by_cases hm : n = m
  · subst hm
    simp [List.getElem?_eq_getElem h]
  · simp [hm]

/-! ## What stays true -/

/-- The lists hold what has entered them, in that order, and the dependencies of an item have the
names that have been declared of it, every name once and in the place where it came first. The names
in a list are distinct. -/
structure Sound (p : Pool α) : Prop where
  entered : ∀ k, p.numbers k = p.entered k
  declared : ∀ n, p.needs n = (p.declared n).eraseDups
  existing : ∀ k, ∀ n ∈ p.numbers k, n < p.items.length
  distinct : ∀ k, (p.siblings k).ids.Nodup

/-- Lists and dependencies have only grown at their ends. -/
structure Grows (p p' : Pool α) : Prop where
  numbers : ∀ k, p.numbers k <+: p'.numbers k
  needs : ∀ n, p.needs n <+: p'.needs n

namespace Sound

/-- What the calls of a longer journal made is what those of the shorter one made, and more. -/
theorem grows {p' : Pool α} (h : p.Sound) (h' : p'.Sound) (hj : p.journal <+: p'.journal) :
    p.Grows p' where
  numbers k := by
    rw [h.entered, h'.entered]
    exact hj.filterMap _
  needs n := by
    obtain ⟨ts, hts⟩ : p.declared n <+: p'.declared n := hj.filterMap _
    rw [h.declared, h'.declared, ← hts, List.eraseDups_append]
    exact List.prefix_append ..

theorem empty : Sound ({} : Pool α) :=
  ⟨fun _ => rfl, fun _ => rfl, fun _ _ hn => by simp [numbers] at hn, fun _ => List.nodup_nil⟩

theorem siblings_make (h : p.Sound) (a : α) (k : Nat) :
    (p.make a).siblings k = p.siblings k := by
  refine congrArg (fun items => ({ items } : Siblings α)) (List.filterMap_congr fun n hn => ?_)
  exact getElem?_make (h.existing k n hn) a

theorem make (h : p.Sound) (ha : (item a).needs = []) : (p.make a).Sound where
  entered := h.entered
  declared n := by
    have hkept : (p.make a).needs n = p.needs n := by
      unfold Pool.make Pool.needs
      rcases Nat.lt_trichotomy n p.items.length with hn | rfl | hn
      · rw [List.getElem?_append_left hn]
      · simp [ha]
      · rw [List.getElem?_eq_none (by simp; omega), List.getElem?_eq_none (by omega)]
    exact hkept.trans (h.declared n)
  existing k n hn := by
    have := h.existing k n hn
    rw [Pool.make, List.length_append]
    omega
  distinct k := by
    rw [h.siblings_make]
    exact h.distinct k

theorem openList (h : p.Sound) : p.openList.Sound where
  entered k := (numbers_openList p k).trans (h.entered k)
  declared := h.declared
  existing k n hn := h.existing k n (numbers_openList p k ▸ hn)
  distinct k := by
    rw [siblings_openList]
    exact h.distinct k

theorem declare (h : p.Sound) (n : Nat) (t : String) : (p.declare n t).Sound := by
  by_cases hn : n < p.items.length
  · have hlength : (p.declare n t).items.length = p.items.length := by
      rw [Pool.declare, if_pos hn, List.length_modify]
    refine ⟨fun k => ?_, fun m => ?_, fun k m hm => ?_, fun k => ?_⟩
    · rw [numbers_declare, h.entered]
      simp [Pool.entered, Pool.declare, hn]
    · have hjournal : (p.declare n t).declared m =
          p.declared m ++ if n = m then [t] else [] := by
        rw [Pool.declare, if_pos hn]
        by_cases hm : n = m <;> simp [Pool.declared, hm]
      have hbefore := h.declared n
      rw [Pool.needs, List.getElem?_eq_getElem hn] at hbefore
      rw [needs_declare p hn, hjournal]
      split
      · next hm =>
        subst hm
        exact Item.needs_dependsOn hbefore t
      · rw [List.append_nil]
        exact h.declared m
    · rw [hlength]
      exact h.existing k m (numbers_declare p n k t ▸ hm)
    · rw [ids_siblings, numbers_declare]
      simp only [name?_declare]
      exact ids_siblings p k ▸ h.distinct k
  · rwa [Pool.declare, if_neg hn]

theorem enter (h : p.Sound) (hk : k < p.lists.length) (ha : p.items[n]? = some a)
    (hnew : WorkItem.id a ∉ (p.siblings k).ids) : (p.enter k n).Sound := by
  have hname : p.name? n = some (WorkItem.id a) := by rw [name?, ha, Option.map_some]
  refine ⟨fun j => ?_, fun m => ?_, fun j m hm => ?_, fun j => ?_⟩
  · rw [numbers_enter p k n j hk, h.entered]
    by_cases hj : k = j <;> simp [Pool.entered, Pool.enter, hj]
  · have hjournal : (p.enter k n).declared m = p.declared m := by
      simp [Pool.declared, Pool.enter]
    rw [hjournal]
    exact h.declared m
  · rw [numbers_enter p k n j hk] at hm
    split at hm
    · rcases List.mem_append.1 hm with hm | hm
      · exact h.existing j m hm
      · rw [List.mem_singleton.1 hm]
        exact (List.getElem?_eq_some_iff.1 ha).1
    · exact h.existing j m hm
  · have hids : ((p.enter k n).siblings j).ids = ((p.enter k n).numbers j).filterMap p.name? :=
      ids_siblings (p.enter k n) j
    rw [hids, numbers_enter p k n j hk]
    split
    · next hj =>
      subst hj
      have hlast : [n].filterMap p.name? = [WorkItem.id a] := by simp [hname]
      rw [List.filterMap_append, ← ids_siblings, hlast]
      refine List.nodup_append.2 ⟨h.distinct k, List.nodup_singleton _, fun x hx y hy => ?_⟩
      rintro rfl
      exact hnew (List.mem_singleton.1 hy ▸ hx)
    · exact ids_siblings p j ▸ h.distinct j

end Sound

/-! ## Adding to a list -/

theorem add_cases (p : Pool α) (k n : Nat) :
    (p.add k n = (p, none) ∧ (p.lists.length ≤ k ∨ p.items.length ≤ n)) ∨
      ∃ a, k < p.lists.length ∧ p.items[n]? = some a ∧
        ((p.add k n = (p.enter k n, none) ∧ WorkItem.id a ∉ (p.siblings k).ids) ∨
          (p.add k n = (p, some (.duplicateId (WorkItem.kind α) (WorkItem.id a))) ∧
            WorkItem.id a ∈ (p.siblings k).ids)) := by
  unfold add
  rcases Nat.lt_or_ge k p.lists.length with hk | hk
  · rcases Nat.lt_or_ge n p.items.length with hn | hn
    · refine .inr ⟨p.items[n], hk, List.getElem?_eq_getElem hn, ?_⟩
      simp only [List.getElem?_eq_getElem hk, List.getElem?_eq_getElem hn]
      by_cases hmem : WorkItem.id p.items[n] ∈ (p.siblings k).ids
      · exact .inr ⟨by rw [Siblings.add_eq_error hmem], hmem⟩
      · exact .inl ⟨by rw [Siblings.add_of_notMem hmem], hmem⟩
    · rw [List.getElem?_eq_none hn]
      exact .inl ⟨by cases p.lists[k]? <;> rfl, .inr hn⟩
  · rw [List.getElem?_eq_none hk]
    exact .inl ⟨rfl, .inl hk⟩

/-- What is raised when an item is added: its name is in the list. -/
theorem add_fault (p : Pool α) (k n : Nat) : (p.add k n).2 =
    ((p.name? n).filter (· ∈ (p.siblings k).ids)).map (.duplicateId (WorkItem.kind α)) := by
  rcases p.add_cases k n with ⟨h, hk | hn⟩ | ⟨a, -, ha, ⟨h, hmem⟩ | ⟨h, hmem⟩⟩ <;> rw [h, name?]
  · simp [siblings_eq_empty hk, Siblings.ids]
  · simp [List.getElem?_eq_none hn]
  all_goals simp [ha, Option.filter, hmem]

theorem Sound.add (h : p.Sound) (k n : Nat) : (p.add k n).1.Sound := by
  rcases p.add_cases k n with ⟨hadd, -⟩ | ⟨a, hk, ha, ⟨hadd, hnew⟩ | ⟨hadd, -⟩⟩ <;> rw [hadd]
  · exact h
  · exact h.enter hk ha hnew
  · exact h

theorem add_of_fault (h : (p.add k n).2 ≠ none) : (p.add k n).1 = p := by
  rcases p.add_cases k n with ⟨hadd, -⟩ | ⟨a, -, -, ⟨hadd, -⟩ | ⟨hadd, -⟩⟩ <;> rw [hadd] at h ⊢
  exact (h rfl).elim

/-- Adding an item to a list is adding it to the siblings that the list stands for. -/
theorem add_gives (hk : k < p.lists.length) (ha : p.items[n]? = some a) :
    Gives (p.add k n) k ((p.siblings k).add a) := by
  rcases p.add_cases k n with ⟨-, hnone⟩ | ⟨a', -, ha', ⟨hadd, hmem⟩ | ⟨hadd, hmem⟩⟩
  · have hn := (List.getElem?_eq_some_iff.1 ha).1
    omega
  all_goals
    obtain rfl : a = a' := Option.some.inj (ha.symm.trans ha')
    rw [hadd]
  · rw [Siblings.add_of_notMem hmem]
    refine ⟨rfl, ?_⟩
    rw [siblings_enter p k n k hk ha, if_pos rfl]
    rfl
  · rw [Siblings.add_eq_error hmem]
    rfl

/-- Adding to a list changes no item and no other list. -/
theorem add_keptBut (p : Pool α) (k n : Nat) : p.KeptBut k (p.add k n).1 := by
  rcases p.add_cases k n with ⟨hadd, -⟩ | ⟨a, hk, ha, ⟨hadd, -⟩ | ⟨hadd, -⟩⟩ <;> rw [hadd]
  · exact .refl p k
  · refine ⟨rfl, List.length_modify .., fun j hj => ?_⟩
    rw [siblings_enter p k n j hk ha, if_neg hj]
  · exact .refl p k

theorem journal_add (p : Pool α) (k n : Nat) : p.journal <+: (p.add k n).1.journal := by
  rcases p.add_cases k n with ⟨hadd, -⟩ | ⟨a, hk, ha, ⟨hadd, -⟩ | ⟨hadd, -⟩⟩ <;>
    simp only [hadd]
  · exact List.prefix_rfl
  · exact List.prefix_append ..
  · exact List.prefix_rfl

/-- Adding several items is adding some of them one after the other. -/
theorem addAll_of_add {R : Pool α → Pool α → Prop} (hrefl : ∀ p, R p p)
    (htrans : ∀ {p q r}, R p q → R q r → R p r) (hadd : ∀ p n, R p (p.add k n).1) (p : Pool α)
    (ns : List Nat) : R p (p.addAll k ns).1 := by
  induction ns generalizing p with
  | nil => exact hrefl p
  | cons n ns ih =>
    have hfirst := hadd p n
    unfold addAll
    split
    · next heq =>
      rw [heq] at hfirst
      exact htrans hfirst (ih _)
    · next heq =>
      rw [heq] at hfirst
      exact hfirst

theorem Sound.addAll (h : p.Sound) (k : Nat) (ns : List Nat) : (p.addAll k ns).1.Sound :=
  addAll_of_add (R := fun p q => p.Sound → q.Sound) (fun _ h => h) (fun hpq hqr h => hqr (hpq h))
    (fun _ n h => h.add k n) p ns h

theorem addAll_keptBut (p : Pool α) (k : Nat) (ns : List Nat) : p.KeptBut k (p.addAll k ns).1 :=
  addAll_of_add (R := fun p q => p.KeptBut k q) (fun p => .refl p k) KeptBut.trans
    (fun p n => p.add_keptBut k n) p ns

theorem journal_addAll (p : Pool α) (k : Nat) (ns : List Nat) :
    p.journal <+: (p.addAll k ns).1.journal :=
  addAll_of_add (R := fun p q => p.journal <+: q.journal) (fun _ => List.prefix_rfl)
    List.IsPrefix.trans (fun p n => p.journal_add k n) p ns

/-- What is raised when several items are added: a name comes again. -/
theorem addAll_fault (hk : k < p.lists.length) (ns : List Nat) : (p.addAll k ns).2 =
    (repeated? (p.siblings k).ids (ns.filterMap p.name?)).map
      (.duplicateId (WorkItem.kind α)) := by
  -- Each item that enters the list adds its name to those that have been seen.
  induction ns generalizing p with
  | nil => rfl
  | cons n ns ih =>
    unfold addAll
    rcases p.add_cases k n with ⟨hadd, hnone⟩ | ⟨a, -, ha, ⟨hadd, hmem⟩ | ⟨hadd, hmem⟩⟩ <;>
      rw [hadd, List.filterMap_cons]
    · have hn : p.items[n]? = none := List.getElem?_eq_none (hnone.resolve_left (by omega))
      simpa [name?, hn] using ih hk
    · have hlater := ih (p := p.enter k n) (by simpa [enter] using hk)
      rw [siblings_enter p k n k hk ha, if_pos rfl] at hlater
      simp only [name?, ha, Option.map_some, repeated?, if_neg hmem]
      simpa [Siblings.ids] using hlater
    · simp [name?, ha, repeated?, hmem]

theorem siblings_addAll (hk : k < p.lists.length) {ns : List Nat}
    (h : (p.addAll k ns).2 = none) : (p.addAll k ns).1.siblings k =
      { items := (p.siblings k).items ++ ns.filterMap (p.items[·]?) } := by
  induction ns generalizing p with
  | nil => simp [addAll, siblings]
  | cons n ns ih =>
    unfold addAll at h ⊢
    rcases p.add_cases k n with ⟨hadd, hnone⟩ | ⟨a, -, ha, ⟨hadd, -⟩ | ⟨hadd, -⟩⟩ <;>
      rw [hadd] at h ⊢
    · have hn : p.items[n]? = none := List.getElem?_eq_none (hnone.resolve_left (by omega))
      simpa [hn] using ih hk h
    · have hlater := ih (p := p.enter k n) (by simpa [enter] using hk) h
      rw [siblings_enter p k n k hk ha, if_pos rfl] at hlater
      simpa [ha] using hlater
    · cases h

/-! ## Finding an item by its name -/

theorem member?_eq_none_iff : p.member? k id = none ↔ id ∉ (p.siblings k).ids := by
  simp [member?, ids_siblings]

theorem mem_ids_of_member (h : p.member? k id = some n) : id ∈ (p.siblings k).ids := by
  refine Classical.byContradiction fun hnot => ?_
  rw [member?_eq_none_iff.2 hnot] at h
  cases h

theorem member?_declare (p : Pool α) (n k : Nat) (t id : String) :
    (p.declare n t).member? k id = p.member? k id := by
  simp only [member?, numbers_declare, name?_declare]

theorem dependsOn_of_notMem (h : id ∉ (p.siblings k).ids) (t : String) :
    p.dependsOn k id t = (p, some (.unknownItem id t)) := by
  rw [dependsOn, Siblings.dependsOn_eq_error h]

theorem dependsOn_of_member (hs : p.Sound) (h : p.member? k id = some n) (t : String) :
    p.dependsOn k id t = (p.declare n t, none) := by
  obtain ⟨d, hd⟩ := Siblings.dependsOn_eq_ok (hs.distinct k) (mem_ids_of_member h) t
  rw [dependsOn, hd, h]

theorem dependsOnAll_of_member (hs : p.Sound) (h : p.member? k id = some n)
    (targets : List String) : p.dependsOnAll k id targets = (p.declareAll n targets, none) := by
  induction targets generalizing p with
  | nil => rfl
  | cons t ts ih =>
    rw [dependsOnAll, dependsOn_of_member hs h]
    exact ih (hs.declare n t) ((member?_declare ..).trans h)

theorem dependsOnAll_of_notMem (h : id ∉ (p.siblings k).ids) (targets : List String) :
    p.dependsOnAll k id targets = (p, targets.head?.map (.unknownItem id)) := by
  cases targets with
  | nil => rfl
  | cons t ts =>
    rw [dependsOnAll, dependsOn_of_notMem h]
    rfl

/-- In a list, no two numbers have the same name. -/
theorem Sound.number_unique (h : p.Sound) (hn : n ∈ p.numbers k) (hm : m ∈ p.numbers k)
    (hnid : p.name? n = some id) (hmid : p.name? m = some id) : n = m := by
  have hpairs := h.distinct k
  rw [ids_siblings, List.Nodup, List.pairwise_filterMap] at hpairs
  have : Std.Symm fun x y => ∀ b, p.name? x = some b → ∀ b', p.name? y = some b' → b ≠ b' :=
    ⟨fun x y hxy b hb b' hb' => (hxy b' hb' b hb).symm⟩
  exact Classical.byContradiction fun hne => hpairs.forall hn hm hne id hnid id hmid rfl

/-! ## Declaring several dependencies -/

theorem Sound.declareAll (h : p.Sound) (n : Nat) (targets : List String) :
    (p.declareAll n targets).Sound := by
  induction targets generalizing p with
  | nil => exact h
  | cons t ts ih => exact ih (h.declare n t)

theorem items_declareAll (p : Pool α) (n : Nat) (targets : List String) :
    (p.declareAll n targets).items =
      p.items.modify n (WorkItem.update (·.dependsOnAll targets)) := by
  induction targets generalizing p with
  | nil =>
    have hsame : (WorkItem.update (·.dependsOnAll []) : α → α) = fun a => a :=
      funext WorkItem.setItem_item
    rw [hsame]
    exact (List.modify_id n p.items).symm
  | cons t ts ih =>
    have hfirst : (p.declare n t).items = p.items.modify n (WorkItem.update (·.dependsOn t)) := by
      rw [declare]
      split
      · rfl
      · next hn => rw [List.modify_eq_self (Nat.le_of_not_lt hn)]
    refine (ih (p.declare n t)).trans ?_
    rw [hfirst, List.modify_modify_eq]
    congr 1
    funext a
    simp only [Function.comp_apply, WorkItem.update, WorkItem.item_setItem,
      WorkItem.setItem_setItem]
    rfl

/-- An item has got some more dependencies. The other items and all lists are as they were. -/
structure Needing (p : Pool α) (n : Nat) (targets : List String) (p' : Pool α) : Prop where
  items : p'.items = p.items.modify n (WorkItem.update (·.dependsOnAll targets))
  lists : p'.lists = p.lists

@[simp] theorem length_items_declareAll (p : Pool α) (n : Nat) (targets : List String) :
    (p.declareAll n targets).items.length = p.items.length := by
  rw [items_declareAll, List.length_modify]

@[simp] theorem lists_declareAll (p : Pool α) (n : Nat) (targets : List String) :
    (p.declareAll n targets).lists = p.lists := by
  induction targets generalizing p with
  | nil => rfl
  | cons t ts ih => exact (ih (p.declare n t)).trans (lists_declare p n t)

theorem declareAll_needing (p : Pool α) (n : Nat) (targets : List String) :
    p.Needing n targets (p.declareAll n targets) :=
  ⟨items_declareAll .., lists_declareAll ..⟩

theorem journal_declareAll (p : Pool α) (n : Nat) (targets : List String) :
    p.journal <+: (p.declareAll n targets).journal := by
  induction targets generalizing p with
  | nil => exact List.prefix_rfl
  | cons t ts ih =>
    refine List.IsPrefix.trans ?_ (ih (p.declare n t))
    rw [declare]
    split
    · exact List.prefix_append ..
    · exact List.prefix_rfl

/-- To declare something by way of a list is to declare it of the item that has the name there. -/
theorem dependsOnAll_cases (hs : p.Sound) (k : Nat) (id : String) (targets : List String) :
    (∃ n, p.member? k id = some n ∧
        p.dependsOnAll k id targets = (p.declareAll n targets, none)) ∨
      (id ∉ (p.siblings k).ids ∧
        p.dependsOnAll k id targets = (p, targets.head?.map (.unknownItem id))) := by
  cases h : p.member? k id with
  | none =>
    have hid := member?_eq_none_iff.1 h
    exact .inr ⟨hid, dependsOnAll_of_notMem hid targets⟩
  | some n => exact .inl ⟨n, rfl, dependsOnAll_of_member hs h targets⟩

theorem dependsOnAll_singleton (p : Pool α) (k : Nat) (id t : String) :
    p.dependsOnAll k id [t] = p.dependsOn k id t := by
  unfold dependsOnAll
  split
  · next heq => exact heq.symm
  · next heq => exact heq.symm

theorem journal_dependsOnAll (hs : p.Sound) (k : Nat) (id : String) (targets : List String) :
    p.journal <+: (p.dependsOnAll k id targets).1.journal := by
  rcases dependsOnAll_cases hs k id targets with ⟨n, -, hout⟩ | ⟨-, hout⟩ <;>
    simp only [hout]
  · exact p.journal_declareAll n targets
  · exact List.prefix_rfl

/-- What is raised when something is declared by way of a list: the list has no such name. -/
theorem dependsOnAll_fault (hs : p.Sound) (k : Nat) (id : String) (targets : List String) :
    (p.dependsOnAll k id targets).2 =
      if id ∈ (p.siblings k).ids then none else targets.head?.map (.unknownItem id) := by
  rcases dependsOnAll_cases hs k id targets with ⟨n, hn, hout⟩ | ⟨hid, hout⟩ <;> rw [hout]
  · rw [if_pos (mem_ids_of_member hn)]
  · rw [if_neg hid]

theorem dependsOnAll_of_fault (hs : p.Sound) {targets : List String}
    (h : (p.dependsOnAll k id targets).2 ≠ none) : (p.dependsOnAll k id targets).1 = p := by
  rcases dependsOnAll_cases hs k id targets with ⟨n, -, hout⟩ | ⟨-, hout⟩ <;> rw [hout] at h ⊢
  exact (h rfl).elim

theorem dependsOnAll_frame (hs : p.Sound) (k : Nat) (id : String) (targets : List String) :
    (p.dependsOnAll k id targets).1.lists = p.lists ∧
      (p.dependsOnAll k id targets).1.items.length = p.items.length := by
  rcases dependsOnAll_cases hs k id targets with ⟨n, -, hout⟩ | ⟨-, hout⟩ <;> rw [hout] <;> simp

theorem Sound.dependsOnAll (h : p.Sound) (k : Nat) (id : String) (targets : List String) :
    (p.dependsOnAll k id targets).1.Sound := by
  rcases dependsOnAll_cases h k id targets with ⟨n, -, hout⟩ | ⟨-, hout⟩ <;> rw [hout]
  · exact h.declareAll n targets
  · exact h

theorem siblings_declareAll (hs : p.Sound) (h : p.member? k id = some n)
    (targets : List String) : (p.declareAll n targets).siblings k =
      { items := (p.siblings k).items.map fun a =>
          if WorkItem.id a = id then WorkItem.update (·.dependsOnAll targets) a else a } := by
  have hn : n ∈ p.numbers k := List.mem_of_find?_eq_some h
  have hname : p.name? n = some id := by simpa using List.find?_some h
  rw [siblings, siblings, numbers, lists_declareAll, items_declareAll, List.map_filterMap]
  refine congrArg (fun items => ({ items } : Siblings α)) (List.filterMap_congr fun m hm => ?_)
  rw [List.getElem?_modify]
  cases ha : p.items[m]? with
  | none => rfl
  | some a =>
    -- In other lists there may be items with the same name, which are left alone.
    have hiff : n = m ↔ WorkItem.id a = id := by
      constructor
      · rintro rfl
        simpa [name?, ha] using hname
      · exact fun hid => hs.number_unique hn hm hname (by rw [name?, ha, ← hid]; rfl)
    by_cases hid : WorkItem.id a = id <;> simp [hiff, hid]

/-- Declaring something by way of a list is declaring it among the siblings that the list stands
for. -/
theorem dependsOn_gives (hs : p.Sound) (k : Nat) (id t : String) :
    Gives (p.dependsOn k id t) k (((p.siblings k).dependsOn id t).map (·.1)) := by
  rw [← dependsOnAll_singleton]
  rcases dependsOnAll_cases hs k id [t] with ⟨n, hn, hout⟩ | ⟨hid, hout⟩ <;> rw [hout]
  · obtain ⟨d, hd⟩ := Siblings.dependsOn_eq_ok (hs.distinct k) (mem_ids_of_member hn) t
    rw [hd]
    exact ⟨rfl, siblings_declareAll hs hn [t]⟩
  · rw [Siblings.dependsOn_eq_error hid]
    rfl

/-- It is declared of the item that has the name in the list, and of no other one. -/
theorem dependsOn_needing (hs : p.Sound) (h : p.member? k id = some n) (t : String) :
    p.Needing n [t] (p.dependsOn k id t).1 := by
  rw [dependsOn_of_member hs h]
  exact p.declareAll_needing n [t]

theorem Sound.kept_make (h : p.Sound) (a : α) : p.Kept (p.make a) :=
  ⟨fun _ hn => getElem?_make hn a, fun k _ => h.siblings_make a k⟩

/-- Adding to a new list leaves the others alone. -/
theorem kept_addAll_openList (p : Pool α) (ns : List Nat) :
    p.Kept (p.openList.addAll p.lists.length ns).1 := by
  have hadded := p.openList.addAll_keptBut p.lists.length ns
  refine ⟨fun n _ => congrArg (·[n]?) hadded.items, fun k hk => ?_⟩
  exact (hadded.elsewhere k (Nat.ne_of_gt hk)).trans (siblings_openList p k)

end Pool
end RankRunner
