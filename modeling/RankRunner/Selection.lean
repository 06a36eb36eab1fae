import RankRunner.Run
import RankRunner.Text.Order

/-! Selecting groups by name together with everything they depend on. Names of groups that do not
exist are refused in the selection, and left alone in the dependencies. -/

namespace RankRunner.Selection

/-- The group that a name stands for; of several with one name the last. -/
def named? (groups : List Group) (name : String) : Option Group :=
  groups.reverse.find? (·.id == name)

/-- The groups that a group depends on, the last first. -/
def needs (groups : List Group) (g : Group) : List String :=
  (g.needs.filter fun t => groups.any (·.id == t)).reverse

def unknown (groups : List Group) (name : String) : Fault :=
  .noSuchGroup name (sortedTexts (groups.map (·.id)))

theorem mem_of_named? {groups : List Group} {name : String} {g : Group}
    (h : named? groups name = some g) : name ∈ groups.map (·.id) := by
  have hm := List.mem_of_find?_eq_some h
  have hn := List.find?_some h
  simp only [beq_iff_eq] at hn
  exact List.mem_map.2 ⟨g, by simpa using hm, hn⟩

/-- The names not yet wanted become fewer with every new one. -/
theorem length_filter_notMem_lt {names wanted : List String} {name : String}
    (h : name ∈ names) (hw : name ∉ wanted) :
    (names.filter (· ∉ name :: wanted)).length < (names.filter (· ∉ wanted)).length := by
  induction names with
  | nil => cases h
  | cons n ns ih =>
    have hle : (ns.filter (· ∉ name :: wanted)).length ≤ (ns.filter (· ∉ wanted)).length := by
      have hf : ns.filter (· ∉ name :: wanted) =
          (ns.filter (· ∉ wanted)).filter (· ≠ name) := by
        rw [List.filter_filter]
        exact List.filter_congr fun x _ => by simp [not_or]
      rw [hf]
      exact List.length_filter_le ..
    by_cases hn : n = name
    · subst hn
      simp only [List.filter_cons, List.mem_cons, true_or, not_true_eq_false, decide_false,
        Bool.false_eq_true, ↓reduceIte, hw, not_false_eq_true, decide_true, List.length_cons]
      simp only [List.mem_cons] at hle
      omega
    · have := ih ((List.mem_cons.1 h).resolve_left (Ne.symm hn))
      by_cases hm : n ∈ wanted
      · simpa [List.filter_cons, hn, hm] using this
      · simpa [List.filter_cons, hn, hm] using this

/-- The names wanted once everything on the stack has been followed, the top of it first. -/
def follow (groups : List Group) (wanted stack : List String) : Except Fault (List String) :=
  match stack with
  | [] => .ok wanted
  | name :: stack =>
    if _hw : name ∈ wanted then follow groups wanted stack
    else
      match _h : named? groups name with
      | none => .error (unknown groups name)
      | some g => follow groups (name :: wanted) (needs groups g ++ stack)
termination_by (((groups.map (·.id)).filter (· ∉ wanted)).length, stack.length)
decreasing_by
  · exact Prod.Lex.right _ (by simp)
  · exact Prod.Lex.left _ _ (length_filter_notMem_lt (mem_of_named? _h) _hw)

/-- The named groups and all they depend on, in the order of declaration; no names select
everything. The last name is followed first. -/
def select (groups : List Group) (names : List String) : Except Fault (List Group) :=
  match names with
  | [] => .ok groups
  | _ => (follow groups [] names.reverse).map fun wanted =>
      groups.filter fun g => wanted.contains g.id

end RankRunner.Selection
