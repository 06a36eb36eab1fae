import RankRunner.Proofs.Siblings.Fresh

/-! # Declared dependencies

The dependencies of an item have the names that were declared, each in the place where it was
declared first (`Item.needs_dependsOnAll`). To declare one by way of a list comes to declaring it of
the sibling with that name (`Siblings.dependsOn_eq_ok`), whose place among the siblings stays. -/

namespace RankRunner

namespace Item

variable {i : Item} {ts : List String}

theorem needs_dependsOn (h : i.needs = ts.eraseDups) (t : String) :
    (i.dependsOn t).needs = (ts ++ [t]).eraseDups := by
  have hmem : t ∈ ts ↔ i.dependency? t ≠ none := by
    rw [Ne, dependency?_eq_none_iff, not_not, h, List.mem_eraseDups]
  rw [List.eraseDups_snoc]
  unfold dependsOn
  split
  · next d hd =>
    rw [if_pos (hmem.2 (by simp [hd])), h]
  · next hd =>
    rw [if_neg fun ht => hmem.1 ht hd, ← h]
    simp [needs]

theorem needs_dependsOnAll (h : i.needs = ts.eraseDups) (us : List String) :
    (i.dependsOnAll us).needs = (ts ++ us).eraseDups := by
  induction us generalizing i ts with
  | nil => rwa [List.append_nil]
  | cons u us ih =>
    have := ih (needs_dependsOn h u)
    rwa [List.append_assoc] at this

theorem dependsOnAll_append (i : Item) (ts us : List String) :
    i.dependsOnAll (ts ++ us) = (i.dependsOnAll ts).dependsOnAll us :=
  List.foldl_append

end Item

/-- The first name that has come before. -/
def repeated? (seen : List String) : List String → Option String
  | [] => none
  | id :: ids => if id ∈ seen then some id else repeated? (seen ++ [id]) ids

theorem repeated?_eq_none_iff {seen ids : List String} (h : seen.Nodup) :
    repeated? seen ids = none ↔ (seen ++ ids).Nodup := by
  induction ids generalizing seen with
  | nil => simpa [repeated?] using h
  | cons id ids ih =>
    have happend : seen ++ id :: ids = seen ++ [id] ++ ids := (List.append_cons ..)
    by_cases hid : id ∈ seen
    · have hnot : ¬ (seen ++ id :: ids).Nodup := fun hn =>
        (List.nodup_append.1 hn).2.2 id hid id (by simp) rfl
      simp [repeated?, hid, hnot]
    · have hseen : (seen ++ [id]).Nodup :=
        List.nodup_append.2 ⟨h, List.nodup_singleton id, by
          rintro x hx y hy rfl
          exact hid (List.mem_singleton.1 hy ▸ hx)⟩
      rw [repeated?, if_neg hid, ih hseen, happend]

namespace Siblings

variable {α : Type} [WorkItem α] {l : Siblings α} {a : α} {id : String}

theorem add_eq_error (h : WorkItem.id a ∈ l.ids) :
    l.add a = .error (.duplicateId (WorkItem.kind α) (WorkItem.id a)) := by
  unfold add
  split
  · rfl
  · next hnone => exact (get?_eq_none_iff.1 hnone h).elim

theorem add_of_notMem (h : WorkItem.id a ∉ l.ids) :
    l.add a = .ok { l with items := l.items ++ [a] } := by
  rw [add, get?_eq_none_iff.2 h]

theorem position?_eq_none_iff : l.position? id = none ↔ id ∉ l.ids := by
  simp [position?, ids, List.findIdx?_eq_none_iff]

theorem dependsOn_eq_error (h : id ∉ l.ids) (t : String) :
    l.dependsOn id t = .error (.unknownItem id t) := by
  rw [dependsOn, position?_eq_none_iff.2 h]

/-- To change the item with a name is to change each item that has it. -/
theorem modify_eq_map {pos : Nat} (hn : l.ids.Nodup) (hpos : l.position? id = some pos)
    (f : α → α) :
    l.modify pos f =
      { l with items := l.items.map fun a => if WorkItem.id a = id then f a else a } := by
  obtain ⟨hlt, hid, -⟩ := List.findIdx?_eq_some_iff_getElem.1 hpos
  have hitems : l.items.modify pos f =
      l.items.map fun a => if WorkItem.id a = id then f a else a := by
    refine List.ext_getElem? fun p => ?_
    rw [List.getElem?_modify, List.getElem?_map]
    cases ha : l.items[p]? with
    | none => rfl
    | some a =>
      have hiff : pos = p ↔ WorkItem.id a = id := by
        have hb := List.getElem?_eq_getElem hlt
        constructor
        · rintro rfl
          cases hb.symm.trans ha
          simpa using hid
        · exact fun hid' => Classical.byContradiction fun hne =>
            id_ne_of_ne hn hb ha hne ((beq_iff_eq.1 hid).trans hid'.symm)
      by_cases hname : WorkItem.id a = id <;> simp [hiff, hname]
  rw [modify, hitems]

theorem dependsOn_eq_ok (hn : l.ids.Nodup) (h : id ∈ l.ids) (t : String) :
    ∃ d, l.dependsOn id t = .ok (
      { l with
        items := l.items.map fun a =>
          if WorkItem.id a = id then WorkItem.update (·.dependsOn t) a else a }, d) := by
  unfold dependsOn
  cases hpos : l.position? id with
  | none => exact (position?_eq_none_iff.1 hpos h).elim
  | some pos =>
    cases hget : l.get? id with
    | none => exact (get?_eq_none_iff.1 hget h).elim
    | some a => exact ⟨_, by rw [← modify_eq_map hn hpos]⟩

end Siblings
end RankRunner
