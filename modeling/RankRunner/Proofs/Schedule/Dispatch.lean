import RankRunner.Proofs.Launcher.Yielding
import RankRunner.Proofs.Schedule.Underway

/-! # The order of dispatch

A schedule goes through a list rank by rank, and within a rank in the order of declaration
(`Siblings.course`). Of what it has passed it has dispatched exactly what is due, each case once and
in that order (`Listed`). This stays true while cases start and end, since whether an item is due
depends on items of lower ranks only (`Siblings.satisfiesAll_modify`). -/

namespace RankRunner

namespace Siblings

open WorkItem (item)

variable {α : Type} [WorkItem α] {l l₀ : Siblings α} {r : Int} {k : Nat} {a b : α} {f : α → α}

/-- The items that a schedule passes before it comes to the place `k` of the rank `r`, in the order
in which it passes them. -/
def course (l : Siblings α) (r : Int) (k : Nat) : List α :=
  ((List.range r.toNat).flatMap fun (n : Nat) => l.atRank n) ++
    (l.items.take k).filter fun a => (item a).rank == r

theorem mem_course (ha : a ∈ l.course r k) : a ∈ l.items ∧ (item a).rank ≤ r := by
  rcases List.mem_append.1 ha with ha | ha
  · obtain ⟨n, hn, ha⟩ := List.mem_flatMap.1 ha
    obtain ⟨hmem, hrank⟩ := List.mem_filter.1 ha
    have := List.mem_range.1 hn
    have := beq_iff_eq.1 hrank
    exact ⟨hmem, by omega⟩
  · obtain ⟨hmem, hrank⟩ := List.mem_filter.1 ha
    exact ⟨List.mem_of_mem_take hmem, Int.le_of_eq (beq_iff_eq.1 hrank)⟩

theorem course_go_by (ha : l.items[k]? = some a) (hrank : (item a).rank ≠ r) :
    l.course r (k + 1) = l.course r k := by
  simp [course, List.take_add_one, ha, hrank]

theorem course_pass (ha : l.items[k]? = some a) (hrank : (item a).rank = r) :
    l.course r (k + 1) = l.course r k ++ [a] := by
  simp [course, List.take_add_one, ha, hrank]

theorem course_next (hr : 0 ≤ r) : l.course (r + 1) 0 = l.course r l.items.length := by
  have htop : (r + 1).toNat = r.toNat + 1 := by omega
  have hcast : (r.toNat : Int) = r := Int.toNat_of_nonneg hr
  simp [course, htop, List.range_succ, hcast, atRank]

/-- At the end a schedule has passed all ranks. -/
theorem course_end : l.course (l.maxRank + 1) 0 = l.ranks.flatMap l.atRank := by
  rw [course, List.take_zero, List.filter_nil, List.append_nil, ranks, List.flatMap_map]
  rfl

/-- Whether an item is due does not depend on items that are not of a lower rank. -/
theorem satisfiesAll_modify (hr : l₀.Ranked) (hids : l.ids = l₀.ids)
    (ha : l₀.items[k]? = some a) (hf : ∀ a, WorkItem.id (f a) = WorkItem.id a)
    (hb : b ∈ l₀.items) (hrank : (item b).rank ≤ (item a).rank) :
    (l.modify k f).satisfiesAll (item b) = l.satisfiesAll (item b) := by
  have hget (t) (ht : t ∈ (item b).needs) : (l.modify k f).get? t = l.get? t := by
    obtain ⟨c, hc, rfl, hlt⟩ := hr.below b hb t ht
    refine List.find?_modify_of_eq_false fun a' ha' => ?_
    have hid : WorkItem.id a' = WorkItem.id a := by
      have hplace : l.ids[k]? = l₀.ids[k]? := by rw [hids]
      simp only [Siblings.ids, List.getElem?_map, ha', ha] at hplace
      exact Option.some.inj hplace
    have hne : WorkItem.id a ≠ WorkItem.id c := fun heq => by
      cases List.inj_on_of_nodup_map hr.nodup (List.mem_of_getElem? ha) hc heq
      omega
    rw [hf, hid, beq_eq_false_iff_ne.2 hne]
    exact ⟨rfl, rfl⟩
  rw [Bool.eq_iff_iff, satisfiesAll_iff _ (hr.resolved b hb), satisfiesAll_iff _ (hr.resolved b hb)]
  exact forall₂_congr fun t ht => by rw [hget t ht]

end Siblings

namespace Journal

variable {σ : Type} {e : Entry σ}

theorem dispatched_of_start {l : Siblings Case} {c : Case} {answer : Except Failure Int}
    (he : e.act = .start l c answer) : dispatched [e] = [c] := by
  simp [dispatched, he, Act.dispatched?]

end Journal

namespace Schedule

open Siblings

variable {σ : Type} {J : Journal σ} {e : Journal.Entry σ} {l₀ l : Siblings Case} {r : Int}
  {k p : Nat} {c₀ c : Case} {f : Case → Case}

/-- Of the cases that the schedule has passed those that are due have been dispatched, each once and
in their order. Those that are not run were refused. -/
structure Listed (l₀ : Siblings Case) (r : Int) (k : Nat) (J : Journal σ) (l : Siblings Case) :
    Prop where
  dispatched : J.dispatched = (l₀.course r k).filter fun c => l.satisfiesAll c.toItem
  refused : ∀ (p : Nat) (c : Case), l.items[p]? = some c → c.notRun = true → none ∈ J.starts c.id

namespace Listed

theorem start_of_idle (hidle : ∀ c ∈ l₀.items, c.Idle) : Listed (σ := σ) l₀ 0 0 [] l₀ := by
  refine ⟨rfl, fun p c hc hnot => ?_⟩
  rw [(hidle c (List.mem_of_getElem? hc)).notRun] at hnot
  cases hnot

/-- Only cases that have been passed were dispatched. -/
theorem of_mem (h : Listed l₀ r k J l) (hc : c ∈ J.dispatched) : c ∈ l₀.items ∧ c.rank ≤ r := by
  rw [h.dispatched] at hc
  exact mem_course (List.mem_of_mem_filter hc)

theorem go_by (h : Listed l₀ r k J l) (hc₀ : l₀.items[k]? = some c₀) (hne : c₀.rank ≠ r) :
    Listed l₀ r (k + 1) J l :=
  ⟨by rw [course_go_by hc₀ hne, h.dispatched], h.refused⟩

theorem next (h : Listed l₀ r l₀.items.length J l) (hr : 0 ≤ r) : Listed l₀ (r + 1) 0 J l :=
  ⟨by rw [course_next hr, h.dispatched], h.refused⟩

/-- Nothing is dispatched. -/
theorem keep (h : Listed l₀ r k J l) (J' : Journal σ) (hJ' : J'.dispatched = []) :
    Listed l₀ r k (J ++ J') l := by
  refine ⟨by rw [Journal.dispatched_append, hJ', List.append_nil, h.dispatched], ?_⟩
  intro p c hc hnot
  rw [Journal.starts_append]
  exact List.mem_append_left _ (h.refused p c hc hnot)

/-- A case of the rank at hand is changed, which may be on the occasion of passing it. -/
theorem modify (hr : l₀.Ranked) (hids : l.ids = l₀.ids) (h : Listed l₀ r k J l)
    (hc₀ : l₀.items[p]? = some c₀) (hrank : c₀.rank = r) (hf : ∀ c, (f c).id = c.id)
    (J' : Journal σ) {k' : Nat} {new : List Case}
    (hcourse : l₀.course r k' = l₀.course r k ++ new)
    (hnew : J'.dispatched = new.filter fun c => l.satisfiesAll c.toItem)
    (hnot : ∀ c, l.items[p]? = some c → (f c).notRun = true →
      c.notRun = true ∨ none ∈ J'.starts c.id) : Listed l₀ r k' (J ++ J') (l.modify p f) := by
  refine ⟨?_, fun q c hc hcn => ?_⟩
  · rw [Journal.dispatched_append, h.dispatched, hnew, ← List.filter_append, ← hcourse]
    refine List.filter_congr fun b hb => ?_
    obtain ⟨hmem, hle⟩ := mem_course hb
    exact (satisfiesAll_modify hr hids hc₀ hf hmem (hrank ▸ hle)).symm
  · rw [Journal.starts_append, List.mem_append]
    by_cases hq : q = p
    · subst hq
      obtain ⟨b, hb, rfl⟩ := exists_of_modify_getElem? hc
      rw [hf]
      exact (hnot b hb hcn).imp_left (h.refused q b hb)
    · rw [modify_getElem?_of_ne hq] at hc
      exact .inl (h.refused q c hc hcn)

theorem skip (hr : l₀.Ranked) (hids : l.ids = l₀.ids) (h : Listed l₀ r k J l)
    (hc₀ : l₀.items[k]? = some c₀) (hrank : c₀.rank = r)
    (hdue : l.satisfiesAll c₀.toItem = false) :
    Listed l₀ r (k + 1) J (l.modify k WorkItem.skip) := by
  have hmodify := h.modify hr hids hc₀ hrank (f := WorkItem.skip) (fun _ => rfl) []
    (course_pass hc₀ hrank) (by simp [hdue, Journal.dispatched]) fun _ _ hnot => .inl hnot
  rwa [List.append_nil] at hmodify

theorem dispatch (hr : l₀.Ranked) (hids : l.ids = l₀.ids) (h : Listed l₀ r k J l)
    (hc₀ : l₀.items[k]? = some c₀) (hrank : c₀.rank = r) (hdue : l.satisfiesAll c₀.toItem = true)
    (hf : ∀ c, (f c).id = c.id) {siblings : Siblings Case} {answer : Except Failure Int}
    (he : e.act = .start siblings c₀ answer)
    (hnot : ∀ c, l.items[k]? = some c → (f c).notRun = true →
      c.notRun = true ∨ none ∈ Journal.starts [e] c.id) :
    Listed l₀ r (k + 1) (J ++ [e]) (l.modify k f) := by
  refine h.modify hr hids hc₀ hrank hf [e] (course_pass hc₀ hrank) ?_ hnot
  rw [Journal.dispatched_of_start he]
  simp [hdue]

theorem complete (hr : l₀.Ranked) (hids : l.ids = l₀.ids) (h : Listed l₀ r k J l)
    (hc₀ : l₀.items[p]? = some c₀) (hrank : c₀.rank = r) (J' : Journal σ)
    (hJ' : J'.dispatched = []) (t : Timestamp) (d : Completion) :
    Listed l₀ r k (J ++ J') (l.modify p (·.completed t d)) :=
  h.modify hr hids hc₀ hrank (f := (·.completed t d)) (fun _ => rfl) J' (List.append_nil _).symm hJ'
    fun _ _ hnot => .inl hnot

end Listed

end Schedule
end RankRunner
