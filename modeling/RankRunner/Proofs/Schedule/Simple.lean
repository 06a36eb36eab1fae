import RankRunner.Proofs.Schedule.Children
import RankRunner.Proofs.Schedule.Loops
import RankRunner.Proofs.Siblings.Passes

/-! # Simple schedules

A simple schedule dispatches exactly the items that are ready, each once, and skips all others
(`DispatchRule.ensures_schedule`). This is the same for groups and for cases; what has to be known
of one dispatch is a `DispatchRule`. -/

namespace RankRunner.Schedule

open Effect Siblings WorkItem

variable {α σ : Type} [WorkItem α] {dispatch : Nat → Effect (Scope α σ) Unit} {good : α → Prop}
  {F : α → α → Prop} {K : List α → Host σ → Prop} {l₀ l : Siblings α}
  {E : Failure → Scope α σ → Prop} {done : List α} {r : Int} {k : Nat} {a₀ a : α}

/-- What has been dispatched or skipped is related by `F` to what it was, and succeeded exactly if
it passes. To dispatch an item brings the surroundings from `K done` to `K (done ++ [a])`. -/
structure DispatchRule (dispatch : Nat → Effect (Scope α σ) Unit) (good : α → Prop)
    (F : α → α → Prop) (K : List α → Host σ → Prop) (l₀ : Siblings α)
    (E : Failure → Scope α σ → Prop) : Prop where
  id_eq : ∀ a₀ a, F a₀ a → WorkItem.id a = WorkItem.id a₀
  rank_eq : ∀ a₀ a, F a₀ a → (item a).rank = (item a₀).rank
  succeeded_iff : ∀ a₀ ∈ l₀.items, ∀ a, F a₀ a →
    ((item a).succeeded = true ↔ l₀.Passes good (WorkItem.id a₀))
  skip : ∀ a₀ ∈ l₀.items, ¬ l₀.Ready good a₀ → F a₀ (WorkItem.skip a₀)
  calm : ∀ done h, K done h → h.requested = false
  unaffected : ∀ done h shown, K done h → K done { h with shown }
  dispatch : ∀ k a₀ done s, l₀.items[k]? = some a₀ → s.list.items[k]? = some a₀ →
    l₀.Ready good a₀ → K done s.host → Ensures (dispatch k)
      (fun _ t => K (done ++ [a₀]) t.host ∧ ∃ f, t.list = s.list.modify k f ∧ F a₀ (f a₀)) E s

/-- How far the schedule has come, `done` being what it has dispatched. -/
structure Dispatched (good : α → Prop) (F : α → α → Prop) (l₀ : Siblings α) (done : List α)
    (r : Int) (k : Nat) (l : Siblings α) : Prop where
  visited : Visited l₀ done r k
  upto : l₀.Upto l (fun a₀ a => F a₀ a ∧ (l₀.Ready good a₀ ↔ a₀ ∈ done)) (fun a₀ a => a = a₀) r k

namespace Dispatched

theorem next (h : Dispatched good F l₀ done r l₀.items.length l) :
    Dispatched good F l₀ done (r + 1) 0 l :=
  ⟨h.visited.next, h.upto.next⟩

/-- An item that is not ready is skipped. -/
theorem skip (hr : l₀.Ranked) (h : Dispatched good F l₀ done r k l) (ha₀ : l₀.items[k]? = some a₀)
    (hrank : (item a₀).rank = r) (hready : ¬ l₀.Ready good a₀) (hF : F a₀ (WorkItem.skip a₀)) :
    Dispatched good F l₀ done r (k + 1) (l.modify k WorkItem.skip) := by
  have hdone : a₀ ∉ done := fun hmem => h.visited.id_ne hr.nodup ha₀ hrank hmem rfl
  refine ⟨h.visited.go_by, h.upto.pass_modify ha₀ hrank ?_⟩
  rintro _ rfl
  exact ⟨hF, fun h => absurd h hready, fun h => absurd h hdone⟩

/-- An item that is ready is dispatched. -/
theorem snoc (hr : l₀.Ranked) (h : Dispatched good F l₀ done r k l) (ha₀ : l₀.items[k]? = some a₀)
    (hrank : (item a₀).rank = r) (hready : l₀.Ready good a₀) {f : α → α} (hF : F a₀ (f a₀)) :
    Dispatched good F l₀ (done ++ [a₀]) r (k + 1) (l.modify k f) := by
  obtain ⟨a, ha, rfl⟩ := h.upto.at_place ha₀ (Int.le_of_eq hrank.symm)
  have hmem : a ∈ done ++ [a] := List.mem_append_right _ (List.mem_singleton_self a)
  refine ⟨h.visited.snoc hr.nodup ha₀ hrank, h.upto.pass ha₀ hrank modify_length
    (fun p hp => modify_getElem?_of_ne hp) (modify_getElem? ha)
    ⟨hF, fun _ => hmem, fun _ => hready⟩ (fun p b₀ b hp hb₀ ⟨hb, hiff⟩ => ⟨hb, ?_⟩)
    fun _ _ _ _ _ hb => hb⟩
  have hne : b₀ ≠ a := by
    rintro rfl
    exact id_ne_of_ne hr.nodup hb₀ ha₀ hp rfl
  rw [hiff, List.mem_append, List.mem_singleton, or_iff_left hne]

end Dispatched

namespace DispatchRule

variable (rule : DispatchRule dispatch good F K l₀ E) (hr : l₀.Ranked)
include rule hr

/-- A place is gone by, skipped or dispatched. -/
theorem ensures_place {s : Scope α σ} (hk : k < l₀.items.length) (hK : K done s.host)
    (h : Dispatched good F l₀ done r k s.list) :
    Ensures (isDue r k) (fun due s => if due then Ensures (dispatch k)
        (fun _ t => ∃ done, K done t.host ∧ Dispatched good F l₀ done r (k + 1) t.list) E s
      else ∃ done, K done s.host ∧ Dispatched good F l₀ done r (k + 1) s.list) E s := by
  have ha₀ := List.getElem?_eq_getElem hk
  have hmem := List.getElem_mem hk
  generalize l₀.items[k] = a₀ at ha₀ hmem
  have hiff (hrank : (item a₀).rank = r) :
      s.list.satisfiesAll (item a₀) = true ↔ l₀.Ready good a₀ :=
    h.upto.satisfiesAll_iff_ready hr (fun a₀ a hF => rule.id_eq a₀ a hF.1)
      (fun _ _ h => by rw [h]) (fun a₀ ha₀ a _ hF => rule.succeeded_iff a₀ ha₀ a hF.1) hmem hrank
  refine ensures_isDue_upto h.upto ha₀ (fun _ hF => rule.rank_eq _ _ hF.1) (fun _ h => h ▸ rfl)
    (fun hupto => ⟨done, hK, h.visited.go_by, hupto⟩) ?_ ?_
  · rintro hrank _ ha rfl hsat
    have hready := (hiff hrank).1 hsat
    refine (rule.dispatch k _ done s ha₀ ha hready hK).mono (fun _ t ht => ?_) fun _ _ h => h
    obtain ⟨hK', f, ht, hF⟩ := ht
    exact ⟨_, hK', ht ▸ h.snoc hr ha₀ hrank hready hF⟩
  · rintro hrank _ _ rfl hsat _
    have hready := (hiff hrank).not.1 (Bool.eq_false_iff.1 hsat)
    exact ⟨done, rule.unaffected _ _ _ hK, h.skip hr ha₀ hrank hready (rule.skip _ hmem hready)⟩

open Classical in
/-- A simple schedule dispatches exactly the items that are ready, each once. -/
theorem ensures_schedule {h : Host σ} (hK : K [] h) :
    Ensures (schedule dispatch) (fun _ t => List.Forall₂ F l₀.items t.list.items ∧
      ∃ done, K done t.host ∧ done.Perm (l₀.items.filter (decide <| l₀.Ready good ·))) E ⟨l₀, h⟩ := by
  have hstart : Dispatched good F l₀ [] 0 0 l₀ := ⟨.nil, .start hr fun _ _ => rfl⟩
  refine (Schedule.ensures_schedule (n := l₀.items.length) (I := fun r k t => ∃ done,
    K done t.host ∧ Dispatched good F l₀ done r k t.list) hr.maxRank_nonneg
    (fun _ _ _ ⟨_, _, h⟩ => h.upto.length) (fun r k t hk ⟨_, hK, h⟩ => rule.ensures_place hr hk hK h)
    (fun _ _ ⟨done, hK, h⟩ => ⟨done, hK, h.next⟩) ⟨[], hK, hstart⟩).mono (fun _ t ht => ?_)
    fun _ _ h => h
  rcases ht with ⟨done, hK, h⟩ | ⟨hreq, _, done, hK, _⟩
  · have hall := h.upto.forall₂ hr
    refine ⟨hall.imp fun _ _ h => h.1, done, hK, h.visited.perm_filter hr.nodup fun a ha => ?_⟩
    obtain ⟨_, _, _, hiff⟩ := hall.exists_of_mem_left ha
    rw [decide_eq_true_iff]
    exact hiff
  · rw [rule.calm done _ hK] at hreq
    cases hreq

end DispatchRule

end RankRunner.Schedule
