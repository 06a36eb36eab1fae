import RankRunner.Proofs.Schedule.Children
import RankRunner.Proofs.Schedule.Loops
import RankRunner.Proofs.Siblings.Ranked

/-! # How far a schedule has come

`Upto l₀ l F G r k` tells of a list `l` that is being scheduled and was `l₀` before: what the
schedule has passed when it comes to the place `k` of the rank `r` is related to what it was by
`F`, and what lies ahead by `G`. Everything that an item of the rank `r` depends on has been
passed (`Upto.needs_past`), which is what ranks are for. What a schedule does at a place is to go
by, to dispatch or to skip what lies there (`ensures_isDue_upto`). -/

namespace RankRunner.Siblings

open WorkItem (item)

variable {α : Type} [WorkItem α] {l l₀ l' : Siblings α} {F F' G G' : α → α → Prop} {r : Int}
  {k : Nat} {a₀ a : α}

/-- Whether a schedule that has come to the place `k` of the rank `r` is past the item at the
place `p`. -/
def Past (r : Int) (k p : Nat) (a : α) : Prop :=
  (item a).rank < r ∨ (item a).rank = r ∧ p < k

structure Upto (l₀ l : Siblings α) (F G : α → α → Prop) (r : Int) (k : Nat) : Prop where
  length : l.items.length = l₀.items.length
  past : ∀ p a₀, l₀.items[p]? = some a₀ → Past r k p a₀ → ∃ a, l.items[p]? = some a ∧ F a₀ a
  ahead : ∀ p a₀, l₀.items[p]? = some a₀ → ¬ Past r k p a₀ → ∃ a, l.items[p]? = some a ∧ G a₀ a

namespace Upto

theorem start (hr : l₀.Ranked) (hG : ∀ a ∈ l₀.items, G a a) : Upto l₀ l₀ F G 0 0 := by
  refine ⟨rfl, fun p a₀ ha₀ hp => ?_, fun p a₀ ha₀ _ => ⟨a₀, ha₀, hG a₀ (List.mem_of_getElem? ha₀)⟩⟩
  have := hr.rank_nonneg a₀ (List.mem_of_getElem? ha₀)
  rcases hp with hp | ⟨_, hp⟩ <;> omega

/-- Behind the last place of a rank comes the first one of the next. -/
theorem next (h : Upto l₀ l F G r l₀.items.length) : Upto l₀ l F G (r + 1) 0 := by
  have hiff : ∀ p a₀, l₀.items[p]? = some a₀ →
      (Past (r + 1) 0 p a₀ ↔ Past r l₀.items.length p a₀) := by
    intro p a₀ ha₀
    obtain ⟨hlt, _⟩ := List.getElem?_eq_some_iff.1 ha₀
    unfold Past
    omega
  exact ⟨h.length, fun p a₀ ha₀ hp => h.past p a₀ ha₀ ((hiff p a₀ ha₀).1 hp),
    fun p a₀ ha₀ hp => h.ahead p a₀ ha₀ (mt (hiff p a₀ ha₀).2 hp)⟩

/-- Behind the last rank everything has been passed. -/
theorem finish (hr : l₀.Ranked) (h : Upto l₀ l F G (l₀.maxRank + 1) 0) (p : Nat)
    (ha₀ : l₀.items[p]? = some a₀) : ∃ a, l.items[p]? = some a ∧ F a₀ a := by
  have := hr.rank_le a₀ (List.mem_of_getElem? ha₀)
  exact h.past p a₀ ha₀ (.inl (by omega))

theorem forall₂ (hr : l₀.Ranked) (h : Upto l₀ l F G (l₀.maxRank + 1) 0) :
    List.Forall₂ F l₀.items l.items := by
  refine List.forall₂_iff_get.2 ⟨h.length.symm, fun p hp hp' => ?_⟩
  obtain ⟨a, ha, hF⟩ := h.finish hr p (List.getElem?_eq_getElem hp)
  rw [List.getElem?_eq_getElem hp'] at ha
  cases ha
  exact hF

theorem at_place (h : Upto l₀ l F G r k) (ha₀ : l₀.items[k]? = some a₀)
    (hr : r ≤ (item a₀).rank) : ∃ a, l.items[k]? = some a ∧ G a₀ a :=
  h.ahead k a₀ ha₀ (by unfold Past; omega)

theorem go_by (h : Upto l₀ l F G r k) (hr : ∀ a₀, l₀.items[k]? = some a₀ → (item a₀).rank ≠ r) :
    Upto l₀ l F G r (k + 1) := by
  have hiff : ∀ p a₀, l₀.items[p]? = some a₀ → (Past r (k + 1) p a₀ ↔ Past r k p a₀) := by
    intro p a₀ ha₀
    by_cases hp : p = k
    · have := hr a₀ (hp ▸ ha₀)
      unfold Past
      omega
    · unfold Past
      omega
  exact ⟨h.length, fun p a₀ ha₀ hp => h.past p a₀ ha₀ ((hiff p a₀ ha₀).1 hp),
    fun p a₀ ha₀ hp => h.ahead p a₀ ha₀ (mt (hiff p a₀ ha₀).2 hp)⟩

/-- The item at the place that the schedule has come to is changed and passed, while all others
stay, and are related to what they were as before. -/
theorem pass (h : Upto l₀ l F G r k) (ha₀ : l₀.items[k]? = some a₀) (hr : (item a₀).rank = r)
    (hlen : l'.items.length = l.items.length)
    (hsame : ∀ p, p ≠ k → l'.items[p]? = l.items[p]?)
    (ha : l'.items[k]? = some a) (hF : F' a₀ a)
    (hFs : ∀ p b₀ b, p ≠ k → l₀.items[p]? = some b₀ → F b₀ b → F' b₀ b)
    (hGs : ∀ p b₀ b, p ≠ k → l₀.items[p]? = some b₀ → G b₀ b → G' b₀ b) :
    Upto l₀ l' F' G' r (k + 1) := by
  refine ⟨hlen.trans h.length, fun p b₀ hb₀ hp => ?_, fun p b₀ hb₀ hp => ?_⟩
  · by_cases hpk : p = k
    · subst hpk
      cases ha₀.symm.trans hb₀
      exact ⟨a, ha, hF⟩
    · obtain ⟨b, hb, hFb⟩ := h.past p b₀ hb₀ (by unfold Past at hp ⊢; omega)
      exact ⟨b, (hsame p hpk).trans hb, hFs p b₀ b hpk hb₀ hFb⟩
  · by_cases hpk : p = k
    · subst hpk
      cases ha₀.symm.trans hb₀
      exact absurd (.inr ⟨hr, by omega⟩) hp
    · obtain ⟨b, hb, hGb⟩ := h.ahead p b₀ hb₀ (by unfold Past at hp ⊢; omega)
      exact ⟨b, (hsame p hpk).trans hb, hGs p b₀ b hpk hb₀ hGb⟩

theorem pass_modify (h : Upto l₀ l F G r k) (ha₀ : l₀.items[k]? = some a₀)
    (hr : (item a₀).rank = r) {f : α → α} (hf : ∀ a, G a₀ a → F a₀ (f a)) :
    Upto l₀ (l.modify k f) F G r (k + 1) := by
  obtain ⟨a, ha, hG⟩ := h.at_place ha₀ (Int.le_of_eq hr.symm)
  exact h.pass ha₀ hr modify_length (fun p hp => modify_getElem?_of_ne hp) (modify_getElem? ha)
    (hf a hG) (fun _ _ _ _ _ hb => hb) fun _ _ _ _ _ hb => hb

theorem revise (h : Upto l₀ l F G r k) {q : Nat}
    (hlen : l'.items.length = l.items.length)
    (hsame : ∀ p, p ≠ q → l'.items[p]? = l.items[p]?)
    (hq : ∀ a₀, l₀.items[q]? = some a₀ → Past r k q a₀ ∧ ∃ a, l'.items[q]? = some a ∧ F' a₀ a)
    (hFs : ∀ p b₀ b, p ≠ q → l₀.items[p]? = some b₀ → l.items[p]? = some b → F b₀ b → F' b₀ b)
    (hGs : ∀ b₀ b, G b₀ b → G' b₀ b) : Upto l₀ l' F' G' r k := by
  refine ⟨hlen.trans h.length, fun p b₀ hb₀ hp => ?_, fun p b₀ hb₀ hp => ?_⟩
  · by_cases hpq : p = q
    · subst hpq
      exact (hq b₀ hb₀).2
    · obtain ⟨b, hb, hFb⟩ := h.past p b₀ hb₀ hp
      exact ⟨b, (hsame p hpq).trans hb, hFs p b₀ b hpq hb₀ hb hFb⟩
  · obtain ⟨b, hb, hGb⟩ := h.ahead p b₀ hb₀ hp
    refine ⟨b, (hsame p ?_).trans hb, hGs b₀ b hGb⟩
    rintro rfl
    exact hp (hq b₀ hb₀).1

theorem mono (h : Upto l₀ l F G r k)
    (hF : ∀ a₀ ∈ l₀.items, ∀ a ∈ l.items, F a₀ a → F' a₀ a)
    (hG : ∀ a₀ ∈ l₀.items, ∀ a ∈ l.items, G a₀ a → G' a₀ a) : Upto l₀ l F' G' r k := by
  refine ⟨h.length, fun p a₀ ha₀ hp => ?_, fun p a₀ ha₀ hp => ?_⟩
  · obtain ⟨a, ha, hFa⟩ := h.past p a₀ ha₀ hp
    exact ⟨a, ha, hF a₀ (List.mem_of_getElem? ha₀) a (List.mem_of_getElem? ha) hFa⟩
  · obtain ⟨a, ha, hGa⟩ := h.ahead p a₀ ha₀ hp
    exact ⟨a, ha, hG a₀ (List.mem_of_getElem? ha₀) a (List.mem_of_getElem? ha) hGa⟩

theorem related (h : Upto l₀ l F G r k) (p : Nat) (ha₀ : l₀.items[p]? = some a₀) :
    ∃ a, l.items[p]? = some a ∧ (F a₀ a ∨ G a₀ a) := by
  by_cases hp : Past r k p a₀
  · obtain ⟨a, ha, hF⟩ := h.past p a₀ ha₀ hp
    exact ⟨a, ha, .inl hF⟩
  · obtain ⟨a, ha, hG⟩ := h.ahead p a₀ ha₀ hp
    exact ⟨a, ha, .inr hG⟩

/-- What a schedule has passed is not of a higher rank. -/
theorem le_rank (h : Upto l₀ l F G r k) :
    Upto l₀ l (fun a₀ a => (item a₀).rank ≤ r ∧ F a₀ a) G r k := by
  refine ⟨h.length, fun p a₀ ha₀ hp => ?_, h.ahead⟩
  obtain ⟨a, ha, hF⟩ := h.past p a₀ ha₀ hp
  exact ⟨a, ha, by unfold Past at hp; omega, hF⟩

/-- What an item was, and whether the schedule has passed it. -/
theorem original (h : Upto l₀ l F G r k) {p : Nat} (ha : l.items[p]? = some a) :
    ∃ a₀, l₀.items[p]? = some a₀ ∧ (Past r k p a₀ ∧ F a₀ a ∨ ¬ Past r k p a₀ ∧ G a₀ a) := by
  obtain ⟨hlt, _⟩ := List.getElem?_eq_some_iff.1 ha
  obtain ⟨a₀, ha₀⟩ : ∃ a₀, l₀.items[p]? = some a₀ :=
    ⟨_, List.getElem?_eq_getElem (h.length ▸ hlt)⟩
  refine ⟨a₀, ha₀, ?_⟩
  by_cases hp : Past r k p a₀
  · obtain ⟨a', ha', hF⟩ := h.past p a₀ ha₀ hp
    cases ha.symm.trans ha'
    exact .inl ⟨hp, hF⟩
  · obtain ⟨a', ha', hG⟩ := h.ahead p a₀ ha₀ hp
    cases ha.symm.trans ha'
    exact .inr ⟨hp, hG⟩

theorem forall₂_related {R : α → α → Prop} (h : Upto l₀ l F G r k)
    (hF : ∀ a₀ ∈ l₀.items, ∀ a, F a₀ a → R a₀ a) (hG : ∀ a₀ ∈ l₀.items, ∀ a, G a₀ a → R a₀ a) :
    List.Forall₂ R l₀.items l.items := by
  refine List.forall₂_iff_get.2 ⟨h.length.symm, fun p hp hp' => ?_⟩
  obtain ⟨a, ha, hFG⟩ := h.related p (List.getElem?_eq_getElem hp)
  rw [List.getElem?_eq_getElem hp'] at ha
  cases ha
  rcases hFG with hFa | hGa
  · exact hF _ (List.getElem_mem hp) _ hFa
  · exact hG _ (List.getElem_mem hp) _ hGa

theorem forall_mem {P : α → Prop} (h : Upto l₀ l F G r k)
    (hF : ∀ a₀ ∈ l₀.items, ∀ a, F a₀ a → P a) (hG : ∀ a₀ ∈ l₀.items, ∀ a, G a₀ a → P a) :
    ∀ a ∈ l.items, P a := fun _ ha =>
  let ⟨_, _, hP⟩ := (h.forall₂_related (R := fun _ => P) hF hG).exists_of_mem_right ha
  hP

theorem ids (h : Upto l₀ l F G r k) (hF : ∀ a₀ a, F a₀ a → WorkItem.id a = WorkItem.id a₀)
    (hG : ∀ a₀ a, G a₀ a → WorkItem.id a = WorkItem.id a₀) : l.ids = l₀.ids := by
  refine List.ext_getElem? fun p => ?_
  simp only [Siblings.ids, List.getElem?_map]
  cases ha₀ : l₀.items[p]? with
  | none =>
    have : l.items[p]? = none := by
      rw [List.getElem?_eq_none_iff] at ha₀ ⊢
      rwa [h.length]
    rw [this]
  | some a₀ =>
    obtain ⟨a, ha, hFG⟩ := h.related p ha₀
    rw [ha, Option.map_some, Option.map_some]
    rcases hFG with hF' | hG'
    · rw [hF a₀ a hF']
    · rw [hG a₀ a hG']

/-- What an item of the rank at hand depends on has been passed. -/
theorem needs_past (hr : l₀.Ranked) (h : Upto l₀ l F G r k)
    (hF : ∀ a₀ a, F a₀ a → WorkItem.id a = WorkItem.id a₀)
    (hG : ∀ a₀ a, G a₀ a → WorkItem.id a = WorkItem.id a₀)
    (ha₀ : a₀ ∈ l₀.items) (hrank : (item a₀).rank = r) {t : String} (ht : t ∈ (item a₀).needs) :
    ∃ b₀ ∈ l₀.items, ∃ b ∈ l.items, WorkItem.id b₀ = t ∧ (item b₀).rank < r ∧ F b₀ b ∧
      l.get? t = some b := by
  obtain ⟨b₀, hb₀, rfl, hlt⟩ := hr.below a₀ ha₀ t ht
  obtain ⟨q, hq⟩ := List.mem_iff_getElem?.1 hb₀
  obtain ⟨b, hb, hFb⟩ := h.past q b₀ hq (.inl (hrank ▸ hlt))
  refine ⟨b₀, hb₀, b, List.mem_of_getElem? hb, rfl, hrank ▸ hlt, hFb, ?_⟩
  rw [← hF b₀ b hFb]
  exact get?_of_mem (h.ids hF hG ▸ hr.nodup) (List.mem_of_getElem? hb)

end Upto

/-- In a ranked list an item is due when everything it depends on succeeded. -/
theorem satisfiesAll_iff (l : Siblings α) {i : Item} (hi : ∀ d ∈ i.deps, d.resolved = true) :
    l.satisfiesAll i = true ↔ ∀ t ∈ i.needs, ∃ b, l.get? t = some b ∧ (item b).succeeded = true := by
  simp only [satisfiesAll, List.all_eq_true, Item.needs, List.mem_map, forall_exists_index, and_imp,
    forall_apply_eq_imp_iff₂]
  refine forall₂_congr fun d hd => ?_
  simp only [satisfies, hi d hd, Bool.true_and, Option.any_eq_true]

/-- Whether an item is due depends on nothing but who of its siblings succeeded. -/
theorem satisfiesAll_congr (h : List.Forall₂ (fun a b => WorkItem.id b = WorkItem.id a ∧
    (item b).succeeded = (item a).succeeded) l.items l'.items) (i : Item) :
    l'.satisfiesAll i = l.satisfiesAll i := by
  have hget (t : String) : (l'.get? t).any (fun a => (item a).succeeded) =
      (l.get? t).any fun a => (item a).succeeded := by
    unfold get?
    generalize l.items = as at h ⊢
    generalize l'.items = bs at h ⊢
    induction h with
    | nil => rfl
    | @cons a b _ _ hab _ ih =>
      rw [List.find?_cons, List.find?_cons, hab.1]
      split
      · exact hab.2
      · exact ih
  have hsatisfies : l'.satisfies = l.satisfies :=
    funext fun d => congrArg (d.resolved && ·) (hget d.target)
  rw [satisfiesAll, satisfiesAll, hsatisfies]

end RankRunner.Siblings

namespace RankRunner.Schedule

open Effect

variable {α σ : Type} [WorkItem α] {l₀ : Siblings α} {s : Scope α σ} {F G : α → α → Prop} {r : Int}
  {k : Nat} {a₀ : α} {Q : Bool → Scope α σ → Prop} {E : Failure → Scope α σ → Prop}

/-- A place is gone by, or what lies there is of the rank at hand and has not been passed, and then
it is due or skipped. -/
theorem ensures_isDue_upto (h : l₀.Upto s.list F G r k) (ha₀ : l₀.items[k]? = some a₀)
    (hF : ∀ a, F a₀ a → (WorkItem.item a).rank = (WorkItem.item a₀).rank)
    (hG : ∀ a, G a₀ a → (WorkItem.item a).rank = (WorkItem.item a₀).rank)
    (other : l₀.Upto s.list F G r (k + 1) → Q false s)
    (due : (WorkItem.item a₀).rank = r → ∀ a, s.list.items[k]? = some a → G a₀ a →
      s.list.satisfiesAll (WorkItem.item a) = true → Q true s)
    (skipped : (WorkItem.item a₀).rank = r → ∀ a, s.list.items[k]? = some a → G a₀ a →
      s.list.satisfiesAll (WorkItem.item a) = false → ∀ shown,
        Q false { list := s.list.modify k WorkItem.skip, host := { s.host with shown } }) :
    Ensures (isDue r k) Q E s := by
  obtain ⟨a, ha, hFG⟩ := h.related k ha₀
  have hrank : (WorkItem.item a).rank = (WorkItem.item a₀).rank := hFG.elim (hF a) (hG a)
  have hahead (heq : (WorkItem.item a₀).rank = r) : G a₀ a := by
    obtain ⟨_, ha', hGa⟩ := h.at_place ha₀ (Int.le_of_eq heq.symm)
    cases ha.symm.trans ha'
    exact hGa
  refine ensures_isDue ha (fun hne => ?_) (fun heq hsat => ?_) fun heq hsat => ?_
  · refine other (h.go_by fun a' ha' => ?_)
    cases ha₀.symm.trans ha'
    exact hrank ▸ hne
  · have heq₀ := hrank.symm.trans heq
    exact due heq₀ a ha (hahead heq₀) hsat
  · have heq₀ := hrank.symm.trans heq
    exact skipped heq₀ a ha (hahead heq₀) hsat

end RankRunner.Schedule
