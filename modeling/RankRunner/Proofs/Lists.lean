import Mathlib.Data.List.Forall2
import Mathlib.Data.List.Induction
import Mathlib.Data.List.Nodup
import Mathlib.Data.List.Perm.Basic

/-! # Lists changed in one place -/

namespace List

variable {α β γ : Type _} {l : List α} {pos : Nat} {a : α}

theorem map_modify_of_forall {f : α → α} {g : α → β} (h : ∀ a, g (f a) = g a) (l : List α)
    (pos : Nat) : (l.modify pos f).map g = l.map g := by
  apply ext_getElem?
  intro i
  simp only [getElem?_map, getElem?_modify]
  cases l[i]? with
  | none => rfl
  | some a => by_cases hi : pos = i <;> simp [hi, h]

theorem perm_cons_eraseIdx (h : l[pos]? = some a) : l ~ a :: l.eraseIdx pos := by
  obtain ⟨hlt, rfl⟩ := getElem?_eq_some_iff.1 h
  exact (getElem_cons_eraseIdx_perm hlt).symm

theorem modify_perm_cons_eraseIdx (h : l[pos]? = some a) (f : α → α) :
    l.modify pos f ~ f a :: l.eraseIdx pos := by
  have hm : (l.modify pos f)[pos]? = some (f a) := by rw [getElem?_modify_eq, h]; rfl
  have := perm_cons_eraseIdx hm
  rwa [eraseIdx_modify_of_eq] at this

theorem mem_of_lookup {κ : Type _} [BEq κ] [LawfulBEq κ] {entries : List (κ × β)} {key : κ} {b : β}
    (h : entries.lookup key = some b) : (key, b) ∈ entries := by
  obtain ⟨before, after, rfl, _⟩ := lookup_eq_some_iff.1 h
  exact mem_append_right _ mem_cons_self

/-- Of what occurs more than once the first occurrence stays. -/
theorem eraseDups_snoc [BEq α] [LawfulBEq α] (l : List α) (a : α) :
    (l ++ [a]).eraseDups = if a ∈ l then l.eraseDups else l.eraseDups ++ [a] := by
  rw [eraseDups_append]
  split <;> simp [removeAll, eraseDups_cons, *]

theorem nodup_eraseDups [BEq α] [LawfulBEq α] (l : List α) : l.eraseDups.Nodup := by
  induction l using List.reverseRecOn with
  | nil => exact nodup_nil
  | append_singleton l a ih =>
    rw [eraseDups_snoc]
    split
    · exact ih
    · next ha =>
      rw [← concat_eq_append]
      exact ih.concat fun hm => ha (mem_eraseDups.1 hm)

theorem snoc_eq_append_cons {before after : List α} {x e : α}
    (h : l ++ [x] = before ++ e :: after) :
    l = before ∧ x = e ∧ after = [] ∨ ∃ mid, l = before ++ e :: mid ∧ after = mid ++ [x] := by
  rcases eq_nil_or_concat after with rfl | ⟨mid, y, rfl⟩
  · obtain ⟨rfl, hx⟩ := append_inj' h rfl
    exact .inl ⟨rfl, singleton_inj.1 hx, rfl⟩
  · rw [concat_eq_append, ← cons_append, ← append_assoc] at h
    obtain ⟨rfl, hx⟩ := append_inj' h rfl
    cases hx
    exact .inr ⟨mid, rfl, concat_eq_append⟩

theorem Forall₂.comp {R : α → β → Prop} {S : β → γ → Prop} {as : List α} {bs : List β}
    {cs : List γ} (h : Forall₂ R as bs) (h' : Forall₂ S bs cs) :
    Forall₂ (fun a c => ∃ b, R a b ∧ S b c) as cs := by
  induction h generalizing cs with
  | nil => cases h'; exact .nil
  | cons hab _ ih =>
    cases h' with
    | cons hbc h' => exact .cons ⟨_, hab, hbc⟩ (ih h')

theorem Forall₂.exists_of_mem_left {R : α → β → Prop} {as : List α} {bs : List β}
    (h : Forall₂ R as bs) {a : α} (ha : a ∈ as) : ∃ b ∈ bs, R a b := by
  induction h with
  | nil => cases ha
  | cons hab _ ih =>
    rcases mem_cons.1 ha with rfl | ha
    · exact ⟨_, mem_cons_self, hab⟩
    · obtain ⟨b, hb, hR⟩ := ih ha
      exact ⟨b, mem_cons_of_mem _ hb, hR⟩

theorem Forall₂.exists_of_mem_right {R : α → β → Prop} {as : List α} {bs : List β}
    (h : Forall₂ R as bs) {b : β} (hb : b ∈ bs) : ∃ a ∈ as, R a b :=
  h.flip.exists_of_mem_left hb

theorem Forall₂.exists_of_getElem? {R : α → β → Prop} {as : List α} {bs : List β}
    (h : Forall₂ R as bs) {b : β} (hb : bs[pos]? = some b) : ∃ a, as[pos]? = some a ∧ R a b := by
  obtain ⟨hlt', rfl⟩ := getElem?_eq_some_iff.1 hb
  have hlt : pos < as.length := h.length_eq ▸ hlt'
  exact ⟨_, getElem?_eq_getElem hlt, (forall₂_iff_get.1 h).2 pos hlt hlt'⟩

theorem Forall₂.exists_of_find? {R : α → β → Prop} {as : List α} {bs : List β} {p : α → Bool}
    {q : β → Bool} {b : β} (h : Forall₂ R as bs) (hpq : ∀ a b, R a b → p a = q b)
    (hb : bs.find? q = some b) : ∃ a, as.find? p = some a ∧ R a b := by
  induction h with
  | nil => cases hb
  | @cons a' b' _ _ hab _ ih =>
    rw [find?_cons] at hb ⊢
    rw [hpq a' b' hab]
    cases hq : q b' with
    | true =>
      rw [hq] at hb
      cases hb
      exact ⟨a', rfl, hab⟩
    | false =>
      rw [hq] at hb
      exact ih hb

theorem forall₂_modify {R : α → α → Prop} {f : α → α} (hrefl : ∀ a, R a a)
    (hf : ∀ a, l[pos]? = some a → R a (f a)) : Forall₂ R l (l.modify pos f) := by
  refine forall₂_iff_get.2 ⟨(length_modify ..).symm, fun i hi _ => ?_⟩
  rw [get_eq_getElem, get_eq_getElem, getElem_modify]
  split
  · next h =>
    subst h
    exact hf _ (getElem?_eq_getElem hi)
  · exact hrefl _

/-- To change one element of a list keeps what relates it to another list, element by element. -/
theorem Forall₂.modify {R S : α → β → Prop} {as : List α} {bs : List β} {f : β → β}
    (h : Forall₂ R as bs) (hkeep : ∀ a b, R a b → S a b)
    (hf : ∀ a b, bs[pos]? = some b → R a b → S a (f b)) : Forall₂ S as (bs.modify pos f) := by
  obtain ⟨hlength, hget⟩ := forall₂_iff_get.1 h
  refine forall₂_iff_get.2 ⟨hlength.trans (length_modify ..).symm, fun i hi hi' => ?_⟩
  have hlt : i < bs.length := hlength ▸ hi
  have hR := hget i hi hlt
  rw [get_eq_getElem, get_eq_getElem, getElem_modify]
  split
  · next hpos =>
    subst hpos
    exact hf _ _ (getElem?_eq_getElem hlt) hR
  · exact hkeep _ _ hR

theorem Forall₂.imp_of_mem {R S : α → β → Prop} {as : List α} {bs : List β}
    (h : Forall₂ R as bs) (hS : ∀ a ∈ as, ∀ b ∈ bs, R a b → S a b) : Forall₂ S as bs := by
  induction h with
  | nil => exact .nil
  | cons hab _ ih =>
    refine .cons (hS _ mem_cons_self _ mem_cons_self hab) (ih fun a ha b hb => ?_)
    exact hS a (mem_cons_of_mem _ ha) b (mem_cons_of_mem _ hb)

theorem map_eq_of_forall₂ {R : α → β → Prop} {as : List α} {bs : List β} {f : α → γ} {g : β → γ}
    (h : Forall₂ R as bs) (hf : ∀ a b, R a b → g b = f a) : bs.map g = as.map f := by
  induction h with
  | nil => rfl
  | cons hab _ ih => rw [map_cons, map_cons, hf _ _ hab, ih]

theorem flatMap_filter_eq_of_forall₂ {δ : Type _} {R : α → β → Prop} {as : List α} {bs : List β}
    {p : α → Bool} {q : β → Bool} {f : α → List δ} {g : β → List δ} (h : Forall₂ R as bs)
    (hp : ∀ a b, R a b → q b = p a) (hf : ∀ a b, R a b → g b = f a) :
    (bs.filter q).flatMap g = (as.filter p).flatMap f := by
  induction h with
  | nil => rfl
  | cons hab _ ih =>
    rw [filter_cons, filter_cons, hp _ _ hab]
    split
    · rw [flatMap_cons, flatMap_cons, hf _ _ hab, ih]
    · exact ih

theorem find?_modify_of_eq_false {p : α → Bool} {f : α → α}
    (h : ∀ a, l[pos]? = some a → p a = false ∧ p (f a) = false) :
    (l.modify pos f).find? p = l.find? p := by
  induction l generalizing pos with
  | nil => rw [modify_nil]
  | cons a l ih =>
    cases pos with
    | zero =>
      obtain ⟨ha, hfa⟩ := h a rfl
      rw [modify_zero_cons, find?_cons, find?_cons, ha, hfa]
    | succ pos => rw [modify_succ_cons, find?_cons, find?_cons, ih h]

theorem mem_modify {f : α → α} {b : α} (h : b ∈ l.modify pos f) :
    b ∈ l ∨ ∃ a ∈ l, b = f a := by
  obtain ⟨i, hi⟩ := mem_iff_getElem?.1 h
  rw [getElem?_modify] at hi
  obtain ⟨a, ha, rfl⟩ := Option.map_eq_some_iff.1 hi
  have hmem := mem_of_getElem? ha
  by_cases hp : pos = i
  · exact .inr ⟨a, hmem, by simp [hp]⟩
  · exact .inl (by simpa [hp] using hmem)

end List
