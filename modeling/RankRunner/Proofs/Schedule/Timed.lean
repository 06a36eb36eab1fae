import RankRunner.Proofs.Clock
import RankRunner.Proofs.Schedule.Dispatch

/-! # When items are started and stopped

A list is timed within an interval if its items have both of their times, in their order and within
the interval, where they were dispatched, and none where they were skipped, and if what comes first
in a schedule has stopped before what comes later is started (`Siblings.Timed`). While a list is
being scheduled `OnTime` tells that of what has been passed. Each step records times that are no
earlier than all that have been recorded before, since the clock goes forward; so a schedule that
dispatches one item after the other leaves its list timed (`ensures_schedule_timed`). -/

namespace RankRunner

open Effect Siblings
open WorkItem (item)

namespace Item

variable {i : Item} {lo lo' hi hi' : Timestamp}

/-- Both times are recorded, in their order and within the interval. -/
def Spans (lo hi : Timestamp) (i : Item) : Prop :=
  ∃ x y, i.start = some x ∧ i.stop = some y ∧ lo ≤ x ∧ x ≤ y ∧ y ≤ hi

theorem Spans.mono (h : i.Spans lo hi) (hlo : lo' ≤ lo) (hhi : hi ≤ hi') : i.Spans lo' hi' :=
  let ⟨x, y, hstart, hstop, hx, hxy, hy⟩ := h
  ⟨x, y, hstart, hstop, hlo.trans hx, hxy, hy.trans hhi⟩

end Item

namespace Siblings

variable {α : Type} [WorkItem α] {l l₀ : Siblings α} {single : Prop} {D D' S S' X X' : α → Prop}
  {lo lo' hi hi' : Timestamp} {k p : Nat} {a a₀ b₀ b c : α}

/-- Of two items the first is dispatched before the second: it has a lower rank, or in a schedule
that dispatches a single item at a time it comes first within the rank. -/
def Precedes (single : Prop) (p : Nat) (a : α) (q : Nat) (b : α) : Prop :=
  (item a).rank < (item b).rank ∨ single ∧ (item a).rank = (item b).rank ∧ p < q

theorem Precedes.ne {q : Nat} (h : Precedes single p a q b) (ha : l.items[p]? = some a)
    (hb : l.items[q]? = some b) : p ≠ q := by
  rintro rfl
  cases ha.symm.trans hb
  rcases h with hlt | ⟨_, _, hlt⟩
  · exact Int.lt_irrefl _ hlt
  · exact Nat.lt_irrefl _ hlt

/-- No item is started before what precedes it has stopped. -/
def InTurn (single : Prop) (l : Siblings α) : Prop :=
  ∀ p a q b, l.items[p]? = some a → l.items[q]? = some b → Precedes single p a q b →
    ∀ x ∈ (item a).stop, ∀ y ∈ (item b).start, x ≤ y

/-- What a schedule that lasted from `lo` to `hi` leaves. It dispatches those items of which all
dependencies are satisfied, and skips the others. The status does not tell the two apart, since a
function may end with that of an item that was skipped. -/
structure Timed (single : Prop) (D S : α → Prop) (lo hi : Timestamp) (l : Siblings α) : Prop where
  dispatched : ∀ a ∈ l.items, l.satisfiesAll (item a) = true → (item a).Spans lo hi ∧ D a
  skipped : ∀ a ∈ l.items, l.satisfiesAll (item a) = false → (item a).Unstamped ∧ S a
  order : l.InTurn single

theorem Timed.mono (h : l.Timed single D S lo hi) (hlo : lo' ≤ lo) (hhi : hi ≤ hi') :
    l.Timed single D S lo' hi' :=
  { h with dispatched := fun a ha hsat =>
      ⟨(h.dispatched a ha hsat).1.mono hlo hhi, (h.dispatched a ha hsat).2⟩ }

/-- What goes by single items goes by ranks. -/
theorem Timed.overlapping (h : l.Timed True D S lo hi) : l.Timed False D S lo hi :=
  { h with order := fun p a q b ha hb hpq =>
      h.order p a q b ha hb (.inl (hpq.resolve_right fun hf => hf.1)) }

/-- Other things than the identity, the rank and the dependencies of an item may change. -/
structure Conservative (f : α → α) : Prop where
  id : ∀ a, WorkItem.id (f a) = WorkItem.id a
  rank : ∀ a, (item (f a)).rank = (item a).rank
  deps : ∀ a, (item (f a)).deps = (item a).deps

theorem conservative_skip : Conservative (WorkItem.skip (α := α)) :=
  ⟨WorkItem.id_skip, fun a => by rw [WorkItem.item_skip], fun a => by rw [WorkItem.item_skip]⟩

/-- To change one item keeps all in turn, if nothing that it precedes has been started, and if it is
started after all that have stopped. -/
theorem InTurn.modify {f : α → α} (h : l.InTurn single) (hf : Conservative f)
    (hat : l.items[k]? = some c)
    (hstart : ∀ y ∈ (item (f c)).start, y ∈ (item c).start ∨
      ∀ b ∈ l.items, ∀ x ∈ (item b).stop, x ≤ y)
    (hnext : ∀ q b, l.items[q]? = some b → Precedes single k c q b → (item b).start = none) :
    (l.modify k f).InTurn single := by
  have hmodified := modify_getElem? (f := f) hat
  intro p a q b ha hb hpq x hx y hy
  by_cases hp : p = k
  · subst hp
    rw [modify_getElem?_of_ne (hpq.ne ha hb).symm] at hb
    cases hmodified.symm.trans ha
    rw [Precedes, hf.rank] at hpq
    rw [hnext q b hb hpq] at hy
    cases hy
  · rw [modify_getElem?_of_ne hp] at ha
    by_cases hq : q = k
    · subst hq
      cases hmodified.symm.trans hb
      rw [Precedes, hf.rank] at hpq
      rcases hstart y hy with hy | hlast
      · exact h p a q c ha hat hpq x hx y hy
      · exact hlast a (List.mem_of_getElem? ha) x hx
    · rw [modify_getElem?_of_ne hq] at hb
      exact h p a q b ha hb hpq x hx y hy

/-- All items may change in other things than their times, and whether they succeeded. -/
theorem Timed.map (h : l.Timed single D S lo hi) {f : α → α} (hf : Conservative f)
    (hstart : ∀ a, (item (f a)).start = (item a).start)
    (hstop : ∀ a, (item (f a)).stop = (item a).stop)
    (hsucceeded : ∀ a ∈ l.items, (item (f a)).succeeded = (item a).succeeded)
    (hD : ∀ a, D a → D' (f a)) (hS : ∀ a, S a → S' (f a)) :
    Timed single D' S' lo hi { l with items := l.items.map f } := by
  have hsat (a : α) : satisfiesAll { l with items := l.items.map f } (item (f a)) =
      l.satisfiesAll (item a) := by
    rw [satisfiesAll_congr (l := l) (List.forall₂_map_right_iff.2 (List.forall₂_same.2
      fun a ha => ⟨hf.id a, hsucceeded a ha⟩)), satisfiesAll, hf.deps]
    rfl
  refine ⟨List.forall_mem_map.2 fun a ha hs => ?_, List.forall_mem_map.2 fun a ha hs => ?_, ?_⟩
  · obtain ⟨hspans, hd⟩ := h.dispatched a ha (hsat a ▸ hs)
    refine ⟨?_, hD a hd⟩
    rwa [Item.Spans, hstart, hstop]
  · obtain ⟨hunstamped, hs'⟩ := h.skipped a ha (hsat a ▸ hs)
    exact ⟨⟨(hstart a).trans hunstamped.start, (hstop a).trans hunstamped.stop⟩, hS a hs'⟩
  · intro p a q b ha hb hpq
    rw [List.getElem?_map] at ha hb
    obtain ⟨a', ha', rfl⟩ := Option.map_eq_some_iff.1 ha
    obtain ⟨b', hb', rfl⟩ := Option.map_eq_some_iff.1 hb
    rw [Precedes, hf.rank, hf.rank] at hpq
    rw [hstop, hstart]
    exact h.order p a' q b' ha' hb' hpq

/-- What has become of an item that a schedule has passed: `X` if it was dispatched, and `S` if it
was skipped. -/
structure Decided (X S : α → Prop) (l : Siblings α) (a₀ a : α) : Prop where
  id : WorkItem.id a = WorkItem.id a₀
  rank : (item a).rank = (item a₀).rank
  deps : (item a).deps = (item a₀).deps
  dispatched : l.satisfiesAll (item a₀) = true → X a
  skipped : l.satisfiesAll (item a₀) = false → S a

namespace Decided

theorem satisfiesAll_eq (h : Decided X S l a₀ a) :
    l.satisfiesAll (item a) = l.satisfiesAll (item a₀) := by
  rw [satisfiesAll, h.deps]
  rfl

theorem mono (h : Decided X S l a₀ a) (hX : ∀ a, X a → X' a) : Decided X' S l a₀ a :=
  { h with dispatched := fun hsat => hX a (h.dispatched hsat) }

/-- What was decided stays so when an item of the same or a higher rank changes. -/
theorem modify (h : Decided X S l b₀ b) (hr : l₀.Ranked) (hids : l.ids = l₀.ids)
    (ha₀ : l₀.items[k]? = some a₀) (hb₀ : b₀ ∈ l₀.items)
    (hrank : (item b₀).rank ≤ (item a₀).rank) {f : α → α} (hf : Conservative f) :
    Decided X S (l.modify k f) b₀ b := by
  have hsat := satisfiesAll_modify hr hids ha₀ hf.id hb₀ hrank
  exact ⟨h.id, h.rank, h.deps, fun h' => h.dispatched (hsat ▸ h'), fun h' => h.skipped (hsat ▸ h')⟩

end Decided
end Siblings

namespace Schedule

variable {α σ : Type} [WorkItem α] {inv : σ → Prop} {single : Prop}
  {X X' : Timestamp → α → Prop} {D S S' : α → Prop} {l₀ : Siblings α} {c₀ : Clock} {r : Int}
  {k p : Nat} {s : Scope α σ} {a₀ a : α} {host : Host σ}

/-- A schedule that began when the clock was `c₀` has come to the place `k` of the rank `r`. What
becomes of an item that is dispatched may take until later. -/
structure OnTime (inv : σ → Prop) (single : Prop) (X : Timestamp → α → Prop) (S : α → Prop)
    (l₀ : Siblings α) (c₀ : Clock) (r : Int) (k : Nat) (s : Scope α σ) : Prop where
  backend : inv s.host.backend
  clock : c₀.Later s.host.clock
  upto : l₀.Upto s.list (Decided (X s.host.clock.reading) S s.list) (fun a₀ a => a = a₀) r k
  stopped : ∀ a ∈ s.list.items, ∀ x ∈ (item a).stop, x ≤ s.host.clock.reading
  order : s.list.InTurn single

namespace OnTime

theorem start (hr : l₀.Ranked) (hnew : ∀ a ∈ l₀.items, (item a).Unstamped)
    (hinv : inv host.backend) (hclock : host.clock.Forward) :
    OnTime inv single X S l₀ host.clock 0 0 ⟨l₀, host⟩ where
  backend := hinv
  clock := hclock.later
  upto := .start hr fun _ _ => rfl
  stopped a ha x hx := by
    rw [(hnew a ha).stop] at hx
    cases hx
  order p a q b ha _ _ x hx := by
    rw [(hnew a (List.mem_of_getElem? ha)).stop] at hx
    cases hx

theorem ids (h : OnTime inv single X S l₀ c₀ r k s) : s.list.ids = l₀.ids :=
  h.upto.ids (fun _ _ ha => ha.id) fun _ _ ha => by rw [ha]

theorem rank_eq (h : OnTime inv single X S l₀ c₀ r k s) (ha₀ : l₀.items[p]? = some a₀)
    (ha : s.list.items[p]? = some a) : (item a).rank = (item a₀).rank := by
  obtain ⟨_, ha₀', ⟨_, hdecided⟩ | ⟨_, rfl⟩⟩ := h.upto.original ha
  · cases ha₀.symm.trans ha₀'
    exact hdecided.rank
  · cases ha₀.symm.trans ha₀'
    rfl

/-- What lies ahead has not been started. -/
theorem start_eq_none (hnew : ∀ a ∈ l₀.items, (item a).Unstamped)
    (h : OnTime inv single X S l₀ c₀ r k s) (ha : s.list.items[p]? = some a)
    (hahead : r < (item a).rank ∨ (item a).rank = r ∧ k ≤ p) : (item a).start = none := by
  obtain ⟨a₀, ha₀, ⟨hpast, _⟩ | ⟨_, rfl⟩⟩ := h.upto.original ha
  · have := h.rank_eq ha₀ ha
    unfold Past at hpast
    omega
  · exact (hnew a (List.mem_of_getElem? ha₀)).start

/-- The surroundings may change and time may pass. -/
theorem elsewhere (hX : Monotone X) (h : OnTime inv single X S l₀ c₀ r k s)
    (hinv : inv host.backend) (hclock : s.host.clock.Later host.clock) :
    OnTime inv single X S l₀ c₀ r k { s with host } where
  backend := hinv
  clock := h.clock.trans hclock
  upto := h.upto.mono (fun _ _ _ _ ha => ha.mono fun _ => hX hclock.reading_le _)
    fun _ _ _ _ ha => ha
  stopped a ha x hx := (h.stopped a ha x hx).trans hclock.reading_le
  order := h.order

/-- What a list records beside its items does not matter. -/
theorem congr (h : OnTime inv single X S l₀ c₀ r k s) {l : Siblings α}
    (hl : l.items = s.list.items) : OnTime inv single X S l₀ c₀ r k { s with list := l } := by
  have hsat : ∀ i, l.satisfiesAll i = s.list.satisfiesAll i :=
    satisfiesAll_congr (hl ▸ List.forall₂_same.2 fun _ _ => ⟨rfl, rfl⟩)
  refine ⟨h.backend, h.clock, ⟨hl ▸ h.upto.length, fun p a₀ ha₀ hp => ?_, hl ▸ h.upto.ahead⟩,
    hl ▸ h.stopped, by unfold InTurn; exact hl ▸ h.order⟩
  obtain ⟨a, ha, hdecided⟩ := h.upto.past p a₀ ha₀ hp
  exact ⟨a, hl ▸ ha, { hdecided with
    dispatched := hsat _ ▸ hdecided.dispatched, skipped := hsat _ ▸ hdecided.skipped }⟩

/-- All items have stopped by the time that the clock shows, if that is so of one that changes. -/
theorem stopped_modify (h : OnTime inv single X S l₀ c₀ r k s) {f : α → α}
    (hclock : s.host.clock.Later host.clock) (ha : s.list.items[p]? = some a)
    (hstop : ∀ x ∈ (item (f a)).stop, x ≤ host.clock.reading) :
    ∀ b ∈ (s.list.modify p f).items, ∀ x ∈ (item b).stop, x ≤ host.clock.reading := by
  intro b hb x hx
  obtain ⟨q, hq⟩ := List.mem_iff_getElem?.1 hb
  by_cases hqp : q = p
  · subst hqp
    cases (modify_getElem? ha).symm.trans hq
    exact hstop x hx
  · rw [modify_getElem?_of_ne hqp] at hq
    exact (h.stopped b (List.mem_of_getElem? hq) x hx).trans hclock.reading_le

/-- The item at hand is passed. It is started no earlier than now, and if it has stopped already,
that was no later than the clock shows then. -/
theorem pass (hX : Monotone X) (hr : l₀.Ranked) (hnew : ∀ a ∈ l₀.items, (item a).Unstamped)
    (h : OnTime inv single X S l₀ c₀ r k s) (ha₀ : l₀.items[k]? = some a₀)
    (hrank : (item a₀).rank = r) {f : α → α} (hf : Conservative f) (hinv : inv host.backend)
    (hclock : s.host.clock.Later host.clock)
    (hdispatched : s.list.satisfiesAll (item a₀) = true → X host.clock.reading (f a₀))
    (hskipped : s.list.satisfiesAll (item a₀) = false → S (f a₀))
    (hstart : ∀ y ∈ (item (f a₀)).start, s.host.clock.reading ≤ y)
    (hstop : ∀ x ∈ (item (f a₀)).stop, x ≤ host.clock.reading) :
    OnTime inv single X S l₀ c₀ r (k + 1) { list := s.list.modify k f, host } := by
  obtain ⟨a, ha, rfl⟩ := h.upto.at_place ha₀ (Int.le_of_eq hrank.symm)
  have hsame := satisfiesAll_modify hr h.ids ha₀ hf.id (List.mem_of_getElem? ha₀) (Int.le_refl _)
  refine ⟨hinv, h.clock.trans hclock, ?_, h.stopped_modify hclock ha hstop,
    h.order.modify hf ha (fun y hy => .inr fun b hb x hx => ?_) fun q b hb hqb => ?_⟩
  · refine h.upto.le_rank.pass ha₀ hrank modify_length (fun p hp => modify_getElem?_of_ne hp)
      (modify_getElem? ha) ⟨hf.id a, hf.rank a, hf.deps a, fun hsat => ?_, fun hsat => ?_⟩
      (fun p b₀ b _ hb₀ hb => ?_) fun _ _ _ _ _ hb => hb
    · exact hdispatched (hsame ▸ hsat)
    · exact hskipped (hsame ▸ hsat)
    · have hmem := List.mem_of_getElem? hb₀
      exact (hb.2.mono fun _ => hX hclock.reading_le _).modify hr h.ids ha₀ hmem (hrank ▸ hb.1) hf
  · exact (h.stopped b hb x hx).trans (hstart y hy)
  · refine h.start_eq_none hnew hb ?_
    rcases hqb with hlt | ⟨_, heq, hlt⟩
    · exact .inl (hrank ▸ hlt)
    · exact .inr ⟨heq.symm.trans hrank, Nat.le_of_lt hlt⟩

theorem skip (hX : Monotone X) (hr : l₀.Ranked) (hnew : ∀ a ∈ l₀.items, (item a).Unstamped)
    (h : OnTime inv single X S l₀ c₀ r k s) (ha₀ : l₀.items[k]? = some a₀)
    (hrank : (item a₀).rank = r) (hsat : s.list.satisfiesAll (item a₀) = false)
    (hS : S (WorkItem.skip a₀)) (shown : Shown) :
    OnTime inv single X S l₀ c₀ r (k + 1)
      { list := s.list.modify k WorkItem.skip, host := { s.host with shown } } := by
  have hunstamped := hnew a₀ (List.mem_of_getElem? ha₀)
  refine h.pass hX hr hnew ha₀ hrank conservative_skip h.backend h.clock.forward.later
    (fun hsat' => absurd (hsat.symm.trans hsat') Bool.false_ne_true) (fun _ => hS) ?_ ?_
  · rw [WorkItem.item_skip]
    intro y hy
    rw [hunstamped.start] at hy
    cases hy
  · rw [WorkItem.item_skip]
    intro x hx
    rw [hunstamped.stop] at hx
    cases hx

/-- An item that has been passed is changed. It stays the only one of those at hand, and it is not
started anew. -/
theorem revise (hX : Monotone X) (hr : l₀.Ranked) (h : OnTime inv single X S l₀ c₀ r k s)
    (ha₀ : l₀.items[p]? = some a₀) (hpast : Past r k p a₀) (hrank : (item a₀).rank = r)
    (ha : s.list.items[p]? = some a) {f : α → α} (hf : Conservative f) (hinv : inv host.backend)
    (hclock : s.host.clock.Later host.clock)
    (hdecided : Decided (X s.host.clock.reading) S s.list a₀ a →
      Decided (X host.clock.reading) S s.list a₀ (f a))
    (hstart : (item (f a)).start = (item a).start)
    (hstop : ∀ x ∈ (item (f a)).stop, x ≤ host.clock.reading)
    (hnext : ∀ q b, s.list.items[q]? = some b → Precedes single p a q b → (item b).start = none) :
    OnTime inv single X S l₀ c₀ r k { list := s.list.modify p f, host } := by
  have hmem := List.mem_of_getElem? ha₀
  refine ⟨hinv, h.clock.trans hclock, ?_, h.stopped_modify hclock ha hstop,
    h.order.modify hf ha (fun y hy => .inl (hstart ▸ hy)) hnext⟩
  refine h.upto.le_rank.revise modify_length (fun q hq => modify_getElem?_of_ne hq)
    (fun b₀ hb₀ => ?_) (fun q b₀ b _ hb₀ _ hb => ?_) fun _ _ hb => hb
  · cases ha₀.symm.trans hb₀
    obtain ⟨a', ha', hold⟩ := h.upto.past p a₀ ha₀ hpast
    cases ha.symm.trans ha'
    exact ⟨hpast, f a, modify_getElem? ha,
      (hdecided hold).modify hr h.ids ha₀ hmem (Int.le_refl _) hf⟩
  · exact (hb.2.mono fun _ => hX hclock.reading_le _).modify hr h.ids ha₀
      (List.mem_of_getElem? hb₀) (hrank ▸ hb.1) hf

/-- When all ranks have been passed the list is timed. -/
theorem timed (hr : l₀.Ranked) (h : OnTime inv single X S l₀ c₀ (l₀.maxRank + 1) 0 s)
    (hX : ∀ a ∈ s.list.items, X s.host.clock.reading a →
      (item a).Spans c₀.reading s.host.clock.reading ∧ D a)
    (hS : ∀ a, S a → (item a).Unstamped ∧ S' a) :
    s.list.Timed single D S' c₀.reading s.host.clock.reading := by
  refine ⟨fun a ha hsat => ?_, fun a ha hsat => ?_, h.order⟩
  · obtain ⟨_, _, hdecided⟩ := (h.upto.forall₂ hr).exists_of_mem_right ha
    exact hX a ha (hdecided.dispatched (hdecided.satisfiesAll_eq ▸ hsat))
  · obtain ⟨_, _, hdecided⟩ := (h.upto.forall₂ hr).exists_of_mem_right ha
    exact hS a (hdecided.skipped (hdecided.satisfiesAll_eq ▸ hsat))

end OnTime

/-- If each dispatch takes its time and stamps its item with it, a schedule of one item after the
other leaves its list timed, unless it is asked to stop. -/
theorem ensures_schedule_timed {dispatch : Nat → Effect (Scope α σ) Unit} (hr : l₀.Ranked)
    (hnew : ∀ a ∈ l₀.items, (item a).Unstamped) (hskip : ∀ a ∈ l₀.items, S (WorkItem.skip a))
    (hdispatch : ∀ k a, a ∈ l₀.items → ∀ s : Scope α σ, s.list.items[k]? = some a →
      inv s.host.backend → s.host.clock.Forward →
      Ensures (dispatch k) (fun _ t => ∃ f, t.list = s.list.modify k f ∧ Conservative f ∧
          inv t.host.backend ∧ s.host.clock.Later t.host.clock ∧
          (item (f a)).Spans s.host.clock.reading t.host.clock.reading ∧ D (f a))
        (fun _ _ => True) s)
    {h : Host σ} (hinv : inv h.backend) (hclock : h.clock.Forward) :
    Ensures (schedule dispatch) (fun _ t => t.host.requested = true ∨
        inv t.host.backend ∧ h.clock.Later t.host.clock ∧
          t.list.Timed True D S h.clock.reading t.host.clock.reading)
      (fun _ _ => True) ⟨l₀, h⟩ := by
  let X (now : Timestamp) (a : α) : Prop := (item a).Spans h.clock.reading now ∧ D a
  let S' (a : α) : Prop := (item a).Unstamped ∧ S a
  have hX : Monotone X := fun _ _ hle a ha => ⟨ha.1.mono (le_refl _) hle, ha.2⟩
  refine (ensures_schedule (n := l₀.items.length) (I := OnTime inv True X S' l₀ h.clock)
    (E := fun _ _ => True)
    hr.maxRank_nonneg (fun _ _ _ ht => ht.upto.length) (fun r k s hk ht => ?_)
    (fun _ _ ht => { ht with upto := ht.upto.next }) (.start hr hnew hinv hclock)).mono
    (fun _ t ht => ?_) fun _ _ _ => trivial
  · have ha₀ := List.getElem?_eq_getElem hk
    generalize l₀.items[k] = a₀ at ha₀
    have hmem := List.mem_of_getElem? ha₀
    refine ensures_isDue_upto ht.upto ha₀ (fun _ ha => ha.rank) (fun _ ha => by rw [ha])
      (fun hupto => { ht with upto := hupto }) ?_ ?_
    · rintro hrank _ ha rfl hsat
      refine (hdispatch k _ hmem s ha ht.backend ht.clock.forward).mono ?_ fun _ _ h => h
      rintro _ ⟨_, host⟩ ⟨f, rfl, hf, hinv', hlater, hspans, hD⟩
      have ⟨x, y, hstart, hstop, hlo, hxy, hhi⟩ := hspans
      refine ht.pass hX hr hnew ha₀ hrank hf hinv' hlater
        (fun _ => ⟨⟨x, y, hstart, hstop, ht.clock.reading_le.trans hlo, hxy, hhi⟩, hD⟩)
        (fun hsat' => absurd (hsat'.symm.trans hsat) Bool.false_ne_true) ?_ ?_
      · intro y' hy'
        cases hstart.symm.trans hy'
        exact hlo
      · intro x' hx'
        cases hstop.symm.trans hx'
        exact hhi
    · rintro hrank _ _ rfl hsat shown
      refine ht.skip hX hr hnew ha₀ hrank hsat ⟨?_, hskip _ hmem⟩ shown
      rw [WorkItem.item_skip]
      exact ⟨(hnew _ hmem).start, (hnew _ hmem).stop⟩
  · rcases ht with ht | ⟨hreq, _⟩
    · exact .inr ⟨ht.backend, ht.clock, ht.timed hr (fun _ _ ha => ha) fun _ ha => ha⟩
    · exact .inl hreq

end Schedule
end RankRunner
