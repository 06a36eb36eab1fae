import RankRunner.Proofs.Ensures
import RankRunner.Schedule.Chunks

/-! # The loops of a schedule

Rules for going through a list rank by rank, and through its places within a rank. An invariant
`I r k` holds when the schedule has come to the place `k` of the rank `r`. Each rule asks what one
place does to the invariant, and gives what a whole schedule does to it. -/

namespace RankRunner.Schedule

open Effect

variable {α σ : Type} [WorkItem α] {S : Type}

section Due

variable {s : Scope α σ} {Q : Bool → Scope α σ → Prop} {E : Failure → Scope α σ → Prop}
  {rank : Int} {pos : Nat} {a : α}

/-- An item is due when it is of the rank and all it depends on succeeded. Of the items of the
rank the others are skipped. -/
theorem ensures_isDue (ha : s.list.items[pos]? = some a)
    (other : (WorkItem.item a).rank ≠ rank → Q false s)
    (due : (WorkItem.item a).rank = rank → s.list.satisfiesAll (WorkItem.item a) = true →
      Q true s)
    (skipped : (WorkItem.item a).rank = rank → s.list.satisfiesAll (WorkItem.item a) = false →
      ∀ shown, Q false
        { list := s.list.modify pos WorkItem.skip, host := { s.host with shown } }) :
    Ensures (isDue rank pos) Q E s := by
  simp only [isDue, ensures_bind, ensures_get, ha]
  split
  · next h => exact other h
  · next h =>
    split
    · next hs => exact due (Decidable.not_not.1 h) hs
    · next hs =>
      simp only [ensures_bind, skip, Scope.ensures_at?, ha, Scope.ensures_modifyAt]
      exact skipped (Decidable.not_not.1 h) (by simpa using hs) _

end Due

section Simple

variable {dispatch : Nat → Effect (Scope α σ) Unit} {I : Int → Nat → Scope α σ → Prop}
  {E : Failure → Scope α σ → Prop} {s : Scope α σ} {n : Nat}

theorem ensures_scheduleRank {rank : Int}
    (step : ∀ k s, k < n → I rank k s →
      Ensures (isDue rank k) (fun due s => if due then
        Ensures (dispatch k) (fun _ => I rank (k + 1)) E s else I rank (k + 1) s) E s)
    (m : Nat) {k : Nat} (hk : k + m = n) (h : I rank k s) :
    Ensures (scheduleRank dispatch rank (List.range' k m)) (fun _ => I rank n) E s := by
  induction m generalizing k s with
  | zero => exact hk ▸ h
  | succ m ih =>
    simp only [List.range'_succ, scheduleRank, ensures_bind]
    refine (step k s (by omega) h).mono (fun due s hdue => ?_) fun _ _ h => h
    cases due with
    | false => exact ih (by omega) hdue
    | true =>
      rw [if_pos rfl] at hdue ⊢
      rw [ensures_bind]
      exact hdue.mono (fun _ s h => ih (by omega) h) fun _ _ h => h

theorem ensures_scheduleRanks
    (length : ∀ r k s, I r k s → s.list.items.length = n)
    (step : ∀ r k s, k < n → I r k s →
      Ensures (isDue r k) (fun due s => if due then
        Ensures (dispatch k) (fun _ => I r (k + 1)) E s else I r (k + 1) s) E s)
    (next : ∀ r s, I r n s → I (r + 1) 0 s)
    (m : Nat) {r top : Nat} (hr : r + m = top) (h : I r 0 s) :
    Ensures (scheduleRanks dispatch ((List.range' r m).map Int.ofNat)) (fun _ t => I top 0 t ∨
      t.host.requested = true ∧ ∃ r, I r 0 t) E s := by
  induction m generalizing r s with
  | zero => exact .inl (hr ▸ h)
  | succ m ih =>
    simp only [List.range'_succ, List.map_cons, scheduleRanks, ensures_bind,
      Scope.ensures_requested]
    split
    · next hreq => exact .inr ⟨hreq, r, h⟩
    · simp only [ensures_bind, ensures_get, length _ _ _ h, List.range_eq_range']
      refine (ensures_scheduleRank (step r) n (Nat.zero_add n) h).mono (fun _ t ht => ?_)
        fun _ _ h => h
      exact ih (by omega) (next _ _ ht)

/-- A schedule goes through all ranks, or stops before one of them because it was asked to. -/
theorem ensures_schedule (hrank : 0 ≤ s.list.maxRank)
    (length : ∀ r k s, I r k s → s.list.items.length = n)
    (step : ∀ r k s, k < n → I r k s →
      Ensures (isDue r k) (fun due s => if due then
        Ensures (dispatch k) (fun _ => I r (k + 1)) E s else I r (k + 1) s) E s)
    (next : ∀ r s, I r n s → I (r + 1) 0 s) (h : I 0 0 s) :
    Ensures (schedule dispatch) (fun _ t => I (s.list.maxRank + 1) 0 t ∨
      t.host.requested = true ∧ ∃ r, I r 0 t) E s := by
  have htop : ((s.list.maxRank + 1).toNat : Int) = s.list.maxRank + 1 := by omega
  simp only [schedule, ensures_bind, ensures_get, Siblings.ranks, List.range_eq_range']
  have := ensures_scheduleRanks length step next (s.list.maxRank + 1).toNat (Nat.zero_add _) h
  rwa [htop] at this

end Simple

section Chunks

variable {launcher : Launcher σ} {limit : Nat} {I : Int → Nat → Nat → Scope Case σ → Prop}
  {R : Scope Case σ → Prop} {E : Failure → Scope Case σ → Prop} {s : Scope Case σ} {n : Nat}

/-- What has to be shown of one place: a case that is due is launched, and a chunk is collected that
is full, or the last one of its rank. In `I r k live`, `live` children of the chunk are alive. -/
structure ChunkRule (launcher : Launcher σ) (limit n : Nat)
    (I : Int → Nat → Nat → Scope Case σ → Prop) (R : Scope Case σ → Prop)
    (E : Failure → Scope Case σ → Prop) : Prop where
  length : ∀ r k live s, I r k live s → s.list.items.length = n
  launch : ∀ r k live s, k < n → live < limit → I r k live s →
    Ensures (isDue r k) (fun due s => if due then
      Ensures (Schedule.launch launcher k) (fun started =>
        I r (k + 1) (if started then live + 1 else live)) E s else I r (k + 1) live s) E s
  barrier : ∀ r k live s, 0 < live → live ≤ limit → live = limit ∨ k = n → I r k live s →
    Ensures (Schedule.barrier launcher) (fun go s => if go then I r k 0 s else R s) E s
  next : ∀ r s, I r n 0 s → s.host.requested = false → I (r + 1) 0 0 s

/-- Within a rank fewer than `limit` children are alive between two places, and the schedule goes
through all places unless a chunk was not collected. -/
theorem ChunkRule.ensures_chunkRank (rule : ChunkRule launcher limit n I R E) {rank : Int}
    (hlimit : 0 < limit) (m : Nat) {k live : Nat} (hk : k + m = n) (hlive : live < limit)
    (h : I rank k live s) :
    Ensures (chunkRank launcher limit rank live (List.range' k m)) (fun live? s =>
      match live? with
      | some live => live < limit ∧ I rank n live s
      | none => R s) E s := by
  induction m generalizing k live s with
  | zero => exact hk ▸ ⟨hlive, h⟩
  | succ m ih =>
    simp only [List.range'_succ, chunkRank, ensures_bind]
    refine (rule.launch rank k live s (by omega) hlive h).mono (fun due s hdue => ?_)
      fun _ _ h => h
    cases due with
    | false => exact ih (by omega) hlive hdue
    | true =>
      rw [if_pos rfl] at hdue ⊢
      rw [ensures_bind]
      refine hdue.mono (fun started s h => ?_) fun _ _ h => h
      have hle : (if started then live + 1 else live) ≤ limit := by split <;> omega
      generalize (if started then live + 1 else live) = now at h hle ⊢
      split
      · next hfull =>
        rw [ensures_bind]
        refine (rule.barrier _ _ _ _ (by omega) hle (.inl hfull) h).mono (fun go s h => ?_)
          fun _ _ h => h
        cases go with
        | true => exact ih (by omega) hlimit h
        | false => exact h
      · next hfull => exact ih (by omega) (by omega) h

/-- Between two ranks the schedule is at the begin of a rank, or it is asked to stop. -/
theorem ChunkRule.between (rule : ChunkRule launcher limit n I R E) {r : Int} (h : I r n 0 s) :
    I (r + 1) 0 0 s ∨ s.host.requested = true ∧ ∃ r k, I r k 0 s := by
  cases hreq : s.host.requested with
  | false => exact .inl (rule.next r s h hreq)
  | true => exact .inr ⟨rfl, r, n, h⟩

theorem ChunkRule.ensures_chunkRanks (rule : ChunkRule launcher limit n I R E)
    (hlimit : 0 < limit) (m : Nat) {r top : Nat} (hr : r + m = top)
    (h : I r 0 0 s ∨ s.host.requested = true ∧ ∃ r k, I r k 0 s) :
    Ensures (chunkRanks launcher limit ((List.range' r m).map Int.ofNat)) (fun _ t =>
      I top 0 0 t ∨ R t ∨ t.host.requested = true ∧ ∃ r k, I r k 0 t) E s := by
  induction m generalizing r s with
  | zero => exact hr ▸ h.imp id .inr
  | succ m ih =>
    simp only [List.range'_succ, List.map_cons, chunkRanks, ensures_bind,
      Scope.ensures_requested]
    split
    · next hreq => exact .inr (.inr (h.elim (fun h => ⟨hreq, r, 0, h⟩) id))
    · next hreq =>
      replace h := h.resolve_right fun h => hreq h.1
      simp only [ensures_bind, ensures_get, rule.length _ _ _ _ h, List.range_eq_range']
      refine (rule.ensures_chunkRank hlimit n (Nat.zero_add n) hlimit h).mono
        (fun live? t ht => ?_) fun _ _ h => h
      rcases live? with _ | _ | live
      · exact .inr (.inl ht)
      · exact ih (by omega) (rule.between ht.2)
      · refine ensures_bind.2 ?_
        refine (rule.barrier _ _ _ _ (by omega) (Nat.le_of_lt ht.1) (.inr rfl) ht.2).mono
          (fun go t h => ?_) fun _ _ h => h
        cases go with
        | true => exact ih (by omega) (rule.between h)
        | false => exact .inr (.inl h)

/-- A schedule in chunks goes through all ranks with no child left alive, or stops because a chunk
was not collected, or because it was asked to while no child was alive. -/
theorem ChunkRule.ensures_scheduleChunks (rule : ChunkRule launcher limit n I R E)
    (hlimit : 0 < limit) (hrank : 0 ≤ s.list.maxRank) (h : I 0 0 0 s) :
    Ensures (scheduleChunks launcher limit) (fun _ t =>
      I (s.list.maxRank + 1) 0 0 t ∨ R t ∨ t.host.requested = true ∧ ∃ r k, I r k 0 t) E s := by
  have htop : ((s.list.maxRank + 1).toNat : Int) = s.list.maxRank + 1 := by omega
  simp only [scheduleChunks, ensures_bind, ensures_get, Siblings.ranks, List.range_eq_range']
  have := rule.ensures_chunkRanks hlimit (s.list.maxRank + 1).toNat (Nat.zero_add _) (.inl h)
  rwa [htop] at this

end Chunks

end RankRunner.Schedule
