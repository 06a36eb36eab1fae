import RankRunner.Proofs.Launcher.Forked
import RankRunner.Proofs.Launcher.Plain
import RankRunner.Proofs.Schedule.InOrder

/-! # Bounds of a schedule in chunks

Never more than `limit` children of a schedule in chunks are started and not reaped, all of them
of one rank, and a case is started only after everything it depends on was reaped and succeeded.
With a launcher that tells the truth, no more than `limit` children are alive. -/

namespace RankRunner

namespace Journal

variable {σ : Type} {J : Journal σ}

theorem Each.of_mem {P : Journal σ → Journal.Entry σ → Prop} (h : J.Each P) {e : Journal.Entry σ}
    (he : e ∈ J) : ∃ before after, J = before ++ e :: after ∧ P before e := by
  obtain ⟨before, after, rfl⟩ := List.append_of_mem he
  exact ⟨before, after, rfl, h before e after rfl⟩

end Journal

namespace Schedule

variable {σ : Type} {launcher : Launcher σ} {inv : σ → Prop} {alive : σ → Multiset Int}
  {l₀ : Siblings Case} {limit : Nat} {J : Journal σ}

/-- In a journal in order there are never more than `limit` children to be reaped. -/
theorem card_unreaped_le (h : J.Each (InOrder l₀ limit)) {before after : Journal σ}
    (hJ : J = before ++ after) : Multiset.card before.unreaped ≤ limit := by
  rcases List.eq_nil_or_concat before with rfl | ⟨init, e, rfl⟩
  · exact Nat.zero_le _
  · rw [List.concat_eq_append, List.append_assoc, List.singleton_append] at hJ
    rw [List.concat_eq_append]
    exact (h init e after hJ).1

theorem scheduleChunks_mayStart_and_alive_le (truthful : launcher.Truthful inv alive)
    {l : Siblings Case} (hl : l.Fresh Case.Fresh) (hseq : l.sequence.2 = none) (hlimit : 0 < limit)
    (h : Host σ) (hinv : inv h.backend) :
    ∃ (t : Scope Case (Journaled σ)) (J : Journal σ),
      (scheduleChunks launcher.journaled limit).ending ⟨l.sequence.1, h.withJournal []⟩ = t ∧
      (scheduleChunks launcher limit).ending ⟨l.sequence.1, h⟩ = t.plain ∧
      t.host.backend.journal = J ∧
      (∀ before siblings b answer t after,
        J = before ++ ⟨.start siblings b answer, t⟩ :: after →
          MayStart l.sequence.1 limit before siblings b) ∧
      (∀ before after, J = before ++ after → Multiset.card before.unreaped ≤ limit) ∧
      ∀ e ∈ J, Multiset.card (alive e.host.backend) ≤ Multiset.card (alive h.backend) + limit := by
  have hr := Siblings.sequence_ranked hl (fun _ hc => hc.item) hseq
  have hout : l.sequence.1.outstanding = 0 :=
    (Siblings.sequence_reranked l).2.trans hl.outstanding
  have hP : Launcher.Accounted inv alive (alive h.backend) [] h :=
    ⟨hinv, by simp, Journal.each_nil⟩
  obtain ⟨J, hJ, hacc, horder, _⟩ :=
    orderly_ending (truthful.keeps _) hr hl.idle hlimit hout (h := h.withJournal []) hP
  have hplain := (mirrors_scheduleChunks launcher limit).ending ⟨l.sequence.1, h.withJournal []⟩
  refine ⟨_, J, rfl, hplain, hJ, fun before siblings b answer t after h => ?_, fun _ _ h => ?_,
    fun e he => ?_⟩
  · exact (horder before _ after h).2 siblings b answer rfl
  · exact card_unreaped_le horder h
  · obtain ⟨before, after, hbefore, hle⟩ := hacc.2.2.of_mem he
    have := Multiset.card_le_card hle
    have := (horder before e after hbefore).1
    rw [Multiset.card_add] at *
    omega

/-- Three cases, of which the last depends on the first. -/
def threeCases : Siblings Case :=
  { items := [.declare "a" none [], .declare "b" none [], .declare "c" none ["a"]] }

theorem threeCases_fresh : threeCases.Fresh Case.Fresh := by
  refine ⟨by decide, fun c hc => ?_, rfl, rfl⟩
  simp only [threeCases, List.mem_cons, List.not_mem_nil, or_false] at hc
  rcases hc with rfl | rfl | rfl <;> exact Case.declare_fresh ..

theorem scheduleChunks_threeCases_alive_le :
    ∃ (t : Scope Case (Journaled Forked)) (J : Journal Forked),
      (scheduleChunks Forked.launcher 2).ending ⟨threeCases.sequence.1, { backend := {} }⟩ =
        t.plain ∧
      t.host.backend.journal = J ∧
      (∀ before siblings b answer t after,
        J = before ++ ⟨.start siblings b answer, t⟩ :: after →
          MayStart threeCases.sequence.1 2 before siblings b) ∧
      (∀ before after, J = before ++ after → Multiset.card before.unreaped ≤ 2) ∧
      ∀ e ∈ J, Multiset.card e.host.backend.alive ≤ 0 + 2 := by
  obtain ⟨t, J, _, hplain, hJ, hbounds⟩ := scheduleChunks_mayStart_and_alive_le Forked.truthful
    threeCases_fresh rfl Nat.two_pos { backend := {} } fun _ he => by cases he
  exact ⟨t, J, hplain, hJ, hbounds⟩

end Schedule
end RankRunner
