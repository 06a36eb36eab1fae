import RankRunner.Launcher.InProcess
import RankRunner.Proofs.Launcher.Faithful

/-! # Cases in the runner's own process are reported faithfully

A case that raises something is reported as killed by a signal, which stands for the same status
as if the runner had called it itself. -/

namespace RankRunner.InProcess

open Effect

variable {h : Host InProcess}

/-- The completions that are kept, as pending children. -/
def pending (b : InProcess) : Multiset (Int × Status) :=
  b.done.map fun d => (d.pid.getD 0, Status.mk d.result)

structure Calm (h : Host InProcess) : Prop where
  requested : h.requested = false
  done : ∀ d ∈ h.backend.done, d.stopped = false ∧ ∃ pid, d.pid = some pid ∧ pid < h.backend.nextPid

theorem ensures_start {l : Siblings Case} {c : Case} (hc : c.Surviving) (hh : Calm h) :
    Ensures (start l c)
      (fun pid t => Calm t ∧ pid ∉ (pending h.backend).map Prod.fst ∧
        pending t.backend = (pid, c.verdict) ::ₘ pending h.backend)
      (fun _ _ => False) h := by
  have hfresh : h.backend.nextPid ∉ (pending h.backend).map Prod.fst := by
    intro hmem
    simp only [pending, Multiset.map_coe, List.map_map, Multiset.mem_coe, List.mem_map] at hmem
    obtain ⟨d, hd, hpid⟩ := hmem
    obtain ⟨_, pid, hp, hlt⟩ := hh.done d hd
    simp only [Function.comp, hp, Option.getD_some] at hpid
    omega
  have hpush {d : Completion} (hpid : d.pid = some h.backend.nextPid) (hs : d.stopped = false)
      (hd : c.verdict = ⟨d.result⟩) (clock : Clock) (shown : Shown) (calls : List Call) :
      Ensures (do push d; return h.backend.nextPid)
        (fun pid t => Calm t ∧ pid ∉ (pending h.backend).map Prod.fst ∧
          pending t.backend = (pid, c.verdict) ::ₘ pending h.backend) (fun _ _ => False)
        { h with
          clock, shown, calls
          backend := { h.backend with nextPid := h.backend.nextPid + 1 } } := by
    refine ⟨⟨hh.requested, fun d' hd' => ?_⟩, hfresh, ?_⟩
    · rcases List.mem_append.1 hd' with hd' | hd'
      · obtain ⟨hstopped, pid, hp, hlt⟩ := hh.done d' hd'
        exact ⟨hstopped, pid, hp, Int.lt_trans hlt (Int.lt_succ _)⟩
      · cases List.mem_singleton.1 hd'
        exact ⟨hs, _, hpid, Int.lt_succ _⟩
    · simp only [pending, List.map_append, List.map_cons, List.map_nil, hpid, Option.getD_some, ← hd]
      exact Multiset.coe_eq_coe.2 (List.perm_append_singleton ..)
  simp only [start, ensures_bind, ensures_get, ensures_modify, ensures_attempt]
  refine hc.ensures_call fun clock shown => ?_
  cases ho : c.outcome with
  | ok n => exact hpush rfl rfl (by rw [Case.verdict, ho]; rfl) _ _ _
  | error f =>
    simp only [hc.isFatal ho, Bool.false_eq_true, if_false]
    exact hpush rfl rfl (by rw [Case.verdict, ho]; rfl) _ _ _

theorem ensures_waitAny (hh : Calm h) (hp : pending h.backend ≠ 0) : Ensures waitAny
    (fun d? t => Calm t ∧ t.backend.done.length < h.backend.done.length ∧
      ∃ d pid, d? = some d ∧ d.pid = some pid ∧ d.stopped = false ∧
        pending h.backend = (pid, ⟨d.result⟩) ::ₘ pending t.backend)
    (fun _ _ => False) h := by
  simp only [waitAny, ensures_bind, ensures_get]
  split
  · next hdone => exact absurd (by rw [pending, hdone]; rfl) hp
  · next d done hdone =>
    have hsub (d') (hd' : d' ∈ done) := hh.done d' (hdone ▸ List.mem_cons_of_mem d hd')
    obtain ⟨hstopped, pid, hpid, _⟩ := hh.done d (hdone ▸ List.mem_cons_self)
    refine ⟨⟨hh.requested, hsub⟩, ?_, d, pid, rfl, hpid, hstopped, ?_⟩
    · rw [hdone]
      exact Nat.lt_succ_self _
    · rw [pending, hdone, List.map_cons, hpid]
      rfl

theorem faithful : launcher.Faithful Calm pending where
  requested _ hh := hh.requested
  unaffected _ _ _ _ hh := ⟨hh.requested, hh.done⟩
  patience_eq _ _ _ _ := rfl
  pending_eq_zero h _ hp := by rw [pending, List.eq_nil_of_length_eq_zero hp]; rfl
  start l _ _ hc hh := ensures_start (l := l) hc hh
  waitAny _ hh hp := (ensures_waitAny hh hp).mono (fun _ _ h => h) fun _ _ h => h.elim

end RankRunner.InProcess
