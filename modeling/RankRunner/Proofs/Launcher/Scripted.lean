import RankRunner.Launcher.Scripted
import RankRunner.Proofs.Launcher.Forked

/-! # The laws of a script

A script may let starts and waits for any child fail in whatever way, but only with something
raised. To wait for one child fails only for want of it, and completions carry the number of a
process if the script says so. -/

namespace RankRunner.Scripted

open Effect Script

variable {h : Host Scripted}

/-- The completions that are to come in carry the number of a process. -/
def Numbered (s : Scripted) : Prop :=
  ∀ c request signal, AnyReply.done c request signal ∈ s.anys → c.pid.isSome

theorem numbered_of_anys {s t : Scripted} (hs : s.Numbered)
    (hsub : ∀ reply ∈ t.anys, reply ∈ s.anys) : t.Numbered :=
  fun c request signal hc => hs c request signal (hsub _ hc)

theorem ensures_start {l : Siblings Case} {c : Case} : Ensures (start l c)
    (fun _ t => t.backend.anys = h.backend.anys)
    (fun f t => t.backend.anys = h.backend.anys ∧ ∃ q, f = .raised q) h := by
  simp only [start, Host.record, ensures_bind, ensures_modify, ensures_get]
  split
  · rfl
  · exact ⟨rfl, _, rfl⟩
  · rfl

theorem ensures_waitAny : Ensures waitAny
    (fun d? t => t.backend.anys = h.backend.anys.tail ∧
      ∀ d ∈ d?, ∃ request signal, AnyReply.done d request signal ∈ h.backend.anys)
    (fun f t => t.backend.anys = h.backend.anys.tail ∧ ∃ q, f = .raised q) h := by
  simp only [waitAny, Host.record, ensures_bind, ensures_modify, ensures_get]
  split
  · exact ⟨rfl, fun d hd => absurd hd (Option.not_mem_none d)⟩
  · exact ⟨rfl, _, rfl⟩
  · next c request signal hnext =>
    have hmem : AnyReply.done c request signal ∈ h.backend.anys := by
      cases hanys : h.backend.anys with
      | nil => rw [hanys] at hnext; cases hnext
      | cons reply rest =>
        rw [hanys] at hnext
        exact hnext ▸ List.mem_cons_self
    have htold : ∀ d ∈ some c, ∃ request signal, AnyReply.done d request signal ∈ h.backend.anys :=
      fun d hd => Option.some.inj hd ▸ ⟨request, signal, hmem⟩
    have hdeliver (n : Int) (t : Host Scripted) (ht : t.backend.anys = h.backend.anys.tail) :
        Ensures (do Host.deliver n; return some c)
          (fun d? t => t.backend.anys = h.backend.anys.tail ∧
            ∀ d ∈ d?, ∃ request signal, AnyReply.done d request signal ∈ h.backend.anys)
          (fun f t => t.backend.anys = h.backend.anys.tail ∧ ∃ q, f = .raised q) t :=
      ensures_bind.2 (Host.ensures_deliver fun i _ => ⟨⟨ht, htold⟩, fun q => ⟨ht, q, rfl⟩⟩)
    cases request with
    | false =>
      cases signal with
      | none => exact ⟨rfl, htold⟩
      | some n => exact hdeliver n _ rfl
    | true =>
      cases signal with
      | none => exact ⟨rfl, htold⟩
      | some n => exact hdeliver n _ rfl

theorem ensures_wait {pid : Int} : Ensures (wait pid) (fun _ t => t.backend.anys = h.backend.anys)
    (fun f t => t.backend.anys = h.backend.anys ∧ ∃ q, f = .raised q ∧ q.isNoChild = true) h := by
  simp only [wait, Host.record, ensures_bind, ensures_modify, ensures_get]
  split
  · exact ⟨rfl, _, rfl, Raised.isNoChild_noSuchChild pid⟩
  · rfl

theorem collecting : launcher.Collecting Numbered where
  start l _ _ hs := (ensures_start (l := l)).mono
    (fun _ _ ht => numbered_of_anys hs fun _ hr => ht ▸ hr)
    fun _ _ ht => numbered_of_anys hs fun _ hr => ht.1 ▸ hr
  waitAny _ hs := by
    refine ensures_waitAny.mono (fun d? t ht => ⟨?_, fun d hd => ?_⟩) fun f t ht => ?_
    · exact numbered_of_anys hs fun _ hr => List.mem_of_mem_tail (ht.1 ▸ hr)
    · obtain ⟨request, signal, hmem⟩ := ht.2 d hd
      exact hs d request signal hmem
    · exact numbered_of_anys hs fun _ hr => List.mem_of_mem_tail (ht.1 ▸ hr)
  wait _ _ hs := ensures_wait.mono (fun _ _ ht => numbered_of_anys hs fun _ hr => ht ▸ hr)
    fun _ _ ht => ⟨numbered_of_anys hs fun _ hr => ht.1 ▸ hr, ht.2⟩
  kill _ _ hs := hs
  drain _ hs := hs

theorem faultless : launcher.Faultless where
  start l _ _ := (ensures_start (l := l)).mono (fun _ _ _ => trivial) fun _ _ ht => ht.2
  waitAny _ := ensures_waitAny.mono (fun _ _ _ => trivial) fun _ _ ht => ht.2
  wait _ _ := ensures_wait.mono (fun _ _ _ => trivial) fun _ _ ⟨_, q, hq, _⟩ => ⟨q, hq⟩
  kill _ _ := trivial
  drain _ := trivial

end RankRunner.Scripted
