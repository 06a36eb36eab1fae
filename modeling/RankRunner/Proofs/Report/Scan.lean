import Mathlib.Data.List.Induction
import RankRunner.Proofs.Report.Plain

/-! # Scanning a text

A scan reads from the start of a text and leaves the rest of it. `Scans p s a` says that `p` reads
`s` as `a` whatever comes after it, so that what is read in parts is read as a whole (`Scans.bind`).
A draft may not be finished; what it comes to is scanned if it is (`Draft.Scanned`). -/

namespace RankRunner

abbrev Scan := StateT (List Char) Option

namespace Scan

variable {α β : Type}

/-- Read a text that is known. -/
def token (s : String) : Scan Unit := fun cs =>
  if s.toList <+: cs then some ((), cs.drop s.toList.length) else none

/-- Read as far as a character, which is passed over. -/
def upTo (c : Char) : Scan String := fun cs =>
  match cs.dropWhile (· != c) with
  | _ :: rest => some (.ofList (cs.takeWhile (· != c)), rest)
  | [] => none

/-- Pass over what stands before a character, and the character. -/
def past (c : Char) : Scan Unit := do
  let _ ← upTo c

def ofOption (a : Option α) : Scan α := fun cs => a.map (·, cs)

/-- Read a text to its end. -/
def whole? (p : Scan α) (s : String) : Option α :=
  match p.run s.toList with
  | some (a, []) => some a
  | _ => none

end Scan

open Scan

variable {α β : Type} {p : Scan α} {s t : String} {a : α}

/-- The scan reads the text as `a` and stops at its end. -/
def Scans (p : Scan α) (s : String) (a : α) : Prop :=
  ∀ rest, p.run (s.toList ++ rest) = some (a, rest)

namespace Scans

theorem text (h : Scans p s a) (hs : s.toList = t.toList) : Scans p t a :=
  String.toList_inj.1 hs ▸ h

theorem whole? (h : Scans p s a) : p.whole? s = some a := by
  have hend := h []
  rw [List.append_nil] at hend
  rw [Scan.whole?, hend]

theorem pure (a : α) : Scans (pure a) "" a := fun _ => rfl

theorem bind {f : α → Scan β} {b : β} (hp : Scans p s a) (hf : Scans (f a) t b) :
    Scans (p >>= f) (s ++ t) b := by
  intro rest
  rw [StateT.run_bind, String.toList_append, List.append_assoc, hp]
  exact hf rest

theorem token (s : String) : Scans (token s) s () := by
  intro rest
  show (if _ then _ else _) = _
  rw [if_pos (List.prefix_append ..), List.drop_left]

theorem upTo {c : Char} (h : c ∉ s.toList) : Scans (upTo c) (s ++ String.singleton c) s := by
  have hbefore : ∀ d ∈ s.toList, (d != c) = true := by
    rintro d hd
    exact bne_iff_ne.2 fun heq => h (heq ▸ hd)
  intro rest
  have htext : (s ++ String.singleton c).toList ++ rest = s.toList ++ c :: rest := by simp
  rw [htext, StateT.run, Scan.upTo, List.dropWhile_append_of_pos hbefore,
    List.takeWhile_append_of_pos hbefore]
  simp

theorem past {c : Char} (h : c ∉ s.toList) : Scans (past c) (s ++ String.singleton c) () :=
  ((upTo h).bind (.pure ())).text (by simp)

theorem ofOption {o : Option α} (h : o = some a) : Scans (ofOption o) "" a := by
  subst h
  exact fun _ => rfl

end Scans

/-! ## Drafts -/

namespace Report.Draft

/-- The draft is finished if and only if `T` holds, and its text is scanned as `a`. -/
structure Scanned (d : Draft) (T : Prop) (p : Scan α) (a : α) : Prop where
  finishes : (∃ text, d.finished = .ok text) ↔ T
  scans : ∀ text, d.finished = .ok text → Scans p text a

/-- A draft between two texts, which are read with it. -/
theorem Scanned.enclosed {d : Draft} {T : Prop} {q : Scan β} {b : β} {head tail : String}
    (h : d.Scanned T p a) (hq : ∀ text, Scans p text a → Scans q (head ++ text ++ tail) b) :
    (ofText head ++ d ++ ofText tail).Scanned T q b := by
  obtain ⟨hfinishes, hscans⟩ := h
  rw [← hfinishes]
  constructor
  · rw [finished_enclosed]
    cases d.finished with
    | error r => exact ⟨nofun, nofun⟩
    | ok s => exact ⟨fun _ => ⟨s, rfl⟩, fun _ => ⟨_, rfl⟩⟩
  · intro text htext
    rw [finished_enclosed] at htext
    cases hd : d.finished with
    | error r => rw [hd] at htext; cases htext
    | ok s =>
      rw [hd] at htext
      cases htext
      exact hq s (hscans s hd)

/-- Drafts that are scanned one by one, each by its key, are scanned one after the other. -/
theorem Scanned.concat {γ : Type} {f : β → Draft} {T : β → Prop} {key : β → γ} {p : γ → Scan α}
    {v : β → α} {l : List β} (h : ∀ b ∈ l, (f b).Scanned (T b) (p (key b)) (v b)) :
    (Draft.concat (l.map f)).Scanned (∀ b ∈ l, T b) ((l.map key).mapM p) (l.map v) := by
  induction l using List.reverseRecOn with
  | nil =>
    refine ⟨⟨fun _ => nofun, fun _ => ⟨"", rfl⟩⟩, fun text htext => ?_⟩
    cases htext
    exact .pure []
  | append_singleton l b ih =>
    obtain ⟨hfinishes, hscans⟩ := ih fun a ha => h a (by simp [ha])
    have hlast := h b (by simp)
    simp only [List.map_append, List.map_singleton, concat_concat]
    refine ⟨?_, fun text htext => ?_⟩
    · simp only [finished_append_eq_ok, List.forall_mem_append, List.forall_mem_singleton,
        ← hfinishes, ← hlast.finishes]
      constructor
      · rintro ⟨_, s, t, hs, ht, -⟩
        exact ⟨⟨s, hs⟩, t, ht⟩
      · rintro ⟨⟨s, hs⟩, t, ht⟩
        exact ⟨_, s, t, hs, ht, rfl⟩
    · obtain ⟨s, t, hs, ht, rfl⟩ := finished_append_eq_ok.1 htext
      rw [List.mapM_append]
      refine (hscans s hs).bind fun rest => ?_
      simp [hlast.scans t ht rest]

end Report.Draft
end RankRunner
