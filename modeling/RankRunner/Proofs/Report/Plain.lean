import RankRunner.Report
import RankRunner.Proofs.Report.Markup

/-! # What a report writes

What a report writes beside names is plain: numbers, times and labels are made of letters, digits
and a few signs, and hold no white space, brackets, quotes or markup. So whatever stands after them
tells where they end, and a document may hold them as they are (`Plain.legal`). It is written in
drafts; a draft is finished if all of its parts are, and its text is theirs in turn. -/

namespace RankRunner

open Markup Report

def isPlain (c : Char) : Bool := c.isAlphanum || c == '-' || c == '+' || c == ':' || c == '.'

/-- A text of letters, digits and the signs that numbers and times are written with. -/
def Plain (s : String) : Prop := ∀ c ∈ s.toList, isPlain c = true

instance (s : String) : Decidable (Plain s) := List.decidableBAll _ s.toList

@[simp] theorem plain_append {s t : String} : Plain (s ++ t) ↔ Plain s ∧ Plain t := by
  rw [Plain, String.toList_append, List.forall_mem_append, Plain, Plain]

theorem Plain.notMem {s : String} (h : Plain s) {c : Char} (hc : isPlain c = false) :
    c ∉ s.toList := by
  intro hmem
  rw [h c hmem] at hc
  cases hc

theorem isLegal_of_isPlain {c : Char} (h : isPlain c = true) : isLegal c = true := by
  delta isPlain Char.isAlphanum Char.isAlpha Char.isUpper Char.isLower Char.isDigit at h
  simp only [Bool.or_eq_true, Bool.and_eq_true, decide_eq_true_eq, beq_iff_eq, ge_iff_le] at h
  change ((((((65 ≤ c.toNat ∧ c.toNat ≤ 90) ∨ (97 ≤ c.toNat ∧ c.toNat ≤ 122)) ∨
    (48 ≤ c.toNat ∧ c.toNat ≤ 57)) ∨ c = '-') ∨ c = '+') ∨ c = ':') ∨ c = '.' at h
  have hrange : 0x20 ≤ c.toNat ∧ c.toNat ≤ 0xD7FF := by
    rcases h with ((((h | h) | rfl) | rfl) | rfl) | rfl
    · omega
    · omega
    all_goals decide
  simp only [isLegal, within, List.any_cons, List.any_nil, Bool.or_false, Bool.or_eq_true,
    Bool.and_eq_true, decide_eq_true_eq]
  omega

theorem Plain.legal {s : String} (h : Plain s) : Legal s := fun c hc => isLegal_of_isPlain (h c hc)

/-! ## Numbers -/

theorem isPlain_of_isDigit {c : Char} (h : c.isDigit = true) : isPlain c = true := by
  simp [isPlain, Char.isAlphanum, h]

theorem plain_toDigits (n : Nat) : ∀ c ∈ Nat.toDigits 10 n, isPlain c = true := fun _ hc =>
  isPlain_of_isDigit (Nat.isDigit_of_mem_toDigits (by decide) (by decide) hc)

theorem plain_nat (n : Nat) : Plain (toString n) := by
  rw [Nat.toString_eq_ofList_toDigits, Plain, String.toList_ofList]
  exact plain_toDigits n

theorem plain_int (n : Int) : Plain n.repr := by
  cases n with
  | ofNat n => exact plain_nat n
  | negSucc n => exact plain_append.2 ⟨by decide, plain_nat (n + 1)⟩

theorem plain_paddedDigits (width n : Nat) : Plain (paddedDigits width n) := by
  rw [paddedDigits, Plain, String.toList_ofList]
  refine List.forall_mem_append.2 ⟨fun c hc => ?_, plain_toDigits n⟩
  rw [List.eq_of_mem_replicate hc]
  decide

theorem plain_fixed (places : Nat) (x : Binary64) : Plain (x.fixed places) := by
  have hsign (negative : Bool) : Plain (Binary64.signText negative) := by
    cases negative <;> decide
  cases x with
  | nan => exact (by decide : Plain "nan")
  | infinity negative => exact plain_append.2 ⟨hsign negative, by decide⟩
  | finite negative m e =>
    simp only [Binary64.fixed, fixedPlaces, plain_append]
    exact ⟨hsign negative, ⟨plain_nat _, by decide⟩, plain_paddedDigits _ _⟩

theorem plain_of_fixed {s : Seconds} {places : Nat} {text : String}
    (h : s.fixed places = .ok text) : Plain text := by
  unfold Seconds.fixed at h
  cases hs : s.toFloat with
  | error r => rw [hs] at h; cases h
  | ok x =>
    rw [hs] at h
    exact Except.ok.inj h ▸ plain_fixed places x

/-! ## Times and labels -/

theorem plain_timeText (t : Option Timestamp) : Plain (timeText t) := by
  have hclock (seconds : Nat) (b : Bool) : Plain (Timestamp.clockText seconds b) := by
    unfold Timestamp.clockText
    dsimp only
    split <;> simp only [plain_append, plain_paddedDigits, and_true, true_and] <;> decide
  cases t with
  | none => decide
  | some t =>
    have hsign : Plain (if t.offset < 0 then "-" else "+") := by split <;> decide
    simp only [timeText, Option.map_some, Option.getD_some, Timestamp.text, Date.text,
      Timestamp.offsetText, plain_append, hclock, plain_paddedDigits, hsign, and_true, true_and]
    decide

theorem plain_duration (i : Item) : Plain (Text.duration i) := by
  unfold Text.duration
  split
  · exact plain_append.2 ⟨plain_fixed _ _, by decide⟩
  · decide

theorem plain_label (s : Status) : Plain s.label := by
  unfold Status.label Status.named?
  split_ifs
  case neg => exact plain_append.2 ⟨by decide, plain_int s.code⟩
  all_goals
    rw [Option.getD_some]
    decide

theorem plain_caseLabel (c : Case) : Plain (caseLabel c) := by
  unfold caseLabel
  split
  · decide
  · exact plain_label c.status

/-! ## Drafts -/

namespace Report.Draft

theorem finished_append (d e : Draft) :
    (d ++ e).finished = d.finished.bind fun s => e.finished.map (s ++ ·) := by
  obtain ⟨s, _ | r⟩ := d
  · obtain ⟨t, _ | r⟩ := e <;> rfl
  · rfl

theorem finished_append_eq_ok {d e : Draft} {text : String} :
    (d ++ e).finished = .ok text ↔
      ∃ s t, d.finished = .ok s ∧ e.finished = .ok t ∧ s ++ t = text := by
  rw [finished_append]
  cases d.finished with
  | error r => simp [Except.bind]
  | ok s => cases e.finished <;> simp [Except.bind, Except.map]

theorem finished_ofExcept (x : Except Raised String) : (ofExcept x).finished = x := by
  cases x <;> rfl

theorem finished_enclosed (head tail : String) (d : Draft) :
    (ofText head ++ d ++ ofText tail).finished = d.finished.map (head ++ · ++ tail) := by
  obtain ⟨s, _ | r⟩ := d <;> rfl

theorem concat_concat (ds : List Draft) (d : Draft) : concat (ds ++ [d]) = concat ds ++ d := by
  rw [concat, List.foldl_append]
  rfl

end Report.Draft
end RankRunner
