import RankRunner.CommandLine
import RankRunner.Proofs.Execution.Caught

/-! # Delivering the report

A report is `Written` if its whole text has reached its destination. Whether a file can be written
does not depend on what it held before, so that to open a file and then to write it is to write it
at once (`Files.write_write`). What keeps a report from being written is caught
(`CommandLine.ensures_writeReport`). -/

namespace RankRunner

open Effect

/-! ## Files -/

theorem Raised.nameOfNumber_caught (n : Int) : (Raised.mk (nameOfNumber n) []).Caught := by
  have choice {c : Prop} [Decidable c] {a b : String} (ha : a ∈ systemNames)
      (hb : b ∈ systemNames) : (if c then a else b) ∈ systemNames := by
    split <;> assumption
  have hmem : nameOfNumber n ∈ systemNames := by
    unfold nameOfNumber
    repeat' refine choice (by decide) ?_
    decide
  exact .of_isSystem (List.contains_iff_mem.2 hmem)

theorem Raised.system_caught (n : Int) (message : String) : (Raised.system n message).Caught :=
  .of_name _ (nameOfNumber_caught n) rfl

theorem Raised.systemAt_caught (n : Int) (message path : String) :
    (Raised.systemAt n message path).Caught :=
  .of_name _ (nameOfNumber_caught n) rfl

theorem Raised.badValue_caught (message : String) : (Raised.badValue message).Caught :=
  .of_name "ValueError" (by decide) rfl

namespace Files

variable {f : Files} {path body : String} {place p : List String} {e : Entry}
  {es : List (List String × Entry)}

theorem lookup_put_of_ne (h : p ≠ place) : (put place e es).lookup p = es.lookup p := by
  induction es with
  | nil =>
    have : (p == place) = false := beq_eq_false_iff_ne.2 h
    simp [put, List.lookup_cons, this]
  | cons x es ih =>
    obtain ⟨q, d⟩ := x
    by_cases hq : q = place
    · have : (p == place) = false := beq_eq_false_iff_ne.2 h
      simp [put, List.lookup_cons, hq, this]
    · simp only [put, if_neg hq, List.lookup_cons, ih]

theorem mem_places_put (hp : p ∈ es.map (·.1)) : p ∈ (put place e es).map (·.1) := by
  induction es with
  | nil => cases hp
  | cons x es ih =>
    obtain ⟨q, d⟩ := x
    by_cases hq : q = place
    · simpa [put, hq] using hp
    · rcases List.mem_cons.1 hp with rfl | hp
      · simp [put, hq]
      · simp only [put, if_neg hq, List.map_cons, List.mem_cons]
        exact .inr (ih hp)

theorem put_put (d e : Entry) : put place e (put place d es) = put place e es := by
  induction es with
  | nil => simp [put]
  | cons x es ih =>
    obtain ⟨q, c⟩ := x
    by_cases hq : q = place
    · simp [put, hq]
    · simp [put, hq, ih]

/-- The files once there is an entry at a place. -/
def withEntry (f : Files) (place : List String) (e : Entry) : Files :=
  { f with entries := put place e f.entries }

/-- A new entry, where no folder was, leaves all folders as they are. -/
theorem at?_withEntry_folder (hplace : f.at? place ≠ some .folder) (hp : f.at? p = some .folder) :
    (f.withEntry place e).at? p = some .folder := by
  have hne : p ≠ place := fun heq => hplace (heq ▸ hp)
  unfold at? at hp ⊢
  rw [withEntry, lookup_put_of_ne hne]
  cases hl : f.entries.lookup p with
  | some d =>
    rw [hl] at hp
    exact hp
  | none =>
    rw [hl] at hp
    dsimp only at hp ⊢
    split at hp
    · next hany =>
      refine if_pos ?_
      obtain ⟨q, hq, hpq⟩ := List.any_eq_true.1 hany
      refine List.any_eq_true.2 ⟨q, ?_, hpq⟩
      rcases List.mem_cons.1 hq with rfl | hq
      · exact List.mem_cons_self
      · exact List.mem_cons_of_mem _ (mem_places_put hq)
    · cases hp

theorem walk_withEntry (hplace : f.at? place ≠ some .folder) {names : List String} :
    ∀ {start folder}, f.walk start names = .ok folder →
      (f.withEntry place e).walk start names = .ok folder := by
  induction names with
  | nil => exact fun h => h
  | cons name names ih =>
    intro start folder h
    unfold walk at h ⊢
    split at h
    · cases h
    · next hfolder =>
      rw [at?_withEntry_folder hplace hfolder]
      dsimp only
      split at h
      · next hdot => rw [if_pos hdot]; exact ih h
      · next hdot =>
        rw [if_neg hdot]
        split at h
        · next hup => rw [if_pos hup]; exact ih h
        · next hup =>
          rw [if_neg hup]
          split at h
          · cases h
          · next hshort => rw [if_neg hshort]; exact ih h
    · cases h

/-- A file can be written where its folder is there, and no folder has its name. -/
structure Reaches (f : Files) (path name : String) (folder : List String) : Prop where
  plain : Path.hasNull path = false
  short : ¬ Path.limit < path.utf8ByteSize
  ends : (Path.components path).getLast? = some name
  within : f.walk (f.start path) ((Path.components path).dropLast ++ ["."]) = .ok folder
  named : (path.endsWith "/" || name == "." || name == "..") = false
  fits : ¬ Path.nameLimit < name.utf8ByteSize
  free : f.at? (folder ++ [name]) ≠ some .folder

theorem target_of_reaches {name : String} {folder : List String} (h : f.Reaches path name folder) :
    f.target path = .ok (folder ++ [name]) := by
  unfold target
  rw [h.plain, if_neg Bool.false_ne_true, if_neg h.short]
  dsimp only
  rw [h.ends]
  dsimp only
  rw [h.within]
  dsimp only
  rw [h.named, if_neg Bool.false_ne_true, if_neg h.fits]
  split
  · next hfolder => exact absurd hfolder h.free
  · rfl

/-- Either a file can be written, or the system says why it cannot. -/
theorem target_cases (f : Files) (path : String) :
    (∃ name folder, f.Reaches path name folder) ∨
      ∃ r : Raised, f.target path = .error r ∧ r.Caught := by
  unfold target
  split
  · exact .inr ⟨_, rfl, Raised.badValue_caught _⟩
  next hplain =>
  split
  · exact .inr ⟨_, rfl, Raised.systemAt_caught ..⟩
  next hshort =>
  dsimp only
  split
  · refine .inr ⟨_, rfl, ?_⟩
    split <;> exact Raised.systemAt_caught ..
  next name hends =>
  split
  · exact .inr ⟨_, rfl, Raised.systemAt_caught ..⟩
  next folder hwithin =>
  split
  · exact .inr ⟨_, rfl, Raised.systemAt_caught ..⟩
  next hnamed =>
  split
  · exact .inr ⟨_, rfl, Raised.systemAt_caught ..⟩
  next hfits =>
  split
  · exact .inr ⟨_, rfl, Raised.systemAt_caught ..⟩
  next hfree =>
  exact .inl ⟨name, folder, Bool.eq_false_iff.2 hplain, hshort, hends, hwithin,
    Bool.eq_false_iff.2 hnamed, hfits, hfree⟩

/-- Once a text has been written to a file, it can be written again. -/
theorem Reaches.withEntry {name : String} {folder : List String} (h : f.Reaches path name folder)
    (body : String) : (f.withEntry (folder ++ [name]) (.text body)).Reaches path name folder := by
  refine { h with within := walk_withEntry h.free h.within, free := ?_ }
  rw [at?, Files.withEntry, lookup_put_self]
  nofun

/-- What comes of writing a file: the text stands at its place, unless a device takes it. -/
theorem write_eq (hplace : f.target path = .ok place) (body : String) : f.write path body =
    match f.at? place with
    | some (.device full) => if full && body != "" then .error noSpace else .ok f
    | _ => .ok (f.withEntry place (.text body)) := by
  unfold write
  rw [hplace]
  simp only [bind, Except.bind]
  cases f.at? place with
  | none => rfl
  | some e =>
    cases e with
    | device full =>
      dsimp only
      split <;> rfl
    | _ => rfl

theorem write_of_target_error {r : Raised} (h : f.target path = .error r) (body : String) :
    f.write path body = .error r := by
  rw [write, h]
  rfl

/-- Whoever can write a file can open it first. -/
theorem exists_open {g : Files} (h : f.write path body = .ok g) :
    ∃ opened, f.write path "" = .ok opened := by
  rcases target_cases f path with ⟨name, folder, hr⟩ | ⟨r, hr, _⟩
  · rw [write_eq (target_of_reaches hr)]
    split
    · next full _ => exact ⟨f, by cases full <;> rfl⟩
    · exact ⟨_, rfl⟩
  · rw [write_of_target_error hr] at h
    cases h

/-- To write a file that has been opened is to write it at once. -/
theorem write_write {opened : Files} {before : String} (h : f.write path before = .ok opened) :
    opened.write path body = f.write path body := by
  rcases target_cases f path with ⟨name, folder, hr⟩ | ⟨r, hr, _⟩
  · have hplace := target_of_reaches hr
    rw [write_eq hplace] at h
    split at h
    · split at h
      · cases h
      · cases h
        rfl
    · next hdevice =>
      cases h
      have hat : (f.withEntry (folder ++ [name]) (.text before)).at? (folder ++ [name]) =
          some (.text before) := by
        rw [at?, withEntry, lookup_put_self]
      rw [write_eq (target_of_reaches (hr.withEntry before)), write_eq hplace, hat]
      dsimp only
      split
      · next full hfull => exact absurd hfull (hdevice full)
      · simp only [withEntry, put_put]
  · rw [write_of_target_error hr] at h
    cases h

theorem write_caught {r : Raised} (h : f.write path body = .error r) : r.Caught := by
  rcases target_cases f path with ⟨name, folder, hr⟩ | ⟨r', hr, hcaught⟩
  · rw [write_eq (target_of_reaches hr)] at h
    split at h
    · split at h
      · cases h
        exact Raised.system_caught ..
      · cases h
    · cases h
  · rw [write_of_target_error hr] at h
    cases h
    exact hcaught

end Files

/-! ## Reports -/

namespace Report

namespace Draft

variable {d e : Draft} {text : String}

theorem finished_eq_ok_iff : d.finished = .ok text ↔ d.failure = none ∧ d.text = text := by
  unfold finished
  split <;> simp [*]

/-- Whatever breaks the draft off is caught. -/
def Caught (d : Draft) : Prop := ∀ r ∈ d.failure, r.Caught

theorem caught_ofText (text : String) : (ofText text).Caught := nofun

theorem Caught.append (hd : d.Caught) (he : e.Caught) : (d ++ e).Caught := by
  show (Draft.append d e).Caught
  unfold Draft.append
  split
  · exact hd
  · exact he

theorem caught_concat {ds : List Draft} (h : ∀ d ∈ ds, d.Caught) : (concat ds).Caught := by
  have hfrom (d : Draft) (hd : d.Caught) : (ds.foldl Draft.append d).Caught := by
    induction ds generalizing d with
    | nil => exact hd
    | cons e ds ih =>
      exact ih (fun d hd => h d (List.mem_cons_of_mem _ hd)) _
        (hd.append (h e List.mem_cons_self))
  exact hfrom {} nofun

end Draft

theorem fixed_caught {places : Nat} {s : Seconds} {r : Raised} (h : s.fixed places = .error r) :
    r.Caught := by
  unfold Seconds.fixed Seconds.toFloat at h
  split at h
  · cases h
  · split at h
    · cases h
      exact .of_name "OverflowError" (by decide) rfl
    · cases h

private theorem eq_error_of_two {ε α β : Type} {x y : Except ε α} {f : α → α → β} {e : ε}
    (h : (do let a ← x; let b ← y; return f a b) = .error e) : x = .error e ∨ y = .error e := by
  cases x with
  | error e' => cases h; exact .inl rfl
  | ok a =>
    cases y with
    | error e' => cases h; exact .inr rfl
    | ok b => cases h

theorem Text.usage_caught {u : Usage} {r : Raised} (h : Text.usage u = .error r) : r.Caught :=
  (eq_error_of_two h).elim fixed_caught fixed_caught

theorem Xml.usage_caught {u : Usage} {r : Raised} (h : Xml.usage u = .error r) : r.Caught :=
  (eq_error_of_two h).elim fixed_caught fixed_caught

theorem Text.caught_case (c : Case) : (Text.case c).Caught := by
  unfold Text.case
  cases c.usage with
  | none => exact nofun
  | some u =>
    simp only [Option.map_some, Option.getD_some]
    cases hu : Text.usage u with
    | error r => exact fun _ hq => Option.some.inj hq ▸ Text.usage_caught hu
    | ok used => exact nofun

theorem Xml.caught_case (c : Case) : (Xml.case c).Caught := by
  unfold Xml.case
  dsimp only
  split
  · exact nofun
  · next u _ =>
    refine ((Draft.caught_ofText _).append ?_).append (Draft.caught_ofText _)
    cases hu : Xml.usage u with
    | error r => exact fun _ hq => Option.some.inj hq ▸ Xml.usage_caught hu
    | ok used => exact nofun

theorem caught_case {format : String} {renderer : Renderer}
    (h : formats.lookup format = some renderer) (c : Case) : (renderer.case c).Caught := by
  have hmem := List.mem_of_lookup h
  simp only [formats, List.mem_cons, Prod.mk.injEq, List.not_mem_nil, or_false] at hmem
  rcases hmem with ⟨-, rfl⟩ | ⟨-, rfl⟩
  · exact Text.caught_case c
  · exact Xml.caught_case c

/-- A report is broken off by an unknown format, or by a time that is no number. -/
theorem caught_render (r : Run) : (render {} r).Caught := by
  unfold render
  split
  · next renderer h =>
    rw [Renderer.override_none]
    refine ((Draft.caught_ofText _).append (Draft.caught_concat fun d hd => ?_)).append
      (Draft.caught_ofText _)
    obtain ⟨g, _, rfl⟩ := List.mem_map.1 hd
    refine ((Draft.caught_ofText _).append (Draft.caught_concat fun d hd => ?_)).append
      (Draft.caught_ofText _)
    obtain ⟨c, _, rfl⟩ := List.mem_map.1 hd
    exact caught_case h c
  · exact fun _ hq => Option.some.inj hq ▸ Raised.badValue_caught _

end Report

namespace CommandLine

/-- The shell once a text has been shown. -/
def Shell.showing (s : Shell) (text : Shown) : Shell :=
  { s with host := { s.host with shown := s.host.shown ++ text } }

/-- The whole report of a run has been written where it goes. -/
structure Written (r : Run) (before after : Shell) (text : String) : Prop where
  finished : (Report.render {} r).finished = .ok text
  delivered : if r.outfile = "-" then
      after.files = before.files ∧
        ∃ rest, after.host.shown.out = before.host.shown.out ++ text ++ rest
    else before.files.write r.outfile text = .ok after.files

theorem Written.showing {r : Run} {s t : Shell} {text : String} (h : Written r s t text)
    (shown : Shown) : Written r s (t.showing shown) text := by
  refine ⟨h.finished, ?_⟩
  have hd := h.delivered
  split at hd
  · next hout =>
    obtain ⟨hfiles, rest, hrest⟩ := hd
    rw [if_pos hout]
    refine ⟨hfiles, rest ++ shown.out, ?_⟩
    show t.host.shown.out ++ shown.out = _
    rw [hrest, String.append_assoc]
  · next hout =>
    rw [if_neg hout]
    exact hd

@[simp] theorem ensures_say {s : Shell} {text : Shown} {Q : Unit → Shell → Prop}
    {E : Failure → Shell → Prop} : Ensures (say text) Q E s ↔ Q () (s.showing text) := Iff.rfl

/-- A report is written in full, or what is raised instead is caught. -/
theorem ensures_writeReport (r : Run) (s : Shell) : Ensures (writeReport r)
    (fun _ t => ∃ text, Written r s t text)
    (fun f _ => f.Caught ∧ ¬ ∃ t text, Written r s t text) s := by
  have hcaught := Report.caught_render r
  have hbroken {q : Raised} (hq : (Report.render {} r).failure = some q) :
      ¬ ∃ t text, Written r s t text := by
    rintro ⟨t, text, h⟩
    have := (Report.Draft.finished_eq_ok_iff.1 h.finished).1
    rw [hq] at this
    cases this
  have hwhole (hnone : (Report.render {} r).failure = none) :
      (Report.render {} r).finished = .ok (Report.render {} r).text :=
    Report.Draft.finished_eq_ok_iff.2 ⟨hnone, rfl⟩
  unfold writeReport
  dsimp only
  split
  · next hout =>
    rw [ensures_bind, ensures_say]
    cases hfailure : (Report.render {} r).failure with
    | some q => exact ⟨hcaught q hfailure, hbroken hfailure⟩
    | none =>
      refine ⟨_, hwhole hfailure, ?_⟩
      rw [if_pos (beq_iff_eq.1 hout)]
      exact ⟨rfl, "", (String.append_empty ..).symm⟩
  · next hout =>
    replace hout : r.outfile ≠ "-" := fun heq => hout (beq_iff_eq.2 heq)
    have hfile {t : Shell} {text : String} (h : Written r s t text) :
        s.files.write r.outfile text = .ok t.files := by
      have hd := h.delivered
      rwa [if_neg hout] at hd
    simp only [ensures_bind, ensures_get, ensures_ofExcept, ensures_modify]
    refine ⟨fun opened hopened => ?_, fun q hq => ⟨Files.write_caught hq, ?_⟩⟩
    · simp only [Files.write_write hopened]
      refine ⟨fun files hfiles => ?_, fun q hq => ⟨Files.write_caught hq, ?_⟩⟩
      · cases hfailure : (Report.render {} r).failure with
        | some q => exact ⟨hcaught q hfailure, hbroken hfailure⟩
        | none =>
          refine ⟨_, hwhole hfailure, ?_⟩
          rw [if_neg hout]
          exact hfiles
      · rintro ⟨t, text, h⟩
        have hw := hfile h
        rw [← (Report.Draft.finished_eq_ok_iff.1 h.finished).2, hq] at hw
        cases hw
    · rintro ⟨t, text, h⟩
      obtain ⟨opened, hopened⟩ := Files.exists_open (hfile h)
      rw [hopened] at hq
      cases hq

end CommandLine

end RankRunner
