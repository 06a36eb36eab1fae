import Mathlib.Data.List.Basic
import RankRunner.Report.Xml
import RankRunner.Proofs.Report.Markup

/-! # Written elements

`Reads s ns` says that the reader takes the text `s` between tags for the nodes `ns`, wherever it
stands. White space is read as its characters, and an element with attributes that are `Fit` is
read as itself around what its content is read as. The values of attributes are read back whatever
characters they hold, for each of them is read back as it is escaped (`Reader.feed_escape`). -/

namespace RankRunner.Markup

open Report

/-! ## Characters -/

/-- Characters that are legal and hold no line end for the reader to make uniform. -/
def Tidy (cs : List Char) : Prop := ∀ c ∈ cs, isLegal c = true ∧ c ≠ '\r'

theorem Tidy.nil : Tidy [] := nofun

theorem Tidy.cons {c : Char} {cs : List Char} (hc : isLegal c = true ∧ c ≠ '\r') (h : Tidy cs) :
    Tidy (c :: cs) := List.forall_mem_cons.2 ⟨hc, h⟩

theorem Tidy.append {cs ds : List Char} (hc : Tidy cs) (hd : Tidy ds) : Tidy (cs ++ ds) :=
  List.forall_mem_append.2 ⟨hc, hd⟩

theorem Tidy.flatMap {α : Type} {f : α → List Char} {l : List α} (h : ∀ a ∈ l, Tidy (f a)) :
    Tidy (l.flatMap f) := by
  intro c hc
  obtain ⟨a, ha, hca⟩ := List.mem_flatMap.1 hc
  exact h a ha c hca

instance (cs : List Char) : Decidable (Tidy cs) := List.decidableBAll _ cs

theorem Tidy.lineEnds {cs : List Char} (h : Tidy cs) : lineEnds cs = cs := by
  induction cs with
  | nil => rfl
  | cons c cs ih =>
    have hc : c ≠ '\r' := (h c List.mem_cons_self).2
    rw [Markup.lineEnds.eq_3 _ _ (fun _ he _ => hc he) hc, ih fun d hd => h d (.tail _ hd)]

theorem tidy_of_isNameChar {c : Char} (h : isNameChar c = true) :
    isLegal c = true ∧ c ≠ '\r' := by
  refine ⟨?_, by rintro rfl; revert h; decide⟩
  simp only [isNameChar, isNameStart, isLegal, within, List.any_cons, List.any_nil, Bool.or_false,
    Bool.or_eq_true, Bool.and_eq_true, decide_eq_true_eq] at h ⊢
  omega

theorem isNameChar_of_isNameStart {c : Char} (h : isNameStart c = true) : isNameChar c = true := by
  simp [isNameChar, h]

/-- A name has a first character, and none of its characters ends it. -/
theorem exists_of_isName {cs : List Char} (h : isName cs = true) : ∃ c ds, cs = c :: ds ∧
    isNameStart c = true ∧ isNameChar c = true ∧ ∀ d ∈ ds, isNameChar d = true := by
  cases cs with
  | nil => cases h
  | cons c ds =>
    rw [isName, Bool.and_eq_true, List.all_eq_true] at h
    exact ⟨c, ds, rfl, h.1, isNameChar_of_isNameStart h.1, h.2⟩

theorem ne_of_isNameChar {c d : Char} (h : isNameChar c = true) (hd : isNameChar d = false) :
    c ≠ d := by
  rintro rfl
  rw [h] at hd
  cases hd

theorem isBlank_of_isNameChar {c : Char} (h : isNameChar c = true) : isBlank c = false := by
  simp [isBlank, ne_of_isNameChar h (d := ' ') (by decide),
    ne_of_isNameChar h (d := '\t') (by decide), ne_of_isNameChar h (d := '\n') (by decide),
    ne_of_isNameChar h (d := '\r') (by decide)]

theorem tidy_of_isName {cs : List Char} (h : isName cs = true) : Tidy cs := by
  obtain ⟨c, ds, rfl, -, hc, hds⟩ := exists_of_isName h
  exact .cons (tidy_of_isNameChar hc) fun d hd => tidy_of_isNameChar (hds d hd)

/-! ## Attributes -/

/-- In a value between the quotes `q`, the text `cs` is taken for the character `c`. -/
structure Escapes (q c : Char) (cs : List Char) : Prop where
  tidy : isLegal c = true → Tidy cs
  feed : ∀ (tag : Tag) (key : String) (word : List Char) (outer : List (Tag × List Node))
    (content : List Node), Reader.feed ⟨.value tag key q word, outer, content⟩ cs =
      some ⟨.value tag key q (word ++ [c]), outer, content⟩

/-- The quote that a value stands between is the only character that `Xml.escape` misses. -/
theorem escapes_escape {q c : Char} (hq : q = '"' ∨ q = '\'') (hc : c ≠ q) :
    Escapes q c (Xml.escape c).toList := by
  unfold Xml.escape
  split_ifs with hamp hgt hlt hn hr ht
  case neg =>
    refine ⟨fun h => by simpa [Tidy] using ⟨h, hr⟩, fun tag key word outer content => ?_⟩
    have hblank : (if isBlank c then ' ' else c) = c := by
      by_cases hc : c = ' ' <;> simp [isBlank, hn, hr, ht, hc]
    simp [Reader.feed_cons, Reader.next, Reader.inValue, hc, hamp, hlt, hblank]
  all_goals
    subst c
    refine ⟨fun _ => by decide, fun tag key word outer content => ?_⟩
    rcases hq with rfl | rfl <;> rfl

theorem escapes_quot (c : Char) :
    Escapes '"' c (if c = '"' then "&quot;" else Xml.escape c).toList := by
  split
  · next h =>
    subst h
    exact ⟨fun _ => by decide, fun _ _ _ _ _ => rfl⟩
  · next h => exact escapes_escape (.inl rfl) h

/-- A value between quotes is escaped character by character, each with respect to them. -/
theorem exists_quote (s : String) : ∃ q, (q = '"' ∨ q = '\'') ∧ ∃ f : Char → List Char,
    (Xml.quote s).toList = q :: (s.toList.flatMap f ++ [q]) ∧
      ∀ c ∈ s.toList, Escapes q c (f c) := by
  unfold Xml.quote
  dsimp only
  split_ifs with hdouble hsingle
  · refine ⟨'"', .inl rfl, fun c => (Xml.escape c).toList, by simp [List.flatMap_map], ?_⟩
    rintro c hc
    exact escapes_escape (.inl rfl) (by rintro rfl; simp [hc] at hdouble)
  · refine ⟨'\'', .inr rfl, fun c => (Xml.escape c).toList, by simp [List.flatMap_map], ?_⟩
    rintro c hc
    exact escapes_escape (.inr rfl) (by rintro rfl; simp [hc] at hsingle)
  · exact ⟨'"', .inl rfl, _, by simp [List.flatMap_map], fun c _ => escapes_quot c⟩

theorem tidy_quote {s : String} (h : Legal s) : Tidy (Xml.quote s).toList := by
  obtain ⟨q, hq, f, hs, hf⟩ := exists_quote s
  have hquote : isLegal q = true ∧ q ≠ '\r' := by rcases hq with rfl | rfl <;> decide
  rw [hs]
  exact .cons hquote
    ((Tidy.flatMap fun c hc => (hf c hc).tidy (h c hc)).append (.cons hquote .nil))

namespace Reader

variable {outer : List (Tag × List Node)} {content : List Node}

/-- Characters that are collected one by one are collected together. -/
theorem feed_collecting {mode : List Char → Mode} {f : Char → List Char} {cs : List Char}
    (h : ∀ c ∈ cs, ∀ word, feed ⟨mode word, outer, content⟩ (f c) =
      some ⟨mode (word ++ [c]), outer, content⟩) (word : List Char) :
    feed ⟨mode word, outer, content⟩ (cs.flatMap f) =
      some ⟨mode (word ++ cs), outer, content⟩ := by
  induction cs generalizing word with
  | nil => simp
  | cons c cs ih =>
    rw [List.flatMap_cons, feed_trans (h c List.mem_cons_self word),
      ih fun d hd => h d (.tail _ hd), List.append_assoc, List.singleton_append]

/-- So are the characters of a name, in whatever tag it is. -/
theorem feed_word {mode : List Char → Mode} {cs : List Char}
    (hmode : ∀ word c, isNameChar c = true → next ⟨mode word, outer, content⟩ c =
      some ⟨mode (word ++ [c]), outer, content⟩)
    (h : ∀ c ∈ cs, isNameChar c = true) (word : List Char) :
    feed ⟨mode word, outer, content⟩ cs = some ⟨mode (word ++ cs), outer, content⟩ := by
  have hcollect : feed ⟨mode word, outer, content⟩ (cs.flatMap fun c => [c]) =
      some ⟨mode (word ++ cs), outer, content⟩ :=
    feed_collecting (fun c hc word => by rw [feed_next (hmode word c (h c hc)), feed_nil]) word
  rwa [List.flatMap_singleton'] at hcollect

theorem feed_quote {tag tag' : Tag} {key s : String} (h : tag.add? key s = some tag') :
    feed ⟨.equals tag key, outer, content⟩ (Xml.quote s).toList =
      some ⟨.inTag tag' false, outer, content⟩ := by
  obtain ⟨q, hq, f, hs, hf⟩ := exists_quote s
  have hopen : next ⟨.equals tag key, outer, content⟩ q =
      some ⟨.value tag key q [], outer, content⟩ := by
    rcases hq with rfl | rfl <;> rfl
  rw [hs, feed_next hopen, feed_trans (feed_collecting (fun c hc word => (hf c hc).feed ..) _)]
  simp [feed_cons, next, inValue, h]

/-- An attribute with a key that the tag does not have yet. -/
theorem feed_attr {tag : Tag} {key value : String} (hkey : isName key.toList = true)
    (hnew : key ∉ tag.attributes.map (·.1)) :
    feed ⟨.inTag tag false, outer, content⟩ (Xml.attr key value).toList =
      some ⟨.inTag { tag with attributes := tag.attributes ++ [(key, value)] } false, outer,
        content⟩ := by
  obtain ⟨c, cs, hk, hstart, hc, hcs⟩ := exists_of_isName hkey
  have hfirst : next ⟨.inTag tag true, outer, content⟩ c =
      some ⟨.key tag [c], outer, content⟩ := by
    simp [next, inTag, isBlank_of_isNameChar hc, hstart,
      ne_of_isNameChar hc (d := '>') (by decide), ne_of_isNameChar hc (d := '/') (by decide)]
  have hrest : feed ⟨.key tag [c], outer, content⟩ cs =
      some ⟨.key tag key.toList, outer, content⟩ := by
    rw [feed_word (fun word d hd => by simp [next, hd]) hcs, hk, List.singleton_append]
  have hequals : next ⟨.key tag key.toList, outer, content⟩ '=' =
      some ⟨.equals tag key, outer, content⟩ := by
    rw [← String.ofList_toList (s := key), String.toList_ofList]
    rfl
  have htext : (Xml.attr key value).toList =
      ' ' :: c :: (cs ++ '=' :: (Xml.quote value).toList) := by simp [Xml.attr, hk]
  have hgap : next ⟨.inTag tag false, outer, content⟩ ' ' =
      some ⟨.inTag tag true, outer, content⟩ := rfl
  rw [htext, feed_next hgap, feed_next hfirst, feed_trans hrest, feed_next hequals]
  exact feed_quote (by rw [Tag.add?, if_neg hnew])

end Reader

/-! ## Tags -/

def attributes (kvs : List (String × String)) : String :=
  String.join (kvs.map fun (key, value) => Xml.attr key value)

/-- Attributes that an element can have. -/
structure Fit (kvs : List (String × String)) : Prop where
  names : ∀ key ∈ kvs.map (·.1), isName key.toList = true
  distinct : (kvs.map (·.1)).Nodup
  legal : ∀ value ∈ kvs.map (·.2), Legal value

theorem tidy_attr {key value : String} (hkey : isName key.toList = true) (h : Legal value) :
    Tidy (Xml.attr key value).toList := by
  have htext : (Xml.attr key value).toList =
      ' ' :: (key.toList ++ '=' :: (Xml.quote value).toList) := by simp [Xml.attr]
  rw [htext]
  exact .cons (by decide) ((tidy_of_isName hkey).append (.cons (by decide) (tidy_quote h)))

theorem Fit.tidy {kvs : List (String × String)} (h : Fit kvs) : Tidy (attributes kvs).toList := by
  rw [attributes, String.toList_join, List.flatMap_map]
  exact .flatMap fun kv hkv => tidy_attr (h.names _ (List.mem_map_of_mem hkv))
    (h.legal _ (List.mem_map_of_mem hkv))

namespace Reader

variable {outer : List (Tag × List Node)} {content : List Node} {name : String}
  {kvs : List (String × String)}

theorem feed_attributes {before : List (String × String)}
    (hnames : ∀ key ∈ kvs.map (·.1), isName key.toList = true)
    (hdistinct : ((before ++ kvs).map (·.1)).Nodup) :
    feed ⟨.inTag ⟨name, before⟩ false, outer, content⟩ (attributes kvs).toList =
      some ⟨.inTag ⟨name, before ++ kvs⟩ false, outer, content⟩ := by
  induction kvs generalizing before with
  | nil => simp [attributes]
  | cons kv kvs ih =>
    obtain ⟨key, value⟩ := kv
    have hnew : key ∉ before.map (·.1) := by
      rw [List.map_append, List.nodup_append] at hdistinct
      exact fun hmem => hdistinct.2.2 key hmem key (by simp) rfl
    have htext : (attributes ((key, value) :: kvs)).toList =
        (Xml.attr key value).toList ++ (attributes kvs).toList := by simp [attributes]
    rw [htext, feed_trans (feed_attr (hnames key (by simp)) hnew),
      ih (fun k hk => hnames k (.tail _ hk)) (by simpa using hdistinct), List.append_assoc,
      List.singleton_append]

/-- The beginning of a tag, up to the character that ends it. -/
theorem feed_tag (hname : isName name.toList = true) (h : Fit kvs) {c : Char}
    (hc : isNameChar c = false) (cs : List Char) (brackets : Nat) :
    feed ⟨.text brackets, outer, content⟩
        ('<' :: (name.toList ++ ((attributes kvs).toList ++ c :: cs))) =
      feed ⟨.inTag ⟨name, kvs⟩ false, outer, content⟩ (c :: cs) := by
  obtain ⟨n, ns, hn, hstart, hnc, hns⟩ := exists_of_isName hname
  have hopen : next ⟨.text brackets, outer, content⟩ '<' = some ⟨.opened, outer, content⟩ := rfl
  have hfirst : next ⟨.opened, outer, content⟩ n = some ⟨.name [n], outer, content⟩ := by
    simp [next, hstart, ne_of_isNameChar hnc (d := '/') (by decide)]
  have hrest : feed ⟨.name [n], outer, content⟩ ns =
      some ⟨.name name.toList, outer, content⟩ := by
    rw [feed_word (fun word d hd => by simp [next, hd]) hns, hn, List.singleton_append]
  obtain ⟨d, ds, hd, hend⟩ : ∃ d ds, (attributes kvs).toList ++ c :: cs = d :: ds ∧
      isNameChar d = false := by
    cases kvs with
    | nil => exact ⟨c, cs, by simp [attributes], hc⟩
    | cons kv kvs => exact ⟨' ', _, by simp [attributes, Xml.attr]; rfl, by decide⟩
  -- The character that ends the name is read as one between the attributes.
  have hname : feed ⟨.name name.toList, outer, content⟩ (d :: ds) =
      feed ⟨.inTag ⟨name, []⟩ false, outer, content⟩ (d :: ds) := by
    simp only [feed_cons, next, hend, Bool.false_eq_true, if_false, String.ofList_toList]
    rfl
  rw [feed_next hopen, hn, List.cons_append, feed_next hfirst, feed_trans hrest, hd, hname, ← hd,
    feed_trans (feed_attributes h.names (by simpa using h.distinct)), List.nil_append]

theorem feed_end {before : List Node} (hname : isName name.toList = true) (brackets : Nat) :
    feed ⟨.text brackets, (⟨name, kvs⟩, before) :: outer, content⟩ ("</" ++ name ++ ">").toList =
      some ⟨.text 0, outer, before ++ [.element name kvs content]⟩ := by
  obtain ⟨n, ns, hn, -, hnc, hns⟩ := exists_of_isName hname
  have htext : ("</" ++ name ++ ">").toList = '<' :: '/' :: (name.toList ++ ['>']) := by simp
  have hopen : next ⟨.text brackets, (⟨name, kvs⟩, before) :: outer, content⟩ '<' =
      some ⟨.opened, (⟨name, kvs⟩, before) :: outer, content⟩ := rfl
  have hslash : next ⟨.opened, (⟨name, kvs⟩, before) :: outer, content⟩ '/' =
      some ⟨.ending [], (⟨name, kvs⟩, before) :: outer, content⟩ := rfl
  have hword : feed ⟨.ending [], (⟨name, kvs⟩, before) :: outer, content⟩ name.toList =
      some ⟨.ending name.toList, (⟨name, kvs⟩, before) :: outer, content⟩ := by
    rw [feed_word (fun word d hd => by simp [next, hd]) (by simpa [hn] using ⟨hnc, hns⟩),
      List.nil_append]
  have hclose : next ⟨.ending name.toList, (⟨name, kvs⟩, before) :: outer, content⟩ '>' =
      some ⟨.text 0, outer, before ++ [.element name kvs content]⟩ := by
    have h : isNameChar '>' = false := by decide
    have h' : isBlank '>' = false := by decide
    simp [next, atEnd, h, h']
  rw [htext, feed_next hopen, feed_next hslash, feed_trans hword, feed_next hclose, feed_nil]

end Reader

/-! ## Content -/

/-- Between tags the text `s` is read as `ns`, whatever stands before it. -/
structure Reads (s : String) (ns : List Node) : Prop where
  tidy : Tidy s.toList
  feed : ∀ outer content,
    Reader.feed ⟨.text 0, outer, content⟩ s.toList = some ⟨.text 0, outer, content ++ ns⟩

namespace Reads

theorem append {s t : String} {ns ms : List Node} (hs : Reads s ns) (ht : Reads t ms) :
    Reads (s ++ t) (ns ++ ms) where
  tidy := by
    rw [String.toList_append]
    exact hs.tidy.append ht.tidy
  feed outer content := by
    rw [String.toList_append, Reader.feed_trans (hs.feed outer content), ht.feed,
      List.append_assoc]

/-- White space is kept as it is. -/
theorem blank {s : String} (h : ∀ c ∈ s.toList, c = ' ' ∨ c = '\n') :
    Reads s (s.toList.map .character) where
  tidy c hc := by rcases h c hc with rfl | rfl <;> decide
  feed outer content := by
    generalize s.toList = cs at h
    induction cs generalizing content with
    | nil => simp
    | cons c cs ih =>
      have hnext : Reader.next ⟨.text 0, outer, content⟩ c =
          some ⟨.text 0, outer, content ++ [.character c]⟩ := by
        rcases h c List.mem_cons_self with rfl | rfl <;> rfl
      rw [Reader.feed_next hnext, ih _ fun d hd => h d (.tail _ hd)]
      simp

variable {name : String} {kvs : List (String × String)}

theorem empty (hname : isName name.toList = true) (h : Fit kvs) :
    Reads ("<" ++ name ++ attributes kvs ++ "/>") [.element name kvs []] where
  tidy := by
    simp only [String.toList_append]
    exact ((Tidy.append (by decide) (tidy_of_isName hname)).append h.tidy).append (by decide)
  feed outer content := by
    have htext : ("<" ++ name ++ attributes kvs ++ "/>").toList =
        '<' :: (name.toList ++ ((attributes kvs).toList ++ '/' :: ['>'])) := by simp
    rw [htext, Reader.feed_tag hname h (by decide)]
    rfl

theorem element {s : String} {ns : List Node} (hname : isName name.toList = true) (h : Fit kvs)
    (hs : Reads s ns) :
    Reads ("<" ++ name ++ attributes kvs ++ ">" ++ s ++ ("</" ++ name ++ ">"))
      [.element name kvs ns] where
  tidy := by
    have ht := tidy_of_isName hname
    simp only [String.toList_append]
    exact ((((Tidy.append (by decide) ht).append h.tidy).append (by decide)).append hs.tidy).append
      ((Tidy.append (by decide) ht).append (by decide))
  feed outer content := by
    have htext : ("<" ++ name ++ attributes kvs ++ ">" ++ s ++ ("</" ++ name ++ ">")).toList =
        '<' :: (name.toList ++ ((attributes kvs).toList ++
          '>' :: (s.toList ++ ("</" ++ name ++ ">").toList))) := by simp
    have hstart : Reader.next ⟨.inTag ⟨name, kvs⟩ false, outer, content⟩ '>' =
        some ⟨.text 0, (⟨name, kvs⟩, content) :: outer, []⟩ := rfl
    rw [htext, Reader.feed_tag hname h (by decide), Reader.feed_next hstart,
      Reader.feed_trans (hs.feed _ _), Reader.feed_end hname, List.nil_append]

/-- After a declaration, a document is read as its outermost element. -/
theorem read? {s : String} {ns : List Node} (h : Reads s ns) :
    read? ("<?xml version=\"1.0\" encoding=\"UTF-8\"?>\n" ++ s) = outermost? ns := by
  have htidy : Tidy ("<?xml version=\"1.0\" encoding=\"UTF-8\"?>\n" ++ s).toList := by
    rw [String.toList_append]
    exact Tidy.append (by decide) h.tidy
  have hbody : body? ("<?xml version=\"1.0\" encoding=\"UTF-8\"?>\n" ++ s).toList =
      some ('\n' :: s.toList) := by
    rw [String.toList_append]
    rfl
  have hlegal := List.all_eq_true.2 fun c hc => (htidy c hc).1
  have hnewline : Reader.next {} '\n' = some ⟨.text 0, [], [.character '\n']⟩ := rfl
  have hread : Reader.feed {} ('\n' :: s.toList) =
      some ⟨.text 0, [], .character '\n' :: ns⟩ := by
    rw [Reader.feed_next hnewline, h.feed, List.singleton_append]
  have houtermost : outermost? (.character '\n' :: ns) = outermost? ns := rfl
  unfold Markup.read?
  generalize ("<?xml version=\"1.0\" encoding=\"UTF-8\"?>\n" ++ s).toList = cs at *
  simp only [htidy.lineEnds, hlegal, hbody, hread, houtermost, guard, if_true, List.isEmpty_nil,
    Option.bind_eq_bind, Option.bind_some, Option.pure_def]

end Reads

/-! ## Lines -/

/-- White space. -/
def blank (s : String) : List Node := s.toList.map .character

/-- An element on a line of its own. -/
def line (indent : String) (n : Node) : List Node := blank indent ++ [n] ++ blank "\n"

/-- The content of an element: other elements, each on a line of its own. -/
def lines (indent inner : String) (ns : List Node) : List Node :=
  blank "\n" ++ ns.flatMap (line inner) ++ blank indent

/-- A margin is made of spaces. -/
def Margin (indent : String) : Prop := ∀ c ∈ indent.toList, c = ' '

variable {indent inner name : String} {kvs : List (String × String)} {ns : List Node}

theorem Reads.nil : Reads "" [] := .blank (by simp)

theorem Margin.reads (h : Margin indent) : Reads indent (blank indent) :=
  .blank fun c hc => .inl (h c hc)

theorem reads_newline : Reads "\n" (blank "\n") := .blank (by simp)

theorem margin_two : Margin "  " := by simp [Margin]

theorem margin_four : Margin "    " := by simp [Margin]

theorem Margin.filter_blank (h : Margin indent) : (blank indent).filter (!·.isBlank) = [] := by
  refine List.filter_eq_nil_iff.2 fun n hn => ?_
  obtain ⟨c, hc, rfl⟩ := List.mem_map.1 hn
  rw [h c hc]
  decide

theorem Reads.emptyLine (indent name : String) (hindent : Margin indent)
    (hname : isName name.toList = true) (h : Fit kvs) :
    Reads (indent ++ "<" ++ name ++ attributes kvs ++ "/>\n")
      (line indent (.element name kvs [])) := by
  have htext : indent ++ "<" ++ name ++ attributes kvs ++ "/>\n" =
      indent ++ ("<" ++ name ++ attributes kvs ++ "/>") ++ "\n" := String.toList_inj.1 (by simp)
  rw [htext]
  exact (hindent.reads.append (.empty hname h)).append reads_newline

theorem Reads.lines {text : String} (hindent : Margin indent) (hname : isName name.toList = true)
    (h : Fit kvs) (hs : Reads text (ns.flatMap (line inner))) :
    Reads (indent ++ "<" ++ name ++ attributes kvs ++ ">\n" ++ text ++ indent ++ "</" ++ name ++
      ">\n") (line indent (.element name kvs (lines indent inner ns))) := by
  have htext : indent ++ "<" ++ name ++ attributes kvs ++ ">\n" ++ text ++ indent ++ "</" ++
      name ++ ">\n" = indent ++ ("<" ++ name ++ attributes kvs ++ ">" ++
        ("\n" ++ text ++ indent) ++ ("</" ++ name ++ ">")) ++ "\n" :=
    String.toList_inj.1 (by simp)
  rw [htext]
  exact (hindent.reads.append
    (.element hname h ((reads_newline.append hs).append hindent.reads))).append reads_newline

/-- The lines of an element are its children. -/
theorem children_lines (hindent : Margin indent) (hinner : Margin inner)
    (h : ∀ n ∈ ns, n.isBlank = false) :
    (Node.element name kvs (lines indent inner ns)).children = ns := by
  have hnewline : (blank "\n").filter (!·.isBlank) = [] := by decide
  have hns : (ns.flatMap (line inner)).filter (!·.isBlank) = ns := by
    induction ns with
    | nil => rfl
    | cons n ns ih =>
      rw [List.flatMap_cons, List.filter_append, ih fun m hm => h m (.tail _ hm)]
      simp [line, hinner.filter_blank, hnewline, h n List.mem_cons_self]
  simp [Node.children, lines, List.filter_append, hnewline, hns, hindent.filter_blank]

end RankRunner.Markup
