import DocComment.Proofs.Source.Located
import DocComment.Source.Splice

/-!
# Source texts with new comments

New comments are put into a source text by replacing regions of it, one for each entry and each by
its own rule: a comment that is replaced is the region, and one that is removed takes its
indentation and the rest of its line with it. The regions follow each other, and all text between
them is kept (`Rewritten`, `exists_rewritten_replaceDocs`).
-/

namespace DocComment

open Text

/-! ### Checked slices -/

/-- The text that `splice` gives, if all slices for it are there: none ends in front of its start or
beyond the text, and none cuts a character. -/
def splice? (source : Text) (cursor : Nat) : List Replacement → Option Text
  | [] => slice? cursor (byteSize source) source
  | r :: rs => do
    let before ← slice? cursor r.start source
    let after ← splice? source r.stop rs
    return before ++ r.text ++ after

section

variable {source t : Text} {cursor : Nat} {r : Replacement} {rs : List Replacement}

lemma splice?_cons {u v : Text} (hu : slice? cursor r.start source = some u)
    (hv : splice? source r.stop rs = some v) :
    splice? source cursor (r :: rs) = some (u ++ r.text ++ v) := by
  rw [splice?, hu, Option.bind_eq_bind, Option.bind_some, hv]
  rfl

lemma exists_of_splice?_cons (h : splice? source cursor (r :: rs) = some t) : ∃ u v : Text,
    slice? cursor r.start source = some u ∧ splice? source r.stop rs = some v ∧
      t = u ++ r.text ++ v := by
  rw [splice?] at h
  obtain ⟨u, hu, h⟩ := Option.bind_eq_some_iff.1 h
  obtain ⟨v, hv, h⟩ := Option.bind_eq_some_iff.1 h
  exact ⟨u, v, hu, hv, (Option.some.inj h).symm⟩

lemma splice_eq_of_splice? (h : splice? source cursor rs = some t) :
    splice source cursor rs = t := by
  induction rs generalizing cursor t with
  | nil =>
    obtain ⟨l, r, hs, rfl, hsize⟩ := slice?_eq_some_iff.1 h
    obtain rfl : r = [] := by
      rw [hs, byteSize_append _ r] at hsize
      exact byteSize_eq_zero.1 (by omega)
    rw [splice, hs, List.append_nil]
    exact dropBytes_byteSize_append l t
  | cons r rs ih =>
    obtain ⟨u, v, hu, hv, rfl⟩ := exists_of_splice?_cons h
    rw [splice, slice_eq_of_slice? hu, ih hv]

/-- Text in front of the first replacement is kept. -/
lemma splice?_prepend {p q s : Text} (h : splice? (p ++ q ++ s) (byteSize (p ++ q)) rs = some t) :
    splice? (p ++ q ++ s) (byteSize p) rs = some (q ++ t) := by
  cases rs with
  | nil => exact slice?_prepend h
  | cons r rs =>
    obtain ⟨u, v, hu, hv, rfl⟩ := exists_of_splice?_cons h
    rw [splice?_cons (slice?_prepend hu) hv]
    simp

end

/-! ### Regions -/

/-- What is removed behind a comment, in front of `s`: the rest of its line, if that is white space
with a line feed behind it, and otherwise nothing. -/
inductive LineRest : (rest s : Text) → Prop where
  | blank {between : Text} (s : Text) (hspace : ∀ c ∈ between, isWhiteSpace c)
    (hline : '\n' ∉ between) : LineRest (between ++ ['\n']) s
  | used {s : Text} (hused : ∀ between rest : Text, s = between ++ '\n' :: rest →
    ∃ c ∈ between, isWhiteSpace c = false) : LineRest [] s

/-- A text with `before` in front of it, and the text in which its entries have new comments. The
regions that are replaced follow each other, and what is between them stands in both texts. -/
inductive Rewritten : (before : Text) → List (SourceEntry × Option Text) → (old new : Text) → Prop
  where
  | nil (before s : Text) : Rewritten before [] s s
  /-- One comment takes the place of another. One that is put back as it was changes nothing. -/
  | replaced {before gap block doc s s' : Text} {e : SourceEntry}
    {es : List (SourceEntry × Option Text)} (hstart : e.start = byteSize (before ++ gap))
    (hstop : e.stop = byteSize (before ++ gap ++ block))
    (h : Rewritten (before ++ gap ++ block) es s s') :
    Rewritten before ((e, some doc) :: es) (gap ++ block ++ s) (gap ++ doc ++ s')
  /-- A comment is removed from the start of its line on, with the rest of its line. -/
  | removed {before gap block rest s s' : Text} {e : SourceEntry}
    {es : List (SourceEntry × Option Text)} (hline : EndsLine (before ++ gap))
    (hindentation : ∀ c ∈ e.indentation, isBlank c)
    (hstart : e.start = byteSize (before ++ gap ++ e.indentation))
    (hstop : e.stop = byteSize (before ++ gap ++ e.indentation ++ block)) (hrest : LineRest rest s)
    (h : Rewritten (before ++ gap ++ e.indentation ++ block ++ rest) es s s') :
    Rewritten before ((e, none) :: es) (gap ++ (e.indentation ++ block ++ rest) ++ s) (gap ++ s')

namespace SourceFile

variable {f : SourceFile} {e : SourceEntry} {front s : Text}

/-- The lines of a comment end with the rest of its line. -/
lemma exists_lineRest (hsource : f.source = front ++ s) (hstop : e.stop = byteSize front) :
    ∃ rest s' : Text, s = rest ++ s' ∧ LineRest rest s' ∧
      f.linesEnd e = byteSize (front ++ rest) := by
  have hdrop : dropBytes e.stop f.source = s := by
    rw [hsource, hstop, dropBytes_byteSize_append]
  rw [linesEnd, hdrop]
  cases hcut : cutAt? ['\n'] s with
  | none =>
    refine ⟨[], s, rfl, .used fun between rest hs => ?_, ?_⟩
    · exact absurd ⟨between, rest, by simp [hs]⟩ (not_isInfix_of_cutAt? hcut)
    · rw [List.append_nil, hstop]
  | some p =>
    obtain ⟨between, s'⟩ := p
    have hs : s = between ++ (['\n'] ++ s') := cutAt?_eq_some hcut
    have hline := not_mem_of_cutAt? hcut
    dsimp only
    split_ifs with htrim
    · refine ⟨between ++ ['\n'], s', by simp [hs], .blank s' (trim_eq_nil_iff.1 htrim) hline, ?_⟩
      have hsize : '\n'.utf8Size = 1 := rfl
      simp only [byteSize_append, byteSize_cons, byteSize_nil, hsize, hstop]
      omega
    · refine ⟨[], s, rfl, .used fun between' rest hs' => ?_, ?_⟩
      · obtain ⟨c, hc, hwhite⟩ : ∃ c ∈ between, isWhiteSpace c = false := by
          simpa [trim_eq_nil_iff] using htrim
        obtain ⟨m, hm, -⟩ := exists_append_of_not_mem hline (hs.symm.trans hs')
        have hmem : c ∈ between' ++ ['\n'] := by
          rw [hm]
          simp [hc]
        rcases List.mem_append.1 hmem with hmem | hmem
        · exact ⟨c, hmem, hwhite⟩
        · rw [List.mem_singleton.1 hmem] at hwhite
          cases hwhite
      · rw [List.append_nil, hstop]

end SourceFile

/-- The rest of a line does not reach into the next entry. -/
lemma Located.drop_lineRest {before rest s : Text} {es : List SourceEntry}
    (h : Located before es (rest ++ s)) (hbefore : before.getLast? = some '/')
    (hrest : LineRest rest s) : Located (before ++ rest) es s := by
  cases hrest with
  | @blank between _ _ hline =>
    rw [← List.append_assoc]
    apply Located.drop_line _ hbefore hline
    simpa using h
  | used => simpa using h

/-! ### Replacing -/

namespace SourceFile

/-- The replacements that put new comments in the places of the entries. -/
def replacements (f : SourceFile) (es : List (SourceEntry × Option Text)) : List Replacement :=
  es.filterMap fun (e, doc?) => f.replacement? e doc?

lemma replacements_cons_some {f : SourceFile} {es : List (SourceEntry × Option Text)}
    {e : SourceEntry} {doc? : Option Text} {r : Replacement} (h : f.replacement? e doc? = some r) :
    f.replacements ((e, doc?) :: es) = r :: f.replacements es :=
  List.filterMap_cons_some h

lemma replacements_cons_none {f : SourceFile} {es : List (SourceEntry × Option Text)}
    {e : SourceEntry} {doc? : Option Text} (h : f.replacement? e doc? = none) :
    f.replacements ((e, doc?) :: es) = f.replacements es :=
  List.filterMap_cons_none h

lemma blockText_eq {f : SourceFile} {e : SourceEntry} {front block s : Text}
    (hsource : f.source = front ++ block ++ s) (hstart : e.start = byteSize front)
    (hstop : e.stop = byteSize (front ++ block)) : f.blockText e = block := by
  rw [blockText, hsource, hstart, hstop, byteSize_append]
  exact slice_append front block s

/-- A comment that is replaced is left out of the text that is kept, and one that is put back as it
was is kept with what is in front of it. -/
lemma splice?_replaced {f : SourceFile} {es : List (SourceEntry × Option Text)} {e : SourceEntry}
    {before gap block doc s text : Text} (hsource : f.source = before ++ gap ++ block ++ s)
    (hstart : e.start = byteSize (before ++ gap))
    (hstop : e.stop = byteSize (before ++ gap ++ block))
    (h : splice? f.source (byteSize (before ++ gap ++ block)) (f.replacements es) = some text) :
    splice? f.source (byteSize before) (f.replacements ((e, some doc) :: es)) =
      some (gap ++ doc ++ text) := by
  have hblock := blockText_eq hsource hstart hstop
  by_cases hdoc : doc = block
  · subst hdoc
    have hnone : f.replacement? e (some doc) = none := by
      rw [replacement?, hblock, if_pos rfl]
    rw [replacements_cons_none hnone]
    rw [hsource] at h ⊢
    have hprepend := splice?_prepend (p := before) (q := gap ++ doc) (s := s) (by simpa using h)
    simpa using hprepend
  · have hsome : f.replacement? e (some doc) = some ⟨e.start, e.stop, doc⟩ := by
      rw [replacement?, hblock, if_neg hdoc]
    rw [replacements_cons_some hsome]
    apply splice?_cons
    · rw [hsource]
      exact slice?_eq_some_iff.2 ⟨before, block ++ s, by simp, rfl, hstart⟩
    · rwa [hstop]

/-- The lines of a comment that is removed are left out. -/
lemma splice?_removed {f : SourceFile} {es : List (SourceEntry × Option Text)} {e : SourceEntry}
    {before gap block rest s text : Text}
    (hsource : f.source = before ++ gap ++ e.indentation ++ block ++ rest ++ s)
    (hstart : e.start = byteSize (before ++ gap ++ e.indentation))
    (hend : f.linesEnd e = byteSize (before ++ gap ++ e.indentation ++ block ++ rest))
    (h : splice? f.source (byteSize (before ++ gap ++ e.indentation ++ block ++ rest))
      (f.replacements es) = some text) :
    splice? f.source (byteSize before) (f.replacements ((e, none) :: es)) = some (gap ++ text) := by
  have hline : e.start - byteSize e.indentation = byteSize (before ++ gap) := by
    rw [hstart, byteSize_append, Nat.add_sub_cancel]
  have hsome : f.replacement? e none =
      some ⟨byteSize (before ++ gap), f.linesEnd e, []⟩ := by
    rw [replacement?, hline]
  have hgap : slice? (byteSize before) (byteSize (before ++ gap)) f.source = some gap := by
    rw [hsource]
    exact slice?_eq_some_iff.2 ⟨before, e.indentation ++ block ++ rest ++ s, by simp, rfl, rfl⟩
  have hcons := splice?_cons (r := ⟨_, f.linesEnd e, []⟩) hgap (by rwa [hend])
  rw [replacements_cons_some hsome, hcons, List.append_nil]

end SourceFile

/-- The entries of a text get new comments, whatever they are. -/
lemma Located.exists_rewritten {f : SourceFile} {before s : Text} {es : List SourceEntry}
    {docs : List (Option Text)} (h : Located before es s) (hsource : f.source = before ++ s)
    (hlen : docs.length = es.length) : ∃ text, Rewritten before (es.zip docs) s text ∧
      splice? f.source (byteSize before) (f.replacements (es.zip docs)) = some text := by
  -- With each entry the text in front grows up to where the cursor of the splice is set, which for
  -- a comment that is removed lies behind its line and may not have passed the next entry.
  induction es generalizing before s docs with
  | nil =>
    refine ⟨s, .nil before s, ?_⟩
    rw [hsource]
    exact slice?_eq_some_iff.2 ⟨before, [], by simp, rfl, rfl⟩
  | cons e es ih =>
    obtain ⟨doc?, docs, rfl⟩ :=
      List.exists_cons_of_length_pos (by rw [hlen]; simp : 0 < docs.length)
    rw [List.length_cons, List.length_cons, Nat.add_right_cancel_iff] at hlen
    cases h with
    | @cons _ gap block s _ _ hline hindentation hstart hstop hblock hes =>
      have hfront : f.source = before ++ gap ++ e.indentation ++ block ++ s := by
        rw [hsource]
        simp
      rw [List.zip_cons_cons]
      cases doc? with
      | some doc =>
        obtain ⟨text, hrewritten, hsplice⟩ := ih hes hfront hlen
        have hgap : before ++ gap ++ e.indentation = before ++ (gap ++ e.indentation) :=
          List.append_assoc _ _ _
        rw [hgap] at hfront hstart hstop hrewritten hsplice
        refine ⟨gap ++ e.indentation ++ doc ++ text, .replaced hstart hstop hrewritten, ?_⟩
        exact SourceFile.splice?_replaced hfront hstart hstop hsplice
      | none =>
        obtain ⟨rest, s, rfl, hrest, hend⟩ := SourceFile.exists_lineRest hfront hstop
        have hlast : (before ++ gap ++ e.indentation ++ block).getLast? = some '/' := by
          rw [List.getLast?_append, hblock, Option.some_or]
        rw [← List.append_assoc] at hfront
        obtain ⟨text, hrewritten, hsplice⟩ := ih (hes.drop_lineRest hlast hrest) hfront hlen
        refine ⟨gap ++ text, ?_, SourceFile.splice?_removed hfront hstart hend hsplice⟩
        have hremoved := Rewritten.removed hline hindentation hstart hstop hrest hrewritten
        simpa using hremoved

namespace SourceFile

/-- New comments can be put into a source text, one for each entry. -/
lemma exists_rewritten_replaceDocs (path : Text) (language : Language) (source : Text)
    {docs : List (Option Text)}
    (hdocs : docs.length = (extract path language source).entries.length) :
    let f := extract path language source
    ∃ text, f.replaceDocs docs = .ok text ∧ Rewritten [] (f.entries.zip docs) source text ∧
      splice? source 0 (f.replacements (f.entries.zip docs)) = some text := by
  intro f
  have hlocated : Located [] f.entries source := located_extract path language source
  obtain ⟨text, hrewritten, hsplice⟩ := hlocated.exists_rewritten (f := f) rfl hdocs
  have htext : splice source 0 (f.replacements (f.entries.zip docs)) = text :=
    splice_eq_of_splice? hsplice
  refine ⟨text, ?_, hrewritten, hsplice⟩
  rw [replaceDocs, if_neg (not_not.2 hdocs), ← htext]
  rfl

/-- The comments of a source text can be replaced and removed as one likes. All slices that are
taken for it are there, and each comment is treated by its own rule. -/
theorem exists_replaceDocs_eq (path : Text) (language : Language) (source : Text)
    (docs : List (Option Text))
    (hdocs : docs.length = (extract path language source).entries.length) :
    let f := extract path language source
    ∃ text, f.replaceDocs docs = .ok text ∧ Rewritten [] (f.entries.zip docs) source text ∧
      splice? source 0 (f.replacements (f.entries.zip docs)) = some text ∧
      ∀ e ∈ f.entries, slice? e.start e.stop source = some (f.blockText e) ∧
        byteSize e.indentation ≤ e.start := by
  intro f
  have hlocated : Located [] f.entries source := located_extract path language source
  obtain ⟨text, htext, hrewritten, hsplice⟩ :=
    exists_rewritten_replaceDocs path language source hdocs
  refine ⟨text, htext, hrewritten, hsplice, fun e he => ?_⟩
  obtain ⟨front, block, after, hsource, hstart, hstop⟩ := hlocated.exists_of_mem he
  have hblock := blockText_eq (f := f) hsource hstart hstop
  rw [hblock]
  constructor
  · exact slice?_eq_some_iff.2 ⟨_, after, hsource, hstart, hstop⟩
  · rw [hstart, byteSize_append]
    exact Nat.le_add_left _ _

/-- The first comment is removed with its line and the second one from the front of its line, the
third one is kept and the last one is replaced. The comment behind code is no entry. -/
theorem exists_replaceDocs_eq_mixed :
    let f := extract [] .rust
      "  /** a */  \nfn a() /** here */\n\t/** b */ fn b()\n/** c */\n/** d */\nfn d()".toList
    let docs := [none, none, some "/** c */".toList, some "/** e */".toList]
    docs.length = f.entries.length ∧
      ∃ text, f.replaceDocs docs = .ok text ∧ Rewritten [] (f.entries.zip docs) f.source text ∧
        text = "fn a() /** here */\n fn b()\n/** c */\n/** e */\nfn d()".toList := by
  intro f docs
  have hdocs : docs.length = f.entries.length := by decide +kernel
  obtain ⟨text, htext, hrewritten, -⟩ := exists_replaceDocs_eq [] .rust f.source docs hdocs
  refine ⟨hdocs, text, htext, hrewritten, ?_⟩
  have hvalue : f.replaceDocs docs =
      .ok "fn a() /** here */\n fn b()\n/** c */\n/** e */\nfn d()".toList := by decide +kernel
  exact Except.ok.inj (htext.symm.trans hvalue)

end SourceFile

end DocComment
