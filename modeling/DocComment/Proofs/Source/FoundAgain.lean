import DocComment.Proofs.Source.Rewritten
import DocComment.Proofs.Source.Uncovered

/-!
# Comments that are found again

A source text with new comments is read like the old one: what is between the comments is the same,
so the same delimiters are met, and each comment stands on its line as the old one did. Only where a
comment was removed and its line goes on does another one start that line now (`Sync`). So in the
place of each entry its new text is found, or what the entry uncovers
(`SourceFile.exists_comments_replaceDocs`).
-/

namespace DocComment

open Text

/-! ### Both texts -/

/-- What the text in front of `s` and the new text for it say of the next comment in `s`. Where a
comment was removed and its line goes on, the next comment may start that line now. -/
inductive Sync : (before before' s : Text) → List (Text × Text) → Prop where
  | line {before before' s : Text} (h : EndsLine before) (h' : EndsLine before') :
    Sync before before' s []
  | comment {before before' s : Text} (h : before.getLast? = some '/')
    (h' : before'.getLast? = some '/') : Sync before before' s []
  | uncovered {before before' s : Text} {part : List (Text × Text)}
    (h : before.getLast? = some '/') (h' : EndsLine before') (hpart : Uncovered s part) :
    Sync before before' s part

namespace Sync

variable {before before' gap block s : Text} {part : List (Text × Text)}

lemma eq_nil_of_not_isInfix (h : Sync before before' s part)
    (hnone : ∀ block, IsComment block → ¬ block <:+: s) : part = [] := by
  cases h with
  | line => rfl
  | comment => rfl
  | uncovered _ _ hpart => exact hpart.eq_nil_of_not_isInfix hnone

/-- Lines that start behind the same text start in both texts. -/
lemma endsLine_append (h : Sync before before' s part) (hline : EndsLine (before ++ gap)) :
    EndsLine (before' ++ gap) := by
  by_cases hgap : gap = []
  · rw [hgap, List.append_nil] at hline ⊢
    cases h with
    | line _ h' => exact h'
    | comment h => cases hline '/' h
    | uncovered h => cases hline '/' h
  · exact hline.of_append.append hgap

/-- Blanks do not reach back over a comment or the start of a line. -/
lemma isBlank_getLast? (h : Sync before before' s part) :
    ∀ c ∈ before.getLast?, isBlank c = false := by
  refine isBlank_of_mem_getLast? ?_
  cases h with
  | line h => exact .inl h
  | comment h => exact .inr h
  | uncovered h => exact .inr h

/-- The next comment stands behind the same text on its line, or behind a comment. -/
lemma lastLine_eq_or (h : Sync before before' (gap ++ block ++ s) part)
    (hfirst : IsFirst gap block s) :
    (lastLine (before' ++ gap) = lastLine (before ++ gap) ∧ part = []) ∨
      ¬ Indented (before ++ gap) ∧
        ∀ cs, foundIn (⟨before' ++ gap, block⟩ :: cs) = part ++ foundIn cs := by
  by_cases hgap : '\n' ∈ gap
  · refine .inl ⟨by rw [lastLine_append_eq (.inr hgap), lastLine_append_eq (.inr hgap)], ?_⟩
    cases h with
    | line => rfl
    | comment => rfl
    | uncovered _ _ hpart => exact hpart.eq_nil_of_newline_mem hfirst hgap
  · cases h with
    | line h h' =>
      exact .inl ⟨by rw [lastLine_append_eq (.inl h), lastLine_append_eq (.inl h')], rfl⟩
    | comment h h' =>
      refine .inr ⟨not_indented h hgap, fun cs => ?_⟩
      exact foundIn_cons_of_not_documents fun hdoc => not_indented h' hgap hdoc.2
    | uncovered h h' hpart =>
      exact .inr ⟨not_indented h hgap, hpart.foundIn_cons hfirst h' hgap⟩

/-- A comment that documents something has its old indentation. -/
lemma lastLine_eq (h : Sync before before' (gap ++ block ++ s) part)
    (hfirst : IsFirst gap block s) (hindented : Indented (before ++ gap)) :
    lastLine (before' ++ gap) = lastLine (before ++ gap) ∧ part = [] :=
  (h.lastLine_eq_or hfirst).resolve_right fun hnot => hnot.1 hindented

/-- A comment that did not document anything is found only if it is uncovered. -/
lemma foundIn_cons (h : Sync before before' (gap ++ block ++ s) part)
    (hfirst : IsFirst gap block s) (hnot : ¬ Comment.Documents ⟨before ++ gap, block⟩)
    (cs : List Comment) : foundIn (⟨before' ++ gap, block⟩ :: cs) = part ++ foundIn cs := by
  rcases h.lastLine_eq_or hfirst with ⟨hlast, rfl⟩ | ⟨-, hfound⟩
  · refine foundIn_cons_of_not_documents fun hdoc => hnot ⟨hdoc.1, ?_⟩
    rw [indented_iff, ← hlast, ← indented_iff]
    exact hdoc.2
  · exact hfound cs

end Sync

namespace LineRest

variable {before before' between rest s : Text}

lemma slash_not_mem (h : LineRest rest s) : '/' ∉ rest := by
  intro hmem
  cases h with
  | @blank between _ hspace =>
    rcases List.mem_append.1 hmem with hmem | hmem
    · exact absurd (hspace '/' hmem) (by decide)
    · cases List.mem_singleton.1 hmem
  | used => cases hmem

/-- Nothing is uncovered by a comment that is removed with all of its line. -/
lemma not_leads (h : LineRest (between ++ ['\n']) s) (indentation doc : Text) :
    ¬ Leads (between ++ ['\n'] ++ s) indentation doc := by
  intro hleads
  obtain ⟨r, hr⟩ := hleads.starts
  obtain ⟨m, rfl, -⟩ := exists_of_slash_not_mem hleads.isComment h.slash_not_mem hr.symm
  exact absurd (hleads.isBlank '\n' (by simp)) (by decide)

/-- The line of a removed comment goes on behind what is removed, or the next one starts there. -/
lemma exists_sync (h : LineRest rest s) (hbefore : before.getLast? = some '/')
    (hline : EndsLine before') :
    ∃ part, Uncovered (rest ++ s) part ∧ Sync (before ++ rest) before' s part := by
  cases h with
  | blank _ hspace hnot =>
    refine ⟨[], .nothing (LineRest.blank s hspace hnot).not_leads,
      .line (.append ?_ (by simp)) hline⟩
    simp [EndsLine]
  | used =>
    obtain ⟨part, hpart, -⟩ := existsUnique_uncovered s
    exact ⟨part, hpart, .uncovered (by simpa using hbefore) hline hpart⟩

end LineRest

/-! ### Rewriting -/

/-- The line of an entry starts behind all that is read in front of it. -/
lemma Comment.IsEntry.exists_endsLine {before gap block : Text} {e : SourceEntry}
    (h : IsEntry ⟨before ++ gap, block⟩ e) (hbefore : ∀ c ∈ before.getLast?, isBlank c = false) :
    ∃ gap', gap = gap' ++ e.indentation ∧ EndsLine (before ++ gap') := by
  obtain ⟨above, hfront, hline, hblank⟩ := h.indentation
  obtain ⟨gap', rfl, rfl⟩ := exists_of_blank_suffix hfront hbefore hblank
  exact ⟨gap', rfl, hline⟩

namespace SourceFile

/-- What is found in the place of an entry: its new text, or what it uncovers. -/
inductive Leaves (f : SourceFile) : SourceEntry × Option Text → List (Text × Text) → Prop where
  | replaced (e : SourceEntry) (doc : Text) : Leaves f (e, some doc) [(e.indentation, doc)]
  | removed {e : SourceEntry} {part : List (Text × Text)}
    (h : Uncovered (dropBytes e.stop f.source) part) : Leaves f (e, none) part

/-- Behind `before` the entries get their new comments, and what is read there behind `before'` is
`part` and what they leave. -/
def FoundAgain (f : SourceFile) (es : List (SourceEntry × Option Text)) (before before' : Text)
    (part : List (Text × Text)) : Prop :=
  ∃ s' cs' parts, splice? f.source (byteSize before) (f.replacements es) = some s' ∧
    Meets before' s' cs' ∧ foundIn cs' = part ++ parts.flatten ∧ List.Forall₂ f.Leaves es parts

namespace FoundAgain

variable {f : SourceFile} {es : List (SourceEntry × Option Text)} {before before' : Text}
  {gap block s : Text} {part : List (Text × Text)} {e : SourceEntry}

lemma nil (hsource : f.source = before ++ s) (hnone : ∀ block, IsComment block → ¬ block <:+: s)
    (hsync : Sync before before' s part) : FoundAgain f [] before before' part := by
  refine ⟨s, [], [], ?_, .nil hnone, ?_, .nil⟩
  · rw [hsource]
    exact slice?_eq_some_iff.2 ⟨before, [], by simp, rfl, rfl⟩
  · rw [hsync.eq_nil_of_not_isInfix hnone]
    rfl

/-- Comments that document nothing stay. -/
lemma skipped (hsource : f.source = before ++ (gap ++ block ++ s))
    (hfirst : IsFirst gap block s) (hsync : Sync before before' (gap ++ block ++ s) part)
    (hnot : ¬ Comment.Documents ⟨before ++ gap, block⟩)
    (h : FoundAgain f es (before ++ gap ++ block) (before' ++ gap ++ block) []) :
    FoundAgain f es before before' part := by
  obtain ⟨s', cs', parts, hsplice, hmeets, hfound, hleaves⟩ := h
  refine ⟨gap ++ block ++ s', _, parts, ?_,
    .cons (hfirst.replace hfirst.isComment) hmeets, ?_, hleaves⟩
  · rw [hsource] at hsplice ⊢
    have hprepend :=
      splice?_prepend (p := before) (q := gap ++ block) (s := s) (by simpa using hsplice)
    simpa using hprepend
  · rw [hsync.foundIn_cons hfirst hnot, hfound, List.nil_append]

/-- In the place of a comment its new text is found. -/
lemma replaced {doc : Text} (hsource : f.source = before ++ (gap ++ block ++ s))
    (hfirst : IsFirst gap block s) (hsync : Sync before before' (gap ++ block ++ s) part)
    (hdoc : Comment.Documents ⟨before ++ gap, block⟩)
    (hentry : Comment.IsEntry ⟨before ++ gap, block⟩ e) (hcomment : IsComment doc)
    (hsize : 5 ≤ byteSize doc)
    (h : FoundAgain f es (before ++ gap ++ block) (before' ++ gap ++ doc) []) :
    FoundAgain f ((e, some doc) :: es) before before' part := by
  obtain ⟨s', cs', parts, hsplice, hmeets, hfound, hleaves⟩ := h
  obtain ⟨hstart, hstop⟩ := Prod.mk.inj hentry.range_eq
  obtain ⟨hlast, rfl⟩ := hsync.lastLine_eq hfirst hdoc.2
  have hindented : Indented (before' ++ gap) := by
    rw [indented_iff, hlast, ← indented_iff]
    exact hdoc.2
  have hfront : f.source = before ++ gap ++ block ++ s := by simpa using hsource
  refine ⟨gap ++ doc ++ s', _, _, splice?_replaced hfront hstart hstop hsplice,
    .cons (hfirst.replace hcomment) hmeets, ?_, .cons (.replaced e doc) hleaves⟩
  rw [foundIn_cons_of_documents ⟨hsize, hindented⟩, hlast, ← hentry.indentation_eq, hfound]
  rfl

/-- In the place of the lines that are removed stands what the comment uncovers. -/
lemma removed_lines {rest : Text}
    (hsource : f.source = before ++ gap ++ e.indentation ++ block ++ rest ++ s)
    (hstart : e.start = byteSize (before ++ gap ++ e.indentation))
    (hend : f.linesEnd e = byteSize (before ++ gap ++ e.indentation ++ block ++ rest))
    (hline : EndsLine gap) (hnone : ¬ docStart <:+: gap)
    (hpart : Uncovered (dropBytes e.stop f.source) part)
    (h : FoundAgain f es (before ++ gap ++ e.indentation ++ block ++ rest) (before' ++ gap) part) :
    FoundAgain f ((e, none) :: es) before before' [] := by
  obtain ⟨s', cs', parts, hsplice, hmeets, hfound, hleaves⟩ := h
  refine ⟨gap ++ s', cs', part :: parts, splice?_removed hsource hstart hend hsplice,
    hmeets.prepend hline hnone, ?_, .cons (.removed hpart) hleaves⟩
  rw [hfound, List.flatten_cons, List.nil_append]

/-- Wherever the lines of a removed comment end, the new text can be read on behind them. -/
lemma removed (hsource : f.source = before ++ (gap ++ block ++ s))
    (hfirst : IsFirst gap block s) (hsync : Sync before before' (gap ++ block ++ s) part)
    (hdoc : Comment.Documents ⟨before ++ gap, block⟩)
    (hentry : Comment.IsEntry ⟨before ++ gap, block⟩ e)
    (h : ∀ {rest s' new part}, s = rest ++ s' → '/' ∉ rest →
      Sync (before ++ gap ++ block ++ rest) new s' part →
      FoundAgain f es (before ++ gap ++ block ++ rest) new part) :
    FoundAgain f ((e, none) :: es) before before' part := by
  obtain ⟨hstart, hstop⟩ := Prod.mk.inj hentry.range_eq
  obtain ⟨-, rfl⟩ := hsync.lastLine_eq hfirst hdoc.2
  obtain ⟨gap, rfl, hline⟩ := hentry.exists_endsLine hsync.isBlank_getLast?
  have hfront : f.source = before ++ (gap ++ e.indentation) ++ block ++ s := by simpa using hsource
  obtain ⟨rest, s, rfl, hrest, hend⟩ := exists_lineRest hfront hstop
  obtain ⟨part, hpart, hsync'⟩ := hrest.exists_sync
    (hfirst.isComment.getLast?_append (before ++ (gap ++ e.indentation)))
    (hsync.endsLine_append hline)
  have hfound := h rfl hrest.slash_not_mem hsync'
  have hnone : ¬ docStart <:+: gap := fun hopen =>
    (isFirst_iff hfirst.isComment).1 hfirst (hopen.trans ⟨[], e.indentation ++ ['/', '*'], by simp⟩)
  have hdrop : dropBytes e.stop f.source = rest ++ s := by
    rw [hfront, hstop, dropBytes_byteSize_append]
  have hassoc : before ++ (gap ++ e.indentation) = before ++ gap ++ e.indentation :=
    (List.append_assoc _ _ _).symm
  dsimp only at hstart
  rw [hassoc] at hstart hend hfound hfront
  rw [← List.append_assoc] at hfront
  exact .removed_lines hfront hstart hend hline.of_append hnone (hdrop ▸ hpart) hfound

end FoundAgain

/-- The entries for the comments of a source text. -/
def entriesOf (f : SourceFile) (cs : List Comment) : List SourceEntry :=
  cs.filterMap fun c => SourceEntry.ofRange? f.language f.source c.range

/-- Behind each comment that is met the new text can be read on. -/
lemma foundAgain_of_meets {f : SourceFile} {before before' s : Text} {cs : List Comment}
    {part : List (Text × Text)} {docs : List (Option Text)} (h : Meets before s cs)
    (hsource : f.source = before ++ s) (hsync : Sync before before' s part)
    (hdocs : List.Forall₂ (fun _ doc? => ∀ doc ∈ doc?, IsComment doc ∧ 5 ≤ byteSize doc)
      (f.entriesOf cs) docs) :
    FoundAgain f ((f.entriesOf cs).zip docs) before before' part := by
  -- The induction is on the comments and not on how they are met, since a comment that is removed
  -- takes text with it in front of which the next one would be met.
  induction cs generalizing before before' s part docs with
  | nil =>
    cases h with
    | nil hnone => exact .nil hsource hnone hsync
  | cons c cs ih =>
    cases h with
    | @cons _ gap block s _ hfirst h =>
      have hfront : f.source = before ++ gap ++ block ++ s := by simpa using hsource
      have hlast := hfirst.isComment.getLast?_append (before ++ gap)
      rcases SourceEntry.ofRange?_range f.language (c := ⟨before ++ gap, block⟩) hfront with
        ⟨hdoc, e, he, hentry⟩ | ⟨hnot, hnone⟩
      · have hentries : f.entriesOf (⟨before ++ gap, block⟩ :: cs) = e :: f.entriesOf cs :=
          List.filterMap_cons_some he
        rw [hentries] at hdocs ⊢
        cases hdocs with
        | @cons _ doc? _ docs hdoc? hdocs =>
          rw [List.zip_cons_cons]
          cases doc? with
          | some doc =>
            obtain ⟨hcomment, hsize⟩ := hdoc? doc rfl
            refine .replaced hsource hfirst hsync hdoc hentry hcomment hsize ?_
            exact ih h hfront (.comment hlast (hcomment.getLast?_append _)) hdocs
          | none =>
            refine .removed hsource hfirst hsync hdoc hentry fun hs hslash hsync' => ?_
            subst hs
            exact ih (h.drop hslash) (by simpa using hfront) hsync' hdocs
      · have hentries : f.entriesOf (⟨before ++ gap, block⟩ :: cs) = f.entriesOf cs :=
          List.filterMap_cons_none hnone
        rw [hentries] at hdocs ⊢
        refine .skipped hsource hfirst hsync hnot ?_
        exact ih h hfront (.comment hlast (hfirst.isComment.getLast?_append _)) hdocs

/-- Comments can be kept, replaced by others and removed, and in the place of each its new text is
found or what it uncovers. -/
lemma exists_comments_replaceDocs (path : Text) (language : Language) (source : Text)
    {docs : List (Option Text)}
    (hdocs : List.Forall₂
      (fun e doc? => ∀ doc ∈ doc?, doc = (extract path language source).blockText e ∨
        IsComment doc ∧ 5 ≤ byteSize doc)
      (extract path language source).entries docs) :
    let f := extract path language source
    ∃ text parts, f.replaceDocs docs = .ok text ∧
      (extract path language text).comments = parts.flatten ∧
      List.Forall₂ f.Leaves (f.entries.zip docs) parts := by
  intro f
  obtain ⟨cs, hmeets, -⟩ := exists_meets [] source
  have hentries : f.entries = f.entriesOf cs := entries_extract hmeets
  have hcomments : List.Forall₂ (fun _ doc? => ∀ doc ∈ doc?, IsComment doc ∧ 5 ≤ byteSize doc)
      (f.entriesOf cs) docs := by
    have hall := (List.forall₂_and_left _ _).2 ⟨fun e he => isComment_blockText he, hdocs⟩
    rw [← hentries]
    refine hall.imp fun e doc? ⟨hblock, hdoc⟩ doc hmem => ?_
    rcases hdoc doc hmem with rfl | hcomment
    · exact hblock
    · exact hcomment
  have hline : EndsLine [] := by simp [EndsLine]
  obtain ⟨text, cs', parts, hsplice, hmeets', hfound, hleaves⟩ :=
    foundAgain_of_meets (f := f) hmeets rfl (.line hline hline) hcomments
  rw [← hentries] at hsplice hleaves
  have htext : splice source 0 (f.replacements (f.entries.zip docs)) = text :=
    splice_eq_of_splice? hsplice
  refine ⟨text, parts, ?_, (comments_extract hmeets').trans hfound, hleaves⟩
  rw [replaceDocs, if_neg (not_not.2 hdocs.length_eq.symm), ← htext]
  rfl

/-- Entries that are all replaced leave their indentations and their new texts. -/
lemma flatten_of_replaced {f : SourceFile} {es : List SourceEntry} {docs : List Text}
    {parts : List (List (Text × Text))} (h : List.Forall₂ f.Leaves (es.zip (docs.map some)) parts) :
    parts.flatten = (es.map (·.indentation)).zip docs := by
  induction es generalizing docs parts with
  | nil =>
    cases h
    rfl
  | cons e es ih =>
    cases docs with
    | nil =>
      cases h
      rfl
    | cons doc docs =>
      cases h with
      | cons hleaves h =>
        cases hleaves
        rw [List.flatten_cons, ih h]
        rfl

/-- Where each comment is kept or replaced by another one, the new comments are found in the places
of the old ones, with their indentations. -/
theorem comments_replaceDocs_map_some (path : Text) (language : Language) (source : Text)
    (docs : List Text)
    (hdocs : List.Forall₂
      (fun e doc => doc = (extract path language source).blockText e ∨
        IsComment doc ∧ 5 ≤ byteSize doc)
      (extract path language source).entries docs) :
    let f := extract path language source
    ∃ text, f.replaceDocs (docs.map some) = .ok text ∧
      (extract path language text).comments = (f.entries.map (·.indentation)).zip docs := by
  intro f
  have hsome : List.Forall₂ (fun e doc? => ∀ doc ∈ doc?, doc = f.blockText e ∨
      IsComment doc ∧ 5 ≤ byteSize doc) f.entries (docs.map some) := by
    rw [List.forall₂_map_right_iff]
    refine hdocs.imp fun e doc h doc' hmem => ?_
    obtain rfl := Option.some.inj hmem
    exact h
  obtain ⟨text, parts, htext, hfound, hleaves⟩ :=
    exists_comments_replaceDocs path language source hsome
  exact ⟨text, htext, hfound.trans (flatten_of_replaced hleaves)⟩

/-- The new comments are found, the second one although it looks like two and the last one although
it follows a comment that is no entry. -/
theorem comments_replaceDocs_map_some_three :
    let f := extract [] .rust
      "/** a */ /** here */\n\tfn a() {}\n\t/** b */ fn b() /**/\n/** c */".toList
    let docs := ["/** a\n */".toList, "/** /** d */".toList, "/** c */".toList]
    List.Forall₂ (fun e doc => doc = f.blockText e ∨ IsComment doc ∧ 5 ≤ byteSize doc)
        f.entries docs ∧
      ∃ text, f.replaceDocs (docs.map some) = .ok text ∧
        (extract [] .rust text).comments = [([], "/** a\n */".toList),
          (['\t'], "/** /** d */".toList), ([], "/** c */".toList)] := by
  intro f docs
  have hdocs : List.Forall₂ (fun e doc => doc = f.blockText e ∨ IsComment doc ∧ 5 ≤ byteSize doc)
      f.entries docs := by decide +kernel
  obtain ⟨text, htext, hfound⟩ := comments_replaceDocs_map_some [] .rust f.source docs hdocs
  refine ⟨hdocs, text, htext, hfound.trans ?_⟩
  decide +kernel

/-- Where each comment is kept or removed, the comments that are kept are found, and in the place of
each that is removed the one that only blanks part from it on its line. -/
theorem comments_replaceDocs_of_kept (path : Text) (language : Language) (source : Text)
    (docs : List (Option Text))
    (hdocs : List.Forall₂
      (fun e doc? => ∀ doc ∈ doc?, doc = (extract path language source).blockText e)
      (extract path language source).entries docs) :
    let f := extract path language source
    ∃ text parts, f.replaceDocs docs = .ok text ∧
      (extract path language text).comments = parts.flatten ∧
      List.Forall₂ f.Leaves (f.entries.zip docs) parts :=
  exists_comments_replaceDocs path language source
    (hdocs.imp fun _ _ h doc hmem => .inl (h doc hmem))

/-- The first comment is removed with its line and the second one from the front of its line, where
another one follows. -/
theorem comments_replaceDocs_of_kept_uncovered :
    let f := extract [] .rust
      "/** a */\nfn a() {}\n/** b */ /** c */\nfn b() {}\n\t/** d */".toList
    let docs := [none, none, some "/** d */".toList]
    List.Forall₂ (fun e doc? => ∀ doc ∈ doc?, doc = f.blockText e) f.entries docs ∧
      ∃ text parts, f.replaceDocs docs = .ok text ∧
        (extract [] .rust text).comments = parts.flatten ∧
        List.Forall₂ f.Leaves (f.entries.zip docs) parts ∧
        parts.flatten = [([' '], "/** c */".toList), (['\t'], "/** d */".toList)] := by
  intro f docs
  have hdocs : List.Forall₂ (fun e doc? => ∀ doc ∈ doc?, doc = f.blockText e) f.entries docs := by
    decide +kernel
  obtain ⟨text, parts, htext, hfound, hleaves⟩ :=
    comments_replaceDocs_of_kept [] .rust f.source docs hdocs
  refine ⟨hdocs, text, parts, htext, hfound, hleaves, ?_⟩
  have hvalue : f.replaceDocs docs = .ok "fn a() {}\n /** c */\nfn b() {}\n\t/** d */".toList := by
    decide +kernel
  obtain rfl := Except.ok.inj (htext.symm.trans hvalue)
  rw [← hfound]
  decide +kernel

/-- What is found is not always what was kept, since a comment that stood behind another one may be
the first one of its line now. -/
theorem not_comments_replaceDocs_eq_kept : ¬ ∀ (path : Text) (language : Language) (source : Text)
    (docs : List (Option Text)),
    let f := extract path language source
    List.Forall₂ (fun e doc? => ∀ doc ∈ doc?, doc = f.blockText e) f.entries docs →
      ∃ text, f.replaceDocs docs = .ok text ∧
        (extract path language text).comments.map Prod.snd = docs.reduceOption := by
  intro h
  let f := extract [] .rust "/** a */ /** b */\nfn f() {}\n".toList
  obtain ⟨text, htext, hfound⟩ := h [] .rust f.source [none] (by decide +kernel)
  have hvalue : f.replaceDocs [none] = .ok " /** b */\nfn f() {}\n".toList := by decide +kernel
  obtain rfl := Except.ok.inj (htext.symm.trans hvalue)
  have hcomment : (extract [] .rust " /** b */\nfn f() {}\n".toList).comments.map Prod.snd =
      ["/** b */".toList] := by decide +kernel
  rw [hcomment] at hfound
  cases hfound

end SourceFile

end DocComment
