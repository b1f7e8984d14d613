import DocComment.Proofs.Block.LineStart
import DocComment.Proofs.Tree.Rewritten

/-!
# Paragraphs on lines of a comment

A text is put on the lines of a comment behind stars, and the comment is read as one paragraph of
just this text (`Tree.ofTokens_paragraph`). For this no line may be empty, or start with a blank or
a tag, and the last one may not end with a blank. Whatever else stands in the lines comes back as it
was, also a star or a slash at their start, and blanks at the end of all lines but the last.
-/

namespace DocComment

open Text Token

/-! ### Lines of text -/

namespace Text

variable {stars : Bool} {s line : Text}

lemma continues_of_line (hne : line ≠ []) (hblank : ∀ c ∈ line.head?, isBlank c = false)
    (hn : '\n' ∉ line) (htag : startsTag line = false) : continues true line := by
  obtain ⟨c, cs, rfl⟩ := List.exists_cons_of_ne_nil hne
  refine continues_iff.2 ⟨⟨c, rfl, hblank c rfl, ?_, by simp⟩, htag⟩
  rintro rfl
  exact hn List.mem_cons_self

/-- A text goes on with text if its first line does. -/
lemma continues_of_splitOn (h : ∀ line ∈ splitOn '\n' s, continues stars line) :
    continues stars s := by
  obtain ⟨line, rest, hlines⟩ := List.exists_cons_of_ne_nil (splitOn_ne_nil '\n' s)
  rw [← continues_takeWhile, ← line_eq_takeWhile hlines]
  exact h line (by simp [hlines])

/-- Lines of text can be written on lines of a comment. -/
lemma writable_of_lines (hreturn : '\r' ∉ s) (hclosed : closes s = false)
    (hlines : ∀ line ∈ splitOn '\n' s, continues stars line)
    (hlast : ∀ line ∈ (splitOn '\n' s).getLast?, ∀ c ∈ line.getLast?, isBlank c = false) :
    Writable stars s where
  keepsLines := keepsLines_of_splitOn hreturn hclosed fun line hline =>
    hlines line (List.mem_of_mem_tail hline)
  head? c hc := by
    obtain ⟨⟨d, hd, hblank, -⟩, -⟩ := continues_iff.1 (continues_of_splitOn hlines)
    obtain rfl : d = c := Option.some.inj ((Option.mem_def.1 hd).symm.trans hc)
    exact hblank
  getLast? c hc := by
    have hline := List.getLast?_eq_some_getLast (splitOn_ne_nil '\n' s)
    generalize (splitOn '\n' s).getLast (splitOn_ne_nil '\n' s) = line at hline
    obtain ⟨front, hfront⟩ := suffix_of_mem_getLast?_splitOn hline
    have hne : line ≠ [] := by
      rintro rfl
      have hcont := hlines [] (List.mem_of_getLast? hline)
      cases hcont
    rw [← hfront, List.getLast?_append_of_ne_nil _ hne] at hc
    exact hlast line hline c hc

end Text

/-! ### Comments of one node -/

namespace Part

variable {rules : Rules} {stars : Bool} {s ls : Text}

/-- Text whose first line starts no tag makes up a paragraph. -/
lemma isNode_of_continues (rules : Rules) (hls : IsLineStart stars ls) (h : Writable stars s)
    (hs : continues stars s) : IsNode rules (joinLines ls s) (.prose s) := by
  obtain ⟨⟨c, hc, -, hn, -⟩, -⟩ := continues_iff.1 hs
  have hne : s ≠ [] := List.ne_nil_of_mem (List.mem_of_mem_head? hc)
  have hn' : s.head? ≠ some '\n' := fun hfeed =>
    hn (Option.some.inj ((Option.mem_def.1 hc).symm.trans hfeed))
  refine isNode_joinLines rules hls h hne hn' fun i t ht => ?_
  have hreturn : ∀ d ∈ (reline ls s).head?, d ≠ '\r' := by
    rintro d hd rfl
    rw [head?_reline hn'] at hd
    exact not_mem_of_keepsLines h.keepsLines (List.mem_of_mem_head? hd)
  obtain ⟨u, hu, -, hmarker⟩ := head_of_continues (continues_reline hls hs) hreturn
    (closes_reline hls h.keepsLines) i
  obtain rfl : u = t := Option.some.inj ((Option.mem_def.1 hu).symm.trans ht)
  exact hmarker

/-- A comment with one node on lines behind stars is read as this node. -/
lemma contents_of_isNode {nl bl body : Text} {c : Node.Content} (hnl : IsNewline nl)
    (hbl : ∀ c ∈ bl, isBlank c) (h : IsNode rules body c) :
    (Tree.ofTokens rules (scan (['/', '*', '*'] ++ (nl ++ bl ++ ['*', ' ']) ++ body ++
      closingLine (nl ++ bl ++ ['*', ' '])))).contents = [some c] := by
  obtain ⟨hstops, hclosing⟩ := closing_closingLine_starred hnl hbl
  generalize hls : nl ++ bl ++ ['*', ' '] = ls at hstops hclosing ⊢
  let p : Part := ⟨ls, body, c⟩
  have hgap : IsGap ls body fun _ => True := hls ▸ isGap_starred hnl hbl body
  have htext : ['/', '*', '*'] ++ ls ++ body ++ closingLine ls =
      ['/', '*', '*'] ++ ([p].flatMap text ++ closingLine ls) := by
    simp [p, text]
  rw [htext]
  refine contents_of_parts rules ?_ ?_ ?_ hstops hclosing
  · intro q hq
    rw [List.mem_singleton.1 hq]
    exact ⟨h, hgap⟩
  · simp
  · exact ⟨_, 3, .inr ⟨⟨.opening, ['/', '*', '*'], 0⟩, rfl, rfl⟩, rfl⟩

end Part

namespace Tree

variable {t : Tree} {s : Text}

lemma node?_of_content?_prose {id : NodeId} (h : t.content? id = some (.prose s)) :
    t.node? id = some (.prose s) := by
  obtain ⟨n, hn, hc⟩ := Option.map_eq_some_iff.1 h
  cases n with
  | prose text =>
    cases hc
    exact hn
  | tag | fragment | container => cases hc

lemma exists_top_of_contents (h : t.contents = [some (.prose s)]) :
    ∃ id, t.top = [id] ∧ t.node? id = some (.prose s) := by
  obtain ⟨id, htop, hid⟩ := List.map_eq_singleton_iff.1 h
  exact ⟨id, htop, node?_of_content?_prose hid⟩

/-- Lines of text that are joined behind stars are read as one paragraph with the text as it was. -/
theorem ofTokens_paragraph (rules : Rules) {nl bl s : Text} (hnl : IsNewline nl)
    (hbl : ∀ c ∈ bl, isBlank c) (hreturn : '\r' ∉ s) (hclosing : ¬ ['*', '/'] <:+: s)
    (hlines : ∀ line ∈ splitOn '\n' s,
      line ≠ [] ∧ (∀ c ∈ line.head?, isBlank c = false) ∧ startsTag line = false)
    (hlast : ∀ line ∈ (splitOn '\n' s).getLast?, ∀ c ∈ line.getLast?, isBlank c = false) :
    let ls := nl ++ bl ++ ['*', ' ']
    let t := ofTokens rules (scan (['/', '*', '*'] ++ ls ++ joinLines ls s ++ closingLine ls))
    ∃ id, t.top = [id] ∧ t.node? id = some (.prose s) := by
  intro ls t
  have hclosed : closes s = false := by
    rw [Bool.eq_false_iff, ne_eq, closes_iff]
    rintro ⟨before, after, h⟩
    exact hclosing ⟨before, after, h.symm⟩
  have htext : ∀ line ∈ splitOn '\n' s, continues true line := by
    intro line hline
    obtain ⟨hne, hblank, htag⟩ := hlines line hline
    exact continues_of_line hne hblank (not_mem_of_mem_splitOn line hline) htag
  have hwritable : Writable true s := writable_of_lines hreturn hclosed htext hlast
  have hnode : Part.IsNode rules (joinLines ls s) (.prose s) :=
    Part.isNode_of_continues rules (.starred hnl hbl) hwritable (continues_of_splitOn htext)
  exact exists_top_of_contents (Part.contents_of_isNode hnl hbl hnode)

/-- Lines with stars, slashes and blanks at their ends, behind tabs and carriage returns. -/
theorem ofTokens_paragraph_stars :
    let nl := ['\r', '\n']
    let bl := ['\t', ' ']
    let s := "/ é  \n*b\n@ c*".toList
    let ls := nl ++ bl ++ ['*', ' ']
    let t := ofTokens .standard
      (scan (['/', '*', '*'] ++ ls ++ joinLines ls s ++ closingLine ls))
    (IsNewline nl ∧ (∀ c ∈ bl, isBlank c) ∧ '\r' ∉ s ∧ ¬ ['*', '/'] <:+: s ∧
      (∀ line ∈ splitOn '\n' s,
        line ≠ [] ∧ (∀ c ∈ line.head?, isBlank c = false) ∧ startsTag line = false) ∧
      ∀ line ∈ (splitOn '\n' s).getLast?, ∀ c ∈ line.getLast?, isBlank c = false) ∧
    joinLines ls s = "/ é  \r\n\t * *b\r\n\t * @ c*".toList ∧
    closingLine ls = "\r\n\t */".toList ∧
    ∃ id, t.top = [id] ∧ t.node? id = some (.prose s) := by
  have hbl : ∀ c ∈ ['\t', ' '], isBlank c := by simp [isBlank]
  have hreturn : '\r' ∉ "/ é  \n*b\n@ c*".toList := by decide +kernel
  have hclosing : ¬ ['*', '/'] <:+: "/ é  \n*b\n@ c*".toList := by decide +kernel
  have hsplit : splitOn '\n' "/ é  \n*b\n@ c*".toList =
      ["/ é  ".toList, "*b".toList, "@ c*".toList] := by
    decide +kernel
  have hlines : ∀ line ∈ splitOn '\n' "/ é  \n*b\n@ c*".toList,
      line ≠ [] ∧ (∀ c ∈ line.head?, isBlank c = false) ∧ startsTag line = false := by
    rw [hsplit]
    simp [isBlank, startsTag, isTagNameStart]
  have hlast : ∀ line ∈ (splitOn '\n' "/ é  \n*b\n@ c*".toList).getLast?,
      ∀ c ∈ line.getLast?, isBlank c = false := by
    rw [hsplit]
    simp [isBlank]
  exact ⟨⟨.inr rfl, hbl, hreturn, hclosing, hlines, hlast⟩, by decide +kernel, by decide +kernel,
    ofTokens_paragraph .standard (.inr rfl) hbl hreturn hclosing hlines hlast⟩

end Tree

end DocComment
