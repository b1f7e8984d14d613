import DocComment.Proofs.Text.Lines
import DocComment.Proofs.Token.Part

/-!
# The tokens of text on several lines

New lines of a comment start with a line break and a decoration, which is either blanks, a star and
a space, or blanks alone (`Text.IsLineStart`), and then no star may follow. Where such starts stand
in a text that keeps its lines, the tokens *spell* the text (`spells_reline`): they fold back to it
(`Spells.folded_eq`) and make up one node (`Spells.solid`).
-/

namespace DocComment

open Text Token

namespace Text

/-- A line break with a decoration after which text may stand, text with `stars` at the start of its
lines included. -/
inductive IsLineStart : (stars : Bool) → Text → Prop where
  | starred {stars : Bool} {nl bl : Text} (hnl : IsNewline nl) (hbl : ∀ c ∈ bl, isBlank c) :
    IsLineStart stars (nl ++ bl ++ ['*', ' '])
  | bare {nl bl : Text} (hnl : IsNewline nl) (hbl : ∀ c ∈ bl, isBlank c) :
    IsLineStart false (nl ++ bl)

variable {stars : Bool}

lemma ne_of_mem_newline {nl bl : Text} (hnl : IsNewline nl) (hbl : ∀ c ∈ bl, isBlank c) {c : Char}
    (hc : c ∈ nl ++ bl) : c ≠ '*' ∧ c ≠ '/' := by
  rcases List.mem_append.1 hc with hc | hc
  · rcases hnl with rfl | rfl <;> simp at hc <;> rcases hc with rfl | rfl <;> decide
  · rcases blank_cases (hbl c hc) with rfl | rfl <;> decide

namespace IsLineStart

variable {ls : Text}

/-- Text without stars may stand behind any start of a line. -/
lemma weaken (h : IsLineStart stars ls) : IsLineStart false ls := by
  cases h with
  | starred hnl hbl => exact .starred hnl hbl
  | bare hnl hbl => exact .bare hnl hbl

/-- New lines start with no slash, and with no star at the end. -/
lemma harmless (h : IsLineStart stars ls) : Harmless ls := by
  cases h with
  | @starred _ nl bl hnl hbl =>
    refine ⟨by simp, fun hc => ?_, by simp⟩
    rcases List.mem_append.1 hc with hc | hc
    · exact (ne_of_mem_newline hnl hbl hc).2 rfl
    · simp at hc
  | @bare nl bl hnl hbl =>
    refine ⟨?_, fun hc => (ne_of_mem_newline hnl hbl hc).2 rfl, fun hc => ?_⟩
    · rcases hnl with rfl | rfl <;> simp
    · exact (ne_of_mem_newline hnl hbl (List.mem_of_getLast? hc)).1 rfl

/-- In front of text a new line is one line break. -/
lemma scanFrom (h : IsLineStart stars ls) {y : Text}
    (hy : ∀ c ∈ y.head?, isBlank c = false ∧ (stars = false → c ≠ '*')) (i : Nat) :
    Token.scanFrom false i (ls ++ y) =
      ⟨.lineBreak, ls, i⟩ :: Token.scanFrom false (i + byteSize ls) y := by
  cases h with
  | @starred _ nl bl hnl hbl =>
    rw [List.append_assoc nl]
    exact scanFrom_newline hnl (decoration_starred hbl y) i
  | bare hnl hbl =>
    have hy' : ∀ c ∈ y.head?, isBlank c = false ∧ c ≠ '*' := fun c hc =>
      (hy c hc).imp_right fun hstar => hstar rfl
    exact scanFrom_newline hnl (decoration_bare hbl hy') i

lemma stops_append (h : IsLineStart stars ls) (y : Text) : stops (ls ++ y) := by
  cases h with
  | starred hnl _ => rcases hnl with rfl | rfl <;> rfl
  | bare hnl _ => rcases hnl with rfl | rfl <;> rfl

lemma startsBlank_append (h : IsLineStart stars ls) (y : Text) : startsBlank (ls ++ y) = false := by
  cases h with
  | starred hnl _ => rcases hnl with rfl | rfl <;> rfl
  | bare hnl _ => rcases hnl with rfl | rfl <;> rfl

end IsLineStart

variable {ls s : Text}

/-- The first line of a text stays as it is. -/
lemma exists_reline (stars : Bool) (ls s : Text) : ∃ line rest : Text, s = line ++ rest ∧
    continues stars line = continues stars s ∧ reline ls s = line ++ reline ls rest ∧
    (rest = [] ∨ ∃ r, rest = '\n' :: r) := by
  refine ⟨s.takeWhile (· ≠ '\n'), s.dropWhile (· ≠ '\n'), List.takeWhile_append_dropWhile.symm,
    continues_takeWhile s, ?_, ?_⟩
  · conv_lhs => rw [← List.takeWhile_append_dropWhile (p := (· ≠ '\n')) (l := s)]
    rw [reline_append, reline_of_not_mem]
    intro hmem
    simpa using List.mem_takeWhile_imp hmem
  · cases hrest : s.dropWhile (· ≠ '\n') with
    | nil => exact .inl rfl
    | cons c r =>
      have hne : s.dropWhile (· ≠ '\n') ≠ [] := by
        rw [hrest]
        exact List.cons_ne_nil c r
      have hc := List.head_dropWhile_not (· ≠ '\n') hne
      simp only [hrest, List.head_cons] at hc
      exact .inr ⟨r, by simpa using hc⟩

lemma continues_reline (hls : IsLineStart stars ls) (h : continues stars s) :
    continues stars (reline ls s) := by
  obtain ⟨line, rest, -, hline, hreline, hrest⟩ := exists_reline stars ls s
  rw [hreline]
  refine continues_append (hline.trans h) ?_
  rcases hrest with rfl | ⟨r, rfl⟩
  · simp
  · rw [reline_cons, if_pos rfl]
    exact isTagNameStart_of_stops (hls.stops_append _)

/-- No line start closes the comment. -/
lemma closes_reline (hls : IsLineStart stars ls) {stars' : Bool} (h : keepsLines stars' s) :
    closes (reline ls s) = false := by
  rw [← joinLines_eq ls h]
  exact closes_joinLines hls.harmless s

lemma head?_reline (hn : s.head? ≠ some '\n') : (reline ls s).head? = s.head? := by
  cases s with
  | nil => rfl
  | cons c s =>
    have hc : c ≠ '\n' := fun hc => hn (by simp [hc])
    simp [reline_cons, hc]

end Text

namespace Token

/-! ### Tokens that spell a text -/

/-- What a token stands for in folded text. -/
def foldedText (t : Token) : Text := if t.kind = .lineBreak then ['\n'] else t.text

/-- Whether every line break has content behind it that starts no tag. -/
def linesContinue : List Token → Bool
  | [] => true
  | t :: ts => (t.kind ≠ .lineBreak || ts.head?.any fun u => u.isContent && u.kind ≠ .marker) &&
    linesContinue ts

/-- Tokens of text on several lines, each of which goes on with text. -/
structure Spells (s : Text) (ts : List Token) : Prop where
  text : ts.flatMap foldedText = s
  ne_nil : ∀ t ∈ ts, t.text ≠ []
  blank : ∀ t ∈ ts, t.kind = .blank → ∀ c ∈ t.text, isBlank c
  kind_ne_closing : ∀ t ∈ ts, t.kind ≠ .closing
  lines : linesContinue ts

variable {stars : Bool} {s s' ls : Text} {t u : Token} {ts us : List Token}

lemma linesContinue_append (h : linesContinue ts) (h' : linesContinue us) :
    linesContinue (ts ++ us) := by
  induction ts with
  | nil => exact h'
  | cons t ts ih =>
    simp only [linesContinue, Bool.and_eq_true] at h
    simp only [List.cons_append, linesContinue, ih h.2, Bool.and_true]
    cases ts with
    | nil => simp [by simpa using h.1]
    | cons u ts => exact h.1

lemma linesContinue_of_ne (h : ∀ t ∈ ts, t.kind ≠ .lineBreak) : linesContinue ts := by
  induction ts with
  | nil => rfl
  | cons t ts ih =>
    simp only [List.mem_cons, forall_eq_or_imp] at h
    simp [linesContinue, h.1, ih h.2]

namespace Spells

protected lemma append (h : Spells s ts) (h' : Spells s' us) : Spells (s ++ s') (ts ++ us) where
  text := by rw [List.flatMap_append, h.text, h'.text]
  ne_nil t ht := (List.mem_append.1 ht).elim (h.ne_nil t) (h'.ne_nil t)
  blank t ht := (List.mem_append.1 ht).elim (h.blank t) (h'.blank t)
  kind_ne_closing t ht := (List.mem_append.1 ht).elim (h.kind_ne_closing t) (h'.kind_ne_closing t)
  lines := linesContinue_append h.lines h'.lines

/-- A line break in front of tokens that go on with text. -/
lemma lineBreak (h : Spells s ts) (hk : t.kind = .lineBreak) (ht : t.text ≠ [])
    (hu : ∃ u ∈ ts.head?, u.isContent ∧ u.kind ≠ .marker) : Spells ('\n' :: s) (t :: ts) where
  text := by simp [foldedText, hk, h.text]
  ne_nil := List.forall_mem_cons.2 ⟨ht, h.ne_nil⟩
  blank := List.forall_mem_cons.2 ⟨by simp [hk], h.blank⟩
  kind_ne_closing := List.forall_mem_cons.2 ⟨by simp [hk], h.kind_ne_closing⟩
  lines := by
    obtain ⟨u, hu, hcontent, hmarker⟩ := hu
    simp [linesContinue, h.lines, Option.mem_def.1 hu, hcontent, hmarker]

end Spells

lemma text_isInfix {i : Nat} (ht : t ∈ scanFrom false i s) : t.text <:+: s := by
  obtain ⟨before, after, h⟩ := List.append_of_mem ht
  exact ⟨source before, source after, by rw [← source_scanFrom false i s, h]; simp⟩

/-- A line has no line break. -/
lemma kind_ne_lineBreak_of_not_mem (hn : '\n' ∉ s) (i : Nat) :
    ∀ t ∈ scanFrom false i s, t.kind ≠ .lineBreak := by
  intro t ht hk
  have hmem : '\n' ∈ t.text := by
    obtain ⟨d, h | h⟩ := text_of_lineBreak ht hk
    · simp [h]
    · simp [h]
  exact hn ((text_isInfix ht).subset hmem)

/-- A line is spelled by its tokens. -/
lemma spells_line (hn : '\n' ∉ s) (hclosed : closes s = false) (i : Nat) :
    Spells s (scanFrom false i s) := by
  have hbreak := kind_ne_lineBreak_of_not_mem hn i
  refine ⟨?_, fun t ht => ?_, fun t ht hk => (text_of_blank ht hk).2, fun t ht hk => ?_,
    linesContinue_of_ne hbreak⟩
  · calc (scanFrom false i s).flatMap foldedText = source (scanFrom false i s) :=
          List.flatMap_congr fun t ht => if_neg (hbreak t ht)
      _ = s := source_scanFrom false i s
  · exact text_ne_nil_of_mem_scanFrom ht
  · have hclosing := closes_eq_false_of_isInfix (text_isInfix ht) hclosed
    rw [text_of_closing ht hk] at hclosing
    cases hclosing

/-- In front of text that goes on with its line stands no tag and no separator. -/
lemma head_of_continues (h : continues stars s) (hr : ∀ c ∈ s.head?, c ≠ '\r')
    (hclosed : closes s = false) (i : Nat) :
    ∃ u ∈ (scanFrom false i s).head?, u.isContent ∧ u.kind ≠ .marker := by
  obtain ⟨⟨c, hc, hblank, hn, -⟩, htag⟩ := continues_iff.1 h
  have hr' := hr c hc
  obtain ⟨s', hs⟩ := List.head?_eq_some_iff.1 hc
  rw [hs] at htag
  rw [hs, closes, Bool.or_eq_false_iff, decide_eq_false_iff_not] at hclosed
  rw [hs, scanFrom_cons]
  refine ⟨_, rfl, ?_⟩
  dsimp only
  rw [isContent_iff, next_eq]
  simp only [hclosed.1, hr', hn, htag, hblank, false_and, if_false, Bool.false_and,
    Bool.false_eq_true]
  split_ifs <;> simp

/-- Text that keeps its lines is spelled by its tokens, whatever its lines start with. -/
theorem spells_reline (hls : IsLineStart stars ls) (h : keepsLines stars s) (i : Nat) :
    Spells s (scanFrom false i (reline ls s)) := by
  induction hlength : s.length using Nat.strongRecOn generalizing s i with
  | ind n ih =>
    by_cases hn : '\n' ∈ s
    · obtain ⟨line, s', rfl, hline⟩ := List.eq_append_cons_of_mem hn
      have hrest : keepsLines stars s' := keepsLines_of_suffix ⟨line ++ ['\n'], by simp⟩ h
      have hcont : continues stars s' := by
        have hsuffix : keepsLines stars ('\n' :: s') := keepsLines_of_suffix ⟨line, rfl⟩ h
        exact (keepsLines_cons.1 hsuffix).2.2.1 rfl
      have hline' : keepsLines stars line := keepsLines_of_isPrefix ⟨'\n' :: s', rfl⟩ h fun hlast =>
        hline (List.mem_of_getLast? hlast)
      have hlt : s'.length < n := by
        rw [← hlength, List.length_append, List.length_cons]
        omega
      obtain ⟨c, hc, hblank, hne, hstar⟩ := (continues_iff.1 hcont).1
      have hhead : (reline ls s').head? = some c := by
        rw [head?_reline fun hn => hne (Option.some.inj ((Option.mem_def.1 hc).symm.trans hn)), hc]
      have hnot : ∀ d ∈ (reline ls s').head?, isBlank d = false ∧ (stars = false → d ≠ '*') := by
        intro d hd
        obtain rfl : c = d := Option.some.inj (hhead.symm.trans hd)
        exact ⟨hblank, hstar⟩
      have hr : ∀ d ∈ (reline ls s').head?, d ≠ '\r' := by
        rintro d hd rfl
        obtain rfl : c = '\r' := Option.some.inj (hhead.symm.trans hd)
        exact not_mem_of_keepsLines hrest (List.mem_of_mem_head? hc)
      have htail : ∀ j, Spells ('\n' :: s') (scanFrom false j (ls ++ reline ls s')) := by
        intro j
        rw [hls.scanFrom hnot]
        exact (ih _ hlt hrest _ rfl).lineBreak rfl hls.harmless.ne_nil
          (head_of_continues (continues_reline hls hcont) hr (closes_reline hls hrest) _)
      rw [reline_append, reline_of_not_mem ls hline, reline_cons, if_pos rfl]
      cases line with
      | nil => exact htail i
      | cons c line =>
        rw [scanFrom_append (hls.stops_append _) i
          (fun hlast => absurd (List.mem_of_getLast? hlast) (not_mem_of_keepsLines hline')) ?_
          (List.cons_ne_nil c line)]
        · exact (spells_line hline (closes_of_keepsLines hline') i).append (htail _)
        · exact fun _ _ _ => hls.startsBlank_append _
    · rw [reline_of_not_mem ls hn]
      exact spells_line hn (closes_of_keepsLines h) i

/-! ### Folding and solidity -/

/-- The piece of folded text that a token stands for. -/
def piece (p : IndexedToken) : Text × Option Nat :=
  (foldedText p.1, if p.1.kind = .lineBreak then none else some p.2)

lemma foldLines_eq (hts : linesContinue ts) {b : Bool}
    (hb : b → ∀ t ∈ ts.head?, t.kind ≠ .blank) (i : Nat) :
    foldLines b (ts.zipIdx i) = (ts.zipIdx i).map piece := by
  induction ts generalizing b i with
  | nil => rfl
  | cons t ts ih =>
    simp only [linesContinue, Bool.and_eq_true, Bool.or_eq_true] at hts
    by_cases hbreak : t.kind = .lineBreak
    · have hnext : ∀ u ∈ ts.head?, u.kind ≠ .blank := by
        intro u hu hk
        simp [hbreak, Option.mem_def.1 hu, isContent_iff, hk] at hts
      simp [foldLines, hbreak, ih hts.2 (fun _ => hnext), piece, foldedText]
    · have hrest := ih hts.2 (b := false) (by simp) (i + 1)
      by_cases hblank : t.kind = .blank
      · have hfalse : b = false := by
          by_contra hb'
          exact hb (by simpa using hb') t rfl hblank
        simp [foldLines, hblank, hfalse, hrest, piece, foldedText]
      · simp [foldLines, hbreak, hrest, piece, foldedText]

/-- In front of content there is at most one line break, and then no tag starts. -/
lemma exists_solid (hts : linesContinue ts) (hclosing : ∀ t ∈ ts, t.kind ≠ .closing) (hne : ts ≠ [])
    (hlast : ∀ t ∈ ts.getLast?, t.isSeparator = false) :
    ∃ gap u body, ts = gap ++ u :: body ∧ (∀ g ∈ gap, g.isSeparator) ∧
      startsNode gap u = false ∧ Solid (u :: body) := by
  induction ts with
  | nil => exact absurd rfl hne
  | cons t ts ih =>
    have ht := hclosing t List.mem_cons_self
    simp only [linesContinue, Bool.and_eq_true, Bool.or_eq_true] at hts
    by_cases hnil : ts = []
    · subst hnil
      have hcontent : t.isContent := by simp [isContent, ht, hlast t rfl]
      exact ⟨[], t, [], rfl, by simp, by simp [startsNode, breaks], .single hcontent⟩
    have hlast' : ∀ u ∈ ts.getLast?, u.isSeparator = false := by
      intro u hu
      refine hlast u ?_
      rw [List.getLast?_cons, Option.mem_def.1 hu]
      rfl
    obtain ⟨gap, u, body, rfl, hgap, hnot, hsolid⟩ := ih hts.2
      (fun u hu => hclosing u (List.mem_cons_of_mem _ hu)) hnil hlast'
    by_cases hcontent : t.isContent
    · exact ⟨[], t, gap ++ u :: body, rfl, by simp, by simp [startsNode, breaks],
        .cons hcontent hgap hnot hsolid⟩
    · have hsep : t.isSeparator := by simpa [isContent, ht] using hcontent
      refine ⟨t :: gap, u, body, rfl, List.forall_mem_cons.2 ⟨hsep, hgap⟩, ?_, hsolid⟩
      rcases isSeparator_iff.1 hsep with hk | hk
      · -- Content follows the line break, so it is the only one.
        cases gap with
        | nil =>
          simp only [hk, ne_eq, not_true_eq_false, decide_false, Bool.false_eq_true, false_or,
            List.nil_append, List.head?_cons, Option.any_some, Bool.and_eq_true,
            decide_eq_true_eq] at hts
          simp [startsNode, breaks, hk, hts.1.2]
        | cons g gap =>
          simp [hk, isContent, hgap g] at hts
      · have hsame : breaks (t :: gap) = breaks gap := by simp [breaks, hk]
        rwa [startsNode, hsame]

namespace Spells

variable (h : Spells s ts)

include h

lemma head?_of_isSeparator (ht : t ∈ ts.head?) (hsep : t.isSeparator) :
    ∃ c ∈ s.head?, c = '\n' ∨ isBlank c := by
  obtain ⟨us, rfl⟩ := List.head?_eq_some_iff.1 ht
  obtain ⟨c, r, hcons⟩ := List.exists_cons_of_ne_nil (h.ne_nil t (by simp))
  have htext := h.text
  rw [List.flatMap_cons] at htext
  rcases isSeparator_iff.1 hsep with hk | hk
  · rw [foldedText, if_pos hk] at htext
    exact ⟨'\n', by simp [← htext], .inl rfl⟩
  · rw [foldedText, if_neg (by simp [hk]), hcons] at htext
    exact ⟨c, by simp [← htext], .inr (h.blank t (by simp) hk c (by simp [hcons]))⟩

lemma getLast?_of_isSeparator (ht : t ∈ ts.getLast?) (hsep : t.isSeparator) :
    ∃ c ∈ s.getLast?, isBlank c := by
  obtain ⟨us, rfl⟩ := List.getLast?_eq_some_iff.1 ht
  rcases isSeparator_iff.1 hsep with hk | hk
  · -- No line break stands at the end.
    have hcont := h.lines
    have hnot : ∀ us : List Token, linesContinue (us ++ [t]) = false := by
      intro us
      induction us with
      | nil => simp [linesContinue, hk]
      | cons u us ih => simp [linesContinue, ih]
    rw [hnot] at hcont
    cases hcont
  · obtain ⟨r, c, hconcat⟩ := (List.eq_nil_or_concat' t.text).resolve_left (h.ne_nil t (by simp))
    have htext := h.text
    rw [List.flatMap_append, List.flatMap_cons, foldedText, if_neg (by simp [hk]), hconcat] at htext
    exact ⟨c, by simp [← htext], h.blank t (by simp) hk c (by simp [hconcat])⟩

lemma flatMap_piece (i : Nat) : ((ts.zipIdx i).map piece).flatMap (·.1) = s := by
  rw [List.flatMap_map, ← h.text]
  conv_rhs => rw [← List.zipIdx_map_fst i ts, List.flatMap_map]
  rfl

/-- The tokens fold back to the text. -/
lemma folded_eq : folded ts = s := by
  rw [folded, indexed, foldLines_eq h.lines (by simp), h.flatMap_piece]

/-- Text that neither starts nor ends with a blank makes up one node. -/
lemma solid (hs : s ≠ []) (hhead : ∀ c ∈ s.head?, isBlank c = false ∧ c ≠ '\n')
    (hlast : ∀ c ∈ s.getLast?, isBlank c = false) : Solid ts := by
  have hne : ts ≠ [] := by
    rintro rfl
    exact hs h.text.symm
  obtain ⟨gap, u, body, rfl, hgap, -, hsolid⟩ := exists_solid h.lines h.kind_ne_closing hne
    (fun t ht => by
      by_contra hsep
      obtain ⟨c, hc, hblank⟩ := h.getLast?_of_isSeparator ht (by simpa using hsep)
      simp [hlast c hc] at hblank)
  cases gap with
  | nil => exact hsolid
  | cons g gap =>
    obtain ⟨c, hc, hsep⟩ := h.head?_of_isSeparator rfl (hgap g (by simp))
    obtain ⟨hblank, hn⟩ := hhead c hc
    simp [hblank, hn] at hsep

end Spells

end Token

end DocComment
