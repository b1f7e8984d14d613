import DocComment.Proofs.Token.Seam
import DocComment.Proofs.Tree.Segments

/-!
# The tokens of a part of a text

The kinds and texts of tokens do not depend on where a text starts (`map_lexeme_scanFrom`). Tokens
that follow each other in a text are those of the part of the text that they take: those at the end
always (`scanFrom_suffix`), those in the middle if they end with content and what follows stops it
(`scanFrom_of_append`). Separators are the same in front of any text that starts alike
(`scanFrom_gap`).
-/

namespace DocComment.Token

open Text

/-! ### Where a text starts -/

lemma map_lexeme_scanFrom (am : Bool) (i j : Nat) (s : Text) :
    (scanFrom am i s).map lexeme = (scanFrom am j s).map lexeme := by
  induction am, s using scan_induction generalizing i j with
  | nil am => simp
  | cons am c s ih =>
    simp only [scanFrom_cons, List.map_cons, lexeme]
    congr 1
    exact ih _ _

/-! ### The end of a text -/

/-- Whether a tag name may follow these tokens. -/
def endsMarker (am : Bool) : List Token → Bool
  | [] => am
  | t :: ts => endsMarker (t.kind = .marker) ts

@[simp] lemma endsMarker_append_singleton (am : Bool) (ts : List Token) (t : Token) :
    endsMarker am (ts ++ [t]) = decide (t.kind = .marker) := by
  induction ts generalizing am with
  | nil => rfl
  | cons u ts ih => exact ih _

section

variable {am : Bool} {i : Nat} {s : Text} {ts us : List Token}

/-- The tokens at the end of a text are those of what they take. -/
lemma scanFrom_suffix (h : scanFrom am i s = ts ++ us) :
    us = scanFrom (endsMarker am ts) (i + byteSize (source ts)) (source us) := by
  induction ts generalizing am i s with
  | nil =>
    rw [List.nil_append] at h
    rw [← h, source_scanFrom]
    rfl
  | cons t ts ih =>
    cases s with
    | nil => simp at h
    | cons c s =>
      rw [scanFrom_cons, List.cons_append] at h
      obtain ⟨rfl, hrest⟩ := List.cons.inj h
      have := ih hrest
      rwa [Nat.add_assoc, ← byteSize_append] at this

lemma isTagNameChar_of_isTagNameStart {c : Char} (h : isTagNameStart c) : isTagNameChar c := by
  simp only [isTagNameStart, isTagNameChar, Bool.or_eq_true] at h ⊢
  tauto

/-- A tag name follows every marker. -/
lemma head_of_endsMarker (h : scanFrom am i s = ts ++ us)
    (ham : am → ∃ c ∈ s.head?, isTagNameChar c) (he : endsMarker am ts) :
    ∃ u ∈ us.head?, u.kind = .identifier := by
  induction ts generalizing am i s with
  | nil =>
    obtain rfl : am = true := he
    obtain ⟨c, hc, hname⟩ := ham rfl
    obtain ⟨s, rfl⟩ := List.head?_eq_some_iff.1 hc
    rw [List.nil_append] at h
    rw [← h, scanFrom_cons]
    refine ⟨_, rfl, ?_⟩
    have h₁ : ¬ (c = '*' ∧ s.head? = some '/') := by
      rintro ⟨rfl, -⟩
      cases hname
    have h₂ : ¬ (c = '\r' ∧ s.head? = some '\n') := by
      rintro ⟨rfl, -⟩
      cases hname
    have h₃ : c ≠ '\n' := by
      rintro rfl
      cases hname
    simp [next_eq, h₁, h₂, h₃, hname]
  | cons t ts ih =>
    cases s with
    | nil => simp at h
    | cons c s =>
      rw [scanFrom_cons, List.cons_append] at h
      obtain ⟨rfl, hrest⟩ := List.cons.inj h
      refine ih hrest (fun hk => ?_) he
      obtain ⟨hnil, htag⟩ := next_of_marker (of_decide_eq_true hk)
      rw [startsTag_cons, Bool.and_eq_true, Option.any_eq_true] at htag
      rw [hnil, List.length_nil, List.drop_zero]
      obtain ⟨d, hd, hstart⟩ := htag.2
      exact ⟨d, hd, isTagNameChar_of_isTagNameStart hstart⟩

end

/-! ### The middle of a text -/

section

variable {x y : Text}

/-- A decoration that is all of a text is not shorter in front of another text. -/
lemma length_le_decoration_append (h : stops y) (hx : decoration x = x) :
    x.length ≤ (decoration (x ++ y)).length := by
  obtain ⟨bl, r, rfl, hbl, hr⟩ := exists_span isBlank x
  rw [decoration_of_blank hbl hr, List.append_cancel_left_eq] at hx
  cases r with
  | nil =>
    obtain ⟨bl', r', rfl, hbl', hr'⟩ := exists_span isBlank y
    have hall : ∀ c ∈ bl ++ bl', isBlank c := List.forall_mem_append.2 ⟨hbl, hbl'⟩
    rw [List.append_nil, ← List.append_assoc, decoration_of_blank hall hr']
    simp only [List.length_append]
    omega
  | cons c r =>
    rw [List.append_assoc, List.cons_append, decoration_of_blank hbl (by simpa using hr)]
    have hy := ne_slash_of_stops h
    simp only [star] at hx ⊢
    split_ifs at hx ⊢ with h₁ h₂ h₃ h₄ <;> simp_all

/-- A token that ends within a text, or ends it and is content, is one of that text alone. -/
lemma next_of_append (h : stops y) {am : Bool} {c : Char}
    (hr : (c :: x).getLast? = some '\r' → y.head? ≠ some '\n')
    (hle : (next am c (x ++ y)).2.length < x.length ∨ (next am c (x ++ y)).2.length ≤ x.length ∧
      (next am c (x ++ y)).1 ≠ .lineBreak ∧ (next am c (x ++ y)).1 ≠ .blank) :
    next am c (x ++ y) = next am c x := by
  refine next_stops h hr fun hall hkind => ?_
  exfalso
  have hlt : (next am c (x ++ y)).2.length < x.length := by
    refine hle.resolve_right fun ⟨_, h₁, h₂⟩ => ?_
    rw [fst_next_append h hr] at h₁ h₂
    rcases hkind with hk | hk
    · exact h₁ hk
    · exact h₂ hk
  -- All of the text is one separator, which takes as much in front of another text.
  refine Nat.not_le.2 hlt ?_
  have hcut := cuts_next am c x
  have hcut' := cuts_next am c (x ++ y)
  rw [fst_next_append h hr] at hcut'
  generalize (next am c x).1 = k at hcut hcut' hkind
  generalize (next am c x).2 = m at hcut hall
  generalize (next am c (x ++ y)).2 = m' at hcut' ⊢
  rcases hkind with rfl | rfl
  · cases hcut with
    | carriageReturn hc hs =>
      cases hcut' with
      | carriageReturn =>
        obtain ⟨x, rfl⟩ := List.head?_eq_some_iff.1 hs
        have hx : decoration x = x := by simpa using hall
        simpa using length_le_decoration_append h hx
      | lineFeed hc' => cases hc.symm.trans hc'
    | lineFeed hc =>
      cases hcut' with
      | carriageReturn hc' => cases hc.symm.trans hc'
      | lineFeed => exact length_le_decoration_append h hall
  · cases hcut with
    | blank =>
      cases hcut' with
      | blank =>
        have hblank : ∀ d ∈ x, isBlank d := List.takeWhile_eq_self_iff.1 hall
        rw [List.takeWhile_append_of_pos hblank, List.length_append]
        exact Nat.le_add_right _ _

/-- Plain text goes on with plain text. -/
lemma startsSpecial_of_plain {l r w : Text} (h : plain (l ++ w) = l ++ r) (hr : r ≠ []) :
    startsSpecial w = false := by
  induction l with
  | nil =>
    rw [List.nil_append, List.nil_append] at h
    cases w with
    | nil => exact absurd h.symm hr
    | cons c w =>
      rw [plain] at h
      split_ifs at h with hs
      · exact absurd h.symm hr
      · simpa using hs
  | cons c l ih =>
    rw [List.cons_append, List.cons_append, plain] at h
    split_ifs at h
    exact ih (List.cons.inj h).2

/-- No token of content ends between a carriage return and a line feed. -/
lemma ne_newline_of_next {am : Bool} {c : Char} {m z : Text} (h : (next am c (m ++ z)).2 = m)
    (hk : (next am c (m ++ z)).1 ≠ .lineBreak) (hm : (c :: m).getLast? = some '\r') :
    z.head? ≠ some '\n' := by
  intro hz
  obtain ⟨z, rfl⟩ := List.head?_eq_some_iff.1 hz
  rcases List.eq_nil_or_concat' m with rfl | ⟨m, d, rfl⟩
  · obtain rfl : c = '\r' := by simpa using hm
    exact hk rfl
  · obtain rfl : d = '\r' := by
      rw [← List.cons_append, List.getLast?_concat] at hm
      exact Option.some.inj hm
    generalize htext : m ++ ['\r'] ++ '\n' :: z = s at h hk
    have hclass : ∀ p : Char → Bool, p '\r' = false → m ++ ['\r'] ≠ s.takeWhile p := by
      intro p hp htake
      have hmem : '\r' ∈ s.takeWhile p := by simp [← htake]
      rw [List.mem_takeWhile_imp hmem] at hp
      cases hp
    have hcut := cuts_next am c s
    rw [h] at hcut
    generalize (next am c s).1 = k at hcut hk
    generalize hmore : m ++ ['\r'] = more at hcut
    cases hcut with
    | closing => simpa using congrArg List.getLast? hmore
    | carriageReturn => exact hk rfl
    | lineFeed => exact hk rfl
    | tagName => exact hclass isTagNameChar rfl hmore
    | marker => simp at hmore
    | blank => exact hclass isBlank rfl hmore
    | word => exact hclass isWordChar rfl hmore
    | sign => simp at hmore
    | text =>
      rw [← htext, List.append_assoc] at hmore
      have := startsSpecial_of_plain hmore.symm (List.cons_ne_nil _ _)
      simp [startsSpecial] at this

end

section

variable {am : Bool} {i : Nat} {y : Text} {ts us : List Token}

/-- The first token takes the first characters. -/
lemma next_of_scanFrom_cons {s : Text} {t : Token} (h : scanFrom am i s = t :: ts) :
    ∃ c m z, s = c :: (m ++ z) ∧ t = ⟨(next am c (m ++ z)).1, c :: m, i⟩ ∧
      (next am c (m ++ z)).2 = m ∧
      ts = scanFrom (t.kind = .marker) (i + byteSize t.text) z := by
  cases s with
  | nil => simp at h
  | cons c s =>
    rw [scanFrom_cons] at h
    obtain ⟨rfl, rfl⟩ := List.cons.inj h
    refine ⟨c, (next am c s).2, s.drop (next am c s).2.length, ?_, ?_, ?_, rfl⟩
    all_goals rw [next_append]

/-- Content at the end of some tokens does not end between a carriage return and a line feed. -/
lemma ne_newline_of_scanFrom (h : scanFrom am i (source ts ++ y) = ts ++ us)
    (hlast : ∀ t ∈ ts.getLast?, t.isSeparator = false) (hm : (source ts).getLast? = some '\r') :
    y.head? ≠ some '\n' := by
  rcases List.eq_nil_or_concat' ts with rfl | ⟨ts, t, rfl⟩
  · simp at hm
  · have ht : t.isSeparator = false := hlast t (by simp)
    have hsource : y = source us := by
      have := congrArg source h
      rw [source_scanFrom, source_append (ts ++ [t])] at this
      exact List.append_cancel_left this
    have hsplit : scanFrom am i (source (ts ++ [t]) ++ y) = ts ++ t :: us := h.trans (by simp)
    have hsuffix := scanFrom_suffix hsplit
    obtain ⟨c, m, z, hz, rfl, hnext, -⟩ := next_of_scanFrom_cons hsuffix.symm
    rw [source_cons, List.cons_append, ← hsource] at hz
    obtain rfl : y = z := List.append_cancel_left (List.cons.inj hz).2
    refine ne_newline_of_next hnext (fun hk => ?_) ?_
    · simp [isSeparator, hk] at ht
    · rw [source_append, source_cons, source_nil, List.append_nil,
        List.getLast?_append_of_ne_nil _ (List.cons_ne_nil c m)] at hm
      exact hm

/-- Tokens that end with content, in front of a text that stops it, are those of what they take. -/
lemma scanFrom_of_append (hy : stops y) (h : scanFrom am i (source ts ++ y) = ts ++ us)
    (hlast : ∀ t ∈ ts.getLast?, t.isSeparator = false) : scanFrom am i (source ts) = ts := by
  have hr := ne_newline_of_scanFrom h hlast
  induction ts generalizing am i with
  | nil => simp
  | cons t ts ih =>
    obtain ⟨c, m, z, hz, rfl, hnext, hrest⟩ := next_of_scanFrom_cons h
    rw [source_cons, List.append_assoc, List.cons_append] at hz
    obtain rfl : source ts ++ y = z := List.append_cancel_left (List.cons.inj hz).2
    have hlast' : ∀ t ∈ ts.getLast?, t.isSeparator = false := by
      intro t ht
      refine hlast t ?_
      rw [List.getLast?_cons, Option.mem_def.1 ht]
      rfl
    have ih' := ih hrest.symm hlast' (ne_newline_of_scanFrom hrest.symm hlast')
    have hsame : next am c (m ++ source ts) = next am c (m ++ (source ts ++ y)) := by
      rw [← List.append_assoc]
      refine (next_of_append hy (by simpa using hr) ?_).symm
      rw [List.append_assoc, hnext]
      cases ts with
      | nil =>
        have ht := hlast _ rfl
        refine .inr ⟨by simp, fun hk => ?_, fun hk => ?_⟩
        · rw [isSeparator, hk] at ht
          cases ht
        · rw [isSeparator, hk] at ht
          cases ht
      | cons u us =>
        obtain ⟨d, m', z', -, hu, -⟩ := next_of_scanFrom_cons hrest.symm
        have hpos : 0 < u.text.length := by
          rw [hu]
          exact Nat.succ_pos m'.length
        refine .inl ?_
        simp only [source_cons, List.length_append]
        omega
    rw [source_cons, List.cons_append, scanFrom_cons, hsame, hnext, List.drop_left]
    exact congrArg _ ih'

end

/-! ### Separators -/

section

variable {y z z' : Text} {us : List Token}

/-- A decoration is the same in front of any text that starts alike, or with a tag. -/
lemma decoration_congr {d : Text} (h : decoration (d ++ z) = d)
    (hz : z'.head? = z.head? ∧ ¬ ['*', '/'] <+: z ∨ z'.head? = some '@') :
    decoration (d ++ z') = d := by
  obtain ⟨bl, r, rfl, hbl, hr⟩ := exists_span isBlank d
  cases r with
  | nil =>
    obtain ⟨bl', r', rfl, hbl', hr'⟩ := exists_span isBlank z
    have hall : ∀ c ∈ bl ++ bl', isBlank c := List.forall_mem_append.2 ⟨hbl, hbl'⟩
    rw [List.append_nil] at h ⊢
    rw [← List.append_assoc, decoration_of_blank hall hr', List.append_assoc,
      List.append_right_eq_self, List.append_eq_nil_iff] at h
    obtain ⟨rfl, hstar⟩ := h
    rw [List.nil_append] at hz
    have hhead : ∀ c ∈ z'.head?, isBlank c = false := by
      intro c hc
      rcases hz with ⟨hz, -⟩ | hz
      · exact hr' c (hz ▸ hc)
      · obtain rfl : '@' = c := Option.some.inj (hz.symm.trans hc)
        rfl
    rw [decoration_of_blank hbl hhead, List.append_right_eq_self]
    cases hhead' : z'.head? with
    | none => simp [List.head?_eq_none_iff.1 hhead', star]
    | some c =>
      obtain ⟨s', rfl⟩ := List.head?_eq_some_iff.1 hhead'
      have hne : c ≠ '*' := by
        rintro rfl
        rcases hz with ⟨hz, hnot⟩ | hz
        · obtain ⟨s, rfl⟩ := List.head?_eq_some_iff.1 hz.symm
          have hslash : s.head? ≠ some '/' := by
            intro hs
            obtain ⟨s, rfl⟩ := List.head?_eq_some_iff.1 hs
            exact hnot ⟨s, rfl⟩
          simp only [star, hslash, ne_eq, not_true_eq_false, or_self, if_false] at hstar
          split_ifs at hstar
        · cases hz
      simp [star, hne]
  | cons c r =>
    rw [List.append_assoc, List.cons_append, decoration_of_blank hbl (by simpa using hr),
      List.append_cancel_left_eq] at h
    rw [List.append_assoc, List.cons_append, decoration_of_blank hbl (by simpa using hr),
      List.append_cancel_left_eq]
    have hchar : ∀ e, e ≠ '@' → z.head? ≠ some e → z'.head? ≠ some e := by
      intro e he hne
      rcases hz with ⟨hz, -⟩ | hz
      · rwa [hz]
      · rw [hz]
        exact fun h => he (Option.some.inj h).symm
    cases r with
    | nil =>
      simp only [star, List.nil_append] at h ⊢
      split_ifs at h with h₁ h₂
      · simp at h
      · rw [if_neg, if_neg (hchar ' ' (by decide) h₂), h]
        rw [not_or] at h₁ ⊢
        exact ⟨h₁.1, hchar '/' (by decide) h₁.2⟩
    | cons e r => simpa [star] using h

/-- A separator is the same in front of any text that starts alike, or with a tag. -/
lemma next_separator {c : Char} {m : Text} (h : (next false c (m ++ z)).2 = m)
    (hk : (next false c (m ++ z)).1 = .lineBreak ∨ (next false c (m ++ z)).1 = .blank)
    (hz : z'.head? = z.head? ∧ ¬ ['*', '/'] <+: z ∨ z'.head? = some '@') :
    next false c (m ++ z') = next false c (m ++ z) := by
  by_cases h₁ : c = '*' ∧ (m ++ z).head? = some '/'
  · rw [next_eq, if_pos h₁] at hk
    simp at hk
  by_cases h₂ : c = '\r' ∧ (m ++ z).head? = some '\n'
  · rw [next_eq, if_neg h₁, if_pos h₂] at h
    obtain ⟨d, rfl⟩ : ∃ d, m = '\n' :: d := ⟨_, h.symm⟩
    have hd : decoration (d ++ z) = d := (List.cons.inj h).2
    obtain rfl := h₂.1
    change (Kind.lineBreak, '\n' :: decoration (d ++ z')) =
      (.lineBreak, '\n' :: decoration (d ++ z))
    rw [hd, decoration_congr hd hz]
  by_cases h₃ : c = '\n'
  · subst h₃
    have hnext : ∀ s, next false '\n' s = (.lineBreak, decoration s) := by
      intro s
      simp [next_eq]
    have hm : decoration (m ++ z) = m := by
      rw [hnext] at h
      exact h
    rw [hnext, hnext, hm, decoration_congr hm hz]
  · rw [next_eq, if_neg h₁, if_neg h₂, if_neg h₃] at h hk
    simp only [Bool.false_and, Bool.false_eq_true, if_false] at h hk
    split_ifs at h hk with h₄ h₅ h₆ h₇
    · simp at hk
    · -- Only blanks are left.
      have hblank : ∀ s, next false c s = (.blank, s.takeWhile isBlank) := by
        intro s
        rcases blank_cases h₅ with rfl | rfl <;> rw [next_eq] <;> simp [startsTag, isBlank]
      have hm : ∀ d ∈ m, isBlank d := by
        intro d hd
        rw [← h] at hd
        exact List.mem_takeWhile_imp hd
      have hhead : ∀ d ∈ z.head?, isBlank d = false := by
        rw [List.takeWhile_append_of_pos hm] at h
        intro d hd
        obtain ⟨z, rfl⟩ := List.head?_eq_some_iff.1 hd
        by_contra hd'
        rw [Bool.not_eq_false] at hd'
        simp [hd'] at h
      have hhead' : ∀ d ∈ z'.head?, isBlank d = false := by
        intro d hd
        rcases hz with ⟨hz, -⟩ | hz
        · exact hhead d (hz ▸ hd)
        · obtain rfl : '@' = d := Option.some.inj (hz.symm.trans hd)
          rfl
      rw [hblank, hblank, takeWhile_append_of_head hhead, takeWhile_append_of_head hhead']
    · simp at hk
    · simp at hk
    · simp at hk

/-- A separator starts with no star. -/
lemma head_of_isSeparator {am : Bool} {i : Nat} {s : Text} {t : Token} (h : t ∈ scanFrom am i s)
    (hsep : t.isSeparator) : ∃ c m, t.text = c :: m ∧ c ≠ '*' := by
  rcases isSeparator_iff.1 hsep with hk | hk
  · obtain ⟨s, ht | ht⟩ := text_of_lineBreak h hk
    · exact ⟨_, _, ht, by decide⟩
    · exact ⟨_, _, ht, by decide⟩
  · obtain ⟨hne, hblank⟩ := text_of_blank h hk
    obtain ⟨c, m, hm⟩ := List.exists_cons_of_ne_nil hne
    refine ⟨c, m, hm, ?_⟩
    rintro rfl
    have := hblank '*' (by simp [hm])
    simp [isBlank] at this

/-- Separators start with a line break or a blank. -/
lemma head?_source_of_isSeparator {raw : Text} {ts : List Token} (hmem : ∀ t ∈ ts, t ∈ scan raw)
    (hsep : ∀ t ∈ ts, t.isSeparator) (hne : ts ≠ []) :
    source ts ≠ [] ∧ (source ts).head? ≠ some '/' := by
  obtain ⟨t, us, rfl⟩ := List.exists_cons_of_ne_nil hne
  have ht := hsep t List.mem_cons_self
  have hopening : t.kind ≠ .opening := by
    rcases isSeparator_iff.1 ht with h | h <;> simp [h]
  obtain ⟨start, s', hscan⟩ := mem_scan (hmem t List.mem_cons_self) hopening
  obtain ⟨hne, hstops⟩ := stops_of_isSeparator hscan ht (source us)
  rw [source_cons]
  exact ⟨by simp [hne], ne_slash_of_stops hstops⟩

/-- Separators are the same in front of any content that starts alike, or with a tag. -/
lemma scanFrom_gap {i : Nat} {gap : List Token} (hsep : ∀ t ∈ gap, t.isSeparator)
    (h : scanFrom false i (source gap ++ y) = gap ++ us) (hy : ¬ ['*', '/'] <+: y)
    (hz : z.head? = y.head? ∨ z.head? = some '@') :
    scanFrom false i (source gap ++ z) = gap ++ scanFrom false (i + byteSize (source gap)) z := by
  induction gap generalizing i with
  | nil => simp
  | cons t gap ih =>
    obtain ⟨c, m, r, hr, rfl, hnext, hrest⟩ := next_of_scanFrom_cons h
    rw [source_cons, List.append_assoc, List.cons_append] at hr
    obtain rfl : source gap ++ y = r := List.append_cancel_left (List.cons.inj hr).2
    have hk : (next false c (m ++ (source gap ++ y))).1 = .lineBreak ∨
        (next false c (m ++ (source gap ++ y))).1 = .blank :=
      isSeparator_iff.1 (hsep _ List.mem_cons_self)
    have hmarker : decide ((next false c (m ++ (source gap ++ y))).1 = .marker) = false := by
      rcases hk with hk | hk <;> simp [hk]
    simp only [hmarker] at hrest
    have ih' := ih (fun t ht => hsep t (List.mem_cons_of_mem _ ht)) hrest.symm
    have hnext' : next false c (m ++ (source gap ++ z)) =
        next false c (m ++ (source gap ++ y)) := by
      refine next_separator hnext hk ?_
      cases gap with
      | nil => exact hz.imp_left fun hz => ⟨hz, hy⟩
      | cons u gap =>
        have hu : u ∈ scanFrom false (i + byteSize (c :: m)) (source (u :: gap) ++ y) := by
          rw [← hrest]
          exact List.mem_cons_self
        obtain ⟨d, r, hd, hne⟩ := head_of_isSeparator hu (hsep u (by simp))
        rw [source_cons, hd]
        refine .inl ⟨rfl, fun hclosing => hne ?_⟩
        exact (List.cons_prefix_cons.1 hclosing).1.symm
    rw [source_cons, List.append_assoc, List.cons_append, scanFrom_cons, hnext', hnext, hmarker,
      List.drop_left, ih', byteSize_append, ← Nat.add_assoc]
    rfl

end

/-! ### Line breaks -/

section

variable {nl d y : Text}

/-- A line feed, maybe after a carriage return. -/
def IsNewline (s : Text) : Prop := s = ['\n'] ∨ s = ['\r', '\n']

lemma scanFrom_newline (hnl : IsNewline nl) (h : decoration (d ++ y) = d) (i : Nat) :
    scanFrom false i (nl ++ d ++ y) =
      ⟨.lineBreak, nl ++ d, i⟩ :: scanFrom false (i + byteSize (nl ++ d)) y := by
  rcases hnl with rfl | rfl
  · have hnext : next false '\n' (d ++ y) = (.lineBreak, d) := by
      simp [next_eq, h]
    change scanFrom false i ('\n' :: (d ++ y)) = _
    rw [scanFrom_cons, hnext, List.drop_left]
    rfl
  · have hnext : next false '\r' ('\n' :: (d ++ y)) = (.lineBreak, '\n' :: d) := by
      simp [next_eq, h]
    change scanFrom false i ('\r' :: '\n' :: (d ++ y)) = _
    rw [scanFrom_cons, hnext, ← List.cons_append, List.drop_left]
    rfl

lemma decoration_starred {bl : Text} (hbl : ∀ c ∈ bl, isBlank c) (y : Text) :
    decoration (bl ++ ['*', ' '] ++ y) = bl ++ ['*', ' '] := by
  rw [List.append_assoc, decoration_of_blank hbl (by simp [isBlank])]
  simp [star]

lemma decoration_bare {bl : Text} (hbl : ∀ c ∈ bl, isBlank c)
    (hy : ∀ c ∈ y.head?, isBlank c = false ∧ c ≠ '*') : decoration (bl ++ y) = bl := by
  rw [decoration_of_blank hbl fun c hc => (hy c hc).1, List.append_right_eq_self]
  cases y with
  | nil => rfl
  | cons c y => simp [star, (hy c rfl).2]

/-- Decorations are blanks, a star that may follow, and a space that may follow that. -/
lemma decoration_cases (s : Text) : ∃ bl : Text, (∀ c ∈ bl, isBlank c) ∧
    (decoration s = bl ∨ decoration s = bl ++ ['*'] ∨ decoration s = bl ++ ['*', ' ']) := by
  obtain ⟨bl, r, rfl, hbl, hr⟩ := exists_span isBlank s
  refine ⟨bl, hbl, ?_⟩
  rw [decoration_of_blank hbl hr]
  cases r with
  | nil => simp [star]
  | cons c r =>
    simp only [star]
    split_ifs <;> simp

end

end DocComment.Token
