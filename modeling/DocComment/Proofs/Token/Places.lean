import DocComment.Proofs.Text.Cut
import DocComment.Proofs.Token.Part

/-!
# Where the tokens of each kind stand

Every place of a comment is in one token (`exists_token_at`). Behind the first character of a token
neither a closing delimiter nor a tag starts, and a line feed stands there only behind a carriage
return (`inside_of_next`). So the closing delimiters, line breaks and markers among the tokens are
those of the text, wherever they stand (`isPlaced_scan`).
-/

namespace DocComment.Token

open Text

/-! ### Tokens by what is in front of them -/

section

variable {raw : Text} {us vs : List Token} {t : Token}

/-- A token within others is the next one of what is left there. -/
lemma next_of_scanFrom_append {am : Bool} {i : Nat} {s : Text}
    (h : scanFrom am i s = us ++ t :: vs) : ∃ am c more, t.text = c :: more ∧
      next am c (more ++ source vs) = (t.kind, more) ∧
      vs = scanFrom (t.kind = .marker) t.stop (source vs) := by
  obtain ⟨c, more, z, hz, ht, hnext, hrest⟩ := next_of_scanFrom_cons (scanFrom_suffix h).symm
  have htext : t.text = c :: more := by rw [ht]
  rw [source_cons, htext, List.cons_append] at hz
  obtain rfl : source vs = z := List.append_cancel_left (List.cons.inj hz).2
  refine ⟨_, c, more, htext, Prod.ext ?_ hnext, ?_⟩
  · rw [ht]
  · have hstart : i + byteSize (source us) = t.start := by rw [ht]
    rwa [hstart] at hrest

/-- A token of a comment is the opening delimiter at its start, or the next one of what is left. -/
lemma scan_eq_append_cons (h : scan raw = us ++ t :: vs) :
    (us = [] ∧ t.kind = .opening ∧ (t.text = ['/', '*', '*'] ∨ t.text = ['/', '*'])) ∨
    ∃ am c more, t.text = c :: more ∧ next am c (more ++ source vs) = (t.kind, more) ∧
      vs = scanFrom (t.kind = .marker) t.stop (source vs) := by
  rcases scan_cases raw with ⟨stars, hstars, rest, -, hscan⟩ | hscan
  · cases us with
    | nil =>
      rw [hscan, List.nil_append] at h
      obtain ⟨rfl, -⟩ := List.cons.inj h
      refine .inl ⟨rfl, rfl, hstars.imp (fun hs => ?_) fun hs => ?_⟩
      all_goals rw [hs]
    | cons u us =>
      rw [hscan, List.cons_append] at h
      exact .inr (next_of_scanFrom_append (List.cons.inj h).2)
  · rw [hscan] at h
    exact .inr (next_of_scanFrom_append h)

lemma eq_source_of_scan (h : scan raw = us ++ t :: vs) :
    raw = source us ++ (t.text ++ source vs) := by
  rw [← source_scan raw, h, source_append, source_cons]

lemma start_of_scan (h : scan raw = us ++ t :: vs) : t.start = byteSize (source us) := by
  have hconsecutive := consecutive_scan raw
  rw [h] at hconsecutive
  rw [hconsecutive.start_eq, Nat.zero_add]

/-- Nothing else of a comment starts in front of the end of its opening delimiter. -/
lemma stop_le_of_scan (h : scan raw = us ++ t :: vs) (hk : t.kind ≠ .opening) :
    ∀ o ∈ scan raw, o.kind = .opening → o.stop ≤ byteSize (source us) := by
  intro o ho hopening
  obtain ⟨us', vs', hsplit⟩ := List.append_of_mem ho
  obtain ⟨rfl, -⟩ | ⟨am, c, more, -, hnext, -⟩ := scan_eq_append_cons hsplit
  · cases us with
    | nil =>
      obtain ⟨rfl, -⟩ := List.cons.inj (h.symm.trans hsplit)
      exact absurd hopening hk
    | cons u us =>
      obtain ⟨rfl, -⟩ := List.cons.inj (h.symm.trans hsplit)
      rw [stop, start_of_scan hsplit, source_nil, byteSize_nil, Nat.zero_add, source_cons,
        byteSize_append]
      exact Nat.le_add_right _ _
  · have hcut := cuts_next am c (more ++ source vs')
    rw [hnext, hopening] at hcut
    cases hcut

end

/-! ### Places -/

/-- Every place of a text that is joined of parts is in one of the parts. -/
lemma exists_part_at {α : Type} {f : α → Text} {as : List α} {before w : Text}
    (h : as.flatMap f = before ++ w) (hw : w ≠ []) : ∃ us a vs l r, as = us ++ a :: vs ∧
      f a = l ++ r ∧ r ≠ [] ∧ before = us.flatMap f ++ l ∧ w = r ++ vs.flatMap f := by
  induction as generalizing before with
  | nil => exact absurd (List.append_eq_nil_iff.1 h.symm).2 hw
  | cons a as ih =>
    -- The place is behind the part, or in it.
    have hlater : ∀ m, before = f a ++ m → as.flatMap f = m ++ w → ∃ us b vs l r,
        a :: as = us ++ b :: vs ∧ f b = l ++ r ∧ r ≠ [] ∧ before = us.flatMap f ++ l ∧
          w = r ++ vs.flatMap f := by
      intro m hbefore hm
      obtain ⟨us, b, vs, l, r, rfl, hb, hr, rfl, hw⟩ := ih hm
      exact ⟨a :: us, b, vs, l, r, rfl, hb, hr, by
        rw [hbefore, List.flatMap_cons, List.append_assoc], hw⟩
    rw [List.flatMap_cons] at h
    rcases List.append_eq_append_iff.1 h with ⟨m, hbefore, hm⟩ | ⟨m, hpart, hm⟩
    · exact hlater m hbefore hm
    · by_cases hnil : m = []
      · subst hnil
        refine hlater [] ?_ ?_
        · rw [hpart, List.append_nil, List.append_nil]
        · simpa using hm.symm
      · exact ⟨[], a, as, before, m, rfl, hpart, hnil, rfl, hm⟩

/-- Every place of a text is in one of the tokens that the text was cut into. -/
lemma exists_token_at {ts : List Token} {before w : Text} (h : source ts = before ++ w)
    (hw : w ≠ []) : ∃ us t vs l r, ts = us ++ t :: vs ∧ t.text = l ++ r ∧ r ≠ [] ∧
      before = source us ++ l ∧ w = r ++ source vs :=
  exists_part_at h hw

/-- Tokens that follow each other have their bytes to themselves. -/
lemma Consecutive.pairwise {start : Nat} {ts : List Token} (h : Consecutive start ts) :
    ts.Pairwise (fun t u => t.stop ≤ u.start) ∧ ∀ t ∈ ts, start ≤ t.start := by
  induction ts generalizing start with
  | nil => simp
  | cons t ts ih =>
    obtain ⟨rfl, hts⟩ := h
    obtain ⟨hpairwise, hle⟩ := ih hts
    refine ⟨List.pairwise_cons.2 ⟨hle, hpairwise⟩, List.forall_mem_cons.2 ⟨Nat.le_refl _, ?_⟩⟩
    exact fun u hu => Nat.le_trans (Nat.le_add_right _ _) (hle u hu)

/-- A byte is in no other token. -/
lemma eq_of_mem_scan {raw : Text} {us vs : List Token} {t u : Token} {n : Nat}
    (h : scan raw = us ++ t :: vs) (ht : t.start ≤ n ∧ n < t.stop) (hu : u ∈ scan raw)
    (hn : u.start ≤ n ∧ n < u.stop) : u = t := by
  have hpairwise := (consecutive_scan raw).pairwise.1
  rw [h, List.pairwise_append, List.pairwise_cons] at hpairwise
  obtain ⟨-, ⟨hvs, -⟩, hus⟩ := hpairwise
  rw [h, List.mem_append, List.mem_cons] at hu
  rcases hu with hu | hu | hu
  · have := hus u hu t List.mem_cons_self
    omega
  · exact hu
  · have := hvs u hu
    omega

/-! ### Inside a token -/

/-- A star that a decoration takes is not in front of a slash. -/
lemma ne_slash_of_decoration {l r z : Text}
    (h : decoration (l ++ '*' :: (r ++ z)) = l ++ '*' :: r) : (r ++ z).head? ≠ some '/' := by
  obtain ⟨bl, rest, hs, hbl, hrest⟩ := exists_span isBlank (l ++ '*' :: (r ++ z))
  rw [hs, decoration_of_blank hbl hrest] at h
  have hstar : '*' ∉ bl := fun hmem => absurd (hbl '*' hmem) (by decide)
  cases rest with
  | nil =>
    rw [star, List.append_nil] at h
    exact absurd (by simp [h]) hstar
  | cons c rest =>
    simp only [star] at h
    split_ifs at h with hclosing hspace
    · rw [List.append_nil] at h
      exact absurd (by simp [h]) hstar
    all_goals
      rw [not_or, not_not] at hclosing
      obtain ⟨rfl, hslash⟩ := hclosing
      -- The star is the first one of the text, so the same text stands behind it.
      obtain ⟨m, hm, htaken⟩ := exists_append_of_not_mem hstar h
      obtain ⟨m', hm', hrest'⟩ := exists_append_of_not_mem hstar hs.symm
      obtain rfl : m = m' := List.append_cancel_left (hm.symm.trans hm')
      rcases List.eq_nil_or_concat' m with rfl | ⟨m, d, rfl⟩
      · rwa [hrest'] at hslash
      · have hd := congrArg List.getLast? hm
        rw [← List.append_assoc, List.getLast?_concat, List.getLast?_concat] at hd
        obtain rfl := Option.some.inj hd
        have hmem := congrArg ('*' ∈ ·) htaken
        simp at hmem

/-- Nothing that is a token of its own starts behind the first character of a token: no closing
delimiter and no tag, and a line feed only behind the carriage return of a line break. -/
lemma inside_of_next {am : Bool} {c d : Char} {k : Kind} {l r z : Text}
    (h : next am c (l ++ d :: (r ++ z)) = (k, l ++ d :: r)) :
    ¬ (d = '*' ∧ (r ++ z).head? = some '/') ∧ startsTag (d :: (r ++ z)) = false ∧
      (d = '\n' → k = .lineBreak ∧ c = '\r' ∧ l = []) := by
  have hclass : ∀ p : Char → Bool, p '*' = false → p '@' = false → p '\n' = false → p d →
      ¬ (d = '*' ∧ (r ++ z).head? = some '/') ∧ startsTag (d :: (r ++ z)) = false ∧
        (d = '\n' → k = .lineBreak ∧ c = '\r' ∧ l = []) := by
    intro p hstar htag hfeed hd
    have hne : ∀ e, p e = false → d ≠ e := by
      rintro e he rfl
      rw [hd] at he
      cases he
    exact ⟨fun hclosing => hne _ hstar hclosing.1, by simp [startsTag_cons, hne _ htag],
      fun hd => absurd hd (hne _ hfeed)⟩
  have hdecoration : ∀ l, decoration (l ++ d :: (r ++ z)) = l ++ d :: r →
      ¬ (d = '*' ∧ (r ++ z).head? = some '/') ∧ startsTag (d :: (r ++ z)) = false ∧ d ≠ '\n' := by
    intro l hl
    have hd : isBlank d ∨ d = '*' := mem_decoration (s := l ++ d :: (r ++ z)) (by simp [hl])
    refine ⟨?_, ?_, ?_⟩
    · rintro ⟨rfl, hslash⟩
      exact ne_slash_of_decoration hl hslash
    · rcases hd with hd | rfl
      · rcases blank_cases hd with rfl | rfl <;> rfl
      · simp [startsTag_cons]
    · rintro rfl
      simp [isBlank] at hd
  have hcut := cuts_next am c (l ++ d :: (r ++ z))
  rw [h] at hcut
  dsimp only at hcut
  generalize hs : l ++ d :: (r ++ z) = s at hcut h
  generalize hmore : l ++ d :: r = more at hcut
  have hmem : d ∈ more := by simp [← hmore]
  cases hcut with
  | closing =>
    obtain rfl : d = '/' := by simpa using hmem
    exact ⟨by simp, by simp [startsTag_cons], by simp⟩
  | carriageReturn hc hn =>
    cases l with
    | nil =>
      obtain ⟨rfl, -⟩ := List.cons.inj hmore
      exact ⟨by simp, by simp [startsTag_cons], fun _ => ⟨rfl, hc, rfl⟩⟩
    | cons e l =>
      obtain ⟨-, hl⟩ := List.cons.inj hmore
      rw [← hs, List.cons_append, List.tail_cons] at hl
      obtain ⟨h₁, h₂, h₃⟩ := hdecoration l hl.symm
      exact ⟨h₁, h₂, fun hd => absurd hd h₃⟩
  | lineFeed =>
    rw [← hs] at hmore
    obtain ⟨h₁, h₂, h₃⟩ := hdecoration l hmore.symm
    exact ⟨h₁, h₂, fun hd => absurd hd h₃⟩
  | tagName => exact hclass isTagNameChar rfl rfl rfl (List.mem_takeWhile_imp hmem)
  | marker => cases hmem
  | blank => exact hclass isBlank rfl rfl rfl (List.mem_takeWhile_imp hmem)
  | word => exact hclass isWordChar rfl rfl rfl (List.mem_takeWhile_imp hmem)
  | sign => cases hmem
  | text =>
    rw [← hs] at hmore
    have hspecial := startsSpecial_of_plain hmore.symm (List.cons_ne_nil d r)
    simp only [startsSpecial_cons, Bool.or_eq_false_iff, decide_eq_false_iff_not] at hspecial
    exact ⟨hspecial.1.1.1.1.1.2, hspecial.1.1.2, fun hd => absurd hd hspecial.1.1.1.2⟩

/-! ### Where tokens start -/

section

variable {raw before w : Text} {d : Char}

/-- A closing delimiter or a tag behind the opening delimiter starts a token. -/
lemma exists_token_starting (hraw : raw = before ++ d :: w)
    (hd : d = '*' ∧ w.head? = some '/' ∨ startsTag (d :: w))
    (hopening : ∀ o ∈ scan raw, o.kind = .opening → o.stop ≤ byteSize before) :
    ∃ t ∈ scan raw, t.start = byteSize before ∧
      ∃ am more, t.text = d :: more ∧ next am d w = (t.kind, more) := by
  obtain ⟨us, t, vs, l, r, hscan, htext, hr, rfl, hw⟩ :=
    exists_token_at ((source_scan raw).trans hraw) (List.cons_ne_nil d w)
  obtain ⟨e, r, rfl⟩ := List.exists_cons_of_ne_nil hr
  rw [List.cons_append] at hw
  obtain ⟨rfl, rfl⟩ := List.cons.inj hw
  have hmem : t ∈ scan raw := by simp [hscan]
  rcases scan_eq_append_cons hscan with ⟨rfl, hk, -⟩ | ⟨am, c, more, hcons, hnext, -⟩
  · have hstop := hopening t hmem hk
    have hpos := d.utf8Size_pos
    rw [stop, htext, byteSize_append, byteSize_append, byteSize_cons, start_of_scan hscan] at hstop
    omega
  · rw [htext] at hcons
    cases l with
    | nil =>
      obtain ⟨rfl, rfl⟩ := List.cons.inj hcons
      refine ⟨t, hmem, ?_, am, r, htext, hnext⟩
      rw [start_of_scan hscan, List.append_nil]
    | cons e l =>
      rw [List.cons_append] at hcons
      obtain ⟨-, hmore⟩ := List.cons.inj hcons
      rw [← hmore, List.append_assoc, List.cons_append] at hnext
      obtain ⟨hclosing, htag, -⟩ := inside_of_next hnext
      rw [htag] at hd
      exact absurd hd (by simpa using hclosing)

/-- The opening delimiter is the token of the stars that the text starts with, at most two. -/
lemma opening_mem_scan_iff (t : Token) : t ∈ scan raw ∧ t.kind = .opening ↔
    (['/', '*', '*'] <+: raw ∧ t = ⟨.opening, ['/', '*', '*'], 0⟩) ∨
    (['/', '*'] <+: raw ∧ ¬ ['/', '*', '*'] <+: raw ∧ t = ⟨.opening, ['/', '*'], 0⟩) := by
  have hcons : ∀ (o : Token) (am : Bool) (i : Nat) (s : Text), o.kind = .opening →
      (t ∈ o :: scanFrom am i s ∧ t.kind = .opening ↔ t = o) := by
    intro o am i s ho
    constructor
    · rintro ⟨ht, hk⟩
      exact (List.mem_cons.1 ht).resolve_right fun hmem => kind_ne_opening hmem hk
    · rintro rfl
      exact ⟨List.mem_cons_self, ho⟩
  unfold scan
  split
  · rw [hcons _ _ _ _ rfl]
    simp [List.cons_prefix_cons]
  · next rest hne =>
    rw [hcons _ _ _ _ rfl]
    have hstar : ¬ ['*'] <+: rest := by
      rintro ⟨r, rfl⟩
      exact hne r rfl
    simp [List.cons_prefix_cons, hstar]
  · next hne hne' =>
    have hstar : ¬ ['/', '*'] <+: raw := by
      rintro ⟨r, rfl⟩
      exact hne' r rfl
    have hstars : ¬ ['/', '*', '*'] <+: raw := fun h => hstar (List.IsPrefix.trans ⟨['*'], rfl⟩ h)
    simp only [hstar, hstars, false_and, or_false, iff_false, not_and]
    exact kind_ne_opening

lemma char_of_opening (ht : t ∈ scan raw) (hk : t.kind = .opening) :
    ∀ c ∈ t.text, c = '/' ∨ c = '*' := by
  rcases (opening_mem_scan_iff t).1 ⟨ht, hk⟩ with ⟨-, rfl⟩ | ⟨-, -, rfl⟩
  · simp
  · simp

/-- No tag starts in the opening delimiter. -/
lemma stop_opening_le (hraw : raw = before ++ '@' :: w) :
    ∀ o ∈ scan raw, o.kind = .opening → o.stop ≤ byteSize before := by
  intro o ho hk
  obtain ⟨us, vs, hscan⟩ := List.append_of_mem ho
  obtain ⟨rfl, -, htext⟩ | ⟨am, c, more, -, hnext, -⟩ := scan_eq_append_cons hscan
  · have hnot : '@' ∉ o.text := by rcases htext with h | h <;> rw [h] <;> decide
    rw [stop, start_of_scan hscan, source_nil, byteSize_nil, Nat.zero_add]
    have hsplit := (eq_source_of_scan hscan).symm.trans hraw
    rw [source_nil, List.nil_append] at hsplit
    rcases List.append_eq_append_iff.1 hsplit with ⟨m, rfl, -⟩ | ⟨m, hm, hw⟩
    · rw [byteSize_append]
      exact Nat.le_add_right _ _
    · cases m with
      | nil => rw [hm, List.append_nil]
      | cons d m =>
        obtain ⟨rfl, -⟩ := List.cons.inj hw
        exact absurd (by simp [hm]) hnot
  · have hcut := cuts_next am c (more ++ source vs)
    rw [hnext, hk] at hcut
    cases hcut

/-- The closing delimiters among the tokens are those behind the opening delimiter. -/
lemma closing_mem_scan_iff (t : Token) : t ∈ scan raw ∧ t.kind = .closing ↔
    ∃ before after : Text, raw = before ++ ['*', '/'] ++ after ∧
      (∀ o ∈ scan raw, o.kind = .opening → o.stop ≤ byteSize before) ∧
      t = ⟨.closing, ['*', '/'], byteSize before⟩ := by
  constructor
  · rintro ⟨ht, hk⟩
    obtain ⟨us, vs, hscan⟩ := List.append_of_mem ht
    have hopening := stop_le_of_scan hscan (by simp [hk])
    have htext : t.text = ['*', '/'] := by
      obtain ⟨start, s, hmem⟩ := mem_scan ht (by simp [hk])
      exact text_of_closing hmem hk
    refine ⟨source us, source vs, ?_, hopening, ?_⟩
    · rw [← htext, List.append_assoc]
      exact eq_source_of_scan hscan
    · rw [← hk, ← htext, ← start_of_scan hscan]
  · rintro ⟨before, after, hraw, hopening, rfl⟩
    have hsplit : raw = before ++ '*' :: '/' :: after := by simpa using hraw
    obtain ⟨t, ht, hstart, am, more, htext, hnext⟩ :=
      exists_token_starting hsplit (.inl ⟨rfl, rfl⟩) hopening
    rw [next_eq, if_pos ⟨rfl, rfl⟩] at hnext
    obtain ⟨hk, rfl⟩ := Prod.mk.inj hnext
    rw [hk, ← htext, ← hstart]
    exact ⟨ht, rfl⟩

/-- The markers among the tokens are those in front of which a tag starts. -/
lemma marker_mem_scan_iff (t : Token) : t ∈ scan raw ∧ t.kind = .marker ↔
    ∃ (before after : Text) (c : Char), raw = before ++ '@' :: c :: after ∧ isTagNameStart c ∧
      t = ⟨.marker, ['@'], byteSize before⟩ := by
  constructor
  · rintro ⟨ht, hk⟩
    obtain ⟨us, vs, hscan⟩ := List.append_of_mem ht
    obtain ⟨-, hopening, -⟩ | ⟨am, c, more, htext, hnext, -⟩ := scan_eq_append_cons hscan
    · rw [hk] at hopening
      cases hopening
    · rw [hk] at hnext
      obtain ⟨rfl, rfl, d, s, hs, hstart⟩ := exists_of_next_marker hnext
      refine ⟨source us, s, d, ?_, hstart, ?_⟩
      · rw [eq_source_of_scan hscan, htext, List.singleton_append, ← hs, List.nil_append]
      · rw [← hk, ← htext, ← start_of_scan hscan]
  · rintro ⟨before, after, c, hraw, hc, rfl⟩
    have htag : startsTag ('@' :: c :: after) := hc
    obtain ⟨t, ht, hstart, am, more, htext, hnext⟩ :=
      exists_token_starting hraw (.inr htag) (stop_opening_le hraw)
    have hmarker : next am '@' (c :: after) = (.marker, []) := by
      simp [next_eq, htag, isTagNameChar]
    obtain ⟨hk, rfl⟩ := Prod.mk.inj (hmarker.symm.trans hnext)
    rw [hk, ← htext, ← hstart]
    exact ⟨ht, rfl⟩

/-- A marker is followed by the name of its tag, which ends where no more characters of one
follow. -/
lemma exists_name_of_marker {i : Nat} {t : Token} (ht : (scan raw)[i]? = some t)
    (hk : t.kind = .marker) : ∃ u before after, (scan raw)[i + 1]? = some u ∧
      u.kind = .identifier ∧ raw = before ++ '@' :: (u.text ++ after) ∧
      t.start = byteSize before ∧ (∀ c ∈ u.text, isTagNameChar c) ∧
      ∀ c ∈ after.head?, isTagNameChar c = false := by
  obtain ⟨hlen, hget⟩ := List.getElem?_eq_some_iff.1 ht
  have hscan : scan raw = (scan raw).take i ++ t :: (scan raw).drop (i + 1) := by
    rw [← hget, List.getElem_cons_drop, List.take_append_drop]
  have hu : ((scan raw).drop (i + 1))[0]? = (scan raw)[i + 1]? := by simp
  generalize hus : (scan raw).take i = us at hscan
  generalize (scan raw).drop (i + 1) = vs at hscan hu
  obtain ⟨-, hopening, -⟩ | ⟨am, c, more, htext, hnext, hvs⟩ := scan_eq_append_cons hscan
  · rw [hk] at hopening
    cases hopening
  · rw [hk] at hnext
    obtain ⟨rfl, rfl, d, s, hs, hstart⟩ := exists_of_next_marker hnext
    rw [List.nil_append] at hs
    have hname := isTagNameChar_of_isTagNameStart hstart
    have hraw := eq_source_of_scan hscan
    rw [htext, List.singleton_append, hs] at hraw
    have hne : ∀ e, isTagNameChar e = false → d ≠ e := by
      rintro e he rfl
      rw [hname] at he
      cases he
    have hident : next true d s = (.identifier, s.takeWhile isTagNameChar) := by
      simp [next_eq, hname, hne '*' rfl, hne '\r' rfl, hne '\n' rfl]
    rw [hs, hk, decide_eq_true rfl, scanFrom_cons, hident] at hvs
    rw [hvs, List.getElem?_cons_zero] at hu
    obtain ⟨l, r, rfl, hl, hr⟩ := exists_span isTagNameChar s
    have htake : (l ++ r).takeWhile isTagNameChar = l := by
      rw [takeWhile_append_of_head hr]
      exact List.takeWhile_eq_self_iff.2 hl
    refine ⟨_, source us, r, hu.symm, rfl, ?_, start_of_scan hscan, ?_, hr⟩
    · rw [hraw, htake, List.cons_append]
    · rw [htake]
      exact List.forall_mem_cons.2 ⟨hname, hl⟩

/-- What a line break takes behind its line feed: no line feed, and no star in front of a slash. -/
lemma not_mem_decoration {r z : Text} (h : decoration (r ++ z) = r) : '\n' ∉ r ∧
    ∀ l r', r = l ++ '*' :: r' → (r' ++ z).head? ≠ some '/' := by
  constructor
  · intro hmem
    rw [← h] at hmem
    simpa [isBlank] using mem_decoration hmem
  · rintro l r' rfl
    rw [List.append_assoc, List.cons_append] at h
    exact ne_slash_of_decoration h

/-- A line feed is in a line break, which starts with it or with the carriage return in front. -/
lemma exists_lineBreak_at {after : Text} (hraw : raw = before ++ '\n' :: after) :
    ∃ us t vs front cr taken, scan raw = us ++ t :: vs ∧ t.kind = .lineBreak ∧
      before = front ++ cr ∧ (cr = [] ∨ cr = ['\r']) ∧ t.text = cr ++ '\n' :: taken ∧
      t.start = byteSize front ∧ after = taken ++ source vs ∧ '\n' ∉ taken ∧
      ∀ l r, taken = l ++ '*' :: r → (r ++ source vs).head? ≠ some '/' := by
  obtain ⟨us, t, vs, l, r, hscan, htext, hr, rfl, hw⟩ :=
    exists_token_at ((source_scan raw).trans hraw) (List.cons_ne_nil '\n' after)
  obtain ⟨e, r, rfl⟩ := List.exists_cons_of_ne_nil hr
  rw [List.cons_append] at hw
  obtain ⟨rfl, rfl⟩ := List.cons.inj hw
  have hmem : '\n' ∈ t.text := by simp [htext]
  have hstart := start_of_scan hscan
  obtain ⟨-, -, hopening⟩ | ⟨am, c, more, hcons, hnext, -⟩ := scan_eq_append_cons hscan
  · rcases hopening with h | h <;> simp [h] at hmem
  · rw [htext] at hcons
    cases l with
    | nil =>
      obtain ⟨rfl, rfl⟩ := List.cons.inj hcons
      have hfeed : next am '\n' (r ++ source vs) = (.lineBreak, decoration (r ++ source vs)) := by
        simp [next_eq]
      obtain ⟨hk, hdecoration⟩ := Prod.mk.inj (hfeed.symm.trans hnext)
      exact ⟨us, t, vs, source us, [], r, hscan, hk.symm, rfl, .inl rfl, htext, hstart, rfl,
        not_mem_decoration hdecoration⟩
    | cons e l =>
      rw [List.cons_append] at hcons
      obtain ⟨rfl, hmore⟩ := List.cons.inj hcons
      rw [← hmore, List.append_assoc, List.cons_append] at hnext
      obtain ⟨-, -, hinside⟩ := inside_of_next hnext
      obtain ⟨hk, rfl, rfl⟩ := hinside rfl
      have hreturn : next am '\r' ('\n' :: (r ++ source vs)) =
          (.lineBreak, '\n' :: decoration (r ++ source vs)) := by
        simp [next_eq]
      have hdecoration := (List.cons.inj (congrArg Prod.snd (hreturn.symm.trans hnext))).2
      exact ⟨us, t, vs, source us, ['\r'], r, hscan, hk, rfl, .inr rfl, htext, hstart, rfl,
        not_mem_decoration hdecoration⟩

end

/-! ### All kinds with a place -/

/-- Tokens that show the delimiters, line feeds and tags of a text where it has them. -/
structure IsPlaced (raw : Text) (ts : List Token) : Prop where
  opening_first : ∀ i t, ts[i]? = some t → t.kind = .opening → i = 0
  opening_iff : ∀ t, t ∈ ts ∧ t.kind = .opening ↔
    (['/', '*', '*'] <+: raw ∧ t = ⟨.opening, ['/', '*', '*'], 0⟩) ∨
    (['/', '*'] <+: raw ∧ ¬ ['/', '*', '*'] <+: raw ∧ t = ⟨.opening, ['/', '*'], 0⟩)
  closing_iff : ∀ t, t ∈ ts ∧ t.kind = .closing ↔
    ∃ before after : Text, raw = before ++ ['*', '/'] ++ after ∧
      (∀ o ∈ ts, o.kind = .opening → o.stop ≤ byteSize before) ∧
      t = ⟨.closing, ['*', '/'], byteSize before⟩
  /-- One token has the line feed. It starts with it, or with the carriage return in front of it,
  and takes no other line feed and no star that is followed by a slash. -/
  lineFeed : ∀ before after : Text, raw = before ++ '\n' :: after → ∃ t,
    (∀ u, (u ∈ ts ∧ u.start ≤ byteSize before ∧ byteSize before < u.stop) ↔ u = t) ∧
    t.kind = .lineBreak ∧ ∃ front cr taken rest : Text, before = front ++ cr ∧
      (cr = [] ∨ cr = ['\r']) ∧ t.start = byteSize front ∧ t.text = cr ++ '\n' :: taken ∧
      after = taken ++ rest ∧ '\n' ∉ taken ∧
      ∀ l r, taken = l ++ '*' :: r → (r ++ rest).head? ≠ some '/'
  newline_mem : ∀ t ∈ ts, t.kind = .lineBreak → '\n' ∈ t.text
  marker_iff : ∀ t, t ∈ ts ∧ t.kind = .marker ↔
    ∃ (before after : Text) (c : Char), raw = before ++ '@' :: c :: after ∧ isTagNameStart c ∧
      t = ⟨.marker, ['@'], byteSize before⟩
  /-- The name behind a marker is as long as there are characters of a tag name. -/
  name : ∀ i t, ts[i]? = some t → t.kind = .marker → ∃ u before after, ts[i + 1]? = some u ∧
    u.kind = .identifier ∧ raw = before ++ '@' :: (u.text ++ after) ∧ t.start = byteSize before ∧
    (∀ c ∈ u.text, isTagNameChar c) ∧ ∀ c ∈ after.head?, isTagNameChar c = false

/-- The tokens of a comment show its delimiters, line feeds and tags where it has them, and nowhere
else. -/
theorem isPlaced_scan (raw : Text) : IsPlaced raw (scan raw) where
  opening_first i t ht hk := by
    rcases scan_cases raw with ⟨stars, -, rest, -, h⟩ | h
    · rw [h] at ht
      cases i with
      | zero => rfl
      | succ i => exact absurd hk (kind_ne_opening (List.mem_of_getElem? ht))
    · rw [h] at ht
      exact absurd hk (kind_ne_opening (List.mem_of_getElem? ht))
  opening_iff := opening_mem_scan_iff
  closing_iff := closing_mem_scan_iff
  lineFeed before after hraw := by
    obtain ⟨us, t, vs, front, cr, taken, hscan, hk, hbefore, hcr, htext, hstart, hafter, htaken⟩ :=
      exists_lineBreak_at hraw
    have hbytes : t.start ≤ byteSize before ∧ byteSize before < t.stop := by
      have hpos := '\n'.utf8Size_pos
      rw [stop, hstart, htext, hbefore]
      simp only [byteSize_append, byteSize_cons]
      omega
    refine ⟨t, fun u => ⟨fun h => eq_of_mem_scan hscan hbytes h.1 h.2, ?_⟩, hk, front, cr,
      taken, source vs, hbefore, hcr, hstart, htext, hafter, htaken⟩
    rintro rfl
    exact ⟨by simp [hscan], hbytes⟩
  newline_mem t ht hk := by
    obtain ⟨i, s, hmem⟩ := mem_scan ht (by simp [hk])
    obtain ⟨d, h | h⟩ := text_of_lineBreak hmem hk
    all_goals simp [h]
  marker_iff := marker_mem_scan_iff
  name _ _ := exists_name_of_marker

end DocComment.Token
