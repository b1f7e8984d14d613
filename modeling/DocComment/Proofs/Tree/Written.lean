import DocComment.Proofs.Tag.Write
import DocComment.Proofs.Tree.Part
import DocComment.Proofs.Tree.Placed

/-!
# Tags that are written anew

A tag that is written on lines of a comment is scanned as its marker, its name and the tokens that
spell its payload (`scanFrom_written`). So it is one node, and says what the payload is read as
(`isNode_written`): if that is a method that is written like this, its fragments have tokens of
their own (`isSome_span?_of_write`).
-/

namespace DocComment

open Text Token

namespace Token

variable {name x y z ls : Text} {c : Char}

/-- A name that is scanned as one behind a marker. -/
structure IsTagName (name : Text) : Prop where
  head? : ∃ c ∈ name.head?, isTagNameStart c
  isTagNameChar : ∀ c ∈ name, isTagNameChar c

instance : DecidablePred IsTagName := fun name =>
  decidable_of_iff (name.head?.any isTagNameStart ∧ name.all isTagNameChar) <| by
    rw [Option.any_eq_true, List.all_eq_true]
    exact ⟨fun h => ⟨h.1, h.2⟩, fun h => ⟨h.head?, h.isTagNameChar⟩⟩

lemma scanFrom_name (h : IsTagName name) (hy : ∀ c ∈ y.head?, isTagNameChar c = false) (i : Nat) :
    scanFrom true i (name ++ y) =
      ⟨.identifier, name, i⟩ :: scanFrom false (i + byteSize name) y := by
  obtain ⟨c, hc, -⟩ := h.head?
  obtain ⟨cs, rfl⟩ := List.head?_eq_some_iff.1 hc
  have hname := h.isTagNameChar c List.mem_cons_self
  have htake : (cs ++ y).takeWhile isTagNameChar = cs := by
    rw [takeWhile_append_of_head hy, List.takeWhile_eq_self_iff]
    exact fun d hd => h.isTagNameChar d (List.mem_cons_of_mem _ hd)
  have hstar : c ≠ '*' := by
    rintro rfl
    cases hname
  have hreturn : c ≠ '\r' := by
    rintro rfl
    cases hname
  have hfeed : c ≠ '\n' := by
    rintro rfl
    cases hname
  have hnext : next true c (cs ++ y) = (.identifier, cs) := by
    simp [next_eq, hstar, hreturn, hfeed, hname, htake]
  rw [List.cons_append, scanFrom_cons, hnext, List.drop_left]
  rfl

lemma scanFrom_tag (h : IsTagName name) (hy : ∀ c ∈ y.head?, isTagNameChar c = false) (i : Nat) :
    scanFrom false i ('@' :: name ++ y) = ⟨.marker, ['@'], i⟩ :: ⟨.identifier, name, i + 1⟩ ::
      scanFrom false (i + 1 + byteSize name) y := by
  have hnext : next false '@' (name ++ y) = (.marker, []) := by
    obtain ⟨c, hc, hstart⟩ := h.head?
    obtain ⟨cs, rfl⟩ := List.head?_eq_some_iff.1 hc
    simp [next_eq, startsTag, hstart]
  have hsize : byteSize ['@'] = 1 := rfl
  rw [List.cons_append, scanFrom_cons, hnext, hsize]
  exact congrArg _ (scanFrom_name h hy (i + 1))

/-- Blanks are one token. -/
lemma scanFrom_blanks {l : Text} (hl : ∀ d ∈ l, isBlank d) (hz : ∀ c ∈ z.head?, isBlank c = false)
    (i : Nat) : scanFrom false i (l ++ z) =
      (if l = [] then [] else [⟨.blank, l, i⟩]) ++ scanFrom false (i + byteSize l) z := by
  cases l with
  | nil => simp
  | cons d l =>
    obtain ⟨hd, hl'⟩ := List.forall_mem_cons.1 hl
    have hnext : next false d (l ++ z) = (.blank, (l ++ z).takeWhile isBlank) := by
      rcases blank_cases hd with rfl | rfl <;> simp [next_eq, startsTag, isBlank]
    have htake : (l ++ z).takeWhile isBlank = l := by
      rw [takeWhile_append_of_head hz, List.takeWhile_eq_self_iff]
      exact hl'
    rw [List.cons_append, scanFrom_cons, hnext, htake, List.drop_left,
      if_neg (List.cons_ne_nil d l)]
    rfl

lemma scanFrom_blanks_append {l : Text} (hl : ∀ d ∈ l, isBlank d)
    (hz : ∀ c ∈ z.head?, isBlank c = false) (i : Nat) : scanFrom false i (l ++ z) =
      scanFrom false i l ++ scanFrom false (i + byteSize l) z := by
  have hself := scanFrom_blanks hl (z := []) (by simp) i
  rw [List.append_nil, scanFrom_nil, List.append_nil] at hself
  rw [hself, scanFrom_blanks hl hz]

lemma kind_ne_blank_of_head (hy : ∀ c ∈ y.head?, isBlank c = false) {i : Nat} {t : Token}
    (ht : t ∈ (scanFrom false i y).head?) : t.kind ≠ .blank := by
  intro hk
  obtain ⟨hne, hblank⟩ := text_of_blank (List.mem_of_mem_head? ht) hk
  obtain ⟨c, m, hm⟩ := List.exists_cons_of_ne_nil hne
  obtain ⟨ts, hts⟩ := List.head?_eq_some_iff.1 ht
  have hsource := source_scanFrom false i y
  rw [hts, source_cons, hm] at hsource
  have hc := hy c (by rw [← hsource]; rfl)
  rw [hblank c (by simp [hm])] at hc
  cases hc

lemma dropWhile_blank {ts us : List Token} (hts : ∀ t ∈ ts, t.kind = .blank)
    (hus : ∀ t ∈ us.head?, t.kind ≠ .blank) : (ts ++ us).dropWhile (·.kind = .blank) = us := by
  rw [List.dropWhile_append_of_pos (by simpa using hts)]
  cases us with
  | nil => rfl
  | cons u us => exact List.dropWhile_cons_of_neg (by simpa using hus u rfl)

/-- A tag is its marker, its name, and what stands behind its blanks. -/
lemma scanFrom_tag_blanks {bl : Text} (h : IsTagName name) (hbl : ∀ c ∈ bl, isBlank c)
    (hz : ∀ c ∈ z.head?, isBlank c = false) (hy : ∀ c ∈ (bl ++ z).head?, isTagNameChar c = false)
    (i : Nat) : ∃ gap j, scanFrom false i ('@' :: name ++ (bl ++ z)) =
        ⟨.marker, ['@'], i⟩ :: ⟨.identifier, name, i + 1⟩ :: (gap ++ scanFrom false j z) ∧
      (∀ t ∈ gap, t.kind = .blank) ∧ (bl = [] → gap = []) := by
  refine ⟨_, _, by rw [scanFrom_tag h hy, scanFrom_blanks hbl hz], fun t ht => ?_, fun hnil => ?_⟩
  · split_ifs at ht
    · cases ht
    · rw [List.mem_singleton.1 ht]
  · rw [if_pos hnil]

/-- Behind a parenthesis or a comma, and spaces, a new token starts. -/
lemma scanFrom_place (hc : c = '(' ∨ c = ',') {l : Text} (hl : ∀ d ∈ l, d = ' ')
    (hz : ∀ c ∈ z.head?, isBlank c = false) (i : Nat) :
    scanFrom false i (x ++ c :: l ++ z) =
      scanFrom false i (x ++ c :: l) ++ scanFrom false (i + byteSize (x ++ c :: l)) z := by
  have hends : endsContent c := by rcases hc with rfl | rfl <;> rfl
  have hleft : ∀ t : Text, scanFrom false i (x ++ c :: t) =
      scanFrom false i x ++ scanFrom false (i + byteSize x) (c :: t) := by
    intro t
    cases x with
    | nil => simp
    | cons d x =>
      refine scanFrom_append (stops_cons_of_endsContent hends t) i ?_ ?_ (List.cons_ne_nil d x)
      · rcases hc with rfl | rfl <;> simp
      · rcases hc with rfl | rfl <;> simp [startsBlank, isBlank]
  have hnext : ∀ t : Text, next false c t = (.sign, []) := by
    intro t
    rcases hc with rfl | rfl <;> simp [next_eq, startsTag, isBlank, isWordStart, isSign]
  have hblank : ∀ d ∈ l, isBlank d := fun d hd => by
    rw [hl d hd]
    rfl
  rw [List.append_assoc, List.cons_append, hleft, hleft, scanFrom_cons, scanFrom_cons, hnext, hnext]
  simp [scanFrom_blanks_append hblank hz, Nat.add_assoc]

end Token

lemma ne_newline_of_isWhiteSpace {c : Char} (h : isWhiteSpace c = false) : c ≠ '\n' := by
  rintro rfl
  cases h

/-! ### The tokens of a written tag -/

section

variable {stars : Bool} {ls payload name : Text} {c : Char}

lemma getLast?_ne_of_keepsLines (h : Text.keepsLines stars payload) :
    payload.getLast? ≠ some '\n' := by
  intro hlast
  obtain ⟨s, rfl⟩ := List.getLast?_eq_some_iff.1 hlast
  have hsuffix := keepsLines_of_suffix (List.suffix_append s ['\n']) h
  exact absurd ((keepsLines_cons.1 hsuffix).2.2.1 rfl) (by simp [continues])

lemma reline_ne_nil (h : Writable stars payload) (hne : payload ≠ []) : reline ls payload ≠ [] := by
  obtain ⟨s, c, rfl⟩ := (List.eq_nil_or_concat' payload).resolve_left hne
  have hc : c ≠ '\n' := fun hc => getLast?_ne_of_keepsLines h.keepsLines (by simp [hc])
  simp [reline_cons, hc]

lemma isBlank_head?_reline (hls : IsLineStart stars ls) (h : Writable stars payload) :
    ∀ c ∈ (reline ls payload).head?, isBlank c = false := by
  intro c hc
  by_cases hn : payload.head? = some '\n'
  · obtain ⟨t, rfl⟩ := List.head?_eq_some_iff.1 hn
    rw [reline_cons, if_pos rfl] at hc
    have hblank := hls.startsBlank_append (reline ls t)
    rwa [startsBlank, Option.mem_def.1 hc, Option.any_some] at hblank
  · rw [head?_reline hn] at hc
    exact h.head? c hc

lemma not_mem_tag (hn : IsTagName name) (hc : isTagNameChar c = false) (hne : c ≠ '@') :
    c ∉ '@' :: name := by
  intro hmem
  rcases List.mem_cons.1 hmem with rfl | hmem
  · exact hne rfl
  · rw [hn.isTagNameChar c hmem] at hc
    cases hc

/-- A tag keeps its lines if its payload does. -/
lemma keepsLines_tag (hn : IsTagName name) (h : Writable stars payload) :
    Text.keepsLines stars ('@' :: name ++ afterBlank payload) := by
  have hname : Text.keepsLines stars ('@' :: name) :=
    keepsLines_of_not_mem (not_mem_tag hn rfl (by decide)) (not_mem_tag hn rfl (by decide))
      (closes_eq_false_of_not_mem (not_mem_tag hn rfl (by decide)))
  by_cases hnil : payload = []
  · rwa [hnil, afterBlank, List.append_nil]
  · rw [afterBlank_of_ne_nil hnil]
    refine keepsLines_append hname ?_ fun c hc => ?_
    · exact keepsLines_cons.2 ⟨by decide, by simp, by simp, h.keepsLines⟩
    · obtain rfl : ' ' = c := by simpa using hc
      rfl

lemma joinLines_tag (hn : IsTagName name) (h : Writable stars payload) :
    joinLines ls ('@' :: name ++ afterBlank payload) =
      '@' :: name ++ afterBlank (reline ls payload) := by
  rw [joinLines_eq ls (keepsLines_tag hn h), reline_append,
    reline_of_not_mem ls (not_mem_tag hn rfl (by decide))]
  by_cases hnil : payload = []
  · rw [hnil]
    rfl
  · rw [afterBlank_of_ne_nil hnil, afterBlank_of_ne_nil (reline_ne_nil h hnil), reline_cons,
      if_neg (by decide)]
    rfl

/-- A tag starts with its marker. -/
lemma marker_written (ls : Text) (hn : IsTagName name) (h : Writable stars payload) :
    (joinLines ls ('@' :: name ++ afterBlank payload)).head? = some '@' ∧
      ∀ i, ∃ t ∈ (scanFrom false i (joinLines ls ('@' :: name ++ afterBlank payload))).head?,
        t.kind = .marker := by
  rw [joinLines_tag hn h]
  refine ⟨rfl, fun i => ?_⟩
  have hstop : ∀ c ∈ (afterBlank (reline ls payload)).head?, isTagNameChar c = false := by
    intro c hc
    obtain rfl := eq_of_mem_head?_afterBlank hc
    rfl
  rw [scanFrom_tag hn hstop]
  exact ⟨_, rfl, rfl⟩

/-- A tag on lines of a comment is its marker, its name and what spells its payload. -/
lemma scanFrom_written (hls : IsLineStart stars ls) (hn : IsTagName name)
    (h : Writable stars payload) (i : Nat) :
    ∃ gap j, scanFrom false i (joinLines ls ('@' :: name ++ afterBlank payload)) =
        ⟨.marker, ['@'], i⟩ :: ⟨.identifier, name, i + 1⟩ ::
          (gap ++ scanFrom false j (reline ls payload)) ∧
      (∀ t ∈ gap, t.kind = .blank) ∧ (payload = [] → gap = []) := by
  rw [joinLines_tag hn h]
  by_cases hnil : payload = []
  · obtain ⟨gap, j, hscan, hgap, hnone⟩ := scanFrom_tag_blanks (z := []) hn
      (by simp : ∀ c ∈ ([] : Text), isBlank c) (by simp) (by simp) i
    rw [hnil]
    exact ⟨gap, j, hscan, hgap, fun _ => hnone rfl⟩
  · rw [afterBlank_of_ne_nil (reline_ne_nil h hnil)]
    obtain ⟨gap, j, hscan, hgap, -⟩ := scanFrom_tag_blanks hn
      (by simp [isBlank] : ∀ c ∈ [' '], isBlank c) (isBlank_head?_reline hls h) (by simp; rfl) i
    exact ⟨gap, j, hscan, hgap, fun hnil' => absurd hnil' hnil⟩

end

/-! ### What a written tag is read as -/

/-- What a tag says is read from what stands behind its name and its blanks. -/
lemma Node.Content.ofTokens_tag (rules : Rules) (i k : Nat) (name : Text) {z : Text}
    {gap : List Token} (hgap : ∀ t ∈ gap, t.kind = .blank)
    (hz : ∀ c ∈ z.head?, isBlank c = false) (j : Nat) :
    ofTokens rules (⟨.marker, ['@'], i⟩ :: ⟨.identifier, name, k⟩ ::
      (gap ++ scanFrom false j z)) = ofPayload rules name (scanFrom false j z) := by
  rw [ofTokens, if_pos rfl, dropWhile_blank hgap fun t ht => kind_ne_blank_of_head hz ht]

section

variable {stars : Bool} {ls payload : Text} (hls : IsLineStart stars ls)

include hls

/-- Text on lines that starts with its first makes up one node. -/
lemma solid_reline (h : Writable stars payload) (hne : payload ≠ [])
    (hn : payload.head? ≠ some '\n') (i : Nat) : Solid (scanFrom false i (reline ls payload)) :=
  (spells_reline hls h.keepsLines i).solid hne
    (fun c hc => ⟨h.head? c hc, fun hc' => hn (hc' ▸ hc)⟩) h.getLast?

omit hls in
/-- Behind a fragment stands a comma, a parenthesis or a space, and a token ends there. -/
lemma stops_reline (ls : Text) {z : Text} {d : Char} (hd : d ∈ z.head?)
    (hends : d = ' ' ∨ d = ',' ∨ d = ')') :
    (reline ls z).head? = some d ∧ stops (reline ls z) := by
  have hhead : (reline ls z).head? = some d := by
    rw [head?_reline, hd]
    rw [hd]
    rcases hends with rfl | rfl | rfl <;> simp
  obtain ⟨s, hs⟩ := List.head?_eq_some_iff.1 hhead
  refine ⟨hhead, ?_⟩
  rw [hs]
  refine stops_cons_of_endsContent ?_ s
  rcases hends with rfl | rfl | rfl <;> rfl

omit hls in
lemma newline_not_mem_place {c : Char} {l : Text} (hc : c = '(' ∨ c = ',') (hl : ∀ d ∈ l, d = ' ') :
    '\n' ∉ c :: l := by
  intro hmem
  rcases List.mem_cons.1 hmem with rfl | hmem
  · simp at hc
  · exact absurd (hl _ hmem) (by decide)

/-- What a fragment stands between does not share a token with it. -/
lemma scanFrom_reline_fragment {x l t z : Text} {c : Char} (hc : c = '(' ∨ c = ',')
    (hl : ∀ d ∈ l, d = ' ') (h : Writable stars t) (hne : t ≠ [])
    (hhead : ∀ c ∈ t.head?, isWhiteSpace c = false)
    (hz : ∃ d ∈ z.head?, d = ' ' ∨ d = ',' ∨ d = ')') (i : Nat) :
    scanFrom false i (reline ls (x ++ c :: l ++ t ++ z)) =
      scanFrom false i (reline ls (x ++ c :: l)) ++
        (scanFrom false (i + byteSize (reline ls (x ++ c :: l))) (reline ls t) ++
          scanFrom false (i + byteSize (reline ls (x ++ c :: l)) + byteSize (reline ls t))
            (reline ls z)) := by
  obtain ⟨d, hd, hends⟩ := hz
  obtain ⟨hhead', hstops⟩ := stops_reline ls hd hends
  have hnot : t.head? ≠ some '\n' := fun hn => ne_newline_of_isWhiteSpace (hhead _ hn) rfl
  have hsolid := solid_reline hls h hne hnot
  have hne' : reline ls t ≠ [] := reline_ne_nil h hne
  have hblank : ∀ e ∈ (reline ls t ++ reline ls z).head?, isBlank e = false := by
    rw [List.head?_append_of_ne_nil _ hne', head?_reline hnot]
    exact h.head?
  have hplace : reline ls (x ++ c :: l) = reline ls x ++ c :: l := by
    rw [reline_append, reline_of_not_mem ls (newline_not_mem_place hc hl)]
  have hseam := scanFrom_append (x := reline ls t) hstops (i + byteSize (reline ls (x ++ c :: l)))
    (by rw [hhead']; rcases hends with rfl | rfl | rfl <;> simp)
    (fun u hu hsep => by
      rw [(hsolid _).isSeparator_getLast u hu] at hsep
      cases hsep) hne'
  rw [List.append_assoc, reline_append, reline_append ls t, ← hseam, hplace]
  exact scanFrom_place hc hl hblank i

/-- The fragments of a method that is written on lines of a comment have tokens of their own. -/
lemma isSome_span?_of_write {types : TypeSyntax} {m : MethodPayload}
    (hpayload : Text.keepsLines stars payload) (h : MethodPayload.read? types payload = some m)
    (hw : m.write types = payload) (i : Nat) {f : Fragment} (hf : f ∈ m.params) :
    (Placed.span? (Placed.ofTokens (scanFrom false i (reline ls payload)))
      f.start f.stop).isSome := by
  obtain ⟨x, c, l, r, y, hsplit, hc, hspaces, hy, hstart, hstop, hne, hhead, hlast⟩ :=
    MethodPayload.exists_place h hw hf
  have hl : ∀ d ∈ l, d = ' ' := fun d hd => hspaces d (List.mem_append_left _ hd)
  have hr : ∀ d ∈ r, d = ' ' := fun d hd => hspaces d (List.mem_append_right _ hd)
  have hfragment : Writable stars f.text :=
    .of_isInfix ⟨x ++ c :: l, r ++ y, by rw [hsplit]; simp⟩ hpayload hhead hlast
  have hleft : Text.keepsLines stars (x ++ c :: l) := by
    refine keepsLines_of_isPrefix ⟨f.text ++ (r ++ y), by rw [hsplit]; simp⟩ hpayload fun hn => ?_
    rw [List.getLast?_append_of_ne_nil _ (List.cons_ne_nil c l)] at hn
    exact newline_not_mem_place hc hl (List.mem_of_getLast? hn)
  have hright : Text.keepsLines stars (r ++ y) :=
    keepsLines_of_suffix ⟨x ++ c :: l ++ f.text, by rw [hsplit]; simp⟩ hpayload
  have hends : ∃ d ∈ (r ++ y).head?, d = ' ' ∨ d = ',' ∨ d = ')' := by
    cases r with
    | nil =>
      obtain ⟨d, hd, hcases⟩ := hy
      exact ⟨d, hd, .inr hcases⟩
    | cons d r => exact ⟨d, rfl, .inl (hr d List.mem_cons_self)⟩
  have hcut : payload = x ++ c :: l ++ f.text ++ (r ++ y) := by
    rw [hsplit]
    simp
  have hscan := scanFrom_reline_fragment hls (x := x) hc hl hfragment hne hhead hends i
  rw [← hcut] at hscan
  rw [hscan, hstop, hstart]
  exact (spells_reline hls hleft i).isSome_span? (spells_reline hls hfragment.keepsLines _)
    (spells_reline hls hright _)
    (solid_reline hls hfragment hne (fun hn => ne_newline_of_isWhiteSpace (hhead _ hn) rfl) _)

lemma solid_written {name : Text} (hn : IsTagName name) (h : Writable stars payload) (i : Nat) :
    Solid (scanFrom false i (joinLines ls ('@' :: name ++ afterBlank payload))) := by
  obtain ⟨gap, j, hscan, hgap, hnil⟩ := scanFrom_written hls hn h i
  rw [hscan]
  have hmarker : Token.isContent ⟨.marker, ['@'], i⟩ := rfl
  have hname : Token.isContent ⟨.identifier, name, i + 1⟩ := rfl
  change Solid (⟨.marker, ['@'], i⟩ :: ([] ++ ⟨.identifier, name, i + 1⟩ :: (gap ++ _)))
  refine .cons hmarker (by simp) (by simp [startsNode, breaks]) ?_
  by_cases hempty : payload = []
  · rw [hempty, hnil hempty, reline_nil, scanFrom_nil]
    exact .single hname
  · -- The payload may start with a line break.
    have hspells := spells_reline hls h.keepsLines j
    obtain ⟨gap', u, body, hbody, hgap', hnot, hsolid⟩ := exists_solid hspells.lines
      hspells.kind_ne_closing (fun hnil => hempty (by rw [← hspells.text, hnil]; rfl))
      fun t ht => by
        by_contra hsep
        obtain ⟨c, hc, hblank⟩ := hspells.getLast?_of_isSeparator ht (by simpa using hsep)
        simp [h.getLast? c hc] at hblank
    rw [hbody, ← List.append_assoc]
    refine .cons hname (fun t ht => ?_) ?_ hsolid
    · rcases List.mem_append.1 ht with ht | ht
      · exact isSeparator_iff.2 (.inr (hgap t ht))
      · exact hgap' t ht
    · have hbreaks : breaks (gap ++ gap') = breaks gap' := by
        have hzero : gap.countP (·.kind = .lineBreak) = 0 :=
          List.countP_eq_zero.2 fun t ht => by simp [hgap t ht]
        rw [breaks, List.countP_append, hzero, Nat.zero_add, breaks]
      rwa [startsNode, hbreaks]

/-- The tokens behind the name and a blank spell the payload. -/
lemma ofTokens_written (rules : Rules) {name : Text} (hn : IsTagName name)
    (h : Writable stars payload) (i : Nat) : ∃ j, Node.Content.ofTokens rules
      (scanFrom false i (joinLines ls ('@' :: name ++ afterBlank payload))) =
        Node.Content.ofPayload rules name (scanFrom false j (reline ls payload)) := by
  obtain ⟨gap, j, hscan, hgap, -⟩ := scanFrom_written hls hn h i
  rw [hscan]
  exact ⟨j, Node.Content.ofTokens_tag rules _ _ name hgap (isBlank_head?_reline hls h) j⟩

omit hls in
lemma getLast?_written {name : Text} (hn : IsTagName name) (h : Writable stars payload) :
    (joinLines ls ('@' :: name ++ afterBlank payload)).getLast? ≠ some '\r' := by
  rw [joinLines_tag hn h]
  intro hlast
  by_cases hempty : payload = []
  · rw [hempty, reline_nil, afterBlank, List.append_nil] at hlast
    rcases List.mem_cons.1 (List.mem_of_getLast? hlast) with hc | hc
    · cases hc
    · exact absurd (hn.isTagNameChar _ hc) (by decide)
  · obtain ⟨s, c, rfl⟩ := (List.eq_nil_or_concat' payload).resolve_left hempty
    have hc : c ≠ '\n' := fun hc => getLast?_ne_of_keepsLines h.keepsLines (by simp [hc])
    rw [afterBlank_of_ne_nil (reline_ne_nil h hempty), reline_append, reline_cons, if_neg hc,
      reline_nil] at hlast
    obtain rfl : c = '\r' := by simpa [List.getLast?_cons] using hlast
    exact not_mem_of_keepsLines h.keepsLines (by simp)

/-- A payload on lines of a comment says what is read from it. -/
lemma ofPayload_reline {rules : Rules} (hrules : rules.IsUsual) {name : Text} {r : Reading}
    (hpayload : r.write rules.types = payload) (h : Writable stars payload)
    (hkeeps : (rules.resolve name payload).content name = r.content name) (i : Nat) :
    Node.Content.ofPayload rules name (scanFrom false i (reline ls payload)) = r.content name := by
  rw [← hkeeps, Node.Content.ofPayload, (spells_reline hls h.keepsLines i).folded_eq]
  cases hread : rules.resolve name payload with
  | value v => rfl
  | method m =>
    have hm : MethodPayload.read? rules.types payload = some m := by
      rcases hrules.resolve_cases name payload with hr | ⟨-, ⟨_, v, -, hr⟩ | ⟨m', hm', hr⟩⟩
      · rw [hread] at hr
        cases hr
      · rw [hread] at hr
        cases hr
      · rw [hread] at hr
        cases hr
        exact hm'
    have hw : m.write rules.types = payload := by
      rw [hread] at hkeeps
      exact (Reading.write_congr rules.types hkeeps).trans hpayload
    have hall : m.params.all fun f => (Placed.span? (Placed.ofTokens
        (scanFrom false i (reline ls payload))) f.start f.stop).isSome := by
      rw [List.all_eq_true]
      exact fun f hf => isSome_span?_of_write hls h.keepsLines hm hw i hf
    exact if_pos hall

/-- A tag that is written on lines of a comment is read as what it says if its payload is. -/
theorem isNode_written {rules : Rules} (hrules : rules.IsUsual) {name : Text} (hn : IsTagName name)
    {r : Reading} (h : Writable stars (r.write rules.types))
    (hkeeps : (rules.resolve name (r.write rules.types)).content name = r.content name) :
    Part.IsNode rules (joinLines ls ((r.content name).write rules.types)) (r.content name) := by
  rw [Reading.write_content]
  refine ⟨solid_written hls hn h, fun i => ?_, getLast?_written hn h⟩
  obtain ⟨j, hj⟩ := ofTokens_written hls rules hn h i
  rw [hj]
  exact ofPayload_reline hls hrules rfl h hkeeps j

end

end DocComment
