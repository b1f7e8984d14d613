import Mathlib.Data.List.Basic
import Mathlib.Tactic.Common
import DocComment.Block.Print

/-!
# Where a comment is closed

A comment is closed by a star and a slash. In a text that is put together of parts they stand in one
of the parts or across a seam (`closes_append`). No line of escaped text closes the comment, and
neither do escaped lines that are joined with a line start (`closes_joinLines`).
-/

namespace DocComment

namespace Text

/-- A comment starts with its delimiter of two stars, and is closed at its end and nowhere before;
the stars of the delimiter may belong to both. -/
def IsComment (s : Text) : Prop :=
  ['/', '*', '*'] <+: s ∧ ['*', '/'] <:+ s ∧
    ∀ before after : Text, s = before ++ ['*', '/'] ++ after → 2 ≤ byteSize before → after = []

/-- Whether a star and a slash stand next to each other. -/
def closes : Text → Bool
  | [] => false
  | c :: s => decide (c = '*' ∧ s.head? = some '/') || closes s

variable {s t : Text}

@[simp] lemma closes_nil : closes [] = false := rfl

@[simp] lemma closes_singleton (c : Char) : closes [c] = false := by simp [closes]

lemma closes_iff : closes s ↔ ∃ before after : Text, s = before ++ ['*', '/'] ++ after := by
  induction s with
  | nil => simp
  | cons c s ih =>
    rw [closes, Bool.or_eq_true, decide_eq_true_eq, ih]
    constructor
    · rintro (⟨rfl, hs⟩ | ⟨before, after, rfl⟩)
      · obtain ⟨s, rfl⟩ := List.head?_eq_some_iff.1 hs
        exact ⟨[], s, rfl⟩
      · exact ⟨c :: before, after, rfl⟩
    · rintro ⟨before, after, h⟩
      cases before with
      | nil =>
        cases h
        exact .inl ⟨rfl, rfl⟩
      | cons d before =>
        cases h
        exact .inr ⟨before, after, rfl⟩

/-- A text of two parts is closed in one of them, or where they meet. -/
lemma closes_append (s t : Text) : closes (s ++ t) =
    (closes s || closes t || decide (s.getLast? = some '*' ∧ t.head? = some '/')) := by
  induction s with
  | nil => simp
  | cons c s ih =>
    cases s with
    | nil => simp [closes, Bool.or_comm]
    | cons d s =>
      rw [List.cons_append, closes, ih, List.getLast?_cons_cons]
      simp [closes, Bool.or_assoc]

lemma closes_append_eq_false : closes (s ++ t) = false ↔
    closes s = false ∧ closes t = false ∧ ¬ (s.getLast? = some '*' ∧ t.head? = some '/') := by
  rw [closes_append, Bool.or_eq_false_iff, Bool.or_eq_false_iff, decide_eq_false_iff_not, and_assoc]

lemma closes_eq_false_of_not_mem (h : '/' ∉ s) : closes s = false := by
  rw [Bool.eq_false_iff, ne_eq, closes_iff]
  rintro ⟨before, after, rfl⟩
  simp at h

lemma closes_of_isInfix (h : s <:+: t) (hs : closes s) : closes t := by
  obtain ⟨before, after, rfl⟩ := closes_iff.1 hs
  obtain ⟨u, v, rfl⟩ := h
  exact closes_iff.2 ⟨u ++ before, after ++ v, by simp⟩

lemma closes_eq_false_of_isInfix (h : s <:+: t) (ht : closes t = false) : closes s = false := by
  rw [Bool.eq_false_iff] at ht ⊢
  exact fun hs => ht (closes_of_isInfix h hs)

/-- Without its first two characters and its last one, a comment is a text that starts and ends with
a star and is not closed. -/
lemma isComment_iff : IsComment s ↔ ∃ v : Text, s = '/' :: '*' :: (v ++ ['/']) ∧
    v.head? = some '*' ∧ v.getLast? = some '*' ∧ closes v = false := by
  constructor
  · rintro ⟨⟨r, rfl⟩, ⟨p, hp⟩, hlast⟩
    have hp' : p ++ ['*'] ++ ['/'] = '/' :: '*' :: '*' :: r := by simpa using hp
    have hr : r ≠ [] := by
      rintro rfl
      have := congrArg List.getLast? hp'
      simp at this
    obtain ⟨r, c, rfl⟩ := (⟨_, _, (List.dropLast_append_getLast hr).symm⟩ : ∃ l c, r = l ++ [c])
    have hsplit : p ++ ['*'] = '/' :: '*' :: '*' :: r ∧ ['/'] = [c] :=
      List.append_inj' (by simpa using hp') rfl
    obtain ⟨rfl⟩ : c = '/' := by simpa using hsplit.2.symm
    refine ⟨'*' :: r, by simp, rfl, ?_, ?_⟩
    · have := congrArg List.getLast? hsplit.1
      simpa using this.symm
    · rw [Bool.eq_false_iff, ne_eq, closes_iff]
      rintro ⟨before, after, h⟩
      have := hlast ('/' :: '*' :: before) (after ++ ['/'])
        (by simpa using congrArg (· ++ ['/']) h)
        (by simp only [byteSize_cons]; have h₁ : '/'.utf8Size = 1 := rfl
            have h₂ : '*'.utf8Size = 1 := rfl
            omega)
      simp at this
  · rintro ⟨v, rfl, hhead, hlast, hv⟩
    obtain ⟨r, rfl⟩ := List.head?_eq_some_iff.1 hhead
    obtain ⟨p, hp⟩ := List.getLast?_eq_some_iff.1 hlast
    refine ⟨⟨r ++ ['/'], rfl⟩, ⟨'/' :: '*' :: p, by rw [hp]; simp⟩, ?_⟩
    intro before after h hsize
    by_contra hne
    obtain ⟨a, c, rfl⟩ :=
      (⟨_, _, (List.dropLast_append_getLast hne).symm⟩ : ∃ l c, after = l ++ [c])
    match before with
    | [] => simp at hsize
    | [d] =>
      obtain ⟨rfl⟩ : '/' = d := by simpa using congrArg List.head? h
      have h₁ : '/'.utf8Size = 1 := rfl
      simp [h₁] at hsize
    | d :: e :: before =>
      simp only [List.cons_append, List.append_assoc, List.cons.injEq] at h
      have hbody : '*' :: r = before ++ '*' :: '/' :: a := by
        refine (List.append_inj' (?_ :
          ('*' :: r) ++ ['/'] = (before ++ '*' :: '/' :: a) ++ [c]) rfl).1
        simpa using h.2.2
      rw [Bool.eq_false_iff, ne_eq, closes_iff] at hv
      exact hv ⟨before, a, by simpa using hbody⟩

lemma IsComment.getLast? (h : IsComment s) : s.getLast? = some '/' := by
  obtain ⟨v, rfl, -⟩ := isComment_iff.1 h
  exact List.getLast?_concat (l := '/' :: '*' :: v)

lemma IsComment.getLast?_append (h : IsComment s) (t : Text) : (t ++ s).getLast? = some '/' := by
  rw [List.getLast?_append, h.getLast?, Option.some_or]

lemma isComment_iff_closes {v : Text} (hhead : v.head? = some '*') (hlast : v.getLast? = some '*') :
    IsComment ('/' :: '*' :: (v ++ ['/'])) ↔ closes v = false := by
  rw [isComment_iff]
  constructor
  · rintro ⟨w, hw, -, -, hclosed⟩
    have : v = w := by simpa using hw
    rwa [this]
  · intro hclosed
    exact ⟨v, rfl, hhead, hlast, hclosed⟩

instance : DecidablePred IsComment := fun s =>
  let v := (s.drop 2).dropLast
  decidable_of_iff (s = '/' :: '*' :: (v ++ ['/']) ∧ v.head? = some '*' ∧ v.getLast? = some '*' ∧
    closes v = false) <| by
    rw [isComment_iff]
    refine ⟨fun h => ⟨v, h⟩, ?_⟩
    rintro ⟨w, hw, h⟩
    have hv : v = w := by simp [v, hw]
    exact hv ▸ ⟨hw, h⟩

/-- A text closes a comment where the mark of its end is found in it. -/
lemma contains_closing (s : Text) : contains ['*', '/'] s = closes s := by
  unfold contains
  induction s with
  | nil => rfl
  | cons c s ih =>
    rw [cutAt?, closes]
    cases s with
    | nil =>
      by_cases hc : '*' = c
      · subst hc
        rfl
      · simp [dropPrefix?, hc, cutAt?]
    | cons d s =>
      by_cases hc : '*' = c ∧ '/' = d
      · obtain ⟨rfl, rfl⟩ := hc
        simp [dropPrefix?]
      · have hnone : dropPrefix? ['*', '/'] (c :: d :: s) = none := by
          simp only [dropPrefix?]
          split_ifs with hcs hds
          · exact absurd ⟨hcs, hds⟩ hc
          · rfl
          · rfl
        have hfalse : ¬ (c = '*' ∧ d = '/') := fun h => hc ⟨h.1.symm, h.2.symm⟩
        simp only [hnone, Option.isSome_map, ih, List.head?_cons, Option.some.injEq, hfalse,
          decide_false, Bool.false_or]

/-! ### Escaped text -/

lemma head?_escapeClosing (s : Text) : (escapeClosing s).head? = s.head? := by
  unfold escapeClosing
  split <;> rfl

lemma escapeClosing_eq_nil_iff : escapeClosing s = [] ↔ s = [] := by
  rw [← List.head?_eq_none_iff, head?_escapeClosing, List.head?_eq_none_iff]

lemma escapeClosing_cons (c : Char) (s : Text) : escapeClosing (c :: s) =
    (if c = '*' ∧ s.head? = some '/' then ['*', '\\'] else [c]) ++ escapeClosing s := by
  split_ifs with hc
  · obtain ⟨rfl, hhead⟩ := hc
    obtain ⟨s, rfl⟩ := List.head?_eq_some_iff.1 hhead
    simp [escapeClosing]
  · rw [escapeClosing]
    · rfl
    · rintro rest rfl rfl
      exact hc ⟨rfl, rfl⟩

lemma closes_escapeClosing (s : Text) : closes (escapeClosing s) = false := by
  induction s using escapeClosing.induct with
  | case1 rest ih => simp [escapeClosing, closes, ih]
  | case2 c rest hne ih =>
    have hseam : ¬ (c = '*' ∧ rest.head? = some '/') := by
      rintro ⟨rfl, hr⟩
      obtain ⟨rest, rfl⟩ := List.head?_eq_some_iff.1 hr
      exact hne rest rfl rfl
    rw [escapeClosing]
    · rw [closes, head?_escapeClosing, ih, Bool.or_false, decide_eq_false_iff_not]
      exact hseam
    · exact hne
  | case3 => rfl

/-! ### Lines -/

lemma splitOn_cons (c d : Char) (s : Text) : ∃ part parts, splitOn c s = part :: parts ∧
    splitOn c (d :: s) = if d = c then [] :: part :: parts else (d :: part) :: parts := by
  have hne : ∀ s : Text, splitOn c s ≠ [] := by
    intro s
    cases s with
    | nil => simp [splitOn]
    | cons d s =>
      rw [splitOn]
      split_ifs
      · simp
      · split <;> simp
  obtain ⟨part, parts, h⟩ := List.exists_cons_of_ne_nil (hne s)
  exact ⟨part, parts, h, by simp only [splitOn, h]⟩

lemma splitOn_of_not_mem {c : Char} {s : Text} (h : c ∉ s) : splitOn c s = [s] := by
  induction s with
  | nil => rfl
  | cons d s ih =>
    rw [List.mem_cons, not_or] at h
    rw [splitOn, if_neg (Ne.symm h.1), ih h.2]

/-- Escaping works on each line by itself. -/
lemma splitOn_escapeClosing (s : Text) :
    splitOn '\n' (escapeClosing s) = (splitOn '\n' s).map escapeClosing := by
  induction s using escapeClosing.induct with
  | case1 rest ih =>
    obtain ⟨part, parts, hparts, -⟩ := splitOn_cons '\n' '*' rest
    simp [escapeClosing, splitOn, ih, hparts]
  | case2 c rest hne ih =>
    obtain ⟨part, parts, hparts, -⟩ := splitOn_cons '\n' c rest
    rw [escapeClosing]
    · by_cases hc : c = '\n'
      · simp [splitOn, hc, ih, hparts, escapeClosing]
      · have hpart : ∀ more, c = '*' → part = '/' :: more → False := by
          rintro more rfl rfl
          cases rest with
          | nil => simp [splitOn] at hparts
          | cons d rest =>
            obtain ⟨part', parts', -, hcons⟩ := splitOn_cons '\n' d rest
            rw [hparts] at hcons
            split_ifs at hcons
            · cases hcons
            · obtain ⟨rfl, -⟩ := List.cons.inj (List.cons.inj hcons).1
              exact hne rest rfl rfl
        simp [splitOn, hc, ih, hparts, escapeClosing]
    · exact hne
  | case3 => rfl

lemma joinLines_of_splitOn {ls first : Text} {rest : List Text}
    (h : splitOn '\n' s = first :: rest) : joinLines ls s = escapeClosing first ++
      rest.flatMap fun line => if line = [] then trimSpaces ls else ls ++ escapeClosing line := by
  rw [joinLines, splitOn_escapeClosing, h, List.map_cons]
  dsimp only
  simp only [List.flatMap_map, escapeClosing_eq_nil_iff]

/-- Parts that start with no slash close only if one of them does. -/
lemma closes_flatMap {α : Type} {as : List α} {f : α → Text}
    (h : ∀ a ∈ as, (f a).head? ≠ some '/') :
    closes (as.flatMap f) = (as.any fun a => closes (f a)) ∧ (as.flatMap f).head? ≠ some '/' := by
  induction as with
  | nil => simp
  | cons a as ih =>
    obtain ⟨ih₁, ih₂⟩ := ih fun b hb => h b (List.mem_cons_of_mem _ hb)
    have ha := h a List.mem_cons_self
    rw [List.flatMap_cons, closes_append, List.any_cons, ih₁]
    refine ⟨by simp [ih₂], ?_⟩
    rw [List.head?_append]
    cases hf : (f a).head? with
    | none => simpa using ih₂
    | some c => simpa [hf] using ha

/-- Parts with gaps in front of them close only behind a gap. -/
lemma closes_gaps {α : Type} {as : List α} {gap f : α → Text}
    (hgap : ∀ a ∈ as, closes (gap a) = false ∧ gap a ≠ [] ∧ (gap a).head? ≠ some '/')
    (hf : ∀ a ∈ as, closes (f a) = false) :
    (closes (as.flatMap fun a => gap a ++ f a) ↔
      ∃ a ∈ as, (gap a).getLast? = some '*' ∧ (f a).head? = some '/') ∧
      (as.flatMap fun a => gap a ++ f a).head? ≠ some '/' := by
  have hhead : ∀ a ∈ as, (gap a ++ f a).head? ≠ some '/' := by
    intro a ha
    obtain ⟨-, hne, hhead⟩ := hgap a ha
    rwa [List.head?_append_of_ne_nil _ hne]
  obtain ⟨hany, hrest⟩ := closes_flatMap hhead
  refine ⟨?_, hrest⟩
  rw [hany, List.any_eq_true]
  refine exists_congr fun a => and_congr_right fun ha => ?_
  rw [closes_append, (hgap a ha).1, hf a ha]
  simp

/-- A text with parts spliced in closes only behind the star of a gap, or of what the first part
follows. -/
lemma closes_spliced {α : Type} {as : List α} {gap f : α → Text} {s t u : Text}
    (hs : closes s = false) (ht : closes t = false) (hu : closes u = false)
    (hhead : u.head? ≠ some '/')
    (hgap : ∀ a ∈ as, closes (gap a) = false ∧ gap a ≠ [] ∧ (gap a).head? ≠ some '/')
    (hf : ∀ a ∈ as, closes (f a) = false) :
    closes (s ++ (t ++ as.flatMap fun a => gap a ++ f a) ++ u) ↔
      (s.getLast? = some '*' ∧ t.head? = some '/') ∨
        ∃ a ∈ as, (gap a).getLast? = some '*' ∧ (f a).head? = some '/' := by
  obtain ⟨hrest, hrest'⟩ := closes_gaps hgap hf
  generalize as.flatMap (fun a => gap a ++ f a) = r at hrest hrest' ⊢
  have hfirst : (t ++ r).head? = some '/' ↔ t.head? = some '/' := by
    cases t with
    | nil => simp [hrest']
    | cons c t => simp
  simp only [closes_append, hs, ht, hu, hfirst, hrest', hhead, Bool.false_or, Bool.or_false,
    and_false, decide_false, Bool.or_eq_true, decide_eq_true_eq, hrest]
  exact or_comm

lemma mem_of_mem_trimSpaces {c : Char} (h : c ∈ trimSpaces s) : c ∈ s := by
  rw [trimSpaces, trimEndBy, List.mem_reverse] at h
  exact List.mem_reverse.1 ((List.dropWhile_suffix _).subset h)

/-- The start of a line that neither has a slash nor ends with a star. -/
structure Harmless (lineStart : Text) : Prop where
  ne_nil : lineStart ≠ []
  not_mem : '/' ∉ lineStart
  getLast? : lineStart.getLast? ≠ some '*'

lemma head?_ne_slash_of_not_mem (h : '/' ∉ s) : s.head? ≠ some '/' :=
  fun hs => h (List.mem_of_mem_head? hs)

lemma exists_mem_and_left {α : Type} {p : Prop} {as : List α} {q : α → Prop} :
    (∃ a ∈ as, p ∧ q a) ↔ p ∧ ∃ a ∈ as, q a := by
  simp only [and_left_comm, exists_and_left]

/-- A text on lines that start like this, the first one included, is closed where a line starts with
a slash behind a star. -/
lemma closes_append_joinLines {ls : Text} (hne : ls ≠ []) (hls : '/' ∉ ls) (s : Text) :
    (closes (ls ++ joinLines ls s) ↔
      ls.getLast? = some '*' ∧ ∃ line ∈ splitOn '\n' s, line.head? = some '/') ∧
      (ls ++ joinLines ls s).head? ≠ some '/' := by
  have hhead (t : Text) : (ls ++ t).head? ≠ some '/' := by
    rw [List.head?_append_of_ne_nil _ hne]
    exact head?_ne_slash_of_not_mem hls
  obtain ⟨first, rest, hparts, -⟩ := splitOn_cons '\n' '\n' s
  have hseam (line : Text) : closes (ls ++ escapeClosing line) ↔
      ls.getLast? = some '*' ∧ line.head? = some '/' := by
    simp [closes_append, closes_eq_false_of_not_mem hls, closes_escapeClosing, head?_escapeClosing]
  -- An empty line has the line start without its spaces, which closes nothing.
  have htrim : '/' ∉ trimSpaces ls := fun hm => hls (mem_of_mem_trimSpaces hm)
  have hpiece (line : Text) :
      (closes (if line = [] then trimSpaces ls else ls ++ escapeClosing line) ↔
        ls.getLast? = some '*' ∧ line.head? = some '/') ∧
      (if line = [] then trimSpaces ls else ls ++ escapeClosing line).head? ≠ some '/' := by
    split_ifs with hempty
    · simp [closes_eq_false_of_not_mem htrim, head?_ne_slash_of_not_mem htrim, hempty]
    · exact ⟨hseam line, hhead _⟩
  obtain ⟨hrest, hrest'⟩ := closes_flatMap fun line (_ : line ∈ rest) => (hpiece line).2
  refine ⟨?_, hhead _⟩
  rw [joinLines_of_splitOn hparts, ← List.append_assoc, closes_append, hrest, hparts]
  simp only [Bool.or_eq_true, decide_eq_true_eq, hseam, hrest', and_false, or_false,
    List.any_eq_true, (hpiece _).1, List.mem_cons, exists_eq_or_imp, and_or_left]
  rw [exists_mem_and_left]

/-- Text on several lines is not closed. -/
lemma closes_joinLines {lineStart : Text} (h : Harmless lineStart) (s : Text) :
    closes (joinLines lineStart s) = false := by
  have hlines := (closes_append_joinLines h.ne_nil h.not_mem s).1
  have hopen : closes (lineStart ++ joinLines lineStart s) = false :=
    Bool.eq_false_iff.2 fun hclosed => h.getLast? (hlines.1 hclosed).1
  exact closes_eq_false_of_isInfix (List.suffix_append _ _).isInfix hopen

end Text

end DocComment
