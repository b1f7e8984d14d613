import DocComment.Proofs.TypeExpr.WellNamed

/-!
# The grammar of types

Which texts are types, and of which trees, is said here without any reading. A form is a relation
between texts and trees, and the forms build on each other as the readers do: atoms, rows,
intersections, unions. What stands between brackets is a union again, with one level less to open
(`IsAtom`).

What is read is derived by the grammar, and no name is cut (`sound_read?`).
-/

namespace DocComment.TypeExpr

open Text

/-! ### Forms -/

/-- A name. Of those that start with `$` only `$this` is one. -/
def IsName (n : Text) : Prop :=
  ∃ c cs, n = c :: cs ∧ isNameStart c ∧ (∀ d ∈ cs, isNameChar d) ∧
    (c = '$' → n = ['$', 't', 'h', 'i', 's'])

/-- Text that counts for nothing, which is white space between brackets. -/
def IsSpace (inside : Bool) (s : Text) : Prop := ∀ c ∈ s, inside ∧ isWhiteSpace c

/-- The sign `c` between parts. -/
def IsSeparator (inside : Bool) (c : Char) (s : Text) : Prop :=
  ∃ l r, s = l ++ c :: r ∧ IsSpace inside l ∧ IsSpace inside r

/-- What may follow a `&`. -/
def IsOperand (w : Text) : Prop := w.head? ≠ some '$' ∧ w.head? ≠ some '.'

/-- Further parts, each behind a separator. -/
inductive IsMore (separator : Text → Prop) (part : Text → TypeExpr → Prop) :
    Text → List TypeExpr → Prop where
  | nil : IsMore separator part [] []
  | cons {s w v : Text} {t : TypeExpr} {ts : List TypeExpr} (hs : separator s) (hw : part w t)
    (hv : IsMore separator part v ts) : IsMore separator part (s ++ (w ++ v)) (t :: ts)

/-- One part or more with separators between them. Those behind a separator may be restricted. -/
def IsList (separator : Text → Prop) (part next : Text → TypeExpr → Prop) (w : Text)
    (ts : List TypeExpr) : Prop :=
  ∃ u t v us, w = u ++ v ∧ ts = t :: us ∧ part u t ∧ IsMore separator next v us

lemma IsList.ne_nil {separator : Text → Prop} {part next : Text → TypeExpr → Prop} {w : Text}
    {ts : List TypeExpr} (h : IsList separator part next w ts) : ts ≠ [] := by
  obtain ⟨_, t, _, us, -, rfl, -⟩ := h
  exact List.cons_ne_nil t us

/-- So many `[]`. -/
def brackets : Nat → Text
  | 0 => []
  | n + 1 => '[' :: ']' :: brackets n

lemma brackets_succ (n : Nat) : brackets (n + 1) = brackets n ++ ['[', ']'] := by
  induction n with
  | zero => rfl
  | succ n ih =>
    show '[' :: ']' :: brackets (n + 1) = '[' :: ']' :: brackets n ++ ['[', ']']
    rw [ih]
    rfl

/-- An atom with `[]` behind it, of which some atoms take none. -/
def IsRow (takesRows : Text → Prop) (atom : Text → TypeExpr → Prop) (w : Text) (t : TypeExpr) :
    Prop :=
  ∃ v u n, w = v ++ brackets n ∧ t = arrays n u ∧ atom v u ∧ n ≤ maxNesting ∧
    (n = 0 ∨ takesRows v)

/-- Rows joined by `&`. -/
def IsIntersection (inside : Bool) (row : Text → TypeExpr → Prop) (w : Text) (t : TypeExpr) :
    Prop :=
  ∃ ts, t = collapse .intersection ts ∧
    IsList (IsSeparator inside '&') row (fun w t => row w t ∧ IsOperand w) w ts

/-- Intersections joined by `|`. -/
def IsUnion (inside : Bool) (row : Text → TypeExpr → Prop) (w : Text) (t : TypeExpr) : Prop :=
  ∃ ts, t = collapse .union ts ∧
    IsList (IsSeparator inside '|') (IsIntersection inside row) (IsIntersection inside row) w ts

/-- An atom that opens a level, given what may stand there. -/
inductive Opens (row union : Text → TypeExpr → Prop) : Text → TypeExpr → Prop where
  | nullable {w : Text} {t : TypeExpr} (hw : row w t) : Opens row union ('?' :: w) (.nullable t)
  | group {l w r : Text} {t : TypeExpr} (hl : IsSpace true l) (hw : union w t)
    (hr : IsSpace true r) : Opens row union ('(' :: (l ++ (w ++ (r ++ [')'])))) t
  | generic {n l w r : Text} {ts : List TypeExpr} (hn : IsName n) (hl : IsSpace true l)
    (hw : IsList (IsSeparator true ',') union union w ts) (hr : IsSpace true r) :
    Opens row union (n ++ '<' :: (l ++ (w ++ (r ++ ['>'])))) (.generic n ts)

/-- An atom in which at most `levels` of `?`, `(` and `<` are open at once. -/
def IsAtom (takesRows : Text → Prop) (levels : Nat) (inside : Bool) (w : Text) (t : TypeExpr) :
    Prop :=
  (IsName w ∧ t = .name w) ∨
    match levels with
    | 0 => False
    | levels + 1 =>
      Opens (IsRow takesRows (IsAtom takesRows levels inside))
        (IsUnion true (IsRow takesRows (IsAtom takesRows levels true))) w t

/-- The grammar of types, for atoms that may have `[]` behind them. -/
def Derives (takesRows : Text → Prop) (levels : Nat) : Text → TypeExpr → Prop :=
  IsUnion false (IsRow takesRows (IsAtom takesRows levels false))

/-- Whether `[]` behind an atom belong to it. Behind `?` they belong to the type after it. -/
def IsPrimary (w : Text) : Prop := w.head? ≠ some '?'

/-! ### Forms of one part -/

section

variable {takesRows : Text → Prop} {inside : Bool} {levels : Nat} {w : Text} {t : TypeExpr}

lemma IsList.single {separator : Text → Prop} {part next : Text → TypeExpr → Prop} (h : part w t) :
    IsList separator part next w [t] :=
  ⟨w, t, [], [], (List.append_nil w).symm, rfl, h, .nil⟩

lemma IsRow.of_atom {atom : Text → TypeExpr → Prop} (h : atom w t) : IsRow takesRows atom w t :=
  ⟨w, t, 0, (List.append_nil w).symm, rfl, h, Nat.zero_le _, .inl rfl⟩

lemma IsUnion.of_row {row : Text → TypeExpr → Prop} (h : row w t) : IsUnion inside row w t :=
  ⟨[t], rfl, .single ⟨[t], rfl, .single h⟩⟩

lemma IsAtom.of_name (h : IsName w) : IsAtom takesRows levels inside w (.name w) := by
  rw [IsAtom.eq_def]
  exact .inl ⟨h, rfl⟩

lemma IsAtom.of_opens (h : Opens (IsRow takesRows (IsAtom takesRows levels inside))
      (IsUnion true (IsRow takesRows (IsAtom takesRows levels true))) w t) :
    IsAtom takesRows (levels + 1) inside w t :=
  .inr h

end

/-! ### The start of types -/

lemma isNameChar_of_isNameStart {c : Char} (h : isNameStart c) : isNameChar c := by
  simp only [isNameStart, isNameChar, Char.isAlphanum, Bool.or_eq_true] at h ⊢
  tauto

lemma isWhiteSpace_of_isNameChar {c : Char} (h : isNameChar c) : isWhiteSpace c = false := by
  refine isWhiteSpace_of_isTypeChar (by simp [isTypeChar, h]) ?_
  rintro rfl
  cases h

/-- The characters that a type may start with. -/
def startsType (c : Char) : Bool := isNameStart c || c = '?' || c = '('

/-- A text that starts as types do. -/
def Starts (w : Text) : Prop := ∃ c ∈ w.head?, startsType c

lemma isWhiteSpace_of_startsType {c : Char} (h : startsType c) : isWhiteSpace c = false := by
  simp only [startsType, Bool.or_eq_true, decide_eq_true_eq] at h
  rcases h with (h | rfl) | rfl
  · exact isWhiteSpace_of_isNameChar (isNameChar_of_isNameStart h)
  · rfl
  · rfl

namespace Starts

variable {w : Text}

lemma ne_nil (h : Starts w) : w ≠ [] := by
  rintro rfl
  obtain ⟨c, hc, -⟩ := h
  cases hc

lemma append (h : Starts w) (v : Text) : Starts (w ++ v) := by
  obtain ⟨c, hc, hstart⟩ := h
  obtain ⟨cs, rfl⟩ := List.head?_eq_some_iff.1 hc
  exact ⟨c, rfl, hstart⟩

end Starts

section

variable {takesRows : Text → Prop} {inside : Bool} {w : Text} {t : TypeExpr} {ts : List TypeExpr}
  {part next row : Text → TypeExpr → Prop} {separator : Text → Prop}

lemma IsName.starts (h : IsName w) : Starts w := by
  obtain ⟨c, cs, rfl, hc, -⟩ := h
  exact ⟨c, rfl, by simp [startsType, hc]⟩

lemma IsList.starts (hpart : ∀ {w t}, part w t → Starts w)
    (h : IsList separator part next w ts) : Starts w := by
  obtain ⟨u, t, v, us, rfl, -, hu, -⟩ := h
  exact (hpart hu).append v

lemma IsRow.starts {atom : Text → TypeExpr → Prop} (hatom : ∀ {w t}, atom w t → Starts w)
    (h : IsRow takesRows atom w t) : Starts w := by
  obtain ⟨v, u, n, rfl, -, hv, -⟩ := h
  exact (hatom hv).append _

lemma IsIntersection.starts (hrow : ∀ {w t}, row w t → Starts w)
    (h : IsIntersection inside row w t) : Starts w := by
  obtain ⟨ts, -, hlist⟩ := h
  exact hlist.starts hrow

lemma IsUnion.starts (hrow : ∀ {w t}, row w t → Starts w) (h : IsUnion inside row w t) :
    Starts w := by
  obtain ⟨ts, -, hlist⟩ := h
  exact hlist.starts fun h => h.starts hrow

lemma IsAtom.starts {levels : Nat} (h : IsAtom takesRows levels inside w t) : Starts w := by
  rw [IsAtom.eq_def] at h
  rcases h with ⟨h, -⟩ | h
  · exact h.starts
  · cases levels with
    | zero => exact h.elim
    | succ levels =>
      cases h with
      | nullable => exact ⟨'?', rfl, rfl⟩
      | group => exact ⟨'(', rfl, rfl⟩
      | generic hn => exact hn.starts.append _

end

/-! ### Soundness -/

/-- Between a text and the rest behind it no name is cut: the rest starts with no character of a
name, or the text ends with none. -/
def CutsNoName (w rest : Text) : Prop :=
  (∀ c ∈ rest.head?, isNameChar c = false) ∨ ∃ c ∈ w.getLast?, isNameChar c = false

/-- What a reader takes is of this form, and names are taken whole. -/
def Sound {α : Type} (part? : Text → Option (α × Text)) (form : Text → α → Prop) : Prop :=
  ∀ ⦃s a rest⦄, part? s = some (a, rest) → ∃ w, s = w ++ rest ∧ form w a ∧ CutsNoName w rest

lemma CutsNoName.append {w rest : Text} (h : CutsNoName w rest) (v : Text) :
    CutsNoName (v ++ w) rest := by
  refine h.imp_right ?_
  rintro ⟨c, hc, hname⟩
  exact ⟨c, List.mem_getLast?_append_of_mem_getLast? hc, hname⟩

lemma CutsNoName.concat {c : Char} (hc : isNameChar c = false) (w rest : Text) :
    CutsNoName (w ++ [c]) rest :=
  .inr ⟨c, by simp, hc⟩

section

variable {s rest : Text}

lemma sound_readName? : Sound readName? fun n a => a = n ∧ IsName n := by
  intro s n rest h
  cases s with
  | nil => simp [readName?] at h
  | cons c cs =>
    rw [readName?] at h
    split_ifs at h with hc
    obtain ⟨rfl, rfl⟩ := Prod.mk.inj (Option.some.inj h)
    rw [Bool.and_eq_true] at hc
    obtain ⟨hstart, hthis⟩ := hc
    refine ⟨_, List.takeWhile_append_dropWhile.symm, ⟨rfl, ?_⟩, .inl fun d hd => ?_⟩
    · rw [List.takeWhile_cons_of_pos (isNameChar_of_isNameStart hstart)] at hthis ⊢
      refine ⟨c, _, rfl, hstart, fun d hd => List.mem_takeWhile_imp hd, ?_⟩
      rintro rfl
      simpa using hthis
    · simpa [Option.mem_def.1 hd] using List.head?_dropWhile_not isNameChar (c :: cs)

lemma sound_skip (inside : Bool) (s : Text) :
    ∃ l, s = l ++ skip inside s ∧ IsSpace inside l := by
  cases inside with
  | false => exact ⟨[], rfl, by simp [IsSpace]⟩
  | true =>
    exact ⟨_, List.takeWhile_append_dropWhile.symm, fun c hc => ⟨rfl, List.mem_takeWhile_imp hc⟩⟩

lemma sound_readSign? {inside : Bool} {c : Char} (h : readSign? inside c s = some rest) :
    ∃ l, s = l ++ c :: rest ∧ IsSpace inside l := by
  obtain ⟨l, hl, hspace⟩ := sound_skip inside s
  rw [readSign?] at h
  refine ⟨l, ?_, hspace⟩
  cases hs : skip inside s with
  | nil => simp [hs, dropPrefix?] at h
  | cons d r =>
    rw [hs, dropPrefix?] at h
    split_ifs at h with hcd
    obtain rfl : r = rest := Option.some.inj h
    rw [hcd, ← hs]
    exact hl

lemma sound_readSeparator? {inside : Bool} {c : Char}
    (h : readSeparator? inside c s = some rest) :
    ∃ p, s = p ++ rest ∧ IsSeparator inside c p := by
  obtain ⟨r, hsign, rfl⟩ := Option.map_eq_some_iff.1 h
  obtain ⟨l, rfl, hl⟩ := sound_readSign? hsign
  obtain ⟨m, hm, hspace⟩ := sound_skip inside r
  refine ⟨l ++ c :: m, ?_, l, m, rfl, hl, hspace⟩
  conv_lhs => rw [hm]
  simp

lemma sound_readAmpersand? {inside : Bool} (h : readAmpersand? inside s = some rest) :
    ∃ p, s = p ++ rest ∧ IsSeparator inside '&' p ∧ IsOperand rest := by
  rw [readAmpersand?] at h
  split at h
  · cases h
  · cases h
  · next hdollar hdot =>
    obtain ⟨p, hp, hsep⟩ := sound_readSeparator? h
    refine ⟨p, hp, hsep, fun hhead => ?_, fun hhead => ?_⟩
    · obtain ⟨r, rfl⟩ := List.head?_eq_some_iff.1 hhead
      exact hdollar r h
    · obtain ⟨r, rfl⟩ := List.head?_eq_some_iff.1 hhead
      exact hdot r h

lemma sound_readBrackets (s : Text) : s = brackets (readBrackets s).1 ++ (readBrackets s).2 := by
  fun_induction readBrackets s with
  | case1 s n rest h ih =>
    rw [h] at ih
    rw [brackets, List.cons_append, List.cons_append, ← ih]
  | case2 s h => rfl

end

section

variable {inside : Bool} {atom? part? : Text → Option (TypeExpr × Text)}
  {separator? : Text → Option Text} {separator : Text → Prop}
  {atom row part next : Text → TypeExpr → Prop}

/-- If no name is cut in front of further parts, then none is cut behind them. -/
lemma sound_readMore (hnext : Sound (fun s => (separator? s).bind part?)
      fun w t => ∃ p v, w = p ++ v ∧ separator p ∧ next v t) (s : Text) :
    ∃ w, s = w ++ (readMore separator? part? s).2 ∧
      IsMore separator next w (readMore separator? part? s).1 ∧
        ∀ u, CutsNoName u s → CutsNoName (u ++ w) (readMore separator? part? s).2 := by
  induction s using readMore.induct separator? part? with
  | case1 s hnone =>
    rw [readMore, hnone]
    exact ⟨[], rfl, .nil, fun u hu => by rwa [List.append_nil]⟩
  | case2 s t rest hsome hlt ts rest' hmore ih =>
    rw [readMore, hsome]
    obtain ⟨w, hw, ⟨p, v, rfl, hp, hv⟩, hcut⟩ := hnext hsome
    obtain ⟨x, hx, hrest, hcuts⟩ := ih
    simp only [hlt, if_true, hmore] at hx hrest hcuts ⊢
    refine ⟨p ++ (v ++ x), ?_, .cons hp hv hrest, fun u _ => ?_⟩
    · rw [hw, hx]
      simp
    · rw [← List.append_assoc p]
      exact (hcuts _ hcut).append u
  | case3 s t rest hsome hlt =>
    rw [readMore, hsome]
    simp only [hlt, if_false]
    exact ⟨[], rfl, .nil, fun u hu => by rwa [List.append_nil]⟩

lemma sound_readList? (hpart : Sound part? part)
    (hnext : Sound (fun s => (separator? s).bind part?)
      fun w t => ∃ p v, w = p ++ v ∧ separator p ∧ next v t) :
    Sound (readList? separator? part?) (IsList separator part next) := by
  intro s ts rest h
  obtain ⟨⟨t, r⟩, hfirst, hmore⟩ := Option.bind_eq_some_iff.1 h
  obtain ⟨rfl, rfl⟩ := Prod.mk.inj (Option.some.inj hmore)
  obtain ⟨u, rfl, hu, hcut⟩ := hpart hfirst
  obtain ⟨v, hv, hvs, hcuts⟩ := sound_readMore hnext r
  refine ⟨u ++ v, ?_, ⟨u, t, v, _, rfl, rfl, hu, hvs⟩, hcuts u hcut⟩
  conv_lhs => rw [hv]
  simp

lemma cutsNoName_readBrackets {v r : Text} (h : CutsNoName v r) :
    CutsNoName (v ++ brackets (readBrackets r).1) (readBrackets r).2 := by
  have hr := sound_readBrackets r
  cases hn : (readBrackets r).1 with
  | zero =>
    rw [hn] at hr
    rwa [brackets, List.append_nil, ← show r = (readBrackets r).2 from hr]
  | succ n =>
    rw [brackets_succ]
    exact ((CutsNoName.concat rfl ['['] _).append (brackets n)).append v

/-- Parts behind a plain separator need only be read soundly. -/
lemma sound_separated (hpart : Sound part? part) (c : Char) :
    Sound (fun s => (readSeparator? inside c s).bind part?)
      fun w t => ∃ p v, w = p ++ v ∧ IsSeparator inside c p ∧ part v t := by
  intro s t rest h
  obtain ⟨r, hsep, hread⟩ := Option.bind_eq_some_iff.1 h
  obtain ⟨p, rfl, hp⟩ := sound_readSeparator? hsep
  obtain ⟨v, rfl, hv, hcut⟩ := hpart hread
  exact ⟨p ++ v, by simp, ⟨p, v, rfl, hp, hv⟩, hcut.append p⟩

lemma sound_readRow? {takesRows : Text → Prop} (hatom : Sound atom? atom)
    (hrows : ∀ {s t rest}, atom? s = some (t, rest) → (readBrackets rest).1 = 0 ∨
      ∀ w, s = w ++ rest → takesRows w) :
    Sound (readRow? atom?) (IsRow takesRows atom) := by
  intro s t rest h
  obtain ⟨⟨u, r⟩, hread, hrow⟩ := Option.bind_eq_some_iff.1 h
  dsimp only at hrow
  split_ifs at hrow with hle
  obtain ⟨rfl, rfl⟩ := Prod.mk.inj (Option.some.inj hrow)
  obtain ⟨v, rfl, hv, hcut⟩ := hatom hread
  have htakes := (hrows hread).imp_right fun h => h v rfl
  refine ⟨v ++ brackets (readBrackets r).1, ?_, ⟨v, u, _, rfl, rfl, hv, hle, htakes⟩, ?_⟩
  · conv_lhs => rw [sound_readBrackets r]
    simp
  · exact cutsNoName_readBrackets hcut

lemma sound_readIntersection? (hrow : Sound (readRow? atom?) row)
    (hstarts : ∀ {w t}, row w t → Starts w) :
    Sound (readIntersection? inside atom?) (IsIntersection inside row) := by
  intro s t rest h
  obtain ⟨⟨ts, r⟩, hlist, heq⟩ := Option.map_eq_some_iff.1 h
  obtain ⟨rfl, rfl⟩ := Prod.mk.inj heq
  have hnext : Sound (fun s => (readAmpersand? inside s).bind (readRow? atom?)) fun w t =>
      ∃ p v, w = p ++ v ∧ IsSeparator inside '&' p ∧ row v t ∧ IsOperand v := by
    intro s t rest h
    obtain ⟨r, hsep, hread⟩ := Option.bind_eq_some_iff.1 h
    obtain ⟨p, rfl, hp, hoperand⟩ := sound_readAmpersand? hsep
    obtain ⟨v, rfl, hv, hcut⟩ := hrow hread
    -- The row is not empty, so it starts with what stands behind the sign.
    rw [IsOperand, List.head?_append_of_ne_nil _ (hstarts hv).ne_nil] at hoperand
    exact ⟨p ++ v, by simp, ⟨p, v, rfl, hp, hv, hoperand⟩, hcut.append p⟩
  obtain ⟨w, rfl, hw, hcut⟩ := sound_readList? hrow hnext hlist
  exact ⟨w, rfl, ⟨ts, rfl, hw⟩, hcut⟩

lemma sound_readUnion? (hrow : Sound (readRow? atom?) row)
    (hstarts : ∀ {w t}, row w t → Starts w) :
    Sound (readUnion? inside atom?) (IsUnion inside row) := by
  intro s t rest h
  obtain ⟨⟨ts, r⟩, hlist, heq⟩ := Option.map_eq_some_iff.1 h
  obtain ⟨rfl, rfl⟩ := Prod.mk.inj heq
  have hpart : Sound (readIntersection? inside atom?) (IsIntersection inside row) :=
    sound_readIntersection? hrow hstarts
  obtain ⟨w, rfl, hw, hcut⟩ := sound_readList? hpart (sound_separated hpart '|') hlist
  exact ⟨w, rfl, ⟨ts, rfl, hw⟩, hcut⟩

lemma sound_readParams? (hrow : Sound (readRow? atom?) row)
    (hstarts : ∀ {w t}, row w t → Starts w) :
    Sound (readParams? atom?) fun w ts => ∃ l v r, w = l ++ (v ++ (r ++ ['>'])) ∧ IsSpace true l ∧
      IsList (IsSeparator true ',') (IsUnion true row) (IsUnion true row) v ts ∧
        IsSpace true r := by
  intro s ts rest h
  obtain ⟨⟨ts', r⟩, hread, hclosed⟩ := Option.bind_eq_some_iff.1 h
  obtain ⟨r', hsign, heq⟩ := Option.bind_eq_some_iff.1 hclosed
  obtain ⟨rfl, rfl⟩ := Prod.mk.inj (Option.some.inj heq)
  obtain ⟨l, hl, hspace⟩ := sound_skip true s
  have hpart : Sound (readUnion? true atom?) (IsUnion true row) :=
    sound_readUnion? hrow hstarts
  obtain ⟨v, hv, hlist, -⟩ := sound_readList? hpart (sound_separated hpart ',') hread
  obtain ⟨m, rfl, hm⟩ := sound_readSign? hsign
  refine ⟨l ++ (v ++ (m ++ ['>'])), ?_, ⟨l, v, m, rfl, hspace, hlist, hm⟩, ?_⟩
  · rw [hl, skip, if_pos rfl, hv]
    simp
  · exact ((CutsNoName.concat rfl m _).append v).append l

end

/-! ### Soundness of atoms -/

lemma readBrackets_snd (s : Text) : (readBrackets (readBrackets s).2).1 = 0 := by
  fun_induction readBrackets s with
  | case1 s n rest h ih => rwa [h] at ih
  | case2 s h => rw [readBrackets.eq_2 _ h]

/-- No `[]` are left behind a row. -/
lemma readBrackets_of_readRow? {atom? : Text → Option (TypeExpr × Text)} {s rest : Text}
    {t : TypeExpr} (h : readRow? atom? s = some (t, rest)) : (readBrackets rest).1 = 0 := by
  obtain ⟨⟨u, r⟩, -, hrow⟩ := Option.bind_eq_some_iff.1 h
  dsimp only at hrow
  split_ifs at hrow
  obtain ⟨-, rfl⟩ := Prod.mk.inj (Option.some.inj hrow)
  exact readBrackets_snd r

/-- No `[]` are left behind an atom that starts with `?`. -/
lemma isPrimary_of_readAtom? {levels : Nat} {inside : Bool} {s rest : Text} {t : TypeExpr}
    (h : readAtom? levels inside s = some (t, rest)) :
    (readBrackets rest).1 = 0 ∨ ∀ w, s = w ++ rest → IsPrimary w := by
  by_cases hs : s.head? = some '?'
  · obtain ⟨r, rfl⟩ := List.head?_eq_some_iff.1 hs
    cases levels with
    | zero => simp [readAtom?, readName?, isNameStart] at h
    | succ levels =>
      rw [readAtom?] at h
      obtain ⟨⟨u, r'⟩, hrow, heq⟩ := Option.map_eq_some_iff.1 h
      obtain ⟨-, rfl⟩ := Prod.mk.inj heq
      exact .inl (readBrackets_of_readRow? hrow)
  · refine .inr fun w hw hhead => hs ?_
    obtain ⟨v, rfl⟩ := List.head?_eq_some_iff.1 hhead
    rw [hw]
    rfl

/-- What is read as an atom is one. -/
lemma sound_readAtom? (levels : Nat) (inside : Bool) :
    Sound (readAtom? levels inside) (IsAtom IsPrimary levels inside) := by
  induction levels generalizing inside with
  | zero =>
    intro s t rest h
    rw [readAtom?] at h
    obtain ⟨⟨n, r⟩, hname, heq⟩ := Option.map_eq_some_iff.1 h
    obtain ⟨rfl, rfl⟩ := Prod.mk.inj heq
    obtain ⟨w, rfl, ⟨rfl, hn⟩, hcut⟩ := sound_readName? hname
    exact ⟨n, rfl, .of_name hn, hcut⟩
  | succ levels ih =>
    have hrow (inside : Bool) : Sound (readRow? (readAtom? levels inside))
        (IsRow IsPrimary (IsAtom IsPrimary levels inside)) :=
      sound_readRow? (ih inside) isPrimary_of_readAtom?
    have hstarts : ∀ {inside w t}, IsRow IsPrimary (IsAtom IsPrimary levels inside) w t →
        Starts w :=
      fun h => h.starts IsAtom.starts
    intro s t rest h
    by_cases hnullable : ∃ r, s = '?' :: r
    · obtain ⟨r, rfl⟩ := hnullable
      rw [readAtom?] at h
      obtain ⟨⟨u, r'⟩, hread, heq⟩ := Option.map_eq_some_iff.1 h
      obtain ⟨rfl, rfl⟩ := Prod.mk.inj heq
      obtain ⟨w, rfl, hw, hcut⟩ := hrow inside hread
      exact ⟨'?' :: w, rfl, .of_opens (.nullable hw), hcut.append ['?']⟩
    by_cases hgroup : ∃ r, s = '(' :: r
    · obtain ⟨r, rfl⟩ := hgroup
      rw [readAtom?] at h
      obtain ⟨⟨u, r'⟩, hread, hclosed⟩ := Option.bind_eq_some_iff.1 h
      obtain ⟨r'', hsign, heq⟩ := Option.bind_eq_some_iff.1 hclosed
      obtain ⟨rfl, rfl⟩ := Prod.mk.inj (Option.some.inj heq)
      obtain ⟨l, hl, hspace⟩ := sound_skip true r
      obtain ⟨w, hw, hunion, -⟩ := sound_readUnion? (hrow true) hstarts hread
      obtain ⟨m, rfl, hm⟩ := sound_readSign? hsign
      refine ⟨'(' :: (l ++ (w ++ (m ++ [')']))), ?_, .of_opens (.group hspace hunion hm), ?_⟩
      · rw [hl, skip, if_pos rfl, hw]
        simp
      · exact (((CutsNoName.concat rfl m _).append w).append l).append ['(']
    rw [readAtom?.eq_3 _ _ _ (fun r hr => hnullable ⟨r, hr⟩) fun r hr => hgroup ⟨r, hr⟩] at h
    obtain ⟨⟨n, r⟩, hname, hread⟩ := Option.bind_eq_some_iff.1 h
    obtain ⟨w, rfl, ⟨rfl, hn⟩, hcut⟩ := sound_readName? hname
    dsimp only at hread
    split at hread
    · next params r' hparams =>
      obtain ⟨rfl, rfl⟩ := Prod.mk.inj (Option.some.inj hread)
      obtain ⟨q, hq, hparams⟩ := Option.bind_eq_some_iff.1 hparams
      obtain ⟨v, rfl, ⟨l, u, m, rfl, hl, hlist, hm⟩, hcut'⟩ :=
        sound_readParams? (hrow true) hstarts hparams
      refine ⟨n ++ '<' :: (l ++ (u ++ (m ++ ['>']))), ?_, .of_opens (.generic hn hl hlist hm), ?_⟩
      · cases r with
        | nil => simp [dropPrefix?] at hq
        | cons d r =>
          rw [dropPrefix?] at hq
          split_ifs at hq with hd
          obtain rfl : r = _ := Option.some.inj hq
          rw [← hd]
          simp
      · exact (hcut'.append ['<']).append n
    · obtain ⟨rfl, rfl⟩ := Prod.mk.inj (Option.some.inj hread)
      exact ⟨n, rfl, .of_name hn, hcut⟩

/-- What is read as a type is derived by the grammar, and the name at its end is taken whole. -/
theorem sound_read? {raw : Text} {t : TypeExpr} {n : Nat} (h : read? raw = some (t, n)) :
    ∃ w rest, raw = w ++ rest ∧ n = byteSize w ∧ Derives IsPrimary maxNesting w t ∧
      CutsNoName w rest := by
  obtain ⟨⟨t', rest⟩, hunion, heq⟩ := Option.map_eq_some_iff.1 h
  obtain ⟨rfl, rfl⟩ := Prod.mk.inj heq
  have hatom := sound_readAtom? maxNesting false
  obtain ⟨w, rfl, hw, hcut⟩ := sound_readUnion? (sound_readRow? hatom isPrimary_of_readAtom?)
    (fun h => h.starts IsAtom.starts) hunion
  exact ⟨w, rest, rfl, by simp, hw, hcut⟩

end DocComment.TypeExpr
