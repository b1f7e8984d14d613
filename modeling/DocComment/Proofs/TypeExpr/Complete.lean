import DocComment.Proofs.Token.Source
import DocComment.Proofs.TypeExpr.Grammar

/-!
# Every type is read

A reader takes a text of its form as a whole if what stands behind it cannot go on with the form
(`Complete`). What may stand behind a form depends on the signs that the form itself goes on with,
so each form is read in front of the signs of all forms around it (`Follows`).

Together with soundness this makes the reader and the grammar one (`read?_of_derives`), once `[]`
behind `?` are given to the type after it: if they may follow a nullable type too, the grammar has
texts with two trees (`not_complete_nullable_row`).
-/

namespace DocComment.TypeExpr

open Text

/-! ### What follows a form -/

/-- Behind white space that counts for nothing there is one of these signs, or else white space that
counts, or the end. -/
def Follows (inside : Bool) (signs : List Char) (rest : Text) : Prop :=
  ∀ c ∈ (skip inside rest).head?, isWhiteSpace c ∨ c ∈ signs

/-- The signs that may stand behind a union. -/
def unionEnds : List Char := [')', '>', ',']

/-- The signs that may stand behind an intersection. -/
def intersectionEnds : List Char := '|' :: unionEnds

/-- The signs that may stand behind a row. -/
def rowEnds : List Char := '&' :: intersectionEnds

/-- The signs that may stand behind an atom that takes `[]`. -/
def atomEnds : List Char := '[' :: rowEnds

/-- A reader that takes all of a text of this form. -/
def Complete {α : Type} (part? : Text → Option (α × Text)) (form : Text → α → Prop) (inside : Bool)
    (ends : List Char) : Prop :=
  ∀ ⦃w a rest⦄, form w a → Follows inside ends rest → part? (w ++ rest) = some (a, rest)

section

variable {inside : Bool} {ends ends' : List Char} {c : Char} {s rest : Text}

lemma skip_of_head (h : ∀ c ∈ s.head?, isWhiteSpace c = false) : skip inside s = s := by
  cases inside with
  | false => rfl
  | true =>
    cases s with
    | nil => rfl
    | cons c s =>
      rw [skip, if_pos rfl, trimStart, List.dropWhile_cons_of_neg]
      simp [h c rfl]

lemma Starts.isWhiteSpace_head {w : Text} (h : Starts w) :
    ∀ c ∈ w.head?, isWhiteSpace c = false := by
  obtain ⟨d, hd, hstart⟩ := h
  intro c hc
  obtain rfl : d = c := Option.some.inj (Option.mem_def.1 hd ▸ hc)
  exact isWhiteSpace_of_startsType hstart

lemma skip_append {l : Text} (hl : IsSpace inside l) (hs : ∀ c ∈ s.head?, isWhiteSpace c = false) :
    skip inside (l ++ s) = s := by
  cases inside with
  | false =>
    cases l with
    | nil => rfl
    | cons c l => exact absurd (hl c List.mem_cons_self).1 (by simp)
  | true =>
    rw [skip, if_pos rfl, trimStart, List.dropWhile_append_of_pos fun c hc => (hl c hc).2]
    show TypeExpr.skip true s = s
    exact skip_of_head hs

namespace Follows

lemma mono (h : Follows inside ends rest) (hsub : ends ⊆ ends') : Follows inside ends' rest :=
  fun c hc => (h c hc).imp_right fun hmem => hsub hmem

/-- What stands there at once is such a sign, or white space. -/
lemma head (h : Follows inside ends rest) : ∀ c ∈ rest.head?, isWhiteSpace c ∨ c ∈ ends := by
  intro c hc
  by_cases hspace : isWhiteSpace c
  · exact .inl hspace
  · refine h c ?_
    rwa [skip_of_head]
    intro d hd
    obtain rfl : c = d := Option.some.inj (Option.mem_def.1 hc ▸ hd)
    simpa using hspace

lemma of_sign {l : Text} (hl : IsSpace inside l) (hc : isWhiteSpace c = false) (hmem : c ∈ ends) :
    Follows inside ends (l ++ c :: s) := by
  intro d hd
  rw [skip_append hl (by simp [hc])] at hd
  obtain rfl : c = d := Option.some.inj hd
  exact .inr hmem

end Follows

lemma readSign?_append {l : Text} (hl : IsSpace inside l) (hc : isWhiteSpace c = false) :
    readSign? inside c (l ++ c :: s) = some s := by
  rw [readSign?, skip_append hl (by simp [hc])]
  simp [dropPrefix?]

lemma readSign?_eq_none (h : Follows inside ends rest) (hc : isWhiteSpace c = false)
    (hmem : c ∉ ends) : readSign? inside c rest = none := by
  rw [readSign?]
  cases hs : skip inside rest with
  | nil => rfl
  | cons d r =>
    have hd := h d (by rw [hs]; rfl)
    have hne : c ≠ d := by
      rintro rfl
      simp [hc, hmem] at hd
    simp [dropPrefix?, hne]

lemma readSeparator?_append {p w : Text} (hp : IsSeparator inside c p)
    (hc : isWhiteSpace c = false) (hw : Starts w) :
    readSeparator? inside c (p ++ (w ++ rest)) = some (w ++ rest) := by
  obtain ⟨l, r, rfl, hl, hr⟩ := hp
  rw [readSeparator?, List.append_assoc, List.cons_append, readSign?_append hl hc,
    Option.map_some, skip_append hr (hw.append rest).isWhiteSpace_head]

lemma readSeparator?_eq_none (h : Follows inside ends rest) (hc : isWhiteSpace c = false)
    (hmem : c ∉ ends) : readSeparator? inside c rest = none := by
  rw [readSeparator?, readSign?_eq_none h hc hmem, Option.map_none]

lemma IsSeparator.follows {p : Text} (hp : IsSeparator inside c p) (hc : isWhiteSpace c = false)
    (hmem : c ∈ ends) : Follows inside ends (p ++ s) := by
  obtain ⟨l, r, rfl, hl, -⟩ := hp
  rw [List.append_assoc, List.cons_append]
  exact .of_sign hl hc hmem

end

/-! ### Names and brackets -/

section

variable {n rest : Text}

lemma readName?_append (hn : IsName n) (hrest : ∀ c ∈ rest.head?, isNameChar c = false) :
    readName? (n ++ rest) = some (n, rest) := by
  obtain ⟨c, cs, rfl, hstart, hcs, hthis⟩ := hn
  have hall : ∀ d ∈ c :: cs, isNameChar d :=
    List.forall_mem_cons.2 ⟨isNameChar_of_isNameStart hstart, hcs⟩
  have hstop : rest.takeWhile isNameChar = [] ∧ rest.dropWhile isNameChar = rest := by
    cases rest with
    | nil => exact ⟨rfl, rfl⟩
    | cons d rest =>
      have hd := hrest d rfl
      exact ⟨List.takeWhile_cons_of_neg (by simp [hd]), List.dropWhile_cons_of_neg (by simp [hd])⟩
  have htake : (c :: cs ++ rest).takeWhile isNameChar = c :: cs := by
    rw [List.takeWhile_append_of_pos hall, hstop.1, List.append_nil]
  have hdrop : (c :: cs ++ rest).dropWhile isNameChar = rest := by
    rw [List.dropWhile_append_of_pos hall, hstop.2]
  rw [List.cons_append] at htake hdrop ⊢
  rw [readName?, htake, hdrop, if_pos]
  by_cases hc : c = '$'
  · simp [hstart, hthis hc]
  · simp [hstart, hc]

lemma readBrackets_append (k : Nat) (hrest : rest.head? ≠ some '[') :
    readBrackets (brackets k ++ rest) = (k, rest) := by
  induction k with
  | zero =>
    show readBrackets rest = (0, rest)
    refine readBrackets.eq_2 _ fun r hr => hrest ?_
    rw [hr]
    rfl
  | succ k ih =>
    show readBrackets ('[' :: ']' :: (brackets k ++ rest)) = (k + 1, rest)
    rw [readBrackets, ih]

end

/-! ### Lists -/

section

variable {inside : Bool} {ends partEnds : List Char} {separator? : Text → Option Text}
  {part? atom? : Text → Option (TypeExpr × Text)} {separator : Text → Prop}
  {part next row atom : Text → TypeExpr → Prop} {v w rest : Text} {ts : List TypeExpr}

/-- What stands behind a part is a separator, or what stands behind the list. -/
lemma IsMore.follows (h : IsMore separator next v ts)
    (hsep : ∀ p s, separator p → Follows inside partEnds (p ++ s))
    (hrest : Follows inside partEnds rest) : Follows inside partEnds (v ++ rest) := by
  cases h with
  | nil => exact hrest
  | cons hs _ _ =>
    rw [List.append_assoc]
    exact hsep _ _ hs

/-- The parts of a list are read one after the other, and behind the last no separator is found. -/
lemma readMore_append
    (hstep : ∀ {p w t rest}, separator p → next w t → Follows inside partEnds rest →
      (separator? (p ++ (w ++ rest))).bind part? = some (t, rest))
    (hsep : ∀ p s, separator p → Follows inside partEnds (p ++ s))
    (hstarts : ∀ {w t}, next w t → Starts w) (hend : separator? rest = none)
    (hrest : Follows inside partEnds rest) (h : IsMore separator next v ts) :
    readMore separator? part? (v ++ rest) = (ts, rest) := by
  induction h with
  | nil =>
    show readMore separator? part? rest = ([], rest)
    rw [readMore, hend]
    rfl
  | @cons p w v t ts hp hw hv ih =>
    have hlen : (v ++ rest).length < (p ++ (w ++ (v ++ rest))).length := by
      have := List.length_pos_iff.2 (hstarts hw).ne_nil
      simp only [List.length_append]
      omega
    rw [List.append_assoc, List.append_assoc, readMore,
      hstep hp hw (hv.follows hsep hrest)]
    simp only [hlen, if_true, ih]

lemma readList?_append (hpart : Complete part? part inside partEnds)
    (hstep : ∀ {p w t rest}, separator p → next w t → Follows inside partEnds rest →
      (separator? (p ++ (w ++ rest))).bind part? = some (t, rest))
    (hsep : ∀ p s, separator p → Follows inside partEnds (p ++ s))
    (hstarts : ∀ {w t}, next w t → Starts w) (hend : separator? rest = none)
    (hrest : Follows inside partEnds rest) (h : IsList separator part next w ts) :
    readList? separator? part? (w ++ rest) = some (ts, rest) := by
  obtain ⟨u, t, v, us, rfl, rfl, hu, hv⟩ := h
  have hfirst : part? (u ++ (v ++ rest)) = some (t, v ++ rest) :=
    hpart hu (hv.follows hsep hrest)
  rw [readList?, List.append_assoc, hfirst]
  simp [readMore_append hstep hsep hstarts hend hrest hv]

/-- A list with a plain sign between its parts. -/
lemma readList?_separated {c : Char} (hc : isWhiteSpace c = false) (hmem : c ∈ partEnds)
    (hpart : Complete part? part inside partEnds) (hstarts : ∀ {w t}, part w t → Starts w)
    (hends : c ∉ ends) (hsub : ends ⊆ partEnds) (hrest : Follows inside ends rest)
    (h : IsList (IsSeparator inside c) part part w ts) :
    readList? (readSeparator? inside c) part? (w ++ rest) = some (ts, rest) := by
  refine readList?_append hpart (fun {p w t rest} hp hw hfollows => ?_)
    (fun p s hp => hp.follows hc hmem) hstarts (readSeparator?_eq_none hrest hc hends)
    (hrest.mono hsub) h
  rw [readSeparator?_append hp hc (hstarts hw)]
  exact hpart hw hfollows

lemma readAmpersand?_append {p : Text} (hp : IsSeparator inside '&' p) (hw : Starts w)
    (hoperand : IsOperand w) : readAmpersand? inside (p ++ (w ++ rest)) = some (w ++ rest) := by
  obtain ⟨hdollar, hdot⟩ := hoperand
  obtain ⟨c, w, rfl⟩ := List.exists_cons_of_ne_nil hw.ne_nil
  rw [readAmpersand?, readSeparator?_append hp rfl hw, List.cons_append]
  split
  · next heq => simp_all
  · next heq => simp_all
  · rfl

lemma readAmpersand?_eq_none (h : Follows inside ends rest) (hmem : '&' ∉ ends) :
    readAmpersand? inside rest = none := by
  rw [readAmpersand?, readSeparator?_eq_none h rfl hmem]

lemma complete_readIntersection? (hrow : Complete (readRow? atom?) row inside rowEnds)
    (hstarts : ∀ {w t}, row w t → Starts w) :
    Complete (readIntersection? inside atom?) (IsIntersection inside row) inside
      intersectionEnds := by
  rintro w t rest ⟨ts, rfl, hlist⟩ hrest
  have hread : readList? (readAmpersand? inside) (readRow? atom?) (w ++ rest) =
      some (ts, rest) := by
    refine readList?_append hrow (fun {p w t rest} hp hw hfollows => ?_)
      (fun p s hp => hp.follows rfl (by simp [rowEnds])) (fun h => hstarts h.1)
      (readAmpersand?_eq_none hrest (by decide)) (hrest.mono (List.subset_cons_self _ _)) hlist
    rw [readAmpersand?_append hp (hstarts hw.1) hw.2]
    exact hrow hw.1 hfollows
  rw [readIntersection?, hread]
  rfl

lemma complete_readUnion? (hrow : Complete (readRow? atom?) row inside rowEnds)
    (hstarts : ∀ {w t}, row w t → Starts w) :
    Complete (readUnion? inside atom?) (IsUnion inside row) inside unionEnds := by
  rintro w t rest ⟨ts, rfl, hlist⟩ hrest
  have hread : readList? (readSeparator? inside '|') (readIntersection? inside atom?) (w ++ rest)
      = some (ts, rest) :=
    readList?_separated rfl (by simp [intersectionEnds]) (complete_readIntersection? hrow hstarts)
      (fun h => h.starts hstarts) (by decide) (List.subset_cons_self _ _) hrest hlist
  rw [readUnion?, hread]
  rfl

/-- The parameters between angle brackets, up to the closing one. -/
lemma readParams?_append (hrow : Complete (readRow? atom?) row true rowEnds)
    (hstarts : ∀ {w t}, row w t → Starts w) {l r : Text} (hl : IsSpace true l)
    (hw : IsList (IsSeparator true ',') (IsUnion true row) (IsUnion true row) w ts)
    (hr : IsSpace true r) :
    readParams? atom? (l ++ (w ++ (r ++ ['>'])) ++ rest) = some (ts, rest) := by
  have hunion : ∀ {w t}, IsUnion true row w t → Starts w := fun h => h.starts hstarts
  have hclose : Follows true ['>'] (r ++ '>' :: rest) := .of_sign hr rfl (by simp)
  have hread : readList? (readSeparator? true ',') (readUnion? true atom?)
      (w ++ (r ++ '>' :: rest)) = some (ts, r ++ '>' :: rest) :=
    readList?_separated rfl (by simp [unionEnds]) (complete_readUnion? hrow hstarts) hunion
      (by decide) (by simp [unionEnds]) hclose hw
  have hskip : trimStart (l ++ (w ++ (r ++ '>' :: rest))) = w ++ (r ++ '>' :: rest) := by
    show skip true _ = _
    exact skip_append hl ((hw.starts hunion).append _).isWhiteSpace_head
  have hsign : readSign? true '>' (r ++ '>' :: rest) = some rest := readSign?_append hr rfl
  rw [readParams?]
  simp only [List.append_assoc, List.cons_append, List.nil_append, hskip, hread,
    Option.bind_eq_bind, Option.bind_some, hsign]
  rfl

/-- An atom is read in front of what follows a row, and in front of `[]` if it takes them. -/
def CompleteAtom (atom? : Text → Option (TypeExpr × Text)) (atom : Text → TypeExpr → Prop)
    (inside : Bool) : Prop :=
  ∀ ⦃w t rest⦄, atom w t →
    (Follows inside rowEnds rest ∨ IsPrimary w ∧ Follows inside atomEnds rest) →
    atom? (w ++ rest) = some (t, rest)

lemma complete_readRow? (hatom : CompleteAtom atom? atom inside) :
    Complete (readRow? atom?) (IsRow IsPrimary atom) inside rowEnds := by
  rintro w t rest ⟨v, u, n, rfl, rfl, hv, hle, hn⟩ hrest
  have hbracket : rest.head? ≠ some '[' := by
    intro h
    have := hrest.head '[' h
    revert this
    decide
  have hread : atom? (v ++ (brackets n ++ rest)) = some (u, brackets n ++ rest) := by
    apply hatom hv
    cases n with
    | zero => exact .inl hrest
    | succ n =>
      have hprimary : IsPrimary v := hn.resolve_left (Nat.succ_ne_zero n)
      refine .inr ⟨hprimary, ?_⟩
      have hnil : IsSpace inside [] := by simp [IsSpace]
      exact .of_sign hnil rfl (by simp [atomEnds])
  rw [readRow?, List.append_assoc, hread]
  simp [readBrackets_append n hbracket, hle]

/-! ### Atoms -/

lemma isNameChar_of_mem_atomEnds {c : Char} (h : isWhiteSpace c ∨ c ∈ atomEnds) :
    isNameChar c = false ∧ c ≠ '<' := by
  rcases h with h | h
  · constructor
    · by_contra hname
      rw [isWhiteSpace_of_isNameChar (by simpa using hname)] at h
      cases h
    · rintro rfl
      cases h
  · have hends : atomEnds.all fun d => !isNameChar d && d != '<' := rfl
    simpa using List.all_eq_true.1 hends c h

/-- What may follow an atom is part of no name, and opens no parameters. -/
lemma isNameChar_of_follows {w rest : Text}
    (h : Follows inside rowEnds rest ∨ IsPrimary w ∧ Follows inside atomEnds rest) :
    ∀ c ∈ rest.head?, isNameChar c = false ∧ c ≠ '<' := by
  intro c hc
  refine isNameChar_of_mem_atomEnds ?_
  rcases h with h | ⟨-, h⟩
  · exact (h.mono (List.subset_cons_self _ _)).head c hc
  · exact h.head c hc

/-- Behind a name its parameters are tried first. -/
lemma readAtom?_succ_append {levels : Nat} (hn : IsName w)
    (hrest : ∀ c ∈ rest.head?, isNameChar c = false) :
    readAtom? (levels + 1) inside (w ++ rest) =
      match (dropPrefix? ['<'] rest).bind (readParams? (readAtom? levels true)) with
      | some (params, rest) => some (.generic w params, rest)
      | none => some (.name w, rest) := by
  have hhead : ∀ c s, w ++ rest = c :: s → isNameStart c := by
    obtain ⟨d, ds, rfl, hd, -⟩ := hn
    intro c s h
    obtain ⟨rfl, -⟩ := List.cons.inj h
    exact hd
  rw [readAtom?.eq_3 _ _ _ (fun s hs => absurd (hhead _ _ hs) (by decide))
    fun s hs => absurd (hhead _ _ hs) (by decide), readName?_append hn hrest]
  rfl

/-- A name is read alone if no parameters follow it. -/
lemma readAtom?_name {levels : Nat} (hn : IsName w)
    (hrest : ∀ c ∈ rest.head?, isNameChar c = false ∧ c ≠ '<') :
    readAtom? levels inside (w ++ rest) = some (.name w, rest) := by
  have hchar : ∀ c ∈ rest.head?, isNameChar c = false := fun c hc => (hrest c hc).1
  cases levels with
  | zero => rw [readAtom?, readName?_append hn hchar, Option.map_some]
  | succ levels =>
    have hdrop : dropPrefix? ['<'] rest = none := by
      cases rest with
      | nil => rfl
      | cons c rest => simp [dropPrefix?, (hrest c rfl).2.symm]
    rw [readAtom?_succ_append hn hchar, hdrop]
    rfl

/-- Every atom is read. -/
lemma complete_readAtom? (levels : Nat) (inside : Bool) :
    CompleteAtom (readAtom? levels inside) (IsAtom IsPrimary levels inside) inside := by
  induction levels generalizing inside with
  | zero =>
    intro w t rest h hrest
    obtain ⟨hn, rfl⟩ : IsName w ∧ t = .name w := by
      rw [IsAtom.eq_def] at h
      exact h.resolve_right id
    exact readAtom?_name hn (isNameChar_of_follows hrest)
  | succ levels ih =>
    have hrow (inside : Bool) := complete_readRow? (ih inside)
    have hstarts : ∀ {inside w t}, IsRow IsPrimary (IsAtom IsPrimary levels inside) w t →
        Starts w :=
      fun h => h.starts IsAtom.starts
    intro w t rest h hrest
    rw [IsAtom.eq_def] at h
    rcases h with ⟨hn, rfl⟩ | h
    · exact readAtom?_name hn (isNameChar_of_follows hrest)
    cases h with
    | @nullable w t hw =>
      -- All `[]` behind `?` belong to the row after it, so none may follow.
      have hfollows : Follows inside rowEnds rest :=
        hrest.resolve_right fun h => h.1 rfl
      rw [List.cons_append, readAtom?, hrow inside hw hfollows, Option.map_some]
    | @group l w r t hl hw hr =>
      have hclose : Follows true unionEnds (r ++ ')' :: rest) :=
        .of_sign hr rfl (by simp [unionEnds])
      have hread : readUnion? true (readAtom? levels true) (w ++ (r ++ ')' :: rest))
          = some (t, r ++ ')' :: rest) := complete_readUnion? (hrow true) hstarts hw hclose
      have hskip : trimStart (l ++ (w ++ (r ++ ')' :: rest))) = w ++ (r ++ ')' :: rest) := by
        show skip true _ = _
        exact skip_append hl ((hw.starts hstarts).append _).isWhiteSpace_head
      have hsign : readSign? true ')' (r ++ ')' :: rest) = some rest := readSign?_append hr rfl
      rw [List.cons_append, readAtom?]
      simp only [List.append_assoc, List.cons_append, List.nil_append, hskip, hread,
        Option.bind_eq_bind, Option.bind_some, hsign]
      rfl
    | @generic n l w r ts hn hl hw hr =>
      have hparams : readParams? (readAtom? levels true) (l ++ (w ++ (r ++ ['>'])) ++ rest)
          = some (ts, rest) := readParams?_append (hrow true) hstarts hl hw hr
      have hname : ∀ c ∈ ('<' :: (l ++ (w ++ (r ++ ['>'])) ++ rest)).head?,
          isNameChar c = false := by
        intro c hc
        obtain rfl : '<' = c := Option.some.inj hc
        rfl
      have hdrop : dropPrefix? ['<'] ('<' :: (l ++ (w ++ (r ++ ['>'])) ++ rest))
          = some (l ++ (w ++ (r ++ ['>'])) ++ rest) := rfl
      rw [List.append_assoc, List.cons_append, readAtom?_succ_append hn hname, hdrop,
        Option.bind_some, hparams]

end

/-- Every type is read in front of white space, or at the end. -/
lemma read?_append {w rest : Text} {t : TypeExpr} (h : Derives IsPrimary maxNesting w t)
    (hrest : ∀ c ∈ rest.head?, isWhiteSpace c) : read? (w ++ rest) = some (t, byteSize w) := by
  have hread : readUnion? false (readAtom? maxNesting false) (w ++ rest) = some (t, rest) :=
    complete_readUnion? (complete_readRow? (complete_readAtom? maxNesting false))
      (fun h => h.starts IsAtom.starts) h fun c hc => .inl (hrest c hc)
  rw [read?, hread, Option.map_some]
  simp

/-- The reader recognizes the grammar: what it reads is derived, with names that are taken whole,
and all that is derived is read. -/
theorem read?_of_derives :
    (∀ raw t n, read? raw = some (t, n) →
      ∃ w rest, raw = w ++ rest ∧ slice? 0 n raw = some w ∧ Derives IsPrimary maxNesting w t ∧
        CutsNoName w rest) ∧
    ∀ w t rest, Derives IsPrimary maxNesting w t → (∀ c ∈ rest.head?, isWhiteSpace c) →
      read? (w ++ rest) = some (t, byteSize w) := by
  constructor
  · intro raw t n h
    obtain ⟨w, rest, rfl, rfl, hw, hcut⟩ := sound_read? h
    refine ⟨w, rest, rfl, ?_, hw, hcut⟩
    have hslice : slice 0 (byteSize w) (w ++ rest) = w := by
      have := slice_append [] w rest
      simpa using this
    rw [slice?, isBoundary_byteSize_append, hslice]
    simp [isBoundary]
  · intro w t rest hw hrest
    exact read?_append hw hrest

/-- The `[]` of a nullable type are those of the type after `?`. -/
theorem read?_of_derives_nullable :
    (Derives IsPrimary maxNesting "?A[]".toList (.nullable (.array (.name ['A']))) ∧
      ∀ c ∈ " x".toList.head?, isWhiteSpace c) ∧
    read? "?A[] x".toList = some (.nullable (.array (.name ['A'])), 4) := by
  have hname : IsName ['A'] := ⟨'A', [], rfl, rfl, by simp, by simp⟩
  have hderives : Derives IsPrimary maxNesting "?A[]".toList
      (.nullable (.array (.name ['A']))) := by
    refine IsUnion.of_row (IsRow.of_atom (IsAtom.of_opens (.nullable ?_)))
    exact ⟨['A'], .name ['A'], 1, rfl, rfl, .of_name hname, by decide, .inr (by simp [IsPrimary])⟩
  have hspace : ∀ c ∈ " x".toList.head?, isWhiteSpace c := by
    rintro c ⟨⟩
    rfl
  exact ⟨⟨hderives, hspace⟩, read?_of_derives.2 "?A[]".toList _ " x".toList hderives hspace⟩

/-- If `[]` may follow nullable types too, then `?A[]` is also a row of nullable types, which is not
what is read. -/
theorem not_complete_nullable_row :
    ¬ ∀ w t rest, Derives (fun _ => True) maxNesting w t → (∀ c ∈ rest.head?, isWhiteSpace c) →
      read? (w ++ rest) = some (t, byteSize w) := by
  intro h
  have hname : IsName ['A'] := ⟨'A', [], rfl, rfl, by simp, by simp⟩
  have hnullable : IsAtom (fun _ => True) maxNesting false "?A".toList (.nullable (.name ['A'])) :=
    .of_opens (.nullable (.of_atom (.of_name hname)))
  have hderives : Derives (fun _ => True) maxNesting "?A[]".toList
      (.array (.nullable (.name ['A']))) :=
    .of_row ⟨"?A".toList, .nullable (.name ['A']), 1, rfl, rfl, hnullable, by decide,
      .inr trivial⟩
  have hread := h "?A[]".toList _ [] hderives (by simp)
  revert hread
  decide +kernel

end DocComment.TypeExpr
