import Mathlib.Data.List.Basic
import Mathlib.Data.List.TakeWhile
import Mathlib.Tactic.Common
import DocComment.Proofs.Text.Trim
import DocComment.TypeExpr.Reader

/-!
# Types with good names

A type is *well named* if its names are words, its parameters are not none, and its unions and
intersections have two members or more. Every type that is read is well named
(`wellNamed_of_read?`), and the text of such a type starts and ends with no space and has only the
characters of types in it (`WellNamed.isWritten`).
-/

namespace DocComment.TypeExpr

open Text

/-- All names are words, there are parameters between angle brackets, and signs join two members or
more. -/
inductive WellNamed : TypeExpr → Prop where
  | name {n : Text} (hne : n ≠ []) (hn : ∀ c ∈ n, isNameChar c) : WellNamed (.name n)
  | nullable {t : TypeExpr} (ht : WellNamed t) : WellNamed (.nullable t)
  | union {ts : List TypeExpr} (hlen : 2 ≤ ts.length) (hts : ∀ t ∈ ts, WellNamed t) :
    WellNamed (.union ts)
  | intersection {ts : List TypeExpr} (hlen : 2 ≤ ts.length) (hts : ∀ t ∈ ts, WellNamed t) :
    WellNamed (.intersection ts)
  | array {t : TypeExpr} (ht : WellNamed t) : WellNamed (.array t)
  | generic {n : Text} {ts : List TypeExpr} (hne : n ≠ []) (hn : ∀ c ∈ n, isNameChar c)
    (hne' : ts ≠ []) (hts : ∀ t ∈ ts, WellNamed t) : WellNamed (.generic n ts)

/-! ### The text of a type -/

/-- The characters of written types. -/
def isTypeChar (c : Char) : Bool :=
  isNameChar c || c ∈ ['?', '|', '&', '<', '>', ',', '[', ']', '(', ')', ' ']

/-- Text of a type, which starts and ends with no space. -/
structure IsWritten (s : Text) : Prop where
  isTypeChar : ∀ c ∈ s, isTypeChar c
  ne_nil : s ≠ []
  head? : s.head? ≠ some ' '
  getLast? : s.getLast? ≠ some ' '

namespace IsWritten

variable {s t m : Text}

lemma append (hs : IsWritten s) (hm : m.all TypeExpr.isTypeChar) (ht : IsWritten t) :
    IsWritten (s ++ m ++ t) where
  isTypeChar c hc := by
    rw [List.mem_append, List.mem_append] at hc
    rcases hc with (hc | hc) | hc
    · exact hs.isTypeChar c hc
    · exact List.all_eq_true.1 hm c hc
    · exact ht.isTypeChar c hc
  ne_nil := by simp [hs.ne_nil]
  head? := by
    rw [List.append_assoc, List.head?_append_of_ne_nil _ hs.ne_nil]
    exact hs.head?
  getLast? := by
    rw [List.getLast?_append_of_ne_nil _ ht.ne_nil]
    exact ht.getLast?

lemma singleton {c : Char} (hc : TypeExpr.isTypeChar c) (hne : c ≠ ' ') : IsWritten [c] where
  isTypeChar d hd := by rwa [List.mem_singleton.1 hd]
  ne_nil := List.cons_ne_nil c []
  head? := by simpa using hne
  getLast? := by simpa using hne

lemma of_name (hne : s ≠ []) (hs : ∀ c ∈ s, isNameChar c) : IsWritten s where
  isTypeChar c hc := by simp [TypeExpr.isTypeChar, hs c hc]
  ne_nil := hne
  head? h := absurd (hs _ (List.mem_of_mem_head? h)) (by decide)
  getLast? h := absurd (hs _ (List.mem_of_getLast? h)) (by decide)

lemma parenthesizedIf (hs : IsWritten s) (b : Bool) : IsWritten (parenthesizedIf b s) := by
  cases b with
  | false => exact hs
  | true =>
    have hopen : IsWritten ['('] := singleton (by decide) (by decide)
    have hclose : IsWritten [')'] := singleton (by decide) (by decide)
    have h := (hopen.append (m := []) (by simp) hs).append (m := []) (by simp) hclose
    simpa [TypeExpr.parenthesizedIf] using h

/-- Parts that are joined by signs. -/
lemma intercalate (hm : m.all TypeExpr.isTypeChar) {parts : List Text} (hne : parts ≠ [])
    (hparts : ∀ p ∈ parts, IsWritten p) : IsWritten (m.intercalate parts) := by
  induction parts with
  | nil => exact absurd rfl hne
  | cons p parts ih =>
    obtain ⟨hp, hrest⟩ := List.forall_mem_cons.1 hparts
    cases parts with
    | nil => simpa using hp
    | cons q parts =>
      rw [List.intercalate_cons_cons]
      exact hp.append hm (ih (List.cons_ne_nil q parts) hrest)

end IsWritten

lemma ne_nil_of_two_le {ts : List TypeExpr} (hlen : 2 ≤ ts.length) : ts ≠ [] :=
  List.length_pos_iff.1 (by omega)

lemma collapse_of_two_le {wrap : List TypeExpr → TypeExpr} {ts : List TypeExpr}
    (hlen : 2 ≤ ts.length) : collapse wrap ts = wrap ts := by
  match ts with
  | [] | [_] => simp at hlen
  | _ :: _ :: _ => rfl

/-- The text of a well-named type has the characters of types. -/
theorem WellNamed.isWritten {t : TypeExpr} (h : WellNamed t) : IsWritten t.text := by
  have hnil : ([] : Text).all isTypeChar := rfl
  induction h with
  | name hne hn =>
    rw [text]
    exact .of_name hne hn
  | @nullable t ht ih =>
    have h := (IsWritten.singleton (by decide : isTypeChar '?') (by decide)).append hnil
      (ih.parenthesizedIf t.isCompound)
    rw [text]
    simpa using h
  | @union ts hlen hts ih =>
    rw [text, texts_eq_map]
    refine .intercalate (by decide) (List.map_eq_nil_iff.not.2 (ne_nil_of_two_le hlen))
      fun p hp => ?_
    obtain ⟨t, ht, rfl⟩ := List.mem_map.1 hp
    exact ih t ht
  | @intersection ts hlen hts ih =>
    rw [text, memberTexts_eq_map]
    refine .intercalate (by decide) (List.map_eq_nil_iff.not.2 (ne_nil_of_two_le hlen))
      fun p hp => ?_
    obtain ⟨t, ht, rfl⟩ := List.mem_map.1 hp
    exact (ih t ht).parenthesizedIf _
  | @array t ht ih =>
    have h := (ih.parenthesizedIf t.isCompound).append (m := ['[']) (by decide)
      (.singleton (by decide : isTypeChar ']') (by decide))
    rw [text]
    simpa using h
  | @generic n ts hne hn hne' hts ih =>
    have hparams : IsWritten ([',', ' '].intercalate (texts ts)) := by
      rw [texts_eq_map]
      refine .intercalate (by decide) (by simpa using hne') fun p hp => ?_
      obtain ⟨t, ht, rfl⟩ := List.mem_map.1 hp
      exact ih t ht
    have h := ((IsWritten.of_name hne hn).append (m := ['<']) (by decide) hparams).append hnil
      (.singleton (by decide : isTypeChar '>') (by decide))
    rw [text]
    simpa using h

/-! ### The characters of types -/

/-- The only white space in the text of a type are spaces. -/
lemma isWhiteSpace_of_isTypeChar {c : Char} (h : isTypeChar c) (hne : c ≠ ' ') :
    isWhiteSpace c = false := by
  simp only [isTypeChar, isNameChar, Bool.or_eq_true, decide_eq_true_eq, List.mem_cons,
    List.not_mem_nil, or_false] at h
  rcases h with (((((h | rfl) | rfl) | rfl) | rfl) | rfl) | h
  · exact isWhiteSpace_of_isAlphanum h
  · rfl
  · rfl
  · rfl
  · rfl
  · rfl
  · rcases h with rfl | rfl | rfl | rfl | rfl | rfl | rfl | rfl | rfl | rfl | rfl
    all_goals first | rfl | exact absurd rfl hne

/-! ### Reading -/

/-- A reader reads only well-named types. -/
def ReadsWellNamed (part? : Text → Option (TypeExpr × Text)) : Prop :=
  ∀ {s t rest}, part? s = some (t, rest) → WellNamed t

variable {separator? : Text → Option Text} {part? : Text → Option (TypeExpr × Text)}
  {s rest : Text} {ts : List TypeExpr}

lemma wellNamed_of_readName? {n : Text} (h : readName? s = some (n, rest)) :
    n ≠ [] ∧ ∀ c ∈ n, isNameChar c := by
  cases s with
  | nil => simp [readName?] at h
  | cons c cs =>
    rw [readName?] at h
    split_ifs at h with hc
    obtain ⟨rfl, -⟩ := Prod.mk.inj (Option.some.inj h)
    refine ⟨?_, fun d hd => List.mem_takeWhile_imp hd⟩
    have hname : isNameChar c := by
      have hstart := (Bool.and_eq_true_iff.1 hc).1
      simp only [isNameStart, isNameChar, Char.isAlphanum, Bool.or_eq_true] at hstart ⊢
      tauto
    simp [hname]

lemma wellNamed_of_mem_readMore (h : ReadsWellNamed part?) :
    ∀ t ∈ (readMore separator? part? s).1, WellNamed t := by
  induction s using readMore.induct separator? part? with
  | case1 s hnone =>
    rw [readMore, hnone]
    simp
  | case2 s t rest hsome hlt ts rest' hmore ih =>
    rw [readMore, hsome]
    obtain ⟨r, -, hpart⟩ := Option.bind_eq_some_iff.1 hsome
    simpa [hlt] using ⟨h hpart, ih⟩
  | case3 s t rest hsome hlt =>
    rw [readMore, hsome]
    simp [hlt]

lemma wellNamed_of_readList? (h : ReadsWellNamed part?)
    (hread : readList? separator? part? s = some (ts, rest)) :
    ts ≠ [] ∧ ∀ t ∈ ts, WellNamed t := by
  unfold readList? at hread
  obtain ⟨⟨t, rest'⟩, hpart, hmore⟩ := Option.bind_eq_some_iff.1 hread
  obtain ⟨rfl, -⟩ := Prod.mk.inj (Option.some.inj hmore)
  exact ⟨List.cons_ne_nil _ _, List.forall_mem_cons.2 ⟨h hpart, wellNamed_of_mem_readMore h⟩⟩

lemma wellNamed_collapse {wrap : List TypeExpr → TypeExpr} (hne : ts ≠ [])
    (hwrap : 2 ≤ ts.length → WellNamed (wrap ts)) (hts : ∀ t ∈ ts, WellNamed t) :
    WellNamed (collapse wrap ts) := by
  match ts with
  | [] => exact absurd rfl hne
  | [t] => exact hts t List.mem_cons_self
  | t :: u :: us => exact hwrap (by simp)

lemma wellNamed_arrays {t : TypeExpr} (h : WellNamed t) (n : Nat) : WellNamed (arrays n t) := by
  induction n generalizing t with
  | zero => exact h
  | succ n ih => exact ih h.array

lemma readsWellNamed_readRow? (h : ReadsWellNamed part?) : ReadsWellNamed (readRow? part?) := by
  intro s t rest hread
  unfold readRow? at hread
  obtain ⟨⟨t', rest'⟩, hatom, hrow⟩ := Option.bind_eq_some_iff.1 hread
  dsimp only at hrow
  split_ifs at hrow
  obtain ⟨rfl, -⟩ := Prod.mk.inj (Option.some.inj hrow)
  exact wellNamed_arrays (h hatom) _

lemma readsWellNamed_readIntersection? (inside : Bool) (h : ReadsWellNamed part?) :
    ReadsWellNamed (readIntersection? inside part?) := by
  intro s t rest hread
  obtain ⟨⟨ts, rest'⟩, hlist, heq⟩ := Option.map_eq_some_iff.1 hread
  obtain ⟨rfl, -⟩ := Prod.mk.inj heq
  obtain ⟨hne, hts⟩ := wellNamed_of_readList? (readsWellNamed_readRow? h) hlist
  exact wellNamed_collapse hne (.intersection · hts) hts

lemma readsWellNamed_readUnion? (inside : Bool) (h : ReadsWellNamed part?) :
    ReadsWellNamed (readUnion? inside part?) := by
  intro s t rest hread
  obtain ⟨⟨ts, rest'⟩, hlist, heq⟩ := Option.map_eq_some_iff.1 hread
  obtain ⟨rfl, -⟩ := Prod.mk.inj heq
  obtain ⟨hne, hts⟩ := wellNamed_of_readList? (readsWellNamed_readIntersection? inside h) hlist
  exact wellNamed_collapse hne (.union · hts) hts

lemma wellNamed_of_readParams? (h : ReadsWellNamed part?)
    (hread : readParams? part? s = some (ts, rest)) : ts ≠ [] ∧ ∀ t ∈ ts, WellNamed t := by
  unfold readParams? at hread
  obtain ⟨⟨ts', rest'⟩, hlist, hsign⟩ := Option.bind_eq_some_iff.1 hread
  obtain ⟨rest'', -, heq⟩ := Option.bind_eq_some_iff.1 hsign
  obtain ⟨rfl, -⟩ := Prod.mk.inj (Option.some.inj heq)
  exact wellNamed_of_readList? (readsWellNamed_readUnion? true h) hlist

lemma readsWellNamed_readAtom? (levels : Nat) (inside : Bool) :
    ReadsWellNamed (readAtom? levels inside) := by
  induction levels generalizing inside with
  | zero =>
    intro s t rest hread
    rw [readAtom?] at hread
    obtain ⟨⟨n, rest'⟩, hname, heq⟩ := Option.map_eq_some_iff.1 hread
    obtain ⟨rfl, -⟩ := Prod.mk.inj heq
    obtain ⟨hne, hn⟩ := wellNamed_of_readName? hname
    exact .name hne hn
  | succ levels ih =>
    intro s t rest hread
    by_cases hnullable : ∃ r, s = '?' :: r
    · obtain ⟨r, rfl⟩ := hnullable
      rw [readAtom?] at hread
      obtain ⟨⟨t', rest'⟩, hrow, heq⟩ := Option.map_eq_some_iff.1 hread
      obtain ⟨rfl, -⟩ := Prod.mk.inj heq
      exact .nullable (readsWellNamed_readRow? (ih inside) hrow)
    by_cases hparen : ∃ r, s = '(' :: r
    · obtain ⟨r, rfl⟩ := hparen
      rw [readAtom?] at hread
      obtain ⟨⟨t', rest'⟩, hunion, hsign⟩ := Option.bind_eq_some_iff.1 hread
      obtain ⟨rest'', -, heq⟩ := Option.bind_eq_some_iff.1 hsign
      obtain ⟨rfl, -⟩ := Prod.mk.inj (Option.some.inj heq)
      exact readsWellNamed_readUnion? true (ih true) hunion
    rw [readAtom?.eq_3 _ _ _ (fun r hr => hnullable ⟨r, hr⟩) fun r hr => hparen ⟨r, hr⟩] at hread
    obtain ⟨⟨n, rest'⟩, hname, hread⟩ := Option.bind_eq_some_iff.1 hread
    obtain ⟨hne, hn⟩ := wellNamed_of_readName? hname
    dsimp only at hread
    split at hread
    · next params rest'' hparams =>
      obtain ⟨rfl, -⟩ := Prod.mk.inj (Option.some.inj hread)
      obtain ⟨r, -, hparams⟩ := Option.bind_eq_some_iff.1 hparams
      obtain ⟨hne', hts⟩ := wellNamed_of_readParams? (ih true) hparams
      exact .generic hne hn hne' hts
    · obtain ⟨rfl, -⟩ := Prod.mk.inj (Option.some.inj hread)
      exact .name hne hn

/-- Every type that is read is well named. -/
theorem wellNamed_of_read? {t : TypeExpr} {size : Nat} (h : read? s = some (t, size)) :
    WellNamed t := by
  obtain ⟨⟨t', rest⟩, hunion, heq⟩ := Option.map_eq_some_iff.1 h
  obtain ⟨rfl, -⟩ := Prod.mk.inj heq
  exact readsWellNamed_readUnion? false (readsWellNamed_readAtom? maxNesting false) hunion

end DocComment.TypeExpr
