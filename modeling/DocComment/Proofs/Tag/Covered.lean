import DocComment.Proofs.Tag.Reread
import DocComment.Proofs.Text.Brackets

/-!
# What the fragments of a method cover

The parameters of a method stand between the first parenthesis of its payload and the one that
closes it. All that stands there is in a fragment, is white space, or is a comma between two pieces
(`Fragment.exists_covers`), so that no text of a parameter is lost
(`MethodPayload.exists_laidOut`).
-/

namespace DocComment

open Text

namespace Text

variable {c : Char} {s t p q : Text}

/-- A character that is not in the first of two parts is in the second. -/
lemma exists_of_append_of_not_mem_left (h : s ++ t = p ++ c :: q) (hs : c ∉ s) :
    ∃ m, p = s ++ m ∧ t = m ++ c :: q := by
  rcases List.append_eq_append_iff.1 h with ⟨m, hp, ht⟩ | ⟨m, hp, ht⟩
  · exact ⟨m, hp, ht⟩
  · cases m with
    | nil => exact ⟨[], by simpa using hp.symm, ht.symm⟩
    | cons d m =>
      obtain ⟨rfl, -⟩ := List.cons.inj ht
      exact absurd (by simp [hp]) hs

/-- A character that is not in the second of two parts is in the first. -/
lemma exists_of_append_of_not_mem_right (h : s ++ t = p ++ c :: q) (ht : c ∉ t) :
    ∃ m, s = p ++ c :: m := by
  rcases List.append_eq_append_iff.1 h with ⟨m, -, hm⟩ | ⟨m, hs, hm⟩
  · exact absurd (by simp [hm]) ht
  · cases m with
    | nil => exact absurd (by simp [← show c :: q = t from hm]) ht
    | cons d m =>
      obtain ⟨rfl, -⟩ := List.cons.inj hm
      exact ⟨m, hs⟩

/-- A character of a joined text is a separator or stands in one of the parts. -/
lemma exists_part_of_intercalate {sep : Char} {parts : List Text}
    (h : [sep].intercalate parts = p ++ c :: q) (hc : c ≠ sep) : ∃ before l r after,
      parts = before ++ (l ++ c :: r) :: after ∧ p = before.flatMap (· ++ [sep]) ++ l := by
  induction parts generalizing p with
  | nil => simp at h
  | cons part parts ih =>
    by_cases hmem : ∃ r, part = p ++ c :: r
    · obtain ⟨r, rfl⟩ := hmem
      exact ⟨[], p, r, parts, rfl, rfl⟩
    cases parts with
    | nil =>
      rw [List.intercalate_singleton] at h
      exact absurd ⟨q, h⟩ hmem
    | cons part' parts =>
      rw [List.intercalate_cons_cons] at h
      have hleft : ∃ m, p = part ++ [sep] ++ m ∧
          [sep].intercalate (part' :: parts) = m ++ c :: q := by
        rcases List.append_eq_append_iff.1 h with ⟨m, hp, hm⟩ | ⟨m, hp, hm⟩
        · exact ⟨m, hp, hm⟩
        · cases m with
          | nil => exact ⟨[], by simpa using hp.symm, hm.symm⟩
          | cons d m =>
            obtain ⟨rfl, -⟩ := List.cons.inj hm
            exact absurd (exists_of_append_of_not_mem_right hp (by simpa using hc)) hmem
      obtain ⟨m, rfl, hm⟩ := hleft
      obtain ⟨before, l, r, after, hparts, rfl⟩ := ih hm
      exact ⟨part :: before, l, r, after, by rw [hparts]; rfl, by simp⟩

/-- Parentheses pair in a text where none is stray and none stays open. -/
lemma pairsParens_iff {n : Nat} : pairsParens n s ↔
    Bracket.round.strays n s = 0 ∧ Bracket.round.opened n s = 0 := by
  induction s generalizing n with
  | nil => simp [pairsParens, Bracket.strays, Bracket.opened]
  | cons c s ih =>
    have hopening : Bracket.round.opening = '(' := rfl
    have hclosing : Bracket.round.closing = ')' := rfl
    rw [pairsParens, Bracket.strays, Bracket.opened, Bracket.level, hopening, hclosing]
    by_cases ho : c = '('
    · simp [ho, ih]
    by_cases hc : c = ')'
    · cases n with
      | zero => simp [hc]
      | succ n => simp [hc, ih]
    · simp [ho, hc, ih]

end Text

/-! ### Fragments -/

namespace Fragment

/-- The byte at `x` is in the fragment. -/
def Covers (f : Fragment) (x : Nat) : Prop := f.start ≤ x ∧ x < f.stop

instance (f : Fragment) (x : Nat) : Decidable (f.Covers x) := by
  unfold Covers
  infer_instance

variable {start : Nat} {piece p q : Text} {pieces : List Text} {c : Char}

lemma ofPieces_append (start : Nat) (ps qs : List Text) : ofPieces start (ps ++ qs) =
    ofPieces start ps ++ ofPieces (start + byteSize (ps.flatMap (· ++ [',']))) qs := by
  induction ps generalizing start with
  | nil => rfl
  | cons p ps ih =>
    have hcomma : ','.utf8Size = 1 := rfl
    have hstart : start + byteSize p + 1 + byteSize (ps.flatMap (· ++ [','])) =
        start + byteSize ((p :: ps).flatMap (· ++ [','])) := by
      simp only [List.flatMap_cons, byteSize_append, byteSize_cons, byteSize_nil, hcomma]
      omega
    rw [List.cons_append, ofPieces_cons, ofPieces_cons, ih, List.append_assoc, hstart]

/-- Fragments end where their pieces do. -/
lemma stop_le {f : Fragment} (hf : f ∈ ofPieces start pieces) :
    f.stop ≤ start + byteSize ([','].intercalate pieces) := by
  obtain ⟨before, piece, after, rfl, htext, -, hstart, hstop⟩ := exists_piece hf
  obtain ⟨r, hsplit, -⟩ := exists_trim piece
  have hsize := congrArg byteSize hsplit
  rw [byteSize_append, byteSize_append, ← htext] at hsize
  have hjoin : byteSize ([','].intercalate (before ++ piece :: after)) =
      byteSize (before.flatMap (· ++ [','])) + byteSize piece +
        byteSize (after.flatMap ([','] ++ ·)) := by
    rw [intercalate_append_cons, byteSize_append, byteSize_append]
  omega

/-- A character of a piece that is no white space is in the fragment of the piece. -/
lemma exists_covers_of_piece (start : Nat) (h : piece = p ++ c :: q) (hc : isWhiteSpace c = false) :
    ∃ f ∈ ofPiece? start piece, f.Covers (start + byteSize p) := by
  obtain ⟨r, hsplit, hr, -⟩ := exists_trim piece
  have hl : c ∉ piece.takeWhile isWhiteSpace := by
    intro hmem
    rw [List.mem_takeWhile_imp hmem] at hc
    cases hc
  have hr' : c ∉ r := by
    intro hmem
    rw [hr c hmem] at hc
    cases hc
  have hwhole : piece.takeWhile isWhiteSpace ++ (trim piece ++ r) = p ++ c :: q := by
    rw [← List.append_assoc, ← hsplit, h]
  obtain ⟨l, rfl, hinner⟩ := exists_of_append_of_not_mem_left hwhole hl
  obtain ⟨m, htrim⟩ := exists_of_append_of_not_mem_right hinner hr'
  have hne : trim piece ≠ [] := by simp [htrim]
  refine ⟨_, by rw [ofPiece?]; split; exacts [absurd ‹_› hne, rfl], ?_, ?_⟩
  · simp
  · have hpos := c.utf8Size_pos
    simp only [htrim, byteSize_append, byteSize_cons]
    omega

/-- What stands between commas is in a fragment or is white space. -/
lemma exists_covers (h : [','].intercalate pieces = p ++ c :: q) (hcomma : c ≠ ',')
    (hc : isWhiteSpace c = false) :
    ∃ f ∈ ofPieces start pieces, f.Covers (start + byteSize p) := by
  obtain ⟨before, l, r, after, rfl, rfl⟩ := exists_part_of_intercalate h hcomma
  obtain ⟨f, hf, hcovers⟩ :=
    exists_covers_of_piece (start + byteSize (before.flatMap (· ++ [',']))) rfl hc
  refine ⟨f, ?_, by rwa [byteSize_append, ← Nat.add_assoc]⟩
  rw [ofPieces_append, ofPieces_cons]
  exact List.mem_append_right _ (List.mem_append_left _ (Option.mem_toList.2 hf))

end Fragment

/-! ### Methods -/

namespace MethodPayload

variable {types : TypeSyntax} {payload head list rest : Text} {m : MethodPayload}

/-- How a method is laid out in its payload: behind a head, the list of the parameters stands
between parentheses, and the rest follows. -/
structure LaidOut (payload head list rest : Text) (m : MethodPayload) : Prop where
  payload_eq : payload = head ++ '(' :: (list ++ ')' :: rest)
  /-- The list starts behind the first parenthesis. -/
  not_mem_head : '(' ∉ head
  /-- It ends at the one that closes the first. -/
  pairs : Bracket.round.Pairs list
  /-- Wherever a parenthesis closes on the way there, one is open. -/
  count_lt : ∀ p, p ++ [')'] <+: '(' :: (list ++ [')']) → p.count ')' < p.count '('
  slice_head : slice? 0 (byteSize head) payload = some head
  slice_open : slice? (byteSize head) (byteSize payload) payload =
    some ('(' :: (list ++ ')' :: rest))
  slice_list : slice? (byteSize (head ++ ['('])) (byteSize (head ++ '(' :: list)) payload =
    some list
  slice_rest : slice? (byteSize (head ++ '(' :: (list ++ [')']))) (byteSize payload) payload =
    some rest
  /-- The pieces between commas are cut out of the payload. -/
  slice_piece : ∀ before piece after, splitParams 0 list = before ++ piece :: after →
    slice? (byteSize (head ++ '(' :: before.flatMap (· ++ [','])))
      (byteSize (head ++ '(' :: (before.flatMap (· ++ [',']) ++ piece))) payload = some piece
  /-- The name of the method is cut off in front of the last white space. -/
  slice_name : ∀ l c r, trimEnd ((afterStatic? head).getD head) = l ++ c :: r → isWhiteSpace c →
    (∀ d ∈ r, isWhiteSpace d = false) → slice? 0 (byteSize l) (l ++ c :: r) = some l ∧
      slice? (byteSize l) (byteSize (l ++ c :: r)) (l ++ c :: r) = some (c :: r) ∧
      m.signature.method = r
  description_eq : m.description = trim rest
  /-- A fragment has text, without white space around it. -/
  text : ∀ f ∈ m.params, f.text ≠ [] ∧ (∀ c ∈ f.text.head?, isWhiteSpace c = false) ∧
    ∀ c ∈ f.text.getLast?, isWhiteSpace c = false
  slice : ∀ f ∈ m.params, slice? f.start f.stop payload = some f.text
  inside : ∀ f ∈ m.params,
    byteSize head < f.start ∧ f.start < f.stop ∧ f.stop ≤ byteSize (head ++ '(' :: list)
  increasing : m.params.Pairwise fun f g => f.stop ≤ g.start
  /-- What is in no fragment is white space or a comma. -/
  covered : ∀ p c q, list = p ++ c :: q →
    (∃ f ∈ m.params, f.Covers (byteSize (head ++ '(' :: p))) ∨ isWhiteSpace c ∨ c = ','

/-- A part of a text is a slice of it. -/
lemma slice?_of_eq {s l t r : Text} (h : s = l ++ t ++ r) :
    slice? (byteSize l) (byteSize (l ++ t)) s = some t :=
  slice?_eq_some_iff.2 ⟨l, r, h, rfl, rfl⟩

/-- In front of every closing parenthesis of the list, and of the one behind it, one is open. -/
lemma count_lt_of_pairs (h : Bracket.round.Pairs list) {p : Text}
    (hp : p ++ [')'] <+: '(' :: (list ++ [')'])) : p.count ')' < p.count '(' := by
  cases p with
  | nil => simp [List.cons_prefix_cons] at hp
  | cons c p =>
    rw [List.cons_append, List.cons_prefix_cons] at hp
    obtain ⟨rfl, hp⟩ := hp
    have hlist : p <+: list := by
      rcases List.prefix_concat_iff.1 hp with heq | hpre
      · exact (List.append_inj' heq rfl).1 ▸ List.prefix_rfl
      · exact (List.prefix_append p [')']).trans hpre
    have hle : p.count ')' ≤ p.count '(' := h.count_le p hlist
    simp only [List.count_cons, beq_iff_eq, Char.reduceEq, if_false, if_true]
    omega

/-- The fragments stand in the list. -/
lemma inside_of_mem {f : Fragment} (hf : f ∈ Fragment.ofPieces (byteSize head + 1)
      (splitParams 0 list)) :
    byteSize head < f.start ∧ f.start < f.stop ∧ f.stop ≤ byteSize head + 1 + byteSize list := by
  have hstart := (Fragment.pairwise_ofPieces _ _).2 f hf
  have hstop := Fragment.stop_le hf
  obtain ⟨-, -, -, -, -, hne, -, hsize⟩ := Fragment.exists_piece hf
  rw [intercalate_splitParams] at hstop
  have hpos : byteSize f.text ≠ 0 := fun hzero => hne (byteSize_eq_zero.1 hzero)
  omega

/-- The last word of a signature is the name of the method. -/
lemma method_eq {s : Signature} (h : Signature.read? types head = some s) {l r : Text} {c : Char}
    (hwords : trimEnd ((afterStatic? head).getD head) = l ++ c :: r) (hc : isWhiteSpace c)
    (hr : ∀ d ∈ r, isWhiteSpace d = false) : s.method = r := by
  obtain ⟨before, hbefore, -, hlast, ⟨-, hmethod⟩, -⟩ := Signature.exists_of_read? h
  have hsame : before ++ s.method = (l ++ [c]) ++ r := by
    rw [← hbefore, hwords]
    simp
  exact (Signature.eq_of_append_word hlast (by simpa using hc) hmethod hr hsame).2

/-- The method stands where the reader found it, and no text of its parameters is lost. -/
theorem exists_laidOut (h : read? types payload = some m) :
    ∃ head list rest, LaidOut payload head list rest m := by
  obtain ⟨head, list, rest, hhead, hparens, hpayload, hsignature, hparams, hdescription⟩ :=
    cut_of_read? h
  have hpairs : Bracket.round.Pairs list := Bracket.pairs_iff.2 (pairsParens_iff.1 hparens)
  obtain ⟨hincreasing, hslice⟩ := slice?_of_read? h
  have hlist (p : Text) : byteSize (head ++ '(' :: p) = byteSize head + 1 + byteSize p := by
    have hopen : '('.utf8Size = 1 := rfl
    rw [byteSize_append, byteSize_cons, hopen, Nat.add_assoc]
  have hend : byteSize payload = byteSize (head ++ '(' :: (list ++ ')' :: rest)) := by rw [hpayload]
  exact ⟨head, list, rest, {
    payload_eq := hpayload
    not_mem_head := hhead
    pairs := hpairs
    count_lt := fun _ => count_lt_of_pairs hpairs
    slice_head := slice?_of_eq (l := []) hpayload
    slice_open := hend ▸ slice?_of_eq (r := []) (by simpa using hpayload)
    slice_list := by
      have := slice?_of_eq (l := head ++ ['(']) (t := list) (r := ')' :: rest) (s := payload)
        (by simpa using hpayload)
      simpa using this
    slice_rest := by
      have :=
        slice?_of_eq (l := head ++ '(' :: (list ++ [')'])) (t := rest) (r := []) (s := payload)
        (by simpa using hpayload)
      rw [hend]
      simpa using this
    slice_piece := by
      intro before piece after hpieces
      have hjoin : list = before.flatMap (· ++ [',']) ++ piece ++ after.flatMap ([','] ++ ·) := by
        rw [← intercalate_append_cons, ← hpieces, intercalate_splitParams]
      have := slice?_of_eq (l := head ++ '(' :: before.flatMap (· ++ [','])) (t := piece)
        (r := after.flatMap ([','] ++ ·) ++ ')' :: rest) (s := payload)
        (by rw [hpayload, hjoin]; simp)
      simpa using this
    slice_name := fun l c r hwords hc hr => ⟨slice?_of_eq (l := []) (r := c :: r) rfl,
      slice?_of_eq (r := []) (List.append_nil _).symm, method_eq hsignature hwords hc hr⟩
    description_eq := hdescription
    text := by
      intro f hf
      rw [hparams] at hf
      obtain ⟨-, -, -, -, -, -, -, -, -, -, -, -, -, hends⟩ := Fragment.exists_place rest hf
      exact hends
    slice := hslice
    inside := by
      intro f hf
      rw [hlist]
      exact inside_of_mem (hparams ▸ hf)
    increasing := hincreasing
    covered := by
      intro p c q hpcq
      by_cases hcomma : c = ','
      · exact .inr (.inr hcomma)
      by_cases hc : isWhiteSpace c
      · exact .inr (.inl hc)
      · rw [hlist, hparams]
        refine .inl (Fragment.exists_covers (q := q) ?_ hcomma (by simpa using hc))
        rw [intercalate_splitParams, hpcq] }⟩

/-- Pieces without text, brackets in brackets, and characters of many bytes. -/
theorem exists_laidOut_pieces :
    let payload := "static  A|B größe( ?A<B, C>  $ä = (1),,\u3000$b\u3000 , )  – ok ".toList
    let m : MethodPayload := ⟨⟨true, some (.union [.name ['A'], .name ['B']]), "größe".toList⟩,
      [⟨"?A<B, C>  $ä = (1)".toList, 21, 40⟩, ⟨"$b".toList, 45, 47⟩], "– ok".toList⟩
    read? .standard payload = some m ∧ ∃ head list rest, LaidOut payload head list rest m := by
  intro payload m
  have hread : read? .standard payload = some m := by decide +kernel
  exact ⟨hread, exists_laidOut hread⟩

end MethodPayload

end DocComment
