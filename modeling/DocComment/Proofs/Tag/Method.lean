import Mathlib.Algebra.GroupWithZero.Nat
import Mathlib.Algebra.Order.BigOperators.Group.List
import Mathlib.Algebra.Order.Group.Nat
import DocComment.Proofs.Text.Cut
import DocComment.Proofs.Text.Join
import DocComment.Proofs.Text.Slice
import DocComment.Proofs.Text.Trim
import DocComment.Tag.Rules

/-!
# Where the fragments of a method stand

A method payload is its signature, its parameters between parentheses and its description
(`MethodPayload.exists_of_read?`), and each fragment is one of the pieces of the parameters without
the white space around it (`Fragment.exists_piece`).

If a payload is what the method that is read from it is written as, then nothing but spaces stands
around its fragments (`MethodPayload.exists_place`): all other white space would be lost in writing.
-/

namespace DocComment

open Text

/-- The payload that says this. -/
def MethodPayload.write (types : TypeSyntax) (m : MethodPayload) : Text :=
  m.signature.write types ++ '(' :: [',', ' '].intercalate (m.params.map (·.text)) ++ [')'] ++
    afterBlank m.description

/-! ### Cutting at signs -/

namespace Text

variable {c : Char} {s x y r r' : Text}

lemma cutAtClosing?_eq_some {depth : Nat} (h : cutAtClosing? depth s = some (x, r)) :
    s = x ++ ')' :: r := by
  induction s generalizing depth x with
  | nil => simp [cutAtClosing?] at h
  | cons d s ih =>
    unfold cutAtClosing? at h
    split at h
    · next heq => cases heq
    · next heq =>
      obtain ⟨rfl, rfl⟩ := List.cons.inj heq
      obtain ⟨rfl, rfl⟩ := Prod.mk.inj (Option.some.inj h)
      rfl
    · next heq =>
      obtain ⟨rfl, rfl⟩ := List.cons.inj heq
      obtain ⟨⟨l, r'⟩, hcut, heq⟩ := Option.map_eq_some_iff.1 h
      obtain ⟨rfl, rfl⟩ := Prod.mk.inj heq
      rw [ih hcut, List.cons_append]
    · next heq =>
      obtain ⟨rfl, rfl⟩ := List.cons.inj heq
      obtain ⟨⟨l, r'⟩, hcut, heq⟩ := Option.map_eq_some_iff.1 h
      obtain ⟨rfl, rfl⟩ := Prod.mk.inj heq
      rw [ih hcut, List.cons_append]

/-- Two cuts at the same sign are one if the sign stands as often in front of both. -/
lemma eq_of_append_cons_eq (h : x ++ c :: r = y ++ c :: r') (hc : x.count c = y.count c) :
    x = y ∧ r = r' := by
  induction x generalizing y with
  | nil =>
    cases y with
    | nil => exact ⟨rfl, (List.cons.inj h).2⟩
    | cons d y =>
      obtain ⟨rfl, -⟩ := List.cons.inj h
      simp at hc
  | cons d x ih =>
    cases y with
    | nil =>
      obtain ⟨rfl, -⟩ := List.cons.inj h
      simp at hc
    | cons e y =>
      obtain ⟨rfl, hrest⟩ := List.cons.inj h
      rw [List.count_cons, List.count_cons, Nat.add_right_cancel_iff] at hc
      obtain ⟨rfl, rfl⟩ := ih hrest hc
      exact ⟨rfl, rfl⟩

lemma splitParams_cons (depth : Int) (c : Char) (s : Text) :
    splitParams depth (c :: s) =
      if c = ',' ∧ depth = 0 then [] :: splitParams depth s
      else match splitParams (depth + bracketStep c) s with
        | [] => [[c]]
        | piece :: pieces => (c :: piece) :: pieces := rfl

lemma splitParams_ne_nil (depth : Int) (s : Text) : splitParams depth s ≠ [] := by
  cases s with
  | nil => simp [splitParams]
  | cons c s =>
    rw [splitParams_cons]
    split_ifs
    · simp
    · split <;> simp

lemma intercalate_splitParams (depth : Int) (s : Text) :
    [','].intercalate (splitParams depth s) = s := by
  induction s generalizing depth with
  | nil => rfl
  | cons c s ih =>
    rw [splitParams_cons]
    split_ifs with hc
    · rw [List.intercalate_cons_of_ne_nil (splitParams_ne_nil depth s), ih, hc.1]
      rfl
    · obtain ⟨piece, pieces, hpieces⟩ := List.exists_cons_of_ne_nil
        (splitParams_ne_nil (depth + bracketStep c) s)
      have ih' := ih (depth + bracketStep c)
      rw [hpieces] at ih' ⊢
      dsimp only
      cases pieces with
      | nil => simpa using ih'
      | cons q pieces =>
        rw [List.intercalate_cons_cons] at ih' ⊢
        simpa using ih'

lemma count_intercalate {t : Text} (h : c ∉ t) (parts : List Text) :
    (t.intercalate parts).count c = (parts.map (List.count c)).sum := by
  induction parts with
  | nil => rfl
  | cons p parts ih =>
    cases parts with
    | nil => simp
    | cons q parts =>
      rw [List.intercalate_cons_cons, List.count_append, List.count_append, ih,
        List.count_eq_zero.2 h, List.map_cons (a := p), List.sum_cons, Nat.add_zero]

end Text

/-! ### Fragments and pieces -/

namespace Fragment

variable {f : Fragment} {start : Nat} {pieces : List Text}

lemma ofPieces_cons (start : Nat) (piece : Text) (pieces : List Text) :
    ofPieces start (piece :: pieces) =
      (ofPiece? start piece).toList ++ ofPieces (start + byteSize piece + 1) pieces := by
  rw [ofPieces]
  cases ofPiece? start piece <;> rfl

lemma mem_ofPiece? {piece : Text} (hf : f ∈ ofPiece? start piece) : f.text = trim piece ∧
    f.text ≠ [] ∧ f.start = start + byteSize (piece.takeWhile isWhiteSpace) ∧
    f.stop = f.start + byteSize f.text := by
  unfold ofPiece? at hf
  split at hf
  · cases hf
  · next hne =>
    obtain rfl := Option.some.inj hf
    exact ⟨rfl, hne, rfl, rfl⟩

/-- A fragment is a piece without the white space around it. -/
lemma exists_piece (hf : f ∈ ofPieces start pieces) : ∃ before piece after,
    pieces = before ++ piece :: after ∧ f.text = trim piece ∧ f.text ≠ [] ∧
    f.start = start + byteSize (before.flatMap (· ++ [','])) +
      byteSize (piece.takeWhile isWhiteSpace) ∧
    f.stop = f.start + byteSize f.text := by
  induction pieces generalizing start with
  | nil => cases hf
  | cons piece pieces ih =>
    rw [ofPieces_cons, List.mem_append, Option.mem_toList] at hf
    rcases hf with hf | hf
    · obtain ⟨htext, hne, hstart, hstop⟩ := mem_ofPiece? hf
      exact ⟨[], piece, pieces, rfl, htext, hne, hstart, hstop⟩
    · obtain ⟨before, p, after, rfl, htext, hne, hstart, hstop⟩ := ih hf
      refine ⟨piece :: before, p, after, rfl, htext, hne, ?_, hstop⟩
      have hcomma : ','.utf8Size = 1 := rfl
      rw [hstart, List.flatMap_cons, byteSize_append, byteSize_append, byteSize_cons, hcomma,
        byteSize_nil]
      omega

/-- A fragment is trimmed from a part of the parameters. -/
lemma exists_isInfix {params : Text} (hf : f ∈ ofPieces start (splitParams 0 params)) :
    ∃ piece, piece <:+: params ∧ f.text = trim piece := by
  obtain ⟨before, piece, after, hpieces, htext, -⟩ := exists_piece hf
  refine ⟨piece, ?_, htext⟩
  rw [← intercalate_splitParams 0 params, hpieces, intercalate_append_cons]
  exact ⟨_, _, rfl⟩

/-- The fragments have the characters of the trimmed pieces. -/
lemma sum_count (c : Char) (start : Nat) (pieces : List Text) :
    (((ofPieces start pieces).map (·.text)).map (List.count c)).sum =
      (pieces.map fun p => (trim p).count c).sum := by
  induction pieces generalizing start with
  | nil => rfl
  | cons piece pieces ih =>
    have hpiece : (((ofPiece? start piece).toList.map (·.text)).map (List.count c)).sum =
        (trim piece).count c := by
      unfold ofPiece?
      split
      · next h => simp [h]
      · simp
    rw [ofPieces_cons, List.map_append, List.map_append, List.sum_append, hpiece, ih, List.map_cons,
      List.sum_cons]

/-- A fragment of parameters has a parenthesis, a comma or white space on both sides. -/
lemma exists_place {head params : Text} (rest : Text)
    (hf : f ∈ ofPieces (byteSize head + 1) (splitParams 0 params)) : ∃ x c l r y,
      head ++ '(' :: (params ++ ')' :: rest) = x ++ c :: (l ++ (f.text ++ (r ++ y))) ∧
      l ++ f.text ++ r ∈ splitParams 0 params ∧ trim (l ++ f.text ++ r) = f.text ∧
      (c = '(' ∨ c = ',') ∧ (∀ d ∈ l ++ r, isWhiteSpace d) ∧
      (∃ d ∈ y.head?, d = ',' ∨ d = ')') ∧ f.start = byteSize (x ++ c :: l) ∧
      f.stop = f.start + byteSize f.text ∧ f.text ≠ [] ∧
      (∀ d ∈ f.text.head?, isWhiteSpace d = false) ∧
      ∀ d ∈ f.text.getLast?, isWhiteSpace d = false := by
  obtain ⟨before, piece, after, hpieces, htext, hne, hstart, hstop⟩ := exists_piece hf
  obtain ⟨r, hsplit, hr, hhead, hlast⟩ := exists_trim piece
  rw [← htext] at hsplit hhead hlast
  have hwhite : ∀ d ∈ piece.takeWhile isWhiteSpace ++ r, isWhiteSpace d := by
    intro d hd
    rcases List.mem_append.1 hd with hd | hd
    · exact List.mem_takeWhile_imp hd
    · exact hr d hd
  have hjoin : params = before.flatMap (· ++ [',']) ++
      (piece.takeWhile isWhiteSpace ++ (f.text ++ r)) ++ after.flatMap ([','] ++ ·) := by
    rw [← List.append_assoc (piece.takeWhile _), ← hsplit, ← intercalate_append_cons, ← hpieces,
      intercalate_splitParams]
  have hafter : ∃ d ∈ (after.flatMap ([','] ++ ·) ++ ')' :: rest).head?, d = ',' ∨ d = ')' := by
    cases after with
    | nil => exact ⟨')', rfl, .inr rfl⟩
    | cons q after => exact ⟨',', rfl, .inl rfl⟩
  have hmem : piece.takeWhile isWhiteSpace ++ f.text ++ r ∈ splitParams 0 params := by
    rw [← hsplit, hpieces]
    simp
  have htrim : trim (piece.takeWhile isWhiteSpace ++ f.text ++ r) = f.text := by
    rw [← hsplit, htext]
  have hsize : '('.utf8Size = 1 := rfl
  rcases List.eq_nil_or_concat' before with rfl | ⟨before, q, rfl⟩
  · refine ⟨head, '(', piece.takeWhile isWhiteSpace, r, after.flatMap ([','] ++ ·) ++ ')' :: rest,
      ?_, hmem, htrim, .inl rfl, hwhite, hafter, ?_, hstop, hne, hhead, hlast⟩
    · rw [hjoin]
      simp
    · rw [hstart, byteSize_append, byteSize_cons, hsize]
      simp
      omega
  · refine ⟨head ++ '(' :: (before.flatMap (· ++ [',']) ++ q), ',', piece.takeWhile isWhiteSpace, r,
      after.flatMap ([','] ++ ·) ++ ')' :: rest, ?_, hmem, htrim, .inr rfl, hwhite, hafter, ?_,
      hstop, hne, hhead, hlast⟩
    · rw [hjoin]
      simp
    · have hcomma : ','.utf8Size = 1 := rfl
      have hflat : (before ++ [q]).flatMap (· ++ [',']) =
          before.flatMap (· ++ [',']) ++ (q ++ [',']) := by simp
      rw [hstart, hflat]
      simp only [byteSize_append, byteSize_cons, byteSize_nil, hsize, hcomma]
      omega

/-- Fragments of parameters stand one behind the other. -/
lemma pairwise_ofPieces (start : Nat) (pieces : List Text) :
    (ofPieces start pieces).Pairwise (fun f g => f.stop ≤ g.start) ∧
      ∀ f ∈ ofPieces start pieces, start ≤ f.start := by
  induction pieces generalizing start with
  | nil => exact ⟨List.Pairwise.nil, List.forall_mem_nil _⟩
  | cons piece pieces ih =>
    obtain ⟨hpairwise, hle⟩ := ih (start + byteSize piece + 1)
    have hpiece : ∀ f ∈ ofPiece? start piece,
        start ≤ f.start ∧ f.stop ≤ start + byteSize piece := by
      intro f hf
      obtain ⟨htext, -, hstart, hstop⟩ := mem_ofPiece? hf
      obtain ⟨r, hsplit, -⟩ := exists_trim piece
      have hsize := congrArg byteSize hsplit
      rw [byteSize_append, byteSize_append, ← htext] at hsize
      omega
    rw [ofPieces_cons]
    constructor
    · rw [List.pairwise_append]
      refine ⟨?_, hpairwise, fun f hf g hg => ?_⟩
      · cases ofPiece? start piece with
        | none => exact List.Pairwise.nil
        | some f => exact List.pairwise_singleton _ f
      · have := (hpiece f (Option.mem_toList.1 hf)).2
        have := hle g hg
        omega
    · intro f hf
      rw [List.mem_append, Option.mem_toList] at hf
      rcases hf with hf | hf
      · exact (hpiece f hf).1
      · have := hle f hf
        omega

end Fragment

/-! ### Methods that are written as they were read -/

lemma eq_of_sum_eq {α : Type} {f g : α → Nat} {as : List α} (hle : ∀ a ∈ as, f a ≤ g a)
    (h : (as.map f).sum = (as.map g).sum) : ∀ a ∈ as, f a = g a := by
  induction as with
  | nil => simp
  | cons a as ih =>
    obtain ⟨ha, has⟩ := List.forall_mem_cons.1 hle
    have hsum : (as.map f).sum ≤ (as.map g).sum := List.sum_le_sum has
    rw [List.map_cons, List.map_cons, List.sum_cons, List.sum_cons] at h
    exact List.forall_mem_cons.2 ⟨by omega, ih has (by omega)⟩

namespace MethodPayload

variable {types : TypeSyntax} {payload : Text} {m : MethodPayload}

/-- A method is cut at its parentheses. -/
lemma cuts_of_read? (h : read? types payload = some m) : ∃ head rest params rest',
    cutAt? ['('] payload = some (head, rest) ∧ cutAtClosing? 0 rest = some (params, rest') ∧
    Signature.read? types head = some m.signature ∧
    m.params = Fragment.ofPieces (byteSize head + 1) (splitParams 0 params) ∧
    m.description = trim rest' := by
  unfold read? at h
  obtain ⟨⟨head, rest⟩, hcut, h⟩ := Option.bind_eq_some_iff.1 h
  obtain ⟨⟨params, rest'⟩, hclosing, h⟩ := Option.bind_eq_some_iff.1 h
  obtain ⟨signature, hsignature, h⟩ := Option.bind_eq_some_iff.1 h
  obtain rfl := Option.some.inj h
  exact ⟨head, rest, params, rest', hcut, hclosing, hsignature, rfl, rfl⟩

lemma exists_of_read? (h : read? types payload = some m) : ∃ head params rest,
    payload = head ++ '(' :: (params ++ ')' :: rest) ∧
    Signature.read? types head = some m.signature ∧
    m.params = Fragment.ofPieces (byteSize head + 1) (splitParams 0 params) ∧
    m.description = trim rest := by
  obtain ⟨head, rest, params, rest', hcut, hclosing, hm⟩ := cuts_of_read? h
  refine ⟨head, params, rest', ?_, hm⟩
  rw [cutAt?_eq_some hcut, cutAtClosing?_eq_some hclosing]
  rfl

/-- The parameters have the characters of the fragments, apart from commas and white space. -/
lemma count_params {c : Char} (hcomma : c ≠ ',') (hc : isWhiteSpace c = false) (start : Nat)
    (params : Text) :
    ([',', ' '].intercalate ((Fragment.ofPieces start (splitParams 0 params)).map
      (·.text))).count c = params.count c := by
  have hsep : c ∉ [',', ' '] := by
    have hspace : c ≠ ' ' := by
      rintro rfl
      cases hc
    simp [hcomma, hspace]
  calc ([',', ' '].intercalate
        ((Fragment.ofPieces start (splitParams 0 params)).map (·.text))).count c
      = ((splitParams 0 params).map fun p => (trim p).count c).sum := by
        rw [count_intercalate hsep, Fragment.sum_count]
    _ = ((splitParams 0 params).map (List.count c)).sum := by
        congr 1
        exact List.map_congr_left fun p _ => count_trim hc p
    _ = params.count c := by
        rw [← count_intercalate (t := [',']) (by simpa using hcomma), intercalate_splitParams]

/-- A method that is written as it was read has its parts where they were. -/
lemma exists_of_write (h : read? types payload = some m) (hw : m.write types = payload) :
    ∃ head params rest, payload = head ++ '(' :: (params ++ ')' :: rest) ∧
      m.params = Fragment.ofPieces (byteSize head + 1) (splitParams 0 params) ∧
      params = [',', ' '].intercalate (m.params.map (·.text)) := by
  obtain ⟨head, params, rest, rfl, -, hparams, hdescription⟩ := exists_of_read? h
  have hsplit : m.signature.write types ++
      '(' :: ([',', ' '].intercalate (m.params.map (·.text)) ++ ')' :: afterBlank (trim rest)) =
        head ++ '(' :: (params ++ ')' :: rest) := by
    rw [← hw, write, hdescription]
    simp
  have hcount : ∀ c, c ≠ ',' → isWhiteSpace c = false →
      ([',', ' '].intercalate (m.params.map (·.text))).count c = params.count c := by
    intro c hcomma hc
    rw [hparams, count_params hcomma hc]
  have hrest : ∀ c, isWhiteSpace c = false → (afterBlank (trim rest)).count c = rest.count c := by
    intro c hc
    rw [← count_trim hc rest]
    cases trim rest with
    | nil => rfl
    | cons d s =>
      rw [afterBlank, List.count_cons_of_ne]
      · rintro rfl
        cases hc
      · simp
  have hopen : (m.signature.write types).count '(' = head.count '(' := by
    have hall := congrArg (List.count '(') hsplit
    simp only [List.count_append, List.count_cons, hcount '(' (by decide) rfl,
      hrest '(' rfl] at hall
    omega
  obtain ⟨-, htail⟩ := eq_of_append_cons_eq hsplit hopen
  obtain ⟨hP, -⟩ := eq_of_append_cons_eq htail (hcount ')' (by decide) rfl)
  exact ⟨head, params, rest, rfl, hparams, hP.symm⟩

/-- Nothing but spaces stands around the fragments of a method that is written as it was read. -/
lemma eq_space_of_write {start : Nat} {params : Text}
    (hparams : params = [',', ' '].intercalate
      ((Fragment.ofPieces start (splitParams 0 params)).map (·.text))) {piece : Text}
    (hpiece : piece ∈ splitParams 0 params) {l r : Text} (hsplit : piece = l ++ trim piece ++ r)
    (hwhite : ∀ c ∈ l ++ r, isWhiteSpace c) : ∀ c ∈ l ++ r, c = ' ' := by
  intro c hc
  by_contra hne
  have hcomma : c ≠ ',' := by
    rintro rfl
    exact absurd (hwhite ',' hc) (by decide)
  have hsum : ((splitParams 0 params).map fun p => (trim p).count c).sum =
      ((splitParams 0 params).map (List.count c)).sum := by
    rw [← Fragment.sum_count c start, ← count_intercalate (t := [',', ' ']) (by simp [hcomma, hne]),
      ← hparams, ← count_intercalate (t := [',']) (by simpa using hcomma), intercalate_splitParams]
  have hsame := eq_of_sum_eq (fun p _ => count_trim_le c p) hsum piece hpiece
  rw [hsplit, List.count_append, List.count_append, ← hsplit] at hsame
  have hpos : 0 < (l ++ r).count c := List.count_pos_iff.2 hc
  rw [List.count_append] at hpos
  omega

/-- A fragment of a method that is written as it was read has a parenthesis, a comma or spaces on
both sides. -/
theorem exists_place (h : read? types payload = some m) (hw : m.write types = payload)
    {f : Fragment} (hf : f ∈ m.params) : ∃ x c l r y, payload =
      x ++ c :: (l ++ (f.text ++ (r ++ y))) ∧
      (c = '(' ∨ c = ',') ∧ (∀ d ∈ l ++ r, d = ' ') ∧ (∃ d ∈ y.head?, d = ',' ∨ d = ')') ∧
      f.start = byteSize (x ++ c :: l) ∧ f.stop = f.start + byteSize f.text ∧ f.text ≠ [] ∧
      (∀ d ∈ f.text.head?, isWhiteSpace d = false) ∧
      ∀ d ∈ f.text.getLast?, isWhiteSpace d = false := by
  obtain ⟨head, params, rest, rfl, hparams, hwritten⟩ := exists_of_write h hw
  rw [hparams] at hf hwritten
  obtain ⟨x, c, l, r, y, hpayload, hpiece, htrim, hc, hwhite, hy, hstart, hstop, hends⟩ :=
    Fragment.exists_place rest hf
  refine ⟨x, c, l, r, y, hpayload, hc, ?_, hy, hstart, hstop, hends⟩
  exact eq_space_of_write hwritten hpiece (by rw [htrim]) hwhite

/-- The fragments of a method that is read are parts of the payload, one behind the other. -/
lemma slice?_of_read? (h : read? types payload = some m) :
    m.params.Pairwise (fun f g => f.stop ≤ g.start) ∧
      ∀ f ∈ m.params, slice? f.start f.stop payload = some f.text := by
  obtain ⟨head, params, rest, rfl, -, hparams, -⟩ := exists_of_read? h
  rw [hparams]
  refine ⟨(Fragment.pairwise_ofPieces _ _).1, fun f hf => ?_⟩
  obtain ⟨x, c, l, r, y, hpayload, -, -, -, -, -, hstart, hstop, -⟩ := Fragment.exists_place rest hf
  refine slice?_eq_some_iff.2 ⟨x ++ c :: l, r ++ y, ?_, hstart, ?_⟩
  · rw [hpayload]
    simp
  · rw [hstop, hstart, ← byteSize_append]

end MethodPayload

end DocComment
