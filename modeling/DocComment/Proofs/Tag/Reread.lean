import DocComment.Proofs.Tag.Params
import DocComment.Proofs.Tag.Signature

/-!
# Payloads that are written and read again

What a payload is read as is written in a canonical form, and whatever that form is read as is
written alike (`Rules.write_resolve_write`). What is read the second time need not be the same: a
type may be read as another one that has the same text, or not at all, in which case the payload is
kept as it is.
-/

namespace DocComment

open Text TypeExpr

/-- What was trimmed is the same when it is trimmed behind a blank. -/
lemma Text.trim_afterBlank_trim (s : Text) : trim (afterBlank (trim s)) = trim s := by
  obtain ⟨-, -, -, hhead, hlast⟩ := exists_trim s
  have htrim := trim_eq hhead hlast
  cases h : trim s with
  | nil => rfl
  | cons c t =>
    rw [h] at htrim
    exact htrim

/-! ### A type, a variable and a description -/

namespace TypedValue

variable {withVariable : Bool} {payload : Text} {v v' : TypedValue}

/-- What stands behind a type. -/
def rest (v : TypedValue) : Text := v.var?.elim [] (' ' :: ·) ++ afterBlank v.description

/-- A type, and what is read behind it. -/
def ofRest (withVariable : Bool) (type : TypeExpr) (rest : Text) : TypedValue :=
  let word := rest.takeWhile (!isWhiteSpace ·)
  if withVariable && isVariable word then
    ⟨type, some word, trimStart (rest.dropWhile (!isWhiteSpace ·))⟩
  else ⟨type, none, rest⟩

lemma write_eq (types : TypeSyntax) (v : TypedValue) :
    v.write types = types.write v.type ++ v.rest := List.append_assoc _ _ _

/-- White space or nothing stands behind a type. -/
lemma isWhiteSpace_head?_rest (v : TypedValue) : ∀ c ∈ v.rest.head?, isWhiteSpace c := by
  intro c hc
  obtain rfl : ' ' = c := by
    cases hvar : v.var? with
    | some word => simpa [rest, hvar] using hc
    | none =>
      cases hdescription : v.description with
      | nil => simp [rest, hvar, hdescription, afterBlank] at hc
      | cons d t => simpa [rest, hvar, hdescription, afterBlank] using hc
  rfl

lemma type_ofRest (withVariable : Bool) (type : TypeExpr) (rest : Text) :
    (ofRest withVariable type rest).type = type := by
  unfold ofRest
  dsimp only
  split_ifs <;> rfl

lemma exists_of_read? {types : TypeSyntax} (h : read? types withVariable payload = some v) :
    ∃ size, types.read? payload = some (v.type, size) ∧
      (∀ c ∈ (dropBytes size payload).head?, isWhiteSpace c) ∧
      v = ofRest withVariable v.type (trimStart (dropBytes size payload)) := by
  unfold read? at h
  obtain ⟨⟨type, size⟩, htype, h⟩ := Option.bind_eq_some_iff.1 h
  dsimp only at h
  by_cases hend : (dropBytes size payload).head?.any (!isWhiteSpace ·)
  · rw [if_pos hend] at h
    cases h
  rw [if_neg hend] at h
  have hv : v = ofRest withVariable type (trimStart (dropBytes size payload)) := by
    rw [ofRest]
    split_ifs at h ⊢ with hvar <;> exact (Option.some.inj h).symm
  have htype' : v.type = type := by rw [hv, type_ofRest]
  rw [htype']
  refine ⟨size, htype, fun c hc => ?_, hv⟩
  rw [Option.mem_def.1 hc] at hend
  simpa using hend

lemma isVariable_nil : isVariable [] = false := by
  simp [isVariable, dropCopies, dropPrefix?]

/-- A variable and a description that are written behind a type are read as they were. -/
lemma ofRest_rest_variable {type type' : TypeExpr} {word description : Text}
    (hvar : withVariable && isVariable word) (hne : word ≠ [])
    (hword : ∀ c ∈ word, isWhiteSpace c = false)
    (hdescription : ∀ c ∈ description.head?, isWhiteSpace c = false) :
    ofRest withVariable type' (trimStart (rest ⟨type, some word, description⟩)) =
      ⟨type', some word, description⟩ := by
  have hrest :
      trimStart (rest ⟨type, some word, description⟩) = word ++ afterBlank description := by
    show trimStart (' ' :: word ++ afterBlank description) = _
    rw [List.cons_append, trimStart_cons_space]
    refine trimStart_eq fun c hc => ?_
    rw [List.head?_append_of_ne_nil _ hne] at hc
    exact hword c (List.mem_of_mem_head? hc)
  -- A blank or nothing follows the variable.
  have hstop : ∀ c ∈ (afterBlank description).head?, isWhiteSpace c := by
    intro c hc
    obtain rfl := eq_of_mem_head?_afterBlank hc
    rfl
  have htake : (word ++ afterBlank description).takeWhile (!isWhiteSpace ·) = word := by
    rw [Token.takeWhile_append_of_head fun c hc => by simp [hstop c hc],
      List.takeWhile_eq_self_iff]
    exact fun c hc => by simp [hword c hc]
  have hdrop : (word ++ afterBlank description).dropWhile (!isWhiteSpace ·) =
      afterBlank description := by
    rw [List.dropWhile_append_of_pos fun c hc => by simp [hword c hc]]
    cases description with
    | nil => rfl
    | cons d t => rfl
  have hafter : trimStart (afterBlank description) = description := by
    cases description with
    | nil => rfl
    | cons d t => exact trimStart_eq hdescription
  rw [hrest, ofRest, htake, hdrop, hafter]
  exact if_pos hvar

/-- What is written behind a type is read as it was. -/
lemma ofRest_rest (withVariable : Bool) (type type' : TypeExpr) (s : Text) :
    ofRest withVariable type' (trimStart (ofRest withVariable type (trimStart s)).rest) =
      { ofRest withVariable type (trimStart s) with type := type' } := by
  have hhead := head?_trimStart s
  generalize trimStart s = r at hhead
  by_cases hvar : withVariable && isVariable (r.takeWhile (!isWhiteSpace ·))
  · have hread : ofRest withVariable type r = ⟨type, some (r.takeWhile (!isWhiteSpace ·)),
        trimStart (r.dropWhile (!isWhiteSpace ·))⟩ := if_pos hvar
    have hne : r.takeWhile (!isWhiteSpace ·) ≠ [] := by
      intro hnil
      rw [hnil, isVariable_nil, Bool.and_false] at hvar
      cases hvar
    rw [hread, ofRest_rest_variable hvar hne (fun c hc => by simpa using List.mem_takeWhile_imp hc)
      (head?_trimStart _)]
  · have hread : ∀ type, ofRest withVariable type r = ⟨type, none, r⟩ := fun type => if_neg hvar
    have hrest : trimStart (rest ⟨type, none, r⟩) = r := by
      cases r with
      | nil => rfl
      | cons c r => exact trimStart_eq hhead
    rw [hread, hrest, hread]

/-- A typed payload that is read again is written alike. -/
theorem write_of_read?_write (h : read? .standard withVariable payload = some v)
    (h' : read? .standard withVariable (v.write .standard) = some v') :
    v'.write .standard = v.write .standard := by
  obtain ⟨size, htype, -, hv⟩ := exists_of_read? h
  obtain ⟨size', htype', hend, hv'⟩ := exists_of_read? h'
  have hwell : WellNamed v.type := wellNamed_of_read? htype
  have hwrite : v.write .standard = v.type.text ++ v.rest := write_eq .standard v
  rw [hwrite] at htype' hend hv'
  obtain ⟨hnormal, rfl⟩ := hwell.eq_normal_of_read? v.isWhiteSpace_head?_rest htype' hend
  rw [dropBytes_byteSize_append] at hv'
  have hsame : v' = { v with type := v'.type } := by
    have hread := ofRest_rest withVariable v.type v'.type (dropBytes size payload)
    rw [← hv] at hread
    exact hv'.trans hread
  rw [hsame, write_eq, write_eq, hnormal]
  show v.type.normal.text ++ v.rest = v.type.text ++ v.rest
  rw [hwell.text_normal]

end TypedValue

/-! ### The closing parenthesis -/

namespace Text

variable {s p r : Text} {depth : Nat}

def isParen (c : Char) : Bool := c = '(' || c = ')'

lemma isParen_of_isWhiteSpace (c : Char) (h : isWhiteSpace c) : isParen c = false := by
  by_contra hparen
  simp only [isParen, Bool.not_eq_false, Bool.or_eq_true, decide_eq_true_eq] at hparen
  rcases hparen with rfl | rfl <;> cases h

/-- Whether parentheses pair in a text, with `depth` opened in front of it that it closes. -/
def pairsParens : (depth : Nat) → Text → Bool
  | depth, [] => depth = 0
  | depth, c :: s =>
    if c = '(' then pairsParens (depth + 1) s
    else if c = ')' then decide (0 < depth) && pairsParens (depth - 1) s
    else pairsParens depth s

/-- Only the parentheses of a text matter. -/
lemma pairsParens_filter (s : Text) :
    pairsParens depth (s.filter isParen) = pairsParens depth s := by
  induction s generalizing depth with
  | nil => rfl
  | cons c s ih =>
    by_cases hc : isParen c
    · rw [List.filter_cons_of_pos hc, pairsParens, pairsParens, ih, ih, ih]
    · rw [List.filter_cons_of_neg hc, ih, pairsParens]
      simp only [isParen, Bool.or_eq_true, decide_eq_true_eq, not_or] at hc
      rw [if_neg hc.1, if_neg hc.2]

lemma cutAtClosing?_cons {c : Char} (hc : c ≠ ')') (depth : Nat) (s : Text) :
    cutAtClosing? depth (c :: s) =
      (cutAtClosing? (if c = '(' then depth + 1 else depth) s).map fun (l, r) => (c :: l, r) := by
  rw [cutAtClosing?]
  · exact fun _ => hc
  · exact fun _ _ => hc

lemma pairsParens_of_cutAtClosing? (h : cutAtClosing? depth s = some (p, r)) :
    pairsParens depth p := by
  induction s generalizing depth p with
  | nil => cases h
  | cons c s ih =>
    have hmore : ∀ {depth' : Nat} {c : Char} {p : Text},
        (cutAtClosing? depth' s).map (fun (l, r) => (c :: l, r)) = some (p, r) →
          ∃ l, p = c :: l ∧ pairsParens depth' l := by
      intro depth' c p h
      obtain ⟨⟨l, r'⟩, hcut, heq⟩ := Option.map_eq_some_iff.1 h
      obtain ⟨rfl, rfl⟩ := Prod.mk.inj heq
      exact ⟨l, rfl, ih hcut⟩
    by_cases hclose : c = ')'
    · subst hclose
      cases depth with
      | zero =>
        obtain ⟨rfl, -⟩ := Prod.mk.inj (Option.some.inj h)
        rfl
      | succ depth =>
        obtain ⟨l, rfl, hl⟩ := hmore h
        exact hl
    · rw [cutAtClosing?_cons hclose] at h
      obtain ⟨l, rfl, hl⟩ := hmore h
      rw [pairsParens, if_neg hclose]
      split_ifs at hl ⊢ <;> exact hl

/-- A text in which parentheses pair reaches up to the one that closes it. -/
lemma cutAtClosing?_append (hp : pairsParens depth p) (r : Text) :
    cutAtClosing? depth (p ++ ')' :: r) = some (p, r) := by
  induction p generalizing depth with
  | nil =>
    obtain rfl : depth = 0 := by simpa [pairsParens] using hp
    rfl
  | cons c p ih =>
    rw [pairsParens] at hp
    rw [List.cons_append]
    split_ifs at hp with hopen hclose
    · subst hopen
      rw [cutAtClosing?_cons (by decide), if_pos rfl, ih hp]
      rfl
    · subst hclose
      rw [Bool.and_eq_true, decide_eq_true_eq] at hp
      cases depth with
      | zero => exact absurd hp.1 (Nat.lt_irrefl 0)
      | succ depth =>
        have hrest : cutAtClosing? depth (p ++ ')' :: r) = some (p, r) := ih hp.2
        rw [cutAtClosing?, hrest]
        rfl
    · rw [cutAtClosing?_cons hclose, if_neg hopen, ih hp]
      rfl

end Text

/-! ### Methods -/

namespace MethodPayload

variable {payload : Text} {m m' : MethodPayload}

/-- The fragments have the parentheses of the parameters. -/
lemma filter_params (start : Nat) (params : Text) :
    ([',', ' '].intercalate
      ((Fragment.ofPieces start (splitParams 0 params)).map (·.text))).filter isParen =
      params.filter isParen := by
  have hparams : (splitParams 0 params).flatMap (·.filter isParen) = params.filter isParen := by
    have hcomma : ∀ c ∈ [','], isParen c = false := by simp [isParen]
    rw [← filter_intercalate hcomma, intercalate_splitParams]
  rw [filter_intercalate (by simp [isParen]), Fragment.map_text_ofPieces, ← hparams]
  induction splitParams 0 params with
  | nil => rfl
  | cons p ps ih =>
    rw [List.map_cons, List.flatMap_cons, ← ih, ← filter_trim isParen_of_isWhiteSpace]
    by_cases hnil : trim p = []
    · rw [List.filter_cons_of_neg (by simpa using hnil), hnil]
      rfl
    · rw [List.filter_cons_of_pos (by simpa using hnil), List.flatMap_cons]

lemma cut_of_read? {types : TypeSyntax} (h : read? types payload = some m) : ∃ head params rest,
    '(' ∉ head ∧ pairsParens 0 params ∧ payload = head ++ '(' :: (params ++ ')' :: rest) ∧
    Signature.read? types head = some m.signature ∧
    m.params = Fragment.ofPieces (byteSize head + 1) (splitParams 0 params) ∧
    m.description = trim rest := by
  obtain ⟨head, rest, params, rest', hcut, hclosing, hm⟩ := cuts_of_read? h
  refine ⟨head, params, rest', not_mem_of_cutAt? hcut, pairsParens_of_cutAtClosing? hclosing, ?_,
    hm⟩
  rw [cutAt?_eq_some hcut, cutAtClosing?_eq_some hclosing]
  rfl

/-- Where a method is written, its signature, parameters and description are found again. -/
lemma read?_write_eq (h : read? .standard payload = some m) :
    read? .standard (m.write .standard) =
      (Signature.read? .standard (m.signature.write .standard)).map fun s =>
        ⟨s, Fragment.ofPieces (byteSize (m.signature.write .standard) + 1)
          (splitParams 0 ([',', ' '].intercalate (m.params.map (·.text)))), m.description⟩ := by
  obtain ⟨head, params, rest, hhead, hpairs, rfl, hsignature, hparams, hdescription⟩ :=
    cut_of_read? h
  have hwrite : m.write .standard = m.signature.write .standard ++
      '(' :: ([',', ' '].intercalate (m.params.map (·.text)) ++
        ')' :: afterBlank m.description) := by
    rw [write]
    simp
  have hparams' : pairsParens 0 ([',', ' '].intercalate (m.params.map (·.text))) := by
    rw [hparams, ← pairsParens_filter, filter_params, pairsParens_filter]
    exact hpairs
  rw [hwrite, read?, cutAt?_append (Signature.not_mem_write hsignature hhead), Option.bind_eq_bind,
    Option.bind_some]
  dsimp only
  rw [cutAtClosing?_append hparams', Option.bind_some, hdescription, trim_afterBlank_trim]
  cases Signature.read? .standard (m.signature.write .standard) <;> rfl

/-- The parameters are found again where they are written. -/
lemma map_text_params (h : read? .standard payload = some m) (start : Nat) :
    (Fragment.ofPieces start (splitParams 0
      ([',', ' '].intercalate (m.params.map (·.text))))).map (·.text) = m.params.map (·.text) := by
  obtain ⟨head, params, rest, -, -, hparams, -⟩ := exists_of_read? h
  rw [hparams, Fragment.map_text_written]

/-- A method that is read again is written alike. -/
theorem write_of_read?_write (h : read? .standard payload = some m)
    (h' : read? .standard (m.write .standard) = some m') :
    m'.write .standard = m.write .standard := by
  obtain ⟨head, -, -, hhead, -, -, hsignature, -⟩ := cut_of_read? h
  rw [read?_write_eq h] at h'
  obtain ⟨signature, hsignature', rfl⟩ := Option.map_eq_some_iff.1 h'
  rw [write, write, Signature.write_of_read?_write hsignature hhead hsignature']
  dsimp only
  rw [map_text_params h]

end MethodPayload

/-! ### Readings -/

namespace Rules

variable {name payload : Text}

/-- No tag fits two of the rules for the usual tags. -/
lemma pairwise_standard : standard.rules.Pairwise fun r r' =>
    ∀ name, r.pattern.matches name → r'.pattern.matches name = false := by
  have hvariable : ∀ n ∈ Vocabulary.expand Vocabulary.standard.vendorPrefixes
      Vocabulary.standard.variableTags, (Vocabulary.expand Vocabulary.standard.vendorPrefixes
        Vocabulary.standard.typedTags).any (· = n) = false ∧ methodNames.any (· = n) = false := by
    decide +kernel
  have htyped : ∀ n ∈ Vocabulary.expand Vocabulary.standard.vendorPrefixes
      Vocabulary.standard.typedTags, methodNames.any (· = n) = false := by
    decide +kernel
  have hmem : ∀ {names : List Text} {name : Text}, names.any (· = name) → name ∈ names := by
    intro names name h
    simpa using h
  simp only [standard, Vocabulary.rules, List.pairwise_cons, List.mem_cons, List.not_mem_nil,
    or_false, List.Pairwise.nil, and_true, forall_eq_or_imp, forall_eq, false_imp_iff, implies_true]
  exact ⟨⟨fun name h => (hvariable name (hmem h)).1, fun name h => (hvariable name (hmem h)).2⟩,
    fun name h => htyped name (hmem h)⟩

/-- A payload is kept as it is if its tag fits no rule. -/
lemma resolve_eq_generic {rules : Rules} (hname : ¬ ∃ r ∈ rules.rules, r.pattern.matches name)
    (payload : Text) : rules.resolve name payload = .value (.generic payload) := by
  rw [resolve, List.findSome?_eq_none_iff.2 fun r hr => if_neg fun h => hname ⟨r, hr, h⟩]
  rfl

/-- A payload is read by the only rule that its tag fits. -/
lemma resolve_eq_of_pairwise {rules : Rules} {r : Rule}
    (hpairwise : rules.rules.Pairwise fun r r' =>
      ∀ name, r.pattern.matches name → r'.pattern.matches name = false)
    (hr : r ∈ rules.rules) (hname : r.pattern.matches name) (payload : Text) :
    rules.resolve name payload = (r.read? name payload).getD (.value (.generic payload)) := by
  rw [resolve]
  congr 1
  generalize rules.rules = rs at hpairwise hr
  induction rs with
  | nil => cases hr
  | cons r' rs ih =>
    obtain ⟨hfirst, hrest⟩ := List.pairwise_cons.1 hpairwise
    rw [List.findSome?_cons]
    rcases List.mem_cons.1 hr with rfl | hr
    · have hnone : rs.findSome? (fun r => if r.pattern.matches name then r.read? name payload
          else none) = none := List.findSome?_eq_none_iff.2 fun r' hr' => by
        rw [hfirst r' hr' name hname, if_neg Bool.false_ne_true]
      rw [if_pos hname, hnone]
      cases r.read? name payload <;> rfl
    · have hnot : ¬r'.pattern.matches name := fun h => by
        rw [hfirst r hr name h] at hname
        cases hname
      rw [if_neg hnot]
      exact ih hrest hr

/-- A payload that is written, read and written again is written alike. -/
theorem write_resolve_write (name payload : Text) :
    (standard.resolve name ((standard.resolve name payload).write .standard)).write .standard =
      (standard.resolve name payload).write .standard := by
  by_cases hname : ∃ r ∈ standard.rules, r.pattern.matches name
  · obtain ⟨r, hr, hname⟩ := hname
    rw [resolve_eq_of_pairwise pairwise_standard hr hname,
      resolve_eq_of_pairwise pairwise_standard hr hname]
    cases h : r.read? name payload with
    | none =>
      rw [Option.getD_none, Reading.write, TagValue.write, h]
      rfl
    | some reading =>
      rw [Option.getD_some]
      cases h' : r.read? name (reading.write .standard) with
      | none => rfl
      | some reading' =>
        rw [Option.getD_some]
        simp only [standard, Vocabulary.rules, List.mem_cons, List.not_mem_nil, or_false] at hr
        rcases hr with rfl | rfl | rfl
        all_goals
          obtain ⟨v, hv, rfl⟩ := Option.map_eq_some_iff.1 h
          obtain ⟨v', hv', rfl⟩ := Option.map_eq_some_iff.1 h'
        · exact TypedValue.write_of_read?_write hv hv'
        · exact TypedValue.write_of_read?_write hv hv'
        · exact MethodPayload.write_of_read?_write hv hv'
  · rw [resolve_eq_generic hname, resolve_eq_generic hname]
    rfl

end Rules

end DocComment
