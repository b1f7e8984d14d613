import DocComment.Proofs.Tag.Reread
import DocComment.Proofs.TypeExpr.Respelled

/-!
# Payloads that are read back

What a payload was read as is read again from its canonical form, provided that the type in it is
read back from its own text (`Rules.content_resolve_write`). Only the places of fragments differ,
which say where they stand in the payload and not what the tag says. For a typed payload this holds
in any syntax of types (`TypedValue.read?_write_of_restores`). The type that a method returns is
always read back, since no parenthesis stands in front of its name
(`MethodPayload.exists_read?_writePayload`).
-/

namespace DocComment

open Text

namespace TypeExpr

variable {t : TypeExpr} {rest : Text}

/-- Whether a type is read back from its text, all of which it takes. -/
def IsRestored (t : TypeExpr) : Prop := read? t.text = some (t, byteSize t.text)

instance : DecidablePred IsRestored := fun t => inferInstanceAs (Decidable (read? t.text = _))

lemma IsRestored.isWritten (h : t.IsRestored) : IsWritten t.text := (wellNamed_of_read? h).isWritten

lemma IsRestored.read?_append (h : t.IsRestored) (hrest : ∀ c ∈ rest.head?, isWhiteSpace c) :
    read? (t.text ++ rest) = some (t, byteSize t.text) :=
  TypeExpr.read?_append (Signature.derives_of_read? h) hrest

/-- A type that is derived from its own text is read back from it. -/
lemma Derives.isRestored (h : Derives IsPrimary maxNesting t.text t) : t.IsRestored := by
  have hread : read? (t.text ++ []) = some (t, byteSize t.text) := TypeExpr.read?_append h (by simp)
  rwa [List.append_nil] at hread

end TypeExpr

/-- Whether a syntax of types reads a type back from its text, with white space or nothing behind
it. -/
def TypeSyntax.Restores (types : TypeSyntax) (t : TypeExpr) : Prop :=
  ∀ rest, (∀ c ∈ rest.head?, isWhiteSpace c) →
    types.read? (types.write t ++ rest) = some (t, byteSize (types.write t))

lemma TypeExpr.IsRestored.restores {t : TypeExpr} (h : t.IsRestored) :
    TypeSyntax.standard.Restores t := fun _ => h.read?_append

/-! ### A type, a variable and a description -/

namespace TypedValue

variable {types : TypeSyntax} {withVariable : Bool} {payload : Text} {v : TypedValue} {t : TypeExpr}

lemma read?_append {rest : Text} (ht : types.Restores t)
    (hrest : ∀ c ∈ rest.head?, isWhiteSpace c) :
    read? types withVariable (types.write t ++ rest) =
      some (ofRest withVariable t (trimStart rest)) := by
  have hend : rest.head?.any (!isWhiteSpace ·) = false := by
    rw [Option.any_eq_false]
    exact fun c hc => by simp [hrest c hc]
  rw [read?, ht rest hrest, Option.bind_eq_bind, Option.bind_some]
  dsimp only
  rw [dropBytes_byteSize_append, hend, if_neg Bool.false_ne_true, ofRest]
  split_ifs <;> rfl

/-- A type alone. -/
lemma read?_type (ht : t.IsRestored) :
    read? .standard withVariable t.text = some ⟨t, none, []⟩ := by
  have hread : read? .standard withVariable (t.text ++ []) = _ :=
    read?_append ht.restores (by simp)
  rw [List.append_nil] at hread
  rw [hread, ofRest]
  simp [trimStart, isVariable_nil]

/-- The variable and the description that were read are read again behind the type. -/
lemma ofRest_rest_of_read? (h : read? types withVariable payload = some v) :
    ofRest withVariable v.type (trimStart v.rest) = v := by
  obtain ⟨size, -, -, hv⟩ := exists_of_read? h
  have hread := ofRest_rest withVariable v.type v.type (dropBytes size payload)
  rwa [← hv] at hread

/-- A typed payload is read back. -/
lemma read?_write (h : read? .standard withVariable payload = some v) (ht : v.type.IsRestored) :
    read? .standard withVariable (v.write .standard) = some v := by
  rw [write_eq, read?_append ht.restores v.isWhiteSpace_head?_rest, ofRest_rest_of_read? h]

/-- In any syntax of types, a payload of which the type is read back from its own text is read back
whole. -/
theorem read?_write_of_restores (types : TypeSyntax) (withVariable : Bool) {payload : Text}
    {v : TypedValue} (h : read? types withVariable payload = some v)
    (ht : ∀ rest, (∀ c ∈ rest.head?, isWhiteSpace c) →
      types.read? (types.write v.type ++ rest) = some (v.type, byteSize (types.write v.type))) :
    read? types withVariable (v.write types) = some v := by
  have hrest : read? types withVariable (types.write v.type ++ v.rest) =
      some (ofRest withVariable v.type (trimStart v.rest)) :=
    read?_append ht v.isWhiteSpace_head?_rest
  rw [write_eq, hrest, ofRest_rest_of_read? h]

/-- A second variable is part of the description, and so is the first one where no variable may
stand. -/
theorem read?_write_of_restores_variables :
    let payload := "array< int , A >|B\u3000&...$x \t $y  z ".toList
    let type := TypeExpr.union [.generic "array".toList [.name "int".toList, .name "A".toList],
      .name "B".toList]
    let v : TypedValue := ⟨type, some "&...$x".toList, "$y  z ".toList⟩
    let v' : TypedValue := ⟨type, none, "&...$x \t $y  z ".toList⟩
    type.IsRestored ∧
      read? .standard true payload = some v ∧
      v.write .standard = "array<int, A>|B &...$x $y  z ".toList ∧
      read? .standard true (v.write .standard) = some v ∧
      read? .standard false payload = some v' ∧
      read? .standard false (v'.write .standard) = some v' := by
  intro payload type v v'
  have htype : type.IsRestored := by decide +kernel
  have hread : read? .standard true payload = some v := by decide +kernel
  have hread' : read? .standard false payload = some v' := by decide +kernel
  exact ⟨htype, hread, by decide +kernel,
    read?_write_of_restores .standard true hread fun _ => htype.read?_append,
    hread', read?_write_of_restores .standard false hread' fun _ => htype.read?_append⟩

end TypedValue

/-! ### Methods -/

namespace Signature

variable {types : TypeSyntax} {head before method : Text} {type? : Option TypeExpr} {s : Signature}

lemma isMethodName_of_read? (h : read? types head = some s) : isMethodName s.method := by
  unfold read? at h
  dsimp only at h
  generalize (List.takeWhile _ _).reverse = method at h
  by_cases hname : isMethodName method
  · rw [if_neg (by simp [hname])] at h
    split_ifs at h
    · obtain rfl := Option.some.inj h
      exact hname
    · obtain ⟨⟨type, size⟩, -, h⟩ := Option.bind_eq_some_iff.1 h
      dsimp only at h
      split_ifs at h
      obtain rfl := Option.some.inj h
      exact hname
  · rw [if_pos (by simp [hname])] at h
    cases h

/-- A signature is read from a name and what stands in front of it. -/
lemma read?_eq_some (hwords : trimEnd ((afterStatic? head).getD head) = before ++ method)
    (hname : isMethodName method) (hmethod : ∀ c ∈ method, isWhiteSpace c = false)
    (hbefore : ∀ c ∈ before.getLast?, isWhiteSpace c)
    (htype : before = [] ∧ type? = none ∨ before ≠ [] ∧ ∃ t, type? = some t ∧
      types.read? (trimEnd before) = some (t, byteSize (trimEnd before))) :
    read? types head = some ⟨(afterStatic? head).isSome, type?, method⟩ := by
  have hword : ∀ c ∈ method.reverse, !isWhiteSpace c := fun c hc => by
    simp [hmethod c (List.mem_reverse.1 hc)]
  have hstop : ∀ c ∈ before.reverse.head?, (!isWhiteSpace c) = false := fun c hc => by
    rw [List.head?_reverse] at hc
    simp [hbefore c hc]
  have htake : (before ++ method).reverse.takeWhile (!isWhiteSpace ·) = method.reverse := by
    rw [List.reverse_append, Token.takeWhile_append_of_head hstop]
    exact List.takeWhile_eq_self_iff.2 hword
  have hdrop : (before ++ method).reverse.dropWhile (!isWhiteSpace ·) = before.reverse := by
    rw [List.reverse_append, List.dropWhile_append_of_pos hword]
    cases hlast : before.reverse with
    | nil => rfl
    | cons c l =>
      rw [List.dropWhile_cons_of_neg]
      simpa using hstop c (by simp [hlast])
  rw [read?, hwords]
  dsimp only
  rw [htake, hdrop, List.reverse_reverse, List.reverse_reverse, hname, if_neg (by simp)]
  rcases htype with ⟨hnil, rfl⟩ | ⟨hne, t, rfl, hread⟩
  · rw [if_pos hnil]
    rfl
  · rw [if_neg hne, hread, Option.bind_eq_bind, Option.bind_some]
    exact if_pos rfl

/-- A signature is read back. Its type is, since it was read from a text without parentheses. -/
lemma read?_write (h : read? .standard head = some s) (hhead : '(' ∉ head) :
    read? .standard (s.write .standard) = some s := by
  have ht : ∀ t ∈ s.returnType?, t.IsRestored := by
    intro t ht
    obtain ⟨w, hw, hderives⟩ := (not_mem_of_read? h hhead).2 t ht
    exact (TypeExpr.derives_text_of_derives hderives hw).isRestored
  obtain ⟨hbody, hstatic⟩ := getD_afterStatic?_write h hhead
  obtain ⟨-, -, -, -, ⟨-, hmethod⟩, -⟩ := exists_of_read? h
  have hname := isMethodName_of_read? h
  have hlast := getLast?_body h
  have hread : read? .standard (s.write .standard) =
      some ⟨(afterStatic? (s.write .standard)).isSome, s.returnType?, s.method⟩ := by
    cases hreturn : s.returnType? with
    | none =>
      have hwords : trimEnd ((afterStatic? (s.write .standard)).getD (s.write .standard)) =
          [] ++ s.method := by
        rw [hbody, trimEnd_eq hlast, body_of_none hreturn, List.nil_append]
      exact read?_eq_some hwords hname hmethod (by simp) (.inl ⟨rfl, rfl⟩)
    | some t =>
      have hrestored := ht t hreturn
      have htrim : trimEnd (t.text ++ [' ']) = t.text :=
        trimEnd_append hrestored.isWritten.isWhiteSpace_getLast? (List.forall_mem_singleton.2 rfl)
      have hwords : trimEnd ((afterStatic? (s.write .standard)).getD (s.write .standard)) =
          (t.text ++ [' ']) ++ s.method := by
        rw [hbody, trimEnd_eq hlast, body_of_some hreturn, List.append_assoc]
        rfl
      refine read?_eq_some hwords hname hmethod ?_ (.inr ⟨by simp, t, rfl, ?_⟩)
      · simp [isWhiteSpace]
      · rw [htrim]
        exact hrestored
  rw [hread, hstatic]

end Signature

namespace MethodPayload

variable {payload : Text} {m : MethodPayload}

/-- A method is read back, but for the places of its fragments. -/
lemma exists_read?_write (h : read? .standard payload = some m) :
    ∃ m', read? .standard (m.write .standard) = some m' ∧ m'.signature = m.signature ∧
      m'.params.map (·.text) = m.params.map (·.text) ∧ m'.description = m.description := by
  obtain ⟨head, -, -, hhead, -, -, hsignature, -⟩ := cut_of_read? h
  rw [read?_write_eq h, Signature.read?_write hsignature hhead]
  exact ⟨_, rfl, rfl, map_text_params h _, rfl⟩

end MethodPayload

/-! ### Readings -/

/-- The type that a tag of this reading states. -/
def Reading.type? : Reading → Option TypeExpr
  | .value v => v.type?
  | .method m => m.signature.returnType?

namespace Rules

variable {name payload : Text}

/-- What one of the usual rules reads it reads back. -/
lemma exists_read?_write {r : Rule} {reading : Reading} (hr : r ∈ standard.rules)
    (h : r.read? name payload = some reading) (ht : ∀ t ∈ reading.type?, t.IsRestored) :
    ∃ reading', r.read? name (reading.write .standard) = some reading' ∧
      reading'.content name = reading.content name := by
  simp only [standard, Vocabulary.rules, List.mem_cons, List.not_mem_nil, or_false] at hr
  have htyped : ∀ {withVariable : Bool},
      (TypedValue.read? .standard withVariable payload).map (.value ∘ .typed) = some reading →
        (TypedValue.read? .standard withVariable (reading.write .standard)).map
          (Reading.value ∘ .typed) = some reading := by
    intro withVariable h
    obtain ⟨v, hv, rfl⟩ := Option.map_eq_some_iff.1 h
    exact Option.map_eq_some_iff.2 ⟨v, TypedValue.read?_write hv (ht v.type rfl), rfl⟩
  rcases hr with rfl | rfl | rfl
  · exact ⟨reading, htyped h, rfl⟩
  · exact ⟨reading, htyped h, rfl⟩
  · obtain ⟨m, hm, rfl⟩ := Option.map_eq_some_iff.1 h
    obtain ⟨m', hm', hsignature, hparams, hdescription⟩ := MethodPayload.exists_read?_write hm
    refine ⟨.method m', Option.map_eq_some_iff.2 ⟨m', hm', rfl⟩, ?_⟩
    rw [Reading.content, Reading.content, hsignature, hparams, hdescription]

/-- What a payload was read as is read back from its canonical form. -/
theorem content_resolve_write (h : ∀ t ∈ (standard.resolve name payload).type?, t.IsRestored) :
    (standard.resolve name ((standard.resolve name payload).write .standard)).content name =
      (standard.resolve name payload).content name := by
  by_cases hname : ∃ r ∈ standard.rules, r.pattern.matches name
  · obtain ⟨r, hr, hname⟩ := hname
    rw [resolve_eq_of_pairwise pairwise_standard hr hname] at h ⊢
    rw [resolve_eq_of_pairwise pairwise_standard hr hname]
    cases hread : r.read? name payload with
    | none =>
      rw [Option.getD_none, Reading.write, TagValue.write, hread]
      rfl
    | some reading =>
      rw [hread, Option.getD_some] at h
      obtain ⟨reading', hreading', hcontent⟩ := exists_read?_write hr hread h
      rw [Option.getD_some, hreading', Option.getD_some, hcontent]
  · rw [resolve_eq_generic hname, resolve_eq_generic hname]
    rfl

/-- The payload of `return` is read as a type and a description. -/
lemma resolve_return (payload : Text) : standard.resolve "return".toList payload =
    ((TypedValue.read? .standard false payload).map (.value ∘ .typed)).getD
      (.value (.generic payload)) :=
  resolve_eq_of_pairwise pairwise_standard (.tail _ (.head _)) (by decide) payload

/-- The payload of `var` is read as a type, a variable and a description. -/
lemma resolve_var (payload : Text) : standard.resolve "var".toList payload =
    ((TypedValue.read? .standard true payload).map (.value ∘ .typed)).getD
      (.value (.generic payload)) :=
  resolve_eq_of_pairwise pairwise_standard (.head _) (by decide) payload

/-- The payload of `method`, alone or with a vendor in front, is read as a method. -/
lemma resolve_method (h : name ∈ methodNames) (payload : Text) : standard.resolve name payload =
    ((MethodPayload.read? .standard payload).map .method).getD (.value (.generic payload)) := by
  have hmatches : NamePattern.method.matches name := by simpa [NamePattern.matches] using h
  exact resolve_eq_of_pairwise pairwise_standard (.tail _ (.tail _ (.head _))) hmatches payload

end Rules

/-! ### Nodes that were read -/

namespace Tree

variable {t : Tree} {id : NodeId} {name : Text} {r : Reading}

/-- A tag that says what a value was read as is that value. -/
lemma node?_of_content?_value {v : TagValue}
    (h : t.content? id = some ((Reading.value v).content name)) :
    t.node? id = some (.tag name v) := by
  obtain ⟨n, hn, hcontent⟩ := Option.map_eq_some_iff.1 h
  cases n with
  | tag _ _ =>
    obtain ⟨rfl, rfl⟩ := Node.Content.tag.inj hcontent
    exact hn
  | _ => cases hcontent

/-- A tag that says what a method was read as has fragments with the texts of the parameters. -/
lemma exists_node?_of_content?_method {m : MethodPayload}
    (h : t.content? id = some ((Reading.method m).content name)) :
    ∃ fragments, t.node? id = some (.container name m.signature fragments m.description) ∧
      fragments.map t.fragmentText = m.params.map (·.text) := by
  obtain ⟨n, hn, hcontent⟩ := Option.map_eq_some_iff.1 h
  cases n with
  | container _ _ fragments _ =>
    obtain ⟨rfl, rfl, hfragments, rfl⟩ := Node.Content.container.inj hcontent
    exact ⟨fragments, hn, hfragments⟩
  | _ => cases hcontent

/-- A tag states the type of what it was read as. -/
lemma type?_of_content? (h : t.content? id = some (r.content name)) :
    (t.node? id).bind Node.type? = r.type? := by
  cases r with
  | value v =>
    rw [node?_of_content?_value h]
    rfl
  | method m =>
    obtain ⟨fragments, hnode, -⟩ := exists_node?_of_content?_method h
    rw [hnode]
    rfl

/-- The payload of a tag is written as what it was read as. -/
lemma writePayload_of_content? (types : TypeSyntax) (h : t.content? id = some (r.content name)) :
    t.writePayload types id = r.write types := by
  rw [writePayload]
  cases r with
  | value v =>
    rw [node?_of_content?_value h]
    rfl
  | method m =>
    obtain ⟨fragments, hnode, hfragments⟩ := exists_node?_of_content?_method h
    rw [hnode]
    dsimp only
    rw [hfragments]
    rfl

end Tree

/-! ### Containers -/

namespace MethodPayload

/-- From the container that is made for a method, in any tree and under any name, the same method is
read again, with the same parameters in order and the same description. -/
theorem exists_read?_writePayload (t : Tree) (name : Text) {payload : Text} {m : MethodPayload}
    (h : read? .standard payload = some m) :
    let made := t.makeTag name (.method m)
    let written := made.1.writePayload .standard made.2
    ∃ m', read? .standard written = some m' ∧
      (∀ tag ∈ methodNames, Rules.standard.resolve tag written = .method m') ∧
      m'.signature = m.signature ∧ m'.params.map (·.text) = m.params.map (·.text) ∧
      m'.description = m.description := by
  intro made written
  have hwritten : written = m.write .standard :=
    Tree.writePayload_of_content? .standard (Tree.content?_makeTag t name (.method m))
  obtain ⟨m', hread, hsame⟩ := exists_read?_write h
  rw [← hwritten] at hread
  refine ⟨m', hread, fun tag htag => ?_, hsame⟩
  rw [Rules.resolve_method htag, hread]
  rfl

/-- An arrow and a sign of comparison count as brackets, so the comma between them parts no
parameters. -/
theorem exists_read?_writePayload_brackets :
    let payload := "static array< int , ?A[]|B > f($a->b, $c < d, , g(1, 2) $e)  C  d. ".toList
    let type := TypeExpr.generic "array".toList [.name "int".toList,
      .union [.nullable (.array (.name "A".toList)), .name "B".toList]]
    let m : MethodPayload := ⟨⟨true, some type, "f".toList⟩,
      [⟨"$a->b, $c < d".toList, 31, 44⟩, ⟨"g(1, 2) $e".toList, 48, 58⟩], "C  d.".toList⟩
    let made := Tree.makeTag {} "method".toList (.method m)
    let written := made.1.writePayload .standard made.2
    read? .standard payload = some m ∧
      written = "static array<int, ?A[]|B> f($a->b, $c < d, g(1, 2) $e) C  d.".toList ∧
      ∃ m', read? .standard written = some m' ∧
        Rules.standard.resolve "psalm-method".toList written = .method m' ∧
        m'.signature = m.signature ∧
        m'.params.map (·.text) = ["$a->b, $c < d".toList, "g(1, 2) $e".toList] ∧
        m'.description = m.description := by
  intro payload type m made written
  have hread : read? .standard payload = some m := by decide +kernel
  have hwritten : written =
      "static array<int, ?A[]|B> f($a->b, $c < d, g(1, 2) $e) C  d.".toList := by
    decide +kernel
  obtain ⟨m', hread', hresolve, hsignature, hparams, hdescription⟩ :=
    exists_read?_writePayload {} "method".toList hread
  exact ⟨hread, hwritten, m', hread', hresolve _ (by decide), hsignature, hparams, hdescription⟩

end MethodPayload

end DocComment
