import DocComment.Proofs.Tag.Method
import DocComment.Proofs.Text.Lines
import DocComment.Proofs.Tree.Growth
import DocComment.Proofs.TypeExpr.WellNamed

/-!
# Payloads that are written anew

A payload that was read is written in its canonical form (`Reading.write`). If the payload can stand
on lines of a comment, so can that form (`writable_write`): its parts are either parts of the
payload or types.
-/

namespace DocComment

open Text Token TypeExpr

/-- The payload that says this. -/
def Reading.write (types : TypeSyntax) : Reading → Text
  | .value v => v.write types
  | .method m => m.write types

/-- A tag is written as its name and the payload. -/
lemma Reading.write_content (types : TypeSyntax) (name : Text) (r : Reading) :
    (r.content name).write types = '@' :: name ++ afterBlank (r.write types) := by
  cases r <;> rfl

lemma afterBlank_of_ne_nil {s : Text} (h : s ≠ []) : afterBlank s = ' ' :: s := by
  cases s with
  | nil => exact absurd rfl h
  | cons c s => rfl

lemma eq_of_mem_head?_afterBlank {s : Text} {c : Char} (hc : c ∈ (afterBlank s).head?) :
    c = ' ' := by
  cases s with
  | nil => cases hc
  | cons d s => exact (Option.some.inj hc).symm

lemma afterBlank_injective {s t : Text} (h : afterBlank s = afterBlank t) : s = t := by
  cases s <;> cases t <;> simp_all [afterBlank]

/-- What says the same is written alike. -/
lemma Reading.write_congr (types : TypeSyntax) {name : Text} {r r' : Reading}
    (h : r.content name = r'.content name) : r.write types = r'.write types := by
  have hwrite := congrArg (Node.Content.write types) h
  rw [write_content, write_content] at hwrite
  exact afterBlank_injective (List.append_cancel_left hwrite)

/-! ### Texts that can be written -/

namespace Text

lemma isBlank_of_isWhiteSpace {c : Char} (h : isWhiteSpace c = false) : isBlank c = false := by
  by_contra hblank
  rw [isWhiteSpace_of_isBlank (by simpa using hblank)] at h
  cases h

/-- A text that keeps its lines, and neither starts nor ends with a blank. -/
structure Writable (stars : Bool) (s : Text) : Prop where
  keepsLines : keepsLines stars s
  head? : ∀ c ∈ s.head?, isBlank c = false
  getLast? : ∀ c ∈ s.getLast?, isBlank c = false

namespace Writable

variable {stars : Bool} {s t : Text}

lemma append (hs : Writable stars s) (hne : s ≠ []) (ht : Text.keepsLines stars t)
    (hseam : ∀ c ∈ t.head?, endsContent c) (hlast : ∀ c ∈ t.getLast?, isBlank c = false) :
    Writable stars (s ++ t) where
  keepsLines := keepsLines_append hs.keepsLines ht hseam
  head? := by
    rw [List.head?_append_of_ne_nil _ hne]
    exact hs.head?
  getLast? := by
    cases t with
    | nil => simpa using hs.getLast?
    | cons c t => simpa [List.getLast?_append_of_ne_nil] using hlast

lemma append_afterBlank (hs : Writable stars s) (hne : s ≠ []) (ht : Writable stars t) :
    Writable stars (s ++ afterBlank t) := by
  cases t with
  | nil => simpa [afterBlank] using hs
  | cons c t =>
    refine hs.append hne (keepsLines_cons.2 ⟨by decide, by simp, by simp, ht.keepsLines⟩) ?_ ?_
    · intro d hd
      obtain rfl : ' ' = d := by simpa [afterBlank] using hd
      rfl
    · simpa [afterBlank] using ht.getLast?

/-- A part of a payload. -/
lemma of_isInfix (h : s <:+: t) (ht : Text.keepsLines stars t)
    (hhead : ∀ c ∈ s.head?, isWhiteSpace c = false)
    (hlast : ∀ c ∈ s.getLast?, isWhiteSpace c = false) : Writable stars s where
  keepsLines := keepsLines_of_isInfix h ht fun hn => absurd (hlast _ hn) (by decide)
  head? c hc := isBlank_of_isWhiteSpace (hhead c hc)
  getLast? c hc := isBlank_of_isWhiteSpace (hlast c hc)

/-- The end of a payload. -/
lemma of_suffix (h : s <:+ t) (ht : Writable stars t) (hhead : ∀ c ∈ s.head?, isBlank c = false) :
    Writable stars s where
  keepsLines := keepsLines_of_suffix h ht.keepsLines
  head? := hhead
  getLast? c hc := ht.getLast? c <| by
    obtain ⟨p, rfl⟩ := h
    rw [List.getLast?_append]
    simp [Option.mem_def.1 hc]

/-- A word of a payload. -/
lemma of_word (h : s <:+: t) (ht : Text.keepsLines stars t)
    (hs : ∀ c ∈ s, isWhiteSpace c = false) : Writable stars s :=
  of_isInfix h ht (fun c hc => hs c (List.mem_of_mem_head? hc)) fun c hc =>
    hs c (List.mem_of_getLast? hc)

lemma of_isWritten (h : IsWritten s) : Writable stars s where
  keepsLines := keepsLines_of_not_mem (fun hc => absurd (h.isTypeChar _ hc) (by decide))
    (fun hc => absurd (h.isTypeChar _ hc) (by decide))
    (closes_eq_false_of_not_mem fun hc => absurd (h.isTypeChar _ hc) (by decide))
  head? c hc := isBlank_of_isWhiteSpace <|
    isWhiteSpace_of_isTypeChar (h.isTypeChar c (List.mem_of_mem_head? hc)) fun he =>
      h.head? (he ▸ hc)
  getLast? c hc := isBlank_of_isWhiteSpace <|
    isWhiteSpace_of_isTypeChar (h.isTypeChar c (List.mem_of_getLast? hc)) fun he =>
      h.getLast? (he ▸ hc)

end Writable

end Text

/-! ### Typed payloads -/

namespace TypedValue

variable {types : TypeSyntax} {stars withVariable : Bool} {payload : Text} {v : TypedValue}

/-- Apart from its type, what is read from a payload are parts of it. -/
lemma parts_of_read? (h : read? types withVariable payload = some v) :
    (∃ size, types.read? payload = some (v.type, size)) ∧
      (∀ w ∈ v.var?, w ≠ [] ∧ w <:+: payload ∧ ∀ c ∈ w, isWhiteSpace c = false) ∧
      v.description <:+ payload ∧ ∀ c ∈ v.description.head?, isWhiteSpace c = false := by
  unfold read? at h
  obtain ⟨⟨type, size⟩, htype, h⟩ := Option.bind_eq_some_iff.1 h
  have hrest : trimStart (dropBytes size payload) <:+ payload :=
    (trimStart_suffix _).trans (dropBytes_suffix size payload)
  dsimp only at h
  by_cases hend : (dropBytes size payload).head?.any (!isWhiteSpace ·)
  · rw [if_pos hend] at h
    cases h
  rw [if_neg hend] at h
  split_ifs at h with hvar
  · obtain rfl := Option.some.inj h
    refine ⟨⟨size, htype⟩, fun w hw => ?_, ?_, head?_trimStart _⟩
    · obtain rfl := Option.some.inj hw
      refine ⟨?_, (List.takeWhile_prefix _).isInfix.trans hrest.isInfix, fun c hc => ?_⟩
      · intro hnil
        rw [hnil] at hvar
        simp [isVariable, dropCopies, dropPrefix?] at hvar
      · simpa using List.mem_takeWhile_imp hc
    · exact (trimStart_suffix _).trans ((List.dropWhile_suffix _).trans hrest)
  · obtain rfl := Option.some.inj h
    exact ⟨⟨size, htype⟩, by simp, hrest, head?_trimStart _⟩

lemma writable_write (h : read? .standard withVariable payload = some v)
    (hp : Writable stars payload) : Writable stars (v.write .standard) := by
  obtain ⟨⟨size, htype⟩, hvar, hdescription, hhead⟩ := parts_of_read? h
  have hwritten : IsWritten v.type.text := (wellNamed_of_read? htype).isWritten
  have hdesc : Writable stars v.description := .of_suffix hdescription hp fun c hc =>
    isBlank_of_isWhiteSpace (hhead c hc)
  have hmiddle : Writable stars (v.type.text ++ v.var?.elim [] (' ' :: ·)) := by
    cases hv : v.var? with
    | none =>
      rw [Option.elim_none, List.append_nil]
      exact .of_isWritten hwritten
    | some w =>
      obtain ⟨hne, hpart, hw⟩ := hvar w hv
      rw [Option.elim_some, ← afterBlank_of_ne_nil hne]
      exact (Writable.of_isWritten hwritten).append_afterBlank hwritten.ne_nil
        (.of_word hpart hp.keepsLines hw)
  exact hmiddle.append_afterBlank (by simp [hwritten.ne_nil]) hdesc

end TypedValue

/-! ### Methods -/

namespace Signature

variable {types : TypeSyntax} {stars : Bool} {head : Text} {s : Signature}

lemma afterStatic?_suffix {t : Text} (h : afterStatic? head = some t) : t <:+ head := by
  unfold afterStatic? at h
  split at h
  · next c rest hpre =>
    split_ifs at h
    obtain rfl := Option.some.inj h
    rw [dropPrefix?_eq_some hpre]
    exact (trimStart_suffix rest).trans ((List.suffix_cons c rest).trans (List.suffix_append _ _))
  · cases h

/-- The name of the method is a word in front of the parameters, and the type is one that is
read. -/
lemma parts_of_read? (h : read? types head = some s) :
    (∀ t ∈ s.returnType?, ∃ text size, types.read? text = some (t, size)) ∧
      s.method ≠ [] ∧ s.method <:+: head ∧ ∀ c ∈ s.method, isWhiteSpace c = false := by
  unfold read? at h
  dsimp only at h
  have hwords : trimEnd ((afterStatic? head).getD head) <:+: head := by
    have hsuffix : (afterStatic? head).getD head <:+ head := by
      cases hstatic : afterStatic? head with
      | none => exact List.suffix_refl head
      | some t => exact afterStatic?_suffix hstatic
    obtain ⟨r, hr, -⟩ := exists_trimEndBy isWhiteSpace ((afterStatic? head).getD head)
    exact (List.IsPrefix.isInfix ⟨r, hr.symm⟩).trans hsuffix.isInfix
  generalize trimEnd ((afterStatic? head).getD head) = words at h hwords
  have hmethod : (words.reverse.takeWhile (!isWhiteSpace ·)).reverse <:+: head := by
    refine List.IsInfix.trans (List.IsSuffix.isInfix ?_) hwords
    rw [← List.reverse_prefix, List.reverse_reverse]
    exact List.takeWhile_prefix _
  have hword : ∀ c ∈ (words.reverse.takeWhile (!isWhiteSpace ·)).reverse,
      isWhiteSpace c = false := by
    intro c hc
    simpa using List.mem_takeWhile_imp (List.mem_reverse.1 hc)
  generalize (words.reverse.takeWhile (!isWhiteSpace ·)).reverse = method at h hmethod hword
  by_cases hname : isMethodName method
  · have hne : method ≠ [] := by
      rintro rfl
      cases hname
    rw [if_neg (by simp [hname])] at h
    split_ifs at h with hbefore
    · obtain rfl := Option.some.inj h
      exact ⟨by simp, hne, hmethod, hword⟩
    · obtain ⟨⟨type, size⟩, htype, h⟩ := Option.bind_eq_some_iff.1 h
      dsimp only at h
      split_ifs at h
      obtain rfl := Option.some.inj h
      refine ⟨fun t ht => ?_, hne, hmethod, hword⟩
      obtain rfl := Option.some.inj ht
      exact ⟨_, size, htype⟩
  · rw [if_pos (by simp [hname])] at h
    cases h

/-- What stands in front of the parameters can be written. -/
lemma writable_write {payload : Text} (h : read? .standard head = some s)
    (hhead : head <:+: payload) (hp : Text.keepsLines stars payload) :
    Writable stars (s.write .standard) ∧ s.write .standard ≠ [] := by
  obtain ⟨htype, hne, hmethod, hword⟩ := parts_of_read? h
  have hname : Writable stars s.method := .of_word (hmethod.trans hhead) hp hword
  have htyped : Writable stars (s.returnType?.elim [] (fun t => t.text ++ [' ']) ++ s.method) := by
    cases ht : s.returnType? with
    | none => simpa using hname
    | some t =>
      obtain ⟨text, size, hread⟩ := htype t ht
      have hwritten := (wellNamed_of_read? hread).isWritten
      have happend := (Writable.of_isWritten hwritten).append_afterBlank hwritten.ne_nil hname
      rw [afterBlank_of_ne_nil hne] at happend
      simpa using happend
  have hne' : s.returnType?.elim [] (fun t => t.text ++ [' ']) ++ s.method ≠ [] := by simp [hne]
  have hwrite : s.write .standard = (if s.isStatic then "static ".toList else []) ++
      (s.returnType?.elim [] (fun t => t.text ++ [' ']) ++ s.method) := List.append_assoc _ _ _
  rw [hwrite]
  cases s.isStatic with
  | false => exact ⟨by simpa using htyped, by simp [hne]⟩
  | true =>
    have hstatic : Writable stars "static".toList := .of_isWritten
      (.of_name (by decide) (List.all_eq_true.1 (by decide)))
    have happend := hstatic.append_afterBlank (by decide) htyped
    rw [afterBlank_of_ne_nil hne'] at happend
    exact ⟨happend, by simp⟩

end Signature

/-! ### Methods -/

lemma keepsLines_intercalate {stars : Bool} {parts : List Text}
    (h : ∀ p ∈ parts, Text.keepsLines stars p) :
    Text.keepsLines stars ([',', ' '].intercalate parts) := by
  refine intercalate_induction (P := (Text.keepsLines stars ·)) rfl (fun s t hs ht => ?_) h
  have hrest : Text.keepsLines stars (',' :: ' ' :: t) := by
    rw [keepsLines_cons, keepsLines_cons]
    exact ⟨by decide, by simp, by simp, by decide, by simp, by simp, ht⟩
  rw [List.append_assoc]
  refine keepsLines_append hs hrest fun c hc => ?_
  obtain rfl : ',' = c := by simpa using hc
  rfl

namespace MethodPayload

variable {stars : Bool} {payload : Text} {m : MethodPayload}

/-- A fragment can be written where it stands. -/
lemma writable_fragment {params : Text} {start : Nat} {f : Fragment}
    (hf : f ∈ Fragment.ofPieces start (splitParams 0 params)) (hpart : params <:+: payload)
    (hp : Text.keepsLines stars payload) : Writable stars f.text := by
  obtain ⟨piece, hpiece, htext⟩ := Fragment.exists_isInfix hf
  obtain ⟨r, -, -, hhead, hlast⟩ := exists_trim piece
  rw [htext]
  exact .of_isInfix ((trim_isInfix piece).trans (hpiece.trans hpart)) hp hhead hlast

lemma writable_write (h : read? .standard payload = some m) (hp : Writable stars payload) :
    Writable stars (m.write .standard) := by
  obtain ⟨head, params, rest, hsplit, hsignature, hparams, hdescription⟩ := exists_of_read? h
  have hhead : head <:+: payload := ⟨[], '(' :: (params ++ ')' :: rest), by rw [hsplit]; rfl⟩
  have hpart : params <:+: payload := ⟨head ++ ['('], ')' :: rest, by rw [hsplit]; simp⟩
  have hrest : rest <:+: payload := ⟨head ++ '(' :: (params ++ [')']), [], by rw [hsplit]; simp⟩
  obtain ⟨hwritten, hne⟩ := Signature.writable_write hsignature hhead hp.keepsLines
  obtain ⟨r, -, -, hfirst, hlast⟩ := exists_trim rest
  have hdesc : Writable stars m.description := by
    rw [hdescription]
    exact .of_isInfix ((trim_isInfix rest).trans hrest) hp.keepsLines hfirst hlast
  have hfragments : Text.keepsLines stars ([',', ' '].intercalate (m.params.map (·.text))) := by
    refine keepsLines_intercalate fun p hp' => ?_
    obtain ⟨f, hf, rfl⟩ := List.mem_map.1 hp'
    rw [hparams] at hf
    exact (writable_fragment hf hpart hp.keepsLines).keepsLines
  have hlist : Text.keepsLines stars
      ('(' :: ([',', ' '].intercalate (m.params.map (·.text)) ++ [')'])) := by
    refine keepsLines_cons.2 ⟨by decide, by simp, by simp, ?_⟩
    have hend : Text.keepsLines stars [')'] := keepsLines_of_not_mem (by decide) (by decide) rfl
    exact keepsLines_append hfragments hend fun c hc => by
      obtain rfl : ')' = c := by simpa using hc
      rfl
  have hcall := hwritten.append hne hlist (fun c hc => by
    obtain rfl : '(' = c := by simpa using hc
    rfl) (fun c hc => by
    obtain rfl : ')' = c := by simpa [List.getLast?_cons] using hc
    rfl)
  have happend := hcall.append_afterBlank (by simp [hne]) hdesc
  simpa [write] using happend

end MethodPayload

/-! ### Readings -/

namespace Rules

/-- No rule at all, or the rules for the usual tags. -/
def IsUsual (rules : Rules) : Prop := (∃ types, rules = .empty types) ∨ rules = .standard

variable {rules : Rules} {stars : Bool} {name payload : Text}

/-- A payload is kept as it is, or read by one of the rules. -/
lemma exists_of_resolve (rules : Rules) (name payload : Text) :
    rules.resolve name payload = .value (.generic payload) ∨
      ∃ r ∈ rules.rules, r.read? name payload = some (rules.resolve name payload) := by
  unfold resolve
  cases h : rules.rules.findSome? fun r =>
      if r.pattern.matches name then r.read? name payload else none with
  | none => exact .inl rfl
  | some reading =>
    obtain ⟨r, hr, hread⟩ := List.exists_of_findSome?_eq_some h
    split_ifs at hread
    exact .inr ⟨r, hr, hread⟩

/-- The usual rules read types with variables, and methods. -/
lemma IsUsual.resolve_cases (h : rules.IsUsual) (name payload : Text) :
    rules.resolve name payload = .value (.generic payload) ∨ rules.types = .standard ∧
      ((∃ withVariable v, TypedValue.read? rules.types withVariable payload = some v ∧
          rules.resolve name payload = .value (.typed v)) ∨
        ∃ m, MethodPayload.read? rules.types payload = some m ∧
          rules.resolve name payload = .method m) := by
  rcases exists_of_resolve rules name payload with hgeneric | ⟨r, hr, hread⟩
  · exact .inl hgeneric
  rcases h with ⟨types, rfl⟩ | rfl
  · cases hr
  refine .inr ⟨rfl, ?_⟩
  simp only [standard, Vocabulary.rules, List.mem_cons, List.not_mem_nil, or_false] at hr
  rcases hr with rfl | rfl | rfl
  · obtain ⟨v, hv, heq⟩ := Option.map_eq_some_iff.1 hread
    exact .inl ⟨true, v, hv, heq.symm⟩
  · obtain ⟨v, hv, heq⟩ := Option.map_eq_some_iff.1 hread
    exact .inl ⟨false, v, hv, heq.symm⟩
  · obtain ⟨m, hm, heq⟩ := Option.map_eq_some_iff.1 hread
    exact .inr ⟨m, hm, heq.symm⟩

/-- Whether the fragments of every method that is read are parts of its payload, one behind the
other. -/
def Slices (rules : Rules) : Prop :=
  ∀ name payload m, rules.resolve name payload = .method m →
    m.params.Pairwise (fun f g => f.stop ≤ g.start) ∧
      ∀ f ∈ m.params, slice? f.start f.stop payload = some f.text

lemma IsUsual.slices (h : rules.IsUsual) : rules.Slices := by
  intro name payload m hm
  rcases h.resolve_cases name payload with hr | ⟨-, ⟨withVariable, v, -, hr⟩ | ⟨m', hread, hr⟩⟩
  · cases hr.symm.trans hm
  · cases hr.symm.trans hm
  · obtain rfl := Reading.method.inj (hr.symm.trans hm)
    exact MethodPayload.slice?_of_read? hread

/-- The canonical form of a payload can be written where the payload can. -/
theorem IsUsual.writable_write (h : rules.IsUsual) (name : Text) (hp : Writable stars payload) :
    Writable stars ((rules.resolve name payload).write rules.types) := by
  rcases h.resolve_cases name payload with hr | ⟨htypes, ⟨withVariable, v, hv, hr⟩ | ⟨m, hm, hr⟩⟩
  · rw [hr]
    exact hp
  · rw [htypes] at hv
    rw [hr, htypes]
    exact TypedValue.writable_write hv hp
  · rw [htypes] at hm
    rw [hr, htypes]
    exact MethodPayload.writable_write hm hp

end Rules

end DocComment
