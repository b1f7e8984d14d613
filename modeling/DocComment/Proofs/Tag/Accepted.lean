import DocComment.Proofs.Tag.Reread

/-!
# Payloads that do not close the comment

A text that would close the comment is not accepted as a payload. The canonical form of a payload is
made of parts of the payload and of types, with other characters than stars and slashes between
them, so it closes the comment only if the payload does (`Rules.IsUsual.closes_write`).
-/

namespace DocComment

open Text

/-! ### Texts that are put together -/

namespace Text

/-- No other character than a star and a slash closes the comment. -/
lemma closes_append_cons {c : Char} (hstar : c ≠ '*') (hslash : c ≠ '/') (s t : Text) :
    closes (s ++ c :: t) = (closes s || closes t) := by
  rw [closes_append, closes]
  simp [hstar, hslash]

lemma closes_afterBlank (s t : Text) : closes (s ++ afterBlank t) = (closes s || closes t) := by
  cases t with
  | nil => simp [afterBlank]
  | cons c t => exact closes_append_cons (by decide) (by decide) s (c :: t)

lemma closes_intercalate {parts : List Text} (h : ∀ p ∈ parts, closes p = false) :
    closes ([',', ' '].intercalate parts) = false := by
  refine intercalate_induction (P := fun s => closes s = false) rfl (fun s t hs ht => ?_) h
  have hcut : s ++ [',', ' '] ++ t = (s ++ [',']) ++ ' ' :: t := by simp
  have hcomma : closes (s ++ [',']) = false := by
    rw [closes_append_cons (by decide) (by decide), hs]
    rfl
  rw [hcut, closes_append_cons (by decide) (by decide), hcomma, ht]
  rfl

end Text

namespace TypeExpr

lemma IsWritten.closes {s : Text} (h : IsWritten s) : closes s = false :=
  closes_of_keepsLines (.of_isWritten h : Writable false s).keepsLines

end TypeExpr

/-! ### Canonical forms -/

/-- A typed payload that does not close the comment is written as one that does not. -/
lemma TypedValue.closes_write {withVariable : Bool} {payload : Text} {v : TypedValue}
    (h : read? .standard withVariable payload = some v) (hp : closes payload = false) :
    closes (v.write .standard) = false := by
  obtain ⟨⟨size, htype⟩, hvar, hdescription, -⟩ := parts_of_read? h
  have htext : closes v.type.text = false := (TypeExpr.wellNamed_of_read? htype).isWritten.closes
  have hfront : closes (v.type.text ++ v.var?.elim [] (' ' :: ·)) = false := by
    cases hv : v.var? with
    | none => simpa using htext
    | some w =>
      rw [Option.elim_some, closes_append_cons (by decide) (by decide), htext,
        closes_eq_false_of_isInfix (hvar w hv).2.1 hp]
      rfl
  rw [write, closes_afterBlank, closes_eq_false_of_isInfix hdescription.isInfix hp, Bool.or_false]
  exact hfront

lemma Signature.closes_write {head : Text} {s : Signature} (h : read? .standard head = some s)
    (hp : closes head = false) : closes (s.write .standard) = false := by
  obtain ⟨htype, -, hmethod, -⟩ := parts_of_read? h
  have hname : closes s.method = false := closes_eq_false_of_isInfix hmethod hp
  have hbody : closes (s.body .standard) = false := by
    cases ht : s.returnType? with
    | none => rwa [body_of_none ht]
    | some t =>
      obtain ⟨text, size, hread⟩ := htype t ht
      rw [body_of_some ht, closes_append_cons (by decide) (by decide), hname, Bool.or_false]
      exact (TypeExpr.wellNamed_of_read? hread).isWritten.closes
  have hstatic : closes ("static".toList ++ ' ' :: s.body .standard) = false := by
    rw [closes_append_cons (by decide) (by decide), hbody]
    rfl
  rw [write_eq]
  split_ifs
  · simpa using hstatic
  · exact hbody

lemma MethodPayload.closes_write {payload : Text} {m : MethodPayload}
    (h : read? .standard payload = some m) (hp : closes payload = false) :
    closes (m.write .standard) = false := by
  obtain ⟨head, params, rest, hsplit, hsignature, hparams, hdescription⟩ := exists_of_read? h
  have hpart : ∀ {s : Text}, s <:+: payload → closes s = false :=
    fun hs => closes_eq_false_of_isInfix hs hp
  have hhead : head <:+: payload := ⟨[], '(' :: (params ++ ')' :: rest), by rw [hsplit]; rfl⟩
  have hpar : params <:+: payload := ⟨head ++ ['('], ')' :: rest, by rw [hsplit]; simp⟩
  have hrest : rest <:+: payload := ⟨head ++ '(' :: (params ++ [')']), [], by rw [hsplit]; simp⟩
  have hfragments : closes ([',', ' '].intercalate (m.params.map (·.text))) = false := by
    refine closes_intercalate fun p hp' => ?_
    obtain ⟨f, hf, rfl⟩ := List.mem_map.1 hp'
    rw [hparams] at hf
    obtain ⟨piece, hpiece, htext⟩ := Fragment.exists_isInfix hf
    rw [htext]
    exact hpart ((trim_isInfix piece).trans (hpiece.trans hpar))
  rw [write, closes_afterBlank, closes_append_cons (by decide) (by decide),
    closes_append_cons (by decide) (by decide), Signature.closes_write hsignature (hpart hhead),
    hfragments, hdescription, hpart ((trim_isInfix rest).trans hrest)]
  rfl

/-- What is written for a payload closes the comment only if the payload does. -/
lemma Rules.IsUsual.closes_write {rules : Rules} (h : rules.IsUsual) {payload : Text} (name : Text)
    (hp : closes payload = false) :
    closes ((rules.resolve name payload).write rules.types) = false := by
  rcases h.resolve_cases name payload with hr | ⟨htypes, ⟨withVariable, v, hv, hr⟩ | ⟨m, hm, hr⟩⟩
  · rw [hr]
    exact hp
  · rw [htypes] at hv
    rw [hr, htypes]
    exact TypedValue.closes_write hv hp
  · rw [htypes] at hm
    rw [hr, htypes]
    exact MethodPayload.closes_write hm hp

end DocComment
