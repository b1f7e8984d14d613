import Mathlib.Data.List.Pairwise
import DocComment.Proofs.Tree.Placed

/-!
# Tokens and the bytes of folded text

The text of a token is kept in folded text unless it is a line break, or a blank behind one
(`Token.keepsText`), and the places of folded text are those of the tokens that keep theirs
(`Placed.mem_ofTokens_iff`). So bytes have a span if they begin and end with such tokens
(`Placed.isSome_span?_iff`), and the tokens of the span fold to just these bytes
(`Placed.slice?_of_span?`).
-/

namespace DocComment

open Text

namespace Token

/-! ### Folding behind other tokens -/

/-- Whether blanks are dropped behind these tokens, given whether they are in front of them. -/
def startsLine (b : Bool) : List Token → Bool
  | [] => b
  | t :: ts => startsLine (t.kind = .lineBreak || (b && t.kind = .blank)) ts

/-- Whether a token keeps its text where a line starts, or does not. -/
def keepsText (b : Bool) (t : Token) : Bool := t.kind ≠ .lineBreak && !(b && t.kind = .blank)

/-- The folded text of tokens where a line starts, or does not. -/
def foldedFrom (b : Bool) (ts : List Token) : Text := (foldLines b (indexed ts)).flatMap (·.1)

variable {b : Bool} {t u : Token} {ts us vs ws : List Token}

lemma folded_eq_foldedFrom (ts : List Token) : folded ts = foldedFrom false ts := rfl

lemma foldLines_append (b : Bool) (us vs : List Token) (i : Nat) :
    foldLines b ((us ++ vs).zipIdx i) =
      foldLines b (us.zipIdx i) ++ foldLines (startsLine b us) (vs.zipIdx (i + us.length)) := by
  induction us generalizing b i with
  | nil => rfl
  | cons t us ih =>
    have hlen : i + (t :: us).length = i + 1 + us.length := by
      rw [List.length_cons]
      omega
    rw [List.cons_append, List.zipIdx_cons, List.zipIdx_cons, hlen, startsLine]
    cases hk : t.kind <;> cases b <;> simp [foldLines, hk, ih]

lemma foldedFrom_append (b : Bool) (us vs : List Token) :
    foldedFrom b (us ++ vs) = foldedFrom b us ++ foldedFrom (startsLine b us) vs := by
  rw [foldedFrom, indexed, foldLines_append, List.flatMap_append, flatMap_foldLines_zipIdx _ vs]
  rfl

lemma foldLines_cons (h : keepsText b t) (ts : List Token) (i : Nat) :
    foldLines b ((t :: ts).zipIdx i) = (t.text, some i) :: foldLines false (ts.zipIdx (i + 1)) := by
  rw [List.zipIdx_cons]
  cases hk : t.kind <;> cases b <;> simp_all [foldLines, keepsText]

lemma foldedFrom_cons (h : keepsText b t) (ts : List Token) :
    foldedFrom b (t :: ts) = t.text ++ folded ts := by
  rw [foldedFrom, indexed, foldLines_cons h, List.flatMap_cons, flatMap_foldLines_zipIdx]
  rfl

lemma keepsText_false (h : keepsText b t) : keepsText false t := by
  simp only [keepsText, Bool.and_eq_true] at h ⊢
  exact ⟨h.1, rfl⟩

lemma folded_append_cons (h : keepsText (startsLine false us) t) (vs : List Token) :
    folded (us ++ t :: vs) = folded us ++ (t.text ++ folded vs) := by
  rw [folded_eq_foldedFrom, foldedFrom_append, foldedFrom_cons h]
  rfl

lemma folded_concat (h : keepsText (startsLine false us) t) :
    folded (us ++ [t]) = folded us ++ t.text := by
  rw [folded_append_cons h]
  exact congrArg _ (List.append_nil _)

/-! ### The size of folded text -/

lemma isPrefix_folded (h : us <+: vs) : folded us <+: folded vs := by
  obtain ⟨ws, rfl⟩ := h
  rw [folded_eq_foldedFrom, folded_eq_foldedFrom, foldedFrom_append]
  exact List.prefix_append _ _

/-- Of two starts of some tokens the one with the larger folded text is longer. -/
lemma length_lt_of_byteSize_lt (hu : us <+: ts) (hv : vs <+: ts)
    (h : byteSize (folded us) < byteSize (folded vs)) : us.length < vs.length := by
  by_contra hle
  obtain ⟨r, hr⟩ := isPrefix_folded (List.prefix_of_prefix_length_le hv hu (Nat.not_lt.1 hle))
  rw [← hr, byteSize_append] at h
  omega

lemma byteSize_pos (h : t.text ≠ []) : 0 < byteSize t.text :=
  Nat.pos_of_ne_zero fun hzero => h (byteSize_eq_zero.1 hzero)

end Token

open Token

/-! ### Places -/

namespace Placed

variable {b : Bool} {ts : List Token} {p q : Placed} {start stop i : Nat} {s : Span}

/-- The places of folded text are those of the tokens that keep their text. -/
lemma mem_ofPieces_iff : p ∈ ofPieces start (foldLines b (ts.zipIdx i)) ↔ ∃ us t vs,
    ts = us ++ t :: vs ∧ keepsText (startsLine b us) t ∧
      p = ⟨i + us.length, start + byteSize (foldedFrom b us),
        start + byteSize (foldedFrom b us) + byteSize t.text⟩ := by
  induction ts generalizing b start i with
  | nil => simp [foldLines, ofPieces]
  | cons t ts ih =>
    have hsplit : ofPieces start (foldLines b ((t :: ts).zipIdx i)) =
        ofPieces start (foldLines b ([t].zipIdx i)) ++
          ofPieces (start + byteSize (foldedFrom b [t]))
            (foldLines (startsLine b [t]) (ts.zipIdx (i + 1))) := by
      rw [← List.singleton_append, foldLines_append, ofPieces_append, flatMap_foldLines_zipIdx]
      rfl
    have hhead : p ∈ ofPieces start (foldLines b ([t].zipIdx i)) ↔
        keepsText b t ∧ p = ⟨i, start, start + byteSize t.text⟩ := by
      rw [List.zipIdx_singleton]
      cases hk : t.kind <;> cases b <;> simp [foldLines, ofPieces, keepsText, hk]
    have hplace : ∀ us : List Token, i + 1 + us.length = i + (t :: us).length ∧
        start + byteSize (foldedFrom b [t]) + byteSize (foldedFrom (startsLine b [t]) us) =
          start + byteSize (foldedFrom b (t :: us)) := by
      intro us
      rw [← List.singleton_append (l := us), foldedFrom_append, byteSize_append,
        Nat.add_assoc start, List.length_append, List.length_singleton, Nat.add_assoc i]
      exact ⟨rfl, rfl⟩
    rw [hsplit, List.mem_append, hhead, ih]
    constructor
    · rintro (⟨hkeeps, rfl⟩ | ⟨us, u, vs, rfl, hkeeps, rfl⟩)
      · exact ⟨[], t, ts, rfl, hkeeps, rfl⟩
      · refine ⟨t :: us, u, vs, rfl, hkeeps, ?_⟩
        rw [(hplace us).1, (hplace us).2]
    · rintro ⟨us, u, vs, hts, hkeeps, rfl⟩
      cases us with
      | nil =>
        obtain ⟨rfl, rfl⟩ := List.cons.inj hts
        exact .inl ⟨hkeeps, rfl⟩
      | cons v us =>
        obtain ⟨rfl, rfl⟩ := List.cons.inj hts
        refine .inr ⟨us, u, vs, rfl, hkeeps, ?_⟩
        rw [(hplace us).1, (hplace us).2]

lemma mem_ofTokens_iff : p ∈ ofTokens ts ↔ ∃ us t vs, ts = us ++ t :: vs ∧
    keepsText (startsLine false us) t ∧
      p = ⟨us.length, byteSize (folded us), byteSize (folded (us ++ [t]))⟩ := by
  rw [ofTokens, indexed, mem_ofPieces_iff]
  refine exists_congr fun us => exists_congr fun t => exists_congr fun vs => ?_
  refine and_congr_right fun _ => and_congr_right fun hkeeps => ?_
  rw [folded_concat hkeeps, byteSize_append, Nat.zero_add, Nat.zero_add]
  rfl

lemma pairwise_ofPieces {ps : List (Text × Option Nat)} (hne : ∀ p ∈ ps, p.1 ≠ []) :
    (ofPieces start ps).Pairwise fun p q => p.stop ≤ q.start := by
  induction ps generalizing start with
  | nil => exact List.Pairwise.nil
  | cons p ps ih =>
    obtain ⟨-, hps⟩ := List.forall_mem_cons.1 hne
    obtain ⟨text, _ | index⟩ := p
    · exact ih hps
    · exact List.pairwise_cons.2 ⟨fun q hq => (bounds_of_mem_ofPieces hps hq).1, ih hps⟩

/-- A span is that of the bytes from one place up to the end of another. -/
lemma exists_of_span? {ps : List Placed} (h : span? ps start stop = some s) : ∃ p ∈ ps, ∃ q ∈ ps,
    p.start = start ∧ q.stop = stop ∧ start ≤ q.start ∧ s = ⟨p.index, q.index + 1⟩ := by
  unfold span? at h
  dsimp only at h
  split at h
  · next first last hfirst hlast =>
    split_ifs at h with heq
    · rw [Bool.and_eq_true, decide_eq_true_eq, decide_eq_true_eq] at heq
      obtain ⟨hfirst, -⟩ := List.mem_filter.1 (List.mem_of_head? hfirst)
      obtain ⟨hlast, hinside⟩ := List.mem_filter.1 (List.mem_of_getLast? hlast)
      rw [Bool.and_eq_true, decide_eq_true_eq] at hinside
      exact ⟨first, hfirst, last, hlast, heq.1, heq.2, hinside.1, (Option.some.inj h).symm⟩
  · cases h

section

variable (hne : ∀ t ∈ ts, t.text ≠ [])

include hne

lemma piece_ne_nil : ∀ p ∈ foldLines b (ts.zipIdx i), p.1 ≠ [] := by
  induction ts generalizing b i with
  | nil => simp [foldLines]
  | cons t ts ih =>
    obtain ⟨ht, hts⟩ := List.forall_mem_cons.1 hne
    have hrest := fun b => @ih b (i + 1) hts
    rw [List.zipIdx_cons, foldLines]
    split
    · exact List.forall_mem_cons.2 ⟨List.cons_ne_nil _ _, hrest true⟩
    · split_ifs
      · exact hrest true
      · exact List.forall_mem_cons.2 ⟨ht, hrest false⟩
    · exact List.forall_mem_cons.2 ⟨ht, hrest false⟩

lemma start_lt_stop (hp : p ∈ ofTokens ts) : p.start < p.stop :=
  (bounds_of_mem_ofPieces (piece_ne_nil hne) hp).2.1

/-! ### Spans -/

/-- Bytes have a span if they begin and end with tokens. -/
theorem isSome_span?_iff : (span? (ofTokens ts) start stop).isSome ↔
    start < stop ∧ (∃ p ∈ ofTokens ts, p.start = start) ∧ ∃ p ∈ ofTokens ts, p.stop = stop := by
  have hsorted : (ofTokens ts).Pairwise fun p q => p.stop ≤ q.start :=
    pairwise_ofPieces (piece_ne_nil hne)
  have hlt : ∀ p ∈ ofTokens ts, p.start < p.stop := fun p => start_lt_stop hne
  generalize ofTokens ts = ps at hsorted hlt
  constructor
  · intro h
    obtain ⟨s, hs⟩ := Option.isSome_iff_exists.1 h
    obtain ⟨p, hp, q, hq, rfl, rfl, hle, -⟩ := exists_of_span? hs
    exact ⟨hle.trans_lt (hlt q hq), ⟨p, hp, rfl⟩, q, hq, rfl⟩
  · rintro ⟨hlt', ⟨p, hp, rfl⟩, q, hq, rfl⟩
    have hinside := hsorted.filter (fun r => p.start ≤ r.start && r.stop ≤ q.stop)
    have hmem : ∀ r, r ∈ ps.filter (fun r => p.start ≤ r.start && r.stop ≤ q.stop) ↔
        r ∈ ps ∧ p.start ≤ r.start ∧ r.stop ≤ q.stop := by
      simp
    unfold span?
    generalize ps.filter (fun r => p.start ≤ r.start && r.stop ≤ q.stop) = inside at hinside hmem
    have hp' := hlt p hp
    have hq' := hlt q hq
    -- Of two places one is in front of the other, so both are inside.
    have hpq : p = q ∨ p.stop ≤ q.start ∨ q.stop ≤ p.start := by
      have : Std.Symm fun p q : Placed => p.stop ≤ q.start ∨ q.stop ≤ p.start :=
        ⟨fun _ _ => Or.symm⟩
      have hapart : ps.Pairwise fun p q => p.stop ≤ q.start ∨ q.stop ≤ p.start :=
        hsorted.imp .inl
      exact or_iff_not_imp_left.2 fun hne' => hapart.forall hp hq hne'
    have hpin : p ∈ inside := by
      refine (hmem p).2 ⟨hp, le_rfl, ?_⟩
      rcases hpq with rfl | h | h <;> omega
    have hqin : q ∈ inside := by
      refine (hmem q).2 ⟨hq, ?_, le_rfl⟩
      rcases hpq with rfl | h | h <;> omega
    obtain ⟨first, rest, hcons⟩ := List.exists_cons_of_ne_nil (List.ne_nil_of_mem hpin)
    obtain ⟨init, last, hconcat⟩ :=
      (List.eq_nil_or_concat' inside).resolve_left (List.ne_nil_of_mem hqin)
    have hfirst : first.start = p.start := by
      have hfirst := (hmem first).1 (by simp [hcons])
      have := hlt first hfirst.1
      rw [hcons] at hinside hpin
      rcases List.mem_cons.1 hpin with rfl | hp
      · rfl
      · have := List.rel_of_pairwise_cons hinside hp
        omega
    have hlast : last.stop = q.stop := by
      have hlast := (hmem last).1 (by simp [hconcat])
      have := hlt last hlast.1
      rw [hconcat] at hinside hqin
      rcases List.mem_append.1 hqin with hq | hq
      · have := (List.pairwise_append.1 hinside).2.2 q hq last List.mem_cons_self
        omega
      · rw [List.mem_singleton.1 hq]
    have hhead : inside.head? = some first := by rw [hcons, List.head?_cons]
    have hgetLast : inside.getLast? = some last := by rw [hconcat, List.getLast?_concat]
    simp [hhead, hgetLast, hfirst, hlast]

/-- The tokens of a span begin with one that keeps its text, and fold to the bytes of the span. -/
lemma exists_tokens_of_span? (h : span? (ofTokens ts) start stop = some s) :
    ∃ (us : List Token) (t : Token) (body vs : List Token), ts = us ++ t :: body ++ vs ∧
      keepsText (startsLine false us) t ∧ s = ⟨us.length, (us ++ t :: body).length⟩ ∧
      start = byteSize (folded us) ∧ stop = byteSize (folded (us ++ t :: body)) ∧
      folded (us ++ t :: body) = folded us ++ folded (t :: body) := by
  obtain ⟨p, hp, q, hq, rfl, rfl, hle, rfl⟩ := exists_of_span? h
  have hlt := hle.trans_lt (start_lt_stop hne hq)
  obtain ⟨us, t, vs, hts, hkeeps, rfl⟩ := mem_ofTokens_iff.1 hp
  obtain ⟨us', t', vs', hts', -, rfl⟩ := mem_ofTokens_iff.1 hq
  have hprefix : us <+: ts := ⟨t :: vs, hts.symm⟩
  have hprefix' : us' ++ [t'] <+: ts := ⟨vs', by simp [hts']⟩
  have hlen := length_lt_of_byteSize_lt hprefix hprefix' hlt
  obtain ⟨body, hbody⟩ := List.prefix_of_prefix_length_le hprefix hprefix' hlen.le
  obtain ⟨u, body, rfl⟩ := List.exists_cons_of_ne_nil (l := body) fun hnil => by
    rw [← hbody, hnil, List.append_nil] at hlen
    exact Nat.lt_irrefl _ hlen
  have hsplit : ts = us ++ u :: body ++ vs' := by
    rw [hbody, hts']
    simp
  obtain ⟨rfl, -⟩ : t = u ∧ vs = body ++ vs' := by
    rw [hsplit, List.append_assoc, List.cons_append] at hts
    exact (List.cons.inj (List.append_cancel_left hts)).imp Eq.symm Eq.symm
  refine ⟨us, t, body, vs', hsplit, hkeeps, ?_, rfl, by rw [hbody], ?_⟩
  · rw [hbody, List.length_append, List.length_singleton]
  · rw [folded_append_cons hkeeps, folded_eq_foldedFrom (t :: body),
      foldedFrom_cons (keepsText_false hkeeps)]

/-- The tokens of a span fold to the bytes that the span was found for. -/
theorem slice?_of_span? (h : span? (ofTokens ts) start stop = some s) :
    slice? start stop (folded ts) = some (folded (s.tokens ts)) ∧ s.start < s.stop ∧
      s.stop ≤ ts.length := by
  obtain ⟨us, t, body, vs, rfl, -, rfl, rfl, rfl, hfolded⟩ := exists_tokens_of_span? hne h
  have htokens : Span.tokens ⟨us.length, (us ++ t :: body).length⟩ (us ++ t :: body ++ vs) =
      t :: body := by
    rw [Span.tokens, List.append_assoc, List.drop_left, List.length_append, Nat.add_sub_cancel_left,
      List.take_left]
  refine ⟨slice?_eq_some_iff.2 ⟨folded us, foldedFrom (startsLine false (us ++ t :: body)) vs, ?_,
    rfl, ?_⟩, by simp, by simp⟩
  · rw [htokens, ← hfolded, folded_eq_foldedFrom, foldedFrom_append]
    rfl
  · rw [htokens, hfolded]

/-- Bytes behind others have a span behind theirs. -/
theorem stop_le_start_of_span? {start' stop' : Nat} {s' : Span}
    (h : span? (ofTokens ts) start stop = some s)
    (h' : span? (ofTokens ts) start' stop' = some s') (hle : stop ≤ start') :
    s.stop ≤ s'.start := by
  obtain ⟨us, t, body, vs, hts, -, rfl, -, rfl, -⟩ := exists_tokens_of_span? hne h
  obtain ⟨us', u, body', vs', hts', hkeeps, rfl, rfl, -, -⟩ := exists_tokens_of_span? hne h'
  have hlt : byteSize (folded (us ++ t :: body)) < byteSize (folded (us' ++ [u])) := by
    have := byteSize_pos (hne u (by simp [hts']))
    rw [folded_concat hkeeps, byteSize_append]
    omega
  have hlen := length_lt_of_byteSize_lt ⟨vs, hts.symm⟩ ⟨body' ++ vs', by simp [hts']⟩ hlt
  have hconcat : (us' ++ [u]).length = us'.length + 1 := by simp
  rw [hconcat] at hlen
  exact Nat.le_of_lt_succ hlen

end

end Placed

end DocComment
