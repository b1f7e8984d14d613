import DocComment.Proofs.Token.Lines

/-!
# The places of tokens in folded text

The tokens that spell a part of a text are the only ones in the bytes of that part. So a part that
has tokens of its own, of which the first and the last are content, is found by its bytes
(`isSome_span?`).
-/

namespace DocComment

open Text Token

namespace Placed

variable {start : Nat} {ps qs : List (Text × Option Nat)}

lemma ofPieces_append (start : Nat) (ps qs : List (Text × Option Nat)) : ofPieces start (ps ++ qs) =
    ofPieces start ps ++ ofPieces (start + byteSize (ps.flatMap (·.1))) qs := by
  induction ps generalizing start with
  | nil => rfl
  | cons p ps ih =>
    obtain ⟨text, _ | index⟩ := p
    · simp [ofPieces, ih, Nat.add_assoc]
    · simp [ofPieces, ih, Nat.add_assoc]

/-- Pieces take the bytes in their order. -/
lemma bounds_of_mem_ofPieces (hne : ∀ p ∈ ps, p.1 ≠ []) {p : Placed} (hp : p ∈ ofPieces start ps) :
    start ≤ p.start ∧ p.start < p.stop ∧ p.stop ≤ start + byteSize (ps.flatMap (·.1)) := by
  induction ps generalizing start with
  | nil => cases hp
  | cons q ps ih =>
    obtain ⟨hq, hps⟩ := List.forall_mem_cons.1 hne
    have hpos : 0 < byteSize q.1 := by
      obtain ⟨c, s, hcons⟩ := List.exists_cons_of_ne_nil hq
      have := c.utf8Size_pos
      rw [hcons, byteSize_cons]
      omega
    have hsize : byteSize ((q :: ps).flatMap (·.1)) =
        byteSize q.1 + byteSize (ps.flatMap (·.1)) := by
      rw [List.flatMap_cons, byteSize_append]
    have hrest : p ∈ ofPieces (start + byteSize q.1) ps →
        start ≤ p.start ∧ p.start < p.stop ∧
          p.stop ≤ start + byteSize ((q :: ps).flatMap (·.1)) := by
      intro hp
      obtain ⟨h₁, h₂, h₃⟩ := ih hps hp
      rw [hsize]
      omega
    obtain ⟨text, _ | index⟩ := q
    · exact hrest hp
    · rw [ofPieces, List.mem_cons] at hp
      rcases hp with rfl | hp
      · dsimp only at hpos ⊢
        rw [hsize]
        dsimp only
        omega
      · exact hrest hp

end Placed

namespace Token.Spells

variable {x s y : Text} {us ts vs : List Token}

lemma piece_ne_nil (h : Spells s ts) {i : Nat} : ∀ p ∈ (ts.zipIdx i).map piece, p.1 ≠ [] := by
  intro p hp
  obtain ⟨⟨t, j⟩, hmem, rfl⟩ := List.mem_map.1 hp
  have ht : t ∈ ts := List.fst_mem_of_mem_zipIdx hmem
  simp only [piece, foldedText]
  split_ifs
  · simp
  · exact h.ne_nil t ht

/-- Just the tokens of a part stand in its bytes. -/
lemma places_eq (hx : Spells x us) (hs : Spells s ts) (hy : Spells y vs) :
    (Placed.ofTokens (us ++ (ts ++ vs))).filter
        (fun p => byteSize x ≤ p.start && p.stop ≤ byteSize x + byteSize s) =
      Placed.ofPieces (byteSize x) ((ts.zipIdx us.length).map piece) := by
  have hall := hx.append (hs.append hy)
  rw [Placed.ofTokens, indexed, foldLines_eq hall.lines (by simp), List.zipIdx_append,
    List.zipIdx_append, List.map_append, List.map_append, Placed.ofPieces_append,
    Placed.ofPieces_append, hx.flatMap_piece, hs.flatMap_piece, List.filter_append,
    List.filter_append, Nat.zero_add, Nat.zero_add]
  have hleft : (Placed.ofPieces 0 ((us.zipIdx 0).map piece)).filter
      (fun p => byteSize x ≤ p.start && p.stop ≤ byteSize x + byteSize s) = [] := by
    rw [List.filter_eq_nil_iff]
    intro p hp
    obtain ⟨-, hlt, hle⟩ := Placed.bounds_of_mem_ofPieces hx.piece_ne_nil hp
    rw [hx.flatMap_piece] at hle
    simp only [Bool.and_eq_true, decide_eq_true_eq]
    omega
  have hmiddle : (Placed.ofPieces (byteSize x) ((ts.zipIdx us.length).map piece)).filter
      (fun p => byteSize x ≤ p.start && p.stop ≤ byteSize x + byteSize s) =
        Placed.ofPieces (byteSize x) ((ts.zipIdx us.length).map piece) := by
    rw [List.filter_eq_self]
    intro p hp
    obtain ⟨hge, -, hle⟩ := Placed.bounds_of_mem_ofPieces hs.piece_ne_nil hp
    rw [hs.flatMap_piece] at hle
    simp only [Bool.and_eq_true, decide_eq_true_eq]
    omega
  have hright : ∀ i, (Placed.ofPieces (byteSize x + byteSize s) ((vs.zipIdx i).map piece)).filter
      (fun p => byteSize x ≤ p.start && p.stop ≤ byteSize x + byteSize s) = [] := by
    intro i
    rw [List.filter_eq_nil_iff]
    intro p hp
    obtain ⟨hge, hlt, -⟩ := Placed.bounds_of_mem_ofPieces hy.piece_ne_nil hp
    simp only [Bool.and_eq_true, decide_eq_true_eq]
    omega
  rw [hleft, hmiddle, hright, List.nil_append, List.append_nil]

/-- A part with content at both ends is found by its bytes. -/
theorem isSome_span? (hx : Spells x us) (hs : Spells s ts) (hy : Spells y vs) (hsolid : Solid ts) :
    (Placed.span? (Placed.ofTokens (us ++ (ts ++ vs))) (byteSize x)
      (byteSize x + byteSize s)).isSome := by
  obtain ⟨t, ts', hcons, ht⟩ := hsolid.exists_cons
  obtain ⟨ts'', u, hconcat, hu⟩ := hsolid.exists_append
  have hfirst : ∃ stop, (Placed.ofPieces (byteSize x) ((ts.zipIdx us.length).map piece)).head? =
      some ⟨us.length, byteSize x, stop⟩ := by
    rw [hcons, List.zipIdx_cons, List.map_cons, piece, if_neg (isContent_iff.1 ht).1]
    exact ⟨_, rfl⟩
  have hlast : ∃ index start, (Placed.ofPieces (byteSize x)
      ((ts.zipIdx us.length).map piece)).getLast? =
        some ⟨index, start, byteSize x + byteSize s⟩ := by
    have hsize := hs.flatMap_piece us.length
    rw [hconcat, List.zipIdx_append, List.map_append, List.zipIdx_singleton, List.map_singleton,
      piece, foldedText, if_neg (isContent_iff.1 hu).1, if_neg (isContent_iff.1 hu).1] at hsize ⊢
    rw [List.flatMap_append] at hsize
    rw [Placed.ofPieces_append, Placed.ofPieces, Placed.ofPieces, List.getLast?_concat, ← hsize,
      byteSize_append, Nat.add_assoc]
    simp
  obtain ⟨stop, hfirst⟩ := hfirst
  obtain ⟨index, start, hlast⟩ := hlast
  simp only [Placed.span?, hx.places_eq hs hy, hfirst, hlast]
  simp

end Token.Spells

end DocComment
