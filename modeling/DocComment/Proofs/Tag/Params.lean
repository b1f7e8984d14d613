import DocComment.Proofs.Tag.Method

/-!
# Parameters that are split and joined

Parameters are split at the commas that stand where as many brackets have been opened as closed. The
pieces have no such commas (`Text.arePieces_splitParams`), and are split again where they are joined
(`Text.splitParams_intercalate`). So the fragments of a method that are written are split as they
were (`Fragment.map_text_written`).
-/

namespace DocComment

open Text

namespace Text

variable {s p r : Text} {depth : Int}

/-- Whether no comma stands where as many brackets have been opened as closed, with `depth` more
opened in front of the text. -/
def keepsCommas : (depth : Int) → Text → Bool
  | _, [] => true
  | depth, c :: s => !decide (c = ',' ∧ depth = 0) && keepsCommas (depth + bracketStep c) s

/-- How many more brackets a text opens than it closes. -/
def steps : Text → Int
  | [] => 0
  | c :: s => bracketStep c + steps s

lemma steps_append (s t : Text) : steps (s ++ t) = steps s + steps t := by
  induction s with
  | nil => simp [steps]
  | cons c s ih =>
    rw [List.cons_append, steps, steps, ih]
    omega

lemma keepsCommas_append (s t : Text) :
    keepsCommas depth (s ++ t) = (keepsCommas depth s && keepsCommas (depth + steps s) t) := by
  induction s generalizing depth with
  | nil => simp [keepsCommas, steps]
  | cons c s ih =>
    rw [List.cons_append, keepsCommas, keepsCommas, ih, steps, Bool.and_assoc, Int.add_assoc]

/-- White space is neither a comma nor a bracket. -/
lemma steps_of_isWhiteSpace (h : ∀ c ∈ s, isWhiteSpace c) : steps s = 0 := by
  induction s with
  | nil => rfl
  | cons c s ih =>
    obtain ⟨hc, hs⟩ := List.forall_mem_cons.1 h
    have hne : ∀ d, isWhiteSpace d = false → c ≠ d := by
      rintro d hd rfl
      rw [hc] at hd
      cases hd
    rw [steps, ih hs, bracketStep]
    simp [hne '(' rfl, hne '<' rfl, hne '[' rfl, hne '\x7b' rfl, hne ')' rfl, hne '>' rfl,
      hne ']' rfl, hne '\x7d' rfl]

lemma keepsCommas_trim (h : keepsCommas depth p) :
    keepsCommas depth (trim p) ∧ steps (trim p) = steps p := by
  obtain ⟨r, hp, hr, -⟩ := exists_trim p
  have hl : steps (p.takeWhile isWhiteSpace) = 0 :=
    steps_of_isWhiteSpace fun c hc => List.mem_takeWhile_imp hc
  rw [hp, keepsCommas_append, keepsCommas_append, hl, Int.add_zero, Bool.and_eq_true,
    Bool.and_eq_true] at h
  refine ⟨h.1.2, ?_⟩
  conv_rhs => rw [hp, steps_append, steps_append, hl, steps_of_isWhiteSpace hr]
  omega

/-- Pieces that are split from each other: in front of every comma between them as many brackets
have been opened as closed. -/
def ArePieces : (depth : Int) → List Text → Prop
  | _, [] => True
  | depth, p :: ps => keepsCommas depth p ∧ (ps = [] ∨ depth + steps p = 0) ∧ ArePieces 0 ps

lemma arePieces_splitParams (depth : Int) (s : Text) : ArePieces depth (splitParams depth s) := by
  induction s generalizing depth with
  | nil => exact ⟨rfl, .inl rfl, trivial⟩
  | cons c s ih =>
    rw [splitParams_cons]
    split_ifs with hc
    · obtain ⟨-, rfl⟩ := hc
      exact ⟨rfl, .inr rfl, ih 0⟩
    · obtain ⟨piece, pieces, hpieces⟩ := List.exists_cons_of_ne_nil
        (splitParams_ne_nil (depth + bracketStep c) s)
      have ih' := ih (depth + bracketStep c)
      rw [hpieces] at ih' ⊢
      obtain ⟨hpiece, hlast, hrest⟩ := ih'
      refine ⟨?_, hlast.imp_right fun h => ?_, hrest⟩
      · rw [keepsCommas, hpiece, Bool.and_true, Bool.not_eq_true', decide_eq_false_iff_not]
        exact hc
      · rw [steps, ← Int.add_assoc, h]

lemma splitParams_append (hp : keepsCommas depth p) (hdepth : depth + steps p = 0) (s : Text) :
    splitParams depth (p ++ ',' :: s) = p :: splitParams 0 s := by
  induction p generalizing depth with
  | nil =>
    obtain rfl : depth = 0 := by simpa [steps] using hdepth
    rw [List.nil_append, splitParams_cons, if_pos ⟨rfl, rfl⟩]
  | cons c p ih =>
    rw [keepsCommas, Bool.and_eq_true, Bool.not_eq_true', decide_eq_false_iff_not] at hp
    rw [List.cons_append, splitParams_cons, if_neg hp.1,
      ih hp.2 (by rwa [steps, ← Int.add_assoc] at hdepth)]

lemma splitParams_eq (hp : keepsCommas depth p) : splitParams depth p = [p] := by
  induction p generalizing depth with
  | nil => rfl
  | cons c p ih =>
    rw [keepsCommas, Bool.and_eq_true, Bool.not_eq_true', decide_eq_false_iff_not] at hp
    rw [splitParams_cons, if_neg hp.1, ih hp.2]

/-- Pieces are split where they were joined. -/
lemma splitParams_intercalate {ps : List Text} (hne : ps ≠ []) (h : ArePieces depth ps) :
    splitParams depth ([','].intercalate ps) = ps := by
  induction ps generalizing depth with
  | nil => exact absurd rfl hne
  | cons p ps ih =>
    obtain ⟨hp, hlast, hps⟩ := h
    cases ps with
    | nil => rw [List.intercalate_singleton, splitParams_eq hp]
    | cons q ps =>
      have hdepth := hlast.resolve_left (List.cons_ne_nil q ps)
      rw [List.intercalate_cons_cons, List.append_assoc, List.singleton_append,
        splitParams_append hp hdepth, ih (List.cons_ne_nil q ps) hps]

end Text

namespace Fragment

lemma map_text_ofPieces (start : Nat) (pieces : List Text) :
    (ofPieces start pieces).map (·.text) = (pieces.map trim).filter (· ≠ []) := by
  induction pieces generalizing start with
  | nil => rfl
  | cons piece pieces ih =>
    have hpiece : (ofPiece? start piece).toList.map (·.text) = [trim piece].filter (· ≠ []) := by
      unfold ofPiece?
      split
      · next h => simp [h]
      · next h =>
        rw [List.filter_cons_of_pos (by simpa using h)]
        rfl
    rw [ofPieces_cons, List.map_append, ih, hpiece, List.map_cons, ← List.filter_append]
    rfl

/-- Trimmed pieces of which the empty ones are dropped are pieces. -/
lemma arePieces_filter_trim {ps : List Text} {depth : Int} (h : ArePieces depth ps)
    (hdepth : depth = 0) : ArePieces 0 ((ps.map trim).filter (· ≠ [])) := by
  subst hdepth
  induction ps with
  | nil => trivial
  | cons p ps ih =>
    obtain ⟨hp, hlast, hps⟩ := h
    obtain ⟨htrim, hsteps⟩ := keepsCommas_trim hp
    rw [List.map_cons]
    by_cases hnil : trim p = []
    · rw [List.filter_cons_of_neg (by simpa using hnil)]
      exact ih hps
    · rw [List.filter_cons_of_pos (by simpa using hnil)]
      refine ⟨htrim, ?_, ih hps⟩
      rcases hlast with rfl | hlast
      · exact .inl rfl
      · exact .inr (hsteps ▸ hlast)

/-- Texts that are joined with a comma and a space are joined with a comma, a space in front of
each. -/
lemma intercalate_comma_space (f : Text) (fs : List Text) :
    [',', ' '].intercalate (f :: fs) = [','].intercalate (f :: fs.map (' ' :: ·)) := by
  rw [intercalate_cons, intercalate_cons, List.flatMap_map]
  rfl

lemma arePieces_map_space {fs : List Text} (h : ArePieces 0 fs) :
    ArePieces 0 (fs.map (' ' :: ·)) := by
  induction fs with
  | nil => trivial
  | cons f fs ih =>
    obtain ⟨hf, hlast, hfs⟩ := h
    have hsteps : steps (' ' :: f) = steps f := by
      rw [steps]
      exact Int.zero_add _
    refine ⟨hf, ?_, ih hfs⟩
    rw [List.map_eq_nil_iff, hsteps]
    exact hlast

/-- Fragments that are written again are split as they were. -/
theorem map_text_written (start start' : Nat) (params : Text) :
    let fragments := (ofPieces start (splitParams 0 params)).map (·.text)
    (ofPieces start' (splitParams 0 ([',', ' '].intercalate fragments))).map (·.text) =
      fragments := by
  intro fragments
  have hpieces : ArePieces 0 fragments := by
    rw [show fragments = _ from map_text_ofPieces start _]
    exact arePieces_filter_trim (arePieces_splitParams 0 params) rfl
  have htrim : ∀ f ∈ fragments, trim f = f ∧ f ≠ [] := by
    rw [show fragments = _ from map_text_ofPieces start _]
    intro f hf
    obtain ⟨hmem, hne⟩ := List.mem_filter.1 hf
    obtain ⟨p, -, rfl⟩ := List.mem_map.1 hmem
    obtain ⟨-, -, -, hhead, hlast⟩ := exists_trim p
    exact ⟨trim_eq hhead hlast, by simpa using hne⟩
  generalize fragments = fs at hpieces htrim
  rw [map_text_ofPieces]
  cases fs with
  | nil => rfl
  | cons f fs =>
    obtain ⟨hf, hlast, hfs⟩ := hpieces
    obtain ⟨⟨hft, hfne⟩, hall⟩ := List.forall_mem_cons.1 htrim
    have hspaced : ArePieces 0 (f :: fs.map (' ' :: ·)) :=
      ⟨hf, hlast.imp_left fun h => by rw [h]; rfl, arePieces_map_space hfs⟩
    rw [intercalate_comma_space, splitParams_intercalate (List.cons_ne_nil _ _) hspaced,
      List.map_cons, List.map_map, hft, List.filter_cons_of_pos (by simpa using hfne)]
    congr 1
    -- The space in front is trimmed away.
    have hmap : fs.map (trim ∘ (' ' :: ·)) = fs.map id :=
      List.map_congr_left fun g hg => (hall g hg).1
    rw [hmap, List.map_id]
    exact List.filter_eq_self.2 fun g hg => by simpa using (hall g hg).2

end Fragment

end DocComment
