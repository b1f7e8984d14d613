import DocComment.Proofs.Text.Slice
import DocComment.Token

/-!
# What tokens are cut from

Cutting a text into tokens loses nothing: the texts of the tokens join to the whole text
(`source_scan`), and every token starts at the byte at which the one before it ends
(`consecutive_scan`). So tokens that follow each other take the bytes from the start of the first up
to the end of the last (`slice_source`).
-/

namespace DocComment

open Text

namespace Token

/-! ### One token -/

lemma isPrefix_decoration (s : Text) : decoration s <+: s := by
  have h : decoration s = s.takeWhile isBlank ++ [] ∨
      ∃ t, t <+: s.dropWhile isBlank ∧ decoration s = s.takeWhile isBlank ++ t := by
    unfold decoration
    split
    · exact .inl rfl
    · next heq => exact .inr ⟨_, by rw [heq]; simp, rfl⟩
    · next heq => exact .inr ⟨_, by rw [heq]; simp, rfl⟩
    · exact .inl rfl
  rcases h with h | ⟨t, ht, h⟩
  · rw [h, List.append_nil]
    exact List.takeWhile_prefix _
  · rw [h]
    conv_rhs => rw [← List.takeWhile_append_dropWhile (p := isBlank) (l := s)]
    exact (List.prefix_append_right_inj _).2 ht

lemma isPrefix_plain (s : Text) : plain s <+: s := by
  induction s with
  | nil => exact List.prefix_refl _
  | cons c s ih =>
    rw [plain]
    split_ifs
    · exact List.nil_prefix
    · exact List.cons_prefix_cons.2 ⟨rfl, ih⟩

/-- A token takes the text in front of it. -/
lemma isPrefix_next (afterMarker : Bool) (c : Char) (cs : Text) :
    (next afterMarker c cs).2 <+: cs := by
  unfold next
  split
  · exact List.cons_prefix_cons.2 ⟨rfl, List.nil_prefix⟩
  · exact List.cons_prefix_cons.2 ⟨rfl, isPrefix_decoration _⟩
  · exact isPrefix_decoration _
  · split_ifs
    · exact List.takeWhile_prefix _
    · exact List.nil_prefix
    · exact List.takeWhile_prefix _
    · exact List.takeWhile_prefix _
    · exact List.nil_prefix
    · exact isPrefix_plain _

lemma next_append (afterMarker : Bool) (c : Char) (cs : Text) :
    (next afterMarker c cs).2 ++ cs.drop (next afterMarker c cs).2.length = cs :=
  (List.prefix_iff_eq_append.1 (isPrefix_next afterMarker c cs))

/-! ### All tokens -/

@[simp] lemma source_nil : source [] = [] := rfl

@[simp] lemma source_cons (t : Token) (ts : List Token) :
    source (t :: ts) = t.text ++ source ts := rfl

@[simp] lemma source_append (ts us : List Token) : source (ts ++ us) = source ts ++ source us :=
  List.flatMap_append

@[simp] lemma scanFrom_nil (afterMarker : Bool) (start : Nat) :
    scanFrom afterMarker start [] = [] := by
  rw [scanFrom]

lemma scanFrom_cons (afterMarker : Bool) (start : Nat) (c : Char) (cs : Text) :
    scanFrom afterMarker start (c :: cs) =
      ⟨(next afterMarker c cs).1, c :: (next afterMarker c cs).2, start⟩ ::
        scanFrom ((next afterMarker c cs).1 = .marker)
          (start + byteSize (c :: (next afterMarker c cs).2))
          (cs.drop (next afterMarker c cs).2.length) := by
  rw [scanFrom]

/-- What holds of a text if it holds of the text after its first token holds of all texts. -/
lemma scan_induction {P : Bool → Text → Prop} (nil : ∀ afterMarker, P afterMarker [])
    (cons : ∀ afterMarker c cs,
      P ((next afterMarker c cs).1 = .marker) (cs.drop (next afterMarker c cs).2.length) →
      P afterMarker (c :: cs)) (afterMarker : Bool) (s : Text) : P afterMarker s := by
  induction hn : s.length using Nat.strongRecOn generalizing afterMarker s with
  | ind n ih =>
    cases s with
    | nil => exact nil afterMarker
    | cons c cs =>
      refine cons afterMarker c cs (ih _ ?_ _ _ rfl)
      rw [List.length_cons] at hn
      rw [List.length_drop]
      omega

@[simp] lemma source_scanFrom (afterMarker : Bool) (start : Nat) (s : Text) :
    source (scanFrom afterMarker start s) = s := by
  induction afterMarker, s using scan_induction generalizing start with
  | nil afterMarker => simp
  | cons afterMarker c cs ih => rw [scanFrom_cons, source_cons, ih, List.cons_append, next_append]

/-- Every token is the next one somewhere in the text. -/
lemma mem_scanFrom {t : Token} {am : Bool} {start : Nat} {s : Text} (h : t ∈ scanFrom am start s) :
    ∃ am c s', t.kind = (next am c s').1 ∧ t.text = c :: (next am c s').2 := by
  induction am, s using scan_induction generalizing start with
  | nil am => simp at h
  | cons am c s ih =>
    rw [scanFrom_cons, List.mem_cons] at h
    rcases h with rfl | h
    · exact ⟨am, c, s, rfl, rfl⟩
    · exact ih h

lemma text_ne_nil_of_mem_scanFrom {t : Token} {am : Bool} {start : Nat} {s : Text}
    (h : t ∈ scanFrom am start s) : t.text ≠ [] := by
  obtain ⟨am, c, s, -, htext⟩ := mem_scanFrom h
  simp [htext]

/-- Each token starts where the one before it ends, the first at byte `start`. -/
def Consecutive : (start : Nat) → List Token → Prop
  | _, [] => True
  | start, t :: ts => t.start = start ∧ Consecutive t.stop ts

lemma consecutive_scanFrom (afterMarker : Bool) (start : Nat) (s : Text) :
    Consecutive start (scanFrom afterMarker start s) := by
  induction afterMarker, s using scan_induction generalizing start with
  | nil afterMarker => simp [Consecutive]
  | cons afterMarker c cs ih =>
    rw [scanFrom_cons]
    exact ⟨rfl, ih _⟩

/-- A comment starts with the opening delimiter, or else is cut like any text. -/
lemma scan_cases (s : Text) :
    (∃ stars : Text, (stars = ['*', '*'] ∨ stars = ['*']) ∧ ∃ rest, s = '/' :: stars ++ rest ∧
      scan s = ⟨.opening, '/' :: stars, 0⟩ :: scanFrom false (1 + stars.length) rest) ∨
    scan s = scanFrom false 0 s := by
  unfold scan
  split
  · next rest => exact .inl ⟨['*', '*'], .inl rfl, rest, rfl, rfl⟩
  · next rest _ => exact .inl ⟨['*'], .inr rfl, rest, rfl, rfl⟩
  · exact .inr rfl

lemma text_ne_nil_of_mem_scan {s : Text} : ∀ t ∈ scan s, t.text ≠ [] := by
  intro t ht
  rcases scan_cases s with ⟨stars, -, rest, -, h⟩ | h
  · rw [h, List.mem_cons] at ht
    rcases ht with rfl | ht
    · exact List.cons_ne_nil _ _
    · exact text_ne_nil_of_mem_scanFrom ht
  · exact text_ne_nil_of_mem_scanFrom (h ▸ ht)

/-- Nothing of a comment is lost. -/
@[simp] theorem source_scan (s : Text) : source (scan s) = s := by
  rcases scan_cases s with ⟨stars, -, rest, hs, h⟩ | h
  · rw [h, source_cons, source_scanFrom, hs]
  · rw [h, source_scanFrom]

theorem consecutive_scan (s : Text) : Consecutive 0 (scan s) := by
  rcases scan_cases s with ⟨stars, hstars, rest, -, h⟩ | h
  · rw [h]
    refine ⟨rfl, ?_⟩
    rcases hstars with rfl | rfl <;> exact consecutive_scanFrom _ _ _
  · rw [h]
    exact consecutive_scanFrom _ _ _

/-! ### The bytes of tokens -/

lemma consecutive_append {start : Nat} {ts us : List Token} :
    Consecutive start (ts ++ us) ↔
      Consecutive start ts ∧ Consecutive (start + byteSize (source ts)) us := by
  induction ts generalizing start with
  | nil => simp [Consecutive]
  | cons t ts ih =>
    simp only [List.cons_append, Consecutive, ih, and_assoc, source_cons, byteSize_append, stop]
    constructor
    · rintro ⟨rfl, h, h'⟩
      exact ⟨rfl, h, by rwa [← Nat.add_assoc]⟩
    · rintro ⟨rfl, h, h'⟩
      exact ⟨rfl, h, by rwa [← Nat.add_assoc] at h'⟩

lemma Consecutive.start_eq {start : Nat} {ts us : List Token} {t : Token}
    (h : Consecutive start (ts ++ t :: us)) : t.start = start + byteSize (source ts) :=
  (consecutive_append.1 h).2.1

lemma Consecutive.stop_eq {start : Nat} {ts us : List Token} {t : Token}
    (h : Consecutive start (ts ++ t :: us)) :
    t.stop = start + byteSize (source (ts ++ [t])) := by
  simp [stop, h.start_eq, Nat.add_assoc]

/-- The bytes of tokens in the middle are those between the two other parts. -/
lemma slice_source (ts us vs : List Token) :
    slice (byteSize (source ts)) (byteSize (source (ts ++ us))) (source (ts ++ us ++ vs))
      = source us := by
  rw [source_append ts us, byteSize_append, source_append, source_append]
  exact slice_append _ _ _

end Token

end DocComment
