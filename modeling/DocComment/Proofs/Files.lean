import Mathlib.Data.List.Basic
import Mathlib.Tactic.Common
import DocComment.Files

/-!
# Files that are written

A file that is there keeps its place when it is written: all paths lead where they led before
(`find_write`), and all other files hold what they held (`content?_write`). So what is read from a
path depends only on the file that it leads to (`extract_congr`).
-/

namespace DocComment.Files

variable {fs : Files} {names : List Text}

/-! ### Writing -/

lemma lookup_map_content (g : List Text → Content → Content)
    (entries : List (List Text × Content)) (names : List Text) :
    (entries.map fun (file, old) => (file, g file old)).lookup names =
      (entries.lookup names).map (g names) := by
  induction entries with
  | nil => rfl
  | cons entry entries ih =>
    obtain ⟨file, old⟩ := entry
    by_cases hfile : names = file
    · subst hfile
      simp
    · have hne : (names == file) = false := beq_eq_false_iff_ne.2 hfile
      rw [List.map_cons, List.lookup_cons, List.lookup_cons, hne]
      exact ih

lemma content?_write_of_isSome (h : (fs.content? names).isSome) (c : Content) (names' : List Text) :
    (fs.write names c).content? names' =
      (fs.content? names').map fun old => if names' = names then c else old := by
  have hentries : (fun (file, old) => if file = names then (file, c) else (file, old) :
      List Text × Content → List Text × Content) =
      fun (file, old) => (file, if file = names then c else old) := by
    funext ⟨file, old⟩
    dsimp only
    split_ifs <;> rfl
  rw [write, if_pos h, content?, hentries]
  exact lookup_map_content (fun file old => if file = names then c else old) fs.entries names'

/-- Just the file that is written holds something else. -/
lemma content?_write (fs : Files) (names : List Text) (c : Content) (names' : List Text) :
    (fs.write names c).content? names' = if names' = names then some c else fs.content? names' := by
  by_cases h : (fs.content? names).isSome
  · rw [content?_write_of_isSome h]
    split_ifs with hnames
    · obtain ⟨old, hold⟩ := Option.isSome_iff_exists.1 (hnames ▸ h)
      rw [hold]
      rfl
    · exact Option.map_id'
  · rw [write, if_neg h]
    rw [Option.not_isSome_iff_eq_none, content?] at h
    split_ifs with hnames
    · subst hnames
      simp [content?, List.lookup_append, h]
    · have hne : (names' == names) = false := beq_eq_false_iff_ne.2 hnames
      simp [content?, List.lookup_append, List.lookup_cons, hne]

lemma isDirectory_write (h : (fs.content? names).isSome) (c : Content) :
    (fs.write names c).isDirectory = fs.isDirectory := by
  funext names'
  rw [write, if_pos h, isDirectory, isDirectory, List.any_map]
  congr 2
  funext ⟨file, old⟩
  by_cases hfile : file = names <;> simp [hfile]

lemma enter_write (h : (fs.content? names).isSome) (c : Content) :
    (fs.write names c).enter = fs.enter := by
  funext place part
  cases place with
  | file _ => rfl
  | directory above =>
    have hsome : ((fs.write names c).content? (above ++ [part])).isSome =
        (fs.content? (above ++ [part])).isSome := by
      rw [content?_write]
      split_ifs with hnames
      · rw [hnames, h]
        rfl
      · rfl
    simp only [enter, hsome, isDirectory_write h]

/-- Paths lead where they led before a file was written that is there. -/
lemma find_write (h : (fs.content? names).isSome) (c : Content) :
    (fs.write names c).find = fs.find := by
  have hstart : (fs.write names c).start = fs.start := by
    rw [write, if_pos h]
  funext path
  simp only [find, follow, enter_write h, hstart]

/-- A text is written to the file that a path leads to. -/
lemma writeText_of_find {path : Text} (h : fs.find path = .ok (.file names)) (s : Text) :
    fs.writeText path s = .ok (fs.write names (.text s)) := by
  rw [writeText, h]
  rfl

/-! ### Reading -/

lemma exists_of_readText {path s : Text} (h : fs.readText path = .ok s) :
    ∃ names, fs.find path = .ok (.file names) ∧ fs.content? names = some (.text s) := by
  unfold readText at h
  cases hplace : fs.find path with
  | error fault =>
    rw [hplace] at h
    cases h
  | ok place =>
    rw [hplace] at h
    cases place with
    | directory names => cases h
    | file names =>
      refine ⟨names, rfl, ?_⟩
      dsimp only at h
      split at h
      · next hcontent =>
        cases h
        exact hcontent
      · cases h
      · cases h

/-- A file of source text is found, holds its text, and is known by its path. -/
lemma exists_of_extract {path : Text} {f : SourceFile} (h : fs.extract path = .ok f) :
    ∃ names, fs.find path = .ok (.file names) ∧ fs.content? names = some (.text f.source) ∧
      f = SourceFile.extract path f.language f.source := by
  unfold extract at h
  cases hlanguage : Language.ofPath? path with
  | none =>
    rw [hlanguage] at h
    cases h
  | some language =>
    rw [hlanguage] at h
    dsimp only at h
    cases hread : fs.readText path with
    | error fault =>
      rw [hread] at h
      cases h
    | ok source =>
      rw [hread] at h
      cases h
      obtain ⟨names, hfind, hcontent⟩ := exists_of_readText hread
      exact ⟨names, hfind, hcontent, rfl⟩

/-- What is read from a path depends only on the file that it leads to. -/
lemma extract_congr {fs' : Files} {path : Text} (hfind : fs'.find path = fs.find path)
    (hcontent : ∀ names, fs.find path = .ok (.file names) →
      fs'.content? names = fs.content? names) : fs'.extract path = fs.extract path := by
  have hread : fs'.readText path = fs.readText path := by
    unfold readText
    rw [hfind]
    cases hplace : fs.find path with
    | error fault => rfl
    | ok place =>
      cases place with
      | directory names => rfl
      | file names =>
        dsimp only
        rw [hcontent names hplace]
  unfold extract
  rw [hread]

end DocComment.Files
