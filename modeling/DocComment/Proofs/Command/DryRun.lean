import DocComment.Proofs.Command.EditedFile

/-!
# Runs that write and runs that do not

Files that are edited one after the other do not see each other: a file that is written holds
something else, and all paths lead where they led before. So as long as no two paths lead to the
same file, each of them is edited as if it were the first one, whether the files are written or not
(`exists_edits_run`). A run that does not write tells what one that writes will do
(`exists_editAll_dryRun`).
-/

namespace DocComment.Files

open Text

/-! ### Files apart -/

/-- Two paths that do not lead to the same file. -/
def Apart (fs : Files) (p q : Text) : Prop :=
  ∀ names, fs.find p = .ok (.file names) → fs.find q ≠ .ok (.file names)

lemma Apart.of_ne {fs : Files} {p q : Text} {names names' : List Text}
    (hp : fs.find p = .ok (.file names)) (hq : fs.find q = .ok (.file names'))
    (hne : names ≠ names') : fs.Apart p q := by
  intro n hn hn'
  cases hp.symm.trans hn
  cases hq.symm.trans hn'
  exact hne rfl

/-- Files in which these paths lead where they lead in `fs`, to files that hold what they hold
there. -/
structure Keeps (fs : Files) (paths : List Text) (fs' : Files) : Prop where
  find : fs'.find = fs.find
  content? : ∀ p ∈ paths, ∀ names, fs.find p = .ok (.file names) →
    fs'.content? names = fs.content? names

section

variable {s : Settings} {plan : EditPlan} {fs fs' : Files} {path : Text} {paths : List Text}

protected lemma Keeps.refl (fs : Files) (paths : List Text) : fs.Keeps paths fs :=
  ⟨rfl, fun _ _ _ _ => rfl⟩

lemma Keeps.tail (h : fs.Keeps (path :: paths) fs') : fs.Keeps paths fs' :=
  ⟨h.find, fun q hq => h.content? q (List.mem_cons_of_mem _ hq)⟩

/-- The path leads to the file that is changed. -/
lemma Edits.find_of_mem {e : FileEdit} {names : List Text} (h : Edits s plan fs path (.ok e))
    (hnames : names ∈ e.names?) : fs.find path = .ok (.file names) := by
  cases h with
  | skipped _ => cases hnames
  | unchanged _ _ => cases hnames
  | changed _ _ _ _ _ hfind _ =>
    cases hnames
    exact hfind

/-- The edit of a file depends on that file only. -/
lemma Edits.congr {r : Except Failure FileEdit} (h : Edits s plan fs path r)
    (hkeeps : fs.Keeps (path :: paths) fs') : Edits s plan fs' path r := by
  have hcontent := hkeeps.content? path List.mem_cons_self
  have hextract : fs'.extract path = fs.extract path :=
    extract_congr (congrFun hkeeps.find path) hcontent
  have hplace := congrFun hkeeps.find path
  cases h with
  | failed hf hedit => exact .failed (hextract.trans hf) hedit
  | skipped hf => exact .skipped (hextract.trans hf)
  | unchanged hf hedit => exact .unchanged (hextract.trans hf) hedit
  | changed hf hedit hblocks hnew hrewritten hfind hheld =>
    exact .changed (hextract.trans hf) hedit hblocks hnew hrewritten (hplace.trans hfind)
      ((hcontent _ hfind).trans hheld)

/-- Writing a file keeps those that other paths lead to. -/
lemma Keeps.files {e : FileEdit} (hkeeps : fs.Keeps (path :: paths) fs')
    (h : Edits s plan fs path (.ok e)) (hpath : ∀ q ∈ paths, fs.Apart path q) :
    fs.Keeps paths (e.files fs') := by
  cases h with
  | skipped _ => exact hkeeps.tail
  | unchanged _ _ => exact hkeeps.tail
  | @changed f docs names source blocks hf hedit hblocks hnew hrewritten hfind hheld =>
    have hsome : (fs'.content? names).isSome := by
      rw [hkeeps.content? path List.mem_cons_self names hfind, hheld]
      rfl
    refine ⟨(find_write hsome _).trans hkeeps.find, fun q hq names' hfind' => ?_⟩
    have hne : names' ≠ names := by
      rintro rfl
      exact hpath q hq names' hfind hfind'
    rw [FileEdit.files, content?_write, if_neg hne]
    exact hkeeps.tail.content? q hq names' hfind'

end

/-! ### Runs -/

/-- The report on edits of files. -/
def reported (es : List (Text × FileEdit)) (r : EditReport) : EditReport :=
  es.foldl (fun r x => x.2.report x.1 r) r

/-- The files after edits, if they are written. -/
def rewritten (es : List (Text × FileEdit)) (fs : Files) : Files :=
  es.foldl (fun fs x => x.2.files fs) fs

/-- Files are edited one after the other until one of the edits fails. What each of them comes to
does not depend on the others, nor on whether they are written. -/
lemma exists_edits_run (s : Settings) (plan : EditPlan) (fs : Files) {paths : List Text}
    (hpaths : paths.Pairwise fs.Apart) : ∃ (es : List (Text × FileEdit)) (c? : Option Failure),
      (∀ x ∈ es, Edits s plan fs x.1 (.ok x.2)) ∧ es.map (·.1) <+: paths ∧
      ∀ (write : Bool) (report : EditReport) (st : RunState), fs.Keeps paths st.files →
        ∃ notices, (paths.foldlM (editFile s plan write) report).run.run st =
          (match c? with
            | none => .ok (reported es report)
            | some c => .error (.failure c),
          ⟨if write then rewritten es st.files else st.files, notices⟩) := by
  induction paths with
  | nil =>
    refine ⟨[], none, by simp, List.nil_prefix, fun write report st _ => ⟨st.notices, ?_⟩⟩
    cases write
    all_goals rfl
  | cons path paths ih =>
    obtain ⟨hpath, hpaths⟩ := List.pairwise_cons.1 hpaths
    obtain ⟨r, hr⟩ := exists_edits s plan fs path
    cases r with
    | error c =>
      refine ⟨[], some c, by simp, List.nil_prefix, fun write report st hkeeps => ?_⟩
      obtain ⟨notices, hrun⟩ := run_editFile (hr.congr hkeeps) write report
      refine ⟨notices, ?_⟩
      rw [List.foldlM_cons, ExceptT.run_bind, StateT.run_bind, hrun]
      cases write
      all_goals rfl
    | ok e =>
      obtain ⟨es, c?, hes, hfront, hrest⟩ := ih hpaths
      refine ⟨(path, e) :: es, c?, List.forall_mem_cons.2 ⟨hr, hes⟩,
        List.cons_prefix_cons.2 ⟨rfl, hfront⟩, fun write report st hkeeps => ?_⟩
      obtain ⟨notices, hrun⟩ := run_editFile (hr.congr hkeeps) write report
      have hkeeps' : fs.Keeps paths (if write then e.files st.files else st.files) := by
        split_ifs
        · exact hkeeps.files hr hpath
        · exact hkeeps.tail
      obtain ⟨notices, hrun'⟩ := hrest write (e.report path report)
        ⟨if write then e.files st.files else st.files, notices⟩ hkeeps'
      refine ⟨notices, ?_⟩
      rw [List.foldlM_cons, ExceptT.run_bind, StateT.run_bind, hrun]
      refine hrun'.trans ?_
      cases write
      all_goals rfl

/-! ### What is reported and what is written -/

section

variable {es : List (Text × FileEdit)}

lemma files_reported (es : List (Text × FileEdit)) (r : EditReport) :
    (reported es r).files = r.files ++ es.filterMap fun x => x.2.file? x.1 := by
  induction es generalizing r with
  | nil => simp [reported]
  | cons x es ih =>
    obtain ⟨path, e⟩ := x
    refine (ih (e.report path r)).trans ?_
    cases e <;> simp [FileEdit.report, FileEdit.file?]

lemma skipped_reported (es : List (Text × FileEdit)) (r : EditReport) :
    (reported es r).skipped = r.skipped ++ es.filterMap fun x => x.2.skipped? x.1 := by
  induction es generalizing r with
  | nil => simp [reported]
  | cons x es ih =>
    obtain ⟨path, e⟩ := x
    refine (ih (e.report path r)).trans ?_
    cases e <;> simp [FileEdit.report, FileEdit.skipped?]

/-- Files that are not changed hold what they held. -/
lemma content?_rewritten_of_ne {names : List Text} (h : ∀ x ∈ es, names ∉ x.2.names?) (fs : Files) :
    (rewritten es fs).content? names = fs.content? names := by
  induction es generalizing fs with
  | nil => rfl
  | cons x es ih =>
    obtain ⟨hx, hes⟩ := List.forall_mem_cons.1 h
    refine (ih hes _).trans ?_
    obtain ⟨path, e⟩ := x
    cases e with
    | skipped => rfl
    | unchanged => rfl
    | changed names' source blocks =>
      have hne : names ≠ names' := by
        rintro rfl
        exact hx rfl
      exact (content?_write fs names' _ names).trans (if_neg hne)

/-- A file that is changed holds its new text, if no other edit changes it. -/
lemma content?_rewritten_of_mem
    (hes : es.Pairwise fun x y => ∀ names ∈ x.2.names?, names ∉ y.2.names?)
    {path source : Text} {names : List Text} {blocks : List EditedBlock}
    (hmem : (path, .changed names source blocks) ∈ es) (fs : Files) :
    (rewritten es fs).content? names = some (.text source) := by
  induction es generalizing fs with
  | nil => cases hmem
  | cons x es ih =>
    obtain ⟨hx, hes⟩ := List.pairwise_cons.1 hes
    rcases List.mem_cons.1 hmem with rfl | hmem
    · refine (content?_rewritten_of_ne (fun y hy => hx y hy names rfl) _).trans ?_
      exact (content?_write fs names _ names).trans (if_pos rfl)
    · exact ih hes hmem _

/-- Paths that do not lead to the same file are not edited in the same file. -/
lemma pairwise_names? {s : Settings} {plan : EditPlan} {fs : Files} {paths : List Text}
    (hpaths : paths.Pairwise fs.Apart) (hfront : es.map (·.1) <+: paths)
    (hes : ∀ x ∈ es, Edits s plan fs x.1 (.ok x.2)) :
    es.Pairwise fun x y => ∀ names ∈ x.2.names?, names ∉ y.2.names? := by
  have hapart : es.Pairwise fun x y => fs.Apart x.1 y.1 :=
    List.pairwise_map.1 (hpaths.sublist hfront.sublist)
  refine hapart.imp_of_mem fun hx hy hxy names hnames hnames' => ?_
  exact hxy names ((hes _ hx).find_of_mem hnames) ((hes _ hy).find_of_mem hnames')

end

/-- A run that does not write tells what one that writes will do. If one of them succeeds, so does
the other, with the same changes and the same files left out. The one changes no file. The other
changes only files that it tells of, and what it tells of such a file is all that happens to it. -/
theorem exists_editAll_dryRun (s : Settings) (plan : EditPlan) {paths : List Text} {write : Bool}
    {st st' : RunState} {report : EditReport} (hpaths : paths.Pairwise st.files.Apart)
    (hrun : (editAll s plan write paths).run.run st = (.ok report, st')) :
    ∃ (dry written : EditReport) (std stw : RunState),
      (editAll s plan false paths).run.run st = (.ok dry, std) ∧
      (editAll s plan true paths).run.run st = (.ok written, stw) ∧
      dry.files = written.files ∧ dry.skipped = written.skipped ∧ std.files = st.files ∧
      (∀ names, (∀ f ∈ written.files, st.files.find f.path ≠ .ok (.file names)) →
        stw.files.content? names = st.files.content? names) ∧
      ∀ f ∈ written.files, ∃ names source new, st.files.extract f.path = .ok source ∧
        st.files.find f.path = .ok (.file names) ∧
        st.files.content? names = some (.text source.source) ∧
        stw.files.content? names = some (.text new) ∧ source.IsRewritten f.blocks new := by
  obtain ⟨es, c?, hes, hfront, hruns⟩ := exists_edits_run s plan st.files hpaths
  have hkeeps := Keeps.refl st.files paths
  obtain ⟨_, hrun'⟩ := hruns write { written := write } st hkeeps
  cases c? with
  | some c =>
    have hfault := congrArg Prod.fst (hrun.symm.trans hrun')
    cases hfault
  | none =>
    obtain ⟨noticesd, hdry⟩ := hruns false { written := false } st hkeeps
    obtain ⟨noticesw, hwritten⟩ := hruns true { written := true } st hkeeps
    refine ⟨_, _, _, _, hdry, hwritten, ?_, ?_, rfl, fun names hnames => ?_, fun f hf => ?_⟩
    · rw [files_reported, files_reported]
    · rw [skipped_reported, skipped_reported]
    · refine content?_rewritten_of_ne (fun x hx hmem => ?_) st.files
      have hfind := (hes x hx).find_of_mem hmem
      obtain ⟨f, hf, hpath⟩ := FileEdit.exists_file? hmem x.1
      refine hnames f ?_ (hpath ▸ hfind)
      rw [files_reported, List.nil_append]
      exact List.mem_filterMap.2 ⟨x, hx, hf⟩
    · rw [files_reported, List.nil_append, List.mem_filterMap] at hf
      obtain ⟨⟨path, e⟩, hmem, hf⟩ := hf
      have he := hes _ hmem
      cases he with
      | skipped _ => cases hf
      | unchanged _ _ => cases hf
      | @changed source docs names new blocks hread hedit hblocks hnew hrewritten hfind hheld =>
        cases hf
        exact ⟨names, source, new, hread, hfind, hheld,
          content?_rewritten_of_mem (pairwise_names? hpaths hfront hes) hmem st.files, hrewritten⟩

/-- One file gets another comment, one loses a comment with its line, and one is left out. -/
theorem exists_editAll_dryRun_removed :
    let paths := ["a.php".toList, "./b.rs".toList, "c.md".toList]
    let plan : EditPlan := { remove := ["internal".toList], replace := [("see".toList, ['b'])] }
    let st : RunState := { files := { entries := [
      (["a.php".toList], .text "/** @see a */\nfunction a() {}\n".toList),
      (["b.rs".toList], .text "/** B. */\nfn b() {}\n/** @internal */ \nfn c() {}\n".toList),
      (["c.md".toList], .text "/** @internal */".toList)] } }
    (paths.Pairwise st.files.Apart ∧
      ∃ report st', (editAll {} plan true paths).run.run st = (.ok report, st')) ∧
    (∃ (dry written : EditReport) (std stw : RunState),
      (editAll {} plan false paths).run.run st = (.ok dry, std) ∧
      (editAll {} plan true paths).run.run st = (.ok written, stw) ∧
      dry.files = written.files ∧ dry.skipped = written.skipped ∧ std.files = st.files ∧
      (∀ names, (∀ f ∈ written.files, st.files.find f.path ≠ .ok (.file names)) →
        stw.files.content? names = st.files.content? names) ∧
      ∀ f ∈ written.files, ∃ names source new, st.files.extract f.path = .ok source ∧
        st.files.find f.path = .ok (.file names) ∧
        st.files.content? names = some (.text source.source) ∧
        stw.files.content? names = some (.text new) ∧ source.IsRewritten f.blocks new) ∧
    ((editAll {} plan true paths).run.run st).2.files.content? ["b.rs".toList] =
      some (.text "/** B. */\nfn b() {}\nfn c() {}\n".toList) := by
  intro paths plan st
  have ha : st.files.find "a.php".toList = .ok (.file ["a.php".toList]) := by decide +kernel
  have hb : st.files.find "./b.rs".toList = .ok (.file ["b.rs".toList]) := by decide +kernel
  have hc : st.files.find "c.md".toList = .ok (.file ["c.md".toList]) := by decide +kernel
  have hpaths : paths.Pairwise st.files.Apart := by
    refine .cons ?_ (.cons ?_ (List.pairwise_singleton _ _))
    · exact List.forall_mem_cons.2 ⟨.of_ne ha hb (by decide),
        List.forall_mem_singleton.2 (.of_ne ha hc (by decide))⟩
    · exact List.forall_mem_singleton.2 (.of_ne hb hc (by decide))
  have hok : ((editAll {} plan true paths).run.run st).1.isOk := by decide +kernel
  obtain ⟨report, hreport⟩ : ∃ report,
      ((editAll {} plan true paths).run.run st).1 = .ok report := by
    cases hresult : ((editAll {} plan true paths).run.run st).1 with
    | error fault =>
      rw [hresult] at hok
      cases hok
    | ok report => exact ⟨report, rfl⟩
  have hrun : (editAll {} plan true paths).run.run st =
      (.ok report, ((editAll {} plan true paths).run.run st).2) := Prod.ext hreport rfl
  exact ⟨⟨hpaths, _, _, hrun⟩, exists_editAll_dryRun {} plan hpaths hrun, by decide +kernel⟩

end DocComment.Files
