import DocComment.Proofs.Command.Plan
import DocComment.Proofs.Command.RoundTrip
import DocComment.Proofs.Files
import DocComment.Proofs.Source.Rewritten

/-!
# Edits of files

The edit of a file fails for one of its comments, or it comes to what is told of it and the text
that the file gets by that (`Files.Edits`, `Files.exists_edits`). This does not depend on whether
the file is to be written, and it is what the run does then (`Files.run_editFile`).
-/

namespace DocComment

open Text Block

/-! ### Comments -/

namespace Declaration

/-- A declaration with a block of its own can write it back. Its comment stays if the block is
clean. -/
lemma exists_apply_eq (p : Printer) {d : Declaration} {b : Block} (hb : d.block? = some b)
    (hown : b.declaration? = some d.id) : ∃ changed d', d.apply p = .ok (changed, d') ∧
      (changed = false → d'.doc? = d.doc?) := by
  unfold Declaration.apply
  rw [hb]
  cases hdirty : b.dirty with
  | false => exact ⟨false, d, by simp [hdirty]; rfl, fun _ => rfl⟩
  | true =>
    have hprint : d.print p b = .ok (b.print p d.indentation) := by
      rw [Declaration.print, hown]
      exact if_pos rfl
    simp only [hdirty, hprint]
    exact ⟨true, _, rfl, fun h => by cases h⟩

/-- The comment of a declaration that is edited: the edit fails for it, or it gives the comment that
the declaration has then, which is the old one unless there is a change to tell of. -/
lemma editWith_cases (rules : Rules) (p : Printer) (plan : EditPlan) {d : Declaration} {raw : Text}
    (hdoc : d.doc? = some raw) (hblock : d.block? = none) :
    (∃ f, (outcome plan.edit (Block.read rules d.id raw)).1 = .error f ∧
      d.editWith rules p plan.edit = .error f) ∨
    ∃ changed d', (outcome plan.edit (Block.read rules d.id raw)).1 = .ok () ∧
      d.editWith rules p plan.edit = .ok (changed, d') ∧
        (changed = false → d'.doc? = some raw) := by
  have hattach := block?_attachOrEmpty rules hdoc hblock
  have hown := plan.declaration?_edit (Block.read rules d.id raw)
  unfold Declaration.editWith
  dsimp only
  rw [hattach]
  rcases hrun : outcome plan.edit (Block.read rules d.id raw) with ⟨f | a, b⟩
  · refine .inl ⟨f, rfl, ?_⟩
    unfold outcome at hrun
    simp only [hrun]
    rfl
  · rw [hrun] at hown
    have happly := exists_apply_eq p (d := { d.attachOrEmpty rules with block? := some b }) rfl
      (hown a rfl)
    obtain ⟨changed, d', hd', hsame⟩ := happly
    refine .inr ⟨changed, d', rfl, ?_, fun hc => (hsame hc).trans hdoc⟩
    unfold outcome at hrun
    simp only [hrun]
    exact hd'

end Declaration

/-! ### Files -/

/-- A run over a list ends with the first failure, or with a result for each element. -/
lemma mapM_cases {α β γ ε : Type} {f : α → Except ε β} {key : α → γ} {key' : β → γ} {P : β → Prop}
    {Q : ε → Prop} {xs : List α} (h : ∀ x ∈ xs, (∃ e, f x = .error e ∧ Q e) ∨
      ∃ y, f x = .ok y ∧ key' y = key x ∧ P y) :
    (∃ e, xs.mapM f = .error e ∧ Q e) ∨
      ∃ ys, xs.mapM f = .ok ys ∧ ys.map key' = xs.map key ∧ ∀ y ∈ ys, P y := by
  induction xs with
  | nil => exact .inr ⟨[], rfl, rfl, by simp⟩
  | cons x xs ih =>
    rw [List.mapM_cons]
    rcases h x List.mem_cons_self with ⟨e, he, hQ⟩ | ⟨y, hy, hkey, hP⟩
    · rw [he]
      exact .inl ⟨e, rfl, hQ⟩
    · rw [hy]
      rcases ih fun x' hx' => h x' (List.mem_cons_of_mem _ hx') with
        ⟨e, he, hQ⟩ | ⟨ys, hys, hkeys, hPs⟩
      · rw [he]
        exact .inl ⟨e, rfl, hQ⟩
      · rw [hys]
        exact .inr ⟨y :: ys, rfl, by simp [hkey, hkeys], List.forall_mem_cons.2 ⟨hP, hPs⟩⟩

/-- The comments of a file, each with the change that `blocks` tells of it, if it tells of one. -/
structure SourceFile.Tells (f : SourceFile) (blocks : List EditedBlock)
    (es : List (SourceEntry × Option EditedBlock)) : Prop where
  entries : es.map (·.1) = f.entries
  blocks : es.filterMap (·.2) = blocks
  of_mem : ∀ e b, (e, some b) ∈ es →
    b.subject = e.subject ∧ b.line = e.line ∧ b.before = f.blockText e

/-- The comment that a file has according to what is told: the new one, or the old one if nothing is
told of it. -/
def SourceFile.told (f : SourceFile) : SourceEntry × Option EditedBlock → Option Text
  | (_, some b) => b.after?
  | (e, none) => some (f.blockText e)

/-- What is told of a file is all that there is to its new text: each comment of which something is
told is replaced by the comment that is told, or removed with its line, and all else is kept. -/
def SourceFile.IsRewritten (f : SourceFile) (blocks : List EditedBlock) (source : Text) : Prop :=
  ∃ es, f.Tells blocks es ∧ Rewritten [] (es.map fun x => (x.1, f.told x)) f.source source

namespace SourceFile

/-- What is told of a comment with a result of its edit. -/
def tell (f : SourceFile) : SourceEntry × Bool × Option Text → SourceEntry × Option EditedBlock
  | (e, true, doc?) =>
    (e, some { subject := e.subject, line := e.line, before := f.blockText e, after? := doc? })
  | (e, false, _) => (e, none)

lemma fst_tell (f : SourceFile) (y : SourceEntry × Bool × Option Text) : (f.tell y).1 = y.1 := by
  obtain ⟨e, changed, doc?⟩ := y
  cases changed
  all_goals rfl

/-- What is told of a comment gives its new text, if nothing is told only where that is the old
one. -/
lemma told_tell {f : SourceFile} {y : SourceEntry × Bool × Option Text}
    (h : y.2.1 = false → y.2.2 = some (f.blockText y.1)) : f.told (f.tell y) = y.2.2 := by
  obtain ⟨e, changed, doc?⟩ := y
  cases changed with
  | false => exact (h rfl).symm
  | true => rfl

/-- The results for all comments of a file give what is told of it. -/
lemma tells_tell {f : SourceFile} {results : List (SourceEntry × Bool × Option Text)}
    (h : results.map (·.1) = f.entries) :
    f.Tells ((results.map f.tell).filterMap (·.2)) (results.map f.tell) where
  entries := by
    rw [← h, List.map_map]
    exact List.map_congr_left fun y _ => f.fst_tell y
  blocks := rfl
  of_mem e b hmem := by
    obtain ⟨⟨e', changed, doc?⟩, -, htell⟩ := List.mem_map.1 hmem
    cases changed with
    | false => cases htell
    | true =>
      cases htell
      exact ⟨rfl, rfl, rfl⟩

/-- The edit of a comment of a file. -/
def editEntry (rules : Rules) (p : Printer) (e : Edit Unit) :
    SourceEntry × Declaration → Except Failure (SourceEntry × Bool × Option Text)
  | (entry, d) => do
    let (changed, d) ← d.editWith rules p e
    return (entry, changed, d.doc?)

lemma editWith_eq (rules : Rules) (p : Printer) (e : Edit Unit) (f : SourceFile) :
    f.editWith rules p e = (do
      let results ← (f.entries.zip f.declarations).mapM (editEntry rules p e)
      return (results.map (·.2.2), (results.map f.tell).filterMap (·.2))) := by
  have htell (results : List (SourceEntry × Bool × Option Text)) :
      (results.map f.tell).filterMap (·.2) = results.filterMap fun y =>
        if y.2.1 then
          some { subject := y.1.subject, line := y.1.line, before := f.blockText y.1,
                 after? := y.2.2 }
        else none := by
    rw [List.filterMap_map]
    refine List.filterMap_congr fun y _ => ?_
    obtain ⟨entry, changed, doc?⟩ := y
    cases changed
    all_goals rfl
  simp only [htell]
  rfl

/-- The edit of a comment of a file fails, or it gives a result, which is the old comment unless it
has changed. -/
lemma editEntry_cases (rules : Rules) (p : Printer) (plan : EditPlan) {f : SourceFile}
    {x : SourceEntry × Declaration} (hx : x ∈ f.entries.zip f.declarations) :
    (∃ c, editEntry rules p plan.edit x = .error c ∧ ∃ declaration? raw,
      (outcome plan.edit (Block.read rules declaration? raw)).1 = .error c) ∨
    ∃ y, editEntry rules p plan.edit x = .ok y ∧ y.1 = x.1 ∧
      (y.2.1 = false → y.2.2 = some (f.blockText y.1)) ∧
      ∃ b, (outcome plan.edit b).1 = .ok () := by
  obtain ⟨e, d⟩ := x
  obtain ⟨hdoc, hblock⟩ := of_mem_zip hx
  rcases Declaration.editWith_cases rules p plan hdoc hblock with
    ⟨c, hc, herror⟩ | ⟨changed, d', hok, hd', hsame⟩
  · refine .inl ⟨c, ?_, _, _, hc⟩
    rw [editEntry, herror]
    rfl
  · refine .inr ⟨(e, changed, d'.doc?), ?_, rfl, hsame, _, hok⟩
    rw [editEntry, hd']
    rfl

/-- A plan fails for a file if it fails for one of its comments. Otherwise the new comments are
those that are told. -/
lemma editWith_cases (rules : Rules) (p : Printer) (plan : EditPlan) (f : SourceFile) :
    (∃ c, f.editWith rules p plan.edit = .error c ∧ ∃ declaration? raw,
      (outcome plan.edit (Block.read rules declaration? raw)).1 = .error c) ∨
    ∃ docs blocks es, f.editWith rules p plan.edit = .ok (docs, blocks) ∧ f.Tells blocks es ∧
      docs = es.map f.told ∧ (f.entries = [] ∨ ∃ b, (outcome plan.edit b).1 = .ok ()) := by
  rw [editWith_eq]
  rcases mapM_cases (fun x hx => editEntry_cases rules p plan hx) with
    ⟨c, hmap, hc⟩ | ⟨results, hmap, hentries, hresults⟩
  · refine .inl ⟨c, ?_, hc⟩
    rw [hmap]
    rfl
  · have hall : results.map (·.1) = f.entries := by
      rw [hentries]
      exact List.map_fst_zip (by simp [declarations])
    refine .inr ⟨results.map (·.2.2), _, results.map f.tell, ?_, tells_tell hall, ?_, ?_⟩
    · rw [hmap]
      rfl
    · rw [List.map_map]
      exact List.map_congr_left fun y hy => (told_tell (hresults y hy).1).symm
    · cases results with
      | nil => exact .inl hall.symm
      | cons y ys => exact .inr (hresults y List.mem_cons_self).2

/-- A file gets its new comments. -/
lemma Tells.exists_isRewritten {path : Text} {language : Language} {source : Text}
    {blocks : List EditedBlock} {es : List (SourceEntry × Option EditedBlock)}
    (h : (extract path language source).Tells blocks es) : let f := extract path language source
    ∃ new, f.replaceDocs (es.map f.told) = .ok new ∧ f.IsRewritten blocks new := by
  intro f
  have hlength : (es.map f.told).length = f.entries.length := by
    rw [← h.entries, List.length_map, List.length_map]
  obtain ⟨new, hnew, hrewritten, -⟩ := exists_rewritten_replaceDocs path language source hlength
  have hzip : f.entries.zip (es.map f.told) = es.map fun x => (x.1, f.told x) := by
    rw [← h.entries]
    exact List.zip_map'
  exact ⟨new, hnew, es, h, hzip ▸ hrewritten⟩

end SourceFile

/-! ### Edits of files -/

/-- What the edit of a file comes to. -/
inductive FileEdit where
  /-- The file cannot be read. -/
  | skipped
  /-- There is no change to tell of. -/
  | unchanged
  /-- The file of these names gets a new text, and `blocks` are told of it. -/
  | changed (names : List Text) (source : Text) (blocks : List EditedBlock)

namespace FileEdit

/-- The report with what the edit of a file at this path came to. -/
def report (path : Text) : FileEdit → EditReport → EditReport
  | .skipped, r => { r with skipped := r.skipped ++ [path] }
  | .unchanged, r => r
  | .changed _ _ blocks, r => { r with files := r.files ++ [⟨path, blocks⟩] }

/-- What is reported of the file, if it changes. -/
def file? (path : Text) : FileEdit → Option EditedFile
  | .changed _ _ blocks => some ⟨path, blocks⟩
  | .skipped | .unchanged => none

/-- The path, if the file is skipped. -/
def skipped? (path : Text) : FileEdit → Option Text
  | .skipped => some path
  | .unchanged | .changed .. => none

/-- The names of the file, if it changes. -/
def names? : FileEdit → Option (List Text)
  | .changed names _ _ => some names
  | .skipped | .unchanged => none

/-- The files after the edit, if it is written. -/
def files : FileEdit → Files → Files
  | .skipped, fs | .unchanged, fs => fs
  | .changed names source _, fs => fs.write names (.text source)

/-- Something is reported of a file that changes. -/
lemma exists_file? {e : FileEdit} {names : List Text} (h : names ∈ e.names?) (path : Text) :
    ∃ f, e.file? path = some f ∧ f.path = path := by
  cases e with
  | skipped => cases h
  | unchanged => cases h
  | changed _ _ _ => exact ⟨_, rfl, rfl⟩

end FileEdit

namespace Files

/-- What the edit of the file at a path comes to, whether it is written or not: it fails for a
comment of the file, or the file is skipped, left or changed. -/
inductive Edits (s : Settings) (plan : EditPlan) (fs : Files) (path : Text) :
    Except Failure FileEdit → Prop where
  | failed {f : SourceFile} {c : Failure} (hf : fs.extract path = .ok f)
    (hedit : f.editWith s.rules s.printer plan.edit = .error c) : Edits s plan fs path (.error c)
  | skipped {c : Failure} (hf : fs.extract path = .error c) : Edits s plan fs path (.ok .skipped)
  | unchanged {f : SourceFile} {docs : List (Option Text)} (hf : fs.extract path = .ok f)
    (hedit : f.editWith s.rules s.printer plan.edit = .ok (docs, [])) :
    Edits s plan fs path (.ok .unchanged)
  | changed {f : SourceFile} {docs : List (Option Text)} {names : List Text} {source : Text}
    {blocks : List EditedBlock} (hf : fs.extract path = .ok f)
    (hedit : f.editWith s.rules s.printer plan.edit = .ok (docs, blocks)) (hblocks : blocks ≠ [])
    (hnew : f.replaceDocs docs = .ok source) (hrewritten : f.IsRewritten blocks source)
    (hfind : fs.find path = .ok (.file names))
    (hcontent : fs.content? names = some (.text f.source)) :
    Edits s plan fs path (.ok (.changed names source blocks))

section

variable (s : Settings) (plan : EditPlan)

/-- The edit of a file comes to something. -/
lemma exists_edits (fs : Files) (path : Text) : ∃ r, Edits s plan fs path r := by
  cases hf : fs.extract path with
  | error c => exact ⟨_, .skipped hf⟩
  | ok f =>
    rcases f.editWith_cases s.rules s.printer plan with
      ⟨c, hc, -⟩ | ⟨docs, blocks, es, hedit, htells, rfl, -⟩
    · exact ⟨_, .failed hf hc⟩
    · by_cases hblocks : blocks = []
      · subst hblocks
        exact ⟨_, .unchanged hf hedit⟩
      · obtain ⟨names, hfind, hcontent, hextract⟩ := exists_of_extract hf
        rw [hextract] at htells
        obtain ⟨new, hnew, hrewritten⟩ := htells.exists_isRewritten
        rw [← hextract] at hnew hrewritten
        exact ⟨_, .changed hf hedit hblocks hnew hrewritten hfind hcontent⟩

end

variable {s : Settings} {plan : EditPlan} {fs : Files} {path : Text}

/-- How a run ends after the edit of a file. -/
def ended (write : Bool) (report : EditReport) (path : Text) (fs : Files) (notices : List Notice) :
    Except Failure FileEdit → Except Fault EditReport × RunState
  | .error c => (.error (.failure c), ⟨fs, notices⟩)
  | .ok e => (.ok (e.report path report), ⟨if write then e.files fs else fs, notices⟩)

/-- A file that is there is written with its new comments. -/
lemma run_writeBack {st : RunState} {f : SourceFile} {docs : List (Option Text)} {source : Text}
    {names : List Text} (hnew : f.replaceDocs docs = .ok source)
    (hfind : st.files.find f.path = .ok (.file names)) : (writeBack f docs).run.run st =
      (.ok (), { st with files := st.files.write names (.text source) }) := by
  have hrun : (writeBack f docs).run.run st = (do
      Run.setFiles (← Run.orFault (.writing f.path) (st.files.writeText f.path source)) :
        Run Unit).run.run st := by
    simp only [writeBack, hnew, Run.orFault, pure_bind]
    rfl
  rw [hrun, writeText_of_find hfind]
  rfl

lemma run_files_bind {α : Type} (k : Files → Run α) (st : RunState) :
    (Run.files >>= k).run.run st = (k st.files).run.run st := rfl

lemma run_tell_bind {α : Type} (notices : List Notice) (k : Unit → Run α) (st : RunState) :
    (Run.tell notices >>= k).run.run st =
      (k ()).run.run { st with notices := st.notices ++ notices } := rfl

/-- The edit of a file reports what it comes to, and writes it if it is to be written. -/
lemma run_editFile {st : RunState} {r : Except Failure FileEdit} (h : Edits s plan st.files path r)
    (write : Bool) (report : EditReport) : ∃ notices,
      (editFile s plan write report path).run.run st =
        ended write report path st.files notices r := by
  rw [editFile, run_files_bind]
  dsimp only
  rw [run_tell_bind]
  -- All runs have told of reading the file.
  generalize st.notices ++ [Notice.ofExtract path (st.files.extract path)] = notices
  cases h with
  | failed hf hedit =>
    rw [hf]
    simp only [hedit]
    exact ⟨_, rfl⟩
  | skipped hf =>
    rw [hf]
    refine ⟨notices, ?_⟩
    cases write
    all_goals rfl
  | unchanged hf hedit =>
    rw [hf]
    simp only [hedit]
    refine ⟨notices, ?_⟩
    cases write
    all_goals rfl
  | @changed f docs names source blocks hf hedit hblocks hnew hrewritten hfind hcontent =>
    rw [hf]
    simp only [hedit, Run.orFault, pure_bind, if_neg hblocks]
    cases write with
    | false => exact ⟨notices, rfl⟩
    | true =>
      refine ⟨notices ++ [.rewritten path blocks.length], ?_⟩
      obtain ⟨-, -, -, hextract⟩ := exists_of_extract hf
      have hpath : f.path = path := congrArg SourceFile.path hextract
      simp only [if_true, ExceptT.run_bind, StateT.run_bind]
      rw [run_writeBack hnew (hpath ▸ hfind)]
      rfl

end Files

end DocComment
