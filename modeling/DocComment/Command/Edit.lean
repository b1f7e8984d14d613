import DocComment.Command.Basic
import DocComment.Report.Edit

/-!
# Editing files

Every comment of a file gets the edits of a plan. Files are edited one after the other, and each is
written before the next one is read, so a run that breaks off has changed the files before that.
-/

namespace DocComment

/-- The edits of a plan. Tags are replaced only where they exist. -/
def EditPlan.edit (plan : EditPlan) : Block.Edit Unit := do
  for name in plan.remove do
    let _ ← Block.removeTags name
  for (name, payload) in plan.replace do
    if (← get).hasTag name then
      let _ ← Block.replaceTag name payload
  for (name, payload) in plan.add do
    let _ ← Block.addTag name payload

/-- The declaration after an edit of its block, and whether its comment was changed. -/
def Declaration.editWith (rules : Rules) (p : Printer) (e : Block.Edit Unit) (d : Declaration) :
    Except Failure (Bool × Declaration) := do
  let d := d.attachOrEmpty rules
  let some b := d.block? | throw .noBlock
  let (result, b) := e.run.run b
  result
  Declaration.apply p { d with block? := some b }

/-- What an edit does to the comments of a file: the new comments, and a report on those that
changed. -/
def SourceFile.editWith (rules : Rules) (p : Printer) (e : Block.Edit Unit) (f : SourceFile) :
    Except Failure (List (Option Text) × List EditedBlock) := do
  let results ← (f.entries.zip f.declarations).mapM fun (entry, d) => do
    let (changed, d) ← d.editWith rules p e
    return (entry, changed, d.doc?)
  let edited := results.filterMap fun (entry, changed, doc?) =>
    if changed then
      some { subject := entry.subject, line := entry.line, before := f.blockText entry,
             after? := doc? }
    else none
  return (results.map (·.2.2), edited)

namespace Files

/-- Writes a file with new comments. -/
def writeBack (f : SourceFile) (docs : List (Option Text)) : Run Unit := do
  let source ← Run.orFault .failure (f.replaceDocs docs)
  let fs ← Run.orFault (.writing f.path) ((← Run.files).writeText f.path source)
  Run.setFiles fs

/-- Edits one file and adds to the report on the files before it. -/
def editFile (s : Settings) (plan : EditPlan) (write : Bool) (report : EditReport) (path : Text) :
    Run EditReport := do
  let result := (← Run.files).extract path
  Run.tell [.ofExtract path result]
  match result with
  | .error _ => return { report with skipped := report.skipped ++ [path] }
  | .ok f =>
    let (docs, blocks) ← Run.orFault .failure (f.editWith s.rules s.printer plan.edit)
    if blocks = [] then return report
    if write then
      writeBack f docs
      Run.tell [.rewritten path blocks.length]
    return { report with files := report.files ++ [⟨path, blocks⟩] }

/-- Edits files in this order. -/
def editAll (s : Settings) (plan : EditPlan) (write : Bool) (paths : List Text) :
    Run EditReport :=
  paths.foldlM (editFile s plan write) { written := write }

end Files

end DocComment
