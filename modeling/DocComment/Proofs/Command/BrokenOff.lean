import DocComment.Proofs.Command.EditedFile

/-!
# Runs that break off

A run over files breaks off at the first file with a comment that the plan fails for. The files in
front of it have been edited by then, and stay so. This can only happen if what fails is a payload
that is to replace another: it is looked at just where there is a tag of the name, while all other
arguments are looked at in every comment, and fail before anything is written
(`editAll_eq_error`).
-/

namespace DocComment.Files

open Text Block

section

variable {s : Settings} {plan : EditPlan}

/-- A run over a list breaks off at one of its elements, after a run over those in front of it. -/
lemma exists_of_foldlM_eq_error {α β : Type} {f : β → α → Run β} {xs : List α} {b : β}
    {st st' : RunState} {fault : Fault} (h : (xs.foldlM f b).run.run st = (.error fault, st')) :
    ∃ done x rest b' st₁, xs = done ++ x :: rest ∧ (done.foldlM f b).run.run st = (.ok b', st₁) ∧
      (f b' x).run.run st₁ = (.error fault, st') := by
  induction xs generalizing b st with
  | nil => cases h
  | cons x xs ih =>
    rw [List.foldlM_cons, ExceptT.run_bind, StateT.run_bind] at h
    rcases hx : (f b x).run.run st with ⟨fault' | b', st₁⟩
    · rw [hx] at h
      cases h
      exact ⟨[], x, xs, b, st, rfl, rfl, hx⟩
    · rw [hx] at h
      obtain ⟨done, y, rest, b'', st₂, rfl, hdone, hy⟩ := ih h
      refine ⟨x :: done, y, rest, b'', st₂, rfl, ?_, hy⟩
      rw [List.foldlM_cons, ExceptT.run_bind, StateT.run_bind, hx]
      exact hdone

/-- Where something is rejected that is removed or added, no file is changed. -/
lemma Edits.files_eq {fs : Files} {path : Text} {e : FileEdit} (h : Edits s plan fs path (.ok e))
    (hplan : ¬ plan.Accepted) : e.files fs = fs := by
  cases h with
  | skipped _ => rfl
  | unchanged _ _ => rfl
  | @changed f docs names source blocks hf hedit hblocks hnew hrewritten hfind hheld =>
    rcases f.editWith_cases s.rules s.printer plan with
      ⟨c, hc, -⟩ | ⟨docs', blocks', es, hok, htells, -, hempty⟩
    · rw [hc] at hedit
      cases hedit
    · rw [hok] at hedit
      cases hedit
      refine absurd ?_ hblocks
      rcases hempty with hempty | ⟨b, hb⟩
      · have hes : es = [] := List.map_eq_nil_iff.1 (htells.entries.trans hempty)
        rw [← htells.blocks, hes]
        rfl
      · have hfails := plan.fails_edit hplan b
        rw [hb] at hfails
        cases hfails

/-- Where something is rejected that is removed or added, a run changes no file. -/
lemma files_run_of_not_accepted (hplan : ¬ plan.Accepted) (write : Bool) (paths : List Text)
    (report : EditReport) (st : RunState) :
    ((paths.foldlM (editFile s plan write) report).run.run st).2.files = st.files := by
  induction paths generalizing report st with
  | nil => rfl
  | cons path paths ih =>
    obtain ⟨r, hr⟩ := exists_edits s plan st.files path
    obtain ⟨notices, hrun⟩ := run_editFile hr write report
    rw [List.foldlM_cons, ExceptT.run_bind, StateT.run_bind, hrun]
    cases r with
    | error c => rfl
    | ok e =>
      refine (ih _ _).trans ?_
      show (if write then e.files st.files else st.files) = st.files
      rw [hr.files_eq hplan, ite_self]

end

/-- A run that breaks off leaves the files as a run leaves them over the paths in front of the one
at which it breaks off. If it has changed any of them, then nothing is wrong with what is removed
and added, and it has broken off for the sake of a payload that is to replace another. -/
theorem editAll_eq_error {s : Settings} {plan : EditPlan} {write : Bool} {paths : List Text}
    {st st' : RunState} {fault : Fault}
    (h : (editAll s plan write paths).run.run st = (.error fault, st')) :
    ∃ c, fault = .failure c ∧
      (∃ done path rest f report st₁, paths = done ++ path :: rest ∧
        (editAll s plan write done).run.run st = (.ok report, st₁) ∧ st₁.files = st'.files ∧
        st'.files.extract path = .ok f ∧ f.editWith s.rules s.printer plan.edit = .error c) ∧
      (st'.files = st.files ∨
        plan.Accepted ∧ ∃ tag ∈ plan.replace, checkContent tag.2 = .error c) := by
  obtain ⟨done, path, rest, report, st₁, rfl, hdone, hpath⟩ := exists_of_foldlM_eq_error h
  obtain ⟨r, hr⟩ := exists_edits s plan st₁.files path
  obtain ⟨notices, hrun⟩ := run_editFile hr write report
  cases r with
  | ok e => cases hpath.symm.trans hrun
  | error c =>
    cases hpath.symm.trans hrun
    cases hr with
    | @failed f _ hf hedit =>
      refine ⟨c, rfl, ⟨done, path, rest, f, report, st₁, rfl, hdone, rfl, hf, hedit⟩, ?_⟩
      by_cases hplan : plan.Accepted
      · refine .inr ⟨hplan, ?_⟩
        rcases f.editWith_cases s.rules s.printer plan with
          ⟨c', hc', declaration?, raw, hcause⟩ | ⟨docs, blocks, es, hok, -⟩
        · cases hc'.symm.trans hedit
          exact plan.exists_of_edit_eq_error hplan hcause
        · cases hok.symm.trans hedit
      · refine .inl ?_
        have hfiles := @files_run_of_not_accepted s plan hplan write done { written := write } st
        rw [hdone] at hfiles
        exact hfiles

/-- A payload is rejected in the second file, for a tag that the first one has not. -/
theorem editAll_eq_error_second :
    let plan : EditPlan :=
      { replace := [("see".toList, ['*', '/'])], add := [("internal".toList, [])] }
    let st : RunState := { files := { entries := [
      (["a.php".toList], .text "/** A. */\nfunction a() {}\n".toList),
      (["b.php".toList], .text "/** @see A */\nfunction b() {}\n".toList)] } }
    let paths := ["a.php".toList, "b.php".toList]
    let result := (editAll {} plan true paths).run.run st
    result = (.error (.failure (.terminator ['*', '/'])), result.2) ∧
      ∃ c, Fault.failure (.terminator ['*', '/']) = .failure c ∧
        (∃ done path rest f report st₁, paths = done ++ path :: rest ∧
          (editAll {} plan true done).run.run st = (.ok report, st₁) ∧ st₁.files = result.2.files ∧
          result.2.files.extract path = .ok f ∧
          f.editWith ({} : Settings).rules ({} : Settings).printer plan.edit = .error c) ∧
        (result.2.files = st.files ∨
          plan.Accepted ∧ ∃ tag ∈ plan.replace, checkContent tag.2 = .error c) := by
  intro plan st paths result
  have hfault : result.1 = .error (.failure (.terminator ['*', '/'])) := by decide +kernel
  have hrun : result = (.error (.failure (.terminator ['*', '/'])), result.2) := Prod.ext hfault rfl
  exact ⟨hrun, editAll_eq_error hrun⟩

/-- A payload is rejected in the second file when the first one has been written. -/
theorem not_files_of_editAll_error :
    let plan : EditPlan :=
      { replace := [("see".toList, ['*', '/'])], add := [("internal".toList, [])] }
    let st : RunState := { files := { entries := [
      (["a.php".toList], .text "<?php\n/** A. */\nfunction a() {}\n".toList),
      (["b.php".toList], .text "<?php\n/** @see A */\nfunction b() {}\n".toList)] } }
    let result := (editAll {} plan true ["a.php".toList, "b.php".toList]).run.run st
    result.1 = .error (.failure (.terminator ['*', '/'])) ∧
      result.2.files.content? ["a.php".toList] =
        some (.text "<?php\n/**\n * A.\n * @internal\n */\nfunction a() {}\n".toList) ∧
      result.2.files.content? ["a.php".toList] ≠ st.files.content? ["a.php".toList] := by
  decide +kernel

end DocComment.Files
