import DocComment.Command.Run
import DocComment.Proofs.Token.Source

/-!
# The check of the round trip

A comment is cut into tokens without loss: the tokens are not empty, each starts where the one
before it ends, and each is the part of the comment that its bytes say (`isLossless_scan`). So a
block that was read and not edited joins to the comment that it was read from and prints as that
comment, and the check of a file finds no mismatch (`mismatch?_eq_none`), nor does the check of many
files (`mismatches_checkFile`, `mismatches_foldl`).
-/

namespace DocComment

open Text

/-! ### Tokens without loss -/

namespace Token

/-- The tokens cover the text from its start to its end, without a gap and without sharing. -/
structure IsLossless (raw : Text) (ts : List Token) : Prop where
  ne_nil : ∀ t ∈ ts, t.text ≠ []
  start_head : ∀ t, ts.head? = some t → t.start = 0
  chain : ts.IsChain fun t u => u.start = t.stop
  stop_last : ∀ t, ts.getLast? = some t → t.stop = byteSize raw
  /-- The slice is there only if both ends are boundaries of characters. -/
  slice_eq : ∀ t ∈ ts, slice? t.start t.stop raw = some t.text
  source_eq : source ts = raw

lemma Consecutive.isChain {start : Nat} {ts : List Token} (h : Consecutive start ts) :
    ts.IsChain fun t u => u.start = t.stop := by
  induction ts generalizing start with
  | nil => exact List.IsChain.nil
  | cons t ts ih =>
    obtain ⟨-, hts⟩ := h
    cases ts with
    | nil => exact List.IsChain.singleton t
    | cons u us => exact List.IsChain.cons_cons hts.1 (ih hts)

/-- Tokens that follow each other from the start on cover the text that they join to. -/
lemma Consecutive.isLossless {ts : List Token} (h : Consecutive 0 ts)
    (hne : ∀ t ∈ ts, t.text ≠ []) : IsLossless (source ts) ts where
  ne_nil := hne
  start_head t ht := by
    obtain ⟨us, rfl⟩ := List.head?_eq_some_iff.1 ht
    exact h.1
  chain := h.isChain
  stop_last t ht := by
    obtain ⟨us, rfl⟩ := List.getLast?_eq_some_iff.1 ht
    rw [h.stop_eq, Nat.zero_add]
  slice_eq t ht := by
    obtain ⟨us, vs, rfl⟩ := List.append_of_mem ht
    have hstart : t.start = byteSize (source us) := by rw [h.start_eq, Nat.zero_add]
    rw [stop, hstart, source_append, source_cons, ← List.append_assoc]
    exact slice?_append _ _ _
  source_eq := rfl

/-- A comment is cut into tokens without loss. -/
lemma isLossless_scan (raw : Text) : IsLossless raw (scan raw) := by
  have h := (consecutive_scan raw).isLossless text_ne_nil_of_mem_scan
  rwa [source_scan] at h

end Token

/-! ### The check -/

/-- The block of a declaration that has a comment but no block yet. -/
lemma Declaration.block?_attachOrEmpty (rules : Rules) {d : Declaration} {raw : Text}
    (hdoc : d.doc? = some raw) (hblock : d.block? = none) :
    (d.attachOrEmpty rules).block? = some (Block.read rules d.id raw) := by
  simp [attachOrEmpty, attach, attachEmpty, readBlock?, hdoc, hblock]

namespace SourceFile

/-- A declaration of a file documents its entry, and has no block yet. -/
lemma of_mem_zip {f : SourceFile} {e : SourceEntry} {d : Declaration}
    (h : (e, d) ∈ f.entries.zip f.declarations) :
    d.doc? = some (f.blockText e) ∧ d.block? = none := by
  obtain ⟨i, hi⟩ := List.getElem?_of_mem h
  obtain ⟨he, hd⟩ : f.entries[i]? = some e ∧ f.declarations[i]? = some d :=
    List.getElem?_zip_eq_some.1 hi
  rw [declarations, List.getElem?_map, List.getElem?_zipIdx, he] at hd
  obtain rfl := Option.some.inj hd
  exact ⟨rfl, rfl⟩

/-- A block that was just read is printed as the comment that it was read from. -/
lemma mismatch?_eq_none (rules : Rules) (p : Printer) {f : SourceFile} {e : SourceEntry}
    {d : Declaration} (hdoc : d.doc? = some (f.blockText e)) (hblock : d.block? = none) :
    f.mismatch? rules p e d = none := by
  set b := Block.read rules d.id (f.blockText e) with hb
  have hattach : (d.attachOrEmpty rules).block? = some b :=
    Declaration.block?_attachOrEmpty rules hdoc hblock
  have hsource : Token.source b.tokens = f.blockText e := Token.source_scan _
  have hprint : d.print p b = .ok (f.blockText e) := by
    simp [Declaration.print, Block.print, hb, Block.read]
    rfl
  simp only [mismatch?, hattach, hsource, hprint]
  simp

end SourceFile

namespace RoundTripReport

/-- Checking a file leaves the mismatches as they were. -/
lemma mismatches_checkFile (s : Settings) (report : RoundTripReport) (path : Text)
    (result : Except Failure SourceFile) :
    (report.checkFile s path result).mismatches = report.mismatches := by
  cases result with
  | error cause => rfl
  | ok f =>
    simp only [checkFile, List.append_right_eq_self, List.filterMap_eq_nil_iff]
    rintro ⟨e, d⟩ hmem
    obtain ⟨hdoc, hblock⟩ := SourceFile.of_mem_zip hmem
    exact SourceFile.mismatch?_eq_none _ _ hdoc hblock

lemma mismatches_foldl (s : Settings) (results : List (Text × Except Failure SourceFile))
    (report : RoundTripReport) :
    (results.foldl (fun report (path, result) => report.checkFile s path result) report).mismatches
      = report.mismatches := by
  induction results generalizing report with
  | nil => rfl
  | cons r results ih => rw [List.foldl_cons, ih, mismatches_checkFile]

/-- Cutting a comment into tokens loses nothing. So no comment of any source text, and of no file
that the command checks, is found to differ from what is printed for it. -/
theorem lossless_roundTrip :
    (∀ raw, Token.IsLossless raw (Token.scan raw)) ∧
      (∀ (s : Settings) (path : Text) (l : Language) (source : Text),
        ∀ x ∈ (SourceFile.extract path l source).entries.zip
            (SourceFile.extract path l source).declarations,
          (SourceFile.extract path l source).mismatch? s.rules s.printer x.1 x.2 = none) ∧
      ∀ (s : Settings) (results : List (Text × Except Failure SourceFile)),
        (ofFiles s results).mismatches = [] := by
  refine ⟨Token.isLossless_scan, fun s path l source x hx => ?_, fun s results => ?_⟩
  · obtain ⟨hdoc, hblock⟩ := SourceFile.of_mem_zip hx
    exact SourceFile.mismatch?_eq_none _ _ hdoc hblock
  · exact mismatches_foldl s results {}

/-- Of two openings, the second in the first comment, one comment is extracted and checked. -/
theorem lossless_roundTrip_of_nested_opening :
    let f := SourceFile.extract "a.ts".toList .typescript
      "  /** é /** @x*/ let a;\r\n/** open".toList
    ∃ x ∈ f.entries.zip f.declarations,
      f.blockText x.1 = "/** é /** @x*/".toList ∧
        f.mismatch? ({} : Settings).rules ({} : Settings).printer x.1 x.2 = none := by
  intro f
  obtain ⟨x, hx, htext⟩ : ∃ x ∈ f.entries.zip f.declarations,
      f.blockText x.1 = "/** é /** @x*/".toList := by decide +kernel
  exact ⟨x, hx, htext, RoundTripReport.lossless_roundTrip.2.1 {} _ _ _ x hx⟩

end RoundTripReport

/-- So the command passes, whatever files there are. -/
theorem Command.code_roundTrip (s : Settings) (path : Text) (format : Report.Format)
    (state : RunState) :
    ∃ output state', (Command.runWith s (.roundTrip path format)).run.run state
      = (.ok { code := 0, output }, state') := by
  set results := (state.files.collect s.scan path).map fun path => (path, state.files.extract path)
  have hpassed : (RoundTripReport.ofFiles s results).passed := by
    rw [RoundTripReport.passed, RoundTripReport.ofFiles, RoundTripReport.mismatches_foldl]
    rfl
  have hcode : (if (RoundTripReport.ofFiles s results).passed then 0 else 1) = 0 := if_pos hpassed
  refine ⟨(RoundTripReport.ofFiles s results).write format false ++ ['\n'],
    { state with
      notices := state.notices ++ results.map fun (path, result) => .ofExtract path result }, ?_⟩
  rw [← hcode]
  rfl

end DocComment
