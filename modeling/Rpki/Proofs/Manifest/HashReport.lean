import Rpki.Proofs.Manifest.HashCheck

/-!
# What the comparison with a manifest reports

Comparing files with a manifest asks, judges and writes log lines entry by entry.  It comes to the
same as asking for all files first and making one report of the answers in the end
(`Manifest.checkEntries_eq_report`), whatever monad the digester works in: no answer has a part in
which file is asked for next, and none keeps another from being reported.

The report is a matter of lists.  It has the answers that are not the listed hash, in order and as
often as they are there, so it is empty exactly if there are none
(`Manifest.report_value_eq_nil_iff`).
-/

set_option autoImplicit false

namespace Rpki

/-! ## Answers -/

/-- An entry of a manifest and what the digester says of its file. -/
structure Answered where
  entry : FileEntry
  answer : Except String Digest

namespace Answered

/-- The file has a digest, and it is the listed one. -/
def IsGood (a : Answered) : Prop := a.answer = .ok a.entry.hash

instance (a : Answered) : Decidable a.IsGood := inferInstanceAs (Decidable (_ = _))

/-- What is reported of a file that is not good. -/
def mismatch (a : Answered) : HashMismatch := ⟨a.entry.file, a.entry.hash, a.answer.toOption⟩

/-- The lines that are logged: one for a file that cannot be read, and one for any file that is not
good. -/
def lines (source directory : String) (a : Answered) : List LogEntry :=
  (match a.answer with
    | .ok _ => []
    | .error reason =>
      [⟨.warning, s!"{source}: cannot read {Path.join directory a.entry.file}: {reason}"⟩]) ++
  if a.IsGood then [] else [⟨.warning, s!"{source}: bad message digest for {a.entry.file}"⟩]

/-- What an answer means for its entry, as a report of one answer. -/
theorem judge_eq (source directory : String) (e : FileEntry) (answer : Except String Digest) :
    Manifest.judge source (Path.join directory e.file) e answer =
      ⟨if IsGood ⟨e, answer⟩ then none else some (mismatch ⟨e, answer⟩),
        lines source directory ⟨e, answer⟩⟩ := by
  cases answer with
  | error reason => rfl
  | ok actual =>
    have hgood : IsGood ⟨e, .ok actual⟩ ↔ actual = e.hash := by rw [IsGood, Except.ok.injEq]
    by_cases h : actual = e.hash
    · simp only [Manifest.judge, lines, hgood, if_pos h, List.nil_append]
    · simp only [Manifest.judge, lines, hgood, if_neg h, List.nil_append]
      rfl

end Answered

namespace Manifest

/-! ## Reports -/

/-- The mismatches among answers, and the lines for all of them. -/
def report (source directory : String) (answers : List Answered) :
    Logged (List HashMismatch) where
  value := (answers.filter fun a ↦ ¬ a.IsGood).map Answered.mismatch
  log := answers.flatMap (Answered.lines source directory)

theorem report_cons (source directory : String) (a : Answered) (answers : List Answered) :
    report source directory (a :: answers) =
      ⟨(if a.IsGood then none else some a.mismatch).toList ++
          (report source directory answers).value,
        a.lines source directory ++ (report source directory answers).log⟩ := by
  by_cases h : a.IsGood <;> simp [report, h]

theorem report_value_eq_nil_iff {source directory : String} {answers : List Answered} :
    (report source directory answers).value = [] ↔ ∀ a ∈ answers, a.IsGood := by
  simp [report]

/-! ## The comparison -/

variable {m : Type → Type} [Monad m]

/-- Asks for the files of entries, one after the other. -/
def inspect (digester : Digester m) (directory : String) (entries : List FileEntry) :
    m (List Answered) :=
  entries.mapM fun e ↦ return ⟨e, ← digester (Path.join directory e.file)⟩

variable [LawfulMonad m]

/-- **The comparison is a report of all answers.** -/
theorem checkEntries_eq_report (digester : Digester m) (directory source : String)
    (entries : List FileEntry) :
    checkEntries digester directory source entries =
      (do return report source directory (← inspect digester directory entries)) := by
  induction entries with
  | nil => simp [checkEntries, inspect, report]
  | cons e entries ih =>
    simp only [checkEntries, Answered.judge_eq, ih, inspect, List.mapM_cons, bind_assoc, pure_bind,
      report_cons]

/-- **The comparison reports exactly the bad files.**  It asks for the file of each entry once and
in order, and what it returns is the report of the answers.  That has no mismatches exactly if every
file has the listed hash. -/
theorem checkFiles_reports (manifest : Manifest) (digester : Digester m) (directory : String) :
    (checkFiles manifest digester.traced directory).run [] = (do
        return (← checkFiles manifest digester directory,
          manifest.files.map fun e ↦ Path.join directory e.file)) ∧
      checkFiles manifest digester directory = (do
        return report manifest.path directory (← inspect digester directory manifest.files)) ∧
      ∀ answers : List Answered,
        (report manifest.path directory answers).value = [] ↔ ∀ a ∈ answers, a.IsGood := by
  refine ⟨?_, checkEntries_eq_report digester directory manifest.path manifest.files,
    fun _ ↦ report_value_eq_nil_iff⟩
  rw [checkFiles, checkFiles, run_checkEntries_traced, List.nil_append]

/-- A good file, one with another hash, which is on the list twice, and one that cannot be read. -/
theorem checkFiles_reports_four_entries :
    let t : Time := ⟨1631880000, 0, by decide, by decide, by decide⟩
    let x : Digest := ⟨List.replicate 32 0xAB, rfl⟩
    let y : Digest := ⟨List.replicate 32 0xCD, rfl⟩
    let manifest : Manifest := ⟨"a.mft", .ofNat 200, ⟨t, t⟩, false,
      [⟨"b.crl", y⟩, ⟨"a.roa", x⟩, ⟨"c.roa", x⟩, ⟨"b.crl", y⟩], "AB", "CD", none⟩
    let digester : Digester Id := fun path ↦
      pure (if path = "repo/c.roa" then .error "no such file" else .ok x)
    let bad (file : String) : LogEntry := ⟨.warning, "a.mft: bad message digest for " ++ file⟩
    let result := (checkFiles manifest digester "repo").run
    result.value = [⟨"b.crl", y, some x⟩, ⟨"c.roa", x, none⟩, ⟨"b.crl", y, some x⟩] ∧
      result.log = [bad "b.crl", ⟨.warning, "a.mft: cannot read repo/c.roa: no such file"⟩,
        bad "c.roa", bad "b.crl"] ∧
      ((checkFiles manifest digester.traced "repo").run []).run.2 =
        ["repo/b.crl", "repo/a.roa", "repo/c.roa", "repo/b.crl"] := by
  intro t x y manifest digester bad result
  obtain ⟨htraced, hreport, -⟩ := checkFiles_reports manifest digester "repo"
  have hresult : result = report "a.mft" "repo" (inspect digester "repo" manifest.files).run :=
    congrArg Id.run hreport
  rw [hresult, htraced]
  refine ⟨?_, ?_, ?_⟩ <;> decide +kernel +zetaReduce

end Manifest

end Rpki
