import RcppDeepState.Exports.Lemmas.Arguments

/-!
# Reading back a written exports file

The two tables read from the file that `compileAttributes` writes are the functions and the parameters it
was written for.
-/

namespace RcppDeepState

/-- An argument row up to the blanks around its texts. -/
def ArgRow.strip (r : ArgRow) : Text × Text × Text :=
  (r.funName.strip, r.argumentType.strip, r.argumentName.strip)

/-- The parameters of a function, each with the function it belongs to. -/
def Export.parameters (e : Export) : List (Text × Text × Text) :=
  e.params.map fun p => (e.name.strip, p.type.strip, p.name.strip)

/-- What the details table says of a function. -/
def Details.signature (d : Details) : Text × Text × Text := (d.returnType, d.funName, d.arguments)

def Export.signature (e : Export) : Text × Text × Text := (e.returnType, e.name, e.arguments)

theorem Details.signature_ofExport (symbol : Text) (e : Export) :
    (Details.ofExport symbol e).signature = e.signature := rfl

/-- A row differs from its parameter in one blank behind the type and one before the name. -/
theorem ArgRow.strip_argRows (e : Export) : e.argRows.map ArgRow.strip = e.parameters := by
  rw [Export.argRows, List.map_map]
  refine List.map_congr_left ?_
  intro p _
  simp only [Function.comp_apply, ArgRow.strip, Text.strip_append_blank, Text.strip_blank_cons]

/-- Reading the file of a list of functions gives one row for each function, in order, and the parameters of
all functions, in order; a file without a function has no argument table. -/
theorem exports_read_back (f : ExportsFile) :
    ∃ details, deepstateGetPackageDetails (some f.text) = .ok details ∧
      details.map Details.signature = f.exports.map Export.signature ∧
      (f.exports = [] → deepstateGetFunctionBody details = none) ∧
      (f.exports ≠ [] → ∃ rows, deepstateGetFunctionBody details = some rows ∧
        rows.map ArgRow.strip = f.exports.flatMap Export.parameters) := by
  have hbody := @functionBody_details f.symbol _ f.names_nodup
  refine ⟨_, packageDetails_text f, ?_, fun hnil => ?_, fun hne => ?_⟩
  · rw [List.map_map]
    exact List.map_congr_left fun e _ => Details.signature_ofExport f.symbol e
  · rw [hbody, if_pos hnil]
  · refine ⟨_, by rw [hbody, if_neg hne], ?_⟩
    rw [List.map_flatMap]
    exact List.flatMap_congr fun e _ => ArgRow.strip_argRows e

end RcppDeepState
