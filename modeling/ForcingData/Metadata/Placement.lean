import ForcingData.Metadata.Basic

/-! # Where a file belongs

The path of a file is checked against the one that its metadata prescribes, part by part from the
end: all of it, or its name alone. -/

namespace ForcingData

/-- How much of a path is checked. -/
inductive DrsCheck
  | fileName
  | fullPath
deriving DecidableEq, Repr, Inhabited

namespace DrsCheck

def rule : DrsCheck → String
  | .fileName => "filename_according_to_drs"
  | .fullPath => "file_written_according_to_drs"

/-- The end that the path has to have. -/
def expected (check : DrsCheck) (spec : Drs.PathSpec) : Path :=
  match check with
  | .fileName => ⟨spec.fileName⟩
  | .fullPath => spec.path

/-- Checks the end of a path against the metadata. -/
def validate (check : DrsCheck) (drs : Drs) (path : Path) (m : Metadata) : Finding :=
  let finding : Finding := match drs.buildPath m.attributes with
    | .error (.missingField key) =>
      .fail check.rule .missingAttribute
        s!"Can not derive the DRS path, attribute '{key}' is missing"
    | .error e => .fail check.rule .drsMismatch e.message
    | .ok spec =>
      let expected := check.expected spec
      if path.endsWith expected then .pass check.rule s!"Path ends with '{expected.text}'"
      else
        .fail check.rule .drsMismatch
          (s!"File is at '{path.text}', but according to its metadata and the DRS it should end "
            ++ s!"with '{expected.text}'")
  finding.withTarget path.text

end DrsCheck
end ForcingData
