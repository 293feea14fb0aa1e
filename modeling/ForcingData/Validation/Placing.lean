import ForcingData.Validation.File

/-! # Placing files

A file without failures is put below a root, at the path that its metadata prescribes. -/

namespace ForcingData

inductive PlacingError
  | notValid (path : Path)
  | metadata (path : Path) (error : Metadata.Error)
  | build (path : Path) (error : Drs.BuildError)
  | write (error : WriteError)
deriving DecidableEq, Repr

def PlacingError.message : PlacingError → String
  | .notValid path =>
    s!"'{path.text}' did not pass validation, so it is not written into the DRS"
  | .metadata path e => s!"The metadata of '{path.text}' is invalid: {e.message}"
  | .build path e => s!"Could not derive the DRS path of '{path.text}': {e.message}"
  | .write e => e.message

namespace FileValidation

/-- Where the file belongs below a root. -/
def target? (v : FileValidation) (cv : Vocabularies) (root : Path) : Except PlacingError Path :=
  if v.findings.hasFailures then .error (.notValid v.path)
  else
    match Metadata.ofFile? v.attributes cv with
    | .error e => .error (.metadata v.path e)
    | .ok m =>
      match cv.drs.buildPath m.attributes with
      | .error e => .error (.build v.path e)
      | .ok spec => .ok (root.join spec.path)

/-- Puts the file where it belongs. -/
def place (v : FileValidation) (cv : Vocabularies) (root : Path) (writer : Writer) :
    Disk PlacingError Path := do
  let target ← Disk.ask fun _ => v.target? cv root
  (writer v.path target).withError .write
  return target

end FileValidation
end ForcingData
