import ForcingData.Json.Encode
import ForcingData.Vocabulary.Basic

/-! # Overviews of the vocabularies

What the vocabularies hold, as JSON: the whole set, or one of the larger entries by its id. -/

namespace ForcingData
open Json

def Activity.overview (id : String) (a : Activity) : Value :=
  .object [("id", .text id), ("url", .text a.url), ("long_name", .text a.longName),
    ("patterns", .texts a.patterns), ("restricts", .bool a.restricts)]

def License.overview (l : License) : Value :=
  .object [("conditions", .text l.conditions), ("license_url", .text l.url),
    ("long_name", .text l.longName)]

def Source.overview (id : String) (s : Source) : Value :=
  .object [("id", .text id), ("activity_id", .ofOption .text s.activityId),
    ("institution_id", .text s.institutionId), ("license_id", .text s.licenseId),
    ("mip_era", .text s.mipEra), ("contact", .text s.contact),
    ("further_info_url", .text s.furtherInfoUrl), ("source_version", .text s.sourceVersion),
    ("determined",
      .object (Category.all.map fun c => (c.name, .ofOption .text (s.determined? c))))]

def Vocabularies.overview (cv : Vocabularies) : Value :=
  let values (c : Category) : Value :=
    .ofOption (fun names => .texts names.keys) (cv.values? c)
  .object [("version", cv.version.json), ("version_text", .text cv.version.text),
    ("values", .object (Category.all.map fun c => (c.name, values c))),
    ("self_check", .texts cv.selfCheck),
    ("directory_template", .text cv.drs.directoryTemplate),
    ("filename_template", .text cv.drs.fileNameTemplate)]

end ForcingData
