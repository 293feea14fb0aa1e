import ForcingData.Metadata.Attributes
import ForcingData.Text.Digit
import ForcingData.Time.Parser
import ForcingData.Vocabulary.Basic

/-! # Rules on metadata

Each rule looks at the attributes of one file and makes exactly one finding. A rule that needs an
attribute that is not there, or that comes to no verdict, fails. -/

namespace ForcingData
open Text

inductive Rule
  /-- The value of a category is one that the vocabularies allow. -/
  | valueInCvs (c : Category)
  /-- Activity and source go together. -/
  | activitySource
  /-- A value is the one that the source prescribes. -/
  | sourceDetermined (c : Category)
  /-- The license text is that of the license. -/
  | licenseText
  | contactFormat
  | furtherInfoUrlFormat
  | trackingIdFormat
  | creationDateFormat
  | conventionsFormat
  | variableIdCharacters
  | commentContent
  | externalVariables
deriving DecidableEq, Repr

namespace Rule

/-- All rules, in the order they run. -/
def all : List Rule :=
  ([.activityId, .sourceId, .institutionId, .licenseId, .mipEra, .targetMip, .datasetCategory,
      .product, .frequency, .gridLabel, .realm] : List Category).map valueInCvs
    ++ activitySource
    :: ([.institutionId, .contact, .furtherInfoUrl, .licenseId, .mipEra, .sourceVersion] :
        List Category).map sourceDetermined
    ++ [licenseText, contactFormat, furtherInfoUrlFormat, trackingIdFormat, creationDateFormat,
      conventionsFormat, variableIdCharacters, commentContent, externalVariables]

def id : Rule → String
  | valueInCvs c => c.valueRule
  | activitySource => Category.crossRule .activityId .sourceId
  | sourceDetermined c => Category.crossRule .sourceId c
  | licenseText => "license_text"
  | contactFormat => "contact_format"
  | furtherInfoUrlFormat => "further_info_url_format"
  | trackingIdFormat => "tracking_id_format"
  | creationDateFormat => "creation_date_format"
  | conventionsFormat => "conventions_format"
  | variableIdCharacters => "variable_id_characters"
  | commentContent => "comment_content"
  | externalVariables => "external_variables"

/-! ### Formats -/

def isAddressChar (c : Char) : Bool := c != '@' && c != ';' && !isBlank c

/-- A name, an `@`, and a domain with a dot inside. -/
def isEmail (cs : List Char) : Bool :=
  match splitChars (· == '@') cs with
  | [name, domain] =>
    name ≠ [] && name.all isAddressChar && domain.all isAddressChar
      && (domain.drop 1).dropLast.contains '.'
  | _ => false

def isHexDigit (c : Char) : Bool := (Url.hexValue? c).isSome

/-- The hexadecimal digits of an identifier written in groups of 8, 4, 4, 4 and 12. -/
def hyphenatedDigits? (cs : List Char) : Option (List Char) :=
  let groups := splitChars (· == '-') cs
  if groups.map List.length = [8, 4, 4, 4, 12] && groups.all (·.all isHexDigit) then
    some groups.flatten
  else none

/-- The 32 digits of a universal identifier: without hyphens, with them, and then also in braces or
after `urn:uuid:` in letters of any case. -/
def uuidDigits? (cs : List Char) : Option (List Char) :=
  if cs.length = 32 then (if cs.all isHexDigit then some cs else none)
  else if cs.length = 36 then hyphenatedDigits? cs
  else if cs.length = 38 then
    if cs.head? = some '\x7b' && cs.getLast? = some '\x7d' then
      hyphenatedDigits? (cs.drop 1).dropLast
    else none
  else if (cs.take 9).map Char.toLower = "urn:uuid:".toList then hyphenatedDigits? (cs.drop 9)
  else none

def uuidVersion? (cs : List Char) : Option Nat :=
  (uuidDigits? cs).bind fun digits => digits[12]?.bind Url.hexValue?

def trackingIdPrefix : String := "hdl:21.14100/"

/-- Is it a random identifier, after the prefix of the handle system? -/
def isTrackingId (s : String) : Bool :=
  match Text.dropPrefix? trackingIdPrefix.toList s.toList with
  | some rest => uuidVersion? rest = some 4
  | none => false

def creationDateForm : String := "dddd-dd-ddTdd:dd:ddZ"

/-- A time such as `2000-01-31T23:59:60Z`, on a day that exists; a minute may have a second 60. -/
def isCreationDate (cs : List Char) : Bool :=
  hasForm creationDateForm.toList cs && (Instant.ofStamp? cs).isSome

/-- `CF-`, a number, a dot, and a number, in the digits of any script. -/
def isConventions (cs : List Char) : Bool :=
  match Text.dropPrefix? "CF-".toList cs with
  | some rest =>
    match splitChars (· == '.') rest with
    | [major, minor] => major ≠ [] && major.all isDigit && minor ≠ [] && minor.all isDigit
    | _ => false
  | none => false

def isWordChar (c : Char) : Bool := c.isAlphanum || c == '_'

def isVariableId (cs : List Char) : Bool := cs ≠ [] && cs.all isWordChar

def isIdentifier (cs : List Char) : Bool :=
  cs.head?.any Char.isAlpha && cs.all isWordChar

def isControl (c : Char) : Bool := c.toNat < 0x20 || (0x7f ≤ c.toNat && c.toNat ≤ 0x9f)

def maxCommentLength : Nat := 4096

/-! ### Checks -/

/-- Why there is no finding. -/
inductive Failure
  | missingAttribute (key : String)
  | noVerdict (reason : String)
deriving DecidableEq, Repr

def need (attributes : Attributes) (key : String) : Except Failure String :=
  match attributes.get? key with
  | some value => .ok value
  | none => .error (.missingAttribute key)

/-- The value of a category; without it the rule fails or passes, as the category is required. -/
def ifSet (attributes : Attributes) (c : Category) (id : String) (check : String → Finding) :
    Except Failure Finding :=
  match attributes.get? c.name with
  | some value => .ok (check value)
  | none =>
    if Metadata.isRequired c.name then .error (.missingAttribute c.name)
    else .ok (.pass id s!"{c.name} is not set")

/-- The license that the file names, or else the one of its source. -/
def licenseId (attributes : Attributes) (cv : Vocabularies) : Except Failure (Option String) :=
  match attributes.get? "license_id" with
  | some licenseId => .ok (some licenseId)
  | none => do
    return (cv.sources.get? (← need attributes "source_id")).map (·.licenseId)

/-- The first of the names that is not well formed, or that was there before. -/
def externalFault? (seen : List String) : List String → Option (Fault × String)
  | [] => none
  | name :: names =>
    if !isIdentifier name.toList then
      some (.invalidFormat, s!"external_variables entry {quoted name} is not a valid variable name")
    else if seen.contains name then
      some (.notUnique, s!"external_variables lists {quoted name} more than once")
    else externalFault? (name :: seen) names

def checkExternal (attributes : Attributes) (id : String) (names : List String) :
    Except Failure Finding :=
  match externalFault? [] names with
  | some (fault, message) => .ok (.fail id fault message)
  | none =>
    match (attributes.get? "variable_id").filter names.contains with
    | some variableId =>
      .ok (.fail id .datasetInconsistency
        s!"variable_id={quoted variableId} can not also be an external variable")
    | none =>
      if names = [] then .error (.noVerdict "external_variables is set but lists no names")
      else .ok (.pass id "external_variables are well-formed")

def commentFault? (comment : String) : Option String :=
  if trim comment = "" then some "comment is blank"
  else if maxCommentLength < comment.length then
    some s!"comment is longer than {maxCommentLength} characters"
  else if comment.toList.any fun c => isControl c && c != '\n' && c != '\t' then
    some "comment contains control characters"
  else none

def check (r : Rule) (attributes : Attributes) (cv : Vocabularies) : Except Failure Finding :=
  let formatFail (message : String) : Finding := .fail r.id .invalidFormat message
  match r with
  | valueInCvs c => ifSet attributes c r.id (cv.validateValue c)
  | activitySource => do
    let activityId ← need attributes "activity_id"
    let sourceId ← need attributes "source_id"
    return cv.validateCross .activityId activityId .sourceId sourceId
  | sourceDetermined c => do
    let sourceId ← need attributes "source_id"
    ifSet attributes c r.id (cv.validateCross .sourceId sourceId c)
  | licenseText => do
    let license ← need attributes "license"
    match ← licenseId attributes cv with
    | none => return .pass r.id "Unknown source_id, so no license to compare with"
    | some licenseId =>
      match cv.licenses.get? licenseId with
      | none =>
        return .pass r.id
          s!"license_id={quoted licenseId} is not in the CVs, so no text to compare with"
      | some entry =>
        if license = entry.conditions then return .pass r.id "license text matches license_id"
        else
          return .fail r.id .valueInconsistentWithCvs
            (s!"For license_id={quoted licenseId}, we should have "
              ++ s!"license={quoted entry.conditions}. Received license={quoted license}")
  | contactFormat => do
    let contact ← need attributes "contact"
    let invalid := ((splitAt ';' contact).map trim).filter (!isEmail ·.toList)
    if invalid = [] then return .pass r.id "contact holds valid email addresses"
    else
      return formatFail ("contact must be one or more ';'-separated email addresses; invalid: "
        ++ quotedList invalid)
  | furtherInfoUrlFormat => do
    let url ← need attributes "further_info_url"
    match Url.parse? url with
    | .ok parsed =>
      if parsed.scheme = "http" || parsed.scheme = "https" then
        return .pass r.id "further_info_url is a valid URL"
      else
        return formatFail
          s!"further_info_url={quoted url} has scheme '{parsed.scheme}', expected http(s)"
    | .error e => return formatFail s!"further_info_url={quoted url} is not a URL: {e.message}"
  | trackingIdFormat =>
    match attributes.get? "tracking_id" with
    | none => .ok (.pass r.id "tracking_id is not set")
    | some trackingId =>
      if isTrackingId trackingId then .ok (.pass r.id "tracking_id is well-formed")
      else
        .ok (formatFail (s!"tracking_id={quoted trackingId} must be '{trackingIdPrefix}' followed "
          ++ "by a version 4 UUID"))
  | creationDateFormat =>
    match attributes.get? "creation_date" with
    | none => .ok (.pass r.id "creation_date is not set")
    | some date =>
      if isCreationDate date.toList then .ok (.pass r.id "creation_date is well-formed")
      else
        .ok (formatFail (s!"creation_date={quoted date} must be a valid UTC time of the form "
          ++ "YYYY-MM-DDThh:mm:ssZ"))
  | conventionsFormat =>
    match attributes.get? "Conventions" with
    | none => .ok (.pass r.id "Conventions is not set")
    | some conventions =>
      if isConventions conventions.toList then .ok (.pass r.id "Conventions is well-formed")
      else
        .ok (formatFail
          s!"Conventions={quoted conventions} must be of the form 'CF-<major>.<minor>'")
  | variableIdCharacters => do
    let variableId ← need attributes "variable_id"
    if isVariableId variableId.toList then
      return .pass r.id "variable_id has only valid characters"
    else return formatFail s!"variable_id={quoted variableId} may only contain [a-zA-Z0-9_]"
  | commentContent =>
    match attributes.get? "comment" with
    | none => .ok (.pass r.id "comment is not set")
    | some comment =>
      match commentFault? comment with
      | some message => .ok (formatFail message)
      | none => .ok (.pass r.id "comment is fine")
  | externalVariables =>
    match attributes.get? "external_variables" with
    | none => .ok (.pass r.id "external_variables is not set")
    | some external => checkExternal attributes r.id (words external)

/-- The finding of the rule, whatever happens. -/
def run (r : Rule) (attributes : Attributes) (cv : Vocabularies) : Finding :=
  match r.check attributes cv with
  | .ok finding => finding
  | .error (.missingAttribute key) =>
    .fail r.id .missingAttribute
      s!"Attribute '{key}' is missing, so this rule could not be checked"
  | .error (.noVerdict reason) => .fail r.id .ruleError reason

/-- The findings of all rules; none stops the others. -/
def runAll (attributes : Attributes) (cv : Vocabularies) : Findings :=
  all.map (·.run attributes cv)

def requiredAttributeRule (key : String) : String := s!"required_attribute.{key}"

/-- A failure for each required attribute without a value, and the findings of all rules. -/
def validateAttributes (attributes : Attributes) (cv : Vocabularies) : Findings :=
  (Metadata.missing attributes).map (fun key =>
      .fail (requiredAttributeRule key) .missingAttribute
        s!"Required attribute '{key}' is missing")
    ++ runAll attributes cv

end Rule
end ForcingData
