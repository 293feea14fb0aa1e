import ForcingData.Proofs.Url.RoundTrip

/-! # URLs of directories

The path of a directory's URL ends in a slash. Such a URL is the one to which `asDirectory` adds
nothing (`IsWeb.asDirectory_eq_iff`), and the one beside which a file is in the directory
(`IsWeb.text_beside_iff`). Whether a path that is read ends in a slash is seen from its last name
(`getLast?_segmentsOf`). -/

namespace ForcingData.Url
open Text

/-- The path ends in a slash: its last name is empty. -/
def IsDirectory (u : Url) : Prop := ∃ names, u.route = .segments (names ++ [""])

/-- What a relative path names, seen from a URL: it stands in the place of the last name, and of
query and fragment. -/
def beside (u : Url) (path : String) : Url :=
  match u.route with
  | .segments names =>
    let pieces := (splitSlashes true path.toList).map (percentEncode escapedInPath)
    let path := addSegments false (names.dropLast.map String.toList) pieces
    { u with route := .segments (path.map String.ofList), query := none, fragment := none }
  | .opaqueText _ => u

theorem text_segments_append (names : List String) (last : String) :
    (Route.segments (names ++ [last])).text = (Route.segments names).text ++ ("/" ++ last) := by
  simp [Route.text, String.join]

section
variable {u : Url} (h : u.IsWeb)
include h

theorem IsWeb.exists_last : ∃ names last, u.route = .segments (names ++ [last]) ∧
    IsSegment last.toList := by
  obtain ⟨names, hroute, hne, hsegments⟩ := h.route
  refine ⟨names.dropLast, names.getLast hne, ?_, hsegments _ (List.getLast_mem hne)⟩
  rw [List.dropLast_append_getLast hne, hroute]

omit h in
theorem isDirectory_iff {names : List String} {last : String}
    (hroute : u.route = .segments (names ++ [last])) : u.IsDirectory ↔ last = "" := by
  constructor
  · rintro ⟨names', hroute'⟩
    have he := Route.segments.inj (hroute.symm.trans hroute')
    exact (List.append_singleton_inj.mp he).2
  · rintro rfl
    exact ⟨names, hroute⟩

theorem IsWeb.isDirectory_asDirectory : u.asDirectory.IsDirectory := by
  obtain ⟨names, last, hroute, -⟩ := h.exists_last
  by_cases hlast : last = ""
  · exact ⟨names, by simp [Url.asDirectory, hroute, hlast]⟩
  · exact ⟨names ++ [last], by simp [Url.asDirectory, hroute, hlast]⟩

theorem IsWeb.asDirectory_eq_iff : u.asDirectory = u ↔ u.IsDirectory := by
  constructor
  · intro he
    rw [← he]
    exact h.isDirectory_asDirectory
  · rintro ⟨names, hroute⟩
    simp [Url.asDirectory, hroute]

theorem IsWeb.getLast?_route_iff :
    u.route.text.toList.getLast? = some '/' ↔ u.IsDirectory := by
  obtain ⟨names, last, hroute, hsegment⟩ := h.exists_last
  rw [isDirectory_iff hroute, hroute, text_segments_append]
  constructor
  · intro hlast
    by_contra hne
    have hne' : last.toList ≠ [] := by simpa using hne
    rw [String.toList_append, String.toList_append, ← List.append_assoc,
      List.getLast?_append_of_ne_nil _ hne', List.getLast?_eq_some_getLast hne'] at hlast
    have hslash : last.toList.getLast hne' = '/' := Option.some.inj hlast
    have hmem := hsegment.slash _ (List.getLast_mem hne')
    rw [hslash] at hmem
    exact absurd hmem (by decide)
  · rintro rfl
    simp

/-- A file beside a URL is in its directory if the URL is one of a directory, and else in another
one. -/
theorem IsWeb.text_beside_iff {file : String} (hfile : IsSegment file.toList) :
    (u.beside file).route.text = u.route.text ++ file ↔ u.IsDirectory := by
  obtain ⟨names, last, hroute, -⟩ := h.exists_last
  have hsplit : splitSlashes true file.toList = [file.toList] := by
    rw [splitSlashes_eq_splitChars, Path.splitChars_of_forall hfile.slash]
  have hbeside : (u.beside file).route = .segments (names ++ [file]) := by
    have hadd : addSegments false (names.map String.toList) [file.toList] =
        names.map String.toList ++ [file.toList] :=
      addSegments_of_isSegment (List.forall_mem_singleton.mpr hfile)
    simp [beside, hroute, hsplit, percentEncode_of_isSpared hfile.spared, hadd, Function.comp_def]
  rw [isDirectory_iff hroute, hbeside, hroute, text_segments_append, text_segments_append,
    ← String.toList_inj]
  simp

end

/-! ### The last name -/

/-- The name at the end of a path, as it is kept: none after a slash, and none for dots. -/
def endName (cs : List Char) : List Char :=
  let name := percentEncode escapedInPath ((splitSlashes true cs).getLastD [])
  if isDoubleDot name || isSingleDot name then [] else name

section
variable {path pieces : List (List Char)} {piece cs : List Char}

theorem getLast?_addSegments : ∀ {pieces path : List (List Char)} {piece : List Char},
    pieces.getLast? = some piece → (addSegments false path pieces).getLast? =
      some (if isDoubleDot piece || isSingleDot piece then [] else piece)
  | [piece], path, _, h => by
    obtain rfl := Option.some.inj h
    simp only [addSegments, addSegment]
    split_ifs <;> simp_all
  | piece :: next :: pieces, path, _, h => by
    -- what was carried out before the last piece may be dropped again, but is not the end
    rw [addSegments_cons_cons]
    exact getLast?_addSegments (by simpa using h)

theorem getLast?_segmentsOf (cs : List Char) :
    (segmentsOf .special cs).getLast? = some (String.ofList (endName cs)) := by
  have hne : splitSlashes true cs ≠ [] := by
    rw [splitSlashes_eq_splitChars]
    exact splitChars_ne_nil _ cs
  show ((addSegments false [] ((splitSlashes true cs).map
    (percentEncode escapedInPath))).map String.ofList).getLast? = _
  rw [List.getLast?_map, getLast?_addSegments (by rw [List.getLast?_map,
    List.getLast?_eq_some_getLast hne, Option.map_some]), Option.map_some, endName,
    List.getLastD_eq_getLast?, List.getLast?_eq_some_getLast hne, Option.getD_some]

theorem endName_append_slash (before : List Char) :
    endName (before ++ '/' :: cs) = endName cs := by
  have hsplit : (splitSlashes true (before ++ '/' :: cs)).getLastD [] =
      (splitSlashes true cs).getLastD [] := by
    simp only [splitSlashes_eq_splitChars]
    rw [Path.splitChars_append_cons (by decide), List.getLastD_eq_getLast?,
      List.getLast?_append_of_ne_nil _ (splitChars_ne_nil _ cs), List.getLastD_eq_getLast?]
  rw [endName, hsplit, endName]

end

end ForcingData.Url
