import ForcingData.Proofs.Url.Authority

/-! # URLs, twice

Segments that were read are carried out already: they are no dots, and hold nothing that is to be
escaped (`isSegment_of_mem_segmentsOf`). So an address of the web that was read is in a normal form
(`isWeb_of_parse?`), and what it is written as is read as the same address (`IsWeb.parse?_text`). -/

namespace ForcingData.Url
open Text

/-! ### Paths -/

/-- A segment of a path that is read as itself. -/
structure IsSegment (name : List Char) : Prop where
  spared : IsSpared escapedInPath name
  slash : ∀ c ∈ name, isSlash true c = false
  doubleDot : isDoubleDot name = false
  singleDot : isSingleDot name = false

theorem isSegment_nil : IsSegment [] :=
  ⟨List.forall_mem_nil _, List.forall_mem_nil _, by decide, by decide⟩

section
variable {path pieces : List (List Char)} {segment cs : List Char}

theorem isSegment_addSegment (hpath : ∀ name ∈ path, IsSegment name)
    (hspared : IsSpared escapedInPath segment) (hslash : ∀ c ∈ segment, isSlash true c = false)
    (last : Bool) : ∀ name ∈ addSegment false path segment last, IsSegment name := by
  have hshorten : ∀ name ∈ shorten false path, IsSegment name := by
    unfold shorten
    split
    · simp
    · exact fun name hname => hpath name (List.dropLast_subset _ hname)
  have hempty {names : List (List Char)} (h : ∀ name ∈ names, IsSegment name) :
      ∀ name ∈ names ++ [[]], IsSegment name :=
    List.forall_mem_append.mpr ⟨h, List.forall_mem_singleton.mpr isSegment_nil⟩
  unfold addSegment
  split_ifs with hdouble hlast hsingle hlast hdrive
  · exact hempty hshorten
  · exact hshorten
  · exact hempty hpath
  · exact hpath
  · simp at hdrive
  · refine List.forall_mem_append.mpr ⟨hpath, List.forall_mem_singleton.mpr ?_⟩
    exact ⟨hspared, hslash, by simpa using hdouble, by simpa using hsingle⟩

theorem addSegments_cons_cons (file : Bool) (path : List (List Char)) (segment next : List Char)
    (rest : List (List Char)) : addSegments file path (segment :: next :: rest) =
      addSegments file (addSegment file path segment false) (next :: rest) := by
  rw [addSegments]
  exact List.cons_ne_nil next rest

theorem isSegment_addSegments : ∀ {pieces path : List (List Char)},
    (∀ name ∈ path, IsSegment name) →
    (∀ piece ∈ pieces, IsSpared escapedInPath piece ∧ ∀ c ∈ piece, isSlash true c = false) →
    ∀ name ∈ addSegments false path pieces, IsSegment name
  | [], path, hpath, _ => hpath
  | [piece], path, hpath, h =>
    have ⟨hspared, hslash⟩ := List.forall_mem_singleton.mp h
    isSegment_addSegment hpath hspared hslash true
  | piece :: next :: pieces, path, hpath, h => by
    have ⟨⟨hspared, hslash⟩, hrest⟩ := List.forall_mem_cons.mp h
    rw [addSegments_cons_cons]
    exact isSegment_addSegments (isSegment_addSegment hpath hspared hslash false) hrest

theorem addSegments_ne_nil : ∀ {pieces path : List (List Char)}, pieces ≠ [] →
    addSegments false path pieces ≠ []
  | [piece], path, _ => by
    unfold addSegments addSegment
    split_ifs <;> simp_all
  | piece :: next :: pieces, path, _ => by
    rw [addSegments_cons_cons]
    exact addSegments_ne_nil (List.cons_ne_nil next pieces)

theorem addSegments_of_isSegment : ∀ {names path : List (List Char)},
    (∀ name ∈ names, IsSegment name) → addSegments false path names = path ++ names
  | [], path, _ => (List.append_nil path).symm
  | [name], path, h => by
    have hname := List.forall_mem_singleton.mp h
    simp [addSegments, addSegment, hname.doubleDot, hname.singleDot]
  | name :: next :: names, path, h => by
    have ⟨hname, hrest⟩ := List.forall_mem_cons.mp h
    have ih : addSegments false (path ++ [name]) (next :: names) =
        (path ++ [name]) ++ (next :: names) := addSegments_of_isSegment hrest
    rw [addSegments_cons_cons]
    simp [addSegment, hname.doubleDot, hname.singleDot, ih]

theorem splitSlashes_eq_splitChars (special : Bool) (cs : List Char) :
    splitSlashes special cs = splitChars (isSlash special) cs := by
  induction cs with
  | nil => rfl
  | cons c cs ih =>
    cases hpieces : splitChars (isSlash special) cs <;>
      simp only [splitSlashes, splitChars, ih, hpieces]

theorem isSegment_of_mem_segmentsOf {name : String} (h : name ∈ segmentsOf .special cs) :
    IsSegment name.toList := by
  obtain ⟨segment, hsegment, rfl⟩ := List.mem_map.mp h
  rw [String.toList_ofList]
  refine isSegment_addSegments (List.forall_mem_nil _) (fun piece hpiece => ?_) segment hsegment
  obtain ⟨raw, hraw, rfl⟩ := List.mem_map.mp hpiece
  rw [show (decide (SchemeKind.special ≠ SchemeKind.other)) = true from rfl,
    splitSlashes_eq_splitChars] at hraw
  refine ⟨isSpared_percentEncode sparesEscapes_path raw, fun c hc => ?_⟩
  have hdigits : ∀ n < 16, isSlash true (hexDigitUpper n) = false := by decide
  rcases mem_percentEncode hc with hmem | rfl | ⟨n, hn, rfl⟩
  · exact Path.eq_false_of_mem_splitChars hraw c hmem
  · decide
  · exact hdigits n hn

theorem segmentsOf_ne_nil (cs : List Char) : segmentsOf .special cs ≠ [] := by
  refine List.map_eq_nil_iff.not.mpr (addSegments_ne_nil (List.map_eq_nil_iff.not.mpr ?_))
  rw [splitSlashes_eq_splitChars]
  exact splitChars_ne_nil _ cs

/-- A path without the slash before it. -/
def segmentChars (names : List String) : List Char := ['/'].intercalate (names.map String.toList)

theorem segmentsOf_segmentChars {names : List String} (hne : names ≠ [])
    (h : ∀ name ∈ names, IsSegment name.toList) :
    segmentsOf .special (segmentChars names) = names := by
  have hall : ∀ segment ∈ names.map String.toList, IsSegment segment := by
    simpa using h
  have hsplit : splitSlashes true (segmentChars names) = names.map String.toList := by
    rw [splitSlashes_eq_splitChars]
    exact Path.splitChars_intercalate (p := isSlash true) (by decide) (by simpa using hne)
      fun segment hsegment => (hall segment hsegment).slash
  have hencode : (names.map String.toList).map (percentEncode escapedInPath) =
      names.map String.toList := by
    refine (List.map_congr_left fun segment hsegment => ?_).trans (List.map_id _)
    exact percentEncode_of_isSpared (hall segment hsegment).spared
  have htexts : (names.map String.toList).map String.ofList = names := by
    simp [Function.comp_def]
  show (addSegments false [] ((splitSlashes true (segmentChars names)).map
    (percentEncode escapedInPath))).map String.ofList = names
  rw [hsplit, hencode, addSegments_of_isSegment hall, List.nil_append, htexts]

theorem toList_route {names : List String} (hne : names ≠ []) :
    (Route.segments names).text.toList = '/' :: segmentChars names := by
  obtain ⟨name, names, rfl⟩ := List.exists_cons_of_ne_nil hne
  have happend : ∀ (names : List String) (front : String),
      ((names.map ("/" ++ ·)).foldl (· ++ ·) front).toList =
        ['/'].intercalate (front.toList :: names.map String.toList) := by
    intro names
    induction names with
    | nil => simp
    | cons name names ih =>
      intro front
      rw [List.map_cons, List.foldl_cons, ih, List.map_cons, List.intercalate_cons_cons]
      cases names <;> simp [List.intercalate_cons_cons]
  rw [Route.text, String.join, List.map_cons, List.foldl_cons, happend, segmentChars]
  cases names <;> simp [List.intercalate_cons_cons]

theorem isSpared_segmentChars {names : List String} (h : ∀ name ∈ names, IsSegment name.toList) :
    IsSpared escapedInPath (segmentChars names) := by
  intro c hc
  rcases mem_intercalate hc with rfl | ⟨segment, hsegment, hmem⟩
  · decide
  · obtain ⟨name, hname, rfl⟩ := List.mem_map.mp hsegment
    exact (h name hname).spared c hmem

end

/-! ### The whole -/

/-- An address of the web in its normal form. -/
structure IsWeb (u : Url) : Prop where
  scheme : u.scheme = "http" ∨ u.scheme = "https"
  authority : ∃ a, u.authority = some a ∧ a.IsNormal u.scheme
  route : ∃ names, u.route = .segments names ∧ names ≠ [] ∧ ∀ name ∈ names, IsSegment name.toList
  query : ∀ q ∈ u.query, IsSpared (escapedInQuery true) q.toList
  fragment : ∀ f ∈ u.fragment, IsSpared escapedInFragment f.toList

theorem schemeKind_of_web {scheme : String} (h : scheme = "http" ∨ scheme = "https") :
    schemeKind scheme = .special := by
  rcases h with rfl | rfl <;> decide

/-- A query with the mark before it. -/
def queryChars : Option String → List Char
  | some q => '?' :: q.toList
  | none => []

/-- A fragment with the mark before it. -/
def fragmentChars : Option String → List Char
  | some f => '#' :: f.toList
  | none => []

section
variable {u : Url} {scheme : String} {cs : List Char}

theorem isSpared_map_ofList {escape : Char → Bool} (h : SparesEscapes escape)
    (o : Option (List Char)) :
    ∀ s ∈ o.map fun cs => String.ofList (percentEncode escape cs), IsSpared escape s.toList := by
  intro s hs
  obtain ⟨cs, -, rfl⟩ := Option.mem_map.mp hs
  rw [String.toList_ofList]
  exact isSpared_percentEncode h cs

theorem routeAfter_special (path : List Char) :
    ∃ names, routeAfter .special path = .segments names ∧ names ≠ [] ∧
      ∀ name ∈ names, IsSegment name.toList := by
  cases path with
  | nil => exact ⟨[""], rfl, by simp, List.forall_mem_singleton.mpr isSegment_nil⟩
  | cons c rest => exact ⟨_, rfl, segmentsOf_ne_nil _, fun _ => isSegment_of_mem_segmentsOf⟩

theorem isWeb_of_afterSlashes (hscheme : scheme = "http" ∨ scheme = "https")
    (h : afterSlashes scheme cs = .ok u) : u.IsWeb := by
  have hspecial := schemeKind_of_web hscheme
  simp only [afterSlashes, Except.bind_eq_ok] at h
  obtain ⟨a, ha, h⟩ := h
  obtain rfl := Except.ok.inj h
  have hquery : SparesEscapes (escapedInQuery (decide (schemeKind scheme ≠ .other))) :=
    sparesEscapes_query _
  refine ⟨hscheme, ⟨a, rfl, Authority.isNormal_of_authority? hspecial ha⟩, ?_, ?_,
    isSpared_map_ofList sparesEscapes_fragment _⟩
  · rw [hspecial]
    exact routeAfter_special _
  · rw [hspecial] at hquery
    simp only [assemble, hspecial]
    exact isSpared_map_ofList hquery _

theorem scheme_of_afterSlashes (h : afterSlashes scheme cs = .ok u) : u.scheme = scheme := by
  simp only [afterSlashes, Except.bind_eq_ok] at h
  obtain ⟨a, -, h⟩ := h
  obtain rfl := Except.ok.inj h
  rfl

theorem scheme_of_ofFile (h : ofFile cs = .ok u) : u.scheme = "file" := by
  have hscheme {host : Option Host} {cs : List Char}
      (h : Except.ok (afterFileHost host cs) = (Except.ok u : Except ParseError Url)) :
      u.scheme = "file" := by
    obtain rfl := Except.ok.inj h
    rfl
  unfold ofFile at h
  split at h
  · dsimp only at h
    split_ifs at h
    · exact hscheme h
    · obtain ⟨_, -, h⟩ := Except.bind_eq_ok.mp h
      exact hscheme h
    · exact hscheme h
  · exact hscheme h

theorem scheme_of_ofOther (h : ofOther scheme cs = .ok u) : u.scheme = scheme := by
  unfold ofOther at h
  split at h
  · exact scheme_of_afterSlashes h
  · dsimp only at h
    split at h <;> obtain rfl := Except.ok.inj h <;> rfl

theorem isWeb_of_parse? {s : String} (h : parse? s = .ok u)
    (hscheme : u.scheme = "http" ∨ u.scheme = "https") : u.IsWeb := by
  unfold parse? at h
  split at h
  · cases h
  · rename_i scheme rest _
    split at h
    · rcases hscheme with he | he <;> simp [scheme_of_ofFile h] at he
    · rw [scheme_of_afterSlashes h] at hscheme
      exact isWeb_of_afterSlashes hscheme h
    · rename_i hkind
      rw [scheme_of_ofOther h] at hscheme
      simp [schemeKind_of_web hscheme] at hkind

theorem toList_text {a : Authority} {names : List String} (ha : u.authority = some a)
    (hroute : u.route = .segments names) (hne : names ≠ []) : u.text.toList =
      u.scheme.toList ++ ':' :: '/' :: '/' ::
        (a.text.toList ++ ('/' :: segmentChars names ++ queryChars u.query ++
          fragmentChars u.fragment)) := by
  rcases u with ⟨scheme, authority, route, query, fragment⟩
  cases query <;> cases fragment <;>
    simp_all [text, toList_route hne, queryChars, fragmentChars]

/-- Path, query and fragment are found again. -/
theorem splitTail_append {path : List Char} {query fragment : Option String}
    (hpath : IsSpared escapedInPath path)
    (hquery : ∀ q ∈ query, IsSpared (escapedInQuery true) q.toList) :
    splitTail (path ++ queryChars query ++ fragmentChars fragment) =
      (path, query.map String.toList, fragment.map String.toList) := by
  have hmain : ∀ c ∈ path ++ queryChars query, (c != '#') = true := by
    refine List.forall_mem_append.mpr ⟨hpath.bne (by decide), ?_⟩
    cases query with
    | none => exact List.forall_mem_nil _
    | some q => exact List.forall_mem_cons.mpr ⟨by decide, (hquery q rfl).bne (by decide)⟩
  obtain ⟨htake, hdrop⟩ := run_append (l := fragmentChars fragment) hmain
    (by cases fragment <;> simp [fragmentChars])
  obtain ⟨htake', hdrop'⟩ := run_append (l := queryChars query) (hpath.bne (d := '?') (by decide))
    (by cases query <;> simp [queryChars])
  rw [splitTail]
  simp only [htake, hdrop, htake', hdrop']
  cases query <;> cases fragment <;> rfl

theorem significant_of_isVisible (h : IsVisible cs) : significant cs = cs := by
  have hedge : ∀ c ∈ cs, ¬ (decide (c.toNat ≤ 0x20)) = true := fun c hc => by
    simpa using (h c hc).1
  have hline : ∀ c ∈ cs, (c ≠ '\t' && c ≠ '\n' && c ≠ '\r') = true := by
    intro c hc
    have hvisible := (h c hc).1
    have hne {d : Char} (hd : d.toNat ≤ 0x20) : c ≠ d := by
      rintro rfl
      omega
    simp [hne (d := '\t') (by decide), hne (d := '\n') (by decide), hne (d := '\r') (by decide)]
  have hfront : ∀ {ds : List Char}, ds ⊆ cs →
      (ds.dropWhile fun c => decide (c.toNat ≤ 0x20)) = ds := fun hsub =>
    List.dropWhile_eq_self_iff.mpr fun hpos => hedge _ (hsub (List.getElem_mem hpos))
  rw [significant, hfront (List.Subset.refl cs), hfront (by simp), List.reverse_reverse,
    List.filter_eq_self.mpr hline]

theorem map_ofList_percentEncode {escape : Char → Bool} {o : Option String}
    (h : ∀ s ∈ o, IsSpared escape s.toList) :
    ((o.map String.toList).map fun cs => String.ofList (percentEncode escape cs)) = o := by
  cases o with
  | none => rfl
  | some s => simp [percentEncode_of_isSpared (h s rfl)]

section
variable (h : u.IsWeb)
include h

theorem IsWeb.afterSlashes {a : Authority} {names : List String} (ha : u.authority = some a)
    (hroute : u.route = .segments names) : afterSlashes u.scheme (a.text.toList ++
      ('/' :: segmentChars names ++ queryChars u.query ++ fragmentChars u.fragment)) = .ok u := by
  obtain ⟨_, ha', hnormal⟩ := h.authority
  obtain rfl := Option.some.inj (ha.symm.trans ha')
  obtain ⟨_, hroute', hne, hsegments⟩ := h.route
  obtain rfl := Route.segments.inj (hroute.symm.trans hroute')
  have hspecial := schemeKind_of_web h.scheme
  have hpath : IsSpared escapedInPath ('/' :: segmentChars names) :=
    List.forall_mem_cons.mpr ⟨by decide, isSpared_segmentChars hsegments⟩
  have hinside : ∀ c ∈ a.text.toList, (!endsAuthority true c) = true := fun c hc => by
    rw [hnormal.isInside.2 c hc, Bool.not_false]
  obtain ⟨htake, -⟩ := run_append (l := '/' :: segmentChars names ++ queryChars u.query ++
    fragmentChars u.fragment) hinside (by simp [endsAuthority])
  have hroute'' : routeAfter .special ('/' :: segmentChars names) = .segments names :=
    congrArg Route.segments (segmentsOf_segmentChars hne hsegments)
  have hbefore := hnormal.authority?_text hspecial
  rw [Url.afterSlashes]
  simp only [hspecial, ne_eq, reduceCtorEq, not_false_eq_true, decide_true, htake,
    List.drop_left, splitTail_append hpath h.query, hbefore, hroute'']
  show Except.ok (assemble u.scheme (some a) (.segments names) (u.query.map String.toList)
    (u.fragment.map String.toList)) = .ok u
  simp only [assemble, hspecial, ne_eq, reduceCtorEq, not_false_eq_true, decide_true,
    map_ofList_percentEncode h.query, map_ofList_percentEncode h.fragment, ← ha, ← hroute]

theorem IsWeb.isVisible : IsVisible u.text.toList := by
  obtain ⟨a, ha, hnormal⟩ := h.authority
  obtain ⟨names, hroute, hne, hsegments⟩ := h.route
  have hscheme : IsVisible u.scheme.toList := by
    rcases h.scheme with he | he <;> rw [he] <;> exact isVisible_of_all (by decide)
  have hslashes : IsVisible [':', '/', '/'] := isVisible_of_all (by decide)
  have hquery : IsVisible (queryChars u.query) := by
    have hspared := h.query
    cases hq : u.query with
    | none => exact List.forall_mem_nil _
    | some q => exact List.forall_mem_cons.mpr ⟨by decide, (hspared q hq).isVisible_query⟩
  have hfragment : IsVisible (fragmentChars u.fragment) := by
    have hspared := h.fragment
    cases hf : u.fragment with
    | none => exact List.forall_mem_nil _
    | some f => exact List.forall_mem_cons.mpr ⟨by decide, (hspared f hf).isVisible_fragment⟩
  have hpath : IsVisible ('/' :: segmentChars names) :=
    List.forall_mem_cons.mpr ⟨by decide, (isSpared_segmentChars hsegments).isVisible_path⟩
  rw [toList_text ha hroute hne]
  exact hscheme.append (hslashes.append (hnormal.isInside.1.append
    ((hpath.append hquery).append hfragment)))

theorem IsWeb.parse?_text : parse? u.text = .ok u := by
  obtain ⟨a, ha, hnormal⟩ := h.authority
  obtain ⟨names, hroute, hne, hsegments⟩ := h.route
  have hscheme (rest : List Char) :
      splitScheme? (u.scheme.toList ++ ':' :: rest) = some (u.scheme, rest) := by
    rcases h.scheme with he | he <;> rw [he] <;> rfl
  have hslashes (rest : List Char) : ('/' :: '/' :: (a.text.toList ++ rest)).dropWhile
      (isSlash true) = a.text.toList ++ rest := by
    -- the host is not empty and begins with no slash, so that no more than two slashes are dropped
    obtain ⟨c, cs, hcons⟩ := List.exists_cons_of_ne_nil hnormal.ne_nil
    have hinside : endsAuthority true c = false := hnormal.isInside.2 c (by simp [hcons])
    have hslash : isSlash true c = false := by
      simp only [endsAuthority, isSlash, Bool.or_eq_false_iff] at hinside ⊢
      exact ⟨hinside.1.1.1, hinside.2⟩
    have hrun : ∀ d ∈ ['/', '/'], isSlash true d = true := by simp [isSlash]
    refine (run_append hrun ?_).2
    simp [hcons, hslash]
  rw [parse?, significant_of_isVisible h.isVisible, toList_text ha hroute hne, hscheme]
  simp only [schemeKind_of_web h.scheme, hslashes, h.afterSlashes ha hroute]

theorem IsWeb.asDirectory : u.asDirectory.IsWeb := by
  obtain ⟨names, hroute, hne, hsegments⟩ := h.route
  simp only [Url.asDirectory, hroute]
  split_ifs
  · exact h
  · refine ⟨h.scheme, h.authority, ⟨names ++ [""], rfl, by simp, ?_⟩, h.query, h.fragment⟩
    exact List.forall_mem_append.mpr ⟨hsegments, List.forall_mem_singleton.mpr isSegment_nil⟩

end
end

end ForcingData.Url
