import ForcingData.Proofs.Database.Store
import ForcingData.Proofs.FileTree.Beside
import Mathlib.Algebra.Ring.Nat

/-! # Upserts of different records commute

What an upsert does depends on the record of its entry alone: it does the same in every tree that
differs in other records only (`exists_effect`). So two upserts of entries with different records
may change places (`on_upsert_comm`), and a list of them may be put in any order
(`on_upsertAll_perm`). This takes the records not to be symbolic links, as a record that is one is
read through the link and then replaced by a file. -/

namespace ForcingData

/-! ### Counts -/

theorem Stored.name_inj {s s' : Stored} (h : s.name = s'.name) : s = s' := by
  cases s <;> cases s' <;> first | rfl | (revert h; decide)

theorem Counts.add_comm (counts : Counts) (s s' : Stored) :
    (counts.add s).add s' = (counts.add s').add s := by
  by_cases hs : s = s'
  · rw [hs]
  · have hname : s'.name ≠ s.name := fun h => hs (Stored.name_inj h.symm)
    unfold add
    refine Dict.ext_get? fun k => ?_
    simp only [Dict.get?_insert, if_neg hname, if_neg hname.symm]
    by_cases hk : k = s'.name
    · subst hk
      rw [if_pos rfl, if_neg hname, if_pos rfl]
    · rw [if_neg hk, if_neg hk]

/-- Where a value takes the place of another one, the sum changes by the difference. -/
theorem Dict.sum_insertEntry {κ : Type} [Ord κ] [Std.TransOrd κ] (k : κ) (v : Nat) :
    ∀ {l : List (κ × Nat)}, l.Pairwise (fun a b => compare a.1 b.1 = .lt) →
      ((insertEntry k v l).map (·.2)).sum +
        (((l.find? fun e => compare k e.1 == .eq).map (·.2)).getD 0) = (l.map (·.2)).sum + v
  | [], _ => by simp [insertEntry]
  | e :: l, h => by
    obtain ⟨hfirst, hrest⟩ := List.pairwise_cons.mp h
    rw [insertEntry]
    split
    · rename_i hlt
      have hnone : (e :: l).find? (fun x => compare k x.1 == .eq) = none := by
        refine List.find?_eq_none.mpr fun x hx => ?_
        rcases List.mem_cons.mp hx with rfl | hx
        · simp [hlt]
        · simp [Std.TransCmp.lt_trans hlt (hfirst x hx)]
      rw [hnone]
      simp only [List.map_cons, List.sum_cons, Option.map_none, Option.getD_none]
      omega
    · rename_i heq
      rw [List.find?_cons_of_pos (by simp [heq])]
      simp only [List.map_cons, List.sum_cons, Option.map_some, Option.getD_some]
      omega
    · rename_i hgt
      have ih := sum_insertEntry k v hrest
      rw [List.find?_cons_of_neg (by simp [hgt])]
      simp only [List.map_cons, List.sum_cons]
      omega

theorem Counts.sum_add (counts : Counts) (s : Stored) :
    (counts.add s).values.sum = counts.values.sum + 1 := by
  have h := Dict.sum_insertEntry s.name ((counts.get? s.name).getD 0 + 1) counts.sorted
  simp only [add, Dict.values, Dict.insert]
  rw [Dict.get?] at h ⊢
  omega

namespace Database
open FileTree
variable {db : Database} {t t' t₁ t₂ : FileTree} {places : Location → Prop} {k : Location}
  {p q : Path} {paths paths' : List Path} {e e' : Entry} {s s' : Stored} {counts counts' : Counts}

/-! ### Places of records -/

/-- Where the record for a path is, or would be. -/
def place? (db : Database) (t : FileTree) (p : Path) : Except OsError Location :=
  t.locateWith ⟨false, true⟩ (db.recordPath p)

/-- The places of the records for these paths. -/
def Places (db : Database) (t : FileTree) (paths : List Path) (k : Location) : Prop :=
  ∃ p ∈ paths, db.place? t p = .ok k

theorem exists_steps_recordPath (db : Database) (p : Path) :
    ∃ names, steps (db.recordPath p) = names ++ [recordName p] :=
  exists_steps_join db.directory (isName_recordName p)

theorem getLast?_place (h : db.place? t p = .ok k) : k.getLast? = some (recordName p) := by
  obtain ⟨names, hsteps⟩ := db.exists_steps_recordPath p
  have hs := isStep_recordName p
  exact getLast?_of_locateWith hs.not_here hs.not_up hsteps h

theorem recordName_ne_temporaryName (p : Path) (n : Nat) : recordName p ≠ temporaryName n := by
  intro h
  have hmem : 'n' ∈ (temporaryName n).toList := by
    rw [← h, recordName_toList]
    exact List.mem_append_right _ (by decide)
  rw [toList_temporaryName, List.mem_append] at hmem
  rcases hmem with hmem | hmem
  · revert hmem
    decide
  · have := Nat.isDigit_of_mem_toDigits (by decide) (by decide) hmem
    revert this
    decide

theorem place?_of_locate {l : Location} (hl : t.locate db.directory = .ok l)
    (hd : t.isDirectoryAt l = true) (hallowed : refused? (db.recordPath p) = none) :
    db.place? t p = .ok (l ++ [recordName p]) := by
  obtain ⟨links, hwalk⟩ := locateWith_join hl (isName_recordName p) hallowed
  rw [place?, recordPath, hwalk, walk_last hd (isStep_recordName p)]

theorem notTemporary_places : NotTemporary (db.Places t paths) := by
  rintro k ⟨p, _, hk⟩ n hlast
  rw [getLast?_place hk] at hlast
  exact recordName_ne_temporaryName p n (Option.some.inj hlast)

theorem place?_beside (hb : Beside places t t') : db.place? t' p = .ok k ↔ db.place? t p = .ok k :=
  hb.locateWith rfl

theorem places_beside (hb : Beside places t t') : db.Places t' paths k ↔ db.Places t paths k :=
  exists_congr fun _ => and_congr_right fun _ => place?_beside hb

/-- The record for the path is no symbolic link. -/
def NotLinked (db : Database) (t : FileTree) (p : Path) : Prop :=
  ∀ k, db.place? t p = .ok k → ∀ target, t.node? k ≠ some (.link target)

theorem NotLinked.beside (h : db.NotLinked t p) (hb : Beside places t t') : db.NotLinked t' p := by
  intro k hk target htarget
  exact h k ((place?_beside hb).mp hk) target (hb.symm.node_eq_some htarget nofun)

/-! ### Reading a record -/

theorem lookup_recordPath (h : db.NotLinked t p) (hk : db.place? t p = .ok k) :
    t.lookup (db.recordPath p) =
      match t.node? k with
      | some n => .ok n
      | none => .error .notFound := by
  obtain ⟨names, hsteps⟩ := db.exists_steps_recordPath p
  exact lookup_of_locateWith (isStep_recordName p) hsteps hk (h k hk)

theorem get?_of_lookup (h : t'.lookup (db.recordPath p) = t.lookup (db.recordPath p)) :
    db.get? t' p = db.get? t p := by
  have hexists : t'.exists? (db.recordPath p) = t.exists? (db.recordPath p) := by
    rw [exists?, exists?, h]
  have hread : t'.read (db.recordPath p) = t.read (db.recordPath p) := by
    rw [FileTree.read, FileTree.read, h]
  rw [get?, get?]
  simp only [hexists, readRecord, hread]

theorem get?_beside (hlink : db.NotLinked t p) (hb : Beside places t t')
    (hk : db.place? t p = .ok k) (hnode : t'.node? k = t.node? k) :
    db.get? t' p = db.get? t p := by
  obtain ⟨names, hsteps⟩ := db.exists_steps_recordPath p
  exact get?_of_lookup (hb.lookup_eq (isStep_recordName p) hsteps hk (hlink k hk) hnode)

theorem get?_of_lookup_error {err : OsError} (h : t.lookup (db.recordPath p) = .error err) :
    db.get? t p = .ok none := by
  rw [get?]
  simp only [exists?, h]
  rfl

theorem get?_of_lookup_record (he : e.IsTimed)
    (h : t.lookup (db.recordPath p) = .ok (.file (recordContent e))) :
    db.get? t p = .ok (some e) := by
  have hread : t.read (db.recordPath p) = .ok (recordContent e) := by
    rw [FileTree.read, h]
    rfl
  have hentry := entryOf?_recordContent he
  unfold entryOf? at hentry
  rw [get?]
  simp only [exists?, h, readRecord, hread, hentry]
  rfl

theorem exists_lookup_of_get? {existing : Entry} (h : db.get? t p = .ok (some existing)) :
    ∃ content, t.lookup (db.recordPath p) = .ok (.file content) := by
  rw [get?] at h
  split at h
  · cases hread : readRecord (db.recordPath p) t with
    | error err =>
      rw [hread] at h
      cases h
    | ok e =>
      rw [readRecord] at hread
      split at hread
      · cases hread
      · rename_i content hcontent
        obtain ⟨n, hl, hn⟩ := Except.bind_eq_ok.mp hcontent
        cases n with
        | file content => exact ⟨content, hl⟩
        | directory | link => cases hn
  · cases h

theorem exists_place_of_get? {existing : Entry} (h : db.get? t p = .ok (some existing))
    (hlink : db.NotLinked t p) : ∃ k, db.place? t p = .ok k ∧ IsPlain (t.node? k) := by
  obtain ⟨content, hl⟩ := exists_lookup_of_get? h
  obtain ⟨names, hsteps⟩ := db.exists_steps_recordPath p
  obtain ⟨_, hlocate, _⟩ := Except.bind_eq_ok.mp hl
  obtain ⟨k, hk⟩ := exists_locateWith (isStep_recordName p) hsteps hlocate
  rw [lookup_recordPath hlink hk] at hl
  refine ⟨k, hk, .inr ⟨content, ?_⟩⟩
  split at hl
  · rename_i hn
    rw [hn, Except.ok.inj hl]
  · cases hl

/-! ### Storing an entry -/

theorem on_writeRecord_eq_ok_iff : (db.writeRecord e).on t = (.ok (), t₁) ↔
    (replace (db.recordPath e.path) (recordContent e)).on t = (.ok (), t₁) := by
  rw [writeRecord]
  simp only [Disk.on_withError]
  rcases (replace (db.recordPath e.path) (recordContent e)).on t with ⟨_ | _, t'⟩
  · simp [Except.mapError]
  · simp [Except.mapError]

/-- The tree with the new content of a record, if there is a new one. -/
def withContent (t : FileTree) (k : Location) : Option ByteArray → FileTree
  | none => t
  | some content => t.put k (.file content)

theorem beside_withContent (hk : IsPlain (t.node? k)) (w : Option ByteArray) :
    Beside (· = k) t (withContent t k w) := by
  cases w with
  | none => exact .refl ..
  | some content => exact .put hk content

theorem withContent_comm {l : Location} (h : k ≠ l) (v w : Option ByteArray) :
    withContent (withContent t k v) l w = withContent (withContent t l w) k v := by
  cases v <;> cases w <;> first | rfl | exact put_comm h _ _

/-- What storing an entry does, in every tree that differs in other records at most. -/
structure Effect (db : Database) (t : FileTree) (e : Entry) (s : Stored) (k : Location)
    (w : Option ByteArray) : Prop where
  place : db.place? t e.path = .ok k
  plain : IsPlain (t.node? k)
  on_upsert : ∀ {places t'}, Beside places t t' → NotTemporary places →
    t'.node? k = t.node? k → (db.upsert e).on t' = (.ok s, withContent t' k w)

/-- A record is written in the same way wherever it is the same. -/
theorem exists_on_writeRecord (hlink : db.NotLinked t e.path)
    (h : (db.writeRecord e).on t = (.ok (), t₁)) :
    ∃ k, db.place? t e.path = .ok k ∧ IsPlain (t.node? k) ∧
      t₁ = withContent t k (some (recordContent e)) ∧
      ∀ {places t'}, Beside places t t' → NotTemporary places → t'.node? k = t.node? k →
        (db.writeRecord e).on t' = (.ok (), withContent t' k (some (recordContent e))) := by
  have hreplace := on_writeRecord_eq_ok_iff.mp h
  obtain ⟨_, k, _, hk, hd, rfl⟩ := on_replace_iff.mp hreplace
  exact ⟨k, hk, isPlain_of_ne hd (hlink k hk), rfl, fun hb hplaces hnode =>
    on_writeRecord_eq_ok_iff.mpr (hb.on_replace hplaces hk hnode hreplace)⟩

theorem on_upsert_of_same {existing : Entry} (hsome : db.get? t e.path = .ok (some existing))
    (hsame : existing.sameState e = true) : (db.upsert e).on t = (.ok .unchanged, t) := by
  rw [upsert, Disk.on_bind, Disk.on_ask]
  simp only [hsome, hsame, if_true]
  rfl

/-- Storing an entry fails before anything is written, finds the entry stored, or writes a record.
What is written, and what is told, depends on the entry that is found only. -/
theorem on_upsert_cases (db : Database) (t : FileTree) (e : Entry) :
    (∃ err, (db.upsert e).on t = (.error err, t)) ∨
      (∃ existing, db.get? t e.path = .ok (some existing) ∧ existing.sameState e = true) ∨
      ∃ written s, written.path = e.path ∧
        ∀ t', db.get? t' e.path = db.get? t e.path → (db.upsert e).on t' =
          (((db.writeRecord written).on t').1.map fun _ => s,
            ((db.writeRecord written).on t').2) := by
  cases hget : db.get? t e.path with
  | error err =>
    refine .inl ⟨err, ?_⟩
    rw [upsert, Disk.on_bind, Disk.on_ask, hget]
  | ok found =>
    cases found with
    | none => exact .inr (.inr ⟨e, .created, rfl, fun _ hnone => on_upsert_of_none hnone⟩)
    | some existing =>
      cases hsame : existing.sameState e with
      | true => exact .inr (.inl ⟨existing, rfl, hsame⟩)
      | false =>
        exact .inr (.inr ⟨e.revise existing, .updated, rfl, fun _ hsome =>
          on_upsert_of_changed hsome hsame⟩)

theorem exists_effect (hlink : db.NotLinked t e.path) (h : (db.upsert e).on t = (.ok s, t₁)) :
    ∃ k w, db.Effect t e s k w ∧ t₁ = withContent t k w := by
  rcases db.on_upsert_cases t e with
    ⟨err, hfail⟩ | ⟨existing, hget, hsame⟩ | ⟨written, s', hpath, hon⟩
  · rw [hfail] at h
    cases h
  · rw [on_upsert_of_same hget hsame] at h
    cases h
    obtain ⟨k, hk, hplain⟩ := exists_place_of_get? hget hlink
    exact ⟨k, none, ⟨hk, hplain, fun hb _ hnode =>
      on_upsert_of_same ((get?_beside hlink hb hk hnode).trans hget) hsame⟩, rfl⟩
  · rw [hon t rfl] at h
    rcases hw : (db.writeRecord written).on t with ⟨_ | _, t'⟩ <;> rw [hw] at h <;> cases h
    obtain ⟨k, hk, hplain, rfl, hwrite⟩ := exists_on_writeRecord (hpath ▸ hlink) hw
    rw [hpath] at hk
    refine ⟨k, some (recordContent written), ⟨hk, hplain, fun hb hplaces hnode => ?_⟩, rfl⟩
    rw [hon _ (get?_beside hlink hb hk hnode), hwrite hb hplaces hnode]
    rfl

theorem on_writeRecord_error {err : DatabaseError}
    (h : (db.writeRecord e).on t = (.error err, t₁)) : t₁ = t := by
  rw [writeRecord] at h
  simp only [Disk.on_withError] at h
  rcases on_replace t (db.recordPath e.path) (recordContent e) with ⟨_, hr⟩ | ⟨_, _, _, _, hr⟩ <;>
    rw [hr] at h <;> cases h
  rfl

theorem on_upsert_error {err : DatabaseError} (h : (db.upsert e).on t = (.error err, t₁)) :
    t₁ = t := by
  rcases db.on_upsert_cases t e with ⟨_, hfail⟩ | ⟨_, hget, hsame⟩ | ⟨written, _, _, hon⟩
  · rw [hfail] at h
    cases h
    rfl
  · rw [on_upsert_of_same hget hsame] at h
    cases h
  · rw [hon t rfl] at h
    rcases hw : (db.writeRecord written).on t with ⟨_ | _, t'⟩ <;> rw [hw] at h <;> cases h
    exact on_writeRecord_error hw

/-! ### Two entries -/

theorem beside_of_upsert (hlink : db.NotLinked t e.path)
    (h : (db.upsert e).on t = (.ok s, t₁)) : Beside (db.Places t [e.path]) t t₁ := by
  obtain ⟨k, w, heffect, rfl⟩ := exists_effect hlink h
  refine (beside_withContent heffect.plain w).mono ?_
  rintro _ rfl
  exact ⟨e.path, List.mem_singleton_self _, heffect.place⟩

theorem on_upsert_comm (hname : recordName e.path ≠ recordName e'.path)
    (hlink : db.NotLinked t e.path) (hlink' : db.NotLinked t e'.path)
    (h : (db.upsert e).on t = (.ok s, t₁)) (h' : (db.upsert e').on t₁ = (.ok s', t₂)) :
    ∃ t₁', (db.upsert e').on t = (.ok s', t₁') ∧ (db.upsert e).on t₁' = (.ok s, t₂) := by
  have hother : NotTemporary (db.Places t [e.path]) := notTemporary_places
  have hother' : NotTemporary (db.Places t [e'.path]) := notTemporary_places
  have hb := beside_of_upsert hlink h
  obtain ⟨k', w', heffect', rfl⟩ := exists_effect (hlink'.beside hb) h'
  obtain ⟨k, w, heffect, rfl⟩ := exists_effect hlink h
  have hplace' := (place?_beside hb).mp heffect'.place
  have hne : k ≠ k' := by
    rintro rfl
    have hlast := getLast?_place heffect.place
    rw [getLast?_place hplace'] at hlast
    exact hname (Option.some.inj hlast).symm
  have hnode' : t.node? k' = (withContent t k w).node? k' :=
    ((beside_withContent heffect.plain w).node_eq hne.symm).symm
  have hfirst : (db.upsert e').on t = (.ok s', withContent t k' w') :=
    heffect'.on_upsert hb.symm hother hnode'
  have hb' := beside_of_upsert hlink' hfirst
  have hplain' : IsPlain (t.node? k') := hnode' ▸ heffect'.plain
  have hnode : (withContent t k' w').node? k = t.node? k :=
    (beside_withContent hplain' w').node_eq hne
  refine ⟨withContent t k' w', hfirst, ?_⟩
  rw [heffect.on_upsert hb' hother' hnode, withContent_comm hne]

/-! ### Many entries -/

theorem on_upsertAll_cons (counts : Counts) (e : Entry) (es : List Entry) (t : FileTree) :
    (db.upsertAll counts (e :: es)).on t =
      match (db.upsert e).on t with
      | (.ok s, t') => (db.upsertAll (counts.add s) es).on t'
      | (.error err, t') => (.error err, t') := by
  rw [upsertAll, Disk.on_bind]
  rcases (db.upsert e).on t with ⟨_ | _, _⟩ <;> rfl

theorem on_upsertAll_nil_eq_ok :
    (db.upsertAll counts []).on t = (.ok counts', t') ↔ counts = counts' ∧ t = t' := by
  rw [upsertAll, Disk.on_pure, Prod.mk.injEq, Except.ok.injEq]

theorem on_upsertAll_cons_eq_ok {es : List Entry} :
    (db.upsertAll counts (e :: es)).on t = (.ok counts', t') ↔
      ∃ s t₁, (db.upsert e).on t = (.ok s, t₁) ∧
        (db.upsertAll (counts.add s) es).on t₁ = (.ok counts', t') := by
  rw [on_upsertAll_cons]
  rcases (db.upsert e).on t with ⟨err | s, t₁⟩ <;> simp

/-- Storing stops at the first entry that cannot be stored. -/
theorem on_upsertAll_eq_error {es : List Entry} {err : DatabaseError} :
    (db.upsertAll counts es).on t = (.error err, t') ↔
      ∃ before failing after counts', es = before ++ failing :: after ∧
        (db.upsertAll counts before).on t = (.ok counts', t') ∧
        (db.upsert failing).on t' = (.error err, t') := by
  -- the first entry is the one that fails, or it is stored and the others decide
  induction es generalizing counts t with
  | nil => exact ⟨nofun, fun ⟨_, _, _, _, hes, _⟩ => by simp at hes⟩
  | cons e es ih =>
    rw [on_upsertAll_cons]
    constructor
    · intro h
      rcases hon : (db.upsert e).on t with ⟨err' | s, t₁⟩ <;> rw [hon] at h
      · cases h
        obtain rfl := on_upsert_error hon
        exact ⟨[], e, es, counts, rfl, rfl, hon⟩
      · obtain ⟨before, failing, after, counts', rfl, hbefore, hfailing⟩ := ih.mp h
        exact ⟨e :: before, failing, after, counts', rfl,
          on_upsertAll_cons_eq_ok.mpr ⟨s, t₁, hon, hbefore⟩, hfailing⟩
    · rintro ⟨before, failing, after, counts', hes, hbefore, hfailing⟩
      cases before with
      | nil =>
        obtain ⟨rfl, rfl⟩ := List.cons.inj hes
        obtain ⟨-, rfl⟩ := on_upsertAll_nil_eq_ok.mp hbefore
        rw [hfailing]
      | cons first before =>
        obtain ⟨rfl, rfl⟩ := List.cons.inj hes
        obtain ⟨s, t₁, hon, hbefore⟩ := on_upsertAll_cons_eq_ok.mp hbefore
        rw [hon]
        exact ih.mpr ⟨before, failing, after, counts', rfl, hbefore, hfailing⟩

theorem sum_of_upsertAll {es : List Entry} (h : (db.upsertAll counts es).on t = (.ok counts', t')) :
    counts'.values.sum = counts.values.sum + es.length := by
  induction es generalizing counts t with
  | nil =>
    obtain ⟨rfl, -⟩ := on_upsertAll_nil_eq_ok.mp h
    rfl
  | cons e es ih =>
    obtain ⟨s, t₁, -, hrest⟩ := on_upsertAll_cons_eq_ok.mp h
    rw [ih hrest, Counts.sum_add, List.length_cons]
    omega

/-- The paths have different records, and none of these is a symbolic link. -/
structure Apart (db : Database) (t : FileTree) (paths : List Path) : Prop where
  names : (paths.map recordName).Nodup
  notLinked : ∀ p ∈ paths, db.NotLinked t p

namespace Apart

theorem beside (h : db.Apart t paths) (hb : Beside places t t') : db.Apart t' paths :=
  ⟨h.names, fun p hp => (h.notLinked p hp).beside hb⟩

theorem of_subperm (h : db.Apart t paths) (hsub : paths'.Subperm paths) : db.Apart t paths' := by
  obtain ⟨paths'', hperm, hsublist⟩ := hsub
  refine ⟨(hperm.map recordName).nodup_iff.mp ((hsublist.map recordName).nodup h.names), ?_⟩
  exact fun p hp => h.notLinked p (hsublist.subset (hperm.mem_iff.mpr hp))

theorem tail (h : db.Apart t (p :: paths)) : db.Apart t paths :=
  h.of_subperm (List.sublist_cons_self p paths).subperm

theorem not_places (h : db.Apart t (p :: paths)) (hk : db.place? t p = .ok k) :
    ¬db.Places t paths k := by
  rintro ⟨q, hq, hk'⟩
  have hlast := getLast?_place hk
  rw [getLast?_place hk'] at hlast
  refine (List.nodup_cons.mp h.names).1 ?_
  rw [← Option.some.inj hlast]
  exact List.mem_map_of_mem hq

end Apart

theorem beside_of_upsertAll (counts : Counts) {es : List Entry} (h : db.Apart t (es.map (·.path))) :
    Beside (db.Places t (es.map (·.path))) t ((db.upsertAll counts es).on t).2 := by
  induction es generalizing counts t with
  | nil => exact .refl ..
  | cons e es ih =>
    rw [on_upsertAll_cons]
    rcases hon : (db.upsert e).on t with ⟨err | s, t₁⟩
    · obtain rfl := on_upsert_error hon
      exact .refl ..
    · have hfirst := beside_of_upsert (h.notLinked e.path (List.mem_cons_self ..)) hon
      refine (hfirst.mono ?_).trans ((ih (counts.add s) (h.tail.beside hfirst)).mono ?_)
      · rintro k ⟨p, hp, hk⟩
        obtain rfl := List.mem_singleton.mp hp
        exact ⟨_, List.mem_cons_self .., hk⟩
      · intro k hk
        obtain ⟨p, hp, hk⟩ := (places_beside hfirst).mp hk
        exact ⟨p, List.mem_cons_of_mem _ hp, hk⟩

/-- Entries with different records may be stored in any order. -/
theorem on_upsertAll_perm {es es' : List Entry} (hperm : es.Perm es')
    (h : db.Apart t (es.map (·.path)))
    (hon : (db.upsertAll counts es).on t = (.ok counts', t')) :
    (db.upsertAll counts es').on t = (.ok counts', t') := by
  induction hperm generalizing counts t with
  | nil => exact hon
  | cons e _ ih =>
    obtain ⟨s, t₁, hfirst, hrest⟩ := on_upsertAll_cons_eq_ok.mp hon
    have hb := beside_of_upsert (h.notLinked e.path (List.mem_cons_self ..)) hfirst
    exact on_upsertAll_cons_eq_ok.mpr ⟨s, t₁, hfirst, ih (h.tail.beside hb) hrest⟩
  | swap e e' es =>
    obtain ⟨s', t₁, hfirst, hon⟩ := on_upsertAll_cons_eq_ok.mp hon
    obtain ⟨s, t₂, hsecond, hrest⟩ := on_upsertAll_cons_eq_ok.mp hon
    have hname : recordName e'.path ≠ recordName e.path := by
      have hnotMem := (List.nodup_cons.mp h.names).1
      exact fun heq => hnotMem (heq ▸ List.mem_cons_self ..)
    obtain ⟨t₁', hfirst', hsecond'⟩ := on_upsert_comm hname
      (h.notLinked e'.path (List.mem_cons_self ..))
      (h.notLinked e.path (List.mem_cons_of_mem _ (List.mem_cons_self ..))) hfirst hsecond
    rw [Counts.add_comm] at hrest
    exact on_upsertAll_cons_eq_ok.mpr
      ⟨s, t₁', hfirst', on_upsertAll_cons_eq_ok.mpr ⟨s', t₂, hsecond', hrest⟩⟩
  | @trans es₁ es₂ es₃ hperm₁ _ ih₁ ih₂ =>
    have h' := h.of_subperm (hperm₁.map (·.path)).symm.subperm
    exact ih₂ h' (ih₁ h hon)

end Database
end ForcingData
