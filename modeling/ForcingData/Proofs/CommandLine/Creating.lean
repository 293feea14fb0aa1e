import ForcingData.CommandLine.Run
import ForcingData.Proofs.Database.Writing
import ForcingData.Proofs.FileTree.Find
import ForcingData.Proofs.FileTree.Made
import ForcingData.Proofs.Vocabulary.Loading

/-! # Making a database

Before a run stores anything in a database it reads settings, a pattern and vocabularies, makes the
directory of the database and looks for files. These are all the ways in which it can fail before
that for another reason than that the directory can not be made: `EarlyFailure`, by
`earlyFailure_of_run` and `run_of_earlyFailure`. Up to the search nothing has been made for the
database. If the search fails its directory is left, and as long as it is there the same words fail
for this alone (`left_of_isEarly`). -/

namespace ForcingData

/-! ### Failures that come later -/

/-- The failure of a database that is there already. -/
def DatabaseError.isTaken : DatabaseError → Bool
  | .alreadyExists _ => true
  | _ => false

namespace Database
variable {t t' : FileTree} {db : Database} {directory : Path} {e : DatabaseError}
open Disk

theorem create_eq_error (h : (create directory).on t = (.error e, t')) :
    (t.exists? directory = true ∧ e = .alreadyExists directory ∧ t' = t) ∨ e.isTaken = false := by
  rw [create, on_bind, on_get] at h
  simp only at h
  split at h
  · rename_i hexists
    cases h
    exact .inl ⟨hexists, rfl, rfl⟩
  · rcases on_bind_eq_error.mp h with h | ⟨_, _, _, h⟩
    · obtain ⟨_, _, rfl⟩ := on_withError_eq_error.mp h
      exact .inr rfl
    · cases h

theorem create_eq_ok (h : (create directory).on t = (.ok db, t')) :
    t.exists? directory = false ∧
      (FileTree.createDirectories directory).on t = (.ok (), t') := by
  rw [create, on_bind, on_get] at h
  simp only at h
  split at h
  · cases h
  · rename_i hfree
    refine ⟨Bool.eq_false_iff.mpr hfree, ?_⟩
    rw [on_bind, on_withError] at h
    rcases hmade : (FileTree.createDirectories directory).on t with ⟨_ | _, t₁⟩
    · rw [hmade] at h
      cases h
    · rw [hmade] at h
      cases h
      rfl

theorem not_isTaken_of_readRecord {record : Path} (h : readRecord record t = .error e) :
    e.isTaken = false := by
  rw [readRecord] at h
  split at h
  · cases h
    rfl
  · split at h <;> cases h
    rfl

theorem fails_writeRecord (db : Database) (entry : Entry) :
    Fails (·.isTaken = false) (db.writeRecord entry) :=
  Fails.withError fun _ _ _ _ => rfl

theorem fails_upsert (db : Database) (entry : Entry) :
    Fails (·.isTaken = false) (db.upsert entry) := by
  refine (fails_ask fun t e h => ?_).bind fun existing => ?_
  · rw [get?] at h
    split at h
    · cases hread : readRecord (db.recordPath entry.path) t with
      | ok _ =>
        rw [hread] at h
        cases h
      | error _ =>
        rw [hread] at h
        cases h
        exact not_isTaken_of_readRecord hread
    · cases h
  · cases existing with
    | none => exact (fails_writeRecord db entry).bind fun _ => fails_pure _
    | some existing =>
      dsimp only
      split
      · exact fails_pure _
      · exact (fails_writeRecord db _).bind fun _ => fails_pure _

theorem fails_upsertAll (db : Database) : ∀ (counts : Counts) (entries : List Entry),
    Fails (·.isTaken = false) (db.upsertAll counts entries)
  | _, [] => fails_pure _
  | _, entry :: entries => (fails_upsert db entry).bind fun _ => fails_upsertAll db _ entries

theorem fails_writeEntries (c : EntryContext) (db : Database) (paths : List Path) (n : Nat)
    (schedule : Nat → Nat) : Fails (·.isTaken = false) (c.writeEntries db paths n schedule) := by
  intro t e t' h
  obtain ⟨calls, _, hcalls, _⟩ := EntryContext.exists_calls_writeEntries c db paths n schedule t
  rw [hcalls] at h
  exact fails_upsertAll db ∅ _ t e t' h

theorem not_isTaken_of_all (h : db.all t = .error e) : e.isTaken = false := by
  rcases Except.bind_eq_error.mp h with h | ⟨names, _, h⟩
  · obtain ⟨_, _, rfl⟩ := Except.mapError_eq_error.mp h
    rfl
  · rcases Except.bind_eq_error.mp h with h | ⟨_, _, h⟩
    · obtain ⟨record, _, h⟩ := Except.exists_of_mapM_eq_error h
      exact not_isTaken_of_readRecord h
    · cases h

end Database

namespace CommandLine
open Disk Vocabularies
variable {s : Surroundings} {settings : Settings} {i : Invocation} {words : List String}
  {root directory : Path} {glob : String} {keys : FrequencyKeys} {t t' : FileTree} {e : Failure}

/-! ### Failures that come first -/

/-- A failure of a run that has stored nothing in a database yet. -/
def Failure.isEarly : Failure → Bool
  | .settings _ | .vocabularies _ | .find _ => true
  | .database e => e.isTaken
  | _ => false

/-- How a run that is to make a database can fail before it stores anything, and the tree that it
leaves. -/
inductive EarlyFailure (s : Surroundings) (o : Overrides) (root : Path) (glob : String)
    (directory : Path) (t : FileTree) : Failure → FileTree → Prop
  | settings {e : Settings.Error} (h : Settings.load? t.read? s.environment = .error e) :
      EarlyFailure s o root glob directory t (.settings e) t
  | pattern {settings : Settings}
      (hsettings : Settings.load? t.read? s.environment = .ok settings) (hglob : glob = "") :
      EarlyFailure s o root glob directory t (.find .emptyPattern) t
  | vocabularies {settings : Settings} {e : SourceError} {t' : FileTree}
      (hsettings : Settings.load? t.read? s.environment = .ok settings) (hglob : glob ≠ "")
      (h : (loadVocabularies s (o.apply settings)).on t = (.error (.vocabularies e), t')) :
      EarlyFailure s o root glob directory t (.vocabularies e) t'
  | directory {settings : Settings} {cv : Vocabularies} {t' : FileTree}
      (hsettings : Settings.load? t.read? s.environment = .ok settings) (hglob : glob ≠ "")
      (h : (loadVocabularies s (o.apply settings)).on t = (.ok cv, t'))
      (hexists : t'.exists? directory = true) :
      EarlyFailure s o root glob directory t (.database (.alreadyExists directory)) t'
  | search {settings : Settings} {cv : Vocabularies} {t₁ t' : FileTree} {e : FindError}
      (hsettings : Settings.load? t.read? s.environment = .ok settings) (hglob : glob ≠ "")
      (h : (loadVocabularies s (o.apply settings)).on t = (.ok cv, t₁))
      (hfree : t₁.exists? directory = false)
      (hmade : (FileTree.createDirectories directory).on t₁ = (.ok (), t'))
      (hfind : t'.findFiles root ⟨glob, hglob⟩ = .error e) :
      EarlyFailure s o root glob directory t (.find e) t'

theorem on_pattern_eq_ok (hglob : glob ≠ "") (t : FileTree) :
    (pattern glob).on t = (.ok ⟨glob, hglob⟩, t) := by
  rw [pattern, on_ask, FilePattern.ofGlob?, dif_neg hglob]
  rfl

theorem on_pattern_eq_error (hglob : glob = "") (t : FileTree) :
    (pattern glob).on t = (.error (.find .emptyPattern), t) := by
  rw [pattern, on_ask, FilePattern.ofGlob?, dif_pos hglob]
  rfl

theorem fails_loadVocabularies (s : Surroundings) (settings : Settings) :
    Fails (fun e => ∃ error, e = .vocabularies error) (loadVocabularies s settings) := by
  rw [loadVocabularies]
  split
  · rename_i error _
    intro t e t' h
    cases h
    exact ⟨error, rfl⟩
  · exact Fails.withError fun _ error _ _ => ⟨error, rfl⟩

theorem earlyFailure_of_createDatabase {o : Overrides}
    (hsettings : Settings.load? t.read? s.environment = .ok settings)
    (h : (createDatabase s (o.apply settings) root glob keys directory).on t = (.error e, t'))
    (hearly : e.isEarly = true) : EarlyFailure s o root glob directory t e t' := by
  rw [createDatabase] at h
  -- each step either fails as said, or the run goes on
  by_cases hglob : glob = ""
  · cases h.symm.trans (on_bind_eq_error.mpr (.inl (on_pattern_eq_error hglob t)))
    exact .pattern hsettings hglob
  rcases on_bind_eq_error.mp h with h | ⟨_, t₀, hpattern, h⟩
  · cases (on_pattern_eq_ok hglob t).symm.trans h
  cases (on_pattern_eq_ok hglob t).symm.trans hpattern
  rcases on_bind_eq_error.mp h with h | ⟨cv, t₁, hload, h⟩
  · obtain ⟨error, rfl⟩ := fails_loadVocabularies s _ t e t' h
    exact .vocabularies hsettings hglob h
  rcases on_bind_eq_error.mp h with h | ⟨db, t₂, hcreate, h⟩
  · obtain ⟨error, hcreate, rfl⟩ := on_withError_eq_error.mp h
    rcases Database.create_eq_error hcreate with ⟨hexists, rfl, rfl⟩ | hfree
    · exact .directory hsettings hglob hload hexists
    · exact absurd hearly (by simp [Failure.isEarly, hfree])
  have hcreated : (Database.create directory).on t₁ = (.ok db, t₂) := by
    rw [on_withError] at hcreate
    rcases hr : (Database.create directory).on t₁ with ⟨_ | _, _⟩
    · rw [hr] at hcreate
      cases hcreate
    · rw [hr] at hcreate
      cases hcreate
      rfl
  obtain ⟨hfree, hmade⟩ := Database.create_eq_ok hcreated
  rcases on_bind_eq_error.mp h with h | ⟨paths, t₃, -, h⟩
  · rw [on_ask] at h
    obtain ⟨he, rfl⟩ := Prod.ext_iff.mp h
    obtain ⟨error, hfind, rfl⟩ := Except.mapError_eq_error.mp he
    exact .search hsettings hglob hload hfree hmade hfind
  · have hlate : e.isEarly = false := by
      refine Fails.bind (Q := (·.isEarly = false))
        (Fails.withError (Database.fails_writeEntries _ _ _ _ _)) (fun _ => ?_) t₃ e t' h
      refine Fails.bind (fails_ask fun t e h => ?_) fun _ => fails_pure _
      obtain ⟨error, hall, rfl⟩ := Except.mapError_eq_error.mp h
      exact Database.not_isTaken_of_all hall
    rw [hlate] at hearly
    cases hearly

theorem earlyFailure_of_run (hwords : Invocation.ofWords? words = .ok i)
    (hcommand : i.command = some (.createDatabase root glob keys directory))
    (h : (run s words).on t = (.error e, t')) (hearly : e.isEarly = true) :
    EarlyFailure s i.overrides root glob directory t e t' := by
  rw [run, hwords] at h
  simp only [Invocation.run] at h
  split at h
  · cases h
  rcases on_bind_eq_error.mp h with h | ⟨settings, t₀, hask, h⟩
  · rw [on_ask] at h
    obtain ⟨he, rfl⟩ := Prod.ext_iff.mp h
    obtain ⟨error, hsettings, rfl⟩ := Except.mapError_eq_error.mp he
    exact .settings hsettings
  rw [on_ask] at hask
  obtain ⟨hok, rfl⟩ := Prod.ext_iff.mp hask
  have hsettings : Settings.load? t.read? s.environment = .ok settings := by
    revert hok
    cases Settings.load? t.read? s.environment with
    | error _ => exact nofun
    | ok _ => exact fun h => congrArg Except.ok (Except.ok.inj h)
  rw [hcommand] at h
  rcases on_bind_eq_error.mp h with h | ⟨_, _, _, h⟩
  · exact earlyFailure_of_createDatabase hsettings h hearly
  · cases h

/-! ### Runs step by step -/

theorem on_run_createDatabase (hwords : Invocation.ofWords? words = .ok i)
    (hversion : i.version = false)
    (hcommand : i.command = some (.createDatabase root glob keys directory))
    (hsettings : Settings.load? t.read? s.environment = .ok settings)
    (h : (createDatabase s (i.overrides.apply settings) root glob keys directory).on t =
      (.error e, t')) : (run s words).on t = (.error e, t') := by
  rw [run, hwords]
  simp only [Invocation.run, hversion, Bool.false_eq_true, if_false]
  rw [on_bind, on_ask, hsettings, hcommand]
  simp only [Except.mapError]
  rw [on_bind, runCommand, h]

section
variable {cv : Vocabularies} {t₁ t₂ : FileTree} (hglob : glob ≠ "")
include hglob

theorem on_createDatabase_of_not_loaded
    (hload : (loadVocabularies s settings).on t = (.error e, t₁)) :
    (createDatabase s settings root glob keys directory).on t = (.error e, t₁) :=
  on_bind_eq_error.mpr (.inr ⟨_, t, on_pattern_eq_ok hglob t, on_bind_eq_error.mpr (.inl hload)⟩)

variable (hload : (loadVocabularies s settings).on t = (.ok cv, t₁))
include hload

theorem on_createDatabase_of_taken (hexists : t₁.exists? directory = true) :
    (createDatabase s settings root glob keys directory).on t =
      (.error (.database (.alreadyExists directory)), t₁) := by
  have hcreate : (Database.create directory).on t₁ = (.error (.alreadyExists directory), t₁) := by
    rw [Database.create, on_bind, on_get]
    simp only [hexists, if_true]
    rfl
  refine on_bind_eq_error.mpr (.inr ⟨_, t, on_pattern_eq_ok hglob t, ?_⟩)
  refine on_bind_eq_error.mpr (.inr ⟨cv, t₁, hload, on_bind_eq_error.mpr (.inl ?_)⟩)
  rw [on_withError, hcreate]
  rfl

/-- Where looking for files fails, the directory of the database is left. -/
theorem on_createDatabase_of_not_found {error : FindError} (hfree : t₁.exists? directory = false)
    (hmade : (FileTree.createDirectories directory).on t₁ = (.ok (), t₂))
    (hfind : t₂.findFiles root ⟨glob, hglob⟩ = .error error) :
    (createDatabase s settings root glob keys directory).on t = (.error (.find error), t₂) := by
  have hcreate : (Database.create directory).on t₁ = (.ok ⟨directory⟩, t₂) := by
    rw [Database.create, on_bind, on_get]
    simp only [hfree, Bool.false_eq_true, if_false]
    rw [on_bind, on_withError, hmade]
    rfl
  refine on_bind_eq_error.mpr (.inr ⟨_, t, on_pattern_eq_ok hglob t, ?_⟩)
  refine on_bind_eq_error.mpr (.inr ⟨cv, t₁, hload, ?_⟩)
  refine on_bind_eq_error.mpr (.inr ⟨⟨directory⟩, t₂, ?_, on_bind_eq_error.mpr (.inl ?_)⟩)
  · rw [on_withError, hcreate]
    rfl
  · rw [on_ask, hfind]
    rfl

end

/-- These are just the early failures. -/
theorem run_of_earlyFailure (hwords : Invocation.ofWords? words = .ok i)
    (hversion : i.version = false)
    (hcommand : i.command = some (.createDatabase root glob keys directory))
    (h : EarlyFailure s i.overrides root glob directory t e t') :
    (run s words).on t = (.error e, t') ∧ e.isEarly = true := by
  cases h with
  | settings h =>
    refine ⟨?_, rfl⟩
    rw [run, hwords]
    simp only [Invocation.run, hversion, Bool.false_eq_true, if_false]
    rw [on_bind, on_ask, h]
    rfl
  | pattern hsettings hglob =>
    exact ⟨on_run_createDatabase hwords hversion hcommand hsettings
      (on_bind_eq_error.mpr (.inl (on_pattern_eq_error hglob t))), rfl⟩
  | vocabularies hsettings hglob hload =>
    exact ⟨on_run_createDatabase hwords hversion hcommand hsettings
      (on_createDatabase_of_not_loaded hglob hload), rfl⟩
  | directory hsettings hglob hload hexists =>
    exact ⟨on_run_createDatabase hwords hversion hcommand hsettings
      (on_createDatabase_of_taken hglob hload hexists), rfl⟩
  | search hsettings hglob hload hfree hmade hfind =>
    exact ⟨on_run_createDatabase hwords hversion hcommand hsettings
      (on_createDatabase_of_not_found hglob hload hfree hmade hfind), rfl⟩

/-- The files that settings may be in. -/
def settingsFiles : List String :=
  Settings.fileName :: Settings.extensions.map fun e => Settings.fileName ++ "." ++ e.1

theorem fileMembers?_of_nothing {read? : Path → Option ByteArray}
    (h : ∀ name ∈ settingsFiles, read? ⟨name⟩ = none) :
    Settings.fileMembers? read? = some [] := by
  obtain ⟨hplain, hothers⟩ := List.forall_mem_cons.mp h
  have hfile : Settings.findFile read? = none := by
    rw [Settings.findFile, hplain]
    refine List.findSome?_eq_none_iff.mpr fun (extension, format) hmem => ?_
    have hnone := hothers _ (List.mem_map_of_mem hmem)
    dsimp only at hnone ⊢
    rw [hnone]
    rfl
  rw [Settings.fileMembers?, hfile]

theorem load?_of_nothing (hd : t.isDirectoryAt t.workingDirectory = true)
    (hn : ∀ name ∈ settingsFiles, t.node? (t.workingDirectory ++ [name]) = none)
    (env : Environment) : Settings.load? t.read? env = Settings.load? (fun _ => none) env := by
  have hnames : ∀ name ∈ settingsFiles, FileTree.IsPathName name := by decide
  have hread : ∀ name ∈ settingsFiles, t.read? ⟨name⟩ = none :=
    fun name hname => (hnames name hname).read?_of_nothing hd (hn name hname)
  rw [Settings.load?, Settings.load?, fileMembers?_of_nothing hread,
    fileMembers?_of_nothing fun _ _ => rfl]

/-! ### What failures leave -/

/-- What loading vocabularies may leave: the tree as it was, or files of a server in the cache. -/
def LeftByLoading (s : Surroundings) (o : Overrides) (t t' : FileTree) : Prop :=
  t' = t ∨ ∃ settings url, Settings.load? t.read? s.environment = .ok settings ∧
    CvSource.ofSetting? (o.apply settings).cvSource = .ok (.remote url) ∧
    KeptFrom s.network (o.apply settings).cacheDirectory url t t'

theorem leftByLoading {o : Overrides} {r : Except Failure Vocabularies}
    (hsettings : Settings.load? t.read? s.environment = .ok settings)
    (h : (loadVocabularies s (o.apply settings)).on t = (r, t')) : LeftByLoading s o t t' := by
  obtain rfl : ((loadVocabularies s (o.apply settings)).on t).2 = t' := congrArg Prod.snd h
  rw [loadVocabularies]
  split
  · exact .inl rfl
  · rename_i source hsource
    simp only [on_withError]
    cases source with
    | remote url => exact .inr ⟨settings, url, hsettings, hsource, keptFrom_load t⟩
    | directory path => exact .inl (on_load_directory path t)

theorem version_of_run (hwords : Invocation.ofWords? words = .ok i)
    (h : (run s words).on t = (.error e, t')) : i.version = false := by
  rw [run, hwords] at h
  simp only [Invocation.run] at h
  split at h
  · cases h
  · exact Bool.eq_false_iff.mpr ‹_›

/-- Where the directory is there once vocabularies have been loaded, no run stores anything. -/
theorem exists_on_run_of_taken (hwords : Invocation.ofWords? words = .ok i)
    (hversion : i.version = false)
    (hcommand : i.command = some (.createDatabase root glob keys directory)) (hglob : glob ≠ "")
    (hexists : ∀ t₁, LeftByLoading s i.overrides t t₁ → t₁.exists? directory = true) :
    ∃ e t₁, (run s words).on t = (.error e, t₁) ∧ LeftByLoading s i.overrides t t₁ ∧
      (e = .database (.alreadyExists directory) ∨ (∃ error, e = .settings error) ∨
        ∃ error, e = .vocabularies error) := by
  have hrun {e : Failure} {t₁ : FileTree}
      (h : EarlyFailure s i.overrides root glob directory t e t₁) :
      (run s words).on t = (.error e, t₁) := (run_of_earlyFailure hwords hversion hcommand h).1
  cases hsettings : Settings.load? t.read? s.environment with
  | error e => exact ⟨_, t, hrun (.settings hsettings), .inl rfl, .inr (.inl ⟨e, rfl⟩)⟩
  | ok settings =>
    rcases hload : (loadVocabularies s (i.overrides.apply settings)).on t with ⟨e | cv, t₁⟩
    · have hleft := leftByLoading hsettings hload
      obtain ⟨error, rfl⟩ := fails_loadVocabularies s _ t e t₁ hload
      exact ⟨_, t₁, hrun (.vocabularies hsettings hglob hload), hleft, .inr (.inr ⟨error, rfl⟩)⟩
    · have hleft := leftByLoading hsettings hload
      exact ⟨_, t₁, hrun (.directory hsettings hglob hload (hexists t₁ hleft)), hleft, .inl rfl⟩

/-- What a run that fails before it stores anything leaves. If settings, pattern, vocabularies or a
database that is there are the reason, this is what loading vocabularies leaves. If the search for
files is the reason, the directory of the database has been made as well, and as long as it is
there, the same words do not come to the search any more. -/
theorem left_of_isEarly (hwords : Invocation.ofWords? words = .ok i)
    (hcommand : i.command = some (.createDatabase root glob keys directory))
    (h : (run s words).on t = (.error e, t')) (hearly : e.isEarly = true) :
    (((∃ error, e = .settings error) ∨ e = .find .emptyPattern) → t' = t) ∧
      ((∀ error, e = .find error → error = .emptyPattern) → LeftByLoading s i.overrides t t') ∧
      ∀ error, e = .find error → error ≠ .emptyPattern →
        (∃ t₁, LeftByLoading s i.overrides t t₁ ∧ t₁.exists? directory = false ∧
          (FileTree.createDirectories directory).on t₁ = (.ok (), t')) ∧
        (FileTree.refused? directory = none → t'.isDirectory directory = true) ∧
        ∀ (s' : Surroundings) (t₂ : FileTree),
          (∀ t₃, LeftByLoading s' i.overrides t₂ t₃ → t₃.exists? directory = true) →
          ∃ e' t₃, (run s' words).on t₂ = (.error e', t₃) ∧ LeftByLoading s' i.overrides t₂ t₃ ∧
            (e' = .database (.alreadyExists directory) ∨ (∃ error, e' = .settings error) ∨
              ∃ error, e' = .vocabularies error) := by
  cases earlyFailure_of_run hwords hcommand h hearly with
  | settings => exact ⟨fun _ => rfl, fun _ => .inl rfl, by simp⟩
  | pattern => exact ⟨fun _ => rfl, fun _ => .inl rfl, by simp⟩
  | vocabularies hsettings _ hload =>
    exact ⟨by simp, fun _ => leftByLoading hsettings hload, by simp⟩
  | directory hsettings _ hload =>
    exact ⟨by simp, fun _ => leftByLoading hsettings hload, by simp⟩
  | search hsettings hglob hload hfree hmade hfind =>
    have hne := FileTree.ne_emptyPattern_of_findFiles hfind
    refine ⟨by simp [hne], fun hpattern => absurd (hpattern _ rfl) hne, fun _ _ _ => ?_⟩
    exact ⟨⟨_, leftByLoading hsettings hload, hfree, hmade⟩,
      fun hallowed => FileTree.isDirectory_of_createDirectories hallowed hmade,
      fun _ _ => exists_on_run_of_taken hwords (version_of_run hwords h) hcommand hglob⟩

/-! ### A directory that is left -/

def plainSettings : Settings where
  userAgent := Settings.defaultUserAgent
  cvSource := none
  forceDownload := false
  cacheDirectory := Settings.fallbackCache
  retries := Settings.defaultRetries
  timeout := Settings.defaultTimeout
  workers := 1
  cfChecker := Settings.defaultCfChecker
  indicators := Dataset.defaultIndicators

theorem load?_plainSettings : Settings.load? (fun _ => none) ∅ = .ok plainSettings := by
  decide

def surroundings (network : Network) : Surroundings where
  environment := ∅
  network := network
  commands := Compliance.basic
  schedule := id
  now := ⟨⟨2024, 1, 1⟩, 0, 0⟩

/-- A directory with vocabularies. -/
def localNodes : List (Location × Node) :=
  (["cvs"], .directory) ::
    sampleFiles.toList.map fun (file, content) => (["cvs", file], .file content)

theorem sorted_localNodes : localNodes.Pairwise fun a b => compare a.1 b.1 = .lt := by
  decide

def localTree : FileTree where
  nodes := ⟨localNodes, sorted_localNodes⟩
  workingDirectory := []

def localWords (root directory : String) : List String :=
  ["--cv-source", "cvs", "db", "create", root, "--db-dir", directory]

def localInvocation (root directory : String) : Invocation where
  version := false
  quiet := false
  overrides := ⟨some "cvs", false, none, none, []⟩
  command := some (.createDatabase ⟨root⟩ defaultGlob .standard ⟨directory⟩)

/-- There are no settings, and the vocabularies are there. -/
structure HasVocabularies (t : FileTree) : Prop where
  workingDirectory : t.workingDirectory = []
  settings : ∀ name ∈ settingsFiles, t.node? [name] = none
  directory : t.node? ["cvs"] = some .directory
  files : ∀ file ∈ requiredFiles ++ optionalFiles,
    t.node? ["cvs", file] = (sampleFiles.get? file).map .file

namespace HasVocabularies

theorem put (h : HasVocabularies t) {name : String} (hname : name ∉ "cvs" :: settingsFiles)
    (n : Node) : HasVocabularies (t.put [name] n) := by
  obtain ⟨hcvs, hsettings⟩ := not_or.mp (List.mem_cons.not.mp hname)
  refine ⟨h.workingDirectory, fun file hfile => ?_, ?_, fun file hfile => ?_⟩
  · have hne : file ≠ name := fun he => hsettings (he ▸ hfile)
    rw [FileTree.node?_put_of_ne (by simp) (by simpa using hne), h.settings file hfile]
  · rw [FileTree.node?_put_of_ne (by simp) (by simpa using Ne.symm hcvs), h.directory]
  · rw [FileTree.node?_put_of_ne (by simp) (by simp), h.files file hfile]

theorem isDirectoryAt (h : HasVocabularies t) :
    t.isDirectoryAt t.workingDirectory = true := by
  rw [h.workingDirectory]
  rfl

theorem load? (h : HasVocabularies t) : Settings.load? t.read? ∅ = .ok plainSettings := by
  have hn : ∀ name ∈ settingsFiles, t.node? (t.workingDirectory ++ [name]) = none := by
    rw [h.workingDirectory]
    exact h.settings
  rw [load?_of_nothing h.isDirectoryAt hn, load?_plainSettings]

theorem exists_on_loadVocabularies (h : HasVocabularies t) (network : Network)
    (root directory : String) : ∃ cv, (loadVocabularies (surroundings network)
      ((localInvocation root directory).overrides.apply plainSettings)).on t = (.ok cv, t) := by
  have hname : FileTree.IsPathName "cvs" := by decide
  have hsource : CvSource.ofSetting? (some "cvs") = .ok (.directory ⟨"cvs"⟩) := by decide
  have hlocate : t.locate ⟨"cvs"⟩ = .ok ["cvs"] := by
    have hcvs : t.node? (t.workingDirectory ++ ["cvs"]) = some .directory := by
      rw [h.workingDirectory]
      exact h.directory
    have hlocate := hname.locate h.isDirectoryAt hcvs nofun
    rwa [h.workingDirectory] at hlocate
  have hholds : Holds t ⟨"cvs"⟩ sampleFiles :=
    holds_of_nodes hlocate (FileTree.isDirectoryAt_iff.mpr h.directory) (by decide +kernel)
      h.files
  obtain ⟨cv, hload⟩ := exists_on_load_of_holds hholds areAccepted_sampleFiles
  refine ⟨cv, ?_⟩
  rw [loadVocabularies, show ((localInvocation root directory).overrides.apply
    plainSettings).cvSource = some "cvs" from rfl, hsource]
  simp only
  rw [on_withError, hload]
  rfl

end HasVocabularies

theorem hasVocabularies_localTree : HasVocabularies localTree where
  workingDirectory := rfl
  settings := by decide
  directory := by decide
  files := by decide +kernel

section
variable (h : HasVocabularies t) (network : Network) {root directory : String}
  (hwords : Invocation.ofWords? (localWords root directory) =
    .ok (localInvocation root directory))
include h hwords

theorem on_run_of_taken (hexists : t.exists? ⟨directory⟩ = true) :
    (run (surroundings network) (localWords root directory)).on t =
      (.error (.database (.alreadyExists ⟨directory⟩)), t) := by
  obtain ⟨cv, hload⟩ := h.exists_on_loadVocabularies network root directory
  exact on_run_createDatabase hwords rfl rfl h.load?
    (on_createDatabase_of_taken (by decide) hload hexists)

/-- There is neither the root nor the database; the directory of the database is left. -/
theorem on_run_of_no_root (hdirectory : FileTree.IsPathName directory)
    (hfree : t.node? [directory] = none) (hroot : FileTree.IsPathName root)
    (hnothing : t.node? [root] = none) (hne : root ≠ directory) :
    (run (surroundings network) (localWords root directory)).on t =
      (.error (.find (.baseNotADirectory ⟨root⟩)), t.put [directory] .directory) := by
  obtain ⟨cv, hload⟩ := h.exists_on_loadVocabularies network root directory
  have hfree : t.node? (t.workingDirectory ++ [directory]) = none := by
    rw [h.workingDirectory]
    exact hfree
  have hmade := hdirectory.on_createDirectories h.isDirectoryAt hfree
  rw [h.workingDirectory, List.nil_append] at hmade
  refine on_run_createDatabase hwords rfl rfl h.load? (on_createDatabase_of_not_found (by decide)
    hload (hdirectory.exists?_of_nothing h.isDirectoryAt hfree) hmade ?_)
  refine FileTree.findFiles_of_not_found (hroot.locate_of_nothing ?_ ?_) _
  · show (t.put [directory] .directory).isDirectoryAt t.workingDirectory = true
    rw [h.workingDirectory]
    rfl
  · show (t.put [directory] .directory).node? (t.workingDirectory ++ [root]) = none
    rw [h.workingDirectory]
    exact (FileTree.node?_put_of_ne (by simp) (by simpa using hne)).trans hnothing

end

/-! ### A file that is kept in part -/

/-- A server that has a single file, of which nothing is written yet when the next is found to be
missing. -/
def incompleteServer : Network where
  answer _ file := .ok (if file = activityFile then some .empty else none)
  turns := [0, 0, 0, 0, 1]

def serverWords : List String :=
  ["--cv-source", "http://cvs/", "--force-cv-download", "db", "create", "in", "--db-dir", "db"]

def serverInvocation : Invocation where
  version := false
  quiet := false
  overrides := ⟨some "http://cvs/", true, none, none, []⟩
  command := some (.createDatabase ⟨"in"⟩ defaultGlob .standard ⟨"db"⟩)

def serverUrl : Url where
  scheme := "http"
  authority := some ⟨"", some (.domain "cvs"), none⟩
  route := .segments [""]
  query := none
  fragment := none

def serverCache : Path := ⟨".input4mips-validation-cache/http%3A%2F%2Fcvs%2F"⟩

def serverLocation : Location := [".input4mips-validation-cache", "http%3A%2F%2Fcvs%2F"]

theorem cacheDirectory_serverUrl :
    CvSource.cacheDirectory Settings.fallbackCache serverUrl = serverCache := by decide

/-- An empty cache. -/
def cachedTree : FileTree where
  nodes := Dict.ofList [([".input4mips-validation-cache"], .directory),
    (serverLocation, .directory)]
  workingDirectory := []

def lockedTree : FileTree :=
  cachedTree.put (serverLocation ++ [activityFile ++ ".lock"]) (.file .empty)

def keptTree : FileTree :=
  lockedTree.put (serverLocation ++ [activityFile ++ ".temp"]) (.file .empty)

theorem locate_serverCache (ending : FileTree.Ending) :
    cachedTree.locateWith ending serverCache = .ok serverLocation := by
  have hcache : FileTree.IsPathName ".input4mips-validation-cache" := by decide
  have hurl : FileTree.IsPathName "http%3A%2F%2Fcvs%2F" := by decide
  have hjoin : Path.join ⟨".input4mips-validation-cache"⟩ ⟨"http%3A%2F%2Fcvs%2F"⟩ =
      serverCache := by decide
  have hallowed : FileTree.refused? serverCache = none := by decide
  have hfound := hcache.locate (t := cachedTree) rfl (n := .directory) rfl nofun
  rw [← hjoin] at hallowed ⊢
  exact FileTree.locateWith_join_node hfound rfl hurl.isName hurl.isStep hallowed
    (n := .directory) rfl nofun ending

theorem on_createDirectories_serverCache :
    (FileTree.createDirectories serverCache).on cachedTree = (.ok (), cachedTree) := by
  have hslashes : FileTree.withoutSlashes serverCache = serverCache := by decide
  refine FileTree.on_createDirectories_of_taken (by decide) ?_ ?_
  · rw [FileTree.makeDirectory, hslashes, FileTree.freeLocation, locate_serverCache]
    rfl
  · rw [FileTree.isDirectory, FileTree.lookup_eq_ok.mpr ⟨_, locate_serverCache _, rfl⟩]

theorem isFreeIn_serverCache {name : String} (h : (Path.IsName name ∧ name ≠ "." ∧ name ≠ ".." ∧
      name.utf8ByteSize ≤ FileTree.nameLimit) ∧
      FileTree.refused? (serverCache.join ⟨name⟩) = none ∧
      cachedTree.node? (serverLocation ++ [name]) = none) :
    IsFreeIn cachedTree serverCache serverLocation name :=
  ⟨h.1.1, ⟨h.1.2.1, h.1.2.2.1, h.1.2.2.2⟩, h.2.1, h.2.2⟩

/-- The temporary file is still empty when the load ends. -/
theorem on_load_incompleteServer :
    (load (.remote serverUrl) incompleteServer Settings.fallbackCache true).on cachedTree =
      (.error (unavailable (.remote serverUrl) drsFile "not found"), keptTree) := by
  obtain ⟨rest, hfiles⟩ : ∃ rest, allFiles = (activityFile, true) :: (drsFile, true) :: rest :=
    ⟨_, rfl⟩
  have hserved : incompleteServer serverUrl activityFile = .ok (some .empty) := rfl
  have hmissing : incompleteServer serverUrl drsFile = .ok none := by decide
  have hlocate : cachedTree.locate serverCache = .ok serverLocation := locate_serverCache _
  have hlock : IsFreeIn cachedTree serverCache serverLocation (activityFile ++ ".lock") :=
    isFreeIn_serverCache (by decide)
  have htemporary : IsFreeIn lockedTree serverCache serverLocation (activityFile ++ ".temp") :=
    (isFreeIn_serverCache (by decide)).put (by decide) _
  have hgrown : FileTree.Grown cachedTree lockedTree := .put hlock.nothing (.file .empty)
  have hensured : (change fun t => t.ensureFile
      (serverCache.join ⟨activityFile ++ ".lock"⟩) : Disk OsError Unit).on cachedTree =
        (.ok (), lockedTree) := by
    rw [on_change, hlock.ensureFile hlocate rfl]
    rfl
  have hcleared : (change fun t => t.write (serverCache.join ⟨activityFile ++ ".temp"⟩) .empty :
      Disk OsError Unit).on lockedTree = (.ok (), keptTree) := by
    rw [on_change, htemporary.write (hgrown.locate hlocate) (hgrown.isDirectoryAt rfl)]
    rfl
  -- four turns keep a part of the first file, and in the fifth the second one fails
  rw [load, on_bind, readFiles, on_bind, hfiles]
  simp only [List.map_cons, readFile]
  rw [show incompleteServer.turns = [0, 0, 0, 0, 1] from rfl,
    Work.on_together_of_ok rfl (on_advance_of_some hserved), cacheDirectory_serverUrl, keep,
    keepingSteps,
    Work.on_together_of_ok rfl (Work.on_advance_attempt on_createDirectories_serverCache),
    Work.on_together_of_ok rfl (Work.on_advance_attempt hensured),
    Work.on_together_of_ok rfl (Work.on_advance_attempt hcleared),
    Work.on_together_of_error rfl (on_advance_of_none hmissing)]

theorem ofWords?_serverWords : Invocation.ofWords? serverWords = .ok serverInvocation := by
  decide +kernel

theorem on_run_incompleteServer :
    (run (surroundings incompleteServer) serverWords).on cachedTree =
      (.error (.vocabularies (unavailable (.remote serverUrl) drsFile "not found")), keptTree) := by
  have hsettings : Settings.load? cachedTree.read? ∅ = .ok plainSettings := by
    rw [load?_of_nothing rfl (by decide), load?_plainSettings]
  have hsource : CvSource.ofSetting? (some "http://cvs/") = .ok (.remote serverUrl) := by
    decide
  refine on_run_createDatabase ofWords?_serverWords rfl rfl hsettings
    (on_createDatabase_of_not_loaded (by decide) ?_)
  rw [loadVocabularies, show (serverInvocation.overrides.apply plainSettings).cvSource =
    some "http://cvs/" from rfl, hsource]
  simp only
  exact on_withError_eq_error.mpr ⟨_, on_load_incompleteServer, rfl⟩

theorem keptTree_ne : keptTree ≠ cachedTree := by decide

/-- A root that is not there leaves the directory of the database, so that the same words fail when
the root has been made; a server without all files leaves part of one in the cache. -/
theorem left_of_isEarly_sample :
    (∃ t', (run (surroundings offline) (localWords "in" "db")).on localTree =
        (.error (.find (.baseNotADirectory ⟨"in"⟩)), t') ∧ t'.isDirectory ⟨"db"⟩ = true ∧
      (run (surroundings offline) (localWords "in" "db")).on (t'.put ["in"] .directory) =
        (.error (.database (.alreadyExists ⟨"db"⟩)), t'.put ["in"] .directory)) ∧
    ∃ error t', (run (surroundings incompleteServer) serverWords).on cachedTree =
      (.error (.vocabularies error), t') ∧ t' ≠ cachedTree ∧
        LeftByLoading (surroundings incompleteServer) serverInvocation.overrides cachedTree t' := by
  have hwords : Invocation.ofWords? (localWords "in" "db") = .ok (localInvocation "in" "db") := by
    decide +kernel
  have hroot : FileTree.IsPathName "in" := by decide
  have hdatabase : FileTree.IsPathName "db" := by decide
  constructor
  · have hrun := on_run_of_no_root hasVocabularies_localTree offline hwords hdatabase
      (by decide +kernel) hroot (by decide +kernel) (by decide)
    obtain ⟨-, -, hsearch⟩ := left_of_isEarly hwords rfl hrun rfl
    obtain ⟨-, hdirectory, -⟩ := hsearch _ rfl (by decide)
    have hvocabularies : HasVocabularies
        ((localTree.put ["db"] .directory).put ["in"] .directory) :=
      (hasVocabularies_localTree.put (by decide +kernel) _).put (by decide +kernel) _
    refine ⟨_, hrun, hdirectory (by decide), on_run_of_taken hvocabularies offline hwords ?_⟩
    have hnode : ((localTree.put ["db"] .directory).put ["in"] .directory).node? ["db"] =
        some .directory := by decide +kernel
    have hlocate := hdatabase.locate hvocabularies.isDirectoryAt hnode nofun
    rw [FileTree.exists?, FileTree.lookup_eq_ok.mpr ⟨_, hlocate, hnode⟩]
  · obtain ⟨-, hleft, -⟩ := left_of_isEarly ofWords?_serverWords rfl on_run_incompleteServer rfl
    exact ⟨_, _, on_run_incompleteServer, keptTree_ne, hleft (by simp)⟩

end CommandLine
end ForcingData
