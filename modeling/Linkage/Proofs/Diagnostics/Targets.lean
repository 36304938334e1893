import Mathlib
import Linkage.Diagnostics.Artifact
import Linkage.Proofs.File.Actions

/-!
# Targets of diagnostics

The artifacts of an analysis go to a target, which is a directory or a file that has the name
of the artifact already. The name of the target decides which of the two it is taken for,
before the file tree is looked at: a name with a suffix is taken for that of a file. So a
directory whose name has a suffix is no target for artifacts.

Each artifact checks the target for itself. A target that is turned down is turned down by the
first artifact, and then the file tree is left as it was, unless the target has the name of the
document. Such a target passes for the document, which is written, and is turned down by the
page.

## Main results

* `FilePath.suffixOf_ne_empty_iff`: which names have a suffix.
* `Artifact.prepare_of_isDirectory`: what becomes of an artifact whose target is a directory.
* `Artifact.putAll_of_rejected`: what is left of the file tree when a target is turned down.
-/

namespace Linkage

/-! ### Names with a suffix -/

/-- A name has a suffix exactly when its last dot is neither its first nor its
last character. -/
theorem FilePath.suffixOf_ne_empty_iff (name : String) :
    suffixOf name ≠ "" ↔ ∃ before after, name.toList = before ++ '.' :: after ∧
      '.' ∉ after ∧ before ≠ [] ∧ after ≠ [] := by
  rw [suffixOf]
  constructor
  · intro h
    split at h
    · next first rest c after hcut =>
      exact ⟨first :: rest, c :: after, eq_append_of_cutLast hcut, not_mem_of_cutLast hcut, by simp,
        by simp⟩
    · exact absurd rfl h
  · rintro ⟨before, after, hname, hafter, hbefore, hne⟩
    obtain ⟨first, rest, rfl⟩ := List.exists_cons_of_ne_nil hbefore
    obtain ⟨c, cs, rfl⟩ := List.exists_cons_of_ne_nil hne
    rw [hname, cutLast_append _ hafter]
    exact fun hempty => by simpa using congrArg String.toList hempty

/-! ### Where an artifact goes -/

namespace ArtifactError

/-- Whether an artifact is not written because its target is turned down. -/
def isRejection : ArtifactError → Bool
  | misnamed _ _ => true
  | notDirectory => true
  | _ => false

end ArtifactError

namespace Artifact

open FileTree FileAction

/-- The suffixes of all artifacts. -/
def suffixes : List String := [documentSuffix, pageSuffix, tableSuffix]

/-- What becomes of an artifact whose target is a directory. -/
def inDirectory (directory : FilePath) (suffix : String) : Except ArtifactError FilePath :=
  if directory.suffix = "" then .ok (directory.child (basename ++ suffix))
  else if directory.name = basename ++ suffix then .ok directory
  else .error (.misnamed (basename ++ suffix) directory.name)

/-- The name of an artifact is read as a single name. -/
theorem join_basename (p : FilePath) {suffix : String} (hsuffix : suffix ∈ suffixes) :
    p.join (basename ++ suffix) = p.child (basename ++ suffix) := by
  have hread : FilePath.read (basename ++ suffix) = ⟨none, [basename ++ suffix]⟩ := by
    simp only [suffixes, List.mem_cons, List.not_mem_nil, or_false] at hsuffix
    rcases hsuffix with rfl | rfl | rfl <;> rfl
  rw [FilePath.join, hread]
  rfl

/-- The name of an artifact has a suffix. -/
theorem suffixOf_basename {suffix : String} (hsuffix : suffix ∈ suffixes) :
    FilePath.suffixOf (basename ++ suffix) ≠ "" := by
  simp only [suffixes, List.mem_cons, List.not_mem_nil, or_false] at hsuffix
  rcases hsuffix with rfl | rfl | rfl <;> decide

/-- A file of the versioned name has a suffix. -/
theorem suffix_ne_empty_of_name {p : FilePath} {suffix : String} (hsuffix : suffix ∈ suffixes)
    (hname : p.name = basename ++ suffix) : p.suffix ≠ "" := by
  rw [FilePath.suffix, hname]
  exact suffixOf_basename hsuffix

/-- The artifact is put below the directory exactly when the name of the directory has no
suffix. -/
theorem inDirectory_eq_child_iff {p : FilePath} {suffix : String} :
    inDirectory p suffix = .ok (p.child (basename ++ suffix)) ↔ p.suffix = "" := by
  rw [inDirectory]
  by_cases hnone : p.suffix = ""
  · simp [hnone]
  · have hlonger : p ≠ p.child (basename ++ suffix) := fun h => by
      simpa [FilePath.child] using congrArg (fun q => q.names.length) h
    by_cases hname : p.name = basename ++ suffix <;> simp [hnone, hname, hlonger]

section

variable {t t' : FileTree} {target p : FilePath} {suffix : String}

/-- A target whose name has a suffix is the artifact itself or is turned down. -/
theorem locate_of_suffix (hp : t.expand target = .ok p) (hsuffix : p.suffix ≠ "") :
    locate t target suffix =
      if p.name = basename ++ suffix then .ok p
      else .error (.misnamed (basename ++ suffix) p.name) := by
  have hsome : (!p.suffix.isEmpty) = true := by simpa using hsuffix
  simp only [locate, hp, onFile, bind, Except.bind, hsome, if_true]
  rfl

/-- A target whose name has a suffix and that is not turned down has the name of
the artifact. -/
theorem of_locate_of_suffix {path : FilePath} (hp : t.expand target = .ok p)
    (hsuffix : p.suffix ≠ "")
    (h : locate t target suffix = .ok path) : path = p ∧ p.name = basename ++ suffix := by
  rw [locate_of_suffix hp hsuffix] at h
  split at h
  · next hname =>
    cases h
    exact ⟨rfl, hname⟩
  · cases h

/-- A target whose name has no suffix is a directory, unless it is a file. -/
theorem locate_of_no_suffix (hp : t.expand target = .ok p) (hsuffix : p.suffix = "") :
    locate t target suffix = (onFile (t.isFile p)).bind fun isFile =>
      if isFile then .error .notDirectory else .ok (p.join (basename ++ suffix)) := by
  have hnone : (!p.suffix.isEmpty) = false := by simpa using hsuffix
  simp only [locate, hp, onFile, bind, Except.bind, hnone]
  rfl

/-- Where an artifact goes whose target is a directory. -/
theorem locate_of_isDirectory (hp : t.expand target = .ok p) (hdirectory : t.isDirectory p = true)
    (hsuffix : suffix ∈ suffixes) : locate t target suffix = inDirectory p suffix := by
  by_cases hnone : p.suffix = ""
  · rw [locate_of_no_suffix hp hnone, isFile_of_isDirectory hdirectory, inDirectory, if_pos hnone,
      ← join_basename p hsuffix]
    rfl
  · rw [locate_of_suffix hp hnone, inDirectory, if_neg hnone]

/-- A target is turned down for its name, or because it is a file. -/
theorem of_locate_rejected {e : ArtifactError} (h : locate t target suffix = .error e)
    (he : e.isRejection = true) : ∃ p, t.expand target = .ok p ∧
      (p.suffix ≠ "" ∧ p.name ≠ basename ++ suffix ∧ e = .misnamed (basename ++ suffix) p.name ∨
        p.suffix = "" ∧ t.isFile p = .ok true ∧ e = .notDirectory) := by
  cases hp : t.expand target with
  | error e' =>
      have hfile : locate t target suffix = .error (.file e') := by
        rw [locate, hp]
        rfl
      rw [hfile] at h
      cases h
      cases he
  | ok p =>
      refine ⟨p, rfl, ?_⟩
      by_cases hnone : p.suffix = ""
      · rw [locate_of_no_suffix hp hnone] at h
        cases hfile : t.isFile p with
        | error e' =>
            rw [hfile] at h
            cases h
            cases he
        | ok isFile =>
            rw [hfile] at h
            cases isFile <;> cases h
            exact .inr ⟨hnone, rfl, rfl⟩
      · rw [locate_of_suffix hp hnone] at h
        by_cases hname : p.name = basename ++ suffix
        · rw [if_pos hname] at h
          cases h
        · rw [if_neg hname] at h
          cases h
          exact .inl ⟨hnone, hname, rfl⟩

/-- Below a directory an artifact lies in that directory. -/
theorem parent_of_inDirectory {path : FilePath} (hdirectory : t.isDirectory p = true)
    (h : inDirectory p suffix = .ok path) : t.isDirectory path.parent = true := by
  rw [inDirectory] at h
  by_cases hnone : p.suffix = ""
  · rw [if_pos hnone] at h
    cases h
    rwa [FilePath.parent_child]
  · rw [if_neg hnone] at h
    by_cases hname : p.name = basename ++ suffix
    · rw [if_pos hname] at h
      cases h
      refine isDirectory_parent hdirectory fun hempty => hnone ?_
      rw [FilePath.suffix, hempty]
      rfl
    · rw [if_neg hname] at h
      cases h

end

/-! ### Targets that are directories -/

/-- What is done for an artifact whose target is a directory. -/
theorem run_prepare_of_isDirectory {t : FileTree} {target p : FilePath} {suffix : String}
    (hp : t.expand target = .ok p) (hdirectory : t.isDirectory p = true)
    (hsuffix : suffix ∈ suffixes) : (prepare target suffix).run t = (inDirectory p suffix, t) := by
  have hlocate := run_demand (fun t => locate t target suffix) (t := t)
  rw [locate_of_isDirectory hp hdirectory hsuffix] at hlocate
  rw [prepare]
  cases h : inDirectory p suffix with
  | error e =>
      rw [h] at hlocate
      exact run_bind_of_error hlocate
  | ok path =>
      rw [h] at hlocate
      have hmade : (mapFailure ArtifactError.file (ensureDirectories path.parent)).run t =
          (.ok (), t) := by
        rw [run_mapFailure, run_ensureDirectories_of_isDirectory
          (parent_of_inDirectory hdirectory h)]
        rfl
      rw [run_bind_of_ok hlocate, run_bind_of_ok hmade]
      rfl

/-- A path from the root has no tilde to be replaced. -/
theorem expand_parent_of_locate {t : FileTree} {output q : FilePath} (h : t.locate output = .ok q) :
    t.expand q.parent = .ok q.parent := by
  have hroot : q.root = some "/" := by
    rw [FileTree.locate] at h
    cases hexpand : t.expand output with
    | error e => simp [hexpand, bind, Except.bind] at h
    | ok q' =>
        simp only [hexpand, bind, Except.bind] at h
        by_cases hzero : q'.hasZero = true
        · simp [hzero, throw, throwThe, MonadExceptOf.throw] at h
        · simp only [hzero, pure, Except.pure] at h
          cases h
          rfl
  simp only [expand, FilePath.parent, hroot]

/-- **Artifacts whose target is a directory.** A target that is a directory is left as it is.
Its artifact is looked for below it when the name of the directory has no suffix; otherwise the
directory is taken for the artifact when it has that name, and turned down when it has another
one. The same holds for the directory of an output file. So a directory can be used exactly
when the last dot of its name, if there is one, is the first or the last character. -/
theorem prepare_of_isDirectory (t : FileTree) (suffix : String) (hsuffix : suffix ∈ suffixes) :
    (∀ target p, t.expand target = .ok p → t.isDirectory p = true →
      (prepare target suffix).run t = (inDirectory p suffix, t)) ∧
    (∀ output q, t.locate output = .ok q → t.isDirectory q.parent = true →
      (prepare q.parent suffix).run t = (inDirectory q.parent suffix, t)) ∧
    ∀ p, inDirectory p suffix = .ok (p.child (basename ++ suffix)) ↔
      ¬ ∃ before after, p.name.toList = before ++ '.' :: after ∧
        '.' ∉ after ∧ before ≠ [] ∧ after ≠ [] := by
  refine ⟨fun target p hp hdirectory => run_prepare_of_isDirectory hp hdirectory hsuffix,
    fun output q hq hdirectory =>
      run_prepare_of_isDirectory (expand_parent_of_locate hq) hdirectory hsuffix, fun p => ?_⟩
  rw [inDirectory_eq_child_iff, FilePath.suffix, ← FilePath.suffixOf_ne_empty_iff, not_not]

/-- A directory without a suffix can be used, and one with a suffix is turned down as the
directory of an output file. -/
theorem prepare_of_two_directories :
    let t : FileTree := ⟨[], [], .insert (.insert .empty ["out"] .directory) ["out.d"] .directory⟩
    documentSuffix ∈ suffixes ∧
      (prepare ⟨none, ["out"]⟩ documentSuffix).run t =
        (.ok ⟨none, ["out", "cohesion-diagnostics-v0.1.json"]⟩, t) ∧
      (prepare ⟨some "/", ["out.d"]⟩ documentSuffix).run t =
        (.error (.misnamed "cohesion-diagnostics-v0.1.json" "out.d"), t) := by
  intro t
  have hsuffix : documentSuffix ∈ suffixes := by simp [suffixes]
  refine ⟨hsuffix, ?_, ?_⟩
  · exact (prepare_of_isDirectory t documentSuffix hsuffix).1 _ ⟨none, ["out"]⟩ rfl rfl
  · exact (prepare_of_isDirectory t documentSuffix hsuffix).2.1 ⟨none, ["out.d", "m.csv"]⟩
      ⟨some "/", ["out.d", "m.csv"]⟩ rfl rfl

/-- A directory that cannot be used: its name has a suffix. -/
theorem directory_turned_down :
    ∃ (t : FileTree) (target p : FilePath), t.expand target = .ok p ∧ t.isDirectory p = true ∧
      (prepare target documentSuffix).run t =
        (.error (.misnamed "cohesion-diagnostics-v0.1.json" "out.d"), t) :=
  ⟨⟨[], [], .insert .empty ["out.d"] .directory⟩, ⟨none, ["out.d"]⟩, _, rfl, rfl, rfl⟩

/-! ### Targets that are turned down -/

section

variable {t t' : FileTree} {target p path : FilePath} {suffix : String} {e : ArtifactError}

/-- A file error is not about the target. -/
theorem isRejection_of_run_mapFailure {β : Type} {rename : FileError → ArtifactError}
    (hrename : ∀ e', (rename e').isRejection = false) {a : FileAction FileError β}
    (h : (mapFailure rename a).run t = (.error e, t')) : e.isRejection = false := by
  obtain ⟨e', rfl, -⟩ := exists_of_run_mapFailure_error h
  exact hrename e'

/-- A target that is turned down is turned down before anything is done. -/
theorem of_run_prepare_rejected (h : (prepare target suffix).run t = (.error e, t'))
    (he : e.isRejection = true) : locate t target suffix = .error e ∧ t' = t := by
  rw [prepare] at h
  rcases of_run_bind_error h with hlocate | ⟨path, s, -, hrest⟩
  · rw [run_demand, Prod.mk.injEq] at hlocate
    exact ⟨hlocate.1, hlocate.2.symm⟩
  · rcases of_run_bind_error hrest with hmade | ⟨_, s', -, hpure⟩
    · rw [isRejection_of_run_mapFailure (fun _ => rfl) hmade] at he
      cases he
    · cases hpure

/-- What has been done for an artifact: its path is known and its directory is there. -/
theorem of_run_prepare_ok (h : (prepare target suffix).run t = (.ok path, t')) :
    locate t target suffix = .ok path ∧ t'.Extends t ∧ t'.isDirectory path.parent = true := by
  rw [prepare] at h
  obtain ⟨path', s, hlocate, hrest⟩ := exists_of_run_bind_ok h
  obtain ⟨⟨⟩, s', hmade, hpure⟩ := exists_of_run_bind_ok hrest
  rw [run_demand, Prod.mk.injEq] at hlocate
  obtain ⟨hlocate, rfl⟩ := hlocate
  cases hpure
  have hmade := of_run_mapFailure_ok hmade
  have hextends := extending_ensureDirectories path.parent t
  rw [hmade] at hextends
  exact ⟨hlocate, hextends, isDirectory_of_run_ensureDirectories hmade⟩

/-- An artifact whose target is turned down has not been begun. -/
theorem of_run_put_rejected {entry : FileEntry} {rename : FileError → ArtifactError}
    (hrename : ∀ e', (rename e').isRejection = false)
    (h : (put target suffix entry rename).run t = (.error e, t')) (he : e.isRejection = true) :
    locate t target suffix = .error e ∧ t' = t := by
  rw [put] at h
  rcases of_run_bind_error h with hprepare | ⟨path, s, -, hrest⟩
  · exact of_run_prepare_rejected hprepare he
  · rcases of_run_bind_error hrest with hwritten | ⟨_, s', -, hpure⟩
    · rw [isRejection_of_run_mapFailure hrename hwritten] at he
      cases he
    · cases hpure

/-- The document, once its text is known, is put like every other artifact. -/
theorem run_putDocument {payload : Value Float} {text : String}
    (htext : documentText payload = .ok text) (target : FilePath) (t : FileTree) :
    (putDocument payload target).run t =
      (put target documentSuffix (.text text) .file).run t := by
  rw [putDocument, put]
  simp only [htext]

/-- An artifact that has been put is there, and what was a directory is one. -/
theorem of_run_put_ok {entry : FileEntry} {rename : FileError → ArtifactError}
    (h : (put target suffix entry rename).run t = (.ok path, t')) :
    locate t target suffix = .ok path ∧ t'.Extends t ∧ t'.isDirectory path.parent = true ∧
      t'.look path = .ok entry := by
  rw [put] at h
  obtain ⟨path', s, hprepare, hrest⟩ := exists_of_run_bind_ok h
  obtain ⟨⟨⟩, s', hwritten, hpure⟩ := exists_of_run_bind_ok hrest
  cases hpure
  obtain ⟨hlocate, hextends, hdirectory⟩ := of_run_prepare_ok hprepare
  have hwritten := of_run_mapFailure_ok hwritten
  have hlarger := extending_write path entry s
  rw [hwritten] at hlarger
  exact ⟨hlocate, hlarger.trans hextends, hlarger.isDirectory hdirectory,
    look_of_run_write hwritten⟩

/-- An artifact that has been put below its target leaves the target a directory. -/
theorem isDirectory_of_run_put {entry : FileEntry} {rename : FileError → ArtifactError}
    (h : (put target suffix entry rename).run t = (.ok path, t')) (hsuffix : suffix ∈ suffixes)
    (hp : t.expand target = .ok p) (hnone : p.suffix = "") : t'.isDirectory p = true := by
  obtain ⟨hlocate, -, hdirectory, -⟩ := of_run_put_ok h
  rw [locate_of_no_suffix hp hnone] at hlocate
  cases hfile : t.isFile p with
  | error e' =>
      rw [hfile] at hlocate
      cases hlocate
  | ok isFile =>
      rw [hfile] at hlocate
      cases isFile <;> cases hlocate
      rwa [join_basename p hsuffix, FilePath.parent_child] at hdirectory

end

/-- When one artifact has been put and another one is turned down, the target has the name of
the first. -/
theorem of_rejected_after_put {t s : FileTree} {target path : FilePath} {suffix suffix' : String}
    {entry : FileEntry} {rename : FileError → ArtifactError} {e : ArtifactError}
    (hsuffix : suffix ∈ suffixes) (hput : (put target suffix entry rename).run t = (.ok path, s))
    (h : locate s target suffix' = .error e) (he : e.isRejection = true) :
    t.expand target = .ok path ∧ path.name = basename ++ suffix ∧
      e = .misnamed (basename ++ suffix') path.name := by
  obtain ⟨hlocate, hextends, -, -⟩ := of_run_put_ok hput
  obtain ⟨p, hp, hcases⟩ := of_locate_rejected h he
  rw [hextends.expand_eq] at hp
  rcases hcases with ⟨hsome, -, rfl⟩ | ⟨hnone, hfile, -⟩
  · obtain ⟨rfl, hname⟩ := of_locate_of_suffix hp hsome hlocate
    exact ⟨hp, hname, rfl⟩
  -- Without a suffix the target is a directory by now, and no file.
  · have hdirectory := isDirectory_of_run_put hput hsuffix hp hnone
    rw [isFile_of_isDirectory hdirectory] at hfile
    cases hfile

/-- A table that is turned down has not been begun. -/
theorem of_run_putTable_rejected {t t' : FileTree} {target : FilePath} {hasTable : Bool}
    {e : ArtifactError}
    (h : (if hasTable then (do let _ ← putTable target) else pure ()).run t = (.error e, t'))
    (he : e.isRejection = true) : locate t target tableSuffix = .error e := by
  cases hasTable with
  | false => cases h
  | true =>
      rcases of_run_bind_error h with hput | ⟨_, s, -, hpure⟩
      · exact (of_run_put_rejected (fun _ => rfl) hput he).1
      · cases hpure

/-- **What is left when a target is turned down**: the file tree as it was, unless the target
has the name of the document. Then the document has been written, the page is the artifact that
is turned down, and nothing else has been done. -/
theorem putAll_of_rejected (payload : Value Float) (page text : String) (hasTable : Bool)
    (target : FilePath) (t t' : FileTree) (e : ArtifactError)
    (htext : documentText payload = .ok text)
    (h : (putAll payload page hasTable target).run t = (.error e, t')) (he : e.isRejection = true) :
    ∃ p, t.expand target = .ok p ∧ (p.name ≠ basename ++ documentSuffix → t' = t) ∧
      (p.name = basename ++ documentSuffix → e = .misnamed (basename ++ pageSuffix) p.name ∧
        (putDocument payload target).run t = (.ok p, t') ∧ t'.look p = .ok (.text text)) := by
  rw [putAll] at h
  rcases of_run_bind_error h with hdocument | ⟨path, s, hdocument, hrest⟩ <;>
    rw [run_putDocument htext] at hdocument
  -- The document is turned down.
  · obtain ⟨hlocate, rfl⟩ := of_run_put_rejected (fun _ => rfl) hdocument he
    obtain ⟨p, hp, hcases⟩ := of_locate_rejected hlocate he
    refine ⟨p, hp, fun _ => rfl, fun hname => ?_⟩
    rcases hcases with ⟨-, hne, -⟩ | ⟨hnone, -, -⟩
    · exact absurd hname hne
    · exact absurd hnone (suffix_ne_empty_of_name (by simp [suffixes]) hname)
  · have hdocumentSuffix : documentSuffix ∈ suffixes := by simp [suffixes]
    rcases of_run_bind_error hrest with hturned | ⟨path', s', hput, hlast⟩
    -- The page is turned down.
    · obtain ⟨hlocate, rfl⟩ := of_run_put_rejected (fun _ => rfl) hturned he
      obtain ⟨hp, hname, rfl⟩ := of_rejected_after_put hdocumentSuffix hdocument hlocate he
      refine ⟨path, hp, fun hne => absurd hname hne,
        fun _ => ⟨rfl, ?_, (of_run_put_ok hdocument).2.2.2⟩⟩
      rw [run_putDocument htext, hdocument]
    -- The table is not turned down: the target would have the names of both the document and
    -- the page.
    · have hpageSuffix : pageSuffix ∈ suffixes := by simp [suffixes]
      have htable := of_run_putTable_rejected hlast he
      obtain ⟨hp, hname, -⟩ := of_rejected_after_put hpageSuffix hput htable he
      obtain ⟨hlocate, hextends, -, -⟩ := of_run_put_ok hdocument
      rw [hextends.expand_eq] at hp
      have hnamed := (of_locate_of_suffix hp (suffix_ne_empty_of_name hpageSuffix hname) hlocate).2
      have hdifferent : basename ++ pageSuffix ≠ basename ++ documentSuffix := by decide
      exact absurd (hname.symm.trans hnamed) hdifferent

/-- The document is written to a target of its name in an empty tree, and the page is not. -/
theorem putAll_of_document_name :
    documentText (.record []) = .ok "\x7b\x7d\n" ∧
      (putAll (.record []) "" true ⟨none, ["cohesion-diagnostics-v0.1.json"]⟩).run
        ⟨[], [], .empty⟩ =
        (.error (.misnamed "cohesion-diagnostics-v0.1.html" "cohesion-diagnostics-v0.1.json"),
          FileTree.store ⟨[], [], .empty⟩ ["cohesion-diagnostics-v0.1.json"] (.text "\x7b\x7d\n")) ∧
      ∃ p, FileTree.expand ⟨[], [], .empty⟩ ⟨none, ["cohesion-diagnostics-v0.1.json"]⟩ = .ok p ∧
        (putDocument (.record []) ⟨none, ["cohesion-diagnostics-v0.1.json"]⟩).run ⟨[], [], .empty⟩ =
          (.ok p, FileTree.store ⟨[], [], .empty⟩ ["cohesion-diagnostics-v0.1.json"]
            (.text "\x7b\x7d\n")) := by
  have htext : documentText (.record []) = .ok "\x7b\x7d\n" := rfl
  have hrun : (putAll (.record []) "" true ⟨none, ["cohesion-diagnostics-v0.1.json"]⟩).run
      ⟨[], [], .empty⟩ =
      (.error (.misnamed "cohesion-diagnostics-v0.1.html" "cohesion-diagnostics-v0.1.json"),
        FileTree.store ⟨[], [], .empty⟩ ["cohesion-diagnostics-v0.1.json"]
          (.text "\x7b\x7d\n")) := rfl
  obtain ⟨p, hp, -, hnamed⟩ := putAll_of_rejected (.record []) "" "\x7b\x7d\n" true
    ⟨none, ["cohesion-diagnostics-v0.1.json"]⟩ ⟨[], [], .empty⟩ _ _ htext hrun rfl
  cases hp
  exact ⟨htext, hrun, _, rfl, (hnamed rfl).2.1⟩

/-- An artifact may have been written although a target is turned down. -/
theorem not_all_or_nothing :
    ∃ (t t' : FileTree) (target : FilePath) (payload : Value Float) (text : String)
      (e : ArtifactError), documentText payload = .ok text ∧
        (putAll payload "" true target).run t = (.error e, t') ∧ e.isRejection = true ∧
          t.look target = .error ⟨.missing, target⟩ ∧ t'.look target = .ok (.text text) :=
  ⟨⟨[], [], .empty⟩, _, ⟨none, ["cohesion-diagnostics-v0.1.json"]⟩, .record [], _, _, rfl, rfl, rfl,
    rfl, rfl⟩

end Artifact

end Linkage
