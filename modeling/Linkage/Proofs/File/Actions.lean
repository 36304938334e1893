import Mathlib
import Linkage.File.Tree

/-!
# Actions on a file tree

An action makes directories that are not there and stores files where there is no directory. So
what is a directory stays one: the tree that an action leaves `Extends` the tree that it was
given, and what leads to a directory before the action leads to it afterwards.

## Main results

* `FileTree.Extends.isDirectory`: a path that leads to a directory still does in a larger tree.
* `FileTree.isDirectory_parent`: what a directory lies in is a directory.
* `FileAction.run_ensureDirectories_of_isDirectory`: making a directory that is there changes
  nothing.
* `FileAction.isDirectory_of_run_ensureDirectories`: a directory that has been made is there.
* `FileAction.look_of_run_write`: a file that has been written is there.
-/

namespace Linkage

namespace FileTree

/-! ### Trees that are larger -/

/-- A tree **extends** another one when it has its working directory, its accounts and all of
its directories. -/
structure Extends (t' t : FileTree) : Prop where
  /-- The working directory is the same. -/
  home_eq : t'.home = t.home
  /-- The accounts are the same. -/
  accounts_eq : t'.accounts = t.accounts
  /-- What was a directory is one. -/
  directory : ∀ place, t.entryAt place = some .directory → t'.entryAt place = some .directory

variable {t t' t'' : FileTree} {p : FilePath}

/-- A tree extends itself. -/
theorem Extends.refl (t : FileTree) : t.Extends t := ⟨rfl, rfl, fun _ h => h⟩

/-- An extension of an extension is an extension. -/
theorem Extends.trans (h' : t''.Extends t') (h : t'.Extends t) : t''.Extends t :=
  ⟨h'.home_eq.trans h.home_eq, h'.accounts_eq.trans h.accounts_eq,
    fun place hplace => h'.directory place (h.directory place hplace)⟩

/-- Storing an entry where there is no directory extends a tree. -/
theorem extends_store {place : Place} (h : t.entryAt place ≠ some .directory) (e : FileEntry) :
    (t.store place e).Extends t := by
  refine ⟨rfl, rfl, fun place' hplace' => ?_⟩
  by_cases hhome : place'.isPrefixOf t.home = true
  · rw [entryAt, home_store, if_pos hhome]
  · rw [entryAt_store t place place' e hhome, if_neg, hplace']
    rintro rfl
    exact h hplace'

/-- The entry that is stored is found, unless the place lies on the way to the working
directory. -/
theorem entryAt_store_self {place : Place} (h : t.entryAt place ≠ some .directory) (e : FileEntry) :
    (t.store place e).entryAt place = some e := by
  have hhome : ¬ place.isPrefixOf t.home = true := fun hhome => h (by rw [entryAt, if_pos hhome])
  rw [entryAt_store t place place e hhome, if_pos rfl]

namespace Extends

variable (h : t'.Extends t)
include h

/-- Names lead to the same place: all that they lead through are directories. -/
theorem follow {names : List String} {start stop : Place}
    (hfollow : t.follow start names = .ok stop) : t'.follow start names = .ok stop := by
  induction names generalizing start with
  | nil => exact hfollow
  | cons name rest ih =>
      rw [FileTree.follow] at hfollow
      split at hfollow
      · cases hfollow
      · next hdirectory =>
        rw [FileTree.follow, h.directory start hdirectory]
        split at hfollow
        · cases hfollow
        · next hsize =>
          simp only [if_neg hsize]
          exact ih hfollow
      · cases hfollow

/-- A path leads to the same place. -/
theorem placeOf {place : Place} (hplace : t.placeOf p = .ok place) : t'.placeOf p = .ok place := by
  unfold FileTree.placeOf at hplace ⊢
  split at hplace
  · cases hplace
  · next hzero =>
    rw [if_neg hzero]
    split at hplace
    · cases hplace
    · next hsize =>
      have hstart : t'.start p = t.start p := by rw [start, start, h.home_eq]
      rw [if_neg hsize, hstart]
      exact h.follow hplace

/-- A tilde stands for the same directory. -/
theorem expand_eq (p : FilePath) : t'.expand p = t.expand p := by
  simp only [expand, h.accounts_eq]

end Extends

/-- A path leads to a directory when its place is one. -/
theorem isDirectory_iff :
    t.isDirectory p = true ↔ ∃ place, t.placeOf p = .ok place ∧
      t.entryAt place = some .directory := by
  rw [isDirectory, look]
  cases t.placeOf p with
  | error fault => simp
  | ok place => cases hentry : t.entryAt place with
    | none => simp [hentry]
    | some e => cases e <;> simp [hentry]

/-- **What leads to a directory** leads to it in a larger tree. -/
theorem Extends.isDirectory (h : t'.Extends t) (hp : t.isDirectory p = true) :
    t'.isDirectory p = true := by
  obtain ⟨place, hplace, hdirectory⟩ := isDirectory_iff.mp hp
  exact isDirectory_iff.mpr ⟨place, h.placeOf hplace, h.directory place hdirectory⟩

/-- A directory is no file. -/
theorem isFile_of_isDirectory (hp : t.isDirectory p = true) : t.isFile p = .ok false := by
  obtain ⟨place, hplace, hdirectory⟩ := isDirectory_iff.mp hp
  simp only [isFile, look, hplace, hdirectory]

/-! ### What a directory lies in -/

/-- The names before the last one lead to a directory. -/
theorem exists_of_follow_append {start stop : Place} {names : List String} {name : String}
    (h : t.follow start (names ++ [name]) = .ok stop) :
    ∃ place, t.follow start names = .ok place ∧ t.entryAt place = some .directory := by
  induction names generalizing start with
  | nil =>
      rw [List.nil_append, follow] at h
      split at h
      · cases h
      · next hdirectory => exact ⟨start, rfl, hdirectory⟩
      · cases h
  | cons first rest ih =>
      rw [List.cons_append, follow] at h
      split at h
      · cases h
      · next hdirectory =>
        split at h
        · cases h
        · next hsize =>
          rw [follow, hdirectory]
          simp only [if_neg hsize]
          exact ih h
      · cases h

/-- A path is no longer than the path of what lies below it. -/
theorem utf8ByteSize_join_le (separator name : String) (names : List String) :
    (Text.join separator names).utf8ByteSize ≤
      (Text.join separator (names ++ [name])).utf8ByteSize := by
  induction names with
  | nil => simp [Text.join]
  | cons first rest ih =>
      cases rest with
      | nil =>
          simp only [Text.join, List.cons_append, List.nil_append, String.intercalate_cons_cons,
            String.intercalate_singleton, String.utf8ByteSize_append]
          omega
      | cons second rest =>
          simp only [Text.join, List.cons_append, String.intercalate_cons_cons,
            String.utf8ByteSize_append] at ih ⊢
          omega

/-- The parent of a path with a name is no longer than the path. -/
theorem utf8ByteSize_text_parent_le (hname : p.name ≠ "") :
    p.parent.text.utf8ByteSize ≤ p.text.utf8ByteSize := by
  obtain ⟨root, names⟩ := p
  rcases List.eq_nil_or_concat names with rfl | ⟨init, name, rfl⟩
  · exact absurd rfl hname
  · rw [List.concat_eq_append] at hname ⊢
    have hlast : name ≠ "" := by simpa [FilePath.name] using hname
    have hparent : FilePath.parent ⟨root, init ++ [name]⟩ = ⟨root, init⟩ := by
      rw [FilePath.parent, List.dropLast_concat]
    have hjoin := utf8ByteSize_join_le "/" name init
    rw [hparent]
    cases root with
    | some root => simpa [FilePath.text] using hjoin
    | none =>
        cases init with
        | nil =>
            have hpositive : 1 ≤ name.utf8ByteSize :=
              Nat.pos_of_ne_zero (mt String.utf8ByteSize_eq_zero_iff.mp hlast)
            have hdot : ".".utf8ByteSize = 1 := rfl
            simpa [FilePath.text, Text.join, hdot] using hpositive
        | cons first rest => simpa [FilePath.text] using hjoin

/-- **What a directory lies in** is a directory. -/
theorem isDirectory_parent (hp : t.isDirectory p = true) (hname : p.name ≠ "") :
    t.isDirectory p.parent = true := by
  obtain ⟨place, hplace, -⟩ := isDirectory_iff.mp hp
  rw [placeOf] at hplace
  split at hplace
  · cases hplace
  · next hzero =>
    split at hplace
    · cases hplace
    · next hsize =>
      obtain ⟨before, hbefore, hdirectory⟩ : ∃ before,
          t.follow (t.start p) p.names.dropLast = .ok before ∧
            t.entryAt before = some .directory := by
        rcases List.eq_nil_or_concat p.names with hnil | ⟨init, name, hnames⟩
        · simp [FilePath.name, hnil] at hname
        · rw [hnames, List.concat_eq_append] at hplace ⊢
          rw [List.dropLast_concat]
          exact exists_of_follow_append hplace
      have hzero' : ¬ p.parent.hasZero = true := by
        simp only [FilePath.hasZero, FilePath.parent, List.any_eq_true, not_exists,
          not_and] at hzero ⊢
        exact fun name hmem => hzero name (List.dropLast_subset _ hmem)
      have hsize' : ¬ maxPathSize < p.parent.text.utf8ByteSize := by
        have := utf8ByteSize_text_parent_le hname
        omega
      refine isDirectory_iff.mpr ⟨before, ?_, hdirectory⟩
      rw [placeOf, if_neg hzero', if_neg hsize']
      exact hbefore

end FileTree

namespace FileAction

open FileTree

/-! ### Runs -/

section

variable {ε δ α β : Type} {t t' : FileTree}

/-- After an action that succeeds, the next one runs on what it leaves. -/
theorem run_bind_of_ok {a : FileAction ε α} {f : α → FileAction ε β} {x : α}
    (h : a.run t = (.ok x, t')) : (a >>= f).run t = (f x).run t' := by
  simp only [ExceptT.run, bind, ExceptT.bind, ExceptT.mk, StateT.bind] at h ⊢
  rw [h]
  rfl

/-- After an action that fails, nothing runs. -/
theorem run_bind_of_error {a : FileAction ε α} {f : α → FileAction ε β} {e : ε}
    (h : a.run t = (.error e, t')) : (a >>= f).run t = (.error e, t') := by
  simp only [ExceptT.run, bind, ExceptT.bind, ExceptT.mk, StateT.bind] at h ⊢
  rw [h]
  rfl

/-- An action in two steps that has succeeded has succeeded in both. -/
theorem exists_of_run_bind_ok {a : FileAction ε α} {f : α → FileAction ε β} {y : β}
    (h : (a >>= f).run t = (.ok y, t')) :
    ∃ x s, a.run t = (.ok x, s) ∧ (f x).run s = (.ok y, t') := by
  rcases ha : a.run t with ⟨e | x, s⟩
  · rw [run_bind_of_error ha] at h
    cases h
  · rw [run_bind_of_ok ha] at h
    exact ⟨x, s, rfl, h⟩

/-- An action in two steps that has failed has failed in the first, or in the second
after it. -/
theorem of_run_bind_error {a : FileAction ε α} {f : α → FileAction ε β} {e : ε}
    (h : (a >>= f).run t = (.error e, t')) :
    a.run t = (.error e, t') ∨ ∃ x s, a.run t = (.ok x, s) ∧ (f x).run s = (.error e, t') := by
  rcases ha : a.run t with ⟨e' | x, s⟩
  · rw [run_bind_of_error ha] at h
    cases h
    exact .inl rfl
  · rw [run_bind_of_ok ha] at h
    exact .inr ⟨x, s, rfl, h⟩

/-- An action that succeeds needs no handler. -/
theorem run_tryCatch_of_ok {a : FileAction ε α} {f : ε → FileAction ε α} {x : α}
    (h : a.run t = (.ok x, t')) : (tryCatch a f).run t = (.ok x, t') := by
  simp only [ExceptT.run, tryCatch, tryCatchThe, MonadExceptOf.tryCatch, ExceptT.tryCatch,
    ExceptT.mk, bind, StateT.bind] at h ⊢
  rw [h]
  rfl

/-- The handler runs on what the failed action leaves. -/
theorem run_tryCatch_of_error {a : FileAction ε α} {f : ε → FileAction ε α} {e : ε}
    (h : a.run t = (.error e, t')) : (tryCatch a f).run t = (f e).run t' := by
  simp only [ExceptT.run, tryCatch, tryCatchThe, MonadExceptOf.tryCatch, ExceptT.tryCatch,
    ExceptT.mk, bind, StateT.bind] at h ⊢
  rw [h]

/-- Renaming a failure changes neither a result nor the tree. -/
theorem run_mapFailure (f : ε → δ) (a : FileAction ε α) :
    (mapFailure f a).run t = ((a.run t).1.mapError f, (a.run t).2) := by
  rcases h : a.run t with ⟨_ | _, s⟩ <;>
  · simp only [mapFailure, ExceptT.run, bind, ExceptT.mk, StateT.bind] at h ⊢
    rw [h]
    rfl

/-- An action whose failures are renamed returns what it returns. -/
theorem of_run_mapFailure_ok {f : ε → δ} {a : FileAction ε α} {x : α}
    (h : (mapFailure f a).run t = (.ok x, t')) : a.run t = (.ok x, t') := by
  rw [run_mapFailure] at h
  rcases hrun : a.run t with ⟨_ | y, s⟩ <;> rw [hrun] at h <;> cases h
  rfl

/-- An action whose failures are renamed fails with a renamed failure. -/
theorem exists_of_run_mapFailure_error {f : ε → δ} {a : FileAction ε α} {d : δ}
    (h : (mapFailure f a).run t = (.error d, t')) : ∃ e, d = f e ∧ a.run t = (.error e, t') := by
  rw [run_mapFailure] at h
  rcases hrun : a.run t with ⟨e | _, s⟩ <;> rw [hrun] at h <;> cases h
  exact ⟨e, rfl, rfl⟩

/-- A demand looks at the tree and leaves it as it is. -/
theorem run_demand (f : FileTree → Except ε α) : (demand f).run t = (f t, t) := by
  rw [demand, run_bind_of_ok (rfl : (get : FileAction ε FileTree).run t = (.ok t, t))]
  cases f t <;> rfl

end

/-! ### Actions that extend a tree -/

/-- An action is **extending** when the tree that it leaves, failing or not, extends the one
that it was given. -/
def Extending {ε α : Type} (a : FileAction ε α) : Prop := ∀ t, (a.run t).2.Extends t

section

variable {ε δ α β : Type} {a : FileAction ε α}

/-- Extending actions one after another are extending. -/
theorem Extending.bind (ha : Extending a) {f : α → FileAction ε β} (hf : ∀ x, Extending (f x)) :
    Extending (a >>= f) := by
  intro t
  have hfirst := ha t
  rcases h : a.run t with ⟨e | x, s⟩ <;> rw [h] at hfirst
  · rwa [run_bind_of_error h]
  · rw [run_bind_of_ok h]
    exact (hf x s).trans hfirst

/-- An extending action with an extending handler is extending. -/
theorem Extending.tryCatch (ha : Extending a) {f : ε → FileAction ε α} (hf : ∀ e, Extending (f e)) :
    Extending (tryCatch a f) := by
  intro t
  have hfirst := ha t
  rcases h : a.run t with ⟨e | x, s⟩ <;> rw [h] at hfirst
  · rw [run_tryCatch_of_error h]
    exact (hf e s).trans hfirst
  · rwa [run_tryCatch_of_ok h]

/-- An action that leaves the tree as it is is extending. -/
theorem extending_of_run {f : FileTree → Except ε α} (h : ∀ t, a.run t = (f t, t)) :
    Extending a := by
  intro t
  rw [h]
  exact .refl t

end

/-! ### Directories and files -/

section

variable {t t' : FileTree} {p : FilePath}

/-- What making a directory does: it is stored where there is nothing. -/
theorem run_makeDirectory (p : FilePath) (t : FileTree) :
    (∃ e, (makeDirectory p).run t = (.error e, t)) ∨
      ∃ place, t.placeOf p = .ok place ∧ t.entryAt place = none ∧
        (makeDirectory p).run t = (.ok (), t.store place .directory) := by
  rw [makeDirectory,
    run_bind_of_ok (rfl : (get : FileAction FileError FileTree).run t = (.ok t, t))]
  cases hplace : t.placeOf p with
  | error fault => exact .inl ⟨_, rfl⟩
  | ok place =>
      cases hentry : t.entryAt place with
      | some e => exact .inl ⟨_, by simp only [hentry]; rfl⟩
      | none => exact .inr ⟨place, rfl, hentry, by simp only [hentry]; rfl⟩

/-- Making a directory is extending. -/
theorem extending_makeDirectory (p : FilePath) : Extending (makeDirectory p) := by
  intro t
  rcases run_makeDirectory p t with ⟨e, h⟩ | ⟨place, -, hfree, h⟩ <;> rw [h]
  · exact .refl t
  · exact extends_store (by simp [hfree]) .directory

/-- A directory that is there is not made again. -/
theorem run_makeDirectory_of_isDirectory (hp : t.isDirectory p = true) :
    (makeDirectory p).run t = (.error ⟨.taken, p⟩, t) := by
  obtain ⟨place, hplace, hdirectory⟩ := isDirectory_iff.mp hp
  rw [makeDirectory,
    run_bind_of_ok (rfl : (get : FileAction FileError FileTree).run t = (.ok t, t))]
  simp only [hplace, hdirectory]
  rfl

/-- A directory that has been made is there. -/
theorem isDirectory_of_run_makeDirectory (h : (makeDirectory p).run t = (.ok (), t')) :
    t'.isDirectory p = true := by
  rcases run_makeDirectory p t with ⟨e, herror⟩ | ⟨place, hplace, hfree, hmade⟩
  · rw [herror] at h
    cases h
  · rw [hmade] at h
    cases h
    have hfree : t.entryAt place ≠ some .directory := by simp [hfree]
    exact isDirectory_iff.mpr ⟨place, (extends_store hfree .directory).placeOf hplace,
      entryAt_store_self hfree .directory⟩

/-- When a directory cannot be made, nothing is done if it is there and another condition
holds. -/
theorem run_ask_isDirectory (p : FilePath) (e : FileError) (accepts : Bool → Bool) (t : FileTree) :
    (do if accepts (← ask (·.isDirectory p)) then pure () else throw e :
      FileAction FileError Unit).run
      t = (if accepts (t.isDirectory p) then .ok () else .error e, t) := by
  rw [run_bind_of_ok (rfl : (ask (·.isDirectory p)).run t = (.ok (t.isDirectory p), t))]
  by_cases h : accepts (t.isDirectory p) = true <;> simp only [h, if_true] <;> rfl

/-- When a directory cannot be made, nothing is done if it is there. -/
theorem run_unless_isDirectory (p : FilePath) (e : FileError) (t : FileTree) :
    (do if ← ask (·.isDirectory p) then pure () else throw e : FileAction FileError Unit).run t =
      (if t.isDirectory p then .ok () else .error e, t) :=
  run_ask_isDirectory p e id t

/-- Making a directory unless it is there is extending. -/
theorem extending_ensureDirectory (p : FilePath) : Extending (ensureDirectory p) :=
  (extending_makeDirectory p).tryCatch fun e =>
    extending_of_run (run_ask_isDirectory p e (e.fault != .missing && ·))

/-- A directory that has been made, unless it was there, is there. -/
theorem isDirectory_of_run_ensureDirectory (h : (ensureDirectory p).run t = (.ok (), t')) :
    t'.isDirectory p = true := by
  rcases hmake : (makeDirectory p).run t with ⟨e | ⟨⟩, s⟩
  · rw [ensureDirectory, run_tryCatch_of_error hmake,
      run_ask_isDirectory p e (e.fault != .missing && ·)] at h
    by_cases hs : (e.fault != .missing && s.isDirectory p) = true
    · rw [if_pos hs] at h
      cases h
      exact (Bool.and_eq_true_iff.mp hs).2
    · rw [if_neg hs] at h
      cases h
  · rw [ensureDirectory, run_tryCatch_of_ok hmake] at h
    cases h
    exact isDirectory_of_run_makeDirectory hmake

/-- Nothing is done where there is a directory. -/
theorem run_ensureDirectory_of_isDirectory (hp : t.isDirectory p = true) :
    (ensureDirectory p).run t = (.ok (), t) := by
  rw [ensureDirectory, run_tryCatch_of_error (run_makeDirectory_of_isDirectory hp),
    run_ask_isDirectory p _ ((FileFault.taken != .missing) && ·), hp]
  rfl

/-- Making the directories along some names is extending. -/
theorem extending_ensureAlong (root : Option String) (names : List String) :
    Extending (ensureAlong root names) := by
  induction names with
  | nil => exact extending_ensureDirectory _
  | cons name up ih =>
      refine (extending_makeDirectory _).tryCatch fun e => ?_
      split
      · exact ih.bind fun _ => extending_ensureDirectory _
      · exact extending_of_run (run_unless_isDirectory _ e)

/-- Making all directories of a path is extending. -/
theorem extending_ensureDirectories (p : FilePath) : Extending (ensureDirectories p) :=
  extending_ensureAlong _ _

/-- After the directories along some names were made, the last one is there. -/
theorem isDirectory_of_run_ensureAlong {root : Option String} {names : List String}
    (h : (ensureAlong root names).run t = (.ok (), t')) :
    t'.isDirectory ⟨root, names.reverse⟩ = true := by
  cases names with
  | nil => exact isDirectory_of_run_ensureDirectory h
  | cons name up =>
      rw [ensureAlong] at h
      rcases hmake : (makeDirectory ⟨root, (name :: up).reverse⟩).run t with ⟨e | ⟨⟩, s⟩
      · rw [run_tryCatch_of_error hmake] at h
        split at h
        · obtain ⟨_, s', -, hlast⟩ := exists_of_run_bind_ok h
          exact isDirectory_of_run_ensureDirectory hlast
        · rw [run_unless_isDirectory] at h
          by_cases hs : s.isDirectory ⟨root, (name :: up).reverse⟩ = true
          · rw [if_pos hs] at h
            cases h
            exact hs
          · rw [if_neg hs] at h
            cases h
      · rw [run_tryCatch_of_ok hmake] at h
        cases h
        exact isDirectory_of_run_makeDirectory hmake

/-- **A directory that has been made** with those that lead to it is there. -/
theorem isDirectory_of_run_ensureDirectories (h : (ensureDirectories p).run t = (.ok (), t')) :
    t'.isDirectory p = true := by
  have hdirectory := isDirectory_of_run_ensureAlong h
  rwa [List.reverse_reverse] at hdirectory

/-- Nothing is made along the names of a directory that is there. -/
theorem run_ensureAlong_of_isDirectory {root : Option String} {names : List String}
    (hp : t.isDirectory ⟨root, names.reverse⟩ = true) :
    (ensureAlong root names).run t = (.ok (), t) := by
  cases names with
  | nil => exact run_ensureDirectory_of_isDirectory hp
  | cons name up =>
      rw [ensureAlong, run_tryCatch_of_error (run_makeDirectory_of_isDirectory hp),
        if_neg (by simp), run_unless_isDirectory, if_pos hp]

/-- **Making a directory that is there changes nothing.** -/
theorem run_ensureDirectories_of_isDirectory (hp : t.isDirectory p = true) :
    (ensureDirectories p).run t = (.ok (), t) := by
  refine run_ensureAlong_of_isDirectory ?_
  rwa [List.reverse_reverse]

/-- What writing a file does: it is stored where there is no directory. -/
theorem run_write (p : FilePath) (e : FileEntry) (t : FileTree) :
    (∃ error, (write p e).run t = (.error error, t)) ∨
      ∃ place, t.placeOf p = .ok place ∧ t.entryAt place ≠ some .directory ∧
        (write p e).run t = (.ok (), t.store place e) := by
  rw [write, run_bind_of_ok (rfl : (get : FileAction FileError FileTree).run t = (.ok t, t))]
  cases hplace : t.placeOf p with
  | error fault => exact .inl ⟨_, rfl⟩
  | ok place =>
      cases hentry : t.entryAt place with
      | none => exact .inr ⟨place, rfl, by simp [hentry], by simp only [hentry]; rfl⟩
      | some held =>
          cases held with
          | directory => exact .inl ⟨_, by simp only [hentry]; rfl⟩
          | text s => exact .inr ⟨place, rfl, by simp [hentry], by simp only [hentry]; rfl⟩
          | columns => exact .inr ⟨place, rfl, by simp [hentry], by simp only [hentry]; rfl⟩

/-- Writing a file is extending. -/
theorem extending_write (p : FilePath) (e : FileEntry) : Extending (write p e) := by
  intro t
  rcases run_write p e t with ⟨error, h⟩ | ⟨place, -, hfree, h⟩ <;> rw [h]
  · exact .refl t
  · exact extends_store hfree e

/-- **A file that has been written is there.** -/
theorem look_of_run_write {e : FileEntry} (h : (write p e).run t = (.ok (), t')) :
    t'.look p = .ok e := by
  rcases run_write p e t with ⟨error, herror⟩ | ⟨place, hplace, hfree, hwritten⟩
  · rw [herror] at h
    cases h
  · rw [hwritten] at h
    cases h
    simp only [look, (extends_store hfree e).placeOf hplace, entryAt_store_self hfree e]

end

end FileAction

end Linkage
