import Mathlib.Tactic

/-!
# File trees

Directories, files and symbolic links, and the resolution of a path among them.  A
path is resolved component by component from the root; a link is replaced by its
target, at most `limit` times.  The empty path leads nowhere, and everything that has
a component behind it is a directory, also where that component is `.` or empty.

* `canonicalize_reached`: a path resolves to a place that exists and is no link, and
  all directories above it exist, are no links and can be searched.
* `canonicalize_of_reached`: the names that lead to such a place resolve to it again,
  so what is later looked up under a canonical path is what was found there.
-/

namespace FlorenceServer

section Paths

/-- A place in a file tree: the names on the way down from the root. -/
abbrev Location := List String

inductive PathComponent where
  | current
  | parent
  | normal (name : String)
deriving DecidableEq, Repr

/-- A path as it is written. -/
structure RawPath where
  absolute : Bool
  components : List PathComponent
deriving DecidableEq, Repr

def RawPath.isEmpty (path : RawPath) : Bool :=
  !path.absolute && path.components.isEmpty

/-- A name that a directory can hold. -/
structure IsFileName (name : String) : Prop where
  not_current : name ≠ "."
  not_parent : name ≠ ".."
  nonempty : name ≠ ""
  slash_free : '/' ∉ name.toList
  nul_free : Char.ofNat 0 ∉ name.toList

end Paths

section Trees

inductive FileNode where
  | file (readable : Bool) (bytes : List UInt8)
  | directory (searchable : Bool)
  | link (target : RawPath)
  /-- a device, a pipe or a socket -/
  | special
deriving DecidableEq, Repr

namespace FileNode

def isLink : FileNode → Bool
  | .link _ => true
  | .file _ _ | .directory _ | .special => false

/-- `Metadata::is_file`. -/
def isFile : FileNode → Bool
  | .file _ _ => true
  | .directory _ | .link _ | .special => false

end FileNode

/-- What is found where.  Everything but the root lies in a directory. -/
structure FileTree where
  node : Location → Option FileNode
  root : ∃ searchable, node [] = some (.directory searchable)
  parents : ∀ place name, node (place ++ [name]) ≠ none →
    ∃ searchable, node place = some (.directory searchable)
  names : ∀ place name, node (place ++ [name]) ≠ none → IsFileName name

inductive FileError where
  | notFound
  | notADirectory
  | isADirectory
  | tooManyLinks
  | denied
  /-- the path cannot be passed to the system -/
  | invalidInput
deriving DecidableEq, Repr

/-- Where one component leads. -/
inductive Lookup where
  | here (place : Location)
  | link (target : RawPath)
deriving DecidableEq, Repr

namespace FileTree

variable (t : FileTree)

/-- Only a directory has components, and names only if it can be searched. -/
def search (place : Location) (component : PathComponent) : Except FileError Unit :=
  match t.node place, component with
  | some (.directory true), _ => .ok ()
  | some (.directory false), .normal _ => .error .denied
  | some (.directory false), _ => .ok ()
  | some _, _ => .error .notADirectory
  | none, _ => .error .notFound

def lookup (place : Location) : PathComponent → Except FileError Lookup
  | .current => .ok (.here place)
  | .parent => .ok (.here place.dropLast)
  | .normal name =>
      match t.node (place ++ [name]) with
      | none => .error .notFound
      | some (.link target) => .ok (.link target)
      | some _ => .ok (.here (place ++ [name]))

/-- The components up to the first link; `follow` goes on from there. -/
def walk (follow : Location → List PathComponent → Except FileError Location) :
    Location → List PathComponent → Except FileError Location
  | place, [] => .ok place
  | place, component :: rest =>
      match t.search place component with
      | .error err => .error err
      | .ok () =>
          match t.lookup place component with
          | .error err => .error err
          | .ok (.here next) => walk follow next rest
          | .ok (.link target) =>
              follow (if target.absolute then [] else place) (target.components ++ rest)

/-- Path resolution with at most `limit` links. -/
def resolve : Nat → Location → List PathComponent → Except FileError Location
  | 0 => t.walk (fun _ _ => .error .tooManyLinks)
  | limit + 1 => t.walk (resolve limit)

/-- `realpath`: a relative path starts below the names of the working directory. -/
def canonicalize (limit : Nat) (cwd : Location) (path : RawPath) :
    Except FileError Location :=
  if path.isEmpty then .error .notFound
  else
    t.resolve limit []
      (if path.absolute then path.components else cwd.map .normal ++ path.components)

/-- A place that exists and is no link, below directories that can be searched. -/
structure Reached (place : Location) : Prop where
  found : ∃ node, t.node place = some node ∧ node.isLink = false
  above : ∀ p, p <+: place → p ≠ place → t.node p = some (.directory true)

end FileTree
end Trees

namespace FileTree

variable {t : FileTree}

theorem search_eq_ok
    {place : Location} {name : String}
    (h : t.search place (.normal name) = .ok ()) :
    t.node place = some (.directory true) := by
  unfold search at h
  split at h
  case h_1 hnode => exact hnode
  case h_3 hnot => exact absurd rfl (hnot name)
  all_goals cases h

theorem search_of_directory
    {place : Location}
    (h : t.node place = some (.directory true)) (component : PathComponent) :
    t.search place component = .ok () := by
  unfold search
  rw [h]

theorem reached_root (t : FileTree) : t.Reached [] := by
  obtain ⟨searchable, hroot⟩ := t.root
  refine ⟨⟨_, hroot, rfl⟩, ?_⟩
  intro p hstarts hne
  exact absurd (List.prefix_nil.mp hstarts) hne

theorem prefix_concat_cases
    {p place : Location} {name : String}
    (hstarts : p <+: place ++ [name])
    (hne : p ≠ place ++ [name]) :
    p <+: place := by
  rcases List.prefix_concat_iff.mp hstarts with heq | hshort
  · exact absurd heq hne
  · exact hshort

/-- One name further down. -/
theorem Reached.child
    {place : Location} {name : String} {node : FileNode}
    (hreached : t.Reached place)
    (hsearch : t.node place = some (.directory true))
    (hnode : t.node (place ++ [name]) = some node)
    (hlink : node.isLink = false) :
    t.Reached (place ++ [name]) := by
  refine ⟨⟨node, hnode, hlink⟩, ?_⟩
  intro p hstarts hne
  have hshort := prefix_concat_cases hstarts hne
  by_cases hp : p = place
  · rw [hp]
    exact hsearch
  · exact hreached.above p hshort hp

theorem Reached.dropLast
    {place : Location}
    (hreached : t.Reached place) :
    t.Reached place.dropLast := by
  by_cases hnil : place = []
  · rw [hnil]
    exact t.reached_root
  · have hlonger : place.dropLast ≠ place := by
      intro heq
      have hlength := congrArg List.length heq
      rw [List.length_dropLast] at hlength
      have hpos := List.length_pos_iff.mpr hnil
      omega
    have hdirectory := hreached.above _ (List.dropLast_prefix place) hlonger
    refine ⟨⟨_, hdirectory, rfl⟩, ?_⟩
    intro p hstarts hne
    refine hreached.above p (hstarts.trans (List.dropLast_prefix place)) ?_
    intro heq
    have hlength := hstarts.length_le
    rw [heq, List.length_dropLast] at hlength
    have hpos := List.length_pos_iff.mpr hnil
    omega

/-- A component that is no link leads to a place that is reached. -/
theorem Reached.lookup
    {place next : Location} {component : PathComponent}
    (hreached : t.Reached place)
    (hsearch : t.search place component = .ok ())
    (hlookup : t.lookup place component = .ok (.here next)) :
    t.Reached next := by
  cases component with
  | current =>
      cases hlookup
      exact hreached
  | parent =>
      cases hlookup
      exact hreached.dropLast
  | normal name =>
      simp only [FileTree.lookup] at hlookup
      split at hlookup
      case h_1 => cases hlookup
      case h_2 => cases hlookup
      case h_3 node hnot hnode =>
          cases hlookup
          refine hreached.child (search_eq_ok hsearch) hnode ?_
          cases node with
          | link target => exact absurd rfl (hnot target)
          | _ => rfl

theorem Reached.walk
    {follow : Location → List PathComponent → Except FileError Location}
    (hfollow : ∀ place rest final, t.Reached place → follow place rest = .ok final →
      t.Reached final)
    {components : List PathComponent} {place final : Location}
    (hreached : t.Reached place)
    (hwalk : t.walk follow place components = .ok final) :
    t.Reached final := by
  induction components generalizing place with
  | nil =>
      cases hwalk
      exact hreached
  | cons component rest ih =>
      simp only [FileTree.walk] at hwalk
      split at hwalk
      · cases hwalk
      · rename_i hsearch
        split at hwalk
        · cases hwalk
        · rename_i next hlookup
          exact ih (hreached.lookup hsearch hlookup) hwalk
        · refine hfollow _ _ _ ?_ hwalk
          split
          · exact t.reached_root
          · exact hreached

theorem Reached.resolve
    {limit : Nat} {components : List PathComponent} {place final : Location}
    (hreached : t.Reached place)
    (hresolve : t.resolve limit place components = .ok final) :
    t.Reached final := by
  induction limit generalizing place components final with
  | zero =>
      refine hreached.walk ?_ hresolve
      intro place rest final _ h
      cases h
  | succ limit ih =>
      refine hreached.walk ?_ hresolve
      intro place rest final hplace h
      exact ih hplace h

/-- What a path resolves to exists, is no link and lies below real directories. -/
theorem canonicalize_reached
    {limit : Nat} {cwd place : Location} {path : RawPath}
    (h : t.canonicalize limit cwd path = .ok place) :
    t.Reached place := by
  unfold canonicalize at h
  split at h
  · cases h
  · exact t.reached_root.resolve h

/-- The names that lead on to a reached place. -/
theorem Reached.walk_names
    {follow : Location → List PathComponent → Except FileError Location}
    {names : List String} {front : Location}
    (hreached : t.Reached (front ++ names)) :
    t.walk follow front (names.map .normal) = .ok (front ++ names) := by
  induction names generalizing front with
  | nil =>
      rw [List.append_nil]
      rfl
  | cons name rest ih =>
      have hassoc : front ++ name :: rest = (front ++ [name]) ++ rest := by simp
      have hsearch : t.search front (.normal name) = .ok () := by
        refine search_of_directory (hreached.above front (List.prefix_append _ _) ?_) _
        intro heq
        simp at heq
      have hnode : ∃ node, t.node (front ++ [name]) = some node ∧ node.isLink = false := by
        by_cases hrest : rest = []
        · rw [hrest] at hreached
          exact hreached.found
        · refine ⟨_, hreached.above (front ++ [name]) ?_ ?_, rfl⟩
          · rw [hassoc]
            exact List.prefix_append _ _
          · intro heq
            rw [hassoc] at heq
            exact hrest (List.self_eq_append_right.mp heq)
      obtain ⟨node, hnode, hlink⟩ := hnode
      have hlookup : t.lookup front (.normal name) = .ok (.here (front ++ [name])) := by
        rw [FileTree.lookup, hnode]
        cases node with
        | link target => cases hlink
        | _ => rfl
      rw [List.map_cons, FileTree.walk, hsearch]
      simp only [hlookup]
      rw [hassoc] at hreached
      rw [ih hreached, ← hassoc]

/-- A canonical path resolves to itself, from any working directory and without a
single link. -/
theorem canonicalize_of_reached
    {limit : Nat} {cwd place : Location}
    (hreached : t.Reached place) :
    t.canonicalize limit cwd { absolute := true, components := place.map .normal } =
      .ok place := by
  have hfront : t.Reached ([] ++ place) := hreached
  rw [canonicalize, RawPath.isEmpty, Bool.not_true, Bool.false_and, if_neg Bool.false_ne_true,
    if_pos rfl]
  cases limit with
  | zero => exact hfront.walk_names
  | succ limit => exact hfront.walk_names

/-- The root is a directory, so `/.` is the root. -/
theorem canonicalize_root (t : FileTree) (limit : Nat) (cwd : Location) :
    t.canonicalize limit cwd { absolute := true, components := [.current] } = .ok [] := by
  obtain ⟨searchable, hroot⟩ := t.root
  have hsearch : t.search [] .current = .ok () := by
    unfold search
    rw [hroot]
    cases searchable <;> rfl
  cases limit <;> simp [canonicalize, RawPath.isEmpty, resolve, walk, hsearch, lookup]

/-- Every name on the way to a reached place is a file name. -/
theorem Reached.isFileName
    {place : Location}
    (hreached : t.Reached place) :
    ∀ name ∈ place, IsFileName name := by
  intro name hmem
  obtain ⟨before, after, rfl⟩ := List.append_of_mem hmem
  refine t.names before name ?_
  by_cases hafter : after = []
  · obtain ⟨node, hnode, -⟩ := hreached.found
    rw [hafter] at hnode
    rw [hnode]
    exact Option.some_ne_none node
  · have hassoc : before ++ name :: after = (before ++ [name]) ++ after := by simp
    rw [hreached.above (before ++ [name])]
    · exact Option.some_ne_none _
    · rw [hassoc]
      exact List.prefix_append _ _
    · intro heq
      rw [hassoc] at heq
      exact hafter (List.self_eq_append_right.mp heq)

section Entries

/-- The entry of a directory: its parent is the root or a directory of the list. -/
def entryFits (entries : List (Location × FileNode)) (entry : Location × FileNode) : Bool :=
  match entry.1.getLast? with
  | none => false
  | some name =>
      name != "." && name != ".." && name != "" && !name.toList.contains '/' &&
        !name.toList.contains (Char.ofNat 0) &&
        (entry.1.dropLast.isEmpty || entries.any (fun above =>
          above.1 == entry.1.dropLast && above.2 == .directory true))

/-- The node of an entry; the root is not listed. -/
def entryNode (entries : List (Location × FileNode)) (place : Location) : Option FileNode :=
  if place.isEmpty then some (.directory true)
  else (entries.find? (fun entry => entry.1 == place)).map Prod.snd

/-- Every listed parent is a directory wherever it is looked up. -/
def entriesFit (entries : List (Location × FileNode)) : Bool :=
  entries.all (entryFits entries) && decide (entries.map Prod.fst).Nodup

theorem entryFits_of_node
    {entries : List (Location × FileNode)} {place : Location} {name : String}
    (hfit : entriesFit entries = true)
    (hnode : entryNode entries (place ++ [name]) ≠ none) :
    IsFileName name ∧ entryNode entries place = some (.directory true) := by
  obtain ⟨hall, hnodup⟩ := Bool.and_eq_true_iff.mp hfit
  have hne : (place ++ [name]).isEmpty = false := by simp
  rw [entryNode, hne, if_neg Bool.false_ne_true, ne_eq, Option.map_eq_none_iff] at hnode
  obtain ⟨entry, hfind⟩ := Option.ne_none_iff_exists'.mp hnode
  have hplace : entry.1 = place ++ [name] := by
    have htest := List.find?_some hfind
    exact eq_of_beq htest
  have hentry := List.all_eq_true.mp hall entry (List.mem_of_find?_eq_some hfind)
  simp only [entryFits, hplace, List.getLast?_concat, List.dropLast_concat,
    Bool.and_eq_true, bne_iff_ne, Bool.not_eq_true', Bool.or_eq_true, List.isEmpty_iff,
    List.contains_eq_mem, decide_eq_false_iff_not] at hentry
  obtain ⟨⟨⟨⟨⟨hcurrent, hparent⟩, hempty⟩, hslash⟩, hnul⟩, habove⟩ := hentry
  refine ⟨⟨hcurrent, hparent, hempty, hslash, hnul⟩, ?_⟩
  rcases habove with rfl | habove
  · rfl
  · obtain ⟨above, hmem, hboth⟩ := List.any_eq_true.mp habove
    rw [Bool.and_eq_true, beq_iff_eq, beq_iff_eq] at hboth
    by_cases hroot : place = []
    · rw [hroot]
      rfl
    · have hfound : entries.find? (fun entry => entry.1 == place) = some above := by
        have hkeys : (entries.map Prod.fst).Nodup := of_decide_eq_true hnodup
        have hsome : (entries.find? (fun entry => entry.1 == place)).isSome = true := by
          rw [List.find?_isSome]
          exact ⟨above, hmem, beq_iff_eq.mpr hboth.1⟩
        obtain ⟨found, hfound⟩ := Option.isSome_iff_exists.mp hsome
        have hsame : found.1 = above.1 := by
          have htest := List.find?_some hfound
          exact (eq_of_beq htest).trans hboth.1.symm
        rw [hfound, List.inj_on_of_nodup_map hkeys (List.mem_of_find?_eq_some hfound) hmem hsame]
      rw [entryNode, if_neg (by simpa using hroot), hfound]
      exact congrArg some hboth.2

/-- The tree of a list of entries below the root. -/
def ofEntries (entries : List (Location × FileNode)) (hfit : entriesFit entries = true) :
    FileTree where
  node := entryNode entries
  root := ⟨true, rfl⟩
  parents := fun _ _ hnode => ⟨true, (entryFits_of_node hfit hnode).2⟩
  names := fun _ _ hnode => (entryFits_of_node hfit hnode).1

end Entries
end FileTree
end FlorenceServer
