import Csap.PathNames
import Csap.Session

/-! The file system the server runs on, as one process sees it: what a system call
may answer, and what it leaves. A call may fail for reasons the model does not
have (permissions, limits), but it succeeds only where POSIX lets it, and
`realpath` reports `ENOENT` only of a path that leads nowhere. The server has
cleared its umask. -/

namespace Csap

open FileTree
open FileTree.Hierarchy (below moved)

structure File where
  content : CStr
  mode : Nat
deriving DecidableEq, Repr

/-- What is at a place: the object, and its content and permissions. -/
structure Seen where
  object : Object FileName
  file : File
deriving DecidableEq, Repr

/-- Files go by number; `modes` has the permission bits of everything else. -/
structure Volume where
  tree : Hierarchy FileName
  files : Nat → File
  modes : Place FileName → Nat
  fresh : Nat
  used : ∀ {p ino}, tree.get p = some (.file ino) → ino < fresh
  short : ∀ {n p o}, tree.get (n :: p) = some o → n.1.length ≤ NAME_MAX

namespace Volume

variable (v : Volume)

def contents (p : Place FileName) : Object FileName → File
  | .file ino => v.files ino
  | _ => { content := [], mode := v.modes p }

def seen (p : Place FileName) : Option Seen := (v.tree.get p).map fun o => ⟨o, v.contents p o⟩

def Room : Place FileName → Prop
  | [] => False
  | n :: p => v.tree.get p = some .directory ∧ v.tree.get (n :: p) = none ∧ n.1.length ≤ NAME_MAX

instance (p : Place FileName) : Decidable (v.Room p) := by
  cases p <;> unfold Room <;> infer_instance

def created (kind : FileKind) : Object FileName :=
  match kind with
  | .regular => .file v.fresh
  | .directory => .directory
  | _ => .special

/-- A new object; a regular file gets the next number. -/
def add (p : Place FileName) (kind : FileKind) (mode : Nat) : Volume :=
  match p with
  | [] => v
  | n :: p =>
    if room : v.tree.get p = some .directory ∧ v.tree.get (n :: p) = none ∧ n.1.length ≤ NAME_MAX then
      { tree := v.tree.put n p (v.created kind) room.1 (by rw [room.2.1]; exact fun h => by cases h)
        files := Function.update v.files v.fresh { content := [], mode }
        modes := Function.update v.modes (n :: p) mode
        fresh := v.fresh + 1
        used {q ino} found := by
          rw [Hierarchy.get_put] at found
          by_cases there : q = n :: p
          · rw [there, Function.update_self] at found
            cases kind <;> cases found
            exact Nat.lt_succ_self _
          · rw [Function.update_of_ne there] at found
            exact (v.used found).trans (Nat.lt_succ_self _)
        short {m q o} found := by
          rw [Hierarchy.get_put] at found
          by_cases there : m :: q = n :: p
          · cases there
            exact room.2.2
          · rw [Function.update_of_ne there] at found
            exact v.short found }
    else v

def drop (q : Place FileName) : Volume :=
  if proper : q ≠ [] then
    { v with
      tree := v.tree.remove q proper
      used {p ino} found := by
        rw [Hierarchy.get_remove] at found
        dsimp only at found
        split at found
        · cases found
        · exact v.used found
      short {n p o} found := by
        rw [Hierarchy.get_remove] at found
        dsimp only at found
        split at found
        · cases found
        · exact v.short found }
  else v

/-- An object can go to another name, but no directory below itself. -/
structure Movable (old new : Place FileName) : Prop where
  proper : old ≠ []
  named : new ≠ []
  inside : v.tree.get new.tail = some .directory
  apart : ¬ old <:+ new.tail
  short : ∀ n ∈ new.head?, n.1.length ≤ NAME_MAX

instance (old new : Place FileName) : Decidable (v.Movable old new) :=
  decidable_of_iff (old ≠ [] ∧ new ≠ [] ∧ v.tree.get new.tail = some .directory ∧
      ¬ old <:+ new.tail ∧ ∀ n ∈ new.head?, n.1.length ≤ NAME_MAX)
    ⟨fun ⟨a, b, c, d, e⟩ => ⟨a, b, c, d, e⟩, fun ⟨a, b, c, d, e⟩ => ⟨a, b, c, d, e⟩⟩

def relocate (old new : Place FileName) : Volume :=
  if room : v.Movable old new then
    { v with
      tree := v.tree.move old new room.proper room.named room.inside room.apart
      modes := fun q => match below new q with
        | some rest => v.modes (rest ++ old)
        | none => v.modes q
      used {p ino} found := by
        simp only [Hierarchy.move] at found
        split at found
        · exact v.used found
        · split at found
          · cases found
          · exact v.used found
      short {n p o} found := by
        simp only [Hierarchy.move] at found
        split at found
        · rename_i rest here
          rw [Hierarchy.below_eq_some] at here
          cases rest with
          | nil => exact room.short n (by rw [← List.nil_append new, ← here]; rfl)
          | cons m rest =>
            cases here
            exact v.short found
        · split at found
          · cases found
          · exact v.short found }
  else v

def setFile (ino : Nat) (file : File) : Volume := { v with files := Function.update v.files ino file }

def setMode (q : Place FileName) (mode : Nat) : Volume :=
  match v.tree.get q with
  | some (.file ino) => v.setFile ino { v.files ino with mode }
  | _ => { v with modes := Function.update v.modes q mode }

section tree

variable {v} {p q x : Place FileName} {kind : FileKind} {mode : Nat}

theorem get_add (room : v.Room q) :
    (v.add q kind mode).tree.get = Function.update v.tree.get q (some (v.created kind)) := by
  cases q with
  | nil => exact absurd room id
  | cons n p =>
    have room' : v.tree.get p = some .directory ∧ v.tree.get (n :: p) = none ∧
        n.1.length ≤ NAME_MAX := room
    rw [add, dif_pos room', Hierarchy.get_put]

theorem add_files {ino : Nat} (other : ino ≠ v.fresh) :
    (v.add q kind mode).files ino = v.files ino := by
  cases q with
  | nil => rfl
  | cons n p =>
    rw [add]
    split
    · exact Function.update_of_ne other ..
    · rfl

theorem add_file (room : v.Room q) : (v.add q .regular mode).files v.fresh = ⟨[], mode⟩ := by
  cases q with
  | nil => exact absurd room id
  | cons n p =>
    have room' : v.tree.get p = some .directory ∧ v.tree.get (n :: p) = none ∧
        n.1.length ≤ NAME_MAX := room
    rw [add, dif_pos room']
    exact Function.update_self ..

theorem add_fresh (room : v.Room q) : (v.add q kind mode).fresh = v.fresh + 1 := by
  cases q with
  | nil => exact absurd room id
  | cons n p =>
    have room' : v.tree.get p = some .directory ∧ v.tree.get (n :: p) = none ∧
        n.1.length ≤ NAME_MAX := room
    rw [add, dif_pos room']

theorem Room.absent (room : v.Room q) : v.tree.get q = none := by
  cases q with
  | nil => exact absurd room id
  | cons n p => exact room.2.1

theorem Room.proper (room : v.Room q) : q ≠ [] := by
  rintro rfl
  exact room

theorem get_drop (proper : q ≠ []) (plain : v.tree.get q ≠ some .directory) :
    (v.drop q).tree.get x = if x = q then none else v.tree.get x := by
  rw [drop, dif_pos proper, Hierarchy.get_remove]
  dsimp only
  by_cases here : x = q
  · rw [if_pos here, here, if_pos List.suffix_rfl]
  · rw [if_neg here]
    split
    · rename_i lies
      obtain ⟨a, rfl⟩ := lies
      have some : a ≠ [] := by
        rintro rfl
        exact here rfl
      by_contra found
      obtain ⟨o, found⟩ := Option.ne_none_iff_exists'.mp (Ne.symm found)
      exact plain (Hierarchy.ancestor found some)
    · rfl

end tree

section seen

variable {v} {n : FileName} {p q x old new : Place FileName} {kind : FileKind} {mode ino : Nat}
  {file : File}

theorem seen_eq_none : v.seen p = none ↔ v.tree.get p = none := by simp [seen]

theorem seen_add (room : v.Room q) : (v.add q kind mode).seen x =
    if x = q then some ⟨v.created kind, { content := [], mode }⟩ else v.seen x := by
  cases q with
  | nil => exact absurd room id
  | cons n p =>
    have room' : v.tree.get p = some .directory ∧ v.tree.get (n :: p) = none ∧
        n.1.length ≤ NAME_MAX := room
    rw [add, dif_pos room', seen, Hierarchy.get_put]
    by_cases there : x = n :: p
    · rw [there, Function.update_self, if_pos rfl, Option.map_some]
      cases kind <;> simp [created, contents]
    · rw [Function.update_of_ne there, if_neg there, seen]
      cases found : v.tree.get x with
      | none => rfl
      | some o =>
        cases o with
        | file ino =>
          have old := v.used found
          simp [contents, Function.update_of_ne old.ne]
        | _ => simp [contents, Function.update_of_ne there]

theorem drop_seen (proper : q ≠ []) : (v.drop q).seen x = if q <:+ x then none else v.seen x := by
  rw [drop, dif_pos proper, seen, Hierarchy.get_remove]
  dsimp only
  split
  · rfl
  · rfl

theorem seen_file (there : v.tree.get x = some (.file ino)) :
    v.seen x = some ⟨.file ino, v.files ino⟩ := by
  rw [seen, there]
  rfl

theorem seen_eq_some {here : Seen} : v.seen x = some here ↔
    v.tree.get x = some here.object ∧ v.contents x here.object = here.file := by
  rw [seen, Option.map_eq_some_iff]
  constructor
  · rintro ⟨o, found, rfl⟩
    exact ⟨found, rfl⟩
  · rintro ⟨found, same⟩
    exact ⟨_, found, by rw [same]⟩

theorem seen_drop (proper : q ≠ []) (alone : v.tree.get q ≠ some .directory ∨ v.tree.Leaf q) :
    (v.drop q).seen x = if x = q then none else v.seen x := by
  rw [drop_seen proper]
  by_cases here : x = q
  · rw [if_pos here, here, if_pos List.suffix_rfl]
  · rw [if_neg here]
    split
    · rename_i lies
      obtain ⟨a, rfl⟩ := lies
      have some : a ≠ [] := by
        rintro rfl
        exact here rfl
      symm
      rw [seen_eq_none]
      rcases alone with other | leaf
      · by_contra found
        obtain ⟨o, found⟩ := Option.ne_none_iff_exists'.mp found
        exact other (Hierarchy.ancestor found some)
      · exact leaf.get_append some
    · rfl

@[simp] theorem setFile_tree : (v.setFile ino file).tree = v.tree := rfl

@[simp] theorem setFile_setFile (other : File) :
    (v.setFile ino file).setFile ino other = v.setFile ino other := by
  simp [setFile]

theorem setFile_eq_self (same : v.files ino = file) : v.setFile ino file = v := by
  rw [setFile, ← same, Function.update_eq_self]

@[simp] theorem setFile_self : (v.setFile ino file).files ino = file := Function.update_self ..

theorem setFile_files_of_ne {i : Nat} (other : i ≠ ino) : (v.setFile ino file).files i = v.files i :=
  Function.update_of_ne other ..

theorem seen_setFile : (v.setFile ino file).seen x =
    if v.tree.get x = some (.file ino) then some ⟨.file ino, file⟩ else v.seen x := by
  rw [setFile, seen, seen]
  cases found : v.tree.get x with
  | none => rfl
  | some o =>
    cases o with
    | file other =>
      by_cases same : other = ino
      · rw [same]
        simp [contents]
      · simp [contents, same]
    | _ => simp [contents]

theorem relocate_seen (room : v.Movable old new) : (v.relocate old new).seen x =
    match below new x with
    | some rest => v.seen (rest ++ old)
    | none => if old <:+ x then none else v.seen x := by
  rw [relocate, dif_pos room, seen]
  simp only [Hierarchy.move]
  cases here : below new x with
  | some rest =>
    simp only [seen]
    cases found : v.tree.get (rest ++ old) with
    | none => rfl
    | some o => cases o <;> simp [contents, here]
  | none =>
    dsimp only
    split
    · rfl
    · rw [seen]
      cases found : v.tree.get x with
      | none => rfl
      | some o => cases o <;> simp [contents, here]

theorem seen_relocate (room : v.Movable old new) (plain : v.tree.get old ≠ some .directory)
    (alone : v.tree.get new ≠ some .directory ∨ v.tree.Leaf new) :
    (v.relocate old new).seen x =
      if x = new then v.seen old else if x = old then none else v.seen x := by
  have below_old : ∀ {a : List FileName}, a ≠ [] → v.seen (a ++ old) = none := by
    intro a some
    rw [seen_eq_none]
    by_contra found
    obtain ⟨o, found⟩ := Option.ne_none_iff_exists'.mp found
    exact plain (Hierarchy.ancestor found some)
  have below_new : ∀ {a : List FileName}, a ≠ [] → v.seen (a ++ new) = none := by
    intro a some
    rw [seen_eq_none]
    rcases alone with other | leaf
    · by_contra found
      obtain ⟨o, found⟩ := Option.ne_none_iff_exists'.mp found
      exact other (Hierarchy.ancestor found some)
    · exact leaf.get_append some
  rw [relocate_seen room]
  cases here : below new x with
  | some rest =>
    rw [Hierarchy.below_eq_some] at here
    dsimp only
    by_cases itself : rest = []
    · rw [here, itself]
      simp
    · have elsewhere : x ≠ new := by
        rintro rfl
        exact itself (List.append_left_eq_self.mp here.symm)
      rw [below_old itself, if_neg elsewhere]
      split
      · rfl
      · rw [here, below_new itself]
  | none =>
    have elsewhere : x ≠ new := by
      rintro rfl
      exact (Hierarchy.below_eq_none.mp here) List.suffix_rfl
    rw [if_neg elsewhere]
    dsimp only
    by_cases there : x = old
    · rw [there, if_pos List.suffix_rfl, if_pos rfl]
    · rw [if_neg there]
      split
      · rename_i lies
        obtain ⟨a, rfl⟩ := lies
        have some : a ≠ [] := by
          rintro rfl
          exact there rfl
        rw [below_old some]
      · rfl

end seen

end Volume

/-- What a descriptor is open on: the number of a file, and where it stands in it. -/
structure Opened where
  ino : Option Nat
  pos : Nat
  access : Access
deriving DecidableEq, Repr

/-- The file system and what the process has of it; a working directory may have been removed. -/
structure World extends Volume where
  cwd : Option (Place FileName)
  fds : Int → Option Opened

/-- Bytes from a position on are replaced, and a gap before it is filled with zeros. -/
def patched (content : CStr) (pos : Nat) (data : CStr) : CStr :=
  content.take pos ++ List.replicate (pos - content.length) 0 ++ data ++ content.drop (pos + data.length)

def overwrite (content : CStr) (pos : Nat) (data : CStr) : CStr :=
  if data = [] then content else patched content pos data

theorem overwrite_end (content data : CStr) : overwrite content content.length data = content ++ data := by
  unfold overwrite
  split
  · rename_i empty
    rw [empty, List.append_nil]
  · simp [patched]

theorem overwrite_nil (content : CStr) (pos : Nat) : overwrite content pos [] = content := if_pos rfl

theorem patched_append (content : CStr) (pos : Nat) (first next : CStr) :
    patched (patched content pos first) (pos + first.length) next =
      patched content pos (first ++ next) := by
  set front := content.take pos ++ List.replicate (pos - content.length) 0 with hf
  have length : front.length = pos := by
    simp only [hf, List.length_append, List.length_take, List.length_replicate]
    omega
  have whole : patched content pos first = (front ++ first) ++ content.drop (pos + first.length) := by
    simp [patched, hf]
  have before : (front ++ first).length = pos + first.length := by simp [length]
  have gap : pos + first.length - (patched content pos first).length = 0 := by
    rw [whole, List.length_append, before]
    omega
  have rest : (patched content pos first).drop (pos + first.length + next.length) =
      content.drop (pos + (first ++ next).length) := by
    rw [whole, ← before, List.drop_length_add_append, List.drop_drop, before, List.length_append,
      Nat.add_assoc]
  rw [patched, gap, rest, whole, ← before, List.take_left]
  simp [patched, hf]

theorem overwrite_append (content : CStr) (pos : Nat) (first next : CStr) :
    overwrite (overwrite content pos first) (pos + first.length) next =
      overwrite content pos (first ++ next) := by
  by_cases one : first = []
  · simp [one, overwrite_nil]
  by_cases two : next = []
  · simp [two, overwrite_nil]
  simp only [overwrite, if_neg two, List.append_eq_nil_iff, one, false_and, if_false]
  exact patched_append content pos first next

def Fills (template name : CStr) : Prop :=
  template.drop (template.length - 6) = cstr "XXXXXX" ∧ name.length = template.length ∧
    name.take (template.length - 6) = template.take (template.length - 6) ∧
    (name.drop (template.length - 6)).all isalnum = true

instance (template name : CStr) : Decidable (Fills template name) :=
  inferInstanceAs (Decidable (_ ∧ _))

theorem Fills.named {template name : CStr} (h : Fills template name) : name ≠ [] := by
  rintro rfl
  obtain ⟨ends, length, -⟩ := h
  rw [List.length_eq_zero_iff.mp length.symm] at ends
  cases ends

def endsInName (path : CStr) : Bool :=
  (tokens 47 [] path).getLast?.any fun s => decide (ProperName s)

namespace World

variable (w : World)

def resolve (follow : Bool) (path : CStr) : Except Trouble (Place FileName) :=
  Csap.resolve w.tree w.cwd follow path

def look (follow : Bool) (path : CStr) : Option (Place FileName × Object FileName) :=
  match w.resolve follow path with
  | .ok q => (w.tree.get q).map fun o => (q, o)
  | .error _ => none

def free (follow : Bool) (path : CStr) : Option (Place FileName) :=
  match w.resolve follow path with
  | .ok q => if w.Room q then some q else none
  | .error _ => none

def Missing (path : CStr) : Prop :=
  match w.resolve true path with
  | .ok q => w.tree.get q = none
  | .error trouble => trouble = .missing

instance (path : CStr) : Decidable (w.Missing path) := by
  unfold Missing
  split <;> infer_instance

def Unused (fd : Int) : Prop := 0 ≤ fd ∧ w.fds fd = none

instance (fd : Int) : Decidable (w.Unused fd) := inferInstanceAs (Decidable (_ ∧ _))

/-- A `struct stat` of what is at a place. -/
def Describes (st : Stat) (seen : Seen) : Prop :=
  match seen.object with
  | .directory => st.kind = .directory ∧ st.mode = seen.file.mode
  | .file _ => st.kind = .regular ∧ st.mode = seen.file.mode ∧ st.size = seen.file.content.length
  | .link _ => st.kind = .symlink
  | .special => st.kind ≠ .regular ∧ st.kind ≠ .directory ∧ st.kind ≠ .symlink ∧
      st.mode = seen.file.mode

instance (st : Stat) (seen : Seen) : Decidable (Describes st seen) := by
  unfold Describes
  split <;> infer_instance

/-- `open` does not follow a last link that it must not, nor one in the place of a new file. -/
def openFollows (flags : OpenFlags) : Bool := !flags.nofollow && !(flags.creat && flags.excl)

/-- The place `open` opens, or creates a file in. -/
def opens (path : CStr) (flags : OpenFlags) : Option (Place FileName) :=
  match w.resolve (openFollows flags) path with
  | .error _ => none
  | .ok q =>
    match w.tree.get q with
    | none => if flags.creat = true ∧ w.Room q then some q else none
    | some .directory => if flags.access = .rdonly ∧ flags.creat = false then some q else none
    | some (.link _) => none
    | some _ => if flags.creat = true ∧ flags.excl = true then none else some q

/-- What an `unlink` removes. -/
def unlinks (path : CStr) : Option (Place FileName) :=
  match w.look false path with
  | some (q, o) => if o = .directory then none else some q
  | none => none

/-- The directory an `rmdir` removes. -/
def rmdirs (path : CStr) : Option (Place FileName) :=
  match w.look false path with
  | some (q, o) =>
    if o = .directory ∧ q ≠ [] ∧ endsInName path ∧ w.tree.Leaf q then some q else none
  | none => none

/-- What is in the way must be of the same sort, and a directory empty. -/
def Yields (q : Place FileName) (o : Object FileName) : Prop :=
  match w.tree.get q with
  | none => w.Room q
  | some .directory => o = .directory ∧ w.tree.Leaf q
  | some _ => o ≠ .directory

instance (q : Place FileName) (o : Object FileName) : Decidable (w.Yields q o) := by
  unfold Yields
  split <;> infer_instance

/-- Are the two places names of one object, of which the first is `o`? -/
def Same (p q : Place FileName) (o : Object FileName) : Prop :=
  p = q ∨ w.tree.get q = some o ∧ ∃ ino, o = .file ino

instance (p q : Place FileName) (o : Object FileName) : Decidable (w.Same p q o) :=
  match o with
  | .file ino => decidable_of_iff (p = q ∨ w.tree.get q = some (.file ino)) (by simp [Same])
  | .directory => decidable_of_iff (p = q) (by simp [Same])
  | .link _ => decidable_of_iff (p = q) (by simp [Same])
  | .special => decidable_of_iff (p = q) (by simp [Same])

/-- From where to where a `rename` moves. -/
def renames (old new : CStr) : Option (Place FileName × Place FileName) :=
  match w.look false old, w.resolve false new with
  | some (p, o), .ok q =>
    if endsInName old ∧ endsInName new ∧ (w.Same p q o ∨ w.Movable p q ∧ w.Yields q o) then
      some (p, q)
    else none
  | _, _ => none

def Holds (fd : Int) (P : Opened → Prop) : Prop :=
  match w.fds fd with
  | none => False
  | some opened => P opened

instance (fd : Int) (P : Opened → Prop) [DecidablePred P] : Decidable (w.Holds fd P) := by
  unfold Holds
  split <;> infer_instance

def Reads (count : Nat) (data : CStr) (opened : Opened) : Prop :=
  opened.access ≠ .wronly ∧ data.length ≤ count ∧ ∀ ino ∈ opened.ino,
    data <+: (w.files ino).content.drop opened.pos ∧
      (data = [] → (w.files ino).content.length ≤ opened.pos ∨ count = 0)

instance (count : Nat) (data : CStr) : DecidablePred (w.Reads count data) :=
  fun _ => inferInstanceAs (Decidable (_ ∧ _))

/-- What `fstat` tells of the file. -/
def Tells (st : Stat) (opened : Opened) : Prop :=
  match opened.ino with
  | some ino => Describes st ⟨.file ino, w.files ino⟩
  | none => st.kind ≠ .regular

instance (st : Stat) : DecidablePred (w.Tells st) := by
  intro opened
  unfold Tells
  split <;> infer_instance

def Answers : (c : FileCall) → c.Reply → Prop
  | .realpath path, .ok out => ∃ q ∈ (w.look true path).map Prod.fst, out = render q ∧
      out.length < PATH_MAX
  | .realpath path, .error e => e = ENOENT → w.Missing path
  | .stat path, .ok st => ∃ q ∈ (w.look true path).map Prod.fst, ∃ seen ∈ w.seen q, Describes st seen
  | .lstat path, .ok st => ∃ q ∈ (w.look false path).map Prod.fst, ∃ seen ∈ w.seen q,
      Describes st seen
  | .openPath path flags _, .ok fd => w.Unused fd ∧ w.opens path flags ≠ none
  | .mkstemp template, (.ok fd, name) => w.Unused fd ∧ Fills template name ∧ w.free false name ≠ none
  | .mkstemp template, (.error _, name) => name = template ∨ Fills template name
  | .setlk fd _ _ _, .ok () => w.fds fd ≠ none
  | .lseek fd offset, .ok pos => w.fds fd ≠ none ∧ 0 ≤ offset ∧ pos = offset
  | .read fd count, .ok data => w.Holds fd (w.Reads count data)
  | .write fd data, .ok written => w.Holds fd (fun opened => opened.access ≠ .rdonly) ∧
      written ≤ data.length
  | .fstat fd, .ok st => w.Holds fd (w.Tells st)
  | .fchmod fd _, .ok () => w.fds fd ≠ none
  | .rename old new, .ok () => w.renames old new ≠ none
  | .unlink path, .ok () => w.unlinks path ≠ none
  | .rmdir path, .ok () => w.rmdirs path ≠ none
  | .mkdir path _, .ok () | .mkfifo path _, .ok () => w.free false path ≠ none
  | .chmod path _, .ok () | .chown path _ _, .ok () => w.look true path ≠ none
  | .chdir path, .ok () | .opendir path, .ok _ => (w.look true path).map Prod.snd = some .directory
  | .getcwd, .ok out => ∃ q ∈ w.cwd, out = render q
  | _, _ => True

instance (c : FileCall) (r : c.Reply) : Decidable (w.Answers c r) := by
  unfold Answers
  split <;> try infer_instance

def withVolume (v : Volume) : World := { w with toVolume := v }

def setFd (fd : Int) (opened : Option Opened) : World := { w with fds := Function.update w.fds fd opened }

def inoAt (q : Place FileName) : Option Nat :=
  match w.tree.get q with
  | some (.file ino) => some ino
  | _ => none

def install (fd : Int) (q : Place FileName) (access : Access) : World :=
  w.setFd fd (some { ino := w.inoAt q, pos := 0, access })

def seek (fd : Int) (pos : Opened → Nat) : World :=
  w.setFd fd ((w.fds fd).map fun opened => { opened with pos := pos opened })

def inoOf (fd : Int) : Option Nat := (w.fds fd).bind Opened.ino

def changeFile (fd : Int) (change : Opened → File → File) : World :=
  match w.fds fd with
  | some ⟨some ino, pos, access⟩ =>
    w.withVolume (w.setFile ino (change ⟨some ino, pos, access⟩ (w.files ino)))
  | _ => w

def make (path : CStr) (kind : FileKind) (mode : Nat) : World :=
  match w.free false path with
  | some q => w.withVolume (w.add q kind mode)
  | none => w

def remove (q : Option (Place FileName)) : World :=
  match q with
  | some q => { w.withVolume (w.drop q) with cwd := w.cwd.filter fun p => ¬ q <:+ p }
  | none => w

def rename (p q : Place FileName) : World :=
  if ∃ o ∈ w.tree.get p, w.Same p q o then w
  else
    { w.withVolume (w.relocate p q) with
      cwd := (w.cwd.filter fun d => p <:+ d ∨ ¬ q <:+ d).map (moved p q) }

def after : (c : FileCall) → c.Reply → World
  | .openPath path flags mode, .ok fd =>
    match w.opens path flags with
    | none => w
    | some q =>
      if w.tree.get q = none then (w.withVolume (w.add q .regular mode)).install fd q flags.access
      else
        let opened := w.install fd q flags.access
        if flags.trunc then opened.changeFile fd fun _ file => { file with content := [] } else opened
  | .mkstemp _, (.ok fd, name) =>
    match w.free false name with
    | some q => (w.withVolume (w.add q .regular 0o600)).install fd q .rdwr
    | none => w
  | .close fd, _ => w.setFd fd none
  | .lseek fd _, .ok pos => w.seek fd fun _ => pos.toNat
  | .read fd _, .ok data => w.seek fd fun opened => opened.pos + data.length
  | .write fd data, .ok written =>
    (w.changeFile fd fun opened file =>
      { file with content := overwrite file.content opened.pos (data.take written) }).seek fd
      fun opened => opened.pos + written
  | .fchmod fd mode, .ok () => w.changeFile fd fun _ file => { file with mode }
  | .rename old new, .ok () =>
    match w.renames old new with
    | some (p, q) => w.rename p q
    | none => w
  | .unlink path, .ok () => w.remove (w.unlinks path)
  | .rmdir path, .ok () => w.remove (w.rmdirs path)
  | .mkdir path mode, .ok () => w.make path .directory mode
  | .mkfifo path mode, .ok () => w.make path .fifo mode
  | .chmod path mode, .ok () =>
    match w.look true path with
    | some (q, _) => w.withVolume (w.setMode q mode)
    | none => w
  | .chdir path, .ok () =>
    match w.look true path with
    | some (q, _) => { w with cwd := some q }
    | none => w
  | _, _ => w

section lemmas

variable {w} {follow : Bool} {path name : CStr} {q x : Place FileName} {o : Object FileName}
  {kind : FileKind} {mode : Nat} {fd : Int} {opened : Opened} {access : Access}

@[simp] theorem withVolume_toVolume (v : Volume) : (w.withVolume v).toVolume = v := rfl

@[simp] theorem withVolume_fds (v : Volume) : (w.withVolume v).fds = w.fds := rfl

@[simp] theorem withVolume_cwd (v : Volume) : (w.withVolume v).cwd = w.cwd := rfl

@[simp] theorem setFd_toVolume (opened : Option Opened) :
    (w.setFd fd opened).toVolume = w.toVolume :=
  rfl

@[simp] theorem setFd_cwd (opened : Option Opened) : (w.setFd fd opened).cwd = w.cwd := rfl

@[simp] theorem setFd_fds (opened : Option Opened) :
    (w.setFd fd opened).fds = Function.update w.fds fd opened :=
  rfl

@[simp] theorem install_toVolume : (w.install fd q access).toVolume = w.toVolume := rfl

@[simp] theorem install_cwd : (w.install fd q access).cwd = w.cwd := rfl

theorem install_fds : (w.install fd q access).fds =
    Function.update w.fds fd (some { ino := w.inoAt q, pos := 0, access }) :=
  rfl

theorem inoAt_file {ino : Nat} (there : w.tree.get q = some (.file ino)) : w.inoAt q = some ino := by
  rw [inoAt, there]

theorem inoAt_eq_some {ino : Nat} : w.inoAt q = some ino ↔ w.tree.get q = some (.file ino) := by
  unfold inoAt
  split
  · rename_i other there
    rw [there]
    simp
  · rename_i other
    constructor
    · intro same
      cases same
    · intro there
      exact absurd there (other ino)

theorem look_eq_some : w.look follow path = some (q, o) ↔
    w.resolve follow path = .ok q ∧ w.tree.get q = some o := by
  unfold look
  split
  · rename_i p led
    simp only [led, Option.map_eq_some_iff, Prod.mk.injEq, Except.ok.injEq]
    constructor
    · rintro ⟨_, found, rfl, rfl⟩
      exact ⟨rfl, found⟩
    · rintro ⟨rfl, found⟩
      exact ⟨o, found, rfl, rfl⟩
  · rename_i e led
    simp [led]

theorem free_eq_some : w.free follow path = some q ↔ w.resolve follow path = .ok q ∧ w.Room q := by
  unfold free
  split
  · rename_i p led
    simp only [led, Except.ok.injEq]
    constructor
    · intro free
      split at free
      · rename_i room
        cases free
        exact ⟨rfl, room⟩
      · cases free
    · rintro ⟨rfl, room⟩
      rw [if_pos room]
  · rename_i e led
    simp [led]

theorem created_not_link (v : Volume) (kind : FileKind) (target : Route FileName) :
    v.created kind ≠ .link target := by
  cases kind <;> simp [Volume.created]

theorem resolve_add (room : w.Room x) (led : w.resolve follow path = .ok q) :
    (w.withVolume (w.add x kind mode)).resolve follow path = .ok q := by
  have absent := room.absent
  refine resolve_agree (x := x) (fun p apart => ?_) ?_ ?_ ?_ led
  · rw [withVolume_toVolume, Volume.get_add room, Function.update_of_ne apart]
  · rw [absent]
    exact (Option.some_ne_none _).symm
  · rintro ⟨target, link⟩
    rw [absent] at link
    cases link
  · rintro ⟨target, link⟩
    rw [withVolume_toVolume, Volume.get_add room, Function.update_self] at link
    exact created_not_link w.toVolume kind target (Option.some.inj link)

theorem resolve_of_add (room : w.Room x) (plain : w.created kind ≠ .directory)
    (led : (w.withVolume (w.add x kind mode)).resolve follow path = .ok q) :
    w.resolve follow path = .ok q := by
  have here : (w.withVolume (w.add x kind mode)).tree.get x = some (w.created kind) := by
    rw [withVolume_toVolume, Volume.get_add room, Function.update_self]
  refine resolve_agree (x := x) (fun p apart => ?_) ?_ ?_ ?_ led
  · rw [withVolume_toVolume, Volume.get_add room, Function.update_of_ne apart]
  · rw [here]
    exact fun same => plain (Option.some.inj same)
  · rintro ⟨target, link⟩
    rw [here] at link
    exact created_not_link w.toVolume kind target (Option.some.inj link)
  · rintro ⟨target, link⟩
    rw [room.absent] at link
    cases link

theorem resolve_drop (proper : x ≠ []) (plain : w.tree.get x ≠ some .directory)
    (unlinked : ¬ w.tree.Links x) (led : w.resolve follow path = .ok q) :
    (w.withVolume (w.drop x)).resolve follow path = .ok q := by
  refine resolve_agree (x := x) (fun p apart => ?_) plain unlinked ?_ led
  · rw [withVolume_toVolume, Volume.get_drop proper plain, if_neg apart]
  · rintro ⟨target, link⟩
    rw [withVolume_toVolume, Volume.get_drop proper plain, if_pos rfl] at link
    cases link

section stat

variable {st : Stat}

theorem stat_found (told : w.Answers (.stat path) (.ok st)) :
    ∃ q o, w.look true path = some (q, o) ∧ Describes st ⟨o, w.contents q o⟩ := by
  obtain ⟨q, here, seen, there, describes⟩ := told
  obtain ⟨⟨_, o⟩, look, rfl⟩ := Option.map_eq_some_iff.mp here
  obtain ⟨-, found⟩ := look_eq_some.mp look
  obtain ⟨object, file⟩ := seen
  obtain ⟨same, contents⟩ := Volume.seen_eq_some.mp there
  dsimp only at found same contents describes
  rw [found] at same
  cases same
  exact ⟨_, o, look, by rw [contents]; exact describes⟩

theorem directory_of_stat {file : File} (describes : Describes st ⟨o, file⟩)
    (directory : st.kind = .directory) : o = .directory := by
  cases o with
  | directory => rfl
  | file ino => exact absurd (directory.symm.trans describes.1) (by simp)
  | link target => exact absurd (directory.symm.trans describes) (by simp)
  | special => exact absurd directory describes.2.1

theorem file_of_stat {file : File} (describes : Describes st ⟨o, file⟩) (regular : st.kind = .regular) :
    ∃ ino, o = .file ino := by
  cases o with
  | directory => exact absurd (regular.symm.trans describes.1) (by simp)
  | file ino => exact ⟨ino, rfl⟩
  | link target => exact absurd (regular.symm.trans describes) (by simp)
  | special => exact absurd regular describes.1

end stat

theorem renames_cases {old new : CStr} {p : Place FileName} (h : w.renames old new = some (p, q)) :
    ∃ o, w.look false old = some (p, o) ∧ w.resolve false new = .ok q ∧
      (w.Same p q o ∨ w.Movable p q ∧ w.Yields q o) := by
  unfold renames at h
  split at h
  · rename_i p' o q' found led
    split at h
    · rename_i may
      cases h
      exact ⟨o, found, led, may.2.2⟩
    · cases h
  · cases h

@[reducible] def Looks : FileCall → Prop
  | .realpath _ | .stat _ | .lstat _ | .close _ | .setlk _ _ _ _ | .lseek _ _ | .read _ _ | .fstat _
  | .chown _ _ _ | .getcwd | .opendir _ | .readdir _ | .closedir _ => True
  | _ => False

theorem after_looks {c : FileCall} (looks : Looks c) (r : c.Reply) :
    (w.after c r).toVolume = w.toVolume ∧ (w.after c r).cwd = w.cwd := by
  cases c with
  | openPath path flags mode => exact absurd looks id
  | mkstemp template => exact absurd looks id
  | write fd data => exact absurd looks id
  | fchmod fd mode => exact absurd looks id
  | rename old new => exact absurd looks id
  | unlink path => exact absurd looks id
  | rmdir path => exact absurd looks id
  | mkdir path mode => exact absurd looks id
  | chmod path mode => exact absurd looks id
  | chdir path => exact absurd looks id
  | mkfifo path mode => exact absurd looks id
  | lseek fd offset => cases r <;> exact ⟨rfl, rfl⟩
  | read fd count => cases r <;> exact ⟨rfl, rfl⟩
  | _ => exact ⟨rfl, rfl⟩

theorem resolve_remove (proper : x ≠ []) (plain : w.tree.get x ≠ some .directory)
    (unlinked : ¬ w.tree.Links x) (led : w.resolve follow path = .ok q) :
    (w.remove (some x)).resolve follow path = .ok q ∨
      (w.remove (some x)).resolve follow path = .error .missing := by
  have same := resolve_drop proper plain unlinked led
  unfold World.resolve Csap.resolve at same ⊢
  split
  · exact .inr rfl
  · rename_i named
    rw [if_neg named] at same
    by_cases absolute : (route path).absolute = true
    · rw [if_pos absolute] at same ⊢
      exact .inl same
    · rw [if_neg absolute] at same ⊢
      rw [withVolume_cwd] at same
      cases here : w.cwd with
      | none =>
        rw [here] at same
        cases same
      | some p =>
        rw [here] at same
        simp only [remove, here, Option.filter_some]
        by_cases lies : x <:+ p
        · simp [lies]
        · simpa [lies] using Or.inl same

section opening

variable {flags : OpenFlags}

theorem opens_cases (h : w.opens path flags = some q) : w.resolve (openFollows flags) path = .ok q ∧
    (w.tree.get q = none ∧ flags.creat = true ∧ w.Room q ∨
      ∃ o, w.tree.get q = some o ∧ ¬ (flags.creat = true ∧ flags.excl = true) ∧
        (o = .directory → flags.access = .rdonly ∧ flags.creat = false) ∧ ∀ target, o ≠ .link target) := by
  unfold opens at h
  split at h
  · cases h
  · rename_i p led
    split at h
    · rename_i absent
      split at h
      · rename_i may
        cases h
        exact ⟨led, .inl ⟨absent, may.1, may.2⟩⟩
      · cases h
    · rename_i found
      split at h
      · rename_i may
        cases h
        refine ⟨led, .inr ⟨_, found, ?_, fun _ => may, fun _ same => by cases same⟩⟩
        rw [may.2]
        simp
      · cases h
    · cases h
    · rename_i o other unlinked found
      split at h
      · cases h
      · rename_i may
        cases h
        exact ⟨led, .inr ⟨o, found, may, fun same => absurd same other, unlinked⟩⟩

theorem opens_excl (creat : flags.creat = true) (excl : flags.excl = true)
    (h : w.opens path flags = some q) : w.resolve false path = .ok q ∧ w.Room q := by
  obtain ⟨led, ⟨-, -, room⟩ | ⟨o, -, may, -⟩⟩ := opens_cases h
  · have stays : openFollows flags = false := by simp [openFollows, creat, excl]
    rw [stays] at led
    exact ⟨led, room⟩
  · exact absurd ⟨creat, excl⟩ may

theorem opens_existing (creat : flags.creat = false) (h : w.opens path flags = some q) :
    ∃ o, w.look (openFollows flags) path = some (q, o) := by
  obtain ⟨led, ⟨-, may, -⟩ | ⟨o, found, -⟩⟩ := opens_cases h
  · rw [creat] at may
    cases may
  · exact ⟨o, look_eq_some.mpr ⟨led, found⟩⟩

theorem after_open_new (h : w.opens path flags = some q) (absent : w.tree.get q = none) :
    w.after (.openPath path flags mode) (.ok fd) =
      (w.withVolume (w.add q .regular mode)).install fd q flags.access := by
  simp only [after, h, if_pos absent]

theorem after_open (h : w.opens path flags = some q) (kept : flags.trunc = false) :
    w.after (.openPath path flags mode) (.ok fd) =
      (w.withVolume (if w.tree.get q = none then w.add q .regular mode else w.toVolume)).install fd q
        flags.access := by
  by_cases absent : w.tree.get q = none
  · simp only [after, h, if_pos absent]
  · simp only [after, h, if_neg absent, kept]
    rfl

theorem after_open_existing (h : w.opens path flags = some q) (found : w.tree.get q ≠ none)
    (kept : flags.trunc = false) :
    w.after (.openPath path flags mode) (.ok fd) = w.install fd q flags.access := by
  simp [after, h, if_neg found, kept]

end opening

section files

variable {ino pos written count : Nat} {data : CStr}

theorem inoOf_eq (here : w.fds fd = some opened) : w.inoOf fd = opened.ino := by simp [inoOf, here]

theorem after_read (here : w.fds fd = some opened) :
    w.after (.read fd count) (.ok data) =
      w.setFd fd (some { opened with pos := opened.pos + data.length }) := by
  simp [after, seek, here]

theorem after_write (here : w.fds fd = some ⟨some ino, pos, access⟩) :
    w.after (.write fd data) (.ok written) =
      (w.withVolume (w.setFile ino
        { w.files ino with
          content := overwrite (w.files ino).content pos (data.take written) })).setFd fd
        (some ⟨some ino, pos + written, access⟩) := by
  simp [after, changeFile, seek, here]

theorem after_fchmod (here : w.fds fd = some ⟨some ino, pos, access⟩) :
    w.after (.fchmod fd mode) (.ok ()) =
      w.withVolume (w.setFile ino { w.files ino with mode }) := by
  simp [after, changeFile, here]

theorem holds_iff {P : Opened → Prop} (here : w.fds fd = some opened) :
    w.Holds fd P ↔ P opened := by
  simp [Holds, here]

end files

end lemmas

end World

structure Alike (w w' : World) : Prop where
  volume : w'.toVolume = w.toVolume
  cwd : w'.cwd = w.cwd

section alike

variable {w w' w'' : World}

theorem Alike.refl (w : World) : Alike w w := ⟨rfl, rfl⟩

theorem Alike.trans (h : Alike w w') (h' : Alike w' w'') : Alike w w'' :=
  ⟨h'.volume.trans h.volume, h'.cwd.trans h.cwd⟩

theorem Alike.resolve (h : Alike w w') (follow : Bool) (path : CStr) :
    w'.resolve follow path = w.resolve follow path := by
  rw [World.resolve, World.resolve, h.volume, h.cwd]

theorem Alike.look (h : Alike w w') (follow : Bool) (path : CStr) :
    w'.look follow path = w.look follow path := by
  rw [World.look, World.look, h.resolve, h.volume]

theorem Alike.seen (h : Alike w w') (x : Place FileName) : w'.seen x = w.seen x := by
  rw [h.volume]

theorem Alike.open {path : CStr} {flags : OpenFlags} {mode : Nat} {fd : Int} (creat : flags.creat = false)
    (kept : flags.trunc = false) (may : w.opens path flags ≠ none) :
    Alike w (w.after (.openPath path flags mode) (.ok fd)) := by
  obtain ⟨q, opens⟩ := Option.ne_none_iff_exists'.mp may
  obtain ⟨o, found⟩ := World.opens_existing creat opens
  obtain ⟨-, there⟩ := World.look_eq_some.mp found
  rw [World.after_open_existing opens (by rw [there]; exact Option.some_ne_none o) kept]
  exact ⟨rfl, rfl⟩

end alike

/-- The file system answers the calls about files; of the others it sees nothing. -/
def posix : Typestate Call.Reply World where
  allowed _ _ := True
  expects w
    | .file c, r => w.Answers c r
    | _, _ => True
  next w
    | .file c, r => w.after c r
    | _, _ => w

section rules

open Prog

variable {α Notes : Type} {promised : World → (c : Call) → c.Reply → Prop}
  {see : Notes → (c : Call) → c.Reply → Notes} {w : World} {notes : Notes} {Q : α → World × Notes → Prop}

/-- A call about files is judged by every answer it may have, and by what that leaves. -/
theorem wp_file {c : FileCall} {k : c.Reply → Sys α}
    (h : ∀ r, w.Answers c r → promised w (.file c) r →
      wp ((posix.assuming promised).watching see) (k r) Q (w.after c r, see notes (.file c) r)) :
    wp ((posix.assuming promised).watching see) (fileCall c >>= k) Q (w, notes) :=
  wp_call trivial fun r expected => h r expected.1 expected.2

theorem wp_other {c : Call} {k : c.Reply → Sys α} (other : ∀ f, c ≠ .file f)
    (h : ∀ r, promised w c r →
      wp ((posix.assuming promised).watching see) (k r) Q (w, see notes c r)) :
    wp ((posix.assuming promised).watching see) (perform c >>= k) Q (w, notes) := by
  refine wp_call trivial fun r expected => ?_
  have judged := h r expected.2
  cases c with
  | file f => exact absurd rfl (other f)
  | _ => exact judged

end rules

section runs

instance (w : World) (c : Call) (r : c.Reply) : Decidable (posix.expects w c r) := by
  cases c with
  | file c => exact inferInstanceAs (Decidable (w.Answers c r))
  | _ => exact isTrue trivial

instance {Notes : Type} {promised : World → (c : Call) → c.Reply → Prop}
    {see : Notes → (c : Call) → c.Reply → Notes} [∀ w c r, Decidable (promised w c r)]
    (g : World × Notes) (c : Call) (r : c.Reply) :
    Decidable (((posix.assuming promised).watching see).expects g c r) :=
  inferInstanceAs (Decidable (posix.expects g.1 c r ∧ promised g.1 c r))

def Seen.stat (seen : Seen) : Stat where
  kind := match seen.object with
    | .directory => .directory
    | .file _ => .regular
    | .link _ => .symlink
    | .special => .fifo
  mode := seen.file.mode
  size := seen.file.content.length

namespace World

def lowest (w : World) : Int :=
  (((List.range 16).map Int.ofNat).find? fun fd => w.fds fd = none).getD 16

def serves (w : World) : (c : Call) → c.Reply
  | .file (.realpath path) =>
    match w.look true path with
    | some (q, _) => .ok (render q)
    | none => .error (if w.Missing path then ENOENT else EACCES)
  | .file (.stat path) =>
    match (w.look true path).bind fun found => w.seen found.1 with
    | some seen => .ok seen.stat
    | none => .error ENOENT
  | .file (.lstat path) =>
    match (w.look false path).bind fun found => w.seen found.1 with
    | some seen => .ok seen.stat
    | none => .error ENOENT
  | .file (.openPath path flags _) => if w.opens path flags = none then .error ENOENT else .ok w.lowest
  | .file (.mkstemp template) =>
    let name := template.take (template.length - 6) ++ cstr "aaaaaa"
    if w.free false name = none then (.error EACCES, name) else (.ok w.lowest, name)
  | .file (.close _) => .ok ()
  | .file (.setlk fd _ _ _) => if w.fds fd = none then .error EACCES else .ok ()
  | .file (.lseek fd offset) => if w.fds fd = none ∨ offset < 0 then .error EINVAL else .ok offset
  | .file (.read fd count) =>
    match w.fds fd with
    | some ⟨some ino, pos, _⟩ => .ok (((w.files ino).content.drop pos).take count)
    | _ => .error EACCES
  | .file (.write fd data) => if w.fds fd = none then .error EACCES else .ok data.length
  | .file (.fstat fd) =>
    match w.inoOf fd with
    | some ino => .ok (Seen.stat ⟨.file ino, w.files ino⟩)
    | none => .error EACCES
  | .file (.fchmod fd _) => if w.fds fd = none then .error EACCES else .ok ()
  | .file (.rename old new) => if w.renames old new = none then .error EACCES else .ok ()
  | .file (.unlink path) => if w.unlinks path = none then .error ENOENT else .ok ()
  | .file (.rmdir path) => if w.rmdirs path = none then .error ENOENT else .ok ()
  | .file (.mkdir path _) | .file (.mkfifo path _) =>
    if w.free false path = none then .error EEXIST else .ok ()
  | .file (.chmod path _) | .file (.chown path _ _) =>
    if w.look true path = none then .error ENOENT else .ok ()
  | .file (.chdir path) =>
    if (w.look true path).map Prod.snd = some .directory then .ok () else .error ENOENT
  | .file .getcwd =>
    match w.cwd with
    | some q => .ok (render q)
    | none => .error ENOENT
  | .file (.opendir path) =>
    if (w.look true path).map Prod.snd = some .directory then .ok w.lowest else .error ENOENT
  | .file (.readdir _) => none
  | .file (.closedir _) => .ok ()
  | .user .geteuid => 0
  | .user (.getpwnam _) => none
  | .user (.getpwuid _) | .user (.getgrgid _) => none
  | .user (.runExec _) => 0
  | .user (.seteuid _) | .user (.setegid _) => .ok ()
  | .socket (.select fds) => .ok fds
  | .socket (.sendPacket _ _) => 0
  | .socket .recvPacket => none
  | .socket (.recvFrameInto _) => .error EIO
  | .shared (.sessionAdd _ _) | .shared .sessionsCollectStale | .shared (.requestAdd _ _ _)
  | .shared (.requestSet _ _) | .shared (.requestsSetFailed _) => 0
  | .shared (.sessionFind _) => (0, none)
  | .shared (.requestTake _ _ _) => (0, none)
  | .shared (.requestsForDest _ _) => (0, [])
  | .alloc _ => true
  | .enterCopy _ _ => ()

end World

def blank : Volume where
  tree := Hierarchy.bare
  files := fun _ => ⟨[], 0⟩
  modes := fun _ => 0o755
  fresh := 0
  used {p ino} found := by
    simp only [Hierarchy.bare] at found
    split at found <;> cases found
  short {n p o} found := by
    simp only [Hierarchy.bare, if_neg (List.cons_ne_nil n p)] at found
    cases found

def note : FileName := ⟨cstr "note", by decide⟩

/-- Alice has a file `note` in her home directory. -/
def aliceDisk : World where
  toVolume := (((blank.add [srv] .directory 0o755).add [alice, srv] .directory 0o750).add
    [note, alice, srv] .regular 0o640).setFile 2 ⟨cstr "data", 0o640⟩
  cwd := some [alice, srv]
  fds := fun _ => none

end runs

end Csap
