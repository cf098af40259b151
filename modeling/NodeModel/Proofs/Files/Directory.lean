import Mathlib.Logic.Function.Basic
import NodeModel.Files.Directory
import NodeModel.Proofs.Text.Pieces

/-! The files of a directory. A path leads to one location, whatever stands there: text that is
written changes the file at that location and no other, and folders that are made change none. -/
namespace NodeModel.Files

namespace Directory

variable {directory after : Directory} {location found : List String} {path : String}

/-- The location that the parts of a path lead to. -/
def landing (location : List String) : List String → List String
  | [] => location
  | part :: rest =>
    if part = "." then landing location rest
    else if part = ".." then landing (folderOf location) rest
    else landing (location ++ [part]) rest

def placeOf (path : String) : List String := landing (startOf path) (pathParts path)

def file? (directory : Directory) (location : List String) : Option ByteArray :=
  match directory.entry? location with
  | some (.file content) => some content
  | _ => none

theorem landing_append (location parts more : List String) :
    landing location (parts ++ more) = landing (landing location parts) more := by
  induction parts generalizing location with
  | nil => rfl
  | cons part parts ih =>
    simp only [List.cons_append,landing]
    split
    · exact ih _
    · split <;> exact ih _

/-- Where a path leads does not depend on what stands on the way, only whether it leads there. -/
theorem follow_eq_ok {parts : List String} {entry : Option Entry}
    (ok : directory.follow location parts = .ok (found,entry)) :
    found = landing location parts ∧ entry = directory.entry? found := by
  induction parts generalizing location with
  | nil =>
    simp only [follow,Except.ok.injEq,Prod.mk.injEq] at ok
    obtain ⟨rfl,rfl⟩ := ok
    exact ⟨rfl,rfl⟩
  | cons part parts ih =>
    rw [follow] at ok
    split at ok
    · simp at ok
    · simp at ok
    · rw [landing]
      split at ok
      next same => simpa [same] using ih ok
      next other =>
        rw [if_neg other]
        split at ok
        next up => simpa [up] using ih ok
        next down =>
          rw [if_neg down]
          split at ok
          · simp at ok
          · exact ih ok

theorem find_eq_ok {entry : Option Entry} (ok : directory.find path = .ok (found,entry)) :
    found = placeOf path ∧ entry = directory.entry? found := by
  simp only [find,bind,Except.bind] at ok
  split at ok
  · simp at ok
  · split at ok
    · simp at ok
    · exact follow_eq_ok ok

/-- A name that can be the last part of a path to a file. -/
structure IsFileName (name : String) : Prop where
  free : ∀ c ∈ name.toList, (c == '/') = false
  notEmpty : name ≠ ""
  notHere : name ≠ "."
  notAbove : name ≠ ".."

instance (name : String) : Decidable (IsFileName name) :=
  decidable_of_iff (name.toList.all (fun c => (c == '/') = false) = true ∧ name ≠ "" ∧ name ≠ "." ∧
      name ≠ "..")
    ⟨fun ok => ⟨List.all_iff_forall_prop.mp ok.1,ok.2.1,ok.2.2.1,ok.2.2.2⟩,
      fun ok => ⟨List.all_iff_forall_prop.mpr ok.free,ok.notEmpty,ok.notHere,ok.notAbove⟩⟩

theorem IsFileName.pathParts_eq {name : String} (ok : IsFileName name) : pathParts name = [name] := by
  have some : name.toList ≠ [] := by simpa using ok.notEmpty
  simp [pathParts,Text.pieces_free ok.free,some]

theorem IsFileName.landing_eq {name : String} (ok : IsFileName name) (location : List String) :
    landing location [name] = location ++ [name] := by
  simp [landing,ok.notHere,ok.notAbove]

theorem pathParts_slash (folder name : List Char) :
    pathParts (String.ofList (folder ++ '/' :: name)) =
      pathParts (String.ofList folder) ++ pathParts (String.ofList name) := by
  simp [pathParts,Text.pieces_join]

theorem IsFileName.startOf_eq {name : String} (ok : IsFileName name) : startOf name = [] := by
  cases chars : name.toList with
  | nil => simp [startOf,chars]
  | cons c cs =>
    have free := ok.free c (by simp [chars])
    simpa [startOf,chars] using free

theorem startOf_append {front : List Char} (some : front ≠ []) (more : List Char) :
    startOf (String.ofList (front ++ more)) = startOf (String.ofList front) := by
  simp [startOf,List.head?_append_of_ne_nil _ some]

theorem IsFileName.placeOf_slash {name : String} (ok : IsFileName name) (front : List Char) :
    placeOf (String.ofList (front ++ '/' :: name.toList)) =
      landing (startOf (String.ofList (front ++ ['/']))) (pathParts (String.ofList front)) ++
        [name] := by
  have start : front ++ '/' :: name.toList = (front ++ ['/']) ++ name.toList := by simp
  rw [placeOf,pathParts_slash,String.ofList_toList,ok.pathParts_eq,landing_append,ok.landing_eq,
    start,startOf_append (by simp)]

/-- A file lies in the folder that its name is joined to. -/
theorem IsFileName.placeOf_joinPath {name : String} (ok : IsFileName name) (folder : String) :
    placeOf (joinPath folder name) = placeOf folder ++ [name] := by
  obtain ⟨cs,rfl⟩ : ∃ cs, folder = String.ofList cs := ⟨folder.toList,by simp⟩
  by_cases none : cs = []
  · subst none
    have here : joinPath (String.ofList []) name = name := by simp [joinPath]
    rw [here,placeOf,ok.pathParts_eq,ok.startOf_eq,ok.landing_eq]
    rfl
  · by_cases slash : cs.getLast? = some '/'
    · -- A slash at the end of the folder is not doubled, and leads nowhere by itself.
      obtain ⟨front,rfl⟩ := List.getLast?_eq_some_iff.mp slash
      have joined : joinPath (String.ofList (front ++ ['/'])) name =
          String.ofList (front ++ '/' :: name.toList) := by
        apply String.toList_inj.mp
        simp [joinPath]
      have idle : pathParts (String.ofList (front ++ ['/'])) =
          pathParts (String.ofList front) ++ ["."] := pathParts_slash front []
      rw [joined,ok.placeOf_slash,placeOf,idle,landing_append]
      rfl
    · have joined : joinPath (String.ofList cs) name =
          String.ofList (cs ++ '/' :: name.toList) := by
        apply String.toList_inj.mp
        simp [joinPath,none,slash]
      rw [joined,ok.placeOf_slash,startOf_append none,placeOf]

theorem find?_replaced_of_ne {other : List String} (apart : other ≠ location) (entry : Entry)
    (entries : List (List String × Entry)) :
    (entries.map fun old => if old.1 == location then (location,entry) else old).find?
      (·.1 == other) = entries.find? (·.1 == other) := by
  have differs : (location == other) = false := by simpa using Ne.symm apart
  induction entries with
  | nil => rfl
  | cons old entries ih =>
    rw [List.map_cons,List.find?_cons,List.find?_cons,ih]
    by_cases here : old.1 = location
    · simp only [here,beq_self_eq_true,if_true,differs]
    · simp [here]

theorem find?_replaced_self (entry : Entry) {entries : List (List String × Entry)}
    (there : entries.any (·.1 == location) = true) :
    (entries.map fun old => if old.1 == location then (location,entry) else old).find?
      (·.1 == location) = some (location,entry) := by
  induction entries with
  | nil => simp at there
  | cons old entries ih =>
    rw [List.map_cons,List.find?_cons]
    by_cases here : old.1 = location
    · simp [here]
    · have later : entries.any (·.1 == location) = true := by simpa [here] using there
      have differs : (old.1 == location) = false := by simpa using here
      simpa only [differs,Bool.false_eq_true,if_false] using ih later

theorem entry?_put_of_ne {other : List String} (apart : other ≠ location) (entry : Entry) :
    entry? (directory.put location entry) other = directory.entry? other := by
  simp only [ entry?,put]
  split
  · rfl
  · split
    · rw [find?_replaced_of_ne apart]
    · simp [List.find?_append,Ne.symm apart]

/-- What is put is found, unless a folder that is always there hides it. -/
theorem entry?_put_self {entry : Entry} (free : directory.entry? location ≠ some .folder) :
    entry? (directory.put location entry) location = some entry := by
  have inside : ¬(isAbove location || isRoot location) = true := fun above =>
    free (by simp only [ entry?,above,if_true])
  simp only [ entry?,if_neg inside,put]
  split
  next there => rw [find?_replaced_self entry there,Option.map_some]
  next missing =>
    have none : directory.entries.find? (·.1 == location) = none :=
      List.find?_eq_none.mpr fun old member here =>
        missing (List.any_eq_true.mpr ⟨old,member,here⟩)
    simp [List.find?_append,none]

theorem file?_put_folder (free : directory.entry? location = none) :
    (directory.put location .folder).file? = directory.file? := by
  funext other
  by_cases same : other = location
  · subst same
    simp [file?,entry?_put_self,free]
  · simp [file?,entry?_put_of_ne same]

theorem file?_put_file (free : directory.entry? location ≠ some .folder) (content : ByteArray) :
    (directory.put location (.file content)).file? =
      Function.update directory.file? location (some content) := by
  funext other
  by_cases same : other = location
  · subst same
    simp [file?,entry?_put_self free]
  · simp [file?,entry?_put_of_ne same,same]

theorem makeFolder_file? {start parts : List String}
    (ok : directory.makeFolder start parts = .ok after) : after.file? = directory.file? := by
  simp only [makeFolder,bind,Except.bind] at ok
  split at ok
  · simp at ok
  next reached =>
    obtain ⟨-,entry⟩ := follow_eq_ok reached
    split at ok
    next location missing =>
      cases ok
      exact file?_put_folder entry.symm
    next => cases ok; rfl
    next => simp at ok

theorem makeAlong_file? {start parts : List String}
    (ok : directory.makeAlong start parts = .ok after) : after.file? = directory.file? := by
  induction parts generalizing after with
  | nil =>
    cases ok
    rfl
  | cons part above ih =>
    rw [makeAlong] at ok
    split at ok
    next =>
      simp only [bind,Except.bind] at ok
      split at ok
      · simp at ok
      next made => exact (makeFolder_file? ok).trans (ih made)
    next => exact makeFolder_file? ok

/-- Folders are only made where nothing stands. -/
theorem makeFolders_file? (ok : directory.makeFolders path = .ok after) :
    after.file? = directory.file? := by
  simp only [makeFolders,bind,Except.bind] at ok
  split at ok
  · cases ok
    rfl
  · split at ok
    · simp at ok
    · exact makeAlong_file? ok

/-- Text is written to one file. -/
theorem writeText_file? {text : String} (ok : directory.writeText path text = .ok after) :
    after.file? = Function.update directory.file? (placeOf path) (some text.toUTF8) := by
  simp only [writeText,bind,Except.bind] at ok
  split at ok
  · simp at ok
  next there reached =>
    obtain ⟨place,entry⟩ := find_eq_ok reached
    rw [← place]
    split at ok
    · simp at ok
    next free =>
      cases ok
      exact file?_put_file (fun folder => free (entry.trans folder)) _

theorem access_makeFolders (directory : Directory) (path : String) :
    (access.makeFolders path).run directory =
      ((directory.makeFolders path).map fun _ => (),
        (directory.makeFolders path).toOption.getD directory) := by
  simp only [access,StateT.run_bind,StateT.run_get,pure_bind]
  cases directory.makeFolders path <;> rfl

theorem access_writeText (directory : Directory) (path text : String) :
    (access.writeText path text).run directory =
      ((directory.writeText path text).map fun _ => (),
        (directory.writeText path text).toOption.getD directory) := by
  simp only [access,StateT.run_bind,StateT.run_get,pure_bind]
  cases directory.writeText path text <;> rfl

end Directory

end NodeModel.Files
