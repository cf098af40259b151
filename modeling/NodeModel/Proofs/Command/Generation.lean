import NodeModel.Command.Run
import NodeModel.Proofs.Files.Directory

/-! What a failed generation leaves behind. Its configuration and its model are read before it
writes, so without one of them the directory stays as it was. Targets are looked up in turn: one
that is not supported stops the generation, and the files of those before it have been saved. How
the two are read does not matter for this, as long as nothing is written meanwhile. -/
namespace NodeModel

open Files (Access Directory)
open Files.Directory (access IsFileName placeOf)

/-- A file to be saved was refused, or its folder. -/
def Failure.InSaving : Failure → Prop
  | .folderNotMade _ _ | .fileNotWritten _ _ => True
  | _ => False

namespace Target

variable {model : Model} {file other : GeneratedFile} {target another : Target}

theorem ofName?_name (target : Target) : ofName? target.name = some target := by
  cases target <;> rfl

theorem name_of_ofName? {name : String} (found : ofName? name = some target) :
    target.name = name := by
  simpa using List.find?_some found

/-- Names are of targets up to a first one that is not. -/
theorem names_split (names : List String) : ∃ (earlier : List Target) (rest : List String),
    names = earlier.map name ++ rest ∧ ∀ wrong ∈ rest.head?, ofName? wrong = none := by
  induction names with
  | nil => exact ⟨[],[],rfl,by simp⟩
  | cons first names ih =>
    cases found : ofName? first with
    | none => exact ⟨[],first :: names,rfl,by simpa using found⟩
    | some target =>
      obtain rfl := name_of_ofName? found
      obtain ⟨earlier,rest,rfl,wrong⟩ := ih
      exact ⟨target :: earlier,rest,rfl,wrong⟩

theorem isFileName_of_mem (member : file ∈ target.files model) : IsFileName file.name := by
  have document : IsFileName "model.json" := by decide
  have source : IsFileName "nodes.rs" := by decide
  cases target with
  | document => exact List.mem_singleton.mp member ▸ document
  | source => exact List.mem_singleton.mp member ▸ source

/-- What two targets write under one name is one file. -/
theorem file_eq_of_name_eq (member : file ∈ target.files model)
    (member' : other ∈ another.files model) (same : file.name = other.name) : file = other := by
  have apart : "model.json" ≠ "nodes.rs" := by decide
  cases target <;> cases another
  all_goals
    obtain rfl := List.mem_singleton.mp member
    obtain rfl := List.mem_singleton.mp member'
  · rfl
  · exact absurd same apart
  · exact absurd same.symm apart
  · rfl

end Target

namespace Command

variable {α β : Type} {directory ready middle after : Directory} {lines more : List String}
  {failure : Failure}

/-- The result of a program, the lines printed by then and the directory it leaves. -/
def Running.on (program : Running (StateM Directory) α) (lines : List String)
    (directory : Directory) : (Except Failure α × List String) × Directory :=
  (program.run.run lines).run directory

namespace Running

variable {program : Running (StateM Directory) α} {next : α → Running (StateM Directory) β}

theorem on_bind_ok {value : α} (first : program.on lines directory = ((.ok value,more),middle)) :
    Running.on (program >>= next) lines directory = (next value).on more middle := by
  unfold on at first ⊢
  rw [ExceptT.run_bind,StateT.run_bind,StateT.run_bind,first]
  rfl

theorem on_bind_error (first : program.on lines directory = ((.error failure,more),middle)) :
    Running.on (program >>= next) lines directory = ((.error failure,more),middle) := by
  unfold on at first ⊢
  rw [ExceptT.run_bind,StateT.run_bind,StateT.run_bind,first]
  rfl

theorem on_lift {action : StateM Directory α} {value : α}
    (done : action.run directory = (value,after)) :
    Running.on (liftM action) lines directory = ((.ok value,lines),after) := by
  change (((Except.ok (action.run directory).1,lines),(action.run directory).2) :
    (Except Failure α × List String) × Directory) = _
  rw [done]

/-- What a program comes to that starts with nothing printed. -/
def result (program : Running (StateM Directory) α) (directory : Directory) : Except Failure α :=
  (program.on [] directory).1.1

def ReadsOnly (program : Running (StateM Directory) α) : Prop :=
  ∀ directory, ∃ result, ∀ lines, program.on lines directory = ((result,lines),directory)

namespace ReadsOnly

theorem pure (value : α) : ReadsOnly (Pure.pure value) := fun _ => ⟨.ok value,fun _ => rfl⟩

theorem throw (failure : Failure) : ReadsOnly (MonadExcept.throw failure : Running _ α) :=
  fun _ => ⟨.error failure,fun _ => rfl⟩

theorem isPresent (path : String) : ReadsOnly (liftM (access.isPresent path)) :=
  fun directory => ⟨.ok (directory.isPresent path),fun _ => rfl⟩

theorem readText (path : String) : ReadsOnly (liftM (access.readText path)) :=
  fun directory => ⟨.ok (directory.readText path),fun _ => rfl⟩

theorem bind (first : ReadsOnly program) (rest : ∀ value, ReadsOnly (next value)) :
    ReadsOnly (program >>= next) := by
  intro directory
  obtain ⟨result,reads⟩ := first directory
  cases result with
  | error failure => exact ⟨.error failure,fun lines => on_bind_error (reads lines)⟩
  | ok value =>
    obtain ⟨result,later⟩ := rest value directory
    exact ⟨result,fun lines => (on_bind_ok (reads lines)).trans (later lines)⟩

theorem on_eq (reads : ReadsOnly program) (directory : Directory) :
    program.on [] directory = ((program.result directory,[]),directory) := by
  obtain ⟨result,same⟩ := reads directory
  rw [Running.result,same []]

end ReadsOnly

end Running

open Running

theorem loadConfig_readsOnly (asked : Option String) : ReadsOnly (loadConfig access asked) := by
  refine .bind (.isPresent _) fun present => ?_
  split
  · exact .pure _
  · refine .bind (.readText _) fun read => ?_
    split
    · exact .throw _
    · split
      · exact .throw _
      · exact .pure _

theorem loadModel_readsOnly (config : Config) (path : String) :
    ReadsOnly (loadModel access config path) := by
  refine .bind (.readText _) fun read => ?_
  split
  · exact .throw _
  · split
    · exact .throw _
    · exact .pure _

section Inputs

variable {m : Type → Type} [Monad m]

def outputFolder (config : Config) (output : Option String) : String :=
  (output.or config.outputFolder).getD defaultFolder

/-- A generation from the configuration and the model that `reading` comes to. -/
def generation (files : Access m) (reading : Running m (Config × Model)) (output : Option String)
    (flags : List String) : Running m Unit := do
  let given ← reading
  (chosenTargets given.1 flags).forM (writeTarget files given.2 (outputFolder given.1 output))

def readInputs (files : Access m) (asked : Option String) (input : String) :
    Running m (Config × Model) := do
  let config ← loadConfig files asked
  let model ← loadModel files config input
  return (config,model)

def execute (files : Access m) (invocation : Invocation) : Running m Unit := do
  run files (← loadConfig files invocation.config) invocation.command

end Inputs

def inputs (directory : Directory) (asked : Option String) (input : String) :
    Except Failure (Config × Model) :=
  (readInputs access asked input).result directory

variable {asked output : Option String} {input folder : String} {flags : List String}
  {config : Config} {model : Model} {reading : Running (StateM Directory) (Config × Model)}
  {given : Except Failure (Config × Model)}

theorem readInputs_readsOnly (asked : Option String) (input : String) :
    ReadsOnly (readInputs access asked input) :=
  .bind (loadConfig_readsOnly asked) fun config =>
    .bind (loadModel_readsOnly config input) fun model => .pure (config,model)

theorem execute_generate (asked output : Option String) (input : String) (flags : List String) :
    execute access ⟨asked,.generate input output flags⟩ =
      generation access (readInputs access asked input) output flags := by
  simp [execute,run,readInputs,outputFolder,generation]

theorem runArguments_failed {arguments : List String} {invocation : Invocation}
    (read : Invocation.read arguments = .ok invocation)
    (failed : (execute access invocation).on [] directory = ((.error failure,lines),after)) :
    (runArguments access arguments).run directory =
      (⟨1,String.join (lines.map (· ++ "\n")),failure.report⟩,after) := by
  rw [runArguments,read]
  -- The program that an invocation stands for is `execute` of it.
  change StateT.run ((execute access invocation).run.run [] >>= _) directory = _
  unfold Running.on at failed
  rw [StateT.run_bind,failed]
  rfl

def savedLine (folder : String) (file : GeneratedFile) : String :=
  s!"wrote {Files.joinPath folder file.name}"

/-- Files are saved below a folder one after the other, each after the folder was made. -/
inductive Saves (folder : String) : Directory → List GeneratedFile → Directory → Prop
  | nil (directory : Directory) : Saves folder directory [] directory
  | cons {directory ready middle after : Directory} {file : GeneratedFile}
      {files : List GeneratedFile}
      (made : directory.makeFolders (Files.shownFolder folder) = .ok ready)
      (written : ready.writeText (Files.joinPath folder file.name) file.content = .ok middle)
      (rest : Saves folder middle files after) : Saves folder directory (file :: files) after

variable {file : GeneratedFile} {files : List GeneratedFile}

theorem writeFile_on (made : directory.makeFolders (Files.shownFolder folder) = .ok ready)
    (written : ready.writeText (Files.joinPath folder file.name) file.content = .ok after)
    (lines : List String) :
    (writeFile access folder file).on lines directory =
      ((.ok (),lines ++ [savedLine folder file]),after) := by
  have making := Directory.access_makeFolders directory (Files.shownFolder folder)
  have writing := Directory.access_writeText ready (Files.joinPath folder file.name) file.content
  rw [made] at making
  rw [written] at writing
  exact (on_bind_ok (on_lift making)).trans (on_bind_ok (on_lift writing))

theorem Saves.on (saves : Saves folder directory files after) (lines : List String) :
    Running.on (files.forM (writeFile access folder)) lines directory =
      ((.ok (),lines ++ files.map (savedLine folder)),after) := by
  induction saves generalizing lines with
  | nil =>
    rw [List.map_nil,List.append_nil]
    rfl
  | cons made written rest ih =>
    refine (on_bind_ok (writeFile_on made written lines)).trans ?_
    rw [ih,List.map_cons,List.append_assoc,List.singleton_append]

/-- A file is saved, or the program fails in saving it. -/
theorem writeFile_saves (folder : String) (file : GeneratedFile) (lines : List String)
    (directory : Directory) :
    (∃ ready after, directory.makeFolders (Files.shownFolder folder) = .ok ready ∧
      ready.writeText (Files.joinPath folder file.name) file.content = .ok after) ∨
    ∃ failure after, failure.InSaving ∧
      (writeFile access folder file).on lines directory = ((.error failure,lines),after) := by
  have making := Directory.access_makeFolders directory (Files.shownFolder folder)
  cases made : directory.makeFolders (Files.shownFolder folder) with
  | error refusal =>
    rw [made] at making
    exact .inr ⟨.folderNotMade _ refusal,directory,trivial,on_bind_ok (on_lift making)⟩
  | ok ready =>
    have writing := Directory.access_writeText ready (Files.joinPath folder file.name) file.content
    rw [made] at making
    cases written : ready.writeText (Files.joinPath folder file.name) file.content with
    | error refusal =>
      rw [written] at writing
      exact .inr ⟨.fileNotWritten _ refusal,ready,trivial,
        (on_bind_ok (on_lift making)).trans (on_bind_ok (on_lift writing))⟩
    | ok after => exact .inl ⟨ready,after,rfl,written⟩

theorem writeFiles_saves (folder : String) (files : List GeneratedFile) (lines : List String)
    (directory : Directory) :
    (∃ after, Saves folder directory files after) ∨
    ∃ failure more after, failure.InSaving ∧
      Running.on (files.forM (writeFile access folder)) lines directory =
        ((.error failure,more),after) := by
  induction files generalizing lines directory with
  | nil => exact .inl ⟨directory,.nil directory⟩
  | cons file files ih =>
    rcases writeFile_saves folder file lines directory with
      ⟨ready,middle,made,written⟩ | ⟨failure,after,saving,failed⟩
    · rcases ih (lines ++ [savedLine folder file]) middle with
        ⟨after,saves⟩ | ⟨failure,more,after,saving,failed⟩
      · exact .inl ⟨after,.cons made written saves⟩
      · exact .inr ⟨failure,more,after,saving,
          (on_bind_ok (writeFile_on made written lines)).trans failed⟩
    · exact .inr ⟨failure,lines,after,saving,on_bind_error failed⟩

theorem writeTarget_name (model : Model) (folder : String) (target : Target) :
    writeTarget access model folder target.name =
      (target.files model).forM (writeFile access folder) := by
  rw [writeTarget,Target.ofName?_name]

theorem writeTargets_eq (model : Model) (folder : String) (targets : List Target) :
    (targets.map Target.name).forM (writeTarget access model folder) =
      (targets.flatMap (·.files model)).forM (writeFile access folder) := by
  induction targets with
  | nil => rfl
  | cons target targets ih =>
    rw [List.flatMap_cons]
    simp only [List.forM_eq_forM,List.map_cons,List.forM_cons,List.forM_append] at ih ⊢
    rw [ih,writeTarget_name,List.forM_eq_forM]

theorem writeTargets_append (model : Model) (folder : String) (earlier : List Target)
    (later : List String) :
    (earlier.map Target.name ++ later).forM (writeTarget access model folder) =
      ((earlier.flatMap (·.files model)).forM (writeFile access folder) >>= fun _ =>
        later.forM (writeTarget access model folder)) := by
  rw [← writeTargets_eq]
  simp only [List.forM_eq_forM,List.forM_append]

/-- Why a generation stops although it could save every file it came to, together with these files
and their folder. `given` is what was read for it. -/
inductive Stops (given : Except Failure (Config × Model)) (output : Option String)
    (flags : List String) : Failure → String → List GeneratedFile → Prop
  /-- The configuration or the model cannot be had. -/
  | unread {failure : Failure} (folder : String) (missing : given = .error failure) :
      Stops given output flags failure folder []
  /-- A target is not supported, and those before it are. -/
  | unsupported {config : Config} {model : Model} {earlier : List Target} {name : String}
      {later : List String} (had : given = .ok (config,model))
      (chosen : chosenTargets config flags = earlier.map Target.name ++ name :: later)
      (unknown : Target.ofName? name = none) :
      Stops given output flags (.unsupportedTarget name) (outputFolder config output)
        (earlier.flatMap (·.files model))

section Reading

variable (reads : ReadsOnly reading)
include reads

theorem generation_unread (output : Option String) (flags : List String)
    (missing : reading.result directory = .error failure) :
    (generation access reading output flags).on [] directory =
      ((.error failure,[]),directory) := by
  have read := reads.on_eq directory
  rw [missing] at read
  exact on_bind_error read

theorem generation_read (output : Option String) (flags : List String)
    (had : reading.result directory = .ok (config,model)) :
    (generation access reading output flags).on [] directory =
      Running.on ((chosenTargets config flags).forM
        (writeTarget access model (outputFolder config output))) [] directory := by
  have read := reads.on_eq directory
  rw [had] at read
  exact on_bind_ok read

theorem Stops.on (stops : Stops (reading.result directory) output flags failure folder files)
    (saves : Saves folder directory files after) :
    (generation access reading output flags).on [] directory =
      ((.error failure,files.map (savedLine folder)),after) := by
  cases stops with
  | unread _ missing =>
    cases saves
    exact generation_unread reads output flags missing
  | unsupported had chosen unknown =>
    rw [generation_read reads output flags had,chosen,writeTargets_append,on_bind_ok (saves.on [])]
    refine on_bind_error ?_
    rw [writeTarget,unknown]
    rfl

/-- A generation that fails has a reason to stop, unless it fails in saving a file. -/
theorem exists_stops
    (failed : (generation access reading output flags).on [] directory =
      ((.error failure,lines),after)) (other : ¬failure.InSaving) :
    ∃ folder files, Stops (reading.result directory) output flags failure folder files ∧
      Saves folder directory files after := by
  cases read : reading.result directory with
  | error missing =>
    rw [generation_unread reads output flags read] at failed
    cases failed
    exact ⟨"",[],.unread "" rfl,.nil directory⟩
  | ok had =>
    obtain ⟨config,model⟩ := had
    obtain ⟨earlier,rest,chosen,wrong⟩ := Target.names_split (chosenTargets config flags)
    -- The files of the supported targets in front are saved first. If none of them is refused, only
    -- the target behind them is left as a reason.
    have whole := generation_read reads output flags read
    rw [chosen,writeTargets_append] at whole
    rcases writeFiles_saves (outputFolder config output) (earlier.flatMap (·.files model)) []
      directory with ⟨saved,saves⟩ | ⟨refused,more,left,saving,stopped⟩
    · cases rest with
      | nil =>
        rw [whole,on_bind_ok (saves.on [])] at failed
        cases failed
      | cons name later =>
        have stops : Stops (reading.result directory) output flags (.unsupportedTarget name) _ _ :=
          .unsupported read chosen (wrong name rfl)
        have same := (stops.on reads saves).symm.trans failed
        cases same
        exact ⟨_,_,read ▸ stops,saves⟩
    · rw [whole,on_bind_error stopped] at failed
      cases failed
      exact absurd saving other

end Reading

/-- Saving a file changes this file only. -/
theorem file?_saved (named : IsFileName file.name)
    (made : directory.makeFolders (Files.shownFolder folder) = .ok ready)
    (written : ready.writeText (Files.joinPath folder file.name) file.content = .ok after) :
    after.file? = Function.update directory.file? (placeOf folder ++ [file.name])
      (some file.content.toUTF8) := by
  rw [Directory.writeText_file? written,Directory.makeFolders_file? made,named.placeOf_joinPath]

theorem Saves.file?_of_ne (saves : Saves folder directory files after)
    (named : ∀ file ∈ files, IsFileName file.name) {location : List String}
    (apart : ∀ file ∈ files, location ≠ placeOf folder ++ [file.name]) :
    after.file? location = directory.file? location := by
  induction saves with
  | nil => rfl
  | cons made written rest ih =>
    rw [ih (fun file member => named file (List.mem_cons_of_mem _ member))
      fun file member => apart file (List.mem_cons_of_mem _ member)]
    rw [file?_saved (named _ List.mem_cons_self) made written,
      Function.update_of_ne (apart _ List.mem_cons_self)]

/-- Of files with one name the last is kept, so all of them are there if they are the same. -/
theorem Saves.file?_of_mem (saves : Saves folder directory files after)
    (named : ∀ file ∈ files, IsFileName file.name)
    (agree : ∀ file ∈ files, ∀ other ∈ files, file.name = other.name → file = other)
    (member : file ∈ files) :
    after.file? (placeOf folder ++ [file.name]) = some file.content.toUTF8 := by
  induction saves with
  | nil => simp at member
  | @cons _ _ _ _ first files made written rest ih =>
    have namedLater : ∀ later ∈ files, IsFileName later.name := fun later inside =>
      named later (List.mem_cons_of_mem _ inside)
    by_cases again : ∃ later ∈ files, later.name = file.name
    · obtain ⟨later,inside,same⟩ := again
      obtain rfl := agree later (List.mem_cons_of_mem _ inside) file member same
      exact ih namedLater (fun one inside' other inside'' => agree one
        (List.mem_cons_of_mem _ inside') other (List.mem_cons_of_mem _ inside'')) inside
    · obtain rfl : file = first := (List.mem_cons.mp member).resolve_right fun inside =>
        again ⟨file,inside,rfl⟩
      rw [rest.file?_of_ne namedLater,file?_saved (named _ List.mem_cons_self) made written,
        Function.update_self]
      intro later inside same
      exact again ⟨later,inside,by simpa using same.symm⟩

theorem Saves.eq_of_nil (saves : Saves folder directory [] after) : after = directory := by
  cases saves
  rfl

theorem Stops.files_eq_nil (stops : Stops given output flags failure folder files)
    (read : ∀ name, failure ≠ .unsupportedTarget name) : files = [] := by
  cases stops with
  | unread => rfl
  | unsupported => exact absurd rfl (read _)

theorem Stops.isFileName (stops : Stops given output flags failure folder files) :
    ∀ file ∈ files, IsFileName file.name := by
  cases stops with
  | unread => simp
  | unsupported =>
    intro file member
    obtain ⟨target,_,inside⟩ := List.mem_flatMap.mp member
    exact Target.isFileName_of_mem inside

theorem Stops.agree (stops : Stops given output flags failure folder files) :
    ∀ file ∈ files, ∀ other ∈ files, file.name = other.name → file = other := by
  cases stops with
  | unread => simp
  | unsupported =>
    intro file member other member' same
    obtain ⟨target,_,inside⟩ := List.mem_flatMap.mp member
    obtain ⟨another,_,inside'⟩ := List.mem_flatMap.mp member'
    exact Target.file_eq_of_name_eq inside inside' same

/-- What a generation that stops has saved, whatever it read. -/
theorem Stops.written (stops : Stops given output flags failure folder files)
    (saves : Saves folder directory files after) :
    (∀ file ∈ files, after.file? (placeOf folder ++ [file.name]) = some file.content.toUTF8) ∧
    (∀ location, (∀ file ∈ files, location ≠ placeOf folder ++ [file.name]) →
      after.file? location = directory.file? location) ∧
    ((∀ name, failure ≠ .unsupportedTarget name) ∨ files = [] → after = directory) := by
  refine ⟨fun file member => saves.file?_of_mem stops.isFileName stops.agree member,
    fun location apart => saves.file?_of_ne stops.isFileName apart,fun early => ?_⟩
  obtain rfl : files = [] := early.elim stops.files_eq_nil id
  exact saves.eq_of_nil

/-- However the configuration and the model are read, a generation from them fails otherwise than in
saving a file exactly if it has a reason to stop, with the files of the targets it has passed
saved. -/
theorem generation_failed_iff (reads : ReadsOnly reading) (other : ¬failure.InSaving) :
    (∃ lines, (generation access reading output flags).on [] directory =
      ((.error failure,lines),after)) ↔
        ∃ folder files, Stops (reading.result directory) output flags failure folder files ∧
          Saves folder directory files after := by
  constructor
  · rintro ⟨lines,failed⟩
    exact exists_stops reads failed other
  · rintro ⟨folder,files,stops,saves⟩
    exact ⟨_,stops.on reads saves⟩

/-- A generation fails otherwise than in saving a file exactly if it has a reason to stop. Then the
files of the targets it has passed are saved and no other file has changed: nothing at all has,
unless an unsupported target comes behind others. -/
theorem generate_failed_writes {arguments : List String}
    (read : Invocation.read arguments = .ok ⟨asked,.generate input output flags⟩)
    (other : ¬failure.InSaving) :
    ((∃ lines, (execute access ⟨asked,.generate input output flags⟩).on [] directory =
      ((.error failure,lines),after)) ↔
        ∃ folder files, Stops (inputs directory asked input) output flags failure folder files ∧
          Saves folder directory files after) ∧
    ∀ folder files, Stops (inputs directory asked input) output flags failure folder files →
      Saves folder directory files after →
      (runArguments access arguments).run directory =
        (⟨1,String.join ((files.map (savedLine folder)).map (· ++ "\n")),failure.report⟩,after) ∧
      (∀ file ∈ files, after.file? (placeOf folder ++ [file.name]) = some file.content.toUTF8) ∧
      (∀ location, (∀ file ∈ files, location ≠ placeOf folder ++ [file.name]) →
        after.file? location = directory.file? location) ∧
      ((∀ name, failure ≠ .unsupportedTarget name) ∨ files = [] → after = directory) := by
  have reads := readInputs_readsOnly asked input
  have program := execute_generate asked output input flags
  refine ⟨?_,fun folder files stops saves => ⟨?_,stops.written saves⟩⟩
  · rw [program]
    exact generation_failed_iff reads other
  · exact runArguments_failed read (program ▸ stops.on reads saves)

def project : Directory :=
  .ofFiles [("a.nodes","node A \x7b\x7d\n".toUTF8),
    ("nodegen.toml","output.targets = [\"rust\", \"cobol\"]\n".toUTF8),
    ("generated/nodes.rs","old\n".toUTF8)]

def projectModel : Model where
  classes := [⟨"A",none,["A"],[],[],[],[],[],{},none⟩]

theorem project_inputs :
    inputs project none "a.nodes" = .ok ({ targets := ["rust","cobol"] },projectModel) := by
  decide +kernel

theorem project_saves {name content : String}
    (written : project.writeText (Files.joinPath "generated" name) content = .ok after) :
    Saves "generated" project [⟨name,content⟩] after :=
  .cons rfl written (.nil after)

theorem generate_failed_writes_partly :
    ∃ after, (runArguments access ["generate","-i","a.nodes"]).run project =
      (⟨1,"wrote generated/nodes.rs\n",(Failure.unsupportedTarget "cobol").report⟩,after) ∧
      after.file? ["generated","nodes.rs"] = some (Source.SourceFile.of projectModel).text.toUTF8 ∧
      after.file? ["generated","model.json"] = none := by
  have read : Invocation.read ["generate","-i","a.nodes"] =
      .ok ⟨none,.generate "a.nodes" none []⟩ := by decide +kernel
  have chosen : chosenTargets { targets := ["rust","cobol"] } [] =
      [Target.source].map Target.name ++ "cobol" :: [] := rfl
  have written (text : String) : project.writeText (Files.joinPath "generated" "nodes.rs") text =
      .ok (project.put ["generated","nodes.rs"] (.file text.toUTF8)) := rfl
  obtain ⟨ran,held,kept,-⟩ := (generate_failed_writes read (by simp [Failure.InSaving])).2
    "generated" _ (.unsupported project_inputs chosen rfl) (project_saves (written _))
  refine ⟨_,ran,held _ List.mem_cons_self,(kept _ ?_).trans (by decide +kernel)⟩
  intro file member
  obtain rfl := List.mem_singleton.mp member
  exact show ["generated","model.json"] ≠ ["generated","nodes.rs"] by decide

/-- After a generation that came upon an unsupported target a file is there that was not before. -/
theorem generate_failed_leaves_document :
    ∃ after, (runArguments access ["generate","-i","a.nodes","-t","json","-t","cobol"]).run project =
      (⟨1,"wrote generated/model.json\n",
        "Error: unsupported target: cobol (available: json, rust)\n"⟩,after) ∧
      project.file? ["generated","model.json"] = none ∧
      after.file? ["generated","model.json"] = some projectModel.document.toUTF8 := by
  have read : Invocation.read ["generate","-i","a.nodes","-t","json","-t","cobol"] =
      .ok ⟨none,.generate "a.nodes" none ["json","cobol"]⟩ := by decide +kernel
  have chosen : chosenTargets { targets := ["rust","cobol"] } ["json","cobol"] =
      [Target.document].map Target.name ++ "cobol" :: [] := rfl
  have stops : Stops (inputs project none "a.nodes") none ["json","cobol"]
    (.unsupportedTarget "cobol") "generated" _ := .unsupported project_inputs chosen rfl
  have program := execute_generate none none "a.nodes" ["json","cobol"]
  have reads := readInputs_readsOnly none "a.nodes"
  have written (text : String) : project.writeText (Files.joinPath "generated" "model.json") text =
      .ok (project.put ["generated","model.json"] (.file text.toUTF8)) := rfl
  have saves := project_saves (written projectModel.document)
  have report : (Failure.unsupportedTarget "cobol").report =
      "Error: unsupported target: cobol (available: json, rust)\n" := by decide +kernel
  refine ⟨_,report ▸ runArguments_failed read (program ▸ stops.on reads saves),
    by decide +kernel,?_⟩
  exact saves.file?_of_mem stops.isFileName stops.agree List.mem_cons_self

end Command

end NodeModel
