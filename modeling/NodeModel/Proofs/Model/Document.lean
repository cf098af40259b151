import NodeModel.Proofs.Schema.Document
import NodeModel.Target

/-! Models and their documents. As for schemas, each part is read back from what is written for it;
clone rules apart, whose step stands beside the field and is made out once the rule has been read. -/
namespace NodeModel.Model

open Json

theorem Policy.reads (policy : Policy) : Reads Policy.reader policy.toJson policy := by
  refine reads_record _ (by decide) ?_
  exact .needed (reads_flag policy.optional) (.needed (reads_flag policy.bound)
    (.needed (reads_flag policy.visitable) (.needed policy.copyMode.reads .done)))

theorem Default.reads (value : Default) : Reads Default.reader value.toJson value := by
  cases value <;> exact reads_name rfl

theorem Field.reads (field : Field) : Reads Field.reader field.toJson field := by
  refine reads_record _ (by decide) ?_
  rw [← List.append_nil (_ ++ _)]
  simp only [List.append_assoc]
  exact .needed (reads_text field.name) (.needed field.kind.reads (.needed field.policy.reads
    (.needed (reads_text field.declaredIn)
      (.shownSome Default.reads (fun _ => nofun) rfl (.shownText rfl .done)))))

theorem Param.reads (param : Param) : Reads Param.reader param.toJson param := by
  refine reads_record _ (by decide) ?_
  rw [← List.append_nil (shownIf _ _ _)]
  exact .needed (reads_text param.field) (.shownTrue rfl .done)

theorem Slot.reads (slot : Slot) : Reads Slot.reader slot.toJson slot := by
  refine reads_record _ (by decide) ?_
  rw [← List.append_nil (shownIf _ _ _)]
  exact .needed (reads_text slot.field) (.shownTrue rfl .done)

/-- Members under other names than that of the field are kept as they are. -/
theorem ruleMembers_kept {members : List (String × Json)}
    (each : ∀ member ∈ members, member.1 ≠ "field" ∧
      Reads (any CloneRule.room) member.2 member.2)
    (field : Option String) (kept : List (String × Json)) (fuel : Nat)
    (enough : members.length < fuel) {text : List Char} (inside : SpellsMembers false members text)
    (rest : List Char) :
    ruleMembers fuel false field kept (text ++ rest) = .ok ((field,kept ++ members),rest) := by
  induction members generalizing kept fuel text with
  | nil =>
    cases inside with
    | close empty =>
      cases fuel with
      | zero => simp at enough
      | succ fuel =>
        rw [ruleMembers,nextKey_close false empty,List.append_nil]
        rfl
  | cons member members ih =>
    cases inside with
    | @next _ name value _ blank gap spelling tail empty clear spelled later =>
      cases fuel with
      | zero => simp at enough
      | succ fuel =>
        obtain ⟨other,reads⟩ := each (name,value) List.mem_cons_self
        have shape : separator false ++ blank ++ quote name ++ ':' :: gap ++ spelling ++ tail ++
            rest = separator false ++
              (blank ++ quote name ++ ':' :: (gap ++ spelling ++ (tail ++ rest))) := by
          simp
        have here := reads.reads (tail ++ rest) clear spelled
        have others := ih (fun member inside => each member (List.mem_cons_of_mem _ inside))
          (kept ++ [(name,value)]) fuel (by simpa using enough) later
        rw [ruleMembers,shape,nextKey_next false empty]
        simp only [bind,Except.bind,if_true,readString_quoted,beq_iff_eq,other,if_false,
          afterColon_colon,here,others]
        simp

def CloneStep.members (step : CloneStep) : List (String × Json) :=
  ("step",.string step.documentName) :: match step with
    | .externalCopy type => [("type_name",.string type)]
    | _ => []

theorem CloneRule.toJson_eq (rule : CloneRule) :
    rule.toJson = .object (("field",.string rule.field) :: rule.step.members) := rfl

theorem CloneStep.ofMembers_members (step : CloneStep) : ofMembers step.members = .ok step := by
  cases step <;> rfl

theorem CloneStep.mem_members {rule : CloneStep} {member : String × Json}
    (inside : member ∈ rule.members) :
    member.1 ≠ "field" ∧ ∃ text, member.2 = .string text := by
  have step : "step" ≠ "field" := by decide
  have typeName : "type_name" ≠ "field" := by decide
  cases rule with
  | externalCopy =>
    rcases List.mem_pair.mp inside with rfl | rfl
    · exact ⟨step,_,rfl⟩
    · exact ⟨typeName,_,rfl⟩
  | _ =>
    obtain rfl := List.mem_singleton.mp inside
    exact ⟨step,_,rfl⟩

theorem CloneRule.reads (rule : CloneRule) : Reads CloneRule.reader rule.toJson rule where
  solid := rfl
  reads := by
    intro blank text rest empty spelled
    rw [toJson_eq] at spelled
    cases spelled with
    | @object _ text inside =>
      cases inside with
      | @next _ _ _ _ blank' gap spelling tail empty' clear spelled later =>
        have opened := skipSpace_at (show isSpace '\x7b' = false by decide) empty
          (separator true ++ blank' ++ quote "field" ++ ':' :: gap ++ spelling ++ tail) rest
        have shape : separator true ++ blank' ++ quote "field" ++ ':' :: gap ++ spelling ++ tail ++
            rest = separator true ++
              (blank' ++ quote "field" ++ ':' :: (gap ++ spelling ++ (tail ++ rest))) := by
          simp
        have bound := later.length_lt
        have field := (reads_text rule.field).reads (tail ++ rest) clear spelled
        have others := ruleMembers_kept (fun member inside => by
          obtain ⟨other,value,same⟩ := CloneStep.mem_members inside
          exact ⟨other,same ▸ reads_anyText _ value⟩) (some rule.field) []
          ((separator true ++ blank' ++ quote "field" ++ ':' :: gap ++ spelling ++ tail ++
            rest).length) (by simp; omega) later rest
        simp only [reader,opened]
        rw [ruleMembers,shape,nextKey_next true empty']
        rw [shape] at others
        simp only [bind,Except.bind,if_true,readString_quoted,beq_self_eq_true,Option.isSome_none,
          Bool.false_eq_true,if_false,afterColon_colon,field,others,List.nil_append,
          CloneStep.ofMembers_members]

theorem Mangle.reads (mangle : Mangle) : Reads Mangle.reader mangle.toJson mangle := by
  refine reads_record _ (by decide) ?_
  rw [← List.append_nil (_ ++ _)]
  simp only [List.append_assoc]
  exact .needed (reads_text mangle.nameField) (.needed (reads_text mangle.flagField)
    (.shownTrue rfl (.shownTrue rfl .done)))

theorem Indicators.reads (indicators : Indicators) :
    Reads Indicators.reader indicators.toJson indicators := by
  refine reads_record _ (by decide) ?_
  rw [← List.append_nil (_ ++ _)]
  simp only [List.append_assoc]
  exact .shownTrue rfl (.shownTrue rfl (.shownSome Mangle.reads (fun _ => nofun) rfl .done))

theorem reads_texts (values : List String) :
    Reads (Json.list Json.text) (Json.texts values) values :=
  reads_list fun value _ => reads_text value

theorem Class.reads (cls : Class) : Reads Class.reader cls.toJson cls := by
  have fields : Reads (Json.list Field.reader) (.array (cls.fields.map (·.toJson))) cls.fields :=
    reads_list fun field _ => field.reads
  have params : Reads (Json.list Param.reader) (.array (cls.params.map (·.toJson))) cls.params :=
    reads_list fun param _ => param.reads
  have traversal : Reads (Json.list Slot.reader) (.array (cls.traversal.map (·.toJson)))
      cls.traversal := reads_list fun slot _ => slot.reads
  have rules : Reads (Json.list CloneRule.reader) (.array (cls.cloneRules.map (·.toJson)))
      cls.cloneRules := reads_list fun rule _ => rule.reads
  refine reads_record _ (by decide) ?_
  rw [← List.append_nil (_ ++ _)]
  simp only [List.append_assoc]
  refine .needed (reads_text cls.name) (.shownText rfl (.needed (reads_texts cls.chain)
    (.shownIf (fun _ => reads_texts cls.subclasses) ?_ (.needed fields (.needed params
      (.needed traversal (.needed rules (.spare cls.indicators.reads (.shownText rfl .done)))))))))
  intro hidden
  have none : cls.subclasses = [] := by simpa using hidden
  rw [none]
  rfl

end NodeModel.Model

namespace NodeModel

open Json

theorem Model.reads (model : Model) : Reads Model.reader model.toJson model := by
  have classes : Reads (Json.list Class.reader) (.array (model.classes.map (·.toJson)))
      model.classes := reads_list fun cls _ => cls.reads
  refine reads_record _ (by decide) ?_
  simp only [List.append_assoc]
  refine .shownText rfl (.shownIf (fun _ => reads_texts model.externals) ?_ (.needed classes .done))
  intro hidden
  have none : model.externals = [] := by simpa using hidden
  rw [none]

/-- The one file that is written for a model as a document, in lines and ended by a line feed, is
read back as the model, whatever the model holds. -/
theorem Model.document_readBack (model : Model) :
    ∃ content, Target.document.files model = [⟨"model.json",content⟩] ∧
      content = model.toJson.prettyText ++ "\n" ∧ Model.ofDocument content = .ok model := by
  refine ⟨_,rfl,rfl,?_⟩
  have read := model.reads.reads ['\n'] .nil (spells_pretty 0 model.toJson)
  rw [List.nil_append] at read
  simp only [ofDocument,Json.document,Model.document,prettyText,String.toList_append,
    String.toList_ofList,bind,Except.bind]
  rw [show "\n".toList = ['\n'] from rfl,read]
  rfl

end NodeModel
