import NodeModel.Proofs.Json.Reading
import NodeModel.Schema.Document

/-! Schemas and their documents. Each part of a schema is read back from what is written for it;
what is left out has the value that a record starts with. -/
namespace NodeModel

namespace Json

variable {α β : Type} {known : List (Member α)} {before after : α}
  {written : List (String × Json)} {name : String}

theorem Reads.map {read : Reader α} {json : Json} {value : α} (inner : Reads read json value)
    (wrap : α → β) :
    Reads (fun cs => do let (value,rest) ← read cs; .ok (wrap value,rest)) json (wrap value) where
  solid := inner.solid
  reads rest empty spelled := by simp only [inner.reads rest empty spelled,bind,Except.bind]

namespace Fills

/-- A member is left out where it would change nothing. -/
theorem shownIf {read : Reader β} {set : α → β → α} {shown : Bool} {json : Json} {value : β}
    (reads : shown = true → Reads read json value)
    (usual : shown = false → set before value = before)
    (more : Fills known (set before value) written after) :
    Fills (Json.spare name read set :: known) before
      (Json.shownIf shown name json ++ written) after := by
  cases shown with
  | true => exact .spare (reads rfl) more
  | false => exact .leave rfl (usual rfl ▸ more)

theorem shownTrue {set : α → Bool → α} {value : Bool} (usual : set before false = before)
    (more : Fills known (set before value) written after) :
    Fills (Json.spare name flag set :: known) before
      (Json.shownIf value name (.boolean true) ++ written) after := by
  refine shownIf (fun shown => ?_) (fun hidden => ?_) more
  · rw [shown]
    exact reads_flag true
  · rwa [hidden]

theorem shownFalse {set : α → Bool → α} {value : Bool} (usual : set before true = before)
    (more : Fills known (set before value) written after) :
    Fills (Json.spare name flag set :: known) before
      (Json.shownIf (!value) name (.boolean false) ++ written) after := by
  refine shownIf (fun shown => ?_) (fun hidden => ?_) more
  · have plain : value = false := by simpa using shown
    rw [plain]
    exact reads_flag false
  · have plain : value = true := by simpa using hidden
    rwa [plain]

theorem shownSome {read : Reader β} {set : α → Option β → α} {write : β → Json}
    {value : Option β} (reads : ∀ inner, Reads read (write inner) inner)
    (present : ∀ inner, write inner ≠ .null) (usual : set before none = before)
    (more : Fills known (set before value) written after) :
    Fills (Json.spare name (optional read) set :: known) before
      (Json.shownSome name write value ++ written) after := by
  cases value with
  | none => exact .leave rfl (usual ▸ more)
  | some inner => exact .spare ((reads inner).some (present inner)) more

theorem shownText {set : α → Option String → α} {value : Option String}
    (usual : set before none = before) (more : Fills known (set before value) written after) :
    Fills (Json.spare name (optional text) set :: known) before
      (Json.shownSome name .string value ++ written) after :=
  shownSome reads_text (fun _ => nofun) usual more

end Fills

end Json

open Json

theorem Primitive.reads (value : Primitive) : Reads Primitive.reader value.toJson value := by
  cases value with
  | text => exact reads_name rfl
  | flag => exact reads_name rfl
  | integer => exact reads_name rfl
  | external name => exact reads_variant rfl ((reads_text name).map Primitive.external)

theorem FieldKind.reads (kind : FieldKind) : Reads FieldKind.reader kind.toJson kind := by
  cases kind with
  | single target => exact reads_variant rfl ((reads_text target).map FieldKind.single)
  | list target => exact reads_variant rfl ((reads_text target).map FieldKind.list)
  | primitive value => exact reads_variant rfl (value.reads.map FieldKind.primitive)

theorem CopyMode.reads (mode : CopyMode) : Reads CopyMode.reader mode.toJson mode := by
  cases mode <;> exact reads_name rfl

theorem FieldPolicy.reads (policy : FieldPolicy) :
    Reads FieldPolicy.reader policy.toJson policy := by
  refine reads_record _ (by decide) ?_
  rw [← List.append_nil (_ ++ _)]
  simp only [List.append_assoc]
  exact .shownTrue rfl (.shownFalse rfl (.shownFalse rfl
    (.shownSome CopyMode.reads (fun _ => nofun) rfl .done)))

theorem FieldDecl.reads (field : FieldDecl) : Reads FieldDecl.reader field.toJson field := by
  refine reads_record _ (by decide) ?_
  rw [← List.append_nil (_ ++ _)]
  simp only [List.append_assoc]
  exact .needed (reads_text field.name) (.needed field.kind.reads (.spare field.policy.reads
    (.shownText rfl .done)))

theorem ManglePair.reads (pair : ManglePair) : Reads ManglePair.reader pair.toJson pair := by
  refine reads_record _ (by decide) ?_
  exact .needed (reads_text pair.nameField) (.needed (reads_text pair.flagField) .done)

theorem Indicators.reads (indicators : Indicators) :
    Reads Indicators.reader indicators.toJson indicators := by
  refine reads_record _ (by decide) ?_
  rw [← List.append_nil (_ ++ _)]
  simp only [List.append_assoc]
  exact .shownTrue rfl (.shownTrue rfl (.shownSome ManglePair.reads (fun _ => nofun) rfl .done))

theorem NodeDecl.reads (node : NodeDecl) : Reads NodeDecl.reader node.toJson node := by
  have fields : Reads (Json.list FieldDecl.reader) (.array (node.fields.map (·.toJson)))
      node.fields := reads_list fun field _ => field.reads
  refine reads_record _ (by decide) ?_
  rw [← List.append_nil (_ ++ _)]
  simp only [List.append_assoc]
  refine .needed (reads_text node.name) (.shownText rfl (.shownIf (fun _ => fields) ?noFields
    (.shownIf (fun _ => node.indicators.reads) ?noIndicators (.shownText rfl .done))))
  case noFields =>
    intro hidden
    have none : node.fields = [] := by simpa using hidden
    rw [none]
  case noIndicators =>
    intro hidden
    have none : node.indicators = {} := by simpa [Indicators.isEmpty] using hidden
    rw [none]

theorem Schema.reads (schema : Schema) : Reads Schema.reader schema.toJson schema := by
  have externals : Reads (Json.list Json.text) (Json.texts schema.externals) schema.externals :=
    reads_list fun name _ => reads_text name
  have nodes : Reads (Json.list NodeDecl.reader) (.array (schema.nodes.map (·.toJson)))
      schema.nodes := reads_list fun node _ => node.reads
  refine reads_record _ (by decide) ?_
  simp only [List.append_assoc]
  refine .shownText rfl (.shownIf (fun _ => externals) ?noExternals (.needed nodes .done))
  intro hidden
  have none : schema.externals = [] := by simpa using hidden
  rw [none]

/-- Every schema is read back from its document. -/
theorem Schema.ofDocument_document (schema : Schema) :
    Schema.ofDocument schema.document = .ok schema := by
  have read := schema.reads.reads [] .nil (spells_compact schema.toJson)
  rw [List.nil_append,List.append_nil] at read
  simp only [ofDocument,Json.document,Schema.document,compactText,String.toList_ofList,read,bind,
    Except.bind]
  rfl

end NodeModel
