import NodeModel.Model.Basic

/-! Classes of a model as text for a reader. -/
namespace NodeModel.Model

def CloneStep.label : CloneStep → String
  | .copyValue => "copy"
  | .cloneChild => "clone"
  | .cloneList => "clone_list"
  | .shareReference => "share"
  | .reset => "reset"
  | .externalCopy type => s!"external_copy({type})"

def Field.describe (field : Field) : String :=
  let optional := if field.policy.optional then "?" else ""
  let binding := if field.policy.bound then "ctor" else "deferred"
  let hidden := if field.policy.visitable then "" else " hidden"
  s!"    {field.name}: {field.kind.label}{optional} " ++
    s!"[{binding} {field.policy.copyMode.label}{hidden}] from {field.declaredIn}"

private def heading (cls : Class) : String :=
  let superclass := (cls.superclass.map fun name => s!" : {name}").getD ""
  let generic := if cls.indicators.generic then " #generic" else ""
  let unique := if cls.indicators.unique then " #unique" else ""
  let mangle := match cls.indicators.mangle with
    | some mangle => s!" #mangle({mangle.nameField}, {mangle.flagField})"
    | none => ""
  s!"class {cls.name}{superclass}{generic}{unique}{mangle}"

def Class.describe (cls : Class) : List String :=
  let commas (items : List String) : String := ", ".intercalate items
  let chain := " > ".intercalate cls.chain
  let params := commas (cls.params.map fun param =>
    param.field ++ if param.optional then "?" else "")
  let slots := commas (cls.traversal.map fun slot => slot.field ++ if slot.list then "[]" else "")
  let steps := commas (cls.cloneRules.map fun rule => s!"{rule.field}={rule.step.label}")
  [heading cls, s!"  chain: {chain}", "  fields:"] ++
  cls.fields.map (·.describe) ++
  [s!"  constructor: ({params})", s!"  traversal: {slots}", s!"  clone: {steps}"]

end NodeModel.Model
