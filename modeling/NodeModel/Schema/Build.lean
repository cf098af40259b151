import NodeModel.Schema.Basic

/-! Declarations built up step by step. A later step overrides an earlier one. -/
namespace NodeModel

namespace FieldDecl

def single (name target : String) : FieldDecl := { name, kind := .single target }

def list (name target : String) : FieldDecl := { name, kind := .list target }

def primitive (name : String) (value : Primitive) : FieldDecl := { name, kind := .primitive value }

def optional (field : FieldDecl) : FieldDecl :=
  { field with policy := { field.policy with optional := true } }

def deferred (field : FieldDecl) : FieldDecl :=
  { field with policy := { field.policy with bound := false } }

def hidden (field : FieldDecl) : FieldDecl :=
  { field with policy := { field.policy with visitable := false } }

def copying (field : FieldDecl) (mode : CopyMode) : FieldDecl :=
  { field with policy := { field.policy with copyMode := some mode } }

def documented (field : FieldDecl) (doc : String) : FieldDecl := { field with doc := some doc }

end FieldDecl

namespace NodeDecl

def extending (node : NodeDecl) (superclass : String) : NodeDecl :=
  { node with superclass := some superclass }

def withField (node : NodeDecl) (field : FieldDecl) : NodeDecl :=
  { node with fields := node.fields ++ [field] }

def generic (node : NodeDecl) : NodeDecl :=
  { node with indicators := { node.indicators with generic := true } }

def unique (node : NodeDecl) : NodeDecl :=
  { node with indicators := { node.indicators with unique := true } }

def mangled (node : NodeDecl) (pair : ManglePair) : NodeDecl :=
  { node with indicators := { node.indicators with mangle := some pair } }

def documented (node : NodeDecl) (doc : String) : NodeDecl := { node with doc := some doc }

end NodeDecl

end NodeModel
