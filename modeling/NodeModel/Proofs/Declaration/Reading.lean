import NodeModel.Proofs.Declaration.HeaderLine
import NodeModel.Proofs.Schema.Externals

/-! Canonical texts are read line by line: what each block of lines adds to the state, and with it
the schema that the whole text is read as. -/
namespace NodeModel.Declaration

open Text

structure LineText (text : List Char) : Prop where
  feed : '\n' ∉ text
  last : ∀ c ∈ text.getLast?, isBlank c = false
  some : trim text ≠ []
  noComment : isComment (trim text) = false

theorem LineText.of_tight {text : List Char} (tight : Tight text) (some : text ≠ [])
    (feed : '\n' ∉ text) (noComment : isComment text = false) : LineText text :=
  ⟨feed,tight.last,tight.trim_eq.symm ▸ some,tight.trim_eq.symm ▸ noComment⟩

theorem trim_indent (text : List Char) : trim (indent ++ text) = trim text :=
  trim_append_of_blanks (List.all_iff_forall_prop.mp (by decide))

theorem LineText.indented {text : List Char} (ok : LineText text) : LineText (indent ++ text) := by
  have any : text ≠ [] := fun empty => ok.some (by rw [empty]; rfl)
  refine ⟨?_,?_,(trim_indent text).symm ▸ ok.some,(trim_indent text).symm ▸ ok.noComment⟩
  · simpa [indent] using ok.feed
  · rw [List.getLast?_append_of_ne_nil _ any]
    exact ok.last

theorem significantLines_texts (cs : List Char) :
    (significantLines cs).map Line.text =
      ((lines cs).map trim).filter fun text => !(text.isEmpty || isComment text) := by
  unfold significantLines
  generalize lines cs = texts
  generalize 1 = first
  induction texts generalizing first with
  | nil => rfl
  | cons text texts ih =>
    simp only [List.zipIdx_cons,List.filterMap_cons,List.map_cons,List.filter_cons]
    cases skipped : (trim text).isEmpty || isComment (trim text) with
    | true => simpa using ih _
    | false => simpa using ih _

theorem significantLines_ended {texts : List (List Char)} (each : ∀ text ∈ texts, LineText text) :
    (significantLines (texts.flatMap (· ++ ['\n']))).map Line.text = texts.map trim := by
  rw [significantLines_texts,lines_ended texts fun text member => (each text member).feed]
  · refine List.filter_eq_self.mpr fun text member => ?_
    obtain ⟨text,inside,rfl⟩ := List.mem_map.mp member
    simp [(each text inside).some,(each text inside).noComment]
  · rintro text member c found rfl
    exact absurd ((each text member).last _ found) (by decide)

/-- Lines with these texts, whatever their numbers, take one state to the other. -/
structure Reads (texts : List (List Char)) (before after : State) : Prop where
  lineTexts : ∀ text ∈ texts, LineText text
  run : ∀ lines : List Line, lines.map Line.text = texts.map trim →
    lines.foldlM State.step before = .ok after

variable {texts more : List (List Char)} {before middle after : State}

theorem Reads.nil (state : State) : Reads [] state state where
  lineTexts := by simp
  run lines none := by
    obtain rfl : lines = [] := by simpa using none
    rfl

theorem Reads.cons {text : List Char} (ok : LineText text)
    (next : ∀ number, ∃ middle, before.step ⟨number,trim text⟩ = .ok middle ∧
      Reads texts middle after) : Reads (text :: texts) before after where
  lineTexts := by
    obtain ⟨_,_,rest⟩ := next 0
    exact List.forall_mem_cons.mpr ⟨ok,rest.lineTexts⟩
  run lines same := by
    obtain ⟨line,rest,rfl,first,later⟩ := List.map_eq_cons_iff.mp same
    obtain ⟨middle,step,reads⟩ := next line.number
    rw [List.foldlM_cons,show line = ⟨line.number,trim text⟩ from first ▸ rfl,step]
    exact reads.run rest later

theorem Reads.append (left : Reads texts before middle) (right : Reads more middle after) :
    Reads (texts ++ more) before after where
  lineTexts := List.forall_mem_append.mpr ⟨left.lineTexts,right.lineTexts⟩
  run lines same := by
    rw [List.map_append] at same
    obtain ⟨first,rest,rfl,same,same'⟩ := List.map_eq_append_iff.mp same
    rw [List.foldlM_append,left.run first same]
    exact right.run rest same'

theorem Reads.indented (reads : Reads texts before after) :
    Reads (texts.map (indent ++ ·)) before after where
  lineTexts text member := by
    obtain ⟨text,inside,rfl⟩ := List.mem_map.mp member
    exact (reads.lineTexts text inside).indented
  run lines same := reads.run lines (by
    rw [same,List.map_map]
    exact List.map_congr_left fun text _ => trim_indent text)

theorem docText_tight {line : List Char} (tight : Tight line) : Tight (docText line) := by
  unfold docText
  split
  · exact .of_ends (by decide)
  next some =>
    have slashes : Tight "///".toList := .of_ends (by decide)
    have whole : Tight ("///".toList ++ [' '] ++ line) :=
      slashes.join tight (by decide) (by simpa using some)
    simpa using whole

theorem docText_eq (line : List Char) : ∃ rest, docText line = "///".toList ++ rest ∧
    (Tight line → trim rest = line) := by
  unfold docText
  split
  next none => exact ⟨[],rfl,fun _ => by rw [List.isEmpty_iff.mp none]; rfl⟩
  next => exact ⟨' ' :: line,rfl,fun tight => (trim_cons_blank rfl).trans tight.trim_eq⟩

theorem docText_lineText {line : List Char} (tight : Tight line) (feed : '\n' ∉ line) :
    LineText (docText line) := by
  obtain ⟨rest,same,_⟩ := docText_eq line
  refine .of_tight (docText_tight tight) (by simp [same]) ?_ (by rw [same]; rfl)
  unfold docText
  split
  · decide
  · simpa using feed

/-- Inside and outside of nodes documentation is collected alike. -/
theorem step_docText {line : List Char} (tight : Tight line) (state : State) (number : Nat) :
    state.step ⟨number,docText line⟩ =
      .ok { state with doc := state.doc ++ [String.ofList line] } := by
  obtain ⟨rest,same,trimmed⟩ := docText_eq line
  have doc : state.addDoc rest = { state with doc := state.doc ++ [String.ofList line] } := by
    rw [State.addDoc,trimmed tight]
  have strip : stripStart "///".toList (docText line) = some rest := same ▸ stripStart_append _ _
  have noBrace : docText line ≠ ['\x7d'] := by simp [same]
  unfold State.step
  split
  · simp only [State.readInside,if_neg noBrace,strip,doc]
    rfl
  · simp only [State.readOutside,strip,doc]
    rfl

theorem reads_docTexts (docLines : List (List Char))
    (each : ∀ line ∈ docLines, Tight line ∧ '\n' ∉ line) (state : State) :
    Reads (docLines.map docText) state
      { state with doc := state.doc ++ docLines.map String.ofList } := by
  induction docLines generalizing state with
  | nil => simpa using Reads.nil state
  | cons line docLines ih =>
    obtain ⟨tight,feed⟩ := each line List.mem_cons_self
    refine .cons (docText_lineText tight feed) fun number =>
      ⟨_,(docText_tight tight).trim_eq.symm ▸ step_docText tight state number,?_⟩
    simpa using ih (fun other member => each other (List.mem_cons_of_mem _ member))
      { state with doc := state.doc ++ [String.ofList line] }

theorem docLines_tight {doc : Option String} (documented : Documented doc) :
    ∀ line ∈ docLines doc, Tight line ∧ '\n' ∉ line := by
  intro line member
  cases doc with
  | none => cases member
  | some doc =>
    obtain ⟨source,rfl,each⟩ := documented doc rfl
    by_cases any : source = []
    · subst any
      obtain rfl : line = [] := by simpa [docLines,pieces] using member
      exact ⟨⟨by simp,by simp⟩,by simp⟩
    · have split : docLines (some ("\n".intercalate source)) = source.map String.toList := by
        rw [docLines,String.toList_intercalate]
        refine pieces_intercalate _ (by simpa using any) (fun part listed c inside => ?_) rfl
        obtain ⟨text,inSource,rfl⟩ := List.mem_map.mp listed
        exact beq_eq_false_iff_ne.mpr fun same => (each text inSource).2 (same ▸ inside)
      rw [split] at member
      obtain ⟨text,inSource,rfl⟩ := List.mem_map.mp member
      exact ⟨trim_eq_self_iff.mp (each text inSource).1,(each text inSource).2⟩

theorem reads_docs {doc : Option String} (documented : Documented doc) (schema : Schema)
    (opened : Option OpenNode) :
    Reads (docTexts doc) ⟨schema,[],opened⟩
      ⟨schema,(docLines doc).map String.ofList,opened⟩ :=
  reads_docTexts _ (docLines_tight documented) ⟨schema,[],opened⟩

theorem pendingDoc_docLines (doc : Option String) (schema : Schema) (opened : Option OpenNode) :
    State.pendingDoc ⟨schema,(docLines doc).map String.ofList,opened⟩ = doc := by
  cases doc with
  | none => rfl
  | some doc =>
    have whole : "\n".intercalate ((pieces (· == '\n') doc.toList).map String.ofList) = doc := by
      apply String.toList_inj.mp
      simpa [String.toList_intercalate,Function.comp_def] using intercalate_pieces '\n' doc.toList
    simp [State.pendingDoc,docLines,pieces_ne_nil,whole]

/-- A line that starts with a name is no documentation, no comment and no brace. -/
theorem starts_with_name {cs rest : List Char} (name : Name cs) :
    stripStart "///".toList (cs ++ rest) = none ∧ cs ++ rest ≠ ['\x7d'] ∧
      isComment (cs ++ rest) = false := by
  obtain ⟨c,more,rfl⟩ := List.exists_cons_of_ne_nil name.ne_nil
  have word := name.wordChars c List.mem_cons_self
  have noSlash : c ≠ '/' := fun same => absurd (same ▸ word) (by decide)
  have noBrace : c ≠ '\x7d' := fun same => absurd (same ▸ word) (by decide)
  refine ⟨by simp [stripStart,Ne.symm noSlash],by simp [noBrace],?_⟩
  unfold isComment
  split <;> simp_all

theorem reads_field {field : FieldDecl} (ok : field.Expressible []) (schema : Schema)
    (opened : OpenNode) :
    Reads (NodeDecl.fieldTexts field) ⟨schema,[],some opened⟩
      ⟨schema,[],some { opened with
        node := { opened.node with fields := opened.node.fields ++ [field] } }⟩ := by
  obtain ⟨noDoc,noBrace,noComment⟩ : stripStart "///".toList field.text = none ∧
      field.text ≠ ['\x7d'] ∧ isComment field.text = false :=
    text_eq_parts field ▸ starts_with_name ok.name.name
  have feed : '\n' ∉ field.text := fun member =>
    (fieldText_chars ok _ member).elim (absurd · (by decide)) (absurd · (by decide))
  have tight := fieldText_tight ok
  refine Reads.indented ((reads_docs ok.doc schema _).append (.cons ?_ fun number =>
    ⟨_,?_,.nil _⟩))
  · exact .of_tight tight (by simp [text_eq_parts]) feed noComment
  · simp only [tight.trim_eq,State.step,State.readInside,if_neg noBrace,noDoc,pendingDoc_docLines,
      readField_text ok]
    rfl

theorem reads_fields (fields : List FieldDecl) (each : ∀ field ∈ fields, field.Expressible [])
    (schema : Schema) (opened : OpenNode) :
    Reads (fields.flatMap NodeDecl.fieldTexts) ⟨schema,[],some opened⟩
      ⟨schema,[],some { opened with
        node := { opened.node with fields := opened.node.fields ++ fields } }⟩ := by
  induction fields generalizing opened with
  | nil => simpa using Reads.nil _
  | cons field fields ih =>
    rw [List.flatMap_cons]
    refine (reads_field (each field List.mem_cons_self) schema opened).append ?_
    simpa using ih (fun other member => each other (List.mem_cons_of_mem _ member))
      { opened with node := { opened.node with fields := opened.node.fields ++ [field] } }

theorem splitKeyword_append {word rest : List Char} (free : ∀ c ∈ word, isBlank c = false)
    (tight : Tight rest) : splitKeyword (word ++ ' ' :: rest) = (word,rest) := by
  have solid : ∀ c ∈ word, (!isBlank c) = true := fun c member => by simp [free c member]
  have blank : isBlank ' ' = true := rfl
  rw [splitKeyword,List.takeWhile_append_of_pos solid,List.dropWhile_append_of_pos solid]
  simp [blank,trim_cons_blank,tight.trim_eq]

structure KeywordLine (word : String) (rest : List Char) : Prop where
  lineText : LineText (keywordText word rest)
  trimmed : trim (keywordText word rest) = keywordText word rest
  noDoc : stripStart "///".toList (keywordText word rest) = none
  split : splitKeyword (keywordText word rest) = (word.toList,rest)

theorem KeywordLine.of_tight {word : String} (name : IsName word) {rest : List Char}
    (tight : Tight rest) (some : rest ≠ []) (feed : '\n' ∉ rest) : KeywordLine word rest := by
  have chars := name.name
  obtain ⟨noDoc,_,noComment⟩ : stripStart "///".toList (keywordText word rest) = none ∧
      keywordText word rest ≠ ['\x7d'] ∧ isComment (keywordText word rest) = false :=
    starts_with_name chars
  have whole : Tight (keywordText word rest) := by
    have joined : Tight (word.toList ++ [' '] ++ rest) := chars.tight.join tight chars.ne_nil some
    simpa [keywordText] using joined
  have noFeed : '\n' ∉ keywordText word rest := by
    simpa [keywordText,feed] using chars.free rfl
  exact ⟨.of_tight whole (by simp [keywordText]) noFeed noComment,whole.trim_eq,noDoc,
    splitKeyword_append chars.not_blank tight⟩

theorem reads_rootLine {state : State} {name : String} (ok : IsName name)
    (outside : state.opened = none) (fresh : state.schema.root = none) :
    Reads (Schema.rootTexts (some name)) state
      { state with schema := { state.schema with root := some name }, doc := [] } := by
  have named : isIdentifier name.toList = true := ok
  have chars := ok.name
  have line : KeywordLine "root" name.toList :=
    .of_tight (show isIdentifier "root".toList = true by decide) chars.tight chars.ne_nil
      (chars.free rfl)
  refine .cons line.lineText fun number => ⟨_,?_,.nil _⟩
  simp only [State.step,outside,State.readOutside,line.trimmed,line.noDoc,line.split,
    String.ofList_toList,State.readRoot,named,fresh]
  rfl

theorem reads_root (root : Option String) (ok : ∀ name, root = some name → IsName name) :
    Reads (Schema.rootTexts root) {} { schema := { root := root } } := by
  cases root with
  | none => exact .nil _
  | some name => exact reads_rootLine (ok name rfl) rfl rfl

theorem nameList_tight {names : List String} (some : names ≠ [])
    (each : ∀ name ∈ names, IsName name) : nameList names ≠ [] ∧ Tight (nameList names) := by
  induction names with
  | nil => exact absurd rfl some
  | cons name names ih =>
    have first := (each name List.mem_cons_self).name
    cases names with
    | nil => simpa only [nameList,List.map_cons,List.map_nil,List.intercalate_singleton] using
        ⟨first.ne_nil,first.tight⟩
    | cons next names =>
      obtain ⟨any,tight⟩ := ih (by simp) fun other member =>
        each other (List.mem_cons_of_mem _ member)
      have parts : nameList (name :: next :: names) =
          name.toList ++ ", ".toList ++ nameList (next :: names) := by
        simp [nameList,List.intercalate_cons_cons]
      rw [parts]
      exact ⟨by simp,first.tight.join tight first.ne_nil any⟩

theorem readExternals_nameList {names : List String} (some : names ≠ [])
    (each : ∀ name ∈ names, IsName name) (state : State) :
    state.readExternals (nameList names) = .ok { state with
      schema := { state.schema with externals := mergeNames state.schema.externals names }
      doc := [] } := by
  have valid : (names.map String.toList).find? (!isIdentifier ·) = none := by
    refine List.find?_eq_none.mpr fun text member => ?_
    obtain ⟨other,inside,rfl⟩ := List.mem_map.mp member
    simpa [IsName] using each other inside
  have same : (names.map String.toList).map String.ofList = names := by simp [Function.comp_def]
  unfold State.readExternals
  rw [commaList_nameList some each]
  split
  next empty => exact absurd (by simpa using empty) some
  next => simp only [valid,same]

theorem reads_externalsLine {state : State} {names : List String} (some : names ≠ [])
    (each : ∀ name ∈ names, IsName name) (outside : state.opened = none) :
    Reads (Schema.externalTexts names) state { state with
      schema := { state.schema with externals := mergeNames state.schema.externals names }
      doc := [] } := by
  obtain ⟨any,tight⟩ := nameList_tight some each
  have feed : '\n' ∉ nameList names := fun member =>
    (nameList_chars each _ member).elim (absurd · (by decide)) (absurd · (by decide))
  have line : KeywordLine "extern" (nameList names) :=
    .of_tight (show isIdentifier "extern".toList = true by decide) tight any feed
  have texts : Schema.externalTexts names = [keywordText "extern" (nameList names)] := by
    cases names with
    | nil => exact absurd rfl some
    | cons => rfl
  rw [texts]
  refine .cons line.lineText fun number => ⟨_,?_,.nil _⟩
  simp only [State.step,outside,State.readOutside,line.trimmed,line.noDoc,line.split,
    String.ofList_toList,readExternals_nameList some each state]
  rfl

theorem reads_externals {schema : Schema} (fresh : schema.externals = []) (names : List String)
    (each : ∀ name ∈ names, IsName name) (distinct : names.Nodup) :
    Reads (Schema.externalTexts names) { schema := schema }
      { schema := { schema with externals := names } } := by
  cases names with
  | nil =>
    obtain ⟨root,externals,nodes⟩ := schema
    subst fresh
    exact .nil _
  | cons name names =>
    have merged : mergeNames schema.externals (name :: names) = name :: names := by
      simp [mergeNames_eq_filter _ distinct,fresh]
    have line : Reads (Schema.externalTexts (name :: names)) { schema := schema } _ :=
      reads_externalsLine (List.cons_ne_nil name names) each rfl
    rwa [merged] at line

theorem reads_node {node : NodeDecl} (ok : node.Expressible []) (schema : Schema) :
    Reads node.texts { schema := schema }
      { schema := { schema with nodes := schema.nodes ++ [node] } } := by
  have line : KeywordLine "node" (node.headText ++ [' ','\x7b']) := by
    have tight : Tight (node.headText ++ [' '] ++ ['\x7b']) :=
      (headText_tight ok).join (.of_ends (by decide)) (headText_ne_nil ok) (by decide)
    refine .of_tight (show isIdentifier "node".toList = true by decide) (by simpa using tight)
      (by simp) fun member => ?_
    rcases List.mem_append.mp member with inside | brace
    · exact (headText_chars ok _ inside).elim (absurd · (by decide)) (absurd · (by decide))
    · exact absurd brace (by decide)
  have inside (number : Nat) : Reads (node.fields.flatMap NodeDecl.fieldTexts ++ [['\x7d']])
      ⟨schema,[],some ⟨number,{ node with fields := [] }⟩⟩
      { schema := { schema with nodes := schema.nodes ++ [node] } } := by
    refine (reads_fields node.fields ok.fields schema _).append
      (.cons ?_ fun number => ⟨_,?_,.nil _⟩)
    · exact .of_tight (.of_ends (by decide)) (by decide) (by decide) rfl
    · rfl
  rw [NodeDecl.texts,List.append_assoc,List.append_assoc]
  refine (reads_docs ok.doc schema none).append (.cons line.lineText fun number =>
    ⟨_,?_,inside number⟩)
  simp only [State.step,State.readOutside,line.trimmed,line.noDoc,line.split,
      String.ofList_toList,State.readNode,pendingDoc_docLines,readHeader_text ok]
  rfl

theorem reads_nodes (nodes : List NodeDecl) (each : ∀ node ∈ nodes, node.Expressible [])
    (schema : Schema) :
    Reads (nodes.flatMap NodeDecl.texts) { schema := schema }
      { schema := { schema with nodes := schema.nodes ++ nodes } } := by
  induction nodes generalizing schema with
  | nil => simpa using Reads.nil _
  | cons node nodes ih =>
    rw [List.flatMap_cons]
    refine (reads_node (each node List.mem_cons_self) schema).append ?_
    simpa using ih (fun other member => each other (List.mem_cons_of_mem _ member))
      { schema with nodes := schema.nodes ++ [node] }

@[simp] theorem texts_untagged (node : NodeDecl) : node.untagged.texts = node.texts := by
  have field (field : FieldDecl) :
      NodeDecl.fieldTexts field.untagged = NodeDecl.fieldTexts field := by
    simp only [NodeDecl.fieldTexts,FieldDecl.text,FieldDecl.typeText,FieldDecl.untagged,
      FieldKind.untagged_written]
    rfl
  simp [NodeDecl.texts,NodeDecl.untagged,NodeDecl.headText,NodeDecl.namesText,List.flatMap_map,
    field]

/-- Before externals are told apart, the canonical text is read as the schema without tags. -/
theorem reads_schema {schema : Schema} (ok : schema.Expressible) :
    Reads schema.texts {}
      { schema := { schema with nodes := schema.nodes.map NodeDecl.untagged } } := by
  have nodes : ∀ node ∈ schema.nodes.map NodeDecl.untagged, node.Expressible [] := by
    intro node member
    obtain ⟨node,inside,rfl⟩ := List.mem_map.mp member
    exact (ok.nodes node inside).untagged.1
  have parts := ((reads_root schema.root ok.root).append (reads_externals rfl schema.externals
    ok.externals ok.distinct)).append (reads_nodes _ nodes _)
  simpa [Schema.texts,List.flatMap_map] using parts

end NodeModel.Declaration

namespace NodeModel

open Declaration

theorem Schema.Expressible.tagged_untagged {schema : Schema} (ok : schema.Expressible) :
    Schema.tagged { schema with nodes := schema.nodes.map NodeDecl.untagged } = schema := by
  have nodes : (schema.nodes.map NodeDecl.untagged).map (NodeDecl.tagged schema.externals) =
      schema.nodes := by
    rw [List.map_map]
    exact (List.map_congr_left fun node member => (ok.nodes node member).untagged.2).trans
      (List.map_id _)
  simp [Schema.tagged,nodes]

/-- The canonical text of a schema is read as the schema. -/
theorem Schema.Expressible.ofText_toText {schema : Schema} (ok : schema.Expressible) :
    Schema.ofText schema.toText = .ok schema := by
  have reads := reads_schema ok
  rw [Schema.ofText,Schema.toText,String.toList_ofList,readLines,
    reads.run _ (significantLines_ended reads.lineTexts)]
  exact congrArg Except.ok ok.tagged_untagged

end NodeModel
