import Apex.Proofs.Nesting.Refinement

/-!
# Statements and declarations that agree except for their depth

The grammar of statements and declarations keeps refinement. The two places that look ahead, the
start of a local declaration and the parenthesis of a `for`, keep it because the way of looking
ahead is part of what is refined.
-/

namespace Apex.Grammar

open Apex.Parser Apex.Parser.Refines

variable {stop : ParseError → Bool} {D D' : Deeper}

/-! ## Blocks and variables -/

theorem blockItem_refines (h : D.Refines stop D') :
    Refines stop (blockItem D) (blockItem D') :=
  bind (refl _) fun _ => check fun _ => h.statement

theorem block_refines (h : D.Refines stop D') : Refines stop (block D) (block D') :=
  bind (refl _) fun _ => bind (itemsUntil _ (blockItem_refines h)) fun _ => refl _

theorem declaratorFrom_refines (h : D.Refines stop D') (name : Ident) :
    Refines stop (declaratorFrom D name) (declaratorFrom D' name) := by
  refine bind (refl _) fun initialized => ?_
  exact iteBind (map _ h.assignment) (refl _) fun value => refl _

theorem declarator_refines (h : D.Refines stop D') :
    Refines stop (declarator D) (declarator D') :=
  bind (refl _) fun name => declaratorFrom_refines h name

theorem declarators_refines (h : D.Refines stop D') (first : Ident) :
    Refines stop (declarators D first) (declarators D' first) :=
  bind (declaratorFrom_refines h first) fun first =>
    commaSeparatedFrom first (declarator_refines h)

theorem localVariables_refines (h : D.Refines stop D') :
    Refines stop (localVariables D) (localVariables D') := by
  refine bind (refl _) fun modifiers => bind (typeRef_refines h.typeRef) fun type => ?_
  exact bind (refl _) fun name => bind (declarators_refines h name) fun declarators => refl _

theorem localVariablesAhead_refines (h : D.Refines stop D') :
    Refines stop (localVariablesAhead D) (localVariablesAhead D') := by
  refine bind (refl _) fun next => ?_
  split
  · exact refl _
  · exact h.ahead _ fun h => bind (typeRef_refines h) fun _ => refl _
  · exact refl _

/-! ## Conditions and loops -/

theorem ifLink_refines (h : D.Refines stop D') (start : Span) :
    Refines stop (ifLink D start) (ifLink D' start) :=
  bind (parenthesized_refines h) fun _ => bind h.statement fun _ => refl _

theorem elseChain_refines (h : D.Refines stop D') : Refines stop (elseChain D) (elseChain D') := by
  refine iterate (fun links => ?_) []
  refine bind (refl _) fun otherwise => ite ?_ (refl _)
  refine bind (refl _) fun again => ite ?_ (bind h.statement fun last => refl _)
  exact bind (refl _) fun start => bind (ifLink_refines h _) fun link => refl _

theorem ifStatement_refines (h : D.Refines stop D') :
    Refines stop (ifStatement D) (ifStatement D') := by
  refine bind (refl _) fun start => bind (ifLink_refines h start) fun first => ?_
  exact bind (elseChain_refines h) fun chain => refl _

theorem whileStatement_refines (h : D.Refines stop D') :
    Refines stop (whileStatement D) (whileStatement D') := by
  refine bind (refl _) fun start => bind (parenthesized_refines h) fun condition => ?_
  exact bind h.statement fun body => refl _

theorem doStatement_refines (h : D.Refines stop D') :
    Refines stop (doStatement D) (doStatement D') := by
  refine bind (refl _) fun start => bind (block_refines h) fun body => bind (refl _) fun _ => ?_
  exact bind (parenthesized_refines h) fun condition => refl _

theorem forEachAhead_refines (h : D.Refines stop D') :
    Refines stop (forEachAhead D) (forEachAhead D') :=
  h.ahead _ fun h => bind (refl _) fun _ => bind (typeRef_refines h) fun _ => refl _

theorem forEachRest_refines (h : D.Refines stop D') (start : Span) :
    Refines stop (forEachRest D start) (forEachRest D' start) := by
  refine bind (refl _) fun modifiers => bind (typeRef_refines h.typeRef) fun type => ?_
  refine bind (refl _) fun name => bind (refl _) fun _ => bind h.assignment fun items => ?_
  exact bind (refl _) fun _ => bind h.statement fun body => refl _

theorem forInit_refines (h : D.Refines stop D') : Refines stop (forInit D) (forInit D') := by
  refine bind (refl _) fun empty => ite (refl _) ?_
  refine bind (localVariablesAhead_refines h) fun declares => ?_
  refine ite ?_ (bind (expressions_refines h) fun inits => refl _)
  exact bind (refl _) fun start => bind (localVariables_refines h) fun locals => refl _

theorem forLoopRest_refines (h : D.Refines stop D') (start : Span) :
    Refines stop (forLoopRest D start) (forLoopRest D' start) := by
  refine bind (forInit_refines h) fun init => bind (refl _) fun _ => ?_
  refine bind (optionalExpression_refines h) fun condition => bind (refl _) fun _ => ?_
  refine bind (expressionsBefore_refines h _) fun update => bind (refl _) fun _ => ?_
  exact bind h.statement fun body => refl _

theorem forStatement_refines (h : D.Refines stop D') :
    Refines stop (forStatement D) (forStatement D') := by
  refine bind (refl _) fun start => bind (refl _) fun _ => ?_
  refine bind (forEachAhead_refines h) fun each => ?_
  exact ite (forEachRest_refines h start) (forLoopRest_refines h start)

/-! ## Exceptions -/

theorem catchClause?_refines (h : D.Refines stop D') :
    Refines stop (catchClause? D) (catchClause? D') := by
  refine bind (refl _) fun start => bind (refl _) fun caught => ite ?_ (refl _)
  refine bind (refl _) fun _ => bind (refl _) fun modifiers => ?_
  refine bind (typeRef_refines h.typeRef) fun type => bind (refl _) fun name => bind (refl _) fun _ => ?_
  exact bind (block_refines h) fun body => refl _

theorem tryStatement_refines (h : D.Refines stop D') :
    Refines stop (tryStatement D) (tryStatement D') := by
  refine bind (refl _) fun start => bind (block_refines h) fun body => ?_
  refine bind (itemsWhile (catchClause?_refines h)) fun catches => bind (refl _) fun finally? => ?_
  exact ite (bind (block_refines h) fun last => refl _) (refl _)

/-! ## Simple statements -/

theorem returnStatement_refines (h : D.Refines stop D') :
    Refines stop (returnStatement D) (returnStatement D') :=
  bind (refl _) fun _ => bind (optionalExpression_refines h) fun _ => refl _

theorem throwStatement_refines (h : D.Refines stop D') :
    Refines stop (throwStatement D) (throwStatement D') :=
  bind (refl _) fun _ => bind h.assignment fun _ => refl _

theorem dmlStatement_refines (h : D.Refines stop D') (k : Keyword) (op : DmlOp) :
    Refines stop (dmlStatement D k op) (dmlStatement D' k op) :=
  bind (refl _) fun _ => bind h.assignment fun _ => refl _

theorem upsertStatement_refines (h : D.Refines stop D') :
    Refines stop (upsertStatement D) (upsertStatement D') :=
  bind (refl _) fun _ => bind h.assignment fun _ => refl _

theorem mergeStatement_refines (h : D.Refines stop D') :
    Refines stop (mergeStatement D) (mergeStatement D') := by
  refine bind (refl _) fun start => bind h.assignment fun master => ?_
  exact bind h.assignment fun duplicate => refl _

theorem runAsStatement_refines (h : D.Refines stop D') :
    Refines stop (runAsStatement D) (runAsStatement D') := by
  refine bind (refl _) fun start => bind (refl _) fun _ => bind (refl _) fun _ => ?_
  exact bind (parenthesized_refines h) fun user => bind (block_refines h) fun body => refl _

theorem variablesStatement_refines (h : D.Refines stop D') :
    Refines stop (variablesStatement D) (variablesStatement D') :=
  bind (refl _) fun _ => bind (localVariables_refines h) fun _ => refl _

theorem expressionStatement_refines (h : D.Refines stop D') :
    Refines stop (expressionStatement D) (expressionStatement D') :=
  bind (refl _) fun _ => bind h.assignment fun _ => refl _

theorem plainStatement_refines (h : D.Refines stop D') :
    Refines stop (plainStatement D) (plainStatement D') := by
  refine bind (refl _) fun opened => ite (bind (block_refines h) fun body => refl _) ?_
  refine bind (refl _) fun empty => ite (refl _) ?_
  refine bind (refl _) fun c => ite (runAsStatement_refines h) ?_
  refine bind (localVariablesAhead_refines h) fun declares => ?_
  exact ite (variablesStatement_refines h) (expressionStatement_refines h)

theorem statement_refines (h : D.Refines stop D') : Refines stop (statement D) (statement D') := by
  refine bind (refl _) fun next => ?_
  split
  · exact ifStatement_refines h
  · exact whileStatement_refines h
  · exact doStatement_refines h
  · exact forStatement_refines h
  · exact tryStatement_refines h
  · exact returnStatement_refines h
  · exact throwStatement_refines h
  · exact refl _
  · exact refl _
  · exact dmlStatement_refines h _ _
  · exact dmlStatement_refines h _ _
  · exact dmlStatement_refines h _ _
  · exact dmlStatement_refines h _ _
  · exact upsertStatement_refines h
  · exact mergeStatement_refines h
  · exact plainStatement_refines h

/-! ## Members -/

theorem parameter_refines (h : D.Refines stop D') : Refines stop (parameter D) (parameter D') := by
  refine bind (refl _) fun start => bind (refl _) fun modifiers => ?_
  exact bind (typeRef_refines h.typeRef) fun type => refl _

theorem parameterList_refines (h : D.Refines stop D') :
    Refines stop (parameterList D) (parameterList D') :=
  bind (refl _) fun _ => ite (refl _) (commaSeparated (parameter_refines h))

theorem parameters_refines (h : D.Refines stop D') :
    Refines stop (parameters D) (parameters D') :=
  bind (refl _) fun _ => bind (parameterList_refines h) fun _ => refl _

theorem methodBody_refines (h : D.Refines stop D') : Refines stop (methodBody D) (methodBody D') :=
  bind (refl _) fun _ => ite (bind (block_refines h) fun _ => refl _) (refl _)

theorem methodRest_refines (h : D.Refines stop D') (header : Header) (returnType : Option TypeRef)
    {body body' : Parser (Option Block)} (hb : Refines stop body body') :
    Refines stop (methodRest D header returnType body) (methodRest D' header returnType body') := by
  refine bind (refl _) fun name => bind (parameters_refines h) fun parameters => ?_
  exact bind hb fun body => refl _

theorem returnType_refines (h : D.Refines stop D') : Refines stop (returnType D) (returnType D') :=
  bind (refl _) fun _ => ite (refl _) (bind (typeRef_refines h.typeRef) fun _ => refl _)

theorem constructorRest_refines (h : D.Refines stop D') (header : Header) :
    Refines stop (constructorRest D header) (constructorRest D' header) := by
  refine bind (refl _) fun name => bind (parameters_refines h) fun parameters => ?_
  exact bind (block_refines h) fun body => refl _

theorem accessorBody_refines (h : D.Refines stop D') :
    Refines stop (accessorBody D) (accessorBody D') := by
  refine bind (refl _) fun bodiless => ite (refl _) (bind (refl _) fun opened => ?_)
  exact ite (bind (block_refines h) fun body => refl _) (refl _)

theorem accessor_refines (h : D.Refines stop D') (earlier : List Accessor) :
    Refines stop (accessor D earlier) (accessor D' earlier) := by
  refine bind (refl _) fun start => bind (refl _) fun modifiers => bind (refl _) fun kind => ?_
  refine check fun _ => bind (refl _) fun _ => ?_
  exact bind (accessorBody_refines h) fun body => refl _

theorem accessors_refines (h : D.Refines stop D') : Refines stop (accessors D) (accessors D') := by
  refine iterate (fun read => ?_) []
  refine bind (refl _) fun closed => ?_
  exact ite (refl _) (bind (accessor_refines h read) fun accessor => refl _)

theorem propertyRest_refines (h : D.Refines stop D') (header : Header) (type : TypeRef) (name : Ident) :
    Refines stop (propertyRest D header type name) (propertyRest D' header type name) :=
  bind (refl _) fun _ => bind (accessors_refines h) fun _ => refl _

theorem initializerRest_refines (h : D.Refines stop D') (header : Header) :
    Refines stop (initializerRest D header) (initializerRest D' header) := by
  unfold initializerRest
  refine check fun _ => ?_
  exact bind (block_refines h) fun body => refl _

theorem variableMember_refines (h : D.Refines stop D') (header : Header) (start : Span) (type : TypeRef)
    (name : Ident) :
    Refines stop (variableMember D header start type name)
      (variableMember D' header start type name) := by
  refine bind (refl _) fun next => ?_
  split
  · exact bind (propertyRest_refines h header type name) fun property => refl _
  all_goals first
    | exact bind (declarators_refines h name) fun declarators => refl _
    | exact refl _

theorem typedMember_refines (h : D.Refines stop D') (header : Header) (start : Span) :
    Refines stop (typedMember D header start) (typedMember D' header start) := by
  refine bind (typeRef_refines h.typeRef) fun type => bind (refl _) fun next => ?_
  split
  · exact bind (methodRest_refines h _ _ (methodBody_refines h)) fun method => refl _
  · exact bind (refl _) fun name => variableMember_refines h header start type name

theorem classMember_refines (h : D.Refines stop D') (className : String) :
    Refines stop (classMember D className) (classMember D' className) := by
  refine bind (header_refines h) fun read => bind (refl _) fun start => bind (refl _) fun next => ?_
  split
  · exact bind (initializerRest_refines h _) fun initializer => refl _
  · exact bind (h.typeDeclaration read) fun type => refl _
  · exact bind (h.typeDeclaration read) fun type => refl _
  · exact bind (h.typeDeclaration read) fun type => refl _
  · refine bind (refl _) fun _ => ?_
    exact bind (methodRest_refines h _ _ (methodBody_refines h)) fun method => refl _
  · refine bind (refl _) fun behind => ite ?_ (typedMember_refines h _ _)
    exact bind (constructorRest_refines h _) fun constructor => refl _
  · exact typedMember_refines h _ _

theorem memberOrStray_refines (h : D.Refines stop D') (className : String) :
    Refines stop (memberOrStray D className) (memberOrStray D' className) :=
  bind (refl _) fun _ => ite (refl _) (classMember_refines h className)

theorem interfaceMethod_refines (h : D.Refines stop D') :
    Refines stop (interfaceMethod D) (interfaceMethod D') := by
  refine bind (header_refines h) fun read => bind (refl _) fun start => ?_
  refine bind (returnType_refines h) fun type => ?_
  exact bind (methodRest_refines h _ _ (refl _)) fun method => refl _

/-! ## Types, triggers and files -/

theorem braced_refines {α : Type} {item item' : Parser α} (h : Refines stop item item') :
    Refines stop (braced item) (braced item') :=
  bind (refl _) fun _ => bind (itemsUntil _ h) fun _ => refl _

theorem typesBehind_refines (h : D.Refines stop D') (k : Keyword) :
    Refines stop (typesBehind D k) (typesBehind D' k) :=
  bind (refl _) fun _ => ite (commaSeparated (typeRef_refines h.typeRef)) (refl _)

theorem baseType_refines (h : D.Refines stop D') :
    Refines stop (baseType D) (baseType D') :=
  bind (refl _) fun _ => ite (map _ (typeRef_refines h.typeRef)) (refl _)

theorem classHead_refines (h : D.Refines stop D') (header : Header) :
    Refines stop (classHead D header) (classHead D' header) := by
  refine bind (refl _) fun name => bind (baseType_refines h) fun base => ?_
  exact bind (typesBehind_refines h _) fun interfaces => refl _

theorem interfaceHead_refines (h : D.Refines stop D') (header : Header) :
    Refines stop (interfaceHead D header) (interfaceHead D' header) :=
  bind (refl _) fun _ => bind (typesBehind_refines h _) fun _ => refl _

theorem typeDeclaration_refines (h : D.Refines stop D') (read : ReadHeader) :
    Refines stop (typeDeclaration D read) (typeDeclaration D' read) := by
  refine bind (refl _) fun start => bind (refl _) fun next => ?_
  split
  · refine bind (refl _) fun _ => bind (classHead_refines h _) fun head => ?_
    exact bind (braced_refines (memberOrStray_refines h _)) fun members => refl _
  · refine bind (refl _) fun _ => bind (interfaceHead_refines h _) fun head => ?_
    exact bind (braced_refines (interfaceMethod_refines h)) fun methods => refl _
  · exact refl _
  · exact refl _

theorem triggerDeclaration_refines (h : D.Refines stop D') :
    Refines stop (triggerDeclaration D) (triggerDeclaration D') := by
  refine bind (refl _) fun start => bind (refl _) fun name => bind (refl _) fun _ => ?_
  refine bind (refl _) fun object => bind (refl _) fun _ => bind (refl _) fun events => ?_
  exact bind (refl _) fun _ => bind (block_refines h) fun body => refl _

theorem declaration_refines (h : D.Refines stop D') :
    Refines stop (declaration D) (declaration D') := by
  refine bind (refl _) fun triggered => ite (triggerDeclaration_refines h) ?_
  refine bind (header_refines h) fun read => ?_
  exact bind (typeDeclaration_refines h read) fun type => refl _

theorem declarationAndSemicolons_refines (h : D.Refines stop D') :
    Refines stop (declarationAndSemicolons D) (declarationAndSemicolons D') := by
  refine bind (refl _) fun start => bind (refl _) fun c => bind (refl _) fun empty => ?_
  exact ite (refl _) (bind (declaration_refines h) fun found => refl _)

theorem compilationUnit_refines (h : D.Refines stop D') :
    Refines stop (compilationUnit D) (compilationUnit D') :=
  bind (refl _) fun _ => bind (declarationAndSemicolons_refines h) fun _ => refl _

/-- The constructs above a level keep refinement, if their look aheads do. -/
theorem above_refines (h : D.Refines stop D') {a a' : (Parser TypeRef → Parser Unit) → Parser Bool}
    (ha : ∀ look, KeepsRefinement stop look → Refines stop (a look) (a' look)) :
    Deeper.Refines stop { above D with ahead := a } { above D' with ahead := a' } where
  typeRef := typeRef_refines h.typeRef
  annotationMark := annotation_refines h
  annotationValue := annotationValue_refines h
  assignment := assignment_refines h
  ternary := ternary_refines h
  unary := unary_refines h
  statement := statement_refines h
  typeDeclaration := typeDeclaration_refines h
  ahead := ha

end Apex.Grammar
