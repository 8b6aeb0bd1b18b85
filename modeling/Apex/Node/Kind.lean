/-!
# Kinds of nodes

Every node of a syntax tree is of one kind. Reports name the kinds and list them in the order given
here.
-/

namespace Apex

/-- The kinds of nodes. Binary expressions are told apart by level, `!` from the other prefix
operators, and the forms of `new` and the two accessors from each other. -/
inductive NodeKind where
  | compilationUnit | classDecl | interfaceDecl | enumDecl | triggerDecl | emptyDecl
  | annotationMark | annotationElement | annotationArray | modifier | triggerEvent | identifier
  | typeRef | qualifiedName
  | classVariable | variableDeclarator | classMethod | classConstructor | methodParameter
  | classProperty | propertyGet | propertySet | initializerBlock
  | block | localVariableDecl | ifStmt | whileStmt | doWhileStmt | forStmt | forEachStmt | tryStmt
  | catchClause | returnStmt | throwStmt | breakStmt | continueStmt | emptyStmt | expressionStmt
  | runAsStmt | dmlOperation | dmlUpsert | dmlMerge
  | intLiteral | longLiteral | floatLiteral | stringLiteral | booleanLiteral | nullLiteral
  | soqlLiteral | soslLiteral
  | name | this | super | paren | memberAccess | methodCall | index | newObject | newArray
  | newCollection | newMap | mapEntry | cast | unary | negation | preIncrement | postIncrement
  | logicalOr | logicalAnd | bitwiseOr | bitwiseXor | bitwiseAnd | equality | comparison | shift
  | additive | multiplicative | instanceOf | ternary | assignment
deriving DecidableEq, Repr

namespace NodeKind

/-- All kinds, in order. -/
def all : List NodeKind :=
  [ .compilationUnit, .classDecl, .interfaceDecl, .enumDecl, .triggerDecl, .emptyDecl,
    .annotationMark, .annotationElement, .annotationArray, .modifier, .triggerEvent, .identifier,
    .typeRef, .qualifiedName,
    .classVariable, .variableDeclarator, .classMethod, .classConstructor, .methodParameter,
    .classProperty, .propertyGet, .propertySet, .initializerBlock,
    .block, .localVariableDecl, .ifStmt, .whileStmt, .doWhileStmt, .forStmt, .forEachStmt,
    .tryStmt, .catchClause, .returnStmt, .throwStmt, .breakStmt, .continueStmt, .emptyStmt,
    .expressionStmt, .runAsStmt, .dmlOperation, .dmlUpsert, .dmlMerge,
    .intLiteral, .longLiteral, .floatLiteral, .stringLiteral, .booleanLiteral, .nullLiteral,
    .soqlLiteral, .soslLiteral,
    .name, .this, .super, .paren, .memberAccess, .methodCall, .index, .newObject, .newArray,
    .newCollection, .newMap, .mapEntry, .cast, .unary, .negation, .preIncrement, .postIncrement,
    .logicalOr, .logicalAnd, .bitwiseOr, .bitwiseXor, .bitwiseAnd, .equality, .comparison,
    .shift, .additive, .multiplicative, .instanceOf, .ternary, .assignment ]

/-- The name of the kind in reports. -/
def text : NodeKind → String
  | .compilationUnit => "compilation_unit"
  | .classDecl => "class_decl"
  | .interfaceDecl => "interface_decl"
  | .enumDecl => "enum_decl"
  | .triggerDecl => "trigger_decl"
  | .emptyDecl => "empty_decl"
  | .annotationMark => "annotation"
  | .annotationElement => "annotation_element"
  | .annotationArray => "annotation_array"
  | .modifier => "modifier"
  | .triggerEvent => "trigger_event"
  | .identifier => "identifier"
  | .typeRef => "type_ref"
  | .qualifiedName => "qualified_name"
  | .classVariable => "class_variable"
  | .variableDeclarator => "variable_declarator"
  | .classMethod => "class_method"
  | .classConstructor => "class_constructor"
  | .methodParameter => "method_parameter"
  | .classProperty => "class_property"
  | .propertyGet => "property_get"
  | .propertySet => "property_set"
  | .initializerBlock => "initializer_block"
  | .block => "block"
  | .localVariableDecl => "local_variable_decl"
  | .ifStmt => "if_stmt"
  | .whileStmt => "while_stmt"
  | .doWhileStmt => "do_while_stmt"
  | .forStmt => "for_stmt"
  | .forEachStmt => "for_each_stmt"
  | .tryStmt => "try_stmt"
  | .catchClause => "catch_clause"
  | .returnStmt => "return_stmt"
  | .throwStmt => "throw_stmt"
  | .breakStmt => "break_stmt"
  | .continueStmt => "continue_stmt"
  | .emptyStmt => "empty_stmt"
  | .expressionStmt => "expression_stmt"
  | .runAsStmt => "run_as_stmt"
  | .dmlOperation => "dml_operation"
  | .dmlUpsert => "dml_upsert"
  | .dmlMerge => "dml_merge"
  | .intLiteral => "int_literal"
  | .longLiteral => "long_literal"
  | .floatLiteral => "float_literal"
  | .stringLiteral => "string_literal"
  | .booleanLiteral => "boolean_literal"
  | .nullLiteral => "null_literal"
  | .soqlLiteral => "soql_literal"
  | .soslLiteral => "sosl_literal"
  | .name => "name"
  | .this => "this"
  | .super => "super"
  | .paren => "paren"
  | .memberAccess => "member_access"
  | .methodCall => "method_call"
  | .index => "index"
  | .newObject => "new_object"
  | .newArray => "new_array"
  | .newCollection => "new_collection"
  | .newMap => "new_map"
  | .mapEntry => "map_entry"
  | .cast => "cast"
  | .unary => "unary"
  | .negation => "negation"
  | .preIncrement => "pre_increment"
  | .postIncrement => "post_increment"
  | .logicalOr => "logical_or"
  | .logicalAnd => "logical_and"
  | .bitwiseOr => "bitwise_or"
  | .bitwiseXor => "bitwise_xor"
  | .bitwiseAnd => "bitwise_and"
  | .equality => "equality"
  | .comparison => "comparison"
  | .shift => "shift"
  | .additive => "additive"
  | .multiplicative => "multiplicative"
  | .instanceOf => "instance_of"
  | .ternary => "ternary"
  | .assignment => "assignment"

/-- The kinds whose nodes never have children. -/
def isLeaf : NodeKind → Bool
  | .identifier | .name | .this | .super | .modifier | .triggerEvent
  | .intLiteral | .longLiteral | .floatLiteral | .stringLiteral | .booleanLiteral | .nullLiteral
  | .soqlLiteral | .soslLiteral | .emptyDecl | .breakStmt | .continueStmt | .emptyStmt => true
  | _ => false

/-- The kind with a name. -/
def ofText? (text : String) : Option NodeKind := all.find? (·.text == text)

end NodeKind

end Apex
