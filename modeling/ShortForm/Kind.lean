/-!
# Kinds

A node stands for one construct of the language: a name, an array literal, a loop. Its kind says
which. The kinds are listed in one fixed order, and each is written by a tag such as
`AST_CLASS_CONST`.

The list of tags is open on the reading side: a tag that is not listed is read as the kind
`unknown`, which has a tag for writing and is not listed itself.
-/

namespace ShortForm

/-- The kind of a node. -/
inductive Kind where
  | magicConst | type | name | closureVar | nullableType | typeUnion
  | funcDecl | closure | method | arrowFunc | classDecl
  | argList | array | encapsList | exprList | stmtList | ifStmt | switchList | catchList
  | paramList | closureUses | propDecl | constDecl | classConstDecl | nameList
  | traitAdaptations | useDecl | attributeList | attributeGroup | matchArmList
  | var | const | unpack | cast | empty | isset | shellExec | clone | exit | print
  | includeOrEval | unaryOp | preInc | preDec | postInc | postDec | yieldFrom | globalDecl
  | unset | returnStmt | label | ref | haltCompiler | echo | throwExpr | goto | breakStmt
  | continueStmt
  | dim | prop | nullsafeProp | staticProp | call | classConst | assign | assignRef | assignOp
  | binaryOp | arrayElem | newExpr | instanceOf | yieldExpr | staticVar | whileStmt | doWhile
  | ifElem | switchStmt | switchCase | declare | propElem | constElem | useTrait
  | traitPrecedence | methodReference | namespaceDecl | useElem | traitAlias | groupUse
  | attributeElem | matchExpr | matchArm | namedArg
  | methodCall | nullsafeMethodCall | staticCall | conditional | tryStmt | catchClause | param
  | forStmt | foreachStmt
  | unknown
  deriving DecidableEq

namespace Kind

/-- The tag that a kind is written by. -/
def tag : Kind → String
  | magicConst => "AST_MAGIC_CONST"
  | type => "AST_TYPE"
  | name => "AST_NAME"
  | closureVar => "AST_CLOSURE_VAR"
  | nullableType => "AST_NULLABLE_TYPE"
  | typeUnion => "AST_TYPE_UNION"
  | funcDecl => "AST_FUNC_DECL"
  | closure => "AST_CLOSURE"
  | method => "AST_METHOD"
  | arrowFunc => "AST_ARROW_FUNC"
  | classDecl => "AST_CLASS"
  | argList => "AST_ARG_LIST"
  | array => "AST_ARRAY"
  | encapsList => "AST_ENCAPS_LIST"
  | exprList => "AST_EXPR_LIST"
  | stmtList => "AST_STMT_LIST"
  | ifStmt => "AST_IF"
  | switchList => "AST_SWITCH_LIST"
  | catchList => "AST_CATCH_LIST"
  | paramList => "AST_PARAM_LIST"
  | closureUses => "AST_CLOSURE_USES"
  | propDecl => "AST_PROP_DECL"
  | constDecl => "AST_CONST_DECL"
  | classConstDecl => "AST_CLASS_CONST_DECL"
  | nameList => "AST_NAME_LIST"
  | traitAdaptations => "AST_TRAIT_ADAPTATIONS"
  | useDecl => "AST_USE"
  | attributeList => "AST_ATTRIBUTE_LIST"
  | attributeGroup => "AST_ATTRIBUTE_GROUP"
  | matchArmList => "AST_MATCH_ARM_LIST"
  | var => "AST_VAR"
  | const => "AST_CONST"
  | unpack => "AST_UNPACK"
  | cast => "AST_CAST"
  | empty => "AST_EMPTY"
  | isset => "AST_ISSET"
  | shellExec => "AST_SHELL_EXEC"
  | clone => "AST_CLONE"
  | exit => "AST_EXIT"
  | print => "AST_PRINT"
  | includeOrEval => "AST_INCLUDE_OR_EVAL"
  | unaryOp => "AST_UNARY_OP"
  | preInc => "AST_PRE_INC"
  | preDec => "AST_PRE_DEC"
  | postInc => "AST_POST_INC"
  | postDec => "AST_POST_DEC"
  | yieldFrom => "AST_YIELD_FROM"
  | globalDecl => "AST_GLOBAL"
  | unset => "AST_UNSET"
  | returnStmt => "AST_RETURN"
  | label => "AST_LABEL"
  | ref => "AST_REF"
  | haltCompiler => "AST_HALT_COMPILER"
  | echo => "AST_ECHO"
  | throwExpr => "AST_THROW"
  | goto => "AST_GOTO"
  | breakStmt => "AST_BREAK"
  | continueStmt => "AST_CONTINUE"
  | dim => "AST_DIM"
  | prop => "AST_PROP"
  | nullsafeProp => "AST_NULLSAFE_PROP"
  | staticProp => "AST_STATIC_PROP"
  | call => "AST_CALL"
  | classConst => "AST_CLASS_CONST"
  | assign => "AST_ASSIGN"
  | assignRef => "AST_ASSIGN_REF"
  | assignOp => "AST_ASSIGN_OP"
  | binaryOp => "AST_BINARY_OP"
  | arrayElem => "AST_ARRAY_ELEM"
  | newExpr => "AST_NEW"
  | instanceOf => "AST_INSTANCEOF"
  | yieldExpr => "AST_YIELD"
  | staticVar => "AST_STATIC"
  | whileStmt => "AST_WHILE"
  | doWhile => "AST_DO_WHILE"
  | ifElem => "AST_IF_ELEM"
  | switchStmt => "AST_SWITCH"
  | switchCase => "AST_SWITCH_CASE"
  | declare => "AST_DECLARE"
  | propElem => "AST_PROP_ELEM"
  | constElem => "AST_CONST_ELEM"
  | useTrait => "AST_USE_TRAIT"
  | traitPrecedence => "AST_TRAIT_PRECEDENCE"
  | methodReference => "AST_METHOD_REFERENCE"
  | namespaceDecl => "AST_NAMESPACE"
  | useElem => "AST_USE_ELEM"
  | traitAlias => "AST_TRAIT_ALIAS"
  | groupUse => "AST_GROUP_USE"
  | attributeElem => "AST_ATTRIBUTE"
  | matchExpr => "AST_MATCH"
  | matchArm => "AST_MATCH_ARM"
  | namedArg => "AST_NAMED_ARG"
  | methodCall => "AST_METHOD_CALL"
  | nullsafeMethodCall => "AST_NULLSAFE_METHOD_CALL"
  | staticCall => "AST_STATIC_CALL"
  | conditional => "AST_CONDITIONAL"
  | tryStmt => "AST_TRY"
  | catchClause => "AST_CATCH"
  | param => "AST_PARAM"
  | forStmt => "AST_FOR"
  | foreachStmt => "AST_FOREACH"
  | unknown => "AST_UNKNOWN"

/-- Every kind that has a place in the language, in the order of its declaration. -/
def listed : List Kind :=
  [magicConst, type, name, closureVar, nullableType, typeUnion,
   funcDecl, closure, method, arrowFunc, classDecl,
   argList, array, encapsList, exprList, stmtList, ifStmt, switchList, catchList,
   paramList, closureUses, propDecl, constDecl, classConstDecl, nameList,
   traitAdaptations, useDecl, attributeList, attributeGroup, matchArmList,
   var, const, unpack, cast, empty, isset, shellExec, clone, exit, print,
   includeOrEval, unaryOp, preInc, preDec, postInc, postDec, yieldFrom, globalDecl,
   unset, returnStmt, label, ref, haltCompiler, echo, throwExpr, goto, breakStmt,
   continueStmt,
   dim, prop, nullsafeProp, staticProp, call, classConst, assign, assignRef, assignOp,
   binaryOp, arrayElem, newExpr, instanceOf, yieldExpr, staticVar, whileStmt, doWhile,
   ifElem, switchStmt, switchCase, declare, propElem, constElem, useTrait,
   traitPrecedence, methodReference, namespaceDecl, useElem, traitAlias, groupUse,
   attributeElem, matchExpr, matchArm, namedArg,
   methodCall, nullsafeMethodCall, staticCall, conditional, tryStmt, catchClause, param,
   forStmt, foreachStmt]

/-- Every kind, `unknown` last. -/
def all : List Kind := listed ++ [unknown]

/-- The listed kind with this tag. The tag of `unknown` is not listed. -/
def ofTag? (text : String) : Option Kind :=
  listed.find? fun kind => kind.tag == text

/-- The kind that a tag is read as: a tag that is not listed is no fault. -/
def ofTag (text : String) : Kind :=
  (ofTag? text).getD unknown

/-- The place of a kind in the list. The kind `unknown` comes after the last. -/
def rank (kind : Kind) : Nat :=
  listed.idxOf kind

instance : Ord Kind := ⟨fun a b => compare a.rank b.rank⟩

/-- The kinds, each before those that compare greater. -/
def sorted (kinds : List Kind) : List Kind :=
  kinds.mergeSort fun a b => (compare a b).isLE

/-- The letters of a tag in mixed case: an underscore goes and the letter after it stays upper
case; every other letter becomes lower case. -/
def mixedCase : List Char → List Char
  | '_' :: c :: rest => c :: mixedCase rest
  | c :: rest => c.toLower :: mixedCase rest
  | [] => []

/-- The name of a kind in listings: its tag without the leading `AST`, in mixed case. -/
def title (kind : Kind) : String :=
  String.ofList (mixedCase (kind.tag.toList.drop 3))

theorem mem_all (kind : Kind) : kind ∈ all := by
  cases kind <;> decide

theorem mem_listed_or_eq_unknown (kind : Kind) : kind ∈ listed ∨ kind = unknown := by
  simpa only [all, List.mem_append, List.mem_singleton] using mem_all kind

/-- No kind is listed twice. -/
theorem nodup_all : all.Nodup := by
  decide

end Kind

end ShortForm
