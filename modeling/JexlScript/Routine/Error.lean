/-!
# Refused routines

Why no script can be made of a function's source, and the words for it.
-/

namespace JexlScript.Routine

inductive BindError where
  | tooMany
  | missing (param : String)
  /-- A parameter has an argument by position and one by name. -/
  | multiple (param : String)
  | unexpected (name : String)
  | repeated (name : String)
deriving DecidableEq, Repr

def BindError.text : BindError → String
  | .tooMany => "too many positional arguments"
  | .missing param => "missing a required argument: '" ++ param ++ "'"
  | .multiple param => "multiple values for argument '" ++ param ++ "'"
  | .unexpected name => "got an unexpected keyword argument '" ++ name ++ "'"
  | .repeated name =>
    "inspect.Signature.bind() got multiple values for keyword argument '" ++ name ++ "'"

/-- Why no script can be made of a routine. -/
inductive Refusal where
  | nullCharacter
  | invalidSource
  | noFunction
  | asyncFunction
  | notAFunction (kind : String)
  | onlyPositional
  | defaultValues
  | statement (kind : String)
  | expression (kind : String)
  | constant (type : String)
  | binaryOperator (kind : String)
  | augmentedOperator (kind : String)
  | augmentedTarget
  | multipleTargets
  | assignmentTarget
  | builtinAsValue (name : String)
  | moduleAsValue (name : String)
  | dictKey
  | starArguments
  | spreadArguments
  | unspellable
  | keywordArguments (callee : String)
  | moduleFunction (name : String)
  | moduleAttribute (name : String)
  | call (callee : String) (why : BindError)
  | singleIterable (name : String)
  | oneOrTwo (name : String)
  | sliceStep
  | multipleIndices
  | asyncComprehension
  | comprehensionTarget
deriving DecidableEq, Repr

def Refusal.message : Refusal → String
  | .nullCharacter => "Null character in function source"
  | .invalidSource => "Invalid function source"
  | .noFunction => "No function found in source"
  | .asyncFunction => "Async functions cannot be inlined"
  | .notAFunction kind => "Expected a lambda or function definition, got " ++ kind
  | .onlyPositional => "Only positional parameters are supported"
  | .defaultValues => "Default parameter values are not supported"
  | .statement kind => "Unsupported statement: " ++ kind
  | .expression kind => "Unsupported expression: " ++ kind
  | .constant type => "Unsupported constant type: " ++ type
  | .binaryOperator kind => "Unsupported binary operator: " ++ kind
  | .augmentedOperator kind => "Unsupported augmented assignment operator: " ++ kind
  | .augmentedTarget => "Only simple augmented assignments supported"
  | .multipleTargets => "Multiple assignment targets not supported"
  | .assignmentTarget => "Only assignments to local names supported"
  | .builtinAsValue name => "Builtin " ++ name ++ "() can only be called directly"
  | .moduleAsValue name => "Module " ++ name ++ " can only be used as " ++ name ++ ".<name>"
  | .dictKey => "Only string keys are supported in dict literals"
  | .starArguments => "Star arguments are not supported"
  | .spreadArguments => "**kwargs arguments are not supported"
  | .unspellable => "The callee cannot be written as a text"
  | .keywordArguments callee => "Keyword arguments not supported for " ++ callee ++ "()"
  | .moduleFunction name => "Unsupported function: " ++ name ++ "()"
  | .moduleAttribute name => "Unsupported attribute: " ++ name
  | .call callee why => "Invalid call to " ++ callee ++ "(): " ++ why.text
  | .singleIterable name => name ++ "() over a single iterable is not supported"
  | .oneOrTwo name => name ++ "() expects one or two arguments"
  | .sliceStep => "Slice steps are not supported"
  | .multipleIndices => "Multiple indices not supported in subscript"
  | .asyncComprehension => "Async comprehensions are not supported"
  | .comprehensionTarget => "Only name targets supported in comprehensions"

end JexlScript.Routine
