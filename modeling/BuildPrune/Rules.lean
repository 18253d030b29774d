import BuildPrune.Script.Calls

/-!
# BuildPrune.Rules

What is to be removed from scripts: six independent sets of texts, and the reasons for which a call
goes. Texts are compared exactly.
-/

namespace BuildPrune

/-- The texts to remove, by what they are compared with. Only membership counts: order and
repetition in the lists have no meaning. -/
structure RuleSet where
  /-- Ids of plugins: the first argument of `id` and `alias`. -/
  plugins : List String := []
  /-- Names of calls. -/
  methods : List String := []
  /-- Coordinates: the first argument of `implementation` and `classpath`. -/
  classpath : List String := []
  /-- Whole calls as they are written. -/
  methodsWithArg : List String := []
  /-- Qualified names of imports. -/
  imports : List String := []
  /-- Type arguments of calls as they are written. -/
  typeParameters : List String := []
  /-- The dialect of the project that the rules are applied in. -/
  dialect : Dialect := .groovy
  deriving Repr

namespace RuleSet

/-- Nothing is to be removed. -/
def isEmpty (rules : RuleSet) : Bool :=
  rules.plugins.isEmpty && rules.methods.isEmpty && rules.classpath.isEmpty &&
    rules.methodsWithArg.isEmpty && rules.imports.isEmpty && rules.typeParameters.isEmpty

/-- Two lists have the same members. -/
def sameMembers (xs ys : List String) : Bool :=
  xs.all ys.contains && ys.all xs.contains

/-- The rule sets remove the same in the same dialect. -/
def same (a b : RuleSet) : Bool :=
  sameMembers a.plugins b.plugins && sameMembers a.methods b.methods &&
    sameMembers a.classpath b.classpath && sameMembers a.methodsWithArg b.methodsWithArg &&
    sameMembers a.imports b.imports && sameMembers a.typeParameters b.typeParameters &&
    a.dialect == b.dialect

end RuleSet

/-- Why a call is removed. -/
inductive RemovalReason
  | method
  | typeParameter
  | methodWithArg
  | classpath
  | plugin
  /-- It gives the version of a removed plugin. -/
  | pluginVersion
  deriving DecidableEq, Repr

/-- The wording of a reason. -/
def RemovalReason.message : RemovalReason → String
  | .method => "method name"
  | .typeParameter => "type parameter"
  | .methodWithArg => "method with argument"
  | .classpath => "classpath entry"
  | .plugin => "plugin id"
  | .pluginVersion => "version of removed plugin"

/-- The calls whose first argument is a coordinate. -/
def classpathCalls : List String :=
  ["implementation", "classpath"]

/-- The calls whose first argument is the id of a plugin. -/
def pluginCalls : List String :=
  ["id", "alias"]

namespace Call

/-- One of the texts that name the first argument is in `texts`. -/
def firstArgumentIn (call : Call) (texts : List String) : Bool :=
  match call.items with
  | [] => false
  | first :: _ => first.expr.argumentKeys.any texts.contains

/-- The call that this call is made on. -/
def receiverCall? (call : Call) : Option Call :=
  call.receiver.bind fun receiver => receiver.target.call?

/-- The first reason to remove the call, if there is one. -/
def removalReason (call : Call) (rules : RuleSet) : Option RemovalReason :=
  let name := call.name.text
  if rules.methods.contains name then some .method
  else if call.typeParameters.any rules.typeParameters.contains then some .typeParameter
  else if !rules.methodsWithArg.isEmpty && rules.methodsWithArg.contains call.printed then
    some .methodWithArg
  else if classpathCalls.contains name && call.firstArgumentIn rules.classpath then some .classpath
  else if pluginCalls.contains name && call.firstArgumentIn rules.plugins then some .plugin
  else if name == "version" && call.receiverCall?.any (·.firstArgumentIn rules.plugins) then
    some .pluginVersion
  else none

end Call

end BuildPrune
