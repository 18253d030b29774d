import BuildPrune.Path
import BuildPrune.Rules

/-!
# BuildPrune.Recipe.Basic

Recipes: the named entries of a rule file, in the order of the file, and the groups of rules that
they stand for. `remove` is the only kind of recipe.
-/

namespace BuildPrune

/-- An entry of a rule file as it is written. A list that is absent differs from an empty one. -/
structure Entry where
  recipe : String
  files : Option (List String) := none
  removeFiles : Option (List String) := none
  removeMethods : Option (List String) := none
  removePlugins : Option (List String) := none
  removeClasspath : Option (List String) := none
  methodWithArg : Option (List String) := none
  removeImport : Option (List String) := none
  methodWithTypeParameter : Option (List String) := none
  /-- The names of the fields that have no meaning, in alphabetical order. -/
  unknown : List String := []
  deriving DecidableEq, Repr

/-- The entries of a rule file with their names. -/
abbrev Recipe := List (String × Entry)

/-- An entry made ready: what to remove, and where. -/
structure Group where
  name : String
  rules : RuleSet
  /-- The scripts to visit, by path; all of them if there is no list. -/
  files : Option (List String)
  /-- The files to delete. -/
  removeFiles : List String
  deriving Repr

/-- An entry asks for a recipe that does not exist. -/
structure UnknownRecipe where
  recipe : String
  entry : String
  deriving DecidableEq, Repr

/-- The wording of the error. -/
def UnknownRecipe.message (error : UnknownRecipe) : String :=
  "unknown recipe '" ++ error.recipe ++ "' in entry '" ++ error.entry ++ "'"

namespace Entry

/-- The rules of an entry. -/
def rules (entry : Entry) (dialect : Dialect) : RuleSet where
  plugins := entry.removePlugins.getD []
  methods := entry.removeMethods.getD []
  classpath := entry.removeClasspath.getD []
  methodsWithArg := entry.methodWithArg.getD []
  imports := entry.removeImport.getD []
  typeParameters := entry.methodWithTypeParameter.getD []
  dialect := dialect

/-- The group of an entry. An empty list of files restricts nothing. -/
def group (name : String) (entry : Entry) (dialect : Dialect) : Except UnknownRecipe Group :=
  if entry.recipe == "remove" then
    .ok {
      name := name
      rules := entry.rules dialect
      files := (entry.files.filter (!·.isEmpty)).map (·.map Path.normalize)
      removeFiles := (entry.removeFiles.getD []).map Path.normalize }
  else .error ⟨entry.recipe, name⟩

end Entry

/-- The groups of a recipe in order, unless some entry asks for an unknown recipe. -/
def Recipe.groups (recipe : Recipe) (dialect : Dialect) : Except UnknownRecipe (List Group) :=
  recipe.mapM fun (name, entry) => entry.group name dialect

end BuildPrune
