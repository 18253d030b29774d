import BuildPrune.Recipe.Basic
import BuildPrune.Sorting
import BuildPrune.Yaml.Wording

/-!
# BuildPrune.Recipe.Reader

Reads a rule file: a YAML mapping from names to entries. Entries and their fields are checked in the
order of the file, and the first that is wrong is reported.
-/

namespace BuildPrune

open Yaml (Node Scalar)

/-! ### What can be wrong -/

/-- What was expected in the place of a node. -/
inductive Expected
  | string
  | sequence
  | entry
  | fieldName
  deriving DecidableEq, Repr

/-- The wording of what was expected. -/
def Expected.message : Expected → String
  | .string => "a string"
  | .sequence => "a sequence"
  | .entry => "struct RecipeEntry"
  | .fieldName => "field identifier"

/-- Why a node is no entry. -/
inductive EntryProblem
  | wrongKind (found : Node) (expected : Expected)
  | missingRecipe
  | duplicateField (name : String)
  /-- A field without meaning has a value with a tag of its own. -/
  | taggedValue

/-- The wording of a problem. -/
def EntryProblem.message : EntryProblem → String
  | .wrongKind found expected => "invalid type: " ++ found.kindText ++ ", expected " ++ expected.message
  | .missingRecipe => "missing field `recipe`"
  | .duplicateField name => "duplicate field `" ++ name ++ "`"
  | .taggedValue => "untagged and internally tagged enums do not support enum input"

/-- Why a text is no rule file. -/
inductive RecipeError
  /-- It is no YAML, or neither empty nor a mapping. -/
  | notAMapping
  /-- The name of an entry is no string. -/
  | entryName (found : Node)
  | entry (name : String) (problem : EntryProblem)

/-- The wording of an error. -/
def RecipeError.message : RecipeError → String
  | .notAMapping => "invalid rule file"
  | .entryName found => "recipe entry names must be strings, found " ++ found.fullText
  | .entry name problem => "invalid recipe entry '" ++ name ++ "': " ++ problem.message

/-! ### Reading -/

/-- The string that a node is. -/
def Yaml.Node.string? (node : Node) : Option String :=
  match node.untagged with
  | .scalar (.str text) => some text
  | _ => none

mutual

/-- There is a tag on the node or inside it. -/
def Yaml.Node.hasTag : Node → Bool
  | .scalar _ => false
  | .sequence items => Yaml.Node.itemsHaveTag items
  | .mapping pairs => Yaml.Node.pairsHaveTag pairs
  | .tagged _ _ => true

/-- There is a tag in one of the nodes. -/
def Yaml.Node.itemsHaveTag : List Node → Bool
  | [] => false
  | item :: rest => item.hasTag || Yaml.Node.itemsHaveTag rest

/-- There is a tag in one of the pairs. -/
def Yaml.Node.pairsHaveTag : List (Node × Node) → Bool
  | [] => false
  | (key, value) :: rest => key.hasTag || value.hasTag || Yaml.Node.pairsHaveTag rest

end

/-- The string that a node has to be. -/
def readString (node : Node) : Except EntryProblem String :=
  match node.string? with
  | some text => .ok text
  | none => .error (.wrongKind node .string)

/-- The list of strings that a node has to be. A null is no list, under a tag an empty one. -/
def readStrings (node : Node) : Except EntryProblem (Option (List String)) :=
  match node with
  | .scalar .null => .ok none
  | node =>
    match node.untagged with
    | .sequence items => some <$> items.mapM readString
    | .scalar .null => .ok (some [])
    | _ => .error (.wrongKind node .sequence)

/-- An entry of which some fields have been read, each at most once. -/
structure EntryDraft where
  recipe : Option String := none
  lists : List (String × Option (List String)) := []
  unknown : List String := []

/-- The fields that hold lists. -/
def listFields : List String :=
  ["files", "remove-files", "remove-methods", "remove-plugins", "remove-classpath",
    "method-with-arg", "remove-import", "method-with-type-parameter"]

/-- Adds a field to what has been read. -/
def EntryDraft.add (draft : EntryDraft) (key value : Node) : Except EntryProblem EntryDraft := do
  match key.string? with
  | none => .error (.wrongKind key .fieldName)
  | some name =>
    if name == "recipe" then
      if draft.recipe.isSome then .error (.duplicateField name)
      return { draft with recipe := some (← readString value) }
    else if listFields.contains name then
      if (draft.lists.lookup name).isSome then .error (.duplicateField name)
      return { draft with lists := (name, ← readStrings value) :: draft.lists }
    else if value.hasTag then .error .taggedValue
    else return { draft with unknown := name :: draft.unknown }

/-- The entry that has been read. -/
def EntryDraft.entry (draft : EntryDraft) : Except EntryProblem Entry :=
  let list := fun (name : String) => (draft.lists.lookup name).join
  match draft.recipe with
  | none => .error .missingRecipe
  | some recipe =>
    .ok {
      recipe := recipe
      files := list "files"
      removeFiles := list "remove-files"
      removeMethods := list "remove-methods"
      removePlugins := list "remove-plugins"
      removeClasspath := list "remove-classpath"
      methodWithArg := list "method-with-arg"
      removeImport := list "remove-import"
      methodWithTypeParameter := list "method-with-type-parameter"
      unknown := sortBy (fun a b => decide (a ≤ b)) draft.unknown.eraseDups }

/-- The entry that a node is. A null is an entry without fields. -/
def readEntry (node : Node) : Except EntryProblem Entry := do
  let pairs ←
    match node.untagged with
    | .mapping pairs => pure pairs
    | .scalar .null => pure []
    | _ => .error (.wrongKind node .entry)
  let draft : EntryDraft ←
    pairs.foldlM (fun (draft : EntryDraft) (pair : Node × Node) => draft.add pair.1 pair.2) {}
  draft.entry

/-- One named entry. -/
def readNamedEntry (key value : Node) : Except RecipeError (String × Entry) :=
  match key.string? with
  | none => .error (.entryName key)
  | some name =>
    match readEntry value with
    | .ok entry => .ok (name, entry)
    | .error problem => .error (.entry name problem)

/-- The recipe that the pairs of a document are. -/
def Recipe.ofPairs (pairs : List (Node × Node)) : Except RecipeError Recipe :=
  pairs.mapM fun (key, value) => readNamedEntry key value

/-- The recipe in the text of a rule file. A text without content is a recipe without entries. -/
def Recipe.read (text : String) : Except RecipeError Recipe :=
  match Node.readPairs? text with
  | some pairs => Recipe.ofPairs pairs
  | none => .error .notAMapping

end BuildPrune
