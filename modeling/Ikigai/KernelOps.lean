import Ikigai.Description

/-!
# The kernel's own operations

`urn:kernel:*` is answered by the kernel ahead of every space. Each operation describes
itself like any endpoint; what the kernel gates, prefills and offers is read from these
descriptions. Their titles and summaries are left out.
-/

namespace Ikigai

namespace KernelOps

def textPlainUtf8 : Text := "text/plain;charset=utf-8".toList

def textTurtle : Text := "text/turtle".toList

/-- The capability gating the kernel's introspection operations. -/
def capInspect : Text := "urn:cap:kernel:inspect".toList

/-- The capability gating thread-cutting. -/
def capCut : Text := "urn:cap:kernel:cut".toList

/-- An input a caller may leave out, from a closed set of values if there is one. -/
def optional (name : String) (values : List String) : ArgSpec where
  name := name.toList
  required := false
  oneOf := values.map String.toList
  enumerated := !values.isEmpty

/-- An input from a closed set of values, with the value it has when left out. -/
def defaulted (name : String) (values : List String) (value : String) : ArgSpec where
  name := name.toList
  required := false
  default := some value.toList
  oneOf := values.map String.toList
  enumerated := true

def required (name : String) : ArgSpec where
  name := name.toList

/-- The `as` input of an operation with one response face. -/
def singleFace (mediaType : String) : ArgSpec := defaulted "as" [mediaType] mediaType

/-- The `as` input of an operation with a text face and a Turtle face. -/
def face : ArgSpec := defaulted "as" ["text/plain", "text/turtle"] "text/plain"

/-- A readout: a Source that needs the inspect capability. -/
def readout (id : String) (inputs : List ArgSpec) (outputs : List Text) : Description where
  id := id.toList
  verbs := [.source, .«meta»]
  inputs := inputs
  outputs := outputs
  requires := [capInspect]

def actions : Description where
  id := "kernel-actions".toList
  verbs := [.source, .«meta»]
  inputs := [{ optional "types" [] with list := some .commaOrWhitespace },
    optional "verb" ["source", "sink", "exists", "delete"], optional "want" [], face]
  outputs := [textPlainUtf8, textTurtle]

def validate : Description where
  id := "kernel-validate".toList
  verbs := [.source, .«meta»]
  inputs := [optional "action" [],
    { optional "endpoint" [] with needs := ["verb".toList] },
    optional "verb" ["source", "sink", "exists", "delete"], optional "args" [],
    singleFace "text/turtle"]
  outputs := [textTurtle]
  groups := [⟨.exactlyOne, ["action".toList, "endpoint".toList], none⟩]

def catalog : Description := readout "kernel-catalog" [singleFace "text/turtle"] [textTurtle]

def dependents : Description :=
  readout "kernel-dependents" [required "thread", face] [textPlainUtf8, textTurtle]

def explain : Description :=
  readout "kernel-explain"
    [required "target", defaulted "verb" ["source", "sink", "exists", "delete", "meta"] "source",
      { optional "scopes" [] with list := some .commaOrWhitespace }, face]
    [textPlainUtf8, textTurtle]

def topology : Description := readout "kernel-topology" [singleFace "text/turtle"] [textTurtle]

def cut : Description where
  id := "kernel-cut".toList
  verbs := [.sink, .«meta»]
  inputs := [optional "thread" [], optional "content" [], singleFace "text/plain"]
  outputs := [textPlainUtf8]
  requires := [capCut]
  groups := [⟨.exactlyOne, ["content".toList, "thread".toList], some "content".toList⟩]

def cache : Description := readout "kernel-cache" [face] [textPlainUtf8, textTurtle]

def cached : Description :=
  readout "kernel-cached"
    [required "target", defaulted "verb" ["source", "exists"] "source", singleFace "text/plain"]
    [textPlainUtf8]

def uncached : Description :=
  readout "kernel-uncached" [optional "target" [], singleFace "text/plain"] [textPlainUtf8]

def threads : Description := readout "kernel-threads" [face] [textPlainUtf8, textTurtle]

def aliases : Description := readout "kernel-aliases" [singleFace "text/plain"] [textPlainUtf8]

def scheduler : Description := readout "kernel-scheduler" [face] [textPlainUtf8, textTurtle]

def constraint : Description := readout "kernel-constraint" [face] [textPlainUtf8, textTurtle]

/-- Every operation with its description, in listing order. -/
def table : List (Text × Description) :=
  [("actions".toList, actions), ("aliases".toList, aliases), ("cache".toList, cache),
    ("cached".toList, cached), ("catalog".toList, catalog), ("constraint".toList, constraint),
    ("cut".toList, cut), ("dependents".toList, dependents), ("explain".toList, explain),
    ("scheduler".toList, scheduler), ("threads".toList, threads), ("topology".toList, topology),
    ("uncached".toList, uncached), ("validate".toList, validate)]

/-- The names of the operations, in listing order. -/
def ops : List Text := table.map Prod.fst

/-- The self-description of one operation, if the kernel serves it. -/
def description (op : Text) : Option Description :=
  (table.find? fun row => row.1 = op).map Prod.snd

/-- The scopes an operation requires for a verb, by its declaration. -/
def requiredScopes (op : Text) (verb : Verb) : List Text :=
  match description op with
  | some description =>
    (description.actionSpecs.filter fun spec => spec.verb = verb).flatMap ActionSpec.requires
  | none => []

/-- Whether an operation's answer is a function of the chain it is asked in. -/
def dependsOnChain (op : Text) : Bool :=
  op == "topology".toList || op == "explain".toList || op == "validate".toList

/-- What the kernel serves is what it lists. -/
theorem description_is_some_iff (op : Text) : (description op).isSome = true ↔ op ∈ ops := by
  simp only [description, ops, Option.isSome_map, List.find?_isSome, decide_eq_true_eq,
    List.mem_map]

end KernelOps

end Ikigai
