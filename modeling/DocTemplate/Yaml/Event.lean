import DocTemplate.Yaml.Token

/-! The content of a YAML document as a list of events: scalars, aliases, and the starts and ends of
collections. -/

namespace DocTemplate.Yaml

/-- The anchor and the tag of a node. -/
structure Properties where
  anchor : Option String
  tag : Option String
deriving DecidableEq, Repr

def Properties.none : Properties := ⟨.none, .none⟩

inductive Event where
  | scalar (properties : Properties) (plain : Bool) (text : String)
  | alias (name : String)
  | startSequence (properties : Properties)
  | endSequence
  | startMapping (properties : Properties)
  | endMapping
deriving DecidableEq, Repr

namespace Event

/-- The scalar that stands where nothing is written. -/
def nothing : Event := .scalar .none true ""

/-- The prefixes of the tag handles. -/
abbrev Handles := List (String × String)

/-- The handles that need no directive. -/
def standardHandles : Handles := [("!", "!"), ("!!", "tag:yaml.org,2002:")]

/-- The tag that a handle and a suffix denote. -/
def resolveTag? (handles : Handles) (handle suffix : String) : Option String :=
  if handle.isEmpty then some suffix else (handles.lookup handle).map (· ++ suffix)

/-- Events, and the tokens after those that they come from. -/
abbrev Read := List Event × List Token

/-- The anchor and the tag at the start of a node, in either order. -/
def properties? (handles : Handles) : List Token → Option (Properties × List Token)
  | .anchor a :: .tag h s :: ts | .tag h s :: .anchor a :: ts => do
    return (⟨some a, some (← resolveTag? handles h s)⟩, ts)
  | .anchor a :: ts => some (⟨some a, none⟩, ts)
  | .tag h s :: ts => do return (⟨none, some (← resolveTag? handles h s)⟩, ts)
  | ts => some (.none, ts)

/-- A scalar. The tag of one exclamation mark says that it is to be read as a plain one without a
tag. -/
def ofScalar (p : Properties) (plain : Bool) (text : String) : Event :=
  if p.tag = some "!" then .scalar { p with tag := none } plain text else .scalar p plain text

/-- Whether a node may be left out before a token of a block sequence. -/
def endsEntry : Token → Bool
  | .blockEntry | .blockEnd => true
  | _ => false

/-- Whether a node may be left out before a token of a sequence without an indentation of its own.
-/
def endsFlatEntry : Token → Bool
  | .blockEntry | .key | .value | .blockEnd => true
  | _ => false

/-- Whether a key or value may be left out before a token of a block mapping. -/
def endsPart : Token → Bool
  | .key | .value | .blockEnd => true
  | _ => false

/-- Whether a value may be left out before a token of a flow mapping. -/
def endsFlowPart : Token → Bool
  | .flowEntry | .flowMappingEnd => true
  | _ => false

/-- Whether a value may be left out before a token of a pair in a flow sequence. -/
def endsFlowItem : Token → Bool
  | .flowEntry | .flowSequenceEnd => true
  | _ => false

mutual

/-- Reads a node. `block` allows block collections, and `flat` a sequence that is not indented
deeper than the mapping around it. The fuel bounds the nesting of the calls. -/
def node? (handles : Handles) : Nat → Bool → Bool → List Token → Option Read
  | 0, _, _, _ => none
  | _ + 1, _, _, .alias name :: ts => some ([.alias name], ts)
  | fuel + 1, block, flat, ts => do
    let (p, ts) ← properties? handles ts
    let given := p.anchor.isSome || p.tag.isSome
    match ts with
    | .blockEntry :: rest =>
      if flat then
        let (es, ts) ← flatEntries? handles fuel (.blockEntry :: rest)
        return (.startSequence p :: es, ts)
      else if given then return ([ofScalar p true ""], ts)
      else none
    | .scalar plain text :: ts => return ([ofScalar p plain text], ts)
    | .flowSequence :: ts =>
      let (es, ts) ← flowItems? handles fuel true ts
      return (.startSequence p :: es, ts)
    | .flowMapping :: ts =>
      let (es, ts) ← flowPairs? handles fuel true ts
      return (.startMapping p :: es, ts)
    | .blockSequence :: rest =>
      if block then
        let (es, ts) ← entries? handles fuel rest
        return (.startSequence p :: es, ts)
      else if given then return ([ofScalar p true ""], ts)
      else none
    | .blockMapping :: rest =>
      if block then
        let (es, ts) ← pairs? handles fuel rest
        return (.startMapping p :: es, ts)
      else if given then return ([ofScalar p true ""], ts)
      else none
    | ts => if given then return ([ofScalar p true ""], ts) else none

/-- Reads a node, or nothing before a token with a property. -/
def optional? (handles : Handles) :
    Nat → (Token → Bool) → Bool → Bool → List Token → Option Read
  | 0, _, _, _, _ => none
  | fuel + 1, ends, block, flat, ts =>
    if ts.head?.any ends then some ([nothing], ts) else node? handles fuel block flat ts

/-- Reads the entries of a block sequence and its end. -/
def entries? (handles : Handles) : Nat → List Token → Option Read
  | fuel + 1, .blockEntry :: ts => do
    let (e, ts) ← optional? handles fuel endsEntry true false ts
    let (es, ts) ← entries? handles fuel ts
    return (e ++ es, ts)
  | _ + 1, .blockEnd :: ts => some ([.endSequence], ts)
  | _, _ => none

/-- Reads the entries of a sequence that is not indented. It ends before any other token. -/
def flatEntries? (handles : Handles) : Nat → List Token → Option Read
  | 0, _ => none
  | fuel + 1, .blockEntry :: ts => do
    let (e, ts) ← optional? handles fuel endsFlatEntry true false ts
    let (es, ts) ← flatEntries? handles fuel ts
    return (e ++ es, ts)
  | _ + 1, ts => some ([.endSequence], ts)

/-- Reads the keys and values of a block mapping and its end. -/
def pairs? (handles : Handles) : Nat → List Token → Option Read
  | fuel + 1, .key :: ts => do
    let (k, ts) ← optional? handles fuel endsPart true true ts
    let (v, ts) ← blockValue? handles fuel ts
    let (es, ts) ← pairs? handles fuel ts
    return (k ++ v ++ es, ts)
  | _ + 1, .blockEnd :: ts => some ([.endMapping], ts)
  | _, _ => none

/-- Reads the value of a key in a block, if there is one. -/
def blockValue? (handles : Handles) : Nat → List Token → Option Read
  | 0, _ => none
  | fuel + 1, .value :: ts => optional? handles fuel endsPart true true ts
  | _ + 1, ts => some ([nothing], ts)

/-- Reads the items of a flow sequence and its end, with a comma between two of them. An item may be
a pair, which is a mapping of its own. -/
def flowItems? (handles : Handles) : Nat → Bool → List Token → Option Read
  | 0, _, _ => none
  | _ + 1, _, .flowSequenceEnd :: ts => some ([.endSequence], ts)
  | fuel + 1, first, ts => do
    let ts ← if first then some ts else
      match ts with
      | .flowEntry :: ts => some ts
      | _ => none
    match ts with
    | .flowSequenceEnd :: ts => return ([.endSequence], ts)
    | .key :: ts => do
      let (e, ts) ← flowPair? handles fuel ts
      let (es, ts) ← flowItems? handles fuel false ts
      return (.startMapping .none :: e ++ .endMapping :: es, ts)
    | ts => do
      let (e, ts) ← node? handles fuel false false ts
      let (es, ts) ← flowItems? handles fuel false ts
      return (e ++ es, ts)

/-- Reads a pair in a flow sequence after the mark of its key. Where the key is left out, the token
in its place is passed over. -/
def flowPair? (handles : Handles) : Nat → List Token → Option Read
  | 0, _ => none
  | fuel + 1, ts => do
    let (k, ts) ←
      if ts.head?.any fun t => t == .value || endsFlowItem t then some ([nothing], ts.tail)
      else node? handles fuel false false ts
    let (v, ts) ← match ts with
      | .value :: ts => optional? handles fuel endsFlowItem false false ts
      | ts => some ([nothing], ts)
    return (k ++ v, ts)

/-- Reads the pairs of a flow mapping and its end, with a comma between two of them. -/
def flowPairs? (handles : Handles) : Nat → Bool → List Token → Option Read
  | 0, _, _ => none
  | _ + 1, _, .flowMappingEnd :: ts => some ([.endMapping], ts)
  | fuel + 1, first, ts => do
    let ts ← if first then some ts else
      match ts with
      | .flowEntry :: ts => some ts
      | _ => none
    match ts with
    | .flowMappingEnd :: ts => return ([.endMapping], ts)
    | .key :: ts => do
      let (k, ts) ← optional? handles fuel (fun t => t == .value || endsFlowPart t) false false ts
      let (v, ts) ← match ts with
        | .value :: ts => optional? handles fuel endsFlowPart false false ts
        | ts => some ([nothing], ts)
      let (es, ts) ← flowPairs? handles fuel false ts
      return (k ++ v ++ es, ts)
    | ts => do
      let (k, ts) ← node? handles fuel false false ts
      let (es, ts) ← flowPairs? handles fuel false ts
      return (k ++ nothing :: es, ts)

end

/-- The directives at the start of a document: whether a version was given, and the handles, each of
them once. -/
def directives? (version : Bool) (handles : Handles) :
    List Token → Option (Bool × Handles × List Token)
  | .version :: ts => if version then none else directives? true handles ts
  | .handle name tagPrefix :: ts =>
    if (handles.lookup name).isSome then none
    else directives? version ((name, tagPrefix) :: handles) ts
  | ts => some (version || !handles.isEmpty, handles, ts)

/-- Whether nothing of a document's content stands before a token. -/
def endsContent : Token → Bool
  | .version | .handle _ _ | .documentStart | .documentEnd | .streamEnd => true
  | _ => false

/-- The events of the one document in a stream; a stream without a document has none. -/
def ofTokens? (ts : List Token) : Option (List Event) := do
  if ts = [.streamEnd] then return []
  let fuel := 4 * ts.length + 4
  let (directed, handles, ts) ← directives? false [] ts
  let handles := handles ++ standardHandles
  let (es, ts) ← match ts with
    | .documentStart :: ts => optional? handles fuel endsContent true false ts
    | ts => if directed then none else node? handles fuel true false ts
  match ts.dropWhile (· == .documentEnd) with
  | [.streamEnd] => return es
  | _ => none

end Event
end DocTemplate.Yaml
