import DocTemplate.Yaml.Event
import DocTemplate.Yaml.Plain

/-! The value of a YAML document, with its aliases replaced by what they name. -/

namespace DocTemplate.Yaml

/-- An event in which an alias has the number of its anchor. -/
inductive Linked where
  | scalar (tag : Option String) (plain : Bool) (text : String)
  | alias (anchor : Nat)
  | startSequence (tag : Option String)
  | endSequence
  | startMapping (tag : Option String)
  | endMapping
deriving DecidableEq, Repr

/-- The events of a document, and for the number of each anchor the events that start with its
node. -/
structure Document where
  events : List Linked
  targets : List (Nat × List Linked)
deriving Repr

namespace Document

/-- The numbers of the anchors by name, the latest anchor of each name. -/
abbrev Anchors := List (String × Nat)

/-- Gives an anchor a number: the number of names that were in use before it. -/
def number (name : String) (anchors : Anchors) : Anchors :=
  (name, anchors.length) :: anchors.filter fun entry => entry.1 ≠ name

/-- The event without its anchor, or none for an alias that names no anchor before it. -/
def link? (anchors : Anchors) : Event → Option Linked
  | .scalar p plain text => some (.scalar p.tag plain text)
  | .alias name => (anchors.lookup name).map .alias
  | .startSequence p => some (.startSequence p.tag)
  | .endSequence => some .endSequence
  | .startMapping p => some (.startMapping p.tag)
  | .endMapping => some .endMapping

/-- The name of the anchor at an event. -/
def anchor? : Event → Option String
  | .scalar p _ _ | .startSequence p | .startMapping p => p.anchor
  | .alias _ | .endSequence | .endMapping => none

/-- Resolves the names of aliases. Of two anchors with one number, the later one holds. -/
def ofEvents? (anchors : Anchors) : List Event → Option Document
  | [] => some ⟨[], []⟩
  | e :: es => do
    let linked ← link? anchors e
    match anchor? e with
    | none => do
      let d ← ofEvents? anchors es
      return { d with events := linked :: d.events }
    | some name => do
      let anchors' := number name anchors
      let d ← ofEvents? anchors' es
      let events := linked :: d.events
      let target := (anchors.length, events)
      let taken := (d.targets.lookup anchors.length).isSome
      return ⟨events, if taken then d.targets else target :: d.targets⟩

/-! ### Values -/

/-- The deepest nesting of collections. -/
def greatestDepth : Nat := 128

/-- The number of aliases that a document may follow for each of its events. -/
def aliasesPerEvent : Nat := 100

/-- The value of a scalar. Of the tags only those of the core types matter, and tags of an
application's own are refused. -/
def scalarValue? (tag : Option String) (plain : Bool) (text : String) : Option Value :=
  match tag with
  | some "tag:yaml.org,2002:bool" => (bool? text).map .bool
  | some "tag:yaml.org,2002:int" => (integer? text).join
  | some "tag:yaml.org,2002:float" => floatValue? text
  | some "tag:yaml.org,2002:null" => if isNull text then some .null else none
  | some tag => if tag.startsWith "!" then none else some (.string text)
  | none => if plain then plainValue? text else some (.string text)

/-- Whether a collection with a tag is one of the data. -/
def isPlainTag (tag : Option String) : Bool := !(tag.any fun tag => tag.startsWith "!")

/-- A value, the events after it, and the number of aliases that may still be followed. -/
abbrev Read (α : Type) := α × List Linked × Nat

mutual

/-- Reads the value that a list of events starts with. `depth` bounds the nesting of collections,
and `jumps` the aliases. The fuel bounds the nesting of the calls. -/
def value? (d : Document) : Nat → Nat → Nat → List Linked → Option (Read Value)
  | 0, _, _, _ => none
  | fuel + 1, depth, jumps, es =>
    match es with
    | .scalar tag plain text :: es => (scalarValue? tag plain text).map (·, es, jumps)
    | .alias anchor :: es =>
      match jumps, d.targets.lookup anchor with
      | jumps + 1, some target => do
        let (v, _, jumps) ← value? d fuel depth jumps target
        return (v, es, jumps)
      | _, _ => none
    | .startSequence tag :: es =>
      match depth with
      | depth + 1 =>
        if isPlainTag tag then items? d fuel depth jumps [] es else none
      | 0 => none
    | .startMapping tag :: es =>
      match depth with
      | depth + 1 =>
        if isPlainTag tag then pairs? d fuel depth jumps [] es else none
      | 0 => none
    | _ => none

/-- Reads the items of a sequence after those in `read`, last first. -/
def items? (d : Document) : Nat → Nat → Nat → List Value → List Linked → Option (Read Value)
  | 0, _, _, _, _ => none
  | _ + 1, _, jumps, read, .endSequence :: es => some (.sequence read.reverse, es, jumps)
  | fuel + 1, depth, jumps, read, es => do
    let (v, es, jumps) ← value? d fuel depth jumps es
    items? d fuel depth jumps (v :: read) es

/-- Reads the pairs of a mapping after those in `read`, last first. -/
def pairs? (d : Document) :
    Nat → Nat → Nat → List (String × Value) → List Linked → Option (Read Value)
  | 0, _, _, _, _ => none
  | _ + 1, _, jumps, read, .endMapping :: es =>
    some (.mapping (.ofList read.reverse), es, jumps)
  | fuel + 1, depth, jumps, read, es => do
    let (key, es, jumps) ← key? d fuel jumps es
    let (v, es, jumps) ← value? d fuel depth jumps es
    pairs? d fuel depth jumps ((key, v) :: read) es

/-- Reads a key, which is the text of a scalar as written. -/
def key? (d : Document) : Nat → Nat → List Linked → Option (Read String)
  | 0, _, _ => none
  | _ + 1, jumps, .scalar _ _ text :: es => some (text, es, jumps)
  | fuel + 1, jumps, .alias anchor :: es =>
    match jumps, d.targets.lookup anchor with
    | jumps + 1, some target => do
      let (key, _, jumps) ← key? d fuel jumps target
      return (key, es, jumps)
    | _, _ => none
  | _, _, _ => none

end

/-- The value of a document; that of one without events is null. Between two aliases that it
follows, the value reads each event at most once. -/
def toValue? (d : Document) : Option Value :=
  if d.events.isEmpty then some .null
  else
    let jumps := d.events.length * aliasesPerEvent
    let fuel := (jumps + 1) * (d.events.length + 1)
    match value? d fuel greatestDepth jumps d.events with
    | some (v, _, _) => some v
    | none => none

end Document

/-- Reads a data file. A document that is null, such as an empty one, is an empty mapping. -/
def readValue? (text : String) : Option Value := do
  let events ← Event.ofTokens? (← Token.scan? text)
  match ← (← Document.ofEvents? [] events).toValue? with
  | .null => return .empty
  | v => return v

end DocTemplate.Yaml
