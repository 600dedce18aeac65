import DocTemplate.Template.Compiled

/-! A cache of compiled templates by name.

Each compilation makes an object of its own. A changed template replaces the object under its name
and leaves the old one to those who hold it. -/

namespace DocTemplate

/-- A compiled template and its number among all that a cache made. -/
structure Cache.Object where
  serial : Nat
  template : Template
deriving Repr

/-- The objects by name, each name once; how often a look-up found what it wanted and how often it
did not; and the number of objects made. -/
structure Cache where
  entries : List (String × Cache.Object)
  hits : Nat
  misses : Nat
  made : Nat
deriving Repr

namespace Cache

def empty : Cache := ⟨[], 0, 0, 0⟩

def find? (c : Cache) (name : String) : Option Object := c.entries.lookup name

def size (c : Cache) : Nat := c.entries.length

def isEmpty (c : Cache) : Bool := c.entries.isEmpty

def countHit (c : Cache) : Cache := { c with hits := c.hits + 1 }

def countMiss (c : Cache) : Cache := { c with misses := c.misses + 1 }

/-- Looks a name up and counts whether it was there. -/
def get (c : Cache) (name : String) : Option Object × Cache :=
  match c.find? name with
  | some object => (some object, c.countHit)
  | none => (none, c.countMiss)

/-- The entries without those of a name. -/
def without (name : String) (entries : List (String × Object)) : List (String × Object) :=
  entries.filter fun entry => entry.1 ≠ name

/-- Compiles a text and puts it under a name. -/
def insert (c : Cache) (name raw : String) : Object × Cache :=
  let object : Object := ⟨c.made, .compile raw⟩
  (object, { c with entries := (name, object) :: without name c.entries, made := c.made + 1 })

/-- The object under a name if it was compiled from the same text, and otherwise a new one. -/
def getOrCompile (c : Cache) (name raw : String) : Object × Cache :=
  match c.find? name with
  | some object =>
    if object.template.fingerprint = Template.fingerprintOf raw then (object, c.countHit)
    else c.countMiss.insert name raw
  | none => c.countMiss.insert name raw

/-- Removes a name and tells whether it was there. -/
def invalidate (c : Cache) (name : String) : Bool × Cache :=
  ((c.find? name).isSome, { c with entries := without name c.entries })

/-- Removes all names and forgets the counts. -/
def clear (c : Cache) : Cache := ⟨[], 0, 0, c.made⟩

/-- The share of hits in hundredths, rounded after the division and again after the product; zero
if nothing was looked up. -/
def hitRate (c : Cache) : Binary64 :=
  let rate := do
    let hits ← Binary64.ofNat? c.hits
    let total ← Binary64.ofNat? (c.hits + c.misses)
    let hundred ← Binary64.ofNat? 100
    let share ← hits.div? total
    share.mul? hundred
  if c.hits + c.misses = 0 then .zero false else rate.getD (.zero false)

end Cache
end DocTemplate
