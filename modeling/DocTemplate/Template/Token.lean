import DocTemplate.Text.Bytes

/-! Tokens of a template and the scanner that cuts a text into them.

A directive starts at a brace: `{#end}` closes a section, `{#name}` opens one, and `{path}` stands
for a value. All other text is literal, and neighbouring literal characters form one token. -/

namespace DocTemplate

/-- What a token stands for. A close written by hand has no name; balancing gives it its opener's.
-/
inductive Token.Kind where
  | literal (text : String)
  | var (path : String)
  | opening (name : String)
  | closing (name : Option String)
deriving DecidableEq, Repr

/-- A token and the bytes of the template that it covers. -/
structure Token where
  kind : Token.Kind
  start : Nat
  length : Nat
deriving DecidableEq, Repr

namespace Token

/-- The byte after a token. Bytes are counted without a bound: the tokens of a text stand inside the
text, whose size fits 64 bits, so that none of these sums leaves 64 bits. -/
def stop (t : Token) : Nat := t.start + t.length

def Kind.isStructural : Kind → Bool
  | .opening _ | .closing _ => true
  | .literal _ | .var _ => false

def isStructural (t : Token) : Bool := t.kind.isStructural

def isNameChar (c : Char) : Bool := c.isAlphanum || c == '_' || c == '.'

/-- The characters a variable path may start with. -/
def isPathStart (c : Char) : Bool := c.isAlpha || c == '_'

/-- The characters of a variable path after its first. -/
def isPathChar (c : Char) : Bool := isNameChar c || c == '-'

/-- The name that closes the innermost section instead of opening one. -/
def closingName : List Char := ['e', 'n', 'd']

/-- A structural token from the name between its hash sign and its closing brace. -/
def Kind.ofName (name : List Char) : Kind :=
  if name = closingName then .closing none else .opening (String.ofList name)

/-- Reads one directive at the start of a text: its kind, its characters, and the text after it. -/
def directive? : List Char → Option (Kind × List Char × List Char)
  | '{' :: '#' :: cs =>
    match cs.takeWhile isNameChar, cs.dropWhile isNameChar with
    | c :: name, '}' :: rest =>
      some (Kind.ofName (c :: name), '{' :: '#' :: (c :: name) ++ ['}'], rest)
    | _, _ => none
  | '{' :: c :: cs =>
    if isPathStart c then
      match cs.dropWhile isPathChar with
      | '}' :: rest =>
        let path := c :: cs.takeWhile isPathChar
        some (.var (String.ofList path), '{' :: path ++ ['}'], rest)
      | _ => none
    else none
  | _ => none

/-- A directive is a beginning of the text. -/
theorem eq_append_of_directive? {cs text rest : List Char} {kind : Kind}
    (h : directive? cs = some (kind, text, rest)) : cs = text ++ rest := by
  unfold directive? at h
  split at h
  · rename_i cs
    split at h
    · rename_i c name rest' hTake hDrop
      simp only [Option.some.injEq, Prod.mk.injEq] at h
      obtain ⟨-, rfl, rfl⟩ := h
      have hSplit := (List.takeWhile_append_dropWhile (p := isNameChar) (l := cs)).symm
      rw [hTake, hDrop] at hSplit
      simp [hSplit]
    · contradiction
  · rename_i c cs _
    split at h
    · split at h
      · rename_i hDrop
        simp only [Option.some.injEq, Prod.mk.injEq] at h
        obtain ⟨-, rfl, rfl⟩ := h
        have hSplit := (List.takeWhile_append_dropWhile (p := isPathChar) (l := cs)).symm
        rw [hDrop] at hSplit
        simp only [List.cons_append, List.append_assoc, List.nil_append]
        rw [← hSplit]
      · contradiction
    · contradiction
  · contradiction

theorem ne_nil_of_directive? {cs text rest : List Char} {kind : Kind}
    (h : directive? cs = some (kind, text, rest)) : text ≠ [] := by
  unfold directive? at h
  split at h
  · split at h
    · simp only [Option.some.injEq, Prod.mk.injEq] at h
      obtain ⟨-, rfl, -⟩ := h
      simp
    · contradiction
  · split at h
    · split at h
      · simp only [Option.some.injEq, Prod.mk.injEq] at h
        obtain ⟨-, rfl, -⟩ := h
        simp
      · contradiction
    · contradiction
  · contradiction

theorem length_lt_of_directive? {cs text rest : List Char} {kind : Kind}
    (h : directive? cs = some (kind, text, rest)) : rest.length < cs.length := by
  have hText := List.length_pos_iff.mpr (ne_nil_of_directive? h)
  rw [eq_append_of_directive? h, List.length_append]
  omega

/-- The literal token of `text`, if there is any text, ending at byte `stop`. -/
def literalEnding (text : List Char) (stop : Nat) : List Token :=
  if text.isEmpty then []
  else
    let length := Text.byteLength text
    [⟨.literal (String.ofList text), stop - length, length⟩]

/-- Scans the text from byte `position` on. `pending` holds, last character first, the literal
text just before it. -/
def scanFrom (position : Nat) (pending : List Char) (cs : List Char) : List Token :=
  match _h : directive? cs with
  | some (kind, text, rest) =>
    let length := Text.byteLength text
    literalEnding pending.reverse position ++
      ⟨kind, position, length⟩ :: scanFrom (position + length) [] rest
  | none =>
    match cs with
    | [] => literalEnding pending.reverse position
    | c :: cs => scanFrom (position + c.utf8Size) (c :: pending) cs
termination_by cs.length
decreasing_by
  · exact length_lt_of_directive? (by assumption)
  · simp

/-- Cuts a template into tokens. Every text has tokens: what is no directive is literal. -/
def scan (raw : String) : List Token := scanFrom 0 [] raw.toList

end Token
end DocTemplate
