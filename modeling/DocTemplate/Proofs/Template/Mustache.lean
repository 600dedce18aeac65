import DocTemplate.Proofs.Template.Pieces
import DocTemplate.Proofs.Template.Repair

/-! What a Mustache export tells of its template. Who reads an export from left to right and knows
the open sections tells its tags from its text, but for one tag: text is exported as it stands, so
text in a section may hold the very tag that closes the section. Templates without such text have
the same pieces if their exports are the same, and then they make the same documents. -/

namespace DocTemplate

open Token

namespace Token

/-! ### Texts that hold the end of their section -/

/-- The Mustache tag that closes the section `name`. -/
def sectionEnd (name : String) : String := (Kind.closing (some name)).mustacheText

def Kind.Holds (part : String) : Kind → Prop
  | .literal text => part.toList <:+: text.toList
  | .var _ | .opening _ | .closing _ => False

/-- No text holds the Mustache tag that closes the section around it. Around the tokens the sections
`names` are open, innermost first. -/
def Unconfused : List String → List Token → Prop
  | _, [] => True
  | names, t :: ts =>
    (∀ name ∈ names.head?, ¬t.kind.Holds (sectionEnd name)) ∧
      ∀ names' ∈ Balanced.read? names t, Unconfused names' ts

instance (part : String) (kind : Kind) : Decidable (kind.Holds part) :=
  match kind with
  | .literal text => inferInstanceAs (Decidable (part.toList <:+: text.toList))
  | .var _ | .opening _ | .closing _ => isFalse id

instance Unconfused.decidable :
    (names : List String) → (ts : List Token) → Decidable (Unconfused names ts)
  | _, [] => isTrue trivial
  | names, t :: ts =>
    have := fun names' => Unconfused.decidable names' ts
    inferInstanceAs (Decidable ((∀ name ∈ names.head?, ¬t.kind.Holds (sectionEnd name)) ∧
      ∀ names' ∈ Balanced.read? names t, Unconfused names' ts))

theorem toMustache_cons (t : Token) (ts : List Token) :
    toMustache (t :: ts) = t.kind.mustacheText ++ toMustache ts := by
  rw [toMustache, List.map_cons, String.join_cons, toMustache]

/-! ### Tags -/

/-- The kinds that are written as a tag inside the sections `names`. -/
inductive IsTag (names : List String) : Kind → Prop
  | var (path : String) (isPath : IsPath path.toList) : IsTag names (.var path)
  | opening (name : String) (isName : (Kind.opening name).IsDirective)
    (room : names.length < maxSectionDepth) : IsTag names (.opening name)
  | closing (name : String) (isName : IsName name.toList) (innermost : names.head? = some name) :
    IsTag names (.closing (some name))

/-- What a tag has between its double braces. -/
def Kind.mark : Kind → List Char
  | .literal text => text.toList
  | .var path => path.toList
  | .opening name => '#' :: name.toList
  | .closing name => '/' :: (name.getD "").toList

/-- What a tag has after its first brace. -/
def Kind.tagTail (kind : Kind) : List Char := '{' :: (kind.mark ++ ['}', '}'])

variable {names : List String} {kind kind' : Kind}

theorem IsTag.toList_mustacheText (h : IsTag names kind) :
    kind.mustacheText.toList = '{' :: kind.tagTail := by
  cases h <;> simp [Kind.mustacheText, Kind.tagTail, Kind.mark]

theorem IsName.notMem {name : List Char} (h : IsName name) {c : Char} (hc : isNameChar c = false) :
    c ∉ name := by
  intro hMem
  rw [isNameChar_iff.mpr (h.2 c hMem)] at hc
  contradiction

theorem IsTag.notMem_mark (h : IsTag names kind) : '{' ∉ kind.mark ∧ '}' ∉ kind.mark := by
  cases h with
  | var path isPath =>
    have hNot : ∀ c, isPathChar c = false → c ∉ path.toList := by
      intro c hc hMem
      rw [isPathChar_iff.mpr (isPath.inName c hMem)] at hc
      contradiction
    exact ⟨hNot '{' (by decide), hNot '}' (by decide)⟩
  | opening name isName =>
    have hOpen := isName.1.notMem (c := '{') (by decide)
    have hClose := isName.1.notMem (c := '}') (by decide)
    simp [Kind.mark, hOpen, hClose]
  | closing name isName =>
    have hOpen := isName.notMem (c := '{') (by decide)
    have hClose := isName.notMem (c := '}') (by decide)
    simp [Kind.mark, hOpen, hClose]

/-- A variable starts with a letter or a line, and so with neither of the signs. -/
theorem IsPath.ne_cons {path rest : List Char} (h : IsPath path) {c : Char}
    (hc : isPathStart c = false) : path ≠ c :: rest := by
  rintro rfl
  rw [isPathStart_iff.mpr h.1] at hc
  contradiction

theorem IsTag.eq_of_mark (h : IsTag names kind) (h' : IsTag names kind')
    (hMark : kind.mark = kind'.mark) : kind = kind' := by
  cases h with
  | var path isPath =>
    cases h' with
    | var path' => exact congrArg Kind.var (String.toList_inj.mp hMark)
    | opening | closing => exact absurd hMark (isPath.ne_cons (by decide))
  | opening name =>
    cases h' with
    | var path' isPath' => exact absurd hMark.symm (isPath'.ne_cons (by decide))
    | opening name' => exact congrArg Kind.opening (String.toList_inj.mp (List.cons.inj hMark).2)
    | closing => exact absurd (List.cons.inj hMark).1 (by decide)
  | closing name isName innermost =>
    cases h' with
    | var path' isPath' => exact absurd hMark.symm (isPath'.ne_cons (by decide))
    | opening => exact absurd (List.cons.inj hMark).1 (by decide)
    | closing name' isName' innermost' => rw [innermost.symm.trans innermost']

/-- Texts without a closing brace end where the first such brace stands. -/
theorem append_brace_inj {a b rest rest' : List Char} (ha : '}' ∉ a) (hb : '}' ∉ b)
    (h : a ++ '}' :: rest = b ++ '}' :: rest') : a = b ∧ rest = rest' := by
  have hOther : ∀ {cs : List Char}, '}' ∉ cs → ∀ c ∈ cs, (c != '}') = true := by
    rintro cs hcs c hc
    exact bne_iff_ne.mpr (ne_of_mem_of_not_mem hc hcs)
  obtain ⟨hTake, hDrop⟩ := span_brace (hOther ha) rfl rest
  obtain ⟨hTake', hDrop'⟩ := span_brace (hOther hb) rfl rest'
  rw [h] at hTake hDrop
  exact ⟨hTake.symm.trans hTake', (List.cons.inj (hDrop.symm.trans hDrop')).2⟩

/-- Where two tags start, they are the same tag. -/
theorem IsTag.unique (h : IsTag names kind) (h' : IsTag names kind') {rest rest' : List Char}
    (hEq : kind.mustacheText.toList ++ rest = kind'.mustacheText.toList ++ rest') :
    kind = kind' ∧ rest = rest' := by
  rw [h.toList_mustacheText, h'.toList_mustacheText] at hEq
  simp only [Kind.tagTail, List.cons_append, List.append_assoc, List.nil_append, List.cons.injEq,
    true_and] at hEq
  obtain ⟨hMark, hRest⟩ := append_brace_inj h.notMem_mark.2 h'.notMem_mark.2 hEq
  exact ⟨h.eq_of_mark h' hMark, (List.cons.inj hRest).2⟩

/-! ### What follows a text -/

/-- A text may be followed by nothing, or by a brace that does not make a tag of the text's last
brace. -/
structure Guards (names : List String) (rest : List Char) : Prop where
  head : ∀ c ∈ rest.head?, c = '{'
  apart : ∀ kind, IsTag names kind → ¬kind.tagTail <+: rest

theorem guards_nil : Guards names [] :=
  ⟨by simp, fun _ _ hPrefix => by simpa [Kind.tagTail] using List.prefix_nil.mp hPrefix⟩

theorem IsTag.not_prefix_braces (h : IsTag names kind) (rest : List Char) :
    ¬kind.tagTail <+: '{' :: '{' :: rest := by
  intro hPrefix
  have hMark := (List.cons_prefix_cons.mp hPrefix).2
  cases hCases : kind.mark with
  | nil => simp [hCases] at hMark
  | cons c cs =>
    rw [hCases, List.cons_append, List.cons_prefix_cons] at hMark
    exact h.notMem_mark.1 (by simp [hCases, hMark.1])

theorem IsTag.guards (h : IsTag names kind') (names' : List String) (rest : List Char) :
    Guards names' (kind'.mustacheText.toList ++ rest) := by
  rw [h.toList_mustacheText]
  exact ⟨by simp [eq_comm], fun kind hKind => hKind.not_prefix_braces _⟩

/-- A structural directive that has become text is no tag even inside braces, if no section of its
name may open here. -/
theorem guards_ofName {name : List Char} (h : IsName name)
    (hClosed : name = closingName ∨ maxSectionDepth ≤ names.length) (rest : List Char) :
    Guards names ((Kind.ofName name).directiveText.toList ++ rest) := by
  rw [toList_ofName]
  refine ⟨by simp [eq_comm], fun kind hKind hPrefix => ?_⟩
  obtain ⟨more, hMore⟩ := (List.cons_prefix_cons.mp hPrefix).2
  have hNot : '}' ∉ '#' :: name := by simp [h.notMem (c := '}') (by decide)]
  have hEq : kind.mark ++ '}' :: '}' :: more = '#' :: name ++ '}' :: rest := by simpa using hMore
  obtain ⟨hName, -⟩ := append_brace_inj hKind.notMem_mark.2 hNot hEq
  cases hKind with
  | var path isPath => exact isPath.ne_cons (by decide) hName
  | closing => exact absurd (List.cons.inj hName).1 (by decide)
  | opening other isName room =>
    rcases hClosed with rfl | hFull
    · exact isName.2 (String.toList_inj.mp (List.cons.inj hName).2)
    · omega

/-- A tag that starts in a text also ends in it. -/
theorem IsTag.prefix_of_append (h : IsTag names kind) {s rest : List Char} (hne : s ≠ [])
    (hRest : Guards names rest) (hPrefix : kind.mustacheText.toList <+: s ++ rest) :
    kind.mustacheText.toList <+: s := by
  rcases List.prefix_or_prefix_of_prefix hPrefix (List.prefix_append s rest) with
    hInside | ⟨beyond, hOver⟩
  · exact hInside
  · rw [← hOver, List.prefix_append_right_inj] at hPrefix
    cases s with
    | nil => contradiction
    | cons c s =>
      have hTail := (List.cons.inj (hOver.trans h.toList_mustacheText)).2
      cases s with
      | nil =>
        -- Only the first brace is in the text.
        obtain rfl : beyond = kind.tagTail := hTail
        exact absurd hPrefix (hRest.apart kind h)
      | cons d s =>
        obtain ⟨-, hMark⟩ := List.cons.inj hTail
        cases beyond with
        | nil => simp [← hOver]
        | cons e beyond =>
          obtain ⟨more, rfl⟩ := hPrefix
          obtain rfl : e = '{' := hRest.head e (by simp)
          have hMem : '{' ∈ kind.mark ++ ['}', '}'] := by simp [← hMark]
          simp [h.notMem_mark.1] at hMem

end Token

/-! ### Reading the pieces of an export -/

namespace Piece

/-- The piece as it is exported. -/
def text : Piece → List Char
  | .char c => [c]
  | .tag kind => kind.mustacheText.toList

def texts (ps : List Piece) : List Char := ps.flatMap text

@[simp] theorem texts_nil : texts [] = [] := rfl

@[simp] theorem texts_cons (p : Piece) (ps : List Piece) : texts (p :: ps) = p.text ++ texts ps :=
  List.flatMap_cons

@[simp] theorem texts_append (ps qs : List Piece) : texts (ps ++ qs) = texts ps ++ texts qs :=
  List.flatMap_append

theorem texts_chars (cs : List Char) : texts (cs.map .char) = cs := by
  induction cs with
  | nil => rfl
  | cons c cs ih => rw [List.map_cons, texts_cons, ih]; rfl

theorem texts_ofKind (kind : Token.Kind) : texts (ofKind kind) = kind.mustacheText.toList := by
  cases kind with
  | literal text => exact texts_chars text.toList
  | var | opening | closing => exact List.append_nil _

theorem texts_ofTokens (ts : List Token) : texts (ofTokens ts) = (toMustache ts).toList := by
  induction ts with
  | nil => rfl
  | cons t ts ih =>
    rw [ofTokens_cons, texts_append, texts_ofKind, ih, toMustache_cons, String.toList_append]

/-- Inside the sections `names`, whatever may be read as a tag is one. -/
def Legible : List String → List Piece → Prop
  | _, [] => True
  | names, .char c :: ps =>
    (∀ kind, IsTag names kind → ¬kind.mustacheText.toList <+: c :: texts ps) ∧ Legible names ps
  | names, .tag kind :: ps =>
    IsTag names kind ∧
      ∃ names', Balanced.read? names (tag kind).token = some names' ∧ Legible names' ps

theorem texts_tag_ne_nil {names : List String} {kind : Token.Kind} (h : IsTag names kind)
    (ps : List Piece) : texts (.tag kind :: ps) ≠ [] := by
  rw [texts_cons, text, h.toList_mustacheText, List.cons_append]
  exact List.cons_ne_nil _ _

theorem Legible.eq_of_texts {names : List String} {ps qs : List Piece} (hp : Legible names ps)
    (hq : Legible names qs) (h : texts ps = texts qs) : ps = qs := by
  induction ps generalizing names qs with
  | nil =>
    cases qs with
    | nil => rfl
    | cons q qs =>
      cases q with
      | char c => simp [text] at h
      | tag kind => exact absurd h.symm (texts_tag_ne_nil hq.1 qs)
  | cons p ps ih =>
    cases p with
    | char c =>
      cases qs with
      | nil => simp [text] at h
      | cons q qs =>
        cases q with
        | char d =>
          obtain ⟨rfl, hTail⟩ := List.cons.inj h
          rw [ih hp.2 hq.2 hTail]
        | tag kind => exact absurd ⟨texts qs, h.symm⟩ (hp.1 kind hq.1)
    | tag kind =>
      cases qs with
      | nil => exact absurd h (texts_tag_ne_nil hp.1 ps)
      | cons q qs =>
        cases q with
        | char d => exact absurd ⟨texts ps, h⟩ (hq.1 kind hp.1)
        | tag kind' =>
          obtain ⟨hTag, names', hRead, hRest⟩ := hp
          obtain ⟨hTag', names'', hRead', hRest'⟩ := hq
          obtain ⟨rfl, hTail⟩ := hTag.unique hTag' h
          obtain rfl : names' = names'' := Option.some.inj (hRead.symm.trans hRead')
          rw [ih hRest hRest' hTail]

/-! ### The pieces of a balanced stream -/

variable {names : List String}

/-- A text is read as its characters if no tag starts in it. -/
theorem Legible.chars {cs : List Char} {ps : List Piece}
    (hText : ∀ s, s <:+ cs → s ≠ [] → ∀ kind, IsTag names kind →
      ¬kind.mustacheText.toList <+: s ++ texts ps)
    (h : Legible names ps) : Legible names (cs.map .char ++ ps) := by
  induction cs with
  | nil => exact h
  | cons c cs ih =>
    refine ⟨?_, ih fun s hs => hText s (hs.trans (List.suffix_cons c cs))⟩
    have hTexts : texts (cs.map .char ++ ps) = cs ++ texts ps := by rw [texts_append, texts_chars]
    have hHere := hText (c :: cs) List.suffix_rfl (List.cons_ne_nil c cs)
    rwa [List.cons_append, ← hTexts] at hHere

/-- No tag starts in a directive that has become text, whose second character is no brace. -/
theorem Legible.directive {kind : Token.Kind} (hKind : kind.IsDirective) {ps : List Piece}
    (h : Legible names ps) :
    Legible names (ofKind (.literal kind.directiveText) ++ ps) := by
  obtain ⟨inner, hText, hBrace, -⟩ := exists_directiveText_eq_braces hKind
  rw [ofKind, hText]
  refine Legible.chars (fun s hs hne other hTag hPrefix => ?_) h
  rw [hTag.toList_mustacheText, Token.Kind.tagTail] at hPrefix
  have hInner : '{' ∉ inner ++ ['}'] := by simp [hBrace]
  rcases List.suffix_cons_iff.mp hs with rfl | hSuffix
  · have hSecond := (List.cons_prefix_cons.mp hPrefix).2
    cases inner with
    | nil => simp at hSecond
    | cons c inner =>
      obtain rfl := (List.cons_prefix_cons.mp hSecond).1
      simp at hBrace
  · obtain ⟨c, s, rfl⟩ := List.exists_cons_of_ne_nil hne
    obtain rfl := (List.cons_prefix_cons.mp hPrefix).1
    exact hInner (hSuffix.subset List.mem_cons_self)

/-- No tag starts in a text of the scanner that does not hold the end of its section. -/
theorem Legible.literal {text : String} (hCanonical : (Token.Kind.literal text).IsCanonical)
    (hHolds : ∀ name ∈ names.head?, ¬(Token.Kind.literal text).Holds (sectionEnd name))
    {ps : List Piece} (hRest : Guards names (texts ps)) (h : Legible names ps) :
    Legible names (ofKind (.literal text) ++ ps) := by
  refine Legible.chars (fun s hs hne kind hTag hPrefix => ?_) h
  have hInside := hTag.prefix_of_append hne hRest hPrefix
  have hInfix : kind.mustacheText.toList <:+: text.toList := hInside.isInfix.trans hs.isInfix
  -- The inner braces of a variable or an open make a directive of the scanner's own.
  have hDirective : ∀ inner : Token.Kind, inner.IsDirective →
      kind.mustacheText.toList = '{' :: (inner.directiveText.toList ++ ['}']) → False := by
    intro inner hInner hMustache
    rw [hMustache] at hInside
    obtain ⟨c, s, rfl⟩ := List.exists_cons_of_ne_nil hne
    have hStarts := (List.cons_prefix_cons.mp hInside).2
    refine hCanonical.2 s ((List.suffix_cons c s).trans hs) ⟨inner, hInner, ?_⟩
    exact (List.prefix_append _ _).trans hStarts
  cases hTag with
  | var path isPath =>
    exact hDirective (.var path) isPath (by simp [Kind.mustacheText, Kind.directiveText])
  | opening name isName =>
    exact hDirective (.opening name) isName (by simp [Kind.mustacheText, Kind.directiveText])
  | closing name isName innermost => exact hHolds name innermost hInfix

end Piece

namespace Nesting

open Piece

/-- The balanced stream of the tokens when they come in the state `n`. -/
def stream (n : Nesting) (ts : List Token) : List Token :=
  ((n.pushAll ts).1 ++ (n.pushAll ts).2.closeAll).map Repair.token

theorem stream_cons (n : Nesting) (t : Token) (ts : List Token) :
    n.stream (t :: ts) = (n.push t).1.token :: (n.push t).2.stream ts := rfl

/-- All open sections have names of the grammar. -/
def Named (n : Nesting) : Prop := ∀ name ∈ n.names, IsName name.toList

theorem named_empty : Nesting.empty.Named := by simp [Named, names, empty]

theorem Rule.named {n : Nesting} {t : Token} {result : Repair × Nesting} (h : Rule n t result)
    (hn : n.Named) (ht : t.kind.IsCanonical) : result.2.Named := by
  cases h with
  | literal | var | demote | closeDemoted | orphan => exact hn
  | open_ name start length room => exact List.forall_mem_cons.mpr ⟨ht.1, hn⟩
  | close name start length o rest none_waiting innermost =>
    rw [Named, names, innermost, List.map_cons] at hn
    exact (List.forall_mem_cons.mp hn).2

theorem isTag_close {n : Nesting} (hn : n.Named) {o : Opened} {rest : List Opened}
    (innermost : n.opened = o :: rest) : IsTag n.names (.closing (some o.name)) := by
  have hNames : n.names = o.name :: rest.map Opened.name := by
    rw [names, innermost, List.map_cons]
  rw [Named, hNames] at hn
  rw [hNames]
  exact .closing o.name (List.forall_mem_cons.mp hn).1 rfl

/-- After a text comes a directive, which stays a tag or becomes text, or the closes at the end. -/
theorem guards_stream {position : Nat} {ts : List Token} (h : Canonical position ts)
    (hHead : ∀ t ∈ ts.head?, ¬t.kind.IsLiteral) {n : Nesting} (hn : n.Named) :
    Guards n.names (toMustache (n.stream ts)).toList := by
  cases ts with
  | nil =>
    show Guards n.names (toMustache (n.closeAll.map Repair.token)).toList
    cases hOpened : n.opened with
    | nil =>
      rw [closeAll, hOpened]
      exact guards_nil
    | cons o rest =>
      rw [closeAll, hOpened, List.map_cons, List.map_cons, toMustache_cons, String.toList_append]
      exact (isTag_close hn hOpened).guards _ _
  | cons t ts =>
    obtain ⟨-, -, hKind, -, -⟩ := canonical_cons.mp h
    replace hKind := hKind.isDirective (hHead t rfl)
    have hRule := rule_push n t
    rw [stream_cons, toMustache_cons, String.toList_append]
    generalize n.push t = result at hRule ⊢
    cases hRule with
    | literal => exact hKind.elim
    | var path =>
      have hTag : IsTag n.names (.var path) := .var path hKind
      exact hTag.guards _ _
    | open_ name start length room =>
      have hTag : IsTag n.names (.opening name) := .opening name hKind (by rwa [length_names])
      exact hTag.guards _ _
    | close name start length o rest none_waiting innermost =>
      exact (isTag_close hn innermost).guards _ _
    | demote name start length full =>
      obtain ⟨cs, hName, hEq⟩ := eq_ofName hKind rfl
      have hText : Kind.mustacheText (.literal (openTag name)) = (Kind.ofName cs).directiveText :=
        congrArg Kind.directiveText hEq
      rw [hText]
      exact guards_ofName hName (.inr (by rwa [length_names])) _
    | closeDemoted | orphan => exact guards_ofName isName_closingName (.inl rfl) _

theorem legible_closes (stop : Nat) {opened : List Opened}
    (h : ∀ name ∈ opened.map Opened.name, IsName name.toList) :
    Legible (opened.map Opened.name)
      (Piece.ofTokens ((opened.map (Opened.close stop)).map Repair.token)) := by
  induction opened with
  | nil => trivial
  | cons o opened ih =>
    rw [List.map_cons, List.forall_mem_cons] at h
    exact ⟨.closing o.name h.1 rfl, opened.map Opened.name, if_pos rfl, ih h.2⟩

/-- The balanced stream of a canonical list can be read from its export. -/
theorem legible_stream {position : Nat} {ts : List Token} (h : Canonical position ts) {n : Nesting}
    (hn : n.Named) (hText : Unconfused n.names (n.stream ts)) :
    Legible n.names (Piece.ofTokens (n.stream ts)) := by
  induction ts generalizing position n with
  | nil => exact legible_closes n.stop hn
  | cons t ts ih =>
    obtain ⟨-, -, hKind, hHead, hTail⟩ := canonical_cons.mp h
    have hRule := rule_push n t
    obtain ⟨hHolds, hRest⟩ := hText
    have hLegible := ih hTail (hRule.named hn hKind) (hRest _ hRule.read?)
    have hRead := hRule.read?
    rw [stream_cons, ofTokens_cons]
    generalize n.push t = result at hRule hHolds hLegible hRead ⊢
    cases hRule with
    | literal text start length =>
      have hReached : (n.reach (start + length)).Named := hn
      refine hLegible.literal hKind hHolds ?_
      rw [texts_ofTokens]
      exact guards_stream hTail (fun u hu hBoth => hHead u hu ⟨⟨text, rfl⟩, hBoth⟩) hReached
    | var path => exact ⟨.var path hKind, _, hRead, hLegible⟩
    | open_ name start length room =>
      have hTag : IsTag n.names (.opening name) := .opening name hKind (by rwa [length_names])
      exact ⟨hTag, _, hRead, hLegible⟩
    | close name start length o rest none_waiting innermost =>
      exact ⟨isTag_close hn innermost, _, hRead, hLegible⟩
    | demote name =>
      have hOpen : (Kind.opening name).IsDirective := hKind
      exact hLegible.directive hOpen
    | closeDemoted | orphan =>
      have hClose : (Kind.closing none).IsDirective := rfl
      exact hLegible.directive hClose

end Nesting

namespace Template

theorem legible_compile {raw : String} (h : Unconfused [] (compile raw).tokens) :
    Piece.Legible [] (Piece.ofTokens (compile raw).tokens) :=
  Nesting.legible_stream (canonical_scan raw) Nesting.named_empty h

/-- The export of a template determines its documents, provided that no text holds the Mustache tag
that closes the section around it. -/
theorem output_eq_of_toMustache_eq {raw raw' : String} (h : Unconfused [] (compile raw).tokens)
    (h' : Unconfused [] (compile raw').tokens)
    (hExport : toMustache (compile raw).tokens = toMustache (compile raw').tokens)
    (context : Value) :
    ((compile raw).render context).output = ((compile raw').render context).output := by
  have hPieces : Piece.ofTokens (compile raw).tokens = Piece.ofTokens (compile raw').tokens := by
    refine (legible_compile h).eq_of_texts (legible_compile h') ?_
    rw [Piece.texts_ofTokens, Piece.texts_ofTokens, hExport]
  exact Node.output_render_of_pieces (Balanced.isNested_ofTokens _) (Balanced.isNested_ofTokens _)
    hPieces context

/-- A section that its closing directive ends and one that the template's end does, each around the
Mustache tag that closes another section. -/
theorem output_eq_of_toMustache_eq_unclosed :
    let closed := "\x7b#a\x7d\x7bx\x7d\x7b\x7b/b\x7d\x7d\x7b#end\x7d"
    let unclosed := "\x7b#a\x7d\x7bx\x7d\x7b\x7b/b\x7d\x7d"
    Unconfused [] (compile closed).tokens ∧ Unconfused [] (compile unclosed).tokens ∧
      toMustache (compile closed).tokens = toMustache (compile unclosed).tokens ∧
      ∀ context, ((compile closed).render context).output =
        ((compile unclosed).render context).output := by
  intro closed unclosed
  have hClosed : scan closed = [⟨.opening "a", 0, 4⟩, ⟨.var "x", 4, 3⟩,
      ⟨.literal "\x7b\x7b/b\x7d\x7d", 7, 6⟩, ⟨.closing none, 13, 6⟩] := by
    refine Eq.trans (congrArg scan ?_) (scan_toDirectives ?_)
    · decide
    · decide
  have hUnclosed : scan unclosed = [⟨.opening "a", 0, 4⟩, ⟨.var "x", 4, 3⟩,
      ⟨.literal "\x7b\x7b/b\x7d\x7d", 7, 6⟩] := by
    refine Eq.trans (congrArg scan ?_) (scan_toDirectives ?_)
    · decide
    · decide
  have h : Unconfused [] (compile closed).tokens := by
    rw [compile, hClosed]
    decide
  have h' : Unconfused [] (compile unclosed).tokens := by
    rw [compile, hUnclosed]
    decide
  have hExport : toMustache (compile closed).tokens = toMustache (compile unclosed).tokens := by
    rw [compile, compile, hClosed, hUnclosed]
    decide
  exact ⟨h, h', hExport, output_eq_of_toMustache_eq h h' hExport⟩

/-- A section that holds its own Mustache end as text, and the same text after the section. -/
theorem output_ne_of_text_is_end :
    let inside := "\x7b#a\x7d\x7b\x7b/a\x7d\x7d\x7b#end\x7d"
    let behind := "\x7b#a\x7d\x7b#end\x7d\x7b\x7b/a\x7d\x7d"
    toMustache (compile inside).tokens = toMustache (compile behind).tokens ∧
      ((compile inside).render .empty).output = "" ∧
      ((compile behind).render .empty).output = "\x7b\x7b/a\x7d\x7d" := by
  intro inside behind
  have hInside : scan inside = [⟨.opening "a", 0, 4⟩, ⟨.literal "\x7b\x7b/a\x7d\x7d", 4, 6⟩,
      ⟨.closing none, 10, 6⟩] := by
    refine Eq.trans (congrArg scan ?_) (scan_toDirectives ?_)
    · decide
    · decide
  have hBehind : scan behind = [⟨.opening "a", 0, 4⟩, ⟨.closing none, 4, 6⟩,
      ⟨.literal "\x7b\x7b/a\x7d\x7d", 10, 6⟩] := by
    refine Eq.trans (congrArg scan ?_) (scan_toDirectives ?_)
    · decide
    · decide
  refine ⟨?_, ?_, ?_⟩
  · rw [compile, compile, hInside, hBehind]
    decide
  · simp only [render, compile, hInside]
    decide
  · simp only [render, compile, hBehind]
    decide

end Template
end DocTemplate
