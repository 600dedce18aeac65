import DocTemplate.Command.Variables
import DocTemplate.Proofs.Command.Run
import DocTemplate.Proofs.Data.Fields
import DocTemplate.Proofs.Template.References
import DocTemplate.Proofs.Template.Repair

/-! What a coverage report tells of a rendering. The report marks a variable as missing if rendering
evaluated it somewhere without a value, and as found otherwise. So the mark tells whether all
evaluations of the variable had a value, if there were any. A variable that stands only in sections
left out is not evaluated, and it is marked as found whether the data have it or not. -/

namespace DocTemplate

/-! ### Evaluations -/

namespace Template

/-- Rendering comes to a variable of this name and looks it up with this result. -/
def Evaluates (t : Template) (context : Value) (name : String) (result : Option Value) : Prop :=
  ∃ k r path position, (Rendering.start context).Visits t.root.children k r (.var path position) ∧
    path.isEmpty = false ∧ path.text = name ∧ r.scope.lookup? path = result

/-- Rendering evaluates the name at least once, and each time it has a value. -/
def Covers (t : Template) (context : Value) (name : String) : Prop :=
  (∃ result, t.Evaluates context name result) ∧
    ∀ result, t.Evaluates context name result → result.isSome

variable {context : Value} {name : String}

/-- Only names that the template refers to are evaluated. -/
theorem Evaluates.mem_vars {t : Template} {result : Option Value}
    (h : t.Evaluates context name result) : name ∈ (References.ofNode t.root).vars := by
  obtain ⟨k, r, path, position, hVisit, hPath, rfl, -⟩ := h
  exact References.mem_vars_of_visits hVisit hPath

theorem isSome_iff_not_evaluates_none {t : Template} :
    (∀ result, t.Evaluates context name result → result.isSome) ↔
      ¬t.Evaluates context name none := by
  refine ⟨fun h hNone => by simpa using h none hNone, fun h result hResult => ?_⟩
  rw [Option.isSome_iff_ne_none]
  rintro rfl
  exact h hResult

/-- Rendering reports a name as missing if it evaluates it somewhere without a value. -/
theorem mem_missing_iff (raw : String) :
    name ∈ ((compile raw).render context).missingVariables.map Diagnostic.path ↔
      (compile raw).Evaluates context name none := by
  rw [missingVariables_render, List.mem_map]
  constructor
  · rintro ⟨d, hMissing, rfl⟩
    obtain ⟨k, r, path, position, hVisit, ⟨hPath, hNone⟩, rfl⟩ :=
      Node.mem_missingVariables_render.mp hMissing
    exact ⟨k, r, path, position, hVisit, hPath, rfl, hNone⟩
  · rintro ⟨k, r, path, position, hVisit, hPath, rfl, hNone⟩
    exact ⟨.missingVariable path.text position, Node.mem_missingVariables_render.mpr
      ⟨k, r, path, position, hVisit, ⟨hPath, hNone⟩, rfl⟩, rfl⟩

end Template

namespace Coverage

open Template

/-! ### Marks -/

/-- The marks follow from what rendering the tree alone misses: repairs are about tags. -/
theorem vars_ofTemplateAgainst (raw : String) (context : Value) :
    (ofTemplateAgainst (compile raw) context).vars =
      (References.ofNode (compile raw).root).vars.map fun name => ⟨name, some
        !(((compile raw).root.render context).missingVariables.map Diagnostic.path).contains name⟩ := by
  rw [ofTemplateAgainst, missingVariables_render]

theorem names_vars (raw : String) (context : Value) :
    (ofTemplateAgainst (compile raw) context).vars.map Entry.name =
      (References.ofNode (compile raw).root).vars := by
  rw [vars_ofTemplateAgainst, List.map_map]
  exact List.map_id _

section Marks

variable {raw : String} {context : Value} {e : Entry}
  (h : e ∈ (ofTemplateAgainst (compile raw) context).vars)
include h

theorem found_eq_false_iff : e.found = some false ↔ (compile raw).Evaluates context e.name none := by
  obtain ⟨name, -, rfl⟩ := List.mem_map.mp h
  rw [← mem_missing_iff, Option.some.injEq, Bool.not_eq_false', List.contains_iff_mem]

theorem found_eq_true_iff :
    e.found = some true ↔
      ∀ result, (compile raw).Evaluates context e.name result → result.isSome := by
  rw [isSome_iff_not_evaluates_none, ← found_eq_false_iff h]
  obtain ⟨name, -, rfl⟩ := List.mem_map.mp h
  simp

/-- The mark tells whether rendering covers the name exactly if rendering evaluates it at all. -/
theorem marks_cover_iff :
    (e.found = some true ↔ (compile raw).Covers context e.name) ↔
      ∃ result, (compile raw).Evaluates context e.name result := by
  rw [found_eq_true_iff h, Covers]
  constructor
  · intro hMark
    by_contra hNever
    have hAll : ∀ result, (compile raw).Evaluates context e.name result → result.isSome :=
      fun result hResult => absurd ⟨result, hResult⟩ hNever
    exact hNever (hMark.mp hAll).1
  · exact fun hOnce => ⟨fun hAll => ⟨hOnce, hAll⟩, And.right⟩

end Marks

/-! ### The command -/

/-- The report as it is printed. -/
def shown (format : OutputFormat) (coloured : Bool) (c : Coverage) : String :=
  match format with
  | .json => c.toJson.pretty ++ "\n"
  | .text => String.join ((c.lines coloured).map (· ++ "\n"))

end Coverage

theorem Action.runOn_printLines (lines : List String) (c : Console) :
    (lines.forM printLine).runOn c =
      (.ok (), { c with stdout := c.stdout ++ String.join (lines.map (· ++ "\n")) }) := by
  induction lines generalizing c with
  | nil => rw [List.map_nil, String.join_nil, String.append_empty]; rfl
  | cons line lines ih =>
    have hFirst : (printLine line).runOn c =
        (.ok (), { c with stdout := c.stdout ++ (line ++ "\n") }) := rfl
    show (printLine line >>= fun _ => lines.forM printLine).runOn c = _
    rw [runOn_bind_ok hFirst, ih, List.map_cons, String.join_cons, String.append_assoc]

/-- With a data file the command prints the report on the template and that data. -/
theorem VariablesOptions.runOn_run {o : VariablesOptions} {settings : Settings} {c : Console}
    {source : TemplateFile} {path : FilePath} {context : Value} (host : Host)
    (hPath : o.context = some path)
    (hSource : TemplateFile.read settings c.files o.template = .ok source)
    (hContext : DataFile.load c.files path = .ok context) :
    (o.run host settings).runOn c = (.ok (), { c with
      stdout := c.stdout ++ (Coverage.ofTemplateAgainst (.compile source.raw) context).shown
        o.format host.coloured }) := by
  have hRead := Action.runOn_fromFiles (fun fs => TemplateFile.read settings fs o.template) c
  have hLoad := Action.runOn_fromFiles (fun fs => DataFile.load fs path) c
  rw [hSource] at hRead
  rw [hContext] at hLoad
  rw [run, Action.runOn_bind_ok hRead, hPath]
  refine (Action.runOn_bind_ok hLoad _).trans ?_
  cases o.format with
  | json => rfl
  | text => exact Action.runOn_printLines _ c

namespace Coverage

open Template

/-- The report lists the variables of the template, and among them all that rendering evaluates. It
marks a variable as missing if some evaluation of it has no value and as found if all have one. So
it marks as found what rendering covers, for each variable that rendering evaluates at all and for
no other. The command prints this report. -/
theorem marks_evaluations (raw : String) (context : Value) :
    let t := compile raw
    let report := ofTemplateAgainst t context
    report.vars.map Entry.name = (References.ofNode t.root).vars ∧
    (∀ name result, t.Evaluates context name result → name ∈ report.vars.map Entry.name) ∧
    (∀ e ∈ report.vars,
      (e.found = some true ↔ ∀ result, t.Evaluates context e.name result → result.isSome) ∧
      (e.found = some false ↔ t.Evaluates context e.name none) ∧
      ((e.found = some true ↔ t.Covers context e.name) ↔
        ∃ result, t.Evaluates context e.name result)) ∧
    ∀ (o : VariablesOptions) (host : Host) (settings : Settings) (c : Console)
      (source : TemplateFile) (path : FilePath), o.context = some path →
      TemplateFile.read settings c.files o.template = .ok source → source.raw = raw →
      DataFile.load c.files path = .ok context →
      (o.run host settings).runOn c =
        (.ok (), { c with stdout := c.stdout ++ report.shown o.format host.coloured }) := by
  intro t report
  have hNames := names_vars raw context
  refine ⟨hNames, fun name result hResult => hNames ▸ hResult.mem_vars, fun e he => ?_, ?_⟩
  · exact ⟨found_eq_true_iff he, found_eq_false_iff he, marks_cover_iff he⟩
  · rintro o host settings c source path hPath hSource rfl hContext
    exact VariablesOptions.runOn_run host hPath hSource hContext

/-- Two rows, of which the second one lacks a field, and a section without data. -/
theorem marks_evaluations_rows :
    let raw := "\x7b#r\x7d\x7bx\x7d\x7by\x7d\x7b#end\x7d\x7b#z\x7d\x7bw\x7d\x7b#end\x7d"
    let data := "\x7b\"r\":[\x7b\"x\":true,\"y\":true\x7d,\x7b\"x\":true\x7d]\x7d"
    let context := Value.mapping (.ofList [("r", .sequence
      [.mapping (.ofList [("x", .bool true), ("y", .bool true)]),
        .mapping (.ofList [("x", .bool true)])])])
    let files : FileSystem := ⟨[(["t"], .file raw.toUTF8), (["d.json"], .file data.toUTF8)], [], []⟩
    let o : VariablesOptions := ⟨⟨"t"⟩, some ⟨"d.json"⟩, .text⟩
    (∀ result, (compile raw).Evaluates context "x" result → result.isSome) ∧
      (compile raw).Evaluates context "y" none ∧
      (o.run ⟨none, none, 1, false⟩ .default).runOn ⟨files, "", ""⟩ =
        (.ok (), ⟨files, "Variables:\n  ✓ w\n  ✓ x\n  ✗ y\nSections:\n  ✓ r\n  ✗ z\n", ""⟩) := by
  intro raw data context files o
  have hScan : Token.scan raw =
      [⟨.opening "r", 0, 4⟩, ⟨.var "x", 4, 3⟩, ⟨.var "y", 7, 3⟩, ⟨.closing none, 10, 6⟩,
        ⟨.opening "z", 16, 4⟩, ⟨.var "w", 20, 3⟩, ⟨.closing none, 23, 6⟩] :=
    Token.scan_eq (by decide) (by decide)
  have hRoot : (compile raw).root = .root [.ofName "r" 0 [.var (Path.parse "x") 4,
      .var (Path.parse "y") 7], .ofName "z" 16 [.var (Path.parse "w") 20]] := by
    show Node.ofTokens (Balanced.ofTokens (Token.scan raw)).tokens = _
    rw [hScan]
    rfl
  have hVars : (ofTemplateAgainst (compile raw) context).vars =
      [⟨"w", some true⟩, ⟨"x", some true⟩, ⟨"y", some false⟩] := by
    rw [vars_ofTemplateAgainst, hRoot]
    decide +kernel
  have hSects : (ofTemplateAgainst (compile raw) context).sects =
      [⟨"r", some true⟩, ⟨"z", some false⟩] := by
    rw [ofTemplateAgainst, hRoot]
    decide +kernel
  have hShown : (ofTemplateAgainst (compile raw) context).shown .text false =
      "Variables:\n  ✓ w\n  ✓ x\n  ✗ y\nSections:\n  ✓ r\n  ✗ z\n" := by
    rw [shown, lines, hVars, hSects]
    decide +kernel
  have hSource : TemplateFile.read .default files ⟨"t"⟩ = .ok (.ofText ⟨"t"⟩ raw) := by
    decide +kernel
  have hContext : DataFile.load files ⟨"d.json"⟩ = .ok context := by decide +kernel
  obtain ⟨-, -, hMarks, hRun⟩ := marks_evaluations raw context
  refine ⟨(hMarks ⟨"x", some true⟩ (by rw [hVars]; decide)).1.mp rfl,
    (hMarks ⟨"y", some false⟩ (by rw [hVars]; decide)).2.1.mp rfl, ?_⟩
  rw [hRun o ⟨none, none, 1, false⟩ .default ⟨files, "", ""⟩ _ _ rfl hSource rfl hContext]
  show (_, (⟨files, "" ++ (ofTemplateAgainst (compile raw) context).shown .text false, ""⟩ :
    Console)) = _
  rw [hShown, String.empty_append]

/-- A name that no data defines, in a section left out: it is marked as found, though rendering
never looks it up. -/
theorem found_never_evaluated :
    let t := compile "\x7b#a\x7d\x7bx\x7d\x7b#end\x7d"
    ⟨"x", some true⟩ ∈ (ofTemplateAgainst t .empty).vars ∧ ¬t.Covers .empty "x" ∧
      (∀ result, ¬t.Evaluates .empty "x" result) ∧ Value.empty.resolve? ["x"] = none := by
  intro t
  have hScan : Token.scan "\x7b#a\x7d\x7bx\x7d\x7b#end\x7d" =
      [⟨.opening "a", 0, 4⟩, ⟨.var "x", 4, 3⟩, ⟨.closing none, 7, 6⟩] :=
    Token.scan_eq (by decide) (by decide)
  have hRoot : t.root = .root [.sect "a" (Path.parse "a") 0 [.var (Path.parse "x") 4]] := by
    show Node.ofTokens (Balanced.ofTokens (Token.scan _)).tokens = _
    rw [hScan]
    rfl
  have hNever : ∀ result, ¬t.Evaluates .empty "x" result := by
    rintro result ⟨k, r, path, position, hVisit, -⟩
    rw [hRoot] at hVisit
    -- The section has no passes, and nothing comes after it.
    cases hVisit with
    | later hAfter => cases hAfter
    | inside room passes _ =>
      have hNone : (Rendering.start .empty).scope.passes "a" (Path.parse "a") = [] := by decide
      rw [hNone] at passes
      simp at passes
  refine ⟨?_, fun hCovers => ?_, hNever, rfl⟩
  · rw [vars_ofTemplateAgainst, hRoot]
    decide +kernel
  · obtain ⟨⟨result, hResult⟩, -⟩ := hCovers
    exact hNever result hResult

end Coverage
end DocTemplate
