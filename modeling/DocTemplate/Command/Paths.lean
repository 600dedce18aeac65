import DocTemplate.Command.Batch

/-! The paths that a command concerns, and the places on the way of a path. -/

namespace DocTemplate

/-- The paths that a command may read or write under given settings. The configuration file is not
among them. -/
def Command.paths (settings : Settings) : Command → List FilePath
  | .render o => settings.templatePath o.template :: (o.data ++ o.output.toList)
  | .batch o =>
    let outputs := match Batch.jobs o.outDir [] o.data with
      | .ok jobs => jobs.map Batch.Job.output
      | .error _ => []
    settings.templatePath o.template :: o.outDir :: (o.data ++ outputs)
  | .check o => o.templates.map settings.templatePath
  | .normalize o => settings.templatePath o.template :: o.output.toList
  | .variables o => settings.templatePath o.template :: o.context.toList
  | .config _ => []

/-- The place that a part of a path leads to from a place. -/
def Place.step (place : Place) (part : String) : Place :=
  if FilePath.isVoid part then place
  else if part == ".." then place.dropLast
  else place ++ [part]

/-- The places after each of some parts of a path, from a place on. -/
def Place.after (place : Place) : List String → List Place
  | [] => []
  | part :: parts => place.step part :: Place.after (place.step part) parts

/-- The places on the way of a path. -/
def FilePath.places (current : Place) (p : FilePath) : List Place :=
  Place.after (if p.isAbsolute then [] else current) p.parts

end DocTemplate
