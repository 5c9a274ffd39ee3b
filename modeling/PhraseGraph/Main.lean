import PhraseGraph.CommandLine.Run

/-!
# The program

The command line is carried out on the files of the system and in the current year: what it may read is
taken up into a tree of files beforehand, and what it writes is written afterwards. Everything in between
is `CommandLine.run`.
-/

namespace PhraseGraph

/-- The number of leap years up to a year. -/
def leapYearsUpTo (year : Int) : Int := year / 4 - year / 100 + year / 400

/-- The day on which a year begins, counted from the first day of 1970. -/
def firstDayOf (year : Int) : Int :=
  365 * (year - 1970) + leapYearsUpTo (year - 1) - leapYearsUpTo 1969

/-- The year of a day. 400 years have 146097 days, and by their mean length one is off by one year at
    most. -/
def yearOfDay (day : Int) : Int :=
  let year := 1970 + day * 400 / 146097
  if day < firstDayOf year then year - 1
  else if firstDayOf (year + 1) ≤ day then year + 1
  else year

/-- A day lies between the first one of its year and that of the next year. -/
theorem firstDayOf_yearOfDay_le (day : Int) :
    firstDayOf (yearOfDay day) ≤ day ∧ day < firstDayOf (yearOfDay day + 1) := by
  have hmean : firstDayOf (1970 + day * 400 / 146097 - 1) ≤ day ∧
      day < firstDayOf (1970 + day * 400 / 146097 + 1 + 1) := by
    simp only [firstDayOf, leapYearsUpTo]
    omega
  simp only [yearOfDay]
  generalize 1970 + day * 400 / 146097 = year at hmean ⊢
  obtain ⟨hbefore, hafter⟩ := hmean
  split
  · next h => exact ⟨hbefore, by rwa [Int.sub_add_cancel]⟩
  · next h =>
    split
    · next hnext => exact ⟨hnext, hafter⟩
    · next hnext => exact ⟨Int.not_lt.1 h, Int.not_le.1 hnext⟩

/-- The current year. The time at which a file is made is that of the system's clock. -/
def currentYear : IO Int :=
  IO.FS.withTempFile fun _ path => do
    return yearOfDay ((← path.metadata).modified.sec / 86400)

/-- The tree with the file at a path, or with the directory and the files in it. -/
def takeUp (t : FileTree) (path : String) : IO FileTree := do
  let place := (← IO.currentDir) / path
  if ← place.isDir then
    let mut t := t.plant path .directory
    for entry in ← place.readDir do
      unless ← entry.path.isDir do
        t := t.plant (Path.join path entry.fileName) (.file (← IO.FS.readBinFile entry.path))
    return t
  else if ← place.pathExists then
    return t.plant path (.file (← IO.FS.readBinFile place))
  else return t

/-- The tree with a directory, whose files do not matter. -/
def takeUpDirectory (t : FileTree) (path : String) : IO FileTree := do
  if ← ((← IO.currentDir) / path).isDir then return t.plant path .directory else return t

/-- The files that a command line may read, and the directory that it writes to. -/
def takeUpAll (a : CommandLine.Arguments) : IO FileTree := do
  let here := (← IO.currentDir).toString
  let mut t := ({ here } : FileTree).plant "." .directory
  for path in a.config.toList do
    t ← takeUp t path
  if let .ok c := CommandLine.configOf a t then
    for path in CommandLine.inputs a c do
      t ← takeUp t path
  for path in a.command.output.toList do
    t ← takeUpDirectory t (((Path.parent? path).filter fun p => !p.isEmpty).getD ".")
    t ← takeUpDirectory t path
  return t

/-- Writes the file that a command has written in the tree. -/
def writeOutput (a : CommandLine.Arguments) (files : FileTree) : IO Unit := do
  for path in a.command.output.toList do
    if let .ok (.file content) := files.find path then
      IO.FS.writeBinFile path content

/-- Carries out a command line. The result is 0, or 1 if the command fails, or 2 if the command line
    is not understood. -/
def runCommandLine (words : List String) : IO UInt32 := do
  match CommandLine.Arguments.parse words with
  | .error fault =>
    IO.eprintln fault.name
    return if fault == .help || fault == .version then 0 else 2
  | .ok a =>
    match CommandLine.run a (← currentYear) (← takeUpAll a) with
    | .error failure =>
      IO.eprintln ("Error: " ++ failure.message)
      return 1
    | .ok outcome =>
      writeOutput a outcome.files
      IO.print outcome.text
      return 0

end PhraseGraph

/-- The program. -/
def main (words : List String) : IO UInt32 := PhraseGraph.runCommandLine words
