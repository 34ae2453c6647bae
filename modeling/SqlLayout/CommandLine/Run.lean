import SqlLayout.CommandLine.Audit

/-! # Runs

A run lays out standard input, or the SQL files that a path names: the file itself, or all below a
folder in the order of their paths. A file that cannot be read or written is told and does not
stop the run. A file that cannot even be looked at breaks it off, and so does a folder in which the
search for files fails. Faults in the configuration stop it before any file is looked at.
-/

namespace SqlLayout.CommandLine

/-- The text of a file that holds a laid out text: it ends with a line feed, unless it is empty. -/
def withFinalNewline (laidOut : Text) : Text :=
  if laidOut.isEmpty then [] else laidOut ++ ['\n']

/-- The suffix of SQL files. -/
def sqlSuffix : Text :=
  ".sql".toList

/-- Whether a file has the suffix of SQL files, in any letter case. -/
def hasSqlSuffix (p : Path) : Bool :=
  (splitSuffix (p.getLast?.getD [])).2.map Char.toLower == sqlSuffix

/-- The files that a path names: itself, or what a search finds below it with a name that ends as
    those of SQL files do. -/
def collect (access : Access) (tree : Tree) (p : Path) : Except FileFault (List Path) :=
  match tree.get? p with
  | some .folder =>
    (tree.search access p).map fun found =>
      Path.sort (found.filter fun q => (q.getLast?.getD []).endsWith sqlSuffix)
  | some (.file _) => .ok (if hasSqlSuffix p then [p] else [])
  | none => .ok []

/-- What comes of reading a SQL file. -/
inductive SqlFile where
  /-- It is not there, or is no SQL file. -/
  | skipped
  /-- It cannot be read. -/
  | unreadable (why : Text)
  /-- Its text, with line feeds at the ends of lines. -/
  | text (content : Text)

/-- What comes of opening and decoding a file or folder. -/
def SqlFile.ofNode (access : Access) (p : Path) (node : Node) : SqlFile :=
  if access.unreadable.contains p then
    .unreadable (FileFault.trouble .notPermitted (quoted p.text)).message
  else
    match node with
    | .folder => .unreadable (FileFault.trouble .isAFolder (quoted p.text)).message
    | .file bytes =>
      match Utf8.decode bytes with
      | .error e => .unreadable e.message
      | .ok s => .text (Text.unifyLineEnds s)

/-- What comes of reading a path that can be looked at. -/
def SqlFile.find (access : Access) (tree : Tree) (p : Path) : SqlFile :=
  match tree.get? p with
  | none => .skipped
  | some node => if hasSqlSuffix p then .ofNode access p node else .skipped

/-- Reads a path. Only what comes of opening and decoding is told and passed over. That it cannot be
    looked at whether there is a file breaks the run off. -/
def SqlFile.read (access : Access) (tree : Tree) (p : Path) : Except FileFault SqlFile :=
  match tree.hides? access p with
  | some fault => .error fault
  | none => .ok (.find access tree p)

/-- The audit folder, if stages are to be written. -/
def auditRoute (arguments : Arguments) : Except Breakdown (Option Route) :=
  match arguments.debug, arguments.auditFolder with
  | false, _ => .ok none
  | true, some folder => .ok (some (.ofText folder))
  | true, none => .error .noAuditFolder

/-- Lays out a text; with a folder for the stages they are written there. -/
def layOutText (around : Surroundings) (arguments : Arguments) (options : Options)
    (audit : Option Route) (sql : Text) (s : Session) : Outcome Text :=
  match audit with
  | some route => Audit.layOut around options arguments.verbose route sql s
  | none =>
    let told := if arguments.verbose then s.say (Trace.format options sql) else s
    ⟨told, .ok (format options sql)⟩

/-- Writes a laid out text into its file. -/
def writeBack (around : Surroundings) (p : Path) (output : Text) (s : Session) : Session :=
  if around.readonly.contains p then
    let fault := FileFault.trouble .notPermitted (quoted p.text)
    s.sayLine ("[ERROR] Failed to write ".toList ++ p.text ++ ": ".toList ++ fault.message)
  else
    (s.withTree (s.tree.put p (.file (Utf8.encode output)))).sayLine
      ("File ".toList ++ p.text ++ " formatted and replaced successfully.".toList)

/-- Ends the work on a file: tells about the stages, tells that it would change, prints it, or
    writes it. -/
def conclude (around : Surroundings) (arguments : Arguments) (p : Path) (audit : Option Route)
    (laidOut : Text) (changed : Bool) (s : Session) : Session :=
  match audit with
  | some route =>
    s.sayLine ("DEBUG MODE: Stages for ".toList ++ p.text ++ " saved to ".toList ++ route.text)
  | none =>
    if arguments.check then
      if changed then s.sayLine ("Would reformat: ".toList ++ p.text) else s
    else if arguments.dryRun then s.sayLine laidOut
    else if changed then writeBack around p (withFinalNewline laidOut) s
    else if arguments.verbose then
      s.sayLine ("[DEBUG] ".toList ++ p.text ++ " already formatted.".toList)
    else s

/-- Works on a file, and tells whether laying it out changes it. -/
def processFile (around : Surroundings) (arguments : Arguments) (options : Options) (root p : Path)
    (s : Session) : Outcome Bool :=
  match SqlFile.read around.toAccess s.tree p with
  | .error fault => ⟨s, .error (.file fault)⟩
  | .ok .skipped => ⟨s.sayLine ("[SKIPPED] ".toList ++ p.text ++ " (not a .sql file)".toList), .ok false⟩
  | .ok (.unreadable why) =>
    ⟨s.sayLine ("[ERROR] Failed to read ".toList ++ p.text ++ ": ".toList ++ why), .ok false⟩
  | .ok (.text sql) =>
    (Outcome.mk s (auditRoute arguments)).andThen fun s folder =>
      let audit := folder.map fun route => Audit.folderFor route s.tree root p
      (layOutText around arguments options audit sql s).andThen fun s laidOut =>
        let changed := withFinalNewline laidOut != sql
        (s.checkText around arguments p.text sql laidOut).andThen fun s _ =>
          ⟨conclude around arguments p audit laidOut changed s, .ok changed⟩

/-- Works on files one after the other, and counts those that laying out changes. -/
def processFiles (around : Surroundings) (arguments : Arguments) (options : Options) (root : Path)
    (count : Nat) (s : Session) : List Path → Outcome Nat
  | [] => ⟨s, .ok count⟩
  | p :: rest =>
    (processFile around arguments options root p s).andThen fun s changed =>
      processFiles around arguments options root (if changed then count + 1 else count) s rest

def exitOk : Nat := 0

/-- The exit code when a check found something to change. -/
def exitChanged : Nat := 1

/-- The exit code for faults. -/
def exitError : Nat := 2

/-- Lays out standard input. -/
def processInput (around : Surroundings) (arguments : Arguments) (options : Options) (s : Session) :
    Outcome Nat :=
  match Utf8.decode around.stdin with
  | .error e => ⟨s, .error (.input e)⟩
  | .ok read =>
    let sql := Text.unifyLineEnds read
    (Outcome.mk s (auditRoute arguments)).andThen fun s folder =>
      let audit := folder.map (·.below [Audit.stdinName])
      (layOutText around arguments options audit sql s).andThen fun s laidOut =>
        (s.checkText around arguments "<stdin>".toList sql laidOut).andThen fun s _ =>
          let code :=
            if arguments.check && withFinalNewline laidOut != sql then exitChanged else exitOk
          ⟨s.sayLine laidOut, .ok code⟩

/-- Lays out the files at a path and below it. -/
def processBelow (around : Surroundings) (arguments : Arguments) (options : Options) (root : Path)
    (s : Session) : Outcome Nat :=
  match collect around.toAccess s.tree root with
  | .error fault => ⟨s, .error (.file fault)⟩
  | .ok [] => ⟨s.sayLine "No .sql files found to process.".toList, .ok exitOk⟩
  | .ok files =>
    (processFiles around arguments options root 0 s files).andThen fun s count =>
      if arguments.check && 0 < count then
        ⟨s.sayLine (Nat.toDigits 10 count ++ " file(s) would be reformatted.".toList),
          .ok exitChanged⟩
      else ⟨s, .ok exitOk⟩

/-- Lays out the files that the path names. -/
def processPath (around : Surroundings) (arguments : Arguments) (options : Options) (s : Session) :
    Outcome Nat :=
  let route := Route.ofText arguments.path
  let root := route.absolute around.home
  if route.hasNul then ⟨s, .error (.file .nulInName)⟩
  else
    match s.tree.look around.toAccess root with
    | .missing | .blocked =>
      ⟨s.sayLine ("ERROR: Path does not exist: ".toList ++ root.text), .ok exitError⟩
    | .hidden trouble => ⟨s, .error (.file (.trouble trouble (quoted root.text)))⟩
    | .node _ _ => processBelow around arguments options root s

/-- The config file that is read when none is named. -/
def defaultConfig : Text :=
  ".sqlrestyle".toList

/-- The options of the config file that is named, or else of the default one if it is there. -/
def configured (access : Access) (tree : Tree) (home : Path) (arguments : Arguments) :
    Except Config.LoadFault Entries :=
  let named := arguments.config.getD []
  let route := Route.ofText (if named.isEmpty then defaultConfig else named)
  match named.isEmpty, Config.Source.find tree home route access with
  | true, .missing => .ok []
  | _, source => Config.load route.text source

/-- Named values with the flags of the command line on top. -/
def withFlags (arguments : Arguments) (entries : Entries) : Entries :=
  OptionName.all.foldl (fun entries option =>
    match arguments.styles.lookup option with
    | some value => entries.assign option.hostName value
    | none => entries) entries

/-- The options of a run: the defaults, on top of them the config file, on top of it the flags. -/
def resolve (access : Access) (tree : Tree) (home : Path) (arguments : Arguments) :
    Except Config.LoadFault Options :=
  match configured access tree home arguments with
  | .error fault => .error fault
  | .ok entries => .ok (Options.ofEntries (withFlags arguments entries))

/-- Does what the arguments ask for, and gives the exit code. -/
def work (around : Surroundings) (arguments : Arguments) (s : Session) : Outcome Nat :=
  match resolve around.toAccess s.tree around.home arguments with
  | .error (.unreachable fault) => ⟨s, .error (.file fault)⟩
  | .error fault => ⟨s.sayLine ("ERROR: ".toList ++ fault.message), .ok exitError⟩
  | .ok options =>
    let told :=
      if arguments.verbose then s.sayLine ("[DEBUG] Options: ".toList ++ options.write) else s
    if arguments.path = ['-'] then processInput around arguments options told
    else processPath around arguments options told

/-- What a call leaves behind. -/
structure Ending where
  /-- The tree, what was printed, and the questions to the linter. -/
  session : Session
  /-- What was printed about faults in the arguments. -/
  errors : Text := []
  /-- The exit code, unless the call broke off. -/
  code : Except Breakdown Nat

/-- A call of the program. -/
def call (around : Surroundings) (texts : List Text) (tree : Tree) : Ending :=
  let s : Session := { tree }
  match readArguments texts with
  | .error fault => { session := s, errors := fault.report, code := .ok exitError }
  | .ok .help => { session := s.say help, code := .ok exitOk }
  | .ok (.work arguments) =>
    let done := work around arguments s
    { session := done.session, code := done.value }

end SqlLayout.CommandLine
